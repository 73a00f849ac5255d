import Mathlib.Data.List.Induction
import Mathlib.Logic.Relation
import ScopedCss.Proofs.Composition.Session
import ScopedCss.Proofs.Scoping.Steps

namespace ScopedCss

-- A call of `scopeFile`, with the session that it is made in.
structure Visit where
  fuel : Nat
  path : String
  contents : Option String
  session : Session

-- A point in the scoping of a text: the output so far or the error that it stopped at, the
-- files that it asked for, and the session that they left behind.
abbrev Point := (Except Error Scoping.Progress × List ImportRecord) × Session

namespace Visit

open Scoping SessionM

variable (p : Project) (v : Visit)

def run : Except Error ScopedModule × Session :=
  (scopeFile p v.fuel v.path v.contents).on v.session

-- The text is read when the file is already in the chain.
def reading : Except Error String × Session :=
  (textOf p v.path v.contents).on (v.session.enter v.path)

def other (path : String) : SessionM ScopedModule :=
  scopeFile p (v.fuel - 1) path none

def resolve (t : Session) (specifier : String) : Except Error String :=
  p.resolver.resolve p.disk (t.registry.knows p.disk) specifier v.path

def after (steps : List Step) : Point :=
  ComposeM.on
    (runSteps v.path (p.naming.generate · v.path) (composed p v.path (v.other p)) steps .start)
    [] (v.reading p).2

-- The file is scoped under `text`, as it has no slot yet.
structure Opens (text : String) : Prop where
  fuel    : v.fuel ≠ 0
  slot    : v.session.slots.get? v.path = none
  reading : (v.reading p).1 = .ok text

def target (t : Session) (path : String) : Visit where
  fuel     := v.fuel - 1
  path     := path
  contents := none
  session  := t

-- The steps of a text lead to a call for each specifier that they name first.
inductive Calls : Visit → Prop
  | mk {text : String} {steps rest : List Step} {step : Step} {progress : Progress}
    {records : List ImportRecord} {t : Session} {specifier path : String} :
    v.Opens p text →
    plan text = steps ++ step :: rest →
    v.after p steps = ((.ok progress, records), t) →
    step.asks progress = some specifier →
    v.resolve p t specifier = .ok path →
    Calls (v.target t path)

-- What one more step makes of a point.
inductive Advance (step : Step) : Point → Point → Prop
  | failed {e : Error} {records : List ImportRecord} {t : Session} :
    Advance step ((.error e, records), t) ((.error e, records), t)
  | known {progress : Progress} {records : List ImportRecord} {t : Session} :
    step.asks progress = none →
    Advance step ((.ok progress, records), t)
      ((runKnown v.path (p.naming.generate · v.path) progress step, records), t)
  | unresolved {progress : Progress} {records : List ImportRecord} {t : Session} {specifier : String}
    {e : Error} :
    step.asks progress = some specifier →
    v.resolve p t specifier = .error e →
    Advance step ((.ok progress, records), t) ((.error e, records), t)
  | refused {progress : Progress} {records : List ImportRecord} {t u : Session}
    {specifier path : String} {e : Error} :
    step.asks progress = some specifier →
    v.resolve p t specifier = .ok path →
    (v.target t path).run p = (.error e, u) →
    Advance step ((.ok progress, records), t) ((.error e, records), u)
  | answered {progress : Progress} {records : List ImportRecord} {t u : Session}
    {specifier path : String} {r : ScopedModule} :
    step.asks progress = some specifier →
    v.resolve p t specifier = .ok path →
    (v.target t path).run p = (.ok r, u) →
    Advance step ((.ok progress, records), t)
      ((runKnown v.path (p.naming.generate · v.path) (progress.know specifier r.tokens) step,
        records ++ [⟨.ofList (Text.unquote specifier.toList), path⟩]), u)

variable {p v} {v' : Visit} {text : String} {steps rest : List Step} {step : Step}

theorem after_nil : v.after p [] = ((.ok .start, []), (v.reading p).2) :=
  rfl

theorem runKnown_on (progress : Progress) (records : List ImportRecord) (t : Session)
    (h : step.asks progress = none) :
    ComposeM.on (runStep v.path (p.naming.generate · v.path) (composed p v.path (v.other p)) progress step)
      records t = ((runKnown v.path (p.naming.generate · v.path) progress step, records), t) := by
  rw [runStep_known h]
  rfl

theorem advance (steps : List Step) (step : Step) :
    v.Advance p step (v.after p steps) (v.after p (steps ++ [step])) := by
  have h : v.after p (steps ++ [step]) =
      match v.after p steps with
      | ((.ok progress, records), t) =>
        ComposeM.on (runStep v.path (p.naming.generate · v.path) (composed p v.path (v.other p))
          progress step) records t
      | ((.error e, records), t) => ((.error e, records), t) := by
    unfold after
    rw [runSteps_append, ComposeM.on_bind]
    generalize ComposeM.on _ _ _ = point
    rcases point with ⟨⟨e | progress, records⟩, t⟩
    · rfl
    · simp [runSteps]
  rw [h]
  rcases v.after p steps with ⟨⟨e | progress, records⟩, t⟩
  case error => exact .failed
  case ok =>
    dsimp only
    cases ha : step.asks progress
    case none =>
      rw [runKnown_on progress records t ha]
      exact .known ha
    case some specifier =>
      rw [runStep_asks ha, ComposeM.on_bind, composed_on]
      cases hr : v.resolve p t specifier
      case error =>
        unfold resolve at hr
        rw [hr]
        exact .unresolved ha hr
      case ok path =>
        have hr' := hr
        unfold resolve at hr
        rw [hr]
        dsimp only
        rcases ht : (v.other p path).on t with ⟨e | r, u⟩
        case error => exact .refused ha hr' ht
        case ok =>
          dsimp only
          rw [runKnown_on _ _ _ (Step.asks_know ha)]
          exact .answered ha hr' ht

-- Two calls for the same path, in projects that name classes alike, make the same of a step if they look up the same
-- file for it and the calls that they make for that end alike.
theorem Advance.agree {p' : Project} {before after after' : Point} (h : v.Advance p step before after)
    (h' : v'.Advance p' step before after') (hp : v'.path = v.path) (hn : p'.naming = p.naming)
    (hres : ∀ progress records t specifier, before = ((.ok progress, records), t) →
      step.asks progress = some specifier → v'.resolve p' t specifier = v.resolve p t specifier)
    (hrun : ∀ progress records t specifier path, before = ((.ok progress, records), t) →
      step.asks progress = some specifier → v.resolve p t specifier = .ok path →
      (v'.target t path).run p' = (v.target t path).run p) : after' = after := by
  cases h
  case failed => cases h'; rfl
  case known ha =>
    cases h'
    case known => simp [hp, hn]
    all_goals simp_all
  case unresolved ha hr =>
    have := hres _ _ _ _ rfl ha
    cases h'
    case unresolved ha' hr' => simp_all
    all_goals simp_all
  case refused ha hr he =>
    have := hres _ _ _ _ rfl ha
    have := hrun _ _ _ _ _ rfl ha hr
    cases h' <;> simp_all
  case answered ha hr he =>
    have := hres _ _ _ _ rfl ha
    have := hrun _ _ _ _ _ rfl ha hr
    cases h' <;> simp_all

theorem Advance.eq {before after after' : Point} (h : v.Advance p step before after)
    (h' : v'.Advance p step before after') (hp : v'.path = v.path)
    (hrun : ∀ progress records t specifier path, before = ((.ok progress, records), t) →
      step.asks progress = some specifier → v.resolve p t specifier = .ok path →
      (v'.target t path).run p = (v.target t path).run p) : after' = after :=
  h.agree h' hp rfl (fun _ _ _ _ _ _ => by simp [resolve, hp]) hrun

variable (v)

-- The result of a file whose text has been scoped to its end.
def scopedModule (progress : Progress) (records : List ImportRecord) (t : Session) : ScopedModule where
  css        := progress.css
  tokens     := progress.exports.mapValues fun _ names => " ".intercalate names
  sourceMap  := some (lineSourceMap v.path progress.css)
  imports    := records.map (·.specifier)
  importTree := importTree t records

def filed (records : List ImportRecord) (t : Session) : Session :=
  { t with imports := t.imports.insert v.path records, completed := t.completed ++ [v.path] }

variable (p)

-- How a call can end.
inductive Outcome : Except Error ScopedModule × Session → Prop
  | exhausted :
    v.fuel = 0 →
    Outcome (.error (cyclic v.session.chain v.path), v.session)
  | done {r : ScopedModule} :
    v.fuel ≠ 0 →
    v.session.slots.get? v.path = some (.done r) →
    Outcome (.ok r, v.session)
  | pending :
    v.fuel ≠ 0 →
    v.session.slots.get? v.path = some .pending →
    Outcome (.error (cyclic v.session.chain v.path), v.session)
  | unread {e : Error} {t : Session} :
    v.fuel ≠ 0 →
    v.session.slots.get? v.path = none →
    v.reading p = (.error e, t) →
    Outcome (.error e, t.leave v.path (.error e))
  | stopped {text : String} {e : Error} {records : List ImportRecord} {t : Session} :
    v.Opens p text →
    v.after p (plan text) = ((.error e, records), t) →
    Outcome (.error e, t.leave v.path (.error e))
  | finished {text : String} {progress : Progress} {records : List ImportRecord} {t : Session} :
    v.Opens p text →
    v.after p (plan text) = ((.ok progress, records), t) →
    Outcome (.ok (v.scopedModule progress records t),
      (v.filed records t).leave v.path (.ok (v.scopedModule progress records t)))

variable {p v}

theorem scopeBody_on {fuel : Nat} (h : v.fuel = fuel + 1) :
    (scopeBody p fuel v.path v.contents).on (v.session.enter v.path) =
      match v.reading p with
      | (.error e, t) => (.error e, t)
      | (.ok text, _) =>
        match v.after p (plan text) with
        | ((.error e, _), t)           => (.error e, t)
        | ((.ok progress, records), t) => (.ok (v.scopedModule progress records t), v.filed records t) := by
  unfold scopeBody
  rcases hr : v.reading p with ⟨e | text, t⟩
  case error => rw [on_bind_error hr]
  case ok =>
    rw [on_bind_ok hr]
    dsimp only
    rw [scopeText_on]
    unfold Scoping.scope
    rw [ComposeM.on_bind]
    have ha : v.after p (plan text) = ComposeM.on
      (runSteps v.path (p.naming.generate · v.path)
        (composed p v.path (scopeFile p fuel · none)) (plan text) .start) [] t := by
      have ho : v.other p = (scopeFile p fuel · none) := by
        funext path
        simp [other, h]
      rw [after, hr, ho]
    rw [← ha]
    rcases v.after p (plan text) with ⟨⟨e | progress, records⟩, u⟩ <;> rfl

theorem run_done (hf : v.fuel ≠ 0) {r : ScopedModule}
    (hs : v.session.slots.get? v.path = some (.done r)) : v.run p = (.ok r, v.session) := by
  have ⟨fuel, hfuel⟩ := Nat.exists_eq_succ_of_ne_zero hf
  rw [run, hfuel, scopeFile_done_on hs]

theorem run_pending (hf : v.fuel ≠ 0) (hs : v.session.slots.get? v.path = some .pending) :
    v.run p = (.error (cyclic v.session.chain v.path), v.session) := by
  have ⟨fuel, hfuel⟩ := Nat.exists_eq_succ_of_ne_zero hf
  rw [run, hfuel, scopeFile_pending_on hs]

theorem run_none (hf : v.fuel ≠ 0) (hs : v.session.slots.get? v.path = none) :
    v.run p =
      match v.reading p with
      | (.error e, t) => (.error e, t.leave v.path (.error e))
      | (.ok text, _) =>
        match v.after p (plan text) with
        | ((.error e, _), t) => (.error e, t.leave v.path (.error e))
        | ((.ok progress, records), t) =>
          (.ok (v.scopedModule progress records t),
            (v.filed records t).leave v.path (.ok (v.scopedModule progress records t))) := by
  have ⟨fuel, hfuel⟩ := Nat.exists_eq_succ_of_ne_zero hf
  rw [run, hfuel, scopeFile_none_on hs, scopeBody_on hfuel]
  rcases v.reading p with ⟨e | text, t⟩
  case error => rfl
  case ok =>
    dsimp only
    rcases v.after p (plan text) with ⟨⟨e | progress, records⟩, u⟩ <;> rfl

theorem outcome : v.Outcome p (v.run p) := by
  by_cases hf : v.fuel = 0
  case pos =>
    rw [run, hf]
    exact .exhausted hf
  case neg =>
    cases hs : v.session.slots.get? v.path
    case some slot =>
      cases slot
      case pending => exact run_pending hf hs ▸ .pending hf hs
      case done r  => exact run_done hf hs ▸ .done hf hs
    case none =>
      rw [run_none hf hs]
      rcases hr : v.reading p with ⟨e | text, t⟩
      case error => exact .unread hf hs hr
      case ok =>
        have ho : v.Opens p text := ⟨hf, hs, by rw [hr]⟩
        dsimp only
        rcases ha : v.after p (plan text) with ⟨⟨e | progress, records⟩, t⟩
        case error => exact .stopped ho ha
        case ok    => exact .finished ho ha

theorem run_opens (ho : v.Opens p text) :
    v.run p =
      match v.after p (plan text) with
      | ((.error e, _), t) => (.error e, t.leave v.path (.error e))
      | ((.ok progress, records), t) =>
        (.ok (v.scopedModule progress records t),
          (v.filed records t).leave v.path (.ok (v.scopedModule progress records t))) := by
  have hread := ho.reading
  rw [run_none ho.fuel ho.slot]
  rcases hv : v.reading p with ⟨e | text', t⟩
  case error => simp [hv] at hread
  case ok =>
    simp only [hv, Except.ok.injEq] at hread
    subst hread
    rfl

-- A file that is scoped at all with success is scoped to the end of its text.
theorem run_of_opens {r : ScopedModule} (ho : v.Opens p text) (hr : (v.run p).1 = .ok r) :
    ∃ progress records t, v.after p (plan text) = ((.ok progress, records), t) ∧
      r = v.scopedModule progress records t ∧
      v.run p = (.ok (v.scopedModule progress records t),
        (v.filed records t).leave v.path (.ok (v.scopedModule progress records t))) := by
  rw [run_opens ho] at hr ⊢
  rcases ha : v.after p (plan text) with ⟨⟨e | progress, records⟩, t⟩
  all_goals rw [ha] at hr
  · cases hr
  · exact ⟨progress, records, t, rfl, (Except.ok.inj hr).symm, rfl⟩

theorem Calls.fuel_lt {w : Visit} (h : v.Calls p w) : w.fuel < v.fuel := by
  cases h
  case mk ho _ _ _ _ =>
    have := ho.fuel
    simp only [target]
    omega

-- Calls become fewer on the way down, so that what holds of a call because it holds of those that
-- it makes holds of all.
theorem induct {P : Visit → Prop} (h : ∀ v, (∀ w, v.Calls p w → P w) → P v) (v : Visit) : P v := by
  induction hf : v.fuel using Nat.strongRecOn generalizing v
  case ind fuel ih => exact h v fun w hw => ih w.fuel (hf ▸ hw.fuel_lt) w rfl

theorem plan_end (text : String) : plan text = plan text ++ [] :=
  (List.append_nil _).symm

-- What the calls for a text keep is kept by all of its steps.
theorem after_induct {P : Session → Prop} (ho : v.Opens p text) (h₀ : P (v.reading p).2)
    (hc : ∀ w, v.Calls p w → P w.session → P (w.run p).2) (h : plan text = steps ++ rest) :
    P (v.after p steps).2 := by
  induction steps using List.reverseRec generalizing rest
  case nil => exact h₀
  case append_singleton steps step ih =>
    replace h : plan text = steps ++ step :: rest := by simpa using h
    have ha := advance (p := p) (v := v) steps step
    have hp := ih h
    generalize v.after p (steps ++ [step]) = after at ha
    generalize hb : v.after p steps = before at ha hp
    cases ha
    case refused hs hr he =>
      have := hc _ (.mk ho h hb hs hr) hp
      rwa [he] at this
    case answered hs hr he =>
      have := hc _ (.mk ho h hb hs hr) hp
      rwa [he] at this
    all_goals exact hp

-- A property of all that the steps of a text come to: each step keeps it, once what the step asks for
-- is known, and so does being told the exports of another file.
theorem steps_induct {P : List Step → Progress → Prop} {progress : Progress} {records : List ImportRecord}
    {t : Session} (start : P [] .start)
    (known : ∀ {done rest step q q'}, steps = done ++ step :: rest → P done q → step.asks q = none →
      runKnown v.path (p.naming.generate · v.path) q step = .ok q' → P (done ++ [step]) q')
    (know : ∀ {done q specifier} tokens, q.imported.contains specifier = false → P done q →
      P done (q.know specifier tokens))
    (ha : v.after p steps = ((.ok progress, records), t)) : P steps progress := by
  have hall (done rest) (h : steps = done ++ rest) (progress records t)
      (ha : v.after p done = ((.ok progress, records), t)) : P done progress := by
    induction done using List.reverseRec generalizing rest progress records t
    case nil =>
      cases ha
      exact start
    case append_singleton done step ih =>
      replace h : steps = done ++ step :: rest := by simpa using h
      have hadv := advance (p := p) (v := v) done step
      rw [ha] at hadv
      generalize hb : v.after p done = before at hadv
      generalize hr : (Except.ok progress : Except Error Progress) = result at hadv
      cases hadv
      case known hs => exact known h (ih _ h _ _ _ hb) hs hr.symm
      case answered hs _ _ =>
        exact known h (know _ (Step.asks_eq_some.1 hs).2 (ih _ h _ _ _ hb)) (Step.asks_know hs) hr.symm
      all_goals cases hr
  exact hall steps [] (by simp) progress records t ha

end Visit

end ScopedCss
