import ScopedCss.Proofs.Composition.Evaluates
import ScopedCss.Proofs.Composition.Imports

namespace ScopedCss

-- When the files that a session reads have the texts of a collection. Files with a result are not
-- read any more, so that they may have changed. `Ends` is asked of the sessions that calls end in; what
-- is said of errors is up to `Same`.
structure Reader (p : Project) (W : Collection) where
  Good    : Session → Prop
  Ends    : Session → Prop
  Same    : Error → Error → Prop
  refl    : ∀ e, Same e e
  ends    : ∀ {s t}, (∀ q, s.registry.contains q = true → t.registry.contains q = true) →
    Ends t → Ends s
  known   : ∀ {s q}, Good s → Ends s → s.registry.contains q = true → W.known q = true
  resolve : ∀ {s specifier path}, Good s →
    (∀ target, p.resolver.resolve p.disk (s.registry.knows p.disk) specifier path = .ok target →
      s.registry.knows p.disk target = true → W.known target = true) →
    Alike Same (p.resolver.resolve p.disk (s.registry.knows p.disk) specifier path)
      (W.resolve p specifier path)
  text    : ∀ {s path}, Good s → Path.IsCanonical path → s.resultOf path = none →
    Ends ((SessionM.contentsOf p path).on s).2 →
    Alike Same ((SessionM.contentsOf p path).on s).1 (W.text path)
  read    : ∀ {s path}, Good s → Path.IsCanonical path → s.resultOf path = none →
    Ends ((SessionM.contentsOf p path).on s).2 → Good ((SessionM.contentsOf p path).on s).2
  frame   : ∀ {s t}, Good s → t.registry = s.registry → t.preprocessors = s.preprocessors →
    (∀ q, t.resultOf q = none → s.resultOf q = none) → Good t

variable {p : Project} {W : Collection} {R : Reader p W}

-- What a session remembers is what scoping anew comes to.
structure Consistent (R : Reader p W) (s : Session) : Prop where
  good : R.Good s
  done : ∀ q r, s.resultOf q = some r →
    (∃ chain, Evaluates p W chain q (.ok r)) ∧ ∀ x ∈ r.importTree, ∃ r, s.resultOf x = some r

theorem Consistent.keeps {s t : Session} (h : Consistent R s) (hk : s.Keeps t)
    (hr : t.registry = s.registry) (hp : t.preprocessors = s.preprocessors)
    (hd : ∀ q r, t.resultOf q = some r → s.resultOf q = some r ∨
      (∃ chain, Evaluates p W chain q (.ok r)) ∧ ∀ x ∈ r.importTree, ∃ r, t.resultOf x = some r) :
    Consistent R t where
  good := by
    refine R.frame h.good hr hp fun q hq => ?_
    cases hs : s.resultOf q
    case none   => rfl
    case some r => simp [(hk q r hs).1] at hq
  done q r hq := by
    rcases hd q r hq with hs | hn
    · have ⟨he, hi⟩ := h.done q r hs
      refine ⟨he, fun x hx => ?_⟩
      have ⟨r, hr⟩ := hi x hx
      exact ⟨r, (hk x r hr).1⟩
    · exact hn

namespace Visit

open Scoping SessionM

-- A call that fits the collection: the file is called by its text, or has the text to be read, and
-- the fuel is enough for all chains that can come about.
structure Fits (R : Reader p W) (v : Visit) : Prop where
  proper     : v.Proper
  chained    : v.session.Chained
  consistent : Consistent R v.session
  admits     : W.Admits v.session.chain
  nested     : v.session.chain ≠ [] → v.contents = none
  text       : ∀ text, v.contents = some text → W.text v.path = .ok text
  fuel       : W.size + 2 ≤ v.fuel + v.session.chain.length

variable {v : Visit} {text : String}

theorem Fits.fuel_ne_zero (h : v.Fits R) : v.fuel ≠ 0 := by
  have := h.admits.length_le
  have := h.fuel
  omega

theorem Fits.not_mem (h : v.Fits R) (hs : v.session.slots.get? v.path = none) :
    v.path ∉ v.session.chain := by
  intro hm
  have := (h.chained.pending _).2 hm
  rw [hs] at this
  cases this

theorem Fits.canonical (h : v.Fits R) (hc : v.session.chain ≠ []) : Path.IsCanonical v.path :=
  h.proper.canonical (h.nested hc)

-- A file is read as the collection has it.
theorem Fits.reading (h : v.Fits R) (hs : v.session.slots.get? v.path = none)
    (hends : R.Ends (v.reading p).2) :
    Alike R.Same (v.reading p).1 (W.text v.path) ∧ Consistent R (v.reading p).2 := by
  have hres (q : String) : (v.session.enter v.path).resultOf q = v.session.resultOf q := by
    by_cases hq : q = v.path
    case pos => simp [Session.resultOf, Session.enter, hq, hs]
    case neg => simp [Session.resultOf, Session.enter, hq]
  have henter : Consistent R (v.session.enter v.path) :=
    h.consistent.keeps (Session.keeps_enter hs) rfl rfl fun q r hq => .inl (hres q ▸ hq)
  unfold Visit.reading at hends ⊢
  cases hc : v.contents
  case some text =>
    rw [h.text text hc]
    exact ⟨.ok text, henter⟩
  case none =>
    rw [hc] at hends
    change R.Ends ((contentsOf p v.path).on (v.session.enter v.path)).2 at hends
    have hcan := h.proper.canonical hc
    have hnone : (v.session.enter v.path).resultOf v.path = none := by
      simp [Session.resultOf, Session.enter]
    obtain ⟨registry, preprocessors, log, he, _, _⟩ :=
      contentsOf_later (p := p) (s := v.session.enter v.path) h.proper.keyed hcan.forwardSlashes_eq
    have hgood := R.read henter.good hcan hnone hends
    have hdone := henter.done
    rw [he] at hgood
    refine ⟨R.text henter.good hcan hnone hends, ?_⟩
    change Consistent R ((contentsOf p v.path).on (v.session.enter v.path)).2
    rw [he]
    exact ⟨hgood, hdone⟩

-- Where the scoping of a text stands: the session remembers what was taken classes from.
structure Remembers (R : Reader p W) (s : Session) (composed : List Composed) (t : Session) : Prop where
  consistent : Consistent R t
  later      : s.Later p t
  results    : ∀ c ∈ composed, t.resultOf c.1.path = some c.2

-- What a run in the session comes to, told by one with all other results given.
structure Tells (R : Reader p W) (s : Session) {α : Type}
    (point : (Except Error α × List ImportRecord) × Session) (told : Except Error α × List Composed) :
    Prop where
  records   : point.1.2 = told.2.map Prod.fst
  alike     : Alike R.Same point.1.1 told.1
  remembers : Remembers R s told.2 point.2

-- Scoping in a session and scoping with all other results given, side by side.
def remembering (R : Reader p W) (s : Session) :
    RelatedExcept (StateT (List ImportRecord) (StateM Session)) (StateM (List Composed)) where
  Rel {_} x y :=
    (∀ records t, s.Later p t → t.Later p (ComposeM.on x records t).2) ∧
      ∀ composed t, Remembers R s composed t → R.Ends (ComposeM.on x (composed.map Prod.fst) t).2 →
        Tells R s (ComposeM.on x (composed.map Prod.fst) t) (y.run.run composed)
  pure a := ⟨fun _ t _ => .refl t, fun _ _ h _ => ⟨rfl, .ok a, h⟩⟩
  throw e := ⟨fun _ t _ => .refl t, fun _ _ h _ => ⟨rfl, .error (R.refl e), h⟩⟩
  bind {_ _ x y f g} hx hf := by
    refine ⟨fun records t ht => ?_, fun composed t h hends => ?_⟩
    · have hl := hx.1 records t ht
      rw [ComposeM.on_bind]
      generalize ComposeM.on x records t = point at hl
      rcases point with ⟨⟨e | a, records'⟩, u⟩
      case error => exact hl
      case ok    => exact hl.trans ((hf a).1 records' u (ht.trans hl))
    · have hl := hx.1 (composed.map Prod.fst) t h.later
      have ht := hx.2 composed t h
      rw [ComposeM.on_bind] at hends ⊢
      rw [Stateful.run_bind]
      generalize ComposeM.on x (composed.map Prod.fst) t = point at hl ht hends
      generalize y.run.run composed = told at ht
      rcases point with ⟨⟨e | a, records⟩, u⟩
      all_goals rcases told with ⟨result, composed'⟩
      case error =>
        have ⟨hr, ha, h'⟩ := ht hends
        cases ha
        case error hs => exact ⟨hr, .error hs, h'⟩
      case ok =>
        have hmore := ((hf a).1 records u (h.later.trans hl)).registry.contains
        have ⟨hr, ha, h'⟩ := ht (R.ends hmore hends)
        dsimp only at hr
        subst hr
        cases ha
        case ok => exact (hf a).2 composed' u h' hends

theorem Remembers.answer {s t u : Session} {composed : List Composed} {target specifier : String}
    {r : ScopedModule} (h : Remembers R s composed t) (hc : Consistent R u) (hl : t.Later p u)
    (hr : u.resultOf target = some r) :
    Remembers R s (composed ++ [(⟨specifier, target⟩, r)]) u where
  consistent := hc
  later      := h.later.trans hl
  results c hm := by
    rcases List.mem_append.1 hm with hm | hm
    · exact (hl.keeps _ _ (h.results c hm)).1
    · exact List.mem_singleton.1 hm ▸ hr

-- The call that a session makes for a file that is taken classes from fits as well.
theorem Fits.target (h : v.Fits R) (hs : v.session.slots.get? v.path = none)
    (ht : W.text v.path = .ok text) {composed : List Composed} {t : Session}
    (hr : Remembers R (v.reading p).2 composed t) {specifier target : String}
    (hres : v.resolve p t specifier = .ok target) : (v.target t target).Fits R where
  proper     := .target (hr.later.keyed (reading_keyed h.proper)) hres
  chained    := hr.later.chained (reading_chained h.proper h.chained hs)
  consistent := hr.consistent
  admits     := by
    have := h.admits.append (h.not_mem hs) h.canonical ht
    rwa [← reading_chain (p := p) h.proper, ← hr.later.chain] at this
  nested _   := rfl
  text _ hc  := by simp [Visit.target] at hc
  fuel       := by
    have hf := h.fuel
    have hn := h.fuel_ne_zero
    have hl := congrArg List.length (hr.later.chain.trans (reading_chain (p := p) h.proper))
    simp only [List.length_append, List.length_singleton] at hl
    simp only [Visit.target]
    omega

-- A file that is called, and that is there, is one of the collection.
theorem Fits.known (h : v.Fits R) (hc : v.contents = none) (hends : R.Ends (v.run p).2)
    (hk : v.session.registry.knows p.disk v.path = true) : W.known v.path = true := by
  cases hs : v.session.slots.get? v.path
  case some slot =>
    cases slot
    case pending =>
      have ⟨css, ht⟩ := h.admits.read _ ((h.chained.pending _).1 hs)
      exact W.knows _ css ht
    case done r =>
      have ⟨⟨_, he⟩, _⟩ := h.consistent.done _ r (Session.resultOf_of_slot hs)
      have ⟨css, ht⟩ := he.text
      exact W.knows _ css ht
  case none =>
    have hends' : R.Ends (v.reading p).2 :=
      R.ends (fun _ => run_contains h.proper h.fuel_ne_zero hs) hends
    have ⟨_, _, _, he, _, hr⟩ := reading_later (p := p) h.proper
    refine R.known (h.reading hs hends').2.good hends' ?_
    rw [he]
    exact hr hc hk

-- A lookup of exports in a session answers as if the results of all files were given.
theorem Fits.composed (h : v.Fits R) (hs : v.session.slots.get? v.path = none)
    (ht : W.text v.path = .ok text) {other : String → Except Error ScopedModule}
    (hother : ∀ specifier target, W.resolve p specifier v.path = .ok target →
      Evaluates p W (v.session.chain ++ [v.path]) target (other specifier))
    (ih : ∀ w : Visit, w.fuel < v.fuel → w.Fits R → R.Ends (w.run p).2 → ∃ result,
      Evaluates p W w.session.chain w.path result ∧ Alike R.Same (w.run p).1 result ∧
        Consistent R (w.run p).2)
    (specifier : String) :
    (remembering R (v.reading p).2).Rel (composed p v.path (v.other p) specifier)
      (ScopedCss.answer p W v.path other specifier) := by
  refine ⟨fun records t hl => ?_, fun composed t hr hends => ?_⟩
  · rw [composed_on]
    cases hres : p.resolver.resolve p.disk (t.registry.knows p.disk) specifier v.path
    case error => exact .refl t
    case ok target =>
      have hp : (v.target t target).Proper := .target (hl.keyed (reading_keyed h.proper)) hres
      have hrun := run_later (p := p) hp
      dsimp only
      change t.Later p ((v.other p target).on t).2 at hrun
      generalize (v.other p target).on t = result at hrun
      rcases result with ⟨e | r, u⟩ <;> exact hrun
  · rw [composed_on] at hends ⊢
    rw [answer_run]
    have hresolve : _ → Alike R.Same
        (p.resolver.resolve p.disk (t.registry.knows p.disk) specifier v.path)
        (W.resolve p specifier v.path) := R.resolve hr.consistent.good
    cases hres : p.resolver.resolve p.disk (t.registry.knows p.disk) specifier v.path
    all_goals rw [hres] at hresolve hends
    case error e =>
      have ha := hresolve (by simp)
      cases hw : W.resolve p specifier v.path
      all_goals
        rw [hw] at ha
        cases ha
      case error.error hsame => exact ⟨rfl, .error hsame, hr⟩
    case ok target =>
      have hf : (v.target t target).Fits R := h.target hs ht hr hres
      have hrun : (v.other p target).on t = (v.target t target).run p := rfl
      have hends' : R.Ends ((v.target t target).run p).2 := by
        rw [← hrun]
        dsimp only at hends
        generalize (v.other p target).on t = result at hends
        rcases result with ⟨e | r, u⟩ <;> exact hends
      have ha := hresolve fun other ho hk => by
        cases ho
        exact hf.known rfl hends' hk
      cases hw : W.resolve p specifier v.path
      all_goals
        rw [hw] at ha
        cases ha
      have hlt : (v.target t target).fuel < v.fuel := by
        have := h.fuel_ne_zero
        simp only [Visit.target]
        omega
      obtain ⟨result, he, halike, hc⟩ := ih _ hlt hf hends'
      have hl := run_later (p := p) hf.proper
      have hchain : (v.target t target).session.chain = v.session.chain ++ [v.path] :=
        hr.later.chain.trans (reading_chain h.proper)
      rw [hchain] at he
      have hsame := he.unique (hother specifier target hw)
      subst hsame
      dsimp only
      rw [hrun]
      rcases ho : (v.target t target).run p with ⟨e | r, u⟩
      all_goals
        rw [ho] at halike hc hl
        generalize other specifier = result at halike
        cases halike
      case error hsame =>
        exact ⟨rfl, .error hsame, hc, hr.later.trans hl, fun c hm => (hl.keeps _ _ (hr.results c hm)).1⟩
      case ok => exact ⟨by simp, .ok _, hr.answer hc hl (resultOf_run ho)⟩

-- The steps of a text, taken in the session and with all other results given.
structure Beside (R : Reader p W) (v : Visit) (text : String) (other : String → Except Error ScopedModule)
    (told : Except Error Progress × List Composed) : Prop where
  evaluates : Evaluates p W v.session.chain v.path (resultOfText p W v.path other text)
  anew      : (runSteps v.path (p.naming.generate · v.path) (ScopedCss.answer p W v.path other)
    (plan text) .start).run.run [] = told
  tells     : Tells R (v.reading p).2 (v.after p (plan text)) told

theorem Fits.beside (h : v.Fits R) (ho : v.Opens p text) (hends : R.Ends (v.run p).2)
    (ih : ∀ w : Visit, w.fuel < v.fuel → w.Fits R → R.Ends (w.run p).2 → ∃ result,
      Evaluates p W w.session.chain w.path result ∧ Alike R.Same (w.run p).1 result ∧
        Consistent R (w.run p).2) :
    ∃ other told, Beside R v text other told := by
  have hread : R.Ends (v.reading p).2 :=
    R.ends (fun _ => run_contains h.proper h.fuel_ne_zero ho.slot) hends
  have ⟨ha, hc⟩ := h.reading ho.slot hread
  have ht : W.text v.path = .ok text := by
    rw [ho.reading] at ha
    generalize W.text v.path = found at ha
    cases ha
    rfl
  have hadmits := h.admits.append (h.not_mem ho.slot) h.canonical ht
  have ⟨other, hother⟩ := exists_other (p := p) v.path fun target hcan =>
    exists_evaluates hadmits fun _ => hcan
  have hrel : (remembering R (v.reading p).2).Rel
      (runSteps v.path (p.naming.generate · v.path) (SessionM.composed p v.path (v.other p))
        (plan text) .start)
      (runSteps v.path (p.naming.generate · v.path) (ScopedCss.answer p W v.path other)
        (plan text) .start) :=
    runSteps_related _ (h.composed ho.slot ht hother ih) _ _
  refine ⟨other, _, .read (h.not_mem ho.slot) ht fun specifier _ => hother specifier, rfl, ?_⟩
  refine hrel.2 [] (v.reading p).2 ⟨hc, .refl _, by simp⟩ (R.ends (fun q hq => ?_) hends)
  rw [run_registry ho]
  exact hq

def sheetOf (v : Visit) (progress : Progress) : ScopedSheet where
  css       := progress.css
  tokens    := progress.exports.mapValues fun _ names => " ".intercalate names
  sourceMap := some (lineSourceMap v.path progress.css)

theorem Remembers.scopedModule {s t : Session} {composed : List Composed} (h : Remembers R s composed t)
    (progress : Progress) :
    v.scopedModule progress (composed.map Prod.fst) t = moduleOf (v.sheetOf progress) composed := by
  have himports : composed.flatMap (fun c => ((t.resultOf c.1.path).map (·.importTree)).getD []) =
      composed.flatMap (·.2.importTree) := by
    refine List.flatMap_congr fun c hc => ?_
    simp [h.results c hc]
  simp [moduleOf, Visit.scopedModule, sheetOf, importTree, List.flatMap_map, himports,
    Function.comp_def]

theorem Beside.ok {other : String → Except Error ScopedModule} {progress : Progress}
    {composed : List Composed} (h : Beside R v text other (.ok progress, composed)) :
    resultOfText p W v.path other text = .ok (moduleOf (v.sheetOf progress) composed) := by
  rw [resultOfText, Scoping.scope, Stateful.run_bind, h.anew]
  rfl

theorem Beside.error {other : String → Except Error ScopedModule} {e : Error}
    {composed : List Composed} (h : Beside R v text other (.error e, composed)) :
    resultOfText p W v.path other text = .error e := by
  rw [resultOfText, Scoping.scope, Stateful.run_bind, h.anew]

-- A call comes to what scoping anew comes to, and remembers nothing else.
theorem Fits.run (h : v.Fits R) (hends : R.Ends (v.run p).2) : ∃ result,
    Evaluates p W v.session.chain v.path result ∧ Alike R.Same (v.run p).1 result ∧
      Consistent R (v.run p).2 := by
  induction hf : v.fuel using Nat.strongRecOn generalizing v
  case ind fuel ih =>
    subst hf
    replace ih (w : Visit) (hw : w.fuel < v.fuel) (h : w.Fits R) (he) := ih w.fuel hw h he rfl
    have hbeside {text} (ho : v.Opens p text) := h.beside ho hends ih
    have ho := outcome (p := p) (v := v)
    generalize v.run p = result at ho hends
    cases ho
    case exhausted hf => exact absurd hf h.fuel_ne_zero
    case pending hs =>
      exact ⟨_, .cyclic ((h.chained.pending _).1 hs), .error (R.refl _), h.consistent⟩
    case done r _ hs =>
      have hr := Session.resultOf_of_slot hs
      have ⟨⟨_, he⟩, hi⟩ := h.consistent.done v.path r hr
      refine ⟨_, he.move rfl fun q hq hm => ?_, .ok r, h.consistent⟩
      have ⟨r, hr⟩ : ∃ r, v.session.resultOf q = some r := by
        rcases List.mem_cons.1 hq with rfl | hq
        · exact ⟨r, hr⟩
        · exact hi q hq
      have hp := (h.chained.pending q).2 hm
      rw [Session.slot_of_resultOf hr] at hp
      cases hp
    case unread e t _ hs hr =>
      have hread : R.Ends (v.reading p).2 := by
        rw [hr]
        exact R.ends (t := t.leave v.path (.error e)) (fun _ hq => hq) hends
      have ⟨ha, hc⟩ := h.reading hs hread
      have hp := reading_pending (p := p) h.proper
      rw [hr] at ha hc hp
      generalize ht : W.text v.path = found at ha
      cases ha
      case error hsame =>
        refine ⟨_, .unread (h.not_mem hs) ht, .error hsame, ?_⟩
        exact hc.keeps (Session.keeps_leave_error hp e) rfl rfl fun _ _ hq => .inl (resultOf_leave_error (e := e) hq)
    case stopped text e records t ho ha =>
      have ⟨other, ⟨result, composed⟩, hb⟩ := hbeside ho
      have hp := after_pending ho h.proper (plan_end _)
      have ⟨_, halike, hm⟩ := hb.tells
      have hc := hm.consistent
      rw [ha] at hp halike hc
      cases halike
      case error hsame _ =>
        refine ⟨_, hb.evaluates, hb.error ▸ .error hsame, ?_⟩
        exact hc.keeps (Session.keeps_leave_error hp e) rfl rfl fun _ _ hq => .inl (resultOf_leave_error (e := e) hq)
    case finished text progress records t ho ha =>
      have ⟨other, ⟨result, composed⟩, hb⟩ := hbeside ho
      have hp := after_pending ho h.proper (plan_end _)
      have ⟨hrecords, halike, hm⟩ := hb.tells
      have hc := hm.consistent
      rw [ha] at hp hrecords halike hc hm
      dsimp only at hrecords
      subst hrecords
      cases halike
      have he := hb.evaluates
      rw [hb.ok] at he
      rw [hm.scopedModule]
      have hk := keeps_filed hp (composed.map Prod.fst) (moduleOf (v.sheetOf progress) composed)
      refine ⟨_, he, .ok _, hc.keeps hk rfl rfl fun q r hq => ?_⟩
      rw [resultOf_filed] at hq
      split at hq
      case isFalse => exact .inl hq
      case isTrue hq' =>
        cases hq
        refine .inr ⟨⟨_, hq' ▸ he⟩, fun x hx => ?_⟩
        have ⟨c, hm', hx⟩ := mem_importTree hx
        have hr := hm.results c hm'
        have ⟨r, hr⟩ : ∃ r, t.resultOf x = some r := by
          rcases List.mem_cons.1 hx with rfl | hx
          · exact ⟨_, hr⟩
          · exact (hc.done _ _ hr).2 x hx
        exact ⟨r, (hk x r hr).1⟩

end Visit

end ScopedCss
