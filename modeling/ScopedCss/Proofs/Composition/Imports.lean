import ScopedCss.Proofs.Composition.Chain

namespace ScopedCss

namespace Session

-- A result that stands on other results, and those on others, down to ones that stand on none.
inductive Founded (s : Session) : String → Prop
  | mk {q : String} {r : ScopedModule} :
    s.resultOf q = some r → (∀ record ∈ s.importsOf q, Founded s record.path) → Founded s q

-- One file with a result is composed of another.
def Imports (s : Session) (q target : String) : Prop :=
  (∃ r, s.resultOf q = some r) ∧ ∃ record ∈ s.importsOf q, record.path = target

variable {p : Project} {s t : Session} {q : String}

theorem Founded.keeps (h : s.Founded q) (hk : s.Keeps t) : t.Founded q := by
  induction h
  case mk hr _ ih =>
    have ⟨ht, hi⟩ := hk _ _ hr
    exact .mk ht fun record hm => ih record (hi ▸ hm)

theorem Founded.resultOf (h : s.Founded q) : ∃ r, s.resultOf q = some r := by
  cases h
  case mk r hr _ => exact ⟨r, hr⟩

-- What it stands on has results too.
theorem Founded.closed (h : s.Founded q) : ∀ record ∈ s.importsOf q, ∃ r, s.resultOf record.path = some r := by
  cases h
  case mk hi => exact fun record hm => (hi record hm).resultOf

theorem Founded.acc (h : s.Founded q) : Acc (fun target q => s.Imports q target) q := by
  induction h
  case mk ih =>
    refine .intro _ fun target ht => ?_
    have ⟨_, record, hm, he⟩ := ht
    exact he ▸ ih record hm

theorem not_rel_of_acc {α : Type} {r : α → α → Prop} {a : α} (h : Acc r a) : ¬r a a := by
  induction h
  case intro a _ ih => exact fun hr => ih a hr hr

-- Nothing that has a result is composed of itself.
theorem Founded.acyclic (h : s.Founded q) : ¬Relation.TransGen s.Imports q q := by
  intro hc
  refine not_rel_of_acc h.acc.transGen ?_
  exact Relation.transGen_swap.2 hc

-- All results are founded.
def Grounded (s : Session) : Prop :=
  ∀ q r, s.resultOf q = some r → s.Founded q

-- The results of one session are those of another, but for one file that is founded anyway.
theorem Grounded.keeps (hs : s.Grounded) (hk : s.Keeps t)
    (h : ∀ q r, t.resultOf q = some r → (∃ r, s.resultOf q = some r) ∨ t.Founded q) : t.Grounded := by
  intro q r hr
  rcases h q r hr with ⟨_, hr⟩ | h
  · exact (hs q _ hr).keeps hk
  · exact h

end Session

namespace Visit

open Scoping SessionM

variable {p : Project} {v w : Visit} {text : String} {steps rest : List Step} {t : Session}
  {progress : Progress} {records : List ImportRecord}

theorem resultOf_run {r : ScopedModule} (h : v.run p = (.ok r, t)) : t.resultOf v.path = some r := by
  have ho := outcome (p := p) (v := v)
  rw [h] at ho
  cases ho
  case done hs => exact Session.resultOf_of_slot hs
  case finished => simp [Session.resultOf, Session.leave]

-- What the steps so far have gathered: the specifiers that they name are known by the results of
-- the files that they lead to, and these are recorded.
structure Gathered (p : Project) (v : Visit) (steps : List Step) (progress : Progress)
    (records : List ImportRecord) (t : Session) : Prop where
  asked : ∀ step ∈ steps, ∀ specifier, step.specifier? = some specifier →
    progress.imported.contains specifier = true
  known : ∀ specifier tokens, progress.imported.get? specifier = some tokens →
    ∃ path r, v.resolve p t specifier = .ok path ∧
      ⟨.ofList (Text.unquote specifier.toList), path⟩ ∈ records ∧
      t.resultOf path = some r ∧ r.tokens = tokens
  recorded : ∀ record ∈ records, ∃ r, t.resultOf record.path = some r

theorem resolve_later {s : Session} (h : s.Later p t) (specifier : String) :
    v.resolve p t specifier = v.resolve p s specifier := by
  simp [resolve, h.knows]

theorem Gathered.later {u : Session} (h : Gathered p v steps progress records t)
    (hl : t.Later p u) : Gathered p v steps progress records u where
  asked := h.asked
  known specifier tokens hk := by
    have ⟨path, r, hr, hm, ht, he⟩ := h.known specifier tokens hk
    exact ⟨path, r, (resolve_later hl specifier).trans hr, hm, (hl.keeps _ _ ht).1, he⟩
  recorded record hm := by
    have ⟨r, hr⟩ := h.recorded record hm
    exact ⟨r, (hl.keeps _ _ hr).1⟩

-- A further step that asks for nothing gathers nothing.
theorem Gathered.known_step {step : Step} {progress' : Progress}
    (h : Gathered p v steps progress records t) (ha : step.asks progress = none)
    (he : runKnown v.path (p.naming.generate · v.path) progress step = .ok progress') :
    Gathered p v (steps ++ [step]) progress' records t := by
  have hi := runKnown_imported ha he
  refine ⟨fun s hs specifier hn => ?_, hi ▸ h.known, h.recorded⟩
  rw [hi]
  rcases List.mem_append.1 hs with hs | hs
  · exact h.asked s hs specifier hn
  · cases List.mem_singleton.1 hs
    exact Step.asks_eq_none.1 ha specifier hn

theorem Gathered.answered {specifier path : String} {r : ScopedModule}
    (h : Gathered p v steps progress records t) (hr : v.resolve p t specifier = .ok path)
    (ht : t.resultOf path = some r) :
    Gathered p v steps (progress.know specifier r.tokens)
      (records ++ [⟨.ofList (Text.unquote specifier.toList), path⟩]) t where
  asked step hs other hn := by
    have := h.asked step hs other hn
    simp [Progress.know, this]
  known other tokens hk := by
    simp only [Progress.know, Dict.get?_insert] at hk
    split at hk
    case isTrue he =>
      cases hk
      exact ⟨path, r, he ▸ hr, by simp [he], ht, rfl⟩
    case isFalse =>
      obtain ⟨path, r, hr, hm, ht, he⟩ := h.known other tokens hk
      exact ⟨path, r, hr, by simp [hm], ht, he⟩
  recorded record hm := by
    rcases List.mem_append.1 hm with hm | hm
    · exact h.recorded record hm
    · exact ⟨r, List.mem_singleton.1 hm ▸ ht⟩

theorem gathered (ho : v.Opens p text) (hv : v.Proper) (h : plan text = steps ++ rest)
    (ha : v.after p steps = ((.ok progress, records), t)) :
    Gathered p v steps progress records t := by
  induction steps using List.reverseRec generalizing rest progress records t
  case nil =>
    cases ha
    exact ⟨by simp, by simp [Progress.start], by simp⟩
  case append_singleton steps step ih =>
    replace h : plan text = steps ++ step :: rest := by simpa using h
    have hadv := advance (p := p) (v := v) steps step
    rw [ha] at hadv
    generalize hb : v.after p steps = before at hadv
    generalize hr : (Except.ok progress : Except Error Progress) = result at hadv
    cases hadv
    case known hs => exact (ih h hb).known_step hs hr.symm
    case answered hs hres hrun =>
      have hw : v.Calls p (v.target _ _) := .mk ho h hb hs hres
      have hl := run_later (p := p) (hw.proper hv)
      rw [hrun] at hl
      have := ((ih h hb).later hl).answered ((resolve_later hl _).trans hres) (resultOf_run hrun)
      exact this.known_step (Step.asks_know hs) hr.symm
    all_goals cases hr

theorem resultOf_reading (hv : v.Proper) (hs : v.session.slots.get? v.path = none) (q : String) :
    (v.reading p).2.resultOf q = v.session.resultOf q := by
  have ⟨_, _, _, he, _, _⟩ := reading_later (p := p) hv
  rw [he]
  by_cases hq : q = v.path
  case pos => simp [Session.resultOf, Session.enter, hq, hs]
  case neg => simp [Session.resultOf, Session.enter, hq]

theorem resultOf_leave_error {path q : String} {e : Error} {r : ScopedModule}
    (h : (t.leave path (.error e)).resultOf q = some r) : t.resultOf q = some r := by
  by_cases hq : q = path
  case pos => simp [Session.resultOf, Session.leave, hq] at h
  case neg => simpa [Session.resultOf, Session.leave, hq] using h

theorem resultOf_filed {r : ScopedModule} {q : String} :
    ((v.filed records t).leave v.path (.ok r)).resultOf q =
      if q = v.path then some r else t.resultOf q := by
  by_cases hq : q = v.path
  case pos => simp [Session.resultOf, Session.leave, hq]
  case neg => simp [Session.resultOf, Session.leave, filed, hq]

theorem importsOf_filed {r : ScopedModule} :
    ((v.filed records t).leave v.path (.ok r)).importsOf v.path = records := by
  simp [Session.importsOf, Session.leave, filed]

-- Scoping keeps results founded: what a file is composed of is done before it.
theorem run_grounded (hv : v.Proper) (h : v.session.Grounded) : (v.run p).2.Grounded := by
  induction v using induct (p := p)
  case h v ih =>
    have hread (hs : v.session.slots.get? v.path = none) : (v.reading p).2.Grounded :=
      h.keeps (reading_keeps hv hs) fun q r hr => .inl ⟨r, resultOf_reading hv hs q ▸ hr⟩
    have hafter {text} (ho : v.Opens p text) : (v.after p (plan text)).2.Grounded :=
      after_induct ho (hread ho.slot) (fun w hw => ih w hw (hw.proper hv))
        (plan_end _)
    have hleft {s : Session} (hs : s.Grounded) (hp : s.slots.get? v.path = some .pending) (e : Error) :
        (s.leave v.path (.error e)).Grounded :=
      hs.keeps (Session.keeps_leave_error hp e) fun q r hr => .inl ⟨r, resultOf_leave_error hr⟩
    have ho := outcome (p := p) (v := v)
    generalize v.run p = result at ho
    cases ho
    case unread e t _ hs hr =>
      have hp := reading_pending (p := p) hv
      have := hread hs
      rw [hr] at hp this
      exact hleft this hp e
    case stopped e _ _ ho ha =>
      have hp := after_pending ho hv (plan_end _)
      have := hafter ho
      rw [ha] at hp this
      exact hleft this hp e
    case finished ho ha =>
      have hp := after_pending ho hv (plan_end _)
      have hg := gathered ho hv (plan_end _) ha
      have := hafter ho
      rw [ha] at hp this
      have hk := keeps_filed hp
      refine this.keeps (hk _ _) fun q r hr => ?_
      rw [resultOf_filed] at hr
      split at hr
      case isFalse => exact .inl ⟨r, hr⟩
      case isTrue hq =>
        refine .inr (.mk (r := r) (by rw [resultOf_filed, if_pos hq, hr]) fun record hm => ?_)
        rw [hq, importsOf_filed] at hm
        have ⟨r, hr⟩ := hg.recorded record hm
        exact (this _ r hr).keeps (hk _ _)
    all_goals exact h

-- A call for a file that ends with its result, which stays until the session `t`.
structure Yields (p : Project) (w : Visit) (q : String) (r : ScopedModule) (t : Session) : Prop where
  path   : w.path = q
  opens  : ∃ text, w.Opens p text
  result : (w.run p).1 = .ok r
  keeps  : (w.run p).2.Keeps t

theorem Yields.later {q : String} {r : ScopedModule} {u : Session} (h : Yields p w q r t)
    (hk : t.Keeps u) : Yields p w q r u :=
  { h with keeps := h.keeps.trans hk }

-- Where results come from: they were there, or a call ended with them.
def Origin (p : Project) (v : Visit) (t : Session) : Prop :=
  ∀ q r, t.resultOf q = some r →
    v.session.resultOf q = some r ∨ ∃ w, Within p v w ∧ Yields p w q r t

theorem Origin.keeps {u : Session} (h : Origin p v t) (hk : t.Keeps u)
    (hr : ∀ q r, u.resultOf q = some r → t.resultOf q = some r ∨ ∃ w, Within p v w ∧ Yields p w q r u) :
    Origin p v u := by
  intro q r hq
  rcases hr q r hq with hq | hw
  · exact (h q r hq).imp id fun ⟨w, hw, hy⟩ => ⟨w, hw, hy.later hk⟩
  · exact .inr hw

theorem Calls.origin (hw : v.Calls p w) (hv : v.Proper) (h : Origin p v w.session)
    (hr : Origin p w (w.run p).2) : Origin p v (w.run p).2 := by
  refine h.keeps (run_later (hw.proper hv)).keeps fun q r hq => ?_
  exact (hr q r hq).imp id fun ⟨u, hu, hy⟩ => ⟨u, .head hw hu, hy⟩

theorem run_origin (hv : v.Proper) : Origin p v (v.run p).2 := by
  induction v using induct (p := p)
  case h v ih =>
    have hread (hs : v.session.slots.get? v.path = none) : Origin p v (v.reading p).2 :=
      fun q r hr => .inl (resultOf_reading hv hs q ▸ hr)
    have hafter {text} (ho : v.Opens p text) : Origin p v (v.after p (plan text)).2 :=
      after_induct ho (hread ho.slot) (fun w hw h => hw.origin hv h (ih w hw (hw.proper hv))) (plan_end _)
    have hleft {s : Session} (hs : Origin p v s) (hp : s.slots.get? v.path = some .pending) (e : Error) :
        Origin p v (s.leave v.path (.error e)) :=
      hs.keeps (Session.keeps_leave_error hp e) fun q r hr => .inl (resultOf_leave_error hr)
    have ho := outcome (p := p) (v := v)
    generalize hres : v.run p = result at ho
    cases ho
    case unread e t _ hs hr =>
      have hp := reading_pending (p := p) hv
      have := hread hs
      rw [hr] at hp this
      exact hleft this hp e
    case stopped e _ _ ho ha =>
      have hp := after_pending ho hv (plan_end _)
      have := hafter ho
      rw [ha] at hp this
      exact hleft this hp e
    case finished text _ _ _ ho ha =>
      have hp := after_pending ho hv (plan_end _)
      have := hafter ho
      rw [ha] at hp this
      refine this.keeps (keeps_filed hp _ _) fun q r hr => ?_
      rw [resultOf_filed] at hr
      split at hr
      case isFalse => exact .inl hr
      case isTrue hq =>
        refine .inr ⟨v, .refl, hq.symm, ⟨text, ho⟩, ?_, ?_⟩
        · rw [hres, ← Option.some.inj hr]
        · rw [hres]
          exact .refl _
    all_goals exact fun q r hr => .inl hr

-- The text that a call scopes its file under takes classes from the file at `target`.
def Names (p : Project) (v : Visit) (text target : String) : Prop :=
  ∃ step ∈ plan text, ∃ specifier, step.specifier? = some specifier ∧
    v.resolve p (v.reading p).2 specifier = .ok target

theorem Names.imported {target : String} {r : ScopedModule} (hn : Names p v text target)
    (hv : v.Proper) (ho : v.Opens p text) (hr : (v.run p).1 = .ok r) :
    ∃ record ∈ (v.run p).2.importsOf v.path, record.path = target := by
  have ⟨progress, records, t, ha, _, hrun⟩ := run_of_opens ho hr
  have hg := gathered ho hv (plan_end _) ha
  have hl := after_later ho hv (plan_end _)
  rw [ha] at hl
  have ⟨step, hs, specifier, hspec, hres⟩ := hn
  have ⟨tokens, hk⟩ := Option.isSome_iff_exists.1 (hg.asked step hs specifier hspec)
  have ⟨path, r, hpath, hm, _, _⟩ := hg.known specifier tokens hk
  rw [resolve_later hl, hres, Except.ok.injEq] at hpath
  exact ⟨_, by rwa [hrun, importsOf_filed], hpath.symm⟩

end Visit

end ScopedCss
