import ScopedCss.Proofs.Composition.Visit

namespace ScopedCss

namespace Session

-- What may happen to a session while files are scoped in it. A slot that is taken stays as it is,
-- also when it is pending: only the call that took it settles it.
structure Later (p : Project) (s t : Session) : Prop where
  chain     : t.chain = s.chain
  slots     : ∀ q slot, s.slots.get? q = some slot → t.slots.get? q = some slot
  pending   : ∀ q, t.slots.get? q = some .pending → s.slots.get? q = some .pending
  imports   : ∀ q, s.slots.get? q ≠ none → t.imports.get? q = s.imports.get? q
  registry  : s.registry.Later p.disk (s.slots.get? · ≠ none) t.registry
  completed : ∃ new, t.completed = s.completed ++ new ∧ new.Nodup ∧
    ∀ q ∈ new, s.slots.get? q = none ∧ t.slots.get? q ≠ none

namespace Later

variable {p : Project} {s t u : Session}

theorem refl (s : Session) : Later p s s where
  chain         := rfl
  slots _ _ h   := h
  pending _ h   := h
  imports _ _   := rfl
  registry      := .refl _
  completed     := ⟨[], by simp⟩

theorem taken (h : Later p s t) {q : String} (hq : s.slots.get? q ≠ none) : t.slots.get? q ≠ none := by
  cases hs : s.slots.get? q
  case none => exact absurd hs hq
  case some slot => simp [h.slots q slot hs]

theorem trans (h₁ : Later p s t) (h₂ : Later p t u) : Later p s u where
  chain         := h₂.chain.trans h₁.chain
  slots q _ h   := h₂.slots q _ (h₁.slots q _ h)
  pending q h   := h₁.pending q (h₂.pending q h)
  imports q h   := (h₂.imports q (h₁.taken h)).trans (h₁.imports q h)
  registry      := h₁.registry.trans (h₂.registry.mono fun _ => h₁.taken)
  completed     := by
    have ⟨new₁, he₁, hn₁, hm₁⟩ := h₁.completed
    have ⟨new₂, he₂, hn₂, hm₂⟩ := h₂.completed
    refine ⟨new₁ ++ new₂, by simp [he₁, he₂], ?_, fun q hq => ?_⟩
    · refine List.nodup_append.2 ⟨hn₁, hn₂, fun q hq q' hq' he => ?_⟩
      subst he
      exact (hm₁ q hq).2 (hm₂ q hq').1
    · rcases List.mem_append.1 hq with hq | hq
      · exact ⟨(hm₁ q hq).1, h₂.taken (hm₁ q hq).2⟩
      · refine ⟨?_, (hm₂ q hq).2⟩
        by_contra hs
        exact h₁.taken hs (hm₂ q hq).1

theorem keyed (h : Later p s t) (hk : s.registry.Keyed) : t.registry.Keyed :=
  h.registry.keyed hk

theorem knows (h : Later p s t) : t.registry.knows p.disk = s.registry.knows p.disk :=
  h.registry.knows

end Later

-- The results of a session, with what they are composed of, are also those of another.
def Keeps (s t : Session) : Prop :=
  ∀ q r, s.resultOf q = some r → t.resultOf q = some r ∧ t.importsOf q = s.importsOf q

namespace Keeps

variable {p : Project} {s t u : Session} {path : String}

theorem refl (s : Session) : s.Keeps s :=
  fun _ _ h => ⟨h, rfl⟩

theorem trans (h₁ : s.Keeps t) (h₂ : t.Keeps u) : s.Keeps u := by
  intro q r h
  have ⟨ht, hi₁⟩ := h₁ q r h
  have ⟨hu, hi₂⟩ := h₂ q r ht
  exact ⟨hu, hi₂.trans hi₁⟩

end Keeps

variable {p : Project} {s t : Session} {path q : String}

theorem slot_of_resultOf {r : ScopedModule} (h : s.resultOf q = some r) :
    s.slots.get? q = some (.done r) := by
  unfold resultOf at h
  split at h
  case h_1 hs => rw [hs, Option.some.inj h]
  case h_2 => cases h

theorem resultOf_of_slot {r : ScopedModule} (h : s.slots.get? q = some (.done r)) :
    s.resultOf q = some r := by
  simp [resultOf, h]

theorem Later.keeps (h : s.Later p t) : s.Keeps t := by
  intro q r hr
  have hs := slot_of_resultOf hr
  exact ⟨resultOf_of_slot (h.slots q _ hs), by simp [importsOf, h.imports q (by simp [hs])]⟩

theorem keeps_of_slots (hs : ∀ q r, s.slots.get? q = some (.done r) → t.slots.get? q = some (.done r))
    (hi : ∀ q r, s.slots.get? q = some (.done r) → t.imports.get? q = s.imports.get? q) :
    s.Keeps t := by
  intro q r hr
  have h := slot_of_resultOf hr
  exact ⟨resultOf_of_slot (hs q r h), by simp [importsOf, hi q r h]⟩

theorem keeps_of_eq (hs : t.slots = s.slots) (hi : t.imports = s.imports) : s.Keeps t :=
  keeps_of_slots (fun _ _ h => hs ▸ h) fun _ _ _ => hi ▸ rfl

theorem keeps_enter (h : s.slots.get? path = none) : s.Keeps (s.enter path) := by
  refine keeps_of_slots (fun q r hq => ?_) fun _ _ _ => rfl
  have hne : q ≠ path := fun he => by simp [← he, hq] at h
  simp [enter, hne, hq]

theorem keeps_leave_error (h : s.slots.get? path = some .pending) (e : Error) :
    s.Keeps (s.leave path (.error e)) := by
  refine keeps_of_slots (fun q r hq => ?_) fun _ _ _ => rfl
  have hne : q ≠ path := fun he => by simp [← he, hq] at h
  simp [leave, hne, hq]

end Session

namespace Visit

open Scoping SessionM

-- What calls rely on: files are registered under their own paths, and a file that is not the first
-- of its chain is called by its canonical path.
structure Proper (v : Visit) : Prop where
  keyed     : v.session.registry.Keyed
  canonical : v.contents = none → Path.IsCanonical v.path

variable {p : Project} {v w : Visit} {text : String} {steps rest : List Step}

theorem Proper.target {t : Session} {specifier path : String} (hk : t.registry.Keyed)
    (hr : v.resolve p t specifier = .ok path) : (v.target t path).Proper where
  keyed       := hk
  canonical _ := Resolver.isCanonical_resolve hr

theorem reading_later (hv : v.Proper) :
    ∃ registry preprocessors log,
      (v.reading p).2 = { v.session.enter v.path with registry, preprocessors, log } ∧
      v.session.registry.Later p.disk (· ≠ v.path) registry ∧
      (v.contents = none → v.session.registry.knows p.disk v.path = true →
        registry.contains v.path = true) := by
  unfold reading
  cases hc : v.contents
  case some text => exact ⟨_, _, _, rfl, .refl _, by simp⟩
  case none =>
    have hp := (hv.canonical hc).forwardSlashes_eq
    have ⟨registry, preprocessors, log, he, hl, hr⟩ :=
      contentsOf_later (p := p) (s := v.session.enter v.path) hv.keyed hp
    exact ⟨registry, preprocessors, log, he, hl, fun _ => hr⟩

theorem reading_knows (hc : v.contents = none) (h : (v.reading p).1 = .ok text) :
    v.session.registry.knows p.disk v.path = true := by
  rw [reading, hc] at h
  exact knows_of_contentsOf (s := v.session.enter v.path) h

theorem reading_keyed (hv : v.Proper) : (v.reading p).2.registry.Keyed := by
  have ⟨_, _, _, he, hl, _⟩ := reading_later (p := p) hv
  rw [he]
  exact hl.keyed hv.keyed

section

variable {s t : Session} {path : String} {registry : Registry} {preprocessors : List Preprocessor}
  {log : Log} (hs : s.slots.get? path = none) (hr : s.registry.Later p.disk (· ≠ path) registry)
  (h : { s.enter path with registry, preprocessors, log }.Later p t)

include hs hr h

theorem registry_later_leave : s.registry.Later p.disk (s.slots.get? · ≠ none) t.registry := by
  have hne (q) (hq : s.slots.get? q ≠ none) : q ≠ path := fun he => hq (he ▸ hs)
  refine (hr.mono hne).trans (h.registry.mono fun q hq => ?_)
  simp [Session.enter, hne q hq, hq]

theorem later_leave_error (e : Error) : s.Later p (t.leave path (.error e)) where
  chain := by simp [Session.leave, h.chain, Session.enter]
  slots q slot hq := by
    have hne : q ≠ path := fun he => by simp [← he, hq] at hs
    have := h.slots q slot (by simp [Session.enter, hne, hq])
    simp [Session.leave, hne, this]
  pending q hq := by
    by_cases hne : q = path
    case pos => simp [Session.leave, hne] at hq
    case neg =>
      have := h.pending q (by simpa [Session.leave, hne] using hq)
      simpa [Session.enter, hne] using this
  imports q hq := by
    have hne : q ≠ path := fun he => hq (he ▸ hs)
    exact h.imports q (by simp [Session.enter, hne, hq])
  registry := (registry_later_leave hs hr h :)
  completed := by
    have ⟨new, he, hn, hm⟩ := h.completed
    refine ⟨new, he, hn, fun q hq => ?_⟩
    have ⟨hq₁, hq₂⟩ := hm q hq
    by_cases hne : q = path
    case pos => simp [Session.enter, hne] at hq₁
    case neg => exact ⟨by simpa [Session.enter, hne] using hq₁, by simpa [Session.leave, hne] using hq₂⟩

theorem later_leave_ok {v : Visit} (hv : v.path = path) (records : List ImportRecord)
    (r : ScopedModule) : s.Later p ((v.filed records t).leave path (.ok r)) where
  chain := by simp [Session.leave, filed, h.chain, Session.enter]
  slots q slot hq := by
    have hne : q ≠ path := fun he => by simp [← he, hq] at hs
    have := h.slots q slot (by simp [Session.enter, hne, hq])
    simp [Session.leave, filed, hne, this]
  pending q hq := by
    by_cases hne : q = path
    case pos => simp [Session.leave, hne] at hq
    case neg =>
      have := h.pending q (by simpa [Session.leave, filed, hne] using hq)
      simpa [Session.enter, hne] using this
  imports q hq := by
    have hne : q ≠ path := fun he => hq (he ▸ hs)
    have := h.imports q (by simp [Session.enter, hne, hq])
    simpa [Session.leave, Session.enter, filed, hv, hne] using this
  registry := (registry_later_leave hs hr h :)
  completed := by
    have ⟨new, he, hn, hm⟩ := h.completed
    refine ⟨new ++ [path], by simp [Session.leave, filed, hv, he, Session.enter], ?_, fun q hq => ?_⟩
    · refine List.nodup_append.2 ⟨hn, by simp, fun q hq q' hq' he => ?_⟩
      have := (hm q hq).1
      simp [Session.enter, he, List.mem_singleton.1 hq'] at this
    · by_cases hne : q = path
      case pos => simp [hne, hs, Session.leave]
      case neg =>
        have ⟨hq₁, hq₂⟩ := hm q (by simpa [hne] using hq)
        exact ⟨by simpa [Session.enter, hne] using hq₁, by simpa [Session.leave, filed, hne] using hq₂⟩

end

theorem after_later_of_calls (ho : v.Opens p text) (hv : v.Proper)
    (ih : ∀ w, v.Calls p w → w.Proper → w.session.Later p (w.run p).2)
    (h : plan text = steps ++ rest) : (v.reading p).2.Later p (v.after p steps).2 := by
  refine after_induct (P := (v.reading p).2.Later p) ho (.refl _) (fun w hw hl => ?_) h
  refine hl.trans (ih w hw ?_)
  cases hw
  case mk hr => exact .target (hl.keyed (reading_keyed hv)) hr

-- The frame of a call: what was being scoped or done before it is so after it.
theorem run_later (hv : v.Proper) : v.session.Later p (v.run p).2 := by
  induction v using induct (p := p)
  case h v ih =>
    have hafter {text} (ho : v.Opens p text) :=
      after_later_of_calls ho hv (fun w hw hp => ih w hw hp) (plan_end _)
    have ⟨registry, preprocessors, log, he, hr, _⟩ := reading_later (p := p) hv
    have ho := outcome (p := p) (v := v)
    generalize v.run p = result at ho
    cases ho
    case unread e _ _ hs hread =>
      rw [hread] at he
      subst he
      exact later_leave_error hs hr (.refl _) e
    case stopped e _ _ ho ha =>
      have := hafter ho
      rw [ha, he] at this
      exact later_leave_error ho.slot hr this e
    case finished ho ha =>
      have := hafter ho
      rw [ha, he] at this
      exact later_leave_ok ho.slot hr this rfl _ _
    all_goals exact .refl _

theorem run_registry (ho : v.Opens p text) :
    (v.run p).2.registry = (v.after p (plan text)).2.registry := by
  rw [run_opens ho]
  rcases v.after p (plan text) with ⟨⟨e | progress, records⟩, t⟩ <;> rfl

theorem after_later (ho : v.Opens p text) (hv : v.Proper) (h : plan text = steps ++ rest) :
    (v.reading p).2.Later p (v.after p steps).2 :=
  after_later_of_calls ho hv (fun _ _ => run_later) h

-- What has been read stays registered.
theorem run_contains (hv : v.Proper) (hf : v.fuel ≠ 0) (hs : v.session.slots.get? v.path = none)
    {q : String} (h : (v.reading p).2.registry.contains q = true) :
    (v.run p).2.registry.contains q = true := by
  rcases hr : v.reading p with ⟨e | text, t⟩
  case error =>
    rw [run_none hf hs]
    rw [hr] at h ⊢
    exact h
  case ok =>
    have ho : v.Opens p text := ⟨hf, hs, by rw [hr]⟩
    rw [run_registry ho]
    exact (after_later ho hv (plan_end _)).registry.contains q h

theorem Calls.later (hw : v.Calls p w) (hv : v.Proper) : (v.reading p).2.Later p w.session := by
  cases hw
  case mk ho h ha _ hr =>
    have := after_later ho hv h
    rwa [ha] at this

theorem reading_pending (hv : v.Proper) : (v.reading p).2.slots.get? v.path = some .pending := by
  have ⟨_, _, _, he, _, _⟩ := reading_later (p := p) hv
  simp [he, Session.enter]

theorem after_pending (ho : v.Opens p text) (hv : v.Proper) (h : plan text = steps ++ rest) :
    (v.after p steps).2.slots.get? v.path = some .pending :=
  (after_later ho hv h).slots _ _ (reading_pending hv)

theorem reading_keeps (hv : v.Proper) (hs : v.session.slots.get? v.path = none) :
    v.session.Keeps (v.reading p).2 := by
  have ⟨_, _, _, he, _, _⟩ := reading_later (p := p) hv
  rw [he]
  exact Session.keeps_enter hs

theorem keeps_filed {t : Session} (h : t.slots.get? v.path = some .pending)
    (records : List ImportRecord) (r : ScopedModule) :
    t.Keeps ((v.filed records t).leave v.path (.ok r)) := by
  refine Session.keeps_of_slots (fun q r hq => ?_) fun q r hq => ?_
  all_goals
    have hne : q ≠ v.path := fun he => by simp [← he, hq] at h
    simp [Session.leave, filed, hne, hq]

theorem Calls.proper (hw : v.Calls p w) (hv : v.Proper) : w.Proper := by
  have hl := hw.later hv
  cases hw
  case mk hr => exact .target (hl.keyed (reading_keyed hv)) hr

theorem Calls.opens (hw : v.Calls p w) : ∃ text, v.Opens p text := by
  cases hw
  case mk ho _ _ _ _ => exact ⟨_, ho⟩

-- The sessions between the steps of a text come one after another.
theorem after_mono (ho : v.Opens p text) (hv : v.Proper) {more : List Step}
    (h : plan text = steps ++ more ++ rest) :
    (v.after p steps).2.Later p (v.after p (steps ++ more)).2 := by
  induction more using List.reverseRecOn generalizing rest
  case nil =>
    rw [List.append_nil]
    exact .refl _
  case append_singleton more step ih =>
    replace h : plan text = (steps ++ more) ++ step :: rest := by simpa using h
    have hl := ih h
    have ha := advance (p := p) (v := v) (steps ++ more) step
    rw [List.append_assoc] at ha
    generalize v.after p (steps ++ (more ++ [step])) = after at ha
    generalize hb : v.after p (steps ++ more) = before at ha hl
    cases ha
    case refused hs hr he =>
      have hw : v.Calls p (v.target _ _) := .mk ho h hb hs hr
      have := run_later (p := p) (hw.proper hv)
      rw [he] at this
      exact hl.trans this
    case answered hs hr he =>
      have hw : v.Calls p (v.target _ _) := .mk ho h hb hs hr
      have := run_later (p := p) (hw.proper hv)
      rw [he] at this
      exact hl.trans this
    all_goals exact hl

theorem Calls.keeps (hw : v.Calls p w) (hv : v.Proper) : v.session.Keeps w.session := by
  have ⟨_, ho⟩ := hw.opens
  exact (reading_keeps hv ho.slot).trans (hw.later hv).keeps

theorem after_keeps (ho : v.Opens p text) (hv : v.Proper) :
    (v.after p (plan text)).2.Keeps (v.run p).2 := by
  have hp := after_pending ho hv (plan_end _)
  rw [run_opens ho]
  generalize v.after p (plan text) = after at hp
  rcases after with ⟨⟨e | progress, records⟩, t⟩
  case error => exact Session.keeps_leave_error hp e
  case ok    => exact keeps_filed hp _ _

-- What a call leaves behind is still there after the call that made it.
theorem Calls.run_keeps (hw : v.Calls p w) (hv : v.Proper) : (w.run p).2.Keeps (v.run p).2 := by
  cases hw
  case mk text steps rest step progress records t specifier path ho h hb hs hr =>
    have hn : (v.after p (steps ++ [step])).2 = ((v.target t path).run p).2 := by
      have ha := advance (p := p) (v := v) steps step
      rw [hb] at ha
      generalize v.after p (steps ++ [step]) = after at ha
      cases ha
      case refused hs' hr' he =>
        cases hs.symm.trans hs'
        cases hr.symm.trans hr'
        rw [he]
      case answered hs' hr' he =>
        cases hs.symm.trans hs'
        cases hr.symm.trans hr'
        rw [he]
      all_goals simp_all
    have hplan : plan text = steps ++ [step] ++ rest ++ [] := by simp [h]
    have hm := after_mono ho hv hplan
    rw [hn] at hm
    have hk := after_keeps ho hv
    rw [h, List.append_cons] at hk
    exact hm.keeps.trans hk

end Visit

end ScopedCss
