import ScopedCss.Proofs.Scoping.Declared

namespace ScopedCss.Scoping

theorem expandNames_error {lookup : String → Option (List String)} {names : List String} {n : String}
    (hm : n ∈ names) (hn : lookup n = none) :
    ∃ missing ∈ names, lookup missing = none ∧ expandNames lookup names = .error missing := by
  induction names
  case nil => cases hm
  case cons name names ih =>
    unfold expandNames
    cases hl : lookup name
    case none => exact ⟨name, .head _, hl, rfl⟩
    case some =>
      rcases List.mem_cons.1 hm with rfl | hm
      · cases hn.symm.trans hl
      · obtain ⟨missing, hmissing, hnone, he⟩ := ih hm
        exact ⟨missing, .tail _ hmissing, hnone, by rw [he]; rfl⟩

section

variable {css file : String} {rename : String → Except Error String} {σ : Type}
  {resolve : String → ExceptT Error (StateM σ) Tokens} {s : σ}

theorem runSteps_error {step : Step} {steps : List Step} {p : Progress} {e : Error} (ha : step.asks p = none)
    (hk : runKnown file rename p step = .error e) (s : σ) :
    (runSteps file rename resolve (step :: steps) p).run.run s = (.error e, s) := by
  rw [runSteps, Stateful.run_bind, runStep_known ha, hk]
  rfl

namespace ComposesDeclaration

variable (place : ComposesDeclaration css.toList)

-- How scoping fails at a declaration that names what is not there.
inductive Refused (classes : List String) : Fault → Prop
  | notAllowed : classes = [] → Refused classes .composesNotAllowed
  | undefined {missing : String} :
    missing ∈ place.composition.names → missing ∉ localNames place.front → Refused classes (.undefinedClass missing)

theorem composeStep_refused (file : String) (rename : String → Except Error String) (classes : List String)
    {n : String} {p : Progress} (hs : place.composition.source = .sameFile) (hm : n ∈ place.composition.names)
    (hp : ∀ n, p.exports.get? n = none ↔ n ∉ localNames place.front) (hn : n ∉ localNames place.front) :
    (composeStep classes place.value place.pos).asks p = none ∧ ∃ fault, place.Refused classes fault ∧
      runKnown file rename p (composeStep classes place.value place.pos) = .error (fault.toError file place.pos) := by
  unfold composeStep
  dsimp only
  split
  case isTrue hclasses => exact ⟨rfl, _, .notAllowed hclasses, rfl⟩
  case isFalse =>
    split
    case isTrue hnone => exact absurd (show n ∈ (Composition.ofValue place.value).names from hm) (by simp [hnone])
    case isFalse =>
      change (Step.compose classes place.composition.names place.composition.source place.pos).asks p = none ∧
        ∃ fault, place.Refused classes fault ∧ runKnown file rename p
          (Step.compose classes place.composition.names place.composition.source place.pos) = _
      obtain ⟨missing, hmissing, hnone, he⟩ := expandNames_error hm ((hp n).2 hn)
      rw [hs, runKnown_sameFile, he]
      exact ⟨rfl, _, .undefined hmissing ((hp missing).1 hnone), rfl⟩

theorem refused {classes : List String} {n : String} (hc : place.classes? = some classes)
    (hs : place.composition.source = .sameFile) (hm : n ∈ place.composition.names)
    (hn : n ∉ localNames place.front) (s : σ) :
    ∃ e t, (scope css file rename resolve).run.run s = (.error e, t) ∧
      ((runSteps file rename resolve place.front .start).run.run s = (.error e, t) ∨
        ∃ fault, place.Refused classes fault ∧ e = fault.toError file place.pos) := by
  rw [scope_run]
  rcases hfront : (runSteps file rename resolve place.front .start).run.run s with ⟨e | p, t⟩
  case error =>
    refine ⟨e, t, ?_, .inl rfl⟩
    rcases place.plan_eq with ⟨_, he⟩ | ⟨more, he, _⟩
    all_goals change plan css = _ at he
    case inl =>
      rw [he, hfront]
      rfl
    case inr =>
      rw [he, runSteps_append, Stateful.run_bind, hfront]
      rfl
  case ok =>
    rcases place.plan_eq with ⟨hfails, _⟩ | ⟨more, he, _⟩
    case inl => exact absurd hfails (not_fails_of_runSteps hfront)
    case inr =>
      change plan css = _ at he
      have hplaced : Placed [] place.front := (placed_append.1 (he ▸ placed_plan css)).1
      obtain ⟨ha, fault, hf, hk⟩ :=
        place.composeStep_refused file rename classes hs hm (exports_get?_eq_none_iff hplaced hfront) hn
      refine ⟨_, t, ?_, .inr ⟨fault, hf, rfl⟩⟩
      rw [he, runSteps_append, Stateful.run_bind, hfront, place.steps_of_some hc]
      exact congrArg (Prod.map (Except.map (Progress.toSheet file)) id) (runSteps_error ha hk t)

end ComposesDeclaration

-- Names of the same file are taken over where local names of that spelling stand in front of the
-- declaration, of whatever kind; otherwise scoping fails, in front of the declaration or because of it.
theorem scope_sameFile (place : ComposesDeclaration css.toList) {classes : List String}
    (hc : place.classes? = some classes) (hs : place.composition.source = .sameFile) :
    (∀ sheet t, (scope css file rename resolve).run.run s = (.ok sheet, t) →
      ∀ n ∈ place.composition.names, ∃ kind, Step.name kind n ∈ place.front ∧
        kind.lead ++ n.toList <:+: place.before.flatMap Segment.text) ∧
    ∀ n ∈ place.composition.names, n ∉ localNames place.front →
      ∃ e t, (scope css file rename resolve).run.run s = (.error e, t) ∧
        ((runSteps file rename resolve place.front .start).run.run s = (.error e, t) ∨
          ∃ fault, place.Refused classes fault ∧ e = fault.toError file place.pos) := by
  refine ⟨fun sheet t hr n hm => ?_, fun n hm hn => place.refused hc hs hm hn s⟩
  have hlocal : n ∈ localNames place.front := by
    by_contra hn
    obtain ⟨e, t, he, _⟩ : ∃ e t, (scope css file rename resolve).run.run s = (.error e, t) ∧ _ :=
      place.refused hc hs hm hn s
    rw [hr] at he
    cases he
  obtain ⟨step, hstep, ho⟩ := List.mem_filterMap.1 hlocal
  cases step
  case name kind n' =>
    cases ho
    have hf := place.not_fails_front (scope_writes hr).1
    exact ⟨kind, hstep, (plans_planSegments hf).infix_of_name hstep⟩
  all_goals cases ho

end

def idText : String :=
  "#b \x7b\x7d .a \x7b composes: b \x7d"

def idPlace : ComposesDeclaration idText.toList where
  before      := [.blank [], .opening "#b ".toList ⟨1, 1⟩, .blank [], .declaration [] ⟨1, 5⟩ true, .blank [' '],
    .opening ".a ".toList ⟨1, 7⟩, .blank [' ']]
  lead        := []
  declaration := "composes: b ".toList
  value       := ['b']
  pos         := ⟨1, 12⟩
  closes      := true
  after       := [.blank [], .tail []]
  segments    := by decide +kernel
  isLead      := .nil
  value_eq    := by decide +kernel

def unknownText : String :=
  ".b \x7b\x7d .a \x7b composes: c \x7d"

def unknownPlace : ComposesDeclaration unknownText.toList where
  before      := [.blank [], .opening ".b ".toList ⟨1, 1⟩, .blank [], .declaration [] ⟨1, 5⟩ true, .blank [' '],
    .opening ".a ".toList ⟨1, 7⟩, .blank [' ']]
  lead        := []
  declaration := "composes: c ".toList
  value       := ['c']
  pos         := ⟨1, 12⟩
  closes      := true
  after       := [.blank [], .tail []]
  segments    := by decide +kernel
  isLead      := .nil
  value_eq    := by decide +kernel

-- The name of an id is taken over like that of a class; one that stands nowhere is refused.
theorem scope_sameFile_id :
    idPlace.classes? = some ["a"] ∧ idPlace.composition = ⟨["b"], .sameFile⟩ ∧
      (∃ sheet, (scope idText "ab.css" (fun n => .ok (underscored n)) nowhere).run.run () = (.ok sheet, ()) ∧
        sheet.tokens.get? "a" = some "_a _b" ∧ ∃ kind, Step.name kind "b" ∈ idPlace.front ∧
          kind.lead ++ "b".toList <:+: idPlace.before.flatMap Segment.text) ∧
      unknownPlace.classes? = some ["a"] ∧ unknownPlace.composition = ⟨["c"], .sameFile⟩ ∧
      "c" ∉ localNames unknownPlace.front ∧
      ∃ e, (scope unknownText "ab.css" (fun n => .ok (underscored n)) nowhere).run.run () = (.error e, ()) ∧
        ((runSteps "ab.css" (fun n => .ok (underscored n)) nowhere unknownPlace.front .start).run.run () =
            (.error e, ()) ∨
          ∃ fault, unknownPlace.Refused ["a"] fault ∧ e = fault.toError "ab.css" ⟨1, 12⟩) := by
  have hid : idPlace.classes? = some ["a"] := by decide +kernel
  have hb : idPlace.composition = ⟨["b"], .sameFile⟩ := by decide +kernel
  have hunknown : unknownPlace.classes? = some ["a"] := by decide +kernel
  have hc : unknownPlace.composition = ⟨["c"], .sameFile⟩ := by decide +kernel
  have hnone : "c" ∉ localNames unknownPlace.front := by decide +kernel
  have htokens : ((scope idText "ab.css" (fun n => .ok (underscored n)) nowhere).run.run ()).1.map
      (·.tokens.get? "a") = .ok (some "_a _b") := by
    decide +kernel
  refine ⟨hid, hb, ?_, hunknown, hc, hnone, ?_⟩
  · obtain ⟨sheet, ⟨⟩, hr, ha⟩ := Stateful.run_eq_of_map_eq htokens
    exact ⟨sheet, hr, ha, (scope_sameFile idPlace hid (by rw [hb])).1 sheet () hr "b" (by simp [hb])⟩
  · obtain ⟨e, _, he⟩ := (scope_sameFile (s := ()) unknownPlace hunknown (by rw [hc])).2 "c" (by simp [hc]) hnone
    exact ⟨e, he⟩

end ScopedCss.Scoping
