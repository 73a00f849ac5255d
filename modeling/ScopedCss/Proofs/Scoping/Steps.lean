import ScopedCss.Scoping.Scope

namespace ScopedCss.Scoping

def Progress.know (p : Progress) (specifier : String) (tokens : Tokens) : Progress :=
  { p with imported := p.imported.insert specifier tokens }

theorem Progress.get?_know {p : Progress} {specifier other : String} {tokens found : Tokens}
    (hn : p.imported.contains specifier = false) (hk : p.imported.get? other = some found) :
    (p.know specifier tokens).imported.get? other = some found := by
  have hne : other ≠ specifier := by
    rintro rfl
    simp [Dict.contains, hk] at hn
  simp [know, hne, hk]

-- The file that a step takes classes from.
def Step.specifier? : Step → Option String
  | .compose _ _ (.file specifier) _ => some specifier
  | _                                => none

-- The same, if the exports of the file are not known yet.
def Step.asks (p : Progress) (step : Step) : Option String :=
  step.specifier?.filter (!p.imported.contains ·)

theorem Step.specifier?_eq_some {step : Step} {specifier : String}
    (h : step.specifier? = some specifier) :
    ∃ targets names pos, step = .compose targets names (.file specifier) pos := by
  unfold specifier? at h
  split at h
  case h_1 =>
    cases h
    exact ⟨_, _, _, rfl⟩
  case h_2 => cases h

theorem Step.asks_eq_some {p : Progress} {step : Step} {specifier : String} :
    step.asks p = some specifier ↔
      step.specifier? = some specifier ∧ p.imported.contains specifier = false := by
  simp [asks, Option.filter_eq_some_iff]

theorem Step.asks_eq_none {p : Progress} {step : Step} :
    step.asks p = none ↔
      ∀ specifier, step.specifier? = some specifier → p.imported.contains specifier = true := by
  simp [asks, Option.filter_eq_none_iff]

theorem Step.asks_know {p : Progress} {step : Step} {specifier : String} {tokens : Tokens}
    (h : step.asks p = some specifier) : step.asks (p.know specifier tokens) = none := by
  refine asks_eq_none.2 fun other ho => ?_
  have he := (asks_eq_some.1 h).1
  rw [ho, Option.some.injEq] at he
  simp [Progress.know, Dict.contains, he]

-- What a step comes to that asks for nothing. Where it would ask, the answer is taken to be empty.
def runKnown (file : String) (rename : String → Except Error String) (p : Progress) (step : Step) :
    Except Error Progress :=
  (runStep (m := Id) file rename (fun _ => pure ∅) p step).run

-- The classes that a name of another file stands for.
def wordsOf (tokens : Tokens) (name : String) : Option (List String) :=
  (tokens.get? name).map fun value => (Text.words value.toList).map String.ofList

section

variable {file : String} {rename : String → Except Error String} {p p' : Progress} {step : Step}
  {targets names : List String} {specifier : String} {pos : Position}

theorem runKnown_name {kind : NameKind} {n : String} :
    runKnown file rename p (.name kind n) = (rename n).map (p.writeName n) := by
  simp only [runKnown, runStep]
  cases rename n <;> rfl

theorem runKnown_sameFile :
    runKnown file rename p (.compose targets names .sameFile pos) =
      match expandNames p.exports.get? names with
      | .ok found   => .ok (p.addNames targets found)
      | .error name => .error ((Fault.undefinedClass name).toError file pos) := by
  simp only [runKnown, runStep, compose]
  cases expandNames p.exports.get? names <;> rfl

theorem runKnown_file {tokens : Tokens} (h : p.imported.get? specifier = some tokens) :
    runKnown file rename p (.compose targets names (.file specifier) pos) =
      match expandNames (wordsOf tokens) names with
      | .ok found   => .ok (p.addNames targets found)
      | .error name => .error ((Fault.missingClass name specifier).toError file pos) := by
  simp only [runKnown, runStep, compose, importTokens, h, pure_bind]
  unfold wordsOf
  cases expandNames (fun name =>
    (tokens.get? name).map fun value => (Text.words value.toList).map String.ofList) names <;> rfl

theorem runKnown_imported (ha : step.asks p = none) (h : runKnown file rename p step = .ok p') :
    p'.imported = p.imported := by
  cases step
  case name kind n =>
    rw [runKnown_name] at h
    cases hr : rename n <;> rw [hr] at h <;> cases h
    rfl
  case gap s =>
    cases h
    split <;> rfl
  case compose targets names source pos =>
    cases source
    case everywhere =>
      cases h
      rfl
    case sameFile =>
      rw [runKnown_sameFile] at h
      split at h <;> cases h
      rfl
    case file specifier =>
      have hc := Step.asks_eq_none.1 ha specifier rfl
      have ⟨tokens, hk⟩ := Option.isSome_iff_exists.1 hc
      rw [runKnown_file hk] at h
      split at h <;> cases h
      rfl
  case text =>
    cases h
    rfl
  case fail => cases h

end

variable {m : Type → Type} [Monad m] [LawfulMonad m] {file : String} {rename : String → Except Error String}
  {resolve : String → ExceptT Error m Tokens} {p : Progress} {step : Step}

theorem runStep_known (h : step.asks p = none) :
    runStep file rename resolve p step = ExceptT.mk (pure (runKnown file rename p step)) := by
  cases step
  case name kind n =>
    simp only [runKnown, runStep]
    cases rename n <;> rfl
  case compose targets names source pos =>
    cases source
    case sameFile =>
      simp only [runKnown, runStep, compose]
      cases expandNames p.exports.get? names <;> rfl
    case everywhere => rfl
    case file specifier =>
      have ⟨tokens, hk⟩ := Option.isSome_iff_exists.1 (Step.asks_eq_none.1 h specifier rfl)
      rw [runKnown_file hk]
      simp only [runStep, compose, importTokens, hk, pure_bind]
      unfold wordsOf
      cases expandNames (fun name =>
        (tokens.get? name).map fun value => (Text.words value.toList).map String.ofList) names <;> rfl
  all_goals rfl

theorem runStep_asks {specifier : String} (h : step.asks p = some specifier) :
    runStep file rename resolve p step =
      resolve specifier >>= fun tokens =>
        runStep file rename resolve (p.know specifier tokens) step := by
  have ⟨hs, hn⟩ := Step.asks_eq_some.1 h
  have ⟨targets, names, pos, he⟩ := Step.specifier?_eq_some hs
  have hn : p.imported.get? specifier = none := by simpa [Dict.contains] using hn
  simp [he, runStep, compose, importTokens, hn, Progress.know]

theorem runSteps_append (steps₁ steps₂ : List Step) (p : Progress) :
    runSteps file rename resolve (steps₁ ++ steps₂) p =
      runSteps file rename resolve steps₁ p >>= runSteps file rename resolve steps₂ := by
  induction steps₁ generalizing p
  case nil => simp [runSteps]
  case cons step steps₁ ih => simp [runSteps, ih]

theorem runStep_congr {resolve' : String → ExceptT Error m Tokens}
    (h : ∀ specifier, step.specifier? = some specifier → resolve specifier = resolve' specifier) :
    runStep file rename resolve p step = runStep file rename resolve' p step := by
  cases ha : step.asks p
  case none => rw [runStep_known ha, runStep_known ha]
  case some specifier =>
    rw [runStep_asks ha, runStep_asks ha, h specifier (Step.asks_eq_some.1 ha).1]
    congr
    funext tokens
    rw [runStep_known (Step.asks_know ha), runStep_known (Step.asks_know ha)]

-- Only the specifiers that the steps name are ever resolved.
theorem runSteps_congr {resolve' : String → ExceptT Error m Tokens} {steps : List Step}
    (h : ∀ step ∈ steps, ∀ specifier, step.specifier? = some specifier →
      resolve specifier = resolve' specifier) :
    runSteps file rename resolve steps p = runSteps file rename resolve' steps p := by
  induction steps generalizing p
  case nil => rfl
  case cons step steps ih =>
    simp only [runSteps]
    rw [runStep_congr (h step (by simp))]
    congr
    funext p
    exact ih fun step hm => h step (.tail _ hm)

def specifiersOf (css : String) : List String :=
  (plan css).filterMap Step.specifier?

theorem scope_congr {resolve' : String → ExceptT Error m Tokens} {css : String}
    (h : ∀ specifier ∈ specifiersOf css, resolve specifier = resolve' specifier) :
    scope css file rename resolve = scope css file rename resolve' := by
  unfold scope
  rw [runSteps_congr fun step hm specifier hs => h specifier (List.mem_filterMap.2 ⟨step, hm, hs⟩)]

end ScopedCss.Scoping
