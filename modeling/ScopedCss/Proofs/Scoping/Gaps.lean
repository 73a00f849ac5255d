import ScopedCss.Proofs.Scoping.Plan

namespace ScopedCss.Scoping

-- Steps that write texts and local names, and nothing else.
def Simple (steps : List Step) : Prop :=
  ∀ step ∈ steps, (∃ s, step = .text s) ∨ ∃ kind n, step = .name kind n

section

variable {step : Step} {steps steps₁ steps₂ : List Step}

@[simp]
theorem simple_nil : Simple [] := by
  simp [Simple]

@[simp]
theorem simple_text {s : List Char} : Simple (.text s :: steps) ↔ Simple steps := by
  simp [Simple]

@[simp]
theorem simple_name {kind : NameKind} {n : String} : Simple (.name kind n :: steps) ↔ Simple steps := by
  simp [Simple]

@[simp]
theorem simple_append : Simple (steps₁ ++ steps₂) ↔ Simple steps₁ ∧ Simple steps₂ := by
  simp [Simple, or_imp, forall_and]

theorem simple_keyframesNameSteps (name : List Char) : Simple (keyframesNameSteps name) := by
  unfold keyframesNameSteps
  cases wrapped? ":global(".toList name
  case some => simp
  case none =>
    dsimp only
    split
    case h_1 => simp
    case h_2 => split <;> simp

theorem simple_atRuleSteps (name prelude : List Char) : Simple (atRuleSteps name prelude) := by
  unfold atRuleSteps
  split
  case isFalse => simp
  case isTrue =>
    unfold keyframesSteps
    cases splitKeyframes? prelude <;> simp [simple_keyframesNameSteps]

theorem simple_animationValueSteps (shorthand : Bool) (depth : Nat) (named : Bool) (s : List Char) :
    Simple (animationValueSteps shorthand depth named s) := by
  fun_induction animationValueSteps shorthand depth named s <;> simp_all

theorem simple_animationSteps? {declaration : List Char} {steps : List Step}
    (h : animationSteps? declaration = some steps) : Simple steps := by
  have ⟨_, _, he⟩ := Option.map_eq_some_iff.1 h
  simp [← he, simple_animationValueSteps]

end

-- White space that can be dropped stands only behind names.
def Gapped : Trail → List Step → Prop
  | _, []                => True
  | trail, step :: steps => (∀ s, step = .gap s → trail = .named) ∧ Gapped (trail.after step) steps

section

variable {trail trail' : Trail} {step : Step} {steps steps₁ steps₂ : List Step}

theorem gapped_append :
    Gapped trail (steps₁ ++ steps₂) ↔
      Gapped trail steps₁ ∧ Gapped (steps₁.foldl Trail.after trail) steps₂ := by
  induction steps₁ generalizing trail
  case nil => simp [Gapped]
  case cons step steps₁ ih => simp [Gapped, ih, and_assoc]

theorem Trail.after_named (h : trail = .named → trail' = .named) (step : Step) :
    trail.after step = .named → trail'.after step = .named := by
  cases step
  case text s =>
    simp only [after, ofText]
    cases s.getLast?
    case none   => exact h
    case some c => exact id
  case gap s =>
    simp only [after]
    split
    case isTrue  => exact h
    case isFalse => exact id
  case name => simp [after]
  all_goals exact h

-- A name may be behind which the steps alone do not show.
theorem Gapped.mono (hs : Gapped trail steps) (h : trail = .named → trail' = .named) :
    Gapped trail' steps := by
  induction steps generalizing trail trail'
  case nil => trivial
  case cons step steps ih =>
    exact ⟨fun s hg => h (hs.1 s hg), ih hs.2 (Trail.after_named h step)⟩

theorem Simple.gapped (h : Simple steps) : Gapped trail steps := by
  induction steps generalizing trail
  case nil => trivial
  case cons step steps ih =>
    refine ⟨fun s hs => ?_, ih fun step hm => h step (.tail _ hm)⟩
    rcases h step (.head _) with ⟨_, he⟩ | ⟨_, _, he⟩
    all_goals cases hs.symm.trans he

theorem gapped_gapSteps (trail : Trail) (blanks : List Char) : Gapped trail (gapSteps trail blanks) := by
  cases trail <;> simp [gapSteps, Gapped]

theorem Trail.ofText_cons (c : Char) (s : List Char) :
    trail.ofText (c :: s) = (trail.ofText [c]).ofText s := by
  simp only [ofText, List.getLast?_cons, List.getLast?_nil, Option.getD_none]
  cases s.getLast? <;> rfl

theorem gapped_selectorSteps (pos : Position) (outer free : Bool) (trail : Trail) (s : List Char) :
    Gapped trail (selectorSteps pos outer free trail s) := by
  have hcomma (trail : Trail) : trail.ofText [','] = .solid := rfl
  have hdot (trail : Trail) {c : Char} (h : c = '.' ∨ c = '#') : trail.ofText [c] = .solid := by
    rcases h with rfl | rfl <;> rfl
  fun_induction selectorSteps pos outer free trail s
  -- In parentheses nothing has been written yet, whatever stands in front of them.
  case case7 inner outside | case9 inner outside =>
    exact gapped_append.2 ⟨inner.mono (by simp), outside⟩
  case case12 hname name _ ih =>
    refine ⟨by simp, ?_⟩
    rw [Trail.after, Trail.ofText_cons, hdot _ hname.1]
    exact ih
  all_goals
    simp_all +zetaDelta [Gapped, gapped_append, gapped_gapSteps, Trail.after]

theorem gapped_declarationSteps (stack : List Block) (text : List Char) (pos : Position) (closes : Bool) :
    Gapped trail (declarationSteps stack text pos closes) := by
  have hstop : Simple (if closes then [] else [.text [';']]) := by
    cases closes <;> simp
  unfold declarationSteps
  dsimp only
  split
  case h_2 => exact Simple.gapped (by simp [hstop])
  case h_1 block targets rest =>
    split
    case h_1 value _ =>
      refine ⟨fun s hg => ?_, Simple.gapped (by simp)⟩
      unfold composeStep at hg
      dsimp only at hg
      split at hg
      case isTrue  => cases hg
      case isFalse => split at hg <;> cases hg
    case h_2 =>
      split
      case h_1 steps hs => exact Simple.gapped (by simp [hstop, simple_animationSteps? hs])
      case h_2          => exact Simple.gapped (by simp [hstop])

theorem gapped_planSegments (trail : Trail) (stack : List Block) (segments : List Segment) :
    Gapped trail (planSegments stack segments) := by
  induction segments generalizing trail stack
  case nil => trivial
  case cons segment rest ih =>
    -- What is written in front of the rest does not matter, as long as it is not dropped.
    have hbehind {trail : Trail} {stack : List Block} {steps : List Step} (h : Gapped trail steps) :
        Gapped trail (steps ++ planSegments stack rest) :=
      gapped_append.2 ⟨h, ih _ _⟩
    have htext (s : List Char) {trail : Trail} : Gapped trail [.text s] :=
      Simple.gapped (by simp)
    cases segment
    case blank s => exact hbehind (htext s)
    case opening prelude pos =>
      unfold planSegments
      cases atRuleName? prelude
      case some name =>
        dsimp only
        rw [List.append_cons]
        exact hbehind (Simple.gapped (by simp [simple_atRuleSteps]))
      case none =>
        dsimp only
        rw [List.append_cons]
        refine hbehind (gapped_append.2 ⟨?_, Simple.gapped (by simp)⟩)
        exact (gapped_selectorSteps ..).mono (by simp)
    case verbatim prelude body =>
      unfold planSegments
      rw [List.append_cons, List.append_cons]
      exact hbehind (Simple.gapped (by simp [simple_atRuleSteps]))
    case declaration text pos closes =>
      refine gapped_append.2 ⟨gapped_declarationSteps .., ?_⟩
      cases closes
      case false => exact ih _ _
      case true =>
        cases stack
        case nil  => simp [Gapped]
        case cons => exact hbehind (htext _)
    case tail text =>
      cases stack
      case nil  => exact hbehind (htext text)
      case cons => simp [planSegments, Gapped]
    case broken => simp [planSegments, Gapped]

end

end ScopedCss.Scoping
