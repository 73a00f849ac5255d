import ScopedCss.Proofs.Scoping.Gaps
import ScopedCss.Proofs.Scoping.Local
import ScopedCss.Proofs.Scoping.Steps
import ScopedCss.Proofs.Stateful

namespace ScopedCss

-- An error without its place in the text.
def Error.unplaced : Error → Error
  | .transform stage file _ message => .transform stage file .start message
  | e                               => e

namespace Scoping

def Step.unplaced : Step → Step
  | .compose targets names source _ => .compose targets names source .start
  | .fail fault _                   => .fail fault .start
  | step                            => step

def Block.unplaced (block : Block) : Block :=
  { block with pos := .start }

def Segment.unplaced : Segment → Segment
  | .opening prelude _         => .opening prelude .start
  | .declaration text _ closes => .declaration text .start closes
  | .broken fault _            => .broken fault .start
  | segment                    => segment

section

variable {pos : Position} {steps : List Step}

theorem foldl_after_unplaced (trail : Trail) (steps : List Step) :
    (steps.map Step.unplaced).foldl Trail.after trail = steps.foldl Trail.after trail := by
  have h (trail : Trail) (step : Step) : trail.after step.unplaced = trail.after step := by
    cases step <;> rfl
  rw [List.foldl_map]
  simp only [h]

theorem classesOf_unplaced (steps : List Step) : classesOf (steps.map Step.unplaced) = classesOf steps := by
  unfold classesOf
  rw [List.foldl_map]
  congr
  funext l step
  cases step
  case name kind n => cases kind <;> rfl
  all_goals rfl

theorem unplaced_gapSteps (trail : Trail) (blanks : List Char) :
    (gapSteps trail blanks).map Step.unplaced = gapSteps trail blanks := by
  cases trail <;> rfl

-- Places are passed on as they are: without them, the steps are those of a text without places.
theorem unplaced_selectorSteps (pos : Position) (outer free : Bool) (trail : Trail) (s : List Char) :
    (selectorSteps pos outer free trail s).map Step.unplaced = selectorSteps .start outer free trail s := by
  fun_induction selectorSteps pos outer free trail s
  case case1    => rw [selectorSteps, List.map_nil]
  case case2 ih =>
    rw [selectorSteps, ← ih]
    rfl
  case case7 steps inner ih | case9 steps inner ih =>
    rw [selectorSteps.eq_3 _ _ _ _ _ _ (by assumption), List.map_append, ih, inner, ← foldl_after_unplaced, inner]
    repeat' split
    all_goals grind
  all_goals
    rw [selectorSteps.eq_3 _ _ _ _ _ _ (by assumption)]
    repeat' split
    all_goals grind [unplaced_gapSteps, Step.unplaced]

theorem Simple.unplaced (h : Simple steps) : steps.map Step.unplaced = steps := by
  rw [List.map_congr_left (g := id), List.map_id]
  intro step hm
  rcases h step hm with ⟨_, he⟩ | ⟨_, _, he⟩
  all_goals
    subst he
    rfl

theorem unplaced_declarationSteps (stack : List Block) (text : List Char) (pos : Position) (closes : Bool) :
    (declarationSteps stack text pos closes).map Step.unplaced =
      declarationSteps (stack.map Block.unplaced) text .start closes := by
  have hstop : Simple (if closes then [] else [.text [';']]) := by
    cases closes <;> simp
  have htext : (Step.text text :: if closes then [] else [.text [';']]).map Step.unplaced =
      .text text :: if closes then [] else [.text [';']] :=
    Simple.unplaced (by simp [hstop])
  unfold declarationSteps
  rcases stack with _ | ⟨⟨_, _ | targets⟩, stack⟩
  · exact htext
  · exact htext
  · simp only [List.map_cons, Block.unplaced]
    cases composesValue? (splitComments text).2
    case some value =>
      dsimp only
      rw [List.map_cons, composeStep, composeStep]
      repeat' split
      all_goals rfl
    case none =>
      dsimp only
      cases hs : animationSteps? (splitComments text).2
      case none       => exact htext
      case some steps => exact Simple.unplaced (by simp [hstop, simple_animationSteps? hs])

theorem unplaced_planSegments (stack : List Block) (segments : List Segment) :
    (planSegments stack segments).map Step.unplaced =
      planSegments (stack.map Block.unplaced) (segments.map Segment.unplaced) := by
  induction segments generalizing stack
  case nil => rfl
  case cons segment rest ih =>
    cases segment
    case blank s => exact congrArg _ (ih stack)
    case opening prelude pos =>
      simp only [List.map_cons, Segment.unplaced, planSegments]
      cases atRuleName? prelude
      case some name =>
        dsimp only
        rw [List.map_append, (simple_atRuleSteps name prelude).unplaced, List.map_cons, ih]
        rfl
      case none =>
        dsimp only
        rw [List.map_append, List.map_cons, ih, unplaced_selectorSteps, List.map_cons, Block.unplaced]
        unfold composableClasses
        rw [← unplaced_selectorSteps pos, classesOf_unplaced]
        rfl
    case verbatim prelude body =>
      simp only [List.map_cons, Segment.unplaced, planSegments]
      rw [List.map_append, (simple_atRuleSteps _ prelude).unplaced, List.map_cons, List.map_cons, ih]
      rfl
    case declaration text pos closes =>
      simp only [List.map_cons, Segment.unplaced, planSegments]
      rw [List.map_append, unplaced_declarationSteps]
      congr 1
      cases closes
      case false => exact ih stack
      case true =>
        cases stack
        case nil             => rfl
        case cons block rest => exact congrArg _ (ih rest)
    case tail text =>
      simp only [List.map_cons, Segment.unplaced, planSegments]
      congr 1
      cases stack
      case nil  => exact ih []
      case cons => rfl
    case broken => rfl

-- Where a text begins has no influence on how it is cut.
theorem unplaced_ofTokens (pos pos' : Position) (tokens : List Token) :
    (Segment.ofTokens pos tokens).map Segment.unplaced = (Segment.ofTokens pos' tokens).map Segment.unplaced := by
  induction hn : tokens.length using Nat.strongRecOn generalizing pos pos' tokens
  case ind n ih =>
    rw [Segment.ofTokens_eq, Segment.ofTokens_eq, List.map_cons, List.map_cons]
    congr 1
    have hblank := length_takeBlank tokens
    unfold Segment.ofStatement
    rcases hr : readText 0 (takeBlank tokens).2 with ⟨text, ending, rest⟩
    cases ending
    case input  => rfl
    case broken => rfl
    case cut c =>
      have hrest := length_readText_lt hr
      have hbehind (pos pos') (more : List Token) (hm : more.length ≤ rest.length) :
          (Segment.ofTokens pos more).map Segment.unplaced = (Segment.ofTokens pos' more).map Segment.unplaced :=
        ih more.length (by omega) pos pos' more rfl
      dsimp only
      split
      case isFalse =>
        exact congrArg (Segment.declaration text .start (c == '\x7d') :: ·) (hbehind _ _ rest (Nat.le_refl _))
      case isTrue =>
        split
        case isTrue  => exact congrArg (Segment.opening text .start :: ·) (hbehind _ _ rest (Nat.le_refl _))
        case isFalse =>
          rcases hb : readBlock 0 rest with ⟨body, ending, more⟩
          have hmore := length_readBlock 0 rest
          rw [hb] at hmore
          cases ending
          case cut => exact congrArg (Segment.verbatim text body :: ·) (hbehind _ _ more hmore)
          all_goals rfl

end

section

variable {file : String} {rename : String → Except Error String} {p : Progress} {step : Step}

theorem runKnown_unplaced (file : String) (rename : String → Except Error String) (ha : step.asks p = none) :
    (runKnown file rename p step.unplaced).mapError Error.unplaced =
      (runKnown file rename p step).mapError Error.unplaced := by
  cases step
  case compose targets names source pos =>
    rw [Step.unplaced]
    cases source
    case everywhere => rfl
    case sameFile =>
      rw [runKnown_sameFile, runKnown_sameFile]
      cases expandNames p.exports.get? names <;> rfl
    case file specifier =>
      have ⟨tokens, ht⟩ := Option.isSome_iff_exists.1 (Step.asks_eq_none.1 ha specifier rfl)
      rw [runKnown_file ht, runKnown_file ht]
      cases expandNames (wordsOf tokens) names <;> rfl
  all_goals rfl

theorem asks_unplaced (p : Progress) (step : Step) : step.unplaced.asks p = step.asks p := by
  cases step
  case compose targets names source pos => cases source <;> rfl
  all_goals rfl

theorem alike_of_mapError_eq {ε ε' α : Type} {f : ε → ε'} {x y : Except ε α} (h : x.mapError f = y.mapError f) :
    (∃ e e', x = .error e ∧ y = .error e' ∧ f e = f e') ∨ ∃ a, x = .ok a ∧ y = .ok a := by
  cases x
  case error e =>
    cases y
    case error e' => exact .inl ⟨e, e', rfl, rfl, Except.error.inj h⟩
    case ok       => cases h
  case ok a =>
    cases y
    case error => cases h
    case ok b  =>
      cases h
      exact .inr ⟨a, rfl, rfl⟩

-- Without places, a run of steps asks for the same files and comes to the same, but for what is said
-- about errors.
theorem runSteps_unplaced {σ : Type} (file : String) (rename : String → Except Error String) (p : Progress)
    (resolve : String → ExceptT Error (StateM σ) Tokens) (steps : List Step) (s : σ) :
    Prod.map (Except.mapError Error.unplaced) id
        ((runSteps file rename resolve (steps.map Step.unplaced) p).run.run s) =
      Prod.map (Except.mapError Error.unplaced) id ((runSteps file rename resolve steps p).run.run s) := by
  induction steps generalizing p s
  case nil => rfl
  case cons step steps ih =>
    have hknown {p : Progress} (ha : step.asks p = none) (s : σ) :
        Prod.map (Except.mapError Error.unplaced) id
            ((runSteps file rename resolve (step.unplaced :: steps.map Step.unplaced) p).run.run s) =
          Prod.map (Except.mapError Error.unplaced) id
            ((runSteps file rename resolve (step :: steps) p).run.run s) := by
      rw [runSteps, runSteps, Stateful.run_bind, Stateful.run_bind, runStep_known ha,
        runStep_known ((asks_unplaced p step).trans ha)]
      rcases alike_of_mapError_eq (runKnown_unplaced file rename ha) with
        ⟨_, _, hx, hy, he⟩ | ⟨q, hx, hy⟩
      all_goals rw [hx, hy]
      case inl => exact congrArg (fun e => (Except.error e, s)) he
      case inr => exact ih q s
    rw [List.map_cons]
    cases ha : step.asks p
    case none           => exact hknown ha s
    case some specifier =>
      rw [runSteps, runSteps, runStep_asks ha, runStep_asks ((asks_unplaced p step).trans ha), bind_assoc, bind_assoc,
        Stateful.run_bind, Stateful.run_bind]
      rcases (resolve specifier).run.run s with ⟨e | tokens, s'⟩
      case error => rfl
      case ok    => exact hknown (Step.asks_know ha) s'

theorem runSteps_alike {σ : Type} (file : String) (rename : String → Except Error String) (p : Progress)
    (resolve : String → ExceptT Error (StateM σ) Tokens)
    {steps steps' : List Step} (h : steps.map Step.unplaced = steps'.map Step.unplaced) (s : σ) :
    let x := (runSteps file rename resolve steps p).run.run s
    let y := (runSteps file rename resolve steps' p).run.run s
    x.2 = y.2 ∧ ((∃ e e', x.1 = .error e ∧ y.1 = .error e' ∧ e.unplaced = e'.unplaced) ∨
      ∃ q, x.1 = .ok q ∧ y.1 = .ok q) := by
  have hsame := runSteps_unplaced file rename p resolve steps s
  rw [h, runSteps_unplaced] at hsame
  have ⟨houtcome, hstate⟩ := Prod.ext_iff.1 hsame.symm
  exact ⟨hstate, alike_of_mapError_eq houtcome⟩

end

end Scoping

end ScopedCss
