import Mathlib.Data.List.Induction
import ScopedCss.Proofs.Text.Words
import ScopedCss.Scoping.Plan

namespace ScopedCss.Scoping

-- A `composes` declaration that takes classes over: into which classes, and which names from where.
structure Declaration where
  targets : List String
  names   : List String
  source  : ComposesSource

def Step.declaration? : Step → Option Declaration
  | .compose targets names source _ => some ⟨targets, names, source⟩
  | _                               => none

def Step.own? : Step → Option String
  | .name _ n => some n
  | _         => none

def declarationsOf (steps : List Step) : List Declaration :=
  steps.filterMap Step.declaration?

-- The local names that some steps replace.
def localNames (steps : List Step) : List String :=
  steps.filterMap Step.own?

theorem declarationsOf_append (steps₁ steps₂ : List Step) :
    declarationsOf (steps₁ ++ steps₂) = declarationsOf steps₁ ++ declarationsOf steps₂ :=
  List.filterMap_append

theorem localNames_append (steps₁ steps₂ : List Step) :
    localNames (steps₁ ++ steps₂) = localNames steps₁ ++ localNames steps₂ :=
  List.filterMap_append

-- The classes of a declaration, each once, are among the names that precede it, and what it takes
-- over are words.
structure Declaration.Proper (written : List String) (d : Declaration) : Prop where
  nodup   : d.targets.Nodup
  written : ∀ c ∈ d.targets, c ∈ written
  words   : ∀ n ∈ d.names, Text.IsWord n.toList

-- All declarations among some steps are proper where they stand.
def Placed (written : List String) : List Step → Prop
  | []           => True
  | step :: rest =>
    (∀ d, step.declaration? = some d → d.Proper written) ∧ Placed (written ++ step.own?.toList) rest

section

variable {written : List String} {steps steps₁ steps₂ rest : List Step} {step : Step}

theorem placed_append :
    Placed written (steps₁ ++ steps₂) ↔
      Placed written steps₁ ∧ Placed (written ++ localNames steps₁) steps₂ := by
  induction steps₁ generalizing written
  case nil => simp [Placed, localNames]
  case cons step steps₁ ih =>
    have hl : localNames (step :: steps₁) = step.own?.toList ++ localNames steps₁ := by
      unfold localNames
      rw [List.filterMap_cons]
      cases step.own? <;> rfl
    simp only [List.cons_append, Placed, ih, hl, List.append_assoc, and_assoc]

theorem Placed.proper (h : Placed written (steps ++ step :: rest)) {d : Declaration}
    (hd : step.declaration? = some d) : d.Proper (written ++ localNames steps) :=
  (placed_append.1 h).2.1 d hd

theorem Placed.of_mem (h : Placed [] steps) {d : Declaration} (hd : d ∈ declarationsOf steps) :
    d.Proper (localNames steps) := by
  have ⟨step, hm, he⟩ := List.mem_filterMap.1 hd
  have ⟨before, rest, hsplit⟩ := List.append_of_mem hm
  subst hsplit
  have hp := h.proper he
  exact ⟨hp.nodup, fun c hc => by simpa [localNames_append] using .inl (hp.written c hc), hp.words⟩

end

-- Steps that only write.
def OnlyWrite (steps : List Step) : Prop :=
  ∀ step ∈ steps, step.declaration? = none

@[simp]
theorem onlyWrite_nil : OnlyWrite [] := by
  simp [OnlyWrite]

@[simp]
theorem onlyWrite_cons {step : Step} {steps : List Step} :
    OnlyWrite (step :: steps) ↔ step.declaration? = none ∧ OnlyWrite steps := by
  simp [OnlyWrite]

@[simp]
theorem onlyWrite_append {steps₁ steps₂ : List Step} :
    OnlyWrite (steps₁ ++ steps₂) ↔ OnlyWrite steps₁ ∧ OnlyWrite steps₂ := by
  simp [OnlyWrite, or_imp, forall_and]

theorem OnlyWrite.placed {steps : List Step} (h : OnlyWrite steps) {written : List String} :
    Placed written steps := by
  induction steps generalizing written
  case nil => trivial
  case cons step steps ih =>
    have ⟨hs, h⟩ := onlyWrite_cons.1 h
    exact ⟨by simp [hs], ih h⟩

section

@[simp]
theorem declaration?_text (s : List Char) : (Step.text s).declaration? = none :=
  rfl

@[simp]
theorem declaration?_name (kind : NameKind) (n : String) : (Step.name kind n).declaration? = none :=
  rfl

@[simp]
theorem declaration?_gap (s : List Char) : (Step.gap s).declaration? = none :=
  rfl

@[simp]
theorem declaration?_fail (fault : Fault) (pos : Position) :
    (Step.fail fault pos).declaration? = none :=
  rfl

theorem onlyWrite_text (s : List Char) : OnlyWrite [.text s] := by
  simp

theorem onlyWrite_gapSteps (trail : Trail) (blanks : List Char) : OnlyWrite (gapSteps trail blanks) := by
  cases trail <;> simp [gapSteps]

theorem onlyWrite_selectorSteps (pos : Position) (outer free : Bool) (trail : Trail) (s : List Char) :
    OnlyWrite (selectorSteps pos outer free trail s) := by
  fun_induction selectorSteps pos outer free trail s <;> simp_all +zetaDelta [onlyWrite_gapSteps]

theorem onlyWrite_keyframesNameSteps (name : List Char) : OnlyWrite (keyframesNameSteps name) := by
  unfold keyframesNameSteps
  cases wrapped? ":global(".toList name
  case some => simp
  case none =>
    dsimp only
    split
    case h_1 => simp
    case h_2 => split <;> simp

theorem onlyWrite_keyframesSteps (prelude : List Char) : OnlyWrite (keyframesSteps prelude) := by
  unfold keyframesSteps
  cases splitKeyframes? prelude <;> simp [onlyWrite_keyframesNameSteps]

theorem onlyWrite_animationValueSteps (shorthand : Bool) (depth : Nat) (named : Bool) (s : List Char) :
    OnlyWrite (animationValueSteps shorthand depth named s) := by
  fun_induction animationValueSteps shorthand depth named s <;> simp_all

theorem onlyWrite_animationSteps? {declaration : List Char} {steps : List Step}
    (h : animationSteps? declaration = some steps) : OnlyWrite steps := by
  have ⟨_, _, he⟩ := Option.map_eq_some_iff.1 h
  simp [← he, onlyWrite_animationValueSteps]

theorem onlyWrite_atRuleSteps (name prelude : List Char) : OnlyWrite (atRuleSteps name prelude) := by
  unfold atRuleSteps
  split <;> simp [onlyWrite_keyframesSteps]

end

theorem classesOf_append (steps : List Step) (step : Step) :
    classesOf (steps ++ [step]) =
      match step with
      | .name .cssClass n => if n ∈ classesOf steps then classesOf steps else classesOf steps ++ [n]
      | _                 => classesOf steps := by
  simp only [classesOf, List.foldl_append, List.foldl_cons, List.foldl_nil]
  cases step
  case name kind n => cases kind <;> rfl
  all_goals rfl

theorem classesOf_nodup (steps : List Step) : (classesOf steps).Nodup := by
  induction steps using List.reverseRec
  case nil => exact .nil
  case append_singleton steps step ih =>
    rw [classesOf_append]
    split
    case h_2 => exact ih
    case h_1 n =>
      split
      case isTrue => exact ih
      case isFalse hn => exact List.nodup_append.2 ⟨ih, by simp, by simp_all; grind⟩

theorem classesOf_subset (steps : List Step) : classesOf steps ⊆ localNames steps := by
  induction steps using List.reverseRec
  case nil => simp [classesOf]
  case append_singleton steps step ih =>
    rw [classesOf_append, localNames_append]
    split
    case h_2 => exact List.subset_append_of_subset_left _ ih
    case h_1 n =>
      have hn : localNames [.name .cssClass n] = [n] := rfl
      split
      case isTrue  => exact List.subset_append_of_subset_left _ ih
      case isFalse => exact List.append_subset.2 ⟨List.subset_append_of_subset_left _ ih, by simp [hn]⟩

-- What may be composed into from inside these blocks has been written.
def StackWritten (written : List String) (stack : List Block) : Prop :=
  ∀ block ∈ stack, ∀ targets, block.rule = some targets →
    targets.Nodup ∧ ∀ c ∈ targets, c ∈ written

theorem StackWritten.mono {written written' : List String} {stack : List Block}
    (h : StackWritten written stack) (hs : written ⊆ written') : StackWritten written' stack := by
  intro block hb targets ht
  have ⟨hn, hw⟩ := h block hb targets ht
  exact ⟨hn, fun c hc => hs (hw c hc)⟩

theorem Composition.isWord_of_mem {value : List Char} {n : String} (h : n ∈ (ofValue value).names) :
    Text.IsWord n.toList := by
  have hw (s : List Char) (h : n ∈ (Text.words s).map String.ofList) : Text.IsWord n.toList := by
    have ⟨w, hm, he⟩ := List.mem_map.1 h
    simpa [← he] using Text.isWord_of_mem_words hm
  unfold ofValue at h
  split at h
  case h_1 => exact hw _ h
  case h_2 =>
    dsimp only at h
    split at h <;> exact hw _ h

theorem placed_composeStep {written targets : List String} (hn : targets.Nodup)
    (hw : ∀ c ∈ targets, c ∈ written) (value : List Char) (pos : Position) :
    Placed written [composeStep targets value pos] := by
  refine ⟨fun d hd => ?_, trivial⟩
  unfold composeStep at hd
  dsimp only at hd
  split at hd
  case isTrue => simp at hd
  case isFalse =>
    split at hd
    case isTrue => simp at hd
    case isFalse =>
      cases hd
      exact ⟨hn, hw, fun n => Composition.isWord_of_mem⟩

theorem placed_declarationSteps {written : List String} {stack : List Block}
    (h : StackWritten written stack) (text : List Char) (pos : Position) (closes : Bool) :
    Placed written (declarationSteps stack text pos closes) := by
  have hstop : OnlyWrite (if closes then [] else [Step.text [';']]) := by
    cases closes <;> simp
  unfold declarationSteps
  dsimp only
  split
  case h_2 => exact OnlyWrite.placed (by simp [hstop])
  case h_1 block targets rest =>
    split
    case h_1 value hv =>
      have ⟨hn, hw⟩ := h _ (.head _) targets rfl
      rw [← List.singleton_append]
      refine placed_append.2 ⟨placed_composeStep hn hw value pos, ?_⟩
      exact OnlyWrite.placed (by simp)
    case h_2 =>
      split
      case h_1 steps hs => exact OnlyWrite.placed (by simp [hstop, onlyWrite_animationSteps? hs])
      case h_2 => exact OnlyWrite.placed (by simp [hstop])

theorem placed_planSegments {written : List String} {stack : List Block} {segments : List Segment}
    (h : StackWritten written stack) : Placed written (planSegments stack segments) := by
  induction segments generalizing written stack
  case nil => trivial
  case cons segment rest ih =>
    -- Whatever is written in between, the blocks stay as they are.
    have hrest (new : List String) : Placed (written ++ new) (planSegments stack rest) :=
      ih (h.mono (List.subset_append_left _ _))
    cases segment
    case blank s => exact placed_append.2 ⟨(onlyWrite_text s).placed, hrest _⟩
    case opening prelude pos =>
      unfold planSegments
      cases hn : atRuleName? prelude
      case some name =>
        have ho : OnlyWrite (atRuleSteps name prelude ++ [.text ['\x7b']]) := by
          simp [onlyWrite_atRuleSteps]
        dsimp only
        rw [List.append_cons]
        refine placed_append.2 ⟨ho.placed, ih fun block hb targets ht => ?_⟩
        rcases List.mem_cons.1 hb with rfl | hb
        · cases ht
        · exact h.mono (List.subset_append_left _ _) block hb targets ht
      case none =>
        have ho : OnlyWrite (selectorSteps pos false false .blank prelude ++ [.text ['\x7b']]) := by
          simp [onlyWrite_selectorSteps]
        dsimp only
        rw [List.append_cons]
        refine placed_append.2 ⟨ho.placed, ih fun block hb targets ht => ?_⟩
        rcases List.mem_cons.1 hb with rfl | hb
        · cases ht
          unfold composableClasses
          split
          case isFalse => simp
          case isTrue =>
            refine ⟨classesOf_nodup _, fun c hc => ?_⟩
            simp [localNames_append, classesOf_subset _ hc]
        · exact h.mono (List.subset_append_left _ _) block hb targets ht
    case verbatim prelude body =>
      unfold planSegments
      rw [List.append_cons, List.append_cons]
      exact placed_append.2 ⟨OnlyWrite.placed (by simp [onlyWrite_atRuleSteps]), hrest _⟩
    case declaration text pos closes =>
      refine placed_append.2 ⟨placed_declarationSteps h text pos closes, ?_⟩
      cases closes
      case false => exact hrest _
      case true =>
        cases stack
        case nil => exact OnlyWrite.placed (by simp)
        case cons block stack =>
          refine ⟨by simp, ih ?_⟩
          refine StackWritten.mono (fun block hb => h block (.tail _ hb)) ?_
          simp
    case tail text =>
      cases stack
      case nil => exact placed_append.2 ⟨(onlyWrite_text text).placed, hrest _⟩
      case cons block stack =>
        unfold planSegments
        exact OnlyWrite.placed (by simp)
    case broken => exact OnlyWrite.placed (by simp [planSegments])

theorem placed_plan (css : String) : Placed [] (plan css) :=
  placed_planSegments (by simp [StackWritten])

-- The classes that may be composed into from inside a block, if it is that of a rule.
def blockClasses (prelude : List Char) (pos : Position) : Option (List String) :=
  match atRuleName? prelude with
  | some _ => none
  | none   => some (composableClasses prelude (selectorSteps pos false false .blank prelude))

def Declaration.ofText? (targets : List String) (text : List Char) : Option Declaration :=
  (composesValue? (splitComments text).2).map fun value =>
    ⟨targets, (Composition.ofValue value).names, (Composition.ofValue value).source⟩

-- The `composes` declarations of segments that stand inside blocks with these classes, in order.
def declared (stack : List (Option (List String))) : List Segment → List Declaration
  | [] => []
  | .opening prelude pos :: rest => declared (blockClasses prelude pos :: stack) rest
  | .declaration text _ closes :: rest =>
    (stack.head?.join.bind (Declaration.ofText? · text)).toList ++
      declared (if closes then stack.tail else stack) rest
  | _ :: rest => declared stack rest

-- The `composes` declarations of a style sheet.
def compositionsOf (css : String) : List Declaration :=
  declared [] (Segment.ofText css.toList)

def Fails (steps : List Step) : Prop :=
  ∃ fault pos, Step.fail fault pos ∈ steps

theorem fails_append {steps₁ steps₂ : List Step} :
    Fails (steps₁ ++ steps₂) ↔ Fails steps₁ ∨ Fails steps₂ := by
  simp only [Fails, List.mem_append, exists_or]

theorem OnlyWrite.declarationsOf {steps : List Step} (h : OnlyWrite steps) :
    declarationsOf steps = [] :=
  List.filterMap_eq_nil_iff.2 h

theorem declarationsOf_composeStep {targets : List String} {value : List Char} {pos : Position}
    (h : ¬Fails [composeStep targets value pos]) :
    declarationsOf [composeStep targets value pos] =
      [⟨targets, (Composition.ofValue value).names, (Composition.ofValue value).source⟩] := by
  unfold composeStep at h ⊢
  dsimp only at h ⊢
  split
  case isTrue ht => simp [Fails, ht] at h
  case isFalse ht =>
    split
    case isTrue hn => simp [Fails, ht, hn] at h
    case isFalse => rfl

theorem declarationsOf_declarationSteps {stack : List Block} {text : List Char} {pos : Position}
    {closes : Bool} (h : ¬Fails (declarationSteps stack text pos closes)) :
    declarationsOf (declarationSteps stack text pos closes) =
      ((stack.map Block.rule).head?.join.bind (Declaration.ofText? · text)).toList := by
  have hstop : OnlyWrite (if closes then [] else [Step.text [';']]) := by
    cases closes <;> simp
  unfold declarationSteps at h ⊢
  dsimp only at h ⊢
  split
  case h_2 hn =>
    rw [OnlyWrite.declarationsOf (by simp [hstop])]
    cases stack
    case nil => rfl
    case cons block stack =>
      have hr : block.rule = none := by
        cases hr : block.rule
        case none => rfl
        case some targets => exact (hn block.pos targets stack (by rw [← hr])).elim
      simp [hr]
  case h_1 block targets rest =>
    dsimp only at h
    simp only [List.map_cons, List.head?_cons, Option.join_some, Option.bind_some,
      Declaration.ofText?]
    cases hv : composesValue? (splitComments text).2
    case some value =>
      rw [hv] at h
      dsimp only at h ⊢
      rw [← List.singleton_append] at h ⊢
      rw [declarationsOf_append, declarationsOf_composeStep fun hf => h (fails_append.2 (.inl hf)),
        OnlyWrite.declarationsOf (by simp)]
      rfl
    case none =>
      dsimp only
      split
      case h_1 steps hs => exact OnlyWrite.declarationsOf (by simp [hstop, onlyWrite_animationSteps? hs])
      case h_2 => exact OnlyWrite.declarationsOf (by simp [hstop])

-- A text that can be scoped is read as having these declarations.
theorem declarationsOf_planSegments {stack : List Block} {segments : List Segment}
    (h : ¬Fails (planSegments stack segments)) :
    declarationsOf (planSegments stack segments) = declared (stack.map Block.rule) segments := by
  induction segments generalizing stack
  case nil => rfl
  case cons segment rest ih =>
    -- What only writes declares nothing.
    have hplain {steps : List Step} {stack : List Block} (ho : OnlyWrite steps)
        (h : ¬Fails (steps ++ planSegments stack rest)) :
        declarationsOf (steps ++ planSegments stack rest) = declared (stack.map Block.rule) rest := by
      rw [declarationsOf_append, ho.declarationsOf, List.nil_append]
      exact ih fun hf => h (fails_append.2 (.inr hf))
    cases segment
    case blank s => exact hplain (onlyWrite_text s) h
    case opening prelude pos =>
      unfold planSegments at h ⊢
      unfold declared blockClasses
      cases hn : atRuleName? prelude
      case some name =>
        rw [hn] at h
        dsimp only at h ⊢
        rw [List.append_cons] at h ⊢
        exact hplain (by simp [onlyWrite_atRuleSteps]) h
      case none =>
        rw [hn] at h
        dsimp only at h ⊢
        rw [List.append_cons] at h ⊢
        exact hplain (by simp [onlyWrite_selectorSteps]) h
    case verbatim prelude body =>
      unfold planSegments at h ⊢
      rw [List.append_cons, List.append_cons] at h ⊢
      exact hplain (by simp [onlyWrite_atRuleSteps]) h
    case declaration text pos closes =>
      unfold planSegments at h ⊢
      rw [fails_append, not_or] at h
      rw [declarationsOf_append, declarationsOf_declarationSteps h.1, declared]
      congr 1
      cases closes
      case false => exact ih h.2
      case true =>
        cases stack
        case nil => exact absurd ⟨_, _, .head _⟩ h.2
        case cons block stack =>
          exact hplain (onlyWrite_text _) h.2
    case tail text =>
      unfold planSegments at h ⊢
      cases stack
      case nil => exact hplain (onlyWrite_text text) h
      case cons block stack => exact absurd ⟨_, _, .tail _ (.head _)⟩ h
    case broken => exact absurd ⟨_, _, .head _⟩ h

theorem declarationsOf_plan {css : String} (h : ¬Fails (plan css)) :
    declarationsOf (plan css) = compositionsOf css :=
  declarationsOf_planSegments h

end ScopedCss.Scoping
