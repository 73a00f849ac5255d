import ScopedCss.Scoping.Animation
import ScopedCss.Scoping.Composes
import ScopedCss.Scoping.Segment
import ScopedCss.Scoping.Selector

/-!
The steps of a whole style sheet. They are the same whatever names are chosen and whatever other
files export.
-/

namespace ScopedCss.Scoping

/-- An open block: where it began, and for a style rule the classes that it may compose into. -/
structure Block where
  pos : Position
  rule : Option (List String)
deriving DecidableEq, Repr

/-- Where a text ends that starts with `/*`, its first `*/` taken wherever it stands. -/
def dropComment? (s : List Char) : Option (List Char) := do
  let _ ← Text.dropPrefix? ['/', '*'] s
  let (_, rest) ← Text.splitOnce? ['*', '/'] s
  pure rest

theorem length_splitOnce? {sep s l r : List Char} (h : Text.splitOnce? sep s = some (l, r)) :
    s.length = l.length + sep.length + r.length := by
  induction s generalizing l with
  | nil => simp only [Text.splitOnce?] at h; split at h <;> simp_all
  | cons c s ih =>
    simp only [Text.splitOnce?] at h
    split at h
    · rename_i rest hp
      have := Text.dropPrefix?_eq_some_iff.1 hp
      simp_all
    · obtain ⟨⟨l', r'⟩, hs, he⟩ := Option.map_eq_some_iff.1 h
      simp only [Prod.mk.injEq] at he
      obtain ⟨rfl, rfl⟩ := he
      have := ih hs
      simp; omega

theorem length_dropComment? {s rest : List Char} (h : dropComment? s = some rest) :
    rest.length < s.length := by
  simp only [dropComment?, Option.bind_eq_bind, Option.bind_eq_some_iff] at h
  obtain ⟨_, _, ⟨⟨l, r⟩, h, he⟩⟩ := h
  have := length_splitOnce? h
  simp only [Option.pure_def, Option.some.injEq] at he
  subst he
  simp at this
  omega

/-- What follows the comments at the start of a text. White space in front of a comment belongs to
it. -/
def dropComments (s : List Char) : List Char :=
  match h : dropComment? (Text.trimStart s) with
  | some rest =>
    have : rest.length < s.length :=
      Nat.lt_of_lt_of_le (length_dropComment? h) (List.dropWhile_sublist _).length_le
    dropComments rest
  | none => s
termination_by s.length

/-- The comments in front of a declaration, and the declaration. -/
def splitComments (s : List Char) : List Char × List Char :=
  let declaration := dropComments s
  (s.take (s.length - declaration.length), declaration)

/-- A `composes` declaration leaves only its line breaks behind. -/
def lineBreaks (s : List Char) : List Char :=
  s.filter (· == '\n')

/-- The steps of a declaration inside the block on top of the stack. -/
def declarationSteps (stack : List Block) (text : List Char) (pos : Position) (closes : Bool) :
    List Step :=
  let (comments, declaration) := splitComments text
  let stop := if closes then [] else [Step.text [';']]
  match stack with
  | ⟨_, some targets⟩ :: _ =>
    match composesValue? declaration with
    | some value =>
      [composeStep targets value pos, .text comments, .text (lineBreaks declaration)]
    | none =>
      match animationSteps? declaration with
      | some steps => .text comments :: steps ++ stop
      | none => .text text :: stop
  | _ => .text text :: stop

def isKeyframesName (name : List Char) : Bool :=
  Text.endsWith "keyframes".toList name

/-- The steps of the text in front of a brace that belongs to an at-rule of this name. -/
def atRuleSteps (name prelude : List Char) : List Step :=
  if isKeyframesName name then keyframesSteps prelude else [.text prelude]

/-- The steps of segments that stand inside these blocks, the innermost first. -/
def planSegments (stack : List Block) : List Segment → List Step
  | [] => []
  | .blank s :: rest => .text s :: planSegments stack rest
  | .opening prelude pos :: rest =>
    match atRuleName? prelude with
    | some name =>
      atRuleSteps name prelude ++ .text ['\x7b'] :: planSegments (⟨pos, none⟩ :: stack) rest
    | none =>
      let steps := selectorSteps pos false false .blank prelude
      let block := ⟨pos, some (composableClasses prelude steps)⟩
      steps ++ .text ['\x7b'] :: planSegments (block :: stack) rest
  | .verbatim prelude body :: rest =>
    atRuleSteps ((atRuleName? prelude).getD []) prelude ++
      .text ['\x7b'] :: .text body :: planSegments stack rest
  | .declaration text pos closes :: rest =>
    declarationSteps stack text pos closes ++
      if closes then
        match stack with
        | [] => [.fail .unexpectedBrace pos]
        | _ :: stack => .text ['\x7d'] :: planSegments stack rest
      else
        planSegments stack rest
  | .tail text :: rest =>
    .text text ::
      match stack with
      | [] => planSegments stack rest
      | ⟨pos, _⟩ :: _ => [.fail .unclosedBlock pos]
  | .broken fault pos :: _ => [.fail fault pos]

/-- The steps of a style sheet. -/
def plan (css : String) : List Step :=
  planSegments [] (Segment.ofText css.toList)

end ScopedCss.Scoping
