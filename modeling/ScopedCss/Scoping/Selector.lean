import ScopedCss.Scoping.Name
import ScopedCss.Scoping.Step

/-!
The class and id names in the selectors of a rule. `:global` and `:local` say which are local: with
parentheses for what stands in them, and as a word up to the next comma.
-/

namespace ScopedCss.Scoping

/-- How the output written so far ends. -/
inductive Trail
  | blank
  | solid
  /-- With a scoped name, of which nothing is known yet. -/
  | named
deriving DecidableEq, Repr

namespace Trail

def ofText (trail : Trail) (s : List Char) : Trail :=
  match s.getLast? with
  | none => trail
  | some c => if Text.isBlank c then blank else solid

def after (trail : Trail) : Step → Trail
  | .text s => trail.ofText s
  | .name .. => named
  | .gap s => if s = [] then trail else blank
  | _ => trail

end Trail

/-- What follows `:global` or `:local` as a word of its own. -/
def dropPseudo? (name s : List Char) : Option (List Char) := do
  let rest ← Text.dropPrefix? name s
  match rest.head? with
  | some c => if Text.isWordChar c || c == '(' then none else some rest
  | none => some rest

theorem length_dropPseudo? {name s rest : List Char} (h : dropPseudo? name s = some rest) :
    s.length = name.length + rest.length := by
  simp only [dropPseudo?, Option.bind_eq_bind, Option.bind_eq_some_iff] at h
  obtain ⟨r, hr, h⟩ := h
  have := Text.dropPrefix?_eq_some_iff.1 hr
  have : r = rest := by
    split at h
    · split at h <;> simp_all
    · simp_all
  simp_all

theorem length_dropPseudo?_lt {name s rest : List Char} (h : dropPseudo? name s = some rest)
    (hn : name ≠ []) : rest.length < s.length := by
  have := length_dropPseudo? h
  have := List.length_pos_iff.2 hn
  omega

/-- White space behind `:global` or `:local` as a word: dropped at the start and behind white space. -/
def gapSteps (trail : Trail) (blanks : List Char) : List Step :=
  match trail with
  | .blank => []
  | .solid => [.text blanks]
  | .named => [.gap blanks]

/-- The steps of a text of selectors. `outer` says whether names are global where no word `:global`
or `:local` precedes them, `free` whether they are here, and `pos` is the place of the whole rule. -/
def selectorSteps (pos : Position) (outer free : Bool) (trail : Trail) (s : List Char) :
    List Step :=
  match s with
  | [] => []
  | '/' :: '*' :: s =>
    let comment := '/' :: '*' :: (takeComment s).1
    have := length_snd_le_of_append (takeComment_append s)
    .text comment :: selectorSteps pos outer free (trail.ofText comment) (takeComment s).2
  | c :: s =>
    if c = '"' ∨ c = '\'' then
      let string := c :: (takeString c s).1
      have := length_snd_le_of_append (takeString_append c s)
      .text string :: selectorSteps pos outer free (trail.ofText string) (takeString c s).2
    else if c = '[' then
      let bracket := c :: (takeBracket s.length s).1
      have := length_snd_le_of_append (takeBracket_append s.length s)
      .text bracket :: selectorSteps pos outer free (trail.ofText bracket) (takeBracket s.length s).2
    else if c = ',' then
      .text [c] :: selectorSteps pos outer outer .solid s
    else
      match _hg : Text.dropPrefix? ":global(".toList (c :: s),
          _hl : Text.dropPrefix? ":local(".toList (c :: s) with
      | some inner, _ =>
        match _hp : takeParens? 0 inner with
        | none => [.fail .unclosedParenthesis pos]
        | some (l, r) =>
          have := (length_takeParens? _hg _hp).1
          have := (length_takeParens? _hg _hp).2
          let steps := selectorSteps pos true true .blank l
          steps ++ selectorSteps pos outer free (steps.foldl Trail.after trail) r
      | none, some inner =>
        match _hp : takeParens? 0 inner with
        | none => [.fail .unclosedParenthesis pos]
        | some (l, r) =>
          have := (length_takeParens? _hl _hp).1
          have := (length_takeParens? _hl _hp).2
          let steps := selectorSteps pos false false .blank l
          steps ++ selectorSteps pos outer free (steps.foldl Trail.after trail) r
      | none, none =>
        match _hG : dropPseudo? ":global".toList (c :: s),
            _hL : dropPseudo? ":local".toList (c :: s) with
        | some rest, _ =>
          have := length_dropPseudo?_lt _hG (by simp)
          have := (List.dropWhile_sublist (p := Text.isBlank) (l := rest)).length_le
          let blanks := rest.takeWhile Text.isBlank
          let steps := gapSteps trail blanks
          steps ++ selectorSteps pos outer true (steps.foldl Trail.after trail)
            (rest.dropWhile Text.isBlank)
        | none, some rest =>
          have := length_dropPseudo?_lt _hL (by simp)
          have := (List.dropWhile_sublist (p := Text.isBlank) (l := rest)).length_le
          let blanks := rest.takeWhile Text.isBlank
          let steps := gapSteps trail blanks
          steps ++ selectorSteps pos outer false (steps.foldl Trail.after trail)
            (rest.dropWhile Text.isBlank)
        | none, none =>
          if (c = '.' ∨ c = '#') ∧ s.head?.any isNameStart then
            let name := (takeName s).1
            have := length_snd_le_of_append (takeName_append s)
            if free then
              .text (c :: name) ::
                selectorSteps pos outer free (Trail.solid.ofText name) (takeName s).2
            else
              let kind := if c = '.' then .cssClass else .cssId
              .text [c] :: .name kind (.ofList name) ::
                selectorSteps pos outer free .named (takeName s).2
          else
            .text [c] :: selectorSteps pos outer free (trail.ofText [c]) s
termination_by s.length
decreasing_by all_goals first | assumption | simp only [List.length_cons] at *; omega

/-- A text of selectors each of which is one class and nothing else. -/
def isClassList (s : List Char) : Bool :=
  (Text.splitWhere (· == ',') s).all fun part =>
    match Text.trim part with
    | '.' :: c :: rest => isNameStart c && (takeName (c :: rest)).2.isEmpty
    | _ => false

/-- The classes that a rule may compose into: those of a list of single classes. -/
def composableClasses (prelude : List Char) (steps : List Step) : List String :=
  if isClassList prelude then classesOf steps else []

end ScopedCss.Scoping
