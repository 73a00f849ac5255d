import Mathlib.Data.List.TakeWhile
import ScopedCss.Proofs.Scoping.Lossless
import ScopedCss.Proofs.Text.Lines

namespace ScopedCss

namespace Text

theorem isBlank_of_trim_eq_nil {s : List Char} (h : trim s = []) : ∀ c ∈ s, isBlank c = true := by
  have hend : ∀ c ∈ trimStart s, isBlank c = true := by
    rw [trim, trimEnd, dropWhileEnd, List.reverse_eq_nil_iff, List.dropWhile_eq_nil_iff] at h
    exact fun c hc => h c (List.mem_reverse.2 hc)
  refine List.dropWhile_eq_nil_iff.1 (?_ : trimStart s = [])
  cases hs : trimStart s
  case nil => rfl
  case cons c rest =>
    have hc := List.head?_dropWhile_not isBlank s
    rw [show s.dropWhile isBlank = c :: rest from hs] at hc
    simp_all

theorem not_isBlank_of_trimEnd {s rest : List Char} {c : Char} (h : trimEnd (s.dropWhile isBlank) = c :: rest) :
    isBlank c = false := by
  have ⟨t, ht⟩ := prefix_trimEnd (s.dropWhile isBlank)
  have hc := List.head?_dropWhile_not isBlank s
  rw [← ht, h] at hc
  simpa using hc

end Text

namespace Scoping

-- What says which names are global and which are local, and is not written.
def marks : List (List Char) :=
  [":global".toList, ":local".toList, ":global(".toList, ":local(".toList, [')']]

theorem close_mem_marks : [')'] ∈ marks := by
  simp [marks]

-- What stands in front of a name where it is declared.
def NameKind.lead : NameKind → List Char
  | cssClass  => ['.']
  | cssId     => ['#']
  | keyframes => []

-- A part of a style sheet of which something is planned at once.
inductive Part
  | text (s : List Char)
  -- A local name, with what stands in front of it.
  | name (kind : NameKind) (n : List Char) (h : (kind.lead ++ n).head?.any (· != '\n') = true)
  -- A mark, and the white space behind it that is dropped with it.
  | mark (word blanks : List Char) (hw : word ∈ marks) (hb : ∀ c ∈ blanks, Text.isBlank c = true)
  -- The same where the names decide whether the white space is dropped.
  | gap (word blanks : List Char) (hw : word ∈ marks) (hb : ∀ c ∈ blanks, Text.isBlank c = true)
  -- A keyframes name in parentheses.
  | wrapped (opening body : List Char) (ho : opening ∈ marks)
  | wrappedName (opening body : List Char) (ho : opening ∈ marks)
  -- A `composes` declaration, with the comments in front of it and what ends it.
  | composed (compose : Step) (comments declaration stop : List Char) (hc : compose.piece? = none)
    (hd : (composesValue? declaration).isSome = true) (hs : stop = [] ∨ stop = [';'])

namespace Part

def source : Part → List Char
  | text s                                => s
  | name kind n _                         => kind.lead ++ n
  | mark word blanks _ _                  => word ++ blanks
  | gap word blanks _ _                   => word ++ blanks
  | wrapped opening body _                => opening ++ body ++ [')']
  | wrappedName opening body _            => opening ++ body ++ [')']
  | composed _ comments declaration stop .. => comments ++ declaration ++ stop

def steps : Part → List Step
  | text s                                  => [.text s]
  | name .keyframes n _                     => [.name .keyframes (.ofList n)]
  | name kind n _                           => [.text kind.lead, .name kind (.ofList n)]
  | mark ..                                 => []
  | gap _ blanks _ _                        => [.gap blanks]
  | wrapped _ body _                        => [.text (Text.trim body)]
  | wrappedName _ body _                    => [.name .keyframes (.ofList (Text.trim body))]
  | composed compose comments declaration .. => [compose, .text comments, .text (lineBreaks declaration)]

end Part

-- Steps for all of a text: it consists of parts, one behind the other, with what is planned for each.
def Plans (s : List Char) (steps : List Step) : Prop :=
  ∃ parts : List Part, parts.flatMap Part.source = s ∧ parts.flatMap Part.steps = steps

namespace Plans

variable {s t : List Char} {steps steps' : List Step}

theorem nil : Plans [] [] :=
  ⟨[], rfl, rfl⟩

theorem append (h : Plans s steps) (h' : Plans t steps') : Plans (s ++ t) (steps ++ steps') := by
  obtain ⟨parts, rfl, rfl⟩   := h
  obtain ⟨parts', rfl, rfl⟩ := h'
  exact ⟨parts ++ parts', List.flatMap_append, List.flatMap_append⟩

theorem only (part : Part) : Plans part.source part.steps :=
  ⟨[part], by simp, by simp⟩

theorem text (s : List Char) (h : Plans t steps) : Plans (s ++ t) (.text s :: steps) :=
  (only (.text s)).append h

-- A mark takes no steps.
theorem mark {word blanks : List Char} (hw : word ∈ marks) (hb : ∀ c ∈ blanks, Text.isBlank c = true)
    (h : Plans t steps) : Plans (word ++ blanks ++ t) steps :=
  (only (.mark word blanks hw hb)).append h

theorem bareMark {word : List Char} (hw : word ∈ marks) (h : Plans t steps) : Plans (word ++ t) steps := by
  have hs := mark hw (List.forall_mem_nil _) h
  rwa [List.append_nil] at hs

-- Keeping what was read behind `start` at once.
theorem read {p : List Char × List Char} (h : Plans p.2 steps) (start : List Char) (hp : p.1 ++ p.2 = s) :
    Plans (start ++ s) (.text (start ++ p.1) :: steps) := by
  rw [← hp, ← List.append_assoc]
  exact h.text _

-- A local name stands in the text, behind what shows of which kind it is.
theorem infix_of_name (h : Plans s steps) {kind : NameKind} {n : String} (hm : Step.name kind n ∈ steps) :
    kind.lead ++ n.toList <:+: s := by
  obtain ⟨parts, rfl, rfl⟩ := h
  obtain ⟨part, hp, hm⟩ := List.mem_flatMap.1 hm
  refine List.IsInfix.trans ?_ (List.infix_of_mem_flatten (List.mem_map_of_mem hp))
  cases part
  case name kind' name _ =>
    cases kind'
    all_goals
      simp only [Part.steps, List.mem_cons, reduceCtorEq, Step.name.injEq, List.not_mem_nil, or_false, false_or] at hm
      obtain ⟨rfl, rfl⟩ := hm
      rw [String.toList_ofList]
      exact List.infix_rfl
  case wrappedName opening body _ =>
    cases List.mem_singleton.1 hm
    have ⟨a, b, hb⟩ := Text.exists_trim body
    rw [String.toList_ofList]
    refine ⟨opening ++ a, b ++ [')'], ?_⟩
    conv_rhs => rw [Part.source, hb]
    simp [NameKind.lead]
  case composed compose comments declaration stop hc _ _ =>
    rcases List.mem_cons.1 hm with rfl | hm
    · cases hc
    · simp at hm
  all_goals simp [Part.steps] at hm

end Plans

section

variable {step : Step} {steps steps' : List Step}

theorem not_fails_left (h : ¬Fails (steps ++ steps')) : ¬Fails steps :=
  fun hf => h (fails_append.2 (.inl hf))

theorem not_fails_right (h : ¬Fails (steps ++ steps')) : ¬Fails steps' :=
  fun hf => h (fails_append.2 (.inr hf))

theorem not_fails_tail (h : ¬Fails (step :: steps)) : ¬Fails steps :=
  fun ⟨_, _, hm⟩ => h ⟨_, _, .tail _ hm⟩

end

theorem eq_of_dropPseudo? {name s rest : List Char} (h : dropPseudo? name s = some rest) : s = name ++ rest := by
  have ⟨r, hr, h⟩ := Option.bind_eq_some_iff.1 h
  rw [Text.dropPrefix?_eq_some_iff.1 hr]
  congr 1
  split at h
  case h_1 =>
    split at h
    case isTrue  => cases h
    case isFalse => exact Option.some.inj h
  case h_2 => exact Option.some.inj h

theorem plans_gapSteps {word blanks t : List Char} {steps : List Step} (hw : word ∈ marks)
    (hb : ∀ c ∈ blanks, Text.isBlank c = true) (trail : Trail) (h : Plans t steps) :
    Plans (word ++ blanks ++ t) (gapSteps trail blanks ++ steps) := by
  cases trail
  case blank => exact h.mark hw hb
  case named => exact (Plans.only (.gap word blanks hw hb)).append h
  case solid =>
    rw [List.append_assoc]
    exact (h.text blanks).bareMark hw

-- What stands in parentheses behind `opening`, and what follows them.
theorem plans_parens {opening s inner l r : List Char} {steps steps' : List Step} (ho : opening ∈ marks)
    (hi : Text.dropPrefix? opening s = some inner) (hp : takeParens? 0 inner = some (l, r))
    (hl : Plans l steps) (hr : Plans r steps') : Plans s (steps ++ steps') := by
  have hclose : Plans ([')'] ++ r) steps' := hr.bareMark close_mem_marks
  rw [Text.dropPrefix?_eq_some_iff.1 hi, eq_of_takeParens? hp]
  exact (hl.append hclose).bareMark ho

theorem plans_pseudo {word s rest : List Char} {trail : Trail} {steps : List Step} (hw : word ∈ marks)
    (hd : dropPseudo? word s = some rest) (h : Plans (rest.dropWhile Text.isBlank) steps) :
    Plans s (gapSteps trail (rest.takeWhile Text.isBlank) ++ steps) := by
  have hblank (c) (hc : c ∈ rest.takeWhile Text.isBlank) : Text.isBlank c = true :=
    List.all_eq_true.1 List.all_takeWhile c hc
  have hs := plans_gapSteps hw hblank trail h
  rwa [List.append_assoc, List.takeWhile_append_dropWhile, ← eq_of_dropPseudo? hd] at hs

theorem plans_selectorSteps {s : List Char} {pos : Position} {outer free : Bool} {trail : Trail}
    (hf : ¬Fails (selectorSteps pos outer free trail s)) : Plans s (selectorSteps pos outer free trail s) := by
  have hg  : ":global".toList ∈ marks  := by simp [marks]
  have hl  : ":local".toList ∈ marks   := by simp [marks]
  have hg' : ":global(".toList ∈ marks := by simp [marks]
  have hl' : ":local(".toList ∈ marks  := by simp [marks]
  fun_induction selectorSteps pos outer free trail s
  case case1 => exact .nil
  case case2 s _ _ ih            => exact (ih (not_fails_tail hf)).read ['/', '*'] (takeComment_append s)
  case case3 c s _ _ _ _ ih      => exact (ih (not_fails_tail hf)).read [c] (takeString_append c s)
  case case4 s _ _ _ _ ih        => exact (ih (not_fails_tail hf)).read ['['] (takeBracket_append _ s)
  case case5 ih                  => exact (ih (not_fails_tail hf)).text [',']
  case case6 | case8             => exact absurd ⟨_, _, .head _⟩ hf
  case case7 inner outside       =>
    exact plans_parens hg' ‹_› ‹_› (inner (not_fails_left hf)) (outside (not_fails_right hf))
  case case9 inner outside       =>
    exact plans_parens hl' ‹_› ‹_› (inner (not_fails_left hf)) (outside (not_fails_right hf))
  case case10 ih                 => exact plans_pseudo hg ‹_› (ih (not_fails_right hf))
  case case11 ih                 => exact plans_pseudo hl ‹_› (ih (not_fails_right hf))
  case case12 c s _ _ _ _ _ _ _ _ _ _ _ ih =>
    exact (ih (not_fails_tail hf)).read [c] (takeName_append s)
  case case13 c s _ _ _ _ _ _ _ _ hc name _ _ kind ih =>
    have hname : Plans (c :: name) [.text [c], .name kind (.ofList name)] := by
      rcases hc.1 with rfl | rfl
      · exact Plans.only (.name .cssClass name rfl)
      · exact Plans.only (.name .cssId name rfl)
    have hs := hname.append (ih (not_fails_tail (not_fails_tail hf)))
    rwa [List.cons_append, takeName_append] at hs
  case case14 c s _ _ _ _ _ _ _ _ _ ih => exact (ih (not_fails_tail hf)).text [c]

theorem eq_of_wrapped? {opening name inner : List Char} (h : wrapped? opening name = some inner) :
    ∃ body, name = opening ++ body ++ [')'] ∧ inner = Text.trim body := by
  have ⟨rest, hr, h⟩ := Option.bind_eq_some_iff.1 h
  have ⟨body, hb, he⟩ := Option.map_eq_some_iff.1 h
  refine ⟨body, ?_, he.symm⟩
  rw [Text.dropPrefix?_eq_some_iff.1 hr, Text.dropSuffix?_eq_some_iff.1 hb, List.append_assoc]

theorem ne_newline_of_not_isBlank {c : Char} (h : Text.isBlank c = false) : (c != '\n') = true := by
  rw [bne_iff_ne]
  rintro rfl
  cases h

theorem plans_keyframesNameSteps {name : List Char} (hn : ∀ c rest, name = c :: rest → Text.isBlank c = false) :
    Plans name (keyframesNameSteps name) := by
  unfold keyframesNameSteps
  split
  case h_1 inner hg =>
    obtain ⟨body, rfl, rfl⟩ := eq_of_wrapped? hg
    exact .only (.wrapped _ body (by simp [marks]))
  case h_2 =>
    have ho : ":local(".toList ∈ marks := by simp [marks]
    cases hl : wrapped? ":local(".toList name
    case none =>
      rw [Option.getD_none]
      dsimp only
      split
      case h_1        => exact .nil
      case h_2 c rest _ =>
        have hc := ne_newline_of_not_isBlank (hn c rest rfl)
        split
        case isTrue  => exact .only (.text _)
        case isFalse => exact .only (.name .keyframes _ (by simpa [NameKind.lead] using hc))
    case some inner =>
      obtain ⟨body, rfl, rfl⟩ := eq_of_wrapped? hl
      rw [Option.getD_some]
      dsimp only
      split
      case h_1 he =>
        have hclose : Plans [')'] [] := Plans.nil.bareMark close_mem_marks
        exact hclose.mark ho (Text.isBlank_of_trim_eq_nil he)
      case h_2 =>
        split
        case isTrue  => exact .only (.wrapped _ body ho)
        case isFalse => exact .only (.wrappedName _ body ho)

theorem plans_atRuleSteps (name prelude : List Char) : Plans prelude (atRuleSteps name prelude) := by
  unfold atRuleSteps
  split
  case isFalse => exact .only (.text _)
  case isTrue  =>
    unfold keyframesSteps
    split
    case h_2                  => exact .only (.text _)
    case h_1 head n blanks hs =>
      have hn (c rest) (h : n = c :: rest) : Text.isBlank c = false := by
        have ⟨_, _, hs⟩ := Option.bind_eq_some_iff.1 hs
        have ⟨_, _, hs⟩ := Option.bind_eq_some_iff.1 hs
        rw [List.span_eq_takeWhile_dropWhile] at hs
        split at hs
        case h_1       => cases hs
        case h_2 hspan =>
          cases hs
          cases hspan
          exact Text.not_isBlank_of_trimEnd h
      rw [← splitKeyframes?_append hs]
      exact ((plans_keyframesNameSteps hn).append (.only (.text blanks))).text head

theorem plans_animationValueSteps (shorthand : Bool) (depth : Nat) (named : Bool) (s : List Char) :
    Plans s (animationValueSteps shorthand depth named s) := by
  fun_induction animationValueSteps shorthand depth named s
  case case1                    => exact .nil
  case case2 ih                 => exact ih.text ['(']
  case case3 ih                 => exact ih.text [')']
  case case4 c _ _ _ _ ih       => exact ih.text [c]
  case case5 c s _ _ _ _ _ ih   => exact ih.read [c] (takeString_append c s)
  case case6 c s _ _ _ _ _ _ ih => exact ih.read [c] (p := (_, _)) List.takeWhile_append_dropWhile
  case case7 c s _ _ _ _ _ _ _ _ _ _ ih => exact ih.read [c] (takeName_append s)
  case case8 c s _ _ _ _ _ hc word rest _ _ ih =>
    have hnewline : c ≠ '\n' := by
      rintro rfl
      simp [isIdentStart, Text.isAscii] at hc
    have hname := Plans.only (.name .keyframes word (by simpa [word, NameKind.lead] using hnewline))
    have hs : Plans (word ++ rest) _ := hname.append ih
    rwa [List.cons_append, takeName_append] at hs
  case case9 c _ _ _ _ _ _ _ ih => exact ih.text [c]

-- To take names over is to write nothing.
theorem piece?_composeStep (targets : List String) (value : List Char) (pos : Position) :
    (composeStep targets value pos).piece? = none := by
  unfold composeStep
  dsimp only
  repeat' split
  all_goals rfl

theorem plans_declarationSteps (stack : List Block) (text : List Char) (pos : Position) (closes : Bool) :
    Plans (text ++ stopOf closes) (declarationSteps stack text pos closes) := by
  have hstop : Plans (stopOf closes) (if closes then [] else [.text [';']]) := by
    cases closes
    case false => exact .only (.text _)
    case true  => exact .nil
  unfold declarationSteps
  dsimp only
  split
  case h_2 => exact hstop.text text
  case h_1 targets rest =>
    split
    case h_1 value hv =>
      have hc := piece?_composeStep targets value pos
      have hs : stopOf closes = [] ∨ stopOf closes = [';'] := by cases closes <;> simp [stopOf]
      have hd : (composesValue? (splitComments text).2).isSome = true := by rw [hv, Option.isSome_some]
      have hp := Plans.only (.composed _ (splitComments text).1 _ (stopOf closes) hc hd hs)
      rwa [Part.source, splitComments_append] at hp
    case h_2 =>
      split
      case h_2          => exact hstop.text text
      case h_1 steps hs =>
        obtain ⟨⟨head, shorthand, value⟩, hsplit, he⟩ := Option.map_eq_some_iff.1 hs
        have hd : Plans (splitComments text).2 steps := by
          rw [← he, ← splitAnimation?_append hsplit]
          exact (plans_animationValueSteps ..).text head
        have hr := (hd.append hstop).text (splitComments text).1
        rwa [← List.append_assoc, splitComments_append] at hr

-- What is planned for segments is planned for all of their text.
theorem plans_planSegments {stack : List Block} {segments : List Segment}
    (hf : ¬Fails (planSegments stack segments)) :
    Plans (segments.flatMap Segment.text) (planSegments stack segments) := by
  induction segments generalizing stack
  case nil => exact .nil
  case cons segment rest ih =>
    rw [List.flatMap_cons]
    cases segment
    case blank s => exact (ih (not_fails_tail hf)).text s
    case opening prelude pos =>
      unfold planSegments at hf ⊢
      rw [Segment.text, List.append_assoc]
      cases hn : atRuleName? prelude
      all_goals
        rw [hn] at hf
        dsimp only at hf ⊢
        have hrest := (ih (not_fails_tail (not_fails_right hf))).text ['\x7b']
      case some name => exact (plans_atRuleSteps name prelude).append hrest
      case none      => exact (plans_selectorSteps (not_fails_left hf)).append hrest
    case verbatim prelude body =>
      unfold planSegments at hf ⊢
      rw [Segment.text, List.append_assoc]
      have hrest := ih (not_fails_tail (not_fails_tail (not_fails_right hf)))
      exact (plans_atRuleSteps _ prelude).append ((hrest.text body).text ['\x7b'])
    case declaration text pos closes =>
      have hd := plans_declarationSteps stack text pos closes
      unfold planSegments at hf ⊢
      cases closes
      case false => exact hd.append (ih (not_fails_right hf))
      case true  =>
        cases stack
        case nil              => exact absurd (fails_append.2 (.inr ⟨_, _, .head _⟩)) hf
        case cons block stack =>
          rw [stopOf, if_pos rfl, List.append_nil] at hd
          rw [Segment.text, List.append_assoc]
          exact hd.append ((ih (not_fails_tail (not_fails_right hf))).text ['\x7d'])
    case tail text =>
      cases stack
      case nil  => exact (ih (not_fails_tail hf)).text text
      case cons => exact absurd ⟨_, _, .tail _ (.head _)⟩ hf
    case broken => exact absurd ⟨_, _, .head _⟩ hf

end Scoping

end ScopedCss
