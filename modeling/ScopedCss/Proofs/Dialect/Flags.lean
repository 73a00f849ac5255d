import ScopedCss.Proofs.Dialect.Global
import ScopedCss.Proofs.Dialect.Statements

namespace ScopedCss.Dialect

namespace Brace

-- What may stand behind the value of a variable.
inductive Flag
  /-- The value counts only where the variable has none. -/
  | fallback
  | everywhere
deriving DecidableEq, Repr

def Flag.text : Flag → List Char
  | fallback   => "!default".toList
  | everywhere => "!global".toList

-- A value and flags, each behind white space.
def flagged (value : List Char) (flags : List (List Char × Flag)) : List Char :=
  value ++ flags.flatMap fun (gap, flag) => gap ++ flag.text

-- A value without a flag at its end, and flags behind it.
structure IsFlagged (value : List Char) (flags : List (List Char × Flag)) : Prop where
  ne_nil    : value ≠ []
  trimmed   : Text.trim value = value
  unflagged : ∀ flag : Flag, ¬flag.text <:+ value
  blank     : ∀ f ∈ flags, ∀ c ∈ f.1, Text.isBlank c = true

-- The flags that are left if this one is taken from the end.
def without (flag : Flag) (flags : List (List Char × Flag)) : List (List Char × Flag) :=
  if flags.getLast?.map Prod.snd = some flag then flags.dropLast else flags

-- The flags that are not read: they stay in the value.
def unread (flags : List (List Char × Flag)) : List (List Char × Flag) :=
  without .everywhere (without .fallback flags)

variable {value : List Char} {flags : List (List Char × Flag)} {flag : Flag}

theorem Flag.isWord_text (flag : Flag) : Text.IsWord flag.text := by
  cases flag <;> exact ⟨by decide, by decide⟩

-- Flags differ in their last letters.
theorem Flag.eq_of_append_text {flag flag' : Flag} {s t : List Char} (h : s ++ flag.text = t ++ flag'.text) :
    flag = flag' := by
  have hlast (s : List Char) (flag : Flag) : (s ++ flag.text).getLast? = flag.text.getLast? :=
    List.getLast?_append_of_ne_nil s flag.isWord_text.1
  have hl := congrArg List.getLast? h
  rw [hlast, hlast] at hl
  revert hl
  cases flag <;> cases flag' <;> decide

-- What is done for either flag, one after the other.
def cutEnd (tail value : List Char) : List Char × Bool :=
  match Text.dropSuffix? tail value with
  | some head => (Text.trimEnd head, true)
  | none      => (value, false)

theorem dropFlags_cut (value : List Char) :
    dropFlags value =
      ((cutEnd Flag.everywhere.text (cutEnd Flag.fallback.text value).1).1, (cutEnd Flag.fallback.text value).2) := by
  unfold dropFlags cutEnd Flag.text
  -- What the texts of the flags are does not matter.
  generalize "!default".toList = s, "!global".toList = t
  cases Text.dropSuffix? s value
  case none =>
    dsimp only
    cases Text.dropSuffix? t value <;> rfl
  case some head =>
    dsimp only
    cases Text.dropSuffix? t (Text.trimEnd head) <;> rfl

theorem flagged_concat (value : List Char) (flags : List (List Char × Flag)) (gap : List Char) (flag : Flag) :
    flagged value (flags ++ [(gap, flag)]) = flagged value flags ++ gap ++ flag.text := by
  simp [flagged]

namespace IsFlagged

theorem dropLast (h : IsFlagged value flags) : IsFlagged value flags.dropLast :=
  { h with blank := fun f hf => h.blank f (List.mem_of_mem_dropLast hf) }

theorem without (h : IsFlagged value flags) (flag : Flag) : IsFlagged value (without flag flags) := by
  unfold Brace.without
  split
  case isTrue  => exact h.dropLast
  case isFalse => exact h

theorem trimEnd (h : IsFlagged value flags) : Text.trimEnd (flagged value flags) = flagged value flags := by
  obtain rfl | ⟨flags, ⟨gap, flag⟩, rfl⟩ := List.eq_nil_or_concat flags
  case inl => simpa [flagged] using Text.trimEnd_of_trim h.trimmed h.ne_nil
  case inr =>
    rw [List.concat_eq_append, flagged_concat]
    exact Text.trimEnd_word _ flag.isWord_text

theorem flagged_ne_nil (h : IsFlagged value flags) : flagged value flags ≠ [] :=
  List.append_ne_nil_of_left_ne_nil h.ne_nil _

theorem trim (h : IsFlagged value flags) : Text.trim (flagged value flags) = flagged value flags := by
  rw [Text.trim, flagged, Text.trimStart_of_trim h.trimmed h.ne_nil]
  exact h.trimEnd

-- A flag is cut off just if it is the last one.
theorem cutEnd_flagged (h : IsFlagged value flags) (flag : Flag) :
    cutEnd flag.text (flagged value flags) =
      (flagged value (Brace.without flag flags), decide (flags.getLast?.map Prod.snd = some flag)) := by
  obtain rfl | ⟨flags, ⟨gap, flag'⟩, rfl⟩ := List.eq_nil_or_concat flags
  case inl =>
    have hs : Text.dropSuffix? flag.text (flagged value []) = none := by
      refine Option.eq_none_iff_forall_ne_some.2 fun head hs => h.unflagged flag ⟨head, ?_⟩
      simpa [flagged] using (Text.dropSuffix?_eq_some_iff.1 hs).symm
    rw [cutEnd, hs]
    rfl
  case inr =>
    rw [List.concat_eq_append] at h ⊢
    have hflags : IsFlagged value flags := by simpa using h.dropLast
    have hgap := h.blank (gap, flag') (by simp)
    by_cases hf : flag' = flag
    case pos =>
      subst hf
      have hs := Text.dropSuffix?_eq_some_iff.2 (flagged_concat value flags gap flag')
      rw [cutEnd, hs]
      simp [Text.trimEnd_blank _ hgap, hflags.trimEnd, Brace.without]
    case neg =>
      have hs : Text.dropSuffix? flag.text (flagged value (flags ++ [(gap, flag')])) = none := by
        refine Option.eq_none_iff_forall_ne_some.2 fun head hs => hf ?_
        rw [Text.dropSuffix?_eq_some_iff, flagged_concat] at hs
        exact Flag.eq_of_append_text hs
      rw [cutEnd, hs]
      simp [hf, Brace.without]

theorem dropFlags_flagged (h : IsFlagged value flags) :
    dropFlags (flagged value flags) =
      (flagged value (unread flags), decide (flags.getLast?.map Prod.snd = some .fallback)) := by
  rw [dropFlags_cut, h.cutEnd_flagged]
  dsimp only
  rw [(h.without .fallback).cutEnd_flagged]
  rfl

-- In flags stands nothing at which a text is not simply read on.
theorem not_mem_flags (h : IsFlagged value flags) {d : Char} (hd : d ∈ '*' :: stops) :
    d ∉ flags.flatMap fun (gap, flag) => gap ++ flag.text := by
  have hother : ∀ d ∈ '*' :: stops, Text.isBlank d = false ∧ d ∉ "!default!global".toList := by decide
  obtain ⟨hb, hn⟩ := hother d hd
  intro hm
  obtain ⟨⟨gap, flag⟩, hf, hm⟩ := List.mem_flatMap.1 hm
  rcases List.mem_append.1 hm with hm | hm
  case inl => exact Bool.eq_false_iff.1 hb (h.blank _ hf d hm)
  case inr =>
    cases flag
    case fallback   => exact hn (List.mem_append_left "!global".toList hm)
    case everywhere => exact hn (List.mem_append_right "!default".toList hm)

theorem whole (h : IsFlagged value flags) (hv : Whole 0 value) : Whole 0 (flagged value flags) := by
  have hs : ∀ c ∈ flags.flatMap (fun (gap, flag) => gap ++ flag.text), isStop c = false := by
    intro c hc
    rw [isStop, List.contains_eq_mem, decide_eq_false_iff_not]
    exact fun hm => h.not_mem_flags (.tail _ hm) hc
  have hw : Whole 0 (flags.flatMap (fun (gap, flag) => gap ++ flag.text) ++ []) := .append_plain hs .nil
  rw [List.append_nil] at hw
  have hsub : ∀ c ∈ ['/', '*', '\x7b'], c ∈ '*' :: stops := by decide
  exact hv.append hw fun c hc hh => h.not_mem_flags (hsub c hc) (List.mem_of_head? hh)

end IsFlagged

theorem flagged_eq_iff : flagged value flags = value ↔ flags = [] := by
  constructor
  case mp =>
    intro h
    cases flags
    case nil => rfl
    case cons f flags =>
      have hf := f.2.isWord_text.1
      have h : f.2.text = [] := by simp_all [flagged]
      exact absurd h hf
  case mpr =>
    rintro rfl
    simp [flagged]

theorem without_concat (flag flag' : Flag) (flags : List (List Char × Flag)) (gap : List Char) :
    without flag (flags ++ [(gap, flag')]) = if flag' = flag then flags else flags ++ [(gap, flag')] := by
  simp [without]

-- No flag is left just if there is at most one of either kind, and `!global` in front of `!default`.
theorem unread_eq_nil_iff (flags : List (List Char × Flag)) :
    unread flags = [] ↔ (flags.map Prod.snd).Sublist [Flag.everywhere, Flag.fallback] := by
  have he (flags : List (List Char × Flag)) :
      without .everywhere flags = [] ↔ (flags.map Prod.snd).Sublist [Flag.everywhere] := by
    obtain rfl | ⟨flags, ⟨gap, flag⟩, rfl⟩ := List.eq_nil_or_concat flags
    case inl => simp [without]
    case inr =>
      rw [List.concat_eq_append, without_concat, List.sublist_singleton]
      cases flag <;> simp [List.append_eq_singleton_iff]
  obtain rfl | ⟨flags, ⟨gap, flag⟩, rfl⟩ := List.eq_nil_or_concat flags
  case inl => simp [unread, without]
  case inr =>
    rw [List.concat_eq_append, unread, without_concat]
    cases flag
    case fallback =>
      rw [if_pos rfl, he, List.map_append]
      change _ ↔ (flags.map Prod.snd ++ [Flag.fallback]).Sublist ([Flag.everywhere] ++ [Flag.fallback])
      rw [List.append_sublist_append_right]
    case everywhere =>
      rw [if_neg (by decide), without_concat, if_pos rfl, ← List.reverse_sublist]
      simp only [List.map_append, List.map_cons, List.map_nil, List.reverse_append, List.reverse_cons, List.reverse_nil,
        List.nil_append, List.singleton_append]
      rw [List.cons_sublist_cons']
      simp

theorem dropFlags_eq_iff (h : IsFlagged value flags) :
    dropFlags (flagged value flags) = (value, decide (.fallback ∈ flags.map Prod.snd)) ↔
      (flags.map Prod.snd).Sublist [.everywhere, .fallback] := by
  rw [h.dropFlags_flagged, Prod.mk.injEq, flagged_eq_iff, unread_eq_nil_iff, and_iff_left_iff_imp]
  intro hs
  have hall : ∀ fs ∈ List.sublists [Flag.everywhere, Flag.fallback],
      decide (fs.getLast? = some Flag.fallback) = decide (Flag.fallback ∈ fs) := by decide
  rw [← List.getLast?_map]
  exact hall _ (List.mem_sublists.2 hs)

-- The definition of a variable, with white space around the colon and flags behind the value.
structure FlaggedDefinition where
  sigil         : Char
  name          : List Char
  before        : List Char
  between       : List Char
  value         : List Char
  flags         : List (List Char × Flag)
  isSigil       : sigil = '$' ∨ sigil = '@'
  name_ne_nil   : name ≠ []
  isName        : ∀ c ∈ name, Text.isWordChar c = true
  blank_before  : ∀ c ∈ before, Text.isBlank c = true
  blank_between : ∀ c ∈ between, Text.isBlank c = true
  isFlagged     : IsFlagged value flags

namespace FlaggedDefinition

variable (d : FlaggedDefinition)

def rest : List Char :=
  d.name ++ (d.before ++ ':' :: (d.between ++ flagged d.value d.flags))

def text : List Char :=
  d.sigil :: d.rest

theorem statementNode_text (pos : Position) :
    statementNode d.sigil d.text pos =
      .ok (.definition (.ofList d.name) (.ofList (dropFlags (flagged d.value d.flags)).1)
        (dropFlags (flagged d.value d.flags)).2 pos) := by
  have hcolon : (d.before ++ ':' :: (d.between ++ flagged d.value d.flags)).head?.any Text.isWordChar = false := by
    cases hb : d.before
    case nil => rfl
    case cons c before =>
      have hc := d.blank_before c (hb ▸ List.mem_cons_self)
      refine Bool.eq_false_iff.2 fun hw => Bool.eq_false_iff.1 (not_isBlank (isQuiet_of_isWordChar hw) ?_) hc
      rintro rfl
      cases hw
  have hs : Text.dropPrefix? [d.sigil] d.text = some d.rest := Text.dropPrefix?_eq_some_iff.2 rfl
  have ht := Text.takeWhile_append d.isName hcolon
  have hr := Text.dropWhile_append d.isName hcolon
  have hc : Text.trimStart (d.before ++ ':' :: (d.between ++ flagged d.value d.flags)) =
      ':' :: (d.between ++ flagged d.value d.flags) := Text.trimStart_blank d.blank_before _
  have hv : Text.dropPrefix? [':'] (':' :: (d.between ++ flagged d.value d.flags)) =
      some (d.between ++ flagged d.value d.flags) := rfl
  have htrim : Text.trim (d.between ++ flagged d.value d.flags) = flagged d.value d.flags := by
    simpa using Text.trim_surrounded d.isFlagged.trim d.isFlagged.flagged_ne_nil d.blank_between (w := []) (by simp)
  have hd : definition? d.sigil d.text pos =
      some (.definition (.ofList d.name) (.ofList (dropFlags (flagged d.value d.flags)).1)
        (dropFlags (flagged d.value d.flags)).2 pos) := by
    simp only [definition?, hs, rest, Option.bind_eq_bind, Option.bind_some, ht, hr, d.name_ne_nil, if_false, hc, hv,
      htrim]
    rfl
  simp only [statementNode, hd]
  rfl

theorem whole_rest (h : Whole 0 d.value) : Whole 0 d.rest := by
  have hblank : ∀ c ∈ stops, Text.isBlank c = false := by decide
  have hname : ∀ c ∈ d.name, isStop c = false := fun c hc => isStop_eq_false (by decide) (d.isName c hc)
  have hbefore : ∀ c ∈ d.before, isStop c = false := fun c hc => isStop_eq_false hblank (d.blank_before c hc)
  have hbetween : ∀ c ∈ d.between, isStop c = false := fun c hc => isStop_eq_false hblank (d.blank_between c hc)
  exact .append_plain hname (.append_plain hbefore (.plain ':' rfl (.append_plain hbetween (d.isFlagged.whole h))))

theorem trim_text : Text.trim d.text = d.text := by
  have hb : Text.isBlank d.sigil = false := by rcases d.isSigil with h | h <;> rw [h] <;> rfl
  have hs : Text.trimStart d.text = d.text := by simp [Text.trimStart, text, hb]
  have he : d.text = d.sigil :: d.name ++ d.before ++ ':' :: d.between ++ flagged d.value d.flags := by
    simp [text, rest]
  rw [Text.trim, hs, he]
  exact Text.trimEnd_append_of_trim d.isFlagged.trim d.isFlagged.flagged_ne_nil _

theorem parse_text (h : Whole 0 d.value) :
    parse d.sigil (d.text ++ [';']) = (Brace.statementNode d.sigil d.text .start).map ([·]) := by
  have hc : isStop d.sigil = false := by rcases d.isSigil with h | h <;> rw [h] <;> rfl
  rw [parse, text, Clause.ofText_whole hc d.trim_text (d.whole_rest h), ← text, assemble]
  cases Brace.statementNode d.sigil d.text .start <;> rfl

end FlaggedDefinition

-- `!default` is read if it is the last flag, and `!global` if it is the last one apart from that. Flags that are
-- not read stay in the value, so all are read just if each stands at most once, `!global` in front of `!default`.
theorem statementNode_flagged (d : FlaggedDefinition) (pos : Position) :
    statementNode d.sigil d.text pos = .ok (.definition (.ofList d.name) (.ofList (flagged d.value (unread d.flags)))
        (decide (d.flags.getLast?.map Prod.snd = some .fallback)) pos) ∧
      (statementNode d.sigil d.text pos = .ok (.definition (.ofList d.name) (.ofList d.value)
          (decide (.fallback ∈ d.flags.map Prod.snd)) pos) ↔
        (d.flags.map Prod.snd).Sublist [.everywhere, .fallback]) ∧
      (Whole 0 d.value → parse d.sigil (d.text ++ [';']) = (statementNode d.sigil d.text .start).map ([·])) := by
  refine ⟨?_, ?_, d.parse_text⟩
  · rw [d.statementNode_text, d.isFlagged.dropFlags_flagged]
  · have hv : String.ofList (dropFlags (flagged d.value d.flags)).1 = .ofList d.value ↔
        (dropFlags (flagged d.value d.flags)).1 = d.value := String.ofList_inj
    rw [d.statementNode_text, ← dropFlags_eq_iff d.isFlagged, Except.ok.injEq, Node.definition.injEq, Prod.ext_iff]
    simp [hv]

theorem statementNode_flagged_swapped :
    ∃ d d' : FlaggedDefinition, d.value = "blue".toList ∧ d'.value = d.value ∧ Whole 0 d.value ∧
      d.text ++ [';'] = "$c: blue !global !default;".toList ∧
      parse '$' "$c: blue !global !default;".toList = .ok [.definition "c" "blue" true .start] ∧
      d'.text ++ [';'] = "$c: blue !default !global;".toList ∧
      parse '$' "$c: blue !default !global;".toList = .ok [.definition "c" "blue !default" false .start] := by
  have hu : ∀ flag : Flag, ¬flag.text <:+ "blue".toList := fun flag => by cases flag <;> decide
  have hf : IsFlagged "blue".toList [([' '], .everywhere), ([' '], .fallback)] :=
    ⟨by decide, by decide, hu, by decide⟩
  have hf' : IsFlagged "blue".toList [([' '], .fallback), ([' '], .everywhere)] :=
    ⟨by decide, by decide, hu, by decide⟩
  let d : FlaggedDefinition :=
    ⟨'$', ['c'], [], [' '], _, _, .inl rfl, by decide, by decide, by decide, by decide, hf⟩
  let d' : FlaggedDefinition :=
    ⟨'$', ['c'], [], [' '], _, _, .inl rfl, by decide, by decide, by decide, by decide, hf'⟩
  have hw : Whole 0 d.value := Whole.append_plain (s := "blue".toList) (by decide) .nil
  obtain ⟨-, hall, hparse⟩ := statementNode_flagged d .start
  obtain ⟨hread, -, hparse'⟩ := statementNode_flagged d' .start
  have hd : statementNode '$' d.text .start = .ok (.definition "c" "blue" true .start) := hall.2 (.refl _)
  have hd' : statementNode '$' d'.text .start = .ok (.definition "c" "blue !default" false .start) := hread
  refine ⟨d, d', rfl, rfl, hw, rfl, ?_, rfl, ?_⟩
  · exact (hparse hw).trans (congrArg (Except.map ([·])) hd)
  · exact (hparse' hw).trans (congrArg (Except.map ([·])) hd')

end Brace

end ScopedCss.Dialect
