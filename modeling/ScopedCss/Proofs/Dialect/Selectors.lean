import Mathlib.Data.List.ProdSigma
import ScopedCss.Dialect.Selector
import ScopedCss.Proofs.Text.Words

namespace ScopedCss.Dialect

def isQuote (c : Char) : Bool :=
  c == '"' || c == '\''

def isOpening (c : Char) : Bool :=
  c == '(' || c == '['

def isClosing (c : Char) : Bool :=
  c == ')' || c == ']'

-- From so many open brackets on all of them are closed, and so are strings, at the next quote of their kind:
-- that quote is not in them, not even behind a backslash. Commas stand in brackets or strings.
inductive Balanced : Nat → List Char → Prop
  | nil : Balanced 0 []
  | plain {depth : Nat} {s : List Char} (c : Char) : isQuote c = false → isOpening c = false → isClosing c = false →
    (c = ',' → depth ≠ 0) → Balanced depth s → Balanced depth (c :: s)
  | string {depth : Nat} {s : List Char} (q : Char) (inner : List Char) : isQuote q = true → q ∉ inner →
    Balanced depth s → Balanced depth (q :: inner ++ q :: s)
  | opening {depth : Nat} {s : List Char} (c : Char) : isOpening c = true → Balanced (depth + 1) s →
    Balanced depth (c :: s)
  | closing {depth : Nat} {s : List Char} (c : Char) : isClosing c = true → Balanced depth s →
    Balanced (depth + 1) (c :: s)

structure IsPart (p : List Char) : Prop where
  ne_nil   : p ≠ []
  trimmed  : Text.trim p = p
  balanced : Balanced 0 p

-- Parts with a comma and any white space between them.
inductive Joined : List (List Char) → List Char → Prop
  | nil : Joined [] []
  | single (p : List Char) : Joined [p] p
  | cons {q s : List Char} {ps : List (List Char)} (p v w : List Char) : (∀ c ∈ v, Text.isBlank c = true) →
    (∀ c ∈ w, Text.isBlank c = true) → Joined (q :: ps) s → Joined (p :: q :: ps) (p ++ v ++ ',' :: (w ++ s))

variable {depth : Nat} {quote : Option Char} {s t p v w : List Char} {parts : List (List Char)} {c q : Char}

theorem splitCommas_ne_nil (depth : Nat) (quote : Option Char) (s : List Char) : splitCommas depth quote s ≠ [] := by
  cases s
  case nil => simp [splitCommas]
  case cons c s =>
    simp only [splitCommas]
    split
    case isTrue  => simp
    case isFalse => split <;> simp

-- The state behind a character that is kept.
def depthBehind (c : Char) (depth : Nat) : Option Char → Nat
  | some _ => depth
  | none   => if isOpening c then depth + 1 else if isClosing c then depth - 1 else depth

def quoteBehind (c : Char) : Option Char → Option Char
  | some q => if c = q then none else some q
  | none   => if isQuote c then some c else none

theorem splitCommas_kept (h : ¬(quote = none ∧ depth = 0 ∧ c = ',')) (s : List Char) :
    splitCommas depth quote (c :: s) =
      (splitCommas (depthBehind c depth quote) (quoteBehind c quote) s).modifyHead (c :: ·) := by
  have hn := splitCommas_ne_nil (depthBehind c depth quote) (quoteBehind c quote) s
  obtain ⟨part, parts, hs⟩ := List.exists_cons_of_ne_nil hn
  rw [splitCommas.eq_def]
  dsimp only
  rw [if_neg h, hs]
  cases quote
  all_goals
    simp only [depthBehind, quoteBehind, isOpening, isClosing, isQuote, Bool.or_eq_true, beq_iff_eq] at hs
    simp [hs]

-- Nothing is cut before a string has ended.
theorem splitCommas_string (hn : q ∉ s) (depth : Nat) (t : List Char) :
    splitCommas depth (some q) (s ++ q :: t) = (splitCommas depth none t).modifyHead (s ++ [q] ++ ·) := by
  induction s
  case nil =>
    rw [List.nil_append, splitCommas_kept (by simp)]
    simp [depthBehind, quoteBehind]
  case cons c s ih =>
    obtain ⟨hc, hs⟩ := List.ne_and_not_mem_of_not_mem_cons hn
    rw [List.cons_append, splitCommas_kept (by simp)]
    simp [depthBehind, quoteBehind, hc.symm, ih hs, Function.comp_def]

-- A part is not cut, and behind it everything is as at the beginning.
theorem Balanced.splitCommas_append (h : Balanced depth p) (t : List Char) :
    splitCommas depth none (p ++ t) = (splitCommas 0 none t).modifyHead (p ++ ·) := by
  induction h
  case nil => exact List.modifyHead_id ▸ rfl
  case plain c hq ho hc hn _ ih =>
    rw [List.cons_append, splitCommas_kept (by tauto)]
    simp [depthBehind, quoteBehind, hq, ho, hc, ih, Function.comp_def]
  case string q inner hq hn _ ih =>
    have hc : q ≠ ',' := by
      rintro rfl
      cases hq
    have hd : isOpening q = false ∧ isClosing q = false := by
      simp only [isQuote, Bool.or_eq_true, beq_iff_eq] at hq
      rcases hq with rfl | rfl <;> decide
    rw [List.cons_append, List.cons_append, splitCommas_kept (by tauto), List.append_assoc, List.cons_append]
    simp [depthBehind, quoteBehind, hq, hd, splitCommas_string hn, ih, Function.comp_def]
  case opening c hc _ ih =>
    have hne : c ≠ ',' := by
      rintro rfl
      cases hc
    have hq : isQuote c = false := by
      simp only [isOpening, Bool.or_eq_true, beq_iff_eq] at hc
      rcases hc with rfl | rfl <;> decide
    rw [List.cons_append, splitCommas_kept (by tauto)]
    simp [depthBehind, quoteBehind, hq, hc, ih, Function.comp_def]
  case closing c hc _ ih =>
    have hq : isQuote c = false ∧ isOpening c = false := by
      simp only [isClosing, Bool.or_eq_true, beq_iff_eq] at hc
      rcases hc with rfl | rfl <;> decide
    rw [List.cons_append, splitCommas_kept (by simp)]
    simp [depthBehind, quoteBehind, hq, hc, ih, Function.comp_def]

theorem Balanced.append_plain (hs : ∀ c ∈ s, isQuote c = false ∧ isOpening c = false ∧ isClosing c = false ∧ c ≠ ',')
    (h : Balanced depth t) : Balanced depth (s ++ t) := by
  induction s
  case nil => exact h
  case cons c s ih =>
    obtain ⟨⟨hq, ho, hc, hn⟩, hs⟩ := List.forall_mem_cons.1 hs
    exact .plain c hq ho hc (absurd · hn) (ih hs)

theorem Balanced.of_blank (h : ∀ c ∈ w, Text.isBlank c = true) : Balanced 0 w := by
  have hs : ∀ c ∈ w, isQuote c = false ∧ isOpening c = false ∧ isClosing c = false ∧ c ≠ ',' := by
    intro c hc
    have hne (d : Char) (hd : Text.isBlank d = false) : c ≠ d := by
      rintro rfl
      exact absurd (h c hc) (by simp [hd])
    simp [isQuote, isOpening, isClosing, hne '"' rfl, hne '\'' rfl, hne '(' rfl, hne '[' rfl, hne ')' rfl,
      hne ']' rfl, hne ',' rfl]
  exact List.append_nil w ▸ nil.append_plain hs

-- Every part is what stands between commas, but for the white space around it.
theorem Joined.map_trim (h : Joined parts s) (hp : ∀ p ∈ parts, IsPart p) (hn : parts ≠ [])
    (hw : ∀ c ∈ w, Text.isBlank c = true) : (splitCommas 0 none (w ++ s)).map Text.trim = parts := by
  induction h generalizing w
  case nil => exact absurd rfl hn
  case single p =>
    obtain ⟨hne, ht, hb⟩ := hp p List.mem_cons_self
    have hs := hb.splitCommas_append []
    have hp := Text.trim_surrounded ht hne hw (w := []) (by simp)
    rw [List.append_nil] at hs hp
    rw [(Balanced.of_blank hw).splitCommas_append, hs]
    simpa [splitCommas] using hp
  case cons p v w' hv hw' _ ih =>
    obtain ⟨⟨hne, ht, hb⟩, hps⟩ := List.forall_mem_cons.1 hp
    have hp := Text.trim_surrounded ht hne hw hv
    rw [List.append_assoc] at hp
    rw [List.append_assoc, (Balanced.of_blank hw).splitCommas_append, hb.splitCommas_append,
      (Balanced.of_blank hv).splitCommas_append, splitCommas, if_pos ⟨rfl, rfl, rfl⟩]
    simp [hp, ih hps (List.cons_ne_nil _ _) hw']

theorem listParts_joined (h : Joined parts s) (hp : ∀ p ∈ parts, IsPart p) : listParts s = parts := by
  by_cases hn : parts = []
  case pos =>
    subst hn
    cases h
    rfl
  case neg =>
    rw [listParts, ← List.nil_append s, h.map_trim hp hn (by simp)]
    exact List.filter_eq_self.2 fun p hm => by simpa using (hp p hm).ne_nil

-- Lists of selectors are read as the parts that they were joined from, and nested rules are selected by every
-- parent with every child, once each and the children of the first parent first.
theorem combineSelectors_joined (h : Joined parts s) (hp : ∀ p ∈ parts, IsPart p) :
    listParts s = parts ∧
      ∀ parents, combineSelectors parents (.ofList s) =
        if parents = [] then parts.map fun child => .ofList (Text.trim (Text.replaceChar '&' [] child))
        else (parents ×ˢ parts).map fun (parent, child) => .ofList (nest parent.toList child) := by
  have hparts := listParts_joined h hp
  refine ⟨hparts, fun parents => ?_⟩
  simp only [combineSelectors, String.toList_ofList, hparts, List.isEmpty_iff]
  split
  case isTrue  => rfl
  case isFalse => simp [SProd.sprod, List.product, List.map_flatMap, Function.comp_def]

theorem combineSelectors_joined_attribute :
    let parts := ["[x=\"a,b\"]".toList, ":is(.a, .b)".toList, "&:hover".toList]
    let s := "[x=\"a,b\"] ,\n  :is(.a, .b),&:hover".toList
    Joined parts s ∧ (∀ p ∈ parts, IsPart p) ∧ listParts s = parts ∧
      combineSelectors [".p", ".q"] (.ofList s) = [".p [x=\"a,b\"]", ".p :is(.a, .b)", ".p:hover",
        ".q [x=\"a,b\"]", ".q :is(.a, .b)", ".q:hover"] := by
  intro parts s
  have hs : Joined parts s :=
    .cons _ [' '] ['\n', ' ', ' '] (by decide) (by decide) (.cons _ [] [] (by decide) (by decide) (.single _))
  have hattribute : Balanced 0 "[x=\"a,b\"]".toList :=
    .opening '[' rfl (Balanced.append_plain (s := "x=".toList) (by decide)
      (.string '"' "a,b".toList rfl (by decide) (.closing ']' rfl .nil)))
  have his : Balanced 0 ":is(.a, .b)".toList :=
    Balanced.append_plain (s := ":is".toList) (by decide) (.opening '(' rfl
      (Balanced.append_plain (s := ".a".toList) (by decide) (.plain ',' rfl rfl rfl (by decide)
        (Balanced.append_plain (s := " .b".toList) (by decide) (.closing ')' rfl .nil)))))
  have hhover : Balanced 0 "&:hover".toList := Balanced.append_plain (s := "&:hover".toList) (t := []) (by decide) .nil
  have hp : ∀ p ∈ parts, IsPart p := by
    intro p hm
    simp only [parts, List.mem_cons, List.not_mem_nil, or_false] at hm
    rcases hm with rfl | rfl | rfl
    · exact ⟨by decide, by decide, hattribute⟩
    · exact ⟨by decide, by decide, his⟩
    · exact ⟨by decide, by decide, hhover⟩
  obtain ⟨hparts, hcombine⟩ := combineSelectors_joined hs hp
  exact ⟨hs, hp, hparts, (hcombine _).trans (by decide)⟩

end ScopedCss.Dialect
