import Mathlib.Data.List.TakeDrop
import ScopedCss.Text.Cut
import ScopedCss.Text.Letter

namespace ScopedCss.Text

section

variable {s t start rest l : List Char}

-- What a reader leaves of a text is the end of it.
theorem trimStart_suffix (s : List Char) : trimStart s <:+ s :=
  List.dropWhile_suffix _

theorem prefix_trimEnd (s : List Char) : trimEnd s <+: s :=
  ⟨_, dropWhileEnd_append_takeWhileEnd isBlank s⟩

theorem dropPrefix?_suffix (h : dropPrefix? start s = some rest) : rest <:+ s :=
  ⟨start, (dropPrefix?_eq_some_iff.1 h).symm⟩

theorem dropWord?_suffix (h : dropWord? start s = some rest) : rest <:+ s := by
  fun_induction dropWord? start s
  case case1 =>
    cases h
    exact List.suffix_rfl
  case case3 ih => exact (ih h).trans (List.suffix_cons _ _)
  all_goals cases h

theorem splitOnce?_suffix (h : splitOnce? start s = some (l, rest)) : rest <:+ s := by
  fun_induction splitOnce? start s generalizing l
  case case1 =>
    cases h
    exact List.suffix_rfl
  case case2 => cases h
  case case3 hp =>
    cases h
    exact dropPrefix?_suffix hp
  case case4 ih =>
    have ⟨_, hs, he⟩ := Option.map_eq_some_iff.1 h
    cases he
    exact (ih hs).trans (List.suffix_cons _ _)

theorem span_suffix {p : Char → Bool} (h : s.span p = (l, rest)) : rest <:+ s := by
  rw [List.span_eq_takeWhile_dropWhile] at h
  cases h
  exact List.dropWhile_suffix _

theorem dropSuffix?_eq_some_iff {tail head : List Char} :
    dropSuffix? tail s = some head ↔ s = head ++ tail := by
  rw [dropSuffix?, Option.map_eq_some_iff, ← List.reverse_inj, List.reverse_append]
  constructor
  case mp =>
    rintro ⟨r, hr, rfl⟩
    rw [dropPrefix?_eq_some_iff.1 hr, List.reverse_reverse]
  case mpr =>
    intro hs
    exact ⟨head.reverse, dropPrefix?_eq_some_iff.2 hs, List.reverse_reverse head⟩

theorem dropSuffix?_eq_none {tail : List Char} {c : Char} (ht : c ∈ tail) (hs : c ∉ s) :
    dropSuffix? tail s = none := by
  cases hd : dropSuffix? tail s
  case none => rfl
  case some head =>
    rw [dropSuffix?_eq_some_iff] at hd
    exact absurd (hd ▸ List.mem_append_right head ht) hs

theorem dropPrefix?_eq_none {c d : Char} (h : c ≠ d) (start s : List Char) :
    dropPrefix? (c :: start) (d :: s) = none := by
  simp [dropPrefix?, h]

theorem cut?_append {p : Char → Bool} {c : Char} (hs : ∀ c ∈ s, p c = false) (hc : p c = true)
    (t : List Char) : cut? p (s ++ c :: t) = some (s, c, t) := by
  induction s
  case nil => simp [cut?, hc]
  case cons d s ih =>
    have hd := hs d List.mem_cons_self
    simp [cut?, hd, ih fun c hc => hs c (.tail _ hc)]

theorem cut?_eq_none {p : Char → Bool} (hs : ∀ c ∈ s, p c = false) : cut? p s = none := by
  induction s
  case nil => rfl
  case cons d s ih =>
    have hd := hs d List.mem_cons_self
    simp [cut?, hd, ih fun c hc => hs c (.tail _ hc)]

theorem cut?_ne_none {p : Char → Bool} {c : Char} (hm : c ∈ s) (hc : p c = true) : cut? p s ≠ none := by
  induction s
  case nil => cases hm
  case cons d s ih =>
    unfold cut?
    split
    case isTrue => simp
    case isFalse hd =>
      cases hm
      case head    => exact absurd hc hd
      case tail hm => simpa using ih hm

theorem takeWhile_append {p : Char → Bool} (hs : ∀ c ∈ s, p c = true) (ht : t.head?.any p = false) :
    (s ++ t).takeWhile p = s := by
  rw [List.takeWhile_append_of_pos hs]
  cases t
  case nil  => simp
  case cons => simp_all

theorem dropWhile_append {p : Char → Bool} (hs : ∀ c ∈ s, p c = true) (ht : t.head?.any p = false) :
    (s ++ t).dropWhile p = t := by
  rw [List.dropWhile_append_of_pos hs]
  cases t
  case nil  => simp
  case cons => simp_all

end

end ScopedCss.Text
