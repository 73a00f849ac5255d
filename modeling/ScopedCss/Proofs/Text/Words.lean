import ScopedCss.Proofs.Path.Canonical
import ScopedCss.Proofs.Text.Suffix
import ScopedCss.Text.Blank

namespace ScopedCss.Text

-- Of the characters of a list something is decided by looking at these, and not at all characters.
instance (priority := high) decidableForallMem (p : Char → Prop) [DecidablePred p] (s : List Char) :
    Decidable (∀ c ∈ s, p c) :=
  List.decidableBAll p s

-- What class names are, whatever else they are: they can be told apart in a list.
def IsWord (w : List Char) : Prop :=
  w ≠ [] ∧ ∀ c ∈ w, isBlank c = false

theorem isWord_of_mem_words {s w : List Char} (h : w ∈ words s) : IsWord w := by
  have ⟨hm, hn⟩ := List.mem_filter.1 h
  exact ⟨by simpa using hn, fun c hc => (not_mem_splitWhere hm hc).2⟩

theorem intercalate_eq_join (sep : List Char) (ws : List (List Char)) :
    sep.intercalate ws = join sep ws := by
  induction ws
  case nil => rfl
  case cons w ws ih => cases ws <;> simp_all [join]

theorem words_join {ws : List (List Char)} (h : ∀ w ∈ ws, IsWord w) : words (join [' '] ws) = ws := by
  by_cases hn : ws = []
  case pos => simp [hn, words, join, splitWhere]
  case neg =>
    rw [words, splitWhere_join (by decide) (fun w hw => (h w hw).2) hn]
    exact List.filter_eq_self.2 fun w hw => by simpa using (h w hw).1

-- The first word of a list that begins with one, whatever follows.
theorem head?_words_intercalate {w : String} (h : IsWord w.toList) (rest : List String) :
    (words (" ".intercalate (w :: rest)).toList).head? = some w.toList := by
  have ⟨hn, hb⟩ := h
  have hs : " ".toList = [' '] := rfl
  rw [String.toList_intercalate, hs, intercalate_eq_join, List.map_cons, words]
  cases rest.map String.toList
  case nil         => simp [join, splitWhere_of_none hb, hn]
  case cons v rest => simp [join, splitWhere_append hb (c := ' ') (by decide), hn]

-- A list of names is read back from the text that it is written as.
theorem words_intercalate {names : List String} (h : ∀ n ∈ names, IsWord n.toList) :
    (words (" ".intercalate names).toList).map String.ofList = names := by
  have hw : ∀ w ∈ names.map String.toList, IsWord w := by simpa using h
  have hs : " ".toList = [' '] := rfl
  rw [String.toList_intercalate, hs, intercalate_eq_join, words_join hw, List.map_map]
  simp [Function.comp_def]

section

variable {s t : List Char}

theorem trimStart_blank (hs : ∀ c ∈ s, isBlank c = true) (t : List Char) :
    trimStart (s ++ t) = trimStart t := by
  simp [trimStart, List.dropWhile_append_of_pos hs]

theorem trimEnd_blank (s : List Char) (ht : ∀ c ∈ t, isBlank c = true) :
    trimEnd (s ++ t) = trimEnd s := by
  have h : ∀ c ∈ t.reverse, isBlank c = true := by simpa using ht
  simp [trimEnd, dropWhileEnd, List.dropWhile_append_of_pos h]

theorem trimStart_word (hs : IsWord s) (t : List Char) : trimStart (s ++ t) = s ++ t := by
  have ⟨hn, hb⟩ := hs
  cases s
  case nil      => exact absurd rfl hn
  case cons c s => simp [trimStart, hb c List.mem_cons_self]

theorem trimEnd_word (s : List Char) (ht : IsWord t) : trimEnd (s ++ t) = s ++ t := by
  have h : IsWord t.reverse := ⟨by simpa using ht.1, by simpa using ht.2⟩
  have := trimStart_word h s.reverse
  simp only [trimStart] at this
  simp [trimEnd, dropWhileEnd, this]

end

-- A trimmed text begins with a character that is no white space.
theorem eq_cons_of_trim {s : List Char} (h : trim s = s) (hn : s ≠ []) :
    ∃ c t, s = c :: t ∧ isBlank c = false := by
  cases s
  case nil => exact absurd rfl hn
  case cons c t =>
    refine ⟨c, t, rfl, Bool.eq_false_iff.2 fun hc => ?_⟩
    have hl : (trim (c :: t)).length ≤ t.length := by
      rw [trim, trimStart, List.dropWhile_cons_of_pos hc]
      exact Nat.le_trans (prefix_trimEnd _).length_le (trimStart_suffix t).length_le
    rw [h] at hl
    exact absurd hl (by simp)

theorem trimStart_of_trim {s : List Char} (h : trim s = s) (hn : s ≠ []) (t : List Char) :
    trimStart (s ++ t) = s ++ t := by
  have ⟨c, s, hs, hc⟩ := eq_cons_of_trim h hn
  simp [hs, trimStart, hc]

theorem trimEnd_of_trim {s : List Char} (h : trim s = s) (hn : s ≠ []) : trimEnd s = s := by
  have hs := trimStart_of_trim h hn []
  rw [List.append_nil] at hs
  rwa [trim, hs] at h

theorem trimEnd_append_of_trim {t : List Char} (h : trim t = t) (hn : t ≠ []) (s : List Char) :
    trimEnd (s ++ t) = s ++ t := by
  have ht : t.reverse.dropWhile isBlank = t.reverse := by
    simpa [trimEnd, dropWhileEnd, List.reverse_eq_iff] using trimEnd_of_trim h hn
  simp [trimEnd, dropWhileEnd, List.dropWhile_append, ht, hn]

-- White space around a trimmed text goes, and nothing else.
theorem trim_surrounded {s v w : List Char} (h : trim s = s) (hn : s ≠ [])
    (hv : ∀ c ∈ v, isBlank c = true) (hw : ∀ c ∈ w, isBlank c = true) : trim (v ++ s ++ w) = s := by
  rw [trim, List.append_assoc, trimStart_blank hv, trimStart_of_trim h hn, trimEnd_blank s hw,
    trimEnd_of_trim h hn]

-- Words with single characters between them begin and end with a word.
theorem join_eq_append (sep : List Char) {ws : List (List Char)} (hn : ws ≠ []) :
    (∃ first ∈ ws, ∃ t, join sep ws = first ++ t) ∧ (∃ last ∈ ws, ∃ t, join sep ws = t ++ last) := by
  induction ws
  case nil => exact absurd rfl hn
  case cons w ws ih =>
    cases ws
    case nil => exact ⟨⟨w, by simp, [], by simp [join]⟩, ⟨w, by simp, [], by simp [join]⟩⟩
    case cons v ws =>
      obtain ⟨last, hl, t, ht⟩ := (ih (by simp)).2
      exact ⟨⟨w, by simp, _, List.append_assoc ..⟩, ⟨last, by simp_all, w ++ sep ++ t, by simp [join, ht]⟩⟩

theorem join_append (sep : List Char) {l r : List (List Char)} (hl : l ≠ []) (hr : r ≠ []) :
    join sep (l ++ r) = join sep l ++ sep ++ join sep r := by
  induction l
  case nil => exact absurd rfl hl
  case cons w l ih =>
    cases l
    case nil =>
      have ⟨v, r', he⟩ := List.exists_cons_of_ne_nil hr
      simp [he, join]
    case cons v l =>
      have h := ih (by simp)
      simp only [List.cons_append, join, List.append_assoc] at h ⊢
      rw [h]

theorem IsWord.trim {w : List Char} (h : IsWord w) : trim w = w := by
  have hs : trimStart w = w := by simpa using trimStart_word h []
  rw [Text.trim, hs]
  simpa using trimEnd_word [] h

theorem trim_join {ws : List (List Char)} (h : ∀ w ∈ ws, IsWord w) (sep : List Char) :
    trim (join sep ws) = join sep ws := by
  by_cases hn : ws = []
  case pos => simp [hn, join, trim, trimStart, trimEnd, dropWhileEnd]
  case neg =>
    obtain ⟨⟨first, hf, t, ht⟩, ⟨last, hl, u, hu⟩⟩ := join_eq_append sep hn
    have hs : trimStart (join sep ws) = join sep ws := by rw [ht, trimStart_word (h first hf)]
    rw [trim, hs, hu, trimEnd_word u (h last hl)]

-- A text that no line ends in is the first line of a text that goes on behind it.
theorem lines_cons {l : List Char} (hl : '\n' ∉ l) (hr : '\r' ∉ l) (s : List Char) :
    lines (l ++ '\n' :: s) = l :: lines s := by
  have hn : ∀ c ∈ l, (c == '\n') = false := by
    intro c hc
    rw [beq_eq_false_iff_ne]
    rintro rfl
    exact hl hc
  have hd : (dropSuffix? ['\r'] l).getD l = l := by
    rw [dropSuffix?_eq_none (c := '\r') (by decide) hr]
    rfl
  have hs : splitWhere (· == '\n') (l ++ '\n' :: s) = l :: splitWhere (· == '\n') s :=
    splitWhere_append hn (by decide)
  obtain ⟨part, parts, hp⟩ := List.exists_cons_of_ne_nil (splitWhere_ne_nil (· == '\n') s)
  simp only [lines, hs, hp, List.dropLast_cons_cons, List.getLast?_cons_cons, List.map_cons, hd]
  split <;> rfl

-- Texts that no line ends in are the lines of the text that they are the lines of.
theorem lines_flatMap {ls : List (List Char)} (h : ∀ l ∈ ls, '\n' ∉ l ∧ '\r' ∉ l) :
    lines (ls.flatMap (· ++ ['\n'])) = ls := by
  induction ls
  case nil => rfl
  case cons l ls ih =>
    obtain ⟨hl, hr⟩ := h l List.mem_cons_self
    rw [List.flatMap_cons, List.append_assoc, List.singleton_append, lines_cons hl hr,
      ih fun l hm => h l (.tail _ hm)]

end ScopedCss.Text
