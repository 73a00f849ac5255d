import ScopedCss.Proofs.Dialect.Tree
import ScopedCss.Proofs.Text.Suffix

namespace ScopedCss.Dialect

-- What a word and a value stand for.
def Word.resolved (values : Values) : Word → List Char
  | .plain w     => w.text
  | .reference v => ((values v.string).getD "").toList

def Value.resolved (values : Values) (v : Value) : List Char :=
  Text.join [' '] (v.words.map (·.resolved values))

def Value.Resolvable (values : Values) (v : Value) : Prop :=
  ∀ x, .reference x ∈ v.words → (values x.string).isSome

section

variable {style : ReferenceStyle} {values stored : Values} {s : Spelling} {rest t : List Char}

theorem interpolate_quiet (ht : ∀ c ∈ t, isQuiet c = true) : interpolate style values t = .ok t := by
  induction t
  case nil =>
    rw [interpolate]
    rfl
  case cons c t ih =>
    have hc : c ≠ '#' := by
      rintro rfl
      cases ht '#' List.mem_cons_self
    rw [interpolate, if_neg (by simp [hc]), ih fun c hc => ht c (.tail _ hc)]
    rfl

theorem ne_quote {c : Char} (h : isQuiet c = true) : ¬(c = '"' ∨ c = '\'') := by
  rintro (rfl | rfl)
  all_goals cases h

-- A character that begins no reference.
def Stays (style : ReferenceStyle) (last : Option Char) (c : Char) : Prop :=
  match style with
  | .sigil d => c ≠ d
  | .bare    => last.any isReferenceChar = true ∨ ¬(isReferenceStart c = true ∨ c = '$')

theorem replaceReferences_stays {c : Char} {last : Option Char} (hq : isQuiet c = true)
    (hs : Stays style last c) (values : Values) (rest : List Char) :
    replaceReferences style values .outside last (c :: rest) =
      (c :: ·) <$> replaceReferences style values .outside (some c) rest := by
  rw [replaceReferences.eq_def]
  cases style
  case sigil d =>
    simp only [Stays] at hs
    simp [ne_quote hq, hs]
  case bare =>
    simp only [Stays] at hs
    cases hs
    case inl h => simp [ne_quote hq, h]
    case inr h => simp [ne_quote hq, h]

theorem isWordChar_of_mem (v : Variable) : ∀ c ∈ v.text, Text.isWordChar c = true := by
  intro c hc
  simp [Text.isWordChar, Char.isAlphanum, Char.isAlpha, v.all c hc]

theorem replaceReferences_sigil {v : Variable} {value : String} (hv : values v.string = some value)
    (hr : rest.head?.any Text.isWordChar = false) (last : Option Char) :
    replaceReferences (.sigil s.sign) values .outside last (s.sign :: v.text ++ rest) =
      (value.toList ++ ·) <$> replaceReferences (.sigil s.sign) values .outside v.text.getLast? rest := by
  have hn : (v.text ++ rest).head?.any isReferenceStart = true := by
    cases hv : v.text
    case nil      => exact absurd hv v.ne_nil
    case cons c t => simp [isReferenceStart, Char.isAlpha, v.all c (by simp [hv])]
  have ht := Text.takeWhile_append (isWordChar_of_mem v) hr
  have hd := Text.dropWhile_append (isWordChar_of_mem v) hr
  have hs : values (.ofList v.text) = some value := hv
  rw [List.cons_append, replaceReferences.eq_def]
  simp only [ne_quote s.isQuiet_sign, hn, ht, hd, hs, if_false, and_self, if_true]
  rfl

theorem replaceReferences_bare {w : List Char} {c : Char} {last : Option Char}
    (hl : last.any isReferenceChar = false) (hc : isReferenceStart c = true ∨ c = '$')
    (hq : isQuiet c = true) (hw : ∀ c ∈ w, Text.isWordChar c = true)
    (hr : rest.head?.any Text.isWordChar = false) (values : Values) :
    replaceReferences .bare values .outside last (c :: w ++ rest) =
      (((values (.ofList (c :: w))).map String.toList).getD (c :: w) ++ ·) <$>
        replaceReferences .bare values .outside (c :: w).getLast? rest := by
  rw [List.cons_append, replaceReferences.eq_def]
  have ht := Text.takeWhile_append hw hr
  have hd := Text.dropWhile_append hw hr
  simp only [ne_quote hq, hl, hc, ht, hd, if_false, Bool.not_false, and_self, if_true]

-- A plain word stays as it is, ...
theorem replaceReferences_plain_sigil {d : Char} (hd : isPlainChar d = false) {w : List Char}
    (hw : ∀ c ∈ w, isPlainChar c = true) (values : Values) (last : Option Char) (rest : List Char) :
    ∃ last', replaceReferences (.sigil d) values .outside last (w ++ rest) =
      (w ++ ·) <$> replaceReferences (.sigil d) values .outside last' rest := by
  induction w generalizing last
  case nil => exact ⟨last, by simp⟩
  case cons c w ih =>
    have ⟨last', h⟩ := ih (fun c hc => hw c (.tail _ hc)) (some c)
    have hc := hw c List.mem_cons_self
    have hs : Stays (.sigil d) last c := by
      rintro rfl
      simp [hc] at hd
    refine ⟨last', ?_⟩
    rw [List.cons_append, replaceReferences_stays (isQuiet_of_isPlainChar hc) hs, h]
    simp

-- ... and so it does where names need no sign, unless a variable has one of them.
theorem replaceReferences_plain_bare {w : List Char} (hw : ∀ c ∈ w, isPlainChar c = true)
    (hv : ∀ k : List Char, k.head? ≠ some '$' → values (.ofList k) = none) (last : Option Char)
    (hr : rest.head?.any Text.isWordChar = false) :
    ∃ last', replaceReferences .bare values .outside last (w ++ rest) =
      (w ++ ·) <$> replaceReferences .bare values .outside last' rest := by
  induction hn : w.length using Nat.strongRecOn generalizing w last
  case ind n ih =>
  cases w
  case nil => exact ⟨last, by simp⟩
  case cons c w =>
    subst hn
    have hc := hw c List.mem_cons_self
    have hw := fun c hc => hw c (List.Mem.tail _ hc)
    by_cases hs : Stays .bare last c
    case pos =>
      have ⟨last', h⟩ := ih w.length (by simp) hw (some c) rfl
      refine ⟨last', ?_⟩
      rw [List.cons_append, replaceReferences_stays (isQuiet_of_isPlainChar hc) hs, h]
      simp
    case neg =>
      -- The word that begins here ends in the plain word, or with it.
      have ⟨hl, hs⟩ := not_or.1 hs
      have hl := Bool.eq_false_iff.2 hl
      have hs := Decidable.not_not.1 hs
      have hn : c ≠ '$' := by
        rintro rfl
        cases hc
      have hx : values (.ofList (c :: w.takeWhile Text.isWordChar)) = none := hv _ (by simpa using hn)
      have ha : ∀ c ∈ w.takeWhile Text.isWordChar, Text.isWordChar c = true :=
        List.all_eq_true.1 List.all_takeWhile
      have hb : (w.dropWhile Text.isWordChar ++ rest).head?.any Text.isWordChar = false := by
        cases hd : w.dropWhile Text.isWordChar
        case nil => simpa using hr
        case cons d t =>
          have := List.head?_dropWhile_not Text.isWordChar w
          simp_all
      have hm := List.dropWhile_sublist (p := Text.isWordChar) (l := w)
      have ⟨last', h⟩ := ih (w.dropWhile Text.isWordChar).length (Nat.lt_succ_of_le hm.length_le)
        (fun c hc => hw c (hm.subset hc)) (c :: w.takeWhile Text.isWordChar).getLast? rfl
      have he : c :: w ++ rest =
          c :: w.takeWhile Text.isWordChar ++ (w.dropWhile Text.isWordChar ++ rest) := by
        rw [List.cons_append, List.cons_append, ← List.append_assoc, List.takeWhile_append_dropWhile]
      refine ⟨last', ?_⟩
      rw [he, replaceReferences_bare hl hs (isQuiet_of_isPlainChar hc) ha hb, hx, h]
      simp only [Option.map_none, Option.getD_none, Functor.map_map]
      refine congrArg (· <$> _) (funext fun t => ?_)
      rw [← List.append_assoc, List.cons_append, List.takeWhile_append_dropWhile]

-- What a style needs for words to mean what they stand for.
inductive Reads (s : Spelling) (values stored : Values) : ReferenceStyle → Prop
  | sigil : stored = values → Reads s values stored (.sigil s.sign)
  | bare  : s.sign = '$' → (∀ n : List Char, stored (.ofList ('$' :: n)) = values (.ofList n)) →
    (∀ k : List Char, k.head? ≠ some '$' → stored (.ofList k) = none) → Reads s values stored .bare

theorem replaceReferences_word (h : Reads s values stored style) {w : Word}
    (hw : ∀ v, w = .reference v → (values v.string).isSome) {last : Option Char}
    (hl : last.any isReferenceChar = false) (rest : List Char)
    (hr : rest.head?.any Text.isWordChar = false) :
    ∃ last', replaceReferences style stored .outside last (s.word w ++ rest) =
      (w.resolved values ++ ·) <$> replaceReferences style stored .outside last' rest := by
  cases w
  case plain w =>
    cases h
    case sigil h => 
      have hd : isPlainChar s.sign = false := by
        cases s.isSign
        all_goals simp_all [isPlainChar]
      exact replaceReferences_plain_sigil hd w.all stored last rest
    case bare hs hn hk => exact replaceReferences_plain_bare w.all hk last hr
  case reference v =>
    obtain ⟨value, hv⟩ := Option.isSome_iff_exists.1 (hw v rfl)
    have he : (Word.reference v).resolved values = value.toList := by simp [Word.resolved, hv]
    rw [he]
    cases h
    case sigil h => exact ⟨_, replaceReferences_sigil (h ▸ hv) hr last⟩
    case bare hs hn hk =>
      have hx : stored (.ofList ('$' :: v.text)) = some value := (hn v.text).trans hv
      have := replaceReferences_bare hl (.inr rfl) rfl (isWordChar_of_mem v) hr stored
      rw [hx] at this
      exact ⟨_, hs ▸ this⟩

theorem Reads.stays_blank (h : Reads s values stored style) (last : Option Char) : Stays style last ' ' := by
  cases h
  case sigil =>
    intro hs
    cases s.isSign
    all_goals simp_all
  case bare => exact .inr (by decide)

theorem replaceReferences_words (h : Reads s values stored style) {ws : List Word}
    (hw : ∀ v, .reference v ∈ ws → (values v.string).isSome) (last : Option Char)
    (hl : last.any isReferenceChar = false) :
    replaceReferences style stored .outside last (Text.join [' '] (ws.map s.word)) =
      .ok (Text.join [' '] (ws.map (·.resolved values))) := by
  have hnil (last : Option Char) : replaceReferences style stored .outside last [] = .ok [] := by
    rw [replaceReferences.eq_def]
    rfl
  induction ws generalizing last
  case nil => exact hnil last
  case cons w ws ih =>
    have hv : ∀ v, w = .reference v → (values v.string).isSome := fun v he => hw v (by simp [he])
    cases ws
    case nil =>
      obtain ⟨last', he⟩ := replaceReferences_word h hv hl [] rfl
      rw [hnil, List.append_nil] at he
      simpa [Text.join] using he
    case cons w' ws =>
      have ih := ih (fun v hm => hw v (.tail _ hm)) (some ' ') (by decide)
      obtain ⟨last', he⟩ := replaceReferences_word h hv hl
        (' ' :: Text.join [' '] ((w' :: ws).map s.word)) rfl
      rw [replaceReferences_stays (by decide) (h.stays_blank last'), ih] at he
      simpa [Text.join] using he

-- A value becomes what it stands for, in every style.
theorem substitute_value (h : Reads s values stored style) {v : Value} (hv : v.Resolvable values) :
    substitute style stored (s.value v) = .ok (v.resolved values) := by
  have hr := replaceReferences_words h hv none rfl
  rw [substitute, interpolate_quiet (s.quiet_value v)]
  change references style stored (s.value v) = _
  rw [references, Spelling.value, hr]
  rfl

end

end ScopedCss.Dialect
