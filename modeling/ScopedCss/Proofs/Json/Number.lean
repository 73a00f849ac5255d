import Mathlib.Data.List.TakeDrop
import Mathlib.Data.List.TakeWhile
import Mathlib.Tactic.IntervalCases
import ScopedCss.Json.Parser
import ScopedCss.Json.Printer

namespace ScopedCss

open Json

-- Sixty-four bits hold an integer, with a sign or without. A double is read inexactly: not every one is
-- read back from its own text.
def JsonNumber.ReadsBack : JsonNumber → Prop
  | .int n    => -2 ^ 63 ≤ n ∧ n < 2 ^ 64
  | .double x => readNumber (doubleText x) = some (.double x, [])

namespace Json

-- What can follow a value inside a text without white space.
def Closing (rest : List Char) : Prop :=
  ∀ c ∈ rest.head?, c = ',' ∨ c = ']' ∨ c = '\x7d'

section

variable {rest : List Char}

theorem closing_nil : Closing [] := by
  simp [Closing]

theorem closing_cons {c : Char} {s : List Char} (h : c = ',' ∨ c = ']' ∨ c = '\x7d') : Closing (c :: s) := by
  simpa [Closing] using h

theorem Closing.span_append (h : Closing rest) (s : List Char) :
    (s ++ rest).span Char.isDigit = ((s.span Char.isDigit).1, (s.span Char.isDigit).2 ++ rest) := by
  have hrest : rest.takeWhile Char.isDigit = [] ∧ rest.dropWhile Char.isDigit = rest := by
    cases rest
    case nil => exact ⟨rfl, rfl⟩
    case cons c rest =>
      have hc : c.isDigit = false := by
        rcases h c rfl with hc | hc | hc <;> subst hc <;> decide
      simp [hc]
  simp only [List.span_eq_takeWhile_dropWhile]
  induction s
  case nil => simp [hrest]
  case cons c s ih =>
    have ⟨ht, hd⟩ := Prod.mk.inj ih
    cases hc : c.isDigit
    case false => simp [hc]
    case true  => simp [hc, ht, hd]

theorem Closing.head (h : Closing rest) :
    rest = [] ∨ ∃ c s, rest = c :: s ∧ (c = ',' ∨ c = ']' ∨ c = '\x7d') := by
  cases rest
  case nil  => exact .inl rfl
  case cons => exact .inr ⟨_, _, rfl, h _ rfl⟩

end

-- The stages of reading a number: the digits of an exponent behind its sign, what stands behind the digits
-- of a fraction, those digits, and what stands behind the digits in front of the point.
def readPower (significand : Nat) (exp10 : Int) (negative : Bool) (s : List Char) : Option (Double × List Char) := do
  let (digits, s) := s.span Char.isDigit
  if digits.isEmpty then
    none
  else
    let n := digitsValue digits
    if Nat.pow 2 31 ≤ n then
      if significand ≠ 0 ∧ !negative then none else pure (⟨0⟩, s)
    else
      let exp10 := if negative then exp10 - n else exp10 + n
      pure (← toDouble significand exp10, s)

def readScaled (significand : Nat) (exp10 : Int) : List Char → Option ((Nat ⊕ Double) × List Char)
  | 'e' :: s | 'E' :: s => do
    let (x, s) ← readExponent significand exp10 s
    pure (.inr x, s)
  | s => do pure (.inr (← toDouble significand exp10), s)

def readFraction (significand dropped : Nat) (s : List Char) : Option ((Nat ⊕ Double) × List Char) :=
  let (decimals, s) := s.span Char.isDigit
  if decimals.isEmpty then
    none
  else
    let (significand, left) := fitDigits significand decimals
    readScaled significand (dropped - (decimals.length - left : Nat)) s

def readTail (significand dropped : Nat) : List Char → Option ((Nat ⊕ Double) × List Char)
  | '.' :: s => readFraction significand dropped s
  | 'e' :: s | 'E' :: s => do
    let (x, s) ← readExponent significand dropped s
    pure (.inr x, s)
  | s =>
    if dropped = 0 then pure (.inl significand, s)
    else do pure (.inr (← toDouble significand dropped), s)

def readSign : List Char → Bool × List Char
  | '+' :: s => (false, s)
  | '-' :: s => (true, s)
  | s        => (false, s)

theorem readExponent_eq (significand : Nat) (exp10 : Int) (s : List Char) :
    readExponent significand exp10 s = readPower significand exp10 (readSign s).1 (readSign s).2 := by
  unfold readExponent readPower readSign
  rfl

theorem readMagnitude_eq {s whole tail : List Char} (hs : s.span Char.isDigit = (whole, tail)) (hne : whole ≠ [])
    (hzero : ∀ c more, whole ≠ '0' :: c :: more) :
    readMagnitude s = readTail (fitDigits 0 whole).1 (fitDigits 0 whole).2 tail := by
  unfold readMagnitude
  rw [hs]
  dsimp only
  split
  case h_1 => exact absurd rfl hne
  case h_2 => exact absurd rfl (hzero _ _)
  case h_3 => rfl

-- What begins with neither a point nor the mark of an exponent.
def Unscaled (s : List Char) : Prop :=
  ∀ c ∈ s.head?, c ≠ '.' ∧ c ≠ 'e' ∧ c ≠ 'E'

theorem Unscaled.ne {s : List Char} (h : Unscaled s) (t : List Char) :
    s ≠ '.' :: t ∧ s ≠ 'e' :: t ∧ s ≠ 'E' :: t := by
  refine ⟨?_, ?_, ?_⟩
  all_goals
    intro he
    have hc := h _ (by rw [he]; rfl)
    simp at hc

theorem Unscaled.readScaled {s : List Char} (h : Unscaled s) (significand : Nat) (exp10 : Int) :
    readScaled significand exp10 s = (toDouble significand exp10).map (.inr ·, s) := by
  rw [Json.readScaled.eq_3 _ _ _ (fun t => (h.ne t).2.1) (fun t => (h.ne t).2.2)]
  cases toDouble significand exp10 <;> rfl

theorem Unscaled.readTail {s : List Char} (h : Unscaled s) (significand dropped : Nat) :
    readTail significand dropped s =
      if dropped = 0 then some (.inl significand, s) else (toDouble significand dropped).map (.inr ·, s) := by
  rw [Json.readTail.eq_4 _ _ _ (fun t => (h.ne t).1) (fun t => (h.ne t).2.1) (fun t => (h.ne t).2.2)]
  cases toDouble significand dropped <;> rfl

section

variable {rest : List Char}

theorem Closing.unscaled (h : Closing rest) : Unscaled rest := by
  intro c hc
  rcases h c hc with hc | hc | hc <;> subst hc <;> decide

-- Readers of numbers leave alone what is behind.
theorem Closing.readPower_append (h : Closing rest) (significand : Nat) (exp10 : Int) (negative : Bool)
    (s : List Char) :
    readPower significand exp10 negative (s ++ rest) =
      (readPower significand exp10 negative s).map (Prod.map id (· ++ rest)) := by
  simp only [readPower, h.span_append]
  split_ifs <;> simp

theorem Closing.readSign_append (h : Closing rest) (s : List Char) :
    readSign (s ++ rest) = Prod.map id (· ++ rest) (readSign s) := by
  cases s
  case nil =>
    rcases h.head with hr | ⟨c, s, hr, hc | hc | hc⟩
    all_goals
      subst hr
      try subst hc
      rfl
  case cons c s =>
    rw [List.cons_append]
    unfold readSign
    split <;> split <;> simp_all

theorem Closing.readExponent_append (h : Closing rest) (significand : Nat) (exp10 : Int) (s : List Char) :
    readExponent significand exp10 (s ++ rest) =
      (readExponent significand exp10 s).map (Prod.map id (· ++ rest)) := by
  rw [readExponent_eq, h.readSign_append, readExponent_eq]
  exact h.readPower_append ..

-- Either a number goes on in a known way, or not at all.
theorem Closing.scaled_cases (h : Closing rest) (s : List Char) :
    (∃ t, s = '.' :: t) ∨ (∃ t, s = 'e' :: t ∨ s = 'E' :: t) ∨ Unscaled s ∧ Unscaled (s ++ rest) := by
  cases s
  case nil => exact .inr (.inr ⟨by simp [Unscaled], h.unscaled⟩)
  case cons c s =>
    by_cases hpoint : c = '.'
    case pos => exact .inl ⟨s, by rw [hpoint]⟩
    case neg =>
      by_cases hmark : c = 'e' ∨ c = 'E'
      case pos => exact .inr (.inl ⟨s, by simpa using hmark⟩)
      case neg =>
        have hc : c ≠ '.' ∧ c ≠ 'e' ∧ c ≠ 'E' := ⟨hpoint, not_or.1 hmark⟩
        exact .inr (.inr ⟨by simpa [Unscaled] using hc, by simpa [Unscaled] using hc⟩)

theorem Closing.readScaled_append (h : Closing rest) (significand : Nat) (exp10 : Int) (s : List Char) :
    readScaled significand exp10 (s ++ rest) =
      (readScaled significand exp10 s).map (Prod.map id (· ++ rest)) := by
  rcases h.scaled_cases s with ⟨t, ht⟩ | ⟨t, ht | ht⟩ | ⟨hs, hrest⟩
  case inl =>
    subst ht
    rw [List.cons_append]
    simp only [readScaled]
    cases toDouble significand exp10 <;> rfl
  case inr.inl.inl | inr.inl.inr =>
    subst ht
    rw [List.cons_append]
    simp only [readScaled, h.readExponent_append]
    cases readExponent significand exp10 t <;> rfl
  case inr.inr =>
    rw [hs.readScaled, hrest.readScaled]
    cases toDouble significand exp10 <;> rfl

theorem Closing.readFraction_append (h : Closing rest) (significand dropped : Nat) (s : List Char) :
    readFraction significand dropped (s ++ rest) =
      (readFraction significand dropped s).map (Prod.map id (· ++ rest)) := by
  simp only [readFraction, h.span_append, h.readScaled_append]
  split_ifs <;> simp

theorem Closing.readTail_append (h : Closing rest) (significand dropped : Nat) (s : List Char) :
    readTail significand dropped (s ++ rest) =
      (readTail significand dropped s).map (Prod.map id (· ++ rest)) := by
  rcases h.scaled_cases s with ⟨t, ht⟩ | ⟨t, ht | ht⟩ | ⟨hs, hrest⟩
  case inl =>
    subst ht
    exact h.readFraction_append ..
  case inr.inl.inl | inr.inl.inr =>
    subst ht
    rw [List.cons_append]
    simp only [readTail, h.readExponent_append]
    cases readExponent significand dropped t <;> rfl
  case inr.inr =>
    rw [hs.readTail, hrest.readTail]
    split_ifs
    case pos => rfl
    case neg => cases toDouble significand dropped <;> rfl

theorem Closing.readMagnitude_append (h : Closing rest) {s t : List Char} {x : Nat ⊕ Double}
    (hx : readMagnitude s = some (x, t)) : readMagnitude (s ++ rest) = some (x, t ++ rest) := by
  rcases hs : s.span Char.isDigit with ⟨whole, tail⟩
  have hspan := h.span_append s
  rw [hs] at hspan
  have hne : whole ≠ [] := by
    intro hw
    rw [readMagnitude, hs, hw] at hx
    cases hx
  have hzero (c : Char) (more : List Char) : whole ≠ '0' :: c :: more := by
    intro hw
    rw [readMagnitude, hs, hw] at hx
    cases hx
  rw [readMagnitude_eq hs hne hzero] at hx
  rw [readMagnitude_eq hspan hne hzero, h.readTail_append, hx]
  rfl

theorem Closing.readNumber_append (h : Closing rest) {s t : List Char} {n : JsonNumber}
    (hn : readNumber s = some (n, t)) : readNumber (s ++ rest) = some (n, t ++ rest) := by
  cases s
  case nil => cases hn
  case cons c s =>
    by_cases hc : c = '-'
    case pos =>
      subst hc
      simp only [readNumber, List.cons_append, Option.map_eq_some_iff, Prod.exists] at hn ⊢
      obtain ⟨x, t, hx, he⟩ := hn
      cases he
      exact ⟨x, _, h.readMagnitude_append hx, rfl⟩
    case neg =>
      have hne (s t : List Char) : c :: s ≠ '-' :: t := fun he => hc (List.cons.inj he).1
      rw [List.cons_append, readNumber.eq_2 _ (hne _)]
      rw [readNumber.eq_2 _ (hne _)] at hn
      simp only [Option.map_eq_some_iff, Prod.exists] at hn ⊢
      obtain ⟨x, t, hx, he⟩ := hn
      refine ⟨x, t ++ rest, h.readMagnitude_append hx, ?_⟩
      cases x <;> cases he <;> rfl

end

theorem le_ofDigitChars (digits : List Char) (n : Nat) : n ≤ Nat.ofDigitChars 10 digits n := by
  induction digits generalizing n
  case nil => exact Nat.le_refl n
  case cons c digits ih =>
    rw [Nat.ofDigitChars_cons]
    have := ih (10 * n + (c.toNat - '0'.toNat))
    omega

theorem fitDigits_eq (significand : Nat) (digits : List Char) (h : Nat.ofDigitChars 10 digits significand < 2 ^ 64) :
    fitDigits significand digits = (Nat.ofDigitChars 10 digits significand, 0) := by
  induction digits generalizing significand
  case nil => rfl
  case cons c digits ih =>
    rw [Nat.ofDigitChars_cons] at h ⊢
    have hnext : significand * 10 + (c.toNat - '0'.toNat) < Nat.pow 2 64 := by
      rw [Nat.mul_comm]
      exact Nat.lt_of_le_of_lt (le_ofDigitChars digits _) h
    rw [fitDigits, if_pos hnext, Nat.mul_comm significand, ih _ h]

theorem head?_toDigits {n : Nat} (h : n ≠ 0) : (Nat.toDigits 10 n).head? ≠ some '0' := by
  induction n using Nat.strongRecOn
  case ind n ih =>
    rw [Nat.toDigits_eq_if (by decide)]
    split
    case isTrue hn => interval_cases n <;> simp_all
    case isFalse hn =>
      have hhead := ih (n / 10) (by omega) (by omega)
      have ⟨c, digits, hd⟩ := List.exists_cons_of_ne_nil (Nat.toDigits_ne_nil (b := 10) (n := n / 10))
      rw [hd] at hhead ⊢
      exact hhead

theorem readMagnitude_toDigits {n : Nat} (h : n < 2 ^ 64) : readMagnitude (Nat.toDigits 10 n) = some (.inl n, []) := by
  have hspan : (Nat.toDigits 10 n).span Char.isDigit = (Nat.toDigits 10 n, []) := by
    have hdigits : ∀ c ∈ Nat.toDigits 10 n, c.isDigit = true :=
      fun c => Nat.isDigit_of_mem_toDigits (by decide) (by decide)
    rw [List.span_eq_takeWhile_dropWhile, List.takeWhile_eq_self_iff.2 hdigits, List.dropWhile_eq_nil_iff.2 hdigits]
  have hzero (c : Char) (more : List Char) : Nat.toDigits 10 n ≠ '0' :: c :: more := by
    intro he
    by_cases hn : n = 0
    case pos =>
      subst hn
      cases he
    case neg => exact head?_toDigits hn (by rw [he]; rfl)
  have hfit := fitDigits_eq 0 (Nat.toDigits 10 n) (by rwa [Nat.ofDigitChars_ten_toDigits])
  rw [readMagnitude_eq hspan Nat.toDigits_ne_nil hzero, hfit, Nat.ofDigitChars_ten_toDigits]
  rfl

theorem readNumber_intText {n : Int} (hl : -2 ^ 63 ≤ n) (hu : n < 2 ^ 64) :
    readNumber (intText n) = some (.int n, []) := by
  have habs := readMagnitude_toDigits (n := n.natAbs) (by omega)
  unfold intText
  split
  case isTrue hneg =>
    have hint : negated (.inl n.natAbs) = .int n := by
      rw [negated, if_neg (by rw [Nat.pow_eq]; omega)]
      congr
      omega
    rw [readNumber, habs, ← hint]
    rfl
  case isFalse hpos =>
    have hne (s : List Char) : Nat.toDigits 10 n.natAbs ≠ '-' :: s := by
      intro he
      have hdigit : '-'.isDigit = true :=
        Nat.isDigit_of_mem_toDigits (b := 10) (n := n.natAbs) (by decide) (by decide) (by simp [he])
      cases hdigit
    have hint : (n.natAbs : Int) = n := by omega
    rw [readNumber.eq_2 _ hne, habs]
    exact congrArg (fun n => some (JsonNumber.int n, [])) hint

end Json

theorem JsonNumber.ReadsBack.readNumber_append {n : JsonNumber} (h : n.ReadsBack) {rest : List Char}
    (hr : Closing rest) : readNumber (numberText n ++ rest) = some (n, rest) := by
  cases n
  case int n    => exact hr.readNumber_append (readNumber_intText h.1 h.2)
  case double x => exact hr.readNumber_append h

end ScopedCss
