import ScopedCss.Proofs.Json.Number

namespace ScopedCss

namespace Json

theorem hexValue?_hexDigit {n : Nat} (h : n < 16) : hexValue? (hexDigit n) = some n := by
  interval_cases n <;> rfl

theorem readEscapedUnits_control {n : Nat} (h : n < 32) (s : List Char) :
    readEscapedUnits ('0' :: '0' :: hexDigit (n / 16) :: hexDigit (n % 16) :: s) = some (Char.ofNat n, s) := by
  have hunit : readUnit ('0' :: '0' :: hexDigit (n / 16) :: hexDigit (n % 16) :: s) = some (n, s) := by
    have hzero : hexValue? '0' = some 0 := rfl
    rw [readUnit, hexValue?_hexDigit (by omega), hexValue?_hexDigit (by omega), hzero]
    exact congrArg (fun n => some (n, s)) (by omega)
  have hlow : isLowSurrogate n = false := by
    simp [isLowSurrogate]
    omega
  have hhigh : isHighSurrogate n = false := by
    simp [isHighSurrogate]
    omega
  simp [readEscapedUnits, hunit, hlow, hhigh]

theorem bind_cons (c : Char) (x : Option (List Char × List Char)) :
    (do let (l, s) ← x; pure (c :: l, s)) = x.map (Prod.map (c :: ·) id) := by
  rcases x with _ | ⟨_, _⟩ <;> rfl

theorem readChars_units (fuel : Nat) (t : List Char) : readChars (fuel + 1) ('\\' :: 'u' :: t) = (do
    let (d, s) ← readEscapedUnits t
    let (l, s) ← readChars fuel s
    pure (d :: l, s)) :=
  rfl

theorem readChars_escape (fuel : Nat) (c : Char) (s : List Char) :
    readChars (fuel + 1) (escape c ++ s) = (readChars fuel s).map (Prod.map (c :: ·) id) := by
  rw [← bind_cons]
  unfold escape
  split_ifs with hquote hslash hline hreturn htab hback hform hcontrol
  case pos | pos | pos | pos | pos | pos | pos =>
    subst c
    rfl
  case pos =>
    have hunits := readEscapedUnits_control hcontrol s
    rw [Char.ofNat_toNat] at hunits
    refine (readChars_units fuel ('0' :: '0' :: hexDigit (c.toNat / 16) :: hexDigit (c.toNat % 16) :: s)).trans ?_
    rw [hunits]
    rfl
  case neg =>
    rw [List.cons_append, List.nil_append, readChars.eq_def]
    dsimp only
    rw [if_neg hquote, if_neg hcontrol, if_neg hslash]

theorem readChars_quoted (fuel : Nat) {s : List Char} (h : s.length < fuel) (rest : List Char) :
    readChars fuel (s.flatMap escape ++ '"' :: rest) = some (s, rest) := by
  induction s generalizing fuel
  case nil =>
    cases fuel
    case zero => cases h
    case succ => rfl
  case cons c s ih =>
    cases fuel
    case zero => cases h
    case succ fuel =>
      rw [List.flatMap_cons, List.append_assoc, readChars_escape, ih _ (Nat.lt_of_succ_lt_succ h)]
      rfl

theorem readString_quote (s : String) (rest : List Char) :
    readString (s.toList.flatMap escape ++ '"' :: rest) = some (s, rest) := by
  have hlength (l : List Char) : l.length ≤ (l.flatMap escape).length := by
    induction l
    case nil => exact Nat.le_refl 0
    case cons c l ih =>
      have hc : 0 < (escape c).length := by
        unfold escape
        split_ifs <;> simp
      rw [List.flatMap_cons, List.length_append, List.length_cons]
      omega
  have hchars := readChars_quoted ((s.toList.flatMap escape ++ '"' :: rest).length + 1) (s := s.toList) (by
    have := hlength s.toList
    rw [List.length_append]
    omega) rest
  rw [readString, hchars]
  exact congrArg (fun s => some (s, rest)) String.ofList_toList

mutual

-- How many brackets stand inside each other.
def nesting : Json → Nat
  | array items   => nestingItems items + 1
  | object fields => nestingFields fields + 1
  | _             => 0

def nestingItems : List Json → Nat
  | []        => 0
  | j :: rest => max j.nesting (nestingItems rest)

def nestingFields : List (String × Json) → Nat
  | []             => 0
  | (_, j) :: rest => max j.nesting (nestingFields rest)

end

mutual

def numbers : Json → List JsonNumber
  | number n      => [n]
  | array items   => numbersItems items
  | object fields => numbersFields fields
  | _             => []

def numbersItems : List Json → List JsonNumber
  | []        => []
  | j :: rest => j.numbers ++ numbersItems rest

def numbersFields : List (String × Json) → List JsonNumber
  | []             => []
  | (_, j) :: rest => j.numbers ++ numbersFields rest

end

section

variable {fuel depth : Nat} {rest : List Char}

theorem skipSpace_cons {c : Char} (h : isSpace c = false) (s : List Char) : skipSpace (c :: s) = c :: s := by
  simp [skipSpace, h]

theorem readNumber_head {s : List Char} {x : JsonNumber × List Char} (h : readNumber s = some x) :
    ∃ c t, s = c :: t ∧ (c = '-' ∨ c.isDigit = true) := by
  cases s
  case nil => cases h
  case cons c s =>
    refine ⟨c, s, rfl, ?_⟩
    by_cases hc : c = '-'
    case pos => exact .inl hc
    case neg =>
      rw [readNumber.eq_2 _ (fun t he => hc (List.cons.inj he).1)] at h
      refine .inr (Bool.not_eq_false _ ▸ fun hd => ?_)
      have hspan : (c :: s).span Char.isDigit = ([], c :: s) := by simp [List.span_eq_takeWhile_dropWhile, hd]
      rw [readMagnitude, hspan] at h
      cases h

-- A number begins with no character that says what another value is.
theorem number_head {c : Char} (h : c = '-' ∨ c.isDigit = true) (d : Char) (hd : d.isDigit = false ∧ d ≠ '-') :
    c ≠ d := by
  rintro rfl
  rcases h with hc | hc
  case inl => exact hd.2 hc
  case inr => cases hd.1.symm.trans hc

theorem isSpace_number_head {c : Char} (h : c = '-' ∨ c.isDigit = true) : isSpace c = false := by
  have hne := number_head h
  simp [isSpace, hne ' ' (by decide), hne '\n' (by decide), hne '\t' (by decide), hne '\r' (by decide)]

theorem readValue_number {n : JsonNumber} (h : n.ReadsBack) (hr : Closing rest) :
    readValue (fuel + 1) depth (numberText n ++ rest) = some (number n, rest) := by
  have hread := h.readNumber_append hr
  have ⟨c, s, hs, hc⟩ := readNumber_head hread
  have hne := number_head hc
  rw [hs] at hread ⊢
  rw [readValue, skipSpace_cons (isSpace_number_head hc)]
  split
  case h_1 he => exact absurd (List.cons.inj he).1 (hne 'n' (by decide))
  case h_2 he => exact absurd (List.cons.inj he).1 (hne 't' (by decide))
  case h_3 he => exact absurd (List.cons.inj he).1 (hne 'f' (by decide))
  case h_4 he => exact absurd (List.cons.inj he).1 (hne '"' (by decide))
  case h_5 he => exact absurd (List.cons.inj he).1 (hne '[' (by decide))
  case h_6 he => exact absurd (List.cons.inj he).1 (hne '\x7b' (by decide))
  case h_7 =>
    rw [hread]
    rfl

theorem write_head {j : Json} (h : ∀ n ∈ j.numbers, n.ReadsBack) :
    ∃ c s, j.write = c :: s ∧ isSpace c = false ∧ c ≠ ']' := by
  cases j
  case null     => exact ⟨_, _, rfl, rfl, by decide⟩
  case bool b   => cases b <;> exact ⟨_, _, rfl, rfl, by decide⟩
  case number n =>
    have ⟨c, s, hs, hc⟩ := readNumber_head ((h n (.head _)).readNumber_append closing_nil)
    rw [List.append_nil] at hs
    exact ⟨c, s, hs, isSpace_number_head hc, number_head hc ']' (by decide)⟩
  all_goals exact ⟨_, _, rfl, rfl, by decide⟩

theorem quote_append (s : String) (rest : List Char) :
    quote s ++ rest = '"' :: (s.toList.flatMap escape ++ '"' :: rest) := by
  simp [quote]

theorem readValue_string (s : List Char) :
    readValue (fuel + 1) depth ('"' :: s) = (readString s).map fun (l, s) => (string l, s) := by
  rw [readValue]
  rfl

theorem readValue_bracket (fuel depth : Nat) (s : List Char) : readValue (fuel + 1) depth ('[' :: s) =
    if depth ≤ 1 then none else
      match skipSpace s with
      | ']' :: s => some (array [], s)
      | s        => (readItems fuel (depth - 1) s).map fun (l, s) => (array l, s) := by
  rw [readValue]
  rfl

theorem readValue_array (h : 1 < depth) {c : Char} {s : List Char} (hs : isSpace c = false) (hc : c ≠ ']') :
    readValue (fuel + 1) depth ('[' :: c :: s) =
      (readItems fuel (depth - 1) (c :: s)).map fun (l, s) => (array l, s) := by
  rw [readValue_bracket, if_neg (by omega), skipSpace_cons hs]
  split
  case h_1 he => exact absurd (List.cons.inj he).1 hc
  case h_2    => rfl

theorem readValue_object (h : 1 < depth) (s : List Char) :
    readValue (fuel + 1) depth ('\x7b' :: '"' :: s) =
      (readFields fuel (depth - 1) ('"' :: s)).map fun (l, s) => (object l, s) := by
  have hread : readValue (fuel + 1) depth ('\x7b' :: '"' :: s) =
      if depth ≤ 1 then none else (readFields fuel (depth - 1) ('"' :: s)).map fun (l, s) => (object l, s) := by
    rw [readValue]
    rfl
  rw [hread, if_neg (by omega)]

end

theorem writeItems_cons (j j' : Json) (items : List Json) :
    writeItems (j :: j' :: items) = j.write ++ ',' :: writeItems (j' :: items) :=
  rfl

theorem writeFields_cons (n : String) (j : Json) (field : String × Json) (fields : List (String × Json)) :
    writeFields ((n, j) :: field :: fields) = quote n ++ ':' :: (j.write ++ ',' :: writeFields (field :: fields)) := by
  simp [writeFields]

theorem writeFields_singleton (n : String) (j : Json) :
    writeFields [(n, j)] = quote n ++ ':' :: (j.write ++ ['\x7d']) := by
  simp [writeFields]

theorem readFields_quote (fuel depth : Nat) (n : String) (s : List Char) :
    readFields (fuel + 1) depth (quote n ++ ':' :: s) = (do
      let (j, s) ← readValue fuel depth s
      match skipSpace s with
      | '\x7d' :: s => pure ([(n, j)], s)
      | ',' :: s => do
        let (l, s) ← readFields fuel depth s
        pure ((n, j) :: l, s)
      | _ => none) := by
  rw [quote_append, readFields, skipSpace_cons rfl]
  change readString _ >>= _ = _
  rw [readString_quote]
  rfl

mutual

theorem readValue_write (fuel depth : Nat) (rest : List Char) (j : Json) (hf : 2 * j.write.length ≤ fuel)
    (hd : j.nesting < depth) (hn : ∀ n ∈ j.numbers, n.ReadsBack) (hr : Closing rest) :
    readValue fuel depth (j.write ++ rest) = some (j, rest) := by
  have ⟨_, _, hhead, _⟩ := write_head hn
  have hlength : 0 < j.write.length := by
    rw [hhead]
    exact Nat.succ_pos _
  obtain ⟨fuel, rfl⟩ : ∃ more, fuel = more + 1 := ⟨fuel - 1, by omega⟩
  cases j
  case null     => rfl
  case bool b   => cases b <;> rfl
  case number n => exact readValue_number (hn n (.head _)) hr
  case string s =>
    rw [write, quote_append, readValue_string, readString_quote]
    rfl
  case array items =>
    rw [nesting] at hd
    rw [write, List.length_cons] at hf
    rw [write, List.cons_append]
    cases items
    case nil =>
      have hdepth : ¬depth ≤ 1 := by omega
      rw [readValue]
      exact if_neg hdepth
    case cons j items =>
      have hitems := readItems_write fuel (depth - 1) rest (j :: items) (by simp) (by omega) (by omega) hn
      have ⟨c, s, hs, hspace, hbracket⟩ := write_head fun n hm => hn n (List.mem_append_left _ hm)
      have ⟨more, hmore⟩ : ∃ more, writeItems (j :: items) ++ rest = c :: more := by
        cases items <;> simp [writeItems, hs]
      rw [hmore] at hitems ⊢
      rw [readValue_array (by omega) hspace hbracket, hitems]
      rfl
  case object fields =>
    rw [nesting] at hd
    rw [write, List.length_cons] at hf
    rw [write, List.cons_append]
    cases fields
    case nil =>
      have hdepth : ¬depth ≤ 1 := by omega
      rw [readValue]
      exact if_neg hdepth
    case cons field fields =>
      have hfields := readFields_write fuel (depth - 1) rest (field :: fields) (by simp) (by omega) (by omega) hn
      have ⟨more, hmore⟩ : ∃ more, writeFields (field :: fields) ++ rest = '"' :: more := by
        cases fields <;> simp [writeFields, quote]
      rw [hmore] at hfields ⊢
      rw [readValue_object (by omega), hfields]
      rfl

theorem readItems_write (fuel depth : Nat) (rest : List Char) (items : List Json) (hne : items ≠ [])
    (hf : 2 * (writeItems items).length ≤ fuel) (hd : nestingItems items < depth)
    (hn : ∀ n ∈ numbersItems items, n.ReadsBack) :
    readItems fuel depth (writeItems items ++ rest) = some (items, rest) := by
  cases items
  case nil => exact absurd rfl hne
  case cons j items =>
    rw [nestingItems] at hd
    have hj (n) (hm : n ∈ j.numbers) := hn n (List.mem_append_left _ hm)
    have hitems (n) (hm : n ∈ numbersItems items) := hn n (List.mem_append_right _ hm)
    cases items
    case nil =>
      simp only [writeItems, List.length_append, List.length_cons, List.length_nil] at hf
      obtain ⟨fuel, rfl⟩ : ∃ more, fuel = more + 1 := ⟨fuel - 1, by omega⟩
      have hread := readValue_write fuel depth (']' :: rest) j (by omega) (by omega) hj (closing_cons (by simp))
      rw [writeItems, List.append_assoc, List.cons_append, List.nil_append, readItems, hread]
      rfl
    case cons j' items =>
      simp only [writeItems_cons, List.length_append, List.length_cons] at hf
      obtain ⟨fuel, rfl⟩ : ∃ more, fuel = more + 1 := ⟨fuel - 1, by omega⟩
      have hread := readValue_write fuel depth (',' :: (writeItems (j' :: items) ++ rest)) j (by omega) (by omega) hj
        (closing_cons (by simp))
      have hmore := readItems_write fuel depth rest (j' :: items) (by simp) (by omega) (by omega) hitems
      rw [writeItems_cons, List.append_assoc, List.cons_append, readItems, hread]
      change (do
        let (l, s) ← readItems fuel depth (writeItems (j' :: items) ++ rest)
        pure (j :: l, s)) = _
      rw [hmore]
      rfl

theorem readFields_write (fuel depth : Nat) (rest : List Char) (fields : List (String × Json)) (hne : fields ≠ [])
    (hf : 2 * (writeFields fields).length ≤ fuel) (hd : nestingFields fields < depth)
    (hn : ∀ n ∈ numbersFields fields, n.ReadsBack) :
    readFields fuel depth (writeFields fields ++ rest) = some (fields, rest) := by
  cases fields
  case nil => exact absurd rfl hne
  case cons field fields =>
    obtain ⟨name, j⟩ := field
    rw [nestingFields] at hd
    have hj (n) (hm : n ∈ j.numbers) := hn n (List.mem_append_left _ hm)
    have hfields (n) (hm : n ∈ numbersFields fields) := hn n (List.mem_append_right _ hm)
    cases fields
    case nil =>
      simp only [writeFields_singleton, List.length_append, List.length_cons, List.length_nil] at hf
      obtain ⟨fuel, rfl⟩ : ∃ more, fuel = more + 1 := ⟨fuel - 1, by omega⟩
      have hread := readValue_write fuel depth ('\x7d' :: rest) j (by omega) (by omega) hj (closing_cons (by simp))
      rw [writeFields_singleton, List.append_assoc, List.cons_append, List.append_assoc, List.cons_append,
        List.nil_append, readFields_quote, hread]
      rfl
    case cons field fields =>
      simp only [writeFields_cons, List.length_append, List.length_cons] at hf
      obtain ⟨fuel, rfl⟩ : ∃ more, fuel = more + 1 := ⟨fuel - 1, by omega⟩
      have hread := readValue_write fuel depth (',' :: (writeFields (field :: fields) ++ rest)) j (by omega) (by omega)
        hj (closing_cons (by simp))
      have hmore := readFields_write fuel depth rest (field :: fields) (by simp) (by omega) (by omega) hfields
      rw [writeFields_cons, List.append_assoc, List.cons_append, List.append_assoc, List.cons_append, readFields_quote,
        hread]
      change (do
        let (l, s) ← readFields fuel depth (writeFields (field :: fields) ++ rest)
        pure ((name, j) :: l, s)) = _
      rw [hmore]
      rfl

end

-- Text that a value is written as is read back.
theorem parse?_compact {j : Json} (hd : j.nesting < maxDepth) (hn : ∀ n ∈ j.numbers, n.ReadsBack) :
    parse? j.compact = some j := by
  have hread := readValue_write (2 * j.write.length + 2) maxDepth [] j (by omega) hd hn closing_nil
  rw [List.append_nil] at hread
  rw [parse?, compact, String.toList_ofList, hread]
  rfl

mutual

-- A value with too many brackets inside each other is not read.
theorem readValue_deep (fuel depth : Nat) (rest : List Char) (j : Json) (hf : 2 * j.write.length ≤ fuel)
    (hpos : 0 < depth) (hd : depth ≤ j.nesting) (hn : ∀ n ∈ j.numbers, n.ReadsBack) :
    readValue fuel depth (j.write ++ rest) = none := by
  cases j
  case array items =>
    rw [nesting] at hd
    rw [write, List.length_cons] at hf
    obtain ⟨fuel, rfl⟩ : ∃ more, fuel = more + 1 := ⟨fuel - 1, by omega⟩
    rw [write, List.cons_append]
    by_cases hdepth : depth ≤ 1
    case pos => rw [readValue_bracket, if_pos hdepth]
    case neg =>
      have hne : items ≠ [] := by
        rintro rfl
        simp only [nestingItems] at hd
        omega
      have hitems := readItems_deep fuel (depth - 1) rest items hne (by omega) (by omega) (by omega) hn
      obtain ⟨j, items, rfl⟩ := List.exists_cons_of_ne_nil hne
      have ⟨c, s, hs, hspace, hbracket⟩ := write_head fun n hm => hn n (List.mem_append_left _ hm)
      have ⟨more, hmore⟩ : ∃ more, writeItems (j :: items) ++ rest = c :: more := by
        cases items <;> simp [writeItems, hs]
      rw [hmore] at hitems ⊢
      rw [readValue_array (by omega) hspace hbracket, hitems]
      rfl
  case object fields =>
    rw [nesting] at hd
    rw [write, List.length_cons] at hf
    obtain ⟨fuel, rfl⟩ : ∃ more, fuel = more + 1 := ⟨fuel - 1, by omega⟩
    rw [write, List.cons_append]
    by_cases hdepth : depth ≤ 1
    case pos =>
      rw [readValue]
      exact if_pos hdepth
    case neg =>
      have hne : fields ≠ [] := by
        rintro rfl
        simp only [nestingFields] at hd
        omega
      have hfields := readFields_deep fuel (depth - 1) rest fields hne (by omega) (by omega) (by omega) hn
      obtain ⟨field, fields, rfl⟩ := List.exists_cons_of_ne_nil hne
      have ⟨more, hmore⟩ : ∃ more, writeFields (field :: fields) ++ rest = '"' :: more := by
        cases fields <;> simp [writeFields, quote]
      rw [hmore] at hfields ⊢
      rw [readValue_object (by omega), hfields]
      rfl
  all_goals exact absurd (hpos.trans_le hd) (Nat.lt_irrefl 0)

theorem readItems_deep (fuel depth : Nat) (rest : List Char) (items : List Json) (hne : items ≠ [])
    (hf : 2 * (writeItems items).length ≤ fuel) (hpos : 0 < depth) (hd : depth ≤ nestingItems items)
    (hn : ∀ n ∈ numbersItems items, n.ReadsBack) : readItems fuel depth (writeItems items ++ rest) = none := by
  cases items
  case nil => exact absurd rfl hne
  case cons j items =>
    rw [nestingItems] at hd
    have hj (n) (hm : n ∈ j.numbers) := hn n (List.mem_append_left _ hm)
    have hitems (n) (hm : n ∈ numbersItems items) := hn n (List.mem_append_right _ hm)
    cases items
    case nil =>
      simp only [writeItems, List.length_append, List.length_cons, List.length_nil] at hf
      obtain ⟨fuel, rfl⟩ : ∃ more, fuel = more + 1 := ⟨fuel - 1, by omega⟩
      have hnone := readValue_deep fuel depth (']' :: rest) j (by omega) hpos (by simpa [nestingItems] using hd) hj
      rw [writeItems, List.append_assoc, List.cons_append, List.nil_append, readItems, hnone]
      rfl
    case cons j' items =>
      simp only [writeItems_cons, List.length_append, List.length_cons] at hf
      obtain ⟨fuel, rfl⟩ : ∃ more, fuel = more + 1 := ⟨fuel - 1, by omega⟩
      rw [writeItems_cons, List.append_assoc, List.cons_append, readItems]
      -- Either the first value is too deep, or it is read and another one is too deep.
      by_cases hdeep : depth ≤ j.nesting
      case pos =>
        rw [readValue_deep fuel depth _ j (by omega) hpos hdeep hj]
        rfl
      case neg =>
        have hread := readValue_write fuel depth (',' :: (writeItems (j' :: items) ++ rest)) j (by omega) (by omega) hj
          (closing_cons (by simp))
        have hmore := readItems_deep fuel depth rest (j' :: items) (by simp) (by omega) hpos (by omega) hitems
        rw [hread]
        change (do
          let (l, s) ← readItems fuel depth (writeItems (j' :: items) ++ rest)
          pure (j :: l, s)) = _
        rw [hmore]
        rfl

theorem readFields_deep (fuel depth : Nat) (rest : List Char) (fields : List (String × Json)) (hne : fields ≠ [])
    (hf : 2 * (writeFields fields).length ≤ fuel) (hpos : 0 < depth) (hd : depth ≤ nestingFields fields)
    (hn : ∀ n ∈ numbersFields fields, n.ReadsBack) : readFields fuel depth (writeFields fields ++ rest) = none := by
  cases fields
  case nil => exact absurd rfl hne
  case cons field fields =>
    obtain ⟨name, j⟩ := field
    rw [nestingFields] at hd
    have hj (n) (hm : n ∈ j.numbers) := hn n (List.mem_append_left _ hm)
    have hfields (n) (hm : n ∈ numbersFields fields) := hn n (List.mem_append_right _ hm)
    cases fields
    case nil =>
      simp only [writeFields_singleton, List.length_append, List.length_cons, List.length_nil] at hf
      obtain ⟨fuel, rfl⟩ : ∃ more, fuel = more + 1 := ⟨fuel - 1, by omega⟩
      have hnone := readValue_deep fuel depth ('\x7d' :: rest) j (by omega) hpos (by simpa [nestingFields] using hd) hj
      rw [writeFields_singleton, List.append_assoc, List.cons_append, List.append_assoc, List.cons_append,
        List.nil_append, readFields_quote, hnone]
      rfl
    case cons field fields =>
      simp only [writeFields_cons, List.length_append, List.length_cons] at hf
      obtain ⟨fuel, rfl⟩ : ∃ more, fuel = more + 1 := ⟨fuel - 1, by omega⟩
      rw [writeFields_cons, List.append_assoc, List.cons_append, List.append_assoc, List.cons_append, readFields_quote]
      by_cases hdeep : depth ≤ j.nesting
      case pos =>
        rw [readValue_deep fuel depth _ j (by omega) hpos hdeep hj]
        rfl
      case neg =>
        have hread := readValue_write fuel depth (',' :: (writeFields (field :: fields) ++ rest)) j (by omega)
          (by omega) hj (closing_cons (by simp))
        have hmore := readFields_deep fuel depth rest (field :: fields) (by simp) (by omega) hpos (by omega) hfields
        rw [hread]
        change (do
          let (l, s) ← readFields fuel depth (writeFields (field :: fields) ++ rest)
          pure ((name, j) :: l, s)) = _
        rw [hmore]
        rfl

end

theorem parse?_deep {j : Json} (hd : maxDepth ≤ j.nesting) (hn : ∀ n ∈ j.numbers, n.ReadsBack) :
    parse? j.compact = none := by
  have hnone := readValue_deep (2 * j.write.length + 2) maxDepth [] j (by omega) (by decide) hd hn
  rw [List.append_nil] at hnone
  rw [parse?, compact, String.toList_ofList, hnone]
  rfl

end Json

end ScopedCss
