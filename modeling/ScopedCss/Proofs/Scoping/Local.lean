import ScopedCss.Proofs.Scoping.Spelling

namespace ScopedCss

namespace Text

variable {s l r : List Char} {quote : Char}

theorem closeComment?_ne_nil (h : closeComment? s = some (l, r)) : l ≠ [] := by
  fun_cases closeComment? s
  case case1 =>
    cases h
    simp
  case case2 hc =>
    rw [closeComment?.eq_2 _ _ hc] at h
    have ⟨_, _, he⟩ := Option.map_eq_some_iff.1 h
    cases he
    simp
  case case3 => cases h

-- Where a comment or string ends is settled by what it is up to there.
theorem closeComment?_append (h : closeComment? s = some (l, r)) (t : List Char) :
    closeComment? (l ++ t) = some (l, t) := by
  fun_induction closeComment? s generalizing l
  case case1 =>
    cases h
    rfl
  case case2 c s hc ih =>
    obtain ⟨⟨l', _⟩, hl, he⟩ := Option.map_eq_some_iff.1 h
    cases he
    have hopen (t') (hcs : c = '*') (hs : l' ++ t = '/' :: t') : False := by
      obtain ⟨d, l', hd⟩ := List.exists_cons_of_ne_nil (closeComment?_ne_nil hl)
      subst hd
      cases hs
      exact hc _ hcs (eq_of_closeComment? hl)
    rw [List.cons_append, closeComment?.eq_2 _ _ hopen, ih hl]
    rfl
  case case3 => cases h

theorem closeString?_append (h : closeString? quote s = some (l, r)) (t : List Char) :
    closeString? quote (l ++ t) = some (l, t) := by
  fun_induction closeString? quote s generalizing l
  case case1 c s ih =>
    obtain ⟨⟨l', _⟩, hl, he⟩ := Option.map_eq_some_iff.1 h
    cases he
    simp [closeString?, ih hl]
  case case3 _ hn =>
    cases h
    obtain ⟨hb, _⟩ := not_or.1 hn
    rw [List.singleton_append, closeString?.eq_2 _ _ _ fun _ _ h _ => hb h, if_neg hn, if_pos rfl]
  case case4 _ hn hq ih =>
    obtain ⟨⟨l', _⟩, hl, he⟩ := Option.map_eq_some_iff.1 h
    cases he
    obtain ⟨hb, _⟩ := not_or.1 hn
    rw [List.cons_append, closeString?.eq_2 _ _ _ fun _ _ h _ => hb h, if_neg hn, if_neg hq, ih hl]
    rfl
  all_goals cases h

end Text

namespace Scoping

namespace Token

variable {s t l : List Char} {taken rest : List Token}

theorem scan_comment {r : List Char} (h : Text.closeComment? s = some (l, r)) :
    scan ('/' :: '*' :: s) = .atom ('/' :: '*' :: l) :: scan r := by
  rw [scan]
  split
  all_goals simp_all

theorem scan_string {c : Char} {r : List Char} (hc : c = '"' ∨ c = '\'') (h : Text.closeString? c s = some (l, r)) :
    scan (c :: s) = .atom (c :: l) :: scan r := by
  have hn (s') (hs : c = '/') (_ : s = '*' :: s') : False := by
    rcases hc with rfl | rfl
    all_goals cases hs
  rw [scan.eq_3 _ _ hn, if_pos hc]
  split
  all_goals simp_all

theorem scan_char {c : Char} (hc : ∀ s', c = '/' → s = '*' :: s' → False) (hq : ¬(c = '"' ∨ c = '\'')) :
    scan (c :: s) = .char c :: scan s := by
  rw [scan.eq_3 _ _ hc, if_neg hq]

-- The first token of a text is broken, or it is the same whatever follows it, unless a comment begins
-- between the two.
theorem scan_cons {token : Token} {tokens : List Token} (h : scan s = token :: tokens) :
    (∃ fault, token = .broken fault) ∨
      ∃ start s', s = start ++ s' ∧ scan s' = tokens ∧
        (∀ others, spell? (token :: others) = (spell? others).map (start ++ ·)) ∧
        ∀ t, (t.head? = some '*' → s'.head? = some '*') → scan (start ++ t) = token :: scan t := by
  fun_cases scan s
  case case1 =>
    rw [scan] at h
    cases h
  case case2 s' l' r' hc =>
    rw [scan_comment hc] at h
    cases h
    refine .inr ⟨'/' :: '*' :: l', r', by simp [Text.eq_of_closeComment? hc], rfl, fun _ => rfl, fun t _ => ?_⟩
    exact scan_comment (Text.closeComment?_append hc t)
  case case3 s' hc =>
    rw [scan] at h
    split at h
    case h_1 => simp_all
    case h_2 => exact .inl ⟨_, (List.cons.inj h).1.symm⟩
  case case4 c s' _ hq l' r' hc =>
    rw [scan_string hq hc] at h
    cases h
    refine .inr ⟨c :: l', r', by simp [Text.eq_of_closeString? hc], rfl, fun _ => rfl, fun t _ => ?_⟩
    exact scan_string hq (Text.closeString?_append hc t)
  case case5 c s' hn hq hc =>
    rw [scan.eq_3 _ _ hn, if_pos hq] at h
    split at h
    case h_1 => simp_all
    case h_2 => exact .inl ⟨_, (List.cons.inj h).1.symm⟩
  case case6 c s' hn hq =>
    rw [scan_char hn hq] at h
    cases h
    refine .inr ⟨[c], s', rfl, rfl, fun _ => rfl, fun t ht => scan_char (fun t' hs he => ?_) hq⟩
    have ⟨rest, hr⟩ := List.head?_eq_some_iff.1 (ht (by rw [show t = _ from he]; rfl))
    exact hn rest hs hr

theorem scan_append (h : scan s = taken ++ rest) (hl : spell? taken = some l) :
    ∃ r, s = l ++ r ∧ scan r = rest ∧ ∀ t, t.head? ≠ some '*' → scan (l ++ t) = taken ++ scan t := by
  induction taken generalizing s l
  case nil =>
    cases hl
    exact ⟨s, rfl, h, fun t _ => rfl⟩
  case cons token taken ih =>
    rcases scan_cons h with ⟨fault, hb⟩ | ⟨start, s', hs, hscan, hspell, hstart⟩
    case inl =>
      subst hb
      cases hl
    case inr =>
      rw [hspell] at hl
      have ⟨l', hl', he⟩ := Option.map_eq_some_iff.1 hl
      have ⟨r, hr, hrest, happend⟩ := ih hscan hl'
      subst he
      refine ⟨r, by rw [hs, hr, List.append_assoc], hrest, fun t ht => ?_⟩
      rw [List.append_assoc, hstart _ fun hstar => ?_, happend t ht, List.cons_append]
      -- What follows `start` begins as it does in the text itself.
      cases l'
      case nil  => exact absurd hstar ht
      case cons => simpa [hr] using hstar

end Token

section

variable {tokens taken rest : List Token} {text : List Char} {depth : Nat} {c : Char}

theorem spell?_append (taken rest : List Token) :
    spell? (taken ++ rest) = (spell? taken).bind fun s => (spell? rest).map (s ++ ·) := by
  induction taken
  case nil => simp [spell?]
  case cons token taken ih =>
    cases token
    case broken => rfl
    all_goals
      simp only [List.cons_append, spell?, ih]
      cases spell? taken <;> simp [Function.comp_def]

theorem takeBlank_append (tokens : List Token) :
    ∃ taken, tokens = taken ++ (takeBlank tokens).2 ∧ spell? taken = some (takeBlank tokens).1 ∧
      (takeBlank (takeBlank tokens).2) = ([], (takeBlank tokens).2) ∧
      ∀ more, takeBlank more = ([], more) → takeBlank (taken ++ more) = ((takeBlank tokens).1, more) := by
  fun_induction takeBlank tokens
  case case1 c tokens hc s rest hr ih =>
    rw [hr] at ih
    obtain ⟨taken, ht, hs, hstop, hmore⟩ := ih
    refine ⟨.char c :: taken, congrArg _ ht, by simp [spell?, hs], hstop, fun more hm => ?_⟩
    rw [List.cons_append, takeBlank, if_pos hc, hmore more hm]
  case case2 c tokens hc => exact ⟨[], rfl, rfl, by simp [takeBlank, hc], fun more hm => hm⟩
  case case3 tokens hn =>
    refine ⟨[], rfl, rfl, ?_, fun more hm => hm⟩
    rw [takeBlank.eq_2 _ hn]

-- Whether white space has ended is settled by the next token.
theorem takeBlank_cons {token : Token} (h : takeBlank (token :: tokens) = ([], token :: tokens)) (more : List Token) :
    takeBlank (token :: more) = ([], token :: more) := by
  cases token
  case char c =>
    rw [takeBlank] at h ⊢
    split at h
    case isTrue  => cases h
    case isFalse hc => rw [if_neg hc]
  all_goals rfl

theorem readText_append (h : readText depth tokens = (text, .cut c, rest)) :
    ∃ taken, tokens = taken ++ .char c :: rest ∧ spell? taken = some text ∧
      ∀ more, readText depth (taken ++ .char c :: more) = (text, .cut c, more) := by
  fun_induction readText depth tokens generalizing text
  case case3 depth s tokens text' ending rest' hr ih =>
    cases h
    obtain ⟨taken, ht, hs, hmore⟩ := ih hr
    exact ⟨.atom s :: taken, congrArg _ ht, by simp [spell?, hs], fun more => by simp [readText, hmore]⟩
  case case4 hc =>
    cases h
    exact ⟨[], rfl, rfl, fun more => by rw [List.nil_append, readText, if_pos hc]⟩
  case case5 d tokens hd depth' text' ending rest' hr ih =>
    cases h
    obtain ⟨taken, ht, hs, hmore⟩ := ih hr
    refine ⟨.char d :: taken, congrArg _ ht, by simp [spell?, hs], fun more => ?_⟩
    rw [List.cons_append, readText, if_neg hd]
    dsimp only
    rw [hmore]
  all_goals cases h

theorem readBlock_append (h : readBlock depth tokens = (text, .cut c, rest)) :
    ∃ taken, tokens = taken ++ rest ∧ spell? taken = some text ∧
      ∀ more, readBlock depth (taken ++ more) = (text, .cut c, more) := by
  fun_induction readBlock depth tokens generalizing text
  case case3 depth s tokens text' ending rest' hr ih =>
    cases h
    obtain ⟨taken, ht, hs, hmore⟩ := ih hr
    exact ⟨.atom s :: taken, congrArg _ ht, by simp [spell?, hs], fun more => by simp [readBlock, hmore]⟩
  case case4 hc =>
    cases h
    exact ⟨[.char c], rfl, rfl, fun more => by rw [List.singleton_append, readBlock, if_pos hc]⟩
  case case5 d tokens hd depth' text' ending rest' hr ih =>
    cases h
    obtain ⟨taken, ht, hs, hmore⟩ := ih hr
    refine ⟨.char d :: taken, congrArg _ ht, by simp [spell?, hs], fun more => ?_⟩
    rw [List.cons_append, readBlock, if_neg hd]
    dsimp only
    rw [hmore]
  all_goals cases h

end

namespace Segment

-- The segments of a statement and of what follows it.
def ofStatement (here : Position) (tokens : List Token) : List Segment :=
  match readText 0 tokens with
  | (text, .input, _)        => [.tail text]
  | (text, .broken fault, _) => [.broken fault (here.after text)]
  | (text, .cut c, rest)     =>
    let behind := (here.after text).after [c]
    if c = '\x7b' then
      if (atRuleName? text).all isContainerName then
        .opening text here :: ofTokens behind rest
      else
        match readBlock 0 rest with
        | (body, .cut _, more)        => .verbatim text body :: ofTokens (behind.after body) more
        | (body, .input, _)           => [.verbatim text body, .broken .unclosedBlock here]
        | (body, .broken fault, _) => [.verbatim text body, .broken fault (behind.after body)]
    else
      .declaration text here (c == '\x7d') :: ofTokens behind rest

theorem ofTokens_eq (pos : Position) (tokens : List Token) :
    ofTokens pos tokens =
      .blank (takeBlank tokens).1 :: ofStatement (pos.after (takeBlank tokens).1) (takeBlank tokens).2 := by
  rw [ofTokens, ofStatement]
  dsimp only
  congr 1
  split
  case h_1 hr => rw [hr]
  case h_2 hr => rw [hr]
  case h_3 text c rest hr =>
    rw [hr]
    dsimp only
    split
    case isFalse => rfl
    case isTrue =>
      split
      case isTrue  => rfl
      case isFalse =>
        split
        case h_1 hb => rw [hb]
        case h_2 hb => rw [hb]
        case h_3 hb => rw [hb]

-- A statement is the last one, or it is the same whatever follows it.
theorem ofStatement_append (here : Position) (tokens : List Token) :
    (∀ s, .blank s ∉ ofStatement here tokens) ∨
      ∃ taken segment rest pos, tokens = taken ++ rest ∧ taken ≠ [] ∧ spell? taken = some segment.text ∧
        (∀ s, segment ≠ .blank s) ∧
        ∀ more, ofStatement here (taken ++ more) = segment :: ofTokens pos more := by
  rcases hr : readText 0 tokens with ⟨text, ending, rest⟩
  cases ending
  case input  => exact .inl (by simp [ofStatement, hr])
  case broken => exact .inl (by simp [ofStatement, hr])
  case cut c =>
    obtain ⟨taken, ht, hs, hmore⟩ := readText_append hr
    have hc := (readText_cut hr).2
    have hspell : spell? (taken ++ [.char c]) = some (text ++ [c]) := by simp [spell?_append, hs, spell?]
    have happend (more : List Token) : readText 0 (taken ++ [.char c] ++ more) = (text, .cut c, more) := by
      rw [List.append_assoc, List.singleton_append, hmore]
    by_cases hopen : c = '\x7b'
    case neg =>
      refine .inr ⟨taken ++ [.char c], .declaration text here (c == '\x7d'), rest, (here.after text).after [c],
        by simp [ht], by simp, ?_, by simp, fun more => ?_⟩
      · rw [hspell]
        rcases hc with rfl | rfl | rfl
        · exact absurd rfl hopen
        · rfl
        · rfl
      · rw [ofStatement, happend]
        dsimp only
        rw [if_neg hopen]
    case pos =>
      subst hopen
      by_cases hname : (atRuleName? text).all isContainerName = true
      case pos =>
        refine .inr ⟨taken ++ [.char '\x7b'], .opening text here, rest, (here.after text).after ['\x7b'],
          by simp [ht], by simp, hspell, by simp, fun more => ?_⟩
        rw [ofStatement, happend]
        dsimp only
        rw [if_pos rfl, if_pos hname]
      case neg =>
        rcases hb : readBlock 0 rest with ⟨body, ending, rest'⟩
        cases ending
        case input  => exact .inl (by simp [ofStatement, hr, hname, hb])
        case broken => exact .inl (by simp [ofStatement, hr, hname, hb])
        case cut d =>
          obtain ⟨taken', ht', hs', hmore'⟩ := readBlock_append hb
          refine .inr ⟨taken ++ [.char '\x7b'] ++ taken', .verbatim text body, rest',
            ((here.after text).after ['\x7b']).after body, by simp [ht, ht'], by simp, ?_, by simp, fun more => ?_⟩
          · rw [spell?_append, hspell, hs']
            simp [Segment.text]
          · rw [List.append_assoc, ofStatement, happend]
            dsimp only
            rw [if_pos rfl, if_neg hname, hmore']

-- Cutting the tokens behind some whole statements leaves the segments of the others.
theorem ofTokens_append {pos : Position} {tokens : List Token} {before after : List Segment} {blanks : List Char}
    (h : ofTokens pos tokens = before ++ .blank blanks :: after) :
    ∃ taken rest pos', tokens = taken ++ rest ∧ spell? taken = some (before.flatMap Segment.text) ∧
      ofTokens pos' rest = .blank blanks :: after ∧
      ∀ more, ofTokens pos (taken ++ more) = before ++ ofTokens pos' more := by
  match before with
  | [] => exact ⟨[], tokens, pos, rfl, rfl, h, fun more => rfl⟩
  | segment :: before =>
    have ⟨white, hwhite, hspell, hstop, hblanks⟩ := takeBlank_append tokens
    rw [ofTokens_eq] at h
    have ⟨hsegment, h⟩ := List.cons.inj h
    rcases ofStatement_append (pos.after (takeBlank tokens).1) (takeBlank tokens).2 with
      hlast | ⟨taken, statement, rest, pos₁, ht, hne, hs, hstatement, hmore⟩
    case inl => exact absurd (by simp [h]) (hlast blanks)
    case inr =>
      have hrest : statement :: ofTokens pos₁ rest = before ++ .blank blanks :: after := by
        rw [← hmore, ← ht, h]
        rfl
      match before with
      | [] => exact absurd (List.cons.inj hrest).1 (hstatement blanks)
      | _ :: before =>
        have ⟨hfirst, hrest⟩ := List.cons.inj hrest
        have ⟨taken', rest', pos', ht', hs', hat, hmore'⟩ := ofTokens_append hrest
        subst hfirst hsegment
        refine ⟨white ++ taken ++ taken', rest', pos', ?_, ?_, hat, fun more => ?_⟩
        · rw [List.append_assoc, List.append_assoc, ← ht', ← ht, ← hwhite]
        · simp [spell?_append, hspell, hs, hs', Segment.text]
        · have hstart : takeBlank (taken ++ (taken' ++ more)) = ([], taken ++ (taken' ++ more)) := by
            have ⟨token, taken, he⟩ := List.exists_cons_of_ne_nil hne
            rw [ht, he] at hstop
            rw [he]
            exact takeBlank_cons hstop _
          rw [List.append_assoc, List.append_assoc, ofTokens_eq, hblanks _ hstart]
          dsimp only
          rw [hmore, hmore']
          rfl

end Segment

end Scoping

end ScopedCss
