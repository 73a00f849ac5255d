import ScopedCss.Scoping.Segment

namespace ScopedCss.Scoping

-- The text that tokens were read from, unless one of them is broken.
def spell? : List Token → Option (List Char)
  | []                => some []
  | .broken _ :: _    => none
  | .char c :: tokens => (spell? tokens).map (c :: ·)
  | .atom s :: tokens => (spell? tokens).map (s ++ ·)

theorem eq_of_spell?_scan {s text : List Char} (h : spell? (Token.scan s) = some text) : text = s := by
  fun_induction Token.scan s generalizing text
  case case1 =>
    cases h
    rfl
  case case2 l r hc ih =>
    have ⟨_, hr, he⟩ := Option.map_eq_some_iff.1 h
    rw [← he, ih hr, Text.eq_of_closeComment? hc]
    rfl
  case case4 c _ _ hq l r hs ih =>
    have ⟨_, hr, he⟩ := Option.map_eq_some_iff.1 h
    rw [← he, ih hr, Text.eq_of_closeString? hs]
    rfl
  case case6 ih =>
    have ⟨_, hr, he⟩ := Option.map_eq_some_iff.1 h
    rw [← he, ih hr]
  all_goals cases h

-- Reading a text off some tokens leaves the others: no character is dropped or doubled.
def Reads (tokens : List Token) (text : List Char) (rest : List Token) : Prop :=
  spell? tokens = (spell? rest).map (text ++ ·)

section

variable {tokens tokens' rest : List Token} {text text' : List Char} {depth : Nat} {c : Char}

theorem Reads.none : Reads tokens [] tokens := by
  simp [Reads]

theorem Reads.char (h : Reads tokens text rest) : Reads (.char c :: tokens) (c :: text) rest := by
  simp [Reads, spell?, show spell? tokens = _ from h, Function.comp_def]

theorem Reads.atom (h : Reads tokens text rest) (s : List Char) :
    Reads (.atom s :: tokens) (s ++ text) rest := by
  simp [Reads, spell?, show spell? tokens = _ from h, Function.comp_def]

theorem Reads.trans (h : Reads tokens text tokens') (h' : Reads tokens' text' rest) :
    Reads tokens (text ++ text') rest := by
  simp [Reads, show spell? tokens = _ from h, show spell? tokens' = _ from h', Function.comp_def]

theorem takeBlank_reads (tokens : List Token) : Reads tokens (takeBlank tokens).1 (takeBlank tokens).2 := by
  fun_induction takeBlank tokens
  case case1 c tokens _ s rest hr ih =>
    rw [hr] at ih
    exact ih.char
  all_goals exact .none

theorem readText_cut (h : readText depth tokens = (text, .cut c, rest)) :
    Reads tokens text (.char c :: rest) ∧ (c = '\x7b' ∨ c = ';' ∨ c = '\x7d') := by
  fun_induction readText depth tokens generalizing text
  case case3 depth s tokens text' ending rest' hr ih =>
    cases h
    exact (ih hr).imp_left (·.atom s)
  case case4 hc =>
    cases h
    exact ⟨.none, hc.2⟩
  case case5 hr ih =>
    cases h
    exact (ih hr).imp_left .char
  all_goals cases h

theorem readText_input (h : readText depth tokens = (text, .input, rest)) : Reads tokens text [] := by
  fun_induction readText depth tokens generalizing text
  case case1 =>
    cases h
    exact .none
  case case3 depth s tokens text' ending rest' hr ih =>
    cases h
    exact (ih hr).atom s
  case case5 hr ih =>
    cases h
    exact (ih hr).char
  all_goals cases h

theorem readBlock_cut (h : readBlock depth tokens = (text, .cut c, rest)) : Reads tokens text rest := by
  fun_induction readBlock depth tokens generalizing text
  case case3 depth s tokens text' ending rest' hr ih =>
    cases h
    exact (ih hr).atom s
  case case4 =>
    cases h
    exact Reads.none.char
  case case5 hr ih =>
    cases h
    exact (ih hr).char
  all_goals cases h

end

-- The text that a segment was cut from.
def Segment.text : Segment → List Char
  | .blank s                   => s
  | .opening prelude _         => prelude ++ ['\x7b']
  | .verbatim prelude body     => prelude ++ '\x7b' :: body
  | .declaration text _ closes => text ++ [if closes then '\x7d' else ';']
  | .tail text                 => text
  | .broken _ _                => []

-- Segments that are cut from some tokens, one behind the other, have all of their text between them,
-- unless one of them is broken.
def CutFrom (tokens : List Token) (segments : List Segment) : Prop :=
  (∀ fault pos, Segment.broken fault pos ∉ segments) → Reads tokens (segments.flatMap Segment.text) []

section

variable {tokens rest : List Token} {segment : Segment} {segments : List Segment}

theorem CutFrom.cons (hr : Reads tokens segment.text rest) (h : CutFrom rest segments) :
    CutFrom tokens (segment :: segments) := by
  intro hb
  rw [List.flatMap_cons]
  exact hr.trans (h fun fault pos hm => hb fault pos (.tail _ hm))

theorem CutFrom.broken {fault : Fault} {pos : Position} (h : .broken fault pos ∈ segments) :
    CutFrom tokens segments :=
  fun hb => absurd h (hb fault pos)

theorem cutFrom_ofTokens (pos : Position) (tokens : List Token) :
    CutFrom tokens (Segment.ofTokens pos tokens) := by
  fun_induction Segment.ofTokens pos tokens
  case case1 behind_text behind_block =>
    refine .cons (takeBlank_reads _) ?_
    split
    case h_1 hr => exact .cons (readText_input hr) fun _ => .none
    case h_2    => exact .broken (.head _)
    case h_3 text c rest hr =>
      obtain ⟨hread, hc⟩ := readText_cut hr
      -- The character that ends the text is part of the segment.
      have hcut : Reads (.char c :: rest) [c] rest := Reads.none.char
      dsimp only
      split
      case isFalse hopen =>
        refine .cons ?_ (behind_text text c rest hr)
        rcases hc with rfl | rfl | rfl
        · exact absurd rfl hopen
        · exact hread.trans hcut
        · exact hread.trans hcut
      case isTrue hopen =>
        subst hopen
        split
        case isTrue  => exact .cons (hread.trans hcut) (behind_text text _ rest hr)
        case isFalse =>
          split
          case h_1 body d more hb =>
            exact .cons (hread.trans (hcut.trans (readBlock_cut hb))) (behind_block text _ rest hr body d more hb)
          all_goals exact .broken (.tail _ (.head _))

end

-- A text is cut into segments without loss, unless one of them is broken.
theorem text_ofText {s : List Char} (h : ∀ fault pos, Segment.broken fault pos ∉ Segment.ofText s) :
    (Segment.ofText s).flatMap Segment.text = s := by
  have hr : spell? (Token.scan s) = _ := cutFrom_ofTokens .start (Token.scan s) h
  rw [spell?, Option.map_some, List.append_nil] at hr
  exact eq_of_spell?_scan hr

end ScopedCss.Scoping
