import ScopedCss.Proofs.Dialect.Beginnings

namespace ScopedCss.Dialect

-- The characters at which a text is not simply read on.
def stops : List Char :=
  ['"', '\'', '(', ')', '/', '#', '\x7b', ';', '\x7d']

def isStop (c : Char) : Bool :=
  stops.contains c

theorem isStop_eq_false {p : Char → Bool} (hp : ∀ d ∈ stops, p d = false) {c : Char} (hc : p c = true) :
    isStop c = false := by
  rw [isStop, List.contains_eq_mem, decide_eq_false_iff_not]
  intro hm
  exact Bool.eq_false_iff.1 (hp c hm) hc

-- A text that is read as it is written, from so many open parentheses on: its strings, interpolations and
-- parentheses are closed, it has no comments, and what ends a statement stands in one of these.
inductive Whole : Nat → List Char → Prop
  | nil : Whole 0 []
  | plain {depth : Nat} {s : List Char} (c : Char) : isStop c = false → Whole depth s → Whole depth (c :: s)
  | slash {depth : Nat} {s : List Char} : s.head? ≠ some '*' → (depth = 0 → s.head? ≠ some '/') → Whole depth s →
    Whole depth ('/' :: s)
  | hash {depth : Nat} {s : List Char} : s.head? ≠ some '\x7b' → Whole depth s → Whole depth ('#' :: s)
  | enclosed {depth : Nat} {s : List Char} (c : Char) : c ∈ ['\x7b', ';', '\x7d'] → Whole (depth + 1) s →
    Whole (depth + 1) (c :: s)
  | opening {depth : Nat} {s : List Char} : Whole (depth + 1) s → Whole depth ('(' :: s)
  | closing {depth : Nat} {s : List Char} : Whole (depth - 1) s → Whole depth (')' :: s)
  | string {depth : Nat} {s : List Char} (q : Char) (inner : List Char) : q = '"' ∨ q = '\'' →
    Text.closeString? q (inner ++ [q]) = some (inner ++ [q], []) → Whole depth s → Whole depth (q :: inner ++ q :: s)
  | interpolation {depth : Nat} {s : List Char} (inner : List Char) : '\x7d' ∉ inner → Whole depth s →
    Whole depth ('#' :: '\x7b' :: inner ++ '\x7d' :: s)

variable {depth : Nat} {s t : List Char} {c : Char}

-- What a text in front leaves open at its end is not completed by this one: no comment, and no interpolation.
def Detached (t : List Char) : Prop :=
  ∀ c ∈ ['/', '*', '\x7b'], t.head? ≠ some c

theorem Detached.head?_append (h : Detached t) (hc : c ∈ ['/', '*', '\x7b']) (hs : s.head? ≠ some c) :
    (s ++ t).head? ≠ some c := by
  cases s
  case nil  => exact h c hc
  case cons => simpa using hs

namespace Whole

theorem append_plain (hs : ∀ c ∈ s, isStop c = false) (h : Whole depth t) : Whole depth (s ++ t) := by
  induction s
  case nil => exact h
  case cons c s ih =>
    obtain ⟨hc, hs⟩ := List.forall_mem_cons.1 hs
    exact .plain c hc (ih hs)

theorem append (hs : Whole depth s) (ht : Whole 0 t) (hd : Detached t) : Whole depth (s ++ t) := by
  induction hs
  case nil                         => exact ht
  case plain c hc _ ih             => exact .plain c hc ih
  case slash hn hn' _ ih           =>
    exact .slash (hd.head?_append (by decide) hn) (fun h => hd.head?_append (by decide) (hn' h)) ih
  case hash hn _ ih                => exact .hash (hd.head?_append (by decide) hn) ih
  case enclosed c hc _ ih          => exact .enclosed c hc ih
  case opening ih                  => exact .opening ih
  case closing ih                  => exact .closing ih
  case string q inner hq hc _ ih   => simpa using Whole.string q inner hq hc ih
  case interpolation inner hn _ ih => simpa using Whole.interpolation inner hn ih

end Whole

namespace BraceToken

theorem scan_kept (hn : c = '/' → s.head? ≠ some '*') (hn' : c = '#' → s.head? ≠ some '\x7b')
    (hq : ¬(c = '"' ∨ c = '\'')) (hl : ¬(depth = 0 ∧ c = '/' ∧ s.head? = some '/'))
    (hc : ¬(depth = 0 ∧ (c = '\x7b' ∨ c = ';' ∨ c = '\x7d'))) (pos : Position) :
    scan depth pos (c :: s) = ⟨.char c, pos⟩ ::
      scan (if c = '(' then depth + 1 else if c = ')' then depth - 1 else depth) (pos.after [c]) s := by
  have hcomment (t : List Char) (h : c = '/') (hs : s = '*' :: t) : False := hn h (by rw [hs]; rfl)
  have hbrace (t : List Char) (h : c = '#') (hs : s = '\x7b' :: t) : False := hn' h (by rw [hs]; rfl)
  rw [scan_cons hcomment hbrace, if_neg hq, if_neg hl, if_neg hc]

theorem scan_plain (hc : isStop c = false) (depth : Nat) (pos : Position) (s : List Char) :
    scan depth pos (c :: s) = ⟨.char c, pos⟩ :: scan depth (pos.after [c]) s := by
  simp only [isStop, stops, List.contains_eq_mem, List.mem_cons, decide_eq_false_iff_not, not_or] at hc
  rw [scan_kept (by tauto) (by tauto) (by tauto) (by tauto) (by tauto)]
  simp [hc]

theorem closeBrace?_first {inner : List Char} (h : '\x7d' ∉ inner) (s : List Char) :
    closeBrace? (inner ++ '\x7d' :: s) = some (inner ++ ['\x7d'], s) := by
  induction inner
  case nil => rfl
  case cons c inner ih =>
    obtain ⟨hc, hi⟩ := List.ne_and_not_mem_of_not_mem_cons h
    rw [List.cons_append, closeBrace?, if_neg hc.symm, ih hi]
    rfl

end BraceToken

namespace Clause

variable {pos start : Position} {begun : List Char}

theorem inside_string {q : Char} {inner : List Char} (hq : q = '"' ∨ q = '\'')
    (hc : Text.closeString? q (inner ++ [q]) = some (inner ++ [q], [])) (s : List Char) :
    ofTokens (some (begun, start)) (BraceToken.scan depth pos (q :: inner ++ q :: s)) =
      ofTokens (some (begun ++ q :: inner ++ [q], start))
        (BraceToken.scan depth (pos.after (q :: inner ++ [q])) s) := by
  have hs (d : Char) (hd : d = '/' ∨ d = '#') : q ≠ d := by
    rcases hq with rfl | rfl <;> rcases hd with rfl | rfl <;> decide
  have hclose := Text.closeString?_append hc s
  rw [List.append_assoc, List.singleton_append] at hclose
  rw [List.cons_append, BraceToken.scan_cons (fun _ h _ => hs _ (.inl rfl) h) (fun _ h _ => hs _ (.inr rfl) h),
    if_pos hq, hclose]
  simp [ofTokens, Piece.text]

theorem inside_interpolation {inner : List Char} (hn : '\x7d' ∉ inner) (s : List Char) :
    ofTokens (some (begun, start)) (BraceToken.scan depth pos ('#' :: '\x7b' :: inner ++ '\x7d' :: s)) =
      ofTokens (some (begun ++ '#' :: '\x7b' :: inner ++ ['\x7d'], start))
        (BraceToken.scan depth (pos.after ('#' :: '\x7b' :: inner ++ ['\x7d'])) s) := by
  rw [List.cons_append, List.cons_append, BraceToken.scan_interpolation (BraceToken.closeBrace?_first hn s)]
  simp [ofTokens, Piece.text]

-- Inside a statement such a text is read to its end.
theorem inside_whole (h : Whole depth s) (hd : Detached t) (begun : List Char) (start pos : Position) :
    ofTokens (some (begun, start)) (BraceToken.scan depth pos (s ++ t)) = inside (begun ++ s) start (pos.after s) t := by
  induction h generalizing begun pos
  case nil => simp [Position.after]
  case plain c hc _ ih =>
    rw [List.cons_append, BraceToken.scan_plain hc]
    simpa [ofTokens, Piece.text, Position.after] using ih (begun ++ [c]) (pos.after [c])
  case slash s hn hn' _ ih =>
    have hn : (s ++ t).head? ≠ some '*' := hd.head?_append (by decide) hn
    have hn' (h) : (s ++ t).head? ≠ some '/' := hd.head?_append (by decide) (hn' h)
    rw [List.cons_append, BraceToken.scan_kept (fun _ => hn) (by simp) (by simp) (by tauto) (by simp)]
    simpa [ofTokens, Piece.text, Position.after] using ih (begun ++ ['/']) (pos.after ['/'])
  case hash s hn _ ih =>
    have hn : (s ++ t).head? ≠ some '\x7b' := hd.head?_append (by decide) hn
    rw [List.cons_append, BraceToken.scan_kept (by simp) (fun _ => hn) (by simp) (by simp) (by simp)]
    simpa [ofTokens, Piece.text, Position.after] using ih (begun ++ ['#']) (pos.after ['#'])
  case enclosed c hc _ ih =>
    have hp : ∀ c ∈ ['\x7b', ';', '\x7d'], ∀ d ∈ ['/', '#', '"', '\'', '(', ')'], c ≠ d := by decide
    have hp := hp c hc
    simp only [List.forall_mem_cons, List.not_mem_nil, false_imp_iff, implies_true, and_true] at hp
    rw [List.cons_append, BraceToken.scan_kept (by tauto) (by tauto) (by tauto) (by simp) (by simp)]
    simpa [hp, ofTokens, Piece.text, Position.after] using ih (begun ++ [c]) (pos.after [c])
  case opening ih =>
    rw [List.cons_append, BraceToken.scan_kept (by simp) (by simp) (by simp) (by simp) (by simp)]
    simpa [ofTokens, Piece.text, Position.after] using ih (begun ++ ['(']) (pos.after ['('])
  case closing ih =>
    rw [List.cons_append, BraceToken.scan_kept (by simp) (by simp) (by simp) (by simp) (by simp)]
    simpa [ofTokens, Piece.text, Position.after] using ih (begun ++ [')']) (pos.after [')'])
  case string s q inner hq hc _ ih =>
    have he : q :: inner ++ q :: s ++ t = q :: inner ++ q :: (s ++ t) := by simp
    rw [he, inside_string hq hc, ih, ← Position.after_append]
    simp
  case interpolation s inner hn _ ih =>
    have he : '#' :: '\x7b' :: inner ++ '\x7d' :: s ++ t = '#' :: '\x7b' :: inner ++ '\x7d' :: (s ++ t) := by simp
    rw [he, inside_interpolation hn, ih, ← Position.after_append]
    simp

-- Such a text is one statement, if a semicolon follows.
theorem ofText_whole (hc : isStop c = false) (ht : Text.trim (c :: s) = c :: s) (h : Whole 0 s) :
    ofText (c :: s ++ [';']) = [.statement (c :: s) .start] := by
  obtain ⟨_, _, he, hb⟩ := Text.eq_cons_of_trim ht (List.cons_ne_nil c s)
  cases he
  have hd : Detached [';'] := by simp [Detached]
  have hi := inside_whole h hd [c] .start (Position.start.after [c])
  rw [ofText, List.cons_append, BraceToken.scan_plain hc]
  simp only [ofTokens, hb, Bool.false_eq_true, if_false, hi]
  rw [inside, BraceToken.scan_cut (by decide)]
  simp [ofTokens, ofBegun, ht, BraceToken.scan]

end Clause

end ScopedCss.Dialect
