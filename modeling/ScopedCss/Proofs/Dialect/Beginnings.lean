import ScopedCss.Proofs.Dialect.Behind
import ScopedCss.Proofs.Dialect.Brace
import ScopedCss.Proofs.Scoping.Comments
import ScopedCss.Proofs.Scoping.Local

namespace ScopedCss

namespace Position

theorem after_eq {s : List Char} (h : '\n' ∉ s) (pos : Position) :
    pos.after s = ⟨pos.line, pos.column + s.length⟩ := by
  induction s generalizing pos
  case nil => rfl
  case cons c s ih =>
    obtain ⟨hc, hs⟩ := not_or.1 (mt List.mem_cons.2 h)
    rw [after, if_neg (Ne.symm hc), ih hs, List.length_cons]
    exact congrArg (Position.mk pos.line) (by rw [Nat.add_right_comm, Nat.add_assoc])

theorem eq_nil_of_after {pos : Position} {s : List Char} (h : pos.after s = pos) : s = [] := by
  have hl : s.count '\n' = 0 := by
    have hl := line_after pos s
    rw [h] at hl
    omega
  have hc := congrArg column h
  rw [after_eq (List.count_eq_zero.1 hl)] at hc
  exact List.length_eq_zero_iff.1 (by simpa using hc)

-- Two beginnings of a text are the same if they end at the same place.
theorem eq_of_after {pos : Position} {a b s t : List Char} (h : pos.after a = pos.after b) (he : a ++ s = b ++ t) :
    a = b := by
  rcases List.append_eq_append_iff.1 he with ⟨d, rfl, _⟩ | ⟨d, rfl, _⟩
  · rw [after_append] at h
    rw [eq_nil_of_after h.symm, List.append_nil]
  · rw [after_append] at h
    rw [eq_nil_of_after h, List.append_nil]

end Position

namespace Dialect

section

variable {P : Position → Prop} [DecidablePred P]

mutual

def Node.decidablePlaced : (node : Node) → Decidable (node.Placed P)
  | .declaration _ _ pos | .definition _ _ _ pos | .imports _ pos | .atStatement _ _ pos =>
    inferInstanceAs (Decidable (P pos))
  | .rule _ children pos | .atBlock _ _ children pos =>
    have := Node.decidableAllPlaced children
    inferInstanceAs (Decidable (P pos ∧ Node.AllPlaced P children))

def Node.decidableAllPlaced : (nodes : List Node) → Decidable (Node.AllPlaced P nodes)
  | []           => isTrue trivial
  | node :: rest =>
    have := Node.decidablePlaced node
    have := Node.decidableAllPlaced rest
    inferInstanceAs (Decidable (node.Placed P ∧ Node.AllPlaced P rest))

end

instance (nodes : List Node) : Decidable (Node.AllPlaced P nodes) :=
  Node.decidableAllPlaced nodes

end

namespace BraceToken

theorem closeBrace?_append {s l r : List Char} (h : closeBrace? s = some (l, r)) (t : List Char) :
    closeBrace? (l ++ t) = some (l, t) := by
  induction s generalizing l
  case nil => cases h
  case cons c s ih =>
    rw [closeBrace?] at h
    split at h
    case isTrue hc =>
      cases h
      simp [closeBrace?, hc]
    case isFalse hc =>
      obtain ⟨⟨l', _⟩, hl, he⟩ := Option.map_eq_some_iff.1 h
      cases he
      rw [List.cons_append, closeBrace?, if_neg hc, ih hl]
      rfl

theorem scan_comment {s l r : List Char} (h : Text.closeComment? s = some (l, r)) (depth : Nat) (pos : Position) :
    scan depth pos ('/' :: '*' :: s) = ⟨.blockComment, pos⟩ :: scan depth (pos.after ('/' :: '*' :: l)) r := by
  rw [scan.eq_def]
  simp only
  split
  case h_1 hc =>
    rw [h] at hc
    cases hc
    rfl
  case h_2 hc => simp [h] at hc

theorem scan_interpolation {s l r : List Char} (h : closeBrace? s = some (l, r)) (depth : Nat) (pos : Position) :
    scan depth pos ('#' :: '\x7b' :: s) =
      ⟨.atom ('#' :: '\x7b' :: l), pos⟩ :: scan depth (pos.after ('#' :: '\x7b' :: l)) r := by
  rw [scan.eq_def]
  simp only
  split
  case h_1 hc =>
    rw [h] at hc
    cases hc
    rfl
  case h_2 hc => simp [h] at hc

end BraceToken

namespace Clause

variable {begun : Option (List Char × Position)} {token : BraceToken} {depth : Nat} {pos p : Position}

-- The clauses that end with a token.
def ended (begun : Option (List Char × Position)) (token : BraceToken) : List Clause :=
  match token.piece with
  | .cut c =>
    if c = '\x7b' then
      [opening (Text.trim (begun.getD ([], token.pos)).1) (begun.getD ([], token.pos)).2]
    else if c = '\x7d' then
      ofBegun begun ++ [closing token.pos]
    else
      ofBegun begun
  | _ => []

-- The beginning of a statement behind a token.
def begunBy (begun : Option (List Char × Position)) (token : BraceToken) : Option (List Char × Position) :=
  match token.piece with
  | .cut _  => none
  | piece   =>
    match begun with
    | some (text, start) => some (text ++ piece.text, start)
    | none =>
      match piece with
      | .char c => if Text.isBlank c then none else some ([c], token.pos)
      | .atom s => some (s, token.pos)
      | _       => none

theorem ofTokens_cons (ht : ∀ fault, token.piece ≠ .broken fault) (tokens : List BraceToken) :
    ofTokens begun (token :: tokens) = ended begun token ++ ofTokens (begunBy begun token) tokens := by
  obtain ⟨piece, pos⟩ := token
  cases piece
  case broken fault => exact absurd rfl (ht fault)
  case cut c =>
    simp only [ofTokens, ended, begunBy]
    split
    case isTrue  => rfl
    case isFalse =>
      split
      case isTrue  => simp
      case isFalse => rfl
  case char c =>
    cases begun
    case some => rfl
    case none =>
      simp only [ofTokens, ended, begunBy, List.nil_append]
      split <;> rfl
  all_goals cases begun <;> rfl

-- Where a clause begins that a node is made of.
inductive Begins : Clause → Position → Prop
  | opening (header : List Char) (pos : Position) : Begins (.opening header pos) pos
  | statement (text : List Char) (pos : Position) : Begins (.statement text pos) pos

theorem begins_of_mem_ofBegun {clause : Clause} (hc : clause ∈ ofBegun begun) (h : clause.Begins p) :
    ∃ text, begun = some (text, p) := by
  unfold ofBegun at hc
  split at hc
  case h_1 text start =>
    split at hc
    case isTrue => cases hc
    case isFalse =>
      rw [List.mem_singleton.1 hc] at h
      cases h
      exact ⟨text, rfl⟩
  case h_2 => cases hc

theorem begunBy_eq_some {b : List Char × Position} (h : begunBy begun token = some b) :
    (∃ text, begun = some (text, b.2)) ∨ (begun = none ∧ b.2 = token.pos) := by
  unfold begunBy at h
  split at h
  case h_1 => cases h
  case h_2 =>
    split at h
    case h_1 text start =>
      cases h
      exact .inl ⟨text, rfl⟩
    case h_2 =>
      refine .inr ⟨rfl, ?_⟩
      split at h
      case h_1 =>
        split at h
        case isTrue => cases h
        case isFalse =>
          cases h
          rfl
      case h_2 =>
        cases h
        rfl
      case h_3 => cases h

-- In front of whatever text, these are the clauses of what stands there, and a new statement or block
-- can begin behind it.
def Leads (depth : Nat) (pos : Position) (begun : Option (List Char × Position)) (pre : List Char)
    (clauses : List Clause) : Prop :=
  ∀ s, ofTokens begun (BraceToken.scan depth pos (pre ++ s)) = clauses ++ reading (pos.after pre) s

-- A clause begins here: where the statement at hand does, or behind a text that leads here.
inductive Found (depth : Nat) (pos : Position) (begun : Option (List Char × Position)) (s : List Char) (p : Position) :
    Prop
  | begun (text : List Char) : begun = some (text, p) → Found depth pos begun s p
  | behind (pre : List Char) (c : Char) (post : List Char) (clauses : List Clause) : s = pre ++ c :: post →
    Text.isBlank c = false → (pre = [] → begun = none) → p = pos.after pre → Leads depth pos begun pre clauses →
    Found depth pos begun s p

-- A token that these characters are read as, in front of a text that begins like `rest`, or in front of
-- any if a statement can begin there.
structure IsToken (depth depth' : Nat) (begun : Option (List Char × Position)) (token : BraceToken) (c : Char)
    (l rest : List Char) : Prop where
  whole : ∀ fault, token.piece ≠ .broken fault
  first : token.piece = .char c ∨ Text.isBlank c = false
  empty : begunBy begun token = none → depth' = 0
  scan  : ∀ t,
    t.head? = rest.head? ∨ (begunBy begun token = none ∧ rest.head?.any Text.isBlank = false ∧ rest ≠ []) →
    BraceToken.scan depth token.pos (c :: l ++ t) = token :: BraceToken.scan depth' (token.pos.after (c :: l)) t

variable {depth' : Nat} {c : Char} {l rest : List Char}

-- A statement begins with the first character of its first token.
theorem Found.first (hz : begun = none → depth = 0) (hb : begun = none) (hc : Text.isBlank c = false)
    (s : List Char) : Found depth pos begun (c :: s) pos := by
  have hl : Leads depth pos begun [] [] := by
    intro t
    rw [hz hb, hb]
    rfl
  exact .behind [] c s [] rfl hc (fun _ => hb) rfl hl

theorem Found.step (hz : begun = none → depth = 0) (ht : IsToken depth depth' begun token c l rest)
    (h : Found depth' (token.pos.after (c :: l)) (begunBy begun token) rest p) :
    Found depth token.pos begun (c :: l ++ rest) p := by
  cases h
  case begun text hb =>
    rcases begunBy_eq_some hb with ⟨text', ht'⟩ | ⟨hn, hp⟩
    case inl => exact .begun text' ht'
    case inr =>
      have hc : Text.isBlank c = false := by
        refine ht.first.elim (fun hp => ?_) id
        rw [begunBy, hp, hn] at hb
        split at hb
        case h_1 he => cases he
        case h_2 he =>
          simp only at hb
          split at hb
          case isTrue  => cases hb
          case isFalse hc => simpa using hc
      cases hp
      exact .first hz hn hc _
  case behind pre c' post clauses hs hc he hp hl =>
    subst hs
    refine .behind (c :: l ++ pre) c' post (ended begun token ++ clauses) (by simp) hc (by simp) ?_ fun s => ?_
    · rw [hp, ← Position.after_append]
    · have hh : (pre ++ s).head? = (pre ++ c' :: post).head? ∨
          (begunBy begun token = none ∧ (pre ++ c' :: post).head?.any Text.isBlank = false ∧
            pre ++ c' :: post ≠ []) := by
        cases pre
        case nil  => exact .inr ⟨he rfl, hc, List.cons_ne_nil _ _⟩
        case cons => exact .inl rfl
      rw [List.append_assoc, ht.scan _ hh, ofTokens_cons ht.whole, hl s, Position.after_append, List.append_assoc]

theorem found_cons (hz : begun = none → depth = 0) (ht : IsToken depth depth' begun token c l rest)
    {tokens : List BraceToken}
    (ih : (begunBy begun token = none → depth' = 0) → ∀ clause ∈ ofTokens (begunBy begun token) tokens,
      clause.Begins p → Found depth' (token.pos.after (c :: l)) (begunBy begun token) rest p) :
    ∀ clause ∈ ofTokens begun (token :: tokens), clause.Begins p →
      Found depth token.pos begun (c :: l ++ rest) p := by
  intro clause hm hb
  rw [ofTokens_cons ht.whole] at hm
  rcases List.mem_append.1 hm with hm | hm
  case inr => exact (ih ht.empty clause hm hb).step hz ht
  case inl =>
    have hbegun (hm : clause ∈ ofBegun begun) : Found depth token.pos begun (c :: l ++ rest) p := by
      obtain ⟨text, he⟩ := begins_of_mem_ofBegun hm hb
      exact .begun text he
    unfold ended at hm
    split at hm
    case h_2 => cases hm
    case h_1 d hd =>
      split at hm
      case isTrue =>
        rw [List.mem_singleton.1 hm] at hb
        cases hb
        cases hn : begun
        case some b => exact .begun b.1 rfl
        case none =>
          have hc : Text.isBlank c = false := ht.first.resolve_left (by simp [hd])
          exact .first (fun _ => hz hn) rfl hc _
      case isFalse =>
        split at hm
        case isFalse => exact hbegun hm
        case isTrue =>
          rcases List.mem_append.1 hm with hm | hm
          case inl => exact hbegun hm
          case inr =>
            rw [List.mem_singleton.1 hm] at hb
            cases hb

-- Only white space and comments do not begin a statement, and parentheses stand in one.
theorem begun_of_begunBy (h : begunBy begun token = none) :
    (∃ c, token.piece = .cut c) ∨ (begun = none ∧ ∀ c, token.piece = .char c → Text.isBlank c = true) := by
  unfold begunBy at h
  split at h
  case h_1 c hc => exact .inl ⟨c, hc⟩
  case h_2 hc =>
    split at h
    case h_1 => cases h
    case h_2 =>
      refine .inr ⟨rfl, fun c hp => ?_⟩
      rw [hp] at h
      by_contra hb
      simp [hb] at h

-- Outside of statements there are no parentheses to be in.
theorem depth_of_begunBy (hz : begun = none → depth = 0) (hc : ∀ c, token.piece ≠ .cut c)
    (h : begunBy begun token = none) : depth = 0 :=
  hz ((begun_of_begunBy h).resolve_left fun ht => ht.elim hc).1

namespace IsToken

variable {s r : List Char}

theorem blockComment (hz : begun = none → depth = 0) (hc : Text.closeComment? s = some (l, r)) (pos : Position) :
    IsToken depth depth begun ⟨.blockComment, pos⟩ '/' ('*' :: l) r where
  whole := by simp
  first := .inr (by decide)
  empty := depth_of_begunBy hz (by simp)
  scan  := fun t _ => BraceToken.scan_comment (Text.closeComment?_append hc t) depth pos

theorem interpolation (hz : begun = none → depth = 0) (hc : BraceToken.closeBrace? s = some (l, r)) (pos : Position) :
    IsToken depth depth begun ⟨.atom ('#' :: '\x7b' :: l), pos⟩ '#' ('\x7b' :: l) r where
  whole := by simp
  first := .inr (by decide)
  empty := depth_of_begunBy hz (by simp)
  scan  := fun t _ => BraceToken.scan_interpolation (BraceToken.closeBrace?_append hc t) depth pos

theorem string (hz : begun = none → depth = 0) (hq : c = '"' ∨ c = '\'') (hc : Text.closeString? c s = some (l, r))
    (pos : Position) : IsToken depth depth begun ⟨.atom (c :: l), pos⟩ c l r where
  whole := by simp
  first := .inr (by rcases hq with rfl | rfl <;> decide)
  empty := depth_of_begunBy hz (by simp)
  scan  := fun t _ => by
    have hs (d : Char) (hd : d = '/' ∨ d = '#') : c ≠ d := by
      rcases hq with rfl | rfl <;> rcases hd with rfl | rfl <;> decide
    rw [List.cons_append, BraceToken.scan_cons (fun _ h _ => hs _ (.inl rfl) h) (fun _ h _ => hs _ (.inr rfl) h),
      if_pos hq, Text.closeString?_append hc t]

-- A line comment goes on to the end of its line, which begins no statement.
theorem lineComment (hz : begun = none → depth = 0) (hd : depth = 0) (hs : s.head? = some '/') (pos : Position) :
    IsToken depth depth begun ⟨.lineComment, pos⟩ '/' (s.takeWhile (· != '\n')) (s.dropWhile (· != '\n')) where
  whole := by simp
  first := .inr (by decide)
  empty := depth_of_begunBy hz (by simp)
  scan  := fun t ht => by
    have hend : t.takeWhile (· != '\n') = [] ∧ t.dropWhile (· != '\n') = t := by
      have hd := List.head?_dropWhile_not (· != '\n') s
      rcases ht with ht | ⟨_, hb, hne⟩
      case inl =>
        rw [← ht] at hd
        cases t
        case nil      => exact ⟨rfl, rfl⟩
        case cons d t => simpa using hd
      case inr =>
        obtain ⟨d, rest, hrest⟩ := List.exists_cons_of_ne_nil hne
        rw [hrest] at hd hb
        have hd : d = '\n' := by simpa using hd
        rw [hd] at hb
        cases hb
    obtain ⟨m, rfl⟩ := List.head?_eq_some_iff.1 hs
    have hl (c : Char) (hc : c ∈ ('/' :: m).takeWhile (· != '\n')) : (c != '\n') = true :=
      List.mem_takeWhile_imp (p := (· != '\n')) hc
    have htake : (('/' :: m).takeWhile (· != '\n') ++ t).takeWhile (· != '\n') = ('/' :: m).takeWhile (· != '\n') := by
      rw [List.takeWhile_append_of_pos hl, hend.1, List.append_nil]
    have hdrop : (('/' :: m).takeWhile (· != '\n') ++ t).dropWhile (· != '\n') = t := by
      rw [List.dropWhile_append_of_pos hl, hend.2]
    rw [List.cons_append, BraceToken.scan_cons (by simp) (by simp), if_neg (by decide), if_pos ⟨hd, rfl, rfl⟩,
      htake, hdrop]

theorem cut (hc : c ∈ ['\x7b', ';', '\x7d']) (rest : List Char) (pos : Position) :
    IsToken 0 0 begun ⟨.cut c, pos⟩ c [] rest where
  whole := by simp
  first := .inr (by revert c; decide)
  empty := fun _ => rfl
  scan  := fun t _ => BraceToken.scan_cut hc pos t

-- A character that is not read as anything else.
theorem char (hz : begun = none → depth = 0) (hn : ∀ t, c = '/' → s = '*' :: t → False)
    (hn' : ∀ t, c = '#' → s = '\x7b' :: t → False) (hq : ¬(c = '"' ∨ c = '\''))
    (hl : ¬(depth = 0 ∧ c = '/' ∧ s.head? = some '/')) (hc : ¬(depth = 0 ∧ (c = '\x7b' ∨ c = ';' ∨ c = '\x7d')))
    (pos : Position) :
    IsToken depth (if c = '(' then depth + 1 else if c = ')' then depth - 1 else depth) begun ⟨.char c, pos⟩
      c [] s where
  whole := by simp
  first := .inl rfl
  empty := fun h => by
    obtain ⟨hb, hc⟩ := (begun_of_begunBy h).resolve_left (by simp)
    have hne (d : Char) (hd : Text.isBlank d = false) : c ≠ d := by
      rintro rfl
      rw [hc c rfl] at hd
      cases hd
    rw [if_neg (hne _ (by decide)), if_neg (hne _ (by decide)), hz hb]
  scan  := fun t ht => by
    -- What the character is read as depends on what follows only if it is no white space.
    have hh (hb : Text.isBlank c = false) : t.head? = s.head? := by
      refine ht.elim id fun h => ?_
      have hc := ((begun_of_begunBy h.1).resolve_left (by simp)).2 c rfl
      rw [hb] at hc
      cases hc
    have hs (d : Char) (hb : Text.isBlank c = false) (t' : List Char) (h : t = d :: t') : ∃ s', s = d :: s' := by
      rw [← List.head?_eq_some_iff, ← hh hb, h]
      rfl
    rw [List.singleton_append, BraceToken.scan_cons, if_neg hq, if_neg, if_neg hc]
    case h =>
      intro t' h ht'
      obtain ⟨s', hs'⟩ := hs '*' (h ▸ by decide) t' ht'
      exact hn s' h hs'
    case h' =>
      intro t' h ht'
      obtain ⟨s', hs'⟩ := hs '\x7b' (h ▸ by decide) t' ht'
      exact hn' s' h hs'
    case hnc =>
      rintro ⟨hd, h, hhead⟩
      exact hl ⟨hd, h, hh (h ▸ by decide) ▸ hhead⟩

end IsToken

theorem exists_leads (s : List Char) (hz : begun = none → depth = 0) :
    ∀ clause ∈ ofTokens begun (BraceToken.scan depth pos s), clause.Begins p → Found depth pos begun s p := by
  fun_induction BraceToken.scan depth pos s generalizing begun
  case case1 =>
    intro clause hm hb
    obtain ⟨text, he⟩ := begins_of_mem_ofBegun hm hb
    exact .begun text he
  case case2 hc ih =>
    rw [Text.eq_of_closeComment? hc]
    exact found_cons hz (.blockComment hz hc _) ih
  case case4 hc ih =>
    rw [BraceToken.eq_of_closeBrace? hc]
    exact found_cons hz (.interpolation hz hc _) ih
  case case6 hq l r hc ih =>
    rw [Text.eq_of_closeString? hc]
    exact found_cons hz (.string hz hq hc _) ih
  case case8 s _ _ _ hl _ ih =>
    obtain ⟨hd, rfl, hs⟩ := hl
    have h := found_cons hz (.lineComment hz hd hs _) ih
    rwa [List.cons_append, List.takeWhile_append_dropWhile] at h
  case case9 hc ih =>
    obtain ⟨rfl, hc⟩ := hc
    exact found_cons hz (.cut (by simpa using hc) _ _) ih
  case case10 hn hn' hq hl hc _ ih => exact found_cons hz (.char hz hn hn' hq hl hc _) ih
  all_goals
    intro clause hm hb
    rw [List.mem_singleton.1 hm] at hb
    cases hb

theorem Same.refl (clause : Clause) : Same clause clause := by
  cases clause
  case opening header pos => exact .opening header pos pos
  case statement text pos => exact .statement text pos pos
  case closing pos        => exact .closing pos pos
  case broken fault       => exact .broken fault.fault fault.pos fault.pos

-- A comment in front of a statement is not read.
theorem reading_comment {body : List Char} (hb : Text.IsBody body) (pos : Position) (s : List Char) :
    ∃ q, reading pos (Scoping.comment body ++ s) = reading q s := by
  rw [Scoping.comment_append, reading, BraceToken.scan_comment (hb.closeComment? s)]
  exact ⟨_, rfl⟩

end Clause

namespace Brace

variable {sigil : Char} {nodes read : List Node} {pre post body : List Char}

-- The nodes are placed where the clauses begin.
theorem assemble_placed {P : Position → Prop} {clauses : List Clause} (hc : ∀ c ∈ clauses, ∀ p, c.Begins p → P p)
    {stack : List OpenBlock} (hs : ∀ b ∈ stack, b.Placed P) (hn : Node.AllPlaced P nodes)
    (h : assemble sigil stack nodes clauses = .ok read) : Node.AllPlaced P read := by
  fun_induction assemble sigil stack nodes clauses
  case case1 =>
    cases h
    exact hn
  case case3 ih =>
    obtain ⟨hp, hc⟩ := List.forall_mem_cons.1 hc
    exact ih hc (List.forall_mem_cons.2 ⟨⟨hp _ (.opening ..), hn⟩, hs⟩) trivial h
  case case4 he ih =>
    obtain ⟨hp, hc⟩ := List.forall_mem_cons.1 hc
    exact ih hc hs (hn.concat (he ▸ statementNode_notes (hp _ (.statement ..)) :)) h
  case case7 he ih =>
    obtain ⟨_, hc⟩ := List.forall_mem_cons.1 hc
    obtain ⟨hb, hs⟩ := List.forall_mem_cons.1 hs
    exact ih hc hs (hb.before.concat (he ▸ blockNode_notes hb.pos hn :)) h
  all_goals cases h

-- A text leads to every place that is noted in its tree.
theorem leads_of_placed (h : parse sigil (pre ++ post) = .ok nodes)
    (hp : ¬Node.AllPlaced (· ≠ Position.start.after pre) nodes) :
    ∃ clauses, Clause.Leads 0 .start none pre clauses := by
  obtain ⟨clause, hm, hb⟩ : ∃ clause ∈ Clause.ofText (pre ++ post), clause.Begins (Position.start.after pre) := by
    by_contra hn
    have hs : Node.AllPlaced (· ≠ Position.start.after pre) [] := trivial
    refine hp (assemble_placed (fun clause hm p hb he => hn ⟨clause, hm, ?_⟩) (by simp) hs h)
    exact he ▸ hb
  have hf := Clause.exists_leads (pre ++ post) (fun _ => rfl) clause hm hb
  cases hf
  case begun he => cases he
  case behind clauses he _ _ hp hl =>
    rw [Position.eq_of_after hp he]
    exact ⟨clauses, hl⟩

theorem parse_comment (hb : Text.IsBody body) (h : parse sigil (pre ++ post) = .ok nodes)
    (hp : ¬Node.AllPlaced (· ≠ Position.start.after pre) nodes) :
    ∃ nodes', parse sigil (pre ++ Scoping.comment body ++ ' ' :: post) = .ok nodes' ∧
      Node.allUnplaced nodes' = Node.allUnplaced nodes := by
  obtain ⟨clauses, hl⟩ := leads_of_placed h hp
  obtain ⟨q, hq⟩ := Clause.reading_comment hb (Position.start.after pre) (' ' :: post)
  have hr : Clause.ofText (pre ++ Scoping.comment body ++ ' ' :: post) =
      clauses ++ Clause.reading (q.after [' ']) post := by
    rw [List.append_assoc, Clause.ofText, hl, hq, ← Clause.reading_blank (w := [' ']) (by decide),
      List.singleton_append]
  rw [parse, Clause.ofText, hl post] at h
  rw [parse, hr]
  have hs := List.rel_append (List.forall₂_same.2 fun clause (_ : clause ∈ clauses) => Clause.Same.refl clause)
    (Clause.reading_same (Position.start.after pre) (q.after [' ']) post)
  have hb : Behind [] [] [] [] [] := .top rfl
  exact assemble_behind hs hb h

end Brace

end Dialect

end ScopedCss
