import Mathlib.Data.List.Forall2
import ScopedCss.Proofs.Dialect.Indented
import ScopedCss.Proofs.Dialect.Placed

namespace ScopedCss.Dialect

namespace Node

theorem allUnplaced_eq_map (nodes : List Node) : allUnplaced nodes = nodes.map unplaced := by
  induction nodes
  case nil            => rfl
  case cons n rest ih => rw [allUnplaced, ih, List.map_cons]

theorem allUnplaced_append (nodes more : List Node) :
    allUnplaced (nodes ++ more) = allUnplaced nodes ++ allUnplaced more := by
  simp only [allUnplaced_eq_map, List.map_append]

-- The node at another place; what is in it stays where it is.
def moved (pos : Position) : Node → Node
  | declaration property value _     => declaration property value pos
  | definition name value fallback _ => definition name value fallback pos
  | imports targets _                => imports targets pos
  | rule selector children _         => rule selector children pos
  | atStatement name params _        => atStatement name params pos
  | atBlock name params children _   => atBlock name params children pos

theorem unplaced_moved (pos : Position) (n : Node) : (n.moved pos).unplaced = n.unplaced := by
  cases n <;> simp only [moved, unplaced]

end Node

-- What is read of a statement, at another place.
def Reading.moved (pos : Position) : Except FaultAt Node → Except FaultAt Node
  | .ok node     => .ok (node.moved pos)
  | .error fault => .error { fault with pos }

-- A statement is read at every place, if it is at one.
theorem Reading.exists_of_moved {x y z : Except FaultAt Node} {pos pos' : Position} {node : Node}
    (hy : y = moved pos x) (hz : z = moved pos' x) (h : y = .ok node) :
    ∃ node', z = .ok node' ∧ node'.unplaced = node.unplaced := by
  subst hy hz
  cases x
  case error => cases h
  case ok n =>
    cases h
    exact ⟨n.moved pos', rfl, (n.unplaced_moved pos').trans (n.unplaced_moved pos).symm⟩

theorem atStatement?_moved (text : List Char) (pos : Position) :
    atStatement? text pos = (atStatement? text .start).map (Reading.moved pos) := by
  unfold atStatement?
  split
  case h_1 => split <;> rfl
  case h_2 => rfl
  case h_3 => rfl

theorem Brace.definition?_moved (sigil : Char) (text : List Char) (pos : Position) :
    definition? sigil text pos = (definition? sigil text .start).map (Node.moved pos) := by
  unfold definition?
  cases Text.dropPrefix? [sigil] text
  case none => rfl
  case some rest =>
    simp only [Option.bind_eq_bind, Option.bind_some]
    split
    case isTrue => rfl
    case isFalse =>
      cases Text.dropPrefix? [':'] (Text.trimStart (rest.dropWhile Text.isWordChar))
      all_goals rfl

theorem Brace.declaration_moved (text : List Char) (pos : Position) :
    declaration text pos = Reading.moved pos (declaration text .start) := by
  unfold declaration
  split
  case h_1 => split <;> rfl
  case h_2 => rfl

theorem Brace.statementNode_moved (sigil : Char) (text : List Char) (pos : Position) :
    statementNode sigil text pos = Reading.moved pos (statementNode sigil text .start) := by
  unfold statementNode
  rw [definition?_moved, atStatement?_moved, declaration_moved]
  cases definition? sigil text .start
  case some => rfl
  case none =>
    cases atStatement? text .start
    all_goals rfl

theorem Indented.definition?_moved (text : List Char) (pos : Position) :
    definition? text pos = (definition? text .start).map (Node.moved pos) := by
  unfold definition?
  repeat' split
  all_goals rfl

theorem Indented.statementNode_moved (text : List Char) (pos : Position) :
    statementNode text pos = Reading.moved pos (statementNode text .start) := by
  have hd : declaration text pos = Reading.moved pos (declaration text .start) := by
    unfold declaration
    split <;> rfl
  unfold statementNode
  rw [definition?_moved, atStatement?_moved, hd]
  cases definition? text .start
  case some => rfl
  case none =>
    cases atStatement? text .start
    all_goals rfl

namespace BraceToken

variable {c : Char} {s : List Char}

-- A character that begins neither a comment nor an interpolation.
theorem scan_cons (h : ∀ t, c = '/' → s = '*' :: t → False) (h' : ∀ t, c = '#' → s = '\x7b' :: t → False)
    (depth : Nat) (pos : Position) :
    scan depth pos (c :: s) =
      if c = '"' ∨ c = '\'' then
        match Text.closeString? c s with
        | some (l, r) => ⟨.atom (c :: l), pos⟩ :: scan depth (pos.after (c :: l)) r
        | none        => [⟨.broken .unterminatedString, pos⟩]
      else if depth = 0 ∧ c = '/' ∧ s.head? = some '/' then
        ⟨.lineComment, pos⟩ ::
          scan depth (pos.after (c :: s.takeWhile (· != '\n'))) (s.dropWhile (· != '\n'))
      else if depth = 0 ∧ (c = '\x7b' ∨ c = ';' ∨ c = '\x7d') then
        ⟨.cut c, pos⟩ :: scan depth (pos.after [c]) s
      else
        ⟨.char c, pos⟩ ::
          scan (if c = '(' then depth + 1 else if c = ')' then depth - 1 else depth) (pos.after [c]) s := by
  rw [scan.eq_def]
  split
  case h_1 he => cases he
  case h_2 t he =>
    cases he
    exact (h t rfl rfl).elim
  case h_3 t he =>
    cases he
    exact (h' t rfl rfl).elim
  case h_4 he =>
    cases he
    split
    case isTrue => split <;> simp_all
    case isFalse => rfl

theorem scan_pieces (depth : Nat) (pos pos' : Position) (s : List Char) :
    (scan depth pos s).map piece = (scan depth pos' s).map piece := by
  fun_induction scan depth pos s generalizing pos'
  case case1 => rw [scan]
  case case2 hc ih | case4 hc ih =>
    rw [scan.eq_def _ pos']
    simp only
    split
    case h_1 hc' =>
      rw [hc] at hc'
      cases hc'
      rw [List.map_cons, List.map_cons, ih]
    case h_2 hc' => simp [hc] at hc'
  case case3 hc | case5 hc =>
    rw [scan.eq_def _ pos']
    simp only
    split
    case h_1 hc' => simp [hc] at hc'
    case h_2     => rfl
  case case6 hn hn' hq _ _ hc ih =>
    rw [scan_cons hn hn', if_pos hq, hc, List.map_cons, List.map_cons, ih]
  case case7 hn hn' hq hc       => rw [scan_cons hn hn', if_pos hq, hc]; rfl
  case case8 hn hn' hq hl _ ih  => rw [scan_cons hn hn', if_neg hq, if_pos hl, List.map_cons, List.map_cons, ih]
  case case9 hn hn' hq hl hc ih =>
    rw [scan_cons hn hn', if_neg hq, if_neg hl, if_pos hc, List.map_cons, List.map_cons, ih]
  case case10 hn hn' hq hl hc _ ih =>
    rw [scan_cons hn hn', if_neg hq, if_neg hl, if_neg hc, List.map_cons, List.map_cons, ih]
    rfl
end BraceToken

-- Clauses, nodes and lines are compared without their places.
inductive Clause.Same : Clause → Clause → Prop
  | opening (header : List Char) (pos pos' : Position) : Same (.opening header pos) (.opening header pos')
  | statement (text : List Char) (pos pos' : Position) : Same (.statement text pos) (.statement text pos')
  | closing (pos pos' : Position) : Same (.closing pos) (.closing pos')
  | broken (fault : Fault) (pos pos' : Position) : Same (.broken ⟨fault, pos⟩) (.broken ⟨fault, pos'⟩)

namespace Clause

-- The beginnings of a statement are the same, but for their places.
inductive SameBegun : Option (List Char × Position) → Option (List Char × Position) → Prop
  | none : SameBegun none none
  | some (text : List Char) (pos pos' : Position) : SameBegun (some (text, pos)) (some (text, pos'))

variable {begun begun' : Option (List Char × Position)}

theorem ofBegun_same (h : SameBegun begun begun') : List.Forall₂ Same (ofBegun begun) (ofBegun begun') := by
  cases h
  case none => exact .nil
  case some text pos pos' =>
    rw [ofBegun, ofBegun]
    split
    case isTrue  => exact .nil
    case isFalse => exact .cons (.statement ..) .nil

theorem ofTokens_same {tokens tokens' : List BraceToken}
    (h : tokens.map BraceToken.piece = tokens'.map BraceToken.piece) (hb : SameBegun begun begun') :
    List.Forall₂ Same (ofTokens begun tokens) (ofTokens begun' tokens') := by
  induction tokens generalizing begun begun' tokens'
  case nil =>
    have ht : tokens' = [] := List.map_eq_nil_iff.1 h.symm
    rw [ht]
    exact ofBegun_same hb
  case cons token tokens ih =>
    obtain ⟨token', rest, rfl, hp, ht⟩ := List.map_eq_cons_iff.1 h.symm
    obtain ⟨piece, pos⟩ := token
    obtain ⟨piece', pos'⟩ := token'
    cases hp
    have hnone := ih ht.symm .none
    have hsome (text : List Char) (pos pos' : Position) := ih ht.symm (.some text pos pos')
    cases piece
    case broken fault => exact .cons (.broken ..) .nil
    case cut c =>
      simp only [ofTokens]
      split
      case isTrue =>
        cases hb
        case none => exact .cons (.opening ..) hnone
        case some => exact .cons (.opening ..) hnone
      case isFalse =>
        split
        case isTrue  => exact List.rel_append (ofBegun_same hb) (.cons (.closing ..) hnone)
        case isFalse => exact List.rel_append (ofBegun_same hb) hnone
    case char c =>
      cases hb
      case none =>
        simp only [ofTokens]
        split
        case isTrue  => exact hnone
        case isFalse => exact hsome ..
      case some => exact hsome ..
    all_goals
      cases hb
      case none => first | exact hnone | exact hsome ..
      case some => exact hsome ..

theorem reading_same (pos pos' : Position) (s : List Char) :
    List.Forall₂ Same (ofTokens none (BraceToken.scan 0 pos s)) (ofTokens none (BraceToken.scan 0 pos' s)) :=
  ofTokens_same (BraceToken.scan_pieces 0 pos pos' s) .none

end Clause

namespace Brace

-- Two states of a reading that are the same but for places, and for the nodes that stand in front of
-- everything in the second.
inductive Behind (front : List Node) : List OpenBlock → List Node → List OpenBlock → List Node → Prop
  | top {nodes nodes' : List Node} :
    Node.allUnplaced nodes' = Node.allUnplaced (front ++ nodes) → Behind front [] nodes [] nodes'
  | inside {block block' : OpenBlock} {stack stack' : List OpenBlock} {nodes nodes' : List Node} :
    block'.header = block.header → Node.allUnplaced nodes' = Node.allUnplaced nodes →
    Behind front stack block.before stack' block'.before →
    Behind front (block :: stack) nodes (block' :: stack') nodes'

variable {front nodes nodes' : List Node} {stack stack' : List OpenBlock} {node node' : Node}

theorem Behind.concat (h : Behind front stack nodes stack' nodes') (hn : node'.unplaced = node.unplaced) :
    Behind front stack (nodes ++ [node]) stack' (nodes' ++ [node']) := by
  have hs : Node.allUnplaced [node'] = Node.allUnplaced [node] := by
    simp only [Node.allUnplaced, hn]
  cases h
  case top h =>
    refine .top ?_
    rw [Node.allUnplaced_append, h, hs, ← Node.allUnplaced_append, List.append_assoc]
  case inside hh hb h =>
    refine .inside hh ?_ hb
    rw [Node.allUnplaced_append, h, hs, ← Node.allUnplaced_append]

theorem blockNode_same {header : List Char} {pos : Position} (pos' : Position) (h : blockNode header nodes pos = .ok node)
    (hn : Node.allUnplaced nodes' = Node.allUnplaced nodes) :
    ∃ node', blockNode header nodes' pos' = .ok node' ∧ node'.unplaced = node.unplaced := by
  unfold blockNode at h ⊢
  split at h
  case h_1 => cases h
  case h_2 s =>
    cases h
    exact ⟨_, rfl, by simp only [Node.unplaced, hn]⟩
  case h_3 =>
    cases h
    exact ⟨_, rfl, by simp only [Node.unplaced, hn]⟩

theorem assemble_behind {sigil : Char} {clauses clauses' : List Clause} (hc : List.Forall₂ Clause.Same clauses clauses')
    (h : Behind front stack nodes stack' nodes') {read : List Node}
    (hr : assemble sigil stack nodes clauses = .ok read) :
    ∃ read', assemble sigil stack' nodes' clauses' = .ok read' ∧
      Node.allUnplaced read' = Node.allUnplaced (front ++ read) := by
  induction hc generalizing stack nodes stack' nodes'
  case nil =>
    cases h
    case top h =>
      cases hr
      exact ⟨nodes', rfl, h⟩
    case inside => cases hr
  case cons hs _ ih =>
    cases hs
    case opening header pos pos' =>
      have hb : Behind front (⟨header, pos, nodes⟩ :: stack) [] (⟨header, pos', nodes'⟩ :: stack') [] :=
        .inside rfl rfl h
      exact ih hb hr
    case statement text pos pos' =>
      rw [assemble] at hr
      split at hr
      case h_1 node hn =>
        obtain ⟨node', hn', hu⟩ :=
          Reading.exists_of_moved (statementNode_moved sigil text pos) (statementNode_moved sigil text pos') hn
        rw [assemble, hn']
        exact ih (h.concat hu) hr
      case h_2 => cases hr
    case closing pos pos' =>
      cases h
      case top => cases hr
      case inside block block' stack stack' hh hb hn =>
        rw [assemble] at hr
        split at hr
        case h_1 node hb' =>
          obtain ⟨node', hn', hu⟩ := blockNode_same block'.pos hb' hn
          rw [assemble]
          simp only [hh, hn']
          exact ih (hb.concat hu) hr
        case h_2 => cases hr
    case broken => cases hr

end Brace

namespace Line

-- Modes that are the same, but for where a comment began.
inductive Mode.Same : Mode → Mode → Prop
  | code : Same .code .code
  | quoted (quote : Char) : Same (.quoted quote) (.quoted quote)
  | comment (pos pos' : Position) : Same (.comment pos) (.comment pos')

-- Places are the same, but for where they are.
abbrev SamePlace (opened opened' : Option Position) : Prop :=
  opened.isSome = opened'.isSome

theorem Mode.Same.behind {opened opened' : Option Position} (h : SamePlace opened' opened) :
    Same (Mode.behind opened) (Mode.behind opened') := by
  cases opened
  case none =>
    cases opened'
    case none => exact .code
    case some => cases h
  case some pos =>
    cases opened'
    case none      => cases h
    case some pos' => exact .comment pos pos'

theorem uncomment_same {mode mode' : Mode} (h : Mode.Same mode mode') (row row' column column' : Nat)
    (s : List Char) :
    (uncomment row' column' mode' s).1 = (uncomment row column mode s).1 ∧
      SamePlace (uncomment row' column' mode' s).2 (uncomment row column mode s).2 := by
  fun_induction uncomment row column mode s generalizing column' mode'
  case case1 => cases h <;> exact ⟨rfl, rfl⟩
  all_goals
    cases h
    rw [uncomment.eq_def]
  case case2 ih pos'           => exact ih .code column'
  case case3 ih pos'           => simpa only [if_true] using ih (.comment _ pos') column'
  case case4 hc _ ih pos'      => simpa only [hc, if_false] using ih (.comment _ pos') column'
  case case7                   => exact ⟨rfl, rfl⟩
  case case8 ih                => exact ih (.comment ..) column'
  -- The other characters are kept.
  case case5 c s _ q ih =>
    have h : Mode.Same (if c = q then .code else .quoted q) (if c = q then .code else .quoted q) := by
      split
      case isTrue  => exact .code
      case isFalse => exact .quoted q
    have hs := ih _ h (column' + 1)
    exact ⟨congrArg (c :: ·) hs.1, hs.2⟩
  case case6 c s _ hq ih =>
    have hs := ih _ (.quoted c) (column' + 1)
    simp only [hq, if_true]
    exact ⟨congrArg (c :: ·) hs.1, hs.2⟩
  case case9 s _ _ _ hq ih =>
    have hs := ih _ .code (column' + 1)
    simp only [hq, if_true, if_false]
    exact ⟨congrArg ('/' :: ·) hs.1, hs.2⟩
  case case10 c s _ hq hc ih =>
    have hs := ih _ .code (column' + 1)
    simp only [hq, hc, if_false]
    exact ⟨congrArg (c :: ·) hs.1, hs.2⟩

theorem ofText?_same (row row' : Nat) (text : List Char) :
    (ofText? row' text).map outline = (ofText? row text).map outline := by
  unfold ofText?
  dsimp only
  split <;> rfl

theorem ofLines_same {row row' : Nat} {opened opened' : Option Position} (ho : SamePlace opened' opened)
    {ls : List (List Char)} {lines : List Line} (h : ofLines row opened ls = .ok lines) :
    ∃ lines', ofLines row' opened' ls = .ok lines' ∧ lines'.map outline = lines.map outline := by
  induction ls generalizing row row' opened opened' lines
  case nil =>
    cases opened
    case some => cases h
    case none =>
      cases opened'
      case some => cases ho
      case none =>
        cases h
        exact ⟨[], rfl, rfl⟩
  case cons line rest ih =>
    obtain ⟨ht, ho'⟩ := uncomment_same (.behind ho) row row' 1 1 line
    rw [ofLines_cons] at h ⊢
    cases hl : ofLines (row + 1) (uncomment row 1 (.behind opened) line).2 rest
    case error =>
      rw [hl] at h
      cases h
    case ok below =>
      rw [hl] at h
      cases h
      obtain ⟨below', hl', hs⟩ := ih ho' hl
      refine ⟨_, congrArg _ hl', ?_⟩
      rw [List.map_append, List.map_append, hs, ht]
      refine congrArg (· ++ below.map outline) ?_
      have hl := ofText?_same row row' (uncomment row 1 (.behind opened) line).1
      simpa only [Option.toList_map] using congrArg Option.toList hl

theorem joinLists_same {lines lines' : List Line} (h : lines'.map outline = lines.map outline) :
    (joinLists lines').map outline = (joinLists lines).map outline := by
  induction lines generalizing lines'
  case nil => rw [List.map_eq_nil_iff.1 h]
  case cons line rest ih =>
    obtain ⟨line', rest', rfl, ho, hr⟩ := List.map_eq_cons_iff.1 h
    have ih := ih hr
    have hi : line'.indent = line.indent := congrArg Prod.fst ho
    have ht : line'.text = line.text := congrArg Prod.snd ho
    rw [joinLists, joinLists]
    cases hj : joinLists rest
    case nil =>
      rw [hj] at ih
      rw [List.map_eq_nil_iff.1 ih]
      exact congrArg (fun o => [o]) ho
    case cons next more =>
      rw [hj] at ih
      obtain ⟨next', more', hj', hn, hm⟩ := List.map_eq_cons_iff.1 ih
      have hni : next'.indent = next.indent := congrArg Prod.fst hn
      have hnt : next'.text = next.text := congrArg Prod.snd hn
      rw [hj']
      dsimp only
      rw [hi, ht, hni, hnt]
      split
      case isTrue  => simp [outline, hm]
      case isFalse => simp only [List.map_cons, ho, hn, hm]

end Line

namespace Indented

-- The second layout has these nodes in front of everything. Its own lines may be indented already, if
-- those of the first are not yet.
inductive Behind (front : List Node) : Layout → Layout → Prop
  | top {nodes nodes' : List Node} {indent indent' : Option Nat} :
    Node.allUnplaced nodes' = Node.allUnplaced (front ++ nodes) →
    (indent' = indent ∨ (indent = none ∧ indent' = some 0)) →
    Behind front ⟨nodes, indent, []⟩ ⟨nodes', indent', []⟩
  | inside {block block' : OpenBlock} {stack stack' : List OpenBlock} {nodes nodes' : List Node}
    (indent : Option Nat) :
    block'.header.outline = block.header.outline → Node.allUnplaced nodes' = Node.allUnplaced nodes →
    Behind front ⟨block.before, block.outer, stack⟩ ⟨block'.before, block'.outer, stack'⟩ →
    Behind front ⟨nodes, indent, block :: stack⟩ ⟨nodes', indent, block' :: stack'⟩

variable {front : List Node} {layout layout' : Layout} {line line' : Line} {node node' : Node}

theorem blockNode_same (header : List Char) (pos pos' : Position) {nodes nodes' : List Node}
    (h : Node.allUnplaced nodes' = Node.allUnplaced nodes) :
    (blockNode header nodes' pos').unplaced = (blockNode header nodes pos).unplaced := by
  unfold blockNode
  split
  all_goals simp only [Node.unplaced, h]

namespace Behind

variable {nodes nodes' : List Node} {indent indent' : Option Nat} {stack stack' : List OpenBlock}

theorem concat (h : Behind front ⟨nodes, indent, stack⟩ ⟨nodes', indent', stack'⟩)
    (hn : node'.unplaced = node.unplaced) :
    Behind front ⟨nodes ++ [node], indent, stack⟩ ⟨nodes' ++ [node'], indent', stack'⟩ := by
  have hs : Node.allUnplaced [node'] = Node.allUnplaced [node] := by
    simp only [Node.allUnplaced, hn]
  cases h
  case top h hi =>
    refine .top ?_ hi
    rw [Node.allUnplaced_append, h, hs, ← Node.allUnplaced_append, List.append_assoc]
  case inside hh hb h =>
    refine .inside _ hh ?_ hb
    rw [Node.allUnplaced_append, h, hs, ← Node.allUnplaced_append]

theorem reindent (h : Behind front ⟨nodes, indent, stack⟩ ⟨nodes', indent', stack'⟩) (i : Option Nat) :
    Behind front ⟨nodes, i, stack⟩ ⟨nodes', i, stack'⟩ := by
  cases h
  case top h _        => exact .top h (.inl rfl)
  case inside hh hb h => exact .inside i hh h hb

theorem any_indent (h : Behind front layout layout') (i : Nat) :
    layout'.indent.any (i < ·) = layout.indent.any (i < ·) := by
  cases h
  case inside => rfl
  case top hi =>
    obtain rfl | ⟨rfl, rfl⟩ := hi
    · rfl
    · simp

theorem closeTo (h : Behind front ⟨nodes, indent, stack⟩ ⟨nodes', indent', stack'⟩) (i : Nat) :
    Behind front (Layout.closeTo i nodes indent stack) (Layout.closeTo i nodes' indent' stack') := by
  induction stack generalizing nodes nodes' indent indent' stack'
  case nil =>
    cases h
    case top h hi => exact .top h hi
  case cons block stack ih =>
    cases h
    case inside block' stack' hh hb h =>
      have hi : block'.header.indent = block.header.indent := congrArg Prod.fst hh
      have ht : block'.header.text = block.header.text := congrArg Prod.snd hh
      rw [Layout.closeTo, Layout.closeTo, hi, ht]
      split
      case isTrue  => exact ih (hb.concat (blockNode_same _ _ _ h))
      case isFalse => exact .inside _ hh h hb

theorem finish (h : Behind front ⟨nodes, indent, stack⟩ ⟨nodes', indent', stack'⟩) :
    Node.allUnplaced (Layout.finish nodes' stack') = Node.allUnplaced (front ++ Layout.finish nodes stack) := by
  induction stack generalizing nodes nodes' indent indent' stack'
  case nil =>
    cases h
    case top h _ => exact h
  case cons block stack ih =>
    cases h
    case inside block' stack' hh hb h =>
      have ht : block'.header.text = block.header.text := congrArg Prod.snd hh
      rw [Layout.finish, Layout.finish, ht]
      exact ih (hb.concat (blockNode_same _ _ _ h))

theorem add (h : Behind front layout layout') (hl : line'.outline = line.outline) {next next' : Option Line}
    (hn : next'.map Line.outline = next.map Line.outline) {after : Layout}
    (ha : layout.add line next = .ok after) :
    ∃ after', layout'.add line' next' = .ok after' ∧ Behind front after after' := by
  have hi : line'.indent = line.indent := congrArg Prod.fst hl
  have ht : line'.text = line.text := congrArg Prod.snd hl
  have hc := h.closeTo line.indent
  have hd : next'.any (line.indent < ·.indent) = next.any (line.indent < ·.indent) := by
    have ho (next : Option Line) : next.any (line.indent < ·.indent) =
        (next.map Line.outline).any (line.indent < ·.1) := by cases next <;> rfl
    rw [ho, ho, hn]
  unfold Layout.add at ha ⊢
  rw [hi, ht, hd]
  dsimp only at ha ⊢
  rw [hc.any_indent]
  generalize Layout.closeTo line.indent layout.nodes layout.indent layout.stack = here at ha hc ⊢
  generalize Layout.closeTo line.indent layout'.nodes layout'.indent layout'.stack = here' at hc ⊢
  obtain ⟨nodes, indent, stack⟩ := here
  obtain ⟨nodes', indent', stack'⟩ := here'
  split at ha
  case isTrue => cases ha
  case isFalse hf =>
    rw [if_neg hf]
    split at ha
    case isTrue ho =>
      rw [if_pos ho]
      cases ha
      exact ⟨_, rfl, .inside none hl rfl (hc.reindent (some line.indent))⟩
    case isFalse ho =>
      rw [if_neg ho]
      cases hs : statementNode line.text line.pos
      case error =>
        rw [hs] at ha
        cases ha
      case ok node =>
        rw [hs] at ha
        cases ha
        obtain ⟨node', hs', hu⟩ := Reading.exists_of_moved (statementNode_moved line.text line.pos)
          (statementNode_moved line.text line'.pos) hs
        rw [hs']
        exact ⟨_, rfl, (hc.concat hu).reindent (some line.indent)⟩

end Behind

theorem assemble_behind {lines lines' : List Line} (hl : lines'.map Line.outline = lines.map Line.outline)
    (h : Behind front layout layout') {read : List Node} (hr : assemble layout lines = .ok read) :
    ∃ read', assemble layout' lines' = .ok read' ∧ Node.allUnplaced read' = Node.allUnplaced (front ++ read) := by
  induction lines generalizing lines' layout layout'
  case nil =>
    rw [List.map_eq_nil_iff.1 hl]
    cases hr
    exact ⟨_, rfl, h.finish⟩
  case cons line rest ih =>
    obtain ⟨line', rest', rfl, ho, hs⟩ := List.map_eq_cons_iff.1 hl
    rw [assemble] at hr
    split at hr
    case h_1 after ha =>
      have hn : rest'.head?.map Line.outline = rest.head?.map Line.outline := by
        rw [← List.head?_map, ← List.head?_map, hs]
      obtain ⟨after', ha', hb⟩ := h.add ho hn ha
      rw [assemble, ha']
      exact ih hs hb hr
    case h_2 => cases hr

end Indented

end ScopedCss.Dialect
