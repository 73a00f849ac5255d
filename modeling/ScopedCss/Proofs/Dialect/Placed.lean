import ScopedCss.Dialect.Registry
import ScopedCss.Proofs.Text.Lines

namespace ScopedCss

namespace Dialect

-- A character of the text stands at this place.
def IsPlace (text : List Char) (pos : Position) : Prop :=
  ∃ a c b, text = a ++ c :: b ∧ pos = Position.start.after a

variable {P : Position → Prop}

mutual

-- All places that are noted in a tree are of this kind.
def Node.Placed (P : Position → Prop) : Node → Prop
  | .declaration _ _ pos | .definition _ _ _ pos | .imports _ pos | .atStatement _ _ pos => P pos
  | .rule _ children pos | .atBlock _ _ children pos => P pos ∧ Node.AllPlaced P children

def Node.AllPlaced (P : Position → Prop) : List Node → Prop
  | []           => True
  | node :: rest => node.Placed P ∧ Node.AllPlaced P rest

end

theorem Node.AllPlaced.append {nodes more : List Node} (h : AllPlaced P nodes) (hm : AllPlaced P more) :
    AllPlaced P (nodes ++ more) := by
  induction nodes
  case nil            => exact hm
  case cons n rest ih => exact ⟨h.1, ih h.2⟩

theorem Node.AllPlaced.concat {nodes : List Node} {node : Node} (h : AllPlaced P nodes) (hn : node.Placed P) :
    AllPlaced P (nodes ++ [node]) :=
  h.append ⟨hn, trivial⟩

mutual

theorem Node.Placed.of_forall (h : ∀ pos, P pos) : (node : Node) → node.Placed P
  | .declaration .. | .definition .. | .imports .. | .atStatement .. => h _
  | .rule _ children _ | .atBlock _ _ children _ => ⟨h _, .of_forall h children⟩

theorem Node.AllPlaced.of_forall (h : ∀ pos, P pos) : (nodes : List Node) → AllPlaced P nodes
  | []           => trivial
  | node :: rest => ⟨.of_forall h node, .of_forall h rest⟩

end

-- The places that reading notes are of this kind, whether it succeeds or not.
def Notes (P : Position → Prop) (Q : α → Prop) : Except FaultAt α → Prop
  | .ok a        => Q a
  | .error fault => P fault.pos

section

variable {pos : Position} {text : List Char}

theorem atStatement?_notes (h : P pos) : ∀ result ∈ atStatement? text pos, Notes P (Node.Placed P) result := by
  intro result hr
  unfold atStatement? at hr
  split at hr
  case h_1 =>
    split at hr
    all_goals
      cases hr
      exact h
  case h_2 =>
    cases hr
    exact h
  case h_3 => cases hr

namespace Brace

theorem definition?_placed {sigil : Char} (h : P pos) : ∀ node ∈ definition? sigil text pos, node.Placed P := by
  intro node hn
  simp only [definition?, Option.bind_eq_bind, Option.mem_def, Option.bind_eq_some_iff] at hn
  obtain ⟨rest, _, hn⟩ := hn
  split at hn
  case isTrue => cases hn
  case isFalse =>
    obtain ⟨value, _, hn⟩ := Option.bind_eq_some_iff.1 hn
    cases hn
    exact h

theorem declaration_notes (h : P pos) : Notes P (Node.Placed P) (declaration text pos) := by
  unfold declaration
  split
  case h_1 =>
    split
    all_goals exact h
  case h_2 => exact h

theorem statementNode_notes {sigil : Char} (h : P pos) :
    Notes P (Node.Placed P) (statementNode sigil text pos) := by
  unfold statementNode
  split
  case h_1 hd => exact definition?_placed h _ hd
  case h_2 ha => exact atStatement?_notes h _ ha
  case h_3    => exact declaration_notes h

theorem blockNode_notes {children : List Node} (h : P pos) (hc : Node.AllPlaced P children) :
    Notes P (Node.Placed P) (blockNode text children pos) := by
  unfold blockNode
  split
  case h_1 => exact h
  all_goals exact ⟨h, hc⟩

end Brace

namespace Indented

theorem definition?_placed (h : P pos) : ∀ node ∈ definition? text pos, node.Placed P := by
  intro node hn
  unfold definition? at hn
  repeat' split at hn
  all_goals
    cases hn
    try exact h

theorem declaration_notes (h : P pos) : Notes P (Node.Placed P) (declaration text pos) := by
  unfold declaration
  split
  all_goals exact h

theorem statementNode_notes (h : P pos) : Notes P (Node.Placed P) (statementNode text pos) := by
  unfold statementNode
  split
  case h_1 hd => exact definition?_placed h _ hd
  case h_2 ha => exact atStatement?_notes h _ ha
  case h_3    => exact declaration_notes h

theorem blockNode_placed {children : List Node} (h : P pos) (hc : Node.AllPlaced P children) :
    (blockNode text children pos).Placed P := by
  unfold blockNode
  split
  all_goals exact ⟨h, hc⟩

end Indented

end

theorem isPlace_start (pre : List Char) (c : Char) (s : List Char) :
    IsPlace (pre ++ c :: s) (Position.start.after pre) :=
  ⟨pre, c, s, rfl, rfl⟩

namespace BraceToken

-- A token in front of others has the place that its text begins at.
theorem cons_places {c : Char} {piece : Piece} {pos : Position} {taken rest s pre : List Char}
    {tokens : List BraceToken} (h : pos = Position.start.after pre) (hs : c :: s = c :: taken ++ rest)
    (ih : ∀ pre, pos.after (c :: taken) = Position.start.after pre →
      ∀ t ∈ tokens, IsPlace (pre ++ rest) t.pos) :
    ∀ t ∈ ⟨piece, pos⟩ :: tokens, IsPlace (pre ++ c :: s) t.pos := by
  intro t ht
  cases ht
  case head    => exact h ▸ isPlace_start pre c s
  case tail ht =>
    have hp := ih (pre ++ c :: taken) (by rw [h, Position.after_append]) t ht
    rwa [List.append_assoc, ← hs] at hp

theorem scan_places (depth : Nat) (pos : Position) (s pre : List Char) (h : pos = Position.start.after pre) :
    ∀ t ∈ scan depth pos s, IsPlace (pre ++ s) t.pos := by
  fun_induction scan depth pos s generalizing pre
  case case1         => simp
  case case2 hc ih   => exact cons_places h (by simp [Text.eq_of_closeComment? hc]) ih
  case case3         => simpa [h] using isPlace_start pre _ _
  case case4 hc ih   => exact cons_places h (by simp [eq_of_closeBrace? hc]) ih
  case case5         => simpa [h] using isPlace_start pre _ _
  case case6 hc ih   => exact cons_places h (by simp [Text.eq_of_closeString? hc]) ih
  case case7         => simpa [h] using isPlace_start pre _ _
  case case8 ih      => exact cons_places h (by simp) ih
  case case9 ih      => exact cons_places h rfl ih
  case case10 ih     => exact cons_places h rfl ih

end BraceToken

namespace Clause

def pos : Clause → Position
  | opening _ pos | statement _ pos | closing pos => pos
  | broken fault => fault.pos

theorem ofBegun_placed {begun : Option (List Char × Position)} (hb : ∀ b ∈ begun, P b.2) :
    ∀ c ∈ ofBegun begun, P c.pos := by
  unfold ofBegun
  split
  case h_1 => split <;> simp_all [pos]
  case h_2 => simp

theorem getD_placed {begun : Option (List Char × Position)} {pos : Position} (hb : ∀ b ∈ begun, P b.2)
    (hp : P pos) : P (begun.getD ([], pos)).2 := by
  cases begun
  case none   => exact hp
  case some b => exact hb b rfl

theorem ofTokens_placed {tokens : List BraceToken} (ht : ∀ t ∈ tokens, P t.pos)
    {begun : Option (List Char × Position)} (hb : ∀ b ∈ begun, P b.2) :
    ∀ c ∈ ofTokens begun tokens, P c.pos := by
  have hn : ∀ b ∈ (none : Option (List Char × Position)), P b.2 := by simp
  fun_induction ofTokens begun tokens
  case case1 => exact ofBegun_placed hb
  all_goals
    rw [List.forall_mem_cons] at ht
    obtain ⟨hp, ht⟩ := ht
  case case2 => simpa [pos] using hp
  case case3 hg ih =>
    have hd := getD_placed hb hp
    rw [hg] at hd
    exact List.forall_mem_cons.2 ⟨hd, ih ht hn⟩
  case case4 ih =>
    exact List.forall_mem_append.2 ⟨ofBegun_placed hb, List.forall_mem_cons.2 ⟨hp, ih ht hn⟩⟩
  case case5 ih      => exact List.forall_mem_append.2 ⟨ofBegun_placed hb, ih ht hn⟩
  case case6 ih      => exact ih ht (by simpa using hb)
  case case7 ih      => exact ih ht hn
  case case8 ih      => exact ih ht (by simpa using hp)
  case case9 ih      => exact ih ht (by simpa using hp)
  case case10 ih     => exact ih ht hn

theorem ofText_places (source : List Char) : ∀ c ∈ ofText source, IsPlace source c.pos :=
  ofTokens_placed (BraceToken.scan_places 0 .start source [] rfl) (by simp)

end Clause

namespace Brace

-- What is read so far is placed: the nodes of the innermost block, and the blocks around it.
structure OpenBlock.Placed (P : Position → Prop) (block : OpenBlock) : Prop where
  pos    : P block.pos
  before : Node.AllPlaced P block.before

theorem assemble_notes {sigil : Char} {clauses : List Clause} (hc : ∀ c ∈ clauses, P c.pos)
    {stack : List OpenBlock} (hs : ∀ b ∈ stack, b.Placed P) {nodes : List Node}
    (hn : Node.AllPlaced P nodes) : Notes P (Node.AllPlaced P) (assemble sigil stack nodes clauses) := by
  fun_induction assemble sigil stack nodes clauses
  case case1 => exact hn
  case case2 => exact (hs _ List.mem_cons_self).pos
  all_goals
    rw [List.forall_mem_cons] at hc
    obtain ⟨hp, hc⟩ := hc
  case case3 ih    => exact ih hc (List.forall_mem_cons.2 ⟨⟨hp, hn⟩, hs⟩) trivial
  case case4 he ih => exact ih hc hs (hn.concat (he ▸ statementNode_notes hp :))
  case case5 he    => exact (he ▸ statementNode_notes hp :)
  case case6       => exact hp
  case case7 he ih =>
    obtain ⟨hb, hs⟩ := List.forall_mem_cons.1 hs
    exact ih hc hs (hb.before.concat (he ▸ blockNode_notes hb.pos hn :))
  case case8 he =>
    obtain ⟨hb, _⟩ := List.forall_mem_cons.1 hs
    exact (he ▸ blockNode_notes hb.pos hn :)
  case case9       => exact hp

end Brace

namespace Line

-- A comment that is open at the end of a line began in front of it or in it.
theorem uncomment_opened {row column : Nat} {mode : Mode} {s : List Char} :
    ∀ pos ∈ (uncomment row column mode s).2, mode.comment? = some pos ∨ (pos.line = row ∧ s ≠ []) := by
  fun_induction uncomment row column mode s
  all_goals intro pos hp
  case case1                   => exact .inl hp
  case case3 _ ih | case4 _ ih => exact (ih pos hp).imp_right fun h => ⟨h.1, List.cons_ne_nil _ _⟩
  case case7                   => cases hp
  case case8 ih =>
    refine .inr ⟨?_, List.cons_ne_nil _ _⟩
    cases ih pos hp
    case inl h => exact Option.some.inj h ▸ rfl
    case inr h => exact h.1
  -- Where no comment is open, one that is open at the end begins in the line.
  case case2 ih =>
    have hi := (ih pos hp).resolve_left (by simp [Mode.comment?])
    exact .inr ⟨hi.1, List.cons_ne_nil _ _⟩
  case case5 c s _ q ih =>
    have hq : (if c = q then Mode.code else .quoted q).comment? = none := by split <;> rfl
    have hi := (ih _ pos hp).resolve_left (by simp [hq])
    exact .inr ⟨hi.1, List.cons_ne_nil _ _⟩
  case case6 ih | case9 ih | case10 ih =>
    have hi := (ih _ pos hp).resolve_left (by simp [Mode.comment?])
    exact .inr ⟨hi.1, List.cons_ne_nil _ _⟩

theorem ofText?_line {row : Nat} {text : List Char} : ∀ line ∈ ofText? row text, line.pos.line = row ∧ text ≠ [] := by
  intro line hl
  unfold ofText? at hl
  dsimp only at hl
  split at hl
  case h_1 => cases hl
  case h_2 hn =>
    cases hl
    refine ⟨rfl, ?_⟩
    rintro rfl
    exact hn rfl

-- The mode that a line begins in.
def Mode.behind : Option Position → Mode
  | some pos => .comment pos
  | none     => .code

theorem Mode.comment?_behind (opened : Option Position) : (Mode.behind opened).comment? = opened := by
  cases opened <;> rfl

theorem ofLines_cons (row : Nat) (opened : Option Position) (line : List Char) (rest : List (List Char)) :
    ofLines row opened (line :: rest) =
      (ofLines (row + 1) (uncomment row 1 (.behind opened) line).2 rest).map fun lines =>
        (ofText? row (uncomment row 1 (.behind opened) line).1).toList ++ lines := by
  cases opened
  all_goals
    rw [ofLines.eq_def]
    simp only [Mode.behind]
    generalize ofLines (row + 1) _ rest = lines
    cases lines <;> rfl

-- The lines are placed in their rows, if these are not empty.
theorem ofLines_notes {row : Nat} {opened : Option Position} {ls : List (List Char)}
    (ho : ∀ pos ∈ opened, P pos) (h : ∀ i l, ls[i]? = some l → l ≠ [] → ∀ pos, pos.line = row + i → P pos) :
    Notes P (fun lines => ∀ l ∈ lines, P l.pos) (ofLines row opened ls) := by
  induction ls generalizing row opened
  case nil =>
    cases opened
    case none     => simp [ofLines, Notes, pure, Except.pure]
    case some pos => exact ho pos rfl
  case cons line rest ih =>
    have hrow : line ≠ [] → ∀ pos, pos.line = row → P pos := h 0 line rfl
    have ho' : ∀ pos ∈ (uncomment row 1 (.behind opened) line).2, P pos := by
      intro pos hp
      cases uncomment_opened pos hp
      case inl hm => exact ho pos (Mode.comment?_behind opened ▸ hm)
      case inr hl => exact hrow hl.2 pos hl.1
    have hbelow : ∀ i l, rest[i]? = some l → l ≠ [] → ∀ pos, pos.line = row + 1 + i → P pos :=
      fun i l hl hn pos hp => h (i + 1) l (by simpa using hl) hn pos (by omega)
    have hrest := ih ho' hbelow
    rw [ofLines_cons]
    generalize ofLines (row + 1) _ rest = result at hrest
    cases result
    case error => exact hrest
    case ok lines =>
      intro l hl
      cases List.mem_append.1 hl
      case inl hl =>
        have ht := ofText?_line l (Option.mem_toList.1 hl)
        refine hrow ?_ _ ht.1
        rintro rfl
        exact ht.2 rfl
      case inr hl => exact hrest l hl

theorem joinLists_pos (lines : List Line) : ∀ l ∈ joinLists lines, ∃ l' ∈ lines, l'.pos = l.pos := by
  induction lines
  case nil => simp [joinLists]
  case cons line rest ih =>
    intro l hl
    rw [joinLists] at hl
    split at hl
    case h_1 next more hr =>
      rw [hr] at ih
      split at hl
      case isTrue =>
        cases hl
        case head    => exact ⟨line, List.mem_cons_self, rfl⟩
        case tail hl => exact (ih l (.tail _ hl)).imp fun _ => And.imp_left (List.mem_cons_of_mem _)
      case isFalse =>
        cases hl
        case head    => exact ⟨line, List.mem_cons_self, rfl⟩
        case tail hl => exact (ih l hl).imp fun _ => And.imp_left (List.mem_cons_of_mem _)
    case h_2 => exact ⟨line, List.mem_cons_self, List.mem_singleton.1 hl ▸ rfl⟩

end Line

namespace Indented

structure OpenBlock.Placed (P : Position → Prop) (block : OpenBlock) : Prop where
  header : P block.header.pos
  before : Node.AllPlaced P block.before

structure Layout.Placed (P : Position → Prop) (layout : Layout) : Prop where
  nodes : Node.AllPlaced P layout.nodes
  stack : ∀ b ∈ layout.stack, b.Placed P

namespace Layout

variable {layout : Layout} {line : Line}

theorem closeTo_placed (indent : Nat) {nodes : List Node} (hn : Node.AllPlaced P nodes) (inner : Option Nat)
    {stack : List OpenBlock} (hs : ∀ b ∈ stack, b.Placed P) : (closeTo indent nodes inner stack).Placed P := by
  induction stack generalizing nodes inner
  case nil => exact ⟨hn, hs⟩
  case cons block stack ih =>
    have hb := List.forall_mem_cons.1 hs
    rw [closeTo]
    split
    case isTrue  => exact ih (hb.1.before.concat (blockNode_placed hb.1.header hn)) _ hb.2
    case isFalse => exact ⟨hn, hs⟩

theorem finish_placed {nodes : List Node} (hn : Node.AllPlaced P nodes) {stack : List OpenBlock}
    (hs : ∀ b ∈ stack, b.Placed P) : Node.AllPlaced P (finish nodes stack) := by
  induction stack generalizing nodes
  case nil => exact hn
  case cons block stack ih =>
    have hb := List.forall_mem_cons.1 hs
    exact ih (hb.1.before.concat (blockNode_placed hb.1.header hn)) hb.2

theorem Placed.add (h : layout.Placed P) (hl : P line.pos) (next : Option Line) :
    Notes P (Layout.Placed P) (layout.add line next) := by
  have hc := closeTo_placed line.indent h.nodes layout.indent h.stack
  unfold Layout.add
  dsimp only
  split
  case isTrue => exact hl
  case isFalse =>
    split
    case isTrue => exact ⟨trivial, List.forall_mem_cons.2 ⟨⟨hl, hc.nodes⟩, hc.stack⟩⟩
    case isFalse =>
      have hs : Notes P (Node.Placed P) (statementNode line.text line.pos) := statementNode_notes hl
      generalize statementNode line.text line.pos = result at hs
      cases result
      case ok node     => exact ⟨hc.nodes.concat hs, hc.stack⟩
      case error fault => exact hs

end Layout

theorem assemble_notes {lines : List Line} (hl : ∀ l ∈ lines, P l.pos) {layout : Layout}
    (h : layout.Placed P) : Notes P (Node.AllPlaced P) (assemble layout lines) := by
  induction lines generalizing layout
  case nil => exact Layout.finish_placed h.nodes h.stack
  case cons line rest ih =>
    have hl := List.forall_mem_cons.1 hl
    have ha := h.add hl.1 rest.head?
    rw [assemble]
    generalize layout.add line rest.head? = result at ha
    cases result
    case ok layout   => exact ih hl.2 ha
    case error fault => exact ha

end Indented

end Dialect

namespace Text

-- What stands in the line with number `i` stands behind `i` line ends.
theorem exists_of_splitWhere {s part : List Char} {i : Nat}
    (h : (splitWhere (· == '\n') s)[i]? = some part) (hn : part ≠ []) :
    ∃ a c b, s = a ++ c :: b ∧ a.count '\n' = i := by
  induction s generalizing i part
  case nil =>
    rw [splitWhere, List.getElem?_singleton] at h
    split at h
    all_goals simp_all
  case cons d s ih =>
    rw [splitWhere] at h
    split at h
    case isTrue hd =>
      cases i
      case zero   => simp_all
      case succ i =>
        obtain ⟨a, c, b, hs, hc⟩ := ih h hn
        exact ⟨d :: a, c, b, by simp [hs], by simp_all⟩
    case isFalse hd =>
      cases i
      case zero   => exact ⟨[], d, s, rfl, rfl⟩
      case succ i =>
        have hi : (splitWhere (· == '\n') s)[i + 1]? = some part := by
          split at h
          case h_1 => simp at h
          case h_2 hw => simpa [hw] using h
        obtain ⟨a, c, b, hs, hc⟩ := ih hi hn
        exact ⟨d :: a, c, b, by simp [hs], by simp_all⟩

theorem lines_eq {s last : List Char} {init : List (List Char)}
    (h : splitWhere (· == '\n') s = init ++ [last]) :
    lines s = init.map (fun l => (dropSuffix? ['\r'] l).getD l) ++ [last].filter (· ≠ []) := by
  rw [lines, h]
  cases last
  case nil  => simp
  case cons => simp

theorem getElem?_lines {s line : List Char} {i : Nat} (h : (lines s)[i]? = some line) (hn : line ≠ []) :
    ∃ part, (splitWhere (· == '\n') s)[i]? = some part ∧ part ≠ [] := by
  have hs := (List.dropLast_concat_getLast (splitWhere_ne_nil (· == '\n') s)).symm
  generalize (splitWhere (· == '\n') s).dropLast = init, List.getLast _ _ = last at hs
  rw [lines_eq hs, List.getElem?_append, List.length_map] at h
  rw [hs, List.getElem?_append]
  split at h
  case isTrue hi =>
    rw [List.getElem?_map] at h
    obtain ⟨part, hp, he⟩ := Option.map_eq_some_iff.1 h
    rw [if_pos hi]
    refine ⟨part, hp, ?_⟩
    rintro rfl
    exact hn he.symm
  case isFalse hi =>
    rw [if_neg hi]
    by_cases hl : last = []
    case pos => simp [hl] at h
    case neg => exact ⟨line, by simpa [hl] using h, hn⟩

end Text

namespace Dialect

-- The place that a dialect notes for what stands behind `s`. Without braces the column is that in the
-- line as it is without its comments, counted in bytes.
structure Marks (d : Dialect) (pos : Position) (s : List Char) : Prop where
  line   : pos.line = (Position.start.after s).line
  column : d ≠ .stylus → pos.column = (Position.start.after s).column

-- A place that a dialect notes for a character of the text.
def MarksIn (d : Dialect) (text : List Char) (pos : Position) : Prop :=
  ∃ a c b, text = a ++ c :: b ∧ d.Marks pos a

open Dialect

theorem brace_notes {d : Dialect} (sigil : Char) (source : List Char) :
    Notes (d.MarksIn source) (Node.AllPlaced (d.MarksIn source)) (Brace.parse sigil source) := by
  refine Brace.assemble_notes (fun c hc => ?_) (by simp) trivial
  obtain ⟨a, e, b, hs, hp⟩ := Clause.ofText_places source c hc
  exact ⟨a, e, b, hs, congrArg Position.line hp, fun _ => congrArg Position.column hp⟩

theorem indented_notes (source : List Char) :
    Notes (stylus.MarksIn source) (Node.AllPlaced (stylus.MarksIn source)) (Indented.parse source) := by
  have hl : Notes (stylus.MarksIn source) (fun lines => ∀ l ∈ lines, stylus.MarksIn source l.pos)
      (Line.ofLines 1 none (Text.lines source)) := by
    refine Line.ofLines_notes (by simp) fun i l hl hn pos hp => ?_
    obtain ⟨part, hs, hn⟩ := Text.getElem?_lines hl hn
    obtain ⟨a, c, b, hs, hc⟩ := Text.exists_of_splitWhere hs hn
    refine ⟨a, c, b, hs, ?_, fun h => absurd rfl h⟩
    rw [hp, Position.line_after, hc]
    rfl
  rw [Indented.parse, Line.ofSource]
  generalize Line.ofLines 1 none (Text.lines source) = result at hl
  cases result
  case error fault => exact hl
  case ok lines =>
    refine Indented.assemble_notes (fun l hm => ?_) ⟨trivial, by simp [Indented.Layout.start]⟩
    obtain ⟨l', hm', hp⟩ := Line.joinLists_pos lines l hm
    exact hp ▸ hl l' hm'

-- All places that parsing notes, in the tree of a text or in the fault of it, are places of its
-- characters.
theorem parse_notes (d : Dialect) (source : List Char) :
    Notes (d.MarksIn source) (Node.AllPlaced (d.MarksIn source)) (d.grammar.parse source) := by
  cases d
  case sass   => exact brace_notes '$' source
  case less   => exact brace_notes '@' source
  case stylus => exact indented_notes source

end Dialect

end ScopedCss
