import ScopedCss.Proofs.Dialect.Tree

namespace ScopedCss.Dialect

-- What a line is, apart from its place in the text.
def Line.outline (l : Line) : Nat × List Char :=
  (l.indent, l.text)

namespace Line

variable {t : List Char}

theorem ne_of_isQuiet {c : Char} (h : isQuiet c = true) :
    ∀ d ∈ ['"', '\'', '/', ';', ',', '\n', '\r'], c ≠ d := by
  have hs : ∀ d ∈ ['"', '\'', '/', ';', ',', '\n', '\r'], isQuiet d = false := by decide
  rintro d hd rfl
  simp [hs c hd] at h

theorem uncomment_quiet (ht : ∀ c ∈ t, isQuiet c = true) (row column : Nat) :
    uncomment row column .code t = (t, none) := by
  induction t generalizing column
  case nil => rfl
  case cons c t ih =>
    have hn := ne_of_isQuiet (ht c List.mem_cons_self)
    have ih := ih (fun c hc => ht c (.tail _ hc)) (column + 1)
    simp only [List.mem_cons, forall_eq_or_imp] at hn
    rw [uncomment.eq_def]
    simp [hn, ih]

theorem dropWhileEnd_eq {p : Char → Bool} (ht : ∀ c ∈ t, p c = false) : Text.dropWhileEnd p t = t := by
  cases hr : t.reverse
  case nil => simp_all [Text.dropWhileEnd]
  case cons c r =>
    have hc := ht c (List.mem_reverse.1 (hr ▸ List.mem_cons_self))
    simp [Text.dropWhileEnd, hr, hc, ← List.reverse_eq_iff.1 hr]

theorem byteLength_indentation (depth : Nat) : byteLength (indentation depth) = 2 * depth := by
  have h (n : Nat) : byteLength (.replicate n ' ') = n := by
    induction n
    case zero      => rfl
    case succ n ih =>
      have hs : " ".utf8ByteSize = 1 := rfl
      simp only [byteLength] at ih
      simp [byteLength, List.replicate_succ, ih, hs, Nat.add_comm]
  exact h _

theorem ofText?_indentation (ht : IsQuiet t) (row depth : Nat) :
    ofText? row (indentation depth ++ t) = some ⟨2 * depth, t, ⟨row, 2 * depth + 1⟩⟩ := by
  have hb : ∀ c ∈ indentation depth, Text.isBlank c = true := isBlank_of_mem_indentation depth
  have ⟨c, t', he, hc⟩ := Text.eq_cons_of_trim ht.trimmed ht.ne_nil
  have hl : Text.trimEnd (indentation depth ++ t) = indentation depth ++ t :=
    Text.trimEnd_append_of_trim ht.trimmed ht.ne_nil _
  have hs : Text.trimStart (indentation depth ++ t) = t := by
    rw [Text.trimStart_blank hb]
    simpa using Text.trimStart_of_trim ht.trimmed ht.ne_nil []
  have hi : (indentation depth ++ t).takeWhile Text.isBlank = indentation depth := by
    rw [he, Text.takeWhile_append hb (by simpa using hc)]
  have hd : Text.dropWhileEnd (· == ';') t = t := by
    refine dropWhileEnd_eq fun c hc => ?_
    simpa using ne_of_isQuiet (ht.quiet c hc) ';' (by decide)
  rw [ofText?, hl, hs, hi]
  split
  case h_1 => exact absurd rfl ht.ne_nil
  case h_2 => rw [hd, Text.trimEnd_of_trim ht.trimmed ht.ne_nil, byteLength_indentation]

-- Lines are read as they were written, each by itself.
theorem ofLines_indentation {ls : List (Nat × List Char)} (h : ∀ l ∈ ls, IsQuiet l.2) (row : Nat) :
    ∃ lines, ofLines row none (ls.map fun (depth, text) => indentation depth ++ text) = .ok lines ∧
      lines.map outline = ls.map fun (depth, text) => (2 * depth, text) := by
  induction ls generalizing row
  case nil => exact ⟨[], rfl, rfl⟩
  case cons l ls ih =>
    have hq : ∀ c ∈ indentation l.1 ++ l.2, isQuiet c = true := by
      intro c hc
      cases List.mem_append.1 hc
      case inl hc => exact List.eq_of_mem_replicate hc ▸ rfl
      case inr hc => exact (h l (by simp)).quiet c hc
    have ⟨lines, hl, ho⟩ := ih (fun l hl => h l (by simp [hl])) (row + 1)
    refine ⟨⟨2 * l.1, l.2, ⟨row, 2 * l.1 + 1⟩⟩ :: lines, ?_, by simp [outline, ho]⟩
    have ht := ofText?_indentation (h l (by simp)) row l.1
    simp only [List.map_cons, ofLines, uncomment_quiet hq, hl, ht]
    rfl

theorem joinLists_eq {lines : List Line} (h : ∀ l ∈ lines, IsQuiet l.text) : joinLists lines = lines := by
  induction lines
  case nil => rfl
  case cons l lines ih =>
    have hl : l.text.getLast? ≠ some ',' := by
      intro hl
      have hc := (h l (by simp)).quiet ',' (List.mem_of_getLast? hl)
      cases hc
    rw [joinLists, ih fun l hl => h l (by simp [hl])]
    cases lines
    case nil  => rfl
    case cons => simp [hl]

theorem ofSource_indentation {ls : List (Nat × List Char)} (h : ∀ l ∈ ls, IsQuiet l.2) :
    ∃ lines, ofSource (ls.flatMap fun (depth, text) => indentation depth ++ text ++ ['\n']) = .ok lines ∧
      lines.map outline = ls.map fun (depth, text) => (2 * depth, text) := by
  have ⟨lines, hl, ho⟩ := ofLines_indentation h 1
  have hn : ∀ t ∈ ls.map fun (depth, text) => indentation depth ++ text, '\n' ∉ t ∧ '\r' ∉ t := by
    intro t ht
    have ⟨l, hm, he⟩ := List.mem_map.1 ht
    have hb (c : Char) (hc : c ∈ indentation l.1) : c = ' ' := List.eq_of_mem_replicate hc
    have hq (c : Char) (hc : c ∈ l.2) := ne_of_isQuiet ((h l hm).quiet c hc) c
    subst he
    constructor
    all_goals
      intro hc
      cases List.mem_append.1 hc
      case inl hc => cases hb _ hc
      case inr hc => exact hq _ hc (by decide) rfl
  have ht : Text.lines (ls.flatMap fun (depth, text) => indentation depth ++ text ++ ['\n']) =
      ls.map fun (depth, text) => indentation depth ++ text := by
    simpa [List.flatMap_map] using Text.lines_flatMap hn
  have hq : ∀ l ∈ lines, IsQuiet l.text := by
    intro l hm
    have hm := ho ▸ List.mem_map_of_mem (f := outline) hm
    have ⟨p, hp, he⟩ := List.mem_map.1 hm
    have he : p.2 = l.text := congrArg Prod.snd he
    exact he ▸ h p hp
  refine ⟨lines, ?_, ho⟩
  rw [ofSource, ht, hl]
  exact congrArg Except.ok (joinLists_eq hq)

end Line

namespace Indented

namespace Layout

-- The layout with the blocks closed that a line with this indentation is not in.
def close (l : Layout) (indent : Nat) : Layout :=
  closeTo indent l.nodes l.indent l.stack

variable {l : Layout} {i j : Nat}

theorem close_close (h : i ≤ j) (l : Layout) : (l.close j).close i = l.close i := by
  simp only [close]
  generalize l.nodes = nodes, l.indent = inner
  induction l.stack generalizing nodes inner
  case nil => rfl
  case cons block stack ih =>
    by_cases hb : j ≤ block.header.indent
    case pos => simp [closeTo, hb, Nat.le_trans h hb, ih]
    case neg => simp [closeTo, hb]

theorem finish_close (l : Layout) (i : Nat) :
    finish (l.close i).nodes (l.close i).stack = finish l.nodes l.stack := by
  simp only [close]
  generalize l.nodes = nodes, l.indent = inner
  induction l.stack generalizing nodes inner
  case nil => rfl
  case cons block stack ih =>
    by_cases hb : i ≤ block.header.indent
    case pos => simp [closeTo, finish, hb, ih]
    case neg => simp [closeTo, hb]

theorem close_stack (l : Layout) (i : Nat) : ∀ b ∈ (l.close i).stack.head?, b.header.indent < i := by
  simp only [close]
  generalize l.nodes = nodes, l.indent = inner
  induction l.stack generalizing nodes inner
  case nil => simp [closeTo]
  case cons block stack ih =>
    by_cases hb : i ≤ block.header.indent
    case pos => simpa [closeTo, hb] using ih _ _
    case neg =>
      intro b hm
      simp only [closeTo, hb, if_false, List.head?_cons, Option.mem_some_iff] at hm
      exact hm ▸ Nat.not_le.1 hb

theorem closeTo_eq {stack : List OpenBlock} (h : ∀ b ∈ stack.head?, b.header.indent < i)
    (nodes : List Node) (inner : Option Nat) : closeTo i nodes inner stack = ⟨nodes, inner, stack⟩ := by
  cases stack
  case nil => rfl
  case cons block stack =>
    have hb : ¬i ≤ block.header.indent := Nat.not_le.2 (h block rfl)
    simp [closeTo, hb]

-- The layout is at this indentation: once the blocks indented deeper are closed, these are the nodes
-- of the block, and the blocks around it.
structure At (l : Layout) (indent : Nat) (nodes : List Node) (stack : List OpenBlock) : Prop where
  nodes  : (l.close indent).nodes = nodes
  stack  : (l.close indent).stack = stack
  indent : ∀ i ∈ (l.close indent).indent, i = indent

namespace At

variable {nodes : List Node} {stack : List OpenBlock} {line : Line}

theorem start : At start 0 [] [] := ⟨rfl, rfl, by simp [close, Layout.start, closeTo]⟩

theorem headers (h : At l i nodes stack) : ∀ b ∈ stack.head?, b.header.indent < i :=
  h.stack ▸ close_stack l i

-- A layout with nothing open that is deeper.
theorem of_headers (h : ∀ b ∈ stack.head?, b.header.indent < i) (nodes : List Node) {inner : Option Nat}
    (hi : ∀ j ∈ inner, j = i) : At ⟨nodes, inner, stack⟩ i nodes stack := by
  have hc : close ⟨nodes, inner, stack⟩ i = ⟨nodes, inner, stack⟩ := closeTo_eq h nodes inner
  exact ⟨by rw [hc], by rw [hc], by rwa [hc]⟩

-- A layout behind the header of a block.
theorem opened (before : List Node) (stack : List OpenBlock) (h : line.indent < i) :
    At ⟨[], none, ⟨line, before, some line.indent⟩ :: stack⟩ i []
      (⟨line, before, some line.indent⟩ :: stack) :=
  have hb : ∀ b ∈ (⟨line, before, some line.indent⟩ :: stack : List OpenBlock).head?,
      b.header.indent < i := by simp [h]
  .of_headers hb [] (by simp)

-- A block ends in front of a line that is indented no deeper than its header.
theorem outside (h : At l j nodes (⟨line, before, some line.indent⟩ :: stack)) (hj : line.indent ≤ j)
    (hs : ∀ b ∈ stack.head?, b.header.indent < line.indent) :
    At l line.indent (before ++ [blockNode line.text nodes line.pos]) stack := by
  have hc : l.close line.indent =
      ⟨before ++ [blockNode line.text nodes line.pos], some line.indent, stack⟩ := by
    rw [← close_close hj, close, h.nodes, h.stack]
    simp [closeTo, closeTo_eq hs]
  exact ⟨by rw [hc], by rw [hc], by simp [hc]⟩

theorem add_eq (h : At l line.indent nodes stack) (next : Option Line) :
    l.add line next =
      if next.any (line.indent < ·.indent) then
        .ok ⟨[], none, ⟨line, nodes, some line.indent⟩ :: stack⟩
      else
        (statementNode line.text line.pos).map fun node => ⟨nodes ++ [node], some line.indent, stack⟩ := by
  have hi : (l.close line.indent).indent.any (line.indent < ·) = false := by
    cases hi : (l.close line.indent).indent
    case none   => rfl
    case some i => simp [h.indent i hi]
  have hn := h.nodes
  have hs := h.stack
  simp only [close] at hi hn hs
  simp only [add, hi, hn, hs, Bool.false_eq_true, if_false]
  split
  case isTrue => rfl
  case isFalse =>
    cases statementNode line.text line.pos
    all_goals rfl

end At

end Layout

section

variable {s : Spelling}

theorem isPart_of_isPropertyChar {c : Char} (h : isPropertyChar c = true) :
    (Unicode.isWord c || c == '-') = true := by
  simp only [isPropertyChar, Bool.or_eq_true, beq_iff_eq] at h
  cases h
  case inr h => simp [h]
  case inl h =>
    have ha : c.isAlphanum = true := by simp [Char.isAlphanum, Char.isAlpha, h]
    have hn : c.toNat < 128 := Nat.lt_of_le_of_lt (toNat_of_isAlphanum ha).2 (by decide)
    rw [Unicode.isWord, if_pos hn, ha]
    rfl

-- A name is taken whole in front of anything that is no part of it.
theorem takeVariable_append {c d : Char} {t : List Char} (hc : c.isLower = true)
    (ht : ∀ c ∈ t, isPropertyChar c = true) (hd : (Unicode.isWord d || d == '-') = false)
    (rest : List Char) : takeVariable (c :: t ++ d :: rest) = (c :: t, d :: rest) := by
  have hp : ∀ c ∈ t, (Unicode.isWord c || c == '-') = true := fun c hc => isPart_of_isPropertyChar (ht c hc)
  have ha : c.isAlpha = true := by simp [Char.isAlpha, hc]
  have htake := Text.takeWhile_append hp (t := d :: rest) hd
  have hdrop := Text.dropWhile_append hp (t := d :: rest) hd
  simp only [takeVariable, List.cons_append, ha, true_or, if_true, htake, hdrop]

theorem definition?_declaration (property : Property) (value : Value) (pos : Position) :
    definition? (s.declaration property value) pos = none := by
  cases hp : property.text
  case nil => exact absurd hp property.ne_nil
  case cons c t =>
    have hall := property.all
    rw [hp] at hall
    have hc : isPropertyChar c = true := hall c List.mem_cons_self
    have he : s.declaration property value = c :: t ++ ':' :: ' ' :: s.value value := by
      rw [Spelling.declaration, hp]
    have ht : takeVariable (c :: t ++ ':' :: ' ' :: s.value value) =
          (c :: t, ':' :: ' ' :: s.value value) ∨
        takeVariable (c :: t ++ ':' :: ' ' :: s.value value) = ([], c :: t ++ ':' :: ' ' :: s.value value) := by
      cases hl : c.isLower
      case true  => exact .inl (takeVariable_append hl (fun c hc => hall c (.tail _ hc)) (by decide) _)
      case false =>
        have hc : c = '-' := by simpa [isPropertyChar, hl] using hc
        exact .inr (by subst hc; rfl)
    have hn : c ≠ '$' := by
      rintro rfl
      cases hc
    rw [he, definition?.eq_def]
    split
    case h_1 dollar rest heq =>
      split at heq
      case h_1 h => exact absurd (List.cons.inj h).1 hn
      case h_2 =>
        cases heq
        cases ht
        case inl ht => rw [ht]; rfl
        case inr ht => rw [ht]

theorem statementNode_declaration (property : Property) (value : Value) (pos : Position) :
    statementNode (s.declaration property value) pos =
      .ok (.declaration property.string (.ofList (s.value value)) pos) := by
  have hp : ∀ c ∈ property.text, (c == ':') = false := by
    intro c hc
    have := property.all c hc
    rw [beq_eq_false_iff_ne]
    rintro rfl
    cases this
  have hc : Text.cut? (· == ':') (s.declaration property value) =
      some (property.text, ':', ' ' :: s.value value) := Text.cut?_append hp rfl _
  have hn : isPropertyName property.text = true := by
    have hall : ∀ c ∈ property.text, (c.isAlphanum || c == '-') = true := by
      intro c hc
      have := property.all c hc
      simp only [isPropertyChar, Bool.or_eq_true] at this ⊢
      exact this.imp_left fun hl => by simp [Char.isAlphanum, Char.isAlpha, hl]
    rw [isPropertyName, List.all_eq_true.2 hall]
    simpa using property.ne_nil
  simp only [statementNode, definition?_declaration, s.atStatement?_declaration, declaration, splitProperty?,
    hc, hn, property.isWord.trim, s.trim_value, if_true]
  rfl

theorem statementNode_definition (hs : s.sign = '$') (hk : s.kept = ['$']) (name : Variable)
    (value : Value) (pos : Position) :
    statementNode (s.definition [' ', '=', ' '] name value) pos =
      .ok (.definition (s.stored name) (.ofList (s.value value)) false pos) := by
  have hd : definition? (s.definition [' ', '=', ' '] name value) pos =
      some (.definition (s.stored name) (.ofList (s.value value)) false pos) := by
    cases hn : name.text
    case nil => exact absurd hn name.ne_nil
    case cons c t =>
      have hall := name.all
      rw [hn] at hall
      have he : s.definition [' ', '=', ' '] name value =
          '$' :: (c :: t ++ ' ' :: '=' :: ' ' :: s.value value) := by
        simp [Spelling.definition, hn, hs]
      have hall' : ∀ c ∈ t, isPropertyChar c = true := fun c hc => by
        simp [isPropertyChar, hall c (.tail _ hc)]
      have ht := takeVariable_append (d := ' ') (hall c List.mem_cons_self) hall' (by decide)
        ('=' :: ' ' :: s.value value)
      have htrim : Text.trimStart (' ' :: '=' :: ' ' :: s.value value) = '=' :: ' ' :: s.value value := rfl
      have hst : s.stored name = .ofList (['$'] ++ c :: t) := by rw [Spelling.stored, hk, hn]
      rw [he, hst]
      simp only [definition?, ht, htrim, s.trim_value, true_or, if_true, List.cons_ne_nil, if_false]
      rfl
  simp only [statementNode, hd]
  rfl

theorem blockNode_selector (selector : Selector) (children : List Node) (pos : Position) :
    blockNode selector.text children pos = .rule selector.string children pos := by
  have hd : Text.dropWhileEnd (· == '\x7b') selector.text = selector.text := by
    refine Line.dropWhileEnd_eq fun c hc => ?_
    have := selector.all c hc
    rw [beq_eq_false_iff_ne]
    rintro rfl
    cases this
  rw [blockNode.eq_def]
  split
  case h_1 h => cases selector.all '@' (by simp [h])
  case h_2   => rw [hd, selector.trimmed]; rfl

theorem isQuiet_of_mem_allLines (trees : List Tree) (depth : Nat) :
    ∀ l ∈ s.allLines depth trees, IsQuiet l.2 := by
  induction trees using Tree.forest generalizing depth
  case nil => simp [Spelling.allLines]
  case declaration property value trees ih =>
    simpa [Spelling.allLines, Spelling.lines, s.isQuiet_declaration] using ih depth
  case definition name value trees ih =>
    have hd : IsQuiet (s.definition [' ', '=', ' '] name value) :=
      s.isQuiet_definition [' ', '=', ' '] (by decide) name value
    simpa [Spelling.allLines, Spelling.lines, hd] using ih depth
  case rule selector children trees ihc iht =>
    simp only [Spelling.allLines, Spelling.lines, List.cons_append, List.mem_cons, List.mem_append]
    rintro l (rfl | hl | hl)
    · exact selector.isQuiet
    · exact ihc (depth + 1) l hl
    · exact iht depth l hl

-- The first line of trees is at their level.
theorem head?_allLines {trees : List Tree} (hn : trees ≠ []) (depth : Nat) :
    ∃ text rest, s.allLines depth trees = (depth, text) :: rest := by
  cases trees
  case nil => exact absurd rfl hn
  case cons tree rest =>
    cases tree
    all_goals exact ⟨_, _, rfl⟩

-- These are the lines of the trees, wherever in the text they stand.
def AreLines (s : Spelling) (depth : Nat) (trees : List Tree) (lines : List Line) : Prop :=
  lines.map Line.outline = (s.allLines depth trees).map fun (depth, text) => (2 * depth, text)

variable {depth : Nat} {trees : List Tree} {line : Line} {lines more rest : List Line}
  {layout : Layout} {before : List Node} {stack : List OpenBlock}

namespace AreLines

theorem head (h : AreLines s depth trees lines) (hm : ∀ l ∈ more.head?, l.indent ≤ 2 * depth) :
    ∀ l ∈ (lines ++ more).head?, l.indent ≤ 2 * depth := by
  cases trees
  case nil =>
    have hl : lines = [] := by simpa [AreLines, Spelling.allLines] using h
    simpa [hl] using hm
  case cons tree trees =>
    have ⟨text, rest, hr⟩ := head?_allLines (s := s) (List.cons_ne_nil tree trees) depth
    rw [AreLines, hr] at h
    cases lines
    case nil => simp at h
    case cons l lines =>
      have hl : l.indent = 2 * depth := congrArg Prod.fst (List.cons_eq_cons.1 h).1
      simp [hl]

-- The line of a statement, and the lines behind it.
theorem statement {tree : Tree} {text : List Char} (ht : s.lines depth tree = [(depth, text)])
    (h : AreLines s depth (tree :: trees) lines) :
    ∃ line rest, lines = line :: rest ∧ line.indent = 2 * depth ∧ line.text = text ∧
      AreLines s depth trees rest := by
  simp only [AreLines, Spelling.allLines, ht, List.singleton_append, List.map_cons] at h
  have ⟨line, rest, he, ho, hr⟩ := List.map_eq_cons_iff.1 h
  exact ⟨line, rest, he, congrArg Prod.fst ho, congrArg Prod.snd ho, hr⟩

-- The header of a rule, the lines in it, and the lines behind it.
theorem rule {selector : Selector} {children : List Tree}
    (h : AreLines s depth (.rule selector children :: trees) lines) :
    ∃ line inner outer, lines = line :: (inner ++ outer) ∧ line.indent = 2 * depth ∧
      line.text = selector.text ∧ AreLines s (depth + 1) children inner ∧ AreLines s depth trees outer := by
  simp only [AreLines, Spelling.allLines, Spelling.lines, List.cons_append, List.map_cons,
    List.map_append] at h
  have ⟨line, rest, he, ho, hr⟩ := List.map_eq_cons_iff.1 h
  have ⟨inner, outer, hio, hi, ho'⟩ := List.map_eq_append_iff.1 hr
  exact ⟨line, inner, outer, hio ▸ he, congrArg Prod.fst ho, congrArg Prod.snd ho, hi, ho'⟩

theorem ne_nil (h : AreLines s depth trees lines) (hn : trees ≠ []) :
    ∃ l rest, lines = l :: rest ∧ l.indent = 2 * depth := by
  have ⟨text, rest, hr⟩ := head?_allLines (s := s) hn depth
  rw [AreLines, hr] at h
  have ⟨l, rest, he, ho, _⟩ := List.map_eq_cons_iff.1 h
  exact ⟨l, rest, he, congrArg Prod.fst ho⟩

end AreLines

theorem assemble_statement (h : layout.At line.indent before stack)
    (hr : ∀ l ∈ rest.head?, l.indent ≤ line.indent) {node : Node}
    (hs : statementNode line.text line.pos = .ok node) :
    ∃ layout', layout'.At line.indent (before ++ [node]) stack ∧
      assemble layout (line :: rest) = assemble layout' rest := by
  have hn : rest.head?.any (line.indent < ·.indent) = false := by
    cases hh : rest.head?
    case none   => rfl
    case some l => simpa using hr l hh
  have ha := h.add_eq rest.head?
  simp only [hn, hs, Bool.false_eq_true, if_false] at ha
  have h' : ∀ i ∈ some line.indent, i = line.indent := by simp
  exact ⟨_, .of_headers h.headers _ h', by rw [assemble, ha]; rfl⟩

theorem assemble_header (h : layout.At line.indent before stack) {next : Line}
    (hn : line.indent < next.indent) (rest : List Line) :
    assemble layout (line :: next :: rest) =
      assemble ⟨[], none, ⟨line, before, some line.indent⟩ :: stack⟩ (next :: rest) := by
  have ha := h.add_eq (some next)
  simp only [Option.any_some, hn, decide_true, if_true] at ha
  rw [assemble, List.head?_cons, ha]

-- The lines of trees become their nodes, in whatever block they stand and whatever follows it.
theorem assemble_allLines (hs : s.sign = '$') (hk : s.kept = ['$']) {known : List Variable}
    (hw : Tree.AllWellFormed known trees) (hl : AreLines s depth trees lines)
    (hm : ∀ l ∈ more.head?, l.indent ≤ 2 * depth) (h : layout.At (2 * depth) before stack) :
    ∃ nodes layout', Node.allUnplaced nodes = s.nodes trees ∧ layout'.At (2 * depth) (before ++ nodes) stack ∧
      assemble layout (lines ++ more) = assemble layout' more := by
  induction trees using Tree.forest generalizing known depth lines more layout before stack
  case nil =>
    have hl : lines = [] := by simpa [AreLines, Spelling.allLines] using hl
    exact ⟨[], layout, rfl, by simpa using h, by simp [hl]⟩
  case declaration property value trees ih =>
    have ⟨line, rest, he, hi, ht, hl⟩ := hl.statement rfl
    have hn := ht ▸ statementNode_declaration (s := s) property value line.pos
    have hr := hl.head hm
    have ⟨layout', h', ha⟩ := assemble_statement (hi ▸ h) (hi ▸ hr) hn
    have ⟨nodes, layout'', hu, h'', ha'⟩ := ih hw.2 hl hm (hi ▸ h')
    refine ⟨.declaration property.string (.ofList (s.value value)) line.pos :: nodes, layout'', ?_, ?_, ?_⟩
    · simp [Node.allUnplaced, Node.unplaced, Spelling.nodes, Spelling.node, hu]
    · simpa using h''
    · rw [he, List.cons_append, ha, ha']
  case definition name value trees ih =>
    have ⟨line, rest, he, hi, ht, hl⟩ := hl.statement rfl
    have hn := ht ▸ statementNode_definition hs hk name value line.pos
    have hr := hl.head hm
    have ⟨layout', h', ha⟩ := assemble_statement (hi ▸ h) (hi ▸ hr) hn
    have ⟨nodes, layout'', hu, h'', ha'⟩ := ih hw.2 hl hm (hi ▸ h')
    refine ⟨.definition (s.stored name) (.ofList (s.value value)) false line.pos :: nodes, layout'', ?_, ?_, ?_⟩
    · simp [Node.allUnplaced, Node.unplaced, Spelling.nodes, Spelling.node, hu]
    · simpa using h''
    · rw [he, List.cons_append, ha, ha']
  case rule selector children trees ihc iht =>
    have ⟨⟨hc, hwc⟩, hwt⟩ := hw
    have ⟨line, inner, outer, he, hi, ht, hli, hlo⟩ := hl.rule
    have ⟨first, others, hf, hfi⟩ := hli.ne_nil hc
    -- The children open a block, which ends in front of the lines behind it.
    have hd : line.indent < 2 * (depth + 1) := by omega
    have hr : ∀ l ∈ (outer ++ more).head?, l.indent ≤ 2 * (depth + 1) := fun l hl =>
      Nat.le_trans (hlo.head hm l hl) (by omega)
    have ⟨nodes, layout', hu, h', ha⟩ := ihc hwc hli hr (.opened before stack hd)
    have h' := Layout.At.outside h' (Nat.le_of_lt hd) (hi ▸ h.headers)
    have ⟨nodes', layout'', hu', h'', ha'⟩ := iht hwt hlo hm (hi ▸ h')
    refine ⟨.rule selector.string nodes line.pos :: nodes', layout'', ?_, ?_, ?_⟩
    · simp [Node.allUnplaced, Node.unplaced, Spelling.nodes, Spelling.node, hu, hu']
    · simpa [ht, blockNode_selector] using h''
    · have ho := assemble_header (hi ▸ h) (hfi ▸ hd) (others ++ (outer ++ more))
      rw [← ha', ← ha, hf, he, hf]
      simpa using ho

end

-- Style sheets without braces are read as the trees that they were written for.
theorem parse_indented {s : Spelling} (hs : s.sign = '$') (hk : s.kept = ['$']) {known : List Variable}
    {trees : List Tree} (hw : Tree.AllWellFormed known trees) :
    ∃ nodes, parse (s.indented trees) = .ok nodes ∧ Node.allUnplaced nodes = s.nodes trees := by
  have ⟨lines, hl, ho⟩ := Line.ofSource_indentation (isQuiet_of_mem_allLines (s := s) trees 0)
  have hm : ∀ l ∈ ([] : List Line).head?, l.indent ≤ 2 * 0 := by simp
  have ⟨nodes, layout, hu, h, ha⟩ := assemble_allLines hs hk hw ho hm Layout.At.start
  refine ⟨nodes, ?_, hu⟩
  have hf := Layout.finish_close layout 0
  have hn := h.nodes
  have hst := h.stack
  simp only [List.append_nil, List.nil_append, Nat.mul_zero] at ha hn hst
  rw [hn, hst] at hf
  rw [parse, Spelling.indented, hl]
  simp only [ha, assemble, ← hf, Layout.finish]
  rfl

end Indented

end ScopedCss.Dialect
