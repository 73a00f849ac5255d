import ScopedCss.Proofs.Dialect.Behind
import ScopedCss.Proofs.Dialect.Brace

namespace ScopedCss.Dialect

def isValueChar (c : Char) : Bool :=
  Text.isWordChar c || c == '.' || c == '%' || c == '#'

-- A global variable: an identifier, and a plain word as its value.
structure Global where
  name   : List Char
  value  : List Char
  named  : ∃ c t, name = c :: t ∧ (c.isAlpha = true ∨ c = '_') ∧ ∀ d ∈ t, Text.isWordChar d = true
  ne_nil : value ≠ []
  plain  : ∀ c ∈ value, isValueChar c = true

-- Characters that no reader cuts at where they stand in a definition.
def isSolid (c : Char) : Bool :=
  isQuiet c || c == '#'

theorem isQuiet_of_isWordChar {c : Char} (h : Text.isWordChar c = true) : isQuiet c = true := by
  simp only [Text.isWordChar, Bool.or_eq_true, beq_iff_eq] at h
  obtain (h | rfl) | rfl := h
  · simp [isQuiet, h]
  · rfl
  · rfl

theorem isSolid_of_isValueChar {c : Char} (h : isValueChar c = true) : isSolid c = true := by
  simp only [isValueChar, Bool.or_eq_true, beq_iff_eq] at h
  obtain ((h | rfl) | rfl) | rfl := h
  · simp [isSolid, isQuiet_of_isWordChar h]
  all_goals rfl

-- Characters that readers cut at, and those that mean something at the end of a text.
def cuts : List Char :=
  ['"', '\'', '/', ';', ',', '\n', '\r', '\x7b', '\x7d', '!']

theorem notMem_cuts {c : Char} (h : isSolid c = true) : c ∉ cuts := by
  have hs : ∀ d ∈ cuts, isSolid d = false := by decide
  intro hc
  simp [hs c hc] at h

namespace Global

variable (g : Global)

theorem isWordChar_name : ∀ c ∈ g.name, Text.isWordChar c = true := by
  obtain ⟨c, t, hn, hc, ht⟩ := g.named
  intro d hd
  rw [hn] at hd
  cases hd
  case head =>
    cases hc
    case inl hc => simp [Text.isWordChar, Char.isAlphanum, hc]
    case inr hc => rw [hc]; rfl
  case tail hd => exact ht d hd

theorem isWord_value : Text.IsWord g.value := by
  refine ⟨g.ne_nil, fun c hc => ?_⟩
  have hp := g.plain c hc
  simp only [isValueChar, Bool.or_eq_true, beq_iff_eq] at hp
  obtain ((hp | rfl) | rfl) | rfl := hp
  · refine not_isBlank (isQuiet_of_isWordChar hp) ?_
    rintro rfl
    cases hp
  all_goals rfl

-- Its definition as it is written in front of style sheets.
def text : List Char :=
  '$' :: g.name ++ ':' :: ' ' :: g.value

theorem isSolid_text : ∀ c ∈ g.text, isSolid c = true := by
  intro c hc
  simp only [text, List.cons_append, List.mem_cons, List.mem_append] at hc
  obtain rfl | hc | rfl | rfl | hc := hc
  · rfl
  · simp [isSolid, isQuiet_of_isWordChar (g.isWordChar_name c hc)]
  · rfl
  · rfl
  · exact isSolid_of_isValueChar (g.plain c hc)

theorem trim_text : Text.trim g.text = g.text := by
  have hs : Text.trimStart g.text = g.text := rfl
  have he : g.text = ('$' :: g.name ++ [':', ' ']) ++ g.value := by simp [text]
  rw [Text.trim, hs, he, Text.trimEnd_word _ g.isWord_value]

theorem trim_value : Text.trim (' ' :: g.value) = g.value := by
  have h := Text.trim_surrounded (v := [' ']) (w := []) g.isWord_value.trim g.ne_nil (by decide) (by simp)
  rwa [List.append_nil, List.singleton_append] at h

end Global

namespace BraceToken

theorem scan_hash {s : List Char} (hs : s.head? ≠ some '\x7b') (pos : Position) :
    scan 0 pos ('#' :: s) = ⟨.char '#', pos⟩ :: scan 0 (pos.after ['#']) s := by
  refine (scan_cons (by simp) ?_ 0 pos).trans (by simp)
  rintro t - rfl
  exact hs rfl

theorem scan_solid {c : Char} (hc : isSolid c = true) {s : List Char} (hs : s.head? ≠ some '\x7b') (pos : Position) :
    scan 0 pos (c :: s) = ⟨.char c, pos⟩ :: scan 0 (pos.after [c]) s := by
  simp only [isSolid, Bool.or_eq_true, beq_iff_eq] at hc
  obtain hc | rfl := hc
  · exact scan_char (.inl hc) pos s
  · exact scan_hash hs pos

end BraceToken

namespace Clause

theorem inside_solid {t : List Char} (ht : ∀ c ∈ t, isSolid c = true) {s : List Char} (hs : s.head? ≠ some '\x7b')
    (begun : List Char) (start pos : Position) :
    inside begun start pos (t ++ s) = inside (begun ++ t) start (pos.after t) s := by
  induction t generalizing begun pos
  case nil => simp [Position.after]
  case cons c t ih =>
    have h := List.forall_mem_cons.1 ht
    have hn : (t ++ s).head? ≠ some '\x7b' := by
      rw [List.head?_append]
      cases hd : t.head?
      case none   => simpa using hs
      case some d =>
        have hc := notMem_cuts (h.2 d (List.mem_of_head? hd))
        rintro ⟨⟩
        exact hc (by decide)
    have ih := ih h.2 (begun ++ [c]) (pos.after [c])
    rw [List.cons_append, inside, BraceToken.scan_solid h.1 hn]
    simpa [ofTokens, Piece.text, Position.after] using ih

-- The definition of a global variable is read as a statement.
theorem reading_global (g : Global) (pos : Position) (s : List Char) :
    ∃ q, reading pos (g.text ++ [';', '\n'] ++ s) = statement g.text pos :: reading q s := by
  have ht : ∀ c ∈ g.name ++ ':' :: ' ' :: g.value, isSolid c = true := fun c hc => g.isSolid_text c (.tail _ hc)
  have hi := inside_solid ht (s := ';' :: '\n' :: s) (by simp) ['$'] pos (pos.after ['$'])
  have he : g.text ++ [';', '\n'] ++ s = '$' :: ((g.name ++ ':' :: ' ' :: g.value) ++ ';' :: '\n' :: s) := by
    simp [Global.text]
  have hf : reading pos (g.text ++ [';', '\n'] ++ s) =
      inside g.text pos ((pos.after ['$']).after (g.name ++ ':' :: ' ' :: g.value)) (';' :: '\n' :: s) := by
    rw [he, reading, BraceToken.scan_char (.inl (by decide))]
    exact hi
  refine ⟨((((pos.after ['$']).after (g.name ++ ':' :: ' ' :: g.value)).after [';']).after ['\n']), hf.trans ?_⟩
  rw [inside, BraceToken.scan_cut (by decide)]
  have hn := reading_blank (w := ['\n']) (by decide)
    (((pos.after ['$']).after (g.name ++ ':' :: ' ' :: g.value)).after [';']) s
  have hne : g.text ≠ [] := List.cons_ne_nil _ _
  rw [List.singleton_append] at hn
  simp [ofTokens, ofBegun, g.trim_text, hne, hn]

end Clause

namespace Brace

theorem dropFlags_global (g : Global) : dropFlags g.value = (g.value, false) := by
  have hn : '!' ∉ g.value := fun hm => notMem_cuts (isSolid_of_isValueChar (g.plain _ hm)) (by decide)
  have hd : Text.dropSuffix? "!default".toList g.value = none :=
    Text.dropSuffix?_eq_none (c := '!') (by decide) hn
  have hg : Text.dropSuffix? "!global".toList g.value = none :=
    Text.dropSuffix?_eq_none (c := '!') (by decide) hn
  simp only [dropFlags, hd, hg]

theorem statementNode_global (g : Global) (pos : Position) :
    statementNode '$' g.text pos = .ok (.definition (.ofList g.name) (.ofList g.value) false pos) := by
  have hs : Text.dropPrefix? ['$'] g.text = some (g.name ++ ':' :: ' ' :: g.value) :=
    Text.dropPrefix?_eq_some_iff.2 (by simp [Global.text])
  have hne : g.name ≠ [] := by
    obtain ⟨c, t, hn, _⟩ := g.named
    simp [hn]
  have hd : definition? '$' g.text pos = some (.definition (.ofList g.name) (.ofList g.value) false pos) := by
    have ht := Text.takeWhile_append g.isWordChar_name (t := ':' :: ' ' :: g.value) rfl
    have hr := Text.dropWhile_append g.isWordChar_name (t := ':' :: ' ' :: g.value) rfl
    simp only [definition?, hs, Option.bind_eq_bind, Option.bind_some, ht, hr, hne, if_false]
    have hc : Text.trimStart (':' :: ' ' :: g.value) = ':' :: ' ' :: g.value := rfl
    have hv : Text.dropPrefix? [':'] (':' :: ' ' :: g.value) = some (' ' :: g.value) := rfl
    simp only [hc, hv, Option.bind_some, g.trim_value, dropFlags_global]
    rfl
  simp only [statementNode, hd]
  rfl

-- The definitions of global variables in front of a text become nodes in front of its nodes.
theorem assemble_globals (globals : List Global) (pos : Position) (s : List Char) :
    ∃ nodes q, Node.allUnplaced nodes =
        globals.map (fun g => .definition (.ofList g.name) (.ofList g.value) false .start) ∧
      ∀ before, assemble '$' [] before
          (Clause.reading pos (globals.flatMap (fun g => g.text ++ [';', '\n']) ++ s)) =
        assemble '$' [] (before ++ nodes) (Clause.reading q s) := by
  induction globals generalizing pos
  case nil => exact ⟨[], pos, rfl, by simp⟩
  case cons g globals ih =>
    obtain ⟨q, hr⟩ := Clause.reading_global g pos (globals.flatMap (fun g => g.text ++ [';', '\n']) ++ s)
    obtain ⟨nodes, q', hn, ih⟩ := ih q
    refine ⟨.definition (.ofList g.name) (.ofList g.value) false pos :: nodes, q', ?_, fun before => ?_⟩
    · simp only [Node.allUnplaced, Node.unplaced, hn, List.map_cons]
    · rw [List.flatMap_cons, List.append_assoc, hr, assemble, statementNode_global]
      dsimp only
      rw [ih, List.append_assoc, List.singleton_append]

-- A text behind the definitions of global variables is read as it is alone, but for places.
theorem parse_globals (globals : List Global) {raw : List Char} {nodes : List Node} (h : parse '$' raw = .ok nodes) :
    ∃ read, parse '$' (globals.flatMap (fun g => g.text ++ [';', '\n']) ++ '\n' :: '\n' :: raw) = .ok read ∧
      Node.allUnplaced read =
        globals.map (fun g => .definition (.ofList g.name) (.ofList g.value) false .start) ++
          Node.allUnplaced nodes := by
  obtain ⟨front, q, hf, ha⟩ := assemble_globals globals .start ('\n' :: '\n' :: raw)
  have hb := Clause.reading_blank (w := ['\n', '\n']) (by decide) q raw
  have hs := Clause.reading_same .start (q.after ['\n', '\n']) raw
  have ht : Behind front [] [] [] front := .top (by rw [List.append_nil])
  obtain ⟨read, hr, hu⟩ := assemble_behind hs ht h
  refine ⟨read, ?_, ?_⟩
  · rw [parse, Clause.ofText, ha, List.nil_append]
    exact (congrArg _ hb).trans hr
  · rw [hu, Node.allUnplaced_append, hf]

end Brace

namespace Line

theorem uncomment_plain {t : List Char} (ht : ∀ c ∈ t, c ∉ ['"', '\'', '/']) (row column : Nat) :
    uncomment row column .code t = (t, none) := by
  induction t generalizing column
  case nil => rfl
  case cons c t ih =>
    have h := List.forall_mem_cons.1 ht
    have hn := h.1
    simp only [List.mem_cons, List.not_mem_nil, or_false, not_or] at hn
    rw [uncomment.eq_def]
    simp [hn, ih h.2 (column + 1)]

variable (g : Global)

theorem mem_global {c : Char} (hc : c ∈ g.text ++ [';']) : isSolid c = true ∨ c = ';' := by
  obtain hc | hc := List.mem_append.1 hc
  · exact .inl (g.isSolid_text c hc)
  · exact .inr (List.mem_singleton.1 hc)

theorem uncomment_global (row : Nat) : uncomment row 1 .code (g.text ++ [';']) = (g.text ++ [';'], none) := by
  have hs : ['"', '\'', '/'] ⊆ cuts := by decide
  refine uncomment_plain (fun c hc hm => ?_) row 1
  obtain hc | rfl := mem_global g hc
  · exact notMem_cuts hc (hs hm)
  · simp at hm

-- The line of a definition has no semicolon any more.
theorem ofText?_global (row : Nat) : ofText? row (g.text ++ [';']) = some ⟨0, g.text, ⟨row, 1⟩⟩ := by
  have hl : Text.trimEnd (g.text ++ [';']) = g.text ++ [';'] := Text.trimEnd_word _ ⟨by simp, by decide⟩
  have hs : Text.trimStart (g.text ++ [';']) = g.text ++ [';'] := rfl
  have hd : Text.dropWhileEnd (· == ';') (g.text ++ [';']) = g.text := by
    have hn : Text.dropWhileEnd (· == ';') g.text = g.text := by
      refine dropWhileEnd_eq fun c hc => beq_eq_false_iff_ne.2 ?_
      rintro rfl
      exact notMem_cuts (g.isSolid_text _ hc) (by decide)
    have hr : Text.dropWhileEnd (· == ';') (g.text ++ [';']) = Text.dropWhileEnd (· == ';') g.text := by
      simp [Text.dropWhileEnd]
    rw [hr, hn]
  have ht : Text.trimEnd g.text = g.text := Text.trimEnd_of_trim g.trim_text (List.cons_ne_nil _ _)
  have hi : (g.text ++ [';']).takeWhile Text.isBlank = [] := rfl
  rw [ofText?, hl, hs, hi]
  split
  case h_1 h => simp at h
  case h_2 => rw [hd, ht]; rfl

-- The lines of definitions in front of other lines.
theorem ofLines_globals (globals : List Global) (row : Nat) {ls : List (List Char)} {lines : List Line}
    (h : ofLines 1 none ls = .ok lines) :
    ∃ headers lines', ofLines row none (globals.map (fun g => g.text ++ [';']) ++ [] :: [] :: ls) =
        .ok (headers ++ lines') ∧
      headers.map outline = globals.map (fun g => (0, g.text)) ∧ lines'.map outline = lines.map outline := by
  induction globals generalizing row
  case nil =>
    have hs : SamePlace none none := rfl
    obtain ⟨lines', hl, ho⟩ : ∃ lines', ofLines (row + 2) none ls = .ok lines' ∧ lines'.map outline = lines.map outline :=
      ofLines_same hs h
    refine ⟨[], lines', ?_, rfl, ho⟩
    have hb (row : Nat) : uncomment row 1 .code [] = ([], none) := rfl
    have ht (row : Nat) : ofText? row [] = none := rfl
    simp only [List.map_nil, List.nil_append, ofLines_cons, Mode.behind, hb, ht, hl]
    rfl
  case cons g globals ih =>
    obtain ⟨headers, lines', hl, hh, ho⟩ := ih (row + 1)
    refine ⟨⟨0, g.text, ⟨row, 1⟩⟩ :: headers, lines', ?_, ?_, ho⟩
    · simp only [List.map_cons, List.cons_append, ofLines_cons, Mode.behind, uncomment_global, ofText?_global, hl]
      rfl
    · rw [List.map_cons, List.map_cons, hh]
      rfl

theorem joinLists_append {front : List Line} (h : ∀ l ∈ front, l.text.getLast? ≠ some ',') (lines : List Line) :
    joinLists (front ++ lines) = front ++ joinLists lines := by
  induction front
  case nil => rfl
  case cons l front ih =>
    have hl := List.forall_mem_cons.1 h
    rw [List.cons_append, List.cons_append, joinLists, ih hl.2]
    cases front ++ joinLists lines
    case nil  => rfl
    case cons => simp [hl.1]

theorem ofSource_globals (globals : List Global) {raw : List Char} {lines : List Line}
    (h : ofSource raw = .ok lines) :
    ∃ headers lines', ofSource (globals.flatMap (fun g => g.text ++ [';', '\n']) ++ '\n' :: '\n' :: raw) =
        .ok (headers ++ lines') ∧
      headers.map outline = globals.map (fun g => (0, g.text)) ∧ lines'.map outline = lines.map outline := by
  have ht : Text.lines (globals.flatMap (fun g => g.text ++ [';', '\n']) ++ '\n' :: '\n' :: raw) =
      globals.map (fun g => g.text ++ [';']) ++ [] :: [] :: Text.lines raw := by
    induction globals
    case nil =>
      have hb (s : List Char) : Text.lines ('\n' :: s) = [] :: Text.lines s :=
        Text.lines_cons (l := []) List.not_mem_nil List.not_mem_nil s
      exact (hb _).trans (congrArg _ (hb raw))
    case cons g globals ih =>
      have hs : ['\n', '\r'] ⊆ cuts := by decide
      have hn : ∀ d ∈ ['\n', '\r'], d ∉ g.text ++ [';'] := by
        intro d hd hm
        obtain hm | rfl := mem_global g hm
        · exact notMem_cuts hm (hs hd)
        · simp at hd
      have hl := Text.lines_cons (hn _ (by simp)) (hn _ (by simp))
        (globals.flatMap (fun g => g.text ++ [';', '\n']) ++ '\n' :: '\n' :: raw)
      rw [ih] at hl
      simpa using hl
  rw [ofSource] at h ⊢
  rw [ht]
  cases hl : ofLines 1 none (Text.lines raw)
  case error =>
    rw [hl] at h
    cases h
  case ok below =>
    rw [hl] at h
    cases h
    obtain ⟨headers, below', hl', hh, ho⟩ := ofLines_globals globals 1 hl
    refine ⟨headers, joinLists below', ?_, hh, joinLists_same ho⟩
    have hn : ∀ l ∈ headers, l.text.getLast? ≠ some ',' := by
      intro l hm hc
      have hm := hh ▸ List.mem_map_of_mem (f := outline) hm
      obtain ⟨g, -, he⟩ := List.mem_map.1 hm
      have he : g.text = l.text := congrArg Prod.snd he
      rw [← he] at hc
      exact notMem_cuts (g.isSolid_text ',' (List.mem_of_getLast? hc)) (by decide)
    rw [hl', ← joinLists_append hn]
    rfl

end Line

namespace Indented

theorem statementNode_global (g : Global) (pos : Position) :
    statementNode g.text pos = .ok (.definition (.ofList ('$' :: g.name)) (.ofList g.value) false pos) := by
  have hd : definition? g.text pos = some (.definition (.ofList ('$' :: g.name)) (.ofList g.value) false pos) := by
    obtain ⟨c, t, hn, hc, ht⟩ := g.named
    have hp : ∀ c ∈ t, (Unicode.isWord c || c == '-') = true := by
      intro c hc
      have hw := ht c hc
      simp only [Text.isWordChar, Bool.or_eq_true, beq_iff_eq] at hw
      obtain (ha | rfl) | rfl := hw
      · have hl : c.toNat < 128 := Nat.lt_of_le_of_lt (toNat_of_isAlphanum ha).2 (by decide)
        rw [Unicode.isWord, if_pos hl, ha]
        rfl
      · rfl
      · rfl
    have hc' : (Unicode.isWord ':' || ':' == '-') = false := by decide
    have htake := Text.takeWhile_append hp (t := ':' :: ' ' :: g.value) hc'
    have hdrop := Text.dropWhile_append hp (t := ':' :: ' ' :: g.value) hc'
    have hv : takeVariable (c :: t ++ ':' :: ' ' :: g.value) = (c :: t, ':' :: ' ' :: g.value) := by
      simp only [takeVariable, List.cons_append, hc, if_true, htake, hdrop]
    have hs : Text.trimStart (':' :: ' ' :: g.value) = ':' :: ' ' :: g.value := rfl
    have he : g.text = '$' :: (c :: t ++ ':' :: ' ' :: g.value) := by rw [Global.text, hn]; rfl
    rw [he, hn]
    simp only [definition?, hv, hs, g.trim_value, List.cons_ne_nil, if_false]
    rfl
  simp only [statementNode, hd]
  rfl

-- The definitions of global variables become nodes of the sheet itself, if the line behind them is not
-- indented.
theorem assemble_globals {globals : List Global} {headers lines : List Line} {indent : Option Nat}
    (hh : headers.map Line.outline = globals.map (fun g => (0, g.text))) (hl : ∀ l ∈ lines.head?, l.indent = 0)
    (hi : indent = none ∨ indent = some 0) (nodes : List Node) :
    ∃ more indent', Node.allUnplaced more =
        globals.map (fun g => .definition (.ofList ('$' :: g.name)) (.ofList g.value) false .start) ∧
      (indent' = none ∨ indent' = some 0) ∧
      assemble ⟨nodes, indent, []⟩ (headers ++ lines) = assemble ⟨nodes ++ more, indent', []⟩ lines := by
  induction headers generalizing globals nodes indent
  case nil =>
    rw [List.map_nil, eq_comm, List.map_eq_nil_iff] at hh
    subst hh
    exact ⟨[], indent, rfl, hi, by simp⟩
  case cons line headers ih =>
    rw [List.map_cons, eq_comm] at hh
    obtain ⟨g, globals, rfl, ho, hh⟩ := List.map_eq_cons_iff.1 hh
    have hz : line.indent = 0 := (congrArg Prod.fst ho).symm
    have ht : line.text = g.text := (congrArg Prod.snd ho).symm
    obtain ⟨more, indent', hm, hi', ih⟩ := ih hh.symm (.inr rfl) (nodes ++
      [.definition (.ofList ('$' :: g.name)) (.ofList g.value) false line.pos])
    have hn : (headers ++ lines).head?.any (0 < ·.indent) = false := by
      have hf : ∀ l ∈ (headers ++ lines).head?, l.indent = 0 := by
        intro l hm
        cases headers
        case nil => exact hl l hm
        case cons next headers =>
          cases hm
          rw [List.map_cons] at hh
          obtain ⟨_, _, _, ho, _⟩ := List.map_eq_cons_iff.1 hh
          exact (congrArg Prod.fst ho).symm
      cases hd : (headers ++ lines).head?
      case none   => rfl
      case some l => simp [hf l hd]
    have ha : Layout.add ⟨nodes, indent, []⟩ line (headers ++ lines).head? =
        .ok ⟨nodes ++ [.definition (.ofList ('$' :: g.name)) (.ofList g.value) false line.pos], some 0, []⟩ := by
      have hb : indent.any (0 < ·) = false := by obtain rfl | rfl := hi <;> rfl
      simp only [Layout.add, Layout.closeTo, hz, hb, hn, ht, statementNode_global, Bool.false_eq_true, if_false]
      rfl
    refine ⟨.definition (.ofList ('$' :: g.name)) (.ofList g.value) false line.pos :: more, indent', ?_, hi', ?_⟩
    · simp only [Node.allUnplaced, Node.unplaced, hm, List.map_cons]
    · rw [List.cons_append, assemble, ha]
      dsimp only
      rw [ih, List.append_assoc, List.singleton_append]

theorem parse_globals (globals : List Global) {raw : List Char} {nodes : List Node} (h : parse raw = .ok nodes)
    (hr : ∀ lines, Line.ofSource raw = .ok lines → ∀ l ∈ lines.head?, l.indent = 0) :
    ∃ read, parse (globals.flatMap (fun g => g.text ++ [';', '\n']) ++ '\n' :: '\n' :: raw) = .ok read ∧
      Node.allUnplaced read =
        globals.map (fun g => .definition (.ofList ('$' :: g.name)) (.ofList g.value) false .start) ++
          Node.allUnplaced nodes := by
  unfold parse at h
  split at h
  case h_2 => cases h
  case h_1 lines hs =>
    obtain ⟨headers, lines', hs', hh, ho⟩ := Line.ofSource_globals globals hs
    have hz : ∀ l ∈ lines'.head?, l.indent = 0 := by
      intro l hm
      have hd : lines'.head?.map Line.outline = lines.head?.map Line.outline := by
        rw [← List.head?_map, ← List.head?_map, ho]
      rw [Option.mem_def.1 hm, Option.map_some, eq_comm, Option.map_eq_some_iff] at hd
      obtain ⟨first, hf, he⟩ := hd
      exact (congrArg Prod.fst he).symm.trans (hr lines hs first hf)
    obtain ⟨front, indent, hf, hi, ha⟩ := assemble_globals hh hz (.inl (rfl : none = _)) []
    have hb : Behind front .start ⟨front, indent, []⟩ := by
      refine .top (by rw [List.append_nil]) ?_
      exact hi.imp_right fun hi => ⟨rfl, hi⟩
    obtain ⟨read, hr, hu⟩ := assemble_behind ho hb h
    refine ⟨read, ?_, ?_⟩
    · rw [parse, hs']
      exact ha.trans hr
    · rw [hu, Node.allUnplaced_append, hf]

end Indented

end ScopedCss.Dialect
