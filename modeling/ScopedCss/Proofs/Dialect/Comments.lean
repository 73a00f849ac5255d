import ScopedCss.Proofs.Dialect.Beginnings

namespace ScopedCss

namespace Text

-- Every line of the text ends in it.
def WholeLines (s : List Char) : Prop :=
  ∀ c ∈ s.getLast?, c = '\n'

theorem lines_append {above : List Char} (h : WholeLines above) (s : List Char) :
    lines (above ++ s) = lines above ++ lines s := by
  rcases List.eq_nil_or_concat above with rfl | ⟨a, c, rfl⟩
  case inl => rfl
  case inr =>
    obtain rfl : c = '\n' := h c (by simp)
    have hs := (List.dropLast_append_getLast (splitWhere_ne_nil (· == '\n') s)).symm
    have he (t : List Char) : splitWhere (· == '\n') (a ++ '\n' :: t) =
        splitWhere (· == '\n') a ++ splitWhere (· == '\n') t := splitWhere_append_sep rfl a t
    have hl : splitWhere (· == '\n') (a ++ ['\n']) = splitWhere (· == '\n') a ++ [[]] := he []
    have ha := he s
    rw [hs, ← List.append_assoc] at ha
    rw [List.concat_eq_append, List.append_assoc, List.singleton_append, lines_eq ha, lines_eq hl, lines_eq hs]
    simp

theorem splitWhere_behind {p : Char → Bool} {s t w : List Char} {ws : List (List Char)}
    (hs : splitWhere p s = w :: ws) (ht : ∀ c ∈ t, p c = false) : splitWhere p (t ++ s) = (t ++ w) :: ws := by
  induction t
  case nil => exact hs
  case cons c t ih =>
    obtain ⟨hc, ht⟩ := List.forall_mem_cons.1 ht
    rw [List.cons_append, splitWhere, if_neg (by simp [hc]), ih ht]
    rfl

theorem dropSuffix?_concat (s : List Char) (c d : Char) :
    dropSuffix? [c] (s ++ [d]) = if c = d then some s else none := by
  simp only [dropSuffix?, List.reverse_singleton, List.reverse_append, List.singleton_append, dropPrefix?]
  split <;> simp

-- The first line of a text goes on behind what is put in front of the text.
theorem exists_lines {c : Char} (hn : c ≠ '\n') (hr : c ≠ '\r') (s : List Char) :
    ∃ l ls, ∀ t, '\n' ∉ t → lines (t ++ c :: s) = (t ++ c :: l) :: ls := by
  obtain ⟨w, ws, hw⟩ := List.exists_cons_of_ne_nil (splitWhere_ne_nil (· == '\n') s)
  have hs : splitWhere (· == '\n') (c :: s) = (c :: w) :: ws := by
    rw [splitWhere, if_neg (by simpa using hn), hw]
  have hsplit (t : List Char) (ht : '\n' ∉ t) : splitWhere (· == '\n') (t ++ c :: s) = (t ++ c :: w) :: ws :=
    splitWhere_behind hs fun d hd => by
      rw [beq_eq_false_iff_ne]
      rintro rfl
      exact ht hd
  rcases List.eq_nil_or_concat ws with rfl | ⟨init, last, rfl⟩
  case inl =>
    refine ⟨w, [], fun t ht => ?_⟩
    have hs : splitWhere (· == '\n') (t ++ c :: s) = [] ++ [t ++ c :: w] := hsplit t ht
    rw [lines_eq hs]
    simp
  case inr =>
    refine ⟨(dropSuffix? ['\r'] w).getD w,
      init.map (fun l => (dropSuffix? ['\r'] l).getD l) ++ [last].filter (· ≠ []), fun t ht => ?_⟩
    have hl : (dropSuffix? ['\r'] (t ++ c :: w)).getD (t ++ c :: w) = t ++ c :: (dropSuffix? ['\r'] w).getD w := by
      rcases List.eq_nil_or_concat w with rfl | ⟨w, d, rfl⟩
      case inl =>
        rw [dropSuffix?_concat, if_neg (Ne.symm hr)]
        rfl
      case inr =>
        rw [List.concat_eq_append, ← List.cons_append, ← List.append_assoc, dropSuffix?_concat, dropSuffix?_concat]
        split <;> simp
    have hs : splitWhere (· == '\n') (t ++ c :: s) = (t ++ c :: w) :: init ++ [last] := by simpa using hsplit t ht
    rw [lines_eq hs, List.map_cons, hl, List.cons_append]

end Text

namespace Dialect

namespace Line

variable {row column : Nat} {w t body : List Char}

theorem uncomment_blank (hw : ∀ c ∈ w, Text.isBlank c = true) (row column : Nat) (s : List Char) :
    uncomment row column .code (w ++ s) =
      (w ++ (uncomment row (column + w.length) .code s).1, (uncomment row (column + w.length) .code s).2) := by
  induction w generalizing column
  case nil => rfl
  case cons c w ih =>
    obtain ⟨hc, hw⟩ := List.forall_mem_cons.1 hw
    have hn : ∀ d ∈ ['"', '\'', '/'], c ≠ d := by
      have hs : ∀ d ∈ ['"', '\'', '/'], Text.isBlank d = false := by decide
      rintro d hd rfl
      rw [hs c hd] at hc
      cases hc
    simp only [List.mem_cons, forall_eq_or_imp] at hn
    rw [List.cons_append, uncomment.eq_def]
    simp [hn, ih hw, Nat.add_assoc, Nat.add_comm 1]

-- Behind a comment the text goes on as if it were not there, at the same column.
theorem uncomment_comment (hb : Text.IsBody body) (row column : Nat) (s : List Char) :
    uncomment row column .code (Scoping.comment body ++ s) = uncomment row column .code s := by
  have hbody (pos : Position) : uncomment row column (.comment pos) (body ++ '*' :: '/' :: s) =
      uncomment row column .code s := by
    induction body
    case nil => rfl
    case cons c body ih =>
      rw [List.cons_append, uncomment.eq_def]
      dsimp only
      split
      case isFalse => exact ih hb.tail
      case isTrue hc =>
        split
        case h_1 rest he => exact absurd (by rw [hc, he]) (hb.open s rest)
        case h_2 => exact ih hb.tail
  rw [Scoping.comment_append]
  exact hbody ⟨row, column⟩

-- The line behind so many bytes of white space.
def indented (n : Nat) (l : Line) : Line :=
  ⟨n + l.indent, l.text, ⟨l.pos.line, n + l.pos.column⟩⟩

theorem indented_indented (n m : Nat) (l : Line) : (l.indented m).indented n = l.indented (n + m) := by
  simp only [indented, Nat.add_assoc]

theorem byteLength_append (s t : List Char) : byteLength (s ++ t) = byteLength s + byteLength t := by
  simp only [byteLength, String.ofList_append, String.utf8ByteSize_append]

theorem ofText?_indented (hw : ∀ c ∈ w, Text.isBlank c = true) (row : Nat) (t : List Char) :
    ofText? row (w ++ t) = (ofText? row t).map (indented (byteLength w)) := by
  have hw' : ∀ c ∈ w.reverse, Text.isBlank c = true := by simpa using hw
  cases ht : t.reverse.dropWhile Text.isBlank
  case nil =>
    have hn : Text.trimEnd t = [] := by simp [Text.trimEnd, Text.dropWhileEnd, ht]
    have hwn : Text.trimEnd (w ++ t) = [] := by
      simp [Text.trimEnd, Text.dropWhileEnd, List.dropWhile_append, ht, List.dropWhile_eq_nil_iff.2 hw']
    rw [ofText?, ofText?, hn, hwn]
    rfl
  case cons c r =>
    have hwt : Text.trimEnd (w ++ t) = w ++ Text.trimEnd t := by
      simp [Text.trimEnd, Text.dropWhileEnd, List.dropWhile_append, ht]
    have htake : (w ++ Text.trimEnd t).takeWhile Text.isBlank = w ++ (Text.trimEnd t).takeWhile Text.isBlank :=
      List.takeWhile_append_of_pos hw
    rw [ofText?, ofText?, hwt, Text.trimStart_blank hw, htake, byteLength_append]
    dsimp only
    split
    case h_1 => rfl
    case h_2 => simp [indented, Nat.add_assoc]

theorem ofLines_append {opened : Option Position} {ls : List (List Char)} {front : List Line}
    (h : ofLines row opened ls = .ok front) (more : List (List Char)) :
    ofLines row opened (ls ++ more) = (ofLines (row + ls.length) none more).map (front ++ ·) := by
  induction ls generalizing row opened front
  case nil =>
    cases opened
    case some => cases h
    case none =>
      cases h
      rw [List.nil_append, List.length_nil, Nat.add_zero]
      cases ofLines row none more <;> rfl
  case cons line rest ih =>
    rw [ofLines_cons] at h
    rw [List.cons_append, ofLines_cons]
    cases hl : ofLines (row + 1) (uncomment row 1 (.behind opened) line).2 rest
    case error =>
      rw [hl] at h
      cases h
    case ok below =>
      rw [hl] at h
      cases h
      rw [ih hl, List.length_cons, Nat.add_right_comm, Nat.add_assoc]
      cases ofLines (row + (rest.length + 1)) none more
      case error => rfl
      case ok    => simp [Except.map]

-- A space behind the indentation moves the line of its row, if there is one, and no other.
theorem ofLines_space (hw : ∀ c ∈ w, Text.isBlank c = true) {text : List Char} {ls : List (List Char)}
    {lines : List Line} (h : ofLines row none ((w ++ text) :: ls) = .ok lines) :
    ∃ (own : Option Line) (below lines' : List Line),
      lines = own.toList ++ below ∧ ofLines row none ((w ++ ' ' :: text) :: ls) = .ok lines' ∧
      lines'.map outline = ((own.map (indented 1)).toList ++ below).map outline := by
  have hws : ∀ c ∈ w ++ [' '], Text.isBlank c = true :=
    List.forall_mem_append.2 ⟨hw, List.forall_mem_singleton.2 rfl⟩
  obtain ⟨ht, ho⟩ := uncomment_same .code row row (1 + w.length) (1 + (w ++ [' ']).length) text
  have he : w ++ ' ' :: text = w ++ [' '] ++ text := by simp
  rw [ofLines_cons, Mode.behind, uncomment_blank hw] at h
  rw [he, ofLines_cons, Mode.behind, uncomment_blank hws, ht]
  dsimp only at h ⊢
  cases hl : ofLines (row + 1) (uncomment row (1 + w.length) .code text).2 ls
  case error =>
    rw [hl] at h
    cases h
  case ok below =>
    rw [hl] at h
    cases h
    obtain ⟨below', hl', hs⟩ : ∃ below', ofLines (row + 1) _ ls = .ok below' ∧ _ := ofLines_same ho hl
    refine ⟨_, below, _, rfl, congrArg _ hl', ?_⟩
    have hi : indented (byteLength (w ++ [' '])) = indented 1 ∘ indented (byteLength w) := by
      funext l
      rw [Function.comp, indented_indented, byteLength_append, Nat.add_comm]
      rfl
    rw [ofText?_indented hw, ofText?_indented hws, Option.map_map, ← hi, List.map_append, List.map_append, hs]

theorem joinLists_cons (line : Line) (rest : List Line) :
    ∃ first tail, joinLists (line :: rest) = first :: tail ∧ first.indent = line.indent ∧
      (tail = joinLists rest ∨ ∃ next, joinLists rest = next :: tail ∧ next.indent = line.indent) := by
  rw [joinLists]
  split
  case h_1 next more hr =>
    split
    case isTrue h  => exact ⟨_, more, rfl, rfl, .inr ⟨next, hr, h.2⟩⟩
    case isFalse h => exact ⟨line, next :: more, rfl, rfl, .inl hr.symm⟩
  case h_2 hr => exact ⟨line, [], rfl, rfl, .inl hr.symm⟩

theorem joinLists_mem (lines : List Line) : ∀ l ∈ joinLists lines, ∃ l' ∈ lines, l'.indent = l.indent := by
  induction lines
  case nil => simp [joinLists]
  case cons line rest ih =>
    obtain ⟨first, tail, he, hf, ht⟩ := joinLists_cons line rest
    have htail : ∀ l ∈ tail, l ∈ joinLists rest := by
      rcases ht with rfl | ⟨next, hn, _⟩
      · exact fun l hl => hl
      · exact fun l hl => hn ▸ List.mem_cons_of_mem next hl
    intro l hl
    rw [he] at hl
    cases hl
    case head    => exact ⟨line, List.mem_cons_self, hf.symm⟩
    case tail hl => exact (ih l (htail l hl)).imp fun _ => And.imp_left (List.mem_cons_of_mem _)

theorem joinLists_head? (lines : List Line) : (joinLists lines).head?.map indent = lines.head?.map indent := by
  cases lines
  case nil => rfl
  case cons line rest =>
    obtain ⟨first, tail, he, hf, _⟩ := joinLists_cons line rest
    rw [he]
    exact congrArg some hf

theorem joinLists_getLast? (lines : List Line) : (joinLists lines).getLast?.map indent = lines.getLast?.map indent := by
  induction lines
  case nil => rfl
  case cons line rest ih =>
    obtain ⟨first, tail, he, hf, ht⟩ := joinLists_cons line rest
    rw [he, List.getLast?_cons, List.getLast?_cons]
    rcases ht with rfl | ⟨next, hn, hi⟩
    case inl =>
      revert ih
      cases (joinLists rest).getLast? <;> cases rest.getLast? <;> simp [hf]
    case inr =>
      rw [hn, List.getLast?_cons] at ih
      revert ih
      cases tail.getLast? <;> cases rest.getLast? <;> simp [hf, hi]

-- Lists do not go on where the indentation changes.
theorem joinLists_append_of_indent {a b : List Line} (h : ∀ x ∈ a.getLast?, ∀ y ∈ b.head?, y.indent ≠ x.indent) :
    joinLists (a ++ b) = joinLists a ++ joinLists b := by
  induction a
  case nil => rfl
  case cons x rest ih =>
    cases rest
    case nil =>
      have hh := joinLists_head? b
      rw [List.singleton_append, joinLists]
      split
      case h_2 hb => rw [hb]; rfl
      case h_1 next more hb =>
        rw [hb] at hh ⊢
        have hn : next.indent ≠ x.indent := by
          cases b
          case nil      => cases hh
          case cons y b => exact Option.some.inj hh ▸ h x rfl y rfl
        rw [if_neg fun hj => hn hj.2]
        rfl
    case cons y rest =>
      have ih := ih fun z hz => h z (by rwa [List.getLast?_cons_cons])
      obtain ⟨first, tail, hr, _⟩ := joinLists_cons y rest
      rw [List.cons_append, joinLists, ih, joinLists.eq_2 x (y :: rest), hr]
      dsimp only [List.cons_append]
      split <;> rfl

-- A line that is alone in its block, with the lines nested in it: there is none at its own indentation,
-- and none of the nested ones is at the next column.
structure Alone (front : List Line) (line : Line) (inner outer : List Line) : Prop where
  opens : ∀ l ∈ front.getLast?, l.indent < line.indent
  inner : ∀ l ∈ inner, line.indent + 1 < l.indent
  outer : ∀ l ∈ outer.head?, ∃ m ∈ front.getLast?, l.indent ≤ m.indent

namespace Alone

variable {front inner outer : List Line} {line line' : Line}

theorem joined (h : Alone front line inner outer) :
    Alone (joinLists front) line (joinLists inner) (joinLists outer) where
  opens := by
    intro l hl
    have hf := joinLists_getLast? front
    rw [Option.mem_def.1 hl] at hf
    obtain ⟨m, hm, hi⟩ := Option.map_eq_some_iff.1 hf.symm
    exact hi ▸ h.opens m hm
  inner := by
    intro l hl
    obtain ⟨m, hm, hi⟩ := joinLists_mem inner l hl
    exact hi ▸ h.inner m hm
  outer := by
    intro l hl
    have ho := joinLists_head? outer
    rw [Option.mem_def.1 hl] at ho
    obtain ⟨m, hm, hi⟩ := Option.map_eq_some_iff.1 ho.symm
    obtain ⟨f, hf, hle⟩ := h.outer m hm
    have hj := joinLists_getLast? front
    rw [Option.mem_def.1 hf] at hj
    obtain ⟨g, hg, he⟩ := Option.map_eq_some_iff.1 hj
    exact ⟨g, hg, by omega⟩

-- Such a line, and also one at the next column, goes on in no other and ends none.
theorem joinLists_eq (h : Alone front line inner outer)
    (hi : line.indent ≤ line'.indent) (hi' : line'.indent ≤ line.indent + 1) :
    joinLists (front ++ line' :: (inner ++ outer)) =
      joinLists front ++ line' :: (joinLists inner ++ joinLists outer) := by
  have hd (l : Line) (hl : l ∈ outer.head?) : l.indent < line.indent := by
    obtain ⟨m, hm, hle⟩ := h.outer l hl
    exact Nat.lt_of_le_of_lt hle (h.opens m hm)
  have hio : joinLists (inner ++ outer) = joinLists inner ++ joinLists outer := by
    refine joinLists_append_of_indent fun x hx y hy => ?_
    have hx := h.inner x (List.mem_of_getLast? hx)
    have hy := hd y hy
    omega
  have hlio : joinLists ([line'] ++ (inner ++ outer)) = joinLists [line'] ++ joinLists (inner ++ outer) := by
    refine joinLists_append_of_indent fun x hx y hy => ?_
    obtain rfl : line' = x := Option.some.inj hx
    rw [List.head?_append, Option.mem_def, Option.or_eq_some_iff] at hy
    rcases hy with hy | ⟨_, hy⟩
    case inl =>
      have hy := h.inner y (List.mem_of_head? hy)
      omega
    case inr =>
      have hy := hd y hy
      omega
  have hf : joinLists (front ++ line' :: (inner ++ outer)) =
      joinLists front ++ joinLists (line' :: (inner ++ outer)) := by
    refine joinLists_append_of_indent fun x hx y hy => ?_
    obtain rfl : line' = y := Option.some.inj hy
    have hx := h.opens x hx
    omega
  rw [hf, ← List.singleton_append, hlio, hio]
  rfl

end Alone

end Line

namespace Indented

namespace Layout

variable {layout : Layout} {line line' : Line} {i : Nat} {stack base : List OpenBlock}

-- Adds lines that stand in front of `next`.
def addAll (layout : Layout) (next : Option Line) : List Line → Except FaultAt Layout
  | []           => pure layout
  | line :: rest => do
    let layout ← layout.add line (rest.head?.or next)
    layout.addAll next rest

theorem bind_eq_ok_iff {x : Except FaultAt α} {f : α → Except FaultAt β} {b : β} :
    x >>= f = .ok b ↔ ∃ a, x = .ok a ∧ f a = .ok b := by
  constructor
  case mp =>
    intro h
    cases x
    case error => cases h
    case ok a  => exact ⟨a, rfl, h⟩
  case mpr =>
    rintro ⟨a, rfl, h⟩
    exact h

theorem assemble_append (layout : Layout) (lines more : List Line) :
    assemble layout (lines ++ more) = layout.addAll more.head? lines >>= (assemble · more) := by
  induction lines generalizing layout
  case nil => rfl
  case cons line rest ih =>
    rw [List.cons_append, assemble, List.head?_append, addAll]
    cases layout.add line (rest.head?.or more.head?)
    case error => rfl
    case ok    => exact ih _

theorem addAll_concat (layout : Layout) (next : Option Line) (lines : List Line) (last : Line) :
    layout.addAll next (lines ++ [last]) = layout.addAll (some last) lines >>= (·.add last next) := by
  induction lines generalizing layout
  case nil =>
    simp only [List.nil_append, addAll, List.head?_nil, Option.none_or, pure_bind]
    cases layout.add last next <;> rfl
  case cons line rest ih =>
    have hh : (rest ++ [last]).head?.or next = rest.head?.or (some last) := by cases rest <;> rfl
    rw [List.cons_append, addAll, hh, addAll]
    cases layout.add line (rest.head?.or (some last))
    case error => rfl
    case ok    => exact ih _

-- The lines in front of one that is indented deeper than the last, whichever this is, end with a block
-- that it stands in.
theorem addAll_front {front : List Line} (h : ∀ l ∈ front.getLast?, l.indent < line.indent) {opened : Layout}
    (hr : start.addAll (some line) front = .ok opened) :
    ∃ stack, opened = ⟨[], none, stack⟩ ∧ stack.head?.map OpenBlock.header = front.getLast? ∧
      ∀ line' : Line, line.indent ≤ line'.indent → start.addAll (some line') front = .ok ⟨[], none, stack⟩ := by
  rcases List.eq_nil_or_concat front with rfl | ⟨init, last, rfl⟩
  case inl =>
    cases hr
    exact ⟨[], rfl, rfl, fun _ _ => rfl⟩
  case inr =>
    rw [List.concat_eq_append, addAll_concat] at hr
    obtain ⟨layout, hi, ha⟩ := bind_eq_ok_iff.1 hr
    have hl : last.indent < line.indent := h last (by simp)
    have hopen (line' : Line) (hl : last.indent < line'.indent) : layout.add last (some line') =
        if (layout.close last.indent).indent.any (last.indent < ·) then
          throw ⟨.inconsistentIndentation, last.pos⟩
        else
          pure ⟨[], none,
            ⟨last, (layout.close last.indent).nodes, some last.indent⟩ :: (layout.close last.indent).stack⟩ := by
      have hd : (some line').any (last.indent < ·.indent) = true := by simpa using hl
      rw [add, hd]
      rfl
    rw [hopen line hl] at ha
    split at ha
    case isTrue => cases ha
    case isFalse hc =>
      cases ha
      refine ⟨_, rfl, by simp, fun line' hle => ?_⟩
      rw [List.concat_eq_append, addAll_concat, hi]
      exact (hopen line' (Nat.lt_of_lt_of_le hl hle)).trans (if_neg hc)

-- The layout inside other blocks.
def within (layout : Layout) (base : List OpenBlock) : Layout :=
  { layout with stack := layout.stack ++ base }

theorem closeTo_within (h : ∀ b ∈ base.head?, b.header.indent < i) (nodes : List Node) (inner : Option Nat)
    (stack : List OpenBlock) : closeTo i nodes inner (stack ++ base) = (closeTo i nodes inner stack).within base := by
  induction stack generalizing nodes inner
  case nil => exact closeTo_eq h nodes inner
  case cons block stack ih =>
    rw [List.cons_append, closeTo, closeTo]
    split
    case isTrue  => exact ih ..
    case isFalse => rfl

theorem add_within (h : ∀ b ∈ base.head?, b.header.indent < line.indent) (layout : Layout) (next : Option Line) :
    (layout.within base).add line next = (layout.add line next).map (·.within base) := by
  unfold add
  rw [within, closeTo_within h]
  dsimp only [within]
  generalize closeTo line.indent layout.nodes layout.indent layout.stack = here
  split
  case isTrue => rfl
  case isFalse =>
    split
    case isTrue => rfl
    case isFalse =>
      cases statementNode line.text line.pos <;> rfl

-- Lines that are indented deeper than the header of a block do not end it.
theorem addAll_within {lines : List Line} (h : ∀ l ∈ lines, ∀ b ∈ base.head?, b.header.indent < l.indent)
    (layout : Layout) (next : Option Line) :
    (layout.within base).addAll next lines = (layout.addAll next lines).map (·.within base) := by
  induction lines generalizing layout
  case nil => rfl
  case cons line rest ih =>
    obtain ⟨hl, hr⟩ := List.forall_mem_cons.1 h
    rw [addAll, addAll, add_within hl]
    cases layout.add line (rest.head?.or next)
    case error => rfl
    case ok    => exact ih hr _

theorem closeTo_headers {P : Line → Prop} (hs : ∀ b ∈ stack, P b.header) (nodes : List Node) (inner : Option Nat) :
    ∀ b ∈ (closeTo i nodes inner stack).stack, P b.header := by
  induction stack generalizing nodes inner
  case nil => exact hs
  case cons block stack ih =>
    rw [closeTo]
    split
    case isTrue  => exact ih (List.forall_mem_cons.1 hs).2 _ _
    case isFalse => exact hs

-- The headers of the open blocks are among the lines.
theorem addAll_headers {P : Line → Prop} {lines : List Line} (hl : ∀ l ∈ lines, P l)
    (hs : ∀ b ∈ layout.stack, P b.header) {next : Option Line} {after : Layout}
    (h : layout.addAll next lines = .ok after) : ∀ b ∈ after.stack, P b.header := by
  induction lines generalizing layout
  case nil =>
    cases h
    exact hs
  case cons line rest ih =>
    obtain ⟨hp, hl⟩ := List.forall_mem_cons.1 hl
    obtain ⟨added, ha, h⟩ := bind_eq_ok_iff.1 h
    refine ih hl ?_ h
    have hc := closeTo_headers (i := line.indent) hs layout.nodes layout.indent
    unfold add at ha
    dsimp only at ha
    split at ha
    case isTrue => cases ha
    case isFalse =>
      split at ha
      case isTrue =>
        cases ha
        exact List.forall_mem_cons.2 ⟨hp, hc⟩
      case isFalse =>
        obtain ⟨node, _, ha⟩ := bind_eq_ok_iff.1 ha
        cases ha
        exact hc

theorem close_within (h : ∀ b ∈ layout.stack, i ≤ b.header.indent) (base : List OpenBlock) :
    ∃ inner, (layout.within base).close i = closeTo i (finish layout.nodes layout.stack) inner base := by
  obtain ⟨nodes, indent, stack⟩ := layout
  simp only [close, within]
  induction stack generalizing nodes indent
  case nil => exact ⟨indent, rfl⟩
  case cons block stack ih =>
    obtain ⟨hb, hs⟩ := List.forall_mem_cons.1 h
    rw [List.cons_append, closeTo, if_pos hb]
    exact ih _ _ hs

-- The node of a line, with the lines nested in it.
def lineNode (line : Line) (next : Option Line) (inner : List Line) : Except FaultAt Node :=
  if inner = [] then
    statementNode line.text line.pos
  else
    (start.addAll next inner).map fun layout =>
      blockNode line.text (finish layout.nodes layout.stack) line.pos

theorem lineNode_same (ht : line'.text = line.text) {next : Option Line} {inner : List Line} {node : Node}
    (h : lineNode line next inner = .ok node) :
    ∃ node', lineNode line' next inner = .ok node' ∧ node'.unplaced = node.unplaced := by
  unfold lineNode at h ⊢
  rw [ht]
  split at h
  case isTrue hi =>
    rw [if_pos hi]
    exact Reading.exists_of_moved (statementNode_moved _ _) (statementNode_moved _ _) h
  case isFalse hi =>
    rw [if_neg hi]
    cases hr : start.addAll next inner
    case error =>
      rw [hr] at h
      cases h
    case ok layout =>
      rw [hr] at h
      cases h
      exact ⟨_, rfl, blockNode_same _ _ _ rfl⟩

-- Lines are read in front of these blocks as this node: it is left when what is nested in it is closed.
inductive ReadsAs (stack : List OpenBlock) (indent : Nat) : Except FaultAt Layout → Except FaultAt Node → Prop
  | ok {after : Layout} {node : Node} : (∀ i ≤ indent, after.close i = closeTo i [node] (some indent) stack) →
    ReadsAs stack indent (.ok after) (.ok node)
  | error (fault : FaultAt) : ReadsAs stack indent (.error fault) (.error fault)

-- A line at the beginning of a block is read together with the lines nested in it.
theorem addAll_line (hs : ∀ b ∈ stack.head?, b.header.indent < line.indent) {inner : List Line}
    (hi : ∀ l ∈ inner, line.indent < l.indent) {next : Option Line} (hn : ∀ l ∈ next, l.indent ≤ line.indent) :
    ReadsAs stack line.indent (addAll ⟨[], none, stack⟩ next (line :: inner)) (lineNode line next inner) := by
  have hat : At ⟨[], none, stack⟩ line.indent [] stack := .of_headers hs [] (by simp)
  rw [addAll, hat.add_eq]
  cases inner
  case nil =>
    have hd : next.any (line.indent < ·.indent) = false := by
      cases next
      case none   => rfl
      case some l => simpa using hn l rfl
    rw [List.head?_nil, Option.none_or, hd, lineNode, if_pos rfl]
    cases statementNode line.text line.pos
    case error fault => exact .error fault
    case ok node     => exact .ok fun i _ => rfl
  case cons l inner =>
    have hd : (some l).any (line.indent < ·.indent) = true := by simpa using hi l List.mem_cons_self
    have hb : ∀ m ∈ l :: inner, ∀ b ∈ (⟨line, [], some line.indent⟩ :: stack : List OpenBlock).head?,
        b.header.indent < m.indent := fun m hm b hb => Option.some.inj hb ▸ hi m hm
    rw [List.head?_cons, Option.some_or, hd, if_pos rfl, lineNode, if_neg (List.cons_ne_nil _ _)]
    change ReadsAs stack line.indent ((start.within (⟨line, [], some line.indent⟩ :: stack)).addAll next (l :: inner)) _
    rw [addAll_within hb]
    cases hr : start.addAll next (l :: inner)
    case error fault => exact .error fault
    case ok layout =>
      refine .ok fun i hle => ?_
      have hh : ∀ b ∈ layout.stack, i ≤ b.header.indent :=
        addAll_headers (fun m hm => Nat.le_trans hle (Nat.le_of_lt (hi m hm))) (by simp [start]) hr
      obtain ⟨indent, hc⟩ := close_within hh (⟨line, [], some line.indent⟩ :: stack)
      rw [hc, closeTo, if_pos hle]
      rfl

theorem add_close (layout : Layout) (line : Line) (next : Option Line) :
    (layout.close line.indent).add line next = layout.add line next := by
  have h := close_close (Nat.le_refl line.indent) layout
  simp only [close] at h
  rw [add, add, close, h]

theorem assemble_close (layout : Layout) (line : Line) (rest : List Line) :
    assemble (layout.close line.indent) (line :: rest) = assemble layout (line :: rest) := by
  rw [assemble, assemble, add_close]

end Layout

theorem Behind.refl (layout : Layout) : Behind [] layout layout := by
  obtain ⟨nodes, indent, stack⟩ := layout
  induction stack generalizing nodes indent
  case nil              => exact .top rfl (.inl rfl)
  case cons block _ ih => exact .inside indent rfl rfl (ih block.before block.outer)

-- Where a block with one node is closed, its node counts, but not its place or its indentation.
theorem assemble_closed {stack : List OpenBlock} {node node' : Node} (hu : node'.unplaced = node.unplaced)
    {outer : List Line} (ho : ∀ l ∈ outer.head?, ∃ b ∈ stack.head?, l.indent ≤ b.header.indent)
    {i : Nat} (hi : ∀ l ∈ outer.head?, l.indent ≤ i) {layout layout' : Layout} {indent indent' : Option Nat}
    (hc : ∀ j ≤ i, layout.close j = Layout.closeTo j [node] indent stack)
    (hc' : ∀ j ≤ i, layout'.close j = Layout.closeTo j [node'] indent' stack) {read : List Node}
    (hr : assemble layout outer = .ok read) :
    ∃ read', assemble layout' outer = .ok read' ∧ Node.allUnplaced read' = Node.allUnplaced read := by
  have hnodes : Node.allUnplaced [node'] = Node.allUnplaced [node] := by
    simp only [Node.allUnplaced, hu]
  cases outer
  case nil =>
    cases hr
    have hf {l : Layout} {n : Node} {indent : Option Nat}
        (hc : ∀ j ≤ i, l.close j = Layout.closeTo j [n] indent stack) :
        Layout.finish l.nodes l.stack = Layout.finish [n] stack := by
      rw [← Layout.finish_close l i, hc i (Nat.le_refl i)]
      exact Layout.finish_close ⟨[n], indent, stack⟩ i
    refine ⟨_, rfl, ?_⟩
    rw [hf hc, hf hc']
    cases stack
    case nil => exact hnodes
    case cons block stack =>
      exact ((Behind.refl ⟨block.before, block.outer, stack⟩).concat (blockNode_same _ _ _ hnodes)).finish
  case cons line rest =>
    obtain ⟨block, hb, hle⟩ := ho line rfl
    obtain ⟨stack, rfl⟩ := List.head?_eq_some_iff.1 hb
    have h := hc line.indent (hi line rfl)
    have h' := hc' line.indent (hi line rfl)
    rw [Layout.closeTo, if_pos hle] at h h'
    rw [← Layout.assemble_close, h] at hr
    rw [← Layout.assemble_close, h']
    have hbehind := (Behind.refl ⟨block.before, block.outer, stack⟩).concat
      (blockNode_same block.header.text block.header.pos block.header.pos hnodes)
    exact assemble_behind rfl (hbehind.closeTo line.indent) hr

-- A line that is alone in its block may be indented one column deeper.
theorem assemble_indented {front inner outer : List Line} {line : Line} (h : Line.Alone front line inner outer)
    {read : List Node} (hr : assemble .start (front ++ line :: (inner ++ outer)) = .ok read) :
    ∃ read', assemble .start (front ++ line.indented 1 :: (inner ++ outer)) = .ok read' ∧
      Node.allUnplaced read' = Node.allUnplaced read := by
  rw [Layout.assemble_append] at hr
  obtain ⟨opened, hf, hr⟩ := Layout.bind_eq_ok_iff.1 hr
  obtain ⟨stack, rfl, hh, hf'⟩ := Layout.addAll_front h.opens hf
  rw [← List.cons_append, Layout.assemble_append] at hr
  obtain ⟨after, hl, hr⟩ := Layout.bind_eq_ok_iff.1 hr
  have hs : ∀ b ∈ stack.head?, b.header.indent < line.indent := fun b hb =>
    h.opens b.header (hh ▸ Option.mem_map_of_mem OpenBlock.header hb)
  have ho : ∀ l ∈ outer.head?, ∃ b ∈ stack.head?, l.indent ≤ b.header.indent := by
    intro l hl
    obtain ⟨m, hm, hle⟩ := h.outer l hl
    rw [← hh] at hm
    obtain ⟨b, hb, rfl⟩ := Option.map_eq_some_iff.1 hm
    exact ⟨b, hb, hle⟩
  have hn : ∀ l ∈ outer.head?, l.indent ≤ line.indent := by
    intro l hl
    obtain ⟨b, hb, hle⟩ := ho l hl
    exact Nat.le_trans hle (Nat.le_of_lt (hs b hb))
  have hread := Layout.addAll_line hs (fun l hl => Nat.lt_of_succ_lt (h.inner l hl)) hn
  rw [hl] at hread
  generalize hnode : Layout.lineNode line outer.head? inner = result at hread
  cases hread
  case ok node hc =>
    have ht : (line.indented 1).text = line.text := rfl
    have hi : (line.indented 1).indent = line.indent + 1 := Nat.add_comm 1 line.indent
    obtain ⟨node', hnode', hu⟩ := Layout.lineNode_same ht hnode
    have hs' : ∀ b ∈ stack.head?, b.header.indent < (line.indented 1).indent := fun b hb =>
      hi ▸ Nat.lt_succ_of_lt (hs b hb)
    have hread' := Layout.addAll_line hs' (fun l hl => hi ▸ h.inner l hl)
      (fun l hl => hi ▸ Nat.le_succ_of_le (hn l hl))
    rw [hnode'] at hread'
    generalize hl' : Layout.addAll ⟨[], none, stack⟩ outer.head? (line.indented 1 :: inner) = result at hread'
    cases hread'
    case ok after' hc' =>
      have hf' := hf' (line.indented 1) (hi ▸ Nat.le_succ _)
      obtain ⟨read', hr', hu'⟩ :=
        assemble_closed hu ho hn hc (fun j hj => hc' j (hi ▸ Nat.le_succ_of_le hj)) hr
      refine ⟨read', ?_, hu'⟩
      rw [Layout.assemble_append, Layout.bind_eq_ok_iff]
      refine ⟨_, hf', ?_⟩
      rw [← List.cons_append, Layout.assemble_append, Layout.bind_eq_ok_iff]
      exact ⟨after', hl', hr'⟩

variable {above w post body : List Char} {front : List Line} {c : Char}

-- Behind these whole lines another one begins with this white space.
structure IsMargin (above w : List Char) (front : List Line) : Prop where
  whole : Text.WholeLines above
  front : Line.ofLines 1 none (Text.lines above) = .ok front
  blank : ∀ c ∈ w, Text.isBlank c = true ∧ c ≠ '\n'

theorem IsMargin.not_mem (h : IsMargin above w front) : '\n' ∉ w :=
  fun hn => (h.blank '\n' hn).2 rfl

-- What follows is read by itself; the same line goes on behind whatever is put in front of it.
theorem IsMargin.ofSource (h : IsMargin above w front) (hc : c ≠ '\n') (hr : c ≠ '\r') (post : List Char) :
    ∃ l ls, Text.lines (w ++ c :: post) = (w ++ c :: l) :: ls ∧
      ∀ t, '\n' ∉ t → Line.ofSource (above ++ w ++ t ++ c :: post) =
        (Line.ofLines (1 + (Text.lines above).length) none ((w ++ (t ++ c :: l)) :: ls)).map
          fun lines => Line.joinLists (front ++ lines) := by
  obtain ⟨l, ls, hl⟩ := Text.exists_lines hc hr post
  refine ⟨l, ls, hl w h.not_mem, fun t ht => ?_⟩
  have he : above ++ w ++ t ++ c :: post = above ++ (w ++ t ++ c :: post) := by simp
  rw [Line.ofSource, he, Text.lines_append h.whole, hl (w ++ t) (by simp [h.not_mem, ht]), Line.ofLines_append h.front,
    List.append_assoc]
  cases Line.ofLines (1 + (Text.lines above).length) none ((w ++ (t ++ c :: l)) :: ls) <;> rfl

-- A comment behind the indentation of a line is as good as none.
theorem parse_comment_append (h : IsMargin above w front) (hb : Text.IsBody body) (hn : '\n' ∉ body) (hc : c ≠ '\n')
    (hr : c ≠ '\r') (post : List Char) :
    parse (above ++ w ++ Scoping.comment body ++ c :: post) = parse (above ++ w ++ c :: post) := by
  obtain ⟨l, ls, -, hs⟩ := h.ofSource hc hr post
  have hw : ∀ c ∈ w, Text.isBlank c = true := fun c hm => (h.blank c hm).1
  have hl := hs (Scoping.comment body) (by simp [Scoping.comment, hn])
  have hl' := hs [] (by simp)
  rw [List.append_nil] at hl'
  rw [parse, parse, hl, hl', Line.ofLines_cons, Line.ofLines_cons, Line.Mode.behind, Line.uncomment_blank hw,
    Line.uncomment_blank hw, Line.uncomment_comment hb]
  rfl

-- With a space behind it a comment is as good as the space, which moves the line by a column.
theorem parse_comment_space (h : IsMargin above w front) (hb : Text.IsBody body) (hn : '\n' ∉ body) (hc : c ≠ '\n')
    (hr : c ≠ '\r') {line : Line} {inner outer : List Line}
    (hl : Line.ofLines (1 + (Text.lines above).length) none (Text.lines (w ++ c :: post)) =
      .ok (line :: (inner ++ outer)))
    (ha : Line.Alone front line inner outer) {nodes : List Node} (hp : parse (above ++ w ++ c :: post) = .ok nodes) :
    ∃ nodes', parse (above ++ w ++ Scoping.comment body ++ ' ' :: c :: post) = .ok nodes' ∧
      Node.allUnplaced nodes' = Node.allUnplaced nodes := by
  obtain ⟨l, ls, hlines, hs⟩ := h.ofSource hc hr post
  rw [hlines] at hl
  obtain ⟨own, below, lines', he, hl', ho⟩ := Line.ofLines_space (fun c hm => (h.blank c hm).1) hl
  have hsource := hs [] (by simp)
  have hsource' := hs [' '] (by simp)
  rw [List.nil_append, hl, List.append_nil] at hsource
  rw [List.singleton_append, hl', List.append_assoc, List.singleton_append] at hsource'
  rw [parse, hsource] at hp
  rw [parse_comment_append h hb hn (by decide) (by decide), parse, hsource']
  cases own
  case none =>
    -- The row is blank without its comments.
    rw [he] at hp
    refine assemble_behind (Line.joinLists_same ?_) (Behind.refl .start) hp
    rw [List.map_append, List.map_append, ho]
    rfl
  case some own =>
    obtain ⟨rfl, rfl⟩ := List.cons.inj he
    rw [Except.map, ha.joinLists_eq (Nat.le_refl _) (Nat.le_succ _)] at hp
    obtain ⟨read, hread, hu⟩ := assemble_indented ha.joined hp
    have hi : (line.indented 1).indent = line.indent + 1 := Nat.add_comm 1 line.indent
    rw [← ha.joinLists_eq (hi ▸ Nat.le_succ _) (Nat.le_of_eq hi)] at hread
    have hsame : (Line.joinLists (front ++ lines')).map Line.outline =
        (Line.joinLists (front ++ line.indented 1 :: (inner ++ outer))).map Line.outline := by
      refine Line.joinLists_same ?_
      rw [List.map_append, List.map_append, ho]
      rfl
    obtain ⟨read', hread', hu'⟩ := assemble_behind hsame (Behind.refl .start) hread
    exact ⟨read', hread', hu'.trans hu⟩

end Indented

-- A comment and a space in front of a statement change nothing but places where braces make blocks. Where
-- indentation does, the comment alone changes nothing at all, but the space counts: the line has to be alone
-- in its block.
theorem comments_inert {body : List Char} (hb : Text.IsBody body) (hn : '\n' ∉ body) :
    (∀ (d : Dialect) (pre post : List Char) (nodes : List Node), d ≠ .stylus →
      d.grammar.parse (pre ++ post) = .ok nodes → ¬Node.AllPlaced (· ≠ Position.start.after pre) nodes →
      ∃ nodes', d.grammar.parse (pre ++ Scoping.comment body ++ ' ' :: post) = .ok nodes' ∧
        Node.allUnplaced nodes' = Node.allUnplaced nodes) ∧
    ∀ (above w : List Char) (front : List Line) (c : Char) (post : List Char), Indented.IsMargin above w front →
      c ≠ '\n' → c ≠ '\r' →
      Dialect.stylus.grammar.parse (above ++ w ++ Scoping.comment body ++ c :: post) =
        Dialect.stylus.grammar.parse (above ++ w ++ c :: post) ∧
      ∀ (line : Line) (inner outer : List Line) (nodes : List Node),
        Line.ofLines (1 + (Text.lines above).length) none (Text.lines (w ++ c :: post)) =
          .ok (line :: (inner ++ outer)) →
        Line.Alone front line inner outer → Dialect.stylus.grammar.parse (above ++ w ++ c :: post) = .ok nodes →
        ∃ nodes', Dialect.stylus.grammar.parse (above ++ w ++ Scoping.comment body ++ ' ' :: c :: post) = .ok nodes' ∧
          Node.allUnplaced nodes' = Node.allUnplaced nodes := by
  refine ⟨fun d pre post nodes hd h hp => ?_, fun above w front c post h hc hr => ⟨?_, ?_⟩⟩
  · cases d
    case sass   => exact Brace.parse_comment hb h hp
    case less   => exact Brace.parse_comment hb h hp
    case stylus => exact absurd rfl hd
  · exact Indented.parse_comment_append h hb hn hc hr post
  · exact fun line inner outer nodes hl ha hp => Indented.parse_comment_space h hb hn hc hr hl ha hp

theorem exists_ok {x : Except FaultAt α} {p : α → Bool} (h : x.toOption.any p = true) :
    ∃ a, x = .ok a ∧ p a = true := by
  cases x
  case error => cases h
  case ok a  => exact ⟨a, rfl, h⟩

-- The only declaration of a rule.
theorem comments_inert_only :
    (∃ nodes nodes', Dialect.sass.grammar.parse ".a \x7b\n  color: red;\n\x7d\n".toList = .ok nodes ∧
      Dialect.sass.grammar.parse ".a \x7b\n  /*c*/ color: red;\n\x7d\n".toList = .ok nodes' ∧
      Node.allUnplaced nodes' = Node.allUnplaced nodes) ∧
    Dialect.stylus.grammar.parse ".a\n  /*c*/color red\n".toList =
      Dialect.stylus.grammar.parse ".a\n  color red\n".toList ∧
    ∃ nodes nodes', Dialect.stylus.grammar.parse ".a\n  color red\n".toList = .ok nodes ∧
      Dialect.stylus.grammar.parse ".a\n  /*c*/ color red\n".toList = .ok nodes' ∧
      Node.allUnplaced nodes' = Node.allUnplaced nodes := by
  have hb : Text.IsBody ['c'] := by decide
  obtain ⟨hbrace, hindented⟩ := comments_inert hb (by decide)
  obtain ⟨nodes, hp, hm⟩ : ∃ nodes, Dialect.sass.grammar.parse ".a \x7b\n  color: red;\n\x7d\n".toList = .ok nodes ∧
      decide (¬Node.AllPlaced (· ≠ Position.start.after ".a \x7b\n  ".toList) nodes) = true :=
    exists_ok (by decide +kernel)
  obtain ⟨nodes', hp', hu⟩ := hbrace .sass ".a \x7b\n  ".toList "color: red;\n\x7d\n".toList nodes (by decide) hp
    (of_decide_eq_true hm)
  have hm : Indented.IsMargin ".a\n".toList [' ', ' '] [⟨0, ['.', 'a'], ⟨1, 1⟩⟩] :=
    ⟨by simp [Text.WholeLines], by decide +kernel, by decide⟩
  obtain ⟨halone, hspace⟩ := hindented _ _ _ 'c' "olor red\n".toList hm (by decide) (by decide)
  have hl : Line.ofLines (1 + (Text.lines ".a\n".toList).length) none
      (Text.lines ([' ', ' '] ++ 'c' :: "olor red\n".toList)) =
        .ok (⟨2, "color red".toList, ⟨2, 3⟩⟩ :: ([] ++ [])) := by decide +kernel
  have ha : Line.Alone [⟨0, ['.', 'a'], ⟨1, 1⟩⟩] ⟨2, "color red".toList, ⟨2, 3⟩⟩ [] [] :=
    ⟨by simp, by simp, by simp⟩
  obtain ⟨lined, hr, -⟩ : ∃ nodes, Dialect.stylus.grammar.parse ".a\n  color red\n".toList = .ok nodes ∧ _ :=
    exists_ok (p := fun _ => true) (by decide +kernel)
  obtain ⟨lined', hr', hu'⟩ := hspace _ [] [] lined hl ha hr
  exact ⟨⟨nodes, nodes', hp, hp', hu⟩, halone, lined, lined', hr, hr', hu'⟩

-- With another declaration behind it the two are no longer indented alike.
example : (Dialect.stylus.grammar.parse ".a\n  /*c*/ color red\n  margin 0\n".toList).map (fun _ => ()) =
    .error ⟨.inconsistentIndentation, ⟨3, 3⟩⟩ := by decide +kernel

end Dialect

end ScopedCss
