import ScopedCss.Proofs.Scoping.Edits

namespace ScopedCss.Scoping

-- The names that are chosen stand in one line.
def OneLine (rename : String → Except Error String) : Prop :=
  ∀ n full, rename n = .ok full → '\n' ∉ full.toList ∧ '\r' ∉ full.toList

theorem NameKind.return_not_mem_lead (kind : NameKind) : '\r' ∉ kind.lead := by
  cases kind
  all_goals decide

namespace Edit

-- The line breaks of what is changed are all left.
def Keeps (e : Edit) : Prop :=
  e.written.count '\n' = e.source.count '\n'

variable {rename : String → Except Error String} {e : Edit} {s w : List Char}

-- No line break is written that was not read.
theorem Made.count_le (h : e.Made rename) (hn : OneLine rename) : e.written.count '\n' ≤ e.source.count '\n' := by
  cases h
  case kept s => exact Nat.le_refl _
  case renamed kind n full hr hh =>
    have hfull := List.count_eq_zero.2 (hn _ full hr).1
    rw [List.count_append, List.count_append, hfull]
    omega
  case unmarked => exact Nat.zero_le _
  case unwrapped opening body ho =>
    have ⟨a, b, hb⟩ := Text.exists_trim body
    conv_rhs => rw [show body = _ from hb]
    simp only [List.count_append]
    omega
  case unwrappedName opening body full ho hr =>
    rw [List.count_eq_zero.2 (hn _ full hr).1]
    exact Nat.zero_le _
  case composed declaration stop hd hs =>
    have hc : (lineBreaks declaration).count '\n' = declaration.count '\n' := List.count_filter (by rfl)
    rw [hc, List.count_append]
    omega

-- What begins with a line break still does.
theorem Made.head (h : e.Made rename) (hs : (e.source ++ s).head? = some '\n')
    (hw : s.head? = some '\n' → w.head? = some '\n') : (e.written ++ w).head? = some '\n' := by
  have hmark {word rest : List Char} (hm : word ∈ marks) (hs : (word ++ rest).head? = some '\n') : False := by
    simp only [marks, List.mem_cons, List.not_mem_nil, or_false] at hm
    rcases hm with rfl | rfl | rfl | rfl | rfl
    all_goals cases hs
  cases h
  case kept u =>
    cases u
    case nil  => exact hw hs
    case cons => exact hs
  case renamed kind n full hr hh =>
    cases hl : kind.lead ++ n
    case nil      => simp [hl] at hh
    case cons c u => simp_all
  case unmarked hm _ =>
    simp only [List.append_assoc] at hs
    exact (hmark hm hs).elim
  case unwrapped ho =>
    simp only [List.append_assoc] at hs
    exact (hmark ho hs).elim
  case unwrappedName ho _ =>
    simp only [List.append_assoc] at hs
    exact (hmark ho hs).elim
  case composed declaration stop hd _ =>
    cases declaration
    case nil      => cases hd
    case cons c u =>
      cases hs
      rfl

-- No line end is torn apart.
theorem Made.noLoneReturn (h : e.Made rename) (hn : OneLine rename) (hs : Text.NoLoneReturn (e.source ++ s))
    (hw : Text.NoLoneReturn w) (hh : s.head? = some '\n' → w.head? = some '\n') :
    Text.NoLoneReturn (e.written ++ w) := by
  cases h
  case kept u =>
    refine Text.noLoneReturn_append.2 ⟨fun a b hu => ?_, hw⟩
    have hb := (Text.noLoneReturn_append.1 hs).1 a b hu
    cases b
    case nil  => exact hh hb
    case cons => exact hb
  case renamed kind n full hr _ =>
    refine Text.noLoneReturn_append_of_not_mem (fun hm => ?_) hw
    exact (List.mem_append.1 hm).elim kind.return_not_mem_lead (hn _ full hr).2
  case unmarked => exact hw
  case unwrapped opening body ho =>
    have ⟨x, y, hb⟩ := Text.exists_trim body
    refine Text.noLoneReturn_append.2 ⟨fun a b hu => ?_, hw⟩
    change Text.trim body = a ++ '\r' :: b at hu
    rw [hu] at hb
    cases b
    -- The last character of what is trimmed is not white space.
    case nil =>
      have hlast := Text.getLast?_trim body
      rw [hu, List.getLast?_append] at hlast
      cases hlast
    case cons c b => exact hs (opening ++ x ++ a) (c :: b ++ y ++ [')'] ++ s) (by simp [hb])
  case unwrappedName opening body full _ hr => exact Text.noLoneReturn_append_of_not_mem (hn _ full hr).2 hw
  case composed declaration stop hd _ =>
    refine Text.noLoneReturn_append_of_not_mem (fun hm => ?_) hw
    cases (List.mem_filter.1 hm).2

end Edit

namespace Edits

variable {rename : String → Except Error String} {s w : List Char} {edits : List Edit}

theorem count_eq_iff (hm : ∀ e ∈ edits, e.Made rename) (hn : OneLine rename) :
    (edits.flatMap Edit.written).count '\n' ≤ (edits.flatMap Edit.source).count '\n' ∧
      ((edits.flatMap Edit.written).count '\n' = (edits.flatMap Edit.source).count '\n' ↔ ∀ e ∈ edits, e.Keeps) := by
  induction edits
  case nil => simp
  case cons e edits ih =>
    have ⟨hle, heq⟩ := ih fun e he => hm e (.tail _ he)
    have he := (hm e (.head _)).count_le hn
    rw [List.flatMap_cons, List.flatMap_cons, List.count_append, List.count_append, List.forall_mem_cons, ← heq]
    unfold Edit.Keeps
    omega

theorem noLoneReturn (hm : ∀ e ∈ edits, e.Made rename) (hn : OneLine rename)
    (hs : Text.NoLoneReturn (edits.flatMap Edit.source)) :
    Text.NoLoneReturn (edits.flatMap Edit.written) ∧
      ((edits.flatMap Edit.source).head? = some '\n' → (edits.flatMap Edit.written).head? = some '\n') := by
  induction edits
  case nil => exact ⟨hs, id⟩
  case cons e edits ih =>
    rw [List.flatMap_cons] at hs
    have ⟨hw, hh⟩ := ih (fun e he => hm e (.tail _ he)) hs.of_append
    exact ⟨(hm e (.head _)).noLoneReturn hn hs hw hh, fun h => (hm e (.head _)).head h hh⟩

end Edits

theorem lineSourceMap_congr {file css css' : String} (h : Text.lineCount css.toList = Text.lineCount css'.toList) :
    lineSourceMap file css = lineSourceMap file css' := by
  unfold lineSourceMap
  rw [h]

-- What is scoped is the style sheet with changes. Up to any of them its lines are those of the style
-- sheet exactly if all changes so far keep their line breaks; so are its lines altogether, and then the
-- source map is one of the lines of the style sheet.
theorem scope_lines {css file : String} {rename : String → Except Error String} {σ : Type}
    {resolve : String → ExceptT Error (StateM σ) Tokens} {s t : σ} {sheet : ScopedSheet} (hn : OneLine rename)
    (hr : (scope css file rename resolve).run.run s = (.ok sheet, t)) :
    Edited rename css.toList sheet.css.toList ∧
      ∀ edits, Edits rename css.toList sheet.css.toList edits →
        (∀ before, before <+: edits →
          ((Position.start.after (before.flatMap Edit.written)).line =
              (Position.start.after (before.flatMap Edit.source)).line ↔
            ∀ e ∈ before, e.Keeps)) ∧
        (Text.NoLoneReturn css.toList →
          (Text.lineCount sheet.css.toList = Text.lineCount css.toList ↔ ∀ e ∈ edits, e.Keeps) ∧
          ((∀ e ∈ edits, e.Keeps) → sheet.sourceMap = some (lineSourceMap file css))) := by
  refine ⟨scope_edited hr, fun edits ⟨hsource, hwritten, hm⟩ => ⟨fun before hb => ?_, fun hl => ?_⟩⟩
  · rw [Position.line_after, Position.line_after, Nat.add_left_cancel_iff]
    exact (Edits.count_eq_iff (fun e he => hm e (hb.subset he)) hn).2
  · have hlines : Text.lineCount sheet.css.toList = Text.lineCount css.toList ↔ ∀ e ∈ edits, e.Keeps := by
      have hw : Text.NoLoneReturn sheet.css.toList := by
        rw [← hsource] at hl
        exact hwritten ▸ (Edits.noLoneReturn hm hn hl).1
      rw [Text.lineCount_eq hw, Text.lineCount_eq hl, Nat.add_right_cancel_iff, ← hsource, ← hwritten]
      exact (Edits.count_eq_iff hm hn).2
    refine ⟨hlines, fun hk => ?_⟩
    rw [scope_sourceMap hr, lineSourceMap_congr (hlines.2 hk)]

def wordOnly (n : String) : Except Error String :=
  .ok (.ofList ('_' :: n.toList.filter Char.isAlphanum))

-- Two kinds of line ends, and a declaration of two lines that is removed.
theorem scope_lines_composed :
    let css := ".b \x7b\x7d\r\n.a \x7b composes:\n b; top: 0 \x7d\n"
    OneLine wordOnly ∧ Text.NoLoneReturn css.toList ∧ ∃ sheet,
      (scope css "ab.css" wordOnly nowhere).run.run () = (.ok sheet, ()) ∧
        sheet.css = "._b \x7b\x7d\r\n._a \x7b \n top: 0 \x7d\n" ∧
        Edited wordOnly css.toList sheet.css.toList ∧
          ∀ edits, Edits wordOnly css.toList sheet.css.toList edits →
            (∀ before, before <+: edits →
              ((Position.start.after (before.flatMap Edit.written)).line =
                  (Position.start.after (before.flatMap Edit.source)).line ↔
                ∀ e ∈ before, e.Keeps)) ∧
            (Text.lineCount sheet.css.toList = Text.lineCount css.toList ↔ ∀ e ∈ edits, e.Keeps) ∧
            ((∀ e ∈ edits, e.Keeps) → sheet.sourceMap = some (lineSourceMap "ab.css" css)) := by
  intro css
  have hn : OneLine wordOnly := by
    intro n full h
    have hword (c : Char) (hu : c ≠ '_') (hc : ¬c.isAlphanum = true) : c ∉ full.toList := by
      cases h
      rw [String.toList_ofList]
      exact List.not_mem_cons_of_ne_of_not_mem hu fun hm => hc (List.mem_filter.1 hm).2
    exact ⟨hword '\n' (by decide) (by decide), hword '\r' (by decide) (by decide)⟩
  have hl : Text.NoLoneReturn css.toList := by decide +kernel
  have hok : ((scope css "ab.css" wordOnly nowhere).run.run ()).1.map ScopedSheet.css =
      .ok "._b \x7b\x7d\r\n._a \x7b \n top: 0 \x7d\n" := by
    decide +kernel
  obtain ⟨sheet, ⟨⟩, hr, hcss⟩ := Stateful.run_eq_of_map_eq hok
  obtain ⟨he, hedits⟩ := scope_lines hn hr
  exact ⟨hn, hl, sheet, hr, hcss, he, fun edits h => (hedits edits h).imp_right fun h => h hl⟩

-- The line break behind `:global` is dropped.
example : ((scope ":global\n.b \x7b\x7d" "b.css" wordOnly nowhere).run.run ()).1.map ScopedSheet.css =
    .ok ".b \x7b\x7d" := by
  decide +kernel

end ScopedCss.Scoping
