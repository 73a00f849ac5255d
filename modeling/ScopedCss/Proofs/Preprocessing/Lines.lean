import ScopedCss.Proofs.Dialect.Faults
import ScopedCss.Proofs.Preprocessing

namespace ScopedCss

namespace Settings

-- What stands in front of every text.
def gap (s : Settings) : List Char :=
  if s.prelude = "" then [] else s.prelude.toList ++ ['\n', '\n']

theorem toList_withPrelude (s : Settings) (text : String) :
    (s.withPrelude text).toList = s.gap ++ text.toList := by
  unfold withPrelude gap
  split
  case isTrue  => rfl
  case isFalse => simp

theorem preludeOffset_eq {s : Settings} (h : Text.NoLoneReturn s.prelude.toList) :
    s.preludeOffset = s.gap.count '\n' := by
  have hp := Text.lineCount_pos s.prelude.toList
  have hc := Text.lineCount_eq h
  by_cases hs : s.prelude = ""
  case pos => simp [preludeOffset, preludeLines, gap, hs]
  case neg => simp [preludeOffset, preludeLines, gap, hs, hc]

-- Behind the gap a text begins in the first column.
theorem after_gap (s : Settings) : Position.start.after s.gap = ⟨1 + s.gap.count '\n', 1⟩ := by
  have hl : (Position.start.after s.gap).line = 1 + s.gap.count '\n' := Position.line_after ..
  have hc : (Position.start.after s.gap).column = 1 := by
    unfold gap
    split
    case isTrue  => rfl
    case isFalse => rw [Position.after_append]; rfl
  generalize Position.start.after s.gap = pos at hl hc
  cases pos
  exact congrArg₂ Position.mk hl hc

theorem after_gap_append (s : Settings) (t : List Char) :
    Position.start.after (s.gap ++ t) =
      ⟨(Position.start.after t).line + s.gap.count '\n', (Position.start.after t).column⟩ := by
  rw [Position.after_append, after_gap]
  exact Position.after_below (s.gap.count '\n') Position.start t

end Settings

open Dialect in
-- What is noted for a place behind the gap is, without the lines of the gap, what is noted for it in
-- the text alone.
theorem Dialect.Marks.shift {d : Dialect} {s : Settings} {q : Position} {t : List Char}
    (hn : Text.NoLoneReturn s.prelude.toList) (h : d.Marks q (s.gap ++ t)) :
    d.Marks { q with line := max (q.line - s.preludeOffset) 1 } t where
  line := by
    have hl : (Position.start.after t).line = 1 + t.count '\n' := Position.line_after ..
    have hq := h.line
    rw [Settings.after_gap_append] at hq
    rw [hq, Settings.preludeOffset_eq hn, hl]
    simp
  column hd := by
    have hq := h.column hd
    rwa [Settings.after_gap_append] at hq

-- Imports fail because they cannot be resolved, and for no other reason.
theorem ImportTarget.settle_error {target : ImportTarget} {specifier : String} {disk : Disk}
    {present : String → Bool} {e : Error} (h : target.settle specifier disk present = .error e) :
    ∃ s reason tried, e = .resolution s reason tried := by
  cases target
  case path => cases h
  case unterminatedPackage =>
    cases h
    exact ⟨_, _, _, rfl⟩
  case firstExisting candidates =>
    rw [settle] at h
    split at h
    all_goals
      cases h
      try exact ⟨_, _, _, rfl⟩
  case mainEntry folder =>
    simp only [settle] at h
    split at h
    case h_1 =>
      cases h
      exact ⟨_, _, _, rfl⟩
    case h_2 =>
      split at h
      all_goals
        cases h
        try exact ⟨_, _, _, rfl⟩

theorem Registry.fetchFirst_error {r : Registry} {disk : Disk} {specifier : String} {paths : List String}
    {e : Error} (h : r.fetchFirst disk specifier paths = .error e) :
    ∃ s reason tried, e = .resolution s reason tried := by
  unfold fetchFirst fetch at h
  repeat' split at h
  all_goals
    cases h
    try exact ⟨_, _, _, rfl⟩

namespace Lookup

open Dialect

-- The file is not among those that were imported.
def Without (file : String) (l : Lookup) : Prop :=
  l.references.get? file = none

theorem imports (resolver : Resolver) (disk : Disk) (extension file : String) :
    Imports (Without file) file (importFile resolver disk extension) := by
  intro specifier importing l hc
  have htells {e : Error} (he : ∃ s reason tried, e = .resolution s reason tried) :
      e.TellsOf file fun _ => False := by
    obtain ⟨_, _, _, rfl⟩ := he
    exact fun _ _ _ he => by cases he
  have hadd {references : PathSet} {path : String} (hr : (references.add path).get? file = none) :
      references.get? file = none ∧ path ≠ file := by
    rw [PathSet.add, SortedDict.get?_insert] at hr
    split at hr
    case isTrue     => cases hr
    case isFalse hf => exact ⟨hr, fun he => hf he.symm⟩
  rw [importFile_run] at hc ⊢
  split
  case h_1 he =>
    rw [he] at hc
    exact ⟨hc, .error (htells (ImportTarget.settle_error he))⟩
  case h_2 path hp =>
    rw [hp] at hc
    dsimp only at hc
    split
    case h_1 imported hl =>
      rw [hl] at hc
      exact (hadd hc).imp_right .ok
    case h_2 hl =>
      rw [hl] at hc
      dsimp only at hc
      split
      case h_1 he =>
        rw [he] at hc
        exact ⟨hc, .error (htells (Registry.fetchFirst_error he))⟩
      case h_2 hf =>
        rw [hf] at hc
        exact (hadd hc).imp_right .ok

end Lookup

namespace Rendering

def error? (r : Rendering) : Option Error :=
  match r.result with
  | .ok _    => none
  | .error e => some e

theorem result_of_error? {r : Rendering} {e : Error} (h : r.error? = some e) : r.result = .error e := by
  unfold error? at h
  split at h
  case h_1    => cases h
  case h_2 hr => exact Option.some.inj h ▸ hr

end Rendering

namespace Preprocessor

variable {p : Preprocessor} {s : Settings} {disk : Disk} {registry : Registry} {source : Source}

theorem errorInRoot_transform {stage : Stage} {pos : Position} {reason : String} {e : Error}
    (h : errorInRoot s source e = .transform stage source.path pos reason) :
    ∃ q, e = .transform stage source.path q reason ∧
      pos = { q with line := max (q.line - s.preludeOffset) 1 } := by
  cases e
  case transform stage file q reason =>
    simp only [errorInRoot] at h
    split at h
    case isTrue hf =>
      cases h
      exact ⟨q, hf ▸ rfl, rfl⟩
    case isFalse hf =>
      cases h
      exact absurd rfl hf
  all_goals cases h

-- An error that is reported of a root, where the root is not imported itself, notes a place of its
-- contents; and what is behind the prelude is noted by its place in the text as it was read.
theorem render_error_place {stage : Stage} {pos : Position} {reason : String}
    (hc : source.contents = s.withPrelude source.raw) (hr : source.isRendered = false)
    (hn : Text.NoLoneReturn s.prelude.toList)
    (hw : (p.rendered s disk registry source).2.references.get? source.path = none)
    (he : (p.render s disk registry source).result = .error (.transform stage source.path pos reason)) :
    ∃ q a c b,
      (p.rendered s disk registry source).1 = .error (.transform stage source.path q reason) ∧
      source.contents.toList = a ++ c :: b ∧ p.dialect.Marks q a ∧
      ∀ t, a = s.gap ++ t →
        source.raw.toList = t ++ c :: b ∧ p.dialect.Marks pos t ∧ pos.column = q.column := by
  have ht := Dialect.Grammar.render_tells
    (Lookup.imports (.ofBase s.base) disk p.dialect.defaultExtension source.path) p.dialect source.contents
    ⟨registry, p.loaded, ∅⟩ hw
  change Dialect.Outcome _ _ _ (p.rendered s disk registry source).1 at ht
  rw [render_eq hr] at he
  generalize p.rendered s disk registry source = r at ht he
  obtain ⟨e | css, l⟩ := r
  case ok => cases he
  case error =>
    cases ht
    case error ht =>
    obtain ⟨q, rfl, hpos⟩ := errorInRoot_transform (Except.error.inj he)
    obtain ⟨a, c, b, hs, hm⟩ := ht stage q reason rfl
    refine ⟨q, a, c, b, rfl, hs, hm, ?_⟩
    rintro t rfl
    rw [hc, Settings.toList_withPrelude, List.append_assoc, List.append_cancel_left_eq] at hs
    exact ⟨hs, hpos ▸ hm.shift hn, hpos ▸ rfl⟩

-- A declaration without a value in the second line, behind a prelude of three lines.
theorem render_error_place_declaration :
    let s : Settings := {
      options      := {}
      base         := ""
      ignored      := []
      included     := []
      passthrough  := []
      replacements := []
      sass         := .enabled true
      stylus       := .off
      less         := .off
      prelude      := "$accent: red;\n$gap: 4px;\n"
      hash         := "" }
    let source : Source := {
      path     := "/a.scss"
      place    := "a.scss"
      arch     := "web"
      raw      := ".a \x7b color: blue; \x7d\n  .b \x7b color \x7d"
      contents := s.withPrelude ".a \x7b color: blue; \x7d\n  .b \x7b color \x7d" }
    let p : Preprocessor := { dialect := .sass, toggle := .enabled true }
    let reason := "Expected \"property: value\", found \"color\""
    Text.NoLoneReturn s.prelude.toList ∧
      (p.rendered s .empty (.ofSettings s "web") source).2.references.get? source.path = none ∧
      (p.render s .empty (.ofSettings s "web") source).result =
        .error (.transform .sass source.path ⟨2, 8⟩ reason) ∧
      ∃ q a c b,
        (p.rendered s .empty (.ofSettings s "web") source).1 = .error (.transform .sass source.path q reason) ∧
        source.contents.toList = a ++ c :: b ∧ p.dialect.Marks q a ∧
        ∀ t, a = s.gap ++ t →
          source.raw.toList = t ++ c :: b ∧ p.dialect.Marks ⟨2, 8⟩ t ∧ (8 : Nat) = q.column := by
  intro s source p reason
  have hn : Text.NoLoneReturn s.prelude.toList := by
    intro a b hs
    have hm : '\r' ∈ s.prelude.toList := hs ▸ List.mem_append_right _ List.mem_cons_self
    exact absurd hm (by decide)
  have hw : (p.rendered s .empty (.ofSettings s "web") source).2.references.get? source.path = none := by
    decide +kernel
  have he : (p.render s .empty (.ofSettings s "web") source).result =
      .error (.transform .sass source.path ⟨2, 8⟩ reason) := Rendering.result_of_error? (by decide +kernel)
  exact ⟨hn, hw, he, render_error_place rfl rfl hn hw he⟩

end Preprocessor

end ScopedCss
