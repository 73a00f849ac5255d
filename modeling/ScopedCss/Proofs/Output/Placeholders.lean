import ScopedCss.Proofs.Output.Identity
import ScopedCss.Proofs.Text.Replace

namespace ScopedCss

namespace Path

variable {path : String} {c : Char}

theorem not_mem_dirname (hs : isSeparator c = false) (hd : c ≠ '.') (h : c ∉ path.toList) :
    c ∉ (dirname path).toList := by
  rcases dirname_cases path with he | he | hi
  case inl     => simpa [he] using hd
  case inr.inl =>
    rw [he]
    intro hm
    obtain rfl : c = '/' := by simpa using hm
    cases hs
  case inr.inr => exact fun hm => h (hi.subset hm)

-- A path with a folder in it is that folder, a slash and its last segment.
theorem dirname_append_basename (hf : '\\' ∉ path.toList) (hs : '/' ∈ path.toList) (hd : dirname path ≠ "/")
    (hl : path.toList.getLast? ≠ some '/') : dirname path ++ "/" ++ basename path = path := by
  obtain ⟨dir, name, he, hname⟩ : ∃ dir name, path.toList = dir ++ '/' :: name ∧ ∀ d ∈ name, isSeparator d = false := by
    cases hcut : Text.cut? isSeparator path.toList.reverse
    case none =>
      exact absurd hcut (Text.cut?_ne_none (List.mem_reverse.2 hs) rfl)
    case some cut =>
      obtain ⟨name, d, dir⟩ := cut
      obtain ⟨he, hd, hn⟩ := Text.eq_of_cut? hcut
      have hpath := congrArg List.reverse he
      simp only [List.reverse_reverse, List.reverse_append, List.reverse_cons, List.append_assoc, List.singleton_append]
        at hpath
      have hslash : d = '/' := by
        rcases Bool.or_eq_true_iff.1 hd with hd | hd
        · exact beq_iff_eq.1 hd
        · exact absurd (hpath ▸ by simp [beq_iff_eq.1 hd]) hf
      exact ⟨dir.reverse, name.reverse, hslash ▸ hpath, fun c hc =>
        Bool.not_eq_true _ ▸ hn c (List.mem_reverse.1 hc)⟩
  have hne : name ≠ [] := by
    rintro rfl
    simp [he] at hl
  obtain rfl : path = .ofList (dir ++ '/' :: name) := String.toList_inj.1 (by rw [he, String.toList_ofList])
  rw [dirname_name rfl hname] at hd ⊢
  rw [basename_name rfl hne hname]
  split at hd
  case isTrue => exact absurd rfl hd
  case isFalse hdir =>
    rw [if_neg hdir]
    apply String.toList_inj.1
    simp

end Path

namespace OutputTemplate

variable {t : OutputTemplate} {template path : String}

-- What the placeholders of a template stand for.
def placeholders (path : String) : List (List Char × List Char) :=
  [("\x7bdirname\x7d".toList, (Path.dirname path).toList), ("\x7bbasename\x7d".toList, (Path.stem path).toList),
    ("\x7bextname\x7d".toList, (Path.extension path).toList)]

def fillAtOnce (template path : String) : String :=
  .ofList (Text.replaceEach (placeholders path) template.toList)

-- No placeholder comes about when those in front of it in the list are filled in.
structure Settled (template path : String) : Prop where
  basename : Text.MakesNone ((placeholders path).take 1) "\x7bbasename\x7d".toList template.toList
  extname  : Text.MakesNone ((placeholders path).take 2) "\x7bextname\x7d".toList template.toList

theorem isMark_dirname : Text.IsMark "\x7bdirname\x7d".toList :=
  ⟨"dirname".toList, rfl, by decide, by decide⟩

theorem isMark_basename : Text.IsMark "\x7bbasename\x7d".toList :=
  ⟨"basename".toList, rfl, by decide, by decide⟩

theorem isMark_extname : Text.IsMark "\x7bextname\x7d".toList :=
  ⟨"extname".toList, rfl, by decide, by decide⟩

theorem marked_placeholders (path : String) : Text.Marked (placeholders path) where
  mark  := by simpa [placeholders] using ⟨isMark_dirname, isMark_basename, isMark_extname⟩
  nodup := by
    simp only [placeholders, List.map_cons, List.map_nil]
    decide

theorem marked_take (path : String) (n : Nat) : Text.Marked ((placeholders path).take n) where
  mark r hr := (marked_placeholders path).mark r (List.mem_of_mem_take hr)
  nodup     := List.map_take ▸ (marked_placeholders path).nodup.sublist (List.take_sublist ..)

-- This is so for paths without braces, in templates all of whose opening braces are those of marks.
theorem settled_of_paired (ht : Text.Paired template.toList) (hp : '\x7b' ∉ path.toList) : Settled template path := by
  have hnew : ∀ r ∈ (placeholders path).take 2, '\x7b' ∉ r.2 := by
    have hd : '\x7b' ∉ (Path.dirname path).toList := Path.not_mem_dirname rfl (by decide) hp
    have hs : '\x7b' ∉ (Path.stem path).toList := fun hm => hp ((Path.infix_stem path).subset hm)
    simp [placeholders, hd, hs]
  have hfirst : ∀ r ∈ (placeholders path).take 1, '\x7b' ∉ r.2 := fun r hr =>
    hnew r (List.take_subset_take_left _ (by decide) hr)
  exact ⟨(marked_take path 1).makesNone isMark_basename hfirst ht, (marked_take path 2).makesNone isMark_extname hnew ht⟩

theorem paired_identityText : Text.Paired identityText.toList :=
  .mark isMark_dirname (.char (by decide) (.mark isMark_basename (.mark isMark_extname .nil)))

theorem fill_eq_fillAtOnce (h : Settled template path) : fill template path = fillAtOnce template path := by
  have hbasename := (marked_take path 2).replaceEach_replaceEach h.basename
  have hextname := (marked_placeholders path).replaceEach_replaceEach h.extname
  simp only [placeholders, List.take_succ_cons, List.take_zero, List.cons_append, List.nil_append] at hbasename hextname
  rw [fill, fillAtOnce, placeholders]
  simp only [Text.replace_eq_replaceEach]
  rw [hbasename, hextname]

theorem fillAtOnce_identity (path : String) :
    fillAtOnce identityText path = Path.dirname path ++ "/" ++ Path.basename path := by
  have hmarked := marked_placeholders path
  have htext : identityText.toList =
      "\x7bdirname\x7d".toList ++ '/' :: ("\x7bbasename\x7d".toList ++ ("\x7bextname\x7d".toList ++ [])) := by
    decide
  have hslash : ∀ r ∈ placeholders path,
      ¬r.1 <+: '/' :: ("\x7bbasename\x7d".toList ++ ("\x7bextname\x7d".toList ++ [])) := by
    intro r hr hp
    obtain ⟨name, he, -⟩ := hmarked.mark r hr
    rw [he, List.cons_prefix_cons] at hp
    exact absurd hp.1 (by decide)
  have hfilled := hmarked.replaceEach_mark (.head _)
    ('/' :: ("\x7bbasename\x7d".toList ++ ("\x7bextname\x7d".toList ++ [])))
  rw [Text.replaceEach_cons hslash, hmarked.replaceEach_mark (.tail _ (.head _)),
    hmarked.replaceEach_mark (.tail _ (.tail _ (.head _)))] at hfilled
  apply String.toList_inj.1
  rw [fillAtOnce, String.toList_ofList, htext, hfilled, ← Path.stem_append_extension]
  simp [Text.replaceEach, Text.replaceEachFrom]

-- Where no placeholder comes about by filling in others, all are filled in at once, and the template for the place of
-- the file itself gives back its path.
theorem expand_at_once (ht : t.select path = .ok template) (h : Settled template path) :
    t.expand path = .ok (fillAtOnce template path) ∧
      (template = identityText → '\\' ∉ path.toList → '/' ∈ path.toList → Path.dirname path ≠ "/" →
        path.toList.getLast? ≠ some '/' → t.expand path = .ok path) := by
  have hexpand : t.expand path = .ok (fillAtOnce template path) := by
    rw [expand, ht, ← fill_eq_fillAtOnce h]
    rfl
  refine ⟨hexpand, ?_⟩
  rintro rfl hf hs hd hl
  rw [hexpand, fillAtOnce_identity, Path.dirname_append_basename hf hs hd hl]

-- A file in a folder, by a template that is the default one for it.
theorem expand_at_once_button :
    let t := OutputTemplate.byPattern (.ofList [("^imports/", "lazy/\x7bbasename\x7d\x7bextname\x7d")])
    let path := "client/ui/button.m.css"
    t.select path = .ok identityText ∧ Settled identityText path ∧
      t.expand path = .ok (fillAtOnce identityText path) ∧ t.expand path = .ok path := by
  intro t path
  have ht : t.select path = .ok identityText := by
    decide +kernel
  have hs : Settled identityText path := settled_of_paired paired_identityText (by decide)
  have ⟨hfill, hsame⟩ := expand_at_once ht hs
  exact ⟨ht, hs, hfill, hsame rfl (by decide) (by decide) (by decide) (by decide)⟩

-- What is filled in for the folder is looked at again.
example : fill identityText "\x7bbasename\x7d/a.css" = "a/a.css" ∧
    fillAtOnce identityText "\x7bbasename\x7d/a.css" = "\x7bbasename\x7d/a.css" := by
  decide +kernel

end OutputTemplate

end ScopedCss
