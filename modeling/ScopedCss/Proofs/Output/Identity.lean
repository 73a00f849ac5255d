import ScopedCss.Output.Path
import ScopedCss.Proofs.Cache.Folder
import ScopedCss.Proofs.Naming.Moved
import ScopedCss.Proofs.Path.Descent
import ScopedCss.Proofs.Text.Replace

namespace ScopedCss

namespace Path

variable {path : String} {s : List Char}

theorem dirname_cases (path : String) :
    dirname path = "." ∨ dirname path = "/" ∨ (dirname path).toList <:+: path.toList := by
  unfold dirname
  split
  case h_1 => exact .inl rfl
  case h_2 => exact .inr (.inl rfl)
  case h_3 hcut =>
    obtain ⟨⟨l, d, r⟩, hc, he⟩ := Option.map_eq_some_iff.1 hcut
    have hr := congrArg List.reverse (Text.eq_of_cut? hc).1
    cases he
    exact .inr (.inr ⟨[], _, by simpa using hr.symm⟩)

-- A text that is longer than one character is part of the folder of a path only if it is part of the path.
theorem infix_of_infix_dirname (hs : 1 < s.length) (h : s <:+: (dirname path).toList) : s <:+: path.toList := by
  have hlength := h.length_le
  rcases dirname_cases path with hd | hd | hd
  case inr.inr => exact h.trans hd
  all_goals
    rw [hd] at hlength
    exact absurd hs (Nat.not_lt.2 hlength)

theorem infix_basename (path : String) : (basename path).toList <:+: path.toList := by
  rw [basename, String.toList_ofList]
  have hlast : Text.takeWhileEnd (!isSeparator ·) (Text.dropWhileEnd (· == '/') path.toList) <:+:
    Text.dropWhileEnd (· == '/') path.toList := ⟨_, [], by rw [List.append_nil, Text.dropWhileEnd_append_takeWhileEnd]⟩
  exact hlast.trans ⟨[], _, by rw [List.nil_append, Text.dropWhileEnd_append_takeWhileEnd]⟩

theorem infix_stem (path : String) : (stem path).toList <:+: path.toList := by
  refine .trans ⟨[], (extension path).toList, ?_⟩ (infix_basename path)
  rw [List.nil_append, ← String.toList_append, stem_append_extension]

section

variable {dir name : List Char} {folders : List Segment} {c : Char}

-- A path is taken apart at its last separator.
theorem cutLast?_name (hc : isSeparator c = true) (hn : ∀ d ∈ name, isSeparator d = false) :
    Text.cutLast? isSeparator (dir ++ c :: name) = some (dir, c, name) := by
  rw [Text.cutLast?, List.reverse_append, List.reverse_cons, List.append_assoc, List.singleton_append,
    Text.cut?_append (fun d hd => hn d (List.mem_reverse.1 hd)) hc]
  simp

theorem dirname_of_no_separator (h : ∀ c ∈ path.toList, isSeparator c = false) : dirname path = "." := by
  have hcut : Text.cut? isSeparator path.toList.reverse = none := by
    cases hc : Text.cut? isSeparator path.toList.reverse
    case none => rfl
    case some cut =>
      obtain ⟨he, hs, -⟩ := Text.eq_of_cut? hc
      have hm := List.mem_reverse.1 (he ▸ List.mem_append_right _ (.head _))
      rw [h _ hm] at hs
      cases hs
  rw [dirname, Text.cutLast?, hcut]
  rfl

theorem dirname_name (hc : isSeparator c = true) (hn : ∀ d ∈ name, isSeparator d = false) :
    dirname (.ofList (dir ++ c :: name)) = if dir = [] then "/" else .ofList dir := by
  simp only [dirname, String.toList_ofList, cutLast?_name hc hn]
  split <;> simp_all

theorem basename_name (hc : isSeparator c = true) (hne : name ≠ []) (hn : ∀ d ∈ name, isSeparator d = false) :
    basename (.ofList (dir ++ c :: name)) = .ofList name := by
  have hslash : ∃ d ∈ name, (d == '/') = false :=
    have ⟨d, rest, hd⟩ := List.exists_cons_of_ne_nil hne
    ⟨d, hd ▸ .head _, (Bool.or_eq_false_iff.1 (hn d (hd ▸ .head _))).1⟩
  have hdrop : Text.dropWhileEnd (· == '/') (dir ++ c :: name) = dir ++ c :: Text.dropWhileEnd (· == '/') name := by
    rw [List.append_cons, Text.dropWhileEnd_append hslash, ← List.append_cons]
  have hsame : basename (.ofList (dir ++ c :: name)) = basename (.ofList name) := by
    rw [basename, String.toList_ofList, hdrop, Text.takeWhileEnd_append (by simp [hc]), basename, String.toList_ofList]
  rw [hsame, basename_of_no_separator (by rwa [String.toList_ofList])]

-- A name with forward slashes is as it was before: it has no slashes.
theorem eq_of_map_forward {s : List Char} (hn : ∀ d ∈ name, isSeparator d = false)
    (h : (s.map fun c => if c = '\\' then '/' else c) = name) : s = name := by
  rw [← h]
  conv_lhs => rw [← List.map_id s]
  refine List.map_congr_left fun d hd => ?_
  have hs := hn _ (h ▸ List.mem_map_of_mem hd)
  split at hs
  case isTrue     => cases hs
  case isFalse hb => rw [if_neg hb, id]

-- The last segment of a path that leads down is found behind its last separator.
theorem Down.cases_path (h : Down (forwardSlashes path).toList folders name) :
    path = .ofList name ∧ folders = [] ∨ ∃ dir c, path = .ofList (dir ++ c :: name) ∧ isSeparator c = true ∧
      LeadsDown (forwardSlashes (.ofList dir)).toList folders := by
  rw [toList_forwardSlashes] at h
  generalize hs : (path.toList.map fun c => if c = '\\' then '/' else c) = s at h
  cases h
  case here hn => exact .inl ⟨String.toList_inj.1 (by rw [eq_of_map_forward hn.2.2.2 hs, String.toList_ofList]), rfl⟩
  case below dir hd hn =>
    obtain ⟨before, behind, hp, rfl, hb⟩ := List.map_eq_append_iff.1 hs
    obtain ⟨c, last, rfl, hc, hl⟩ := List.map_eq_cons_iff.1 hb
    obtain rfl := eq_of_map_forward hn.2.2.2 hl
    refine .inr ⟨before, c, String.toList_inj.1 (by rw [hp, String.toList_ofList]), ?_, ?_⟩
    · by_cases hback : c = '\\'
      case pos => rw [hback]; rfl
      case neg =>
        rw [if_neg hback] at hc
        rw [hc]
        rfl
    · rwa [toList_forwardSlashes, String.toList_ofList]

theorem toList_forwardSlashes_append (path more : String) :
    (forwardSlashes (path ++ more)).toList = (forwardSlashes path).toList ++ (forwardSlashes more).toList := by
  simp [toList_forwardSlashes]

theorem IsName.forwardSlashes (h : IsName name) : Path.forwardSlashes (.ofList name) = .ofList name := by
  apply forwardSlashes_eq
  rw [String.toList_ofList]
  exact fun hb => absurd (h.2.2.2 _ hb) (by decide)

end

end Path

namespace OutputTemplate

open Path

variable {place : String} {folders : List Segment} {name : Segment}

-- A path in which no placeholder stands that is still to be filled in when the path is.
structure Unmarked (path : String) : Prop where
  basename : ¬"\x7bbasename\x7d".toList <:+: path.toList
  extname  : ¬"\x7bextname\x7d".toList <:+: path.toList

-- Without a template of their own, artifacts stand next to where their files are.
theorem fill_identity {path : String} (h : Unmarked path) :
    fill identityText path = Path.dirname path ++ "/" ++ Path.basename path := by
  let folder := (Path.dirname path).toList
  let stem := (Path.stem path).toList
  let extension := (Path.extension path).toList
  have hfolder {s : List Char} (hlength : 1 < s.length) (hslash : '/' ∉ s) (hs : ¬s <:+: path.toList) :
      ¬s <:+: folder ++ ['/'] := by
    intro hm
    rcases Text.infix_append_cons hslash hm with hm | hm
    · exact hs (Path.infix_of_infix_dirname hlength hm)
    · exact absurd hm.length_le (Nat.not_le.2 (Nat.zero_lt_of_lt hlength))
  have hdirname : Text.replace "\x7bdirname\x7d".toList folder identityText.toList =
      (folder ++ ['/']) ++ "\x7bbasename\x7d".toList ++ "\x7bextname\x7d".toList :=
    (Text.replace_once folder (t := "/\x7bbasename\x7d\x7bextname\x7d".toList)
      (rfl : "\x7bdirname\x7d".toList = '\x7b' :: "dirname\x7d".toList) (by decide) (by decide : ¬_ <:+: [])
      (by decide)).trans (by simp)
  have hbasename : Text.replace "\x7bbasename\x7d".toList stem
      ((folder ++ ['/']) ++ "\x7bbasename\x7d".toList ++ "\x7bextname\x7d".toList) =
      (folder ++ '/' :: stem) ++ "\x7bextname\x7d".toList ++ [] :=
    (Text.replace_once stem (rfl : _ = '\x7b' :: "basename\x7d".toList) (by decide)
      (hfolder (by decide) (by decide) h.basename) (by decide)).trans (by simp)
  have hextname : Text.replace "\x7bextname\x7d".toList extension
      ((folder ++ '/' :: stem) ++ "\x7bextname\x7d".toList ++ []) = folder ++ '/' :: stem ++ extension := by
    have hnot : ¬"\x7bextname\x7d".toList <:+: folder ++ '/' :: stem := by
      intro hm
      rcases Text.infix_append_cons (by decide) hm with hm | hm
      · exact h.extname (Path.infix_of_infix_dirname (by decide) hm)
      · exact h.extname (hm.trans (Path.infix_stem path))
    exact (Text.replace_once extension (rfl : _ = '\x7b' :: "extname\x7d".toList) (by decide) hnot (by decide)).trans
      (List.append_nil _)
  apply String.toList_inj.1
  simp only [fill, String.toList_ofList]
  rw [hdirname, hbasename, hextname, ← Path.stem_append_extension]
  simp [folder, stem, extension]

-- The path of a file that no template changes leads to where its place does. In front there may be a dot for the
-- folder it is in, or one more slash.
theorem toList_fill_identity (hu : Unmarked place) (h : Down (forwardSlashes place).toList folders name) :
    ∃ lead, (forwardSlashes (fill identityText place)).toList = lead ++ (forwardSlashes place).toList ∧
      Down (lead ++ (forwardSlashes place).toList) folders name ∧
      (lead = [] ∨ lead = ['.', '/'] ∧ (forwardSlashes place).toList = name ∨
        lead = ['/'] ∧ (forwardSlashes place).toList = '/' :: name) := by
  have hn := h.isName
  rw [fill_identity hu]
  rcases h.cases_path with ⟨rfl, rfl⟩ | ⟨dir, c, rfl, hc, hdir⟩
  case inl =>
    have hnone : ∀ c ∈ (String.ofList name).toList, isSeparator c = false := by
      rw [String.toList_ofList]
      exact hn.2.2.2
    have hdot : LeadsDown ['.'] [] := ⟨by simp, fun _ _ => rfl⟩
    refine ⟨['.', '/'], ?_, ?_⟩
    · rw [dirname_of_no_separator hnone, basename_of_no_separator hnone, toList_forwardSlashes_append]
      rfl
    · rw [hn.forwardSlashes, String.toList_ofList]
      exact ⟨.below hdot hn, .inr (.inl ⟨rfl, rfl⟩)⟩
  case inr =>
    have hslash : (if c = '\\' then '/' else c) = '/' := by
      rcases Bool.or_eq_true_iff.1 hc with hc | hc <;> simp_all
    have hplace : (forwardSlashes (.ofList (dir ++ c :: name))).toList =
        (forwardSlashes (.ofList dir)).toList ++ '/' :: name := by
      have hsame := congrArg String.toList hn.forwardSlashes
      rw [toList_forwardSlashes, String.toList_ofList] at hsame
      simp [toList_forwardSlashes, hsame, hslash]
    rw [hplace]
    rw [dirname_name hc hn.2.2.2, basename_name hc hn.1 hn.2.2.2, toList_forwardSlashes_append,
      toList_forwardSlashes_append, hn.forwardSlashes, String.toList_ofList]
    split
    case isTrue hnil =>
      subst hnil
      exact ⟨['/'], rfl, .below hdir.slash hn, .inr (.inr ⟨rfl, rfl⟩)⟩
    case isFalse =>
      exact ⟨[], by simp [toList_forwardSlashes], .below hdir hn, .inl rfl⟩

end OutputTemplate

end ScopedCss
