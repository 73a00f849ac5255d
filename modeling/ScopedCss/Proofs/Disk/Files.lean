import ScopedCss.Proofs.Disk

namespace ScopedCss

namespace Disk

open Path

-- A path that is written as the names on the way to it say.
def Settled (path : String) : Prop :=
  ofSegments true (namesOf path) = path

-- Relative paths start in a settled folder, and nothing is both a file and a folder.
structure Proper (disk : Disk) : Prop where
  cwd   : Settled disk.cwd
  apart : ∀ path ∈ disk.files.keys, path ≠ "/" ∧ path ∉ disk.folders

-- The same paths lead to the same places as long as folders stay.
structure Keeps (d d' : Disk) : Prop where
  cwd     : d'.cwd = d.cwd
  folders : ∀ path, d.entry path = .folder → d'.entry path = .folder

structure SameFolders (d d' : Disk) : Prop where
  cwd     : d'.cwd = d.cwd
  folders : ∀ path, d'.entry path = .folder ↔ d.entry path = .folder

-- A change to what stands at one place, which is no folder before or after.
structure Edit (here : String) (d d' : Disk) : Prop where
  same   : SameFolders d d'
  proper : d.Proper → d'.Proper
  others : ∀ path, path ≠ here → d'.entry path = d.entry path

section

variable {d d' d'' : Disk} {here path name text t : String} {s : Segment} {segs : List Segment}

theorem SameFolders.refl (d : Disk) : SameFolders d d :=
  ⟨rfl, fun _ => .rfl⟩

theorem SameFolders.symm (h : SameFolders d d') : SameFolders d' d :=
  ⟨h.cwd.symm, fun path => (h.folders path).symm⟩

theorem SameFolders.trans (h : SameFolders d d') (h' : SameFolders d' d'') : SameFolders d d'' :=
  ⟨h'.cwd.trans h.cwd, fun path => (h'.folders path).trans (h.folders path)⟩

theorem SameFolders.keeps (h : SameFolders d d') : Keeps d d' :=
  ⟨h.cwd, fun path => (h.folders path).2⟩

theorem Keeps.trans (h : Keeps d d') (h' : Keeps d' d'') : Keeps d d'' :=
  ⟨h'.cwd.trans h.cwd, fun path hf => h'.folders path (h.folders path hf)⟩

theorem Edit.refl (here : String) (d : Disk) : Edit here d d :=
  ⟨.refl d, id, fun _ _ => rfl⟩

theorem folder_of_step (h : d.step here s = .ok t) : d.entry here = .folder := by
  unfold step at h
  split at h
  case h_1 => cases h
  case h_2 => cases h
  case h_3 => assumption

-- From a folder, a step leads to a place that does not depend on what is there.
theorem step_congr (h : d.entry here = .folder) (h' : d'.entry here = .folder) : d'.step here s = d.step here s := by
  unfold step
  rw [h, h']

theorem foldlM_step_mono (hf : ∀ path, d.entry path = .folder → d'.entry path = .folder)
    (h : segs.foldlM d.step here = .ok t) : segs.foldlM d'.step here = .ok t := by
  induction segs generalizing here
  case nil => exact h
  case cons s segs ih =>
    rw [List.foldlM_cons] at h ⊢
    cases hs : d.step here s
    case error => rw [hs] at h; cases h
    case ok next =>
      rw [hs] at h
      have hfolder := folder_of_step hs
      rw [step_congr hfolder (hf _ hfolder), hs]
      exact ih h

-- Texts that are not taken for paths are told by themselves.
def Sayable (path : String) : Prop :=
  path ≠ "" ∧ path.toList.contains '\x00' = false ∧ path.utf8ByteSize < maxPathLength

def start (disk : Disk) (path : String) : String :=
  if isRooted path then "/" else disk.cwd

theorem locate_eq_ok : d.locate path = .ok t ↔ Sayable path ∧ (segments path).foldlM d.step (d.start path) = .ok t := by
  unfold Disk.locate
  split
  case isTrue he => exact iff_of_false (fun h => nomatch h) fun h => h.1.1 he
  case isFalse he =>
    split
    case isTrue hz => exact iff_of_false (fun h => nomatch h) fun h => nomatch hz.symm.trans h.1.2.1
    case isFalse hz =>
      split
      case isTrue hl => exact iff_of_false (fun h => nomatch h) fun h => Nat.not_lt.2 hl h.1.2.2
      case isFalse hl => exact (and_iff_right ⟨he, Bool.eq_false_iff.2 hz, Nat.not_le.1 hl⟩).symm

theorem Keeps.locate (h : Keeps d d') (hl : d.locate path = .ok t) : d'.locate path = .ok t := by
  have ⟨hsayable, hwalk⟩ := locate_eq_ok.1 hl
  refine locate_eq_ok.2 ⟨hsayable, ?_⟩
  rw [start, h.cwd]
  exact foldlM_step_mono h.folders hwalk

theorem SameFolders.locate (h : SameFolders d d') (hl : d.locate path = .ok t) : d'.locate path = .ok t :=
  h.keeps.locate hl

theorem settled_ofSegments {names : List Segment} (h : ∀ s ∈ names, s ≠ [] ∧ ∀ c ∈ s, (c == '/') = false) :
    Settled (ofSegments true names) :=
  congrArg (ofSegments true) (namesOf_ofSegments h)

theorem settled_step (hh : Settled here) (hs : ∀ c ∈ s, (c == '/') = false) (h : d.step here s = .ok t) :
    Settled t := by
  by_cases hsame : s = [] ∨ s = ['.']
  case pos => rwa [step_same hsame h]
  case neg =>
    unfold step at h
    split at h
    · cases h
    · cases h
    · rw [if_neg hsame] at h
      split at h
      case isTrue =>
        cases h
        exact settled_ofSegments fun _ hm => namesOf_mem (List.dropLast_subset _ hm)
      case isFalse =>
        split at h
        · cases h
        · cases h
          refine settled_ofSegments fun u hm => ?_
          rcases List.mem_append.1 hm with hm | hm
          · exact namesOf_mem hm
          · rw [List.mem_singleton.1 hm]
            exact ⟨fun he => hsame (.inl he), hs⟩

theorem settled_foldlM (hh : Settled here) (hs : ∀ s ∈ segs, ∀ c ∈ s, (c == '/') = false)
    (h : segs.foldlM d.step here = .ok t) : Settled t := by
  induction segs generalizing here
  case nil =>
    cases h
    exact hh
  case cons s segs ih =>
    rw [List.foldlM_cons] at h
    cases hn : d.step here s
    case error => rw [hn] at h; cases h
    case ok next =>
      rw [hn] at h
      exact ih (settled_step hh (hs s (.head _)) hn) (fun s hm => hs s (.tail _ hm)) h

theorem no_slash_of_mem_segments (h : s ∈ segments path) (c : Char) (hc : c ∈ s) : (c == '/') = false :=
  (Text.not_mem_splitWhere h hc).2

theorem Proper.settled_start (h : d.Proper) (path : String) : Settled (d.start path) := by
  unfold start
  split
  case isTrue  => rfl
  case isFalse => exact h.cwd

theorem Proper.settled_locate (h : d.Proper) (hl : d.locate path = .ok t) : Settled t :=
  settled_foldlM (h.settled_start path) (fun _ hm => no_slash_of_mem_segments hm) (locate_eq_ok.1 hl).2

theorem Sayable.of_append {more : String} (hp : path ≠ "") (h : Sayable (path ++ more)) : Sayable path := by
  have ⟨_, hz, hl⟩ := h
  rw [String.toList_append] at hz
  rw [String.utf8ByteSize_append] at hl
  refine ⟨hp, ?_, by omega⟩
  rw [← Bool.not_eq_true, List.contains_iff_mem] at hz ⊢
  exact fun hm => hz (List.mem_append_left _ hm)

theorem start_append (d : Disk) {more : String} (hp : path ≠ "") : d.start (path ++ more) = d.start path := by
  have ⟨c, s, hs⟩ := List.exists_cons_of_ne_nil (mt String.toList_eq_nil_iff.1 hp)
  unfold start isRooted
  rw [String.toList_append, hs]
  rfl

-- The segments of a path to a name in a folder.
theorem segments_join (hp : path ≠ "") (hn : IsName name.toList) :
    ∃ more, join path name = path ++ more ∧ ∃ segs last, segments path = segs ++ last ∧ (last = [] ∨ last = [[]]) ∧
      segments (join path name) = segs ++ [name.toList] := by
  have hslash (c : Char) (hc : c ∈ name.toList) : (c == '/') = false := (no_slash_of_isName hn).2 c hc
  have hname : Text.splitWhere (· == '/') name.toList = [name.toList] := Text.splitWhere_of_none hslash
  have hhead : name.toList.head? ≠ some '/' := by
    intro hh
    have hc := hslash '/' (List.mem_of_mem_head? hh)
    cases hc
  unfold join
  rw [if_neg hhead]
  split
  case isTrue hlast =>
    have ⟨s, hs⟩ : ∃ s, path.toList = s ++ ['/'] := by
      have hne := mt String.toList_eq_nil_iff.1 hp
      rw [List.getLast?_eq_some_getLast hne] at hlast
      exact ⟨_, (List.dropLast_append_getLast hne).symm.trans (by rw [Option.some.inj hlast])⟩
    refine ⟨name, rfl, Text.splitWhere (· == '/') s, [[]], ?_, .inr rfl, ?_⟩
    · rw [segments, hs, Text.splitWhere_append_sep rfl]
      rfl
    · rw [segments, String.toList_append, hs, List.append_assoc, List.singleton_append,
        Text.splitWhere_append_sep rfl, hname]
  case isFalse =>
    refine ⟨"/" ++ name, String.append_assoc .., segments path, [], (List.append_nil _).symm, .inl rfl, ?_⟩
    have hsep : "/".toList = ['/'] := rfl
    rw [segments, String.toList_append, String.toList_append, hsep, List.append_assoc, List.singleton_append,
      Text.splitWhere_append_sep rfl, hname]
    rfl

-- A file in a folder is where the folder is, under its name.
theorem locate_join (hp : path ≠ "") (hn : IsName name.toList) (h : d.locate (join path name) = .ok t) :
    ∃ here, d.locate path = .ok here ∧ d.entry here = .folder ∧
      t = ofSegments true (namesOf here ++ [name.toList]) := by
  have ⟨more, hjoin, segs, last, hpath, hlast, hsegments⟩ := segments_join hp hn
  have ⟨hsayable, hwalk⟩ := locate_eq_ok.1 h
  rw [hsegments, List.foldlM_append] at hwalk
  rw [hjoin] at hsayable hwalk
  rw [start_append d hp] at hwalk
  cases hw : segs.foldlM d.step (d.start path)
  case error =>
    rw [hw] at hwalk
    cases hwalk
  case ok here =>
    rw [hw] at hwalk
    have hstep : d.step here name.toList = .ok t := by
      change [name.toList].foldlM d.step here = .ok t at hwalk
      simpa using hwalk
    have hfolder := folder_of_step hstep
    refine ⟨here, locate_eq_ok.2 ⟨hsayable.of_append hp, ?_⟩, hfolder, step_name hn hstep⟩
    rw [hpath, List.foldlM_append, hw]
    rcases hlast with hlast | hlast
    case inl =>
      rw [hlast]
      rfl
    case inr =>
      have hsame : d.step here [] = .ok here := by
        unfold step
        rw [hfolder]
        rfl
      rw [hlast]
      change [[]].foldlM d.step here = .ok here
      simpa using hsame

theorem entry_eq_file : d.entry path = .file text ↔ d.files.get? path = some text := by
  unfold entry
  cases d.files.get? path
  case some => exact ⟨fun h => congrArg some (Entry.file.inj h), fun h => congrArg Entry.file (Option.some.inj h)⟩
  case none =>
    refine iff_of_false (fun h => ?_) fun h => nomatch h
    dsimp only at h
    split at h <;> cases h

theorem entry_insert (d : Disk) (here text path : String) :
    ({ d with files := d.files.insert here text } : Disk).entry path =
      if path = here then .file text else d.entry path := by
  unfold entry
  rw [Dict.get?_insert]
  by_cases hp : path = here
  case pos => simp [hp]
  case neg => simp [hp]

theorem entry_erase (h : here ≠ "/" ∧ here ∉ d.folders) (path : String) :
    ({ d with files := d.files.erase here } : Disk).entry path =
      if path = here then .missing else d.entry path := by
  unfold entry
  rw [Dict.get?_erase]
  by_cases hp : path = here
  case pos => simp [hp, h]
  case neg => simp [hp]

theorem Proper.apart_of_not_folder (h : d.Proper) (hf : d.entry here ≠ .folder) : here ≠ "/" ∧ here ∉ d.folders := by
  cases hg : d.files.get? here
  case some => exact h.apart here (Dict.mem_keys_of_get? hg)
  case none =>
    unfold entry at hf
    rw [hg] at hf
    dsimp only at hf
    split at hf
    case isTrue            => exact absurd rfl hf
    case isFalse hnot      => exact not_or.1 hnot

-- A file is put in a place or taken from it.
theorem Proper.edit (h : d.Proper) (hf : d.entry here ≠ .folder) {e : Entry} (hn : e ≠ .folder)
    (he : ∀ path, d'.entry path = if path = here then e else d.entry path) (hc : d'.cwd = d.cwd)
    (hfolders : d'.folders = d.folders) (hkeys : ∀ path ∈ d'.files.keys, path = here ∨ path ∈ d.files.keys) :
    Edit here d d' where
  same := by
    refine ⟨hc, fun path => ?_⟩
    rw [he]
    split
    case isTrue hp => exact iff_of_false hn (hp ▸ hf)
    case isFalse   => exact .rfl
  proper _ := by
    refine ⟨hc ▸ h.cwd, fun path hm => ?_⟩
    rw [hfolders]
    rcases hkeys path hm with hp | hm
    case inl =>
      rw [hp]
      exact h.apart_of_not_folder hf
    case inr => exact h.apart path hm
  others path hp := by rw [he, if_neg hp]

-- Writing and removing where it is known what a path leads to.
theorem write_located (hl : d.locate path = .ok here) : d.write path text =
    match d.entry here with
    | .folder => throw .isAFolder
    | .file _ => pure { d with files := d.files.insert here text }
    | .missing =>
      if d.entry (parent here) = .folder then pure { d with files := d.files.insert here text }
      else throw .notFound := by
  rw [Disk.write, hl]
  rfl

theorem remove_located (hl : d.locate path = .ok here) : d.remove path =
    match d.entry here with
    | .file _  => pure { d with files := d.files.erase here }
    | .folder  => throw .isAFolder
    | .missing => throw .notFound := by
  rw [Disk.remove, hl]
  rfl

theorem write_eq_ok (hl : d.locate path = .ok here) : d.write path text = .ok d' ↔
    d.entry here ≠ .folder ∧ (d.entry here = .missing → d.entry (parent here) = .folder) ∧
      d' = { d with files := d.files.insert here text } := by
  rw [write_located hl]
  cases d.entry here
  case folder => exact iff_of_false (fun h => by cases h) fun h => h.1 rfl
  case file old => exact ⟨fun h => ⟨by simp, by simp, (Except.ok.inj h).symm⟩, fun h => congrArg Except.ok h.2.2.symm⟩
  case missing =>
    dsimp only
    split
    case isTrue hp =>
      exact ⟨fun h => ⟨by simp, fun _ => hp, (Except.ok.inj h).symm⟩, fun h => congrArg Except.ok h.2.2.symm⟩
    case isFalse hp => exact iff_of_false (fun h => by cases h) fun h => hp (h.2.1 rfl)

theorem remove_eq_ok (hl : d.locate path = .ok here) : d.remove path = .ok d' ↔
    (∃ text, d.entry here = .file text) ∧ d' = { d with files := d.files.erase here } := by
  rw [remove_located hl]
  cases d.entry here
  case file text => exact ⟨fun h => ⟨⟨text, rfl⟩, (Except.ok.inj h).symm⟩, fun h => congrArg Except.ok h.2.symm⟩
  all_goals
    refine iff_of_false (fun h => by cases h) fun h => ?_
    obtain ⟨⟨_, h⟩, _⟩ := h
    cases h

theorem read_of_locate (hl : d.locate path = .ok here) : d.read path =
    match d.entry here with
    | .file text => .ok text
    | .folder    => .error .isAFolder
    | .missing   => .error .notFound := by
  rw [Disk.read, hl]
  rfl

theorem read_congr (hl : d.locate path = .ok here) (hl' : d'.locate path = .ok here)
    (he : d'.entry here = d.entry here) : d'.read path = d.read path := by
  rw [read_of_locate hl, read_of_locate hl', he]

theorem read_eq_ok (hl : d.locate path = .ok here) : d.read path = .ok text ↔ d.entry here = .file text := by
  rw [read_of_locate hl]
  cases d.entry here
  case file =>
    exact ⟨fun h => congrArg Entry.file (Except.ok.inj h), fun h => congrArg Except.ok (Entry.file.inj h)⟩
  case folder   => exact iff_of_false (fun h => nomatch h) fun h => nomatch h
  case missing  => exact iff_of_false (fun h => nomatch h) fun h => nomatch h

theorem Proper.write (h : d.Proper) (hl : d.locate path = .ok here) (hw : d.write path text = .ok d') :
    Edit here d d' ∧ d'.entry here = .file text := by
  have ⟨hf, _, hd⟩ := (write_eq_ok hl).1 hw
  subst hd
  refine ⟨h.edit hf (e := .file text) (by simp) (entry_insert d here text) rfl rfl fun path hm => ?_, ?_⟩
  · change path ∈ (d.files.insert here text).keys at hm
    rw [Dict.keys_insert] at hm
    split at hm
    case isTrue  => exact .inr hm
    case isFalse => exact (List.mem_append.1 hm).symm.imp List.mem_singleton.1 id
  · rw [entry_insert, if_pos rfl]

theorem Proper.remove (h : d.Proper) (hl : d.locate path = .ok here) (hr : d.remove path = .ok d') :
    Edit here d d' ∧ d'.entry here = .missing := by
  have ⟨⟨text, he⟩, hd⟩ := (remove_eq_ok hl).1 hr
  have hf : d.entry here ≠ .folder := by rw [he]; simp
  have herase := entry_erase (h.apart_of_not_folder hf)
  subst hd
  refine ⟨h.edit hf (e := .missing) (by simp) herase rfl rfl fun path hm => ?_, ?_⟩
  · exact .inr ((List.filter_sublist.map _).subset hm)
  · rw [herase, if_pos rfl]

-- What is left after a try to remove a file.
def discard (disk : Disk) (path : String) : Disk :=
  (disk.remove path).toOption.getD disk

-- Some files are gone, and nothing else changed.
structure Cleared (d d' : Disk) : Prop where
  same   : SameFolders d d'
  proper : d'.Proper
  files  : ∀ path text, d'.entry path = .file text → d.entry path = .file text

theorem Cleared.refl (h : d.Proper) : Cleared d d :=
  ⟨.refl d, h, fun _ _ he => he⟩

theorem Cleared.trans (h : Cleared d d') (h' : Cleared d' d'') : Cleared d d'' :=
  ⟨h.same.trans h'.same, h'.proper, fun path text he => h.files path text (h'.files path text he)⟩

-- What is missing cannot come back.
theorem Cleared.missing (h : Cleared d d') (he : d.entry path = .missing) : d'.entry path = .missing := by
  cases he' : d'.entry path
  case file text => cases he.symm.trans (h.files path text he')
  case folder    => cases he.symm.trans ((h.same.folders path).1 he')
  case missing   => rfl

theorem Edit.cleared (h : Edit here d d') (hp : d.Proper) (he : d'.entry here = .missing) : Cleared d d' := by
  refine ⟨h.same, h.proper hp, fun path text ht => ?_⟩
  by_cases hpath : path = here
  case pos =>
    rw [hpath, he] at ht
    cases ht
  case neg => exact (h.others path hpath).symm.trans ht

theorem Proper.discard (h : d.Proper) (hl : d.locate path = .ok here) (hf : d.entry here ≠ .folder) :
    Edit here d (d.discard path) ∧ (d.discard path).entry here = .missing := by
  unfold Disk.discard
  cases hr : d.remove path
  case ok d' => exact h.remove hl hr
  case error =>
    refine ⟨.refl here d, ?_⟩
    cases he : d.entry here
    case file text => cases hr.symm.trans ((remove_eq_ok hl).2 ⟨⟨text, he⟩, rfl⟩)
    case folder    => exact absurd he hf
    case missing   => exact he

theorem Proper.discard_cleared (h : d.Proper) (path : String) : Cleared d (d.discard path) := by
  unfold Disk.discard
  cases hr : d.remove path
  case error => exact .refl h
  case ok d' =>
    cases hl : d.locate path
    case error =>
      rw [Disk.remove, hl] at hr
      cases hr
    case ok here =>
      have ⟨hedit, hentry⟩ := h.remove hl hr
      exact hedit.cleared h hentry

theorem names_in (here : String) (hn : IsName name.toList) :
    ∀ s ∈ namesOf here ++ [name.toList], s ≠ [] ∧ ∀ c ∈ s, (c == '/') = false := by
  intro s hm
  rcases List.mem_append.1 hm with hm | hm
  · exact namesOf_mem hm
  · exact List.mem_singleton.1 hm ▸ no_slash_of_isName hn

theorem parent_in (hh : Settled here) (hn : IsName name.toList) :
    parent (ofSegments true (namesOf here ++ [name.toList])) = here := by
  change ofSegments true (namesOf (ofSegments true (namesOf here ++ [name.toList]))).dropLast = here
  rw [namesOf_ofSegments (names_in here hn), List.dropLast_concat]
  exact hh

-- A file in a folder is among the names there.
theorem Proper.mem_names (h : d.Proper) (hp : d.locate path = .ok here) (hf : d.entry here = .folder)
    (hn : IsName name.toList) (ht : d.entry (ofSegments true (namesOf here ++ [name.toList])) = .file text) :
    name ∈ d.names path := by
  have hall := names_in here hn
  have hparent := parent_in (h.settled_locate hp) hn
  have hname : nameIn (ofSegments true (namesOf here ++ [name.toList])) = name := by
    have hsegments :
        segments (ofSegments true (namesOf here ++ [name.toList])) = [] :: (namesOf here ++ [name.toList]) := by
      rw [segments, ofSegments, if_pos rfl, String.toList_ofList, Text.splitWhere, if_pos (by decide),
        Text.splitWhere_join rfl (fun s hm => (hall s hm).2) (by simp)]
    rw [nameIn, hsegments, ← List.cons_append, List.getLast?_concat]
    exact String.ofList_toList
  have hm := Dict.mem_keys_of_get? (entry_eq_file.1 ht)
  have hroot := (h.apart _ hm).1
  rw [names, hp]
  dsimp only
  rw [if_pos hf, list, List.mem_mergeSort, List.mem_filterMap]
  exact ⟨_, List.mem_append_left _ hm, by rw [if_pos ⟨hroot, hparent⟩, hname]⟩

-- A folder that a path leads to, step by step.
def Opens (disk : Disk) (path : String) : Prop :=
  ∃ here, (segments path).foldlM disk.step (disk.start path) = .ok here ∧ disk.entry here = .folder

theorem Keeps.opens (h : Keeps d d') (ho : d.Opens path) : d'.Opens path := by
  obtain ⟨here, hwalk, hf⟩ := ho
  refine ⟨here, ?_, h.folders here hf⟩
  rw [start, h.cwd]
  exact foldlM_step_mono h.folders hwalk

theorem SameFolders.opens (h : SameFolders d d') (ho : d.Opens path) : d'.Opens path :=
  h.keeps.opens ho

theorem entry_addFolders (h : d.entry here = .missing) (path : String) :
    (d.addFolders [here]).entry path = if path = here then .folder else d.entry path := by
  unfold entry at h ⊢
  unfold addFolders
  cases hg : d.files.get? here
  case some text =>
    rw [hg] at h
    cases h
  case none =>
    rw [hg] at h
    dsimp only at h
    split at h
    case isTrue => cases h
    case isFalse hn =>
      have hnot := (not_or.1 hn).2
      by_cases hp : path = here
      case pos => simp [hp, hg, hnot]
      case neg => simp [hp, hnot]

theorem descend_step {a : String} (hs : d.step a s = .ok here) : descend (d, a) s =
    match d.entry here with
    | .missing => pure (d.addFolders [here], here)
    | _        => pure (d, here) := by
  unfold descend
  dsimp only
  rw [hs]
  rfl

theorem descend_eq {a : String} (hs : d.step a s = .ok here) :
    descend (d, a) s = .ok (if d.entry here = .missing then d.addFolders [here] else d, here) := by
  rw [descend_step hs]
  cases d.entry here <;> rfl

theorem step_of_descend {a : String} {r : Disk × String} (h : descend (d, a) s = .ok r) :
    ∃ next, d.step a s = .ok next := by
  cases hs : d.step a s
  case ok next => exact ⟨next, rfl⟩
  case error e =>
    have hfail : descend (d, a) s = .error e := by
      unfold descend
      dsimp only
      rw [hs]
      rfl
    cases hfail.symm.trans h

theorem createFolders_eq (d : Disk) (path : String) : d.createFolders path = (do
    let (disk, here) ← (segments path).foldlM descend (d, d.start path)
    match disk.entry here with
    | .file _ => throw .alreadyExists
    | _       => pure disk) :=
  rfl

theorem createFolders_descended {made : Disk}
    (hd : (segments path).foldlM descend (d, d.start path) = .ok (made, here)) : d.createFolders path =
    match made.entry here with
    | .file _ => throw .alreadyExists
    | _       => pure made := by
  rw [createFolders_eq, hd]
  rfl

theorem createFolders_stopped {fault : DiskFault}
    (hd : (segments path).foldlM descend (d, d.start path) = .error fault) : d.createFolders path = .error fault := by
  rw [createFolders_eq, hd]
  rfl

-- Where all folders are there already, none is made.
theorem Opens.createFolders (h : d.Opens path) : d.createFolders path = .ok d := by
  obtain ⟨here, hwalk, hf⟩ := h
  have hdescend (segs : List Segment) (a : String) (hwalk : segs.foldlM d.step a = .ok here) :
      d.entry a = .folder ∧ segs.foldlM descend (d, a) = .ok (d, here) := by
    induction segs generalizing a
    case nil =>
      cases hwalk
      exact ⟨hf, rfl⟩
    case cons s segs ih =>
      rw [List.foldlM_cons] at hwalk ⊢
      cases hs : d.step a s
      case error =>
        rw [hs] at hwalk
        cases hwalk
      case ok next =>
        rw [hs] at hwalk
        have ⟨hnext, hrest⟩ := ih next hwalk
        refine ⟨folder_of_step hs, ?_⟩
        rw [descend_eq hs, hnext]
        exact hrest
  rw [createFolders_descended (hdescend _ _ hwalk).2, hf]
  rfl

theorem mem_addFolders (hp : path ∈ (d.addFolders [here]).folders) : path ∈ d.folders ∨ path = here := by
  have hadd : (d.addFolders [here]).folders = if here ∈ d.folders then d.folders else d.folders ++ [here] := rfl
  rw [hadd] at hp
  split at hp
  case isTrue  => exact .inl hp
  case isFalse => exact (List.mem_append.1 hp).imp_right List.mem_singleton.1

theorem Proper.addFolder (h : d.Proper) (hm : d.entry here = .missing) : (d.addFolders [here]).Proper := by
  refine ⟨h.cwd, fun path hp => ⟨(h.apart path hp).1, fun hf => ?_⟩⟩
  rcases mem_addFolders hf with hf | rfl
  · exact (h.apart path hp).2 hf
  · have ⟨text, hg⟩ := Dict.get?_of_mem_keys (show path ∈ d.files.keys from hp)
    cases (entry_eq_file.2 hg).symm.trans hm

-- What making folders on the way comes to.
structure Grown (a : String) (segs : List Segment) (here : String) (d d' : Disk) : Prop where
  proper  : d'.Proper
  cwd     : d'.cwd = d.cwd
  folders : ∀ path, d.entry path = .folder → d'.entry path = .folder
  walk    : segs.foldlM d'.step a = .ok here
  there   : d.entry a ≠ .missing → d'.entry here ≠ .missing

theorem Proper.descend (h : d.Proper) {a : String} (hd : segs.foldlM Disk.descend (d, a) = .ok (d', here)) :
    Grown a segs here d d' := by
  induction segs generalizing d a
  case nil =>
    cases hd
    exact ⟨h, rfl, fun _ hf => hf, rfl, id⟩
  case cons s segs ih =>
    rw [List.foldlM_cons] at hd
    cases hn : Disk.descend (d, a) s
    case error e =>
      rw [hn] at hd
      cases hd
    case ok =>
      have ⟨next, hs⟩ := step_of_descend hn
      rw [descend_eq hs] at hd
      change segs.foldlM Disk.descend _ = .ok (d', here) at hd
      have hwalk {d₁ : Disk} (hf : d₁.entry a = .folder → d'.entry a = .folder) (hfolder : d₁.entry a = .folder)
          (hrest : segs.foldlM d'.step next = .ok here) (hstep : d₁.step a s = .ok next) :
          (s :: segs).foldlM d'.step a = .ok here := by
        rw [List.foldlM_cons, step_congr hfolder (hf hfolder), hstep]
        exact hrest
      split at hd
      case isTrue hm =>
        have hentry := entry_addFolders hm
        have hrest := ih (h.addFolder hm) hd
        have hfolders (path : String) (hf : d.entry path = .folder) : d'.entry path = .folder := by
          refine hrest.folders path ?_
          rw [hentry]
          split
          case isTrue  => rfl
          case isFalse => exact hf
        refine ⟨hrest.proper, hrest.cwd, hfolders, hwalk (hfolders a) (folder_of_step hs) hrest.walk hs, fun _ => ?_⟩
        refine hrest.there ?_
        rw [hentry, if_pos rfl]
        simp
      case isFalse hm =>
        have hrest := ih h hd
        exact ⟨hrest.proper, hrest.cwd, hrest.folders, hwalk (hrest.folders a) (folder_of_step hs) hrest.walk hs,
          fun _ => hrest.there hm⟩

theorem Proper.createFolders (h : d.Proper) (hc : d.createFolders path = .ok d') : d'.Proper ∧ d'.Opens path := by
  cases hd : (segments path).foldlM Disk.descend (d, d.start path)
  case error =>
    rw [createFolders_stopped hd] at hc
    cases hc
  case ok r =>
    obtain ⟨d₁, here⟩ := r
    have hgrown := h.descend hd
    rw [createFolders_descended hd] at hc
    have hstart : d.entry (d.start path) ≠ .missing := by
      obtain ⟨s, segs, hs⟩ := List.exists_cons_of_ne_nil (Text.splitWhere_ne_nil (· == '/') path.toList)
      rw [segments, hs, List.foldlM_cons] at hd
      cases hn : Disk.descend (d, d.start path) s
      case error =>
        rw [hn] at hd
        cases hd
      case ok =>
        obtain ⟨_, hstep⟩ := step_of_descend hn
        rw [folder_of_step hstep]
        simp
    have hthere := hgrown.there hstart
    cases he : d₁.entry here
    case file    => rw [he] at hc; cases hc
    case missing => exact absurd he hthere
    case folder =>
      rw [he] at hc
      cases hc
      refine ⟨hgrown.proper, here, ?_, he⟩
      rw [start, hgrown.cwd]
      exact hgrown.walk

end

end Disk

end ScopedCss
