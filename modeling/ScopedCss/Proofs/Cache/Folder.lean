import ScopedCss.Cache.Basic
import ScopedCss.Proofs.Cache.Entry
import ScopedCss.Proofs.Disk.Files

namespace ScopedCss

namespace CacheEntry

-- The name of the file for a path, and the file in the folder of a cache.
def nameOf (path : String) : String :=
  fingerprint path ++ ".json"

def fileIn (folder path : String) : String :=
  Path.join folder (nameOf path)

section

theorem isAlphanum_fingerprint (path : String) : ∀ c ∈ (fingerprint path).toList, c.isAlphanum = true := by
  have hdigit (n : Nat) (h : n < 16) : (Nat.digitChar n).isAlphanum = true := by
    interval_cases n <;> decide
  intro c hc
  rw [fingerprint, String.toList_ofList, List.mem_flatMap] at hc
  have ⟨b, _, hb⟩ := hc
  have hlt := b.toNat_lt
  unfold Md5.hexDigits at hb
  rcases List.mem_cons.1 hb with hb | hb
  · exact hb ▸ hdigit _ (by omega)
  · exact List.mem_singleton.1 hb ▸ hdigit _ (by omega)

theorem fingerprint_ne_nil (path : String) : (fingerprint path).toList ≠ [] := by
  have ⟨b, bytes, hb⟩ := List.exists_cons_of_length_pos (l := Md5.digest path.toUTF8.toList) (by
    rw [Md5.length_digest]
    decide)
  rw [fingerprint, String.toList_ofList, hb]
  exact List.cons_ne_nil _ _

theorem toList_nameOf (path : String) : (nameOf path).toList = (fingerprint path).toList ++ ['.', 'j', 's', 'o', 'n'] :=
  String.toList_append

theorem not_isSeparator_nameOf (path : String) : ∀ c ∈ (nameOf path).toList, Path.isSeparator c = false := by
  intro c hc
  rw [toList_nameOf] at hc
  rcases List.mem_append.1 hc with hc | hc
  case inl =>
    have halnum := isAlphanum_fingerprint path c hc
    rw [← Bool.not_eq_true]
    intro hs
    rcases (by simpa [Path.isSeparator] using hs : c = '/' ∨ c = '\\') with he | he
    all_goals
      subst he
      cases halnum
  case inr =>
    simp only [List.mem_cons, List.not_mem_nil, or_false] at hc
    rcases hc with he | he | he | he | he
    all_goals
      subst he
      decide

theorem isName_nameOf (path : String) : Path.IsName (nameOf path).toList := by
  have hlength : 6 ≤ (nameOf path).toList.length := by
    have := List.length_pos_iff.2 (fingerprint_ne_nil path)
    rw [toList_nameOf, List.length_append]
    simp
    omega
  refine ⟨?_, ?_, ?_, not_isSeparator_nameOf path⟩
  all_goals
    intro he
    rw [he] at hlength
    simp at hlength

theorem nameOf_inj {p q : String} (h : nameOf p = nameOf q) : fingerprint p = fingerprint q := by
  have hlist := congrArg String.toList h
  rw [toList_nameOf, toList_nameOf] at hlist
  exact String.toList_inj.1 (List.append_cancel_right hlist)

end

end CacheEntry

namespace Path

theorem basename_of_no_separator {path : String} (h : ∀ c ∈ path.toList, isSeparator c = false) :
    basename path = path := by
  have hlast : Text.dropWhileEnd (· == '/') path.toList = path.toList := by
    rw [Text.dropWhileEnd]
    cases hr : path.toList.reverse
    case nil => simpa using hr.symm
    case cons c s =>
      have hc := h c (List.mem_reverse.1 (by simp [hr]))
      have hslash : (c == '/') = false := (Bool.or_eq_false_iff.1 hc).1
      rw [List.dropWhile_cons_of_neg (by simp [hslash]), ← hr, List.reverse_reverse]
  have hall : Text.takeWhileEnd (!isSeparator ·) path.toList = path.toList := by
    have hchars : ∀ c ∈ path.toList.reverse, (!isSeparator c) = true := by simpa using h
    rw [Text.takeWhileEnd, List.takeWhile_eq_self_iff.2 hchars, List.reverse_reverse]
  rw [basename, hlast, hall, String.ofList_toList]

end Path

namespace CacheEntry

theorem extension_nameOf (path : String) : Path.extension (nameOf path) = ".json" := by
  have hcut : Text.cutLast? (· == '.') (nameOf path).toList = some ((fingerprint path).toList, '.', "json".toList) := by
    rw [toList_nameOf, Text.cutLast?, List.reverse_append]
    change some ((fingerprint path).toList.reverse.reverse, '.', "json".toList) = _
    rw [List.reverse_reverse]
  rw [Path.extension, Path.splitExtension, Path.basename_of_no_separator (not_isSeparator_nameOf path), hcut]
  obtain ⟨c, s, hs⟩ := List.exists_cons_of_ne_nil (fingerprint_ne_nil path)
  rw [hs]
  rfl

end CacheEntry

open CacheEntry

-- The entry that is in its file for a path.
def Disk.stored (disk : Disk) (folder path : String) : Option CacheEntry :=
  match disk.read (fileIn folder path) with
  | .ok text => (CacheEntry.parse? text).filter (·.path = path)
  | .error _ => none

-- Where the file for a path is in a folder at a place.
def CacheEntry.spotIn (here path : String) : String :=
  Path.ofSegments true (Path.namesOf here ++ [(nameOf path).toList])

-- A folder in which the files for these paths can be written. Where it is shows from any of them.
structure Houses (folder : String) (used : String → Prop) (here : String) (disk : Disk) : Prop where
  proper   : disk.Proper
  opens    : disk.Opens folder
  located  : ∀ path, used path → disk.locate folder = .ok here
  isFolder : ∀ path, used path → disk.entry here = .folder
  files    : ∀ path, used path → disk.locate (fileIn folder path) = .ok (spotIn here path)
  free     : ∀ path, used path → disk.entry (spotIn here path) ≠ .folder
  apart    : ∀ p q, used p → used q → fingerprint p = fingerprint q → p = q

namespace Houses

variable {folder here path q text : String} {used : String → Prop} {disk disk' : Disk}

theorem of_writes (hp : disk.Proper) (ho : disk.Opens folder) (hf : folder ≠ "")
    (hi : ∀ p q, used p → used q → fingerprint p = fingerprint q → p = q)
    (hw : ∀ path, used path → ∀ text, ∃ disk', disk.write (fileIn folder path) text = .ok disk') :
    ∃ here, Houses folder used here disk := by
  have hfiles (path : String) (hu : used path) : ∃ here, disk.locate folder = .ok here ∧
      disk.entry here = .folder ∧ disk.locate (fileIn folder path) = .ok (spotIn here path) ∧
      disk.entry (spotIn here path) ≠ .folder := by
    obtain ⟨disk', hwrite⟩ := hw path hu ""
    cases ht : disk.locate (fileIn folder path)
    case error =>
      rw [Disk.write, ht] at hwrite
      cases hwrite
    case ok t =>
      obtain ⟨here, hl, hfolder, hspot⟩ := Disk.locate_join hf (isName_nameOf path) ht
      have hfree := ((Disk.write_eq_ok ht).1 hwrite).1
      rw [hspot] at hfree
      exact ⟨here, hl, hfolder, congrArg Except.ok hspot, hfree⟩
  cases hl : disk.locate folder
  case error =>
    have hnone (path : String) : ¬used path := fun hu => by
      obtain ⟨here, hl', _⟩ := hfiles path hu
      cases hl.symm.trans hl'
    exact ⟨"", hp, ho, fun path u => absurd u (hnone path), fun path u => absurd u (hnone path),
      fun path u => absurd u (hnone path), fun path u => absurd u (hnone path), hi⟩
  case ok here =>
    have hsame (path : String) (hu : used path) : disk.entry here = .folder ∧
        disk.locate (fileIn folder path) = .ok (spotIn here path) ∧ disk.entry (spotIn here path) ≠ .folder := by
      obtain ⟨here', hl', hrest⟩ := hfiles path hu
      cases hl.symm.trans hl'
      exact hrest
    exact ⟨here, hp, ho, fun _ _ => hl, fun path u => (hsame path u).1, fun path u => (hsame path u).2.1,
      fun path u => (hsame path u).2.2, hi⟩

theorem same (h : Houses folder used here disk) (hs : Disk.SameFolders disk disk') (hp : disk'.Proper) :
    Houses folder used here disk' where
  proper          := hp
  opens           := hs.opens h.opens
  located path u  := hs.locate (h.located path u)
  isFolder path u := (hs.folders here).2 (h.isFolder path u)
  files path u    := hs.locate (h.files path u)
  free path u     := mt (hs.folders _).1 (h.free path u)
  apart           := h.apart

theorem edit (h : Houses folder used here disk) {spot : String} (he : Disk.Edit spot disk disk') :
    Houses folder used here disk' :=
  h.same he.same (he.proper h.proper)

theorem spotIn_inj {p q : String} (h : spotIn here p = spotIn here q) : fingerprint p = fingerprint q := by
  have hnames := congrArg Path.namesOf h
  rw [spotIn, spotIn, Path.namesOf_ofSegments (Disk.names_in here (isName_nameOf p)),
    Path.namesOf_ofSegments (Disk.names_in here (isName_nameOf q))] at hnames
  exact nameOf_inj (String.toList_inj.1 (List.singleton_inj.1 (List.append_cancel_left hnames)))

theorem stored_of_file (h : Houses folder used here disk) (hu : used path)
    (he : disk.entry (spotIn here path) = .file text) :
    disk.stored folder path = (CacheEntry.parse? text).filter (·.path = path) := by
  rw [Disk.stored, (Disk.read_eq_ok (h.files path hu)).2 he]

theorem stored_of_missing (h : Houses folder used here disk) (hu : used path)
    (he : disk.entry (spotIn here path) = .missing) : disk.stored folder path = none := by
  rw [Disk.stored, Disk.read_of_locate (h.files path hu), he]

-- The files of two paths are two files.
theorem read_other (h : Houses folder used here disk) (hp : used path) (hq : used q) (hne : q ≠ path)
    (he : Disk.Edit (spotIn here path) disk disk') : disk'.read (fileIn folder q) = disk.read (fileIn folder q) := by
  have hspot : spotIn here q ≠ spotIn here path := fun hs => hne (h.apart q path hq hp (spotIn_inj hs))
  exact Disk.read_congr (h.files q hq) ((h.edit he).files q hq) (he.others _ hspot)

theorem stored_other (h : Houses folder used here disk) (hp : used path) (hq : used q) (hne : q ≠ path)
    (he : Disk.Edit (spotIn here path) disk disk') : disk'.stored folder q = disk.stored folder q := by
  rw [Disk.stored, Disk.stored, h.read_other hp hq hne he]

theorem write (h : Houses folder used here disk) (hu : used path) (text : String) :
    ∃ disk', disk.write (fileIn folder path) text = .ok disk' ∧ Disk.Edit (spotIn here path) disk disk' ∧
      disk'.entry (spotIn here path) = .file text := by
  have hparent : disk.entry (Disk.parent (spotIn here path)) = .folder := by
    rw [spotIn, Disk.parent_in (h.proper.settled_locate (h.located path hu)) (isName_nameOf path)]
    exact h.isFolder path hu
  have hwrite : disk.write (fileIn folder path) text =
      .ok { disk with files := disk.files.insert (spotIn here path) text } :=
    (Disk.write_eq_ok (h.files path hu)).2 ⟨h.free path hu, fun _ => hparent, rfl⟩
  exact ⟨_, hwrite, h.proper.write (h.files path hu) hwrite⟩

theorem discard (h : Houses folder used here disk) (hu : used path) :
    Disk.Edit (spotIn here path) disk (disk.discard (fileIn folder path)) ∧
      (disk.discard (fileIn folder path)).entry (spotIn here path) = .missing :=
  h.proper.discard (h.files path hu) (h.free path hu)

-- A file for a path is among those that are removed when all are.
theorem mem_names (h : Houses folder used here disk) (hu : used path)
    (he : disk.entry (spotIn here path) = .file text) :
    nameOf path ∈ (disk.names folder).filter (Path.extension · = ".json") := by
  have hm := h.proper.mem_names (h.located path hu) (h.isFolder path hu) (isName_nameOf path) he
  exact List.mem_filter.2 ⟨hm, decide_eq_true (extension_nameOf path)⟩

end Houses

end ScopedCss
