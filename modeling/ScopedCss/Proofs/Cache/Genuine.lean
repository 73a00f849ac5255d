import ScopedCss.Proofs.Cache.Persistent

namespace ScopedCss

open CacheEntry

-- The cache is used, or others change the files under it.
inductive CacheEvent
  | used (op : CacheOp)
  | changed (disk : Disk)

-- The states that a cache gets into, with what happened so far and the state it happened in, last first.
inductive CacheRun (folder : String) : List (Workspace × CacheEvent) → Workspace → Prop
  | inMemory (disk : Disk) : CacheRun folder [] (.inMemory disk)
  | opened {w w' : Workspace} (ho : w.openCache folder = .ok w') : CacheRun folder [] w'
  | used {past : List (Workspace × CacheEvent)} {w w' : Workspace} {op : CacheOp} {answer : Option Compiled}
      (h : CacheRun folder past w) (ho : op.run folder w = .ok (answer, w')) : CacheRun folder ((w, .used op) :: past) w'
  | changed {past : List (Workspace × CacheEvent)} {w : Workspace} (h : CacheRun folder past w) (disk : Disk) :
      CacheRun folder ((w, .changed disk) :: past) { w with disk }

-- Where an entry for a path comes from: it was put in, or a lookup found it in the file for the path.
inductive CacheEntry.Genuine (folder : String) (past : List (Workspace × CacheEvent)) (path : String) (e : CacheEntry) : Prop
  | inserted {w : Workspace} (h : (w, .used (.insert e)) ∈ past) (hp : e.path = path)
  | stored {w : Workspace} {key : String} {hashes : String → Option String}
      (h : (w, .used (.get path key hashes)) ∈ past) (hs : w.disk.stored folder path = some e)

namespace CacheEntry

variable {folder path : String} {past : List (Workspace × CacheEvent)} {e : CacheEntry}

theorem Genuine.later (h : e.Genuine folder past path) (now : Workspace × CacheEvent) :
    e.Genuine folder (now :: past) path := by
  cases h
  case inserted h hp => exact .inserted (.tail _ h) hp
  case stored h hs   => exact .stored (.tail _ h) hs

theorem path_of_stored {disk : Disk} (h : disk.stored folder path = some e) : e.path = path := by
  unfold Disk.stored at h
  split at h
  case h_1 => exact of_decide_eq_true (Option.filter_eq_some_iff.1 h).2
  case h_2 => cases h

-- An entry is for the path that it is found under, by its own account.
theorem Genuine.path_eq (h : e.Genuine folder past path) : e.path = path := by
  cases h
  case inserted h hp => exact hp
  case stored h hs   => exact path_of_stored hs

end CacheEntry

-- A file that was removed is not there, whatever else is.
theorem Disk.isFile_of_remove {d d' : Disk} {path : String} (h : d.remove path = .ok d') : d'.isFile path = false := by
  cases hl : d.locate path
  case error =>
    rw [Disk.remove, hl] at h
    cases h
  case ok here =>
    obtain ⟨⟨text, hfile⟩, rfl⟩ := (Disk.remove_eq_ok hl).1 h
    have hkeeps : Disk.Keeps d { d with files := d.files.erase here } := by
      refine ⟨rfl, fun other hf => ?_⟩
      have hne : other ≠ here := by
        rintro rfl
        cases hf.symm.trans hfile
      unfold Disk.entry at hf ⊢
      rwa [Dict.get?_erase, if_neg hne]
    have hgone : ({ d with files := d.files.erase here } : Disk).files.get? here = none := by
      rw [Dict.get?_erase, if_pos rfl]
    rw [Disk.isFile, Disk.entryAt, hkeeps.locate hl]
    dsimp only
    rw [Disk.entry, hgone]
    dsimp only
    split
    case h_1 he =>
      split at he <;> cases he
    case h_2 => rfl

namespace Workspace

variable {folder path key : String} {hashes : String → Option String} {w w' : Workspace}

@[simp]
theorem removeFile_cache (w : Workspace) (file : String) : (w.removeFile file).cache = w.cache := by
  rw [removeFile_eq]

theorem forget_cache (w : Workspace) (path : String) :
    (w.forget path).cache = { w.cache with entries := w.cache.entries.erase path } := by
  unfold forget
  dsimp only
  split
  case h_1 => rw [removeFile_cache]; rfl
  case h_2 => rfl

theorem remember_cache (w : Workspace) (e : CacheEntry) :
    (w.remember e).cache = { w.cache with entries := w.cache.entries.insert e.path e } := by
  have hwrite : (w.writeEntry e).cache = w.cache := by
    unfold writeEntry
    split
    case h_1 => rfl
    case h_2 => split <;> rfl
  change ({ (w.writeEntry e).cache with entries := (w.writeEntry e).cache.entries.insert e.path e } : BuildCache) = _
  rw [hwrite]

theorem forgetAll_cache (w : Workspace) : w.forgetAll.cache = { w.cache with entries := ∅ } := by
  have hfiles (v : Workspace) (folder : String) (names : List String) :
      (names.foldl (fun v name => v.removeFile (Path.join folder name)) v).cache = v.cache := by
    induction names generalizing v
    case nil => rfl
    case cons name names ih => rw [List.foldl_cons, ih, removeFile_cache]
  unfold forgetAll
  dsimp only
  split
  case h_1 => rfl
  case h_2 => rw [hfiles]; rfl

theorem readEntry_cache (w : Workspace) (path : String) : (w.readEntry path).2.cache = w.cache := by
  unfold readEntry
  split
  case h_1 => rfl
  case h_2 =>
    split
    case h_1 => rfl
    case h_2 =>
      split
      case h_1 => rfl
      case h_2 => rw [removeFile_cache]; rfl

-- What is read for a path is in the file for it.
theorem stored_of_readEntry {e : CacheEntry} (hf : w.cache.folder = some folder)
    (h : (w.readEntry path).1 = some e) : w.disk.stored folder path = some e := by
  unfold readEntry at h
  rw [entryFile?_eq hf] at h
  dsimp only at h
  rw [Disk.stored]
  cases hr : w.disk.read (fileIn folder path)
  case error =>
    rw [hr] at h
    cases h
  case ok text =>
    rw [hr] at h
    dsimp only at h ⊢
    cases hp : CacheEntry.parse? text
    case none =>
      rw [hp] at h
      cases h
    case some found =>
      rw [hp] at h
      dsimp only at h
      split at h
      case isFalse => cases h
      case isTrue hpath =>
        cases h
        rw [Option.filter_some, if_pos (decide_eq_true hpath)]

-- And what is in the file for a path is found, if nothing is in memory yet.
theorem entry_of_stored {e : CacheEntry} (hf : w.cache.folder = some folder) (hg : w.cache.entries.get? path = none)
    (hs : w.disk.stored folder path = some e) :
    w.entry path = (some e, w.setEntries (w.cache.entries.insert path e)) := by
  have hread : w.readEntry path = (some e, w) := by
    rw [Disk.stored] at hs
    unfold readEntry
    rw [entryFile?_eq hf]
    dsimp only
    cases hr : w.disk.read (fileIn folder path)
    case error =>
      rw [hr] at hs
      cases hs
    case ok text =>
      rw [hr] at hs
      obtain ⟨hp, hpath⟩ := Option.filter_eq_some_iff.1 hs
      dsimp only
      rw [hp]
      dsimp only
      rw [if_pos (of_decide_eq_true hpath)]
  unfold Workspace.entry
  rw [hg]
  dsimp only
  rw [hread]

theorem openCache_of_opens (h : w.disk.Opens folder) :
    w.openCache folder = .ok { w with cache := ⟨∅, some folder⟩ } := by
  rw [openCache, h.createFolders]
  rfl

theorem readEntry_of_no_folder (hf : w.cache.folder = none) (path : String) : w.readEntry path = (none, w) := by
  unfold readEntry entryFile?
  rw [hf]
  rfl

-- A file with no entry in it is gone once it is read.
theorem entry_corrupt {file text : String} (hg : w.cache.entries.get? path = none) (hf : w.entryFile? path = some file)
    (hr : w.disk.read file = .ok text) (hc : CacheEntry.parse? text = none) :
    ∃ disk, w.disk.remove file = .ok disk ∧
      w.entry path = (none, { w.warn s!"Discarding corrupt cache entry {file}" with disk }) := by
  cases hl : w.disk.locate file
  case error =>
    rw [Disk.read, hl] at hr
    cases hr
  case ok here =>
    have hremove := (Disk.remove_eq_ok hl).2 ⟨⟨text, (Disk.read_eq_ok hl).1 hr⟩, rfl⟩
    refine ⟨_, hremove, ?_⟩
    have hread : w.readEntry path =
        (none, (w.warn s!"Discarding corrupt cache entry {file}").removeFile file) := by
      unfold readEntry
      rw [hf]
      dsimp only
      rw [hr]
      dsimp only
      rw [hc]
    unfold Workspace.entry
    rw [hg]
    dsimp only
    rw [hread]
    dsimp only
    rw [removeFile_eq]
    change (none, ({ w.warn _ with disk := w.disk.discard file } : Workspace)) = _
    rw [Disk.discard, hremove]
    rfl

end Workspace

-- The cache is in this folder or in none, and all it has in memory are entries that came into it for their path.
structure KeepsGenuine (folder : String) (past : List (Workspace × CacheEvent)) (w : Workspace) : Prop where
  kept    : w.cache.folder = none ∨ w.cache.folder = some folder
  genuine : ∀ path e, w.cache.entries.get? path = some e → e.Genuine folder past path

namespace KeepsGenuine

open Workspace

variable {folder path key : String} {hashes : String → Option String} {past : List (Workspace × CacheEvent)}
variable {w w' : Workspace}

theorem empty (past : List (Workspace × CacheEvent)) (hf : w.cache.folder = none ∨ w.cache.folder = some folder)
    (he : w.cache.entries = ∅) : KeepsGenuine folder past w where
  kept := hf
  genuine path e hg := by
    rw [he] at hg
    cases hg

-- The same entries or less are left.
theorem of_within (h : KeepsGenuine folder past w) (now : Workspace × CacheEvent) (hf : w'.cache.folder = w.cache.folder)
    (hw : w'.cache.entries.Within w.cache.entries) : KeepsGenuine folder (now :: past) w' where
  kept := hf ▸ h.kept
  genuine path e hg := (h.genuine path e (hw path e hg)).later now

theorem opened (past : List (Workspace × CacheEvent)) (ho : w.openCache folder = .ok w') : KeepsGenuine folder past w' := by
  unfold openCache at ho
  split at ho
  case h_1 =>
    cases ho
    exact .empty past (.inr rfl) rfl
  case h_2 => cases ho

theorem remember (h : KeepsGenuine folder past w) (e : CacheEntry) :
    KeepsGenuine folder ((w, .used (.insert e)) :: past) (w.remember e) := by
  constructor
  case kept =>
    rw [remember_cache]
    exact h.kept
  case genuine =>
    intro path e' hg
    rw [remember_cache] at hg
    change (w.cache.entries.insert e.path e).get? path = some e' at hg
    rw [Dict.get?_insert] at hg
    split at hg
    case isTrue hp =>
      cases hg
      exact .inserted (.head _) hp.symm
    case isFalse => exact (h.genuine path e' hg).later _

theorem forget (h : KeepsGenuine folder past w) (path : String) : KeepsGenuine folder past (w.forget path) := by
  constructor
  case kept =>
    rw [forget_cache]
    exact h.kept
  case genuine =>
    intro q e hg
    rw [forget_cache] at hg
    exact h.genuine q e (Dict.within_erase _ path q e hg)

-- A lookup takes what is in memory, or reads it from the file for the path.
theorem entry (h : KeepsGenuine folder past w) (path key : String) (hashes : String → Option String) :
    KeepsGenuine folder ((w, .used (.get path key hashes)) :: past) (w.entry path).2 ∧
      ∀ e, (w.entry path).1 = some e → e.Genuine folder ((w, .used (.get path key hashes)) :: past) path := by
  unfold Workspace.entry
  cases hg : w.cache.entries.get? path
  case some e =>
    refine ⟨h.of_within _ rfl (.refl _), fun e' he => ?_⟩
    cases he
    exact (h.genuine path e hg).later _
  case none =>
    have hcache := readEntry_cache w path
    have hread (e : CacheEntry) (he : (w.readEntry path).1 = some e) :
        e.Genuine folder ((w, .used (.get path key hashes)) :: past) path := by
      rcases h.kept with hf | hf
      case inl =>
        rw [readEntry_of_no_folder hf] at he
        cases he
      case inr => exact .stored (.head _) (stored_of_readEntry hf he)
    generalize w.readEntry path = r at *
    obtain ⟨found, w'⟩ := r
    dsimp only at *
    cases found
    case none =>
      refine ⟨h.of_within _ (hcache ▸ rfl) (hcache ▸ .refl _), fun e he => ?_⟩
      cases he
    case some e =>
      refine ⟨⟨?_, fun q e' hq => ?_⟩, fun e' he => hread e' he⟩
      · change w'.cache.folder = none ∨ w'.cache.folder = some folder
        rw [hcache]
        exact h.kept
      · change (w'.cache.entries.insert path e).get? q = some e' at hq
        rw [Dict.get?_insert, hcache] at hq
        split at hq
        case isTrue hp =>
          cases hq
          exact hp ▸ hread e rfl
        case isFalse => exact (h.genuine q e' hq).later _

theorem ask (h : KeepsGenuine folder past w) (path key : String) (hashes : String → Option String) :
    KeepsGenuine folder ((w, .used (.get path key hashes)) :: past) (w.ask path key hashes).2 := by
  have hentry := (h.entry path key hashes).1
  rw [ask_eq]
  split
  case h_1 => exact hentry
  case h_2 =>
    split
    case isTrue => exact hentry
    case isFalse =>
      split
      case isTrue  => exact hentry
      case isFalse => exact hentry.forget path

theorem step (h : KeepsGenuine folder past w) {op : CacheOp} {answer : Option Compiled}
    (ho : op.run folder w = .ok (answer, w')) : KeepsGenuine folder ((w, .used op) :: past) w' := by
  cases op
  case insert e =>
    cases ho
    exact h.remember e
  case get path key hashes =>
    have hw : (w.ask path key hashes).2 = w' := congrArg Prod.snd (Except.ok.inj ho)
    exact hw ▸ h.ask path key hashes
  case remove path =>
    cases ho
    exact (h.of_within _ rfl (.refl _)).forget path
  case clear =>
    cases ho
    refine .empty _ ?_ (by rw [forgetAll_cache])
    rw [forgetAll_cache]
    exact h.kept
  case reopen =>
    cases hopen : w.openCache folder
    case error =>
      rw [CacheOp.run, hopen] at ho
      cases ho
    case ok opened =>
      rw [CacheOp.run, hopen] at ho
      cases ho
      exact .opened _ hopen

end KeepsGenuine

theorem CacheRun.keepsGenuine {folder : String} {past : List (Workspace × CacheEvent)} {w : Workspace}
    (h : CacheRun folder past w) : KeepsGenuine folder past w := by
  induction h
  case inMemory             => exact .empty [] (.inl rfl) rfl
  case opened ho            => exact .opened [] ho
  case used ho ih           => exact ih.step ho
  case changed disk ih      => exact ih.of_within _ rfl (.refl _)

end ScopedCss
