import ScopedCss.Proofs.Cache.Served

namespace ScopedCss

open CacheEntry

theorem Disk.Cleared.stored {d d' : Disk} {folder path : String} {e : CacheEntry} (h : Disk.Cleared d d')
    (hs : d'.stored folder path = some e) : d.stored folder path = some e := by
  unfold Disk.stored at hs ⊢
  cases hr : d'.read (fileIn folder path)
  all_goals rw [hr] at hs
  case error => cases hs
  case ok text =>
    cases hl : d'.locate (fileIn folder path)
    case error =>
      rw [Disk.read, hl] at hr
      cases hr
    case ok here =>
      have hfile := h.files here text ((Disk.read_eq_ok hl).1 hr)
      rw [(Disk.read_eq_ok (h.same.symm.locate hl)).2 hfile]
      exact hs

namespace Workspace

variable {w w' w'' : Workspace} {path : String} {e : CacheEntry}

-- What can be found for a path: an entry in memory, or in its file.
def Knows (w : Workspace) (path : String) (e : CacheEntry) : Prop :=
  w.cache.entries.get? path = some e ∨ ∃ folder, w.cache.folder = some folder ∧ w.disk.stored folder path = some e

-- No more can be found than before.
structure Shrinks (w w' : Workspace) : Prop where
  proper : w'.disk.Proper
  known  : ∀ path e, w'.Knows path e → w.Knows path e

namespace Shrinks

theorem refl (hp : w.disk.Proper) : w.Shrinks w :=
  ⟨hp, fun _ _ => id⟩

theorem trans (h : w.Shrinks w') (h' : w'.Shrinks w'') : w.Shrinks w'' :=
  ⟨h'.proper, fun path e he => h.known path e (h'.known path e he)⟩

theorem of_eq (h : w.Shrinks w') (hd : w''.disk = w'.disk) (hc : w''.cache = w'.cache) : w.Shrinks w'' := by
  refine ⟨hd ▸ h.proper, fun path e he => h.known path e ?_⟩
  unfold Knows at he ⊢
  rwa [hd, hc] at he

-- Files of entries are removed, and what is in memory was known.
theorem of_cleared (hd : Disk.Cleared w.disk w'.disk) (hf : w'.cache.folder = w.cache.folder)
    (he : ∀ path e, w'.cache.entries.get? path = some e → w.Knows path e) : w.Shrinks w' where
  proper := hd.proper
  known path e h := by
    rcases h with h | ⟨folder, hfolder, hstored⟩
    case inl => exact he path e h
    case inr => exact .inr ⟨folder, hf ▸ hfolder, hd.stored hstored⟩

end Shrinks

theorem shrinks_readEntry (hp : w.disk.Proper) (path : String) :
    Disk.Cleared w.disk (w.readEntry path).2.disk ∧ (w.readEntry path).2.cache = w.cache ∧
      ∀ e, (w.readEntry path).1 = some e → w.Knows path e := by
  unfold readEntry
  cases hf : w.entryFile? path
  case none => exact ⟨.refl hp, rfl, nofun⟩
  case some file =>
    obtain ⟨folder, hfolder, rfl⟩ := Option.map_eq_some_iff.1 hf
    dsimp only
    cases hr : w.disk.read (Path.join folder (fingerprint path ++ ".json"))
    case error => exact ⟨.refl hp, rfl, nofun⟩
    case ok text =>
      dsimp only
      cases ht : CacheEntry.parse? text
      case none =>
        refine ⟨?_, ?_, nofun⟩
        all_goals dsimp only; rw [removeFile_eq]
        · exact hp.discard_cleared _
        · rfl
      case some found =>
        refine ⟨.refl hp, rfl, fun e he => .inr ⟨folder, hfolder, ?_⟩⟩
        have hread : w.disk.read (fileIn folder path) = .ok text := hr
        rw [Disk.stored, hread]
        dsimp only at he ⊢
        rw [ht]
        split at he
        case isTrue hpath  => simpa [Option.filter, hpath] using he
        case isFalse       => cases he

theorem shrinks_entry (hp : w.disk.Proper) (path : String) :
    w.Shrinks (w.entry path).2 ∧ ∀ e, (w.entry path).1 = some e → w.Knows path e := by
  unfold entry
  cases hm : w.cache.entries.get? path
  case some e => exact ⟨.refl hp, fun e' he => .inl (he ▸ hm)⟩
  case none =>
    obtain ⟨hcleared, hcache, hknown⟩ := shrinks_readEntry hp path
    dsimp only
    generalize w.readEntry path = found at hcleared hcache hknown
    obtain ⟨_ | e, w'⟩ := found
    case none => exact ⟨.of_cleared hcleared (congrArg _ hcache) fun q e he => .inl (hcache ▸ he), nofun⟩
    case some =>
      refine ⟨.of_cleared hcleared (congrArg BuildCache.folder hcache :) fun q e' he => ?_, fun e' he => hknown e' he⟩
      change (w'.cache.entries.insert path e).get? q = some e' at he
      rw [Dict.get?_insert] at he
      split at he
      case isTrue hq =>
        subst hq
        exact hknown e' he
      case isFalse => exact .inl (hcache ▸ he)

theorem shrinks_forget (hp : w.disk.Proper) (path : String) : w.Shrinks (w.forget path) := by
  have herase (q e) (he : (w.cache.entries.erase path).get? q = some e) : w.Knows q e := by
    rw [Dict.get?_erase] at he
    split at he
    case isTrue  => cases he
    case isFalse => exact .inl he
  unfold forget
  dsimp only
  split
  case h_1 file _ =>
    rw [removeFile_eq]
    exact .of_cleared (hp.discard_cleared file) rfl herase
  case h_2 => exact .of_cleared (.refl hp) rfl herase

theorem forgetAll_proper (hp : w.disk.Proper) : w.forgetAll.disk.Proper := by
  have hfold (folder : String) (names : List String) (w : Workspace) (hp : w.disk.Proper) :
      (names.foldl (fun w name => w.removeFile (Path.join folder name)) w).disk.Proper := by
    induction names generalizing w
    case nil => exact hp
    case cons name names ih =>
      refine ih _ ?_
      dsimp only
      rw [removeFile_eq]
      exact (hp.discard_cleared _).proper
  unfold forgetAll
  dsimp only
  split
  case h_1 => exact hp
  case h_2 => exact hfold _ _ _ hp

-- What is reused was known under the key it is asked for.
theorem shrinks_reuse (hp : w.disk.Proper) (path key : String) (disk : Disk) (s : Session) :
    w.Shrinks (((Workspace.reuse path key (BuildM.hashOf disk)).run w).run s).1.2 ∧
      ∀ r, (((Workspace.reuse path key (BuildM.hashOf disk)).run w).run s).1.1 = some r →
        ∃ e, w.Knows path e ∧ e.key = key ∧ e.result = r := by
  obtain ⟨hentry, hknown⟩ := shrinks_entry hp path
  rw [reuse_eq]
  cases hfound : (w.entry path).1
  case none => exact ⟨hentry, nofun⟩
  case some e =>
    dsimp only
    split
    case isFalse => exact ⟨hentry, nofun⟩
    case isTrue hkey =>
      split
      case isTrue =>
        refine ⟨hentry, fun r hr => ⟨e, hknown e hfound, hkey, Option.some.inj hr⟩⟩
      case isFalse => exact ⟨hentry.trans (shrinks_forget hentry.proper path), nofun⟩

end Workspace

end ScopedCss
