import ScopedCss.Proofs.Cache.Lookup
import ScopedCss.Proofs.Cache.Persistent
import ScopedCss.Proofs.Disk.Changes

namespace ScopedCss

-- What asking for a path comes to.
namespace CacheMap

variable {m : CacheMap} {path key : String} {hashes : String → Option String} {e : CacheEntry}

theorem step_get_none (h : m path = none) : m.step (.get path key hashes) = (none, m) := by
  simp [step, h]

theorem step_get_other (h : m path = some e) (hk : e.key ≠ key) : m.step (.get path key hashes) = (none, m) := by
  simp [step, h, hk]

theorem step_get_current (h : m path = some e) (hk : e.key = key) (hc : e.Current hashes) :
    m.step (.get path key hashes) = (some e.result, m) := by
  simp [step, h, hk, hc]

theorem step_get_stale (h : m path = some e) (hk : e.key = key) (hc : ¬ e.Current hashes) :
    m.step (.get path key hashes) = (none, m.put path none) := by
  simp [step, h, hk, hc]

end CacheMap

namespace Workspace

open CacheEntry

-- A cache that is one map, whether it is in memory or in a folder.
structure Serves (used : String → Prop) (here : String) (m : CacheMap) (w : Workspace) : Prop where
  memory : w.cache.folder = none → ∀ path, used path → w.cache.entries.get? path = m path
  files  : ∀ folder, w.cache.folder = some folder → Holds folder used here m w

-- What becomes of a workspace while its cache is used: its folder stays, and on disk only a region changes.
structure Moves (region : String → Bool) (w w' : Workspace) : Prop where
  folder : w'.cache.folder = w.cache.folder
  disk   : Disk.Changed region w.disk w'.disk

-- The files of entries are in a region.
def Inside (region : String → Bool) (here : String) (used : String → Prop) : Prop :=
  ∀ path, used path → region (spotIn here path) = true

-- All files that a cache can be cleared of are in a region.
def Confined (region : String → Bool) (w : Workspace) : Prop :=
  ∀ folder, w.cache.folder = some folder → ∀ name ∈ w.disk.names folder, Path.extension name = ".json" →
    Disk.Upright (Path.join folder name) ∧ region (Path.join folder name) = true

section

variable {w w' w'' : Workspace} {region : String → Bool} {path key file : String}

theorem Moves.refl (region : String → Bool) (w : Workspace) : Moves region w w :=
  ⟨rfl, .refl region w.disk⟩

theorem Moves.trans (h : Moves region w w') (h' : Moves region w' w'') : Moves region w w'' :=
  ⟨h'.folder.trans h.folder, h.disk.trans h'.disk⟩

theorem Moves.removeFile (h : ∀ spot, w.disk.locate file = .ok spot → region spot = true) :
    Moves region w (w.removeFile file) := by
  rw [removeFile_eq]
  exact ⟨rfl, .discard h⟩

theorem Moves.readEntry (h : ∀ file, w.entryFile? path = some file →
    ∀ spot, w.disk.locate file = .ok spot → region spot = true) : Moves region w (w.readEntry path).2 := by
  unfold Workspace.readEntry
  cases hf : w.entryFile? path
  case none => exact .refl region w
  case some file =>
    dsimp only
    cases w.disk.read file
    case error => exact .refl region w
    case ok text =>
      dsimp only
      cases CacheEntry.parse? text
      case some => exact .refl region w
      case none =>
        have hwarn (warning : String) : Moves region w (w.warn warning) := ⟨rfl, .refl region w.disk⟩
        exact (hwarn _).trans (.removeFile (h file hf))

theorem Moves.entry (h : ∀ file, w.entryFile? path = some file →
    ∀ spot, w.disk.locate file = .ok spot → region spot = true) : Moves region w (w.entry path).2 := by
  have hread := Moves.readEntry h
  unfold Workspace.entry
  cases w.cache.entries.get? path
  case some => exact .refl region w
  case none =>
    dsimp only
    generalize w.readEntry path = found at hread ⊢
    obtain ⟨_ | e, w'⟩ := found
    · exact hread
    · exact ⟨hread.folder, hread.disk⟩

theorem Moves.forget (h : ∀ file, w.entryFile? path = some file →
    ∀ spot, w.disk.locate file = .ok spot → region spot = true) : Moves region w (w.forget path) := by
  have hfile : (w.setEntries (w.cache.entries.erase path)).entryFile? path = w.entryFile? path := rfl
  unfold Workspace.forget
  dsimp only
  rw [hfile]
  cases hf : w.entryFile? path
  case none => exact ⟨rfl, .refl region w.disk⟩
  case some file =>
    have hmoved := Moves.removeFile (w := w.setEntries (w.cache.entries.erase path)) (h file hf)
    exact ⟨hmoved.folder, hmoved.disk⟩

theorem Moves.remember {e : CacheEntry} (h : ∀ file, w.entryFile? e.path = some file →
    ∀ spot, w.disk.locate file = .ok spot → region spot = true) : Moves region w (w.remember e) := by
  have hwrite : Moves region w (w.writeEntry e) := by
    unfold Workspace.writeEntry
    cases hf : w.entryFile? e.path
    case none => exact .refl region w
    case some file =>
      dsimp only
      cases hw : w.disk.write file e.write
      case error => exact ⟨rfl, .refl region w.disk⟩
      case ok disk =>
        cases hl : w.disk.locate file
        case error =>
          rw [Disk.write, hl] at hw
          cases hw
        case ok spot => exact ⟨rfl, .write hl (h file hf spot hl) hw⟩
  exact ⟨hwrite.folder, hwrite.disk⟩

end

theorem Moves.removeFiles {w : Workspace} {region : String → Bool} {folder : String} {names : List String}
    (h : ∀ name ∈ names, Disk.Upright (Path.join folder name) ∧ region (Path.join folder name) = true) :
    Moves region w (names.foldl (fun w name => w.removeFile (Path.join folder name)) w) := by
  induction names generalizing w
  case nil => exact .refl region w
  case cons name names ih =>
    have ⟨hu, hr⟩ := h name (.head _)
    have hfirst : Moves region w (w.removeFile (Path.join folder name)) := .removeFile fun spot hl => hu.locate hl ▸ hr
    exact hfirst.trans (ih fun name hm => h name (.tail _ hm))

theorem Moves.forgetAll {w : Workspace} {region : String → Bool} (h : Confined region w) : Moves region w w.forgetAll := by
  have hempty : Moves region w (w.setEntries ∅) := ⟨rfl, .refl region w.disk⟩
  unfold Workspace.forgetAll
  dsimp only
  cases hf : w.cache.folder
  case none =>
    have hkept : (w.setEntries ∅).cache.folder = none := hf
    rw [hkept]
    exact hempty
  case some folder =>
    have hkept : (w.setEntries ∅).cache.folder = some folder := hf
    rw [hkept]
    refine hempty.trans (.removeFiles fun name hm => ?_)
    have ⟨hm, he⟩ := List.mem_filter.1 hm
    exact h folder hf name hm (of_decide_eq_true he)

namespace Serves

variable {w : Workspace} {used : String → Prop} {here path : String} {m : CacheMap} {region : String → Bool}

theorem spots (h : Serves used here m w) (hi : Inside region here used) (hu : used path) :
    ∀ file, w.entryFile? path = some file → ∀ spot, w.disk.locate file = .ok spot → region spot = true := by
  intro file hf spot hl
  cases hfolder : w.cache.folder
  case none =>
    rw [entryFile?, hfolder] at hf
    cases hf
  case some folder =>
    rw [entryFile?_eq hfolder] at hf
    cases hf
    cases hl.symm.trans ((h.files folder hfolder).houses.files path hu)
    exact hi path hu

theorem of_holds {folder : String} (h : Holds folder used here m w) : Serves used here m w := by
  refine ⟨fun hnone => ?_, fun other hother => ?_⟩
  · cases h.kept.symm.trans hnone
  · cases h.kept.symm.trans hother
    exact h

theorem entry (h : Serves used here m w) (hu : used path) :
    (w.entry path).1 = m path ∧ Serves used here m (w.entry path).2 := by
  cases hfolder : w.cache.folder
  case none =>
    rw [entry_eq hfolder]
    exact ⟨h.memory hfolder path hu, h⟩
  case some folder =>
    have ⟨hfound, hholds, _, _⟩ := (h.files folder hfolder).entry hu
    exact ⟨hfound, .of_holds hholds⟩

theorem forget (h : Serves used here m w) (hu : used path) : Serves used here (m.put path none) (w.forget path) := by
  cases hfolder : w.cache.folder
  case none =>
    rw [forget_eq hfolder]
    refine ⟨fun _ q hq => ?_, fun folder hf => by cases hfolder.symm.trans hf⟩
    change (w.cache.entries.erase path).get? q = _
    rw [Dict.get?_erase, CacheMap.put, h.memory hfolder q hq]
  case some folder => exact .of_holds ((h.files folder hfolder).forget hu).1

theorem remember {e : CacheEntry} (h : Serves used here m w) (hu : used e.path) (hs : e.result.Storable) :
    Serves used here (m.put e.path (some e)) (w.remember e) := by
  cases hfolder : w.cache.folder
  case none =>
    rw [remember_eq hfolder]
    refine ⟨fun _ q hq => ?_, fun folder hf => by cases hfolder.symm.trans hf⟩
    change (w.cache.entries.insert e.path e).get? q = _
    rw [Dict.get?_insert, CacheMap.put, h.memory hfolder q hq]
  case some folder => exact .of_holds ((h.files folder hfolder).remember hu hs)

theorem forgetAll (h : Serves used here m w) : Serves used here (fun _ => none) w.forgetAll := by
  cases hfolder : w.cache.folder
  case none =>
    have hall : w.forgetAll = w.setEntries ∅ := by
      unfold Workspace.forgetAll
      dsimp only [setEntries]
      rw [hfolder]
    rw [hall]
    exact ⟨fun _ _ _ => rfl, fun folder hf => by cases hfolder.symm.trans hf⟩
  case some folder => exact .of_holds (h.files folder hfolder).forgetAll

-- Asking with a build, where the fingerprints of all dependencies are known.
theorem reuse {P : Session → Prop} {current : String → Option String} {disk : Disk} {s : Session}
    (h : Serves used here m w) (hi : Inside region here used) (hu : used path) (key : String)
    (step : ∀ e, m path = some e → ∀ d ∈ e.dependencies.entries, ∀ s, P s →
      ((BuildM.hashOf disk d.1).run s).1 = current d.1 ∧ P ((BuildM.hashOf disk d.1).run s).2)
    (hs : P s) :
    ∃ w' s', ((Workspace.reuse path key (BuildM.hashOf disk)).run w).run s =
        (((m.step (.get path key current)).1, w'), s') ∧
      Serves used here (m.step (.get path key current)).2 w' ∧ Moves region w w' ∧ P s' := by
  have ⟨hfound, hserves⟩ := h.entry hu
  have hmoves := Moves.entry (h.spots hi hu)
  rw [reuse_eq, hfound]
  cases hm : m path
  case none =>
    rw [CacheMap.step_get_none hm]
    exact ⟨_, _, rfl, hserves, hmoves, hs⟩
  case some e =>
    have ⟨hall, hp⟩ := allCurrent_run e.dependencies.entries (step e hm) hs
    have hcurrent : ((allCurrent (BuildM.hashOf disk) e.dependencies.entries).run s).1 = true ↔ e.Current current := by
      rw [hall, List.all_eq_true]
      simp [CacheEntry.Current]
    dsimp only
    by_cases hk : e.key = key
    case neg =>
      rw [if_neg hk, CacheMap.step_get_other hm hk]
      exact ⟨_, _, rfl, hserves, hmoves, hs⟩
    case pos =>
      rw [if_pos hk]
      by_cases hc : e.Current current
      case pos =>
        rw [if_pos (hcurrent.2 hc), CacheMap.step_get_current hm hk hc]
        exact ⟨_, _, rfl, hserves, hmoves, hp⟩
      case neg =>
        rw [if_neg (mt hcurrent.1 hc), CacheMap.step_get_stale hm hk hc]
        exact ⟨_, _, rfl, hserves.forget hu, hmoves.trans (.forget (hserves.spots hi hu)), hp⟩

end Serves

end Workspace

end ScopedCss
