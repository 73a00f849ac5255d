import ScopedCss.Cache.Basic
import ScopedCss.Proofs.Disk.Files

namespace ScopedCss

namespace Dict

variable {α : Type} {d : Dict α} {k : String} {v : α} {p : String → Bool}

-- The entries whose keys are not left out.
def without (d : Dict α) (p : String → Bool) : Dict α where
  entries := d.entries.filter (!p ·.1)
  nodup   := d.nodup.sublist (List.filter_sublist.map _)

theorem get?_without (hk : p k = false) : (d.without p).get? k = d.get? k := by
  unfold get? without
  dsimp only
  induction d.entries
  case nil => rfl
  case cons entry entries ih =>
    rw [List.filter_cons]
    split
    case isTrue => rw [lookup_cons, lookup_cons, ih]
    case isFalse hp =>
      have hne : k ≠ entry.1 := by
        rintro rfl
        simp [hk] at hp
      rw [lookup_cons, if_neg hne, ih]

theorem keys_without : (d.without p).keys = d.keys.filter (!p ·) := by
  simp [keys, without, List.filter_map, Function.comp_def]

theorem without_insert (hk : p k = true) : (d.insert k v).without p = d.without p := by
  refine ext ?_
  change (put k v d.entries).filter (!p ·.1) = d.entries.filter (!p ·.1)
  induction d.entries
  case nil => simp [put, hk]
  case cons entry entries ih =>
    rw [put]
    split
    case isTrue he => simp [hk, he]
    case isFalse   => rw [List.filter_cons, List.filter_cons, ih]

theorem without_erase (hk : p k = true) : (d.erase k).without p = d.without p := by
  refine ext ?_
  change (d.entries.filter (·.1 ≠ k)).filter (!p ·.1) = d.entries.filter (!p ·.1)
  rw [List.filter_filter]
  refine List.filter_congr fun entry _ => ?_
  by_cases he : entry.1 = k
  case pos => simp [he, hk]
  case neg => simp [he]

end Dict

namespace Disk

open Path

-- What is left of a disk when everything in a region is taken away.
def without (d : Disk) (region : String → Bool) : Disk where
  files   := d.files.without region
  folders := d.folders.filter (!region ·)
  cwd     := d.cwd

-- Whether the way to where a path leads stays out of a region.
def avoidsFrom (d : Disk) (region : String → Bool) : (here : String) → List Segment → Bool
  | here, [] => !region here
  | here, s :: rest =>
    !region here &&
      match d.step here s with
      | .ok next => d.avoidsFrom region next rest
      | .error _ => true

def avoids (d : Disk) (region : String → Bool) (path : String) : Bool :=
  d.avoidsFrom region (d.start path) (segments path)

section

variable {d d' : Disk} {region : String → Bool} {here path text t : String} {s : Segment} {segs : List Segment}

theorem entry_without (h : region here = false) : (d.without region).entry here = d.entry here := by
  unfold entry without
  simp only [Dict.get?_without h, List.mem_filter, h, Bool.not_false, and_true]

theorem entry_of_without (he : d'.without region = d.without region) (h : region here = false) :
    d'.entry here = d.entry here := by
  rw [← entry_without h, he, entry_without h]

theorem cwd_of_without (he : d'.without region = d.without region) : d'.cwd = d.cwd := by
  have hcwd : (d'.without region).cwd = (d.without region).cwd := by rw [he]
  exact hcwd

theorem without_without (d : Disk) (region : String → Bool) : (d.without region).without region = d.without region := by
  unfold without
  simp [Dict.without]

theorem size_without_le (d : Disk) (region : String → Bool) : (d.without region).files.size ≤ d.files.size :=
  List.length_filter_le _ _

theorem without_insert (h : region here = true) (text : String) :
    ({ d with files := d.files.insert here text } : Disk).without region = d.without region := by
  unfold without
  dsimp only
  rw [Dict.without_insert h]

theorem without_erase (h : region here = true) :
    ({ d with files := d.files.erase here } : Disk).without region = d.without region := by
  unfold without
  dsimp only
  rw [Dict.without_erase h]

theorem without_addFolder (h : region here = true) : (d.addFolders [here]).without region = d.without region := by
  unfold without addFolders
  dsimp only [List.foldl_cons, List.foldl_nil]
  split
  case isTrue  => rfl
  case isFalse => simp [h]

theorem without_write (hl : d.locate path = .ok here) (h : region here = true) (hw : d.write path text = .ok d') :
    d'.without region = d.without region := by
  rw [((write_eq_ok hl).1 hw).2.2]
  exact without_insert h text

theorem without_discard (hl : d.locate path = .ok here) (h : region here = true) :
    (d.discard path).without region = d.without region := by
  unfold discard
  cases hr : d.remove path
  case error => rfl
  case ok    =>
    rw [Except.toOption, Option.getD_some, ((remove_eq_ok hl).1 hr).2]
    exact without_erase h

theorem step_of_entry (h : d'.entry here = d.entry here) : d'.step here s = d.step here s := by
  unfold step
  rw [h]

-- On a way that stays out of a region, what is there makes no difference.
theorem avoidsFrom_congr (he : d'.without region = d.without region) (ha : d.avoidsFrom region here segs = true) :
    d'.avoidsFrom region here segs = true ∧ segs.foldlM d'.step here = segs.foldlM d.step here ∧
      ∀ t, segs.foldlM d.step here = .ok t → region t = false := by
  induction segs generalizing here
  case nil =>
    refine ⟨ha, rfl, fun t ht => ?_⟩
    cases ht
    simpa [avoidsFrom] using ha
  case cons s segs ih =>
    rw [avoidsFrom, Bool.and_eq_true, Bool.not_eq_true'] at ha
    have hstep : d'.step here s = d.step here s := step_of_entry (entry_of_without he ha.1)
    rw [avoidsFrom, hstep, List.foldlM_cons, List.foldlM_cons, hstep, ha.1]
    cases hs : d.step here s
    case error => exact ⟨rfl, rfl, fun t ht => nomatch ht⟩
    case ok next =>
      rw [hs] at ha
      exact ih ha.2

theorem locate_of_avoids (he : d'.without region = d.without region) (ha : d.avoids region path = true) :
    d'.locate path = d.locate path := by
  have ⟨_, hwalk, _⟩ := avoidsFrom_congr he ha
  unfold start at hwalk
  unfold locate
  rw [cwd_of_without he]
  dsimp only
  rw [hwalk]

theorem not_region_of_avoids (ha : d.avoids region path = true) (hl : d.locate path = .ok here) : region here = false :=
  (avoidsFrom_congr rfl ha).2.2 here (locate_eq_ok.1 hl).2

theorem avoids_congr (he : d'.without region = d.without region) (ha : d.avoids region path = true) :
    d'.avoids region path = true := by
  have ⟨h, _, _⟩ := avoidsFrom_congr he ha
  unfold avoids start at *
  rwa [cwd_of_without he]

theorem entryAt_of_avoids (he : d'.without region = d.without region) (ha : d.avoids region path = true) :
    d'.entryAt path = d.entryAt path := by
  unfold entryAt
  rw [locate_of_avoids he ha]
  cases hl : d.locate path
  case error   => rfl
  case ok here => exact entry_of_without he (not_region_of_avoids ha hl)

theorem isFile_of_avoids (he : d'.without region = d.without region) (ha : d.avoids region path = true) :
    d'.isFile path = d.isFile path := by
  unfold isFile
  rw [entryAt_of_avoids he ha]

theorem read_of_avoids (he : d'.without region = d.without region) (ha : d.avoids region path = true) :
    d'.read path = d.read path := by
  have hl := locate_of_avoids he ha
  cases hp : d.locate path
  case error =>
    rw [Disk.read, Disk.read, hl, hp]
    rfl
  case ok here => exact read_congr hp (hl.trans hp) (entry_of_without he (not_region_of_avoids ha hp))

end

end Disk

end ScopedCss
