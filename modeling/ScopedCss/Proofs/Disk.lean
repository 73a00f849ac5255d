import Mathlib.Data.List.Nodup
import Mathlib.Data.List.Perm.Subperm
import Mathlib.Data.List.ProdSigma
import Mathlib.Data.Set.List
import Mathlib.Logic.Function.Iterate
import ScopedCss.Proofs.Registry

namespace ScopedCss

theorem length_le_utf8ByteSize (l : List Char) : l.length ≤ (String.ofList l).utf8ByteSize := by
  induction l
  case nil => simp
  case cons c l ih =>
    have h : String.ofList (c :: l) = String.singleton c ++ String.ofList l :=
      String.toList_inj.1 (by simp)
    rw [h, String.utf8ByteSize_append, String.utf8ByteSize_singleton, List.length_cons]
    have := c.utf8Size_pos
    omega

theorem Text.length_flatten_le_join (sep : List Char) (ws : List (List Char)) :
    ws.flatten.length ≤ (join sep ws).length := by
  fun_induction join sep ws <;> simp_all
  omega

namespace Path

-- The names on the way from the root to a place.
def namesOf (path : String) : List Segment :=
  (segments path).filter (· ≠ [])

theorem namesOf_mem {path : String} {s : Segment} (h : s ∈ namesOf path) :
    s ≠ [] ∧ ∀ c ∈ s, (c == '/') = false := by
  have ⟨hm, hn⟩ := List.mem_filter.1 h
  exact ⟨by simpa using hn, fun c hc => (Text.not_mem_splitWhere hm hc).2⟩

theorem namesOf_ofSegments {names : List Segment}
    (h : ∀ s ∈ names, s ≠ [] ∧ ∀ c ∈ s, (c == '/') = false) :
    namesOf (ofSegments true names) = names := by
  have hs : segments (ofSegments true names) = [] :: Text.splitWhere (· == '/') (Text.join ['/'] names) := by
    simp [segments, ofSegments, Text.splitWhere]
  have hf : names.filter (· ≠ []) = names := List.filter_eq_self.2 fun s hs => by simpa using (h s hs).1
  by_cases hn : names = []
  case pos =>
    subst hn
    rfl
  case neg =>
    rw [namesOf, hs, Text.splitWhere_join rfl (fun w hw => (h w hw).2) hn, List.filter_cons]
    simpa using hf

end Path

namespace Disk

open Path

theorem namesOf_parent (path : String) : namesOf (parent path) = (namesOf path).dropLast :=
  namesOf_ofSegments fun _ h => namesOf_mem (List.dropLast_subset _ h)

theorem namesOf_step_up {disk : Disk} {here t : String} (h : disk.step here ['.', '.'] = .ok t) :
    namesOf t = (namesOf here).dropLast := by
  unfold step at h
  split at h
  · cases h
  · cases h
  · simp only [List.cons_ne_self, reduceCtorEq, or_self, ↓reduceIte] at h
    cases h
    exact namesOf_parent here

theorem step_name {disk : Disk} {here t : String} {s : Segment} (hs : IsName s)
    (h : disk.step here s = .ok t) : t = ofSegments true (namesOf here ++ [s]) := by
  unfold step at h
  split at h
  · cases h
  · cases h
  · simp only [hs.1, hs.2.1, or_self, ↓reduceIte, hs.2.2.1] at h
    split at h
    · cases h
    · cases h
      rfl

theorem no_slash_of_isName {s : Segment} (hs : IsName s) : s ≠ [] ∧ ∀ c ∈ s, (c == '/') = false := by
  refine ⟨hs.1, fun c hc => ?_⟩
  have := hs.2.2.2 c hc
  simp_all [isSeparator]

theorem namesOf_step_name {disk : Disk} {here t : String} {s : Segment} (hs : IsName s)
    (h : disk.step here s = .ok t) : namesOf t = namesOf here ++ [s] := by
  rw [step_name hs h, namesOf_ofSegments]
  intro u hu
  rcases List.mem_append.1 hu with hu | hu
  · exact namesOf_mem hu
  · cases List.mem_singleton.1 hu
    exact no_slash_of_isName hs

theorem namesOf_ups {disk : Disk} {ups : Nat} {here t : String}
    (h : (List.replicate ups ['.', '.']).foldlM disk.step here = .ok t) :
    namesOf t = List.dropLast^[ups] (namesOf here) := by
  induction ups generalizing here
  case zero => cases h; rfl
  case succ ups ih =>
    rw [List.replicate_succ, List.foldlM_cons] at h
    cases hs : disk.step here ['.', '.']
    case error => simp [hs] at h; cases h
    case ok next =>
      rw [hs] at h
      rw [ih h, namesOf_step_up hs, Function.iterate_succ_apply]

theorem namesOf_names {disk : Disk} {names : List Segment} (hn : ∀ s ∈ names, IsName s)
    {here t : String} (h : names.foldlM disk.step here = .ok t) :
    namesOf t = namesOf here ++ names := by
  induction names generalizing here
  case nil => cases h; simp
  case cons s names ih =>
    rw [List.foldlM_cons] at h
    cases hs : disk.step here s
    case error => simp [hs] at h; cases h
    case ok next =>
      rw [hs] at h
      rw [ih (fun s h => hn s (.tail _ h)) h, namesOf_step_name (hn s (by simp)) hs]
      simp

-- Where the names of a canonical path are taken from.
def startNames (disk : Disk) (rooted : Bool) (ups : Nat) : List Segment :=
  List.dropLast^[ups] (namesOf (if rooted then "/" else disk.cwd))

theorem isRooted_path (c : Canonical) : isRooted c.path = c.rooted := by
  unfold Canonical.path ofSegments isRooted
  cases c.rooted
  case true => simp
  case false =>
    cases hs : c.segments
    case nil => simp
    case cons s rest =>
      have hm : s ∈ c.segments := by simp [hs]
      cases s
      case nil => exact absurd rfl (c.ne_nil hm)
      case cons d s =>
        have hd := c.not_isSeparator hm d (by simp)
        cases rest <;> simp_all [Text.join, isSeparator]

theorem step_same {disk : Disk} {here t : String} {s : Segment} (hs : s = [] ∨ s = ['.'])
    (h : disk.step here s = .ok t) : t = here := by
  unfold step at h
  split at h
  · cases h
  · cases h
  · simp only [hs, ↓reduceIte] at h
    cases h
    rfl

theorem foldlM_same {disk : Disk} {segs rest : List Segment} {here t : String}
    (hs : ∀ s ∈ segs, s = [] ∨ s = ['.']) (h : (segs ++ rest).foldlM disk.step here = .ok t) :
    rest.foldlM disk.step here = .ok t := by
  induction segs
  case nil => exact h
  case cons s segs ih =>
    rw [List.cons_append, List.foldlM_cons] at h
    cases hn : disk.step here s
    case error => simp [hn] at h; cases h
    case ok next =>
      rw [hn, step_same (hs s (by simp)) hn] at h
      exact ih (fun s h => hs s (.tail _ h)) h

theorem segments_path (c : Canonical) :
    ∃ first, segments c.path = first ++ c.segments ∧ ∀ s ∈ first, s = [] ∨ s = ['.'] := by
  have hj (h : c.segments ≠ []) :
      Text.splitWhere (· == '/') (Text.join ['/'] c.segments) = c.segments := by
    apply Text.splitWhere_join rfl _ h
    intro w hw d hd
    have := c.not_isSeparator hw d hd
    simp_all [isSeparator]
  by_cases hs : c.segments = [] <;> cases hr : c.rooted
  case pos.false => exact ⟨[['.']], by simp [Canonical.path, ofSegments, hs, hr]; rfl, by simp⟩
  case pos.true => exact ⟨[[], []], by simp [Canonical.path, ofSegments, hs, hr]; rfl, by simp⟩
  case neg.false => exact ⟨[], by simp [Canonical.path, ofSegments, segments, hs, hr, hj hs], by simp⟩
  case neg.true =>
    refine ⟨[[]], ?_, by simp⟩
    simp [Canonical.path, ofSegments, segments, Text.splitWhere, hr, hj hs]

theorem namesOf_locate {disk : Disk} {c : Canonical} {t : String} (h : disk.locate c.path = .ok t) :
    namesOf t = disk.startNames c.rooted c.ups ++ c.names := by
  have ⟨first, hf, hs⟩ := segments_path c
  unfold locate at h
  split at h <;> [cases h; skip]
  split at h <;> [cases h; skip]
  split at h <;> [cases h; skip]
  dsimp only at h
  rw [hf, isRooted_path] at h
  replace h := foldlM_same hs h
  rw [Canonical.segments, List.foldlM_append] at h
  cases hu : (List.replicate c.ups ['.', '.']).foldlM disk.step (if c.rooted then "/" else disk.cwd)
  case error => rw [hu] at h; cases h
  case ok next =>
    rw [hu] at h
    rw [namesOf_names c.isName h, namesOf_ups hu]
    rfl

-- Where a canonical path leads to, and how far up it goes first, settle the path.
theorem canonical_unique {disk : Disk} {c d : Canonical} {t : String}
    (hc : disk.locate c.path = .ok t) (hd : disk.locate d.path = .ok t) (hr : c.rooted = d.rooted)
    (hu : c.ups = d.ups) : c = d := by
  have h := (namesOf_locate hc).symm.trans (namesOf_locate hd)
  rw [hr, hu] at h
  have := List.append_cancel_left h
  cases c
  cases d
  simp_all

theorem ups_lt {disk : Disk} {c : Canonical} {t : String} (h : disk.locate c.path = .ok t) :
    c.ups + 1 < maxPathLength := by
  have hlt : c.path.utf8ByteSize < maxPathLength := by
    unfold locate at h
    split at h <;> [cases h; skip]
    split at h <;> [cases h; skip]
    split at h <;> [cases h; skip]
    omega
  by_cases hs : c.segments = []
  case pos =>
    have : c.ups = 0 := by
      have := congrArg List.length hs
      simp only [Canonical.segments, List.length_append, List.length_replicate, List.length_nil] at this
      omega
    simp [this, maxPathLength]
  case neg =>
    have hl : 2 * c.ups ≤ c.path.utf8ByteSize := by
      calc 2 * c.ups
        _ ≤ c.segments.flatten.length := by simp [Canonical.segments]; omega
        _ ≤ (Text.join ['/'] c.segments).length := Text.length_flatten_le_join _ _
        _ ≤ c.path.utf8ByteSize := by
          cases hr : c.rooted
          case true =>
            have := length_le_utf8ByteSize ('/' :: Text.join ['/'] c.segments)
            simp only [Canonical.path, ofSegments, hr, ↓reduceIte, List.length_cons] at this ⊢
            omega
          case false =>
            simpa [Canonical.path, ofSegments, hr, hs] using length_le_utf8ByteSize _
    simp only [maxPathLength] at hlt ⊢
    omega

theorem locate_of_isFile {disk : Disk} {path : String} (h : disk.isFile path = true) :
    ∃ here, disk.locate path = .ok here ∧ here ∈ disk.files.keys := by
  unfold isFile entryAt at h
  cases hl : disk.locate path
  case error => simp [hl] at h
  case ok here =>
    refine ⟨here, rfl, ?_⟩
    simp only [hl, entry] at h
    cases hg : disk.files.get? here
    case none =>
      rw [hg] at h
      by_cases hr : here = "/" ∨ here ∈ disk.folders <;> simp [hr] at h
    case some text => exact Dict.mem_keys_of_get? hg

-- How far up a path goes first. A path from the root is told apart from the others.
def upsOf (c : Canonical) : Nat :=
  if c.rooted then 0 else c.ups + 1

def spot (disk : Disk) (c : Canonical) : String × Nat :=
  ((disk.locate c.path).toOption.getD "", upsOf c)

theorem eq_of_spot_eq {disk : Disk} {c d : Canonical} (hc : disk.isFile c.path = true)
    (hd : disk.isFile d.path = true) (h : disk.spot c = disk.spot d) : c = d := by
  have ⟨t, hc, _⟩ := locate_of_isFile hc
  have ⟨u, hd, _⟩ := locate_of_isFile hd
  simp only [spot, hc, hd, Except.toOption, Option.getD_some, Prod.mk.injEq] at h
  have ⟨he, h⟩ := h
  have hr : c.rooted = d.rooted := by
    cases hr : c.rooted <;> cases hr' : d.rooted <;> simp [upsOf, hr, hr'] at h ⊢
  refine canonical_unique hc (he ▸ hd) hr ?_
  cases hr' : d.rooted
  case false => simpa [upsOf, hr, hr'] using h
  case true  => rw [c.ups_eq_zero (hr.trans hr'), d.ups_eq_zero hr']

theorem spot_mem {disk : Disk} {c : Canonical} (h : disk.isFile c.path = true) :
    disk.spot c ∈ disk.files.keys.product (List.range maxPathLength) := by
  have ⟨t, hl, hm⟩ := locate_of_isFile h
  have := ups_lt hl
  simp only [spot, hl, Except.toOption, Option.getD_some, List.pair_mem_product, List.mem_range]
  refine ⟨hm, ?_⟩
  unfold upsOf
  split <;> omega

-- A file on disk has few canonical paths, so that there are few of all files together.
theorem length_le_of_isFile (disk : Disk) {paths : List String} (hn : paths.Nodup)
    (h : ∀ q ∈ paths, IsCanonical q ∧ disk.isFile q = true) :
    paths.length ≤ disk.files.size * maxPathLength := by
  have ⟨cs, hcs⟩ : ∃ cs : List Canonical, cs.map Canonical.path = paths := by
    rw [← Set.mem_range, Set.range_list_map]
    exact fun q hq => (h q hq).1
  subst hcs
  have hf (c) (hc : c ∈ cs) := (h _ (List.mem_map_of_mem hc)).2
  have hinj : (cs.map disk.spot).Nodup :=
    List.Nodup.map_on (fun c hc d hd he => eq_of_spot_eq (hf c hc) (hf d hd) he) (.of_map _ hn)
  have hsub : cs.map disk.spot ⊆ disk.files.keys.product (List.range maxPathLength) := by
    intro x hx
    have ⟨c, hc, hx⟩ := List.mem_map.1 hx
    exact hx ▸ spot_mem (hf c hc)
  calc (cs.map Canonical.path).length
    _ = (cs.map disk.spot).length := by simp
    _ ≤ (disk.files.keys.product (List.range maxPathLength)).length :=
      (List.subperm_of_subset hinj hsub).length_le
    _ = disk.files.keys.length * (List.range maxPathLength).length := List.length_product _ _
    _ = disk.files.size * maxPathLength := by simp [Dict.keys, Dict.size]

end Disk

namespace Registry

theorem length_le_of_contains {r : Registry} {paths : List String} (hn : paths.Nodup)
    (h : ∀ q ∈ paths, r.contains q = true) : paths.length ≤ r.sources.size := by
  have hs : paths ⊆ r.sources.keys := by
    intro q hq
    have ⟨_, hg⟩ := Option.isSome_iff_exists.1 (h q hq)
    exact Dict.mem_keys_of_get? hg
  have := (List.subperm_of_subset hn hs).length_le
  simpa [Dict.keys, Dict.size] using this

-- How many files can be read, from the registry or from disk.
theorem length_le (r : Registry) {disk : Disk} {paths : List String} (hn : paths.Nodup)
    (h : ∀ q ∈ paths, r.contains q = true ∨ Path.IsCanonical q ∧ disk.isFile q = true) :
    paths.length ≤ r.sources.size + disk.files.size * Disk.maxPathLength := by
  have h₁ := length_le_of_contains (r := r) (hn.filter (r.contains ·)) (by simp)
  have h₂ := disk.length_le_of_isFile (hn.filter (!r.contains ·)) fun q hq => by
    have ⟨hm, hc⟩ := List.mem_filter.1 hq
    exact (h q hm).resolve_left (by simpa using hc)
  have hl := (List.filter_append_perm (r.contains ·) paths).length_eq
  rw [List.length_append] at hl
  omega

end Registry

end ScopedCss
