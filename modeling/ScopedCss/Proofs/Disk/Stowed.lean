import ScopedCss.Proofs.Disk.Store

namespace ScopedCss

namespace Dict

variable {α : Type} {k : String} {p : String → Bool}

theorem without_insert_of_not (d : Dict α) (v : α) (hk : p k = false) :
    (d.insert k v).without p = (d.without p).insert k v := by
  refine ext ?_
  change (put k v d.entries).filter (!p ·.1) = put k v (d.entries.filter (!p ·.1))
  induction d.entries
  case nil => simp [put, hk]
  case cons entry entries ih =>
    rw [put, List.filter_cons]
    split
    case isTrue he => simp [put, he, hk]
    case isFalse he =>
      rw [List.filter_cons, ih]
      split
      case isTrue  => rw [put, if_neg he]
      case isFalse => rfl

end Dict

namespace Disk

open Path

-- A path below the folder `out` and not in a region, whose folder is what is in front of the last separator.
structure Stowed (out : String) (region : String → Bool) (path : String) : Prop where
  upright : Upright path
  folder  : dirname path = parent path
  within  : isWithin out path = true
  below   : path ≠ out
  apart   : region path = false

-- What is in the folder `out` and not in a region.
def stowing (out : String) (region : String → Bool) (path : String) : Bool :=
  isWithin out path && !region path

section

variable {d d' e x : Disk} {region : String → Bool} {a here out path text t q : String} {s : Segment}
  {segs : List Segment} {l : List (String × String)} {result : Except DiskFault Unit}

theorem Deep.of_above (h : Deep region) (hu : Upright path) (hs : Settled q) (hq : namesOf q <+: namesOf path)
    (hr : region q = true) : region path = true := by
  obtain ⟨more, hm⟩ := hq
  have hall := h.onward (fun s hm' => hu.steps s (hm ▸ List.mem_append_right _ hm')) hs hr
  rwa [hm, hu.settled] at hall

theorem Upright.parent (h : Upright path) : Upright (parent path) where
  settled  := settled_ofSegments fun _ hm => namesOf_mem (List.dropLast_subset _ hm)
  steps s hm := by
    rw [namesOf_parent] at hm
    exact h.steps s (List.dropLast_subset _ hm)

theorem prefix_parent (path : String) : namesOf (parent path) <+: namesOf path := by
  rw [namesOf_parent]
  exact List.dropLast_prefix _

namespace Stowed

theorem parent_apart (h : Stowed out region path) (hd : Deep region) : region (parent path) = false := by
  rw [← Bool.not_eq_true]
  intro hr
  exact Bool.false_ne_true (h.apart.symm.trans (hd.of_above h.upright h.upright.parent.settled (prefix_parent path) hr))

-- All that is above a path and is not there yet is in the folder `out`.
theorem stowing_of_above (h : Stowed out region path) (hd : Deep region) (hu : Upright out) (ho : d.Opens out)
    (hs : Settled q) (hq : namesOf q <+: namesOf path) (hm : d.entry q = .missing) : stowing out region q = true := by
  have ⟨more, hmore⟩ := (isWithin_iff hu.settled h.upright.settled).1 h.within
  have hout : namesOf out <+: namesOf path := ⟨more, hmore.symm⟩
  have hregion : region q = false := by
    rw [← Bool.not_eq_true]
    exact fun hr => Bool.false_ne_true (h.apart.symm.trans (hd.of_above h.upright hs hq hr))
  rw [stowing, hregion, Bool.not_false, Bool.and_true, isWithin_iff hu.settled hs]
  rcases List.prefix_or_prefix_of_prefix hq hout with hq | ⟨more, hm⟩
  · cases hm.symm.trans (ho.above hu hs hq)
  · exact ⟨more, hm.symm⟩

theorem stowing_self (h : Stowed out region path) : stowing out region path = true := by
  rw [stowing, h.within, h.apart]
  rfl

theorem changed (h : Stowed out region path) (hd : Deep region) (hu : Upright out) (ho : d.Opens out) (hp : d.Proper)
    (text : String) : Changed (stowing out region) d (d.store path text).2 := by
  unfold store
  cases hc : d.createFolders (dirname path)
  case error => exact .refl _ d
  case ok made =>
    have hmade : Changed (stowing out region) d made := by
      refine .createFolders hp hc fun visited rest q hv hw hm => ?_
      rw [h.folder] at hv hw
      have ⟨hs, hq⟩ := h.upright.parent.visited hv hw
      exact h.stowing_of_above hd hu ho hs (hq.trans (prefix_parent path)) hm
    dsimp only
    cases hw : made.write path text
    case error => exact hmade
    case ok    =>
      have ⟨here, hl⟩ := locate_of_write hw
      have hhere := h.upright.locate hl
      subst hhere
      exact hmade.trans (.write hl h.stowing_self hw)

end Stowed

theorem step_without (h : region here = false) : (d.without region).step here s = d.step here s :=
  step_of_entry (entry_without h)

theorem addFolders_without (h : region here = false) :
    (d.without region).addFolders [here] = (d.addFolders [here]).without region := by
  have hmem : here ∈ d.folders.filter (!region ·) ↔ here ∈ d.folders := by simp [h]
  unfold addFolders without
  simp only [List.foldl_cons, List.foldl_nil, hmem]
  split
  case isTrue  => rfl
  case isFalse => simp [h]

-- What is in a region makes no difference to the folders that are made outside of it.
theorem descend_without (hd : Deep region) (ha : Settled a) (hs : ∀ s ∈ segs, s = [] ∨ IsStep s)
    (hr : region (ofSegments true (namesOf a ++ segs.filter (· ≠ []))) = false) :
    segs.foldlM descend (d.without region, a) =
        (segs.foldlM descend (d, a)).map (fun r => (r.1.without region, r.2)) ∧
      ∀ r, segs.foldlM descend (d, a) = .ok r → region r.2 = false := by
  have hbelow (a : String) (segs : List Segment) (ha : Settled a) (hs : ∀ s ∈ segs, s = [] ∨ IsStep s)
      (hr : region (ofSegments true (namesOf a ++ segs.filter (· ≠ []))) = false) : region a = false := by
    rw [← Bool.not_eq_true]
    intro ht
    refine Bool.false_ne_true (hr.symm.trans (hd.onward (fun s hm => ?_) ha ht))
    have ⟨hm, hne⟩ := List.mem_filter.1 hm
    exact (hs s hm).resolve_left (by simpa using hne)
  induction segs generalizing d a
  case nil => exact ⟨rfl, fun r he => Except.ok.inj he ▸ hbelow a [] ha hs hr⟩
  case cons s segs ih =>
    have hhere := hbelow a (s :: segs) ha hs hr
    have hrest (s : Segment) (hm : s ∈ segs) := hs s (.tail _ hm)
    rw [List.foldlM_cons, List.foldlM_cons]
    cases hstep : d.step a s
    case error fault =>
      have hfail (d : Disk) (hs : d.step a s = .error fault) : descend (d, a) s = .error fault := by
        unfold descend
        dsimp only
        rw [hs]
        rfl
      rw [hfail d hstep, hfail _ ((step_without hhere).trans hstep)]
      exact ⟨rfl, nofun⟩
    case ok next =>
      have ⟨hsettled, hlater⟩ : Settled next ∧
          region (ofSegments true (namesOf next ++ segs.filter (· ≠ []))) = false := by
        rcases hs s (.head _) with rfl | hs
        · rw [step_same (.inl rfl) hstep]
          exact ⟨ha, by simpa using hr⟩
        · rw [step_of_isStep hs hstep, namesOf_below hs, List.append_assoc]
          exact ⟨settled_below hs, by simpa [List.filter_cons, hs.nonempty] using hr⟩
      have hnext := hbelow next segs hsettled hrest hlater
      rw [descend_eq hstep, descend_eq ((step_without hhere).trans hstep), entry_without hnext]
      split
      case isTrue =>
        rw [addFolders_without hnext]
        exact ih hsettled hrest hlater
      case isFalse => exact ih hsettled hrest hlater

theorem Upright.createFolders_without (h : Upright path) (hd : Deep region) (hr : region path = false) :
    (d.without region).createFolders path = (d.createFolders path).map (·.without region) := by
  have hsteps (s : Segment) (hm : s ∈ Path.segments path) : s = [] ∨ IsStep s :=
    (Classical.em (s = [])).imp_right fun hn => h.steps s (List.mem_filter.2 ⟨hm, by simpa using hn⟩)
  have hstart (d : Disk) : d.start path = "/" := if_pos h.isRooted
  obtain ⟨hdescend, hplace⟩ := descend_without (d := d) (a := "/") hd settled_root hsteps (by
    rw [namesOf_root, List.nil_append]
    exact (congrArg region h.settled).trans hr)
  have hmoved := (congrArg (fun a => (Path.segments path).foldlM descend (d.without region, a))
    (hstart (d.without region))).trans hdescend
  cases hw : (Path.segments path).foldlM descend (d, "/")
  all_goals
    rw [hw] at hmoved
    rw [← hstart d] at hw
  case error => rw [createFolders_stopped hw, createFolders_stopped hmoved, Except.map]
  case ok r =>
    obtain ⟨made, here⟩ := r
    have hhere : region here = false := hplace _ (hstart d ▸ hw)
    rw [createFolders_descended hw, createFolders_descended hmoved, entry_without hhere]
    cases made.entry here <;> rfl

theorem write_without (hl : d.locate path = .ok here) (ha : d.avoids region path = true)
    (hp : region (parent here) = false) :
    (d.without region).write path text = (d.write path text).map (·.without region) := by
  have he := d.without_without region
  have hhere := not_region_of_avoids ha hl
  rw [write_located hl, write_located ((locate_of_avoids he ha).trans hl)]
  have hinsert : ({ d with files := d.files.insert here text } : Disk).without region =
      { d.without region with files := (d.without region).files.insert here text } := by
    unfold without
    dsimp only
    rw [Dict.without_insert_of_not _ _ hhere]
  rw [entry_without hhere, entry_without hp, ← hinsert]
  cases d.entry here
  case missing => by_cases hf : d.entry (parent here) = .folder <;> simp only [hf, if_true, if_false] <;> rfl
  all_goals rfl

namespace Stowed

-- What is in a region makes no difference to what is stored outside of it.
theorem store_without (h : Stowed out region path) (hd : Deep region) :
    (d.without region).store path text = ((d.store path text).1, (d.store path text).2.without region) := by
  have hparent := h.parent_apart hd
  unfold store
  rw [h.folder, h.upright.parent.createFolders_without hd hparent]
  cases d.createFolders (parent path)
  case error => rfl
  case ok made =>
    have ha := h.upright.avoids (d := made) hd h.apart
    dsimp only [Except.map]
    cases hl : made.locate path
    case error fault =>
      have hfault (d : Disk) (hl : d.locate path = .error fault) : d.write path text = .error fault := by
        rw [Disk.write, hl]
        rfl
      rw [hfault made hl, hfault _ ((locate_of_avoids (made.without_without region) ha).trans hl)]
    case ok here =>
      rw [write_without hl ha (h.upright.locate hl ▸ hparent)]
      cases made.write path text <;> rfl

end Stowed

theorem storeAll_without (hd : Deep region) (hs : ∀ o ∈ l, Stowed out region o.1) :
    (d.without region).storeAll l = ((d.storeAll l).1, (d.storeAll l).2.without region) := by
  induction l generalizing d
  case nil => rfl
  case cons o l ih =>
    obtain ⟨path, text⟩ := o
    rw [storeAll_cons, storeAll_cons, (hs _ (.head _)).store_without hd]
    cases (d.store path text).1
    case error => rfl
    case ok    => exact ih fun o hm => hs o (.tail _ hm)

theorem storeAll_changed (hd : Deep region) (hs : ∀ o ∈ l, Stowed out region o.1) (hu : Upright out) (ho : d.Opens out)
    (hp : d.Proper) : Changed (stowing out region) d (d.storeAll l).2 := by
  induction l generalizing d
  case nil => exact .refl _ d
  case cons o l ih =>
    obtain ⟨path, text⟩ := o
    have hchanged := (hs _ (.head _)).changed hd hu ho hp text
    have hrest := ih (fun o hm => hs o (.tail _ hm)) (hchanged.keeps.opens ho) (store_proper hp path text)
    rw [storeAll_cons]
    cases (d.store path text).1
    case error => exact hchanged
    case ok    => exact hchanged.trans hrest

theorem without_proper (hp : d.Proper) : (d.without region).Proper where
  cwd     := hp.cwd
  apart q hq := by
    have hm : q ∈ d.files.keys := List.mem_of_mem_filter (Dict.keys_without ▸ hq)
    exact ⟨(hp.apart q hm).1, fun hf => (hp.apart q hm).2 (List.mem_of_mem_filter hf)⟩

-- To store the same texts once more changes nothing outside of a region, whatever has been done there.
theorem storeAll_again_without (hd : Deep region) (hs : ∀ o ∈ l, Stowed out region o.1) (hp : d.Proper)
    (hx : x.without region = (d.storeAll l).2.without region) :
    (x.storeAll l).1 = (d.storeAll l).1 ∧
      ∀ q, region q = false → (x.storeAll l).2.entry q = (d.storeAll l).2.entry q := by
  have hfirst := storeAll_without (d := d) hd hs
  have hsecond := storeAll_without (d := x) hd hs
  rw [hx] at hsecond
  have ⟨hresult, hentries⟩ := storeAll_again (without_proper hp) hfirst (.refl _)
  rw [hsecond] at hresult hentries
  refine ⟨hresult, fun q hq => ?_⟩
  rw [← entry_without hq, ← entry_without (d := (d.storeAll l).2) hq]
  exact (hentries q).elim id And.left

end

end Disk

end ScopedCss
