import ScopedCss.Proofs.Disk.Tree

namespace ScopedCss

namespace Disk

open Path

-- What may have been done to a disk: files and folders have been made in a region, and files removed from it.
structure Changed (region : String → Bool) (d d' : Disk) : Prop where
  beyond  : d'.without region = d.without region
  folders : ∀ path, d.entry path = .folder → d'.entry path = .folder
  tree    : d.Tree → d'.Tree

section

variable {d d' d'' : Disk} {region region' : String → Bool} {a here path text t q : String} {s : Segment}
  {segs names : List Segment}

theorem Keeps.isFolder (h : Keeps d d') (hf : d.isFolder path = true) : d'.isFolder path = true := by
  unfold Disk.isFolder entryAt at hf ⊢
  cases hl : d.locate path
  case error =>
    rw [hl] at hf
    cases hf
  case ok here =>
    rw [hl] at hf
    rw [h.locate hl]
    have hfolder : d.entry here = .folder := by simpa using hf
    simp [h.folders here hfolder]

theorem without_of_subset (h : ∀ q, region q = true → region' q = true) :
    (d.without region).without region' = d.without region' := by
  have hfilter (q : String) : (!region' q && !region q) = !region' q := by
    cases hr : region q
    case false => simp
    case true  => simp [h q hr]
  unfold without Dict.without
  simp only [List.filter_filter, hfilter]

theorem without_mono (h : ∀ q, region q = true → region' q = true) (he : d'.without region = d.without region) :
    d'.without region' = d.without region' := by
  rw [← without_of_subset h, he, without_of_subset h]

namespace Changed

theorem refl (region : String → Bool) (d : Disk) : Changed region d d :=
  ⟨rfl, fun _ => id, id⟩

theorem trans (h : Changed region d d') (h' : Changed region d' d'') : Changed region d d'' where
  beyond    := h'.beyond.trans h.beyond
  folders q := h'.folders q ∘ h.folders q
  tree      := h'.tree ∘ h.tree

theorem mono (h : Changed region d d') (hr : ∀ q, region q = true → region' q = true) : Changed region' d d' where
  beyond  := without_mono hr h.beyond
  folders := h.folders
  tree    := h.tree

theorem cwd (h : Changed region d d') : d'.cwd = d.cwd :=
  cwd_of_without h.beyond

theorem entry (h : Changed region d d') (hq : region q = false) : d'.entry q = d.entry q :=
  entry_of_without h.beyond hq

theorem keeps (h : Changed region d d') : Keeps d d' :=
  ⟨h.cwd, h.folders⟩

end Changed

theorem Changed.write (hl : d.locate path = .ok here) (hr : region here = true) (hw : d.write path text = .ok d') :
    Changed region d d' where
  beyond  := without_write hl hr hw
  folders q hf := by
    have ⟨hn, _, hd⟩ := (write_eq_ok hl).1 hw
    subst hd
    rw [entry_insert, if_neg]
    · exact hf
    · rintro rfl
      exact hn hf
  tree ht := by
    have hproper := ht.proper.write hl hw
    have ⟨_, _, hd⟩ := (write_eq_ok hl).1 hw
    subst hd
    refine ⟨hproper.1.proper ht.proper, ht.cwd, fun q hq => ?_⟩
    dsimp only at hq
    rw [Dict.keys_insert] at hq
    split at hq
    case isTrue  => exact ht.settled q hq
    case isFalse =>
      rw [List.append_assoc] at hq
      rcases List.mem_append.1 hq with hq | hq
      · exact ht.settled q (List.mem_append_left _ hq)
      · rcases List.mem_append.1 hq with hq | hq
        · rw [List.mem_singleton.1 hq]
          exact ht.proper.settled_locate hl
        · exact ht.settled q (List.mem_append_right _ hq)

theorem Changed.discard (h : ∀ here, d.locate path = .ok here → region here = true) :
    Changed region d (d.discard path) := by
  unfold Disk.discard
  cases hr : d.remove path
  case error => exact .refl region d
  case ok d' =>
    cases hl : d.locate path
    case error =>
      rw [Disk.remove, hl] at hr
      cases hr
    case ok here =>
      obtain ⟨⟨text, hf⟩, hd⟩ := (remove_eq_ok hl).1 hr
      refine ⟨hd ▸ without_erase (h here hl), fun q hq => ?_, fun ht => ?_⟩
      · have hne : q ≠ here := by
          rintro rfl
          cases hf.symm.trans hq
        rw [← hq, hd]
        change ({ d with files := d.files.erase here } : Disk).entry q = d.entry q
        unfold Disk.entry
        rw [Dict.get?_erase, if_neg hne]
      · refine ⟨((ht.proper.remove hl hr).1).proper ht.proper, hd ▸ ht.cwd, fun q hq => ht.settled q ?_⟩
        subst hd
        rcases List.mem_append.1 hq with hq | hq
        · exact List.mem_append_left _ ((List.filter_sublist.map _).subset hq)
        · exact List.mem_append_right _ hq

theorem Changed.addFolder (hm : d.entry here = .missing) (hr : region here = true) (hs : Settled here) :
    Changed region d (d.addFolders [here]) where
  beyond  := without_addFolder hr
  folders q hq := by
    rw [entry_addFolders hm]
    split
    case isTrue  => rfl
    case isFalse => exact hq
  tree ht := by
    refine ⟨ht.proper.addFolder hm, ht.cwd, fun q hq => ?_⟩
    rcases List.mem_append.1 hq with hq | hq
    · exact ht.settled q (List.mem_append_left _ hq)
    · rcases mem_addFolders hq with hq | rfl
      · exact ht.settled q (List.mem_append_right _ hq)
      · exact hs

-- All folders that are made on the way are in a region.
theorem Changed.descend (hp : d.Proper) (ha : Settled a) (hs : ∀ s ∈ segs, ∀ c ∈ s, (c == '/') = false)
    (hd : segs.foldlM Disk.descend (d, a) = .ok (d', here))
    (hr : ∀ made rest q, segs = made ++ rest → made.foldlM d'.step a = .ok q → d.entry q = .missing → region q = true) :
    Changed region d d' := by
  induction segs generalizing d a
  case nil =>
    cases hd
    exact .refl region _
  case cons s segs ih =>
    have hgrown := hp.descend hd
    rw [List.foldlM_cons] at hd
    cases hstep : Disk.descend (d, a) s
    case error =>
      rw [hstep] at hd
      cases hd
    case ok =>
      have ⟨next, hnext⟩ := step_of_descend hstep
      have hfolder := folder_of_step hnext
      have hwalk : d'.step a s = .ok next := (step_congr hfolder (hgrown.folders a hfolder)).trans hnext
      have hlater (made rest : List Segment) (q : String) (he : segs = made ++ rest)
          (hq : made.foldlM d'.step next = .ok q) : d.entry q = .missing → region q = true := by
        refine hr (s :: made) rest q (congrArg (s :: ·) he) ?_
        rw [List.foldlM_cons, hwalk]
        exact hq
      have hsettled := settled_step ha (hs s (.head _)) hnext
      have hslash (s : Segment) (hm : s ∈ segs) := hs s (.tail _ hm)
      rw [descend_eq hnext] at hd
      change segs.foldlM Disk.descend (if d.entry next = .missing then d.addFolders [next] else d, next) =
        .ok (d', here) at hd
      split at hd
      case isFalse   => exact ih hp hsettled hslash hd hlater
      case isTrue hm =>
        have hmade := Changed.addFolder hm (hlater [] segs next rfl rfl hm) hsettled
        refine hmade.trans (ih (hp.addFolder hm) hsettled hslash hd fun made rest q he hq hm' => ?_)
        refine hlater made rest q he hq ?_
        rw [entry_addFolders hm] at hm'
        split at hm'
        case isTrue  => cases hm'
        case isFalse => exact hm'

theorem Changed.createFolders (hp : d.Proper) (hc : d.createFolders path = .ok d')
    (hr : ∀ made rest q, segments path = made ++ rest → made.foldlM d'.step (d.start path) = .ok q →
      d.entry q = .missing → region q = true) : Changed region d d' := by
  cases hd : (segments path).foldlM Disk.descend (d, d.start path)
  case error =>
    rw [createFolders_stopped hd] at hc
    cases hc
  case ok r =>
    obtain ⟨d₁, here⟩ := r
    rw [createFolders_descended hd] at hc
    have hsame : d₁ = d' := by
      cases he : d₁.entry here
      all_goals rw [he] at hc
      case file => cases hc
      all_goals exact Except.ok.inj hc
    subst hsame
    exact .descend hp (hp.settled_start path) (fun _ hm => no_slash_of_mem_segments hm) hd hr

theorem Changed.createFolders_any (hp : d.Proper) (hc : d.createFolders path = .ok d') :
    Changed (fun _ => true) d d' :=
  .createFolders hp hc fun _ _ _ _ _ _ => rfl

-- The folders on the way straight down to a path are above it.
theorem walk_names (h : segs.foldlM d.step a = .ok t) : (segs.filter (· ≠ [])).foldlM d.step a = .ok t := by
  induction segs generalizing a
  case nil => exact h
  case cons s segs ih =>
    rw [List.foldlM_cons] at h
    cases hs : d.step a s
    case error =>
      rw [hs] at h
      cases h
    case ok next =>
      rw [hs] at h
      have hrest := ih h
      rw [List.filter_cons]
      split
      case isTrue =>
        rw [List.foldlM_cons, hs]
        exact hrest
      case isFalse hn =>
        rwa [step_same (.inl (by simpa using hn)) hs] at hrest

theorem Upright.visited (h : Upright path) {made rest : List Segment} (hs : Path.segments path = made ++ rest)
    (hw : made.foldlM d'.step (d.start path) = .ok q) : Settled q ∧ namesOf q <+: namesOf path := by
  have hnames : namesOf path = made.filter (· ≠ []) ++ rest.filter (· ≠ []) := by
    rw [namesOf, hs, List.filter_append]
  have hstep (s : Segment) (hm : s ∈ made.filter (· ≠ [])) : IsStep s :=
    h.steps s (hnames ▸ List.mem_append_left _ hm)
  rw [start, if_pos h.isRooted] at hw
  have hwalk := walk_names hw
  have hq := namesOf_walk hstep hwalk
  rw [namesOf_root, List.nil_append] at hq
  exact ⟨settled_foldlM settled_root (fun s hm => (hstep s hm).slash) hwalk, _, hq ▸ hnames.symm⟩

-- A folder that can be walked to is in folders only.
theorem Opens.above (ho : d.Opens path) (h : Upright path) (hs : Settled q) (hq : namesOf q <+: namesOf path) :
    d.entry q = .folder := by
  obtain ⟨here, hwalk, hf⟩ := ho
  obtain ⟨rest, hrest⟩ := hq
  rw [start, if_pos h.isRooted] at hwalk
  have hnames := walk_names hwalk
  change (namesOf path).foldlM d.step "/" = .ok here at hnames
  rw [← hrest, List.foldlM_append] at hnames
  cases hw : (namesOf q).foldlM d.step "/"
  case error =>
    rw [hw] at hnames
    cases hnames
  case ok t =>
    rw [hw] at hnames
    have hstep (s : Segment) (hm : s ∈ namesOf q) : IsStep s := h.steps s (hrest ▸ List.mem_append_left _ hm)
    have ht : t = q := by
      rw [← hs, ← settled_foldlM settled_root (fun s hm => (hstep s hm).slash) hw, namesOf_walk hstep hw, namesOf_root,
        List.nil_append]
    change rest.foldlM d.step t = .ok here at hnames
    subst ht
    cases rest
    case nil =>
      cases hnames
      exact hf
    case cons s rest =>
      rw [List.foldlM_cons] at hnames
      cases hn : d.step t s
      case error =>
        rw [hn] at hnames
        cases hnames
      case ok => exact folder_of_step hn

end

end Disk

end ScopedCss
