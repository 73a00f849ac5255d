import ScopedCss.Proofs.Disk.Changes

namespace ScopedCss

namespace Disk

open Path

-- A text is stored in a file, with all folders above it.
def store (d : Disk) (path text : String) : Except DiskFault Unit × Disk :=
  match d.createFolders (dirname path) with
  | .error fault => (.error fault, d)
  | .ok made =>
    match made.write path text with
    | .error fault => (.error fault, made)
    | .ok written  => (.ok (), written)

-- Storing ends with the first text that cannot be stored.
def storeAll : Disk → List (String × String) → Except DiskFault Unit × Disk
  | d, []                   => (.ok (), d)
  | d, (path, text) :: rest =>
    match d.store path text with
    | (.error fault, stopped) => (.error fault, stopped)
    | (.ok (), stored)        => stored.storeAll rest

-- The same files and folders, whatever the texts of the files are.
structure Shape (d d' : Disk) : Prop where
  same    : SameFolders d d'
  missing : ∀ path, d'.entry path = .missing ↔ d.entry path = .missing

-- What is a file stays one, and what is a folder.
structure Grows (d d' : Disk) : Prop where
  keeps : Keeps d d'
  files : ∀ path text, d.entry path = .file text → ∃ text, d'.entry path = .file text

section

variable {d d' d'' e x : Disk} {here path text q : String} {s : Segment} {segs : List Segment}
  {l : List (String × String)} {result : Except DiskFault Unit}

theorem Shape.refl (d : Disk) : Shape d d :=
  ⟨.refl d, fun _ => .rfl⟩

theorem Shape.file (h : Shape d d') (hf : d.entry path = .file text) : ∃ text, d'.entry path = .file text := by
  cases he : d'.entry path
  case file text => exact ⟨text, rfl⟩
  case folder    => cases hf.symm.trans ((h.same.folders path).1 he)
  case missing   => cases hf.symm.trans ((h.missing path).1 he)

theorem Shape.trans (h : Shape d d') (h' : Shape d' d'') : Shape d d'' :=
  ⟨h.same.trans h'.same, fun path => (h'.missing path).trans (h.missing path)⟩

theorem Shape.grows (h : Shape d d') : Grows d d' :=
  ⟨h.same.keeps, fun _ _ => h.file⟩

theorem Grows.refl (d : Disk) : Grows d d :=
  ⟨⟨rfl, fun _ h => h⟩, fun _ text h => ⟨text, h⟩⟩

theorem Grows.trans (h : Grows d d') (h' : Grows d' d'') : Grows d d'' where
  keeps           := h.keeps.trans h'.keeps
  files path t hf := have ⟨_, hf⟩ := h.files path t hf; h'.files path _ hf

-- Making folders changes nothing that is there.
theorem entry_createFolders (hp : d.Proper) (hc : d.createFolders path = .ok d') (hq : d.entry q ≠ .missing) :
    d'.entry q = d.entry q := by
  have hchanged : Changed (d.entry · == .missing) d d' :=
    .createFolders hp hc fun _ _ _ _ _ hm => by rw [hm]; rfl
  exact hchanged.entry (by simpa using hq)

theorem grows_createFolders (hp : d.Proper) (hc : d.createFolders path = .ok d') : Grows d d' where
  keeps           := (Changed.createFolders_any hp hc).keeps
  files q text hf := ⟨text, (entry_createFolders hp hc (by simp [hf])).trans hf⟩

theorem grows_insert (hn : d.entry here ≠ .folder) (text : String) :
    Grows d { d with files := d.files.insert here text } := by
  refine ⟨⟨rfl, fun q hf => ?_⟩, fun q t hf => ?_⟩
  all_goals rw [entry_insert]
  case refine_1 =>
    rw [if_neg]
    · exact hf
    · rintro rfl
      exact hn hf
  case refine_2 =>
    split
    case isTrue  => exact ⟨_, rfl⟩
    case isFalse => exact ⟨t, hf⟩

theorem Shape.step (h : Shape d d') : d'.step here s = d.step here s := by
  unfold Disk.step
  cases he : d.entry here
  case file text =>
    have ⟨_, he'⟩ := h.file he
    rw [he']
  case folder  => rw [(h.same.folders here).2 he]
  case missing => rw [(h.missing here).2 he]

theorem Shape.locate (h : Shape d d') : d'.locate path = d.locate path := by
  have hstep : d'.step = d.step := by
    funext here s
    exact h.step
  unfold Disk.locate
  rw [hstep, h.same.cwd]

theorem Shape.addFolder (h : Shape d d') (hm : d.entry here = .missing) :
    Shape (d.addFolders [here]) (d'.addFolders [here]) := by
  have hentry := entry_addFolders hm
  have hentry' := entry_addFolders ((h.missing here).2 hm)
  refine ⟨⟨h.same.cwd, fun path => ?_⟩, fun path => ?_⟩
  all_goals
    rw [hentry, hentry']
    split
  case refine_1.isTrue  => exact .rfl
  case refine_1.isFalse => exact h.same.folders path
  case refine_2.isTrue  => exact .rfl
  case refine_2.isFalse => exact h.missing path

theorem Shape.insert (hf : d.entry here = .file text) (text' : String) :
    Shape d { d with files := d.files.insert here text' } := by
  refine ⟨⟨rfl, fun q => ?_⟩, fun q => ?_⟩
  all_goals
    rw [entry_insert]
    split
  case refine_1.isTrue hq  => exact iff_of_false nofun (by simp [hq, hf])
  case refine_1.isFalse    => exact .rfl
  case refine_2.isTrue hq  => exact iff_of_false nofun (by simp [hq, hf])
  case refine_2.isFalse    => exact .rfl

-- Folders are made, or cannot be made, alike.
theorem Shape.createFolders (h : Shape d d') {fault : DiskFault} (hc : d.createFolders path = .error fault) :
    d'.createFolders path = .error fault := by
  have hwalk (segs : List Segment) (a : String) (d d' : Disk) (h : Shape d d') :
      (∃ fault, segs.foldlM descend (d, a) = .error fault ∧ segs.foldlM descend (d', a) = .error fault) ∨
        ∃ made made' here, segs.foldlM descend (d, a) = .ok (made, here) ∧
          segs.foldlM descend (d', a) = .ok (made', here) ∧ Shape made made' := by
    induction segs generalizing a d d'
    case nil => exact .inr ⟨d, d', a, rfl, rfl, h⟩
    case cons s segs ih =>
      rw [List.foldlM_cons, List.foldlM_cons]
      cases hs : d.step a s
      case error fault =>
        have hfail (d : Disk) (hs : d.step a s = .error fault) : descend (d, a) s = .error fault := by
          unfold descend
          dsimp only
          rw [hs]
          rfl
        rw [hfail d hs, hfail d' (h.step.trans hs)]
        exact .inl ⟨fault, rfl, rfl⟩
      case ok next =>
        rw [descend_eq hs, descend_eq (h.step.trans hs)]
        by_cases hm : d.entry next = .missing
        case pos =>
          rw [if_pos hm, if_pos ((h.missing next).2 hm)]
          exact ih next _ _ (h.addFolder hm)
        case neg =>
          rw [if_neg hm, if_neg (mt (h.missing next).1 hm)]
          exact ih next _ _ h
  have hstart : d'.start path = d.start path := by rw [start, start, h.same.cwd]
  rcases hwalk (segments path) (d.start path) d d' h with ⟨fault', hd, hd'⟩ | ⟨made, made', here, hd, hd', hshape⟩
  all_goals rw [← hstart] at hd'
  case inl =>
    rw [createFolders_stopped hd] at hc
    rw [createFolders_stopped hd', hc]
  case inr =>
    rw [createFolders_descended hd] at hc
    rw [createFolders_descended hd']
    cases he : made.entry here
    case file text =>
      obtain ⟨_, he'⟩ := hshape.file he
      rw [he] at hc
      rw [he']
      exact hc
    all_goals
      rw [he] at hc
      cases hc

theorem Shape.write (h : Shape d d') {fault : DiskFault} (hw : d.write path text = .error fault) :
    d'.write path text = .error fault := by
  have hl : d'.locate path = d.locate path := h.locate
  cases hp : d.locate path
  case error =>
    unfold Disk.write at hw ⊢
    rw [hp] at hw
    rw [hl, hp]
    exact hw
  case ok here =>
    rw [write_located hp] at hw
    rw [write_located (hl.trans hp)]
    cases he : d.entry here
    case file =>
      rw [he] at hw
      cases hw
    case folder =>
      rw [he] at hw
      rw [(h.same.folders here).2 he]
      exact hw
    case missing =>
      rw [he] at hw
      rw [(h.missing here).2 he]
      dsimp only at hw ⊢
      split at hw
      case isTrue      => cases hw
      case isFalse hnp =>
        rw [if_neg (mt (h.same.folders _).1 hnp)]
        exact hw

-- What is stored, and where it cannot be.
theorem store_eq_ok (h : d.store path text = (.ok (), d')) :
    ∃ made, d.createFolders (dirname path) = .ok made ∧ made.write path text = .ok d' := by
  unfold store at h
  cases hc : d.createFolders (dirname path)
  case error =>
    rw [hc] at h
    cases h
  case ok made =>
    rw [hc] at h
    dsimp only at h
    cases hw : made.write path text
    case error =>
      rw [hw] at h
      cases h
    case ok =>
      rw [hw] at h
      cases h
      exact ⟨made, rfl, hw⟩

theorem store_eq_error {fault : DiskFault} (h : d.store path text = (.error fault, d')) :
    d.createFolders (dirname path) = .error fault ∧ d' = d ∨
      d.createFolders (dirname path) = .ok d' ∧ d'.write path text = .error fault := by
  unfold store at h
  cases hc : d.createFolders (dirname path)
  case error =>
    rw [hc] at h
    cases h
    exact .inl ⟨rfl, rfl⟩
  case ok made =>
    rw [hc] at h
    dsimp only at h
    cases hw : made.write path text
    case error =>
      rw [hw] at h
      cases h
      exact .inr ⟨rfl, hw⟩
    case ok =>
      rw [hw] at h
      cases h

theorem locate_of_write (h : d.write path text = .ok d') : ∃ here, d.locate path = .ok here := by
  cases hl : d.locate path
  case ok here => exact ⟨here, rfl⟩
  case error =>
    rw [Disk.write, hl] at h
    cases h

-- A text is stored again where it has been before.
theorem store_again (hp : d.Proper) (h : d.store path text = (.ok (), d')) (hg : Grows d' x) :
    ∃ here, d'.entry here = .file text ∧ (∀ q, q ≠ here → d.entry q ≠ .missing → d'.entry q = d.entry q) ∧
      x.store path text = (.ok (), { x with files := x.files.insert here text }) ∧
      x.entry here ≠ .folder := by
  have ⟨made, hc, hw⟩ := store_eq_ok h
  have ⟨here, hl⟩ := locate_of_write hw
  have ⟨hn, _, hd⟩ := (write_eq_ok hl).1 hw
  subst hd
  have hmade := (grows_insert hn text).trans hg
  have ⟨old, hold⟩ := hg.files here text (by rw [entry_insert, if_pos rfl])
  have hx : x.entry here ≠ .folder := by simp [hold]
  have hwrite : x.write path text = .ok { x with files := x.files.insert here text } :=
    (write_eq_ok (hmade.keeps.locate hl)).2 ⟨hx, by simp [hold], rfl⟩
  refine ⟨here, by rw [entry_insert, if_pos rfl], fun q hq hm => ?_, ?_, hx⟩
  · rw [entry_insert, if_neg hq, entry_createFolders hp hc hm]
  · unfold store
    rw [(hmade.keeps.opens (hp.createFolders hc).2).createFolders]
    dsimp only
    rw [hwrite]

theorem store_error_again (hp : d.Proper) {fault : DiskFault} (h : d.store path text = (.error fault, d'))
    (hs : Shape d' x) : x.store path text = (.error fault, x) := by
  unfold store
  rcases store_eq_error h with ⟨hc, rfl⟩ | ⟨hc, hw⟩
  case inl => rw [hs.createFolders hc]
  case inr =>
    rw [(hs.grows.keeps.opens (hp.createFolders hc).2).createFolders]
    dsimp only
    rw [hs.write hw]

theorem store_proper (hp : d.Proper) (path text : String) : (d.store path text).2.Proper := by
  unfold store
  cases hc : d.createFolders (dirname path)
  case error => exact hp
  case ok made =>
    have hmade := (hp.createFolders hc).1
    dsimp only
    cases hw : made.write path text
    case error => exact hmade
    case ok    =>
      have ⟨_, hl⟩ := locate_of_write hw
      exact (hmade.write hl hw).1.proper hmade

theorem store_grows (hp : d.Proper) (path text : String) : Grows d (d.store path text).2 := by
  unfold store
  cases hc : d.createFolders (dirname path)
  case error => exact .refl d
  case ok made =>
    have hmade := grows_createFolders hp hc
    dsimp only
    cases hw : made.write path text
    case error => exact hmade
    case ok    =>
      have ⟨_, hl⟩ := locate_of_write hw
      have ⟨hn, _, hd⟩ := (write_eq_ok hl).1 hw
      exact hmade.trans (hd ▸ grows_insert hn text)

theorem storeAll_cons (path text : String) (l : List (String × String)) (d : Disk) :
    d.storeAll ((path, text) :: l) =
      match (d.store path text).1 with
      | .error fault => (.error fault, (d.store path text).2)
      | .ok ()       => (d.store path text).2.storeAll l := by
  rw [storeAll]
  rcases d.store path text with ⟨_ | _, _⟩ <;> rfl

theorem storeAll_grows (hp : d.Proper) : Grows d (d.storeAll l).2 := by
  induction l generalizing d
  case nil => exact .refl d
  case cons target l ih =>
    obtain ⟨path, text⟩ := target
    have hgrows := store_grows hp path text
    have hrest := ih (store_proper hp path text)
    rw [storeAll_cons]
    cases (d.store path text).1
    case error => exact hgrows
    case ok    => exact hgrows.trans hrest

-- To store the same texts once more changes nothing: each of them is stored where it was, and what cannot be stored
-- still cannot. What has been written over by a later one is written over again.
theorem storeAll_again (hp : d.Proper) (h : d.storeAll l = (result, e)) (hs : Shape e x) :
    (x.storeAll l).1 = result ∧ ∀ q, (x.storeAll l).2.entry q = e.entry q ∨
      (x.storeAll l).2.entry q = x.entry q ∧ ∀ t, d.entry q = .file t → e.entry q = .file t := by
  induction l generalizing d x
  case nil =>
    cases h
    exact ⟨rfl, fun q => .inr ⟨rfl, fun t ht => ht⟩⟩
  case cons target l ih =>
    obtain ⟨path, text⟩ := target
    rw [storeAll_cons] at h ⊢
    rcases hstore : d.store path text with ⟨fault | ⟨⟩, d₁⟩
    all_goals
      rw [hstore] at h
      dsimp only at h
    case error =>
      cases h
      rw [store_error_again hp hstore hs]
      refine ⟨rfl, fun q => .inr ⟨rfl, fun t ht => ?_⟩⟩
      rcases store_eq_error hstore with ⟨_, rfl⟩ | ⟨hc, _⟩
      · exact ht
      · rw [entry_createFolders hp hc (by simp [ht]), ht]
    case ok =>
      have hp₁ : d₁.Proper := by
        have := store_proper hp path text
        rwa [hstore] at this
      have hlater : Grows d₁ e := by
        have := storeAll_grows (l := l) hp₁
        rwa [h] at this
      have ⟨here, hhere, hothers, hx, hn⟩ := store_again hp hstore (hlater.trans hs.grows)
      rw [hx]
      have ⟨_, hfile⟩ := (hlater.trans hs.grows).files here text hhere
      have ⟨hresult, hentries⟩ := ih hp₁ h (hs.trans (.insert hfile text))
      refine ⟨hresult, fun q => (hentries q).elim .inl fun ⟨hq, hkeep⟩ => ?_⟩
      rw [entry_insert] at hq
      by_cases hne : q = here
      case pos =>
        subst hne
        rw [if_pos rfl] at hq
        exact .inl (hq.trans (hkeep text hhere).symm)
      case neg =>
        rw [if_neg hne] at hq
        exact .inr ⟨hq, fun t ht => hkeep t ((hothers q hne (by simp [ht])).trans ht)⟩

end

end Disk

end ScopedCss
