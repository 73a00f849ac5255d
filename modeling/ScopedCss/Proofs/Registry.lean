import ScopedCss.Proofs.Dict
import ScopedCss.Proofs.Path.Canonical
import ScopedCss.Proofs.Related
import ScopedCss.Preprocessing.Render

namespace ScopedCss

theorem Disk.isFile_of_read {disk : Disk} {path text : String} (h : disk.read path = .ok text) :
    disk.isFile path = true := by
  unfold read at h
  unfold isFile entryAt
  cases hl : disk.locate path
  case error => simp [hl] at h; cases h
  case ok here =>
    simp only [hl] at h ⊢
    cases he : disk.entry here
    case file => rfl
    all_goals
      simp only [bind, Except.bind, he] at h
      cases h

theorem Disk.read_of_isFile {disk : Disk} {path : String} (h : disk.isFile path = true) :
    ∃ text, disk.read path = .ok text := by
  unfold isFile entryAt at h
  unfold read
  cases hl : disk.locate path
  case error => simp [hl] at h
  case ok here =>
    simp only [hl] at h ⊢
    cases he : disk.entry here
    case file text => exact ⟨text, by simp [bind, Except.bind, he]; rfl⟩
    all_goals simp [he] at h

namespace Registry

variable {disk : Disk} {held : String → Prop} {r r₁ r₂ r₃ : Registry}

-- A file with forward slashes is registered under the path that it has itself. A path with other
-- slashes is only ever asked for, so that the file it leads to has another one.
def Keyed (r : Registry) : Prop :=
  ∀ q source, Path.forwardSlashes q = q → r.get? q = some source → source.path = q

theorem contains_of_get? {path : String} {source : Source} (h : r.get? path = some source) :
    r.contains path = true := by
  simp only [get?] at h
  simp [contains, Dict.contains, h]

theorem contains_eq_false {path : String} : r.contains path = false ↔ r.get? path = none := by
  simp [contains, Dict.contains, get?]

theorem keyed_ofSettings (s : Settings) (arch : String) : (ofSettings s arch).Keyed := by
  intro q source _ h
  simp [ofSettings, get?] at h

theorem Keyed.insertAt (h : r.Keyed) {path : String} {source : Source}
    (hp : Path.forwardSlashes path = path → source.path = path) : (r.insertAt path source).Keyed := by
  intro q source' hq hs
  simp only [get?, Registry.insertAt, Dict.get?_insert] at hs
  split at hs
  case isTrue he =>
    cases hs
    exact he ▸ hp (he ▸ hq)
  case isFalse => exact h q source' hq hs

theorem Keyed.insert (h : r.Keyed) (source : Source) : (r.insert source).Keyed :=
  h.insertAt fun _ => rfl

-- What may happen to a registry while files are asked for and roots are rendered. The entries of
-- the paths that are held stay as they are.
structure Later (disk : Disk) (held : String → Prop) (r₁ r₂ : Registry) : Prop where
  get?     : ∀ q, held q → r₁.contains q = true → r₂.get? q = r₁.get? q
  contains : ∀ q, r₁.contains q = true → r₂.contains q = true
  added    : ∀ q, r₂.contains q = true → r₁.contains q = true ∨ disk.isFile q = true
  keyed    : r₁.Keyed → r₂.Keyed
  size     : r₁.sources.size ≤ r₂.sources.size

namespace Later

theorem refl (r : Registry) : Later disk held r r where
  get? _ _ _    := rfl
  contains _ h  := h
  added _ h     := .inl h
  keyed h       := h
  size          := Nat.le_refl _

theorem trans (h₁ : Later disk held r₁ r₂) (h₂ : Later disk held r₂ r₃) : Later disk held r₁ r₃ where
  get? q hq hc  := (h₂.get? q hq (h₁.contains q hc)).trans (h₁.get? q hq hc)
  contains q h  := h₂.contains q (h₁.contains q h)
  added q h     := (h₂.added q h).elim (h₁.added q) .inr
  keyed h       := h₂.keyed (h₁.keyed h)
  size          := Nat.le_trans h₁.size h₂.size

theorem mono {held' : String → Prop} (h : Later disk held r₁ r₂) (hh : ∀ q, held' q → held q) :
    Later disk held' r₁ r₂ where
  get? q hq     := h.get? q (hh q hq)
  contains      := h.contains
  added         := h.added
  keyed         := h.keyed
  size          := h.size

theorem knows (h : Later disk held r₁ r₂) : r₂.knows disk = r₁.knows disk := by
  funext q
  have h₁ := h.contains q
  have h₂ := h.added q
  unfold Registry.knows
  cases hc : r₁.contains q <;> cases hc' : r₂.contains q <;> simp_all

-- An entry that is not held is replaced.
theorem insert {source : Source} (hc : r.contains source.path = true) (hh : ¬held source.path) :
    Later disk held r (r.insert source) where
  get? q hq _ := by
    have : q ≠ source.path := fun h => hh (h ▸ hq)
    simp [Registry.get?, Registry.insert, insertAt, this]
  contains q h := by
    simp only [Registry.contains, Registry.insert, insertAt, Dict.contains_insert] at h ⊢
    simp [h]
  added q h := by
    simp only [Registry.contains, Registry.insert, insertAt, Dict.contains_insert, Bool.or_eq_true,
      decide_eq_true_eq] at h
    exact .inl <| h.elim (· ▸ hc) id
  keyed h := h.insert source
  size := Dict.size_le_insert _ _ _

end Later

theorem knows_insert {source : Source} (h : r.knows disk source.path = true) :
    (r.insert source).knows disk = r.knows disk := by
  funext q
  by_cases hq : q = source.path
  case pos =>
    rw [hq, h]
    simp [knows, contains, insert, insertAt]
  case neg => simp [knows, contains, insert, insertAt, hq]

theorem fetch_registered {path : String} {source : Source} (h : r.get? path = some source) :
    r.fetch disk path = .ok (source, r) := by
  unfold fetch
  rw [h]
  rfl

theorem fetch_later {path : String} {source : Source} (h : r₁.fetch disk path = .ok (source, r₂)) :
    Later disk held r₁ r₂ ∧ r₂.get? path = some source := by
  unfold fetch at h
  split at h
  case h_1 hg =>
    cases h
    exact ⟨.refl _, hg⟩
  case h_2 hg =>
    split at h
    case h_2 => cases h
    case h_1 raw hr =>
      cases h
      have hc : r₁.contains path = false := contains_eq_false.2 hg
      have hf := disk.isFile_of_read hr
      refine ⟨⟨fun q _ hq => ?_, fun q hq => ?_, fun q hq => ?_, fun hk => hk.insertAt id,
        Dict.size_le_insert _ _ _⟩, ?_⟩
      · have : q ≠ path := fun h => by simp [h, hc] at hq
        simp [get?, insertAt, this]
      · simp [Registry.contains, insertAt] at hq ⊢
        simp [hq]
      · simp only [Registry.contains, insertAt, Dict.contains_insert, Bool.or_eq_true,
          decide_eq_true_eq] at hq
        exact hq.elim (fun h => .inr <| h ▸ hf) .inl
      · simp [get?, insertAt]

-- The file at a path, whether it is registered yet or not.
def found (r : Registry) (disk : Disk) (path : String) : Except Error Source :=
  (r.fetch disk path).map Prod.fst

theorem found_of_get? {path : String} {source : Source} (h : r.get? path = some source) :
    r.found disk path = .ok source := by
  rw [found, fetch_registered h]
  rfl

theorem found_insertAt {path q : String} {source : Source} (h : q ≠ path) :
    (r.insertAt path source).found disk q = r.found disk q := by
  have he : (r.insertAt path source).get? q = r.get? q := by simp [get?, insertAt, h]
  unfold found fetch
  rw [he]
  cases r.get? q
  case some => rfl
  case none => cases disk.read q <;> rfl

-- Reading one file does not change any other, nor what is read again.
theorem found_of_fetch {path : String} {source : Source} (h : r₁.fetch disk path = .ok (source, r₂))
    (q : String) : r₂.found disk q = r₁.found disk q := by
  have hf : r₁.found disk path = .ok source := by
    rw [found, h]
    rfl
  unfold fetch at h
  split at h
  case h_1 =>
    cases h
    rfl
  case h_2 =>
    split at h
    case h_2 => cases h
    case h_1 raw hr =>
      cases h
      by_cases hq : q = path
      case neg => exact found_insertAt hq
      case pos =>
        subst hq
        rw [hf]
        exact found_of_get? (by simp [get?, insertAt])

theorem contains_of_fetch {path : String} {source : Source}
    (h : r₁.fetch disk path = .ok (source, r₂)) : r₁.contains path = true ∨ disk.isFile path = true := by
  have ⟨hl, hg⟩ : r₁.Later disk (fun _ => False) r₂ ∧ r₂.get? path = some source := fetch_later h
  exact hl.added path (contains_of_get? hg)

theorem knows_of_fetch {path : String} {source : Source} (h : r₁.fetch disk path = .ok (source, r₂)) :
    r₂.knows disk = r₁.knows disk := by
  have ⟨hl, _⟩ : r₁.Later disk (fun _ => False) r₂ ∧ r₂.get? path = some source := fetch_later h
  exact hl.knows

theorem knows_of_found {path : String} {source : Source} (h : r.found disk path = .ok source) :
    r.knows disk path = true := by
  cases hf : r.fetch disk path
  case error => simp [found, hf, Except.map] at h
  case ok    => simpa [knows] using contains_of_fetch hf

-- A file that is known can be read.
theorem fetch_of_knows {path : String} (h : r.knows disk path = true) :
    ∃ source r', r.fetch disk path = .ok (source, r') := by
  unfold fetch
  cases hg : r.get? path
  case some source => exact ⟨source, r, rfl⟩
  case none =>
    have hf : disk.isFile path = true := by simpa [knows, contains_eq_false.2 hg] using h
    have ⟨raw, hr⟩ := disk.read_of_isFile hf
    exact ⟨_, _, by rw [hr]; rfl⟩

theorem fetch_of_fetchFirst {specifier : String} {paths : List String} {found : Source × Registry}
    (h : r.fetchFirst disk specifier paths = .ok found) : ∃ q ∈ paths, r.fetch disk q = .ok found := by
  unfold fetchFirst at h
  split at h
  case h_1 q hq =>
    refine ⟨q, ?_, h⟩
    rw [Option.orElse_eq_orElse, Option.orElse_eq_or, Option.or_eq_some_iff] at hq
    rcases hq with hq | ⟨_, hq⟩
    all_goals exact List.mem_of_find?_eq_some hq
  case h_2 => cases h

theorem fetchFirst_later {specifier : String} {paths : List String} {source : Source}
    (h : r₁.fetchFirst disk specifier paths = .ok (source, r₂)) : Later disk held r₁ r₂ := by
  have ⟨_, _, hf⟩ := fetch_of_fetchFirst h
  exact (fetch_later hf).1

end Registry

end ScopedCss
