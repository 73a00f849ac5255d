import ScopedCss.Cache.Basic
import ScopedCss.Proofs.Composition.Plain

namespace ScopedCss

open SessionM

-- The text of a file as it is on disk, with the prelude.
def Settings.textOn (s : Settings) (disk : Disk) (path : String) : Except Error String :=
  match disk.read path with
  | .ok raw      => .ok (s.withPrelude raw)
  | .error fault => .error (.resolution path s!"unable to read file: {fault.message}" [path])

-- A registry in which every file has the text that it has on disk.
structure Registry.OnDisk (disk : Disk) (s : Settings) (r : Registry) : Prop where
  prelude : r.prelude = s.prelude
  keyed   : r.Keyed
  source  : ∀ q source, r.get? q = some source →
    disk.read q = .ok source.raw ∧ source.contents = s.withPrelude source.raw

namespace Registry.OnDisk

variable {disk : Disk} {s : Settings} {r r' : Registry} {path : String}

theorem start (arch : String) : (Registry.ofSettings s arch).OnDisk disk s where
  prelude       := rfl
  keyed         := keyed_ofSettings s arch
  source _ _ hg := by cases hg

theorem insert (h : r.OnDisk disk s) {source : Source} (hr : disk.read source.path = .ok source.raw)
    (hc : source.contents = s.withPrelude source.raw) : (r.insert source).OnDisk disk s where
  prelude := h.prelude
  keyed   := h.keyed.insert source
  source q found hg := by
    simp only [get?, Registry.insert, insertAt, Dict.get?_insert] at hg
    split at hg
    case isFalse    => exact h.source q found hg
    case isTrue hq =>
      cases hg
      exact ⟨hq ▸ hr, hc⟩

-- What is registered makes no difference to what can be read.
theorem text (h : r.OnDisk disk s) : (r.collection disk).text = s.textOn disk := by
  funext q
  change (r.found disk q).map Source.contents = s.textOn disk q
  unfold Settings.textOn found fetch
  cases hg : r.get? q
  case some source =>
    have ⟨hr, hc⟩ := h.source q source hg
    rw [hr]
    exact congrArg Except.ok hc
  case none =>
    cases disk.read q
    case error => rfl
    case ok raw =>
      have hc : (r.sourceOf q raw).contents = s.withPrelude raw := by
        unfold sourceOf Settings.withPrelude
        rw [h.prelude]
      exact congrArg Except.ok hc

theorem known (h : r.OnDisk disk s) : (r.collection disk).known = disk.isFile := by
  funext q
  change (r.contains q || disk.isFile q) = disk.isFile q
  cases hg : r.get? q
  case none        => rw [contains_eq_false.2 hg, Bool.false_or]
  case some source =>
    have ⟨hr, _⟩ := h.source q source hg
    rw [disk.isFile_of_read hr, Bool.or_true]

end Registry.OnDisk

section

variable {p p' : Project} {W W' : Collection} {chain : List String} {path : String}
  {result : Except Error ScopedModule}

theorem resultOfText_of_resolve (hn : p'.naming = p.naming) (hresolve : W'.resolve p' = W.resolve p)
    (other : String → Except Error ScopedModule) (css : String) :
    resultOfText p' W' path other css = resultOfText p W path other css := by
  unfold resultOfText answer
  rw [hn, hresolve]

-- What scoping anew comes to depends on the texts of files and on what they are resolved to, and on
-- nothing else.
theorem Evaluates.congr (h : Evaluates p W chain path result) (hn : p'.naming = p.naming)
    (hresolve : W'.resolve p' = W.resolve p) (ht : W'.text = W.text) :
    Evaluates p' W' chain path result := by
  induction h
  case cyclic hc    => exact .cyclic hc
  case unread hc he => exact .unread hc (ht ▸ he)
  case read path css other hc he _ ih =>
    rw [← resultOfText_of_resolve hn hresolve]
    exact .read hc (ht ▸ he) fun specifier hs target hr => ih specifier hs target (hresolve ▸ hr)

-- A result depends on no other texts than those of the files that it stands on.
theorem Evaluates.agree (h : Evaluates p W chain path result) (hn : p'.naming = p.naming)
    (hresolve : W'.resolve p' = W.resolve p) {r : ScopedModule} (hr : result = .ok r)
    (ht : ∀ q ∈ path :: r.importTree, W'.text q = W.text q) : Evaluates p' W' chain path result := by
  induction h generalizing r
  case cyclic => cases hr
  case unread => cases hr
  case read path css other hc he ho ih =>
    have ⟨sheet, composed, hmodule, _, hcomplete⟩ := composed_of_resultOfText hr
    rw [← resultOfText_of_resolve hn hresolve]
    refine .read hc ((ht _ (.head _)).trans he) fun specifier hs target hres => ?_
    rw [hresolve] at hres
    have ⟨c, hm, hres', hother⟩ := hcomplete specifier hs
    rw [hres, Except.ok.injEq] at hres'
    refine ih specifier hs target hres hother fun q hq => ht q (.tail _ ?_)
    exact hmodule ▸ importTree_mem hm (hres' ▸ hq)

end

-- The files of a registry have the texts that are on disk, whatever has been made of them since.
def Registry.Stored (disk : Disk) (r : Registry) : Prop :=
  ∀ q source, r.get? q = some source → disk.read q = .ok source.raw

namespace Registry.Stored

variable {disk : Disk} {r r' : Registry} {path : String} {source : Source}

theorem insertAt (h : r.Stored disk) (hr : disk.read path = .ok source.raw) :
    (r.insertAt path source).Stored disk := by
  intro q found hg
  simp only [get?, Registry.insertAt, Dict.get?_insert] at hg
  split at hg
  case isFalse => exact h q found hg
  case isTrue hq =>
    cases hg
    exact hq ▸ hr

theorem fetch (h : r.Stored disk) (hf : r.fetch disk path = .ok (source, r')) :
    disk.read path = .ok source.raw ∧ r'.Stored disk := by
  unfold Registry.fetch at hf
  split at hf
  case h_1 hg =>
    cases hf
    exact ⟨h path source hg, h⟩
  case h_2 =>
    split at hf
    case h_2 => cases hf
    case h_1 raw hr =>
      cases hf
      exact ⟨hr, h.insertAt hr⟩

-- The fingerprint of a file is that of its text on disk.
theorem hashOf (h : r.Stored disk) (path : String) :
    (r.hashOf disk path).1 = disk.hashOf path ∧ (r.hashOf disk path).2.Stored disk := by
  unfold Registry.hashOf Disk.hashOf
  cases hf : r.fetch disk path
  case ok found =>
    have ⟨hr, hs⟩ := h.fetch hf
    rw [hr]
    exact ⟨rfl, hs⟩
  case error =>
    cases hr : disk.read path
    case error => exact ⟨rfl, h⟩
    case ok raw =>
      unfold Registry.fetch at hf
      rw [hr] at hf
      split at hf <;> cases hf

end Registry.Stored

-- The text of a file as it was before anything was made of it, if it can be read.
def Registry.rawOf (r : Registry) (disk : Disk) (path : String) : Option String :=
  ((r.found disk path).map (·.raw)).toOption

-- Two registries in which all files have the same texts.
def Registry.SameRaws (disk : Disk) (r r' : Registry) : Prop :=
  ∀ q, r'.rawOf disk q = r.rawOf disk q

namespace Registry.SameRaws

variable {disk : Disk} {r r₁ r₂ : Registry} {path : String} {source : Source}

theorem refl (disk : Disk) (r : Registry) : r.SameRaws disk r :=
  fun _ => rfl

theorem fetch (h : r.SameRaws disk r₁) (hf : r₁.fetch disk path = .ok (source, r₂)) : r.SameRaws disk r₂ := by
  intro q
  rw [← h q, rawOf, rawOf, found_of_fetch hf]

theorem insert (h : r.SameRaws disk r₁) (hr : r.rawOf disk source.path = some source.raw) :
    r.SameRaws disk (r₁.insert source) := by
  intro q
  by_cases hq : q = source.path
  case pos =>
    have hget : (r₁.insert source).get? q = some source := by simp [get?, Registry.insert, insertAt, hq]
    rw [rawOf, found_of_get? hget, hq, hr]
    rfl
  case neg =>
    rw [← h q, rawOf, rawOf]
    exact congrArg (fun x => (Except.map Source.raw x).toOption) (found_insertAt hq)

-- The fingerprint of a file is that of its text.
theorem hashOf (h : r.SameRaws disk r₁) (path : String) :
    (r₁.hashOf disk path).1 = (r.rawOf disk path).map fingerprint ∧ r.SameRaws disk (r₁.hashOf disk path).2 := by
  have hraw := h path
  unfold rawOf found at hraw
  unfold Registry.hashOf
  cases hf : r₁.fetch disk path
  case error =>
    rw [hf] at hraw
    exact ⟨congrArg (Option.map fingerprint) hraw, h⟩
  case ok found =>
    rw [hf] at hraw
    exact ⟨congrArg (Option.map fingerprint) hraw, h.fetch hf⟩

end Registry.SameRaws

-- One registry is another after more files have been read.
structure Registry.Filled (disk : Disk) (r r' : Registry) : Prop where
  knows : r'.knows disk = r.knows disk
  found : ∀ q, r'.found disk q = r.found disk q
  keyed : r.Keyed → r'.Keyed
  size  : r.sources.size ≤ r'.sources.size

theorem Registry.Filled.refl (disk : Disk) (r : Registry) : r.Filled disk r where
  knows   := rfl
  found _ := rfl
  keyed h := h
  size    := Nat.le_refl _

theorem Registry.filled_hashOf (disk : Disk) (r : Registry) (path : String) :
    r.Filled disk (r.hashOf disk path).2 := by
  unfold hashOf
  cases hf : r.fetch disk path
  case error => exact .refl disk r
  case ok found =>
    have ⟨hl, _⟩ : r.Later disk (fun _ => False) found.2 ∧ _ := fetch_later hf
    exact ⟨hl.knows, found_of_fetch hf, hl.keyed, hl.size⟩

section

variable {p : Project} {registry : Registry} {s : Session} {source : Source}

-- Reading further files, and logging, does not show in what is scoped later.
theorem Plain.filled (h : Plain p registry s) {r : Registry} (hf : s.registry.Filled p.disk r) (log : Log) :
    Plain p registry { s with registry := r, log } where
  resting    := h.resting.of_eq (hf.keyed h.resting.keyed) rfl rfl rfl rfl
  consistent := by
    have ⟨hp, hk, ht⟩ := h.consistent.good
    exact ⟨⟨hp, hf.knows.trans hk, fun q hc hr => (hf.found q).trans (ht q hc hr)⟩, h.consistent.done⟩
  size       := h.size.trans hf.size

-- With nothing to render, a file is scoped as it would be alone.
theorem Plain.scope (h : Plain p registry s) (hk : registry.Keyed) (hp : s.preprocessors = [])
    (ht : (registry.collection p.disk).text source.path = .ok source.contents) :
    Plain p registry ((SessionM.scope p source).on s).2 ∧
      ((SessionM.scope p source).on s).2.preprocessors = [] ∧
        ((SessionM.scope p source).on s).1 = ((scopePlain p source).on (.start registry [])).1 := by
  have hs : { s with preprocessors := [] } = s := by rw [← hp]
  have hnone : ((SessionM.scope p source).on s).2.preprocessors = [] := by
    have ⟨_, _, _, hc⟩ := (h.fits ht).run trivial
    have hrun := hc.good.1
    rw [hs] at hrun
    rw [scope_on]
    split
    case isTrue  => exact hp
    case isFalse =>
      rcases hv : (Visit.top p s source).run p with ⟨_ | _, _⟩
      all_goals
        rw [hv] at hrun
        exact hrun
  have hscope : (scopePlain p source).on s = (SessionM.scope p source).on s := by
    rw [scopePlain_on, hs, hp, ← hnone]
  rw [← hscope] at hnone ⊢
  exact ⟨h.step ht, hnone, h.outcome_eq ht (.start hk [])⟩

-- Reading with nothing rendered, which keeps to what is so of the registry.
def keepingReader (p : Project) (registry : Registry) {P : Registry → Prop}
    (hP : ∀ {r path source r'}, P r → r.fetch p.disk path = .ok (source, r') → P r') :
    Reader p (registry.collection p.disk) where
  Good s := (plainReader p registry).Good s ∧ P s.registry
  Ends := (plainReader p registry).Ends
  Same := (plainReader p registry).Same
  refl := (plainReader p registry).refl
  ends := (plainReader p registry).ends
  known h := (plainReader p registry).known h.1
  resolve h := (plainReader p registry).resolve h.1
  text h := (plainReader p registry).text h.1
  read {s path} h hc hr he := by
    refine ⟨(plainReader p registry).read h.1 hc hr he, ?_⟩
    rw [contentsOf_plain_on h.1.1]
    cases hf : s.registry.fetch p.disk path
    case error => exact h.2
    case ok    => exact hP h.2 hf
  frame h hr hp hd := ⟨(plainReader p registry).frame h.1 hr hp hd, hr ▸ h.2⟩

-- Scoping a file reads further files, and registers what it comes to.
theorem Plain.scope_keeps (h : Plain p registry s) (hp : s.preprocessors = [])
    (ht : (registry.collection p.disk).text source.path = .ok source.contents) {P : Registry → Prop}
    (hP : ∀ {r path source r'}, P r → r.fetch p.disk path = .ok (source, r') → P r')
    (hi : ∀ {r} source', P r → source'.path = source.path → source'.raw = source.raw → P (r.insert source'))
    (hs : P s.registry) : P ((SessionM.scope p source).on s).2.registry := by
  have he : { s with preprocessors := [] } = s := by rw [← hp]
  have hf := h.fits ht
  rw [he] at hf
  have hfits : (Visit.top p s source).Fits (keepingReader p registry hP) :=
    { hf with consistent := ⟨⟨hf.consistent.good, hs⟩, hf.consistent.done⟩ }
  have ⟨_, _, _, hc⟩ := hfits.run trivial
  have hrun := hc.good.2
  rw [scope_on]
  split
  case isTrue  => exact hs
  case isFalse =>
    rcases hv : (Visit.top p s source).run p with ⟨_ | r, t⟩
    all_goals rw [hv] at hrun
    case error => exact hrun
    case ok    => exact hi _ hrun rfl rfl

-- Scoping a file does not change the texts that fingerprints are taken of.
theorem Plain.scope_stored (h : Plain p registry s) (hp : s.preprocessors = [])
    (ht : (registry.collection p.disk).text source.path = .ok source.contents)
    (hs : s.registry.Stored p.disk) (hr : p.disk.read source.path = .ok source.raw) :
    ((SessionM.scope p source).on s).2.registry.Stored p.disk :=
  h.scope_keeps hp ht (fun hs hf => (hs.fetch hf).2)
    (fun _ hs hpath hraw => hs.insertAt (hpath.symm ▸ hraw.symm ▸ hr)) hs

theorem Plain.scope_raws (h : Plain p registry s) (hp : s.preprocessors = [])
    (ht : (registry.collection p.disk).text source.path = .ok source.contents)
    (hs : registry.SameRaws p.disk s.registry) (hr : registry.rawOf p.disk source.path = some source.raw) :
    registry.SameRaws p.disk ((SessionM.scope p source).on s).2.registry :=
  h.scope_keeps hp ht (fun hs hf => hs.fetch hf)
    (fun _ hs hpath hraw => hs.insert (hpath.symm ▸ hraw.symm ▸ hr)) hs

end

end ScopedCss
