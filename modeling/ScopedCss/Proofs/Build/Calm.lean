import ScopedCss.Proofs.Build.Steps
import ScopedCss.Proofs.Cache.Lookup
import ScopedCss.Proofs.Composition.OnDisk

namespace ScopedCss

open SessionM

-- A file as it is built.
def HostFile.source (f : HostFile) (s : Settings) : Source :=
  (Input.ofHost f).source s f.contents

-- A build with nothing to render and no folder for its cache, of files that are registered.
structure Calm (p : Project) (registry : Registry) (b : BuildState) : Prop where
  keyed         : registry.Keyed
  plain         : Plain p registry b.session
  stored        : b.session.registry.Stored p.disk
  preprocessors : b.session.preprocessors = []
  disk          : b.workspace.disk = p.disk
  folder        : b.workspace.cache.folder = none

namespace Compiler

variable (c : Compiler)

-- What a source comes to as the only one of a build.
def alone (p : Project) (registry : Registry) (source : Source) : Except Error Compiled :=
  c.compiled ((scopePlain p source).on (.start registry [])).1

-- A file with what it comes to.
def built (p : Project) (registry : Registry) (f : HostFile) : HostFile :=
  f.hand (c.handed (.ofHost f) (c.alone p registry (f.source c.settings)))

-- A file that is to be scoped as it is.
def asIs (f : HostFile) : Prepared :=
  ⟨f.source c.settings, c.keyFor (.ofHost f)⟩

def ready (n : Nat) (f : HostFile) : BuildUnit × Input × Prepared :=
  (.host n, .ofHost f, c.asIs f)

-- The entry that an input is answered with.
structure Answers (disk : Disk) (entries : Dict CacheEntry) (i : Input) (e : CacheEntry) : Prop where
  found   : entries.get? (i.path c.settings) = some e
  key     : e.key = c.keyFor i
  current : ∀ d ∈ e.dependencies.entries, disk.hashOf d.1 = some d.2

-- The answers of a cache are what the files come to.
def Trusts (p : Project) (registry : Registry) (files : List HostFile) (entries : Dict CacheEntry) : Prop :=
  ∀ f ∈ files, ∀ e, c.Answers p.disk entries (.ofHost f) e →
    c.alone p registry (f.source c.settings) = .ok e.result

-- The entry that is made of a file: it depends on all files that the result stands on.
inductive Records (p : Project) (registry : Registry) (f : HostFile) : CacheEntry → Prop
  | mk {source : Source} {dependencies : SortedDict String} :
    ((scopePlain p (f.source c.settings)).on (.start registry [])).1 = .ok source →
    (∀ q ∈ source.references.keys, ∀ hash, p.disk.hashOf q = some hash →
      (q, hash) ∈ dependencies.entries) →
    Records p registry f (c.entryFor (c.asIs f) source dependencies)

variable {c} {p : Project} {registry : Registry} {files : List HostFile} {entries entries' : Dict CacheEntry}

theorem Answers.mono {disk : Disk} {i : Input} {e : CacheEntry} (h : c.Answers disk entries' i e)
    (hw : entries'.Within entries) : c.Answers disk entries i e where
  found   := hw _ _ h.found
  key     := h.key
  current := h.current

theorem Trusts.mono (h : c.Trusts p registry files entries) (hw : entries'.Within entries) :
    c.Trusts p registry files entries' :=
  fun f hf e he => h f hf e (he.mono hw)

theorem trusts_empty : c.Trusts p registry files ∅ :=
  fun _ _ _ he => by cases he.found

end Compiler

namespace Calm

variable {c : Compiler} {p : Project} {registry : Registry} {b b' : BuildState} {u : BuildUnit} {i : Input}
  {n : Nat} {f : HostFile}

theorem same (h : Calm p registry b) (hs : b.Same b') : Calm p registry b' where
  keyed         := h.keyed
  plain         := hs.session ▸ h.plain
  stored        := hs.session ▸ h.stored
  preprocessors := hs.session ▸ h.preprocessors
  disk          := hs.disk ▸ h.disk
  folder        := hs.cache ▸ h.folder

theorem withSession (h : Calm p registry b) {t : Session} (ht : Plain p registry t)
    (hs : t.registry.Stored p.disk) (hp : t.preprocessors = []) : Calm p registry (b.withSession t) where
  keyed         := h.keyed
  plain         := ht.filled (.refl ..) []
  stored        := hs
  preprocessors := hp
  disk          := h.disk
  folder        := h.folder

theorem withEntries (h : Calm p registry b) (entries : Dict CacheEntry) :
    Calm p registry { b with workspace := b.workspace.setEntries entries } :=
  { h with }

-- Fingerprints are those of the texts on disk.
theorem hashOf (h : Calm p registry b) (path : String) :
    ((BuildM.hashOf p.disk path).run b.session).1 = p.disk.hashOf path ∧
      Calm p registry { b with session := ((BuildM.hashOf p.disk path).run b.session).2 } := by
  have ⟨hh, hs⟩ := h.stored.hashOf path
  exact ⟨hh, { h with
    plain  := h.plain.filled (Registry.filled_hashOf ..) _
    stored := hs }⟩

theorem hashes (h : Calm p registry b) (paths : List String) :
    ((BuildM.hashes paths).run b).1 = .ofList (paths.filterMap fun q => (p.disk.hashOf q).map (q, ·)) ∧
      Calm p registry ((BuildM.hashes paths).run b).2 ∧
        ((BuildM.hashes paths).run b).2.files = b.files ∧
          ((BuildM.hashes paths).run b).2.workspace = b.workspace := by
  refine BuildM.hashes_run (P := fun b' => Calm p registry b' ∧ b'.files = b.files ∧ b'.workspace = b.workspace)
    paths (fun path _ b' ⟨h', hf, hw⟩ => ?_) ⟨h, rfl, rfl⟩
  rw [h.disk]
  exact ⟨(h'.hashOf path).1, (h'.hashOf path).2, hf, hw⟩

-- Asking the cache reads files, and may remove what is no longer current.
theorem reusing (h : Calm p registry b) : ∃ b', Calm p registry b' ∧ b'.files = b.files ∧
    b'.workspace.cache.entries.Within b.workspace.cache.entries ∧
    ((c.reusing i).run b = (none, b') ∨
      ∃ e, c.Answers p.disk b.workspace.cache.entries i e ∧ (c.reusing i).run b = (some e.result, b')) := by
  have hrun : ((Workspace.reuse (i.path c.settings) (c.keyFor i) (BuildM.hashOf b.workspace.disk)).run
      b.workspace).run b.session = _ := Workspace.reuse_run h.folder
  cases hg : b.workspace.cache.entries.get? (i.path c.settings)
  case none =>
    rw [hg] at hrun
    exact ⟨b, h, rfl, .refl _, .inl (BuildM.reuse_run hrun)⟩
  case some e =>
    rw [hg] at hrun
    have hstep (d : String × String) (_ : d ∈ e.dependencies.entries) (s : Session)
        (hs : Calm p registry { b with session := s }) :
        ((BuildM.hashOf b.workspace.disk d.1).run s).1 = p.disk.hashOf d.1 ∧
          Calm p registry { b with session := ((BuildM.hashOf b.workspace.disk d.1).run s).2 } := by
      rw [h.disk]
      exact hs.hashOf d.1
    have ⟨hall, hcalm⟩ := Workspace.allCurrent_run e.dependencies.entries hstep h
    dsimp only at hrun
    split at hrun
    case isFalse => exact ⟨b, h, rfl, .refl _, .inl (BuildM.reuse_run hrun)⟩
    case isTrue hk =>
      split at hrun
      case isFalse =>
        exact ⟨_, hcalm.withEntries (b.workspace.cache.entries.erase (i.path c.settings)), rfl,
          Dict.within_erase _ _, .inl (BuildM.reuse_run hrun)⟩
      case isTrue hc =>
        refine ⟨_, hcalm, rfl, .refl _, .inr ⟨e, ⟨hg, hk, fun d hd => ?_⟩, BuildM.reuse_run hrun⟩⟩
        rw [hall] at hc
        simpa using List.all_eq_true.1 hc d hd

theorem role (h : Calm p registry b) (source : Source) : Role.of b.session.preprocessors source = .plain := by
  simp [Role.of, h.preprocessors]

-- A file is to be scoped as it is, or has been answered.
theorem prepare (h : Calm p registry b) (n : Nat) (f : HostFile) : ∃ b', Calm p registry b' ∧
    b'.workspace.cache.entries.Within b.workspace.cache.entries ∧
    ((c.prepare p (.host n) (.ofHost f)).run b = (some (c.asIs f), b') ∧ b'.files = b.files ∨
      ∃ e, c.Answers p.disk b.workspace.cache.entries (.ofHost f) e ∧
        (c.prepare p (.host n) (.ofHost f)).run b = (none, b') ∧
        ∀ g, b.files[n]? = some g → b'.files = b.files.set n (g.hand (c.handed (.ofHost f) (.ok e.result)))) := by
  have ⟨b₁, h₁, hfiles, hw, hr⟩ := h.reusing (c := c) (i := .ofHost f)
  have hp := c.prepare_run (p := p) (u := .host n) (i := .ofHost f) b
  generalize (c.prepare p (.host n) (.ofHost f)).run b = result at hp ⊢
  cases hp
  case skipped hs _ =>
    rw [h.role] at hs
    cases hs
  case answered b' _ ha hh =>
    rcases hr with hr | ⟨e, he, hr⟩
    all_goals
      rw [hr] at ha
      cases ha
    refine ⟨b', h₁.same hh.same, hh.same.cache ▸ hw, .inr ⟨e, he, rfl, fun g hg => ?_⟩⟩
    rw [← hfiles] at hg ⊢
    exact hh.files n g rfl hg
  case refused hs _ =>
    rw [h.role] at hs
    cases hs
  case rendered ha hs =>
    rcases hr with hr | ⟨_, _, hr⟩
    all_goals
      rw [hr] at ha
      cases ha
    rw [h.role] at hs
    cases hs
    exact ⟨_, h₁.withSession h₁.plain h₁.stored h₁.preprocessors, hw, .inl ⟨rfl, hfiles⟩⟩

end Calm

-- What preparing files comes to: some are still to be scoped, and all others have been handed what
-- they come to.
structure Readied (c : Compiler) (p : Project) (registry : Registry) (files : List HostFile)
    (kept todo : List Nat) (b b' : BuildState) : Prop where
  calm    : Calm p registry b'
  sublist : todo.Sublist kept
  length  : b'.files.length = b.files.length
  entries : b'.workspace.cache.entries.Within b.workspace.cache.entries
  later   : ∀ n, n ∈ todo ∨ n ∉ kept → b'.files[n]? = b.files[n]?
  done    : ∀ n ∈ kept, n ∉ todo → ∀ f, files[n]? = some f →
    b'.files[n]? = some (c.built p registry f)

namespace Readied

variable {c : Compiler} {p : Project} {registry : Registry} {files : List HostFile} {kept todo : List Nat}
  {b b₁ b' : BuildState} {n : Nat} {f : HostFile}

theorem prepared (h : Readied c p registry files kept todo b₁ b') (hn : n ∉ kept) (hf : b₁.files = b.files)
    (hw : b₁.workspace.cache.entries.Within b.workspace.cache.entries) :
    Readied c p registry files (n :: kept) (n :: todo) b b' where
  calm          := h.calm
  sublist       := h.sublist.cons_cons n
  length        := h.length.trans (congrArg _ hf)
  entries       := h.entries.trans hw
  later m hm    := by
    rw [← hf]
    refine h.later m ?_
    by_cases he : m = n
    case pos => exact .inr (he ▸ hn)
    case neg => simpa [he] using hm
  done m hm ht  := by
    rw [List.mem_cons, not_or] at ht
    exact h.done m ((List.mem_cons.1 hm).resolve_left ht.1) ht.2

theorem answered (h : Readied c p registry files kept todo b₁ b') (hn : n ∉ kept) (hg : files[n]? = some f)
    (hb : b.files[n]? = some f) (hf : b₁.files = b.files.set n (c.built p registry f))
    (hw : b₁.workspace.cache.entries.Within b.workspace.cache.entries) :
    Readied c p registry files (n :: kept) todo b b' where
  calm          := h.calm
  sublist       := h.sublist.cons n
  length        := by rw [h.length, hf, List.length_set]
  entries       := h.entries.trans hw
  later m hm    := by
    have hne : m ≠ n := by
      rintro rfl
      exact hm.elim (fun ht => hn (h.sublist.subset ht)) fun hk => hk (.head _)
    rw [h.later m (hm.imp_right fun hk hm => hk (.tail _ hm)), hf, List.getElem?_set_ne (Ne.symm hne)]
  done m hm ht f' hf' := by
    by_cases he : m = n
    case neg => exact h.done m ((List.mem_cons.1 hm).resolve_left he) ht f' hf'
    case pos =>
      subst he
      cases hg.symm.trans hf'
      rw [h.later m (.inr hn), hf, List.getElem?_set_self (List.getElem?_eq_some_iff.1 hb).1]

end Readied

-- A new or an old entry.
def Compiler.Keeps (c : Compiler) (p : Project) (registry : Registry) (files : List HostFile)
    (entries entries' : Dict CacheEntry) : Prop :=
  ∀ q e, entries'.get? q = some e → entries.get? q = some e ∨
    ∃ f ∈ files, (f.source c.settings).path = q ∧ c.Records p registry f e

namespace Calm

variable {c : Compiler} {p : Project} {registry : Registry} {b : BuildState} {files : List HostFile}
  {kept todo : List Nat} {n : Nat} {f : HostFile}

theorem prepareAll (h : Calm p registry b) (hk : kept.Nodup)
    (ht : c.Trusts p registry files b.workspace.cache.entries)
    (hfiles : ∀ n ∈ kept, ∃ f, files[n]? = some f ∧ b.files[n]? = some f) :
    ∃ todo b', (c.prepareAll p (kept.map .host)).run b =
        (todo.filterMap fun n => files[n]?.map (c.ready n), b') ∧
      Readied c p registry files kept todo b b' := by
  induction kept generalizing b
  case nil => exact ⟨[], b, rfl, h, .refl _, rfl, .refl _, fun _ _ => rfl, by simp⟩
  case cons n kept ih =>
    have ⟨hn, hk⟩ := List.nodup_cons.1 hk
    have ⟨f, hf, hb⟩ := hfiles n (.head _)
    have hi : (BuildUnit.host n).input? b.files = some (.ofHost f) := congrArg (Option.map Input.ofHost) hb
    have ⟨b₁, h₁, hw, hr⟩ := h.prepare (c := c) n f
    rw [List.map_cons, Compiler.prepareAll_cons_run, hi]
    rcases hr with ⟨hr, hb₁⟩ | ⟨e, he, hr, hb₁⟩
    · have ⟨todo, b', hrest, hready⟩ := ih h₁ hk (ht.mono hw) fun m hm => hb₁ ▸ hfiles m (.tail _ hm)
      refine ⟨n :: todo, b', ?_, hready.prepared hn hb₁ hw⟩
      simp only [hr, hrest, List.filterMap_cons, hf]
      rfl
    · have hbuilt : b₁.files = b.files.set n (c.built p registry f) := by
        rw [hb₁ f hb, Compiler.built, ht f (List.mem_of_getElem? hf) e he]
      have hfiles' (m : Nat) (hm : m ∈ kept) : ∃ f, files[m]? = some f ∧ b₁.files[m]? = some f := by
        have hne : n ≠ m := fun h => hn (h ▸ hm)
        rw [hbuilt, List.getElem?_set_ne hne]
        exact hfiles m (.tail _ hm)
      have ⟨todo, b', hrest, hready⟩ := ih h₁ hk (ht.mono hw) hfiles'
      refine ⟨todo, b', ?_, hready.answered hn hf hb hbuilt hw⟩
      simp only [hr, hrest]
      rfl

-- A file is handed what it comes to, and what is remembered of it depends on all that it stands on.
theorem finish (h : Calm p registry b) (n : Nat) (f : HostFile)
    (ht : (registry.collection p.disk).text (f.source c.settings).path = .ok (f.source c.settings).contents)
    (hr : p.disk.read (f.source c.settings).path = .ok f.contents) :
    ∃ b', ((c.finish p (.host n) (.ofHost f) (c.asIs f)).run b).2 = b' ∧ Calm p registry b' ∧
      (∀ g, b.files[n]? = some g →
        b'.files = b.files.set n (g.hand (c.handed (.ofHost f) (c.alone p registry (f.source c.settings))))) ∧
      c.Keeps p registry [f] b.workspace.cache.entries b'.workspace.cache.entries := by
  have ⟨hplain, hp, ho⟩ := h.plain.scope h.keyed h.preprocessors ht
  have hs := h.plain.scope_stored h.preprocessors ht h.stored hr
  have hf := c.finish_run (p := p) (u := .host n) (i := .ofHost f) (c.asIs f) b
  have hproject : { p with disk := b.workspace.disk } = p := by rw [h.disk]
  generalize ((c.finish p (.host n) (.ofHost f) (c.asIs f)).run b).2 = b' at hf
  refine ⟨b', rfl, ?_⟩
  cases hf
  case unkept outcome t hscope hh =>
    rw [hproject] at hscope
    change (SessionM.scope p (f.source c.settings)).on b.session = _ at hscope
    rw [hscope] at hplain hp hs ho
    refine ⟨(h.withSession hplain hs hp).same hh.same, fun g hg => ?_, fun q e he => ?_⟩
    · rw [Compiler.alone, ← ho]
      exact hh.files n g rfl hg
    · rw [hh.same.cache] at he
      exact .inl he
  case kept source b₁ b₂ t dependencies hscope hh hhash he =>
    rw [hproject] at hscope
    change (SessionM.scope p (f.source c.settings)).on b.session = _ at hscope
    rw [hscope] at hplain hp hs ho
    have hcalm := (h.withSession hplain hs hp).same hh.same
    have ⟨hd, hcalm₂, hfiles, hw⟩ := hcalm.hashes source.references.keys
    rw [hhash] at hd hcalm₂ hfiles hw
    dsimp only at hd hcalm₂ hfiles hw
    have hremember := Workspace.remember_eq hcalm₂.folder (c.entryFor (c.asIs f) source dependencies)
    subst he
    refine ⟨?_, fun g hg => ?_, fun q e he => ?_⟩
    · rw [hremember]
      exact (hcalm₂.withEntries _).same ⟨rfl, rfl, rfl, rfl⟩
    · rw [Compiler.alone, ← ho]
      exact hfiles.trans (hh.files n g rfl hg)
    · rw [hremember] at he
      simp only [Workspace.setEntries, Dict.get?_insert] at he
      split at he
      case isFalse =>
        rw [hw, hh.same.cache] at he
        exact .inl he
      case isTrue hq =>
        cases he
        refine .inr ⟨f, .head _, hq.symm, .mk ho.symm fun q hm hash hhash => ?_⟩
        refine SortedDict.mem_entries_of_get? ?_
        rw [hd, SortedDict.get?_ofList_filterMap, if_pos hm, hhash]

-- Each of the files is handed what it comes to alone; all others stay as they are.
theorem finishAll (h : Calm p registry b) (hk : kept.Nodup)
    (ht : ∀ f ∈ files, (registry.collection p.disk).text (f.source c.settings).path =
      .ok (f.source c.settings).contents)
    (hr : ∀ f ∈ files, p.disk.read (f.source c.settings).path = .ok f.contents)
    (hlen : b.files.length = files.length) :
    ∃ b', ((c.finishAll p (kept.filterMap fun n => files[n]?.map (c.ready n))).run b).2 = b' ∧
      (∀ n f g, files[n]? = some f → b.files[n]? = some g → b'.files[n]? =
        some (if n ∈ kept then g.hand (c.handed (.ofHost f) (c.alone p registry (f.source c.settings))) else g)) ∧
      b'.workspace.cache.folder = none ∧
      c.Keeps p registry files b.workspace.cache.entries b'.workspace.cache.entries := by
  induction kept generalizing b
  case nil => exact ⟨b, rfl, fun n f g _ hg => by simpa using hg, h.folder, fun q e he => .inl he⟩
  case cons m kept ih =>
    have ⟨hm, hkept⟩ := List.nodup_cons.1 hk
    rw [List.filterMap_cons]
    cases hf : files[m]?
    case none =>
      have ⟨b', hrun, hfiles, hfolder, hkeeps⟩ := ih h hkept hlen
      refine ⟨b', hrun, fun n f g hn hg => ?_, hfolder, hkeeps⟩
      have hne : n ≠ m := by
        rintro rfl
        cases hf.symm.trans hn
      simpa [hne] using hfiles n f g hn hg
    case some f' =>
      have hmem := List.mem_of_getElem? hf
      have ⟨g', hg'⟩ : ∃ g', b.files[m]? = some g' :=
        ⟨_, List.getElem?_eq_getElem (hlen ▸ (List.getElem?_eq_some_iff.1 hf).1)⟩
      have ⟨b₁, hrun₁, h₁, hset, hkeeps₁⟩ := h.finish (c := c) m f' (ht f' hmem) (hr f' hmem)
      replace hset := hset g' hg'
      have ⟨b', hrun, hfiles, hfolder, hkeeps⟩ := ih h₁ hkept (by rw [hset, List.length_set, hlen])
      refine ⟨b', ?_, fun n f g hn hg => ?_, hfolder, ?_⟩
      · dsimp only [Option.map_some]
        rw [Compiler.ready, Compiler.finishAll_cons_run, hrun₁, hrun]
      · by_cases hnm : n = m
        case pos =>
          subst hnm
          cases hn.symm.trans hf
          cases hg.symm.trans hg'
          have := hfiles n _ _ hn (hset ▸ List.getElem?_set_self (List.getElem?_eq_some_iff.1 hg).1)
          simpa [hm] using this
        case neg =>
          have := hfiles n f g hn (by rwa [hset, List.getElem?_set_ne (Ne.symm hnm)])
          simpa [hnm] using this
      · refine fun q e he => (hkeeps q e he).elim (fun he => ?_) .inr
        refine (hkeeps₁ q e he).imp_right fun ⟨f, hm, hf⟩ => ?_
        cases List.mem_singleton.1 hm
        exact ⟨f', hmem, hf⟩

-- Every file that is kept is handed what it comes to.
theorem buildUnits (h : Calm p registry b) {plan : Compiler.Plan} (hproject : plan.project = p)
    (hunits : plan.units = kept.map .host) (hk : kept.Nodup) (hkept : ∀ n ∈ kept, n < b.files.length)
    (htrusts : c.Trusts p registry b.files b.workspace.cache.entries)
    (ht : ∀ f ∈ b.files, (registry.collection p.disk).text (f.source c.settings).path =
      .ok (f.source c.settings).contents)
    (hr : ∀ f ∈ b.files, p.disk.read (f.source c.settings).path = .ok f.contents) :
    ∃ b', ((c.buildUnits plan).run b).2 = b' ∧
      (∀ n f, b.files[n]? = some f →
        b'.files[n]? = some (if n ∈ kept then c.built p registry f else f)) ∧
      b'.workspace.cache.folder = none ∧
      c.Keeps p registry b.files b.workspace.cache.entries b'.workspace.cache.entries := by
  have hfiles (n : Nat) (hn : n ∈ kept) : ∃ f, b.files[n]? = some f ∧ b.files[n]? = some f :=
    ⟨_, List.getElem?_eq_getElem (hkept n hn), List.getElem?_eq_getElem (hkept n hn)⟩
  have ⟨todo, b₁, hrun₁, hready⟩ := h.prepareAll hk htrusts hfiles
  have ⟨b', hrun, hbuilt, hfolder, hkeeps⟩ :=
    hready.calm.finishAll (hk.sublist hready.sublist) ht hr hready.length
  have hunit : (c.buildUnits plan).run b =
      (c.finishAll p ((c.prepareAll p (kept.map .host)).run b).1).run
        ((c.prepareAll p (kept.map .host)).run b).2 := by
    rw [← hproject, ← hunits]
    rfl
  refine ⟨b', ?_, fun n f hn => ?_, hfolder, fun q e he => (hkeeps q e he).imp_left (hready.entries q e)⟩
  · rw [hunit, hrun₁]
    exact hrun
  · by_cases hm : n ∈ todo
    case pos =>
      have hb₁ := (hready.later n (.inl hm)).trans hn
      rw [hbuilt n f f hn hb₁, if_pos hm, if_pos (hready.sublist.subset hm)]
      rfl
    case neg =>
      by_cases hk : n ∈ kept
      case pos => rw [hbuilt n f _ hn (hready.done n hk hm f hn), if_neg hm, if_pos hk]
      case neg => rw [hbuilt n f f hn ((hready.later n (.inr hk)).trans hn), if_neg hm, if_neg hk]

end Calm

end ScopedCss
