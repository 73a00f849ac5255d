import ScopedCss.Proofs.Build.Calm

namespace ScopedCss

open SessionM

namespace Compiler

variable {c : Compiler} {disk : Disk} {files : List HostFile}

-- What a build knows from the start.
def registered (c : Compiler) (files : List HostFile) : Registry :=
  (files.map Input.ofHost).foldl (fun registry i => registry.insert (i.source c.settings i.contents))
    (.ofSettings c.settings ((files.head?.map (·.arch)).getD c.settings.options.clientArch))

theorem registered_onDisk
    (hf : ∀ f ∈ files, disk.read (f.source c.settings).path = .ok f.contents) :
    (c.registered files).OnDisk disk c.settings := by
  unfold registered
  have hstart : (Registry.ofSettings c.settings
      ((files.head?.map (·.arch)).getD c.settings.options.clientArch)).OnDisk disk c.settings := .start _
  generalize Registry.ofSettings c.settings _ = registry at hstart ⊢
  induction files generalizing registry
  case nil => exact hstart
  case cons f files ih =>
    exact ih (fun f hm => hf f (.tail _ hm)) _ (hstart.insert (hf f (.head _)) rfl)

theorem text_of_onDisk {r : Registry} {f : HostFile} (hr : r.OnDisk disk c.settings)
    (hf : disk.read (f.source c.settings).path = .ok f.contents) :
    (r.collection disk).text (f.source c.settings).path = .ok (f.source c.settings).contents := by
  rw [hr.text, Settings.textOn, hf]
  rfl

-- The places of the files that a build is to build.
def kept (c : Compiler) (files : List HostFile) : List Nat :=
  (List.range files.length).filter fun n => files[n]?.any fun f => c.settings.keeps f.place

theorem kept_nodup : (c.kept files).Nodup :=
  List.nodup_range.filter _

theorem mem_kept {n : Nat} {f : HostFile} (hn : files[n]? = some f) :
    n ∈ c.kept files ↔ c.settings.keeps f.place = true := by
  have hlt : n < files.length := (List.getElem?_eq_some_iff.1 hn).1
  rw [kept, List.mem_filter, List.mem_range, hn, Option.any_some]
  exact and_iff_right hlt

theorem lt_of_mem_kept {n : Nat} (hn : n ∈ c.kept files) : n < files.length :=
  List.mem_range.1 (List.mem_filter.1 hn).1

-- What is to be built where nothing is rendered or included.
def plainPlan (c : Compiler) (files : List HostFile) (p : Project) : Plan where
  units   := (c.kept files).map .host
  project := p
  session := .start (c.registered files) []
  skipped := files.length - (c.kept files).length
  log     := []

theorem plan_plain (hd : c.settings.dialects = []) (hi : c.settings.options.includedFolders = []) :
    c.plan disk files = (Project.make disk c.settings).map (c.plainPlan files) := by
  unfold plan startSession discover Preprocessor.ofSettings
  rw [hd, hi]
  cases Project.make disk c.settings
  case error => rfl
  case ok    =>
    simp [newFiles, registered, List.foldl_map, Session.start, Except.map, bind, Except.bind, pure, Except.pure,
      kept, plainPlan]

-- A build starts with the cache as it is, or with an empty one.
theorem startCache_eq {w : Workspace} (h : w.cache.folder = none) :
    ∃ entries, c.startCache w = w.setEntries entries ∧ entries.Within w.cache.entries := by
  unfold startCache
  split
  case isTrue  => exact ⟨w.cache.entries, rfl, .refl _⟩
  case isFalse =>
    refine ⟨∅, ?_, fun _ _ he => by cases he⟩
    unfold Workspace.forgetAll
    dsimp only [Workspace.setEntries]
    rw [h]

-- What a project is otherwise does not depend on the disk.
theorem make_eq (disk disk' : Disk) :
    Project.make disk' c.settings = (Project.make disk c.settings).map fun p => { p with disk := disk' } := by
  unfold Project.make
  cases Naming.make c.settings.base c.settings.replacements c.settings.options.template <;> rfl

theorem disk_of_make {p : Project} (h : Project.make disk c.settings = .ok p) : p.disk = disk := by
  have hp := c.make_eq disk disk
  rw [h] at hp
  exact congrArg Project.disk (Except.ok.inj hp)

section

variable {w : Workspace} (hd : c.settings.dialects = []) (hi : c.settings.options.includedFolders = [])

include hd hi

theorem build_refused {e : Error} (he : Project.make disk c.settings = .error e) :
    (c.build w files).2.1 = files := by
  unfold build
  dsimp only
  rw [plan_plain hd hi, c.make_eq disk, he]
  rfl

-- Every file that is kept is handed what it comes to alone, as long as the answers of the cache are true.
theorem build_plain {p : Project} (hfolder : w.cache.folder = none)
    (hp : Project.make w.disk c.settings = .ok p)
    (hf : ∀ f ∈ files, w.disk.read (f.source c.settings).path = .ok f.contents)
    (htrusts : c.Trusts p (c.registered files) files w.cache.entries) :
    (∀ (n : Nat) f, files[n]? = some f → (c.build w files).2.1[n]? =
        some (if c.settings.keeps f.place then c.built p (c.registered files) f else f)) ∧
      (c.build w files).2.2.cache.folder = none ∧
      c.Keeps p (c.registered files) files w.cache.entries (c.build w files).2.2.cache.entries := by
  have hdisk := disk_of_make hp
  have honDisk := registered_onDisk hf
  have ⟨entries, hstart, hwithin⟩ := c.startCache_eq hfolder
  have ht : ∀ f ∈ files, ((c.registered files).collection p.disk).text (f.source c.settings).path =
      .ok (f.source c.settings).contents := fun f hm => hdisk ▸ text_of_onDisk honDisk (hf f hm)
  have hcalm : Calm p (c.registered files)
      { workspace := { disk := w.disk, cache := { entries, folder := w.cache.folder }, log := w.log ++ [] }
        session   := .start (c.registered files) []
        files
        report    := { skipped := files.length - (c.kept files).length } } := {
    keyed                := honDisk.keyed
    plain                := .start honDisk.keyed []
    stored q source hg   := hdisk ▸ (honDisk.source q source hg).1
    preprocessors        := rfl
    disk                 := hdisk.symm
    folder               := hfolder }
  have ⟨b', hrun, hfiles, hfolder', hkeeps⟩ :=
    hcalm.buildUnits (show (c.plainPlan files p).project = p from rfl) rfl kept_nodup (fun _ => lt_of_mem_kept)
      (htrusts.mono hwithin) ht (hdisk ▸ hf)
  have hbuild : c.build w files = (.ok b'.report, b'.files, b'.workspace) := by
    unfold build
    rw [hstart]
    dsimp only [Workspace.setEntries]
    rw [plan_plain hd hi, hp]
    dsimp only [Except.map]
    rw [← hrun]
    rfl
  rw [hbuild]
  refine ⟨fun n f hn => ?_, hfolder', fun q e he => (hkeeps q e he).imp_left (hwithin q e)⟩
  simpa only [mem_kept hn] using hfiles n f hn

end

section

variable {p p' : Project} {r r' : Registry} {f f' : HostFile} {result : Except Error ScopedModule}

theorem evaluates_of_onDisk (hr : r.OnDisk p.disk c.settings)
    (hf : p.disk.read (f.source c.settings).path = .ok f.contents) :
    ∃ result, Evaluates p (r.collection p.disk) [] (f.source c.settings).path result :=
  ⟨_, (Plain.start hr.keyed []).evaluates (text_of_onDisk hr hf)⟩

-- What a file comes to alone is what scoping its text anew comes to.
theorem outcome_of_evaluates (hr : r.OnDisk p.disk c.settings)
    (hf : p.disk.read (f.source c.settings).path = .ok f.contents)
    (he : Evaluates p (r.collection p.disk) [] (f.source c.settings).path result) :
    ((scopePlain p (f.source c.settings)).on (.start r [])).1 =
      if isLeft p (f.source c.settings) then .ok (f.source c.settings)
      else result.map ((f.source c.settings).scopedAs p) := by
  have hrun := (Plain.start hr.keyed []).evaluates (text_of_onDisk hr hf)
  rw [scopePlain_on]
  dsimp only
  rw [scope_outcome, he.unique hrun]

theorem alone_of_evaluates (hr : r.OnDisk p.disk c.settings)
    (hf : p.disk.read (f.source c.settings).path = .ok f.contents)
    (he : Evaluates p (r.collection p.disk) [] (f.source c.settings).path result) :
    c.alone p r (f.source c.settings) = c.compiled (if isLeft p (f.source c.settings) then
      .ok (f.source c.settings) else result.map ((f.source c.settings).scopedAs p)) :=
  congrArg c.compiled (outcome_of_evaluates hr hf he)

-- Two files come to the same if they have the same text, the same name and the same purpose.
theorem compiled_alike (hpath : (f'.source c.settings).path = (f.source c.settings).path)
    (hplace : f'.place = f.place) (hclient : c.settings.isClient f'.arch = c.settings.isClient f.arch)
    (hcontents : f'.contents = f.contents) (hp : p'.settings = p.settings)
    (result : Except Error ScopedModule) :
    c.compiled (if isLeft p' (f'.source c.settings) then .ok (f'.source c.settings)
        else result.map ((f'.source c.settings).scopedAs p')) =
      c.compiled (if isLeft p (f.source c.settings) then .ok (f.source c.settings)
        else result.map ((f.source c.settings).scopedAs p)) := by
  have hleft : isLeft p' (f'.source c.settings) = isLeft p (f.source c.settings) := by
    unfold isLeft passesThrough
    rw [hpath, hp]
    rfl
  have hcompiled (source source' : Source) (hplace : source'.place = source.place)
      (harch : c.settings.isClient source'.arch = c.settings.isClient source.arch)
      (hcontents : source'.contents = source.contents) (htokens : source'.tokens = source.tokens)
      (hmap : source'.sourceMap = source.sourceMap) (himports : source'.imports = source.imports) :
      c.compiled (.ok source') = c.compiled (.ok source) := by
    refine congrArg Except.ok ?_
    unfold Compiled.ofSource
    dsimp only
    rw [hplace, harch, hcontents, htokens, hmap, himports]
  rw [hleft]
  split
  case isTrue => exact hcompiled _ _ hplace hclient (congrArg c.settings.withPrelude hcontents) rfl rfl rfl
  case isFalse =>
    cases result
    case error => rfl
    case ok    =>
      refine hcompiled _ _ hplace hclient rfl ?_ rfl rfl
      simp only [Source.scopedAs, exportTokens, hp]

end

-- A compiler that leaves everything to the defaults, and some files for it.
def bare : Compiler where
  settings  := (Project.bare ∅).settings
  renderers := .builtin

def composer : HostFile :=
  .ofText "a.css" "web.browser" ".a \x7b composes: c from './c.css' \x7d"

-- The first is composed of the last; the one between them is refused.
def neighbours : List HostFile :=
  [composer, .ofText "b.css" "web.browser" ".b \x7b composes: d from './d.css' \x7d",
    .ofText "c.css" "web.browser" ".c \x7b color: red \x7d"]

def neighbourDisk : Disk :=
  { Disk.empty with files := .ofList (neighbours.map fun f => ("/" ++ f.place, f.contents)) }

-- What a file comes to alone is settled by what is on disk, and not by what else is registered.
theorem alone_eq {p : Project} {r r' : Registry} {f f' : HostFile} (hr : r.OnDisk p.disk c.settings)
    (hr' : r'.OnDisk p.disk c.settings) (hplace : f'.place = f.place) (harch : f'.arch = f.arch)
    (hpackage : f'.package = f.package) (hf : p.disk.read (f.source c.settings).path = .ok f.contents)
    (hf' : p.disk.read (f'.source c.settings).path = .ok f'.contents) :
    c.alone p r' (f'.source c.settings) = c.alone p r (f.source c.settings) := by
  have hpath : (f'.source c.settings).path = (f.source c.settings).path := by
    unfold HostFile.source Input.source Input.ofHost
    rw [hplace, hpackage]
  have hcontents : f'.contents = f.contents := by
    rw [hpath, hf] at hf'
    exact (Except.ok.inj hf').symm
  have hresolve : (r'.collection p.disk).resolve p = (r.collection p.disk).resolve p := by
    unfold Collection.resolve
    rw [hr.known, hr'.known]
    rfl
  have ⟨result, he⟩ := evaluates_of_onDisk hr hf
  have he' := he.congr rfl hresolve (hr'.text.trans hr.text.symm)
  rw [← hpath] at he'
  rw [alone_of_evaluates hr hf he, alone_of_evaluates hr' hf' he']
  exact compiled_alike hpath hplace (congrArg _ harch) hcontents rfl result

-- A build hands back the same with a file whatever else is built, in whatever order.
theorem build_isolated (c : Compiler) (disk : Disk) {files files' : List HostFile} {n n' : Nat}
    {a a' : HostFile} (hd : c.settings.dialects = []) (hi : c.settings.options.includedFolders = [])
    (hf : ∀ f ∈ files, disk.read (f.source c.settings).path = .ok f.contents)
    (hf' : ∀ f ∈ files', disk.read (f.source c.settings).path = .ok f.contents)
    (ha : files[n]? = some a) (ha' : files'[n']? = some a') (hplace : a'.place = a.place)
    (harch : a'.arch = a.arch) (hpackage : a'.package = a.package) :
    ∃ h : Handed,
      (c.build (.inMemory disk) files).2.1[n]? = some (a.hand h) ∧
        (c.build (.inMemory disk) files').2.1[n']? = some (a'.hand h) := by
  have hnothing (f : HostFile) : f.hand ⟨[], [], []⟩ = f := by simp [HostFile.hand]
  cases hp : Project.make disk c.settings
  case error =>
    have hrefused (files : List HostFile) : (c.build (.inMemory disk) files).2.1 = files :=
      build_refused hd hi hp
    refine ⟨⟨[], [], []⟩, ?_⟩
    rw [hrefused, hrefused, hnothing, hnothing]
    exact ⟨ha, ha'⟩
  case ok p =>
    have hdisk := disk_of_make hp
    have hbuilt := (build_plain (w := .inMemory disk) hd hi rfl hp hf trusts_empty).1 n a ha
    have hbuilt' := (build_plain (w := .inMemory disk) hd hi rfl hp hf' trusts_empty).1 n' a' ha'
    rw [hbuilt, hbuilt', hplace]
    by_cases hk : c.settings.keeps a.place = true
    case neg => exact ⟨⟨[], [], []⟩, by simp [hk, hnothing]⟩
    case pos =>
      refine ⟨c.handed (.ofHost a) (c.alone p (c.registered files) (a.source c.settings)), ?_⟩
      have halone : c.alone p (c.registered files') (a'.source c.settings) =
          c.alone p (c.registered files) (a.source c.settings) :=
        alone_eq (hdisk ▸ registered_onDisk hf) (hdisk ▸ registered_onDisk hf') hplace harch hpackage
          (hdisk ▸ hf a (List.mem_of_getElem? ha)) (hdisk ▸ hf' a' (List.mem_of_getElem? ha'))
      have hhanded (o : Except Error Compiled) : c.handed (.ofHost a') o = c.handed (.ofHost a) o := by
        unfold handed Input.ofHost
        rw [hplace, harch]
      simp only [hk, if_true, built, halone, hhanded, and_self]

theorem build_isolated_neighbours :
    bare.settings.dialects = [] ∧ bare.settings.options.includedFolders = [] ∧
      (∀ f ∈ neighbours.reverse, neighbourDisk.read (f.source bare.settings).path = .ok f.contents) ∧
      (∀ f ∈ [composer], neighbourDisk.read (f.source bare.settings).path = .ok f.contents) ∧
      neighbours.reverse[2]? = some composer ∧ [composer][0]? = some composer ∧
      ∃ h : Handed,
        (bare.build (.inMemory neighbourDisk) neighbours.reverse).2.1[2]? = some (composer.hand h) ∧
          (bare.build (.inMemory neighbourDisk) [composer]).2.1[0]? = some (composer.hand h) := by
  have hf : ∀ f ∈ neighbours.reverse, neighbourDisk.read (f.source bare.settings).path = .ok f.contents := by
    decide
  have hf' : ∀ f ∈ [composer], neighbourDisk.read (f.source bare.settings).path = .ok f.contents := by
    decide
  exact ⟨rfl, rfl, hf, hf', rfl, rfl, build_isolated _ _ rfl rfl hf hf' rfl rfl rfl rfl rfl⟩

end Compiler

end ScopedCss
