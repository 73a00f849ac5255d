import ScopedCss.Proofs.Build.Accounts
import ScopedCss.Proofs.Composition.Texts

namespace ScopedCss

open SessionM

section

variable {α β : Type}

theorem exists_of_mem_left {R : α → β → Prop} {l : List α} {l' : List β} (h : List.Forall₂ R l l') {x : α}
    (hx : x ∈ l) : ∃ y ∈ l', R x y := by
  induction h
  case nil => cases hx
  case cons hr _ ih =>
    rcases List.mem_cons.1 hx with rfl | hx
    case inl => exact ⟨_, .head _, hr⟩
    case inr =>
      have ⟨y, hm, hy⟩ := ih hx
      exact ⟨y, .tail _ hm, hy⟩

theorem exists_of_mem_right {R : α → β → Prop} {l : List α} {l' : List β} (h : List.Forall₂ R l l') {y : β}
    (hy : y ∈ l') : ∃ x ∈ l, R x y := by
  have ⟨x, hm, hx⟩ := exists_of_mem_left h.flip hy
  exact ⟨x, hm, hx⟩

-- Where a list is read with success, each of its elements is.
theorem forall₂_of_mapM {read : α → Except Error β} {l : List α} {values : List β} (h : l.mapM read = .ok values) :
    List.Forall₂ (fun x y => read x = .ok y) l values := by
  induction l generalizing values
  case nil =>
    cases h
    exact .nil
  case cons x l ih =>
    rw [List.mapM_cons] at h
    cases hx : read x
    all_goals rw [hx] at h
    case error => cases h
    case ok value =>
      cases hl : l.mapM read
      all_goals
        rw [hl] at h
        cases h
      exact .cons hx (ih hl)

end

-- The file of a unit from an included folder.
def BuildUnit.included? : BuildUnit → Option IncludedFile
  | .host _          => none
  | .included file _ => some file

namespace BuildM

variable {b : BuildState} {disk : Disk}

theorem hashOf_leads (disk : Disk) (path : String) (s : Session) :
    Session.Leads [] s ((hashOf disk path).run s).2 [] := by
  have hrun : ((hashOf disk path).run s).2 = { s with registry := (s.registry.hashOf disk path).2 } := rfl
  rw [hrun]
  unfold Registry.hashOf
  cases hf : s.registry.fetch disk path
  case error => exact .refl [] s
  case ok    => exact .hashing hf

theorem allCurrent_leads (disk : Disk) (l : List (String × String)) (s : Session) :
    Session.Leads [] s ((Workspace.allCurrent (hashOf disk) l).run s).2 [] := by
  induction l generalizing s
  case nil => exact .refl [] s
  case cons d l ih =>
    have hrun : (Workspace.allCurrent (hashOf disk) (d :: l)).run s =
      (if ((hashOf disk d.1).run s).1 = some d.2 then Workspace.allCurrent (hashOf disk) l
        else pure false : StateM Session Bool).run ((hashOf disk d.1).run s).2 := rfl
    rw [hrun]
    split
    case isTrue  => exact (hashOf_leads disk d.1 s).trans (ih _)
    case isFalse => exact hashOf_leads disk d.1 s

theorem reuse_leads (path key : String) (b : BuildState) :
    Session.Leads [] b.session ((reuse path key).run b).2.session [] ∧ ((reuse path key).run b).2.files = b.files := by
  have hrun : ((Workspace.reuse path key (hashOf b.workspace.disk)).run b.workspace).run b.session = _ :=
    Workspace.reuse_eq
  have hleads := allCurrent_leads b.workspace.disk
  cases hfound : (b.workspace.entry path).1
  case none =>
    rw [hfound] at hrun
    rw [reuse_run hrun]
    exact ⟨.refl [] _, rfl⟩
  case some e =>
    rw [hfound] at hrun
    dsimp only at hrun
    split at hrun
    case isFalse =>
      rw [reuse_run hrun]
      exact ⟨.refl [] _, rfl⟩
    case isTrue =>
      split at hrun
      all_goals
        rw [reuse_run hrun]
        exact ⟨hleads _ _, rfl⟩

theorem hashes_leads (paths : List String) (b : BuildState) :
    Session.Leads [] b.session ((hashes paths).run b).2.session [] := by
  have hstep (path : String) (_ : path ∈ paths) (b' : BuildState)
      (h : Session.Leads [] b.session b'.session [] ∧ b.session.registry.Filled b.workspace.disk b'.session.registry) :
      ((hashOf b.workspace.disk path).run b'.session).1 = (b.session.registry.hashOf b.workspace.disk path).1 ∧
        Session.Leads [] b.session ((hashOf b.workspace.disk path).run b'.session).2 [] ∧
        b.session.registry.Filled b.workspace.disk ((hashOf b.workspace.disk path).run b'.session).2.registry := by
    obtain ⟨hl, hf⟩ := h
    refine ⟨?_, hl.trans (hashOf_leads _ path _), hf.trans (b'.session.registry.filled_hashOf b.workspace.disk path)⟩
    rw [Registry.hashOf_eq_found, ← hf.found, ← Registry.hashOf_eq_found]
    rfl
  exact (hashes_run paths hstep ⟨.refl [] _, .refl _ _⟩).2.1

end BuildM

namespace Compiler

variable {c : Compiler} {p : Project} {u : BuildUnit} {i : Input} {b : BuildState}

theorem render_leads (role : Role) {source : Source} {s : Session} :
    Session.Leads [source] s ((render p role source).on s).2 ((render p role source).on s).1.toOption.toList := by
  cases role
  case root index => exact SessionM.render_leads index
  all_goals exact .refl _ s

-- What is prepared is in the hands of the build, as the input was before.
theorem prepare_leads (c : Compiler) (p : Project) (u : BuildUnit) (i : Input) (b : BuildState) :
    Session.Leads [i.source c.settings i.contents] b.session ((c.prepare p u i).run b).2.session
        (((c.prepare p u i).run b).1.map (·.source)).toList ∧
      ((c.prepare p u i).run b).2.files.map Input.ofHost = b.files.map Input.ofHost := by
  have hreuse := BuildM.reuse_leads (i.path c.settings) (c.keyFor i) b
  have hrun := prepare_run (c := c) (p := p) (u := u) (i := i) b
  generalize (c.prepare p u i).run b = result at hrun
  cases hrun
  case skipped hsame =>
    rw [hsame.session]
    exact ⟨(Session.Leads.refl _ _).mono (List.Subset.refl _) (List.nil_subset _), hsame.inputs⟩
  case answered hr hands =>
    change (BuildM.reuse (i.path c.settings) (c.keyFor i)).run b = _ at hr
    rw [hr] at hreuse
    rw [hands.same.session]
    exact ⟨hreuse.1.mono (List.nil_subset _) (List.Subset.refl _), hands.same.inputs.trans (by rw [hreuse.2])⟩
  case refused b₁ b' t hrole hr hrender hands =>
    change (BuildM.reuse (i.path c.settings) (c.keyFor i)).run b = _ at hr
    rw [hr] at hreuse
    have hrendered := (hreuse.1.frame [i.source c.settings i.contents]).trans
      (render_leads (p := { p with disk := b₁.workspace.disk }) (Role.of b.session.preprocessors (i.source c.settings i.contents)))
    rw [hrender] at hrendered
    rw [hands.same.session]
    exact ⟨hrendered.to_eq rfl rfl, hands.same.inputs.trans (by rw [BuildState.withSession, hreuse.2])⟩
  case rendered source b₁ t hrole hr hrender =>
    change (BuildM.reuse (i.path c.settings) (c.keyFor i)).run b = _ at hr
    rw [hr] at hreuse
    have hrendered := (hreuse.1.frame [i.source c.settings i.contents]).trans
      (render_leads (p := { p with disk := b₁.workspace.disk }) (Role.of b.session.preprocessors (i.source c.settings i.contents)))
    rw [hrender] at hrendered
    exact ⟨hrendered.trans (.of_eq rfl rfl), by rw [BuildState.withSession, hreuse.2]⟩

theorem finish_leads (c : Compiler) (p : Project) (u : BuildUnit) (i : Input) (prepared : Prepared) (b : BuildState) :
    Session.Leads [prepared.source] b.session ((c.finish p u i prepared).run b).2.session [] ∧
      ((c.finish p u i prepared).run b).2.files.map Input.ofHost = b.files.map Input.ofHost := by
  have hscoped := scope_leads { p with disk := b.workspace.disk } b.session prepared.source
  have hrun := finish_run (c := c) (p := p) (u := u) (i := i) prepared b
  generalize ((c.finish p u i prepared).run b).2 = b' at hrun
  cases hrun
  case unkept hscope hands =>
    rw [hscope] at hscoped
    rw [hands.same.session]
    exact ⟨(hscoped.to_eq rfl rfl).mono (List.Subset.refl _) (List.nil_subset _), hands.same.inputs⟩
  case kept source b₁ b₂ t dependencies hscope hands hhashes he =>
    rw [hscope] at hscoped
    subst he
    have hlogged : Session.Leads [prepared.source] b.session b₁.session [] := by
      rw [hands.same.session]
      exact (hscoped.to_eq rfl rfl).mono (List.Subset.refl _) (List.nil_subset _)
    have hread := BuildM.hashes_leads source.references.keys b₁
    obtain ⟨registry, hb₂, _⟩ := BuildM.hashes_filled source.references.keys b₁
    rw [hhashes] at hread hb₂
    refine ⟨hlogged.trans hread, ?_⟩
    dsimp only at hb₂ ⊢
    rw [hb₂]
    exact hands.same.inputs

-- The states of a build in which files are prepared and finished in any order, and others change the disk in between.
-- What has been prepared can be finished later.
inductive BuildRun (c : Compiler) (files : List HostFile) (plan : Plan) : List Prepared → BuildState → Prop
  | start (workspace : Workspace) (report : BuildReport) :
    BuildRun c files plan [] ⟨workspace, plan.session, files, report⟩
  | prepared {ready : List Prepared} {b : BuildState} {u : BuildUnit} {i : Input} :
    BuildRun c files plan ready b → u ∈ plan.units → u.input? b.files = some i →
    BuildRun c files plan (((c.prepare plan.project u i).run b).1.toList ++ ready) ((c.prepare plan.project u i).run b).2
  | finished {ready : List Prepared} {b : BuildState} {prepared : Prepared} (u : BuildUnit) (i : Input) :
    BuildRun c files plan ready b → prepared ∈ ready →
    BuildRun c files plan ready ((c.finish plan.project u i prepared).run b).2
  | changed {ready : List Prepared} {b : BuildState} (disk : Disk) :
    BuildRun c files plan ready b → BuildRun c files plan ready { b with workspace := { b.workspace with disk } }

-- The texts that a build is given: those of the files that it was asked for, and then those of the included files.
def suppliedTexts (c : Compiler) (files : List HostFile) (units : List BuildUnit) : Texts := fun q =>
  ((files.find? fun f => (f.source c.settings).path = q).map (·.contents)).or
    (((units.filterMap BuildUnit.included?).find? fun f => c.pathOf f = q).map (·.contents))

-- What a build starts with: all of its units are to be prepared.
def Plan.stock (plan : Plan) (c : Compiler) (files : List HostFile) : Stock :=
  plan.session.stock (plan.units.filterMap fun u => (u.input? files).map fun i => i.source c.settings i.contents)
    (c.suppliedTexts files plan.units)

def Reaches (c : Compiler) (files : List HostFile) (plan : Plan) : Stock → Prop :=
  Relation.ReflTransGen Stock.Step (plan.stock c files)

-- What can be seen of the texts of files: what is registered, what imports come to and what fingerprints are taken of.
-- None of this depends on what the stages have made of the files.
structure ShowsTexts (c : Compiler) (files : List HostFile) (plan : Plan) (k : Stock) : Prop where
  registered : ∀ q source, k.registry.get? q = some source → k.texts q = some source.raw
  hosts      : ∀ f ∈ files, k.texts (f.source c.settings).path = some f.contents
  included   : ∀ f n, BuildUnit.included f n ∈ plan.units → k.texts (c.pathOf f) = some f.contents
  imports    : ∀ (n : Nat) (p : Preprocessor) resolver disk specifier importing references imported l,
    k.preprocessors[n]? = some p →
    (Lookup.importFile resolver disk p.dialect.defaultExtension specifier importing).run.run
      ⟨k.registry, p.loaded, references⟩ = (.ok imported, l) →
    k.texts.seen disk imported.path imported.path = some imported.source
  hashes     : ∀ disk path, (k.registry.hashOf disk path).1 = (k.texts.seen disk path path).map fingerprint

section

variable {files : List HostFile} {plan : Plan} {disk : Disk} {found : List IncludedFile} {ready : List Prepared}

-- Each state of a build is one that its files get into step by step.
theorem BuildRun.reaches (h : c.BuildRun files plan ready b) :
    b.files.map Input.ofHost = files.map Input.ofHost ∧ ∃ held texts, (plan.stock c files).held ⊆ held ∧
      (∀ prepared ∈ ready, prepared.source ∈ held) ∧ c.Reaches files plan (b.session.stock held texts) := by
  induction h
  case start => exact ⟨rfl, _, _, List.Subset.refl _, by simp, .refl⟩
  case prepared ready b u i h hu hi ih =>
    obtain ⟨hfiles, held, texts, hstart, hready, hreach⟩ := ih
    obtain ⟨hleads, hsame⟩ := prepare_leads c plan.project u i b
    have hsource : [i.source c.settings i.contents] ⊆ held := by
      refine List.cons_subset.2 ⟨hstart ?_, List.nil_subset _⟩
      refine List.mem_filterMap.2 ⟨u, hu, ?_⟩
      rw [← u.input?_congr hfiles, hi]
      rfl
    obtain ⟨held', texts', hh, hg, hs⟩ := hleads held texts hsource
    refine ⟨hsame.trans hfiles, held', texts', List.Subset.trans hstart hh, fun prepared hm => ?_, hreach.trans hs⟩
    rcases List.mem_append.1 hm with hm | hm
    case inl => exact hg (by simpa using ⟨prepared, Option.mem_toList.1 hm, rfl⟩)
    case inr => exact hh (hready prepared hm)
  case finished ready b prepared u i h hm ih =>
    obtain ⟨hfiles, held, texts, hstart, hready, hreach⟩ := ih
    obtain ⟨hleads, hsame⟩ := finish_leads c plan.project u i prepared b
    obtain ⟨held', texts', hh, _, hs⟩ := hleads held texts (List.cons_subset.2 ⟨hready prepared hm, List.nil_subset _⟩)
    exact ⟨hsame.trans hfiles, held', texts', List.Subset.trans hstart hh, fun prepared hm => hh (hready prepared hm),
      hreach.trans hs⟩
  case changed ih => exact ih

theorem BuildRun.prepareAll (h : c.BuildRun files plan ready b) {units : List BuildUnit} (hu : units ⊆ plan.units) :
    ∃ ready', c.BuildRun files plan ready' ((c.prepareAll plan.project units).run b).2 ∧ ready ⊆ ready' ∧
      ∀ u ∈ ((c.prepareAll plan.project units).run b).1, u.2.2 ∈ ready' := by
  induction units generalizing b ready
  case nil => exact ⟨ready, h, List.Subset.refl _, by rintro _ ⟨⟩⟩
  case cons u units ih =>
    obtain ⟨hhead, hrest⟩ := List.cons_subset.1 hu
    rw [prepareAll_cons_run]
    cases hi : u.input? b.files
    case none => exact ih h hrest
    case some i =>
      obtain ⟨ready', hrun, hsub, hunits⟩ := ih (h.prepared hhead hi) hrest
      refine ⟨ready', hrun, List.Subset.trans (List.subset_append_right _ _) hsub, fun v hv => ?_⟩
      rcases List.mem_append.1 hv with hv | hv
      case inr => exact hunits v hv
      case inl =>
        obtain ⟨prepared, hp, rfl⟩ := Option.map_eq_some_iff.1 (Option.mem_toList.1 hv)
        exact hsub (List.mem_append_left _ (Option.mem_toList.2 hp))

theorem BuildRun.finishAll (h : c.BuildRun files plan ready b) {todo : List ReadyUnit} (ht : ∀ u ∈ todo, u.2.2 ∈ ready) :
    c.BuildRun files plan ready ((c.finishAll plan.project todo).run b).2 := by
  induction todo generalizing b
  case nil => exact h
  case cons u todo ih => exact ih (h.finished u.1 u.2.1 (ht u (.head _))) fun v hv => ht v (.tail _ hv)

-- All units are prepared, and then what there is to finish is finished.
theorem BuildRun.buildUnits (workspace : Workspace) (report : BuildReport) :
    ∃ ready, c.BuildRun files plan ready ((c.buildUnits plan).run ⟨workspace, plan.session, files, report⟩).2 := by
  have hstart : c.BuildRun files plan [] ⟨workspace, plan.session, files, report⟩ := .start workspace report
  obtain ⟨ready, hrun, _, hunits⟩ := hstart.prepareAll (List.Subset.refl plan.units)
  exact ⟨ready, hrun.finishAll hunits⟩

theorem mem_newFiles {known : List String} {f : IncludedFile} (hf : f ∈ c.newFiles known found) :
    f ∈ found ∧ c.pathOf f ∉ known := by
  induction found generalizing known
  case nil => cases hf
  case cons g found ih =>
    have hnew : c.newFiles known (g :: found) =
      if known.contains (c.pathOf g) then c.newFiles known found
      else g :: c.newFiles (c.pathOf g :: known) found := rfl
    rw [hnew] at hf
    split at hf
    case isTrue => exact ⟨.tail _ (ih hf).1, (ih hf).2⟩
    case isFalse hg =>
      rcases List.mem_cons.1 hf with rfl | hf
      case inl => exact ⟨.head _, fun hm => hg (List.contains_iff_mem.2 hm)⟩
      case inr => exact ⟨.tail _ (ih hf).1, fun hm => (ih hf).2 (.tail _ hm)⟩

theorem newFiles_nodup (known : List String) (found : List IncludedFile) :
    ((c.newFiles known found).map c.pathOf).Nodup := by
  induction found generalizing known
  case nil => exact .nil
  case cons g found ih =>
    have hnew : c.newFiles known (g :: found) =
      if known.contains (c.pathOf g) then c.newFiles known found
      else g :: c.newFiles (c.pathOf g :: known) found := rfl
    rw [hnew]
    split
    case isTrue  => exact ih known
    case isFalse =>
      refine List.nodup_cons.2 ⟨fun hm => ?_, ih _⟩
      obtain ⟨f, hf, he⟩ := List.mem_map.1 hm
      exact (mem_newFiles hf).2 (he ▸ .head _)

-- An included file is registered under the path by which it was found to be new.
theorem path_included (c : Compiler) (f : IncludedFile) (arch : String) :
    (f.input arch).path c.settings = c.pathOf f := by
  unfold Input.path Input.source IncludedFile.input pathOf
  dsimp only
  split
  case isTrue => rfl
  case isFalse hrooted => rw [Resolver.inPackage, Resolver.absolute, if_neg hrooted]

-- The files with a handled extension below an included folder.
def handledBelow (c : Compiler) (disk : Disk) (folder : String) : List String :=
  ((disk.filesBelow (fun _ => true) ((Resolver.ofBase c.settings.base).absolute folder)).map
    Path.forwardSlashes).filter c.settings.handles

theorem includedFiles_eq {folder : String} (h : c.settings.includedFiles disk folder = .ok found) :
    List.Forall₂ (fun path f => f.path = path ∧ disk.read path = .ok f.contents) (c.handledBelow disk folder) found := by
  unfold Settings.includedFiles at h
  dsimp only at h
  split at h
  case isFalse => cases h
  case isTrue =>
    refine (forall₂_of_mapM h).imp fun path f hf => ?_
    split at hf
    case h_1 hr =>
      cases hf
      exact ⟨rfl, hr⟩
    case h_2 => cases hf

-- Where there is a file to hand them back with, the files of all included folders are found.
theorem discover_eq {log : Log} {backing : Option Nat} (h : c.discover disk backing = .ok (found, log)) :
    (found = [] ∧ (c.settings.options.includedFolders = [] ∨ backing = none)) ∨
      ∃ lists, List.Forall₂ (fun folder list => c.settings.includedFiles disk folder = .ok list)
        c.settings.options.includedFolders lists ∧ found = lists.flatten := by
  unfold discover at h
  dsimp only at h
  split at h
  case isTrue hempty =>
    cases h
    exact .inl ⟨rfl, .inl (List.isEmpty_iff.1 hempty)⟩
  case isFalse =>
    split at h
    case h_1 =>
      cases h
      exact .inl ⟨rfl, .inr rfl⟩
    case h_2 =>
      cases hall : c.settings.options.includedFolders.mapM (c.settings.includedFiles disk)
      all_goals
        rw [hall] at h
        cases h
      exact .inr ⟨_, forall₂_of_mapM hall, rfl⟩

theorem read_of_discover {log : Log} {backing : Option Nat} (h : c.discover disk backing = .ok (found, log))
    {f : IncludedFile} (hf : f ∈ found) : disk.read f.path = .ok f.contents := by
  rcases discover_eq h with ⟨rfl, _⟩ | ⟨lists, hlists, rfl⟩
  case inl => cases hf
  case inr =>
    obtain ⟨list, hlist, hf⟩ := List.mem_flatten.1 hf
    obtain ⟨folder, _, hfolder⟩ := exists_of_mem_right hlists hlist
    obtain ⟨path, _, rfl, hr⟩ := exists_of_mem_right (includedFiles_eq hfolder) hf
    exact hr

theorem found_of_discover {log : Log} {n : Nat} (h : c.discover disk (some n) = .ok (found, log)) {folder path : String}
    (hf : folder ∈ c.settings.options.includedFolders) (hp : path ∈ c.handledBelow disk folder) :
    ∃ f ∈ found, f.path = path := by
  rcases discover_eq h with ⟨_, he | he⟩ | ⟨lists, hlists, rfl⟩
  case inl.inl =>
    rw [he] at hf
    cases hf
  case inl.inr => cases he
  case inr =>
    obtain ⟨list, hlist, hfolder⟩ := exists_of_mem_left hlists hf
    obtain ⟨f, hm, he, _⟩ := exists_of_mem_left (includedFiles_eq hfolder) hp
    exact ⟨f, List.mem_flatten.2 ⟨list, hlist, hm⟩, he⟩

theorem loaded_of_startSession {arch : String} {start : Project × Session} (h : c.startSession disk arch = .ok start) :
    ∀ p ∈ start.2.preprocessors, p.loaded = ∅ := by
  obtain ⟨project, session⟩ := start
  obtain ⟨_, preprocessors, hpre, rfl⟩ := startSession_eq h
  intro p hm
  obtain ⟨⟨dialect, toggle⟩, _, hd⟩ := exists_of_mem_right (forall₂_of_mapM hpre) hm
  dsimp only at hd
  cases hc : c.renderers.create dialect.name
  all_goals
    rw [hc] at hd
    cases hd
  rfl

-- The session of a plan has the files that were asked for registered, and then the included ones.
theorem plan_session (h : c.plan disk files = .ok plan) :
    ∃ found log arch, c.discover disk (c.kept files).head? = .ok (found, log) ∧ plan.units = c.unitsOf files found ∧
      plan.session.registry = ((c.newFiles (c.registered files).sources.keys found).map (·.input arch)).foldl
        (fun registry i => registry.insert (i.source c.settings i.contents)) (c.registered files) ∧
      ∀ p ∈ plan.session.preprocessors, p.loaded = ∅ := by
  unfold Compiler.plan at h
  dsimp only at h
  cases hs : c.startSession disk ((files.head?.map (·.arch)).getD c.settings.options.clientArch)
  all_goals rw [hs] at h
  case error => cases h
  case ok start =>
    have hloaded := loaded_of_startSession hs
    obtain ⟨_, preprocessors, _, hstart⟩ := startSession_eq hs
    rw [kept]
    dsimp only [bind, Except.bind] at h
    split at h
    case h_1 => cases h
    case h_2 found hd =>
      cases h
      refine ⟨found.1, found.2, (files[(c.kept files).head?.getD 0]?.map (·.arch)).getD "", hd, ?_, ?_, hloaded⟩
      all_goals
        dsimp only
        rw [congrArg Session.registry hstart]
        rfl

-- What is registered for a path, after one file has been registered for each of some paths.
theorem register_raw {s : Settings} {inputs : List Input} (hn : (inputs.map (·.path s)).Nodup) (r : Registry) (q : String) :
    (((inputs.foldl (fun registry i => registry.insert (i.source s i.contents)) r).get? q).map (·.raw)) =
      ((inputs.find? fun i => i.path s = q).map (·.contents)).or ((r.get? q).map (·.raw)) := by
  induction inputs generalizing r
  case nil => rfl
  case cons i inputs ih =>
    obtain ⟨hi, hn⟩ := List.nodup_cons.1 hn
    rw [List.foldl_cons, ih hn, List.find?_cons]
    have hget : (r.insert (i.source s i.contents)).get? q = if q = i.path s then some (i.source s i.contents) else r.get? q :=
      Dict.get?_insert ..
    rw [hget]
    by_cases hq : q = i.path s
    case neg => simp [hq, Ne.symm hq]
    case pos =>
      have hnone : inputs.find? (fun i => i.path s = q) = none := by
        refine List.find?_eq_none.2 fun j hj he => hi ?_
        exact List.mem_map.2 ⟨j, hj, (of_decide_eq_true he).trans hq⟩
      rw [hnone, if_pos hq]
      simp [hq]
      rfl

theorem find?_of_nodup {α : Type} {l : List α} {key : α → String} (hn : (l.map key).Nodup) {x : α} (hx : x ∈ l) :
    l.find? (fun y => key y = key x) = some x := by
  induction l
  case nil => cases hx
  case cons y l ih =>
    obtain ⟨hy, hn⟩ := List.nodup_cons.1 hn
    rw [List.find?_cons]
    rcases List.mem_cons.1 hx with rfl | hx
    case inl => simp
    case inr =>
      have hne : key y ≠ key x := fun he => hy (List.mem_map.2 ⟨x, hx, he.symm⟩)
      simp [hne, ih hn hx]

theorem included_unitsOf (files : List HostFile) (found : List IncludedFile) :
    (c.unitsOf files found).filterMap BuildUnit.included? = c.newFiles (c.registered files).sources.keys found := by
  simp [unitsOf, List.filterMap_append, Function.comp_def, BuildUnit.included?]

theorem suppliedTexts_host (hn : (files.map fun f => (f.source c.settings).path).Nodup) (units : List BuildUnit)
    {f : HostFile} (hf : f ∈ files) : c.suppliedTexts files units (f.source c.settings).path = some f.contents := by
  rw [suppliedTexts, find?_of_nodup hn hf]
  rfl

-- What is registered for the files that were asked for are their texts.
theorem registered_raw (hn : (files.map fun f => (f.source c.settings).path).Nodup) (q : String) :
    ((c.registered files).get? q).map (·.raw) =
      (files.find? fun f => (f.source c.settings).path = q).map (·.contents) := by
  have hpaths : ((files.map Input.ofHost).map (·.path c.settings)).Nodup := by rwa [List.map_map]
  rw [registered, register_raw hpaths, List.find?_map, Option.map_map]
  exact Option.or_none

theorem suppliedTexts_included (h : c.plan disk files = .ok plan) (hn : (files.map fun f => (f.source c.settings).path).Nodup)
    {f : IncludedFile} {n : Nat} (hf : BuildUnit.included f n ∈ plan.units) :
    c.suppliedTexts files plan.units (c.pathOf f) = some f.contents := by
  obtain ⟨found, log, arch, hd, hunits, _, _⟩ := plan_session h
  have hf : f ∈ c.newFiles (c.registered files).sources.keys found := by
    rw [← included_unitsOf, ← hunits]
    exact List.mem_filterMap.2 ⟨_, hf, rfl⟩
  have hnone : (files.find? fun g => (g.source c.settings).path = c.pathOf f).map (·.contents) = none := by
    rw [← registered_raw hn, Option.map_eq_none_iff]
    exact Dict.get?_eq_none_iff.2 (mem_newFiles hf).2
  rw [suppliedTexts, hnone, hunits, included_unitsOf, find?_of_nodup (newFiles_nodup _ _) hf]
  rfl

-- A build starts with the texts that it was given.
theorem plan_faithful (h : c.plan disk files = .ok plan) (hn : (files.map fun f => (f.source c.settings).path).Nodup) :
    (plan.stock c files).Faithful := by
  obtain ⟨found, log, arch, hd, hunits, hregistry, hloaded⟩ := plan_session h
  constructor
  case raw =>
    intro q
    have hnodup := newFiles_nodup (c := c) (c.registered files).sources.keys found
    have hpaths : (((c.newFiles (c.registered files).sources.keys found).map (·.input arch)).map
        (·.path c.settings)).Nodup := by
      rw [List.map_map]
      simpa [Function.comp_def, path_included] using hnodup
    change ((plan.session.registry.get? q).map (·.raw)) = c.suppliedTexts files plan.units q
    rw [hregistry, register_raw hpaths, registered_raw hn, suppliedTexts, hunits, included_unitsOf, List.find?_map,
      Option.map_map]
    simp only [Function.comp_def, path_included]
    cases hfound : (c.newFiles (c.registered files).sources.keys found).find? fun f => c.pathOf f = q
    case none => exact (Option.or_none).symm
    case some f =>
      have hpath : c.pathOf f = q := of_decide_eq_true (List.find?_some (p := fun f => decide (c.pathOf f = q)) hfound)
      have hnone : (files.find? fun g => (g.source c.settings).path = q).map (·.contents) = none := by
        rw [← registered_raw hn, Option.map_eq_none_iff]
        exact Dict.get?_eq_none_iff.2 (hpath ▸ (mem_newFiles (List.mem_of_find?_eq_some hfound)).2)
      rw [hnone]
      rfl
  case keyed =>
    change plan.session.registry.Keyed
    rw [hregistry]
    exact ((Registry.keyed_ofSettings _ _).register _ _).register _ _
  case held =>
    intro source hm
    obtain ⟨u, hu, hsource⟩ := List.mem_filterMap.1 hm
    obtain ⟨i, hinput, rfl⟩ := Option.map_eq_some_iff.1 hsource
    obtain ⟨f, hf, rfl⟩ := Option.map_eq_some_iff.1 hinput
    cases u
    case host n => exact suppliedTexts_host hn _ (List.mem_of_getElem? hf)
    case included file n =>
      change c.suppliedTexts files plan.units ((file.input f.arch).path c.settings) = some file.contents
      rw [path_included]
      exact suppliedTexts_included h hn hu
  case loaded =>
    intro p hm q imported hq
    rw [hloaded p hm] at hq
    cases hq

theorem read_of_plan (h : c.plan disk files = .ok plan) {f : IncludedFile} {n : Nat}
    (hf : BuildUnit.included f n ∈ plan.units) : disk.read f.path = .ok f.contents := by
  obtain ⟨found, log, arch, hd, hunits, _, _⟩ := plan_session h
  have hf : f ∈ (c.unitsOf files found).filterMap BuildUnit.included? :=
    List.mem_filterMap.2 ⟨_, hunits ▸ hf, rfl⟩
  rw [included_unitsOf] at hf
  exact read_of_discover hd (mem_newFiles hf).1

-- Whatever a build does, and others to the disk meanwhile, its files are known by the texts that it was given for them,
-- or else by the texts that were on disk when they were first asked for.
theorem plan_showsTexts (h : c.plan disk files = .ok plan) (hn : (files.map fun f => (f.source c.settings).path).Nodup) :
    (∀ workspace report, ∃ ready, c.BuildRun files plan ready
      ((c.buildUnits plan).run ⟨workspace, plan.session, files, report⟩).2) ∧
    (∀ ready b, c.BuildRun files plan ready b → ∃ k, c.Reaches files plan k ∧ k.registry = b.session.registry ∧
      k.preprocessors = b.session.preprocessors) ∧
    (∀ f n, BuildUnit.included f n ∈ plan.units → disk.read f.path = .ok f.contents) ∧
    ∀ k, c.Reaches files plan k → c.ShowsTexts files plan k := by
  refine ⟨BuildRun.buildUnits, fun ready b hb => ?_, fun f n hf => read_of_plan h hf, fun k hk => ?_⟩
  case refine_1 =>
    obtain ⟨_, held, texts, _, _, hreach⟩ := hb.reaches
    exact ⟨_, hreach, rfl, rfl⟩
  case refine_2 =>
    have hfaithful := (plan_faithful h hn).steps hk
    exact {
      registered q source hq := by rw [← hfaithful.raw, hq]; rfl
      hosts f hf             := Stock.texts_of_steps hk (suppliedTexts_host hn _ hf)
      included f n hf        := Stock.texts_of_steps hk (suppliedTexts_included h hn hf)
      imports _ _ _ _ _ _ _ _ _ hp hrun := (hfaithful.importFile hp hrun).2
      hashes disk path       := Registry.hashOf_texts hfaithful.raw disk path }

-- After a build with a prelude in which one file imports another, both are still known by their own texts.
theorem plan_showsTexts_prelude :
    let c : Compiler := { Compiler.bare with
      settings := { Compiler.bare.settings with sass := .enabled true, prelude := "$v: red;" } }
    let files : List HostFile := [.ofText "a.scss" "web.browser" "@import './b';",
      .ofText "b.scss" "web.browser" ".b \x7b color: $v \x7d"]
    ∃ plan, c.plan .empty files = .ok plan ∧ ∃ k, c.Reaches files plan k ∧ c.ShowsTexts files plan k ∧
      k.registry =
        ((c.buildUnits plan).run ⟨.inMemory .empty, plan.session, files, {}⟩).2.session.registry := by
  intro c files
  have hplans : (c.plan .empty files).toOption.isSome = true := by decide +kernel
  cases hp : c.plan .empty files
  case error =>
    rw [hp] at hplans
    cases hplans
  case ok plan =>
    have hn : (files.map fun f => (f.source c.settings).path).Nodup := by decide +kernel
    obtain ⟨hbuild, hreaches, _, hshows⟩ := plan_showsTexts hp hn
    obtain ⟨ready, hrun⟩ := hbuild (.inMemory .empty) {}
    obtain ⟨k, hk, hregistry, _⟩ := hreaches ready _ hrun
    exact ⟨plan, rfl, k, hk, hshows k hk, hregistry⟩

end

end Compiler

end ScopedCss
