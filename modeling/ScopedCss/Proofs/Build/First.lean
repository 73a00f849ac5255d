import ScopedCss.Proofs.Build.Plain

namespace ScopedCss

open SessionM

-- A unit with what it is to be scoped as.
abbrev ReadyUnit := BuildUnit × Input × Prepared

namespace ReadyUnit

variable (u : ReadyUnit)

abbrev unit : BuildUnit := u.1

abbrev input : Input := u.2.1

abbrev source : Source := u.2.2.source

end ReadyUnit

namespace Registry

variable {disk : Disk} {r r' r'' : Registry}

theorem Filled.trans (h : r.Filled disk r') (h' : r'.Filled disk r'') : r.Filled disk r'' where
  knows   := h'.knows.trans h.knows
  found q := (h'.found q).trans (h.found q)
  keyed   := h'.keyed ∘ h.keyed
  size    := h.size.trans h'.size

theorem hashOf_eq_found (path : String) :
    (r.hashOf disk path).1 = (r.found disk path).toOption.map fun source => fingerprint source.raw := by
  unfold hashOf found
  cases r.fetch disk path <;> rfl

theorem Keyed.register (h : r.Keyed) (s : Settings) (inputs : List Input) :
    (inputs.foldl (fun registry i => registry.insert (i.source s i.contents)) r).Keyed := by
  induction inputs generalizing r
  case nil              => exact h
  case cons i inputs ih => exact ih (h.insert _)

end Registry

-- Taking fingerprints reads files, and does nothing else.
theorem BuildM.hashes_filled (paths : List String) (b : BuildState) :
    ∃ registry, ((hashes paths).run b).2 = { b with session := { b.session with registry } } ∧
      b.session.registry.Filled b.workspace.disk registry := by
  have hstep (path : String) (_ : path ∈ paths) (b' : BuildState)
      (h : ∃ registry, b' = { b with session := { b.session with registry } } ∧
        b.session.registry.Filled b.workspace.disk registry) :
      ((hashOf b.workspace.disk path).run b'.session).1 = (b.session.registry.hashOf b.workspace.disk path).1 ∧
        ∃ registry, { b' with session := ((hashOf b.workspace.disk path).run b'.session).2 } =
            { b with session := { b.session with registry } } ∧
          b.session.registry.Filled b.workspace.disk registry := by
    have ⟨registry, he, hf⟩ := h
    subst he
    refine ⟨?_, _, rfl, hf.trans (registry.filled_hashOf b.workspace.disk path)⟩
    rw [Registry.hashOf_eq_found, ← hf.found, ← Registry.hashOf_eq_found]
    rfl
  exact (hashes_run paths hstep ⟨_, rfl, .refl _ _⟩).2

-- Rendering leaves to a session what has been scoped in it.
structure Session.Beside (s t : Session) : Prop where
  keyed     : s.registry.Keyed → t.registry.Keyed
  slots     : t.slots = s.slots
  imports   : t.imports = s.imports
  chain     : t.chain = s.chain
  completed : t.completed = s.completed

namespace Session.Beside

variable {s t u : Session}

theorem trans (h : s.Beside t) (h' : t.Beside u) : s.Beside u where
  keyed     := h'.keyed ∘ h.keyed
  slots     := h'.slots.trans h.slots
  imports   := h'.imports.trans h.imports
  chain     := h'.chain.trans h.chain
  completed := h'.completed.trans h.completed

theorem resting (h : s.Beside t) (hs : s.Resting) : t.Resting :=
  hs.of_eq (h.keyed hs.keyed) h.slots h.imports h.chain h.completed

theorem keeps (h : s.Beside t) : s.Keeps t :=
  Session.keeps_of_eq h.slots h.imports

theorem resultOf (h : s.Beside t) (q : String) : t.resultOf q = s.resultOf q := by
  simp [Session.resultOf, h.slots]

end Session.Beside

theorem Request.Traced.beside {p : Project} {s t u : Session} {request : Request} (h : Traced p s request t)
    (hb : t.Beside u) : Traced p s request u where
  keeps         := h.keeps.trans hb.keeps
  origin q r hr := by
    refine (h.origin q r (hb.resultOf q ▸ hr)).imp id fun ⟨top, v, ht, hv, hy⟩ => ?_
    exact ⟨top, v, ht, hv, hy.later hb.keeps⟩

-- A file that has not been scoped, as it is to be built.
structure Source.Unscoped (source : Source) (i : Input) : Prop where
  arch     : source.arch = i.arch
  tokens   : source.tokens = none
  isScoped : source.isScoped = false

namespace Compiler

variable {c : Compiler} {p : Project} {u : BuildUnit} {i : Input}

theorem render_beside (role : Role) (source : Source) (s : Session) :
    s.Beside ((render p role source).on s).2 := by
  cases role
  case root index =>
    unfold render
    rw [render_on]
    cases s.preprocessors[index]?
    case none => exact ⟨id, rfl, rfl, rfl, rfl⟩
    case some => exact ⟨Preprocessor.render_keyed, rfl, rfl, rfl, rfl⟩
  all_goals exact ⟨id, rfl, rfl, rfl, rfl⟩

theorem render_unscoped {role : Role} {source source' : Source} {s : Session} (hs : source.Unscoped i)
    (h : ((render p role source).on s).1 = .ok source') : source'.Unscoped i := by
  cases role
  case root index =>
    unfold render at h
    rw [render_on] at h
    cases hp : s.preprocessors[index]?
    all_goals rw [hp] at h
    case none => exact Except.ok.inj h ▸ hs
    case some =>
      rcases Preprocessor.render_result h with rfl | ⟨css, l, rfl⟩
      · exact hs
      · exact ⟨hs.arch, hs.tokens, hs.isScoped⟩
  all_goals exact Except.ok.inj h ▸ hs

-- A build in which nothing has been scoped yet, ...
structure Fresh (p : Project) (b : BuildState) : Prop where
  disk    : b.workspace.disk = p.disk
  cache   : b.workspace.cache = ⟨∅, none⟩
  resting : b.session.Resting
  slots   : b.session.slots = ∅

-- ... and a unit of it that can be.
structure Ready (inputs : List Input) (u : ReadyUnit) : Prop where
  handle   : u.unit.handle < inputs.length
  unscoped : u.source.Unscoped u.input

namespace Fresh

variable {b b' : BuildState}

theorem same (h : Fresh p b) (hs : b.Same b') : Fresh p b' where
  disk    := hs.disk.trans h.disk
  cache   := hs.cache.trans h.cache
  resting := hs.session ▸ h.resting
  slots   := hs.session ▸ h.slots

theorem withSession (h : Fresh p b) {t : Session} (ht : b.session.Beside t) : Fresh p (b.withSession t) where
  disk    := h.disk
  cache   := h.cache
  resting := (ht.resting h.resting).of_eq (ht.keyed h.resting.keyed) rfl rfl rfl rfl
  slots   := ht.slots.trans h.slots

theorem reusing (h : Fresh p b) : (c.reusing i).run b = (none, b) := by
  have hf : b.workspace.cache.folder = none := by rw [h.cache]
  refine BuildM.reuse_run ?_
  rw [Workspace.reuse_run hf, h.cache]
  rfl

-- Nothing is cached, so that each unit is rendered, skipped or reported.
theorem prepare (h : Fresh p b) :
    Fresh p ((c.prepare p u i).run b).2 ∧
      ((c.prepare p u i).run b).2.files.map Input.ofHost = b.files.map Input.ofHost ∧
        ∀ prepared, ((c.prepare p u i).run b).1 = some prepared → prepared.source.Unscoped i := by
  have hp := prepare_run (c := c) (p := p) (u := u) (i := i) b
  generalize (c.prepare p u i).run b = result at hp
  cases hp
  case skipped hs => exact ⟨h.same hs, hs.inputs, by simp⟩
  case answered hr _ =>
    rw [h.reusing] at hr
    cases hr
  case refused hr hrender hands =>
    rw [h.reusing] at hr
    cases hr
    have ht := congrArg Prod.snd hrender ▸ render_beside ..
    exact ⟨(h.withSession ht).same hands.same, hands.same.inputs, by simp⟩
  case rendered hr hrender =>
    rw [h.reusing] at hr
    cases hr
    have ht := congrArg Prod.snd hrender ▸ render_beside ..
    refine ⟨h.withSession ht, rfl, fun prepared he => ?_⟩
    cases he
    exact render_unscoped ⟨rfl, rfl, rfl⟩ (congrArg Prod.fst hrender)

theorem prepareAll (h : Fresh p b) (units : List BuildUnit) :
    Fresh p ((c.prepareAll p units).run b).2 ∧
      ((c.prepareAll p units).run b).2.files.map Input.ofHost = b.files.map Input.ofHost ∧
        ∀ u ∈ ((c.prepareAll p units).run b).1, Ready (b.files.map Input.ofHost) u := by
  induction units generalizing b
  case nil => exact ⟨h, rfl, by rintro _ ⟨⟩⟩
  case cons u units ih =>
    rw [prepareAll_cons_run]
    cases hi : u.input? b.files
    case none => exact ih h
    case some i =>
      have ⟨hp, hinputs, hready⟩ := h.prepare (c := c) (u := u) (i := i)
      have ⟨hfresh, hinputs', hrest⟩ := ih hp
      refine ⟨hfresh, hinputs'.trans hinputs, fun ready hm => ?_⟩
      rcases List.mem_append.1 hm with hm | hm
      · have ⟨prepared, he, hu⟩ := Option.map_eq_some_iff.1 (Option.mem_toList.1 hm)
        subst hu
        refine ⟨?_, hready prepared he⟩
        have ⟨f, hf, _⟩ := Option.map_eq_some_iff.1 hi
        simpa using (List.getElem?_eq_some_iff.1 hf).1
      · exact hinputs ▸ hrest ready hm

end Fresh

-- A build on its way.
structure Going (p : Project) (b : BuildState) : Prop where
  disk    : b.workspace.disk = p.disk
  folder  : b.workspace.cache.folder = none
  resting : b.session.Resting

theorem Fresh.going {b : BuildState} (h : Fresh p b) : Going p b where
  disk    := h.disk
  folder  := h.cache ▸ rfl
  resting := h.resting

namespace Going

variable {b b' : BuildState}

theorem same (h : Going p b) (hs : b.Same b') : Going p b' where
  disk    := hs.disk.trans h.disk
  folder  := hs.cache ▸ h.folder
  resting := hs.session ▸ h.resting

theorem withSession (h : Going p b) {t : Session} (ht : t.Resting) : Going p (b.withSession t) where
  disk    := h.disk
  folder  := h.folder
  resting := ht.of_eq ht.keyed rfl rfl rfl rfl

theorem project (h : Going p b) : { p with disk := b.workspace.disk } = p := by
  rw [h.disk]

theorem remember (h : Going p b) (e : CacheEntry) (report : BuildReport) :
    Going p { b with workspace := b.workspace.remember e, report } := by
  rw [Workspace.remember_eq h.folder]
  exact ⟨h.disk, h.folder, h.resting⟩

-- What a unit leaves in the session is what scoping it does.
theorem finish (h : Going p b) (u : ReadyUnit) :
    Going p ((c.finish p u.unit u.input u.2.2).run b).2 ∧
      ((SessionM.scope p u.source).on b.session).2.Beside ((c.finish p u.unit u.input u.2.2).run b).2.session := by
  have hscoped : ((SessionM.scope p u.source).on b.session).2.Resting := Request.scope_resting h.resting
  have hlog (t : Session) : t.Beside { t with log := [] } := ⟨id, rfl, rfl, rfl, rfl⟩
  have hrun := finish_run (c := c) (p := p) (u := u.unit) (i := u.input) u.2.2 b
  generalize ((c.finish p u.unit u.input u.2.2).run b).2 = b' at hrun
  cases hrun
  case unkept hscope hands =>
    rw [h.project] at hscope
    rw [hscope] at hscoped ⊢
    exact ⟨(h.withSession hscoped).same hands.same, hands.same.session ▸ hlog _⟩
  case kept source b₁ b₂ t dependencies hscope hands hhashes he =>
    rw [h.project] at hscope
    rw [hscope] at hscoped ⊢
    have hgoing := (h.withSession hscoped).same hands.same
    have ⟨registry, hb₂, hfilled⟩ := BuildM.hashes_filled source.references.keys b₁
    rw [hhashes] at hb₂
    dsimp only at hb₂
    have hread : b₁.session.Beside { b₁.session with registry } := ⟨hfilled.keyed, rfl, rfl, rfl, rfl⟩
    subst he hb₂
    have hread' : Going p { b₁ with session := { b₁.session with registry } } :=
      ⟨hgoing.disk, hgoing.folder, hread.resting hgoing.resting⟩
    have hlogged : t.Beside b₁.session := hands.same.session ▸ hlog t
    exact ⟨hread'.remember .., hlogged.trans hread⟩

end Going

theorem finishAll_append_run (done : List ReadyUnit) (u : ReadyUnit) (b : BuildState) :
    (c.finishAll p (done ++ [u])).run b =
      (c.finish p u.unit u.input u.2.2).run ((c.finishAll p done).run b).2 := by
  induction done generalizing b
  case nil               => rfl
  case cons ready done ih => exact ih ((c.finish p ready.unit ready.input ready.2.2).run b).2

theorem startCache_inMemory (disk : Disk) : c.startCache (.inMemory disk) = .inMemory disk := by
  unfold startCache
  split <;> rfl

theorem startSession_eq {disk : Disk} {arch : String} {project : Project} {s : Session}
    (h : c.startSession disk arch = .ok (project, s)) :
    project.disk = disk ∧ ∃ preprocessors, Preprocessor.ofSettings c.settings c.renderers = .ok preprocessors ∧
      s = .start (.ofSettings c.settings arch) preprocessors := by
  unfold startSession at h
  cases hpre : Preprocessor.ofSettings c.settings c.renderers
  case error =>
    rw [hpre] at h
    cases h
  case ok preprocessors =>
    cases hp : Project.make disk c.settings
    all_goals
      rw [hpre, hp] at h
      cases h
    exact ⟨disk_of_make hp, preprocessors, rfl, rfl⟩

-- Before anything is built, all files are known, and none has been scoped.
theorem plan_eq {disk : Disk} {files : List HostFile} {plan : Plan} (h : c.plan disk files = .ok plan) :
    plan.project.disk = disk ∧ plan.session.Resting ∧ plan.session.slots = ∅ := by
  unfold Compiler.plan at h
  dsimp only at h
  cases hs : c.startSession disk ((files.head?.map (·.arch)).getD c.settings.options.clientArch)
  all_goals rw [hs] at h
  case error => cases h
  case ok start =>
    have ⟨hdisk, preprocessors, _, hstart⟩ := startSession_eq hs
    dsimp only [bind, Except.bind] at h
    split at h
    case h_1 => cases h
    case h_2 =>
      cases h
      have hrest : start.2.Resting := hstart ▸ .start (Registry.keyed_ofSettings _ _)
      exact ⟨hdisk, hrest.of_eq ((hrest.keyed.register _ _).register _ _) rfl rfl rfl rfl, hstart ▸ rfl⟩

end Compiler

-- A build that starts with an empty cache in memory, and the plan for it.
structure FirstBuild where
  compiler : Compiler
  disk     : Disk
  files    : List HostFile
  plan     : Compiler.Plan
  planned  : compiler.plan disk files = .ok plan

namespace FirstBuild

variable (b : FirstBuild)

def start : BuildState where
  workspace := { Workspace.inMemory b.disk with log := b.plan.log }
  session   := b.plan.session
  files     := b.files
  report    := { skipped := b.plan.skipped }

-- First, it settles what can be scoped, ...
def prepared : List ReadyUnit × BuildState :=
  (b.compiler.prepareAll b.plan.project b.plan.units).run b.start

-- ... and then it scopes this, one unit after another.
def after (done : List ReadyUnit) : BuildState :=
  ((b.compiler.finishAll b.plan.project done).run b.prepared.2).2

def final : BuildState :=
  b.after b.prepared.1

theorem build_eq :
    b.compiler.build (.inMemory b.disk) b.files = (.ok b.final.report, b.final.files, b.final.workspace) := by
  unfold Compiler.build
  rw [Compiler.startCache_inMemory]
  dsimp only [Workspace.inMemory]
  rw [b.planned]
  rfl

-- The calls that scoping the units of the build makes.
inductive Makes (v : Visit) : Prop
  | mk {before rest : List ReadyUnit} {u : ReadyUnit} {top : Visit} :
    b.prepared.1 = before ++ u :: rest →
    (Request.scope u.source).visit? b.plan.project (b.after before).session = some top →
    Visit.Within b.plan.project top v → Makes v

-- A unit that is counted as compiled, and what it is scoped to.
inductive Compiles (u : ReadyUnit) (source : Source) : Prop
  | mk {before rest : List ReadyUnit} :
    b.prepared.1 = before ++ u :: rest →
    ((SessionM.scope b.plan.project u.source).on (b.after before).session).1 = .ok source →
    (b.after (before ++ [u])).report.compiled = (b.after before).report.compiled + 1 →
    Compiles u source

variable {b} {done more before rest : List ReadyUnit} {u : ReadyUnit} {v : Visit} {source : Source}

theorem start_fresh : Compiler.Fresh b.plan.project b.start := by
  have ⟨hdisk, hresting, hslots⟩ := Compiler.plan_eq b.planned
  exact ⟨hdisk.symm, rfl, hresting, hslots⟩

theorem fresh : Compiler.Fresh b.plan.project b.prepared.2 :=
  (start_fresh.prepareAll _).1

theorem ready (hu : u ∈ b.prepared.1) : Compiler.Ready (b.prepared.2.files.map Input.ofHost) u := by
  have ⟨_, hinputs, hready⟩ := (start_fresh (b := b)).prepareAll (c := b.compiler) b.plan.units
  exact hinputs ▸ hready u hu

theorem after_append : b.after (done ++ [u]) =
    ((b.compiler.finish b.plan.project u.unit u.input u.2.2).run (b.after done)).2 :=
  congrArg Prod.snd (Compiler.finishAll_append_run ..)

theorem going (done : List ReadyUnit) : Compiler.Going b.plan.project (b.after done) := by
  induction done using List.reverseRecOn
  case nil => exact fresh.going
  case append_singleton done u ih =>
    rw [after_append]
    exact (ih.finish u).1

theorem after_beside : ((SessionM.scope b.plan.project u.source).on (b.after done).session).2.Beside
    (b.after (done ++ [u])).session := by
  rw [after_append]
  exact ((going done).finish u).2

theorem traced : Request.Traced b.plan.project (b.after done).session (.scope u.source)
    (b.after (done ++ [u])).session :=
  (Request.run_traced (going done).resting (.scope u.source)).beside after_beside

-- What has been scoped stays so.
theorem after_keeps (done more : List ReadyUnit) :
    (b.after done).session.Keeps (b.after (done ++ more)).session := by
  induction more using List.reverseRecOn
  case nil =>
    rw [List.append_nil]
    exact .refl _
  case append_singleton more u ih =>
    rw [← List.append_assoc]
    exact ih.trans traced.keeps

theorem after_final (h : b.prepared.1 = before ++ u :: rest) : b.after (before ++ [u] ++ rest) = b.final := by
  rw [List.append_assoc, List.singleton_append, ← h]
  rfl

theorem keeps_final (h : b.prepared.1 = before ++ u :: rest) :
    (b.after (before ++ [u])).session.Keeps b.final.session :=
  after_final h ▸ after_keeps (before ++ [u]) rest

-- All results are those of calls of the build.
theorem origin (h : b.prepared.1 = done ++ rest) {q : String} {r : ScopedModule}
    (hr : (b.after done).session.resultOf q = some r) :
    ∃ v, b.Makes v ∧ Visit.Yields b.plan.project v q r (b.after done).session := by
  induction done using List.reverseRecOn generalizing rest
  case nil =>
    have hslots : (b.after []).session.slots = ∅ := fresh.slots
    simp [Session.resultOf, hslots] at hr
  case append_singleton done u ih =>
    replace h : b.prepared.1 = done ++ u :: rest := by simpa using h
    rcases traced.origin q r hr with hr | ⟨top, v, ht, hv, hy⟩
    · obtain ⟨v, hv, hy⟩ := ih h hr
      exact ⟨v, hv, hy.later traced.keeps⟩
    · exact ⟨v, .mk h ht hv, hy⟩

theorem Makes.proper (h : b.Makes v) : v.Proper := by
  cases h
  case mk ht hv => exact hv.proper (Request.visit?_resting (going _).resting ht).2.1

-- What a call has scoped stays so until the end.
theorem Makes.keeps (h : b.Makes v) : (v.run b.plan.project).2.Keeps b.final.session := by
  cases h
  case mk before rest u top hsplit ht hv =>
    have hproper := (Request.visit?_resting (going before).resting ht).2.1
    have hunit : ((Request.scope u.source).run b.plan.project (b.after before).session).Keeps
        (b.after (before ++ [u])).session := after_beside.keeps
    exact (((hv.run_keeps hproper).trans (Request.visit?_keeps ht)).trans hunit).trans (keeps_final hsplit)

end FirstBuild

end ScopedCss
