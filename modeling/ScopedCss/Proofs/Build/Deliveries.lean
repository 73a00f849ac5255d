import ScopedCss.Proofs.Build.Passes

namespace ScopedCss

-- What is handed back with a file at the end of a unit, and how this is counted.
structure Delivery where
  unit   : BuildUnit
  handed : Handed
  ending : Ending

def Handed.nothing : Handed :=
  ⟨[], [], []⟩

namespace Delivery

def give (files : List HostFile) (d : Delivery) : List HostFile :=
  files.modify d.unit.handle (·.hand d.handed)

def count (report : BuildReport) (d : Delivery) : BuildReport :=
  report.count d.ending

def skipped (u : BuildUnit) : Delivery :=
  ⟨u, .nothing, .skipped⟩

end Delivery

-- A unit is handed what its input comes to, with its errors marked as those of the unit.
def Compiler.delivery (c : Compiler) (u : BuildUnit) (i : Input) (outcome : Except Error Compiled)
    (otherwise : Ending) : Delivery where
  unit   := u
  handed := { c.handed i outcome with errors := (c.handed i outcome).errors.map u.handedError }
  ending := (c.handed i outcome).ending otherwise

-- Units have been delivered, one after another, and nothing else has been handed back or counted.
structure BuildState.Delivers (deliveries : List Delivery) (b b' : BuildState) : Prop where
  files  : b'.files = deliveries.foldl Delivery.give b.files
  report : b'.report = deliveries.foldl Delivery.count b.report

namespace BuildState.Delivers

variable {ds ds' : List Delivery} {b b' b'' : BuildState}

theorem of_eq (hfiles : b'.files = b.files) (hreport : b'.report = b.report) : b.Delivers [] b' :=
  ⟨hfiles, hreport⟩

theorem trans (h : b.Delivers ds b') (h' : b'.Delivers ds' b'') : b.Delivers (ds ++ ds') b'' where
  files  := by rw [h'.files, h.files, List.foldl_append]
  report := by rw [h'.report, h.report, List.foldl_append]

theorem inputs (h : b.Delivers ds b') : b'.files.map Input.ofHost = b.files.map Input.ofHost := by
  rw [h.files]
  generalize b.files = files
  clear h
  induction ds generalizing files
  case nil => rfl
  case cons d ds ih =>
    rw [List.foldl_cons, ih, Delivery.give]
    apply List.ext_getElem?
    intro n
    simp only [List.getElem?_map, List.getElem?_modify]
    cases files[n]?
    case none   => rfl
    case some f => by_cases hn : d.unit.handle = n <;> simp [hn, HostFile.hand, Input.ofHost]

theorem input? (h : b.Delivers ds b') (u : BuildUnit) : u.input? b'.files = u.input? b.files :=
  u.input?_congr h.inputs

end BuildState.Delivers

namespace BuildM

variable {b b' b'' : BuildState} {c : Compiler} {u : BuildUnit} {i : Input} {r : Compiled} {f : HostFile}

-- A unit that has failed has been delivered, ...
theorem fail_delivers (e : Error) (otherwise : Ending) :
    b.Delivers [c.delivery u i (.error e) otherwise] ((fail u i e).run b).2 where
  files := by
    have hadd : (fun f : HostFile => f.addError (u.handedError ⟨e.message, i.place⟩)) =
        fun f => f.hand (c.delivery u i (.error e) otherwise).handed := by
      funext f
      simp [HostFile.addError, HostFile.hand, Compiler.delivery, Compiler.handed]
    exact congrArg (b.files.modify u.handle) hadd
  report := rfl

-- ... and so has one whose artifacts have been handed back, once it is counted, ...
theorem emitUnit_delivers (hf : b.files[u.handle]? = some f) (h : (c.emitUnit u i r).run b = (.ok (), b'))
    {otherwise : Ending} (hfiles : b''.files = b'.files) (hreport : b''.report = b'.report.count otherwise) :
    b.Delivers [c.delivery u i (.ok r) otherwise] b'' := by
  rw [emitUnit_run, hf] at h
  dsimp only at h
  rw [emit_eq] at h
  unfold Compiler.delivery Compiler.handed
  dsimp only
  generalize c.artifacts i.arch r = artifacts at h
  rcases artifacts with ⟨e | sheets, e | scripts⟩
  all_goals cases h
  refine ⟨?_, hreport⟩
  rw [hfiles]
  refine .trans ?_ (modify_eq_set hf _).symm
  simp [HostFile.emit, HostFile.hand]

-- ... or for which it is reported that some of them have no path.
theorem emitUnit_fail_delivers (hf : b.files[u.handle]? = some f) {e : Error}
    (h : (c.emitUnit u i r).run b = (.error e, b')) (otherwise : Ending) :
    b.Delivers [c.delivery u i (.ok r) otherwise] ((fail u i e).run b').2 := by
  rw [emitUnit_run, hf] at h
  dsimp only at h
  rw [emit_eq] at h
  have hfail (b : BuildState) : ((fail u i e).run b).2.files =
    b.files.modify u.handle (·.addError (u.handedError ⟨e.message, i.place⟩)) := rfl
  have hset (g : HostFile) : (b.files.set u.handle g)[u.handle]? = some g :=
    List.getElem?_set_self (List.getElem?_eq_some_iff.1 hf).1
  unfold Compiler.delivery Compiler.handed
  dsimp only
  generalize c.artifacts i.arch r = artifacts at h
  rcases artifacts with ⟨e | sheets, e | scripts⟩
  case ok.ok => cases h
  all_goals
    cases h
    refine ⟨?_, rfl⟩
    rw [hfail, modify_eq_set (hset _), List.set_set]
    refine .trans ?_ (modify_eq_set hf _).symm
    simp [HostFile.emit, HostFile.hand, HostFile.addError]

end BuildM

namespace Compiler

variable {c : Compiler} {p : Project} {b : BuildState} {u : BuildUnit} {i : Input}

-- Preparing a unit delivers it, or leaves it to be scoped.
inductive Passes (ready : ReadyUnit → Prop) (delivered : Input → Delivery → Prop) (b : BuildState) (u : BuildUnit)
    (i : Input) : Option Prepared × BuildState → Prop
  | delivered {d : Delivery} {b' : BuildState} :
    d.unit = u → delivered i d → b.Delivers [d] b' → Passes ready delivered b u i (none, b')
  | ready {prepared : Prepared} {b' : BuildState} :
    ready (u, i, prepared) → b.Delivers [] b' → Passes ready delivered b u i (some prepared, b')

-- What holds of a build in its two passes, of the units between them, and of what is delivered.
structure Steps (c : Compiler) (p : Project) (first second : BuildState → Prop) (ready : ReadyUnit → Prop)
    (delivered : Input → Delivery → Prop) : Prop where
  prepare : ∀ {b u i}, first b → u.input? b.files = some i →
    first ((c.prepare p u i).run b).2 ∧ Passes ready delivered b u i ((c.prepare p u i).run b)
  turn    : ∀ {b}, first b → second b
  finish  : ∀ {b} {u : ReadyUnit}, second b → u.unit.input? b.files = some u.input → ready u →
    second ((c.finish p u.unit u.input u.2.2).run b).2 ∧
      ∃ d, d.unit = u.unit ∧ delivered u.input d ∧ b.Delivers [d] ((c.finish p u.unit u.input u.2.2).run b).2

-- All of these have been delivered, as units of a build of these files.
def AllDelivered (delivered : Input → Delivery → Prop) (files : List HostFile) (ds : List Delivery) : Prop :=
  ∀ d ∈ ds, ∃ i, d.unit.input? files = some i ∧ delivered i d

theorem AllDelivered.of_delivers {delivered : Input → Delivery → Prop} {b' : BuildState} {ds ds' : List Delivery}
    (hd : b.Delivers ds b') (h : AllDelivered delivered b'.files ds') : AllDelivered delivered b.files ds' := by
  intro d hm
  obtain ⟨i, hi, hdel⟩ := h d hm
  exact ⟨i, hd.input? d.unit ▸ hi, hdel⟩

namespace Steps

variable {first second : BuildState → Prop} {ready : ReadyUnit → Prop} {delivered : Input → Delivery → Prop}

theorem prepareAll (h : c.Steps p first second ready delivered) {units : List BuildUnit} (hb : first b)
    (hu : ∀ u ∈ units, u.handle < b.files.length) :
    first ((c.prepareAll p units).run b).2 ∧
      ∃ ds, b.Delivers ds ((c.prepareAll p units).run b).2 ∧ AllDelivered delivered b.files ds ∧
        (ds.map Delivery.unit ++ ((c.prepareAll p units).run b).1.map ReadyUnit.unit).Perm units ∧
          ∀ u : ReadyUnit, u ∈ ((c.prepareAll p units).run b).1 →
            u.unit.input? b.files = some u.input ∧ ready u := by
  induction units generalizing b
  case nil => exact ⟨hb, [], .of_eq rfl rfl, by rintro _ ⟨⟩, .refl _, by rintro _ ⟨⟩⟩
  case cons u units ih =>
    obtain ⟨i, hi⟩ : ∃ i, u.input? b.files = some i := by
      rw [BuildUnit.input?, List.getElem?_eq_getElem (hu u (.head _))]
      exact ⟨_, rfl⟩
    obtain ⟨hfirst, hpass⟩ := h.prepare hb hi
    rw [prepareAll_cons_run, hi]
    dsimp only
    generalize (c.prepare p u i).run b = result at hfirst hpass
    have hlater {ds : List Delivery} (hd : b.Delivers ds result.2) :
        ∀ u ∈ units, u.handle < result.2.files.length := by
      have hl := congrArg List.length hd.inputs
      simp only [List.length_map] at hl
      exact fun u hm => hl ▸ hu u (.tail _ hm)
    cases hpass
    case delivered d b' hunit hd hone =>
      obtain ⟨hlast, ds, hds, hall, hperm, hready⟩ := ih hfirst (hlater hone)
      refine ⟨hlast, d :: ds, hone.trans hds, ?_, hunit ▸ hperm.cons _, fun u hm => ?_⟩
      · exact List.forall_mem_cons.2 ⟨⟨i, hunit ▸ hi, hd⟩, hall.of_delivers hone⟩
      · exact (hready u hm).imp_left (hone.input? u.unit).symm.trans
    case ready prepared b' hr hnone =>
      obtain ⟨hlast, ds, hds, hall, hperm, hready⟩ := ih hfirst (hlater hnone)
      refine ⟨hlast, ds, hnone.trans hds, hall.of_delivers hnone, List.perm_middle.trans (hperm.cons u),
        List.forall_mem_cons.2 ⟨⟨hi, hr⟩, fun u hm => ?_⟩⟩
      exact (hready u hm).imp_left (hnone.input? u.unit).symm.trans

theorem finishAll (h : c.Steps p first second ready delivered) {todo : List ReadyUnit} (hb : second b)
    (hu : ∀ u ∈ todo, u.unit.input? b.files = some u.input ∧ ready u) :
    ∃ ds, b.Delivers ds ((c.finishAll p todo).run b).2 ∧ AllDelivered delivered b.files ds ∧
      ds.map Delivery.unit = todo.map ReadyUnit.unit := by
  induction todo generalizing b
  case nil => exact ⟨[], .of_eq rfl rfl, by rintro _ ⟨⟩, rfl⟩
  case cons u todo ih =>
    obtain ⟨hi, hr⟩ := hu u (.head _)
    obtain ⟨hsecond, d, hunit, hd, hone⟩ := h.finish hb hi hr
    obtain ⟨ds, hds, hall, hunits⟩ := ih hsecond fun u hm => hone.input? u.unit ▸ hu u (.tail _ hm)
    refine ⟨d :: ds, hone.trans hds, ?_, by rw [List.map_cons, List.map_cons, hunit, hunits]⟩
    exact List.forall_mem_cons.2 ⟨⟨u.input, hunit ▸ hi, hd⟩, hall.of_delivers hone⟩

-- Each unit is delivered once.
theorem buildUnits {plan : Plan} (h : c.Steps plan.project first second ready delivered) (hb : first b)
    (hu : ∀ u ∈ plan.units, u.handle < b.files.length) :
    ∃ ds, b.Delivers ds ((c.buildUnits plan).run b).2 ∧ AllDelivered delivered b.files ds ∧
      (ds.map Delivery.unit).Perm plan.units := by
  obtain ⟨hfirst, ds, hds, hall, hperm, hready⟩ := h.prepareAll hb hu
  obtain ⟨ds', hds', hall', hunits⟩ := h.finishAll (h.turn hfirst) fun u hm => hds.input? u.unit ▸ hready u hm
  refine ⟨ds ++ ds', hds.trans hds', ?_, ?_⟩
  · exact List.forall_mem_append.2 ⟨hall, hall'.of_delivers hds⟩
  · rw [List.map_append, hunits]
    exact hperm

end Steps

-- How a unit may be delivered in any build.
inductive Delivered (c : Compiler) (i : Input) : Delivery → Prop
  | skipped (u : BuildUnit) : Delivered c i (.skipped u)
  | cached (u : BuildUnit) (r : Compiled) : Delivered c i (c.delivery u i (.ok r) .cached)
  | compiled (u : BuildUnit) (outcome : Except Error Compiled) : Delivered c i (c.delivery u i outcome .compiled)

theorem handled_of_input? (hi : u.input? b.files = some i) : ∃ f, b.files[u.handle]? = some f :=
  have ⟨f, hf, _⟩ := Option.map_eq_some_iff.1 hi
  ⟨f, hf⟩

theorem skipped_delivers (u : BuildUnit) (b : BuildState) :
    b.Delivers [.skipped u] { b with report := { b.report with skipped := b.report.skipped + 1 } } where
  files := by
    have hnothing : (fun f : HostFile => f.hand .nothing) = id := by
      funext f
      simp [HostFile.hand, Handed.nothing]
    simp [Delivery.give, Delivery.skipped, hnothing]
  report := rfl

-- A unit is delivered in its first pass unless it is left to be scoped as it has been rendered.
theorem prepare_passes_of {ready : ReadyUnit → Prop} {delivered : Input → Delivery → Prop}
    (hi : u.input? b.files = some i) (hskipped : delivered i (.skipped u))
    (hcached : ∀ r, ((c.reusing i).run b).1 = some r → delivered i (c.delivery u i (.ok r) .cached))
    (hrefused : ∀ e, delivered i (c.delivery u i (.error e) .compiled))
    (hready : ∀ {p role s source}, ((render p role (i.source c.settings i.contents)).on s).1 = .ok source →
      ready (u, i, ⟨source, c.keyFor i⟩)) :
    Passes ready delivered b u i ((c.prepare p u i).run b) := by
  rw [prepare_eq]
  split
  case isTrue => exact .delivered rfl hskipped (skipped_delivers u b)
  case isFalse =>
    have hreuse : b.Delivers [] ((c.reusing i).run b).2 := .of_eq rfl rfl
    generalize (c.reusing i).run b = reused at hreuse hcached
    rcases reused with ⟨_ | r, b₁⟩
    case some =>
      obtain ⟨f, hf⟩ := handled_of_input? (hreuse.input? u ▸ hi)
      dsimp only
      rcases he : (c.emitUnit u i r).run b₁ with ⟨e | ⟨⟩, b₂⟩
      case error =>
        exact .delivered rfl (hcached r rfl) (hreuse.trans (BuildM.emitUnit_fail_delivers hf he .cached))
      case ok =>
        exact .delivered rfl (hcached r rfl) (hreuse.trans (BuildM.emitUnit_delivers hf he rfl rfl))
    case none =>
      dsimp only
      rcases hrender : (render { p with disk := b₁.workspace.disk }
        (Role.of b.session.preprocessors (i.source c.settings i.contents))
        (i.source c.settings i.contents)).on b₁.session with ⟨e | source, t⟩
      all_goals have hsession : b.Delivers [] (b₁.withSession t) := hreuse.trans (.of_eq rfl rfl)
      case error =>
        exact .delivered rfl (hrefused e) (hsession.trans (BuildM.fail_delivers e .compiled))
      case ok => exact .ready (hready (congrArg Prod.fst hrender)) hsession

theorem prepare_passes (hi : u.input? b.files = some i) :
    Passes (fun _ => True) c.Delivered b u i ((c.prepare p u i).run b) :=
  prepare_passes_of hi (.skipped u) (fun r _ => .cached u r) (fun e => .compiled u (.error e)) fun _ => trivial

-- A unit that is scoped is delivered what it is scoped to.
theorem finish_delivers (hi : u.input? b.files = some i) (prepared : Prepared) :
    b.Delivers [c.delivery u i (c.compiled
        ((SessionM.scope { p with disk := b.workspace.disk } prepared.source).on b.session).1) .compiled]
      ((c.finish p u i prepared).run b).2 := by
  rw [finish_eq]
  rcases (SessionM.scope { p with disk := b.workspace.disk } prepared.source).on b.session with ⟨e | source, t⟩
  all_goals
    have hsession : b.Delivers [] (b.withSession t) := .of_eq rfl rfl
    dsimp only
  case error => exact hsession.trans (BuildM.fail_delivers e .compiled)
  case ok =>
    obtain ⟨f, hf⟩ : ∃ f, (b.withSession t).files[u.handle]? = some f := handled_of_input? hi
    rcases he : (c.emitUnit u i (.ofSource source (c.settings.isClient source.arch))).run (b.withSession t)
      with ⟨e | ⟨⟩, b₁⟩
    case error => exact hsession.trans (BuildM.emitUnit_fail_delivers hf he .compiled)
    case ok =>
      obtain ⟨_, hread, -⟩ := BuildM.hashes_filled source.references.keys b₁
      dsimp only
      rw [hread]
      exact hsession.trans (BuildM.emitUnit_delivers hf he rfl rfl)

-- The steps of any build.
theorem steps (c : Compiler) (p : Project) :
    c.Steps p (fun _ => True) (fun _ => True) (fun _ => True) c.Delivered where
  prepare _ hi   := ⟨trivial, prepare_passes hi⟩
  turn _         := trivial
  finish _ hi _  := ⟨trivial, _, rfl, .compiled .., finish_delivers hi _⟩

-- What a build hands back with files and reports is what all its units are delivered, each once.
structure Delivers (c : Compiler) (files : List HostFile) (found : List IncludedFile)
    (delivered : Input → Delivery → Prop) (ds : List Delivery) (report : BuildReport) (files' : List HostFile) :
    Prop where
  units     : (ds.map Delivery.unit).Perm (c.unitsOf files found)
  delivered : AllDelivered delivered files ds
  handed    : files' = ds.foldl Delivery.give files
  counted   : report = ds.foldl Delivery.count { skipped := files.length - (c.kept files).length }

variable {first second : BuildState → Prop} {ready : ReadyUnit → Prop} {delivered : Input → Delivery → Prop}
  {w w' : Workspace} {files files' : List HostFile} {report : BuildReport}

-- The state that the units of a build start from.
def Plan.start (plan : Plan) (w : Workspace) (files : List HostFile) : BuildState where
  workspace := { w with log := w.log ++ plan.log }
  session   := plan.session
  files     := files
  report    := { skipped := plan.skipped }

theorem Steps.build (h : c.build w files = (.ok report, files', w'))
    (hs : ∀ plan, c.plan (c.startCache w).disk files = .ok plan →
      c.Steps plan.project first second ready delivered ∧ first (plan.start (c.startCache w) files)) :
    ∃ found log ds, c.discover (c.startCache w).disk (c.kept files).head? = .ok (found, log) ∧
      c.Delivers files found delivered ds report files' := by
  unfold Compiler.build at h
  dsimp only at h
  cases hp : c.plan (c.startCache w).disk files
  all_goals rw [hp] at h
  case error => cases h
  case ok plan =>
    obtain ⟨found, log, hfound, hunits, hskipped⟩ := plan_units hp
    obtain ⟨hsteps, hfirst⟩ := hs plan hp
    obtain ⟨ds, hds, hall, hperm⟩ := hsteps.buildUnits hfirst fun u hu => handle_lt hfound u (hunits ▸ hu)
    cases h
    exact ⟨found, log, ds, hfound, hunits ▸ hperm, hall, hds.files, hskipped ▸ hds.report⟩

-- What a unit is handed is in one piece: its artifacts, or its error. Only the style sheet of a file for whose
-- script there is no path stays with an error.
structure Emits (c : Compiler) (i : Input) (d : Delivery) : Prop where
  done    : d.ending = .compiled ∨ d.ending = .cached → d.handed.errors = []
  skipped : d.ending = .skipped → d.handed = .nothing
  failed  : ∀ e, d.ending = .failed e →
    d.handed.scripts = [] ∧ d.handed.errors = [d.unit.handedError e] ∧ e.sourcePath = i.place
  sheets  : ∀ e, d.ending = .failed e → d.handed.sheets ≠ [] → ∃ sheet place path error,
    d.handed.sheets = [sheet] ∧
      c.settings.options.sheetPath.expand place = .ok path ∧ sheet.path = path ++ ".css" ∧
      c.settings.options.scriptPath.expand place = .error error ∧ e.message = error.message

theorem emits_of_error (u : BuildUnit) (i : Input) (e : Error) :
    c.Emits i ⟨u, ⟨[], [], [u.handedError ⟨e.message, i.place⟩]⟩, .failed ⟨e.message, i.place⟩⟩ where
  done          := nofun
  skipped       := nofun
  failed _ h    := by
    cases h
    exact ⟨rfl, rfl, rfl⟩
  sheets _ _ hn := absurd rfl hn

theorem scriptPath_of_artifacts {arch : String} {r : Compiled} {e : Error} (h : (c.artifacts arch r).2 = .error e) :
    c.settings.options.scriptPath.expand r.place = .error e := by
  unfold artifacts at h
  dsimp only at h
  split at h
  case isTrue  => cases h
  case isFalse =>
    cases hp : c.settings.options.scriptPath.expand r.place
    all_goals
      rw [hp] at h
      cases h
    rfl

theorem sheetPath_of_artifacts {arch : String} {r : Compiled} {sheets : List SheetArtifact}
    (h : (c.artifacts arch r).1 = .ok sheets) (hn : sheets ≠ []) :
    ∃ sheet path, sheets = [sheet] ∧ c.settings.options.sheetPath.expand r.place = .ok path ∧
      sheet.path = path ++ ".css" := by
  unfold artifacts at h
  dsimp only at h
  split at h
  case isFalse =>
    cases h
    exact absurd rfl hn
  case isTrue =>
    cases hp : c.settings.options.sheetPath.expand r.place
    all_goals
      rw [hp] at h
      cases h
    exact ⟨_, _, rfl, rfl, rfl⟩

theorem delivery_emits (u : BuildUnit) (outcome : Except Error Compiled) {otherwise : Ending}
    (ho : otherwise = .compiled ∨ otherwise = .cached) : c.Emits i (c.delivery u i outcome otherwise) := by
  unfold delivery handed
  cases outcome
  case error e => exact emits_of_error u i e
  case ok r =>
    dsimp only
    rcases ha : c.artifacts i.arch r with ⟨e | sheets, result⟩
    case error => exact emits_of_error u i e
    case ok =>
      cases result
      case error e =>
        have hscript := scriptPath_of_artifacts (congrArg Prod.snd ha)
        refine ⟨nofun, nofun, fun _ he => ?_, fun _ he hn => ?_⟩
        all_goals cases he
        · exact ⟨rfl, rfl, rfl⟩
        · obtain ⟨sheet, path, hsheet, hpath, hp⟩ := sheetPath_of_artifacts (congrArg Prod.fst ha) hn
          exact ⟨sheet, r.place, path, e, hsheet, hpath, hp, hscript, rfl⟩
      case ok scripts =>
        refine ⟨fun _ => rfl, ?_, ?_, ?_⟩
        all_goals obtain rfl | rfl := ho
        all_goals exact nofun

theorem Delivered.emits {d : Delivery} (h : c.Delivered i d) : c.Emits i d := by
  cases h
  case skipped u          => exact ⟨nofun, fun _ => rfl, nofun, nofun⟩
  case cached u r         => exact delivery_emits u _ (.inr rfl)
  case compiled u outcome => exact delivery_emits u outcome (.inl rfl)

-- All that a build hands back is what its units are delivered, each of them in one piece.
theorem build_emits (h : c.build w files = (.ok report, files', w')) :
    ∃ found log ds, c.discover (c.startCache w).disk (c.kept files).head? = .ok (found, log) ∧
      c.Delivers files found c.Emits ds report files' := by
  obtain ⟨found, log, ds, hfound, hd⟩ := Steps.build h fun plan _ => ⟨c.steps plan.project, trivial⟩
  refine ⟨found, log, ds, hfound, hd.units, fun d hm => ?_, hd.handed, hd.counted⟩
  obtain ⟨i, hi, hdel⟩ := hd.delivered d hm
  exact ⟨i, hi, hdel.emits⟩

-- A compiler that has no path for scripts.
def unscripted : Compiler where
  settings  := { bare.settings with
    options := { bare.settings.options with scriptPath := .byPattern (.ofList [("(", "x")]) } }
  renderers := .builtin

def unscriptedFiles : List HostFile :=
  [.ofText "a.css" "web.browser" ".a \x7b color: red \x7d"]

-- Its style sheet is handed back with a unit that has failed.
theorem build_emits_unscripted :
    ∃ report files' w' found ds,
      unscripted.build (.inMemory .empty) unscriptedFiles = (.ok report, files', w') ∧
        unscripted.Delivers unscriptedFiles found unscripted.Emits ds report files' ∧
          report.failed = 1 ∧ files'.map (·.sheets.length) = [1] := by
  have hrun : (match unscripted.build (.inMemory .empty) unscriptedFiles with
      | (.ok report, files', _) => report.failed == 1 && files'.map (·.sheets.length) == [1]
      | (.error _, _)           => false) = true := by
    decide +kernel
  generalize hb : unscripted.build (.inMemory .empty) unscriptedFiles = result at hrun
  rcases result with ⟨e | report, files', w'⟩
  case error => cases hrun
  case ok =>
    obtain ⟨hfailed, hsheets⟩ := Bool.and_eq_true_iff.1 hrun
    obtain ⟨found, _, ds, -, hd⟩ := build_emits hb
    exact ⟨report, files', w', found, ds, rfl, hd, beq_iff_eq.1 hfailed, beq_iff_eq.1 hsheets⟩

end Compiler

end ScopedCss
