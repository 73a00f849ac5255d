import Mathlib.Data.Finset.Card
import Mathlib.Data.List.Perm.Basic
import ScopedCss.Proofs.Build.First

namespace ScopedCss

-- How a unit of a build ends.
inductive Ending
  | compiled
  | cached
  | skipped
  | failed (e : FileError)
deriving DecidableEq

def Ending.failure? : Ending → Option FileError
  | .failed e => some e
  | _         => none

-- A unit with its ending.
abbrev EndedUnit := BuildUnit × Ending

def BuildReport.count (r : BuildReport) : Ending → BuildReport
  | .compiled => { r with compiled := r.compiled + 1 }
  | .cached   => { r with cached := r.cached + 1 }
  | .skipped  => { r with skipped := r.skipped + 1 }
  | .failed e => { r with failed := r.failed + 1, failures := r.failures ++ [e] }

-- The errors that are handed back with a file because of a unit: one with its handle if it has failed.
def EndedUnit.errorsAt (u : EndedUnit) (n : Nat) : List FileError :=
  match u.2 with
  | .failed e => if u.1.handle = n then [u.1.handedError e] else []
  | _         => []

-- The errors that have been handed back with a file.
def errorsAt (files : List HostFile) (n : Nat) : Option (List FileError) :=
  files[n]?.map (·.errors)

theorem BuildUnit.input?_eq (u : BuildUnit) (files : List HostFile) :
    u.input? files = (files.map Input.ofHost)[u.handle]?.map fun i =>
      match u with
      | .host _          => i
      | .included file _ => file.input i.arch := by
  rw [List.getElem?_map, Option.map_map]
  cases u <;> rfl

-- What a unit is depends on the inputs of the build only.
theorem BuildUnit.input?_congr {files files' : List HostFile} (u : BuildUnit)
    (h : files'.map Input.ofHost = files.map Input.ofHost) : u.input? files' = u.input? files := by
  rw [u.input?_eq files', u.input?_eq files, h]

-- Units have ended, and nothing else has been reported or handed back as an error. A unit that has
-- failed is reported under its own place.
structure BuildState.Ends (ended : List EndedUnit) (b b' : BuildState) : Prop where
  inputs   : b'.files.map Input.ofHost = b.files.map Input.ofHost
  report   : b'.report = ended.foldl (fun r u => r.count u.2) b.report
  errors n : errorsAt b'.files n = (errorsAt b.files n).map (· ++ ended.flatMap (·.errorsAt n))
  places   : ∀ u e, (u, .failed e) ∈ ended → (u.input? b.files).map (·.place) = some e.sourcePath

namespace BuildState.Ends

variable {ended ended' : List EndedUnit} {b b' b'' : BuildState}

theorem of_eq (hfiles : b'.files = b.files) (hreport : b'.report = b.report) : b.Ends [] b' where
  inputs   := by rw [hfiles]
  report   := hreport
  errors n := by simp [hfiles]
  places   := by rintro _ _ ⟨⟩

theorem trans (h : b.Ends ended b') (h' : b'.Ends ended' b'') : b.Ends (ended ++ ended') b'' where
  inputs   := h'.inputs.trans h.inputs
  report   := by rw [h'.report, h.report, List.foldl_append]
  errors n := by
    rw [h'.errors, h.errors, Option.map_map]
    simp [Function.comp_def]
  places u e hu := by
    rcases List.mem_append.1 hu with hu | hu
    · exact h.places u e hu
    · exact u.input?_congr h.inputs ▸ h'.places u e hu

-- A unit that does not fail has ended once it is counted.
theorem count {u : BuildUnit} {e : Ending} (h : b.Ends [] b') (he : ∀ failure, e ≠ .failed failure)
    (hfiles : b''.files = b'.files) (hreport : b''.report = b'.report.count e) : b.Ends [(u, e)] b'' where
  inputs   := hfiles ▸ h.inputs
  report   := by rw [hreport, h.report]; rfl
  errors n := by
    have hnone : EndedUnit.errorsAt (u, e) n = [] := by
      unfold EndedUnit.errorsAt
      split
      case h_1 hf => exact absurd hf (he _)
      case h_2    => rfl
    rw [List.flatMap_cons, hnone, hfiles]
    exact h.errors n
  places u' e' hu := by
    cases List.mem_singleton.1 hu
    exact absurd rfl (he e')

end BuildState.Ends

namespace BuildM

variable {b b' : BuildState} {c : Compiler} {u : BuildUnit} {i : Input} {r : Compiled}

theorem fail_ends (hi : u.input? b.files = some i) (e : Error) :
    b.Ends [(u, .failed ⟨e.message, i.place⟩)] ((fail u i e).run b).2 where
  inputs   := (fail_same e).inputs
  report   := rfl
  errors n := by
    have hfiles : ((fail u i e).run b).2.files =
      b.files.modify u.handle (·.addError (u.handedError ⟨e.message, i.place⟩)) := rfl
    rw [errorsAt, errorsAt, hfiles, List.getElem?_modify]
    cases b.files[n]?
    case none   => rfl
    case some f => by_cases hn : u.handle = n <;> simp [EndedUnit.errorsAt, HostFile.addError, hn]
  places u' e' hu := by
    cases List.mem_singleton.1 hu
    rw [hi]
    rfl

theorem emitUnit_ends (c : Compiler) (u : BuildUnit) (i : Input) (r : Compiled) (b : BuildState) :
    b.Ends [] ((c.emitUnit u i r).run b).2 where
  inputs   := emitUnit_same.inputs
  report   := by
    rw [emitUnit_run]
    cases b.files[u.handle]? <;> rfl
  errors n := by
    have hemit (f : HostFile) : (c.emit i.arch r f).2.errors = f.errors := by
      rw [emit_eq]
      rcases c.artifacts i.arch r with ⟨_ | _, _ | _⟩ <;> rfl
    rw [errorsAt, errorsAt, emitUnit_files, List.getElem?_modify]
    cases b.files[n]?
    case none   => rfl
    case some f => by_cases hn : u.handle = n <;> simp [hemit, hn]
  places   := by rintro _ _ ⟨⟩

end BuildM

namespace Compiler

open BuildState (Ends)

variable {c : Compiler} {p : Project} {u : BuildUnit} {i : Input} {b : BuildState}

theorem withSession_ends (b : BuildState) (t : Session) : b.Ends [] (b.withSession t) :=
  .of_eq rfl rfl

-- A unit that fails once there is nothing else to account for has ended.
theorem fail_ends_of (hi : u.input? b.files = some i) {b' : BuildState} (h : b.Ends [] b') (e : Error) :
    ∃ e', b.Ends [(u, e')] ((BuildM.fail u i e).run b').2 :=
  ⟨_, h.trans (BuildM.fail_ends (u.input?_congr h.inputs ▸ hi) e)⟩

-- Preparing a unit ends it, unless it is to be scoped then.
theorem prepare_ends (hi : u.input? b.files = some i) :
    (((c.prepare p u i).run b).1 = none ∧ ∃ e, b.Ends [(u, e)] ((c.prepare p u i).run b).2) ∨
      ((c.prepare p u i).run b).1 ≠ none ∧ b.Ends [] ((c.prepare p u i).run b).2 := by
  rw [prepare_eq]
  split
  case isTrue => exact .inl ⟨rfl, .skipped, Ends.count (.of_eq rfl rfl) nofun rfl rfl⟩
  case isFalse =>
    have hreuse : b.Ends [] ((c.reusing i).run b).2 := .of_eq rfl rfl
    generalize (c.reusing i).run b = reused at hreuse
    rcases reused with ⟨_ | r, b₁⟩
    case some =>
      have hemit := hreuse.trans (BuildM.emitUnit_ends c u i r b₁)
      dsimp only
      generalize (c.emitUnit u i r).run b₁ = emitted at hemit
      rcases emitted with ⟨e | ⟨⟩, b₂⟩
      case error => exact .inl ⟨rfl, fail_ends_of hi hemit e⟩
      case ok    => exact .inl ⟨rfl, .cached, hemit.count nofun rfl rfl⟩
    case none =>
      dsimp only
      rcases (render { p with disk := b₁.workspace.disk }
        (Role.of b.session.preprocessors (i.source c.settings i.contents))
        (i.source c.settings i.contents)).on b₁.session with ⟨e | source, t⟩
      all_goals have hsession := hreuse.trans (withSession_ends b₁ t)
      case error => exact .inl ⟨rfl, fail_ends_of hi hsession e⟩
      case ok    => exact .inr ⟨nofun, hsession⟩

theorem finish_ends (hi : u.input? b.files = some i) (prepared : Prepared) :
    ∃ e, b.Ends [(u, e)] ((c.finish p u i prepared).run b).2 := by
  rw [finish_eq]
  rcases (SessionM.scope { p with disk := b.workspace.disk } prepared.source).on b.session with ⟨e | source, t⟩
  all_goals
    have hsession := withSession_ends b t
    dsimp only
  case error => exact fail_ends_of hi hsession e
  case ok =>
    have hemit := hsession.trans
      (BuildM.emitUnit_ends c u i (.ofSource source (c.settings.isClient source.arch)) (b.withSession t))
    generalize (c.emitUnit u i (.ofSource source (c.settings.isClient source.arch))).run (b.withSession t) =
      emitted at hemit
    rcases emitted with ⟨e | ⟨⟩, b₁⟩
    case error => exact fail_ends_of hi hemit e
    case ok =>
      have ⟨_, hread, _⟩ := BuildM.hashes_filled source.references.keys b₁
      dsimp only
      rw [hread]
      exact ⟨.compiled, Ends.count hemit nofun rfl rfl⟩

-- A first pass over units ends some of them, and leaves the others to be scoped.
theorem prepareAll_ends {units : List BuildUnit} (hu : ∀ u ∈ units, u.handle < b.files.length) :
    ∃ ended, b.Ends ended ((c.prepareAll p units).run b).2 ∧
      (ended.map Prod.fst ++ ((c.prepareAll p units).run b).1.map ReadyUnit.unit).Perm units ∧
      ∀ ready : ReadyUnit, ready ∈ ((c.prepareAll p units).run b).1 →
        ready.unit.input? b.files = some ready.input := by
  induction units generalizing b
  case nil => exact ⟨[], .of_eq rfl rfl, .refl _, by rintro _ ⟨⟩⟩
  case cons u units ih =>
    have ⟨i, hi⟩ : ∃ i, u.input? b.files = some i := by
      rw [BuildUnit.input?, List.getElem?_eq_getElem (hu u (.head _))]
      exact ⟨_, rfl⟩
    have hprepare := prepare_ends (c := c) (p := p) hi
    have hlength {ended : List EndedUnit} {b' : BuildState} (h : b.Ends ended b') :
        ∀ u ∈ units, u.handle < b'.files.length := by
      have hl := congrArg List.length h.inputs
      simp only [List.length_map] at hl
      exact fun u hm => hl ▸ hu u (.tail _ hm)
    rw [prepareAll_cons_run, hi]
    dsimp only
    generalize (c.prepare p u i).run b = result at hprepare
    rcases result with ⟨prepared, b'⟩
    rcases hprepare with ⟨hnone, e, hends⟩ | ⟨hsome, hends⟩
    all_goals
      have ⟨ended, hrest, hperm, hready⟩ := ih (hlength hends)
      have hinputs (ready : ReadyUnit) (hm : ready ∈ ((c.prepareAll p units).run b').1) :
          ready.unit.input? b.files = some ready.input :=
        (ready.unit.input?_congr hends.inputs).symm.trans (hready ready hm)
    · cases hnone
      exact ⟨(u, e) :: ended, hends.trans hrest, hperm.cons u, hinputs⟩
    · have ⟨prepared, hp⟩ := Option.ne_none_iff_exists'.1 hsome
      cases hp
      refine ⟨ended, hends.trans hrest, List.perm_middle.trans (hperm.cons u), fun ready hm => ?_⟩
      rcases List.mem_cons.1 hm with rfl | hm
      · exact hi
      · exact hinputs ready hm

-- A second pass ends these.
theorem finishAll_ends {todo : List ReadyUnit}
    (hu : ∀ ready ∈ todo, ready.unit.input? b.files = some ready.input) :
    ∃ ended, b.Ends ended ((c.finishAll p todo).run b).2 ∧ ended.map Prod.fst = todo.map ReadyUnit.unit := by
  induction todo generalizing b
  case nil => exact ⟨[], .of_eq rfl rfl, rfl⟩
  case cons ready todo ih =>
    have ⟨e, hends⟩ := finish_ends (c := c) (p := p) (hu ready (.head _)) ready.2.2
    have ⟨ended, hrest, hunits⟩ := ih (b := ((c.finish p ready.unit ready.input ready.2.2).run b).2)
      fun ready hm => (ready.unit.input?_congr hends.inputs).trans (hu ready (.tail _ hm))
    exact ⟨(ready.unit, e) :: ended, hends.trans hrest, congrArg (ready.unit :: ·) hunits⟩

-- Every unit ends once.
theorem buildUnits_ends {plan : Plan} (hu : ∀ u ∈ plan.units, u.handle < b.files.length) :
    ∃ ended, b.Ends ended ((c.buildUnits plan).run b).2 ∧ (ended.map Prod.fst).Perm plan.units := by
  have ⟨ended, hends, hperm, hready⟩ := prepareAll_ends (c := c) (p := plan.project) hu
  have ⟨ended', hends', hunits⟩ := finishAll_ends (c := c) (p := plan.project)
    fun ready hm => (ready.unit.input?_congr hends.inputs).trans (hready ready hm)
  refine ⟨ended ++ ended', hends.trans hends', ?_⟩
  rw [List.map_append, hunits]
  exact hperm

-- The path under which an included file is known.
def pathOf (c : Compiler) (f : IncludedFile) : String :=
  (Resolver.ofBase c.settings.base).absolute f.path

-- The paths of included files that a build does not know yet.
def newPaths (c : Compiler) (files : List HostFile) (found : List IncludedFile) : Finset String :=
  (found.map c.pathOf).toFinset \ (c.registered files).sources.keys.toFinset

-- What there is to build: the files that are kept, and the included ones that are not known yet.
def unitsOf (c : Compiler) (files : List HostFile) (found : List IncludedFile) : List BuildUnit :=
  (c.kept files).map .host ++
    (c.newFiles (c.registered files).sources.keys found).map (.included · ((c.kept files).head?.getD 0))

theorem length_newFiles (known : List String) (found : List IncludedFile) :
    (c.newFiles known found).length = ((found.map c.pathOf).toFinset \ known.toFinset).card := by
  induction found generalizing known
  case nil => simp [newFiles]
  case cons f found ih =>
    have hnew : c.newFiles known (f :: found) =
      if known.contains (c.pathOf f) then c.newFiles known found
      else f :: c.newFiles (c.pathOf f :: known) found := rfl
    rw [hnew, List.map_cons, List.toFinset_cons]
    split
    case isTrue hm =>
      rw [ih, Finset.insert_sdiff_of_mem _ (List.mem_toFinset.2 (List.contains_iff_mem.1 hm))]
    case isFalse hm =>
      rw [List.contains_iff_mem] at hm
      have hsplit : insert (c.pathOf f) (found.map c.pathOf).toFinset \ known.toFinset =
          insert (c.pathOf f) ((found.map c.pathOf).toFinset \ (c.pathOf f :: known).toFinset) := by
        ext path
        simp only [Finset.mem_sdiff, Finset.mem_insert, List.toFinset_cons, List.mem_toFinset]
        by_cases he : path = c.pathOf f
        · simp [he, hm]
        · simp [he]
      rw [List.length_cons, ih, hsplit, Finset.card_insert_of_notMem (by simp)]

theorem length_unitsOf (files : List HostFile) (found : List IncludedFile) :
    (c.unitsOf files found).length = (c.kept files).length + (c.newPaths files found).card := by
  simp [unitsOf, newPaths, length_newFiles]

-- The plan of a build in the terms of its files.
theorem plan_units {disk : Disk} {files : List HostFile} {plan : Plan} (h : c.plan disk files = .ok plan) :
    ∃ found log, c.discover disk (c.kept files).head? = .ok (found, log) ∧
      plan.units = c.unitsOf files found ∧ plan.skipped = files.length - (c.kept files).length := by
  unfold Compiler.plan at h
  dsimp only at h
  cases hs : c.startSession disk ((files.head?.map (·.arch)).getD c.settings.options.clientArch)
  all_goals rw [hs] at h
  case error => cases h
  case ok start =>
    have ⟨_, preprocessors, _, hstart⟩ := startSession_eq hs
    rw [kept]
    dsimp only [bind, Except.bind] at h
    split at h
    case h_1 => cases h
    case h_2 found hd =>
      cases h
      refine ⟨found.1, found.2, hd, ?_, rfl⟩
      dsimp only
      rw [congrArg Session.registry hstart]
      rfl

-- There is a file for every unit to be handed back with: without one, nothing is included.
theorem handle_lt {disk : Disk} {files : List HostFile} {found : List IncludedFile} {log : Log}
    (h : c.discover disk (c.kept files).head? = .ok (found, log)) :
    ∀ u ∈ c.unitsOf files found, u.handle < files.length := by
  intro u hu
  rcases List.mem_append.1 hu with hu | hu
  case inl =>
    have ⟨n, hn, he⟩ := List.mem_map.1 hu
    exact he ▸ lt_of_mem_kept hn
  case inr =>
    have ⟨f, hf, he⟩ := List.mem_map.1 hu
    subst he
    cases hk : c.kept files
    case cons n rest =>
      have hn : n ∈ c.kept files := hk ▸ List.mem_cons_self
      exact lt_of_mem_kept hn
    case nil =>
      rw [hk] at h
      unfold discover at h
      dsimp only [List.head?_nil] at h
      split at h
      all_goals
        cases h
        cases hf

end Compiler

namespace BuildReport

-- How many units have ended in a way.
theorem foldl_count (ended : List EndedUnit) (r : BuildReport) :
    ended.foldl (fun r u => r.count u.2) r =
      { compiled := r.compiled + ended.countP (·.2 = .compiled)
        cached   := r.cached + ended.countP (·.2 = .cached)
        skipped  := r.skipped + ended.countP (·.2 = .skipped)
        failed   := r.failed + (ended.filterMap (·.2.failure?)).length
        failures := r.failures ++ ended.filterMap (·.2.failure?) } := by
  induction ended generalizing r
  case nil => simp
  case cons u ended ih =>
    rw [List.foldl_cons, ih]
    rcases u with ⟨u, _ | _ | _ | e⟩ <;> simp [count, Ending.failure?] <;> omega

end BuildReport

namespace Compiler

variable {c : Compiler}

-- A report, and the errors that are handed back with files, account for how all units have ended.
structure Accounts (c : Compiler) (files : List HostFile) (found : List IncludedFile) (ended : List EndedUnit)
    (report : BuildReport) (files' : List HostFile) : Prop where
  units    : (ended.map Prod.fst).Perm (c.unitsOf files found)
  compiled : report.compiled = ended.countP (·.2 = .compiled)
  cached   : report.cached = ended.countP (·.2 = .cached)
  skipped  : report.skipped = files.length - (c.kept files).length + ended.countP (·.2 = .skipped)
  failed   : report.failed = report.failures.length
  failures : report.failures = ended.filterMap (·.2.failure?)
  total    : report.compiled + report.cached + report.skipped + report.failed =
    files.length + (c.newPaths files found).card
  places   : ∀ u e, (u, .failed e) ∈ ended → (u.input? files).map (·.place) = some e.sourcePath
  errors n : errorsAt files' n = (errorsAt files n).map (· ++ ended.flatMap (·.errorsAt n))

theorem length_ended (ended : List EndedUnit) :
    ended.countP (·.2 = .compiled) + ended.countP (·.2 = .cached) + ended.countP (·.2 = .skipped) +
      (ended.filterMap (·.2.failure?)).length = ended.length := by
  induction ended
  case nil => rfl
  case cons u ended ih =>
    rw [List.filterMap_cons]
    generalize ended.filterMap (·.2.failure?) = failures at ih
    rcases u with ⟨u, _ | _ | _ | e⟩ <;> simp [Ending.failure?] <;> omega

theorem accounts_of_ends {b b' : BuildState} {found : List IncludedFile} {ended : List EndedUnit}
    (h : b.Ends ended b') (hreport : b.report = { skipped := b.files.length - (c.kept b.files).length })
    (hunits : (ended.map Prod.fst).Perm (c.unitsOf b.files found)) :
    c.Accounts b.files found ended b'.report b'.files := by
  have hcount := h.report
  rw [BuildReport.foldl_count, hreport] at hcount
  have htotal := hunits.length_eq
  have hkept : (c.kept b.files).length ≤ b.files.length := by
    simpa [kept] using List.length_filter_le (fun n => b.files[n]?.any fun f => c.settings.keeps f.place)
      (List.range b.files.length)
  rw [List.length_map, ← length_ended, length_unitsOf] at htotal
  rw [hcount]
  exact {
    units    := hunits
    compiled := Nat.zero_add _
    cached   := Nat.zero_add _
    skipped  := rfl
    failed   := by simp
    failures := List.nil_append _
    total    := by dsimp only; omega
    places   := h.places
    errors   := h.errors }

-- A build either fails before anything is built, and leaves the files, and the cache but for one that
-- is not to be used, as they are, or it accounts for every unit.
theorem build_accounts (c : Compiler) (w : Workspace) (files : List HostFile) :
    match c.build w files with
    | (.error _, files', w')  => files' = files ∧ w' = if c.settings.options.caching then w else w.forgetAll
    | (.ok report, files', _) => ∃ found log ended,
      c.discover (c.startCache w).disk (c.kept files).head? = .ok (found, log) ∧
        c.Accounts files found ended report files' := by
  unfold build
  dsimp only
  cases hp : c.plan (c.startCache w).disk files
  case error => exact ⟨rfl, rfl⟩
  case ok plan =>
    have ⟨found, log, hfound, hunits, hskipped⟩ := plan_units hp
    dsimp only
    generalize hb : BuildState.mk _ plan.session files _ = b
    have hfiles : b.files = files := hb ▸ rfl
    subst hfiles
    have ⟨ended, hends, hperm⟩ := buildUnits_ends (c := c) (b := b) fun u hu =>
      handle_lt hfound u (hunits ▸ hu)
    refine ⟨found, log, ended, hfound, accounts_of_ends hends ?_ (hunits ▸ hperm)⟩
    rw [← hskipped, ← hb]

end Compiler

end ScopedCss
