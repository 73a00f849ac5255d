import ScopedCss.Proofs.Build.First

namespace ScopedCss

open SessionM

namespace Compiler

variable {c : Compiler} {p : Project} {disk : Disk} {f f' : HostFile} {b : BuildState} {role : Role}
  {source source' : Source} {s t : Session}

-- Rendering logs nothing but its failure.
theorem render_log (h : (render p role source).on s = (.ok source', t)) : t.log = s.log := by
  cases role
  case root index =>
    unfold render at h
    rw [render_on] at h
    cases hp : s.preprocessors[index]?
    all_goals
      rw [hp] at h
      obtain ⟨hresult, rfl⟩ := Prod.mk.inj h
    case none => rfl
    case some => exact (congrArg (s.log ++ ·) (Preprocessor.render_log hresult)).trans (List.append_nil _)
  all_goals
    cases h
    rfl

-- What compiling a source comes to, which is rendered first.
def compileOutcome (c : Compiler) (p : Project) (s : Session) (source : Source) : Except Error Compiled :=
  match (render p (Role.of s.preprocessors source) source).on s with
  | (.error e, _)   => .error e
  | (.ok source, t) => c.compiled ((SessionM.scope p source).on t).1

theorem compileText_eq (h : c.startSession disk f.arch = .ok (p, s)) :
    (c.compileText (.inMemory disk) f f.contents true).1 =
      c.compileOutcome p { s with registry := s.registry.insert (f.source c.settings) } (f.source c.settings) := by
  unfold compileText
  rw [startCache_inMemory]
  dsimp only [Workspace.inMemory]
  rw [h]
  have hrun (role : Role) (source : Source) (s : Session) :
      (SessionM.on (do
        let source ← render p role source
        let source ← if true then SessionM.scope p source else pure source
        pure (Compiled.ofSource source (c.settings.isClient source.arch))) s).1 =
      match (render p role source).on s with
      | (.error e, _)   => .error e
      | (.ok source, t) => c.compiled ((SessionM.scope p source).on t).1 := by
    rw [on_bind]
    rcases (render p role source).on s with ⟨e | source, t⟩
    case error => rfl
    case ok =>
      dsimp only
      rw [if_pos rfl, on_bind]
      rcases (SessionM.scope p source).on t with ⟨e | source, t⟩ <;> rfl
  exact hrun _ _ _

theorem plan_single (disk : Disk) (hi : c.settings.options.includedFolders = []) (hk : c.settings.keeps f.place = true) :
    c.plan disk [f] = (c.startSession disk f.arch).map fun (project, session) => {
      units   := [.host 0]
      project
      session := { session with registry := session.registry.insert (f.source c.settings) }
      skipped := 0
      log     := [] } := by
  unfold plan discover
  rw [hi]
  have hkept : (List.range [f].length).filter (fun n => [f][n]?.any fun f => c.settings.keeps f.place) = [0] := by
    simp [hk]
  dsimp only
  rw [hkept]
  change (do let (project, session) ← c.startSession disk f.arch; _) = _
  cases c.startSession disk f.arch <;> rfl

-- Hands the artifacts of an outcome over with a file, if there are any.
def handOver (c : Compiler) (f : HostFile) : Except Error Compiled → Except Error Unit × HostFile
  | .error e => (.error e, f)
  | .ok r    => c.emit f.arch r f

-- What a build of one file comes to where this is what its artifacts are handed over with: an error is handed
-- over as well, and either is reported.
inductive Settles (f : HostFile) : Except Error Unit × HostFile → BuildReport → HostFile → Prop
  | compiled {f' : HostFile} : Settles f (.ok (), f') { compiled := 1 } f'
  | failed {e : Error} {f' : HostFile} :
    Settles f (.error e, f') { failed := 1, failures := [⟨e.message, f.place⟩] } (f'.addError ⟨e.message, f.place⟩)

-- A build of one file that has come this far.
def Settled (f : HostFile) (handed : Except Error Unit × HostFile) (b : BuildState) : Prop :=
  ∃ f', b.files = [f'] ∧ Settles f handed b.report f'

theorem fail_settled (hf : b.files = [f']) (hr : b.report = {}) (e : Error) :
    Settled f (.error e, f') ((BuildM.fail (.host 0) (.ofHost f) e).run b).2 := by
  refine ⟨f'.addError ⟨e.message, f.place⟩, ?_, ?_⟩
  case refine_1 => rw [BuildM.fail_files e (n := 0) (f := f') (by rw [hf]; rfl), hf]; rfl
  case refine_2 =>
    have hreport : ((BuildM.fail (.host 0) (.ofHost f) e).run b).2.report =
      { b.report with failed := b.report.failed + 1, failures := b.report.failures ++ [⟨e.message, f.place⟩] } := rfl
    rw [hreport, hr]
    exact .failed

theorem emitUnit_single (hf : b.files = [f]) (r : Compiled) :
    (c.emitUnit (.host 0) (.ofHost f) r).run b =
      ((c.emit f.arch r f).1, { b with files := [(c.emit f.arch r f).2] }) := by
  cases b
  cases hf
  exact BuildM.emitUnit_run

theorem finish_settled (prepared : Prepared) (hf : b.files = [f]) (hr : b.report = {}) (hd : b.workspace.disk = p.disk) :
    Settled f (c.handOver f (c.compiled ((SessionM.scope p prepared.source).on b.session).1))
      ((c.finish p (.host 0) (.ofHost f) prepared).run b).2 := by
  rw [finish_eq, hd]
  rcases (SessionM.scope p prepared.source).on b.session with ⟨e | source, t⟩
  case error => exact fail_settled hf hr e
  case ok =>
    dsimp only
    have hhanded : c.handOver f (c.compiled (.ok source)) =
      c.emit f.arch (.ofSource source (c.settings.isClient source.arch)) f := rfl
    rw [emitUnit_single (b := b.withSession t) hf, hhanded]
    rcases c.emit f.arch (.ofSource source (c.settings.isClient source.arch)) f with ⟨e | ⟨⟩, f'⟩
    case error =>
      have hfiles : { b.withSession t with files := [f'] }.files = [f'] := rfl
      exact fail_settled hfiles hr e
    case ok =>
      have ⟨registry, he, _⟩ := BuildM.hashes_filled source.references.keys { b.withSession t with files := [f'] }
      have hreport : (b.withSession t).report = {} := hr
      dsimp only
      rw [he]
      dsimp only
      rw [hreport]
      exact ⟨f', rfl, .compiled⟩

-- Where nothing is cached, a file is rendered, unless that fails.
theorem prepare_single (h : Fresh p b) (hlog : b.session.log = [])
    (hrole : Role.of b.session.preprocessors (f.source c.settings) ≠ .partialFile) :
    (c.prepare p (.host 0) (.ofHost f)).run b =
      match (render p (Role.of b.session.preprocessors (f.source c.settings)) (f.source c.settings)).on b.session with
      | (.ok source, t) => (some ⟨source, c.keyFor (.ofHost f)⟩,
        { b with session := t, workspace := { b.workspace with log := b.workspace.log ++ [] } })
      | (.error e, t)   => (none, ((BuildM.fail (.host 0) (.ofHost f) e).run (b.withSession t)).2) := by
  have hsource : (Input.ofHost f).source c.settings (Input.ofHost f).contents = f.source c.settings := rfl
  have hproject : { p with disk := b.workspace.disk } = p := by rw [h.disk]
  rw [prepare_eq, h.reusing, hsource, if_neg hrole]
  dsimp only
  rw [hproject]
  rcases hrun : (render p (Role.of b.session.preprocessors (f.source c.settings)) (f.source c.settings)).on b.session
    with ⟨e | source, t⟩
  case error => rfl
  case ok =>
    -- A build takes what a session has logged out of it after each step. Here there is nothing to take out.
    have ht : t.log = [] := (render_log hrun).trans hlog
    dsimp only
    rw [BuildState.withSession, ht, ← ht]

theorem buildUnits_settled {plan : Plan} (h : Fresh p b) (hlog : b.session.log = [])
    (hrole : Role.of b.session.preprocessors (f.source c.settings) ≠ .partialFile) (hf : b.files = [f])
    (hr : b.report = {}) (hu : plan.units = [.host 0]) (hp : plan.project = p) :
    Settled f (c.handOver f (c.compileOutcome p b.session (f.source c.settings))) ((c.buildUnits plan).run b).2 := by
  have hrun : (c.buildUnits plan).run b =
    (c.finishAll p ((c.prepareAll p [.host 0]).run b).1).run ((c.prepareAll p [.host 0]).run b).2 := by
    rw [buildUnits, hu, hp]
    rfl
  have hinput : (BuildUnit.host 0).input? b.files = some (.ofHost f) := by
    rw [hf]
    rfl
  rw [hrun, prepareAll_cons_run, hinput]
  dsimp only
  rw [prepare_single h hlog hrole, compileOutcome]
  rcases (render p (Role.of b.session.preprocessors (f.source c.settings)) (f.source c.settings)).on b.session
    with ⟨e | source, t⟩
  case error => exact fail_settled (b := b.withSession t) hf hr e
  case ok =>
    let b' : BuildState := { b with session := t, workspace := { b.workspace with log := b.workspace.log ++ [] } }
    have hdisk : b'.workspace.disk = p.disk := h.disk
    exact finish_settled ⟨source, c.keyFor (.ofHost f)⟩ hf hr hdisk

theorem Settles.artifacts {handed : Except Error Unit × HostFile} {report : BuildReport}
    (h : Settles f handed report f') : f'.sheets = handed.2.sheets ∧ f'.scripts = handed.2.scripts := by
  cases h <;> exact ⟨rfl, rfl⟩

-- What is compiled in memory and handed over is what a build of the file hands over. It fails where the build does
-- not start, or where the file is counted as failed.
theorem build_agrees (disk : Disk) (hi : c.settings.options.includedFolders = []) (hk : c.settings.keeps f.place = true)
    (hr : ∀ preprocessors, Preprocessor.ofSettings c.settings c.renderers = .ok preprocessors →
      Role.of preprocessors (f.source c.settings) ≠ .partialFile) :
    let alone := (c.compileText (.inMemory disk) f f.contents true).1
    let built := c.build (.inMemory disk) [f]
    match c.startSession disk f.arch with
    | .error e => alone = .error e ∧ built.1 = .error e
    | .ok _    => ∃ report f', built.1 = .ok report ∧ built.2.1 = [f'] ∧
      f'.sheets = (c.handOver f alone).2.sheets ∧ f'.scripts = (c.handOver f alone).2.scripts ∧
      Settles f (c.handOver f alone) report f' := by
  intro alone built
  have hplan := plan_single disk hi hk
  cases hs : c.startSession disk f.arch
  all_goals rw [hs] at hplan
  case error e =>
    refine ⟨?_, ?_⟩
    case refine_1 =>
      unfold alone compileText
      rw [startCache_inMemory]
      dsimp only [Workspace.inMemory]
      rw [hs]
    case refine_2 =>
      unfold built build
      rw [startCache_inMemory]
      dsimp only [Workspace.inMemory]
      rw [hplan]
      rfl
  case ok start =>
    have ⟨p, s⟩ := start
    have ⟨_, preprocessors, hpre, hstart⟩ := startSession_eq hs
    subst hstart
    let b : FirstBuild := ⟨c, disk, [f], _, hplan⟩
    have hsettled : Settled f (c.handOver f alone) b.final := by
      unfold alone
      rw [compileText_eq hs]
      exact buildUnits_settled b.start_fresh rfl (hr preprocessors hpre) rfl rfl rfl rfl
    have hbuilt : built = (.ok b.final.report, b.final.files, b.final.workspace) := b.build_eq
    have ⟨f', hfiles, hsettles⟩ := hsettled
    rw [hbuilt]
    exact ⟨_, f', rfl, hfiles, hsettles.artifacts.1, hsettles.artifacts.2, hsettles⟩

def sassCompiler : Compiler :=
  { bare with settings := { bare.settings with sass := .enabled true } }

def sassFile : HostFile :=
  .ofText "a.scss" "web.browser" "$accent: red; .a \x7b color: $accent \x7d"

theorem build_agrees_sass :
    sassCompiler.settings.options.includedFolders = [] ∧ sassCompiler.settings.keeps sassFile.place = true ∧
    (∀ preprocessors, Preprocessor.ofSettings sassCompiler.settings sassCompiler.renderers = .ok preprocessors →
      Role.of preprocessors (sassFile.source sassCompiler.settings) ≠ .partialFile) ∧
    ∃ report f', (sassCompiler.build (.inMemory .empty) [sassFile]).1 = .ok report ∧
      (sassCompiler.build (.inMemory .empty) [sassFile]).2.1 = [f'] ∧
      Settles sassFile (sassCompiler.handOver sassFile
        (sassCompiler.compileText (.inMemory .empty) sassFile sassFile.contents true).1) report f' := by
  have hi : sassCompiler.settings.options.includedFolders = [] := rfl
  have hk : sassCompiler.settings.keeps sassFile.place = true := by decide
  have hr (preprocessors) (h : Preprocessor.ofSettings sassCompiler.settings sassCompiler.renderers =
      .ok preprocessors) : Role.of preprocessors (sassFile.source sassCompiler.settings) ≠ .partialFile := by
    cases h
    decide
  have hs : ∃ start, sassCompiler.startSession .empty sassFile.arch = .ok start := ⟨_, rfl⟩
  have hagrees := build_agrees .empty hi hk hr
  have ⟨start, hs⟩ := hs
  rw [hs] at hagrees
  have ⟨report, f', hreport, hfiles, _, _, hsettles⟩ := hagrees
  exact ⟨hi, hk, hr, report, f', hreport, hfiles, hsettles⟩

end Compiler

end ScopedCss
