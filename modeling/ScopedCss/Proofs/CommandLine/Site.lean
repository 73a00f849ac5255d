import ScopedCss.CommandLine.Run
import ScopedCss.Proofs.Disk.Store
import ScopedCss.Proofs.Stateful

namespace ScopedCss.CommandLine

-- Where a build takes place: what is known before the files of the project are looked for.
structure Site where
  project   : String
  out       : String
  workspace : Workspace
  settings  : Settings

variable (g : Given) (disk : Disk)

def site : CommandM Site := do
  let project ← projectFolder g
  let out ← outputFolder g project
  let w ← openWorkspace (if g.noCache then none else some (Path.join project cacheFolder))
  let settings ← loadSettings g project
  pure ⟨project, out, w, settings⟩

-- The steps to it, as far as they depend on the disk.
def projectOn : Except Error String :=
  if disk.isFolder (g.project.getD ".") then (disk.locate (g.project.getD ".")).mapError .io
  else .error (.fileNotFound ("Project directory " ++ g.project.getD "."))

def outputOn (project : String) : String :=
  match g.output with
  | some output => Path.join disk.cwd output
  | none        => Path.join project defaultOutput

def workspaceOn (project : String) : Except Error Workspace :=
  if g.noCache then .ok (.inMemory disk)
  else (Workspace.inMemory disk).openCache (Path.join project cacheFolder)

def optionsOn (project : String) : Except Error Options :=
  match g.config with
  | some path => Options.load disk path
  | none      =>
    if disk.isFile (Path.join project "package.json") then Options.load disk (Path.join project "package.json")
    else .ok {}

def settingsOn (project : String) : Except Error Settings :=
  (optionsOn g disk project).bind (·.settle disk project .builtin)

-- The last of them, once there is a folder for artifacts.
def enterOn (project folder : String) : Except Error Site × Disk :=
  match disk.locate folder with
  | .error fault => (.error (.io fault), disk)
  | .ok out      =>
    match workspaceOn g disk project with
    | .error e => (.error e, disk)
    | .ok w    =>
      match settingsOn g w.disk project with
      | .error e     => (.error e, w.disk)
      | .ok settings => (.ok ⟨project, out, w, settings⟩, w.disk)

def siteOn : Except Error Site × Disk :=
  match projectOn g disk with
  | .error e    => (.error e, disk)
  | .ok project =>
    match disk.createFolders (outputOn g disk project) with
    | .error fault => (.error (.io fault), disk)
    | .ok made     => enterOn g made project (outputOn g disk project)

variable {g disk} {c : Console}

-- What a build comes to once it is known where it takes place.
def Site.compiler (s : Site) : Compiler :=
  ⟨s.settings, .builtin⟩

def Site.inputs (s : Site) (arch : String) : Except Error (List HostFile) :=
  HostFile.scan s.workspace.disk s.project s.settings arch (some s.out)

def Site.artifacts (s : Site) (files : List HostFile) : List (String × String) :=
  files.flatMap (·.outputs s.settings.base s.out)

def Site.build (s : Site) (arch : String) : Except Error BuildReport × Disk :=
  match s.inputs arch with
  | .error e  => (.error e, s.workspace.disk)
  | .ok files =>
    match s.compiler.build s.workspace files with
    | (.error e, _, w)       => (.error e, w.disk)
    | (.ok report, built, w) =>
      match w.disk.storeAll (s.artifacts built) with
      | (.error fault, disk) => (.error (.io fault), disk)
      | (.ok (), disk)       => (.ok report, disk)

-- What is printed of a report.
def summary (r : BuildReport) : List Printed :=
  [.line "\n📊 Build Summary:", .line s!"   Compiled: {r.compiled}", .line s!"   From cache: {r.cached}",
    .line s!"   Skipped: {r.skipped}", .line s!"   Failed: {r.failed}", .elapsed]

theorem orIoError_run {α : Type} (r : Except DiskFault α) (c : Console) :
    (orIoError r).run.run c = (r.mapError .io, c) := by
  cases r <;> rfl

theorem projectFolder_run : (projectFolder g).run.run c = (projectOn g c.disk, c) := by
  unfold projectFolder projectOn
  dsimp only
  rw [Stateful.run_bind_ok (Stateful.run_get c)]
  split
  case isTrue  => exact orIoError_run _ c
  case isFalse => rfl

theorem outputFolder_run (project : String) : (outputFolder g project).run.run c =
    match c.disk.createFolders (outputOn g c.disk project) with
    | .error fault => (.error (.io fault), c)
    | .ok made     => ((made.locate (outputOn g c.disk project)).mapError .io, { c with disk := made }) := by
  unfold outputFolder
  rw [Stateful.run_bind_ok (Stateful.run_get c)]
  change (orIoError (c.disk.createFolders (outputOn g c.disk project)) >>= fun disk => do
    set { c with disk }
    orIoError (disk.locate (outputOn g c.disk project)) : CommandM String).run.run c = _
  rw [Stateful.run_bind, orIoError_run]
  cases c.disk.createFolders (outputOn g c.disk project)
  case error => rfl
  case ok made => exact orIoError_run (made.locate _) { c with disk := made }

theorem openWorkspace_run (project : String) :
    (openWorkspace (if g.noCache then none else some (Path.join project cacheFolder))).run.run c =
      match workspaceOn g c.disk project with
      | .error e => (.error e, c)
      | .ok w    => (.ok w, { c with disk := w.disk }) := by
  unfold openWorkspace workspaceOn
  rw [Stateful.run_bind_ok (Stateful.run_get c)]
  cases g.noCache
  case true => rfl
  case false =>
    change (liftM ((Workspace.inMemory c.disk).openCache (Path.join project cacheFolder)) >>= fun w => do
      set { c with disk := w.disk }
      pure w : CommandM Workspace).run.run c = _
    rw [Stateful.run_bind, Stateful.run_except]
    cases (Workspace.inMemory c.disk).openCache (Path.join project cacheFolder) <;> rfl

theorem loadSettings_run (project : String) :
    (loadSettings g project).run.run c = (settingsOn g c.disk project, c) := by
  unfold loadSettings settingsOn optionsOn
  dsimp only
  rw [Stateful.run_bind_ok (Stateful.run_get c)]
  cases g.config
  case some path =>
    change (liftM (Options.load c.disk path) >>= fun options =>
      liftM (options.settle c.disk project .builtin) : CommandM Settings).run.run c = _
    rw [Stateful.run_bind, Stateful.run_except]
    dsimp only
    cases Options.load c.disk path
    case error => rfl
    case ok    => exact Stateful.run_except _ c
  case none =>
    dsimp only
    split
    case isTrue =>
      change (liftM (Options.load c.disk (Path.join project "package.json")) >>= fun options =>
        liftM (options.settle c.disk project .builtin) : CommandM Settings).run.run c = _
      rw [Stateful.run_bind, Stateful.run_except]
      cases Options.load c.disk (Path.join project "package.json")
      case error => rfl
      case ok    => exact Stateful.run_except _ c
    case isFalse => exact Stateful.run_except _ c

-- Nothing but the disk plays a part, and nothing else is changed.
theorem site_run : (site g).run.run c = ((siteOn g c.disk).1, { c with disk := (siteOn g c.disk).2 }) := by
  unfold site siteOn
  rw [Stateful.run_bind, projectFolder_run]
  cases projectOn g c.disk
  case error => rfl
  case ok project =>
    dsimp only
    rw [Stateful.run_bind, outputFolder_run]
    cases c.disk.createFolders (outputOn g c.disk project)
    case error => rfl
    case ok made =>
      dsimp only
      unfold enterOn
      cases made.locate (outputOn g c.disk project)
      case error => rfl
      case ok out =>
        dsimp only [Except.mapError]
        rw [Stateful.run_bind, openWorkspace_run]
        dsimp only
        cases workspaceOn g made project
        case error => rfl
        case ok w =>
          dsimp only
          rw [Stateful.run_bind, loadSettings_run]
          dsimp only
          cases settingsOn g w.disk project <;> rfl

theorem writeFile_run (path text : String) : (writeFile path text).run.run c =
    ((c.disk.store path text).1.mapError .io, { c with disk := (c.disk.store path text).2 }) := by
  unfold writeFile Disk.store
  rw [Stateful.run_bind_ok (Stateful.run_get c), Stateful.run_bind, orIoError_run]
  cases c.disk.createFolders (Path.dirname path)
  case error => rfl
  case ok made =>
    change (orIoError (made.write path text) >>= fun disk => set { c with disk } : CommandM PUnit).run.run
      { c with disk := made } = _
    rw [Stateful.run_bind, orIoError_run]
    dsimp only
    cases made.write path text <;> rfl

theorem writeFiles_run (l : List (String × String)) : (l.forM fun (path, text) => writeFile path text).run.run c =
    ((c.disk.storeAll l).1.mapError .io, { c with disk := (c.disk.storeAll l).2 }) := by
  induction l generalizing c
  case nil => rfl
  case cons o l ih =>
    obtain ⟨path, text⟩ := o
    change (writeFile path text >>= fun _ => l.forM fun (path, text) => writeFile path text).run.run c = _
    rw [Stateful.run_bind, writeFile_run, Disk.storeAll_cons]
    cases (c.disk.store path text).1
    case error => rfl
    case ok    => exact ih

variable {s : Site}

theorem buildProject_run (arch : String) (hc : c.disk = s.workspace.disk) : ∃ log,
    (buildProject s.settings s.workspace s.project arch (some s.out)).run.run c =
      ((s.build arch).1, { c with disk := (s.build arch).2, log }) := by
  unfold buildProject Site.build
  have hinputs : HostFile.scan s.workspace.disk s.project s.settings arch (some s.out) = s.inputs arch := rfl
  rw [hinputs, Stateful.run_bind, Stateful.run_except]
  cases s.inputs arch
  case error => exact ⟨c.log, by rw [← hc]⟩
  case ok files =>
    have hbuild : (⟨s.settings, .builtin⟩ : Compiler).build s.workspace files = s.compiler.build s.workspace files := rfl
    dsimp only
    rw [hbuild]
    rcases s.compiler.build s.workspace files with ⟨e | report, built, w⟩
    case error => exact ⟨_, rfl⟩
    case ok =>
      refine ⟨c.log ++ w.log, ?_⟩
      change ((s.artifacts built).forM (fun (path, text) => writeFile path text) >>= fun _ => pure report :
        CommandM BuildReport).run.run { c with disk := w.disk, log := c.log ++ w.log } = _
      rw [Stateful.run_bind, writeFiles_run]
      dsimp only
      rcases w.disk.storeAll (s.artifacts built) with ⟨_ | ⟨⟩, _⟩ <;> rfl

theorem printReport_run (r : BuildReport) :
    (printReport r).run.run c = (.ok (), { c with printed := c.printed ++ summary r }) := by
  have hprinted : (printReport r).run.run c =
    (.ok (), { c with printed := c.printed ++ [_] ++ [_] ++ [_] ++ [_] ++ [_] ++ [_] }) := rfl
  rw [hprinted]
  simp [summary]

-- What is printed before a build.
def Site.headline (s : Site) : Printed :=
  .line s!"🔨 Building {s.project} -> {s.out}"

-- How building a project on a disk ends.
def buildOn (g : Given) (disk : Disk) : Except Error BuildReport × Disk :=
  match siteOn g disk with
  | (.error e, disk) => (.error e, disk)
  | (.ok s, _)       => s.build (g.arch.getD defaultArch)

def printedOn (g : Given) (disk : Disk) : List Printed :=
  match (siteOn g disk).1 with
  | .error _ => []
  | .ok s    =>
    s.headline :: match (s.build (g.arch.getD defaultArch)).1 with
      | .error _ => []
      | .ok r    => summary r

theorem siteOn_disk {disk' : Disk} (h : siteOn g disk = (.ok s, disk')) : s.workspace.disk = disk' := by
  unfold siteOn enterOn at h
  repeat' split at h
  all_goals cases h
  rfl

theorem build_run : ∃ log, (build g).run.run c =
    ((buildOn g c.disk).1.bind fun r => if r.succeeded then .ok () else .error (.buildFailed r.failed),
      { disk := (buildOn g c.disk).2, printed := c.printed ++ printedOn g c.disk, log }) := by
  have hbuild : build g = (site g >>= fun s => do
      print s!"🔨 Building {s.project} -> {s.out}"
      let report ← buildProject s.settings s.workspace s.project (g.arch.getD defaultArch) (some s.out)
      printReport report
      unless report.succeeded do throw (.buildFailed report.failed)) := by
    unfold build site
    simp only [bind_assoc, pure_bind]
  have hsite := site_run (g := g) (c := c)
  unfold buildOn printedOn
  rw [hbuild, Stateful.run_bind, hsite]
  rcases hs : siteOn g c.disk with ⟨e | s, disk⟩
  case error => exact ⟨c.log, by simp [Except.bind]⟩
  case ok =>
    have hdisk := siteOn_disk hs
    have ⟨log, hrun⟩ := buildProject_run (g.arch.getD defaultArch)
      (c := { c with disk, printed := c.printed ++ [s.headline] }) hdisk.symm
    refine ⟨log, ?_⟩
    dsimp only
    have hprint : (print s!"🔨 Building {s.project} -> {s.out}").run.run { c with disk } =
      (.ok (), { c with disk, printed := c.printed ++ [s.headline] }) := rfl
    rw [Stateful.run_bind_ok hprint, Stateful.run_bind, hrun]
    cases (s.build (g.arch.getD defaultArch)).1
    case error => rfl
    case ok r =>
      dsimp only
      rw [Stateful.run_bind_ok (printReport_run r)]
      dsimp only
      rw [List.append_assoc]
      cases hr : r.succeeded <;> simp only [Except.bind, hr] <;> rfl

end ScopedCss.CommandLine
