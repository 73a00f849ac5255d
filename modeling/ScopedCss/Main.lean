import ScopedCss.CommandLine.Run

/-!
The program. The files below the working folder and the project are read, the run is carried out on
them, and what it changed is written back.
-/

namespace ScopedCss.CommandLine

/-- The entries of a folder, or nothing if it is no folder. -/
def entries? (folder : String) : IO (Option (List String)) := do
  try
    let found ← (System.mkFilePath [folder]).readDir
    pure (some (found.toList.map (·.fileName)))
  catch _ => pure none

/-- The text of a file, or nothing if it cannot be read or is no text. -/
def text? (path : String) : IO (Option String) := do
  try
    pure (some (← IO.FS.readFile path))
  catch _ => pure none

/-- Adds what is at a canonical path, and everything below. -/
partial def readTree (disk : Disk) (path : String) : IO Disk := do
  match ← entries? path with
  | some names =>
    let disk := disk.addFolders (Disk.ancestors path ++ [path])
    names.foldlM (fun disk name => readTree disk (Path.join path name)) disk
  | none =>
    match ← text? path with
    | some text => pure (disk.place path text)
    | none => pure disk

/-- The canonical path of what is there, or nothing. -/
def realPath? (path : String) : IO (Option String) := do
  try
    pure (some (toString (← IO.FS.realPath path)))
  catch _ => pure none

/-- The files that a run may read. -/
def readDisk (args : List String) : IO Disk := do
  let cwd := toString (← IO.currentDir)
  let given := match parse args with
    | .ok a => a.given.project.toList ++ a.given.config.toList
    | .error _ => []
  let roots ← given.filterMapM realPath?
  let outside := roots.filter fun root => !Path.isWithin cwd root
  (cwd :: outside).foldlM readTree { Disk.empty with cwd }

/-- Writes back what differs between two states of the disk. -/
def writeChanges (before after : Disk) : IO Unit := do
  for folder in after.folders do
    unless before.folders.contains folder do IO.FS.createDirAll folder
  for (path, text) in after.files.entries do
    unless before.files.get? path = some text do IO.FS.writeFile path text
  for path in before.files.keys do
    unless after.files.contains path do IO.FS.removeFile path

def printedText (ms : Nat) : Printed → String
  | .line text => text
  | .elapsed => s!"   Time: {ms}ms"

def logText (e : LogEntry) : String :=
  match e.level with
  | .error => s!"[ERROR] {e.text}"
  | .warning => s!"[WARN] {e.text}"

end ScopedCss.CommandLine

open ScopedCss.CommandLine in
def main (args : List String) : IO UInt32 := do
  let started ← IO.monoMsNow
  let disk ← readDisk args
  let outcome := run disk args
  writeChanges disk outcome.console.disk
  let elapsed := (← IO.monoMsNow) - started
  for e in outcome.console.log do IO.eprintln (logText e)
  for p in outcome.console.printed do IO.println (printedText elapsed p)
  for text in outcome.failure do IO.eprintln text
  pure outcome.exitCode.toUInt32
