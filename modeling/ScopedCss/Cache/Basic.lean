import ScopedCss.Cache.Entry
import ScopedCss.Digest.Md5
import ScopedCss.Log

/-!
The cache from one build to the next. With a folder, every entry is also a file there, from which it
is read when it is asked for and not in memory.
-/

namespace ScopedCss

structure BuildCache where
  entries : Dict CacheEntry
  folder : Option String
deriving Repr

/-- What outlives a build. -/
structure Workspace where
  disk : Disk
  cache : BuildCache
  log : Log

namespace Workspace

/-- An empty cache that is kept in memory. -/
def inMemory (disk : Disk) : Workspace where
  disk := disk
  cache := ⟨∅, none⟩
  log := []

/-- Changes to a cache in a folder, of which nothing is in memory yet. -/
def openCache (w : Workspace) (folder : String) : Except Error Workspace :=
  match w.disk.createFolders folder with
  | .ok disk => pure { w with disk, cache := ⟨∅, some folder⟩ }
  | .error fault => throw (.io fault)

def warn (w : Workspace) (text : String) : Workspace :=
  { w with log := w.log ++ [⟨.warning, text⟩] }

/-- The file of the entry for a path. -/
def entryFile? (w : Workspace) (path : String) : Option String :=
  w.cache.folder.map fun folder => Path.join folder (fingerprint path ++ ".json")

def removeFile (w : Workspace) (file : String) : Workspace :=
  match w.disk.remove file with
  | .ok disk => { w with disk }
  | .error _ => w

def setEntries (w : Workspace) (entries : Dict CacheEntry) : Workspace :=
  { w with cache := { w.cache with entries } }

/-- Reads the entry for a path from its file. A file that holds no entry is removed. -/
def readEntry (w : Workspace) (path : String) : Option CacheEntry × Workspace :=
  match w.entryFile? path with
  | none => (none, w)
  | some file =>
    match w.disk.read file with
    | .error _ => (none, w)
    | .ok text =>
      match CacheEntry.parse? text with
      | some e => (if e.path = path then some e else none, w)
      | none => (none, (w.warn s!"Discarding corrupt cache entry {file}").removeFile file)

/-- The entry for a path, which is in memory afterwards. -/
def entry (w : Workspace) (path : String) : Option CacheEntry × Workspace :=
  match w.cache.entries.get? path with
  | some e => (some e, w)
  | none =>
    match w.readEntry path with
    | (some e, w) => (some e, w.setEntries (w.cache.entries.insert path e))
    | (none, w) => (none, w)

def writeEntry (w : Workspace) (e : CacheEntry) : Workspace :=
  match w.entryFile? e.path with
  | none => w
  | some file =>
    match w.disk.write file e.write with
    | .ok disk => { w with disk }
    | .error fault => w.warn s!"Unable to write cache entry {file}: {fault.message}"

/-- Keeps an entry in place of the one for its path. -/
def remember (w : Workspace) (e : CacheEntry) : Workspace :=
  let w := w.writeEntry e
  w.setEntries (w.cache.entries.insert e.path e)

def forget (w : Workspace) (path : String) : Workspace :=
  let w := w.setEntries (w.cache.entries.erase path)
  match w.entryFile? path with
  | some file => w.removeFile file
  | none => w

/-- Removes all entries, and all files in the folder that end in `.json`. -/
def forgetAll (w : Workspace) : Workspace :=
  let w := w.setEntries ∅
  match w.cache.folder with
  | none => w
  | some folder =>
    let files := (w.disk.names folder).filter fun name => Path.extension name = ".json"
    files.foldl (fun w name => w.removeFile (Path.join folder name)) w

/-- Whether all files have the fingerprints given. Asking stops at the first that has not. -/
def allCurrent {m : Type → Type} [Monad m] (currentHash : String → m (Option String)) :
    List (String × String) → m Bool
  | [] => pure true
  | (path, hash) :: rest => do
    if (← currentHash path) = some hash then allCurrent currentHash rest else pure false

/-- The result for a path under a key. An entry that some dependency has changed under is removed;
one with another key stays. -/
def reuse {m : Type → Type} [Monad m] (path key : String)
    (currentHash : String → m (Option String)) : StateT Workspace m (Option Compiled) := do
  let (found, w) := (← get).entry path
  set w
  match found with
  | none => pure none
  | some e =>
    if e.key ≠ key then
      pure none
    else if ← liftM (allCurrent currentHash e.dependencies.entries) then
      pure (some e.result)
    else
      modify (·.forget path)
      pure none

end Workspace

/-- The fingerprint of a file, if it can be read. -/
def Disk.hashOf (disk : Disk) (path : String) : Option String :=
  match disk.read path with
  | .ok text => some (fingerprint text)
  | .error _ => none

end ScopedCss
