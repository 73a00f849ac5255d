import ScopedCss.Log
import ScopedCss.Path.Resolver
import ScopedCss.Preprocessing.Basic

/-!
What is known in the middle of a build: the files, the preprocessors, and for each path whether it
is being scoped or has been.
-/

namespace ScopedCss

/-- The result of scoping a file. -/
structure ScopedModule where
  css : String
  tokens : Tokens
  sourceMap : Option Json
  /-- What it is composed of, as written. -/
  imports : List String
  /-- The files that it is composed of, directly or through others. -/
  importTree : List String
deriving Repr

/-- A file has a slot while it is being scoped, and once it is done. -/
inductive Slot
  | pending
  | done (result : ScopedModule)
deriving Repr

/-- A file that is composed of, as written and by its path. -/
structure ImportRecord where
  specifier : String
  path : String
deriving DecidableEq, Repr

structure Session where
  registry : Registry
  preprocessors : List Preprocessor
  slots : Dict Slot
  imports : Dict (List ImportRecord)
  /-- The files that are being scoped, outermost first. -/
  chain : List String
  /-- The files whose text has been scoped to its end, one entry for each time. -/
  completed : List String
  log : Log

/-- What a build does not change. -/
structure Project where
  disk : Disk
  settings : Settings
  naming : Naming

namespace Project

def make (disk : Disk) (settings : Settings) : Except Error Project := do
  let naming ← Naming.make settings.base settings.replacements settings.options.template
  pure ⟨disk, settings, naming⟩

def resolver (p : Project) : Resolver :=
  .ofBase p.settings.base

end Project

namespace Session

def start (registry : Registry) (preprocessors : List Preprocessor) : Session where
  registry := registry
  preprocessors := preprocessors
  slots := ∅
  imports := ∅
  chain := []
  completed := []
  log := []

/-- The result for a path, if it is done. -/
def resultOf (s : Session) (path : String) : Option ScopedModule :=
  match s.slots.get? path with
  | some (.done result) => some result
  | _ => none

def importsOf (s : Session) (path : String) : List ImportRecord :=
  (s.imports.get? path).getD []

def enter (s : Session) (path : String) : Session :=
  { s with slots := s.slots.insert path .pending, chain := s.chain ++ [path] }

/-- A file that fails leaves no slot. -/
def leave (s : Session) (path : String) (result : Except Error ScopedModule) : Session :=
  let slots := match result with
    | .ok r => s.slots.insert path (.done r)
    | .error _ => s.slots.erase path
  { s with slots, chain := s.chain.dropLast }

end Session

/-- Actions in a build. What they did before an error stays done. -/
abbrev SessionM := ExceptT Error (StateM Session)

/-- Runs to its end, also after an error. -/
def SessionM.attempt {α : Type} (act : SessionM α) : SessionM (Except Error α) :=
  ExceptT.lift act.run

end ScopedCss
