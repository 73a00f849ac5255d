import ScopedCss.Disk
import ScopedCss.Text.Position

/-!
Everything that can go wrong, and the text that reports it.
-/

namespace ScopedCss

/-- The stages that turn one stylesheet text into another. -/
inductive Stage
  | sass
  | stylus
  | less
  | modules
deriving DecidableEq, Repr

def Stage.title : Stage → String
  | sass => "Sass compilation"
  | stylus => "Stylus compilation"
  | less => "Less compilation"
  | modules => "CSS modules compilation"

inductive Error
  | io (fault : DiskFault)
  | resolution (specifier reason : String) (tried : List String)
  | transform (stage : Stage) (file : String) (pos : Position) (reason : String)
  | missingDependency (feature dependency : String)
  | scopeGeneration (file name reason : String)
  | unregistered (kind name : String)
  | discovery (path reason : String)
  | fileNotFound (path : String)
  | invalidFormat (reason : String)
  | buildFailed (failed : Nat)
deriving DecidableEq, Repr

namespace Error

def triedText (tried : List String) : String :=
  if tried.isEmpty then "" else " (tried:" ++ String.join (tried.map (" " ++ ·)) ++ ")"

def message : Error → String
  | io fault => s!"IO error: {fault.message}"
  | resolution specifier reason tried =>
    s!"Unable to resolve '{specifier}': {reason}{triedText tried}"
  | transform stage file pos reason =>
    s!"{stage.title} error in {file} at line {pos.line}, column {pos.column}: {reason}"
  | missingDependency feature dependency => s!"Missing dependency for {feature}: {dependency}"
  | scopeGeneration file name reason =>
    s!"Scope generation failed for '{name}' in {file}: {reason}"
  | unregistered kind name => s!"No {kind} registered under the name '{name}'"
  | discovery path reason => s!"Discovery error in {path}: {reason}"
  | fileNotFound path => s!"File not found: {path}"
  | invalidFormat reason => s!"Invalid format: {reason}"
  | buildFailed failed => s!"{failed} file(s) failed to compile"

def position? : Error → Option Position
  | transform _ _ pos _ => some pos
  | _ => none

/-- The error as it is in a text without its first `n` lines; no line is before the first. -/
def shiftLines (n : Nat) : Error → Error
  | transform stage file pos reason =>
    transform stage file { pos with line := max (pos.line - n) 1 } reason
  | e => e

@[simp]
theorem position?_shiftLines (n : Nat) (e : Error) :
    (e.shiftLines n).position? = e.position?.map fun p => ⟨max (p.line - n) 1, p.column⟩ := by
  cases e <;> rfl

end Error

end ScopedCss
