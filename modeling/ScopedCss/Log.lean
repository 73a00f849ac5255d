import ScopedCss.Error

/-!
What a build reports on the side: errors, and warnings about what it goes on without.
-/

namespace ScopedCss

inductive LogLevel
  | error
  | warning
deriving DecidableEq, Repr

structure LogEntry where
  level : LogLevel
  text : String
deriving DecidableEq, Repr

/-- The oldest entry comes first. -/
abbrev Log := List LogEntry

namespace LogEntry

def bannerRule : String :=
  "\n/~~~~~~~~~~~~~~~~~~~~~~~~~~~~~~~~~~~~~"

/-- The entries that show a file failing at a stage. -/
def banner (stage : Stage) (path : String) (e : Error) : Log :=
  let place := match e.position? with
    | some pos => s!"\nLine: {pos.line}, Column: {pos.column}"
    | none => ""
  [bannerRule, s!"Processing Step: {stage.title}",
    s!"Unable to compile {path}{place}\n{e.message}", bannerRule].map (⟨.error, ·⟩)

end LogEntry

end ScopedCss
