import ScopedCss.Error

/-!
What can be wrong with a style sheet that is to be scoped.
-/

namespace ScopedCss.Scoping

inductive Fault
  | unterminatedComment
  | unterminatedString
  | unclosedBlock
  | unexpectedBrace
  | unclosedParenthesis
  | composesNotAllowed
  | composesNothing
  | undefinedClass (name : String)
  | missingClass (name specifier : String)
deriving DecidableEq, Repr

namespace Fault

def message : Fault → String
  | unterminatedComment => "Unterminated comment"
  | unterminatedString => "Unterminated string"
  | unclosedBlock => "Unclosed block: expected '\x7d'"
  | unexpectedBrace => "Unexpected '\x7d'"
  | unclosedParenthesis => "Unclosed parenthesis in selector"
  | composesNotAllowed =>
    "composes is only allowed in rules whose selectors are single local classes"
  | composesNothing => "composes needs at least one class name"
  | undefinedClass name => s!"composes: class '{name}' is not defined in this file"
  | missingClass name specifier => s!"composes: class '{name}' not found in '{specifier}'"

def toError (fault : Fault) (file : String) (pos : Position) : Error :=
  .transform .modules file pos fault.message

end Fault

end ScopedCss.Scoping
