import ScopedCss.Error

/-!
What can be wrong with a style sheet in one of the dialects.
-/

namespace ScopedCss.Dialect

inductive Fault
  | unterminatedComment
  | unterminatedString
  | unterminatedInterpolation
  | unclosedBlock
  | unexpectedBrace
  | missingSelector
  | missingImport
  | missingColon (text : String)
  | missingValue (text : String)
  | inconsistentIndentation
  | undefinedVariable (name : String)
  | importTooDeep (specifier : String)
  | unresolvedImport (error : Error)
deriving DecidableEq, Repr

def Fault.message : Fault → String
  | unterminatedComment => "Unterminated comment"
  | unterminatedString => "Unterminated string"
  | unterminatedInterpolation => "Unterminated interpolation"
  | unclosedBlock => "Unclosed block: expected '\x7d'"
  | unexpectedBrace => "Unexpected '\x7d'"
  | missingSelector => "Expected a selector before '\x7b'"
  | missingImport => "Expected a file to import"
  | missingColon text => s!"Expected \"property: value\", found \"{text}\""
  | missingValue text => s!"Expected a property value after \"{text}\""
  | inconsistentIndentation => "Inconsistent indentation"
  | undefinedVariable name => s!"Undefined variable: {name}"
  | importTooDeep specifier => s!"Import of '{specifier}' nests too deeply; is there a cycle?"
  | unresolvedImport error => error.message

/-- A fault and its place. -/
structure FaultAt where
  fault : Fault
  pos : Position
deriving DecidableEq, Repr

def FaultAt.toError (f : FaultAt) (stage : Stage) (file : String) : Error :=
  .transform stage file f.pos f.fault.message

end ScopedCss.Dialect
