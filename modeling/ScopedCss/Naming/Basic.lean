import ScopedCss.Digest.Md5
import ScopedCss.Naming.Template
import ScopedCss.Path.Basic
import ScopedCss.Pattern.Replace
import ScopedCss.Unicode.Word

/-!
Scoped names. They depend on the path of the file and on the local name only. In a path as a part of
a name, what is no word character becomes an underscore.
-/

namespace ScopedCss.Naming

/-- Characters that a name keeps. Underscores separate. -/
def isKept (c : Char) : Bool :=
  Unicode.isWord c && c != '_'

/-- The runs of characters that are kept, with one underscore between them. -/
def sanitize (s : List Char) : List Char :=
  Text.join ['_'] ((Text.splitWhere (!isKept ·) s).filter (· ≠ []))

/-- A path without what follows its last dot, if no slash stands there. -/
def dropExtension (s : List Char) : List Char :=
  match Text.cutLast? (· == '.') s with
  | some (stem, _, c :: rest) => if (c :: rest).any Path.isSeparator then s else stem
  | _ => s

/-- What follows the last `{}/` in the first line. -/
def dropEmptyPackage (s : List Char) : List Char :=
  match s with
  | [] => []
  | c :: rest =>
    if c = '\n' then
      s
    else
      let shorter := dropEmptyPackage rest
      if shorter.length < rest.length then shorter
      else match s with
        | '\x7b' :: '\x7d' :: d :: more => if Path.isSeparator d then more else s
        | _ => s

/-- What follows the last package in braces in the first line. -/
def afterPackage? (s : List Char) : Option (List Char) :=
  match s with
  | [] => none
  | c :: rest =>
    if c = '\n' then
      none
    else
      match afterPackage? rest with
      | some found => some found
      | none =>
        if c = '\x7b' then
          match Text.cut? (fun d => d == '\x7d' || d == '\n') rest with
          | some (_, '\x7d', more) => some more
          | _ => none
        else
          none

/-- A path with its package folded into the word `packages`. -/
def foldPackage (s : List Char) : List Char :=
  match afterPackage? s with
  | some rest => "packages".toList ++ rest
  | none => s

/-- The last segment of a path as a name. -/
def sanitizedName (path : String) : List Char :=
  sanitize (dropExtension (Path.basename path).toList)

/-- A name that ends in the last segment of the path has it behind two underscores. -/
def separateName (name sanitized : List Char) : List Char :=
  if name = [] then
    sanitized
  else
    match Text.dropSuffix? ('_' :: name) sanitized with
    | some head => head ++ '_' :: '_' :: name
    | none => sanitized

end ScopedCss.Naming

namespace ScopedCss

/-- A rule that is applied to every scoped name. -/
structure Replacement where
  pattern : Pattern
  text : String
  all : Bool
deriving DecidableEq, Repr

def Replacement.apply (r : Replacement) (name : String) : String :=
  r.pattern.replace r.all r.text name

/-- How scoped names are made in a project. -/
structure Naming where
  base : String
  replacements : List Replacement
  template : Option Naming.Template
deriving DecidableEq, Repr

namespace Naming

def make (base : String) (replacements : List Replacement) (template : Option String) :
    Except Error Naming := do
  let template ← match template with
    | none => pure none
    | some text =>
      match Template.parse text with
      | .ok parts => pure (some parts)
      | .error fault => throw (.invalidFormat fault.message)
  let base := String.ofList (Text.dropWhileEnd (· == '/') (Path.forwardSlashes base).toList)
  pure ⟨base, replacements, template⟩

/-- A path from the base folder on, or as it is if it lies elsewhere. -/
def relative (n : Naming) (path : List Char) : List Char :=
  match Text.dropPrefix? n.base.toList path with
  | some ('/' :: rest) => rest
  | _ => path

def sanitizedPath (n : Naming) (path : String) : List Char :=
  let path := Path.forwardSlashes path
  let sanitized :=
    sanitize (dropExtension (foldPackage (dropEmptyPackage (n.relative path.toList))))
  separateName (sanitizedName path) sanitized

def shortHash (s : List Char) : List Char :=
  (fingerprint (.ofList s)).toList.take 8

def placeholderValue (n : Naming) (path own : String) : Placeholder → List Char
  | .path => n.sanitizedPath path
  | .name => sanitizedName path
  | .localName => own.toList
  | .hash => shortHash (n.sanitizedPath path)

/-- The name before any rule is applied. -/
def rawName (n : Naming) (own path : String) : String :=
  match n.template with
  | none => .ofList ('_' :: n.sanitizedPath path ++ '_' :: '_' :: own.toList)
  | some parts =>
    .ofList (parts.flatMap fun
      | .literal s => s
      | .placeholder p => n.placeholderValue path own p)

def isValid (name : String) : Bool :=
  name ≠ "" && !name.toList.any Text.isBlank

/-- The scoped name of a local one in the file at `path`. -/
def generate (n : Naming) (own path : String) : Except Error String :=
  let name := n.replacements.foldl (fun name r => r.apply name) (n.rawName own path)
  if isValid name then
    pure name
  else
    throw (.scopeGeneration path own s!"generated name '{name}' is not a valid class name")

end Naming

end ScopedCss
