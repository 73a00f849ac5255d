import ScopedCss.Dict
import ScopedCss.Json.Basic
import ScopedCss.Path.Basic
import ScopedCss.Scoping.Plan
import ScopedCss.Text.Cut

/-!
Carrying out the steps of a style sheet: local names are replaced, every local name is exported,
and composed classes are added to the exports. In the source map (version 3) every line of the
output stands for the same line of the input.
-/

namespace ScopedCss

def lineMappings (lines : Nat) : String :=
  .ofList ("AAAA".toList ++ (List.replicate (lines - 1) ";AACA".toList).flatten)

def lineSourceMap (file css : String) : Json :=
  .object
    [("file", .string (Path.basename file)),
      ("mappings", .string (lineMappings (Text.lineCount css.toList))),
      ("names", .array []),
      ("sources", .array [.string file]),
      ("version", .ofNat 3)]

/-- Exported names: each local name with its own scoped name and then the names composed into it,
separated by single spaces. -/
abbrev Tokens := Dict String

structure ScopedSheet where
  css : String
  tokens : Tokens
  sourceMap : Option Json
deriving Repr

namespace Scoping

/-- Output and exports after some of the steps, and the exports of other files asked for so far. -/
structure Progress where
  css : String
  exports : Dict (List String)
  imported : Dict Tokens

namespace Progress

def start : Progress where
  css := ""
  exports := ∅
  imported := ∅

def write (p : Progress) (s : List Char) : Progress :=
  { p with css := p.css ++ .ofList s }

/-- The scoped name of a local name, written and exported under the local one. -/
def writeName (p : Progress) (own full : String) : Progress :=
  { p with
    css := p.css ++ full
    exports := if p.exports.contains own then p.exports else p.exports.insert own [full] }

def endsInBlank (p : Progress) : Bool :=
  match p.css.toList.getLast? with
  | some c => Text.isBlank c
  | none => true

/-- The classes `targets` with further names. -/
def addNames (p : Progress) (targets names : List String) : Progress :=
  { p with
    exports := targets.foldl (fun exports target =>
      match exports.get? target with
      | some own => exports.insert target (own ++ names)
      | none => exports) p.exports }

end Progress

/-- The names that each of `names` stands for, in order, or the first that stands for none. -/
def expandNames (lookup : String → Option (List String)) : List String → Except String (List String)
  | [] => pure []
  | name :: rest =>
    match lookup name with
    | none => throw name
    | some found => (found ++ ·) <$> expandNames lookup rest

variable {m : Type → Type} [Monad m]

/-- The exports of the file that a specifier names; each specifier is resolved once. -/
def importTokens (resolve : String → ExceptT Error m Tokens) (specifier : String) (p : Progress) :
    ExceptT Error m (Tokens × Progress) :=
  match p.imported.get? specifier with
  | some tokens => pure (tokens, p)
  | none => do
    let tokens ← resolve specifier
    pure (tokens, { p with imported := p.imported.insert specifier tokens })

def compose (file : String) (resolve : String → ExceptT Error m Tokens)
    (targets names : List String) (source : ComposesSource) (pos : Position) (p : Progress) :
    ExceptT Error m Progress :=
  match source with
  | .everywhere => pure (p.addNames targets names)
  | .sameFile =>
    match expandNames p.exports.get? names with
    | .ok found => pure (p.addNames targets found)
    | .error name => throw ((Fault.undefinedClass name).toError file pos)
  | .file specifier => do
    let (tokens, p) ← importTokens resolve specifier p
    let wordsOf (name : String) : Option (List String) :=
      (tokens.get? name).map fun value => (Text.words value.toList).map String.ofList
    match expandNames wordsOf names with
    | .ok found => pure (p.addNames targets found)
    | .error name => throw ((Fault.missingClass name specifier).toError file pos)

def runStep (file : String) (rename : String → Except Error String)
    (resolve : String → ExceptT Error m Tokens) (p : Progress) :
    Step → ExceptT Error m Progress
  | .text s => pure (p.write s)
  | .gap s => pure (if p.endsInBlank then p else p.write s)
  | .name _ n =>
    match rename n with
    | .ok full => pure (p.writeName n full)
    | .error e => throw e
  | .compose targets names source pos => compose file resolve targets names source pos p
  | .fail fault pos => throw (fault.toError file pos)

def runSteps (file : String) (rename : String → Except Error String)
    (resolve : String → ExceptT Error m Tokens) :
    List Step → Progress → ExceptT Error m Progress
  | [], p => pure p
  | step :: steps, p => do
    let p ← runStep file rename resolve p step
    runSteps file rename resolve steps p

/-- A style sheet with its local names replaced. `rename` gives the scoped name of a local one, and
`resolve` the exports of the file that a specifier names. -/
def scope (css file : String) (rename : String → Except Error String)
    (resolve : String → ExceptT Error m Tokens) : ExceptT Error m ScopedSheet := do
  let p ← runSteps file rename resolve (plan css) .start
  pure
    { css := p.css
      tokens := p.exports.mapValues fun _ names => " ".intercalate names
      sourceMap := some (lineSourceMap file p.css) }

end Scoping

end ScopedCss
