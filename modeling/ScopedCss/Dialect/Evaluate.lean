import ScopedCss.Dialect.Css
import ScopedCss.Dialect.Node
import ScopedCss.Dialect.Reference
import ScopedCss.Dialect.Selector
import ScopedCss.Dict
import ScopedCss.Text.Quoted

/-!
Evaluating a tree: variables are replaced by their values, nested rules are flattened, and imported
style sheets take the place of their `@import`.
-/

namespace ScopedCss.Dialect

/-- An imported style sheet; its own imports are relative to its canonical path. -/
structure Imported where
  path : String
  source : String
deriving DecidableEq, Repr

/-- Variables with their values, the innermost block first, and the imports left to the browser. -/
structure Env where
  scopes : List (Dict String)
  hoisted : List String

namespace Env

def start : Env where
  scopes := [∅]
  hoisted := []

def lookup (env : Env) (name : String) : Option String :=
  env.scopes.findSome? (·.get? name)

def assignIn (name value : String) (fallback : Bool) :
    List (Dict String) → Option (List (Dict String))
  | [] => none
  | scope :: outer =>
    if scope.contains name then
      some ((if fallback then scope else scope.insert name value) :: outer)
    else
      (assignIn name value fallback outer).map (scope :: ·)

/-- A variable gets its value where it is defined, or in the innermost block. A fallback changes no
variable. -/
def assign (env : Env) (name value : String) (fallback : Bool) : Env :=
  match assignIn name value fallback env.scopes with
  | some scopes => { env with scopes }
  | none =>
    match env.scopes with
    | [] => env
    | scope :: outer => { env with scopes := scope.insert name value :: outer }

def push (env : Env) : Env :=
  { env with scopes := ∅ :: env.scopes }

def pop (env : Env) : Env :=
  { env with scopes := env.scopes.tail }

def hoist (env : Env) (target : String) : Env :=
  { env with hoisted := env.hoisted ++ [target] }

end Env

/-- What a block comes to: its own declarations, and what is nested in it. -/
structure BlockOutput where
  declarations : List String
  items : List CssItem

namespace BlockOutput

def empty : BlockOutput where
  declarations := []
  items := []

def append (a b : BlockOutput) : BlockOutput where
  declarations := a.declarations ++ b.declarations
  items := a.items ++ b.items

def ofDeclaration (d : String) : BlockOutput :=
  { empty with declarations := [d] }

def ofItems (items : List CssItem) : BlockOutput :=
  { empty with items }

/-- The items of a block under these selectors, its own declarations first. -/
def toItems (o : BlockOutput) (selectors : List String) : List CssItem :=
  if o.declarations.isEmpty then o.items else .rule selectors o.declarations :: o.items

end BlockOutput

/-- Targets that are left to the browser. -/
def isPlainImport (target specifier : String) : Bool :=
  Text.startsWith "url(".toList target.toList || Text.endsWith ".css".toList specifier.toList ||
    Text.startsWith "http://".toList specifier.toList ||
    Text.startsWith "https://".toList specifier.toList ||
    Text.startsWith "//".toList specifier.toList

/-- At-rules in which the selectors around them stay in force. -/
def isConditional (name : String) : Bool :=
  ["media", "supports", "document", "container", "layer"].contains name

def atHeader (name params : String) : String :=
  if params = "" then "@" ++ name else "@" ++ name ++ " " ++ params

/-- How a dialect is read and how it refers to variables. -/
structure Grammar where
  stage : Stage
  style : ReferenceStyle
  parse : List Char → Except FaultAt (List Node)

variable {m : Type → Type} [Monad m]

abbrev Eval (m : Type → Type) (α : Type) := ExceptT Error (StateT Env m) α

/-- Includes the file that an import target at this place names under these selectors. -/
abbrev Include (m : Type → Type) :=
  (specifier : String) → (pos : Position) → (selectors : List String) → Eval m BlockOutput

namespace Grammar

def fail (g : Grammar) (file : String) (fault : Fault) (pos : Position) : Error :=
  (FaultAt.mk fault pos).toError g.stage file

def lift (g : Grammar) (file : String) (pos : Position) (f : Values → Except Fault (List Char)) :
    Eval m String := do
  let env ← get
  match f env.lookup with
  | .ok s => pure (.ofList s)
  | .error fault => throw (g.fail file fault pos)

def interpolated (g : Grammar) (file : String) (pos : Position) (s : String) : Eval m String :=
  g.lift file pos fun values => interpolate g.style values s.toList

def substituted (g : Grammar) (file : String) (pos : Position) (s : String) : Eval m String :=
  g.lift file pos fun values => substitute g.style values s.toList

/-- Runs in a block of its own, which is left however the run ends. -/
def inBlock (act : Eval m α) : Eval m α :=
  ExceptT.mk do
    modify Env.push
    let result ← act.run
    modify Env.pop
    pure result

def evalImport (including : Include m) (pos : Position) (selectors : List String) (target : String) :
    Eval m BlockOutput := do
  let specifier := String.ofList (Text.unquote target.toList)
  if isPlainImport target specifier then
    modify (·.hoist target)
    pure .empty
  else
    including specifier pos selectors

def evalImports (including : Include m) (pos : Position) (selectors : List String) :
    List String → Eval m BlockOutput
  | [] => pure .empty
  | target :: rest => do
    let first ← evalImport including pos selectors target
    let others ← evalImports including pos selectors rest
    pure (first.append others)

mutual

/-- A node of `file` under these selectors. -/
def evalNode (g : Grammar) (including : Include m) (file : String) (selectors : List String) :
    Node → Eval m BlockOutput
  | .declaration property value pos => do
    let property ← g.interpolated file pos property
    let value ← g.substituted file pos value
    pure (.ofDeclaration (property ++ ": " ++ value ++ ";"))
  | .definition name value fallback pos => do
    let value ← g.substituted file pos value
    modify (·.assign name value fallback)
    pure .empty
  | .imports targets pos => evalImports including pos selectors targets
  | .rule selector children pos => do
    let selector ← g.interpolated file pos selector
    let inner := combineSelectors selectors selector
    let output ← inBlock (evalNodes g including file inner children)
    pure (.ofItems (output.toItems inner))
  | .atStatement name params pos => do
    let params ← g.substituted file pos params
    pure (.ofItems [.atStatement (atHeader name params)])
  | .atBlock name params children pos => do
    let params ← g.substituted file pos params
    let inner := if isConditional name then selectors else []
    let output ← inBlock (evalNodes g including file inner children)
    pure (.ofItems [.atBlock (atHeader name params) (output.toItems inner)])

def evalNodes (g : Grammar) (including : Include m) (file : String) (selectors : List String) :
    List Node → Eval m BlockOutput
  | [] => pure .empty
  | node :: rest => do
    let first ← evalNode g including file selectors node
    let others ← evalNodes g including file selectors rest
    pure (first.append others)

end

/-- The source that an import in `file` loads. A specifier that cannot be resolved is a fault of the
import. -/
def load (g : Grammar) (importer : String → String → ExceptT Error m Imported) (file : String)
    (specifier : String) (pos : Position) : Eval m Imported := do
  let result ← (importer specifier file).run
  match result with
  | .ok imported => pure imported
  | .error (.resolution s reason tried) =>
    throw (g.fail file (.unresolvedImport (.resolution s reason tried)) pos)
  | .error e => throw e

/-- Includes a file while `budget` more may be open at a time. -/
def includeFile (g : Grammar) (importer : String → String → ExceptT Error m Imported) :
    (budget : Nat) → (file : String) → Include m
  | 0, file => fun specifier pos _ => throw (g.fail file (.importTooDeep specifier) pos)
  | budget + 1, file => fun specifier pos selectors => do
    let imported ← g.load importer file specifier pos
    match g.parse imported.source.toList with
    | .ok nodes => evalNodes g (g.includeFile importer budget imported.path) imported.path selectors nodes
    | .error fault => throw (fault.toError g.stage imported.path)

/-- How many files may be open at a time. -/
def maxOpenFiles : Nat :=
  64

def writeSheet (hoisted : List String) (items : List CssItem) : String :=
  String.join (hoisted.map fun target => "@import " ++ target ++ ";\n") ++ CssItem.writeAll 0 items

/-- The plain style sheet that a tree from `file` comes to. -/
def evaluate (g : Grammar) (importer : String → String → ExceptT Error m Imported) (file : String)
    (nodes : List Node) : ExceptT Error m String :=
  ExceptT.mk do
    let including := g.includeFile importer (maxOpenFiles - 1) file
    let (result, env) ← (inBlock (evalNodes g including file [] nodes)).run.run .start
    pure (result.map fun output => writeSheet env.hoisted (output.toItems []))

def render (g : Grammar) (importer : String → String → ExceptT Error m Imported) (file : String)
    (source : String) : ExceptT Error m String :=
  match g.parse source.toList with
  | .ok nodes => g.evaluate importer file nodes
  | .error fault => throw (fault.toError g.stage file)

end Grammar

end ScopedCss.Dialect
