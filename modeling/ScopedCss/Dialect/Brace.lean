import ScopedCss.Dialect.BraceToken
import ScopedCss.Dialect.Node

/-!
Style sheets with braces. The sign in front of variables is a parameter.
-/

namespace ScopedCss.Dialect

/-- What braces and semicolons cut a text into. -/
inductive Clause
  | opening (header : List Char) (pos : Position)
  | statement (text : List Char) (pos : Position)
  | closing (pos : Position)
  | broken (fault : FaultAt)
deriving DecidableEq, Repr

namespace Clause

def ofBegun : Option (List Char × Position) → List Clause
  | some (text, pos) => if Text.trim text = [] then [] else [statement (Text.trim text) pos]
  | none => []

/-- The clauses of tokens behind the beginning of a statement. White space and comments begin none. -/
def ofTokens (begun : Option (List Char × Position)) : List BraceToken → List Clause
  | [] => ofBegun begun
  | ⟨piece, pos⟩ :: tokens =>
    match piece with
    | .broken fault => [broken ⟨fault, pos⟩]
    | .cut c =>
      if c = '\x7b' then
        let (text, pos) := begun.getD ([], pos)
        opening (Text.trim text) pos :: ofTokens none tokens
      else if c = '\x7d' then
        ofBegun begun ++ closing pos :: ofTokens none tokens
      else
        ofBegun begun ++ ofTokens none tokens
    | piece =>
      match begun with
      | some (text, start) => ofTokens (some (text ++ piece.text, start)) tokens
      | none =>
        match piece with
        | .char c =>
          if Text.isBlank c then ofTokens none tokens else ofTokens (some ([c], pos)) tokens
        | .atom s => ofTokens (some (s, pos)) tokens
        | _ => ofTokens none tokens

def ofText (source : List Char) : List Clause :=
  ofTokens none (BraceToken.scan 0 .start source)

end Clause

namespace Brace

/-- The flags that end a definition, each once and in this order from the end on. -/
def dropFlags (value : List Char) : List Char × Bool :=
  let (value, fallback) :=
    match Text.dropSuffix? "!default".toList value with
    | some value => (Text.trimEnd value, true)
    | none => (value, false)
  match Text.dropSuffix? "!global".toList value with
  | some value => (Text.trimEnd value, fallback)
  | none => (value, fallback)

/-- The definition of a variable: the sign, a name, a colon and the value. -/
def definition? (sigil : Char) (text : List Char) (pos : Position) : Option Node := do
  let rest ← Text.dropPrefix? [sigil] text
  let name := rest.takeWhile Text.isWordChar
  if name = [] then
    none
  else
    let value ← Text.dropPrefix? [':'] (Text.trimStart (rest.dropWhile Text.isWordChar))
    let (value, fallback) := dropFlags (Text.trim value)
    pure (.definition (.ofList name) (.ofList value) fallback pos)

def declaration (text : List Char) (pos : Position) : Except FaultAt Node :=
  match Text.cut? (· == ':') text with
  | some (property, _, value) =>
    if Text.trim property = [] then
      throw ⟨.missingColon (.ofList text), pos⟩
    else
      pure (.declaration (.ofList (Text.trim property)) (.ofList (Text.trim value)) pos)
  | none => throw ⟨.missingColon (.ofList text), pos⟩

def statementNode (sigil : Char) (text : List Char) (pos : Position) : Except FaultAt Node :=
  match definition? sigil text pos, atStatement? text pos with
  | some node, _ => pure node
  | none, some result => result
  | none, none => declaration text pos

def blockNode (header : List Char) (children : List Node) (pos : Position) : Except FaultAt Node :=
  match header with
  | [] => throw ⟨.missingSelector, pos⟩
  | '@' :: s =>
    let (name, params) := splitAtRule s
    pure (.atBlock name params children pos)
  | header => pure (.rule (.ofList header) children pos)

/-- An open block: its header, and the nodes in front of it in the block around it. -/
structure OpenBlock where
  header : List Char
  pos : Position
  before : List Node

/-- The tree of clauses inside these open blocks, the innermost first. `nodes` are those of the
innermost block so far. -/
def assemble (sigil : Char) (stack : List OpenBlock) (nodes : List Node) :
    List Clause → Except FaultAt (List Node)
  | [] =>
    match stack with
    | [] => pure nodes
    | block :: _ => throw ⟨.unclosedBlock, block.pos⟩
  | .opening header pos :: clauses => assemble sigil (⟨header, pos, nodes⟩ :: stack) [] clauses
  | .statement text pos :: clauses =>
    match statementNode sigil text pos with
    | .ok node => assemble sigil stack (nodes ++ [node]) clauses
    | .error fault => throw fault
  | .closing pos :: clauses =>
    match stack with
    | [] => throw ⟨.unexpectedBrace, pos⟩
    | block :: stack =>
      match blockNode block.header nodes block.pos with
      | .ok node => assemble sigil stack (block.before ++ [node]) clauses
      | .error fault => throw fault
  | .broken fault :: _ => throw fault

/-- The tree of a style sheet with braces. -/
def parse (sigil : Char) (source : List Char) : Except FaultAt (List Node) :=
  assemble sigil [] [] (Clause.ofText source)

end Brace

end ScopedCss.Dialect
