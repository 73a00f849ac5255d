import ScopedCss.Dialect.Line
import ScopedCss.Dialect.Node
import ScopedCss.Unicode.Word

/-!
Style sheets without braces, where indentation makes blocks. Semicolons and colons may be left out,
and variables are defined by `name = value`.
-/

namespace ScopedCss.Dialect.Indented

/-- A name with its first letter, and the rest. -/
def takeVariable : List Char → List Char × List Char
  | [] => ([], [])
  | c :: s =>
    if c.isAlpha ∨ c = '_' then
      let isPart (c : Char) : Bool := Unicode.isWord c || c == '-'
      (c :: s.takeWhile isPart, s.dropWhile isPart)
    else
      ([], c :: s)

/-- A definition `name = value`; a name that begins with a dollar may have a colon instead. -/
def definition? (text : List Char) (pos : Position) : Option Node := do
  let (dollar, s) := match text with
    | '$' :: s => (['$'], s)
    | s => ([], s)
  let (name, rest) := takeVariable s
  match name, Text.trimStart rest with
  | _ :: _, c :: value =>
    if c = '=' ∨ (c = ':' ∧ dollar ≠ []) then
      if value = [] then
        none
      else
        pure (.definition (.ofList (dollar ++ name)) (.ofList (Text.trim value)) false pos)
    else
      none
  | _, _ => none

def isPropertyName (s : List Char) : Bool :=
  s ≠ [] && s.all fun c => c.isAlphanum || c == '-'

/-- A property and its value: behind a colon if a name precedes it, and else behind white space. -/
def splitProperty? (text : List Char) : Option (List Char × List Char) :=
  let atBlank := (Text.cut? Text.isBlank text).map fun (l, _, r) => (l, r)
  match Text.cut? (· == ':') text with
  | some (l, _, r) => if isPropertyName l then some (l, r) else atBlank
  | none => atBlank

def declaration (text : List Char) (pos : Position) : Except FaultAt Node :=
  match splitProperty? text with
  | some (property, value) =>
    pure (.declaration (.ofList (Text.trim property)) (.ofList (Text.trim value)) pos)
  | none => throw ⟨.missingValue (.ofList text), pos⟩

def statementNode (text : List Char) (pos : Position) : Except FaultAt Node :=
  match definition? text pos, atStatement? text pos with
  | some node, _ => pure node
  | none, some result => result
  | none, none => declaration text pos

def blockNode (header : List Char) (children : List Node) (pos : Position) : Node :=
  match header with
  | '@' :: s =>
    let (name, params) := splitAtRule s
    .atBlock name params children pos
  | header =>
    .rule (.ofList (Text.trim (Text.dropWhileEnd (· == '\x7b') header))) children pos

/-- A block that an indented line opened: its header line, the nodes in front of that in the block
around it, and the indentation of this. -/
structure OpenBlock where
  header : Line
  before : List Node
  outer : Option Nat

/-- A block under construction: its nodes so far, the indentation of its lines, once one is read,
and the blocks around it. -/
structure Layout where
  nodes : List Node
  indent : Option Nat
  stack : List OpenBlock

namespace Layout

def start : Layout where
  nodes := []
  indent := none
  stack := []

/-- Closes the blocks whose header is indented no less than `indent`. -/
def closeTo (indent : Nat) (nodes : List Node) (inner : Option Nat) : List OpenBlock → Layout
  | [] => ⟨nodes, inner, []⟩
  | block :: stack =>
    if indent ≤ block.header.indent then
      let node := blockNode block.header.text nodes block.header.pos
      closeTo indent (block.before ++ [node]) block.outer stack
    else
      ⟨nodes, inner, block :: stack⟩

/-- Closes all blocks. -/
def finish (nodes : List Node) : List OpenBlock → List Node
  | [] => nodes
  | block :: stack =>
    finish (block.before ++ [blockNode block.header.text nodes block.header.pos]) stack

/-- Adds a line in front of `next`, which the line opens a block for if it is indented deeper. -/
def add (layout : Layout) (line : Line) (next : Option Line) : Except FaultAt Layout := do
  let here := closeTo line.indent layout.nodes layout.indent layout.stack
  if here.indent.any (line.indent < ·) then
    throw ⟨.inconsistentIndentation, line.pos⟩
  else if next.any (line.indent < ·.indent) then
    pure ⟨[], none, ⟨line, here.nodes, some line.indent⟩ :: here.stack⟩
  else
    let node ← statementNode line.text line.pos
    pure ⟨here.nodes ++ [node], some line.indent, here.stack⟩

end Layout

def assemble (layout : Layout) : List Line → Except FaultAt (List Node)
  | [] => pure (Layout.finish layout.nodes layout.stack)
  | line :: rest =>
    match layout.add line rest.head? with
    | .ok layout => assemble layout rest
    | .error fault => throw fault

/-- The tree of a style sheet without braces. -/
def parse (source : List Char) : Except FaultAt (List Node) :=
  match Line.ofSource source with
  | .ok lines => assemble .start lines
  | .error fault => throw fault

end ScopedCss.Dialect.Indented
