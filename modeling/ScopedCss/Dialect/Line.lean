import ScopedCss.Dialect.Fault
import ScopedCss.Text.Cut

/-!
The lines of a style sheet without braces: comments removed, indentation measured, and lists that
run over several lines joined.
-/

namespace ScopedCss.Dialect

/-- A line that is not blank. Indentation counts bytes. -/
structure Line where
  indent : Nat
  text : List Char
  pos : Position
deriving DecidableEq, Repr

namespace Line

/-- What a character means. -/
inductive Mode
  | code
  | quoted (quote : Char)
  /-- Inside a comment that began here. -/
  | comment (pos : Position)
deriving DecidableEq, Repr

def Mode.comment? : Mode → Option Position
  | comment pos => some pos
  | _ => none

/-- A line without its comments, and where a comment began that is still open at its end. `row` is
its number and `column` the place of the next character kept. -/
def uncomment (row column : Nat) (mode : Mode) : List Char → List Char × Option Position
  | [] => ([], mode.comment?)
  | c :: s =>
    let keep (mode : Mode) : List Char × Option Position :=
      let (text, opened) := uncomment row (column + 1) mode s
      (c :: text, opened)
    match mode with
    | .comment _ =>
      if c = '*' then
        match s with
        | '/' :: s => uncomment row column .code s
        | s => uncomment row column mode s
      else
        uncomment row column mode s
    | .quoted q => keep (if c = q then .code else mode)
    | .code =>
      if c = '"' ∨ c = '\'' then
        keep (.quoted c)
      else if c = '/' then
        match s with
        | '/' :: _ => ([], none)
        | '*' :: s => uncomment row column (.comment ⟨row, column⟩) s
        | _ => keep .code
      else
        keep .code

def byteLength (s : List Char) : Nat :=
  (String.ofList s).utf8ByteSize

/-- The line that a text without comments is, unless it is blank. Semicolons at its end are
dropped. -/
def ofText? (row : Nat) (text : List Char) : Option Line :=
  let content := Text.trimEnd text
  match Text.trimStart content with
  | [] => none
  | body =>
    let indent := byteLength (content.takeWhile Text.isBlank)
    let text := Text.trimEnd (Text.dropWhileEnd (· == ';') body)
    some ⟨indent, text, ⟨row, indent + 1⟩⟩

/-- The lines from number `row` on, behind the beginning of a comment if one is open. -/
def ofLines (row : Nat) (opened : Option Position) : List (List Char) → Except FaultAt (List Line)
  | [] =>
    match opened with
    | some pos => throw ⟨.unterminatedComment, pos⟩
    | none => pure []
  | line :: rest => do
    let mode := match opened with
      | some pos => .comment pos
      | none => .code
    let (text, opened) := uncomment row 1 mode line
    let lines ← ofLines (row + 1) opened rest
    pure ((ofText? row text).toList ++ lines)

/-- A line that ends in a comma goes on in the next line of the same indentation. -/
def joinLists : List Line → List Line
  | [] => []
  | line :: rest =>
    match joinLists rest with
    | next :: more =>
      if line.text.getLast? = some ',' ∧ next.indent = line.indent then
        { line with text := line.text ++ ' ' :: next.text } :: more
      else
        line :: next :: more
    | [] => [line]

def ofSource (source : List Char) : Except FaultAt (List Line) :=
  joinLists <$> ofLines 1 none (Text.lines source)

end Line

end ScopedCss.Dialect
