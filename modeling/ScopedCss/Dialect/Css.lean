import ScopedCss.Text.Cut

/-!
Plain style sheets, and how they are written: a declaration a line, two spaces a level.
-/

namespace ScopedCss.Dialect

inductive CssItem
  /-- Declarations under these selectors, or free ones if there are none. -/
  | rule (selectors declarations : List String)
  | atStatement (header : String)
  | atBlock (header : String) (items : List CssItem)
deriving Repr

namespace CssItem

def indentation (depth : Nat) : String :=
  .ofList (List.replicate (2 * depth) ' ')

def writeRule (depth : Nat) (selectors declarations : List String) : String :=
  let indent := indentation depth
  if selectors.isEmpty then
    String.join (declarations.map fun d => indent ++ d ++ "\n")
  else
    indent ++ ",\n".intercalate selectors ++ " \x7b\n" ++
      String.join (declarations.map fun d => indent ++ "  " ++ d ++ "\n") ++ indent ++ "\x7d\n"

mutual

def write (depth : Nat) : CssItem → String
  | rule selectors declarations => writeRule depth selectors declarations
  | atStatement header => indentation depth ++ header ++ ";\n"
  | atBlock header items =>
    indentation depth ++ header ++ " \x7b\n" ++ writeAll (depth + 1) items ++
      indentation depth ++ "\x7d\n"

def writeAll (depth : Nat) : List CssItem → String
  | [] => ""
  | item :: rest => item.write depth ++ writeAll depth rest

end

end CssItem

end ScopedCss.Dialect
