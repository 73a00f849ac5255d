/-!
The arguments of the program: options, which may stand before and after the command, and a command
with its own options and at most one operand.
-/

namespace ScopedCss.CommandLine

inductive CommandName
  | build
  | check
deriving DecidableEq, Repr

def CommandName.ofText? : String → Option CommandName
  | "build" => some .build
  | "check" => some .check
  | _ => none

/-- The options of all commands. -/
inductive Flag
  | config
  | verbose
  | output
  | arch
  | noCache
deriving DecidableEq, Repr

namespace Flag

def takesValue : Flag → Bool
  | config | output | arch => true
  | verbose | noCache => false

/-- Whether an option is known before the command, which is `none`, or after one. -/
def isKnown (command : Option CommandName) : Flag → Bool
  | config | verbose => true
  | arch => command.isSome
  | output | noCache => command = some .build

def ofLong? : String → Option Flag
  | "config" => some config
  | "verbose" => some verbose
  | "output" => some output
  | "arch" => some arch
  | "no-cache" => some noCache
  | _ => none

def ofShort? : Char → Option Flag
  | 'c' => some config
  | 'v' => some verbose
  | 'o' => some output
  | _ => none

end Flag

/-- What was given in one place, before the command or after it. Only `verbose` may be repeated. -/
structure Given where
  config : Option String := none
  verbose : Nat := 0
  output : Option String := none
  arch : Option String := none
  noCache : Bool := false
  project : Option String := none
deriving DecidableEq, Repr

/-- Why arguments are not carried out. -/
inductive Refusal
  | usage
  | help
  | version
deriving DecidableEq, Repr

structure Arguments where
  /-- The command, if there is one, and what was given for it. -/
  command : Option CommandName
  given : Given
deriving DecidableEq, Repr

namespace Given

def setOnce {α : Type u} (old : Option α) (value : α) : Except Refusal (Option α) :=
  if old.isSome then throw .usage else pure (some value)

/-- An option with the value that it takes, or with an empty one. -/
def set (g : Given) (value : String) : Flag → Except Refusal Given
  | .config => return { g with config := ← setOnce g.config value }
  | .verbose => return { g with verbose := g.verbose + 1 }
  | .output => return { g with output := ← setOnce g.output value }
  | .arch => return { g with arch := ← setOnce g.arch value }
  | .noCache => if g.noCache then throw .usage else return { g with noCache := true }

/-- What is given after the command prevails. -/
def orElse (inner outer : Given) : Given :=
  { inner with
    config := inner.config <|> outer.config
    verbose := if inner.verbose = 0 then outer.verbose else inner.verbose }

end Given

/-- The flag that still needs a value, and what was given before. -/
structure Reading where
  given : Given
  pending : Option Flag

def known (command : Option CommandName) (f : Option Flag) : Except Refusal Flag :=
  match f with
  | some f => if f.isKnown command then pure f else throw .usage
  | none => throw .usage

/-- A long option, with the value after its `=`. -/
def readLong (command : Option CommandName) (g : Given) (name : String) (value : Option String) :
    Except Refusal Reading := do
  if name = "help" then
    throw (if value.isSome then .usage else .help)
  else if name = "version" ∧ command = none then
    throw (if value.isSome then .usage else .version)
  else
    let f ← known command (Flag.ofLong? name)
    match f.takesValue, value with
    | true, some v => return ⟨← g.set v f, none⟩
    | true, none => return ⟨g, some f⟩
    | false, none => return ⟨← g.set "" f, none⟩
    | false, some _ => throw .usage

/-- Short options behind one hyphen. The first that takes a value has the rest as its value. -/
def readShort (command : Option CommandName) (g : Given) : List Char → Except Refusal Reading
  | [] => pure ⟨g, none⟩
  | 'h' :: _ => throw .help
  | c :: rest => do
    if c = 'V' ∧ command = none then
      throw .version
    else
      let f ← known command (Flag.ofShort? c)
      if f.takesValue then
        match rest with
        | [] => return ⟨g, some f⟩
        | '=' :: v | v => return ⟨← g.set (.ofList v) f, none⟩
      else
        readShort command (← g.set "" f) rest

def addOperand (command : Option CommandName) (g : Given) (operand : String) :
    Except Refusal Given :=
  if command = none then throw .usage
  else return { g with project := ← Given.setOnce g.project operand }

/-- Long options, or none if the argument is no long option. -/
def splitLong? (arg : List Char) : Option (String × Option String) :=
  match arg with
  | '-' :: '-' :: rest =>
    let name := String.ofList (rest.takeWhile (· != '='))
    match rest.dropWhile (· != '=') with
    | _ :: value => some (name, some (.ofList value))
    | [] => some (name, none)
  | _ => none

/-- The arguments after the command. -/
def readCommand (command : CommandName) : Reading → List String → Except Refusal Given
  | ⟨g, none⟩, [] => pure g
  | ⟨_, some _⟩, [] => throw .usage
  | ⟨g, pending⟩, arg :: rest =>
    match pending, arg.toList with
    | some _, '-' :: _ :: _ => throw .usage
    | some f, _ => do readCommand command ⟨← g.set arg f, none⟩ rest
    | none, ['-', '-'] => do rest.foldlM (addOperand (some command)) g
    | none, '-' :: '-' :: long => do
      let (name, value) := (splitLong? ('-' :: '-' :: long)).getD ("", none)
      readCommand command (← readLong (some command) g name value) rest
    | none, '-' :: c :: short => do
      readCommand command (← readShort (some command) g (c :: short)) rest
    | none, _ => do readCommand command ⟨← addOperand (some command) g arg, none⟩ rest

/-- Asking for help on a command, or on nothing. -/
def readHelp : List String → Refusal
  | [] => .help
  | [name] => if name = "help" ∨ (CommandName.ofText? name).isSome then .help else .usage
  | _ => .usage

/-- The arguments up to the command and after it. -/
def readAll : Reading → List String → Except Refusal Arguments
  | ⟨g, none⟩, [] => pure ⟨none, g⟩
  | ⟨_, some _⟩, [] => throw .usage
  | ⟨g, pending⟩, arg :: rest =>
    match pending, arg.toList with
    | some _, '-' :: _ :: _ => throw .usage
    | some f, _ => do readAll ⟨← g.set arg f, none⟩ rest
    | none, ['-', '-'] => if rest.isEmpty then pure ⟨none, g⟩ else throw .usage
    | none, '-' :: '-' :: long => do
      let (name, value) := (splitLong? ('-' :: '-' :: long)).getD ("", none)
      readAll (← readLong none g name value) rest
    | none, '-' :: c :: short => do
      readAll (← readShort none g (c :: short)) rest
    | none, _ =>
      if arg = "help" then
        throw (readHelp rest)
      else
        match CommandName.ofText? arg with
        | none => throw .usage
        | some command => do
          let inner ← readCommand command ⟨{}, none⟩ rest
          pure ⟨some command, inner.orElse g⟩

def parse (args : List String) : Except Refusal Arguments :=
  readAll ⟨{}, none⟩ args

end ScopedCss.CommandLine
