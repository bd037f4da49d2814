import ValidatorGen.Package.Options

/-! The command line: `gen` writes the code for a schema file, `check` reports its kind. -/
namespace ValidatorGen

inductive Setting where
  | input
  | output
  | packaging
  | name
deriving DecidableEq, Repr

namespace Setting

def longName : Setting → String
  | .input => "input"
  | .output => "output"
  | .packaging => "module"
  | .name => "name"

def shortName : Setting → Char
  | .input => 'i'
  | .output => 'o'
  | .packaging => 'm'
  | .name => 'n'

end Setting

def Packaging.ofArgument? (text : String) : Option Packaging :=
  if text = "none" then some .plain
  else if text = "esm" then some .esm
  else if text = "cjs" then some .cjs
  else none

inductive Command where
  | gen (input : String) (output : Option String) (o : Options)
  | check (input : String)
deriving DecidableEq, Repr

/-- Command lines that are no command: help is asked for, or they make no sense. -/
inductive Usage where
  | help
  | misuse
deriving DecidableEq, Repr

def Usage.exitCode : Usage → Nat
  | .help => 0
  | .misuse => 2

/-- Values given so far. -/
def Settings := Setting → Option String

namespace Settings

def empty : Settings := fun _ => none

/-- A file needs a name, and a packaging has to be known. -/
def accepts (k : Setting) (value : String) : Bool :=
  match k with
  | .input | .output => value ≠ ""
  | .packaging => (Packaging.ofArgument? value).isSome
  | .name => true

def assign (s : Settings) (k : Setting) (value : String) : Except Usage Settings :=
  if (s k).isSome || !accepts k value then .error .misuse
  else .ok fun other => if other = k then some value else s other

end Settings

inductive Argument where
  | setting (k : Setting) (value : Option String)
  | help
  | endOfSettings
  | unknown
deriving DecidableEq, Repr

namespace Argument

/-- `--name` or `--name=value`. -/
def ofLong (allowed : List Setting) (text : List Char) : Argument :=
  let name := String.ofList (text.takeWhile (· ≠ '='))
  let value := (text.dropWhile (· ≠ '=')).tail?.map String.ofList
  match allowed.find? (·.longName == name) with
  | some k => .setting k value
  | none => if name = "help" ∧ value = none then .help else .unknown

/-- `-n`, `-nvalue` or `-n=value`. -/
def ofShort (allowed : List Setting) (c : Char) (text : List Char) : Argument :=
  match allowed.find? (·.shortName == c) with
  | some k =>
    .setting k (match text with
      | [] => none
      | '=' :: value => some (.ofList value)
      | value => some (.ofList value))
  | none => if c = 'h' then .help else .unknown

/-- A lone dash is a value like any other text. -/
def ofText (allowed : List Setting) (text : String) : Argument :=
  match text.toList with
  | ['-', '-'] => .endOfSettings
  | '-' :: '-' :: rest => ofLong allowed rest
  | '-' :: c :: rest => ofShort allowed c rest
  | _ => .unknown

end Argument

def isSeparateValue (text : String) : Bool :=
  match text.toList with
  | '-' :: _ :: _ => false
  | _ => true

/-- Reads settings in turn. A setting without an attached value takes the next argument. -/
def Settings.read (allowed : List Setting) : List String → Settings → Except Usage Settings
  | [], s => .ok s
  | text :: rest, s =>
    match Argument.ofText allowed text with
    | .help => .error .help
    | .unknown => .error .misuse
    | .endOfSettings => if rest.isEmpty then .ok s else .error .misuse
    | .setting k (some value) => do read allowed rest (← s.assign k value)
    | .setting k none =>
      match rest with
      | [] => .error .misuse
      | value :: rest =>
        if isSeparateValue value then do read allowed rest (← s.assign k value)
        else .error .misuse

namespace Command

def readGen (args : List String) : Except Usage Command := do
  let s ← Settings.read [.input, .output, .packaging, .name] args .empty
  match s .input with
  | none => .error .misuse
  | some input =>
    let packaging := ((s .packaging).bind Packaging.ofArgument?).getD .plain
    return .gen input (s .output) ⟨packaging, s .name⟩

def readCheck (args : List String) : Except Usage Command := do
  let s ← Settings.read [.input] args .empty
  match s .input with
  | none => .error .misuse
  | some input => return .check input

def readHelp : List String → Usage
  | [] => .help
  | [topic] => if ["gen", "check", "help"].contains topic then .help else .misuse
  | _ => .misuse

def ofArguments : List String → Except Usage Command
  | [] => .error .misuse
  | first :: rest =>
    if first = "gen" then readGen rest
    else if first = "check" then readCheck rest
    else if first = "help" then .error (readHelp rest)
    else if Argument.ofText [] first = .help then .error .help
    else .error .misuse

end Command
end ValidatorGen
