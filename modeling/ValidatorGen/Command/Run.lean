import ValidatorGen.Command.Arguments
import ValidatorGen.Command.Files
import ValidatorGen.Generate

/-! Running a command. Files are written and texts printed last, after everything that can fail. -/
namespace ValidatorGen

inductive CommandError where
  | generate (e : GenerateError)
  | file (e : FileError)
deriving DecidableEq, Repr

namespace CommandError

def describe : CommandError → String
  | .generate (.parse e) =>
    "ParseError \x7b path: " ++ Text.visible e.pathText ++ ", msg: " ++ Text.visible e.message
      ++ " \x7d"
  | .generate (.invalidName name) => "InvalidName(" ++ Text.visible name ++ ")"
  | .file e => "Io(" ++ e.describe ++ ")"

/-- The line on standard error. -/
def report (e : CommandError) : String := "Error: " ++ e.describe ++ "\n"

end CommandError

/-- How a run ends, files apart. -/
inductive Outcome where
  | usage (u : Usage)
  | finished (result : Except CommandError Unit) (stdout : String)

namespace Outcome

def exitCode : Outcome → Nat
  | .usage u => u.exitCode
  | .finished (.ok ()) _ => 0
  | .finished (.error _) _ => 1

/-- What a command prints. The text about the usage is left to the program. -/
def stdout : Outcome → String
  | .usage _ => ""
  | .finished _ text => text

def stderr : Outcome → String
  | .finished (.error e) _ => e.report
  | _ => ""

end Outcome

namespace Command

variable {m : Type → Type} [Monad m]

def readText (host : Host m) (path : String) : m (Except CommandError String) := do
  match ← host.read path with
  | .error e => return .error (.file e)
  | .ok bytes =>
    match String.fromUTF8? bytes with
    | some text => return .ok text
    | none => return .error (.file .notText)

def codeOf (text : String) (o : Options) : Except CommandError String :=
  match (compileText text).value with
  | .error e => .error (.generate (.parse e))
  | .ok (_, e) =>
    match o.wrap e.render with
    | .error e => .error (.generate e)
    | .ok code => .ok code

def runGen (host : Host m) (input : String) (output : Option String) (o : Options) :
    m (Except CommandError Unit) := do
  match ← readText host input with
  | .error e => return .error e
  | .ok text =>
    match codeOf text o, output with
    | .error e, _ => return .error e
    | .ok code, none => .ok <$> host.print (code ++ "\n")
    | .ok code, some path =>
      match ← host.write path code with
      | .error e => return .error (.file e)
      | .ok () => .ok <$> host.print ("Generated zod code written to " ++ path ++ "\n")

def runCheck (host : Host m) (input : String) : m (Except CommandError Unit) := do
  match ← readText host input with
  | .error e => return .error e
  | .ok text =>
    match Node.parse text with
    | .error e => return .error (.generate (.parse e))
    | .ok node => .ok <$> host.print (input ++ ": " ++ node.kind.name ++ " schema\n")

def run (host : Host m) : Command → m (Except CommandError Unit)
  | .gen input output o => runGen host input output o
  | .check input => runCheck host input

def runArguments (files : FileHost m) (args : List String) : m Outcome := do
  match ofArguments args with
  | .error u => return .usage u
  | .ok command =>
    let (result, stdout) ← (command.run files.recorded).run ""
    return .finished result stdout

end Command
end ValidatorGen
