import ValidatorGen.Compile.Node
import ValidatorGen.Expression.Render
import ValidatorGen.Package.Options
import ValidatorGen.Reading.Node

/-! From the text of a schema to validator code, with a log. -/
namespace ValidatorGen

inductive Level where
  | trace
  | debug
deriving DecidableEq, Repr

inductive Event where
  | ignored (n : Notice)
  | compiled (kind : Kind) (calls : Nat)
  | generated (packaging : Packaging) (bytes : Nat)
deriving DecidableEq, Repr

namespace Event

def level : Event → Level
  | .ignored _ => .trace
  | _ => .debug

def message : Event → String
  | .ignored n => n.message
  | .compiled .. => "compiled schema"
  | .generated .. => "generated zod code"

def fields : Event → List (String × String)
  | .ignored n => n.fields
  | .compiled kind calls => [("kind", kind.name), ("calls", toString calls)]
  | .generated packaging bytes => [("module", packaging.label), ("bytes", toString bytes)]

end Event

def compileText (text : String) : Traced Event (Except ParseError (Node × Expression)) := do
  match Node.parse text with
  | .error e => return .error e
  | .ok node =>
    let e ← node.compile Event.ignored
    Traced.emit (.compiled node.kind e.chain.length)
    return .ok (node, e)

/-- Generates the code for a schema. The name is looked at last. -/
def generate (text : String) (o : Options) : Traced Event (Except GenerateError String) := do
  match ← compileText text with
  | .error e => return .error (.parse e)
  | .ok (_, e) =>
    match o.wrap e.render with
    | .error e => return .error e
    | .ok code =>
      Traced.emit (.generated o.packaging code.utf8ByteSize)
      return .ok code

end ValidatorGen
