import ValidatorGen.Package.Name
import ValidatorGen.Reading.Fault

/-! How generated code is packaged: bare, as an ES module or as a CommonJS module, with or without
a name. -/
namespace ValidatorGen

inductive Packaging where
  | plain
  | esm
  | cjs
deriving DecidableEq, Repr

def Packaging.label : Packaging → String
  | .plain => "Plain"
  | .esm => "Esm"
  | .cjs => "Cjs"

structure Options where
  packaging : Packaging := .plain
  name : Option String := none
deriving DecidableEq, Repr

inductive GenerateError where
  | parse (e : ParseError)
  | invalidName (name : String)
deriving DecidableEq, Repr

def GenerateError.message : GenerateError → String
  | .parse e => "Schema parse error at " ++ e.pathText ++ ": " ++ e.message
  | .invalidName name => "Invalid export name \"" ++ name ++ "\""

namespace Options

def esmHeader : String := "import \x7b z \x7d from \"zod\"\n\n"

def cjsHeader : String := "const \x7b z \x7d = require(\"zod\")\n\n"

def package (code : String) (packaging : Packaging) (name : Option String) : String :=
  match packaging, name with
  | .plain, none => code
  | .plain, some name => "const " ++ name ++ " = " ++ code
  | .esm, none => esmHeader ++ "export default " ++ code
  | .esm, some name => esmHeader ++ "export const " ++ name ++ " = " ++ code
  | .cjs, none => cjsHeader ++ "module.exports = " ++ code
  | .cjs, some name => cjsHeader ++ "module.exports = \x7b \"" ++ name ++ "\": " ++ code ++ " \x7d"

/-- Packages code. A name that cannot be bound is an error, whatever the packaging. -/
def wrap (o : Options) (code : String) : Except GenerateError String :=
  match o.name with
  | none => .ok (package code o.packaging none)
  | some name =>
    if isBindable name then .ok (package code o.packaging (some name))
    else .error (.invalidName name)

end Options
end ValidatorGen
