import ValidatorGen.Expression.Basic
import ValidatorGen.Numeric.Literal
import ValidatorGen.Text.Quoted

/-! The code of an expression. -/
namespace ValidatorGen

/-- The name that the validator library is bound to. -/
def libraryName : List Char := ['z']

def commaJoin : List (List Char) → List Char
  | [] => []
  | [text] => text
  | text :: next :: rest => text ++ ',' :: ' ' :: commaJoin (next :: rest)

def objectLiteral (entries : List (List Char)) : List Char :=
  if entries.isEmpty then ['{', '}'] else '{' :: ' ' :: commaJoin entries ++ [' ', '}']

mutual

def Arg.chars : Arg → List Char
  | .text s => Text.quoteChars s.toList
  | .count n => (toString n.toNat).toList
  | .number x => x.literalChars
  | .flag b => (if b then "true" else "false").toList
  | .options entries => objectLiteral (optionTexts entries)
  | .shape entries => objectLiteral (shapeTexts entries)
  | .expression e => e.chars
  | .code s => s.toList

def optionTexts : List (String × Arg) → List (List Char)
  | [] => []
  | (name, arg) :: rest => (name.toList ++ ':' :: ' ' :: arg.chars) :: optionTexts rest

def shapeTexts : List (String × Arg) → List (List Char)
  | [] => []
  | (name, arg) :: rest =>
    (Text.quoteChars name.toList ++ ':' :: ' ' :: arg.chars) :: shapeTexts rest

def argTexts : List Arg → List (List Char)
  | [] => []
  | arg :: rest => arg.chars :: argTexts rest

/-- A message is one more argument. -/
def Call.chars : Call → List Char
  | ⟨name, args, message⟩ =>
    name.toList ++ '(' :: commaJoin
      (argTexts args ++ message.toList.map fun m => Text.quoteChars m.toList) ++ [')']

def chainChars : List Call → List Char
  | [] => []
  | call :: rest => '.' :: call.chars ++ chainChars rest

def Expression.chars : Expression → List Char
  | ⟨base, chain⟩ => libraryName ++ '.' :: base.chars ++ chainChars chain

end

def Arg.render (arg : Arg) : String := .ofList arg.chars

def Expression.render (e : Expression) : String := .ofList e.chars

end ValidatorGen
