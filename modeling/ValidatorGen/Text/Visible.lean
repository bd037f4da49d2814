import ValidatorGen.Text.Unprintable
import ValidatorGen.Text.Combining

/-! Texts as diagnostics show them: between double quotes, with everything that could not be seen
or would blend into its neighbours written as an escape. -/
namespace ValidatorGen.Text

def showChar (c : Char) : List Char :=
  if c = '\x00' then ['\\', '0']
  else if c = '\t' then ['\\', 't']
  else if c = '\r' then ['\\', 'r']
  else if c = '\n' then ['\\', 'n']
  else if c = '"' ∨ c = '\\' then ['\\', c]
  else if isCombining c || !isPrintable c then
    ['\\', 'u', '{'] ++ Nat.toDigits 16 c.toNat ++ ['}']
  else [c]

def visible (text : String) : String :=
  .ofList ('"' :: text.toList.flatMap showChar ++ ['"'])

end ValidatorGen.Text
