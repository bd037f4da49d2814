/-! String literals: a text between double quotes, where the quote, the backslash and the control
characters are escaped and everything else stands for itself. -/
namespace ValidatorGen.Text

/-- The five control characters that have a letter of their own. -/
def escapeLetter? (c : Char) : Option Char :=
  if c = '\x08' then some 'b'
  else if c = '\x0c' then some 'f'
  else if c = '\n' then some 'n'
  else if c = '\r' then some 'r'
  else if c = '\t' then some 't'
  else none

def escape (c : Char) : List Char :=
  if c = '"' ∨ c = '\\' then ['\\', c]
  else match escapeLetter? c with
    | some letter => ['\\', letter]
    | none =>
      if c.toNat < 0x20 then
        ['\\', 'u', '0', '0', Nat.digitChar (c.toNat / 16), Nat.digitChar (c.toNat % 16)]
      else [c]

def quoteChars (text : List Char) : List Char := '"' :: text.flatMap escape ++ ['"']

def quote (text : String) : String := .ofList (quoteChars text.toList)

@[simp] theorem toList_quote (text : String) : (quote text).toList = quoteChars text.toList := by
  simp [quote]

end ValidatorGen.Text
