import ValidatorGen.Reading.Loop

/-! Words and string literals. -/
namespace ValidatorGen.Reader

def word : List Char → Reader Unit
  | [] => pure ()
  | c :: cs => do
    match ← peek with
    | none => fail .endInValue
    | some d => if d = c then skip; word cs else failNext .wordWanted

def hexDigit? (c : Char) : Option Nat :=
  if '0' ≤ c ∧ c ≤ '9' then some (c.toNat - '0'.toNat)
  else if 'a' ≤ c ∧ c ≤ 'f' then some (c.toNat - 'a'.toNat + 10)
  else if 'A' ≤ c ∧ c ≤ 'F' then some (c.toNat - 'A'.toNat + 10)
  else none

/-- Reads four hexadecimal digits. They are taken as four bytes at once: if a text has fewer bytes
left it ends inside the literal, whatever they are. -/
def hexUnit : Reader Nat := fun rest =>
  match (rest.take 4).mapM hexDigit? with
  | some [a, b, c, d] => .ok (((a * 16 + b) * 16 + c) * 16 + d, rest.drop 4)
  | _ => failAhead 4 (if byteLength rest < 4 then .endInText else .badEscape) rest

def isHighSurrogate (unit : Nat) : Bool := 0xD800 ≤ unit && unit ≤ 0xDBFF

def isLowSurrogate (unit : Nat) : Bool := 0xDC00 ≤ unit && unit ≤ 0xDFFF

/-- The character above U+FFFF that two surrogates stand for. -/
def surrogatePair (high low : Nat) : Char :=
  Char.ofNat (0x10000 + (high - 0xD800) * 0x400 + (low - 0xDC00))

/-- Reads a character that has to follow the first surrogate of a pair. -/
def pairMark (c : Char) : Reader Unit := do
  match ← peek with
  | none => fail .endInText
  | some d => if d = c then skip else failNext .surrogateCutShort

/-- The character of a code unit; a surrogate needs its partner. -/
def unitChar (unit : Nat) : Reader Char := do
  if isLowSurrogate unit then fail .loneSurrogate
  else if isHighSurrogate unit then
    pairMark '\\'
    pairMark 'u'
    let low ← hexUnit
    if isLowSurrogate low then pure (surrogatePair unit low) else fail .loneSurrogate
  else pure (Char.ofNat unit)

/-- The characters that a backslash and a letter stand for. -/
def escapeMeaning? (c : Char) : Option Char :=
  if c = '"' ∨ c = '\\' ∨ c = '/' then some c
  else if c = 'b' then some '\x08'
  else if c = 'f' then some '\x0c'
  else if c = 'n' then some '\n'
  else if c = 'r' then some '\r'
  else if c = 't' then some '\t'
  else none

def escaped (ofUnit : Nat → Reader Char) : Reader Char := do
  match ← peek with
  | none => fail .endInText
  | some c =>
    if c = 'u' then do
      skip
      ofUnit (← hexUnit)
    else match escapeMeaning? c with
      | some meaning => do
        skip
        pure meaning
      | none => failNext .badEscape

/-- One character or escape of a literal, or the quote that ends it. -/
def textStep (ofUnit : Nat → Reader Char) (control : Nat) (done : List Char) :
    Reader (Round (List Char) String) := do
  match ← peek with
  | none => fail .endInText
  | some c =>
    if c = '"' then do
      skip
      pure (.done (.ofList done.reverse))
    else if c = '\\' then do
      skip
      return .again ((← escaped ofUnit) :: done)
    else if c.toNat < 0x20 then failAhead control .controlCharacter
    else do
      skip
      pure (.again (c :: done))

def text : Reader String := loop (textStep unitChar 1) []

/-- Reads over a string literal after its first quote. Surrogates need no partners here, and a
control character is not counted as read. -/
def skipText : Reader Unit := discard (loop (textStep (fun _ => pure ' ') 0) [])

end ValidatorGen.Reader
