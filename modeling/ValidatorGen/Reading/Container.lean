import ValidatorGen.Reading.Numeral
import ValidatorGen.Reading.Text

/-! Heads of values, and the punctuation of lists and objects. -/
namespace ValidatorGen.Reader

/-- Reads a scalar, or stops before the bracket of a container. -/
def head : Reader Json.Head := do
  blanks
  match ← peek with
  | none => fail .endInValue
  | some c =>
    if c = '[' then pure .list
    else if c = '{' then pure .object
    else if c = '"' then do
      skip
      return .text (← text)
    else if c = 'n' then do
      word "null".toList
      pure .null
    else if c = 't' then do
      word "true".toList
      pure (.boolean true)
    else if c = 'f' then do
      word "false".toList
      pure (.boolean false)
    else if c = '-' || c.isDigit then return .number (← number)
    else failNext .valueWanted

/-- Whether a list has one more item, which comes next. -/
def moreItems (first : Bool) : Reader Bool := do
  blanks
  match ← peek with
  | none => fail .endInList
  | some c =>
    if c = ']' then pure false
    else if first then pure true
    else if c = ',' then do
      skip
      blanks
      match ← peek with
      | none => fail .endInValue
      | some d => if d = ']' then failNext .trailingComma else pure true
    else failNext .listCommaWanted

def closeList : Reader Unit := do
  blanks
  match ← peek with
  | none => fail .endInList
  | some c =>
    if c = ']' then skip
    else if c = ',' then do
      skip
      blanks
      if (← peek) = some ']' then failNext .trailingComma else failNext .trailingCharacters
    else failNext .trailingCharacters

/-- One item of a list; items are numbered from zero. -/
def itemStep {σ : Type} (item : σ → Reader σ) : Nat × σ → Reader (Round (Nat × σ) σ)
  | (i, state) => do
    if ← moreItems (i = 0) then return .again (i + 1, ← under (.index i) (item state))
    else pure (.done state)

def list {σ : Type} (item : σ → Reader σ) (init : σ) : Reader σ := do
  skip
  let result ← loop (itemStep item) (0, init)
  closeList
  pure result

/-- The name of the next member of an object, if there is one. -/
def nextName (first : Bool) : Reader (Option String) := do
  blanks
  match ← peek with
  | none => fail .endInObject
  | some c =>
    if c = '}' then pure none
    else if first then name
    else if c = ',' then do
      skip
      blanks
      match ← peek with
      | none => fail .endInValue
      | some d => if d = '}' then failNext .trailingComma else name
    else failNext .objectCommaWanted
where
  name : Reader (Option String) := do
    if (← peek) = some '"' then do
      skip
      return some (← text)
    else failNext .nameWanted

def colon : Reader Unit := do
  blanks
  match ← peek with
  | none => fail .endInObject
  | some c => if c = ':' then skip else failNext .colonWanted

def valueOf {α : Type} (name : String) (read : Reader α) : Reader α := do
  colon
  under (.key name) read

def memberStep {σ : Type} (member : σ → String → Reader σ) :
    Bool × σ → Reader (Round (Bool × σ) σ)
  | (first, state) => do
    match ← under .unnamed (nextName first) with
    | some name => return .again (false, ← member state name)
    | none => pure (.done state)

def object {σ : Type} (member : σ → String → Reader σ) (init : σ) : Reader σ := do
  skip
  let result ← loop (memberStep member) (true, init)
  skip
  pure result

end ValidatorGen.Reader
