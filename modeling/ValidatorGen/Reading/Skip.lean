import ValidatorGen.Reading.Container

/-! Reading over a value without keeping it. The open brackets are on a stack of their own, so the
value may be nested to any depth. -/
namespace ValidatorGen

inductive Bracket where
  | list
  | object
deriving DecidableEq, Repr

/-- A value comes next, or one has just ended; in both cases inside these brackets. -/
inductive SkipState where
  | before (brackets : List Bracket)
  | after (brackets : List Bracket)
deriving DecidableEq, Repr

namespace Reader

def skipName : Reader Unit := do
  blanks
  match ← peek with
  | none => fail .endInObject
  | some c =>
    if c = '"' then do
      skip
      skipText
      colon
    else failNext .nameWanted

/-- After the opening bracket of a list: it ends at once, or a value comes. -/
def openList (brackets : List Bracket) : Reader SkipState := do
  blanks
  match ← peek with
  | none => fail .endInList
  | some c =>
    if c = ']' then do
      skip
      pure (.after brackets)
    else pure (.before (.list :: brackets))

/-- After the opening bracket of an object: it ends at once, or a member comes. -/
def openObject (brackets : List Bracket) : Reader SkipState := do
  blanks
  match ← peek with
  | none => fail .endInObject
  | some c =>
    if c = '}' then do
      skip
      pure (.after brackets)
    else do
      skipName
      pure (.before (.object :: brackets))

def skipHead (brackets : List Bracket) : Reader SkipState := do
  blanks
  match ← peek with
  | none => fail .endInValue
  | some c =>
    if c = '[' then do
      skip
      openList brackets
    else if c = '{' then do
      skip
      openObject brackets
    else if c = '"' then do
      skip
      skipText
      pure (.after brackets)
    else if c = 'n' then do
      word "null".toList
      pure (.after brackets)
    else if c = 't' then do
      word "true".toList
      pure (.after brackets)
    else if c = 'f' then do
      word "false".toList
      pure (.after brackets)
    else if c = '-' || c.isDigit then do
      skipNumber
      pure (.after brackets)
    else failNext .valueWanted

/-- After a value in a list: the list goes on or ends. -/
def skipInList (brackets : List Bracket) : Reader SkipState := do
  blanks
  match ← peek with
  | none => fail .endInList
  | some c =>
    if c = ',' then do
      skip
      pure (.before (.list :: brackets))
    else if c = ']' then do
      skip
      pure (.after brackets)
    else failNext .listCommaWanted

/-- After a value in an object: the object goes on or ends. -/
def skipInObject (brackets : List Bracket) : Reader SkipState := do
  blanks
  match ← peek with
  | none => fail .endInObject
  | some c =>
    if c = ',' then do
      skip
      skipName
      pure (.before (.object :: brackets))
    else if c = '}' then do
      skip
      pure (.after brackets)
    else failNext .objectCommaWanted

def skipStep : SkipState → Reader (Round SkipState Unit)
  | .before brackets => .again <$> skipHead brackets
  | .after [] => pure (.done ())
  | .after (.list :: brackets) => .again <$> skipInList brackets
  | .after (.object :: brackets) => .again <$> skipInObject brackets

def skipValue : Reader Unit := loop skipStep (.before [])

end Reader
end ValidatorGen
