import ValidatorGen.Entries
import ValidatorGen.Reading.Container

/-! Reading any JSON value. Lists and objects nest to a limited depth. -/
namespace ValidatorGen

/-- How many containers may be open at once. -/
def maxLevels : Nat := 127

/-- Reads a value that may open so many levels of containers. Of members with the same name the
first gives the place and the last the value. -/
def Json.read (levels : Nat) : Reader Json := do
  match ← Reader.head with
  | .null => pure .null
  | .boolean b => pure (.boolean b)
  | .number n => pure (.number n)
  | .text s => pure (.text s)
  | .list =>
    match levels with
    | 0 => Reader.failNext .tooDeep
    | inner + 1 => do
      let items ← Reader.list (fun items => (· :: items) <$> Json.read inner) []
      return .list items.reverse
  | .object =>
    match levels with
    | 0 => Reader.failNext .tooDeep
    | inner + 1 =>
      .object <$> Reader.object
        (fun members name =>
          (Entries.put name · members) <$> Reader.valueOf name (Json.read inner)) []

def Json.parse (text : String) : Except ParseError Json :=
  (Reader.whole (Json.read maxLevels)).run text

end ValidatorGen
