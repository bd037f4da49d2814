import ValidatorGen.Reading.Skip
import ValidatorGen.Reading.Value
import ValidatorGen.Schema.Messages

/-! Reading custom messages. Anything may stand there: only the text entries of an object count,
and everything else is read over. -/
namespace ValidatorGen.Messages

def skipItems : Reader Unit := Reader.list (fun _ => Reader.skipValue) ()

/-- Reads over the members of an object, whose names have to be proper texts. -/
def skipMembers : Reader Unit :=
  Reader.object (fun _ name => Reader.valueOf name Reader.skipValue) ()

/-- Reads an entry that may open so many levels, and returns it if it is a text. -/
def readEntry (levels : Nat) : Reader (Option String) := do
  match ← Reader.head with
  | .text message => pure (some message)
  | .list => if levels = 0 then Reader.failNext .tooDeep else (fun _ => none) <$> skipItems
  | .object => if levels = 0 then Reader.failNext .tooDeep else (fun _ => none) <$> skipMembers
  | _ => pure none

/-- One member of the object: a text is filed under its name. -/
def readMember (levels : Nat) (m : Messages) (name : String) : Reader Messages := do
  match ← Reader.valueOf name (readEntry levels) with
  | some message => pure (m.insert name message)
  | none => pure m

def readFrom (levels : Nat) : Json.Head → Reader Messages
  | .list => if levels = 0 then Reader.failNext .tooDeep else (fun _ => empty) <$> skipItems
  | .object =>
    match levels with
    | 0 => Reader.failNext .tooDeep
    | inner + 1 => Reader.object (readMember inner) empty
  | _ => pure empty

def read (levels : Nat) : Reader Messages := do
  readFrom levels (← Reader.head)

/-- Reads a text that holds nothing but messages. -/
def parse (text : String) : Except ParseError Messages := (Reader.whole (read maxLevels)).run text

end ValidatorGen.Messages
