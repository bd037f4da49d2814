import ValidatorGen.Reading.Fault

/-! Readers take what they read from the front of a text, or stop with a fault. -/
namespace ValidatorGen

abbrev Reader := StateT (List Char) (Except Fault)

namespace Reader

/-- Stops so many bytes after what is read. -/
def failAhead {α : Type} (ahead : Nat) (cause : Cause) : Reader α := fun rest =>
  .error ⟨cause, rest, ahead, []⟩

def fail {α : Type} (cause : Cause) : Reader α := failAhead 0 cause

/-- Stops at the next byte, which counts as read. -/
def failNext {α : Type} (cause : Cause) : Reader α := failAhead 1 cause

/-- The next character, which stays unread. -/
def peek : Reader (Option Char) := fun rest => .ok (rest.head?, rest)

def skip : Reader Unit := fun rest => .ok ((), rest.tail)

def span (p : Char → Bool) : Reader (List Char) := fun rest =>
  .ok (rest.takeWhile p, rest.dropWhile p)

/-- Reads a part of a value; faults inside it have the way to it in front of their path. -/
def under {α : Type} (s : Segment) (read : Reader α) : Reader α := fun rest =>
  match read rest with
  | .ok result => .ok result
  | .error fault => .error { fault with path := s :: fault.path }

def orMismatch {α : Type} : Except Mismatch α → Reader α
  | .ok a => pure a
  | .error m => fail (.mismatch m)

def isBlank (c : Char) : Bool := c = ' ' || c = '\t' || c = '\n' || c = '\r'

def blanks : Reader Unit := discard (span isBlank)

/-- The whole text has to be used up, blanks after the value apart. -/
def whole {α : Type} (read : Reader α) : Reader α := do
  let result ← read
  blanks
  match ← peek with
  | none => pure result
  | some _ => failNext .trailingCharacters

/-- Reads from the start of a text. What follows the value is not looked at. -/
def run {α : Type} (read : Reader α) (text : String) : Except ParseError α :=
  match read text.toList with
  | .ok (result, _) => .ok result
  | .error fault => .error (fault.locate text.toList)

end Reader
end ValidatorGen
