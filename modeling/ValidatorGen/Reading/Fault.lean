import ValidatorGen.Schema.Mismatch
import ValidatorGen.Text.Position

/-! Why and where reading a text stopped. -/
namespace ValidatorGen

inductive Cause where
  | endInValue
  | endInText
  | endInList
  | endInObject
  | colonWanted
  | listCommaWanted
  | objectCommaWanted
  | wordWanted
  | valueWanted
  | badEscape
  | badNumber
  | numberTooLarge
  | loneSurrogate
  | surrogateCutShort
  | controlCharacter
  | nameWanted
  | trailingComma
  | trailingCharacters
  | tooDeep
  | mismatch (m : Mismatch)
deriving DecidableEq, Repr

def Cause.message : Cause → String
  | .endInValue => "EOF while parsing a value"
  | .endInText => "EOF while parsing a string"
  | .endInList => "EOF while parsing a list"
  | .endInObject => "EOF while parsing an object"
  | .colonWanted => "expected `:`"
  | .listCommaWanted => "expected `,` or `]`"
  | .objectCommaWanted => "expected `,` or `\x7d`"
  | .wordWanted => "expected ident"
  | .valueWanted => "expected value"
  | .badEscape => "invalid escape"
  | .badNumber => "invalid number"
  | .numberTooLarge => "number out of range"
  | .loneSurrogate => "lone leading surrogate in hex escape"
  | .surrogateCutShort => "unexpected end of hex escape"
  | .controlCharacter => "control character (\\u0000-\\u001F) found while parsing a string"
  | .nameWanted => "key must be a string"
  | .trailingComma => "trailing comma"
  | .trailingCharacters => "trailing characters"
  | .tooDeep => "recursion limit exceeded"
  | .mismatch m => m.message

/-- A step from a value into one of its parts. A member whose name is not read yet has none. -/
inductive Segment where
  | key (name : String)
  | index (i : Nat)
  | unnamed
deriving DecidableEq, Repr

namespace Segment

def text : Segment → String
  | .key name => name
  | .index i => "[" ++ toString i ++ "]"
  | .unnamed => "?"

def separator : Segment → String
  | .index _ => ""
  | _ => "."

def joinRest : List Segment → String
  | [] => ""
  | s :: rest => s.separator ++ s.text ++ joinRest rest

/-- Names are joined by points, indices follow in brackets, and a lone point is the root. -/
def join : List Segment → String
  | [] => "."
  | s :: rest => s.text ++ joinRest rest

end Segment

/-- A fault lies `ahead` bytes after everything before `rest`, or at the end of a shorter text. The
path leads to the innermost value that was being read. -/
structure Fault where
  cause : Cause
  rest : List Char
  ahead : Nat
  path : List Segment
deriving DecidableEq, Repr

structure ParseError where
  cause : Cause
  position : Position
  path : List Segment
deriving DecidableEq, Repr

def Fault.locate (text : List Char) (f : Fault) : ParseError :=
  ⟨f.cause, .ofOffset text (byteLength text - byteLength f.rest + f.ahead), f.path⟩

namespace ParseError

def message (e : ParseError) : String :=
  e.cause.message ++ " at line " ++ toString e.position.line ++ " column "
    ++ toString e.position.column

def pathText (e : ParseError) : String := Segment.join e.path

end ParseError
end ValidatorGen
