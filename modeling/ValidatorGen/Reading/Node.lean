import ValidatorGen.Reading.Messages
import ValidatorGen.Schema.OfJson

/-! Reading a schema straight from its text. Each keyword is read as the value it should have, so a
fault names the innermost part of the schema that it is in; members with unknown names are read
over. -/
namespace ValidatorGen

/-- A keyword that is written twice. The object may end right there, and its end then counts as
read. -/
def Reader.repeatedKeyword {α : Type} (k : Keyword) : Reader α := do
  Reader.blanks
  if (← Reader.peek) = some '}' then Reader.skip
  Reader.fail (.mismatch (.repeatedKeyword k))

def Record.readMember (value : (s : Shape) → Reader s.Value) (r : Record) (name : String) :
    Reader Record :=
  match Keyword.ofName? name with
  | none => (fun _ => r) <$> Reader.valueOf name Reader.skipValue
  | some k =>
    if r.has k then Reader.repeatedKeyword k
    else r.set k <$> Reader.valueOf name (value k.shape)

/-- The items of a node that is written as a list, from the given index on. -/
def Record.readItems (value : (s : Shape) → Reader s.Value) :
    List Keyword → Nat → Record → Reader Record
  | [], _, r => pure r
  | k :: keywords, i, r => do
    if ← Reader.moreItems (i = 0) then
      readItems value keywords (i + 1) (r.set k (← Reader.under (.index i) (value k.shape)))
    else if k.mayEndBefore then pure r
    else do
      Reader.skip
      Reader.fail (.mismatch (.tooFewItems i))

def Record.readList (value : (s : Shape) → Reader s.Value) : Reader Record := do
  Reader.skip
  let r ← readItems value Keyword.all 0 .empty
  Reader.closeList
  pure r

def readName : Reader String := do
  let h ← Reader.head
  Reader.orMismatch h.asText

def Shape.afterHead (next : (s : Shape) → Json.Head → Reader s.Value) (s : Shape) :
    Reader s.Value := do
  next s (← Reader.head)

/-- Reads a value after its head, which may open so many levels of containers. -/
def Shape.readFrom : Nat → (s : Shape) → Json.Head → Reader s.Value
  | _, .text, h => Reader.orMismatch (h.optional Json.Head.asText)
  | _, .count, h => Reader.orMismatch (h.optional Json.Head.asCount)
  | _, .number, h => Reader.orMismatch (h.optional Json.Head.asNumber)
  | _, .node, .null => pure none
  | 0, .node, .object | 0, .node, .list => Reader.failNext .tooDeep
  | inner + 1, .node, .object =>
    (some ∘ Node.ofRecord) <$> Reader.object (Record.readMember (afterHead (readFrom inner))) .empty
  | inner + 1, .node, .list =>
    (some ∘ Node.ofRecord) <$> Record.readList (afterHead (readFrom inner))
  | _, .node, h => Reader.orMismatch (.error (.unexpected h .node))
  | 0, .properties, .object => Reader.failNext .tooDeep
  | inner + 1, .properties, .object =>
    Reader.object
      (fun properties name => do
        let node ← Reader.valueOf name do
          Reader.orMismatch (requireNode (← afterHead (readFrom inner) .node))
        return Entries.put name node properties) []
  | _, .properties, h => Reader.orMismatch (.error (.unexpected h .properties))
  | 0, .names, .list => Reader.failNext .tooDeep
  | _ + 1, .names, .list =>
    List.reverse <$> Reader.list (fun names => (· :: names) <$> readName) []
  | _, .names, h => Reader.orMismatch (.error (.unexpected h .names))
  | levels, .messages, h => Messages.readFrom levels h

def Shape.read (levels : Nat) : (s : Shape) → Reader s.Value := afterHead (readFrom levels)

namespace Node

def read : Reader Node := do
  Reader.orMismatch (requireNode (← Shape.read maxLevels .node))

/-- Reads the schema at the start of a text. -/
def parse (text : String) : Except ParseError Node := read.run text

end Node
end ValidatorGen
