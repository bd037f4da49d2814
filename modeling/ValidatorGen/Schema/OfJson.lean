import ValidatorGen.Entries
import ValidatorGen.Schema.Mismatch
import ValidatorGen.Schema.Record

/-! Schemas out of JSON values. A node is an object with keywords as names, or a list of the values
of all keywords in their order. Every known keyword is checked, whatever the kind of the node;
unknown names are skipped. -/
namespace ValidatorGen

/-- The text entries of an object. Any other value has no messages. -/
def Messages.ofJson : Json → Messages
  | .object members => members.foldl addMember empty
  | _ => empty
where
  addMember (m : Messages) : String × Json → Messages
    | (key, .text message) => m.insert key message
    | _ => m

def Record.add (r : Record) (k : Keyword) (value : Except Mismatch k.shape.Value) :
    Except Mismatch Record :=
  r.set k <$> value

/-- A nested node has to be there where `null` does not count as one. -/
def requireNode : Option Node → Except Mismatch Node
  | some node => .ok node
  | none => .error (.unexpected .null .node)

def namesOfItems : List Json → Except Mismatch (List String)
  | [] => .ok []
  | item :: rest => do
    let name ← item.head.asText
    let names ← namesOfItems rest
    return name :: names

mutual

def Shape.ofJson : (s : Shape) → Json → Except Mismatch s.Value
  | .text, json => json.head.optional Json.Head.asText
  | .count, json => json.head.optional Json.Head.asCount
  | .number, json => json.head.optional Json.Head.asNumber
  | .node, .null => .ok none
  | .node, .object members => do
    let record ← recordOfMembers members .empty
    return some (.ofRecord record)
  | .node, .list items => do
    let record ← recordOfItems items Keyword.all .empty
    return some (.ofRecord record)
  | .node, json => .error (.unexpected json.head .node)
  | .properties, .object members => propertiesOfMembers members []
  | .properties, json => .error (.unexpected json.head .properties)
  | .names, .list items => namesOfItems items
  | .names, json => .error (.unexpected json.head .names)
  | .messages, json => .ok (Messages.ofJson json)

def recordOfMembers : List (String × Json) → Record → Except Mismatch Record
  | [], record => .ok record
  | (name, json) :: rest, record =>
    match Keyword.ofName? name with
    | none => recordOfMembers rest record
    | some k =>
      if record.has k then .error (.repeatedKeyword k)
      else do recordOfMembers rest (← record.add k (k.shape.ofJson json))

def recordOfItems : List Json → List Keyword → Record → Except Mismatch Record
  | [], [], record => .ok record
  | [], k :: keywords, record =>
    if k.mayEndBefore then .ok record
    else .error (.tooFewItems (Keyword.all.length - (k :: keywords).length))
  | json :: rest, [], _ => .error (.tooManyItems (Keyword.all.length + (json :: rest).length))
  | json :: rest, k :: keywords, record => do
    recordOfItems rest keywords (← record.add k (k.shape.ofJson json))

def propertiesOfMembers :
    List (String × Json) → List (String × Node) → Except Mismatch (List (String × Node))
  | [], properties => .ok properties
  | (name, json) :: rest, properties => do
    let node ← requireNode (← Shape.ofJson .node json)
    propertiesOfMembers rest (Entries.put name node properties)

end

def Node.ofJson (json : Json) : Except Mismatch Node := do
  requireNode (← Shape.ofJson .node json)

end ValidatorGen
