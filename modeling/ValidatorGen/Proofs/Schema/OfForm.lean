import ValidatorGen.Proofs.Json.OfForm
import ValidatorGen.Schema.OfJson

/-! The schemas that forms describe, and what is wrong with the forms that describe none. Of several
mistakes the first one in the text counts. -/
namespace ValidatorGen

open Json

namespace Messages

def entryOfHead : Head → Verdict (Option String)
  | .text message => .ok (some message)
  | _ => .ok none

def entryOfForm (levels : Nat) (form : Form) : Verdict (Option String) :=
  match form, levels with
  | .list _, 0 | .object _, 0 => .refuse .tooDeep
  | .object members, _ + 1 =>
    (fun _ => none) <$> foldMembers (fun _ _ _ => .ok ()) () members
  | form, _ => form.head >>= entryOfHead

def memberOfForm (levels : Nat) (m : Messages) (name : String) (form : Form) : Verdict Messages := do
  match ← Verdict.within (.key name) (entryOfForm levels form) with
  | some message => .ok (m.insert name message)
  | none => .ok m

def ofForm (levels : Nat) (form : Form) : Verdict Messages :=
  match form, levels with
  | .list _, 0 | .object _, 0 => .refuse .tooDeep
  | .object members, inner + 1 => foldMembers (memberOfForm inner) empty members
  | form, _ => (fun _ => empty) <$> form.head

end Messages

namespace Record

def memberOfForm (value : (s : Shape) → Form → Verdict s.Value) (r : Record) (name : String)
    (form : Form) : Verdict Record :=
  match Keyword.ofName? name with
  | none => .ok r
  | some k =>
    if r.has k then .refuse (.mismatch (.repeatedKeyword k))
    else r.set k <$> Verdict.within (.key name) (value k.shape form)

/-- The items from the given index on are the values of these keywords. -/
def ofItems (value : (s : Shape) → Form → Verdict s.Value) :
    List Keyword → Nat → Record → List Form → Verdict Record
  | [], _, r, [] => .ok r
  | [], _, _, _ :: _ => .refuse .trailingCharacters
  | k :: _, i, r, [] =>
    if k.mayEndBefore then .ok r else .refuse (.mismatch (.tooFewItems i))
  | k :: keywords, i, r, form :: items => do
    let v ← Verdict.within (.index i) (value k.shape form)
    ofItems value keywords (i + 1) (r.set k v) items

end Record

def nameOfForm (form : Form) : Verdict String := do Verdict.ofMismatch (← form.head).asText

def requiredNode (node? : Verdict (Option Node)) : Verdict Node := do
  Verdict.ofMismatch (requireNode (← node?))

namespace Shape

def ofHead : (s : Shape) → Head → Except Mismatch s.Value
  | .text, h => h.optional Head.asText
  | .count, h => h.optional Head.asCount
  | .number, h => h.optional Head.asNumber
  | .node, .null => .ok none
  | .node, h => .error (.unexpected h .node)
  | .properties, h => .error (.unexpected h .properties)
  | .names, h => .error (.unexpected h .names)
  | .messages, _ => .ok .empty

/-- The value of a keyword of this shape, if the form opens no more than so many levels. -/
def ofForm : Nat → (s : Shape) → Form → Verdict s.Value
  | 0, .node, .list _ | 0, .node, .object _ | 0, .properties, .object _ | 0, .names, .list _ =>
    .refuse .tooDeep
  | inner + 1, .node, .list items =>
    (some ∘ Node.ofRecord) <$> Record.ofItems (ofForm inner) Keyword.all 0 .empty items
  | inner + 1, .node, .object members =>
    (some ∘ Node.ofRecord) <$> foldMembers (Record.memberOfForm (ofForm inner)) .empty members
  | inner + 1, .properties, .object members =>
    foldMembers (fun properties name form =>
      (Entries.put name · properties) <$>
        Verdict.within (.key name) (requiredNode (ofForm inner .node form))) [] members
  | _ + 1, .names, .list items =>
    List.reverse <$> foldItems (fun names form => (· :: names) <$> nameOfForm form) 0 [] items
  | levels, .messages, form => Messages.ofForm levels form
  | _, s, form => do Verdict.ofMismatch (s.ofHead (← form.head))

theorem ofForm_of_isScalar (levels : Nat) (s : Shape) {form : Form} (hscalar : form.IsScalar) :
    ofForm levels s form = form.head >>= fun h => .ofMismatch (s.ofHead h) := by
  cases form with
  | list items | object members => exact hscalar.elim
  | null | boolean b | number n | text pieces => cases levels <;> cases s <;> rfl

end Shape

def Node.ofForm (levels : Nat) (form : Form) : Verdict Node :=
  requiredNode (Shape.ofForm levels .node form)

end ValidatorGen
