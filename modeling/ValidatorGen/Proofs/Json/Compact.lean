import Mathlib.Data.List.Forall2
import ValidatorGen.Proofs.Json.OfForm

/-! Objects with nothing but what is needed between their members. Main statements: such a text is
that of an object, and the names come to what they were quoted from. -/
namespace ValidatorGen.Json

/-- The whole text is written as this form, with blanks around it. -/
def IsTextOf (form : Form) (text : List Char) : Prop :=
  ∃ before chars after, IsBlanks before ∧ IsBlanks after ∧ Written form chars
    ∧ text = before ++ (chars ++ after)

theorem Written.isTextOf {form : Form} {chars : List Char} (h : Written form chars) :
    IsTextOf form chars := ⟨[], chars, [], isBlanks_nil, isBlanks_nil, h, by simp⟩

theorem spells_iff {text : String} {value : Json} :
    Spells text value ↔ ∃ form, IsTextOf form text.toList ∧ form.value? maxLevels = some value := by
  constructor
  · rintro ⟨form, before, chars, after, hbefore, hafter, hwritten, htext, hvalue⟩
    exact ⟨form, ⟨before, chars, after, hbefore, hafter, hwritten, htext⟩, hvalue⟩
  · rintro ⟨form, ⟨before, chars, after, hbefore, hafter, hwritten, htext⟩, hvalue⟩
    exact ⟨form, before, chars, after, hbefore, hafter, hwritten, htext, hvalue⟩

def Form.ofText (text : String) : Form := .text (Text.quotedPieces text.toList)

/-- An object with these names, as they are quoted. -/
def Form.ofMembers (members : List (String × Form)) : Form :=
  .object (members.map fun member => (Text.quotedPieces member.1.toList, member.2))

def compactMembers : Bool → List (String × List Char) → List Char
  | _, [] => ['}']
  | first, (name, chars) :: members =>
    (if first then [] else [',']) ++ (Text.quoteChars name.toList ++ ':' :: (chars
      ++ compactMembers false members))

def compactObject (members : List (String × List Char)) : List Char :=
  '{' :: compactMembers true members

theorem quoteChars_eq_quotedPieces (text : List Char) :
    Text.quoteChars text = '"' :: (Text.bodyChars (Text.quotedPieces text) ++ ['"']) :=
  Text.quoteChars_eq text

theorem isTextOf_quoteChars (text : String) :
    IsTextOf (.ofText text) (Text.quoteChars text.toList) := by
  rw [quoteChars_eq_quotedPieces]
  exact (Written.text (Text.proper_quotedPieces text.toList)).isTextOf

/-- Members in turn; the blanks after a value belong to what follows it. -/
theorem membersWritten_compact {members : List (String × Form)} {texts : List (String × List Char)}
    (h : List.Forall₂ (fun member text => member.1 = text.1 ∧ IsTextOf member.2 text.2)
      members texts) (first : Bool) {blanks : List Char} (hblanks : IsBlanks blanks) :
    MembersWritten first
      (members.map fun member => (Text.quotedPieces member.1.toList, member.2))
      (blanks ++ compactMembers first texts) := by
  induction h generalizing first blanks with
  | nil => exact .close hblanks
  | @cons member text members texts hmember _ ih =>
    obtain ⟨name, form⟩ := member
    obtain ⟨_, _⟩ := text
    obtain ⟨rfl, before, chars, after, hbefore, hafter, hwritten, rfl⟩ := hmember
    have hseparator : Separator first (blanks ++ if first then [] else [',']) := by
      cases first with
      | false => exact .later hblanks isBlanks_nil
      | true => simpa using Separator.first hblanks
    have hmember := MembersWritten.member hseparator (Text.proper_quotedPieces name.toList)
      isBlanks_nil hbefore hwritten (ih false hafter)
    simpa [compactMembers, quoteChars_eq_quotedPieces] using hmember

theorem isTextOf_compactObject {members : List (String × Form)} {texts : List (String × List Char)}
    (h : List.Forall₂ (fun member text => member.1 = text.1 ∧ IsTextOf member.2 text.2)
      members texts) : IsTextOf (.ofMembers members) (compactObject texts) := by
  have hmembers := membersWritten_compact h true isBlanks_nil
  exact (Written.object hmembers).isTextOf

theorem foldMembers_ofMembers {σ : Type} (step : σ → String → Form → Verdict σ)
    (members : List (String × Form)) (state : σ) :
    foldMembers step state (members.map fun member => (Text.quotedPieces member.1.toList, member.2))
      = members.foldlM (fun state member => step state member.1 member.2) state := by
  induction members generalizing state with
  | nil => rfl
  | cons member members ih =>
    rw [List.map_cons, foldMembers, Text.decode_quotedPieces, List.foldlM_cons]
    simp only [Verdict.within_ok, Verdict.ok_bind, String.ofList_toList, ih]

theorem head_ofText (text : String) : (Form.ofText text).head = .ok (.text text) := by
  rw [Form.ofText, Form.head, Text.decode_quotedPieces, Verdict.map_ok, String.ofList_toList]

end ValidatorGen.Json
