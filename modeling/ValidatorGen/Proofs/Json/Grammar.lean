import ValidatorGen.Proofs.Json.NumberLiteral
import ValidatorGen.Proofs.Text.Literal
import ValidatorGen.Reading.Value

/-! The grammar of JSON texts, and the values they spell. A form keeps everything that counts: the
literals of numbers and texts, and all members of objects, those with a repeated name too. -/
namespace ValidatorGen.Json

inductive Form where
  | null
  | boolean (b : Bool)
  | number (n : Numeral)
  | text (pieces : List Text.Piece)
  | list (items : List Form)
  | object (members : List (List Text.Piece × Form))

def IsBlanks (text : List Char) : Prop := ∀ c ∈ text, Reader.isBlank c

theorem isBlanks_nil : IsBlanks [] := by simp [IsBlanks]

theorem IsBlanks.append {blanks blanks' : List Char} (h : IsBlanks blanks) (h' : IsBlanks blanks') :
    IsBlanks (blanks ++ blanks') := by
  simpa [IsBlanks, or_imp, forall_and] using ⟨h, h'⟩

/-- What stands before an item or a member: a comma, except for the first, and blanks. -/
inductive Separator : Bool → List Char → Prop
  | first {blanks : List Char} : IsBlanks blanks → Separator true blanks
  | later {blanks blanks' : List Char} : IsBlanks blanks → IsBlanks blanks' →
    Separator false (blanks ++ ',' :: blanks')

theorem Separator.exists_comma {separator : List Char} (h : Separator false separator) :
    ∃ blanks blanks', separator = blanks ++ ',' :: blanks' ∧ IsBlanks blanks ∧ IsBlanks blanks' := by
  cases h with
  | later hblanks hblanks' => exact ⟨_, _, rfl, hblanks, hblanks'⟩

theorem Separator.append {first : Bool} {separator blanks : List Char}
    (h : Separator first separator) (hblanks : IsBlanks blanks) :
    Separator first (separator ++ blanks) := by
  cases h with
  | first hfirst => exact .first (hfirst.append hblanks)
  | later hbefore hafter => simpa using Separator.later hbefore (hafter.append hblanks)

mutual

inductive Written : Form → List Char → Prop
  | null : Written .null "null".toList
  | boolean (b : Bool) : Written (.boolean b) (if b then "true" else "false").toList
  | number {n : Numeral} {chars : List Char} : n.Written chars → Written (.number n) chars
  | text {pieces : List Text.Piece} : (∀ p ∈ pieces, p.Proper) →
    Written (.text pieces) ('"' :: (Text.bodyChars pieces ++ ['"']))
  | list {items : List Form} {chars : List Char} : ItemsWritten true items chars →
    Written (.list items) ('[' :: chars)
  | object {members : List (List Text.Piece × Form)} {chars : List Char} :
    MembersWritten true members chars → Written (.object members) ('{' :: chars)

/-- Items and the bracket after them; the flag says whether they are from the first one on. -/
inductive ItemsWritten : Bool → List Form → List Char → Prop
  | close {first : Bool} {blanks : List Char} : IsBlanks blanks →
    ItemsWritten first [] (blanks ++ [']'])
  | item {first : Bool} {separator chars tail : List Char} {form : Form} {items : List Form} :
    Separator first separator → Written form chars → ItemsWritten false items tail →
    ItemsWritten first (form :: items) (separator ++ (chars ++ tail))

/-- Members and the bracket after them. -/
inductive MembersWritten : Bool → List (List Text.Piece × Form) → List Char → Prop
  | close {first : Bool} {blanks : List Char} : IsBlanks blanks →
    MembersWritten first [] (blanks ++ ['}'])
  | member {first : Bool} {separator blanks blanks' chars tail : List Char}
    {name : List Text.Piece} {form : Form} {members : List (List Text.Piece × Form)} :
    Separator first separator → (∀ p ∈ name, p.Proper) → IsBlanks blanks → IsBlanks blanks' →
    Written form chars → MembersWritten false members tail →
    MembersWritten first ((name, form) :: members) (separator
      ++ '"' :: (Text.bodyChars name ++ '"' :: (blanks ++ ':' :: (blanks' ++ (chars ++ tail)))))

end

/-- Induction over forms, with all items or members of a container at once. -/
theorem Form.induct {P : Form → Prop} (null : P .null) (boolean : ∀ b, P (.boolean b))
    (number : ∀ n, P (.number n)) (text : ∀ pieces, P (.text pieces))
    (list : ∀ items, (∀ item ∈ items, P item) → P (.list items))
    (object : ∀ members, (∀ member ∈ members, P member.2) → P (.object members)) :
    ∀ form, P form :=
  @Form.rec P (fun items => ∀ item ∈ items, P item) (fun members => ∀ member ∈ members, P member.2)
    (fun member => P member.2) null boolean number text list object (by simp)
    (fun _ _ hitem hitems => List.forall_mem_cons.2 ⟨hitem, hitems⟩) (by simp)
    (fun _ _ hmember hmembers => List.forall_mem_cons.2 ⟨hmember, hmembers⟩) fun _ _ hform => hform

/-- A value starts with a character that is no blank and closes no list. -/
theorem Written.exists_cons {form : Form} {chars : List Char} (h : Written form chars) :
    ∃ c tail, chars = c :: tail ∧ Reader.isBlank c = false ∧ c ≠ ']' := by
  cases h with
  | null => exact ⟨'n', "ull".toList, by decide, by decide, by decide⟩
  | boolean b =>
    cases b with
    | false => exact ⟨'f', "alse".toList, by decide, by decide, by decide⟩
    | true => exact ⟨'t', "rue".toList, by decide, by decide, by decide⟩
  | number hnumber =>
    obtain ⟨c, tail, rfl, -⟩ := hnumber.exists_cons
    have hc := hnumber.isNumeralChar c (by simp)
    refine ⟨c, tail, rfl, hc.isBlank, ?_⟩
    rintro rfl
    exact absurd hc (by decide)
  | text hproper => exact ⟨'"', _, rfl, by decide, by decide⟩
  | list hitems => exact ⟨'[', _, rfl, by decide, by decide⟩
  | object hmembers => exact ⟨'{', _, rfl, by decide, by decide⟩

def Form.IsScalar : Form → Prop
  | .list _ | .object _ => False
  | _ => True

theorem ItemsWritten.exists_append {first : Bool} {items : List Form} {chars : List Char}
    (h : ItemsWritten first items chars) : ∃ init, chars = init ++ [']'] := by
  induction items generalizing first chars with
  | nil =>
    obtain @⟨-, blanks, -⟩ := h
    exact ⟨blanks, rfl⟩
  | cons form items ih =>
    cases h with
    | item hseparator hwritten htail =>
      obtain ⟨init, rfl⟩ := ih htail
      exact ⟨_, by rw [← List.append_assoc, ← List.append_assoc]⟩

theorem MembersWritten.exists_append {first : Bool} {members : List (List Text.Piece × Form)}
    {chars : List Char} (h : MembersWritten first members chars) : ∃ init, chars = init ++ ['}'] := by
  induction members generalizing first chars with
  | nil =>
    obtain @⟨-, blanks, -⟩ := h
    exact ⟨blanks, rfl⟩
  | cons entry members ih =>
    cases h with
    | @member _ separator blanks blanks' chars _ name _ _ hseparator hproper hblanks hblanks'
        hwritten htail =>
      obtain ⟨init, rfl⟩ := ih htail
      refine ⟨separator ++ '"' :: (Text.bodyChars name ++ '"' :: (blanks ++ ':' ::
        (blanks' ++ (chars ++ init)))), ?_⟩
      simp

theorem Written.exists_append {form : Form} {chars : List Char} (h : Written form chars)
    (hscalar : ¬form.IsScalar) : ∃ init c, chars = init ++ [c] ∧ (c = '}' ∨ c = ']') := by
  cases h with
  | null | boolean b | number _ | text _ => exact absurd trivial hscalar
  | list hitems =>
    obtain ⟨init, rfl⟩ := ItemsWritten.exists_append hitems
    exact ⟨'[' :: init, ']', rfl, .inr rfl⟩
  | object hmembers =>
    obtain ⟨init, rfl⟩ := MembersWritten.exists_append hmembers
    exact ⟨'{' :: init, '}', rfl, .inl rfl⟩

/-- Nothing that would go on with a number comes first. -/
def Follows (rest : List Char) : Prop := ∀ c ∈ rest.head?, ¬IsNumeralChar c

theorem follows_nil : Follows [] := by simp [Follows]

theorem follows_cons {c : Char} (h : ¬IsNumeralChar c) (rest : List Char) : Follows (c :: rest) := by
  simpa [Follows] using h

theorem IsBlanks.follows {blanks rest : List Char} (h : IsBlanks blanks) (hrest : Follows rest) :
    Follows (blanks ++ rest) := by
  cases blanks with
  | nil => exact hrest
  | cons c blanks =>
    have hc : Reader.isBlank c := h c (by simp)
    refine follows_cons (fun hnumeral => ?_) _
    rw [hnumeral.isBlank] at hc
    cases hc

theorem Separator.follows {separator : List Char} (h : Separator false separator)
    (rest : List Char) : Follows (separator ++ rest) := by
  obtain ⟨blanks, blanks', rfl, hblanks, -⟩ := h.exists_comma
  have hcomma : Follows (',' :: (blanks' ++ rest)) := follows_cons (by decide) _
  simpa using hblanks.follows hcomma

theorem ItemsWritten.follows {items : List Form} {chars : List Char}
    (h : ItemsWritten false items chars) (rest : List Char) : Follows (chars ++ rest) := by
  cases h with
  | close hblanks =>
    have hclose : Follows (']' :: rest) := follows_cons (by decide) _
    simpa using hblanks.follows hclose
  | item hseparator _ _ => simpa using hseparator.follows _

theorem MembersWritten.follows {members : List (List Text.Piece × Form)} {chars : List Char}
    (h : MembersWritten false members chars) (rest : List Char) : Follows (chars ++ rest) := by
  cases h with
  | close hblanks =>
    have hclose : Follows ('}' :: rest) := follows_cons (by decide) _
    simpa using hblanks.follows hclose
  | member hseparator _ _ _ _ _ => simpa using hseparator.follows _

mutual

/-- The value that a form spells, with so many levels of containers allowed. Repeated names are
kept. Numbers may be too large to have a value, and texts may have half a pair of surrogates. -/
def Form.value? : Form → Nat → Option Json
  | .null, _ => some .null
  | .boolean b, _ => some (.boolean b)
  | .number n, _ => n.value?.map .number
  | .text pieces, _ => (Text.decode? pieces).map fun chars => .text (.ofList chars)
  | .list _, 0 => none
  | .list items, inner + 1 => (itemValues? items inner).map .list
  | .object _, 0 => none
  | .object members, inner + 1 => (memberValues? members inner).map .object
termination_by structural form => form

def itemValues? : List Form → Nat → Option (List Json)
  | [], _ => some []
  | form :: items, levels =>
    (form.value? levels).bind fun value => (itemValues? items levels).map (value :: ·)
termination_by structural items => items

def memberValues? : List (List Text.Piece × Form) → Nat → Option (List (String × Json))
  | [], _ => some []
  | (name, form) :: members, levels =>
    (Text.decode? name).bind fun chars => (form.value? levels).bind fun value =>
      (memberValues? members levels).map ((.ofList chars, value) :: ·)
termination_by structural members => members

end

/-- The whole text is written as a form of this value, with blanks around it. -/
def Spells (text : String) (value : Json) : Prop :=
  ∃ (form : Form) (before chars after : List Char), IsBlanks before ∧ IsBlanks after
    ∧ Written form chars ∧ text.toList = before ++ (chars ++ after)
    ∧ form.value? maxLevels = some value

end ValidatorGen.Json
