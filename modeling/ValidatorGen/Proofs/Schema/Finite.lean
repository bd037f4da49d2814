import ValidatorGen.Proofs.Numeric.Rounding
import ValidatorGen.Proofs.Reading.Numeral
import ValidatorGen.Proofs.Reading.Yields
import ValidatorGen.Reading.Node

/-! Schemas whose bounds are all finite. Main statement: every schema that is read is one. -/
namespace ValidatorGen

section

variable (N : Binary64 → Prop)

def Bounds.Every (b : Bounds) : Prop :=
  ∀ value ∈ [b.minimum, b.maximum, b.exclusiveMinimum, b.exclusiveMaximum, b.multipleOf],
    ∀ x ∈ value, N x

mutual

def Node.EveryBound : Node → Prop
  | .string _ content => EveryNested content
  | .integer b | .number b => b.Every N
  | .array _ items => EveryNested items
  | .object properties _ => EveryProperty properties
  | .boolean | .null | .any => True

def EveryNested : Option Node → Prop
  | none => True
  | some node => node.EveryBound

def EveryProperty : List (String × Node) → Prop
  | [] => True
  | (_, node) :: rest => node.EveryBound ∧ EveryProperty rest

end

end

mutual

theorem Node.everyBound_of_forall {N : Binary64 → Prop} (h : ∀ x, N x) :
    (node : Node) → node.EveryBound N
  | .string _ content => everyNested_of_forall h content
  | .integer _ | .number _ => fun _ _ x _ => h x
  | .array _ items => everyNested_of_forall h items
  | .object properties _ => everyProperty_of_forall h properties
  | .boolean | .null | .any => trivial

theorem everyNested_of_forall {N : Binary64 → Prop} (h : ∀ x, N x) :
    (node : Option Node) → EveryNested N node
  | none => trivial
  | some node => node.everyBound_of_forall h

theorem everyProperty_of_forall {N : Binary64 → Prop} (h : ∀ x, N x) :
    (properties : List (String × Node)) → EveryProperty N properties
  | [] => trivial
  | (_, node) :: rest => ⟨node.everyBound_of_forall h, everyProperty_of_forall h rest⟩

end

/-- Every bound in a schema is a finite number. -/
abbrev Node.Finite (node : Node) : Prop := node.EveryBound fun x => x.isFinite

abbrev FiniteNested (node : Option Node) : Prop := EveryNested (fun x => x.isFinite) node

abbrev FiniteProperties (properties : List (String × Node)) : Prop :=
  EveryProperty (fun x => x.isFinite) properties

theorem finiteProperties_put {name : String} {node : Node} {properties : List (String × Node)}
    (h : node.Finite) (hrest : FiniteProperties properties) :
    FiniteProperties (Entries.put name node properties) := by
  induction properties with
  | nil => exact ⟨h, trivial⟩
  | cons p rest ih =>
    unfold Entries.put
    split
    · exact ⟨h, hrest.2⟩
    · exact ⟨hrest.1, ih hrest.2⟩

/-- The value of a keyword brings no infinite bound into a schema. -/
def Shape.FiniteValue : (s : Shape) → s.Value → Prop
  | .number, value => ∀ x ∈ value, x.isFinite
  | .node, value => FiniteNested value
  | .properties, value => FiniteProperties value
  | .text, _ | .count, _ | .names, _ | .messages, _ => True

def Record.Finite (r : Record) : Prop := ∀ k, ∀ value ∈ r k, k.shape.FiniteValue value

namespace Record

theorem finite_empty : empty.Finite := fun _ _ h => by cases h

theorem Finite.set {r : Record} {k : Keyword} {value : k.shape.Value} (h : r.Finite)
    (hvalue : k.shape.FiniteValue value) : (r.set k value).Finite :=
  forall_mem_set (P := fun k => k.shape.FiniteValue) h hvalue

theorem Finite.value {r : Record} (h : r.Finite) (k : Keyword) :
    k.shape.FiniteValue (r.value k) := by
  refine value_of_forall (P := fun k => k.shape.FiniteValue) h (fun k => ?_) k
  cases k <;> simp [Shape.FiniteValue, Shape.absent, Keyword.shape, EveryNested, EveryProperty]

end Record

theorem Node.finite_bounds {r : Record} (h : r.Finite) :
    (ofRecord.bounds r).Every fun x => x.isFinite := by
  simp only [Bounds.Every, List.forall_mem_cons]
  exact ⟨h.value .minimum, h.value .maximum, h.value .exclusiveMinimum, h.value .exclusiveMaximum,
    h.value .multipleOf, by simp⟩

theorem Node.finite_ofRecord {r : Record} (h : r.Finite) : (ofRecord r).Finite := by
  unfold ofRecord
  split
  · exact h.value .contentSchema
  · exact finite_bounds h
  · exact finite_bounds h
  · trivial
  · trivial
  · exact h.value .items
  · exact h.value .properties
  · trivial

def Json.Head.Finite : Head → Prop
  | .number n => n.toBinary64.isFinite
  | _ => True

namespace Reader

theorem yields_number : Yields (fun n => n.toBinary64.isFinite = true) number := by
  refine .bind (.true _) fun n _ => ?_
  split
  · next v hv => exact .pure (Numeral.isFinite_of_value? hv)
  · intro text a rest h
    cases h

theorem yields_head : Yields Json.Head.Finite head := by
  refine .bind (.true _) fun _ _ => .bind (.true _) fun c _ => ?_
  split
  · exact .failAhead 0 _
  · repeat' split
    · exact .pure trivial
    · exact .pure trivial
    · exact .bind (.true _) fun _ _ => .bind (.true _) fun _ _ => .pure trivial
    · exact .bind (.true _) fun _ _ => .pure trivial
    · exact .bind (.true _) fun _ _ => .pure trivial
    · exact .bind (.true _) fun _ _ => .pure trivial
    · exact .bind yields_number fun n hn => .pure hn
    · exact .failAhead 1 _

end Reader

section Record

variable {value : (s : Shape) → Reader s.Value}

theorem Record.yields_readMember (h : ∀ s, Reader.Yields s.FiniteValue (value s)) (r : Record)
    (name : String) (hr : r.Finite) : Reader.Yields Finite (readMember value r name) := by
  unfold readMember
  split
  · exact .map fun _ _ _ _ => hr
  · next k _ =>
    split
    · refine .bind (.true _) fun _ _ => .bind (.true _) fun _ _ => ?_
      dsimp only
      split
      · exact .bind (.true _) fun _ _ => .failAhead 0 _
      · exact .failAhead 0 _
    · exact .map fun text v rest hv => hr.set (Reader.Yields.valueOf (h k.shape) text v rest hv)

theorem Record.yields_readItems (h : ∀ s, Reader.Yields s.FiniteValue (value s))
    (keywords : List Keyword) (i : Nat) (r : Record) (hr : r.Finite) :
    Reader.Yields Finite (readItems value keywords i r) := by
  induction keywords generalizing i r with
  | nil => exact .pure hr
  | cons k keywords ih =>
    refine .bind (.true _) fun more _ => ?_
    split
    · exact .bind (.under (h k.shape)) fun v hv => ih (i + 1) _ (hr.set hv)
    · split
      · exact .pure hr
      · exact .bind (.true _) fun _ _ => .failAhead 0 _

theorem Record.yields_readList (h : ∀ s, Reader.Yields s.FiniteValue (value s)) :
    Reader.Yields Finite (readList value) :=
  .bind (.true _) fun _ _ => .bind (yields_readItems h _ _ _ finite_empty) fun _ hr =>
    .bind (.true _) fun _ _ => .pure hr

end Record

theorem Json.Head.finite_optional_asNumber {h : Json.Head} (hh : h.Finite) {x? : Option Binary64}
    (hx : h.optional asNumber = .ok x?) : ∀ x ∈ x?, x.isFinite := by
  cases h <;> cases hx
  case null => simp
  case number n =>
    rintro x hx
    cases hx
    exact hh

theorem Shape.yields_afterHead {next : (s : Shape) → Json.Head → Reader s.Value}
    (h : ∀ s head, head.Finite → Reader.Yields s.FiniteValue (next s head)) (s : Shape) :
    Reader.Yields s.FiniteValue (afterHead next s) :=
  .bind Reader.yields_head fun head hhead => h s head hhead

theorem Shape.yields_readFrom (levels : Nat) (s : Shape) (h : Json.Head) (hh : h.Finite) :
    Reader.Yields s.FiniteValue (readFrom levels s h) := by
  induction levels generalizing s h with
  | zero =>
    cases s
    case text | count | names | messages => exact fun _ _ _ _ => trivial
    case number => exact .orMismatch fun _ hx => Json.Head.finite_optional_asNumber hh hx
    case node =>
      cases h
      case null => exact .pure trivial
      case list | object => exact .failAhead 1 _
      all_goals exact .failAhead 0 _
    case properties =>
      cases h
      case object => exact .failAhead 1 _
      all_goals exact .failAhead 0 _
  | succ inner ih =>
    have nested := yields_afterHead ih
    cases s
    case text | count | names | messages => exact fun _ _ _ _ => trivial
    case number => exact .orMismatch fun _ hx => Json.Head.finite_optional_asNumber hh hx
    case node =>
      cases h
      case null => exact .pure trivial
      case list =>
        have hrecord := Record.yields_readList nested
        exact .map fun text r rest hr => Node.finite_ofRecord (hrecord text r rest hr)
      case object =>
        have hrecord := Reader.Yields.object (Record.yields_readMember nested) Record.finite_empty
        exact .map fun text r rest hr => Node.finite_ofRecord (hrecord text r rest hr)
      all_goals exact .failAhead 0 _
    case properties =>
      cases h
      case object =>
        refine Reader.Yields.object (I := FiniteProperties) (fun properties name hp => ?_) trivial
        refine .bind (P := Node.Finite) (.valueOf (.bind (nested .node) fun node? hnode => ?_))
          fun node hnode => .pure (finiteProperties_put hnode hp)
        refine .orMismatch fun node hrequire => ?_
        cases node? with
        | none => cases hrequire
        | some _ =>
          cases hrequire
          exact hnode
      all_goals exact .failAhead 0 _

/-- Whatever is read as a schema has finite bounds only. -/
theorem Node.finite_of_parse {text : String} {node : Node} (h : parse text = .ok node) :
    node.Finite := by
  have hread : Reader.Yields Finite read := by
    refine .bind (Shape.yields_afterHead (Shape.yields_readFrom maxLevels) .node)
      fun node? hnode => .orMismatch fun node hrequire => ?_
    cases node? with
    | none => cases hrequire
    | some _ =>
      cases hrequire
      exact hnode
  unfold parse Reader.run at h
  split at h
  · next node' rest hok =>
    cases h
    exact hread _ _ _ (Reader.result?_eq_some_iff.2 hok)
  · cases h

end ValidatorGen
