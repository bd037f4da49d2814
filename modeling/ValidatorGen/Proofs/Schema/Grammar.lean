import ValidatorGen.Proofs.Json.Names
import ValidatorGen.Schema.OfJson

/-! Which JSON values are schemas. Main statement: exactly the values of a grammar are accepted, and
a list of the values of keywords is accepted as the object with these members. -/
namespace ValidatorGen

open Json

mutual

/-- Objects whose keywords fit, and lists of fitting values of all keywords, of which the last three
may be left out. -/
inductive Json.IsSchema : Json → Prop
  | object {members : List (String × Json)}
      (h : ∀ member ∈ members, ∀ k : Keyword, member.1 = k.name → member.2.Fits k.shape) :
      IsSchema (.object members)
  | list {items : List Json} (hmin : 16 ≤ items.length) (hmax : items.length ≤ 19)
      (h : ∀ entry ∈ Keyword.all.zip items, entry.2.Fits entry.1.shape) :
      IsSchema (.list items)

/-- What may be written for a keyword of the given shape, whatever the type of the schema. -/
inductive Json.Fits : Json → Shape → Prop
  | absent {s : Shape} (h : s ∈ [.text, .count, .number, .node]) : Fits .null s
  | text (s : String) : Fits (.text s) .text
  | count (n : UInt64) : Fits (.number (.natural n)) .count
  | number (n : Number) : Fits (.number n) .number
  | node {value : Json} (h : value.IsSchema) : Fits value .node
  | properties {members : List (String × Json)} (h : ∀ member ∈ members, member.2.IsSchema) :
      Fits (.object members) .properties
  | names {items : List Json} (h : ∀ item ∈ items, ∃ name, item = .text name) :
      Fits (.list items) .names
  | messages (value : Json) : Fits value .messages

end

def Succeeds {ε α : Type} (e : Except ε α) : Prop := ∃ a, e = .ok a

section Succeeds

variable {ε α β : Type}

@[simp] theorem succeeds_ok (a : α) : Succeeds (.ok a : Except ε α) := ⟨a, rfl⟩

@[simp] theorem not_succeeds_error (e : ε) : ¬Succeeds (.error e : Except ε α) :=
  fun ⟨_, h⟩ => nomatch h

@[simp] theorem succeeds_map (f : α → β) (e : Except ε α) : Succeeds (f <$> e) ↔ Succeeds e := by
  cases e <;> simp [Functor.map, Except.map]

/-- A step whose result has no influence on whether the rest succeeds. -/
theorem succeeds_bind {P : Prop} {e : Except ε α} {f : α → Except ε β}
    (h : ∀ a, Succeeds (f a) ↔ P) : Succeeds (e >>= f) ↔ Succeeds e ∧ P := by
  cases e with
  | error e => simp [bind, Except.bind]
  | ok a => simpa [bind, Except.bind] using h a

end Succeeds

theorem succeeds_namesOfItems (items : List Json) :
    Succeeds (namesOfItems items) ↔ ∀ item ∈ items, ∃ name, item = .text name := by
  induction items with
  | nil => simp [namesOfItems]
  | cons item items ih =>
    have hitem : Succeeds item.head.asText ↔ ∃ name, item = .text name := by
      cases item <;> simp [head, Head.asText]
    rw [namesOfItems, List.forall_mem_cons, ← hitem, ← ih]
    exact succeeds_bind fun name => succeeds_map _ _

theorem succeeds_propertiesOfMembers (members : List (String × Json))
    (properties : List (String × Node)) :
    Succeeds (propertiesOfMembers members properties)
      ↔ ∀ member ∈ members, Succeeds (Node.ofJson member.2) := by
  induction members generalizing properties with
  | nil => simp [propertiesOfMembers]
  | cons member members ih =>
    obtain ⟨name, value⟩ := member
    have hmember : propertiesOfMembers ((name, value) :: members) properties
        = Node.ofJson value >>= fun node =>
          propertiesOfMembers members (Entries.put name node properties) := by
      rw [propertiesOfMembers, Node.ofJson, bind_assoc]
    rw [hmember, List.forall_mem_cons]
    exact succeeds_bind fun node => ih _

namespace Record

theorem has_set_of_ne (r : Record) {k other : Keyword} (value : k.shape.Value) (h : k ≠ other) :
    (r.set k value).has other = r.has other := by
  rw [has, has, set_of_ne r value h]

theorem succeeds_add {β : Type} {P : Prop} {r : Record} {k : Keyword}
    {value : Except Mismatch k.shape.Value} {next : Record → Except Mismatch β}
    (h : ∀ v, Succeeds (next (r.set k v)) ↔ P) :
    Succeeds (r.add k value >>= next) ↔ Succeeds value ∧ P := by
  rw [add, bind_map_left]
  exact succeeds_bind h

end Record

theorem succeeds_recordOfMembers {members : List (String × Json)}
    (hnodup : (members.map Prod.fst).Nodup) {r : Record}
    (hfresh : ∀ k : Keyword, k.name ∈ members.map Prod.fst → r.has k = false) :
    Succeeds (recordOfMembers members r) ↔ ∀ member ∈ members, ∀ k : Keyword,
      member.1 = k.name → Succeeds (k.shape.ofJson member.2) := by
  induction members generalizing r with
  | nil => simp [recordOfMembers]
  | cons member members ih =>
    obtain ⟨name, json⟩ := member
    obtain ⟨hname, hrest⟩ := List.nodup_cons.1 hnodup
    rw [recordOfMembers, List.forall_mem_cons]
    cases hk : Keyword.ofName? name with
    | none =>
      have hne (k : Keyword) : name ≠ k.name := fun h => by
        simp [h, Keyword.ofName?_name] at hk
      have htail := ih hrest fun k hmem => hfresh k (by simp [hmem])
      simpa [hne] using htail
    | some k =>
      obtain rfl := Keyword.eq_name_of_ofName? hk
      have hhas : r.has k = false := hfresh k (by simp)
      have htail (value : k.shape.Value) := ih (r := r.set k value) hrest fun other hmem => by
        have hne : k ≠ other := fun h => hname (h ▸ hmem)
        rw [r.has_set_of_ne value hne]
        exact hfresh other (by simp [hmem])
      simp [hhas, Record.succeeds_add htail]

/-- A list may end before a keyword only if it may do so, and has no items after the last one. -/
theorem succeeds_recordOfItems {items : List Json} {keywords : List Keyword} {r : Record} :
    Succeeds (recordOfItems items keywords r) ↔ items.length ≤ keywords.length
      ∧ (∀ k ∈ (keywords.drop items.length).head?, k.mayEndBefore)
      ∧ ∀ entry ∈ keywords.zip items, Succeeds (entry.1.shape.ofJson entry.2) := by
  induction items generalizing keywords r with
  | nil =>
    cases keywords with
    | nil => simp [recordOfItems]
    | cons k keywords => cases hk : k.mayEndBefore <;> simp [recordOfItems, hk]
  | cons json items ih =>
    cases keywords with
    | nil => simp [recordOfItems]
    | cons k keywords =>
      rw [recordOfItems, Record.succeeds_add fun value => ih]
      simp [and_left_comm]

theorem succeeds_recordOfItems_all {items : List Json} {r : Record} :
    Succeeds (recordOfItems items Keyword.all r) ↔ (16 ≤ items.length ∧ items.length ≤ 19)
      ∧ ∀ entry ∈ Keyword.all.zip items, Succeeds (entry.1.shape.ofJson entry.2) := by
  have hend : ∀ n < 20, (∀ k ∈ (Keyword.all.drop n).head?, k.mayEndBefore) ↔ 16 ≤ n := by decide
  have hlength : Keyword.all.length = 19 := rfl
  rw [succeeds_recordOfItems, hlength, ← and_assoc]
  refine and_congr_left fun _ => ?_
  constructor
  · rintro ⟨hmax, h⟩
    exact ⟨(hend _ (by omega)).1 h, hmax⟩
  · rintro ⟨hmin, hmax⟩
    exact ⟨hmax, (hend _ (by omega)).2 hmin⟩

/-- A list of values of keywords is read as the object with these members. -/
theorem recordOfItems_eq_recordOfMembers {items : List Json} {keywords : List Keyword}
    (hnodup : keywords.Nodup) (hmax : items.length ≤ keywords.length)
    (hend : ∀ k ∈ (keywords.drop items.length).head?, k.mayEndBefore) {r : Record}
    (hfresh : ∀ k ∈ keywords, r.has k = false) :
    recordOfItems items keywords r
      = recordOfMembers ((keywords.map Keyword.name).zip items) r := by
  induction items generalizing keywords r with
  | nil =>
    cases keywords with
    | nil => rfl
    | cons k keywords =>
      have hk : k.mayEndBefore := hend k rfl
      simp [recordOfItems, recordOfMembers, hk]
  | cons json items ih =>
    cases keywords with
    | nil => simp at hmax
    | cons k keywords =>
      obtain ⟨hk, hrest⟩ := List.nodup_cons.1 hnodup
      have hhas : r.has k = false := hfresh k (by simp)
      rw [recordOfItems, List.map_cons, List.zip_cons_cons, recordOfMembers, Keyword.ofName?_name]
      simp only [hhas, Bool.false_eq_true, if_false, Record.add, bind_map_left]
      refine bind_congr fun value => ih hrest (by simpa using hmax) (by simpa using hend) ?_
      intro other hother
      have hne : k ≠ other := fun h => hk (h ▸ hother)
      rw [r.has_set_of_ne value hne]
      exact hfresh other (by simp [hother])

def Accepted (value : Json) (s : Shape) : Prop := Succeeds (s.ofJson value) ↔ value.Fits s

section Accepted

variable {value : Json} {s : Shape}

theorem accepted_of_read {result : s.Value} (hread : s.ofJson value = .ok result)
    (hfits : value.Fits s) : Accepted value s := by
  rw [Accepted, hread]
  exact iff_of_true (succeeds_ok _) hfits

theorem accepted_of_refused {fault : Mismatch} (hrefused : s.ofJson value = .error fault)
    (hfits : ¬value.Fits s) : Accepted value s := by
  rw [Accepted, hrefused]
  exact iff_of_false (not_succeeds_error _) hfits

end Accepted

theorem accepted_text (value : Json) : Accepted value .text := by
  cases value with
  | null => exact accepted_of_read rfl (.absent (by simp))
  | text s => exact accepted_of_read rfl (.text s)
  | boolean b | number n | list items | object members => exact accepted_of_refused rfl nofun

theorem accepted_count (value : Json) : Accepted value .count := by
  cases value with
  | null => exact accepted_of_read rfl (.absent (by simp))
  | number n =>
    cases n with
    | natural n => exact accepted_of_read rfl (.count n)
    | negative n | float x => exact accepted_of_refused rfl nofun
  | boolean b | text s | list items | object members => exact accepted_of_refused rfl nofun

theorem accepted_number (value : Json) : Accepted value .number := by
  cases value with
  | null => exact accepted_of_read rfl (.absent (by simp))
  | number n => exact accepted_of_read rfl (.number n)
  | boolean b | text s | list items | object members => exact accepted_of_refused rfl nofun

theorem accepted_names (value : Json) : Accepted value .names := by
  cases value with
  | list items =>
    rw [Accepted, Shape.ofJson, succeeds_namesOfItems]
    exact ⟨.names, fun h => by cases h; assumption⟩
  | null | boolean b | number n | text s | object members => exact accepted_of_refused rfl nofun

theorem Node.ofJson_object (members : List (String × Json)) :
    ofJson (.object members) = ofRecord <$> recordOfMembers members .empty := by
  rw [ofJson, Shape.ofJson]
  cases recordOfMembers members .empty <;> rfl

theorem Node.ofJson_list (items : List Json) :
    ofJson (.list items) = ofRecord <$> recordOfItems items Keyword.all .empty := by
  rw [ofJson, Shape.ofJson]
  cases recordOfItems items Keyword.all .empty <;> rfl

/-- A node may be left out where a schema is called for, except at the top and as a property. -/
theorem succeeds_node (value : Json) :
    Succeeds (Shape.node.ofJson value) ↔ value = .null ∨ Succeeds (Node.ofJson value) := by
  cases value with
  | null => exact iff_of_true (succeeds_ok _) (.inl rfl)
  | list items =>
    rw [Node.ofJson_list, Shape.ofJson, bind_pure_comp]
    simp
  | object members =>
    rw [Node.ofJson_object, Shape.ofJson, bind_pure_comp]
    simp
  | boolean b | number n | text s =>
    exact iff_of_false (not_succeeds_error _) (by simp [Node.ofJson, Shape.ofJson, bind,
      Except.bind])

theorem fits_node_iff {value : Json} : value.Fits .node ↔ value = .null ∨ value.IsSchema := by
  constructor
  · rintro (_ | _ | _ | _ | h)
    · exact .inl rfl
    · exact .inr h
  · rintro (rfl | h)
    · exact .absent (by simp)
    · exact .node h

theorem not_isSchema_null : ¬Json.IsSchema .null := fun h => nomatch h

theorem not_succeeds_ofJson_null : ¬Succeeds (Node.ofJson .null) := by
  rw [Node.ofJson, Shape.ofJson]
  exact not_succeeds_error _

theorem Accepted.succeeds_ofJson_iff {value : Json} (h : Accepted value .node) :
    Succeeds (Node.ofJson value) ↔ value.IsSchema := by
  rw [Accepted, succeeds_node, fits_node_iff] at h
  by_cases hnull : value = .null
  · subst hnull
    exact iff_of_false not_succeeds_ofJson_null not_isSchema_null
  · simpa [hnull] using h

theorem accepted_node_of {value : Json} (h : Succeeds (Node.ofJson value) ↔ value.IsSchema) :
    Accepted value .node := by
  rw [Accepted, succeeds_node, fits_node_iff, h]

theorem accepted_list {items : List Json} (h : ∀ item ∈ items, ∀ s, Accepted item s) :
    Accepted (.list items) .node := by
  have hentries (entry : Keyword × Json) (hentry : entry ∈ Keyword.all.zip items) :
      Succeeds (entry.1.shape.ofJson entry.2) ↔ entry.2.Fits entry.1.shape :=
    h entry.2 (List.of_mem_zip hentry).2 entry.1.shape
  refine accepted_node_of ?_
  rw [Node.ofJson_list, succeeds_map, succeeds_recordOfItems_all, forall₂_congr hentries]
  constructor
  · rintro ⟨⟨hmin, hmax⟩, hfits⟩
    exact .list hmin hmax hfits
  · rintro (_ | ⟨hmin, hmax, hfits⟩)
    exact ⟨⟨hmin, hmax⟩, hfits⟩

theorem accepted_object {members : List (String × Json)} (hnodup : (members.map Prod.fst).Nodup)
    (h : ∀ member ∈ members, ∀ s, Accepted member.2 s) : Accepted (.object members) .node := by
  have hmembers (member : String × Json) (hmember : member ∈ members) :
      (∀ k : Keyword, member.1 = k.name → Succeeds (k.shape.ofJson member.2))
        ↔ ∀ k : Keyword, member.1 = k.name → member.2.Fits k.shape :=
    forall₂_congr fun k _ => h member hmember k.shape
  refine accepted_node_of ?_
  rw [Node.ofJson_object, succeeds_map, succeeds_recordOfMembers hnodup fun _ _ => rfl,
    forall₂_congr hmembers]
  constructor
  · exact .object
  · rintro ⟨hfits⟩
    exact hfits

theorem accepted_properties {members : List (String × Json)}
    (h : ∀ member ∈ members, ∀ s, Accepted member.2 s) :
    Accepted (.object members) .properties := by
  have hmembers (member : String × Json) (hmember : member ∈ members) :
      Succeeds (Node.ofJson member.2) ↔ member.2.IsSchema :=
    (h member hmember .node).succeeds_ofJson_iff
  rw [Accepted, Shape.ofJson, succeeds_propertiesOfMembers, forall₂_congr hmembers]
  constructor
  · exact .properties
  · intro hfits
    cases hfits
    assumption

/-- Of the seven shapes, only two look into a value. -/
theorem accepted_of {value : Json} (hnode : Accepted value .node)
    (hproperties : Accepted value .properties) (s : Shape) : Accepted value s := by
  cases s with
  | text => exact accepted_text value
  | count => exact accepted_count value
  | number => exact accepted_number value
  | node => exact hnode
  | properties => exact hproperties
  | names => exact accepted_names value
  | messages =>
    have hread : Shape.messages.ofJson value = .ok (Messages.ofJson value) := by rw [Shape.ofJson]
    exact accepted_of_read hread (.messages value)

theorem accepted {value : Json} (h : value.NamesDistinct) : ∀ s, Accepted value s := by
  induction value using Json.induct with
  | scalar value hscalar =>
    cases value with
    | null =>
      have hnode : Accepted .null .node := accepted_of_read rfl (.absent (by simp))
      exact accepted_of hnode (accepted_of_refused rfl nofun)
    | boolean b | number n | text s =>
      refine accepted_of (accepted_of_refused rfl fun h => ?_) (accepted_of_refused rfl nofun)
      cases h with
      | node h => cases h
    | list items | object members => exact hscalar.elim
  | list items ih =>
    have hitems := itemsDistinct_iff.1 h
    have hnode := accepted_list fun item hmem => ih item hmem (hitems item hmem)
    exact accepted_of hnode (accepted_of_refused rfl nofun)
  | object members ih =>
    have hmembers := membersDistinct_iff.1 h.2
    have hinner (member : String × Json) (hmem : member ∈ members) :=
      ih member hmem (hmembers member hmem)
    exact accepted_of (accepted_object h.1 hinner) (accepted_properties hinner)

/-- Schemas are exactly the values of the grammar, and a list is read like the object that it stands
for. The objects of a value are maps: none has a name twice. -/
theorem Node.ofJson_accepts {value : Json} (h : value.NamesDistinct) :
    ((∃ node, Node.ofJson value = .ok node) ↔ value.IsSchema)
      ∧ ∀ items, value = .list items → 16 ≤ items.length → items.length ≤ 19 →
        Node.ofJson value = Node.ofJson (.object ((Keyword.all.map Keyword.name).zip items)) := by
  refine ⟨(accepted h .node).succeeds_ofJson_iff, ?_⟩
  rintro items rfl hmin hmax
  have hend : ∀ n < 20, 16 ≤ n → ∀ k ∈ (Keyword.all.drop n).head?, k.mayEndBefore := by decide
  rw [ofJson_list, ofJson_object, recordOfItems_eq_recordOfMembers (by decide) hmax
    (hend _ (by omega) hmin) fun _ _ => rfl]

/-- A type, fifteen times nothing, and the properties. -/
theorem Node.ofJson_accepts_seventeen : ∃ items : List Json, items.length = 17
    ∧ (Json.list items).NamesDistinct
    ∧ Node.ofJson (.list items) = .ok (.object [("a", .any)] []) ∧ (Json.list items).IsSchema
    ∧ Node.ofJson (.list items)
      = Node.ofJson (.object ((Keyword.all.map Keyword.name).zip items)) := by
  let items : List Json :=
    .text "object" :: List.replicate 15 .null ++ [.object [("a", .object [])]]
  have hdistinct : (Json.list items).NamesDistinct := by
    simp [items, NamesDistinct, ItemsDistinct, MembersDistinct, List.replicate]
  have hresult : Node.ofJson (.list items) = .ok (.object [("a", .any)] []) := rfl
  have haccepts := Node.ofJson_accepts hdistinct
  exact ⟨items, rfl, hdistinct, hresult, haccepts.1.1 ⟨_, hresult⟩,
    haccepts.2 items rfl (by decide) (by decide)⟩

end ValidatorGen
