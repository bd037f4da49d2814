import ValidatorGen.Entries
import ValidatorGen.Json.Basic

/-! Members with the same name. A value with all members of the text is filed anew, object by
object; if no object repeats a name, that changes nothing. -/
namespace ValidatorGen.Json

def IsScalar : Json → Prop
  | .list _ | .object _ => False
  | _ => True

/-- Induction over values, with all items or members of a container at once. -/
theorem induct {P : Json → Prop} (scalar : ∀ value : Json, value.IsScalar → P value)
    (list : ∀ items, (∀ item ∈ items, P item) → P (.list items))
    (object : ∀ members, (∀ member ∈ members, P member.2) → P (.object members)) :
    ∀ value, P value :=
  @Json.rec P (fun items => ∀ item ∈ items, P item) (fun members => ∀ member ∈ members, P member.2)
    (fun member => P member.2) (scalar _ trivial) (fun _ => scalar _ trivial)
    (fun _ => scalar _ trivial) (fun _ => scalar _ trivial) list object (by simp)
    (fun _ _ hitem hitems => List.forall_mem_cons.2 ⟨hitem, hitems⟩) (by simp)
    (fun _ _ hmember hmembers => List.forall_mem_cons.2 ⟨hmember, hmembers⟩) fun _ _ hvalue => hvalue

/-- Where a member goes among the members before it. -/
abbrev Filing := String → Json → List (String × Json) → List (String × Json)

mutual

/-- The value with the members of each object filed anew. -/
def refile (file : Filing) : Json → Json
  | .list items => .list (refileItems file items)
  | .object members => .object (refileMembers file members [])
  | value => value

def refileItems (file : Filing) : List Json → List Json
  | [] => []
  | item :: items => item.refile file :: refileItems file items

def refileMembers (file : Filing) :
    List (String × Json) → List (String × Json) → List (String × Json)
  | [], filed => filed
  | (name, value) :: members, filed =>
    refileMembers file members (file name (value.refile file) filed)

end

/-- Of members with the same name the first gives the place and the last the value. -/
def lastWins : Json → Json := refile Entries.put

def fileLast : Filing := fun name value filed => filed ++ [(name, value)]

theorem refile_scalar (file : Filing) {value : Json} (h : value.IsScalar) :
    value.refile file = value := by
  cases value with
  | null | boolean b | number n | text s => rfl
  | list items | object members => exact h.elim

theorem refileItems_eq_map (file : Filing) (items : List Json) :
    refileItems file items = items.map (refile file) := by
  induction items with
  | nil => rfl
  | cons item items ih => simp [refileItems, ih]

theorem refileItems_eq {file : Filing} {items : List Json}
    (h : ∀ item ∈ items, item.refile file = item) : refileItems file items = items := by
  rw [refileItems_eq_map, List.map_congr_left h, List.map_id']

theorem refileMembers_eq_foldl (file : Filing) (members filed : List (String × Json)) :
    refileMembers file members filed
      = members.foldl (fun filed member => file member.1 (member.2.refile file) filed) filed := by
  induction members generalizing filed with
  | nil => rfl
  | cons member members ih => exact ih _

theorem refileMembers_fileLast {members : List (String × Json)}
    (h : ∀ member ∈ members, member.2.refile fileLast = member.2) (filed : List (String × Json)) :
    refileMembers fileLast members filed = filed ++ members := by
  induction members generalizing filed with
  | nil => simp [refileMembers]
  | cons member members ih =>
    obtain ⟨hmember, hmembers⟩ := List.forall_mem_cons.1 h
    simp [refileMembers, hmember, ih hmembers, fileLast]

theorem refile_fileLast (value : Json) : value.refile fileLast = value := by
  induction value using induct with
  | scalar value hscalar => exact refile_scalar fileLast hscalar
  | list items ih => simp [refile, refileItems_eq ih]
  | object members ih => simp [refile, refileMembers_fileLast ih]

mutual

/-- No object, at any depth, repeats a name. -/
def NamesDistinct : Json → Prop
  | .list items => ItemsDistinct items
  | .object members => (members.map Prod.fst).Nodup ∧ MembersDistinct members
  | _ => True

def ItemsDistinct : List Json → Prop
  | [] => True
  | item :: items => item.NamesDistinct ∧ ItemsDistinct items

def MembersDistinct : List (String × Json) → Prop
  | [] => True
  | (_, value) :: members => value.NamesDistinct ∧ MembersDistinct members

end

theorem itemsDistinct_iff {items : List Json} :
    ItemsDistinct items ↔ ∀ item ∈ items, item.NamesDistinct := by
  induction items with
  | nil => simp [ItemsDistinct]
  | cons item items ih => simp [ItemsDistinct, ih]

theorem membersDistinct_iff {members : List (String × Json)} :
    MembersDistinct members ↔ ∀ member ∈ members, member.2.NamesDistinct := by
  induction members with
  | nil => simp [MembersDistinct]
  | cons member members ih =>
    rw [List.forall_mem_cons, ← ih]
    rfl

theorem refileMembers_put {members : List (String × Json)}
    (h : ∀ member ∈ members, member.2.lastWins = member.2) (filed : List (String × Json))
    (hnodup : ((filed ++ members).map Prod.fst).Nodup) :
    refileMembers Entries.put members filed = filed ++ members := by
  induction members generalizing filed with
  | nil => simp [refileMembers]
  | cons member members ih =>
    obtain ⟨name, value⟩ := member
    obtain ⟨hmember, hmembers⟩ := List.forall_mem_cons.1 h
    have hnew : name ∉ filed.map Prod.fst := by
      rw [List.map_append, List.nodup_append] at hnodup
      exact fun hmem => hnodup.2.2 name hmem name (by simp) rfl
    have hvalue : value.refile Entries.put = value := hmember
    have hput : Entries.put name value filed = filed ++ [(name, value)] :=
      Entries.put_of_notMem value hnew
    rw [refileMembers, hvalue, hput, ih hmembers _ (by simpa using hnodup)]
    simp

/-- Without repeated names nothing is put in the place of anything else. -/
theorem lastWins_of_namesDistinct {value : Json} (h : value.NamesDistinct) :
    value.lastWins = value := by
  induction value using induct with
  | scalar value hscalar => exact refile_scalar Entries.put hscalar
  | list items ih =>
    have hitems := itemsDistinct_iff.1 h
    have hrefile : refileItems Entries.put items = items :=
      refileItems_eq fun item hmem => ih item hmem (hitems item hmem)
    simp [lastWins, refile, hrefile]
  | object members ih =>
    have hmembers := membersDistinct_iff.1 h.2
    have hrefile := refileMembers_put
      (fun member hmem => ih member hmem (hmembers member hmem)) [] h.1
    simpa [lastWins, refile] using hrefile

end ValidatorGen.Json
