/-! Named entries in the order in which their names first appeared. -/
namespace ValidatorGen.Entries

/-- Replaces the entry with this name where it stands, or appends one. -/
def put {α : Type} (name : String) (value : α) : List (String × α) → List (String × α)
  | [] => [(name, value)]
  | entry :: rest =>
    if entry.1 = name then (name, value) :: rest else entry :: put name value rest

/-- Puts entries in turn: each name keeps its first place and its last value. -/
def ofList {α : Type} (entries : List (String × α)) : List (String × α) :=
  entries.foldl (fun done entry => put entry.1 entry.2 done) []

theorem lookup_put {α : Type} (name other : String) (value : α) (entries : List (String × α)) :
    (put name value entries).lookup other
      = if other = name then some value else entries.lookup other := by
  induction entries with
  | nil => simp only [put, List.lookup_cons]; split <;> simp_all
  | cons head rest ih =>
    obtain ⟨first, old⟩ := head
    simp only [put]
    split
    · next heq => subst heq; simp only [List.lookup_cons]; split <;> simp_all
    · next hne =>
      simp only [List.lookup_cons, ih]
      by_cases h : other = first
      · simp [h, hne]
      · simp [beq_eq_false_iff_ne.2 h]

theorem put_of_notMem {α : Type} {name : String} (value : α) {entries : List (String × α)}
    (h : name ∉ entries.map (·.1)) : put name value entries = entries ++ [(name, value)] := by
  induction entries with
  | nil => rfl
  | cons head rest ih =>
    simp only [List.map_cons, List.mem_cons, not_or] at h
    simp [put, Ne.symm h.1, ih h.2]

/-- A new name comes last, a known one changes no name. -/
theorem names_put {α : Type} (name : String) (value : α) (entries : List (String × α)) :
    (put name value entries).map (·.1)
      = if name ∈ entries.map (·.1) then entries.map (·.1) else entries.map (·.1) ++ [name] := by
  induction entries with
  | nil => simp [put]
  | cons head rest ih =>
    by_cases h : head.1 = name
    · simp [put, h]
    · simp only [put, h, if_false, List.map_cons, ih, List.mem_cons, Ne.symm h, false_or]
      split <;> simp

end ValidatorGen.Entries
