import ValidatorGen.Schema.Keyword

/-! Custom messages, filed under the keyword whose default message they replace. The entries are
sorted by key, so two collections with the same entries are equal. -/
namespace ValidatorGen

structure Messages where
  entries : List (String × String)
  sorted : entries.Pairwise (·.1 < ·.1)
deriving DecidableEq, Repr

namespace Messages

def empty : Messages := ⟨[], .nil⟩

instance : Inhabited Messages := ⟨empty⟩

def isEmpty (m : Messages) : Bool := m.entries.isEmpty

def get (m : Messages) (key : String) : Option String := m.entries.lookup key

def forKeyword (m : Messages) (k : Keyword) : Option String := m.get k.name

/-- Puts an entry at its place, instead of an earlier one with the same key. -/
def insertSorted (key message : String) : List (String × String) → List (String × String)
  | [] => [(key, message)]
  | entry :: rest =>
    if key < entry.1 then (key, message) :: entry :: rest
    else if key = entry.1 then (key, message) :: rest
    else entry :: insertSorted key message rest

theorem mem_insertSorted {key message : String} {entries : List (String × String)}
    {entry : String × String} (h : entry ∈ insertSorted key message entries) :
    entry = (key, message) ∨ entry ∈ entries := by
  induction entries with
  | nil => simpa [insertSorted] using h
  | cons head rest ih =>
    unfold insertSorted at h
    split at h
    · simpa using h
    · split at h
      · rcases List.mem_cons.1 h with h | h
        · exact .inl h
        · exact .inr (List.mem_cons_of_mem _ h)
      · rcases List.mem_cons.1 h with h | h
        · exact .inr (h ▸ List.mem_cons_self)
        · exact (ih h).imp_right (List.mem_cons_of_mem _)

theorem insertSorted_sorted {key message : String} {entries : List (String × String)}
    (h : entries.Pairwise (·.1 < ·.1)) :
    (insertSorted key message entries).Pairwise (·.1 < ·.1) := by
  induction entries with
  | nil => simp [insertSorted]
  | cons head rest ih =>
    rw [List.pairwise_cons] at h
    unfold insertSorted
    split
    · next hlt =>
      refine List.pairwise_cons.2 ⟨fun entry he => ?_, List.pairwise_cons.2 h⟩
      rcases List.mem_cons.1 he with rfl | he
      · exact hlt
      · exact String.lt_trans hlt (h.1 entry he)
    · split
      · next heq => exact List.pairwise_cons.2 ⟨fun entry he => heq ▸ h.1 entry he, h.2⟩
      · next hle hne =>
        refine List.pairwise_cons.2 ⟨fun entry he => ?_, ih h.2⟩
        rcases mem_insertSorted he with rfl | he
        · rcases Std.lt_trichotomy key head.1 with h' | h' | h'
          · exact absurd h' hle
          · exact absurd h' hne
          · exact h'
        · exact h.1 entry he

def insert (m : Messages) (key message : String) : Messages :=
  ⟨insertSorted key message m.entries, insertSorted_sorted m.sorted⟩

/-- Files the entries in turn, so the last one with a key counts. -/
def ofList (entries : List (String × String)) : Messages :=
  entries.foldl (fun m entry => m.insert entry.1 entry.2) empty

@[simp] theorem get_empty (key : String) : empty.get key = none := rfl

theorem lookup_insertSorted (key message other : String) (entries : List (String × String)) :
    (insertSorted key message entries).lookup other
      = if other = key then some message else entries.lookup other := by
  induction entries with
  | nil => simp only [insertSorted, List.lookup_cons]; split <;> simp_all
  | cons head rest ih =>
    obtain ⟨name, text⟩ := head
    simp only [insertSorted]
    split
    · simp only [List.lookup_cons]; split <;> simp_all
    · split
      · next heq => subst heq; simp only [List.lookup_cons]; split <;> simp_all
      · next hne =>
        simp only [List.lookup_cons, ih]
        by_cases h : other = name
        · simp [h, Ne.symm hne]
        · simp [beq_eq_false_iff_ne.2 h]

@[simp] theorem get_insert (m : Messages) (key message other : String) :
    (m.insert key message).get other = if other = key then some message else m.get other :=
  lookup_insertSorted key message other m.entries

end Messages
end ValidatorGen
