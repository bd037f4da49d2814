import Mathlib.Data.List.Forall2
import ValidatorGen.Proofs.Compile.Value
import ValidatorGen.Proofs.Expression.Agrees

/-! Slots of a chain of calls. No name belongs to two slots, so a chain shows which of its slots are
filled and with what. -/
namespace ValidatorGen

variable {r : Binary64 → Binary64 → Prop}

/-- A slot is filled with a call of one of these names, or with none. -/
def Named (names : List String) (slot : Option Call) : Prop := ∀ call ∈ slot, call.name ∈ names

theorem named_none (names : List String) : Named names none := by simp [Named]

theorem named_some {names : List String} {call : Call} :
    Named names (some call) ↔ call.name ∈ names := by simp [Named]

theorem named_map {α : Type} {names : List String} {f : α → Call} (h : ∀ a, (f a).name ∈ names)
    (value : Option α) : Named names (value.map f) := by
  cases value with
  | none => exact named_none names
  | some a => exact named_some.2 (h a)

/-- Both slots are empty, or their calls agree. -/
def SlotAgrees (r : Binary64 → Binary64 → Prop) : Option Call → Option Call → Prop
  | none, none => True
  | some a, some b => a.Agrees r b
  | _, _ => False

theorem slotAgrees_none_left {slot : Option Call} : SlotAgrees r none slot ↔ slot = none := by
  cases slot <;> simp [SlotAgrees]

theorem slotAgrees_none_right {slot : Option Call} : SlotAgrees r slot none ↔ slot = none := by
  cases slot <;> simp [SlotAgrees]

theorem Call.Agrees.name_eq {a b : Call} (h : a.Agrees r b) : a.name = b.name := by
  cases a
  cases b
  exact h.1

theorem CallsAgree.names_eq {as bs : List Call} (h : CallsAgree r as bs) :
    as.map Call.name = bs.map Call.name := by
  induction as generalizing bs with
  | nil =>
    cases bs with
    | nil => rfl
    | cons b bs => exact h.elim
  | cons a as ih =>
    cases bs with
    | nil => exact h.elim
    | cons b bs => simp [h.1.name_eq, ih h.2]

theorem callsAgree_concat {as bs : List Call} {a b : Call} :
    CallsAgree r (as ++ [a]) (bs ++ [b]) ↔ CallsAgree r as bs ∧ a.Agrees r b := by
  induction as generalizing bs with
  | nil =>
    cases bs with
    | nil => simp [CallsAgree]
    | cons b' bs => cases bs <;> simp [CallsAgree]
  | cons a' as ih =>
    cases bs with
    | nil => cases as <;> simp [CallsAgree]
    | cons b' bs => simp [CallsAgree, ih, and_assoc]

theorem exists_names_of_mem_filled {names : List (List String)} {slots : List (Option Call)}
    (h : List.Forall₂ Named names slots) {call : Call} (hcall : call ∈ filled slots) :
    ∃ ns ∈ names, call.name ∈ ns := by
  induction h with
  | nil => simp at hcall
  | cons hslot hrest ih =>
    rw [filled_cons, List.mem_append, Option.mem_toList] at hcall
    rcases hcall with hcall | hcall
    · exact ⟨_, by simp, hslot call hcall⟩
    · obtain ⟨ns, hns, hmem⟩ := ih hcall
      exact ⟨ns, by simp [hns], hmem⟩

/-- A call of one slot does not agree with what fills later slots. -/
theorem not_callsAgree_filled {ns : List String} {names : List (List String)}
    (hns : ∀ ns' ∈ names, List.Disjoint ns ns') {slots : List (Option Call)}
    (hslots : List.Forall₂ Named names slots) {call : Call} (hcall : call.name ∈ ns)
    (rest : List Call) : ¬CallsAgree r (call :: rest) (filled slots)
      ∧ ¬CallsAgree r (filled slots) (call :: rest) := by
  have away (h : (filled slots).map Call.name = (call :: rest).map Call.name) : False := by
    have hname : call.name ∈ (filled slots).map Call.name := by simp [h]
    obtain ⟨other, hother, hsame⟩ := List.mem_map.1 hname
    obtain ⟨ns', hns', hmem⟩ := exists_names_of_mem_filled hslots hother
    exact hns ns' hns' hcall (hsame ▸ hmem)
  constructor
  · intro h
    exact away h.names_eq.symm
  · intro h
    exact away h.names_eq

theorem callsAgree_filled_iff {names : List (List String)} (hnames : names.Pairwise List.Disjoint)
    {as bs : List (Option Call)} (ha : List.Forall₂ Named names as)
    (hb : List.Forall₂ Named names bs) :
    CallsAgree r (filled as) (filled bs) ↔ List.Forall₂ (SlotAgrees r) as bs := by
  induction ha generalizing bs with
  | nil =>
    cases hb
    simp [CallsAgree]
  | @cons ns a names as hslot hrest ih =>
    obtain @⟨⟩ | @⟨_, b, _, bs, hslot', hrest'⟩ := hb
    obtain ⟨hns, hpair⟩ := List.pairwise_cons.1 hnames
    rw [List.forall₂_cons, ← ih hpair hrest']
    cases a with
    | none =>
      cases b with
      | none => simp [SlotAgrees]
      | some y =>
        have hno := (not_callsAgree_filled (r := r) hns hrest (named_some.1 hslot')
          (filled bs)).2
        simpa [SlotAgrees] using hno
    | some x =>
      cases b with
      | none =>
        have hno := (not_callsAgree_filled (r := r) hns hrest' (named_some.1 hslot)
          (filled as)).1
        simpa [SlotAgrees] using hno
      | some y => simp [SlotAgrees, CallsAgree]

end ValidatorGen
