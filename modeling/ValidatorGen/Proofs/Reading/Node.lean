import ValidatorGen.Proofs.Reading.Forms
import ValidatorGen.Proofs.Schema.Valued

/-! Reading schemas straight from texts. Main statement: that is the same as reading the JSON value
of the whole text first, if no object repeats a name. -/
namespace ValidatorGen

open Json Reader

/-- A text that spells a value is read like that value, all its members taken one by one. -/
theorem Node.parse_eq_ok_iff_of_spells {text : String} {value : Json} (h : Spells text value)
    (node : Node) : Node.parse text = .ok node ↔ Node.ofJson value = .ok node := by
  obtain ⟨form, htext, hvalue⟩ := spells_iff.1 h
  have hread := congrArg Except.toOption (Node.complaint_parse htext)
  rw [Node.toOption_ofForm hvalue, toOption_mapError] at hread
  rw [← toOption_eq_some_iff, hread, toOption_eq_some_iff]

/-- Reading a schema straight from a text is the same as reading the JSON value of the text first,
if no object in the text repeats a name. -/
theorem Node.parse_eq_ok_iff_ofJson {text : String} {value : Json}
    (hvalue : Json.parse text = .ok value)
    (hdistinct : ∀ w, Spells text w → w.NamesDistinct) (node : Node) :
    Node.parse text = .ok node ↔ Node.ofJson value = .ok node := by
  obtain ⟨w, hspells, rfl⟩ := Json.parse_eq_ok_iff.1 hvalue
  rw [lastWins_of_namesDistinct (hdistinct w hspells)]
  exact Node.parse_eq_ok_iff_of_spells hspells node

theorem spells_required :
    Spells "\x7b\"type\":\"object\", \"required\":[\"a\"]\x7d"
      (.object [("type", .text "object"), ("required", .list [.text "a"])]) := by
  have hproper (s : String) (h : s ∈ ["type", "object", "required", "a"]) :
      ∀ p ∈ s.toList.map Text.Piece.plain, p.Proper := by
    simp only [List.mem_cons, List.not_mem_nil, or_false] at h
    rcases h with rfl | rfl | rfl | rfl <;> simp [Text.Piece.Proper]
  have hblank : IsBlanks [' '] := by simp [IsBlanks, isBlank]
  have hseparator : Separator false ([] ++ ',' :: [' ']) := .later isBlanks_nil hblank
  have hobject := Written.text (hproper "object" (by simp))
  have hlist := Written.list (.item (.first isBlanks_nil) (.text (hproper "a" (by simp)))
    (.close isBlanks_nil))
  have hrequired := MembersWritten.member hseparator (hproper "required" (by simp)) isBlanks_nil
    isBlanks_nil hlist (.close isBlanks_nil)
  have hmembers := MembersWritten.member (.first isBlanks_nil) (hproper "type" (by simp))
    isBlanks_nil isBlanks_nil hobject hrequired
  exact ⟨_, [], _, [], isBlanks_nil, isBlanks_nil, .object hmembers, by decide +kernel, rfl⟩

theorem Node.parse_required :
    Json.parse "\x7b\"type\":\"object\", \"required\":[\"a\"]\x7d"
        = .ok (.object [("type", .text "object"), ("required", .list [.text "a"])])
      ∧ (∀ w, Spells "\x7b\"type\":\"object\", \"required\":[\"a\"]\x7d" w → w.NamesDistinct)
      ∧ Node.parse "\x7b\"type\":\"object\", \"required\":[\"a\"]\x7d"
        = .ok (.object [] ["a"]) := by
  have hdistinct : NamesDistinct
      (.object [("type", .text "object"), ("required", .list [.text "a"])]) := by
    simp [NamesDistinct, ItemsDistinct, MembersDistinct]
  have hvalue := Json.parse_eq_ok_iff.2
    ⟨_, spells_required, lastWins_of_namesDistinct hdistinct⟩
  have hnames := fun w (hw : Spells _ w) => spells_required.unique hw ▸ hdistinct
  exact ⟨hvalue, hnames, (Node.parse_eq_ok_iff_ofJson hvalue hnames _).2 rfl⟩

end ValidatorGen
