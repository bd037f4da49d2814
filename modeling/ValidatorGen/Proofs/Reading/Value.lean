import ValidatorGen.Proofs.Json.Compact
import ValidatorGen.Proofs.Reading.Judges
import ValidatorGen.Proofs.Reading.Starts
import ValidatorGen.Reading.Value

/-! Reading any JSON value. Main statements: a text is read exactly if it spells a value, and comes
to that value, where of members with the same name the last one wins; and it spells one value. -/
namespace ValidatorGen.Json

open Reader

/-- Goes on after the head of a value; the members of objects are filed in any way. -/
def readRest (file : Filing) : Nat → Head → Reader Json
  | _, .null => pure .null
  | _, .boolean b => pure (.boolean b)
  | _, .number n => pure (.number n)
  | _, .text s => pure (.text s)
  | 0, .list | 0, .object => Reader.failNext .tooDeep
  | inner + 1, .list => do
    let items ← Reader.list (fun items => (· :: items) <$> (Reader.head >>= readRest file inner)) []
    return .list items.reverse
  | inner + 1, .object =>
    .object <$> Reader.object
      (fun members name => (file name · members) <$>
        Reader.valueOf name (Reader.head >>= readRest file inner)) []

def readWith (file : Filing) (levels : Nat) : Reader Json := Reader.head >>= readRest file levels

theorem read_eq (levels : Nat) : read levels = readWith Entries.put levels := by
  induction levels with
  | zero =>
    unfold read readWith
    congr
    funext h
    cases h <;> rfl
  | succ inner ih =>
    unfold read readWith
    congr
    funext h
    cases h <;> simp only [readRest, ih, readWith]

theorem readRest_of_ne (file : Filing) (levels : Nat) {h : Head} (hlist : h ≠ .list)
    (hobject : h ≠ .object) : readRest file levels h = pure h.bare := by
  cases h with
  | list => exact absurd rfl hlist
  | object => exact absurd rfl hobject
  | null | boolean b | number n | text s => cases levels <;> rfl

theorem readRest_list (file : Filing) (inner : Nat) : readRest file (inner + 1) .list = (do
    let items ← Reader.list (fun items => (· :: items) <$> readWith file inner) []
    return .list items.reverse) := rfl

theorem readRest_object (file : Filing) (inner : Nat) : readRest file (inner + 1) .object
    = .object <$> Reader.object (fun members name =>
        (file name · members) <$> Reader.valueOf name (readWith file inner)) [] := rfl

theorem judges_readWith (file : Filing) (levels : Nat) :
    Judges (readWith file levels) (ofForm file levels) := by
  have scalars (levels : Nat) (form : Form) (hscalar : form.IsScalar) : ofForm file levels form
      = form.head >>= fun h => .ok h.bare := by
    rw [ofForm_of_isScalar file levels hscalar]
    cases form.head <;> rfl
  have heads (levels : Nat) (h : Head) (hlist : h ≠ .list) (hobject : h ≠ .object)
      (rest : List Char) :
      (readRest file levels h).outcome rest = (fun v => (v, rest)) <$> Except.ok h.bare := by
    rw [readRest_of_ne file levels hlist hobject]
    rfl
  induction levels with
  | zero =>
    refine Judges.ofHead _ (scalars 0) (heads 0) ?_ ?_
    · intro items chars _ rest
      rfl
    · intro members chars _ rest
      rfl
  | succ inner ih =>
    refine Judges.ofHead _ (scalars (inner + 1)) (heads (inner + 1)) ?_ ?_
    · intro items chars hitems rest
      have hlist := outcome_list (fun done => ih.map (· :: done)) hitems [] rest
      rw [readRest_list, outcome_bind, hlist, ofForm]
      cases foldItems (fun done form => (· :: done) <$> ofForm file inner form) 0 [] items <;> rfl
    · intro members chars hmembers rest
      have hobject := outcome_object
        (fun done name => (ih.valueOf name).map (file name · done)) hmembers [] rest
      rw [readRest_object, outcome_map, hobject, ofForm]
      cases foldMembers (fun done name form =>
        (file name · done) <$> Verdict.within (.key name) (ofForm file inner form)) [] members <;> rfl

theorem starts_readWith (file : Filing) (levels : Nat) : Starts (readWith file levels) := by
  have scalars (levels : Nat) (h : Head) (hlist : h ≠ .list) (hobject : h ≠ .object)
      (text : List Char) (value : Json) (rest : List Char)
      (hread : (readRest file levels h).result? text = some (value, rest)) : rest = text := by
    rw [readRest_of_ne file levels hlist hobject] at hread
    cases hread
    rfl
  induction levels with
  | zero =>
    apply Starts.ofHead (scalars 0)
    · rintro text value rest ⟨⟩
    · rintro text value rest ⟨⟩
  | succ inner ih =>
    apply Starts.ofHead (scalars (inner + 1))
    · intro text value rest hread
      simp only [readRest_list, result?_bind, Option.bind_eq_some_iff] at hread
      obtain ⟨⟨read, middle⟩, hread, h⟩ := hread
      cases h
      exact list_sound (fun done => ih.map (· :: done)) hread
    · intro text value rest hread
      rw [readRest_object, result?_map, Option.map_eq_some_iff] at hread
      obtain ⟨⟨read, middle⟩, hread, h⟩ := hread
      cases h
      exact object_sound (fun done name => (ih.valueOf name).map (file name · done)) hread

theorem run_readWith_eq_ok_iff {file : Filing} {text : String} {value : Json} :
    (Reader.whole (readWith file maxLevels)).run text = .ok value
      ↔ ∃ w, Spells text w ∧ w.refile file = value := by
  rw [run_whole_eq_ok_iff]
  constructor
  · rintro ⟨after, hafter, hread⟩
    obtain ⟨before, chars, form, hbefore, hwritten, htext⟩ := starts_readWith file maxLevels hread
    have hfollows : Follows after := by simpa using hafter.follows follows_nil
    have hjudged := judges_readWith file maxLevels hbefore hwritten after hfollows
    rw [result?_eq_toOption, htext, hjudged, toOption_map, toOption_ofForm, Option.map_map,
      Option.map_eq_some_iff] at hread
    obtain ⟨w, hw, heq⟩ := hread
    exact ⟨w, ⟨form, before, chars, after, hbefore, hafter, hwritten, htext, hw⟩,
      congrArg Prod.fst heq⟩
  · rintro ⟨w, ⟨form, before, chars, after, hbefore, hafter, hwritten, htext, hw⟩, rfl⟩
    have hfollows : Follows after := by simpa using hafter.follows follows_nil
    have hjudged := judges_readWith file maxLevels hbefore hwritten after hfollows
    refine ⟨after, hafter, ?_⟩
    rw [result?_eq_toOption, htext, hjudged, toOption_map, toOption_ofForm, hw]
    rfl

/-- A text is read exactly if it spells a value; of members with the same name the last wins. -/
theorem parse_eq_ok_iff {text : String} {value : Json} :
    parse text = .ok value ↔ ∃ w, Spells text w ∧ w.lastWins = value := by
  rw [parse, read_eq]
  exact run_readWith_eq_ok_iff

/-- A text spells one value. -/
theorem Spells.unique {text : String} {w w' : Json} (h : Spells text w) (h' : Spells text w') :
    w = w' := by
  have hread := run_readWith_eq_ok_iff.2 ⟨w, h, refile_fileLast w⟩
  have hread' := run_readWith_eq_ok_iff.2 ⟨w', h', refile_fileLast w'⟩
  exact Except.ok.inj (hread.symm.trans hread')

theorem exists_value_of_parse {text : String} {form : Form} (h : IsTextOf form text.toList)
    {value : Json} (hparse : parse text = .ok value) :
    ∃ w, form.value? maxLevels = some w ∧ w.lastWins = value := by
  obtain ⟨before, chars, after, hbefore, hafter, hwritten, htext⟩ := h
  have hfollows : Follows after := by simpa using hafter.follows follows_nil
  have hread := judges_readWith Entries.put maxLevels hbefore hwritten after hfollows
  rw [parse, read_eq] at hparse
  obtain ⟨rest, -, hresult⟩ := run_whole_eq_ok_iff.1 hparse
  rw [result?_eq_toOption, htext, hread, toOption_map, toOption_ofForm, Option.map_map,
    Option.map_eq_some_iff] at hresult
  obtain ⟨w, hw, heq⟩ := hresult
  exact ⟨w, hw, congrArg Prod.fst heq⟩

end ValidatorGen.Json
