import Mathlib.Data.List.Sort
import Mathlib.Data.String.Basic
import ValidatorGen.Proofs.Expression.Agrees
import ValidatorGen.Proofs.Expression.Induction
import ValidatorGen.Proofs.Reading.Printed

/-! The code of expressions that are almost the same. Main statements: equal expressions have the
same code, although their zeros may differ in sign; sorting the entries of shapes by name moves
characters of the code, but adds and drops none. -/
namespace ValidatorGen

theorem SameValue.literalChars_eq {x y : Binary64} (h : SameValue x y) :
    x.literalChars = y.literalChars := by
  have hsame : x = y ∨ x.magnitude = 0 ∧ y.magnitude = 0 := by
    simp only [SameValue, Binary64.sameValue, Bool.and_eq_true, Bool.or_eq_true, beq_iff_eq] at h
    exact h.2
  obtain rfl | ⟨hx, hy⟩ := hsame
  · rfl
  · rw [Binary64.literalChars_of_magnitude_eq_zero hx,
      Binary64.literalChars_of_magnitude_eq_zero hy]

mutual

theorem Arg.Agrees.chars_eq : {a b : Arg} → a.Agrees SameValue b → a.chars = b.chars
  | .text _, .text _, h | .count _, .count _, h | .flag _, .flag _, h | .code _, .code _, h => by
    cases h
    rfl
  | .number _, .number _, h => SameValue.literalChars_eq h
  | .options _, .options _, h => congrArg objectLiteral (EntriesAgree.texts_eq h).1
  | .shape _, .shape _, h => congrArg objectLiteral (EntriesAgree.texts_eq h).2
  | .expression _, .expression _, h => Expression.Agrees.chars_eq h

theorem EntriesAgree.texts_eq : {as bs : List (String × Arg)} → EntriesAgree SameValue as bs →
    optionTexts as = optionTexts bs ∧ shapeTexts as = shapeTexts bs
  | [], [], _ => ⟨rfl, rfl⟩
  | (_, _) :: _, (_, _) :: _, ⟨hname, harg, hrest⟩ => by
    obtain ⟨hoptions, hshape⟩ := EntriesAgree.texts_eq hrest
    have hchars := Arg.Agrees.chars_eq harg
    simp only [optionTexts, shapeTexts, hname, hchars, hoptions, hshape, and_self]

theorem ArgsAgree.texts_eq : {as bs : List Arg} → ArgsAgree SameValue as bs →
    argTexts as = argTexts bs
  | [], [], _ => rfl
  | _ :: _, _ :: _, ⟨harg, hrest⟩ => by
    rw [argTexts, argTexts, Arg.Agrees.chars_eq harg, ArgsAgree.texts_eq hrest]

theorem Call.Agrees.chars_eq : {a b : Call} → a.Agrees SameValue b → a.chars = b.chars
  | ⟨_, _, _⟩, ⟨_, _, _⟩, ⟨hname, hargs, hmessage⟩ => by
    rw [Call.chars, Call.chars, hname, ArgsAgree.texts_eq hargs, hmessage]

theorem CallsAgree.chars_eq : {as bs : List Call} → CallsAgree SameValue as bs →
    chainChars as = chainChars bs
  | [], [], _ => rfl
  | _ :: _, _ :: _, ⟨hcall, hrest⟩ => by
    rw [chainChars, chainChars, Call.Agrees.chars_eq hcall, CallsAgree.chars_eq hrest]

theorem Expression.Agrees.chars_eq : {a b : Expression} → a.Agrees SameValue b →
    a.chars = b.chars
  | ⟨_, _⟩, ⟨_, _⟩, ⟨hbase, hchain⟩ => by
    rw [Expression.chars, Expression.chars, Call.Agrees.chars_eq hbase, CallsAgree.chars_eq hchain]

end

section Names

variable {α β : Type}

/-- Named entries in the order of their names. -/
def sortByName (entries : List (String × α)) : List (String × α) :=
  entries.insertionSort fun a b => a.1 ≤ b.1

theorem sortByName_perm (entries : List (String × α)) : (sortByName entries).Perm entries :=
  List.perm_insertionSort _ entries

theorem mem_sortByName {entries : List (String × α)} {entry : String × α} :
    entry ∈ sortByName entries ↔ entry ∈ entries := (sortByName_perm entries).mem_iff

theorem length_sortByName (entries : List (String × α)) :
    (sortByName entries).length = entries.length := (sortByName_perm entries).length_eq

theorem sortByName_map {f : String × α → String × β} (hf : ∀ entry, (f entry).1 = entry.1)
    (entries : List (String × α)) :
    sortByName (entries.map f) = (sortByName entries).map f :=
  (List.map_insertionSort _ _ f entries fun a _ b _ => by rw [hf a, hf b]).symm

theorem names_sortByName_eq {as : List (String × α)} {bs : List (String × β)}
    (h : (as.map Prod.fst).Perm (bs.map Prod.fst)) :
    (sortByName as).map Prod.fst = (sortByName bs).map Prod.fst := by
  have hsorted {γ : Type} (entries : List (String × γ)) :
      ((sortByName entries).map Prod.fst).Pairwise (· ≤ ·) := by
    rw [List.pairwise_map]
    have : IsTrans (String × γ) fun a b => a.1 ≤ b.1 := ⟨fun _ _ _ => le_trans⟩
    have : Std.Total fun a b : String × γ => a.1 ≤ b.1 := ⟨fun a b => le_total a.1 b.1⟩
    exact List.pairwise_insertionSort _ entries
  have hperm : ((sortByName as).map Prod.fst).Perm ((sortByName bs).map Prod.fst) :=
    (((sortByName_perm as).map Prod.fst).trans h).trans ((sortByName_perm bs).map Prod.fst).symm
  exact hperm.eq_of_pairwise (fun _ _ _ _ => le_antisymm) (hsorted as) (hsorted bs)

end Names

mutual

/-- Sorts the entries of the shapes in an argument. Options keep their order. -/
def Arg.sorted : Arg → Arg
  | .options entries => .options (sortedEntries entries)
  | .shape entries => .shape (sortByName (sortedEntries entries))
  | .expression e => .expression e.sorted
  | .text s => .text s
  | .count n => .count n
  | .number x => .number x
  | .flag b => .flag b
  | .code s => .code s

def sortedEntries : List (String × Arg) → List (String × Arg)
  | [] => []
  | (name, arg) :: rest => (name, arg.sorted) :: sortedEntries rest

def sortedArgs : List Arg → List Arg
  | [] => []
  | arg :: rest => arg.sorted :: sortedArgs rest

def Call.sorted : Call → Call
  | ⟨name, args, message⟩ => ⟨name, sortedArgs args, message⟩

def sortedCalls : List Call → List Call
  | [] => []
  | call :: rest => call.sorted :: sortedCalls rest

/-- The expression with the entries of every shape in it, at every depth, sorted by name. -/
def Expression.sorted : Expression → Expression
  | ⟨base, chain⟩ => ⟨base.sorted, sortedCalls chain⟩

end

theorem sortedEntries_eq_map (entries : List (String × Arg)) :
    sortedEntries entries = entries.map fun entry => (entry.1, entry.2.sorted) := by
  induction entries with
  | nil => rfl
  | cons entry rest ih => rw [sortedEntries, ih, List.map_cons]

theorem sortedCalls_eq_map (calls : List Call) : sortedCalls calls = calls.map Call.sorted := by
  induction calls with
  | nil => rfl
  | cons call rest ih => rw [sortedCalls, ih, List.map_cons]

theorem length_sortedArgs (args : List Arg) : (sortedArgs args).length = args.length := by
  induction args with
  | nil => rfl
  | cons arg rest ih => rw [sortedArgs, List.length_cons, ih, List.length_cons]

theorem length_shapeTexts (entries : List (String × Arg)) :
    (shapeTexts entries).length = entries.length := by rw [shapeTexts_eq_map, List.length_map]

theorem length_optionTexts (entries : List (String × Arg)) :
    (optionTexts entries).length = entries.length := by rw [optionTexts_eq_map, List.length_map]

theorem length_sortedEntries (entries : List (String × Arg)) :
    (sortedEntries entries).length = entries.length := by rw [sortedEntries_eq_map, List.length_map]

section Separators

/-- The characters of joined texts are those of the texts and of the commas between them. -/
theorem commaJoin_perm (texts : List (List Char)) :
    (commaJoin texts).Perm
      (texts.flatten ++ (List.replicate (texts.length - 1) [',', ' ']).flatten) := by
  induction texts with
  | nil => rfl
  | cons text rest ih =>
    cases rest with
    | nil => simp [commaJoin]
    | cons next rest =>
      have hcount : (text :: next :: rest).length - 1 = ((next :: rest).length - 1) + 1 := rfl
      rw [commaJoin, hcount, List.replicate_succ, List.flatten_cons, List.append_assoc]
      refine List.Perm.append_left text ?_
      have hmiddle : ([',', ' '] ++ commaJoin (next :: rest)).Perm ([',', ' ']
          ++ ((next :: rest).flatten
            ++ (List.replicate ((next :: rest).length - 1) [',', ' ']).flatten)) :=
        ih.append_left _
      exact hmiddle.trans (List.perm_append_comm_assoc _ _ _)

theorem commaJoin_perm_of {texts texts' : List (List Char)} (hlength : texts.length = texts'.length)
    (h : texts.flatten.Perm texts'.flatten) : (commaJoin texts).Perm (commaJoin texts') := by
  refine (commaJoin_perm texts).trans (.trans ?_ (commaJoin_perm texts').symm)
  rw [hlength]
  exact h.append_right _

theorem objectLiteral_perm_of {texts texts' : List (List Char)}
    (hlength : texts.length = texts'.length) (h : texts.flatten.Perm texts'.flatten) :
    (objectLiteral texts).Perm (objectLiteral texts') := by
  have hempty : texts.isEmpty = texts'.isEmpty := by
    rw [Bool.eq_iff_iff, List.isEmpty_iff_length_eq_zero, List.isEmpty_iff_length_eq_zero, hlength]
  unfold objectLiteral
  rw [hempty]
  split
  · rfl
  · exact (((commaJoin_perm_of hlength h).append_right _).cons ' ').cons '{'

end Separators

mutual

theorem Arg.chars_sorted : (arg : Arg) → arg.sorted.chars.Perm arg.chars
  | .text _ | .count _ | .number _ | .flag _ | .code _ => .refl _
  | .options entries =>
    objectLiteral_perm_of
      (by rw [length_optionTexts, length_sortedEntries, length_optionTexts])
      (optionTexts_sorted entries)
  | .shape entries => by
    have hmoved : (shapeTexts (sortByName (sortedEntries entries))).flatten.Perm
        (shapeTexts (sortedEntries entries)).flatten := by
      rw [shapeTexts_eq_map, shapeTexts_eq_map]
      exact ((sortByName_perm _).map _).flatten
    exact objectLiteral_perm_of
      (by rw [length_shapeTexts, length_sortByName, length_sortedEntries, length_shapeTexts])
      (hmoved.trans (shapeTexts_sorted entries))
  | .expression e => e.chars_sorted

theorem optionTexts_sorted : (entries : List (String × Arg)) →
    (optionTexts (sortedEntries entries)).flatten.Perm (optionTexts entries).flatten
  | [] => .nil
  | (_, arg) :: rest =>
    ((arg.chars_sorted.cons ' ').cons ':' |>.append_left _).append (optionTexts_sorted rest)

theorem shapeTexts_sorted : (entries : List (String × Arg)) →
    (shapeTexts (sortedEntries entries)).flatten.Perm (shapeTexts entries).flatten
  | [] => .nil
  | (_, arg) :: rest =>
    ((arg.chars_sorted.cons ' ').cons ':' |>.append_left _).append (shapeTexts_sorted rest)

theorem argTexts_sorted : (args : List Arg) →
    (argTexts (sortedArgs args)).flatten.Perm (argTexts args).flatten
  | [] => .nil
  | arg :: rest => arg.chars_sorted.append (argTexts_sorted rest)

theorem Call.chars_sorted : (call : Call) → call.sorted.chars.Perm call.chars
  | ⟨name, args, message⟩ => by
    have htexts : (commaJoin (argTexts (sortedArgs args)
        ++ message.toList.map fun m => Text.quoteChars m.toList)).Perm (commaJoin (argTexts args
          ++ message.toList.map fun m => Text.quoteChars m.toList)) := by
      refine commaJoin_perm_of ?_ ?_
      · simp only [List.length_append, argTexts_eq_map, List.length_map, length_sortedArgs]
      · rw [List.flatten_append, List.flatten_append]
        exact (argTexts_sorted args).append_right _
    rw [Call.sorted, Call.chars, Call.chars]
    exact (((htexts.cons '(').append_left name.toList).append_right [')'])

theorem chainChars_sorted : (calls : List Call) →
    (chainChars (sortedCalls calls)).Perm (chainChars calls)
  | [] => .nil
  | call :: rest => (call.chars_sorted.cons '.').append (chainChars_sorted rest)

/-- The code of a sorted expression has the characters of the code of the expression. -/
theorem Expression.chars_sorted : (e : Expression) → e.sorted.chars.Perm e.chars
  | ⟨base, chain⟩ =>
    ((base.chars_sorted.cons '.').append_left libraryName).append (chainChars_sorted chain)

end

theorem utf8Len_eq_of_perm {s t : List Char} (h : s.Perm t) :
    String.utf8Len s = String.utf8Len t := by
  induction h with
  | nil => rfl
  | cons c _ ih => rw [String.utf8Len_cons, String.utf8Len_cons, ih]
  | swap c d _ => simp only [String.utf8Len_cons, Nat.add_right_comm]
  | trans _ _ ih ih' => exact ih.trans ih'

namespace Expression

theorem render_sorted (e : Expression) : e.sorted.render.length = e.render.length
    ∧ e.sorted.render.utf8ByteSize = e.render.utf8ByteSize := by
  simp only [render, String.length_ofList, String.utf8ByteSize_ofList]
  exact ⟨e.chars_sorted.length_eq, utf8Len_eq_of_perm e.chars_sorted⟩

end Expression

end ValidatorGen
