import ValidatorGen.Proofs.Generate
import ValidatorGen.Proofs.Reading.Around
import ValidatorGen.Proofs.Reading.Printed

/-! Numeric bounds on their way from the text of a schema to code. Main statement: a bound that is
written as the code writes numbers comes out as the bound of a value near it, and as it was written
if it is a whole number of one word or has few digits and a small power of ten. -/
namespace ValidatorGen

open Json

/-- The check that a numeric keyword asks for. -/
def Keyword.check? : Keyword → Option String
  | .minimum => some "gte"
  | .exclusiveMinimum => some "gt"
  | .maximum => some "lte"
  | .exclusiveMaximum => some "lt"
  | .multipleOf => some "multipleOf"
  | _ => none

def boundText (k : Keyword) (literal : String) : String :=
  "\x7b\"type\":\"number\",\"" ++ k.name ++ "\":" ++ literal ++ "\x7d"

/-- The code for it, if the bound comes out as it is written. -/
def boundCode (method literal : String) : String := "z.number()." ++ method ++ "(" ++ literal ++ ")"

theorem isTextOf_boundText {k : Keyword} {n : Numeral} {literal : String}
    (h : n.Written literal.toList) :
    IsTextOf (.ofMembers [("type", .ofText "number"), (k.name, .number n)])
      (boundText k literal).toList := by
  refine Site.isTextOf_typed ?_ (Written.number h).isTextOf
  cases k <;> decide +kernel

theorem Shape.ofForm_number (levels : Nat) {n : Numeral} {v : Number} (h : n.value? = some v) :
    Shape.ofForm levels .number (.number n) = .ok (some v.toBinary64) := by
  have hscalar : (Form.number n).IsScalar := trivial
  rw [ofForm_of_isScalar levels _ hscalar, Form.head, Numeral.verdict, h]
  rfl

theorem Node.validator_ofRecord_number {r : Record} (h : r.value .type = some "number") :
    (Node.ofRecord r).validator = ⟨.plain "number", filled (ofRecord.bounds r).slots⟩ := by
  have hkind : Kind.ofType (some "number") = .number := Kind.ofType_name .number
  rw [ofRecord, h, hkind]
  exact validator_number _

theorem Node.exists_ofForm_bound {k : Keyword} {method : String} (hk : k.check? = some method)
    (levels : Nat) {n : Numeral} {v : Number} (h : n.value? = some v) :
    ∃ node, Node.ofForm (levels + 1)
        (.ofMembers [("type", .ofText "number"), (k.name, .number n)]) = .ok node
      ∧ node.validator
        = ⟨.plain "number", [Call.unary method (.number v.toBinary64) none]⟩ := by
  have hne : k ≠ .type := by
    rintro rfl
    cases (show none = some method from hk)
  have hchecked : ∃ value, Shape.ofForm levels k.shape (.number n) = .ok value
      ∧ (ofRecord ((Record.ofType "number").set k value)).validator
        = ⟨.plain "number", [Call.unary method (.number v.toBinary64) none]⟩ := by
    cases k with
    | minimum | exclusiveMinimum | maximum | exclusiveMaximum | multipleOf =>
      obtain rfl := Option.some.inj hk
      exact ⟨some v.toBinary64, Shape.ofForm_number levels h, validator_ofRecord_number rfl⟩
    | _ => cases (show none = some method from hk)
  obtain ⟨value, hvalue, hvalidator⟩ := hchecked
  exact ⟨_, ofForm_typed "number" hne hvalue, hvalidator⟩

theorem render_bound (method : String) (x : Binary64) :
    Expression.render ⟨.plain "number", [Call.unary method (.number x) none]⟩
      = boundCode method (Arg.number x).render := by
  have hdot : "z.number().".toList = ['z', '.', 'n', 'u', 'm', 'b', 'e', 'r', '(', ')', '.'] := by
    decide
  have hname : "number".toList = ['n', 'u', 'm', 'b', 'e', 'r'] := by decide
  apply String.toList_injective
  simp [Expression.render, Expression.chars, Call.chars, chainChars, argTexts, Arg.chars, Arg.render,
    Call.plain, Call.unary, commaJoin, boundCode, libraryName, hdot, hname]

/-- A bound that is written as the code writes numbers comes out as the bound of a value near it, and
as it is written if it is a whole number of one word or has few digits and a small power of ten. -/
theorem generate_bound {k : Keyword} {method : String} (hk : k.check? = some method)
    {x : Binary64} (hx : x.isFinite) :
    ∃ y : Binary64, y.isFinite
      ∧ (generate (boundText k (Arg.number x).render) {}).value
        = .ok (boundCode method (Arg.number y).render)
      ∧ (x.magnitude ≠ 0 → x.IsNear y)
      ∧ (x.IsWord ∨ x.IsShort → (Arg.number y).render = (Arg.number x).render) := by
  obtain ⟨v, hv, hfinite, hnear, hsame⟩ := Binary64.exists_value_literalNumeral hx
  obtain ⟨node, hnode, hvalidator⟩ := Node.exists_ofForm_bound hk (maxLevels - 1) hv
  have hwritten : x.literalNumeral.Written (Arg.number x).render.toList := by
    rw [Arg.render, String.toList_ofList]
    exact Binary64.written_literalNumeral hx
  have hparse := Node.complaint_parse (isTextOf_boundText (k := k) hwritten)
  rw [show maxLevels = maxLevels - 1 + 1 by decide, hnode] at hparse
  refine ⟨v.toBinary64, hfinite, ?_, hnear, fun hexact => congrArg String.ofList (hsame (.inr hexact))⟩
  cases hresult : Node.parse (boundText k (Arg.number x).render) with
  | error e =>
    rw [hresult] at hparse
    cases hparse
  | ok other =>
    rw [hresult] at hparse
    obtain rfl : other = node := Except.ok.inj hparse
    refine value_generate_eq_ok_iff.2 ⟨other, _, value_compileText_eq_ok_iff.2 ⟨hresult, rfl⟩, ?_⟩
    rw [hvalidator, render_bound]
    rfl

/-- One tenth is written and read with one digit. -/
theorem generate_bound_tenth :
    (generate "\x7b\"type\":\"number\",\"multipleOf\":0.1\x7d" {}).value
      = .ok "z.number().multipleOf(0.1)" := by
  let x : Binary64 := ⟨0x3FB999999999999A⟩
  have hliteral : (Arg.number x).render = "0.1" := by decide +kernel
  have hshort : x.IsShort := by decide +kernel
  have hkeyword : Keyword.multipleOf.check? = some "multipleOf" := rfl
  obtain ⟨y, -, hcode, -, hsame⟩ := generate_bound hkeyword (x := x) (by decide +kernel)
  rw [hsame (.inr hshort), hliteral] at hcode
  exact hcode

/-- Where the power of ten is larger, the bound can come out as its neighbour. -/
theorem not_generate_bound_same : ¬∀ (k : Keyword) (method : String) (x : Binary64),
    k.check? = some method → x.isFinite →
      (generate (boundText k (Arg.number x).render) {}).value
        = .ok (boundCode method (Arg.number x).render) := by
  intro h
  let x : Binary64 := ⟨0x44CFC3842BD1F072⟩
  have hliteral : (Arg.number x).render = "3e23" := by decide +kernel
  have hcode : (generate (boundText .minimum "3e23") {}).value
      = .ok (boundCode "gte" "2.9999999999999997e23") := toOption_eq_some_iff.1 (by decide +kernel)
  have hsame := h .minimum "gte" x rfl (by decide +kernel)
  rw [hliteral, hcode] at hsame
  exact absurd (Except.ok.inj hsame) (by decide +kernel)

end ValidatorGen
