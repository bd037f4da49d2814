import ValidatorGen.Package.Options
import ValidatorGen.Proofs.Expression.Unambiguous

/-! What a packaging puts around code. Main statement: what stands before the code of an expression
shows the packaging and the name. -/
namespace ValidatorGen.Options

def before (o : Options) : List Char :=
  match o.packaging, o.name with
  | .plain, none => []
  | .plain, some name => "const ".toList ++ name.toList ++ " = ".toList
  | .esm, none => esmHeader.toList ++ "export default ".toList
  | .esm, some name => esmHeader.toList ++ "export const ".toList ++ name.toList ++ " = ".toList
  | .cjs, none => cjsHeader.toList ++ "module.exports = ".toList
  | .cjs, some name =>
    cjsHeader.toList ++ "module.exports = \x7b \"".toList ++ name.toList ++ "\": ".toList

def after (o : Options) : List Char :=
  match o.packaging, o.name with
  | .cjs, some _ => [' ', '}']
  | _, _ => []

theorem toList_package (o : Options) (code : String) :
    (package code o.packaging o.name).toList = o.before ++ (code.toList ++ o.after) := by
  obtain ⟨_ | _ | _, _ | name⟩ := o <;> simp [package, before, after]

theorem closed_after (o : Options) : Closed o.after := by
  obtain ⟨_ | _ | _, _ | name⟩ := o <;> simp [after, Closed]

/-- A name, if there is one, can be bound. -/
def Bindable (o : Options) : Prop := ∀ name ∈ o.name, isBindable name

theorem Bindable.isIdentifier {p : Packaging} {name : String} (h : Bindable ⟨p, some name⟩) :
    isIdentifier name.toList := by
  have hname := h name rfl
  simp only [isBindable, Bool.and_eq_true] at hname
  exact hname.1

theorem wrap_eq_ok_iff {o : Options} {e code : String} :
    o.wrap e = .ok code ↔ o.Bindable ∧ package e o.packaging o.name = code := by
  obtain ⟨p, _ | name⟩ := o
  · simp [wrap, Bindable]
  · by_cases h : isBindable name <;> simp [wrap, Bindable, h]

theorem wrap_eq_error_iff {o : Options} {code : String} {e : GenerateError} :
    o.wrap code = .error e
      ↔ ∃ name, o.name = some name ∧ e = .invalidName name ∧ ¬isBindable name := by
  obtain ⟨p, _ | name⟩ := o
  · simp [wrap]
  · by_cases h : isBindable name
    · simp [wrap, h]
    · simpa [wrap, h] using eq_comm

theorem identifier_append_ne_brace {name : List Char} (h : isIdentifier name) {u v : List Char} :
    name ++ u ≠ '{' :: v := by
  cases name with
  | nil => simp [isIdentifier] at h
  | cons c rest =>
    rintro heq
    obtain ⟨rfl, -⟩ := List.cons.inj heq
    simp only [isIdentifier, Bool.and_eq_true] at h
    have hbrace : isNameStart '{' = false := by decide
    simp [hbrace] at h

/-- What comes first in code tells the packagings apart, except for a name from a brace and a name
from another one. -/
theorem before_append_inj {o o' : Options} (ho : o.Bindable) (ho' : o'.Bindable) {u v : List Char}
    (h : o.before ++ 'z' :: u = o'.before ++ 'z' :: v) : o = o' ∧ u = v := by
  obtain ⟨_ | _ | _, _ | name⟩ := o <;> obtain ⟨_ | _ | _, _ | name'⟩ := o' <;>
    simp [before, esmHeader, cjsHeader] at h ⊢
  case plain.none.plain.none | esm.none.esm.none | cjs.none.cjs.none => exact h
  case plain.some.cjs.none | plain.some.cjs.some =>
    exact identifier_append_ne_brace ho.isIdentifier h
  case cjs.none.plain.some | cjs.some.plain.some =>
    exact identifier_append_ne_brace ho'.isIdentifier h.symm
  case plain.some.plain.some | esm.some.esm.some | cjs.some.cjs.some =>
    have hinj := identifier_append_inj ho.isIdentifier ho'.isIdentifier (by decide) h
    have hname : name = name' := String.toList_injective hinj.1
    simpa [hname] using hinj.2

end ValidatorGen.Options
