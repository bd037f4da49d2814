import ValidatorGen.Generate
import ValidatorGen.Proofs.Package.Wrap

/-! What is generated. Main statement: the code shows the packaging, the name and the expression
that it was generated for. -/
namespace ValidatorGen

theorem value_compileText (text : String) :
    (compileText text).value = (Node.parse text).map fun node => (node, node.validator) := by
  unfold compileText
  cases Node.parse text with
  | error e => rfl
  | ok node => simp [Except.map, Node.value_compile]

theorem value_compileText_eq_ok_iff {text : String} {node : Node} {e : Expression} :
    (compileText text).value = .ok (node, e) ↔ Node.parse text = .ok node ∧ node.validator = e := by
  rw [value_compileText]
  cases Node.parse text with
  | error e => simp [Except.map]
  | ok other =>
    simp only [Except.map, Except.ok.injEq, Prod.mk.injEq]
    constructor
    · rintro ⟨rfl, rfl⟩
      exact ⟨rfl, rfl⟩
    · rintro ⟨rfl, rfl⟩
      exact ⟨rfl, rfl⟩

theorem value_generate_eq_ok_iff {text code : String} {o : Options} :
    (generate text o).value = .ok code
      ↔ ∃ node e, (compileText text).value = .ok (node, e) ∧ o.wrap e.render = .ok code := by
  unfold generate
  simp only [Traced.value_bind]
  cases (compileText text).value with
  | error e => simp
  | ok result =>
    obtain ⟨node, e⟩ := result
    cases hwrap : o.wrap e.render <;> simp [hwrap]

theorem value_generate_of_parse_error {text : String} {e : ParseError}
    (h : Node.parse text = .error e) (o : Options) :
    (generate text o).value = .error (.parse e) := by
  simp [generate, value_compileText, h, Except.map]

theorem value_generate_of_parse {text : String} {node : Node} (h : Node.parse text = .ok node)
    (o : Options) : (generate text o).value = o.wrap node.validator.render := by
  simp only [generate, Traced.value_bind, value_compileText, h, Except.map]
  cases hwrap : o.wrap node.validator.render <;> simp

theorem emitted_of_compileText {text : String} {node : Node} {e : Expression}
    (h : (compileText text).value = .ok (node, e)) : e.Emitted := by
  obtain ⟨hparse, rfl⟩ := value_compileText_eq_ok_iff.1 h
  exact Node.emitted_validator node (Node.finite_of_parse hparse)

/-- Generated code is unambiguous: it is generated with one packaging and name only, and from one
expression, up to numbers with the same literal. -/
theorem generate_unambiguous {t₁ t₂ code : String} {o₁ o₂ : Options}
    (h₁ : (generate t₁ o₁).value = .ok code) (h₂ : (generate t₂ o₂).value = .ok code) :
    o₁ = o₂ ∧ ∃ node₁ node₂ e₁ e₂, (compileText t₁).value = .ok (node₁, e₁)
      ∧ (compileText t₂).value = .ok (node₂, e₂) ∧ e₁.Agrees SameLiteral e₂ := by
  obtain ⟨node₁, e₁, hcompile₁, hwrap₁⟩ := value_generate_eq_ok_iff.1 h₁
  obtain ⟨node₂, e₂, hcompile₂, hwrap₂⟩ := value_generate_eq_ok_iff.1 h₂
  obtain ⟨hname₁, hcode₁⟩ := Options.wrap_eq_ok_iff.1 hwrap₁
  obtain ⟨hname₂, hcode₂⟩ := Options.wrap_eq_ok_iff.1 hwrap₂
  have hchars : o₁.before ++ (e₁.chars ++ o₁.after) = o₂.before ++ (e₂.chars ++ o₂.after) := by
    have hcode := congrArg String.toList (hcode₁.trans hcode₂.symm)
    simpa [Options.toList_package, Expression.render] using hcode
  obtain ⟨rest₁, hrest₁⟩ := e₁.exists_chars_eq
  obtain ⟨rest₂, hrest₂⟩ := e₂.exists_chars_eq
  obtain ⟨rfl, -⟩ := Options.before_append_inj hname₁ hname₂ (u := rest₁ ++ o₁.after)
    (v := rest₂ ++ o₂.after) (by simpa [hrest₁, hrest₂] using hchars)
  have hexpr := List.append_cancel_left hchars
  have hend := o₁.closed_after.head?_ne_point
  have hagree := e₁.append_inj (emitted_of_compileText hcompile₁) (emitted_of_compileText hcompile₂)
    hend hend hexpr
  exact ⟨rfl, node₁, node₂, e₁, e₂, hcompile₁, hcompile₂, hagree.1⟩

/-- The order of keywords and an unknown one do not show in the code. -/
theorem generate_unambiguous_of_order : ∃ t₁ t₂ code, t₁ ≠ t₂
    ∧ (generate t₁ ⟨.esm, some "amount"⟩).value = .ok code
    ∧ (generate t₂ ⟨.esm, some "amount"⟩).value = .ok code
    ∧ ∃ node₁ node₂ e₁ e₂, (compileText t₁).value = .ok (node₁, e₁)
      ∧ (compileText t₂).value = .ok (node₂, e₂) ∧ e₁.Agrees SameLiteral e₂ := by
  let t₁ := "\x7b\"type\": \"number\", \"minimum\": 0.50\x7d"
  let t₂ := "\x7b\"title\": null, \"minimum\": 5e-1, \"type\": \"number\"\x7d"
  let code := Options.esmHeader ++ "export const amount = z.number().gte(0.5)"
  have h₁ : (generate t₁ ⟨.esm, some "amount"⟩).value = .ok code :=
    toOption_eq_some_iff.1 (by decide +kernel)
  have h₂ : (generate t₂ ⟨.esm, some "amount"⟩).value = .ok code :=
    toOption_eq_some_iff.1 (by decide +kernel)
  exact ⟨t₁, t₂, code, by decide +kernel, h₁, h₂, (generate_unambiguous h₁ h₂).2⟩

end ValidatorGen
