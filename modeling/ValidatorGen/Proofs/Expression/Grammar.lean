import ValidatorGen.Expression.Render
import ValidatorGen.Package.Name
import ValidatorGen.Proofs.Expression.Emitted
import ValidatorGen.Proofs.Json.NumberLiteral
import ValidatorGen.Proofs.Numeric.Literal
import ValidatorGen.Proofs.Text.Literal

/-! The grammar of validator code. Main statement: the code of the validator of a schema that was
read from a text is derived from it. -/
namespace ValidatorGen

inductive Nonterminal where
  | expression
  | calls
  | call
  | args
  | arg
  | entries
  | entry
deriving DecidableEq

/-- `calls` are calls with a point before each one; `args` and `entries` are at least one argument
or entry, with a comma and a blank between two of them. -/
inductive Derives : Nonterminal → List Char → Prop
  | expression {call calls : List Char} : Derives .call call → Derives .calls calls →
    Derives .expression ('z' :: '.' :: (call ++ calls))
  | noCalls : Derives .calls []
  | moreCalls {call calls : List Char} : Derives .call call → Derives .calls calls →
    Derives .calls ('.' :: (call ++ calls))
  | bareCall {name : List Char} : isIdentifier name → Derives .call (name ++ ['(', ')'])
  | callWith {name args : List Char} : isIdentifier name → Derives .args args →
    Derives .call (name ++ '(' :: (args ++ [')']))
  | lastArg {arg : List Char} : Derives .arg arg → Derives .args arg
  | moreArgs {arg args : List Char} : Derives .arg arg → Derives .args args →
    Derives .args (arg ++ ',' :: ' ' :: args)
  | text {literal : List Char} : Text.IsLiteral literal → Derives .arg literal
  | number {literal : List Char} : IsNumberLiteral literal → Derives .arg literal
  | yes : Derives .arg "true".toList
  | no : Derives .arg "false".toList
  | noEntries : Derives .arg ['{', '}']
  | object {entries : List Char} : Derives .entries entries →
    Derives .arg ('{' :: ' ' :: (entries ++ [' ', '}']))
  | nested {e : List Char} : Derives .expression e → Derives .arg e
  | regExp {literal : List Char} : Text.IsLiteral literal →
    Derives .arg ("new RegExp(".toList ++ (literal ++ [')']))
  | callback : Derives .arg parseJsonCode.toList
  | lastEntry {entry : List Char} : Derives .entry entry → Derives .entries entry
  | moreEntries {entry entries : List Char} : Derives .entry entry → Derives .entries entries →
    Derives .entries (entry ++ ',' :: ' ' :: entries)
  | bareEntry {name arg : List Char} : isIdentifier name → Derives .arg arg →
    Derives .entry (name ++ ':' :: ' ' :: arg)
  | quotedEntry {name arg : List Char} : Text.IsLiteral name → Derives .arg arg →
    Derives .entry (name ++ ':' :: ' ' :: arg)

/-- No control character stands in the text. -/
def Printable (text : List Char) : Prop := ∀ c ∈ text, 0x20 ≤ c.toNat

instance (text : List Char) : Decidable (Printable text) :=
  decidable_of_iff (text.all fun c => 0x20 ≤ c.toNat) (by simp [Printable])

@[simp] theorem printable_nil : Printable [] := by simp [Printable]

@[simp] theorem printable_cons {c : Char} {text : List Char} :
    Printable (c :: text) ↔ 0x20 ≤ c.toNat ∧ Printable text := by simp [Printable]

@[simp] theorem printable_append {s t : List Char} :
    Printable (s ++ t) ↔ Printable s ∧ Printable t := by
  simp [Printable, or_imp, forall_and]

theorem le_toNat_of {p : Char → Bool} (hp : ∀ n < 0x20, p (Char.ofNat n) = false) {c : Char}
    (h : p c) : 0x20 ≤ c.toNat := by
  by_contra hlt
  have hc := hp c.toNat (by omega)
  rw [Char.ofNat_toNat, h] at hc
  cases hc

theorem le_toNat_of_isDigit {c : Char} (h : c.isDigit) : 0x20 ≤ c.toNat :=
  le_toNat_of (by decide) h

theorem le_toNat_of_isNamePart {c : Char} (h : isNamePart c) : 0x20 ≤ c.toNat :=
  le_toNat_of (by decide) h

theorem isNamePart_of_isIdentifier {name : List Char} (h : isIdentifier name) :
    ∀ c ∈ name, isNamePart c := by
  cases name with
  | nil => simp
  | cons c rest =>
    simp only [isIdentifier, Bool.and_eq_true, List.all_eq_true] at h
    have hc : isNamePart c := by simp [isNamePart, h.1]
    simpa [hc] using h.2

theorem printable_of_isIdentifier {name : List Char} (h : isIdentifier name) : Printable name :=
  fun c hc => le_toNat_of_isNamePart (isNamePart_of_isIdentifier h c hc)

theorem le_toNat_of_hexDigit? {c : Char} (h : (Reader.hexDigit? c).isSome) : 0x20 ≤ c.toNat :=
  le_toNat_of (p := fun c => (Reader.hexDigit? c).isSome) (by decide) h

theorem le_toNat_of_escapeMeaning? {c : Char} (h : (Reader.escapeMeaning? c).isSome) :
    0x20 ≤ c.toNat :=
  le_toNat_of (p := fun c => (Reader.escapeMeaning? c).isSome) (by decide) h

theorem Text.Piece.printable_chars {p : Piece} (h : p.Proper) : Printable p.chars := by
  cases p with
  | plain c => simpa [chars] using h.2.2
  | escape letter => simpa [chars] using le_toNat_of_escapeMeaning? h
  | unit a b c d =>
    have digits : ∀ x ∈ [a, b, c, d], 0x20 ≤ x.toNat := fun x hx => le_toNat_of_hexDigit? (h x hx)
    simpa [chars] using digits

theorem Text.IsLiteral.printable {literal : List Char} (h : IsLiteral literal) :
    Printable literal := by
  obtain @⟨pieces, hpieces⟩ := h
  have hbody : Printable (bodyChars pieces) := by
    intro c hc
    obtain ⟨p, hp, hmem⟩ := List.mem_flatMap.1 hc
    exact Piece.printable_chars (hpieces p hp) c hmem
  simpa using hbody

theorem IsDigits.printable {digits : List Char} (h : IsDigits digits) : Printable digits :=
  fun c hc => le_toNat_of_isDigit (h.2 c hc)

theorem Numeral.IsWhole.printable {whole : List Char} (h : IsWhole whole) : Printable whole := by
  rcases h with rfl | hdigits
  · decide
  · exact hdigits.1.printable

theorem Numeral.FractionWritten.printable {fraction : Option (List Char)} {text : List Char}
    (h : FractionWritten fraction text) : Printable text := by
  cases h with
  | absent => simp
  | present hdigits => simpa using hdigits.printable

theorem Numeral.ExponentWritten.printable {exponent : Option (Bool × List Char)}
    {text : List Char} (h : ExponentWritten exponent text) : Printable text := by
  cases h with
  | absent => simp
  | present mark hmark hsign hdigits =>
    have hdigits := hdigits.printable
    rcases hmark with rfl | rfl <;> cases hsign <;> simpa using hdigits

theorem IsNumberLiteral.printable {literal : List Char} (h : IsNumberLiteral literal) :
    Printable literal := by
  obtain ⟨_, @⟨negative, _, _, _, _, _, hwhole, hfraction, hexponent⟩⟩ := h
  have hsign : Printable (Numeral.minusSign negative) := by cases negative <;> decide
  simp [hsign, hwhole.printable, hfraction.printable, hexponent.printable]

/-- No derived text holds a control character. -/
theorem Derives.printable {n : Nonterminal} {text : List Char} (h : Derives n text) :
    Printable text := by
  induction h with
  | expression _ _ ih₁ ih₂ => simp [ih₁, ih₂]
  | noCalls => simp
  | moreCalls _ _ ih₁ ih₂ => simp [ih₁, ih₂]
  | bareCall hname => simp [printable_of_isIdentifier hname]
  | callWith hname _ ih => simp [printable_of_isIdentifier hname, ih]
  | lastArg _ ih => exact ih
  | moreArgs _ _ ih₁ ih₂ => simp [ih₁, ih₂]
  | text hliteral => exact hliteral.printable
  | number hliteral => exact hliteral.printable
  | yes | no | noEntries => decide
  | object _ ih => simp [ih]
  | nested _ ih => exact ih
  | regExp hliteral =>
    simp [hliteral.printable]
  | callback => decide +kernel
  | lastEntry _ ih => exact ih
  | moreEntries _ _ ih₁ ih₂ => simp [ih₁, ih₂]
  | bareEntry hname _ ih => simp [printable_of_isIdentifier hname, ih]
  | quotedEntry hname _ ih => simp [hname.printable, ih]

theorem commaJoin_of {P Q : List Char → Prop} (last : ∀ text, Q text → P text)
    (more : ∀ text rest, Q text → P rest → P (text ++ ',' :: ' ' :: rest))
    {texts : List (List Char)} (hne : texts ≠ []) (h : ∀ text ∈ texts, Q text) :
    P (commaJoin texts) := by
  induction texts with
  | nil => exact absurd rfl hne
  | cons text rest ih =>
    cases rest with
    | nil => exact last text (h text (by simp))
    | cons next rest =>
      have hrest := ih (by simp) fun other hother => h other (by simp [hother])
      exact more text _ (h text (by simp)) hrest

theorem derives_call {name : List Char} (hname : isIdentifier name) {args : List (List Char)}
    (h : ∀ arg ∈ args, Derives .arg arg) :
    Derives .call (name ++ '(' :: commaJoin args ++ [')']) := by
  cases args with
  | nil => simpa [commaJoin] using Derives.bareCall hname
  | cons arg rest =>
    have hargs : Derives .args (commaJoin (arg :: rest)) :=
      commaJoin_of (fun _ => .lastArg) (fun _ _ => .moreArgs) (by simp) h
    simpa using Derives.callWith hname hargs

theorem derives_objectLiteral {entries : List (List Char)}
    (h : ∀ entry ∈ entries, Derives .entry entry) : Derives .arg (objectLiteral entries) := by
  cases entries with
  | nil => exact .noEntries
  | cons entry rest =>
    have hentries : Derives .entries (commaJoin (entry :: rest)) :=
      commaJoin_of (fun _ => .lastEntry) (fun _ _ => .moreEntries) (by simp) h
    simpa [objectLiteral] using Derives.object hentries

theorem isIdentifier_of_mem_bareNames {name : String} (h : name ∈ bareNames) :
    isIdentifier name.toList := by
  have all : ∀ name ∈ bareNames, isIdentifier name.toList := by decide +kernel
  exact all name h

theorem Arg.Fits.isIdentifier {name : String} {arg : Arg} (h : arg.Fits name) :
    isIdentifier name.toList := by
  cases arg with
  | text s => exact h.elim
  | count n => rcases h with rfl | rfl <;> decide
  | number x =>
    have all : ∀ name ∈ boundNames, ValidatorGen.isIdentifier name.toList := by decide +kernel
    exact all name h.1
  | flag b => exact h.elim
  | options entries =>
    obtain ⟨_, ⟨rfl, -⟩ | ⟨_, rfl, -⟩⟩ := h
    · decide
    · decide
  | shape entries =>
    obtain ⟨rfl, -⟩ := h
    decide
  | expression e =>
    obtain ⟨rfl | rfl, -⟩ := h
    · decide
    · decide
  | code s =>
    obtain ⟨rfl, -⟩ | ⟨rfl, -⟩ := h
    · decide
    · decide

theorem Call.Emitted.isIdentifier {call : Call} (h : call.Emitted) :
    isIdentifier call.name.toList := by
  obtain ⟨name, args, message⟩ := call
  match args with
  | [] => exact isIdentifier_of_mem_bareNames h
  | [arg] => exact Arg.Fits.isIdentifier h

theorem derives_quoteChars (s : List Char) : Derives .arg (Text.quoteChars s) :=
  .text (Text.isLiteral_quoteChars s)

theorem derives_messageEntry (message : Option String) :
    ∀ text ∈ optionTexts (message.toList.map fun m => ("message", .text m)),
      Derives .entry text := by
  cases message with
  | none => simp [optionTexts]
  | some m =>
    have hname : isIdentifier "message".toList := by decide
    simpa [optionTexts, Arg.chars] using Derives.bareEntry hname (derives_quoteChars m.toList)

theorem derives_options {name : String} {entries : List (String × Arg)}
    (h : FitOptions name entries) : Derives .arg (Arg.options entries).chars := by
  obtain ⟨message, ⟨-, heq⟩ | ⟨version, -, heq⟩⟩ := h
  · have hname : isIdentifier "offset".toList := by decide
    have hmessage := derives_messageEntry message
    rw [heq, Arg.optionsWith, Arg.chars, List.singleton_append]
    apply derives_objectLiteral
    intro text htext
    rcases List.mem_cons.1 htext with rfl | hrest
    · exact .bareEntry hname .yes
    · exact hmessage text hrest
  · have hname : isIdentifier "version".toList := by decide
    have hmessage := derives_messageEntry message
    rw [heq, Arg.optionsWith, Arg.chars, List.singleton_append]
    apply derives_objectLiteral
    intro text htext
    rcases List.mem_cons.1 htext with rfl | hrest
    · exact .bareEntry hname (derives_quoteChars version.toList)
    · exact hmessage text hrest

mutual

theorem Arg.derives : (arg : Arg) → {name : String} → arg.Fits name → Derives .arg arg.chars
  | .count n, _, _ => .number (isNumberLiteral_toString n.toNat)
  | .number _, _, h => .number (Binary64.isNumberLiteral_literalChars h.2)
  | .options _, _, h => derives_options h
  | .shape entries, _, h => derives_objectLiteral (derives_shapeTexts entries h.2)
  | .expression e, _, h => .nested (e.derives h.2)
  | .code s, _, h => by
    obtain ⟨-, rfl⟩ | ⟨-, pattern, rfl⟩ := h
    · exact .callback
    · have hliteral := Text.isLiteral_quoteChars pattern.toList
      simpa [Arg.chars, regExpCode] using Derives.regExp hliteral
  | .text _, _, h | .flag _, _, h => h.elim

theorem derives_shapeTexts : (entries : List (String × Arg)) → EmittedEntries entries →
    ∀ text ∈ shapeTexts entries, Derives .entry text
  | [], _ => by simp [shapeTexts]
  | (name, .expression e) :: rest, h => by
    have hentry := Derives.quotedEntry (Text.isLiteral_quoteChars name.toList)
      (.nested (e.derives h.1))
    have hrest := derives_shapeTexts rest h.2
    simpa [shapeTexts, Arg.chars] using ⟨hentry, hrest⟩

theorem derives_argTexts : (args : List Arg) → {name : String} → ArgsFit name args →
    ∀ text ∈ argTexts args, Derives .arg text
  | [], _, _ => by simp [argTexts]
  | [arg], _, h => by simpa [argTexts] using arg.derives h

theorem Call.derives : (call : Call) → call.Emitted → Derives .call call.chars
  | ⟨name, args, message⟩, h => by
    have hargs := derives_argTexts args h
    rw [Call.chars]
    apply derives_call h.isIdentifier
    intro text htext
    rcases List.mem_append.1 htext with harg | hmessage
    · exact hargs text harg
    · obtain ⟨m, -, rfl⟩ := List.mem_map.1 hmessage
      exact derives_quoteChars m.toList

theorem derives_chainChars : (calls : List Call) → EmittedCalls calls →
    Derives .calls (chainChars calls)
  | [], _ => .noCalls
  | call :: rest, h => .moreCalls (call.derives h.1) (derives_chainChars rest h.2)

/-- The code of an emitted expression is derived from the grammar. -/
theorem Expression.derives : (e : Expression) → e.Emitted → Derives .expression e.chars
  | ⟨base, chain⟩, h => .expression (base.derives h.1) (derives_chainChars chain h.2)

end

/-- The code of a validator is well-formed and without control characters, and where the literal
of a text stands in it no other literal begins, so that nothing in the text can end it early. -/
theorem Node.derives_render_of_parse {text : String} {node : Node}
    (h : Node.parse text = .ok node) :
    Derives .expression node.validator.render.toList
      ∧ (∀ c ∈ node.validator.render.toList, 0x20 ≤ c.toNat)
      ∧ ∀ (quoted : String) (before literal rest rest' : List Char),
        node.validator.render.toList = before ++ Text.quoteChars quoted.toList ++ rest →
        Text.IsLiteral literal → node.validator.render.toList = before ++ literal ++ rest' →
        literal = Text.quoteChars quoted.toList ∧ rest' = rest := by
  have hemitted := emitted_validator node (finite_of_parse h)
  have hderives : Derives .expression node.validator.render.toList := by
    simpa [Expression.render] using node.validator.derives hemitted
  refine ⟨hderives, hderives.printable, ?_⟩
  intro quoted before literal rest rest' hquoted hliteral hother
  rw [hquoted, List.append_assoc, List.append_assoc, List.append_cancel_left_eq] at hother
  exact hliteral.eq_of_append_eq (Text.isLiteral_quoteChars _) hother.symm

/-- A pattern that is a quote, with a message that is a line break. -/
theorem Node.derives_render_of_escapes : ∃ text node,
    text = "\x7b\"type\": \"string\", \"pattern\": \"\\\"\", "
      ++ "\"errorMessage\": \x7b\"pattern\": \"\\n\"\x7d\x7d"
    ∧ parse text = .ok node
    ∧ node.validator.render = "z.string().regex(new RegExp(\"\\\"\"), \"\\n\")"
    ∧ Derives .expression node.validator.render.toList := by
  let text := "\x7b\"type\": \"string\", \"pattern\": \"\\\"\", "
    ++ "\"errorMessage\": \x7b\"pattern\": \"\\n\"\x7d\x7d"
  have hcode : (parse text).toOption.map (fun node => node.validator.render)
      = some "z.string().regex(new RegExp(\"\\\"\"), \"\\n\")" := by decide +kernel
  obtain ⟨node, hnode, hrender⟩ := Option.map_eq_some_iff.1 hcode
  have hparse : parse text = .ok node := toOption_eq_some_iff.1 hnode
  exact ⟨text, node, rfl, hparse, hrender, (derives_render_of_parse hparse).1⟩

end ValidatorGen
