import ValidatorGen.Proofs.Expression.Grammar
import ValidatorGen.Proofs.Expression.Induction

/-! Brackets and string literals in code. Main statement: the code of a validator closes all
brackets and literals that it opens, and has no comma outside of them. -/
namespace ValidatorGen

inductive CodeMode where
  | code
  | literal
  | escape
deriving DecidableEq

/-- How many brackets are open at a place in code, and whether it is in a string literal. -/
structure CodeState where
  depth : Nat
  mode : CodeMode
deriving DecidableEq

namespace CodeState

def opens (c : Char) : Bool := c ∈ ['(', '[', '{']

def closes (c : Char) : Bool := c ∈ [')', ']', '}']

/-- Characters that start literals of other kinds, or comments. -/
def isForeign (c : Char) : Bool := c ∈ ['\'', '\x60', '/']

/-- One more character, unless an expression ends before it: at a bracket or a comma that is not in
brackets of its own. Code with literals of other kinds is not gone through. -/
def step (s : CodeState) (c : Char) : Option CodeState :=
  match s.mode with
  | .escape => some { s with mode := .literal }
  | .literal =>
    if c = '"' then some { s with mode := .code }
    else if c = '\\' then some { s with mode := .escape }
    else some s
  | .code =>
    if c = '"' then some { s with mode := .literal }
    else if opens c then some { s with depth := s.depth + 1 }
    else if isForeign c || s.depth = 0 && (closes c || c = ',') then none
    else if closes c then some { s with depth := s.depth - 1 }
    else some s

def run (s : CodeState) (text : List Char) : Option CodeState := text.foldlM step s

@[simp] theorem run_nil (s : CodeState) : s.run [] = some s := rfl

@[simp] theorem run_cons (s : CodeState) (c : Char) (text : List Char) :
    s.run (c :: text) = (s.step c).bind (run · text) := rfl

@[simp] theorem run_append (s : CodeState) (text more : List Char) :
    s.run (text ++ more) = (s.run text).bind (run · more) := List.foldlM_append

def deeper (s : CodeState) (more : Nat) : CodeState := { s with depth := s.depth + more }

theorem step_deeper {s t : CodeState} {c : Char} (h : s.step c = some t) (more : Nat) :
    (s.deeper more).step c = some (t.deeper more) := by
  obtain ⟨depth, mode⟩ := s
  cases mode with
  | escape =>
    cases h
    rfl
  | literal =>
    simp only [step, deeper] at h ⊢
    split_ifs at h ⊢ <;> cases h <;> rfl
  | code =>
    simp only [step, deeper] at h ⊢
    split_ifs at h ⊢ <;> grind

theorem run_deeper {s t : CodeState} {text : List Char} (h : s.run text = some t) (more : Nat) :
    (s.deeper more).run text = some (t.deeper more) := by
  induction text generalizing s with
  | nil =>
    cases h
    rfl
  | cons c text ih =>
    rw [run_cons] at h ⊢
    obtain ⟨next, hnext, hrun⟩ := Option.bind_eq_some_iff.1 h
    rw [step_deeper hnext, Option.bind_some, ih hrun]

end CodeState

/-- The code up to where an expression ends, and the rest. -/
def codeSpan (s : CodeState) : List Char → List Char × List Char
  | [] => ([], [])
  | c :: rest =>
    match s.step c with
    | none => ([], c :: rest)
    | some next => (c :: (codeSpan next rest).1, (codeSpan next rest).2)

theorem codeSpan_append {s t : CodeState} {text : List Char} (h : s.run text = some t)
    (rest : List Char) :
    codeSpan s (text ++ rest) = (text ++ (codeSpan t rest).1, (codeSpan t rest).2) := by
  induction text generalizing s with
  | nil =>
    cases h
    rfl
  | cons c text ih =>
    obtain ⟨next, hnext, hrun⟩ := Option.bind_eq_some_iff.1 h
    simp only [List.cons_append, codeSpan, hnext, ih hrun]

/-- A text that closes what it opens, in so many brackets. -/
def Passes (depth : Nat) (text : List Char) : Prop :=
  CodeState.run ⟨depth, .code⟩ text = some ⟨depth, .code⟩

instance (depth : Nat) (text : List Char) : Decidable (Passes depth text) :=
  inferInstanceAs (Decidable (_ = _))

namespace Passes

variable {depth : Nat} {text more : List Char}

theorem append (h : Passes depth text) (h' : Passes depth more) : Passes depth (text ++ more) := by
  rw [Passes, CodeState.run_append, h, Option.bind_some, h']

theorem deeper (h : Passes 0 text) (depth : Nat) : Passes depth text := by
  simpa [Passes, CodeState.deeper] using CodeState.run_deeper h depth

theorem bracket {c d : Char} (hc : CodeState.opens c) (hd : CodeState.closes d)
    (h : Passes 1 text) : Passes 0 (c :: (text ++ [d])) := by
  have hc' : c ≠ '"' := by
    rintro rfl
    cases hc
  have hopen : CodeState.step ⟨0, .code⟩ c = some ⟨1, .code⟩ := by simp [CodeState.step, hc, hc']
  have hd' : d ≠ '"' ∧ CodeState.opens d = false ∧ CodeState.isForeign d = false := by
    simp only [CodeState.closes, List.mem_cons, List.not_mem_nil, or_false, decide_eq_true_eq] at hd
    rcases hd with rfl | rfl | rfl <;> decide
  have hclose : CodeState.step ⟨1, .code⟩ d = some ⟨0, .code⟩ := by
    simp [CodeState.step, hd, hd']
  rw [Passes, CodeState.run_cons, hopen, Option.bind_some, CodeState.run_append, h,
    Option.bind_some, CodeState.run_cons, hclose]
  rfl

/-- Characters with a meaning of their own in code. -/
def marks : List Char := ['"', '(', '[', '{', ')', ']', '}', ',', '\'', '\x60', '/']

theorem of_notMem_marks (h : ∀ c ∈ text, c ∉ marks) : Passes 0 text := by
  induction text with
  | nil => rfl
  | cons c text ih =>
    obtain ⟨hc, htext⟩ := List.forall_mem_cons.1 h
    have hstep : CodeState.step ⟨0, .code⟩ c = some ⟨0, .code⟩ := by
      simp only [marks, List.mem_cons, List.not_mem_nil, or_false, not_or] at hc
      simp [CodeState.step, CodeState.opens, CodeState.closes, CodeState.isForeign, hc]
    rw [Passes, CodeState.run_cons, hstep, Option.bind_some]
    exact ih htext

theorem of_class {p : Char → Bool} (hmarks : marks.any p = false) (h : ∀ c ∈ text, p c) :
    Passes 0 text :=
  of_notMem_marks fun c hc hmark => List.any_eq_false.1 hmarks c hmark (h c hc)

theorem comma : Passes 1 [','] := by decide

theorem literal (h : Text.IsLiteral text) : Passes 0 text := by
  obtain @⟨pieces, hpieces⟩ := h
  have hchar {c : Char} (hc : c ≠ '"' ∧ c ≠ '\\') :
      CodeState.step ⟨0, .literal⟩ c = some ⟨0, .literal⟩ := by simp [CodeState.step, hc]
  have hdigit {c : Char} (hc : (Reader.hexDigit? c).isSome) : c ≠ '"' ∧ c ≠ '\\' := by
    constructor <;> rintro rfl <;> cases hc
  have hpiece (p : Text.Piece) (hp : p.Proper) :
      CodeState.run ⟨0, .literal⟩ p.chars = some ⟨0, .literal⟩ := by
    cases p with
    | plain c => simp [Text.Piece.chars, hchar ⟨hp.1, hp.2.1⟩]
    | escape letter => rfl
    | unit a b c d =>
      have hu : CodeState.run ⟨0, .literal⟩ ['\\', 'u'] = some ⟨0, .literal⟩ := rfl
      have hdigits : CodeState.run ⟨0, .literal⟩ [a, b, c, d] = some ⟨0, .literal⟩ := by
        simp [hchar (hdigit (hp a (by simp))), hchar (hdigit (hp b (by simp))),
          hchar (hdigit (hp c (by simp))), hchar (hdigit (hp d (by simp)))]
      have happend := CodeState.run_append ⟨0, .literal⟩ ['\\', 'u'] [a, b, c, d]
      rwa [hu, Option.bind_some, hdigits] at happend
  have hbody : CodeState.run ⟨0, .literal⟩ (Text.bodyChars pieces) = some ⟨0, .literal⟩ := by
    induction pieces with
    | nil => rfl
    | cons p pieces ih =>
      obtain ⟨hp, hrest⟩ := List.forall_mem_cons.1 hpieces
      rw [Text.bodyChars_cons, CodeState.run_append, hpiece p hp, Option.bind_some, ih hrest]
  have hopen : CodeState.step ⟨0, .code⟩ '"' = some ⟨0, .literal⟩ := rfl
  rw [Passes, CodeState.run_cons, hopen, Option.bind_some, CodeState.run_append, hbody]
  rfl

theorem quoteChars (s : List Char) : Passes 0 (Text.quoteChars s) :=
  literal (Text.isLiteral_quoteChars s)

theorem isNumberLiteral (h : IsNumberLiteral text) : Passes 0 text := by
  obtain ⟨n, hn⟩ := h
  have hmarks : (marks.any fun c => decide (IsNumeralChar c)) = false := by decide
  exact of_class hmarks fun c hc => decide_eq_true (hn.isNumeralChar c hc)

theorem isIdentifier (h : isIdentifier text) : Passes 0 text := by
  have hmarks : marks.any isNamePart = false := by decide
  exact of_class hmarks (isNamePart_of_isIdentifier h)

theorem literalChars (x : Binary64) : Passes 0 x.literalChars := by
  cases hfinite : x.isFinite with
  | true => exact isNumberLiteral (Binary64.isNumberLiteral_literalChars hfinite)
  | false =>
    rw [Binary64.literalChars, hfinite, Bool.not_false, if_pos rfl]
    split
    · decide
    · unfold Binary64.signed
      split <;> decide

theorem commaJoin {texts : List (List Char)} (h : ∀ text ∈ texts, Passes 0 text) :
    Passes 1 (commaJoin texts) := by
  cases texts with
  | nil => rfl
  | cons text rest =>
    have hblank : Passes 1 [' '] := by decide
    refine commaJoin_of (Q := Passes 0) (fun text htext => htext.deeper 1)
      (fun text rest htext hrest => ?_) (by simp) h
    exact (htext.deeper 1).append (comma.append (hblank.append hrest))

theorem objectLiteral {entries : List (List Char)} (h : ∀ entry ∈ entries, Passes 0 entry) :
    Passes 0 (objectLiteral entries) := by
  unfold ValidatorGen.objectLiteral
  split
  · decide
  · have hblank : Passes 1 [' '] := by decide
    have hinner := bracket (c := '{') (d := '}') rfl rfl
      (hblank.append ((commaJoin h).append hblank))
    simpa using hinner

theorem entry {name value : List Char} (hname : Passes 0 name) (hvalue : Passes 0 value) :
    Passes 0 (name ++ ':' :: ' ' :: value) := by
  have hcolon : Passes 0 [':', ' '] := by decide
  exact hname.append (hcolon.append hvalue)

theorem call {name : List Char} (hname : Passes 0 name) {args : List (List Char)}
    (h : ∀ arg ∈ args, Passes 0 arg) :
    Passes 0 (name ++ '(' :: ValidatorGen.commaJoin args ++ [')']) := by
  have hinner := hname.append (bracket (c := '(') (d := ')') rfl rfl (commaJoin h))
  simpa using hinner

end Passes

theorem passes_optionsWith {name : String} (hname : isIdentifier name.toList) {arg : Arg}
    (harg : Passes 0 arg.chars) (message : Option String) :
    Passes 0 (Arg.optionsWith [(name, arg)] message).chars := by
  have hfirst := (Passes.isIdentifier hname).entry harg
  refine Passes.objectLiteral ?_
  cases message with
  | none => simpa [optionTexts] using hfirst
  | some m =>
    have hmessage := (Passes.isIdentifier (show isIdentifier "message".toList by decide)).entry
      (Passes.quoteChars m.toList)
    simpa [optionTexts, Arg.chars] using ⟨hfirst, hmessage⟩

theorem passes_options {name : String} {entries : List (String × Arg)}
    (h : FitOptions name entries) : Passes 0 (Arg.options entries).chars := by
  obtain ⟨message, ⟨-, heq⟩ | ⟨version, -, heq⟩⟩ := h
  · rw [heq]
    have hyes : Passes 0 (Arg.flag true).chars := by decide
    exact passes_optionsWith (by decide) hyes message
  · rw [heq]
    have hversion : Passes 0 (Arg.text version).chars := .quoteChars version.toList
    exact passes_optionsWith (by decide) hversion message

theorem Call.passes {name : String} (hname : isIdentifier name.toList) {args : List Arg}
    (hargs : ∀ text ∈ argTexts args, Passes 0 text) (message : Option String) :
    Passes 0 (Call.chars ⟨name, args, message⟩) := by
  refine (Passes.isIdentifier hname).call fun text htext => ?_
  rcases List.mem_append.1 htext with harg | hmessage
  · exact hargs text harg
  · obtain ⟨m, -, rfl⟩ := List.mem_map.1 hmessage
    exact .quoteChars m.toList

theorem Call.passes_unary {name : String} (hname : isIdentifier name.toList) {arg : Arg}
    (harg : Passes 0 arg.chars) (message : Option String) :
    Passes 0 (unary name arg message).chars := passes hname (by simpa [argTexts] using harg) message

theorem Call.Made.passes {N : Binary64 → Prop} {call : Call}
    (h : call.Made N fun e => Passes 0 e.chars) :
    Passes 0 call.chars := by
  cases h with
  | bare hname message =>
    exact Call.passes (isIdentifier_of_mem_bareNames hname) (by simp [argTexts]) message
  | count hname n message =>
    have hcount : Passes 0 (Arg.count n).chars :=
      .isNumberLiteral (isNumberLiteral_toString n.toNat)
    refine Call.passes_unary ?_ hcount message
    rcases hname with rfl | rfl <;> decide
  | @number _ hname x _ message =>
    have all : ∀ name ∈ boundNames, isIdentifier name.toList := by decide +kernel
    have hnumber : Passes 0 (Arg.number x).chars := .literalChars x
    exact Call.passes_unary (all _ hname) hnumber message
  | options hfit =>
    refine Call.passes_unary ?_ (passes_options hfit) none
    obtain ⟨_, ⟨rfl, -⟩ | ⟨_, rfl, -⟩⟩ := hfit <;> decide
  | parseJson message =>
    have hcode : Passes 0 (Arg.code parseJsonCode).chars := by decide +kernel
    exact Call.passes_unary (by decide) hcode message
  | regExp pattern message =>
    have hnew : Passes 0 "new RegExp".toList := by decide
    have hargs : ∀ arg ∈ [Text.quoteChars pattern.toList], Passes 0 arg := by
      simpa using Passes.quoteChars pattern.toList
    have hcode : Passes 0 (Arg.code (regExpCode pattern)).chars := by
      simpa [Arg.chars, regExpCode, commaJoin] using hnew.call hargs
    exact Call.passes_unary (by decide) hcode message
  | @nested name hname e he message =>
    have hexpression : Passes 0 (Arg.expression e).chars := he
    refine Call.passes_unary ?_ hexpression message
    rcases hname with rfl | rfl <;> decide
  | @shape entries hentries =>
    have hshape :
        Passes 0 (Arg.shape (entries.map fun entry => (entry.1, .expression entry.2))).chars := by
      refine Passes.objectLiteral ?_
      rw [shapeTexts_eq_map, List.map_map, List.forall_mem_map]
      exact fun entry hentry => (Passes.quoteChars entry.1.toList).entry (hentries entry hentry)
    exact Call.passes_unary (by decide) hshape none

theorem passes_chainChars {N : Binary64 → Prop} {calls : List Call}
    (h : ∀ call ∈ calls, call.Made N fun e => Passes 0 e.chars) : Passes 0 (chainChars calls) := by
  induction calls with
  | nil => rfl
  | cons call rest ih =>
    obtain ⟨hcall, hrest⟩ := List.forall_mem_cons.1 h
    have hpoint : Passes 0 ['.'] := by decide
    exact (hpoint.append hcall.passes).append (ih hrest)

theorem spreads_passes {N : Binary64 → Prop} : Spreads N fun e => Passes 0 e.chars := by
  rintro ⟨base, chain⟩ ⟨hbase, hchain⟩
  have hlibrary : Passes 0 (libraryName ++ ['.']) := by decide
  simpa [Expression.chars] using (hlibrary.append hbase.passes).append (passes_chainChars hchain)

end ValidatorGen
