import ValidatorGen.Proofs.Expression.Agrees
import ValidatorGen.Proofs.Expression.Grammar

/-! Code can be read back. Main statement: whatever follows, as long as it does not go on with the
last literal or the chain, a text begins with the code of at most one expression. -/
namespace ValidatorGen

/-- The same literal stands for both numbers. -/
def SameLiteral (x y : Binary64) : Prop := x.literalChars = y.literalChars

theorem sameLiteral_refl (x : Binary64) : SameLiteral x x := rfl

/-- What may follow an argument: the end, or one of the three characters that end it. -/
def Closed (rest : List Char) : Prop := ∀ c ∈ rest.head?, c = ')' ∨ c = ',' ∨ c = ' '

theorem append_inj_of_class {p : Char → Prop} {s t u v : List Char} (hs : ∀ c ∈ s, p c)
    (ht : ∀ c ∈ t, p c) (hu : ∀ c ∈ u.head?, ¬p c) (hv : ∀ c ∈ v.head?, ¬p c)
    (h : s ++ u = t ++ v) : s = t ∧ u = v := by
  induction s generalizing t with
  | nil =>
    cases t with
    | nil => exact ⟨rfl, h⟩
    | cons d t =>
      have hd : p d := ht d (by simp)
      have hu' : ¬p d := hu d (by simp [show u = d :: (t ++ v) from h])
      exact absurd hd hu'
  | cons c s ih =>
    have hc : p c := hs c (by simp)
    cases t with
    | nil =>
      have hv' : ¬p c := hv c (by simp [show v = c :: (s ++ u) from h.symm])
      exact absurd hc hv'
    | cons d t =>
      obtain ⟨rfl, hrest⟩ := List.cons.inj h
      have htail := ih (fun x hx => hs x (by simp [hx])) (fun x hx => ht x (by simp [hx])) hrest
      simpa using htail

theorem Closed.not_isNumeralChar {rest : List Char} (h : Closed rest) :
    ∀ c ∈ rest.head?, ¬IsNumeralChar c := by
  intro c hc
  rcases h c hc with rfl | rfl | rfl <;> simp [IsNumeralChar]

/-- A number literal ends where an argument may end. -/
theorem IsNumberLiteral.append_inj {s t u v : List Char} (hs : IsNumberLiteral s)
    (ht : IsNumberLiteral t) (hu : Closed u) (hv : Closed v) (h : s ++ u = t ++ v) :
    s = t ∧ u = v := by
  obtain ⟨_, hs⟩ := hs
  obtain ⟨_, ht⟩ := ht
  exact append_inj_of_class hs.isNumeralChar ht.isNumeralChar hu.not_isNumeralChar
    hv.not_isNumeralChar h

theorem toString_injective {m n : Nat} (h : (toString m).toList = (toString n).toList) : m = n := by
  have hdigits : Nat.toDigits 10 m = Nat.toDigits 10 n := by simpa using h
  have hvalue := congrArg (fun digits => Nat.ofDigitChars 10 digits 0) hdigits
  simpa using hvalue

theorem identifier_append_inj {s t u v : List Char} {c : Char} (hs : isIdentifier s)
    (ht : isIdentifier t) (hc : isNamePart c = false) (h : s ++ c :: u = t ++ c :: v) :
    s = t ∧ u = v := by
  have hend : ∀ d ∈ some c, ¬isNamePart d := by simp [hc]
  have hinj := append_inj_of_class (isNamePart_of_isIdentifier hs) (isNamePart_of_isIdentifier ht)
    (u := c :: u) (v := c :: v) hend hend h
  simpa using hinj

theorem quoteChars_append_inj {s t : String} {u v : List Char}
    (h : Text.quoteChars s.toList ++ u = Text.quoteChars t.toList ++ v) : s = t ∧ u = v := by
  have hinj := (Text.isLiteral_quoteChars s.toList).eq_of_append_eq
    (Text.isLiteral_quoteChars t.toList) h
  exact ⟨String.toList_injective (Text.quoteChars_injective hinj.1), hinj.2⟩

def messageTail (before : List Char) : Option String → List Char
  | none => []
  | some message => before ++ Text.quoteChars message.toList

theorem head?_messageTail_some (before : List Char) (message : String) (rest : List Char) :
    (messageTail before (some message) ++ rest).head? = (before ++ ['"']).head? := by
  cases before <;> simp [messageTail, Text.quoteChars]

theorem messageTail_append_inj {before : List Char} {c : Char}
    (hc : (before ++ ['"']).head? ≠ some c) {m m' : Option String} {u v : List Char}
    (h : messageTail before m ++ c :: u = messageTail before m' ++ c :: v) : m = m' ∧ u = v := by
  have hhead := congrArg List.head? h
  cases m with
  | none =>
    cases m' with
    | none => simpa [messageTail] using h
    | some m' =>
      rw [head?_messageTail_some] at hhead
      exact absurd hhead.symm hc
  | some m =>
    cases m' with
    | none =>
      rw [head?_messageTail_some] at hhead
      exact absurd hhead hc
    | some m' =>
      have hquoted : Text.quoteChars m.toList ++ c :: u = Text.quoteChars m'.toList ++ c :: v := by
        simpa [messageTail] using h
      simpa using quoteChars_append_inj hquoted

inductive ArgKind where
  | text
  | count
  | number
  | flag
  | options
  | shape
  | expression
  | code
deriving DecidableEq

def Arg.kind : Arg → ArgKind
  | .text _ => .text
  | .count _ => .count
  | .number _ => .number
  | .flag _ => .flag
  | .options _ => .options
  | .shape _ => .shape
  | .expression _ => .expression
  | .code _ => .code

/-- The kind of argument that calls of a name can have. -/
def kindOfName (name : String) : Option ArgKind :=
  if name = "min" ∨ name = "max" then some .count
  else if name ∈ boundNames then some .number
  else if name = "datetime" ∨ name = "ip" then some .options
  else if name = "object" then some .shape
  else if name = "array" ∨ name = "pipe" then some .expression
  else if name = "transform" ∨ name = "regex" then some .code
  else none

theorem Arg.Fits.kindOfName_eq {name : String} {arg : Arg} (h : arg.Fits name) :
    kindOfName name = some arg.kind := by
  cases arg with
  | text s => exact h.elim
  | count n => rcases h with rfl | rfl <;> simp [Arg.kind, kindOfName]
  | number x =>
    have all : ∀ name ∈ boundNames, kindOfName name = some .number := by decide
    exact all name h.1
  | flag b => exact h.elim
  | options entries =>
    obtain ⟨_, ⟨rfl, -⟩ | ⟨_, rfl, -⟩⟩ := h <;> simp [Arg.kind, kindOfName, boundNames]
  | shape entries =>
    obtain ⟨rfl, -⟩ := h
    simp [Arg.kind, kindOfName, boundNames]
  | expression e =>
    obtain ⟨rfl | rfl, -⟩ := h <;> simp [Arg.kind, kindOfName, boundNames]
  | code s =>
    obtain ⟨rfl, -⟩ | ⟨rfl, -⟩ := h <;> simp [Arg.kind, kindOfName, boundNames]

theorem Arg.Fits.kind_eq {name : String} {a b : Arg} (ha : a.Fits name) (hb : b.Fits name) :
    a.kind = b.kind :=
  Option.some.inj (ha.kindOfName_eq.symm.trans hb.kindOfName_eq)

/-- What fits a call that may go without an argument are options. -/
theorem Arg.Fits.kind_of_bare {name : String} {arg : Arg} (h : arg.Fits name)
    (hbare : name ∈ bareNames) : arg.kind = .options := by
  have all : ∀ name ∈ bareNames, kindOfName name = none ∨ kindOfName name = some .options := by
    decide
  rcases all name hbare with hnone | hoptions
  · simp [h.kindOfName_eq] at hnone
  · exact Option.some.inj (h.kindOfName_eq.symm.trans hoptions)

def Call.argChars (call : Call) : List Char :=
  commaJoin (argTexts call.args ++ call.message.toList.map fun m => Text.quoteChars m.toList)

theorem Call.argChars_bare (name : String) (message : Option String) :
    argChars ⟨name, [], message⟩ = messageTail [] message := by
  cases message <;> simp [argChars, argTexts, commaJoin, messageTail]

theorem Call.argChars_unary (name : String) (arg : Arg) (message : Option String) :
    argChars ⟨name, [arg], message⟩ = arg.chars ++ messageTail [',', ' '] message := by
  cases message <;> simp [argChars, argTexts, commaJoin, messageTail]

theorem Call.name_append_inj {a b : Call} (ha : a.Emitted) (hb : b.Emitted) {u v : List Char}
    (h : a.chars ++ u = b.chars ++ v) :
    a.name = b.name ∧ a.argChars ++ ')' :: u = b.argChars ++ ')' :: v := by
  have hcall : a.name.toList ++ '(' :: (a.argChars ++ ')' :: u)
      = b.name.toList ++ '(' :: (b.argChars ++ ')' :: v) := by
    cases a
    cases b
    simpa [Call.chars, argChars] using h
  have hinj := identifier_append_inj ha.isIdentifier hb.isIdentifier (by decide) hcall
  exact ⟨String.toList_injective hinj.1, hinj.2⟩

theorem Arg.chars_optionsWith (name : String) (arg : Arg) (message : Option String) :
    (optionsWith [(name, arg)] message).chars
      = '{' :: ' ' :: (name.toList ++ ':' :: ' ' :: (arg.chars
        ++ (messageTail ", message: ".toList message ++ [' ', '}']))) := by
  cases message <;>
    simp [optionsWith, Arg.chars, optionTexts, objectLiteral, commaJoin, messageTail]

theorem FitOptions.append_inj {name : String} {a b : List (String × Arg)} (ha : FitOptions name a)
    (hb : FitOptions name b) {u v : List Char}
    (h : (Arg.options a).chars ++ u = (Arg.options b).chars ++ v) :
    Arg.options a = Arg.options b ∧ u = v := by
  have hblank : (", message: ".toList ++ ['"']).head? ≠ some ' ' := by decide
  obtain ⟨m, ⟨rfl, heq⟩ | ⟨version, rfl, heq⟩⟩ := ha
  · obtain ⟨m', ⟨-, heq'⟩ | ⟨_, hname, -⟩⟩ := hb
    · rw [heq, heq', Arg.chars_optionsWith, Arg.chars_optionsWith] at h
      have htail : messageTail ", message: ".toList m ++ ' ' :: '}' :: u
          = messageTail ", message: ".toList m' ++ ' ' :: '}' :: v := by simpa using h
      obtain ⟨rfl, hrest⟩ := messageTail_append_inj hblank htail
      exact ⟨heq.trans heq'.symm, (List.cons.inj hrest).2⟩
    · simp at hname
  · obtain ⟨m', ⟨hname, -⟩ | ⟨version', -, heq'⟩⟩ := hb
    · simp at hname
    · rw [heq, heq', Arg.chars_optionsWith, Arg.chars_optionsWith] at h
      have hversion : Text.quoteChars version.toList
            ++ (messageTail ", message: ".toList m ++ ' ' :: '}' :: u)
          = Text.quoteChars version'.toList
            ++ (messageTail ", message: ".toList m' ++ ' ' :: '}' :: v) := by
        simpa [Arg.chars] using h
      obtain ⟨rfl, htail⟩ := quoteChars_append_inj hversion
      obtain ⟨rfl, hrest⟩ := messageTail_append_inj hblank htail
      exact ⟨heq.trans heq'.symm, (List.cons.inj hrest).2⟩

/-- A callback is fixed, and the code of a regular expression ends after its literal. -/
theorem code_append_inj {name s t : String} (hs : (Arg.code s).Fits name)
    (ht : (Arg.code t).Fits name) {u v : List Char} (h : s.toList ++ u = t.toList ++ v) :
    s = t ∧ u = v := by
  obtain ⟨rfl, rfl⟩ | ⟨rfl, p, rfl⟩ := hs
  · obtain ⟨-, rfl⟩ | ⟨hname, -⟩ := ht
    · exact ⟨rfl, List.append_cancel_left h⟩
    · simp at hname
  · obtain ⟨hname, -⟩ | ⟨-, p', rfl⟩ := ht
    · simp at hname
    · have hquoted : Text.quoteChars p.toList ++ ')' :: u = Text.quoteChars p'.toList ++ ')' :: v := by
        simpa [regExpCode] using h
      obtain ⟨rfl, hrest⟩ := quoteChars_append_inj hquoted
      exact ⟨rfl, (List.cons.inj hrest).2⟩

def commaTail (texts : List (List Char)) : List Char := texts.flatMap fun text => ',' :: ' ' :: text

theorem commaJoin_cons (text : List Char) (rest : List (List Char)) :
    commaJoin (text :: rest) = text ++ commaTail rest := by
  induction rest generalizing text with
  | nil => simp [commaJoin, commaTail]
  | cons next rest ih => simp [commaJoin, ih, commaTail]

theorem objectLiteral_append_inj {as bs : List (List Char)} {u v : List Char}
    (h : objectLiteral as ++ u = objectLiteral bs ++ v) :
    commaTail as ++ ' ' :: '}' :: u = commaTail bs ++ ' ' :: '}' :: v := by
  cases as with
  | nil =>
    cases bs with
    | nil => simpa [objectLiteral] using h
    | cons b bs => simp [objectLiteral] at h
  | cons a as =>
    cases bs with
    | nil => simp [objectLiteral] at h
    | cons b bs => simpa [objectLiteral, commaJoin_cons, commaTail] using h

theorem closed_commaTail (texts : List (List Char)) (rest : List Char) :
    Closed (commaTail texts ++ ' ' :: rest) := by
  cases texts <;> simp [commaTail, Closed]

theorem closed_messageTail (message : Option String) (rest : List Char) :
    Closed (messageTail [',', ' '] message ++ ')' :: rest) := by
  cases message <;> simp [messageTail, Closed]

theorem Closed.head?_ne_point {rest : List Char} (h : Closed rest) : rest.head? ≠ some '.' := by
  intro hpoint
  have := h '.' hpoint
  simp at this

/-- A call without an argument, with a message or none, is not a call with options. -/
theorem bare_ne_unary {name : String} {arg : Arg} (h : arg.Fits name) (hbare : name ∈ bareNames)
    {m m' : Option String} {u v : List Char} :
    messageTail [] m ++ ')' :: u ≠ arg.chars ++ messageTail [',', ' '] m' ++ ')' :: v := by
  have hkind := h.kind_of_bare hbare
  cases arg with
  | options entries =>
    cases m <;> cases entries <;>
      simp [messageTail, Text.quoteChars, Arg.chars, optionTexts, objectLiteral]
  | _ => cases hkind

mutual

theorem Arg.append_inj : (a : Arg) → {name : String} → {b : Arg} → a.Fits name → b.Fits name →
    {u v : List Char} → Closed u → Closed v → a.chars ++ u = b.chars ++ v →
    a.Agrees SameLiteral b ∧ u = v
  | .count m, _, b, ha, hb, u, v, hu, hv, h => by
    cases b with
    | count n =>
      have hinj := (isNumberLiteral_toString m.toNat).append_inj (isNumberLiteral_toString n.toNat)
        hu hv h
      exact ⟨UInt64.toNat_inj.1 (toString_injective hinj.1), hinj.2⟩
    | _ => cases ha.kind_eq hb
  | .number x, _, b, ha, hb, u, v, hu, hv, h => by
    cases b with
    | number y =>
      exact (Binary64.isNumberLiteral_literalChars ha.2).append_inj
        (Binary64.isNumberLiteral_literalChars hb.2) hu hv h
    | _ => cases ha.kind_eq hb
  | .options entries, _, b, ha, hb, u, v, hu, hv, h => by
    cases b with
    | options entries' =>
      have hinj := FitOptions.append_inj ha hb h
      rw [← hinj.1]
      exact ⟨Arg.agrees_refl sameLiteral_refl _, hinj.2⟩
    | _ => cases ha.kind_eq hb
  | .shape entries, _, b, ha, hb, u, v, hu, hv, h => by
    cases b with
    | shape entries' =>
      have htail := objectLiteral_append_inj h
      obtain ⟨hagree, hrest⟩ := shapeTail_append_inj entries ha.2 hb.2 htail
      exact ⟨hagree, (List.cons.inj hrest).2⟩
    | _ => cases ha.kind_eq hb
  | .expression e, _, b, ha, hb, u, v, hu, hv, h => by
    cases b with
    | expression e' => exact e.append_inj ha.2 hb.2 hu.head?_ne_point hv.head?_ne_point h
    | _ => cases ha.kind_eq hb
  | .code s, _, b, ha, hb, u, v, hu, hv, h => by
    cases b with
    | code s' => exact code_append_inj ha hb h
    | _ => cases ha.kind_eq hb
  | .text _, _, _, ha, _, _, _, _, _, _ | .flag _, _, _, ha, _, _, _, _, _, _ => ha.elim

theorem shapeTail_append_inj : (as : List (String × Arg)) → {bs : List (String × Arg)} →
    EmittedEntries as → EmittedEntries bs → {u v : List Char} →
    commaTail (shapeTexts as) ++ ' ' :: u = commaTail (shapeTexts bs) ++ ' ' :: v →
    EntriesAgree SameLiteral as bs ∧ u = v
  | [], [], _, _, _, _, h => by simpa [commaTail, shapeTexts, EntriesAgree] using h
  | [], (_, _) :: _, _, _, _, _, h => by simp [commaTail, shapeTexts] at h
  | (_, .expression _) :: _, [], _, _, _, _, h => by simp [commaTail, shapeTexts] at h
  | (name, .expression e) :: rest, (name', .expression e') :: rest', ha, hb, u, v, h => by
    have hname : Text.quoteChars name.toList
          ++ ':' :: ' ' :: (e.chars ++ (commaTail (shapeTexts rest) ++ ' ' :: u))
        = Text.quoteChars name'.toList
          ++ ':' :: ' ' :: (e'.chars ++ (commaTail (shapeTexts rest') ++ ' ' :: v)) := by
      simpa [commaTail, shapeTexts, Arg.chars] using h
    obtain ⟨rfl, hvalue⟩ := quoteChars_append_inj hname
    obtain ⟨he, htail⟩ := e.append_inj ha.1 hb.1 (closed_commaTail _ u).head?_ne_point
      (closed_commaTail _ v).head?_ne_point (by simpa using hvalue)
    obtain ⟨hrest, huv⟩ := shapeTail_append_inj rest ha.2 hb.2 htail
    exact ⟨⟨rfl, he, hrest⟩, huv⟩

theorem Call.append_inj : (a : Call) → {b : Call} → a.Emitted → b.Emitted → {u v : List Char} →
    a.chars ++ u = b.chars ++ v → a.Agrees SameLiteral b ∧ u = v
  | ⟨name, [], m⟩, ⟨name', [], m'⟩, ha, hb, u, v, h => by
    obtain ⟨hname, hargs⟩ := Call.name_append_inj ha hb h
    rw [Call.argChars_bare, Call.argChars_bare] at hargs
    have hinj := messageTail_append_inj (by decide) hargs
    exact ⟨⟨hname, trivial, hinj.1⟩, hinj.2⟩
  | ⟨name, [], m⟩, ⟨name', [arg'], m'⟩, ha, hb, u, v, h => by
    obtain ⟨rfl, hargs⟩ := Call.name_append_inj ha hb h
    rw [Call.argChars_bare, Call.argChars_unary] at hargs
    exact absurd hargs (bare_ne_unary hb ha)
  | ⟨name, [arg], m⟩, ⟨name', [], m'⟩, ha, hb, u, v, h => by
    obtain ⟨rfl, hargs⟩ := Call.name_append_inj ha hb h
    rw [Call.argChars_bare, Call.argChars_unary] at hargs
    exact absurd hargs.symm (bare_ne_unary ha hb)
  | ⟨name, [arg], m⟩, ⟨name', [arg'], m'⟩, ha, hb, u, v, h => by
    obtain ⟨rfl, hargs⟩ := Call.name_append_inj ha hb h
    rw [Call.argChars_unary, Call.argChars_unary, List.append_assoc, List.append_assoc] at hargs
    obtain ⟨harg, htail⟩ := arg.append_inj ha hb (closed_messageTail m u) (closed_messageTail m' v)
      hargs
    have hinj := messageTail_append_inj (by decide) htail
    exact ⟨⟨rfl, ⟨harg, trivial⟩, hinj.1⟩, hinj.2⟩
  | ⟨_, _ :: _ :: _, _⟩, _, ha, _, _, _, _ => ha.elim
  | _, ⟨_, _ :: _ :: _, _⟩, _, hb, _, _, _ => hb.elim

theorem chainChars_append_inj : (as : List Call) → {bs : List Call} → EmittedCalls as →
    EmittedCalls bs → {u v : List Char} → u.head? ≠ some '.' → v.head? ≠ some '.' →
    chainChars as ++ u = chainChars bs ++ v → CallsAgree SameLiteral as bs ∧ u = v
  | [], [], _, _, _, _, _, _, h => ⟨trivial, h⟩
  | [], _ :: _, _, _, _, _, hu, _, h => by
    simp only [chainChars, List.nil_append] at h
    simp [h] at hu
  | _ :: _, [], _, _, _, _, _, hv, h => by
    simp only [chainChars, List.nil_append] at h
    simp [← h] at hv
  | a :: as, b :: bs, ha, hb, u, v, hu, hv, h => by
    have hcall : a.chars ++ (chainChars as ++ u) = b.chars ++ (chainChars bs ++ v) := by
      simpa [chainChars] using h
    obtain ⟨hab, hrest⟩ := a.append_inj ha.1 hb.1 hcall
    obtain ⟨hchain, huv⟩ := chainChars_append_inj as ha.2 hb.2 hu hv hrest
    exact ⟨⟨hab, hchain⟩, huv⟩

/-- A text begins with the code of at most one expression. -/
theorem Expression.append_inj : (a : Expression) → {b : Expression} → a.Emitted → b.Emitted →
    {u v : List Char} → u.head? ≠ some '.' → v.head? ≠ some '.' → a.chars ++ u = b.chars ++ v →
    a.Agrees SameLiteral b ∧ u = v
  | ⟨base, chain⟩, ⟨base', chain'⟩, ha, hb, u, v, hu, hv, h => by
    have hcall : base.chars ++ (chainChars chain ++ u)
        = base'.chars ++ (chainChars chain' ++ v) := by
      simpa [Expression.chars, libraryName] using h
    obtain ⟨hbase, hrest⟩ := base.append_inj ha.1 hb.1 hcall
    obtain ⟨hchain, huv⟩ := chainChars_append_inj chain ha.2 hb.2 hu hv hrest
    exact ⟨⟨hbase, hchain⟩, huv⟩

end

theorem Expression.exists_chars_eq (e : Expression) : ∃ rest, e.chars = 'z' :: rest := by
  cases e
  simp [Expression.chars, libraryName]

end ValidatorGen
