import ValidatorGen.Expression.Basic

/-! Expressions that are the same tree, except that numbers only have to be related. Equality of
expressions is a case of it. -/
namespace ValidatorGen

variable (r : Binary64 → Binary64 → Prop)

mutual

def Arg.Agrees : Arg → Arg → Prop
  | .text s, .text t => s = t
  | .count m, .count n => m = n
  | .number x, .number y => r x y
  | .flag a, .flag b => a = b
  | .options a, .options b => EntriesAgree a b
  | .shape a, .shape b => EntriesAgree a b
  | .expression a, .expression b => a.Agrees b
  | .code s, .code t => s = t
  | _, _ => False
termination_by structural a => a

def EntriesAgree : List (String × Arg) → List (String × Arg) → Prop
  | [], [] => True
  | (name, arg) :: rest, (name', arg') :: rest' =>
    name = name' ∧ arg.Agrees arg' ∧ EntriesAgree rest rest'
  | _, _ => False
termination_by structural a => a

def ArgsAgree : List Arg → List Arg → Prop
  | [], [] => True
  | arg :: rest, arg' :: rest' => arg.Agrees arg' ∧ ArgsAgree rest rest'
  | _, _ => False
termination_by structural a => a

def Call.Agrees : Call → Call → Prop
  | ⟨name, args, message⟩, ⟨name', args', message'⟩ =>
    name = name' ∧ ArgsAgree args args' ∧ message = message'
termination_by structural a => a

def CallsAgree : List Call → List Call → Prop
  | [], [] => True
  | call :: rest, call' :: rest' => call.Agrees call' ∧ CallsAgree rest rest'
  | _, _ => False
termination_by structural a => a

def Expression.Agrees : Expression → Expression → Prop
  | ⟨base, chain⟩, ⟨base', chain'⟩ => base.Agrees base' ∧ CallsAgree chain chain'
termination_by structural a => a

end

/-- Numbers of equal value. -/
def SameValue (x y : Binary64) : Prop := x.sameValue y = true

mutual

theorem Arg.same_iff : (a b : Arg) → (a.same b = true ↔ a.Agrees SameValue b)
  | .text _, b | .count _, b | .number _, b | .flag _, b | .code _, b => by
    cases b <;> simp [Arg.same, Arg.Agrees, SameValue]
  | .options as, b => by
    cases b <;> simp [Arg.same, Arg.Agrees]
    exact sameEntries_iff as _
  | .shape as, b => by
    cases b <;> simp [Arg.same, Arg.Agrees]
    exact sameEntries_iff as _
  | .expression e, b => by
    cases b <;> simp [Arg.same, Arg.Agrees]
    exact Expression.same_iff e _

theorem sameEntries_iff : (as bs : List (String × Arg)) →
    (sameEntries as bs = true ↔ EntriesAgree SameValue as bs)
  | [], bs => by cases bs <;> simp [sameEntries, EntriesAgree]
  | (name, arg) :: rest, [] => by simp [sameEntries, EntriesAgree]
  | (name, arg) :: rest, (name', arg') :: rest' => by
    simp [sameEntries, EntriesAgree, Arg.same_iff arg arg', sameEntries_iff rest rest', and_assoc]

theorem sameArgs_iff : (as bs : List Arg) → (sameArgs as bs = true ↔ ArgsAgree SameValue as bs)
  | [], bs => by cases bs <;> simp [sameArgs, ArgsAgree]
  | arg :: rest, [] => by simp [sameArgs, ArgsAgree]
  | arg :: rest, arg' :: rest' => by
    simp [sameArgs, ArgsAgree, Arg.same_iff arg arg', sameArgs_iff rest rest']

theorem Call.same_iff : (a b : Call) → (a.same b = true ↔ a.Agrees SameValue b)
  | ⟨name, args, message⟩, ⟨name', args', message'⟩ => by
    simp [Call.same, Call.Agrees, sameArgs_iff args args', and_assoc]

theorem sameCalls_iff : (as bs : List Call) →
    (sameCalls as bs = true ↔ CallsAgree SameValue as bs)
  | [], bs => by cases bs <;> simp [sameCalls, CallsAgree]
  | call :: rest, [] => by simp [sameCalls, CallsAgree]
  | call :: rest, call' :: rest' => by
    simp [sameCalls, CallsAgree, Call.same_iff call call', sameCalls_iff rest rest']

theorem Expression.same_iff : (a b : Expression) → (a.same b = true ↔ a.Agrees SameValue b)
  | ⟨base, chain⟩, ⟨base', chain'⟩ => by
    simp [Expression.same, Expression.Agrees, Call.same_iff base base',
      sameCalls_iff chain chain']

end

variable {r}

mutual

theorem Arg.agrees_refl (hr : ∀ x, r x x) : (a : Arg) → a.Agrees r a
  | .text _ | .count _ | .flag _ | .code _ => rfl
  | .number x => hr x
  | .options entries | .shape entries => entriesAgree_refl hr entries
  | .expression e => e.agrees_refl hr

theorem entriesAgree_refl (hr : ∀ x, r x x) : (entries : List (String × Arg)) →
    EntriesAgree r entries entries
  | [] => trivial
  | (_, arg) :: rest => ⟨rfl, arg.agrees_refl hr, entriesAgree_refl hr rest⟩

theorem argsAgree_refl (hr : ∀ x, r x x) : (args : List Arg) → ArgsAgree r args args
  | [] => trivial
  | arg :: rest => ⟨arg.agrees_refl hr, argsAgree_refl hr rest⟩

theorem Call.agrees_refl (hr : ∀ x, r x x) : (call : Call) → call.Agrees r call
  | ⟨_, args, _⟩ => ⟨rfl, argsAgree_refl hr args, rfl⟩

theorem callsAgree_refl (hr : ∀ x, r x x) : (calls : List Call) → CallsAgree r calls calls
  | [] => trivial
  | call :: rest => ⟨call.agrees_refl hr, callsAgree_refl hr rest⟩

theorem Expression.agrees_refl (hr : ∀ x, r x x) : (e : Expression) → e.Agrees r e
  | ⟨base, chain⟩ => ⟨base.agrees_refl hr, callsAgree_refl hr chain⟩

end

end ValidatorGen
