import ValidatorGen.Numeric.Binary64

/-! Validator expressions: a base call on the validator library, and calls chained to it. -/
namespace ValidatorGen

mutual

/-- A call of a method; a custom message is its last argument. -/
structure Call where
  name : String
  args : List Arg
  message : Option String

/-- Entries of `options` have bare names, those of `shape` quoted ones. -/
inductive Arg where
  | text (s : String)
  | count (n : UInt64)
  | number (x : Binary64)
  | flag (b : Bool)
  | options (entries : List (String × Arg))
  | shape (entries : List (String × Arg))
  | expression (e : Expression)
  | code (s : String)

structure Expression where
  base : Call
  chain : List Call

end

namespace Call

def plain (name : String) : Call := ⟨name, [], none⟩

def unary (name : String) (arg : Arg) (message : Option String) : Call := ⟨name, [arg], message⟩

end Call

/-- Options whose last entry is a message, if there is one. -/
def Arg.optionsWith (entries : List (String × Arg)) (message : Option String) : Arg :=
  .options (entries ++ message.toList.map fun m => ("message", .text m))

namespace Expression

def ofBase (base : Call) : Expression := ⟨base, []⟩

def push (e : Expression) (call : Call) : Expression := ⟨e.base, e.chain ++ [call]⟩

def chainNames (e : Expression) : List String := e.chain.map Call.name

@[simp] theorem chainNames_ofBase (base : Call) : (ofBase base).chainNames = [] := rfl

@[simp] theorem chainNames_push (e : Expression) (call : Call) :
    (e.push call).chainNames = e.chainNames ++ [call.name] := by simp [push, chainNames]

def any : Expression := ofBase (.plain "any")

instance : Inhabited Expression := ⟨any⟩

end Expression

mutual

/-- Equality of trees, with numbers compared by value. -/
def Arg.same : Arg → Arg → Bool
  | .text s, .text t => s == t
  | .count m, .count n => m == n
  | .number x, .number y => x.sameValue y
  | .flag a, .flag b => a == b
  | .options a, .options b => sameEntries a b
  | .shape a, .shape b => sameEntries a b
  | .expression a, .expression b => a.same b
  | .code s, .code t => s == t
  | _, _ => false

def sameEntries : List (String × Arg) → List (String × Arg) → Bool
  | [], [] => true
  | (name, arg) :: rest, (name', arg') :: rest' =>
    name == name' && arg.same arg' && sameEntries rest rest'
  | _, _ => false

def sameArgs : List Arg → List Arg → Bool
  | [], [] => true
  | arg :: rest, arg' :: rest' => arg.same arg' && sameArgs rest rest'
  | _, _ => false

def Call.same : Call → Call → Bool
  | ⟨name, args, message⟩, ⟨name', args', message'⟩ =>
    name == name' && sameArgs args args' && message == message'

def sameCalls : List Call → List Call → Bool
  | [], [] => true
  | call :: rest, call' :: rest' => call.same call' && sameCalls rest rest'
  | _, _ => false

def Expression.same : Expression → Expression → Bool
  | ⟨base, chain⟩, ⟨base', chain'⟩ => base.same base' && sameCalls chain chain'

end

end ValidatorGen
