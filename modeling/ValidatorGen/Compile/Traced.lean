/-! Results with a log of what happened on the way. -/
namespace ValidatorGen

structure Traced (ε α : Type) where
  value : α
  log : List ε

namespace Traced

variable {ε α β : Type}

def emit (entry : ε) : Traced ε Unit := ⟨(), [entry]⟩

instance : Monad (Traced ε) where
  pure value := ⟨value, []⟩
  bind t f := ⟨(f t.value).value, t.log ++ (f t.value).log⟩

@[simp] theorem value_pure (a : α) : (pure a : Traced ε α).value = a := rfl
@[simp] theorem log_pure (a : α) : (pure a : Traced ε α).log = [] := rfl
@[simp] theorem value_bind (t : Traced ε α) (f : α → Traced ε β) :
    (t >>= f).value = (f t.value).value := rfl
@[simp] theorem log_bind (t : Traced ε α) (f : α → Traced ε β) :
    (t >>= f).log = t.log ++ (f t.value).log := rfl
@[simp] theorem value_map (f : α → β) (t : Traced ε α) : (f <$> t).value = f t.value := rfl
@[simp] theorem log_map (f : α → β) (t : Traced ε α) : (f <$> t).log = t.log :=
  List.append_nil _
@[simp] theorem log_emit (entry : ε) : (emit entry).log = [entry] := rfl

instance : LawfulMonad (Traced ε) :=
  .mk' (Traced ε) (fun t => by cases t; simp [Functor.map]) (fun a f => by simp [bind, pure])
    (fun t f g => by simp [bind, List.append_assoc])

end Traced
end ValidatorGen
