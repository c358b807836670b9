/-!
# Counted values

A value together with the number of changes that led to it.
-/

namespace BindingProxy

/-- A value and the number of changes that led to it. -/
structure Counted (α : Type) where
  value : α
  count : Nat
deriving Repr, DecidableEq, Inhabited

namespace Counted

/-- A value that took one change. -/
def changed {α : Type} (value : α) : Counted α := ⟨value, 1⟩

instance : Monad Counted where
  pure value := ⟨value, 0⟩
  bind c f := ⟨(f c.value).value, c.count + (f c.value).count⟩

variable {α β : Type}

@[simp]
theorem value_pure (a : α) : (pure a : Counted α).value = a := rfl

@[simp]
theorem count_pure (a : α) : (pure a : Counted α).count = 0 := rfl

@[simp]
theorem value_bind (c : Counted α) (f : α → Counted β) : (c >>= f).value = (f c.value).value := rfl

@[simp]
theorem count_bind (c : Counted α) (f : α → Counted β) :
    (c >>= f).count = c.count + (f c.value).count := rfl

theorem ext_iff {c d : Counted α} : c = d ↔ c.value = d.value ∧ c.count = d.count := by
  cases c
  cases d
  simp

instance : LawfulMonad Counted :=
  LawfulMonad.mk' Counted
    (fun c => by simp [Functor.map])
    (fun a f => by simp [ext_iff])
    (fun c f g => by simp [ext_iff, Nat.add_assoc])

end Counted

end BindingProxy
