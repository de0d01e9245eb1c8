import Mathlib.Control.Monad.Writer

namespace Agatha

universe u

abbrev Traced (ε α : Type u) : Type u := Writer (List ε) α

namespace Traced

variable {ε α β γ : Type u} {x : Traced ε α} {f : α → Traced ε β} {P : ε → Prop} {c : Prop} [Decidable c]

def val (x : Traced ε α) : α := (WriterT.run x).run.1

def log (x : Traced ε α) : List ε := (WriterT.run x).run.2

def of (a : α) (l : List ε) : Traced ε α := WriterT.mk (a, l)

def All (P : ε → Prop) (x : Traced ε α) : Prop := ∀ e ∈ x.log, P e

@[simp]
theorem val_pure {a : α} : (pure a : Traced ε α).val = a := (rfl)

@[simp]
theorem val_of {a : α} {l : List ε} : (of a l).val = a := (rfl)

@[simp]
theorem val_bind : (x >>= f).val = (f x.val).val := (rfl)

@[simp]
theorem val_ite {y : Traced ε α} : (if c then x else y).val = if c then x.val else y.val :=
  apply_ite val c x y

@[simp]
theorem all_pure {a : α} : (pure a : Traced ε α).All P := by
  intro e he
  exact absurd he (List.not_mem_nil)

@[simp]
theorem all_bind : (x >>= f).All P ↔ x.All P ∧ (f x.val).All P := List.forall_mem_append

@[simp]
theorem all_ite {y : Traced ε α} : (if c then x else y).All P ↔ if c then x.All P else y.All P := by
  split_ifs <;> rfl

def fold (f : β → α → Traced ε α) : List β → α → Traced ε α
  | [], a => pure a
  | b :: l, a => f b a >>= fold f l

end Traced

end Agatha
