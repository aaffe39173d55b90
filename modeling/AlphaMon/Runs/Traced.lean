import Mathlib.Data.List.Basic

/-!
# Traced computations

A traced computation has a value and a log of the events on the way to it: the accesses to memory,
the calls of a function.  A program written once as a plain function and once as a traced
computation is connected by the value of the second being the first; what the log then says is about
the program.

`Stays P` says that every event of the log satisfies `P`, and goes down to the parts of a
computation (`stays_bind`).  A computation that may come to no result has a log as well (`Partial`):
that of what happens before it fails.
-/

set_option autoImplicit false

/-- A value, and the events on the way to it. -/
structure Traced (ε α : Type) where
  value : α
  log : List ε

namespace Traced

variable {ε α β : Type} {P : ε → Prop}

instance : Monad (Traced ε) where
  pure a := ⟨a, []⟩
  bind x f := ⟨(f x.value).value, x.log ++ (f x.value).log⟩

@[simp] theorem value_pure (a : α) : (pure a : Traced ε α).value = a := rfl

@[simp] theorem value_bind (x : Traced ε α) (f : α → Traced ε β) :
    (x >>= f).value = (f x.value).value := rfl

theorem value_ite (c : Prop) [Decidable c] (x y : Traced ε α) :
    (if c then x else y).value = if c then x.value else y.value :=
  apply_ite value c x y

theorem mem_log_bind {x : Traced ε α} {f : α → Traced ε β} {e : ε} :
    e ∈ (x >>= f).log ↔ e ∈ x.log ∨ e ∈ (f x.value).log :=
  List.mem_append

/-- Every event satisfies `P`. -/
def Stays (P : ε → Prop) (x : Traced ε α) : Prop := ∀ e ∈ x.log, P e

instance [DecidablePred P] (x : Traced ε α) : Decidable (x.Stays P) :=
  inferInstanceAs (Decidable (∀ _ ∈ _, _))

@[simp] theorem stays_pure (a : α) : (pure a : Traced ε α).Stays P :=
  fun _ h ↦ absurd h List.not_mem_nil

@[simp] theorem stays_bind {x : Traced ε α} {f : α → Traced ε β} :
    (x >>= f).Stays P ↔ x.Stays P ∧ (f x.value).Stays P :=
  List.forall_mem_append

@[simp] theorem stays_mk {a : α} {l : List ε} : (⟨a, l⟩ : Traced ε α).Stays P ↔ ∀ e ∈ l, P e :=
  Iff.rfl

/-- A traced computation that may come to no result. -/
abbrev Partial (ε α : Type) := OptionT (Traced ε) α

namespace Partial

/-- The events happen. -/
def emit (l : List ε) : Partial ε Unit := OptionT.mk ⟨some (), l⟩

/-- A result without events, if there is one. -/
def ofOption (o : Option α) : Partial ε α := OptionT.mk ⟨o, []⟩

variable {x : Partial ε α} {f : α → Partial ε β} {l : List ε}

@[simp] theorem value_pure (a : α) : (pure a : Partial ε α).run.value = some a := rfl

@[simp] theorem value_failure : (failure : Partial ε α).run.value = none := rfl

@[simp] theorem value_bind (x : Partial ε α) (f : α → Partial ε β) :
    (x >>= f).run.value = x.run.value.bind fun a ↦ (f a).run.value := by
  rw [OptionT.run_bind, Option.elimM, Traced.value_bind]
  cases x.run.value <;> rfl

@[simp] theorem value_ofOption (o : Option α) : (ofOption o : Partial ε α).run.value = o := rfl

@[simp] theorem value_emit (l : List ε) (f : Unit → Partial ε β) :
    (emit l >>= f).run.value = (f ()).run.value := by
  rw [value_bind]
  rfl

theorem value_ite (c : Prop) [Decidable c] (x y : Partial ε α) :
    (if c then x else y).run.value = if c then x.run.value else y.run.value :=
  apply_ite (fun z : Partial ε α ↦ z.run.value) c x y

@[simp] theorem stays_pure (a : α) : (pure a : Partial ε α).run.Stays P := Traced.stays_pure _

@[simp] theorem stays_failure : (failure : Partial ε α).run.Stays P := Traced.stays_pure _

@[simp] theorem stays_ofOption (o : Option α) : (ofOption o : Partial ε α).run.Stays P :=
  Traced.stays_pure _

theorem stays_bind : (x >>= f).run.Stays P ↔ x.run.Stays P ∧ ∀ a, x.run.value = some a →
    (f a).run.Stays P := by
  rw [OptionT.run_bind, Option.elimM, Traced.stays_bind]
  refine and_congr_right fun _ ↦ ?_
  cases x.run.value with
  | none => simp
  | some a => simp

theorem stays_emit {f : Unit → Partial ε β} : (emit l >>= f).run.Stays P ↔
    (∀ e ∈ l, P e) ∧ (f ()).run.Stays P := by
  rw [stays_bind]
  refine and_congr Iff.rfl ⟨fun h ↦ h () rfl, fun h _ _ ↦ h⟩

end Partial
end Traced
