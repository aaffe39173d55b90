import Mathlib.Data.Finite.Defs
import Mathlib.Data.Set.Finite.Basic
import Mathlib.Logic.Relation
import Mathlib.Order.WellFounded

/-!
# Runs that end

A step relation `r` relates a state to those it may go to next.  A state from which no run goes on
for ever is one that is accessible from the other side, `Acc (flip r)`.  If only finitely many
states can be reached from it, this is so exactly when none of them lies on a cycle
(`acc_iff_no_cycle`).
-/

set_option autoImplicit false

namespace Acyclic

open Relation

variable {α : Type*} {r : α → α → Prop} {a b : α}

/-- What can be reached from an accessible state is accessible. -/
theorem acc_of_reach (h : Acc (flip r) a) (hab : ReflTransGen r a b) : Acc (flip r) b := by
  induction hab with
  | refl => exact h
  | tail _ hstep ih => exact ih.inv hstep

/-- An accessible state is on no cycle. -/
theorem not_cycle_of_acc (h : Acc (flip r) a) : ¬TransGen r a a := by
  have hacc : Acc (TransGen (flip r)) a := h.transGen
  induction hacc with
  | intro a _ ih =>
    intro hcycle
    have hflip : TransGen (flip r) a a := transGen_swap.2 hcycle
    exact ih a hflip h hcycle

/-- **Among finitely many states, a run can only go on for ever in a cycle.** -/
theorem acc_iff_no_cycle (hfin : {b | ReflTransGen r a b}.Finite) :
    Acc (flip r) a ↔ ∀ b, ReflTransGen r a b → ¬TransGen r b b := by
  constructor
  · exact fun h b hab ↦ not_cycle_of_acc (acc_of_reach h hab)
  intro hno
  -- on the states that can be reached, the transitive closure is a strict order
  let R : {b // ReflTransGen r a b} → {b // ReflTransGen r a b} → Prop :=
    fun x y ↦ TransGen r y.1 x.1
  have : Finite {b // ReflTransGen r a b} := hfin
  have : IsTrans _ R := ⟨fun x y z hxy hyz ↦ hyz.trans hxy⟩
  have : Std.Irrefl R := ⟨fun x hx ↦ hno x.1 x.2 hx⟩
  have hwf : WellFounded R := Finite.wellFounded_of_trans_of_irrefl R
  have key : ∀ x : {b // ReflTransGen r a b}, Acc (flip r) x.1 := by
    intro x
    induction x using hwf.induction with
    | h x ih => exact ⟨_, fun y hy ↦ ih ⟨y, x.2.tail hy⟩ (TransGen.single hy)⟩
  exact key ⟨a, .refl⟩

end Acyclic
