import Mathlib.Data.Nat.Notation
import Mathlib.Logic.Function.Basic

/-!
# Arenas

An `Arena α` is the part of the heap that holds the blocks of one type: a partial map from
addresses to cells, together with the next address to hand out.  Addresses are never handed out
twice, so a pointer kept after its block was freed reads nothing, and a use after free shows up as
a failed read rather than as somebody else's block.

Pointers are `Option ℕ`, with `none` for the null pointer.  `read` and `modify` fail on a null or
dangling pointer.  A program that threads an arena through `Option` therefore returns `none` exactly
when it would have followed a bad pointer.
-/

set_option autoImplicit false

/-- The heap blocks of one type. -/
structure Arena (α : Type) where
  /-- The block at an address, if it is allocated. -/
  cell : ℕ → Option α
  /-- The next address to hand out. -/
  fresh : ℕ

namespace Arena

variable {α : Type}

/-- The arena before the first allocation. -/
def empty : Arena α := ⟨fun _ ↦ none, 0⟩

/-- `*p`. -/
def read (m : Arena α) (p : Option ℕ) : Option α := p.bind m.cell

/-- `*p = f (*p)`. -/
def modify (m : Arena α) (p : Option ℕ) (f : α → α) : Option (Arena α) :=
  match p with
  | none => none
  | some a => (m.cell a).map fun c ↦ ⟨Function.update m.cell a (some (f c)), m.fresh⟩

/-- A successful `malloc`, with the contents the caller stores into the new block. -/
def alloc (m : Arena α) (c : α) : Arena α := ⟨Function.update m.cell m.fresh (some c), m.fresh + 1⟩

/-- `free p`, for a pointer that is not null; freeing a block twice fails. -/
def free (m : Arena α) (p : Option ℕ) : Option (Arena α) :=
  match p with
  | none => none
  | some a => (m.cell a).map fun _ ↦ ⟨Function.update m.cell a none, m.fresh⟩

@[simp] theorem read_none (m : Arena α) : m.read none = none := rfl

@[simp] theorem read_some (m : Arena α) (a : ℕ) : m.read (some a) = m.cell a := rfl

theorem modify_of_cell {m : Arena α} {a : ℕ} {c : α} (h : m.cell a = some c) (f : α → α) :
    m.modify (some a) f = some ⟨Function.update m.cell a (some (f c)), m.fresh⟩ := by
  simp [modify, h]

theorem free_of_cell {m : Arena α} {a : ℕ} {c : α} (h : m.cell a = some c) :
    m.free (some a) = some ⟨Function.update m.cell a none, m.fresh⟩ := by
  simp [free, h]

@[simp] theorem alloc_cell (m : Arena α) (c : α) :
    (m.alloc c).cell = Function.update m.cell m.fresh (some c) := rfl

@[simp] theorem alloc_fresh (m : Arena α) (c : α) : (m.alloc c).fresh = m.fresh + 1 := rfl

end Arena
