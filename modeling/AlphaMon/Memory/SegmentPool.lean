import Mathlib.Data.Finset.Card
import Mathlib.Data.List.Nodup

/-!
# Pools of segments

A pool hands out segments of a memory and takes them back; it may hand out again what it has taken
back, and a write to such a segment is then a write to somebody else's.  Segments can be linked, one
way, to chains.

`Chained m p l` says that the segments reached from the pointer `p` are those at the addresses `l`.
A chain is kept by writes elsewhere (`Chained.congr`), is made longer at its end (`Chained.concat`),
and is read off the memory (`addresses_eq`).
-/

set_option autoImplicit false

namespace SegmentPool

variable {α : Type*}

/-- A segment: what it holds, and the link to the next. -/
structure Segment (α : Type*) where
  val : α
  next : Option ℕ

/-- The memory of a pool: all its segments, which of them are in use, and which have been given back
by `free`. -/
structure Mem (α : Type*) where
  seg : ℕ → Segment α
  used : Finset ℕ
  freed : List ℕ

/-- A pool hands out segments that are not in use. -/
structure Pool (α : Type*) where
  take : Mem α → ℕ
  notMem : ∀ m, take m ∉ m.used

namespace Mem

variable (m : Mem α)

/-- A write to a segment, in use or not. -/
def set (a : ℕ) (s : Segment α) : Mem α := { m with seg := Function.update m.seg a s }

/-- The memory after a segment has been handed out. -/
def alloc (pool : Pool α) : Mem α := { m with used := insert (pool.take m) m.used }

/-- Give back the segments reached from a pointer.  It fails at a segment that is not in use, and
needs no more fuel than there are segments in use. -/
def free : ℕ → Option ℕ → Mem α → Option (Mem α)
  | _, none, m => some m
  | 0, some _, _ => none
  | fuel + 1, some a, m =>
    if a ∈ m.used then free fuel (m.seg a).next
      { m with used := m.used.erase a, freed := m.freed ++ [a] } else none

/-- The addresses of the segments reached from a pointer. -/
def addresses : ℕ → Option ℕ → Option (List ℕ)
  | _, none => some []
  | 0, some _ => none
  | fuel + 1, some a => (addresses fuel (m.seg a).next).map (a :: ·)

/-- The memory after the segments at the addresses have been handed on: somebody else gives them
back. -/
def release (l : List ℕ) : Mem α := { m with used := m.used \ l.toFinset }

/-- Write to the segments at the addresses, one after the other, without changing their links. -/
def setVals (m : Mem α) (vals : ℕ → α) : ℕ → List ℕ → Mem α
  | _, [] => m
  | i, a :: l => (m.set a ⟨vals i, (m.seg a).next⟩).setVals vals (i + 1) l

@[simp] theorem set_seg_self (a : ℕ) (s : Segment α) : (m.set a s).seg a = s :=
  Function.update_self ..

theorem set_seg_of_ne {a b : ℕ} (h : b ≠ a) (s : Segment α) : (m.set a s).seg b = m.seg b :=
  Function.update_of_ne h ..

@[simp] theorem free_none (fuel : ℕ) : m.free fuel none = some m := by cases fuel <;> rfl

section SetVals

variable (vals : ℕ → α)

@[simp] theorem setVals_used (i : ℕ) (l : List ℕ) : (m.setVals vals i l).used = m.used := by
  induction l generalizing m i with
  | nil => rfl
  | cons a l ih => exact ih ..

@[simp] theorem setVals_freed (i : ℕ) (l : List ℕ) : (m.setVals vals i l).freed = m.freed := by
  induction l generalizing m i with
  | nil => rfl
  | cons a l ih => exact ih ..

/-- Writes to some segments leave the others alone. -/
theorem setVals_seg_of_notMem {i b : ℕ} {l : List ℕ} (h : b ∉ l) :
    (m.setVals vals i l).seg b = m.seg b := by
  induction l generalizing m i with
  | nil => rfl
  | cons a l ih =>
    rw [List.mem_cons, not_or] at h
    exact (ih _ h.2).trans (m.set_seg_of_ne h.1 _)

end SetVals

end Mem

/-- What is in use in `m` is in `m'` as it was, and nothing more has been given back. -/
structure Keeps (m m' : Mem α) : Prop where
  seg : ∀ a ∈ m.used, m'.seg a = m.seg a
  used : m.used ⊆ m'.used
  freed : m'.freed = m.freed

/-- The segments reached from the pointer are those at the addresses. -/
def Chained (m : Mem α) : Option ℕ → List ℕ → Prop
  | p, [] => p = none
  | p, a :: l => p = some a ∧ Chained m (m.seg a).next l

variable {m m' m'' : Mem α} {p : Option ℕ} {a : ℕ} {l : List ℕ}

theorem Keeps.refl (m : Mem α) : Keeps m m := ⟨fun _ _ ↦ rfl, subset_rfl, rfl⟩

theorem Keeps.trans (h : Keeps m m') (h' : Keeps m' m'') : Keeps m m'' where
  seg a ha := (h'.seg a (h.used ha)).trans (h.seg a ha)
  used := h.used.trans h'.used
  freed := h'.freed.trans h.freed

theorem chained_none (m : Mem α) : Chained m none [] := rfl

/-- A chain reads only its own segments. -/
theorem Chained.congr (h : Chained m p l) (hm : ∀ a ∈ l, m'.seg a = m.seg a) : Chained m' p l := by
  induction l generalizing p with
  | nil => exact h
  | cons a l ih =>
    refine ⟨h.1, ?_⟩
    rw [hm a List.mem_cons_self]
    exact ih h.2 fun b hb ↦ hm b (List.mem_cons_of_mem _ hb)

/-- **A chain made longer**: the link of its last segment, or the pointer to the first if there is
none, leads to the new segment. -/
theorem Chained.concat {b : ℕ} (h : Chained m p (l ++ [a])) (ha : a ∉ l) (hb : b ∉ l ++ [a])
    (hend : (m.seg b).next = none) :
    Chained (m.set a ⟨(m.seg a).val, some b⟩) p (l ++ [a] ++ [b]) := by
  induction l generalizing p with
  | nil =>
    have hne : b ≠ a := by simpa using hb
    refine ⟨h.1, ?_⟩
    rw [Mem.set_seg_self]
    exact ⟨rfl, by rw [m.set_seg_of_ne hne, hend]; rfl⟩
  | cons x l ih =>
    simp only [List.mem_cons, not_or, List.cons_append] at ha hb
    refine ⟨h.1, ?_⟩
    rw [m.set_seg_of_ne (Ne.symm ha.1)]
    exact ih h.2 ha.2 hb.2

/-- A chain read off the memory. -/
theorem Chained.addresses_eq {fuel : ℕ} (h : Chained m p l) (hfuel : l.length ≤ fuel) :
    m.addresses fuel p = some l := by
  induction l generalizing fuel p with
  | nil =>
    obtain rfl : p = none := h
    cases fuel <;> rfl
  | cons a l ih =>
    obtain ⟨rfl, hl⟩ := h
    obtain ⟨fuel, rfl⟩ : ∃ n, fuel = n + 1 := ⟨fuel - 1, by simp at hfuel; omega⟩
    rw [Mem.addresses, ih hl (by simpa using hfuel)]
    rfl

/-- A chain is given back as a whole, and keeps its links. -/
theorem Chained.free_eq {fuel : ℕ} (h : Chained m p l) (hnodup : l.Nodup)
    (hused : ∀ a ∈ l, a ∈ m.used) (hfuel : l.length ≤ fuel) :
    ∃ m', m.free fuel p = some m' ∧ m'.seg = m.seg ∧ m'.used = m.used \ l.toFinset ∧
      m'.freed = m.freed ++ l := by
  induction l generalizing fuel p m with
  | nil =>
    obtain rfl : p = none := h
    exact ⟨m, m.free_none fuel, rfl, by simp, (List.append_nil _).symm⟩
  | cons a l ih =>
    obtain ⟨rfl, hl⟩ := h
    obtain ⟨hal, hnodup⟩ := List.nodup_cons.1 hnodup
    obtain ⟨fuel, rfl⟩ : ∃ n, fuel = n + 1 := ⟨fuel - 1, by simp at hfuel; omega⟩
    have hrest : ∀ b ∈ l, b ∈ m.used.erase a := fun b hb ↦
      Finset.mem_erase.2 ⟨ne_of_mem_of_not_mem hb hal, hused b (List.mem_cons_of_mem _ hb)⟩
    let m₁ : Mem α := { m with used := m.used.erase a, freed := m.freed ++ [a] }
    obtain ⟨m', hrun, hseg, hused', hfreed⟩ := ih (m := m₁) (hl.congr fun _ _ ↦ rfl) hnodup hrest
      (Nat.le_of_succ_le_succ hfuel)
    refine ⟨m', ?_, hseg, ?_, by rw [hfreed, List.append_assoc]; rfl⟩
    · rw [Mem.free, if_pos (hused a List.mem_cons_self)]
      exact hrun
    · rw [hused', List.toFinset_cons, Finset.sdiff_insert, Finset.erase_sdiff_comm]

/-- Segments in use are no more than there are of these. -/
theorem length_le_card (hnodup : l.Nodup) (hused : ∀ a ∈ l, a ∈ m.used) :
    l.length ≤ m.used.card := by
  rw [← List.toFinset_card_of_nodup hnodup]
  exact Finset.card_le_card fun a ha ↦ hused a (List.mem_toFinset.1 ha)

end SegmentPool
