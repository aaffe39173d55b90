import Mathlib.Data.List.Dedup
import Mathlib.Data.List.DropRight
import Mathlib.Data.Nat.Notation

/-!
# The order of last use

Of a list of uses, `lastUse l a` is the number of the last use of `a`, counted from 1, and
`List.dedup` lists what was used in the order of the last uses.

A bounded cache that moves a key to its end when it is used, and drops its first key when it is over
its size (`use`), holds the last `n` of that list whenever it is empty in the beginning
(`use_rtake`): it drops the least recently used key, and what it has dropped does not make a
difference later.
-/

set_option autoImplicit false

namespace LastUse

variable {α : Type*} {a b : α} {l : List α} {n : ℕ}

/-- The last elements of a list that ends with enough of them. -/
theorem rtake_append_of_length_le {l₁ l₂ : List α} (h : n ≤ l₂.length) :
    (l₁ ++ l₂).rtake n = l₂.rtake n := by
  rw [List.rtake, List.rtake, List.length_append, Nat.add_sub_assoc h, List.drop_append]
  simp

theorem rtake_of_length_le (h : l.length ≤ n) : l.rtake n = l := by
  rw [List.rtake, Nat.sub_eq_zero_of_le h, List.drop_zero]

theorem length_rtake (n : ℕ) (l : List α) : (l.rtake n).length = min n l.length := by
  rw [List.rtake, List.length_drop]
  omega

variable [DecidableEq α]

/-- The number of the last use of `a`. -/
def lastUse (l : List α) (a : α) : ℕ := l.length - l.reverse.idxOf a

/-- The keys of a cache of size `n` after a use of `a`. -/
def use (n : ℕ) (a : α) (l : List α) : List α :=
  if a ∈ l then l.erase a ++ [a]
  else if n < (l ++ [a]).length then (l ++ [a]).tail
  else l ++ [a]

/-- A use makes its key the last. -/
theorem dedup_concat (l : List α) (a : α) : (l ++ [a]).dedup = l.dedup.erase a ++ [a] := by
  induction l with
  | nil => simp
  | cons b l ih =>
    rw [List.cons_append]
    by_cases hb : b ∈ l
    · rw [List.dedup_cons_of_mem (List.mem_append_left _ hb), List.dedup_cons_of_mem hb, ih]
    rw [List.dedup_cons_of_notMem hb]
    by_cases hab : b = a
    · subst hab
      have hb' : b ∉ l.dedup := mt List.mem_dedup.1 hb
      rw [List.dedup_cons_of_mem (by simp), ih, List.erase_of_not_mem hb', List.erase_cons_head]
    · rw [List.dedup_cons_of_notMem (by simp [hb, hab]), ih,
        List.erase_cons_tail (by simpa using hab),
        List.cons_append]

theorem lastUse_le (l : List α) (a : α) : lastUse l a ≤ l.length := Nat.sub_le _ _

theorem lastUse_concat_self (l : List α) (a : α) : lastUse (l ++ [a]) a = l.length + 1 := by
  simp [lastUse]

theorem lastUse_concat_of_ne (h : a ≠ b) (l : List α) : lastUse (l ++ [b]) a = lastUse l a := by
  simp [lastUse, List.idxOf_cons_ne _ h.symm]

/-- **The list without duplicates is in the order of the last uses.** -/
theorem pairwise_lastUse (l : List α) : l.dedup.Pairwise fun a b ↦ lastUse l a < lastUse l b := by
  induction l using List.reverseRecOn with
  | nil => simp
  | append_singleton l k ih =>
    have hne : ∀ a ∈ l.dedup.erase k, a ≠ k :=
      fun a ha ↦ ((List.nodup_dedup l).mem_erase_iff.1 ha).1
    rw [dedup_concat, List.pairwise_append]
    refine ⟨(ih.sublist List.erase_sublist).imp_of_mem fun {a b} ha hb hlt ↦ ?_,
      List.pairwise_singleton _ _,
      fun a ha b hb ↦ ?_⟩
    · rwa [lastUse_concat_of_ne (hne a ha), lastUse_concat_of_ne (hne b hb)]
    · obtain rfl := List.mem_singleton.1 hb
      rw [lastUse_concat_of_ne (hne a ha), lastUse_concat_self]
      exact Nat.lt_succ_of_le (lastUse_le l a)

/-! ## Caches -/

/-- **The cache holds the last keys in the order of use**, and a use keeps it so. -/
theorem use_rtake (hl : l.Nodup) (n : ℕ) (a : α) :
    use (n + 1) a (l.rtake (n + 1)) = (l.erase a ++ [a]).rtake (n + 1) := by
  obtain ⟨l₁, hl₁⟩ : ∃ l₁, l₁ ++ l.rtake (n + 1) = l := ⟨_, List.take_append_drop _ l⟩
  have hlen := length_rtake (n + 1) l
  have hall : l.length ≤ n → l₁ = [] := fun h ↦ by
    rw [rtake_of_length_le (by omega)] at hl₁
    exact List.append_left_eq_self.1 hl₁
  generalize l.rtake (n + 1) = r at hl₁ hlen
  subst hl₁
  rw [List.rtake_concat_succ, use]
  split
  · next hr =>
    -- the key is in the cache
    have hl₁ : a ∉ l₁ := fun h ↦ (List.nodup_append.1 hl).2.2 a h a hr rfl
    rw [List.erase_append_right _ hl₁]
    congr 1
    have herase := List.length_erase_of_mem hr
    by_cases hle : (l₁ ++ r).length ≤ n
    · obtain rfl := hall hle
      rw [List.nil_append, rtake_of_length_le]
      rw [List.nil_append] at hle
      omega
    · rw [rtake_append_of_length_le (by omega), rtake_of_length_le (by omega)]
  next hr =>
  split
  · next hfull =>
    -- the cache is full
    have hr1 : r.length = n + 1 := by
      simp only [List.length_append, List.length_singleton] at hfull
      omega
    obtain ⟨x, r, rfl⟩ := List.exists_cons_of_length_eq_add_one hr1
    have hsplit : ∃ l₂, (l₁ ++ x :: r).erase a = l₂ ++ r := by
      by_cases h : a ∈ l₁
      · exact ⟨l₁.erase a ++ [x], by rw [List.erase_append_left _ h]; simp⟩
      · exact ⟨l₁ ++
          [x], by rw [List.erase_of_not_mem fun h' ↦ (List.mem_append.1 h').elim h hr]; simp⟩
    obtain ⟨l₂, hl₂⟩ := hsplit
    have hrn : r.length = n := by simpa using hr1
    rw [hl₂, rtake_append_of_length_le hrn.ge, rtake_of_length_le hrn.le]
    rfl
  · next hfull =>
    have hle : (l₁ ++ r).length ≤ n := by
      simp only [List.length_append, List.length_singleton] at hfull hlen ⊢
      omega
    obtain rfl := hall hle
    rw [List.nil_append, List.erase_of_not_mem hr, rtake_of_length_le (by simpa using hle)]

end LastUse
