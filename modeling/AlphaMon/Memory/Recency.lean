import Mathlib.Data.List.DropRight
import Mathlib.Data.Nat.Notation
import Mathlib.Order.Lattice

/-!
# Recency lists

A recency list remembers when each key was last referenced: a list of keys with times, the most
recent first and no key twice.  Referencing a key (`touch`) moves it to the front with the new
time, and `expire c` drops the keys not referenced since `c` from the back.

As long as the times at which keys are touched do not decrease, the list is sorted by time
(`Recent`), so that dropping from the back drops exactly the expired keys (`mem_expire`).
-/

set_option autoImplicit false

namespace Recency

variable {κ τ : Type}

/-- The keys of a recency list. -/
def keys (l : List (κ × τ)) : List κ := l.map Prod.fst

/-- Reference `k` at time `t`: it comes to the front. -/
def touch [DecidableEq κ] (k : κ) (t : τ) (l : List (κ × τ)) :
    List (κ × τ) := (k, t) :: l.filter (·.1 ≠ k)

/-- Forget, from the back, the keys last referenced before `c`. -/
def expire [LinearOrder τ] (c : τ) (l : List (κ × τ)) : List (κ × τ) := l.rdropWhile (·.2 < c)

/-- The times do not increase from the front to the back, and the front is no later than `t`. -/
def Recent [LinearOrder τ] (t : τ) (l : List (κ × τ)) : Prop :=
  (∀ p ∈ l, p.2 ≤ t) ∧ l.Pairwise fun p q ↦ q.2 ≤ p.2

@[simp] theorem keys_nil : keys ([] : List (κ × τ)) = [] := rfl

@[simp] theorem keys_cons (p : κ × τ) (l : List (κ × τ)) : keys (p :: l) = p.1 :: keys l := rfl

theorem mem_keys {k : κ} {l : List (κ × τ)} : k ∈ keys l ↔ ∃ t, (k, t) ∈ l := by
  simp [keys]

/-! ## Touching -/

section Touch

variable [DecidableEq κ]

theorem touch_of_notMem {k : κ} {l : List (κ × τ)} (h : k ∉ keys l) (t : τ) :
    touch k t l = (k, t) :: l := by
  rw [touch, List.filter_eq_self.2]
  intro p hp
  simpa using fun he : p.1 = k ↦ h (he ▸ List.mem_map_of_mem hp)

theorem touch_append {k : κ} {s : τ} {l₁ l₂ : List (κ × τ)}
    (h : (keys (l₁ ++ (k, s) :: l₂)).Nodup) (t : τ) :
    touch k t (l₁ ++ (k, s) :: l₂) = (k, t) :: (l₁ ++ l₂) := by
  have h' : k ∉ keys (l₁ ++ l₂) := by
    simp only [keys, List.map_append, List.map_cons] at h ⊢
    exact (List.nodup_cons.1 (List.perm_middle.nodup h)).1
  have hrest : (l₁ ++ l₂).filter (·.1 ≠ k) = l₁ ++ l₂ := by
    simpa [touch] using touch_of_notMem h' t
  simp only [List.filter_append] at hrest
  simp only [touch, List.filter_append, List.filter_cons, ne_eq, not_true_eq_false, decide_false,
    Bool.false_eq_true, if_false]
  rw [← hrest]

theorem mem_touch {k : κ} {t : τ} {l : List (κ × τ)} {p : κ × τ} :
    p ∈ touch k t l ↔ p = (k, t) ∨ p ∈ l ∧ p.1 ≠ k := by
  simp [touch]

theorem nodup_keys_touch {l : List (κ × τ)} (h : (keys l).Nodup) (k : κ) (t : τ) :
    (keys (touch k t l)).Nodup := by
  refine List.nodup_cons.2 ⟨?_, h.sublist (List.filter_sublist.map _)⟩
  simp

theorem recent_touch [LinearOrder τ] {s t : τ} {l : List (κ × τ)} (h : Recent s l) (hst : s ≤ t)
    (k : κ) :
    Recent t (touch k t l) := by
  have hle : ∀ p ∈ l, p.2 ≤ t := fun p hp ↦ (h.1 p hp).trans hst
  refine ⟨fun p hp ↦ ?_, List.pairwise_cons.2 ⟨fun p hp ↦ ?_, h.2.filter _⟩⟩
  · rcases mem_touch.1 hp with rfl | hp
    · exact le_rfl
    · exact hle p hp.1
  · exact hle p (List.mem_of_mem_filter hp)

end Touch

/-! ## Expiring -/

section Expire

variable [LinearOrder τ]

@[simp] theorem expire_nil (c : τ) : expire c ([] : List (κ × τ)) = [] := rfl

theorem expire_concat (c : τ) (l : List (κ × τ)) (p : κ × τ) :
    expire c (l ++ [p]) = if p.2 < c then expire c l else l ++ [p] := by
  simp [expire, List.rdropWhile_concat]

/-- A fresh front stays. -/
theorem expire_cons_of_le {c : τ} {p : κ × τ} (h : c ≤ p.2) (l : List (κ × τ)) :
    expire c (p :: l) = p :: expire c l := by
  induction l using List.reverseRecOn with
  | nil => simpa [not_lt.2 h] using expire_concat c [] p
  | append_singleton l q ih =>
    rw [← List.cons_append, expire_concat, expire_concat, ih]
    split <;> rfl

theorem expire_isPrefix (c : τ) (l : List (κ × τ)) : expire c l <+: l := List.rdropWhile_prefix _ _

theorem nodup_keys_expire {l : List (κ × τ)} (h : (keys l).Nodup) (c : τ) :
    (keys (expire c l)).Nodup :=
  h.sublist ((expire_isPrefix c l).sublist.map _)

theorem recent_expire {t : τ} {l : List (κ × τ)} (h : Recent t l) (c : τ) : Recent t (expire c l) :=
  ⟨fun p hp ↦ h.1 p ((expire_isPrefix c l).subset hp), h.2.sublist (expire_isPrefix c l).sublist⟩

/-- **Expiring from the back drops exactly the expired keys** of a list sorted by time. -/
theorem mem_expire {t c : τ} {l : List (κ × τ)} (h : Recent t l) {p : κ × τ} :
    p ∈ expire c l ↔ p ∈ l ∧ c ≤ p.2 := by
  induction l using List.reverseRecOn with
  | nil => simp
  | append_singleton l q ih =>
    have hl : Recent t l := ⟨fun p hp ↦ h.1 p (by simp [hp]), (List.pairwise_append.1 h.2).1⟩
    have hq : ∀ p ∈ l, q.2 ≤ p.2 := fun p hp ↦ (List.pairwise_append.1 h.2).2.2 p hp q (by simp)
    rw [expire_concat]
    split
    · next hlt =>
      rw [ih hl, List.mem_append, List.mem_singleton]
      refine and_congr_left fun hc ↦ (or_iff_left ?_).symm
      rintro rfl
      exact absurd hc (not_le.2 hlt)
    · next hlt =>
      refine (and_iff_left_of_imp fun hp ↦ ?_).symm
      rcases List.mem_append.1 hp with hp | hp
      · exact (not_lt.1 hlt).trans (hq p hp)
      · rw [List.mem_singleton.1 hp]; exact not_lt.1 hlt

end Expire

end Recency
