import Mathlib.Algebra.Group.Int.Defs
import Mathlib.Algebra.Group.Nat.Defs
import Mathlib.Data.BitVec
import Mathlib.Data.Fintype.EquivFin
import Mathlib.Data.Nat.Find

/-!
# Common prefixes of bit vectors

`Prefix.lcp a b` is the length of the longest common prefix of two bit vectors, read from the most
significant bit.  A map is `Prefix.Preserving` when it keeps the length of every common prefix, as
an anonymisation of addresses has to if subnets are to stay subnets.

There is one way to build such maps: xor with a pad each bit of which depends only on the bits
before it (`Prefix.Causal`, `Prefix.Causal.preserving`).  They are closed under xor with a constant
and concatenation (`lcp_append`), and they are bijections (`Preserving.bijective`).
-/

set_option autoImplicit false

namespace Prefix

variable {v w : ℕ}

/-- The first `k` bits are equal. -/
def Agree (k : ℕ) (a b : BitVec w) : Prop := ∀ i < k, a.getMsbD i = b.getMsbD i

instance (k : ℕ) (a b : BitVec w) : Decidable (Agree k a b) :=
  inferInstanceAs (Decidable (∀ i < k, _))

/-- The length of the longest common prefix. -/
def lcp (a b : BitVec w) : ℕ := Nat.findGreatest (fun k ↦ Agree k a b) w

section Agree

variable {a b : BitVec w} {k l : ℕ}

theorem Agree.mono (h : Agree k a b) (hl : l ≤ k) : Agree l a b :=
  fun i hi ↦ h i (hi.trans_le hl)

@[simp] theorem agree_zero : Agree 0 a b := fun _ hi ↦ absurd hi (Nat.not_lt_zero _)

theorem agree_succ : Agree (k + 1) a b ↔ Agree k a b ∧ a.getMsbD k = b.getMsbD k := by
  refine ⟨fun h ↦ ⟨h.mono (Nat.le_succ k), h k (Nat.lt_succ_self k)⟩, fun ⟨h, hk⟩ i hi ↦ ?_⟩
  rcases Nat.lt_succ_iff_lt_or_eq.1 hi with hi | rfl
  · exact h i hi
  · exact hk

theorem agree_width : Agree w a b ↔ a = b := by
  refine ⟨fun h ↦ BitVec.eq_of_getMsbD_eq fun i hi ↦ h i hi, ?_⟩
  rintro rfl i -
  rfl

/-- Two vectors are equal under a mask when they agree on its bits. -/
theorem and_eq_and_iff {m : BitVec w} :
    a &&& m = b &&& m ↔ ∀ i < w, m.getLsbD i = true → a.getLsbD i = b.getLsbD i := by
  constructor
  · intro h i _ hm
    have hi := congrArg (·.getLsbD i) h
    simpa [BitVec.getLsbD_and, hm] using hi
  · intro h
    refine BitVec.eq_of_getLsbD_eq fun i hi ↦ ?_
    rw [BitVec.getLsbD_and, BitVec.getLsbD_and]
    cases hm : m.getLsbD i with
    | false => simp
    | true => rw [h i hi hm]

/-- The mask of `k` leading ones. -/
theorem agree_iff_and (hk : k ≤ w) :
    Agree k a b ↔ a &&& (BitVec.allOnes w <<< (w - k)) = b &&& (BitVec.allOnes w <<< (w - k)) := by
  rw [and_eq_and_iff]
  constructor
  · intro h i hi hm
    have hik : w - k ≤ i := by
      by_contra hlt
      simp [BitVec.getLsbD_shiftLeft, show i < w - k by omega] at hm
    have := h (w - 1 - i) (by omega)
    rwa [BitVec.getMsbD_eq_getLsbD, BitVec.getMsbD_eq_getLsbD, decide_eq_true (by omega),
      Bool.true_and,
      Bool.true_and, show w - 1 - (w - 1 - i) = i by omega] at this
  · intro h i hi
    rw [BitVec.getMsbD_eq_getLsbD, BitVec.getMsbD_eq_getLsbD, h (w - 1 - i) (by omega)]
    rw [BitVec.getLsbD_shiftLeft, BitVec.getLsbD_allOnes]
    simp only [Bool.and_eq_true, Bool.not_eq_true', decide_eq_true_eq, decide_eq_false_iff_not]
    omega

/-- Two vectors agree on their first bits when their chunks of `w` bits do: the full ones are equal,
and the next ones agree on the bits that are left. -/
theorem agree_chunks {n m : ℕ} {a b : BitVec v} {x y : ℕ → BitVec w} (hm : m ≤ w * n)
    (hx : ∀ k < n, ∀ j < w, a.getMsbD (w * k + j) = (x k).getMsbD j)
    (hy : ∀ k < n, ∀ j < w, b.getMsbD (w * k + j) = (y k).getMsbD j) :
    Agree m a b ↔ (∀ k < m / w, x k = y k) ∧ Agree (m % w) (x (m / w)) (y (m / w)) := by
  rcases Nat.eq_zero_or_pos w with rfl | hw
  · obtain rfl : m = 0 := by simpa using hm
    simp
  have hdiv : w * (m / w) + m % w = m := Nat.div_add_mod m w
  have hmod : m % w < w := Nat.mod_lt m hw
  constructor
  · intro h
    constructor
    · intro k hk
      refine BitVec.eq_of_getMsbD_eq fun j hj ↦ ?_
      have hkm : w * (k + 1) ≤ w * (m / w) := Nat.mul_le_mul_left w hk
      rw [Nat.mul_succ] at hkm
      have hkn : k < n := Nat.lt_of_mul_lt_mul_left (show w * k < w * n by omega)
      rw [← hx k hkn j hj, ← hy k hkn j hj]
      exact h _ (by omega)
    · intro j hj
      have hn : m / w < n := Nat.lt_of_mul_lt_mul_left (show w * (m / w) < w * n by omega)
      rw [← hx _ hn j (by omega), ← hy _ hn j (by omega)]
      exact h _ (by omega)
  · rintro ⟨hfull, hrest⟩ i hi
    have hi' : w * (i / w) + i % w = i := Nat.div_add_mod i w
    have hj : i % w < w := Nat.mod_lt i hw
    have hk : i / w < n := Nat.lt_of_mul_lt_mul_left (show w * (i / w) < w * n by omega)
    rw [← hi', hx _ hk _ hj, hy _ hk _ hj]
    rcases (Nat.div_le_div_right hi.le : i / w ≤ m / w).lt_or_eq with hlt | heq
    · rw [hfull _ hlt]
    · rw [heq] at hi' ⊢
      exact hrest _ (by omega)

theorem lcp_le (a b : BitVec w) : lcp a b ≤ w := Nat.findGreatest_le w

/-- **The common prefixes are those up to `lcp`.** -/
theorem le_lcp_iff (hk : k ≤ w) : k ≤ lcp a b ↔ Agree k a b := by
  refine ⟨fun h ↦ ?_, fun h ↦ Nat.le_findGreatest hk h⟩
  have hspec : Agree (lcp a b) a b :=
    Nat.findGreatest_spec (P := fun k ↦ Agree k a b) (Nat.zero_le w) agree_zero
  exact hspec.mono h

theorem lcp_eq_width : lcp a b = w ↔ a = b := by
  rw [← agree_width, ← le_lcp_iff le_rfl]
  exact ⟨fun h ↦ h.ge, fun h ↦ (lcp_le a b).antisymm h⟩

theorem agree_iff_of_lcp_eq {c d : BitVec w} (h : lcp a b = lcp c d) (hk : k ≤ w) :
    Agree k a b ↔ Agree k c d := by
  rw [← le_lcp_iff hk, ← le_lcp_iff hk, h]

theorem lcp_eq_of_agree_iff {c d : BitVec w} (h : ∀ k ≤ w, Agree k a b ↔ Agree k c d) :
    lcp a b = lcp c d := by
  refine le_antisymm ?_ ?_
  · exact (le_lcp_iff (lcp_le a b)).2 ((h _ (lcp_le a b)).1 ((le_lcp_iff (lcp_le a b)).1 le_rfl))
  · exact (le_lcp_iff (lcp_le c d)).2 ((h _ (lcp_le c d)).2 ((le_lcp_iff (lcp_le c d)).1 le_rfl))

end Agree

/-! ## Maps that keep common prefixes -/

/-- The map keeps the length of every common prefix. -/
def Preserving (f : BitVec w → BitVec w) : Prop := ∀ a b, lcp (f a) (f b) = lcp a b

/-- Bit `i` of the pad depends only on the first `i` bits. -/
def Causal (pad : BitVec w → BitVec w) : Prop :=
  ∀ a b, ∀ i < w, Agree i a b → (pad a).getMsbD i = (pad b).getMsbD i

variable {f : BitVec w → BitVec w}

theorem Preserving.injective (hf : Preserving f) : Function.Injective f := by
  intro a b hab
  rw [← lcp_eq_width, ← hf a b, hab, lcp_eq_width]

/-- **A map that keeps common prefixes is a bijection.** -/
theorem Preserving.bijective (hf : Preserving f) : Function.Bijective f := by
  have hfin : Finite (BitVec w) := .of_equiv (Fin (2 ^ w)) BitVec.equivFin.symm.toEquiv
  exact Finite.injective_iff_bijective.1 hf.injective

/-- **Xor with a causal pad keeps common prefixes.** -/
theorem Causal.preserving {pad : BitVec w → BitVec w} (h : Causal pad) :
    Preserving fun a ↦ pad a ^^^ a := by
  intro a b
  refine lcp_eq_of_agree_iff fun k hk ↦ ?_
  induction k with
  | zero => simp
  | succ k ih =>
    rw [agree_succ, agree_succ, ih (Nat.le_of_succ_le hk)]
    refine and_congr_right fun hab ↦ ?_
    -- the pads agree at the next bit, so that the sums do if the addresses do
    rw [BitVec.getMsbD_xor, BitVec.getMsbD_xor, h a b k hk hab]
    exact Bool.xor_right_inj

/-- Xor with a constant keeps common prefixes. -/
theorem preserving_xor (c : BitVec w) : Preserving fun a ↦ a ^^^ c := by
  have h : Causal fun _ : BitVec w ↦ c := fun _ _ _ _ _ ↦ rfl
  simpa [BitVec.xor_comm] using h.preserving

/-! ## Concatenation -/

theorem agree_append {x x' : BitVec v} {y y' : BitVec w} {k : ℕ} :
    Agree k (x ++ y) (x' ++ y') ↔ Agree (min k v) x x' ∧ Agree (k - v) y y' := by
  constructor
  · intro h
    refine ⟨fun i hi ↦ ?_, fun i hi ↦ ?_⟩
    · have := h i (hi.trans_le (min_le_left k v))
      rwa [BitVec.getMsbD_append, BitVec.getMsbD_append, if_neg, if_neg] at this
      all_goals exact not_le.2 (hi.trans_le (min_le_right k v))
    · have := h (v + i) (by omega)
      simpa [BitVec.getMsbD_append] using this
  · rintro ⟨hx, hy⟩ i hi
    rw [BitVec.getMsbD_append, BitVec.getMsbD_append]
    split
    · next hv => exact hy (i - v) (by omega)
    · next hv => exact hx i (by omega)

theorem append_inj {x x' : BitVec v} {y y' : BitVec w} : x ++ y = x' ++ y' ↔ x = x' ∧ y = y' := by
  rw [← agree_width, agree_append, Nat.min_eq_right (Nat.le_add_right v w), Nat.add_sub_cancel_left,
    agree_width, agree_width]

/-- **Common prefixes of concatenations** are determined by those of the parts. -/
theorem lcp_append {x x' u u' : BitVec v} {y y' z z' : BitVec w} (hx : lcp x x' = lcp u u')
    (hy : lcp y y' = lcp z z') : lcp (x ++ y) (x' ++ y') = lcp (u ++ z) (u' ++ z') := by
  refine lcp_eq_of_agree_iff fun k hk ↦ ?_
  rw [agree_append, agree_append, agree_iff_of_lcp_eq hx (min_le_right k v),
    agree_iff_of_lcp_eq hy (by omega)]

end Prefix
