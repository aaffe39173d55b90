import Mathlib.Data.Nat.Notation
import Mathlib.Logic.Equiv.Defs

/-!
# Iterated ciphers

A block cipher made of rounds: a nonlinear layer `sub`, a linear layer `mix` and the addition of a
round key, with no linear layer in the last round (`Rounds.encrypt`).  The layers are bijections of
one type of states, which is the type of round keys as well.

An implementation by tables merges `sub` and `mix` into one step and adds the key before it instead
of after it; to decrypt in the same way it needs keys to which the inverse of `mix` has been
applied.  `Rounds.encrypt_eq_before` and `Rounds.decrypt_eq_before` are the two regroupings, and
`Rounds.decrypt_encrypt` and `Rounds.encrypt_decrypt` that the ciphers are inverse to each other.
-/

set_option autoImplicit false

namespace Cipher

variable {σ : Type*}

/-- The layers of a round: a bijection, a linear bijection and an addition that is its own
inverse. -/
structure Rounds (σ : Type*) where
  add : σ → σ → σ
  sub : σ ≃ σ
  mix : σ ≃ σ
  add_add : ∀ s k, add (add s k) k = s
  mix_add : ∀ s k, mix (add s k) = add (mix s) (mix k)

namespace Rounds

variable (C : Rounds σ) (k : ℕ → σ)

/-- The first key, then `n` full rounds. -/
def forward : ℕ → σ → σ
  | 0, s => C.add s (k 0)
  | n + 1, s => C.add (C.mix (C.sub (forward n s))) (k (n + 1))

/-- The cipher, with `n` full rounds and the round without `mix`. -/
def encrypt (n : ℕ) (s : σ) : σ := C.add (C.sub (C.forward k n s)) (k (n + 1))

/-- `forward` undone. -/
def backward : ℕ → σ → σ
  | 0, s => C.add s (k 0)
  | n + 1, s => backward n (C.sub.symm (C.mix.symm (C.add s (k (n + 1)))))

/-- The inverse cipher. -/
def decrypt (n : ℕ) (s : σ) : σ := C.backward k n (C.sub.symm (C.add s (k (n + 1))))

/-- Only the keys of the rounds matter. -/
theorem encrypt_congr {k k' : ℕ → σ} {n : ℕ} (h : ∀ r, r ≤ n + 1 → k r = k' r) (s : σ) :
    C.encrypt k n s = C.encrypt k' n s := by
  have hf (m : ℕ) (hm : m ≤ n) : C.forward k m s = C.forward k' m s := by
    induction m with
    | zero => rw [forward, forward, h 0 (Nat.zero_le _)]
    | succ m ih =>
      rw [forward, forward, ih (Nat.le_of_succ_le hm), h (m + 1) (Nat.le_succ_of_le hm)]
  rw [encrypt, encrypt, hf n (Nat.le_refl n), h (n + 1) (Nat.le_refl _)]

/-! ## Inverses -/

theorem backward_forward (n : ℕ) (s : σ) : C.backward k n (C.forward k n s) = s := by
  induction n with
  | zero => exact C.add_add s (k 0)
  | succ n ih => simp [backward, forward, C.add_add, ih]

theorem forward_backward (n : ℕ) (s : σ) : C.forward k n (C.backward k n s) = s := by
  induction n generalizing s with
  | zero => exact C.add_add s (k 0)
  | succ n ih => simp [backward, forward, C.add_add, ih]

theorem decrypt_encrypt (n : ℕ) (s : σ) : C.decrypt k n (C.encrypt k n s) = s := by
  simp [decrypt, encrypt, C.add_add, backward_forward]

theorem encrypt_decrypt (n : ℕ) (s : σ) : C.encrypt k n (C.decrypt k n s) = s := by
  simp [decrypt, encrypt, C.add_add, forward_backward]

/-! ## The key before the round -/

/-- `n` steps from round `r`, each of them the key and then both layers. -/
def before (r : ℕ) : ℕ → σ → σ
  | 0, s => s
  | n + 1, s => before (r + 1) n (C.mix (C.sub (C.add s (k r))))

/-- `n` steps down to round `r + 1`, each of them the key and then both inverse layers. -/
def beforeInv (r : ℕ) : ℕ → σ → σ
  | 0, s => s
  | n + 1, s => beforeInv r n (C.mix.symm (C.sub.symm (C.add s (k (r + n + 1)))))

theorem before_succ (r n : ℕ) (s : σ) :
    C.before k r (n + 1) s = C.mix (C.sub (C.add (C.before k r n s) (k (r + n)))) := by
  induction n generalizing r s with
  | zero => rfl
  | succ n ih => rw [before, ih, before, Nat.add_right_comm, Nat.add_assoc]

theorem forward_eq_before (n : ℕ) (s : σ) :
    C.forward k n s = C.add (C.before k 0 n s) (k n) := by
  induction n with
  | zero => rfl
  | succ n ih => rw [forward, ih, before_succ, Nat.zero_add]

/-- **The cipher by tables is the cipher.** -/
theorem encrypt_eq_before (n : ℕ) (s : σ) :
    C.encrypt k n s = C.add (C.sub (C.add (C.before k 0 n s) (k n))) (k (n + 1)) := by
  rw [encrypt, forward_eq_before]

theorem mix_symm_add (s t : σ) : C.mix.symm (C.add s t) = C.add (C.mix.symm s) (C.mix.symm t) := by
  rw [Equiv.symm_apply_eq, C.mix_add, Equiv.apply_symm_apply, Equiv.apply_symm_apply]

/-- One round of the inverse cipher moves its key to the other side of `mix`. -/
theorem backward_sub_symm (n : ℕ) (s : σ) :
    C.backward k (n + 1) (C.sub.symm s) =
      C.backward k n (C.sub.symm (C.add (C.mix.symm (C.sub.symm s)) (C.mix.symm (k (n + 1))))) := by
  rw [backward, mix_symm_add]

/-- The keys the inverse cipher by tables adds: those of the full rounds unmixed. -/
theorem backward_eq_before {d : ℕ → σ} (n : ℕ) (hd : ∀ r, 1 ≤ r → r ≤ n → d r = C.mix.symm (k r))
    (s : σ) :
    C.backward k n (C.sub.symm (C.add s (d (n + 1)))) =
      C.add (C.sub.symm (C.add (C.beforeInv d 1 n s) (d 1))) (k 0) := by
  induction n generalizing s with
  | zero => rfl
  | succ n ih =>
    rw [backward_sub_symm, ← hd (n + 1) (by omega) (Nat.le_refl _),
      ih fun r h1 hr ↦ hd r h1 (Nat.le_succ_of_le hr), beforeInv, Nat.add_comm 1 n]

/-- **The inverse cipher by tables is the inverse cipher.** -/
theorem decrypt_eq_before {d : ℕ → σ} (n : ℕ) (hd : ∀ r, 1 ≤ r → r ≤ n → d r = C.mix.symm (k r))
    (hlast : d (n + 1) = k (n + 1)) (s : σ) :
    C.decrypt k n s = C.add (C.sub.symm (C.add (C.beforeInv d 1 n s) (d 1))) (k 0) := by
  rw [decrypt, ← hlast, backward_eq_before C k n hd]

end Rounds

/-! ## Chaining -/

/-- Cipher block chaining: each block is added to the text of the one before it and encrypted. -/
def chain (add : σ → σ → σ) (E : σ → σ) : σ → List σ → List σ
  | _, [] => []
  | iv, p :: ps => E (add iv p) :: chain add E (E (add iv p)) ps

@[simp] theorem length_chain (add : σ → σ → σ) (E : σ → σ) (iv : σ) (ps : List σ) :
    (chain add E iv ps).length = ps.length := by
  induction ps generalizing iv with
  | nil => rfl
  | cons p ps ih => simp [chain, ih]

/-- The text of a block, from its own and the text of the one before it. -/
theorem getElem?_chain (add : σ → σ → σ) (E : σ → σ) (iv : σ) {ps : List σ} {j : ℕ} {p : σ}
    (h : ps[j]? = some p) :
    (chain add E iv ps)[j]? =
      some (E (add (if j = 0 then iv else (chain add E iv ps).getD (j - 1) iv) p)) := by
  induction ps generalizing iv j with
  | nil => simp at h
  | cons q ps ih =>
    cases j with
    | zero =>
      obtain rfl : q = p := by simpa using h
      simp [chain]
    | succ j =>
      have h' := ih (E (add iv q)) (j := j) (by simpa using h)
      rw [chain, List.getElem?_cons_succ, h']
      cases j with
      | zero => simp
      | succ j =>
        have hj : j < (chain add E (E (add iv q)) ps).length := by
          have := (List.getElem?_eq_some_iff.1 h).1
          simp only [List.length_cons] at this
          rw [length_chain]
          omega
        simp [List.getD_eq_getElem?_getD, List.getElem?_eq_getElem hj]

/-- The blocks that are chained to a text. -/
def unchain (add : σ → σ → σ) (D : σ → σ) : σ → List σ → List σ
  | _, [] => []
  | iv, c :: cs => add iv (D c) :: unchain add D c cs

theorem chain_unchain {add : σ → σ → σ} {E D : σ → σ} (hadd : ∀ a b, add a (add a b) = b)
    (hE : ∀ c, E (D c) = c) (iv : σ) (cs : List σ) : chain add E iv (unchain add D iv cs) = cs := by
  induction cs generalizing iv with
  | nil => rfl
  | cons c cs ih => rw [unchain, chain, hadd, hE, ih]

end Cipher
