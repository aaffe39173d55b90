import Mathlib.Data.UInt
import AlphaMon.Cipher.Iterated

/-!
# The advanced encryption standard

The field of 256 elements as bytes, words of four bytes and states of four words, with the layers of
the cipher on them.  `rounds` puts them together as a `Cipher.Rounds`, over any substitution of
bytes; `Sbox` is a substitution that is the one of the standard, the affine image of the inverse in
the field.  `expandKey` is the key expansion, by its recurrence.

A linear layer is known by its values on words with one byte set: `circulant_eq` writes the mixing
of a word as the sum of four columns, which is also what an implementation by tables looks up.
-/

set_option autoImplicit false

namespace Aes

/-! ## The field -/

/-- Multiplication by `x`, modulo `x⁸ + x⁴ + x³ + x + 1`. -/
def xtime (a : UInt8) : UInt8 := if a &&& 0x80 = 0 then a <<< 1 else a <<< 1 ^^^ 0x1b

/-- `n` steps of the product of `a` and `b`, added to `r`. -/
def mulLoop : ℕ → UInt8 → UInt8 → UInt8 → UInt8
  | 0, _, _, r => r
  | n + 1, a, b, r => mulLoop n (xtime a) (b >>> 1) (if b &&& 1 = 0 then r else r ^^^ a)

/-- The product. -/
def mul (a b : UInt8) : UInt8 := mulLoop 8 a b 0

/-- A property of bytes that a check of all of them decides. -/
theorem forall_byte {P : UInt8 → Prop} (h : ∀ i < 256, P (UInt8.ofNat i)) (a : UInt8) : P a := by
  have ha := h a.toNat a.toNat_lt
  rwa [UInt8.ofNat_toNat] at ha

theorem xtime_eq (a : UInt8) : xtime a =
    a <<< 1 ^^^ a >>> 7 ^^^ (a >>> 7) <<< 1 ^^^ (a >>> 7) <<< 3 ^^^ (a >>> 7) <<< 4 :=
  forall_byte (P := fun a ↦ xtime a =
    a <<< 1 ^^^ a >>> 7 ^^^ (a >>> 7) <<< 1 ^^^ (a >>> 7) <<< 3 ^^^ (a >>> 7) <<< 4)
    (by decide +kernel) a

theorem xtime_xor (a b : UInt8) : xtime (a ^^^ b) = xtime a ^^^ xtime b := by
  simp only [xtime_eq, UInt8.shiftLeft_xor, UInt8.shiftRight_xor]
  ac_rfl

theorem mulLoop_xor (n : ℕ) (a a' b r r' : UInt8) :
    mulLoop n (a ^^^ a') b (r ^^^ r') = mulLoop n a b r ^^^ mulLoop n a' b r' := by
  induction n generalizing a a' b r r' with
  | zero => rfl
  | succ n ih =>
    simp only [mulLoop, xtime_xor]
    split
    · exact ih ..
    · rw [← ih]
      congr 1
      ac_rfl

theorem mul_xor (a a' b : UInt8) : mul (a ^^^ a') b = mul a b ^^^ mul a' b :=
  mulLoop_xor 8 a a' b 0 0

/-- The products with the coefficients of the linear layers. -/
theorem mul_coefficient (a : UInt8) :
    mul a 1 = a ∧ mul a 2 = xtime a ∧ mul a 3 = a ^^^ xtime a ∧
    mul a 9 = a ^^^ xtime (xtime (xtime a)) ∧
    mul a 11 = a ^^^ xtime a ^^^ xtime (xtime (xtime a)) ∧
    mul a 13 = a ^^^ xtime (xtime a) ^^^ xtime (xtime (xtime a)) ∧
    mul a 14 = xtime a ^^^ xtime (xtime a) ^^^ xtime (xtime (xtime a)) := by
  have h (b : UInt8) : 0 ^^^ b = b := UInt8.zero_xor
  exact ⟨h a, h _, congrArg (· ^^^ _) (h a), congrArg (· ^^^ _) (h a),
    congrArg (· ^^^ _ ^^^ _) (h a), congrArg (· ^^^ _ ^^^ _) (h a), congrArg (· ^^^ _ ^^^ _) (h _)⟩

theorem xor_left_comm (a b c : UInt8) : a ^^^ (b ^^^ c) = b ^^^ (a ^^^ c) := by ac_rfl

theorem xor_cancel_left (a b : UInt8) : a ^^^ (a ^^^ b) = b := by
  rw [← UInt8.xor_assoc, UInt8.xor_self, UInt8.zero_xor]

/-! ## Words -/

/-- Four bytes. -/
@[ext] structure Word where
  b0 : UInt8
  b1 : UInt8
  b2 : UInt8
  b3 : UInt8
  deriving DecidableEq, Repr

namespace Word

instance : XorOp Word :=
  ⟨fun v w ↦ ⟨v.b0 ^^^ w.b0, v.b1 ^^^ w.b1, v.b2 ^^^ w.b2, v.b3 ^^^ w.b3⟩⟩

@[simp] theorem xor_b0 (v w : Word) : (v ^^^ w).b0 = v.b0 ^^^ w.b0 := rfl
@[simp] theorem xor_b1 (v w : Word) : (v ^^^ w).b1 = v.b1 ^^^ w.b1 := rfl
@[simp] theorem xor_b2 (v w : Word) : (v ^^^ w).b2 = v.b2 ^^^ w.b2 := rfl
@[simp] theorem xor_b3 (v w : Word) : (v ^^^ w).b3 = v.b3 ^^^ w.b3 := rfl

theorem xor_assoc (u v w : Word) : u ^^^ v ^^^ w = u ^^^ (v ^^^ w) := by
  ext <;> simp [UInt8.xor_assoc]

theorem xor_comm (v w : Word) : v ^^^ w = w ^^^ v := by
  ext <;> simp [UInt8.xor_comm]

instance : Std.Associative (α := Word) (· ^^^ ·) := ⟨xor_assoc⟩
instance : Std.Commutative (α := Word) (· ^^^ ·) := ⟨xor_comm⟩

theorem xor_xor (v w : Word) : v ^^^ w ^^^ w = v := by
  rw [xor_assoc]
  ext <;> simp

/-- A byte at a time. -/
def map (f : UInt8 → UInt8) (w : Word) : Word := ⟨f w.b0, f w.b1, f w.b2, f w.b3⟩

/-- `RotWord`. -/
def rot (w : Word) : Word := ⟨w.b1, w.b2, w.b3, w.b0⟩

/-- The word as a polynomial, times the one with the coefficients `c0` to `c3`, modulo `x⁴ + 1`. -/
def circulant (c0 c1 c2 c3 : UInt8) (w : Word) : Word where
  b0 := mul w.b0 c0 ^^^ mul w.b1 c3 ^^^ mul w.b2 c2 ^^^ mul w.b3 c1
  b1 := mul w.b0 c1 ^^^ mul w.b1 c0 ^^^ mul w.b2 c3 ^^^ mul w.b3 c2
  b2 := mul w.b0 c2 ^^^ mul w.b1 c1 ^^^ mul w.b2 c0 ^^^ mul w.b3 c3
  b3 := mul w.b0 c3 ^^^ mul w.b1 c2 ^^^ mul w.b2 c1 ^^^ mul w.b3 c0

/-- `MixColumns`, on a column. -/
def mixColumn : Word → Word := circulant 2 1 1 3

/-- `InvMixColumns`, on a column. -/
def invMixColumn : Word → Word := circulant 14 9 13 11

/-- The multiples of a byte. -/
def column (c0 c1 c2 c3 b : UInt8) : Word := ⟨mul b c0, mul b c1, mul b c2, mul b c3⟩

theorem circulant_eq (c0 c1 c2 c3 : UInt8) (w : Word) :
    circulant c0 c1 c2 c3 w = column c0 c1 c2 c3 w.b0 ^^^ column c3 c0 c1 c2 w.b1 ^^^
      column c2 c3 c0 c1 w.b2 ^^^ column c1 c2 c3 c0 w.b3 := rfl

theorem circulant_xor (c0 c1 c2 c3 : UInt8) (v w : Word) :
    circulant c0 c1 c2 c3 (v ^^^ w) = circulant c0 c1 c2 c3 v ^^^ circulant c0 c1 c2 c3 w := by
  ext <;> simp only [circulant, xor_b0, xor_b1, xor_b2, xor_b3, mul_xor] <;> ac_rfl

/-- The mixing of a column of multiples, one byte at a time: no product reaches `x⁸`. -/
theorem invMixColumn_column (b : UInt8) :
    invMixColumn (column 2 1 1 3 b) = ⟨b, 0, 0, 0⟩ ∧
    invMixColumn (column 3 2 1 1 b) = ⟨0, b, 0, 0⟩ ∧
    invMixColumn (column 1 3 2 1 b) = ⟨0, 0, b, 0⟩ ∧
    invMixColumn (column 1 1 3 2 b) = ⟨0, 0, 0, b⟩ := by
  refine ⟨?_, ?_, ?_, ?_⟩ <;>
    simp only [invMixColumn, circulant, column, mul_coefficient, xtime_xor, UInt8.xor_comm,
      xor_left_comm, xor_cancel_left, UInt8.xor_self, UInt8.xor_zero]

theorem mixColumn_column (b : UInt8) :
    mixColumn (column 14 9 13 11 b) = ⟨b, 0, 0, 0⟩ ∧
    mixColumn (column 11 14 9 13 b) = ⟨0, b, 0, 0⟩ ∧
    mixColumn (column 13 11 14 9 b) = ⟨0, 0, b, 0⟩ ∧
    mixColumn (column 9 13 11 14 b) = ⟨0, 0, 0, b⟩ := by
  refine ⟨?_, ?_, ?_, ?_⟩ <;>
    simp only [mixColumn, circulant, column, mul_coefficient, xtime_xor, UInt8.xor_comm,
      xor_left_comm, xor_cancel_left, UInt8.xor_self, UInt8.xor_zero]

theorem eq_xor_bytes (w : Word) :
    (⟨w.b0, 0, 0, 0⟩ : Word) ^^^ ⟨0, w.b1, 0, 0⟩ ^^^ ⟨0, 0, w.b2, 0⟩ ^^^ ⟨0, 0, 0, w.b3⟩ = w := by
  ext <;> simp

theorem invMixColumn_mixColumn (w : Word) : invMixColumn (mixColumn w) = w := by
  rw [mixColumn, circulant_eq, invMixColumn, circulant_xor, circulant_xor, circulant_xor]
  obtain ⟨h0, -, -, -⟩ := invMixColumn_column w.b0
  obtain ⟨-, h1, -, -⟩ := invMixColumn_column w.b1
  obtain ⟨-, -, h2, -⟩ := invMixColumn_column w.b2
  obtain ⟨-, -, -, h3⟩ := invMixColumn_column w.b3
  rw [← invMixColumn, h0, h1, h2, h3, eq_xor_bytes]

theorem mixColumn_invMixColumn (w : Word) : mixColumn (invMixColumn w) = w := by
  rw [invMixColumn, circulant_eq, mixColumn, circulant_xor, circulant_xor, circulant_xor]
  obtain ⟨h0, -, -, -⟩ := mixColumn_column w.b0
  obtain ⟨-, h1, -, -⟩ := mixColumn_column w.b1
  obtain ⟨-, -, h2, -⟩ := mixColumn_column w.b2
  obtain ⟨-, -, -, h3⟩ := mixColumn_column w.b3
  rw [← mixColumn, h0, h1, h2, h3, eq_xor_bytes]

end Word

/-! ## States -/

/-- Four columns. -/
@[ext] structure State where
  c0 : Word
  c1 : Word
  c2 : Word
  c3 : Word
  deriving DecidableEq, Repr

namespace State

instance : XorOp State :=
  ⟨fun s t ↦ ⟨s.c0 ^^^ t.c0, s.c1 ^^^ t.c1, s.c2 ^^^ t.c2, s.c3 ^^^ t.c3⟩⟩

@[simp] theorem xor_c0 (s t : State) : (s ^^^ t).c0 = s.c0 ^^^ t.c0 := rfl
@[simp] theorem xor_c1 (s t : State) : (s ^^^ t).c1 = s.c1 ^^^ t.c1 := rfl
@[simp] theorem xor_c2 (s t : State) : (s ^^^ t).c2 = s.c2 ^^^ t.c2 := rfl
@[simp] theorem xor_c3 (s t : State) : (s ^^^ t).c3 = s.c3 ^^^ t.c3 := rfl

theorem xor_xor (s t : State) : s ^^^ t ^^^ t = s := by
  ext1 <;> simp only [xor_c0, xor_c1, xor_c2, xor_c3, Word.xor_xor]

theorem xor_comm (s t : State) : s ^^^ t = t ^^^ s := by
  ext1 <;> simp only [xor_c0, xor_c1, xor_c2, xor_c3, Word.xor_comm]

/-- Two additions cancel when they are of the same block, and only then. -/
theorem xor_eq_left_iff (s t u : State) : s ^^^ t ^^^ u = s ↔ t = u := by
  constructor
  · intro h
    have ht : t = s ^^^ t ^^^ u ^^^ u ^^^ s := by rw [xor_xor, xor_comm s t, xor_xor]
    rw [ht, h, xor_comm s u, xor_xor]
  · rintro rfl
    exact xor_xor s t

/-- A column at a time. -/
def map (f : Word → Word) (s : State) : State := ⟨f s.c0, f s.c1, f s.c2, f s.c3⟩

/-- `ShiftRows`: row `i` moves by `i` columns. -/
def shiftRows (s : State) : State where
  c0 := ⟨s.c0.b0, s.c1.b1, s.c2.b2, s.c3.b3⟩
  c1 := ⟨s.c1.b0, s.c2.b1, s.c3.b2, s.c0.b3⟩
  c2 := ⟨s.c2.b0, s.c3.b1, s.c0.b2, s.c1.b3⟩
  c3 := ⟨s.c3.b0, s.c0.b1, s.c1.b2, s.c2.b3⟩

/-- `InvShiftRows`. -/
def invShiftRows (s : State) : State where
  c0 := ⟨s.c0.b0, s.c3.b1, s.c2.b2, s.c1.b3⟩
  c1 := ⟨s.c1.b0, s.c0.b1, s.c3.b2, s.c2.b3⟩
  c2 := ⟨s.c2.b0, s.c1.b1, s.c0.b2, s.c3.b3⟩
  c3 := ⟨s.c3.b0, s.c2.b1, s.c1.b2, s.c0.b3⟩

end State

/-! ## The cipher -/

/-- `SubBytes` and `ShiftRows`, in either order. -/
def subShift (S : UInt8 ≃ UInt8) : State ≃ State where
  toFun s := (s.map (Word.map S)).shiftRows
  invFun s := (s.map (Word.map S.symm)).invShiftRows
  left_inv s := by
    simp only [State.map, Word.map, State.shiftRows, State.invShiftRows, Equiv.symm_apply_apply]
  right_inv s := by
    simp only [State.map, Word.map, State.shiftRows, State.invShiftRows, Equiv.apply_symm_apply]

/-- `MixColumns`. -/
def mixColumns : State ≃ State where
  toFun := State.map Word.mixColumn
  invFun := State.map Word.invMixColumn
  left_inv s := by simp only [State.map, Word.invMixColumn_mixColumn]
  right_inv s := by simp only [State.map, Word.mixColumn_invMixColumn]

theorem mixColumns_xor (s t : State) : mixColumns (s ^^^ t) = mixColumns s ^^^ mixColumns t := by
  ext1 <;> exact Word.circulant_xor ..

/-- The rounds of the standard over a substitution of bytes. -/
def rounds (S : UInt8 ≃ UInt8) : Cipher.Rounds State where
  add s k := s ^^^ k
  sub := subShift S
  mix := mixColumns
  add_add := State.xor_xor
  mix_add := mixColumns_xor

/-- The inverse of the affine map of the substitution. -/
def invAffine (a : UInt8) : UInt8 :=
  (a <<< 1 ||| a >>> 7) ^^^ (a <<< 3 ||| a >>> 5) ^^^ (a <<< 6 ||| a >>> 2) ^^^ 0x05

/-- A substitution that is the one of the standard: the inverse in the field, 0 for 0, and then the
affine map. -/
structure Sbox extends UInt8 ≃ UInt8 where
  mul_inverse : ∀ a, mul a (invAffine (toFun a)) = if a = 0 then 0 else 1

/-! ## The key expansion -/

/-- The round constants: the powers of `x`. -/
def rcon : ℕ → UInt8
  | 0 => 1
  | n + 1 => xtime (rcon n)

/-- The word that is added to the word `nk` places before to give word `i`. -/
def expandWord (S : UInt8 → UInt8) (nk i : ℕ) (last : Word) : Word :=
  if i % nk = 0 then last.rot.map S ^^^ ⟨rcon (i / nk - 1), 0, 0, 0⟩
  else if 6 < nk ∧ i % nk = 4 then last.map S
  else last

/-- The words of the key schedule from a key of `nk` words, which are the first of them. -/
def expandKey (S : UInt8 → UInt8) (nk : ℕ) (key : ℕ → Word) (i : ℕ) : Word :=
  if i < nk ∨ nk = 0 then key i
  else expandKey S nk key (i - nk) ^^^ expandWord S nk i (expandKey S nk key (i - 1))
termination_by i
decreasing_by all_goals omega

theorem expandKey_of_lt {S : UInt8 → UInt8} {nk : ℕ} {key : ℕ → Word} {i : ℕ} (hi : i < nk) :
    expandKey S nk key i = key i := by
  rw [expandKey, if_pos (Or.inl hi)]

/-- The recurrence of the key expansion. -/
theorem expandKey_of_le {S : UInt8 → UInt8} {nk : ℕ} {key : ℕ → Word} {i : ℕ} (h0 : 0 < nk)
    (hi : nk ≤ i) : expandKey S nk key i =
      expandKey S nk key (i - nk) ^^^ expandWord S nk i (expandKey S nk key (i - 1)) := by
  rw [expandKey, if_neg (by omega)]

/-- The key of round `r`. -/
def roundKey (w : ℕ → Word) (r : ℕ) : State :=
  ⟨w (4 * r), w (4 * r + 1), w (4 * r + 2), w (4 * r + 3)⟩

/-- The cipher with a key of `nk` words, in `nk + 6` rounds. -/
def cipher (S : Sbox) (nk : ℕ) (key : ℕ → Word) (a : State) : State :=
  (rounds S.toEquiv).encrypt (roundKey (expandKey S.toEquiv nk key)) (nk + 5) a

/-- The inverse cipher. -/
def invCipher (S : Sbox) (nk : ℕ) (key : ℕ → Word) (a : State) : State :=
  (rounds S.toEquiv).decrypt (roundKey (expandKey S.toEquiv nk key)) (nk + 5) a

theorem invCipher_cipher (S : Sbox) (nk : ℕ) (key : ℕ → Word) (a : State) :
    invCipher S nk key (cipher S nk key a) = a :=
  (rounds S.toEquiv).decrypt_encrypt _ (nk + 5) a

theorem cipher_invCipher (S : Sbox) (nk : ℕ) (key : ℕ → Word) (a : State) :
    cipher S nk key (invCipher S nk key a) = a :=
  (rounds S.toEquiv).encrypt_decrypt _ (nk + 5) a

end Aes
