import Mathlib.Tactic.Ring
import AlphaMon.Rijndael

/-!
# The cipher of the source is the standard's

`rijndael.c` against `AlphaMon.Cipher.Aes`.  The tables are read in three steps: `S` and `S5` are
inverse to each other and `S` is the standard's substitution (`sbox`); `T1`, `T5` and `U1` are
columns of multiples of `S`, of `S5` and of every byte; and each of the others is the one before it
with its bytes moved by one place.  So a round by tables is a round (`encryptStep_eq`,
`decryptStep_eq`), and what the source computes for a block is the cipher and its inverse.

The invariant of the key schedule is that before pass `m` of the loop `tempKey` holds `nk`
consecutive words of the expansion, and all words up to the current place have been written.
-/

set_option autoImplicit false

namespace AlphaMon

open Aes (Word)

namespace Rijndael

/-! ## Tables -/

/-- A check of a list by one pass over it. -/
def checkFrom (p : ℕ → ℕ → Bool) : ℕ → List ℕ → Bool
  | _, [] => true
  | i, x :: xs => p i x && checkFrom p (i + 1) xs

theorem checkFrom_getD {p : ℕ → ℕ → Bool} {l : List ℕ} {i k : ℕ} (h : checkFrom p i l = true)
    (hk : k < l.length) : p (i + k) (l.getD k 0) = true := by
  induction l generalizing i k with
  | nil => simp at hk
  | cons x xs ih =>
    rw [checkFrom, Bool.and_eq_true] at h
    cases k with
    | zero => exact h.1
    | succ k =>
      have := ih h.2 (Nat.lt_of_succ_lt_succ hk)
      rwa [Nat.add_right_comm] at this

/-- `List.getD` by recursion on the list. -/
def entry : List ℕ → ℕ → ℕ
  | [], _ => 0
  | x :: _, 0 => x
  | _ :: xs, n + 1 => entry xs n

theorem entry_eq (l : List ℕ) (n : ℕ) : entry l n = l.getD n 0 := by
  induction l generalizing n with
  | nil => rfl
  | cons x xs ih =>
    cases n with
    | zero => rfl
    | succ n => exact ih n

/-- A table of 256 bytes. -/
structure IsBytes (t : List ℕ) : Prop where
  length : t.length = 256
  byte : checkFrom (fun _ y ↦ y < 256) 0 t = true

instance (t : List ℕ) : Decidable (IsBytes t) :=
  decidable_of_iff (t.length = 256 ∧ checkFrom (fun _ y ↦ y < 256) 0 t = true)
    ⟨fun h ↦ ⟨h.1, h.2⟩, fun h ↦ ⟨h.1, h.2⟩⟩

/-- The tables of bytes: `S`, `S5` and the list of all bytes. -/
theorem isBytes_tables : IsBytes s ∧ IsBytes s5 ∧ IsBytes (List.range 256) := by decide +kernel

theorem isBytes_s : IsBytes s := isBytes_tables.1

theorem isBytes_s5 : IsBytes s5 := isBytes_tables.2.1

theorem IsBytes.toNat_lt {t : List ℕ} (ht : IsBytes t) (x : UInt8) : x.toNat < t.length :=
  ht.length.symm ▸ x.toNat_lt

theorem IsBytes.toNat_byteOf {t : List ℕ} (ht : IsBytes t) (x : UInt8) :
    (byteOf t x).toNat = t.getD x.toNat 0 := by
  have h := checkFrom_getD ht.byte (ht.toNat_lt x)
  simp only [decide_eq_true_eq] at h
  rw [byteOf, UInt8.toNat_ofNat_of_lt' h]

/-- Two tables of bytes the second of which undoes the first. -/
theorem IsBytes.byteOf_byteOf {t u : List ℕ} (ht : IsBytes t)
    (h : checkFrom (fun i y ↦ entry u y = i) 0 t = true) (x : UInt8) :
    byteOf u (byteOf t x) = x := by
  have hx := checkFrom_getD h (ht.toNat_lt x)
  simp only [decide_eq_true_eq, entry_eq, Nat.zero_add] at hx
  rw [byteOf, ht.toNat_byteOf, hx, UInt8.ofNat_toNat]

theorem inverse_tables : checkFrom (fun i y ↦ entry s5 y = i) 0 s = true ∧
    checkFrom (fun i y ↦ entry s y = i) 0 s5 = true := by decide +kernel

theorem s5_s (x : UInt8) : byteOf s5 (byteOf s x) = x :=
  isBytes_s.byteOf_byteOf inverse_tables.1 x

theorem s_s5 (x : UInt8) : byteOf s (byteOf s5 x) = x :=
  isBytes_s5.byteOf_byteOf inverse_tables.2 x

theorem mul_inverse_s (x : UInt8) :
    Aes.mul x (Aes.invAffine (byteOf s x)) = if x = 0 then 0 else 1 := by
  have h := checkFrom_getD (p := fun i y ↦ Aes.mul (.ofNat i) (Aes.invAffine (.ofNat y)) =
    if i = 0 then 0 else 1) (l := s) (i := 0) (by decide +kernel) (isBytes_s.toNat_lt x)
  simp only [Nat.zero_add, UInt8.ofNat_toNat, decide_eq_true_eq] at h
  have h0 : x.toNat = 0 ↔ x = 0 := by rw [← UInt8.toNat_inj]; rfl
  rwa [if_congr h0 rfl rfl] at h

/-- **The substitution of the source is the standard's.** -/
def sbox : Aes.Sbox where
  toFun := byteOf s
  invFun := byteOf s5
  left_inv := s5_s
  right_inv := s_s5
  mul_inverse := mul_inverse_s

/-- A row as one number. -/
def pack (w : Word) : ℕ :=
  w.b0.toNat * 16777216 + w.b1.toNat * 65536 + w.b2.toNat * 256 + w.b3.toNat

theorem row_pack (w : Word) : row (pack w) = w := by
  have h0 := w.b0.toNat_lt
  have h1 := w.b1.toNat_lt
  have h2 := w.b2.toNat_lt
  have h3 := w.b3.toNat_lt
  ext <;> simp only [row, pack, UInt8.toNat_ofNat', Nat.shiftRight_eq_div_pow] <;> omega

/-- The last byte moved to the front. -/
def rotate (n : ℕ) : ℕ := n / 256 + n % 256 * 16777216

theorem rotate_pack (w : Word) : rotate (pack w) = pack ⟨w.b3, w.b0, w.b1, w.b2⟩ := by
  have h3 := w.b3.toNat_lt
  simp only [rotate, pack]
  omega

/-- A table of the rows that a function makes of a table of bytes. -/
def IsRows (t : List ℕ) (f : UInt8 → Word) (u : List ℕ) : Prop :=
  t = u.map fun y ↦ pack (f (.ofNat y))

instance (t : List ℕ) (f : UInt8 → Word) (u : List ℕ) : Decidable (IsRows t f u) :=
  inferInstanceAs (Decidable (t = _))

theorem IsRows.rotate {t t' : List ℕ} {f : UInt8 → Word} {u : List ℕ} (h : IsRows t f u)
    (ht : t' = t.map Rijndael.rotate) :
    IsRows t' (fun y ↦ ⟨(f y).b3, (f y).b0, (f y).b1, (f y).b2⟩) u := by
  have h : t = u.map fun y ↦ pack (f (.ofNat y)) := h
  show t' = u.map _
  rw [ht, h, List.map_map]
  refine List.map_congr_left fun y _ ↦ ?_
  rw [Function.comp_apply, rotate_pack]

theorem IsRows.wordOf_eq {t : List ℕ} {f : UInt8 → Word} {u : List ℕ} (h : IsRows t f u)
    (hu : IsBytes u) (x : UInt8) : wordOf t x = f (byteOf u x) := by
  have hx := hu.toNat_lt x
  have h : t = u.map fun y ↦ pack (f (.ofNat y)) := h
  rw [wordOf, h, byteOf, List.getD_eq_getElem?_getD, List.getElem?_map, List.getElem?_eq_getElem hx,
    List.getD_eq_getElem?_getD, List.getElem?_eq_getElem hx]
  exact row_pack _

theorem isBytes_range : IsBytes (List.range 256) := isBytes_tables.2.2

theorem byteOf_range (x : UInt8) : byteOf (List.range 256) x = x := by
  rw [byteOf, List.getD_eq_getElem?_getD, List.getElem?_range x.toNat_lt]
  exact UInt8.ofNat_toNat

/-- The multiples in a row of the encryption tables. -/
theorem column_encrypt (y : UInt8) :
    Word.column 2 1 1 3 y = ⟨Aes.xtime y, y, y, y ^^^ Aes.xtime y⟩ := by
  simp only [Word.column, Aes.mul_coefficient]

/-- The multiples in a row of the decryption tables. -/
theorem column_decrypt (y : UInt8) : Word.column 14 9 13 11 y =
    ⟨Aes.xtime y ^^^ Aes.xtime (Aes.xtime y) ^^^ Aes.xtime (Aes.xtime (Aes.xtime y)),
      y ^^^ Aes.xtime (Aes.xtime (Aes.xtime y)),
      y ^^^ Aes.xtime (Aes.xtime y) ^^^ Aes.xtime (Aes.xtime (Aes.xtime y)),
      y ^^^ Aes.xtime y ^^^ Aes.xtime (Aes.xtime (Aes.xtime y))⟩ := by
  simp only [Word.column, Aes.mul_coefficient]

/-- The first table of each kind. -/
theorem isRows_first : IsRows t1 (Word.column 2 1 1 3) s ∧ IsRows t5 (Word.column 14 9 13 11) s5 ∧
    IsRows u1 (Word.column 14 9 13 11) (List.range 256) := by
  simp only [IsRows, column_encrypt, column_decrypt]
  decide +kernel

/-- The others of each kind. -/
theorem rotated_tables :
    (t2 = t1.map rotate ∧ t3 = t2.map rotate ∧ t4 = t3.map rotate) ∧
    (t6 = t5.map rotate ∧ t7 = t6.map rotate ∧ t8 = t7.map rotate) ∧
    u2 = u1.map rotate ∧ u3 = u2.map rotate ∧ u4 = u3.map rotate := by decide +kernel

theorem isRows_t1 : IsRows t1 (Word.column 2 1 1 3) s := isRows_first.1

theorem isRows_t2 : IsRows t2 (Word.column 3 2 1 1) s := isRows_t1.rotate rotated_tables.1.1

theorem isRows_t3 : IsRows t3 (Word.column 1 3 2 1) s := isRows_t2.rotate rotated_tables.1.2.1

theorem isRows_t4 : IsRows t4 (Word.column 1 1 3 2) s := isRows_t3.rotate rotated_tables.1.2.2

theorem isRows_t5 : IsRows t5 (Word.column 14 9 13 11) s5 := isRows_first.2.1

theorem isRows_t6 : IsRows t6 (Word.column 11 14 9 13) s5 := isRows_t5.rotate rotated_tables.2.1.1

theorem isRows_t7 : IsRows t7 (Word.column 13 11 14 9) s5 := isRows_t6.rotate rotated_tables.2.1.2.1

theorem isRows_t8 : IsRows t8 (Word.column 9 13 11 14) s5 := isRows_t7.rotate rotated_tables.2.1.2.2

theorem isRows_u1 : IsRows u1 (Word.column 14 9 13 11) (List.range 256) := isRows_first.2.2

theorem isRows_u2 : IsRows u2 (Word.column 11 14 9 13) (List.range 256) :=
  isRows_u1.rotate rotated_tables.2.2.1

theorem isRows_u3 : IsRows u3 (Word.column 13 11 14 9) (List.range 256) :=
  isRows_u2.rotate rotated_tables.2.2.2.1

theorem isRows_u4 : IsRows u4 (Word.column 9 13 11 14) (List.range 256) :=
  isRows_u3.rotate rotated_tables.2.2.2.2

/-! ## Rounds -/

/-- The rounds of the source's cipher. -/
def rounds : Cipher.Rounds Aes.State := Aes.rounds sbox.toEquiv

variable {self : Rijndael} (htables : self.tables = .op)
include htables

theorem encryptBFromT_eq (b0 b1 b2 b3 : UInt8) :
    encryptBFromT self b0 b1 b2 b3 = Word.mixColumn (Word.map (byteOf s) ⟨b0, b1, b2, b3⟩) := by
  simp only [encryptBFromT, htables, Tables.op]
  rw [isRows_t1.wordOf_eq isBytes_s, isRows_t2.wordOf_eq isBytes_s,
    isRows_t3.wordOf_eq isBytes_s, isRows_t4.wordOf_eq isBytes_s, Word.mixColumn, Word.circulant_eq]
  simp only [Word.map]

theorem decryptBFromT_eq (b0 b1 b2 b3 : UInt8) :
    decryptBFromT self b0 b1 b2 b3 = Word.invMixColumn (Word.map (byteOf s5) ⟨b0, b1, b2, b3⟩) := by
  simp only [decryptBFromT, htables, Tables.op]
  rw [isRows_t5.wordOf_eq isBytes_s5, isRows_t6.wordOf_eq isBytes_s5,
    isRows_t7.wordOf_eq isBytes_s5, isRows_t8.wordOf_eq isBytes_s5, Word.invMixColumn,
    Word.circulant_eq]
  simp only [Word.map]

/-- **A round by tables is a round.** -/
theorem encryptStep_eq (temp : Aes.State) :
    encryptStep self temp = rounds.mix (rounds.sub temp) := by
  simp only [encryptStep, encryptBFromT_eq htables]
  rfl

theorem decryptStep_eq (temp : Aes.State) :
    decryptStep self temp = rounds.mix.symm (rounds.sub.symm temp) := by
  simp only [decryptStep, decryptBFromT_eq htables]
  rfl

omit htables

/-- The round keys. -/
def roundKey (self : Rijndael) (r : ℕ) : Aes.State :=
  Aes.roundKey (keyWord self.mExpandedKey) r

theorem addKey_eq (self : Rijndael) (b : Aes.State) (r : ℕ) :
    addKey self b r = rounds.add b (self.roundKey r) := rfl

include htables

theorem encryptLoop_eq (n r : ℕ) (b : Aes.State) :
    encryptLoop self n r b = rounds.before self.roundKey r n b := by
  induction n generalizing r b with
  | zero => rfl
  | succ n ih => rw [encryptLoop, ih, encryptStep_eq htables, addKey_eq, Cipher.Rounds.before]

theorem decryptLoop_eq (n : ℕ) (b : Aes.State) :
    decryptLoop self n b = rounds.beforeInv self.roundKey 1 n b := by
  induction n generalizing b with
  | zero => rfl
  | succ n ih =>
    rw [decryptLoop, ih, decryptStep_eq htables, addKey_eq, Cipher.Rounds.beforeInv,
      Nat.add_comm 1 n]

omit htables in
/-- The second byte of a row of `T1` is the substitution. -/
theorem wordOf_t1_b1 (x : UInt8) : (wordOf t1 x).b1 = byteOf s x := by
  rw [isRows_t1.wordOf_eq isBytes_s, column_encrypt]

theorem rEncrypt_eq {n : ℕ} (hn : self.mURounds = n + 2) (a : Aes.State) :
    rEncrypt self a = rounds.encrypt self.roundKey (n + 1) a := by
  have h : encryptLoop self n 1 (encryptStep self (addKey self a 0)) =
      rounds.before self.roundKey 0 (n + 1) a := by
    rw [encryptLoop_eq htables, encryptStep_eq htables, addKey_eq, Cipher.Rounds.before]
  rw [rEncrypt, htables, hn, Nat.add_sub_cancel, h, Cipher.Rounds.encrypt_eq_before]
  simp only [Tables.op, wordOf_t1_b1]
  rfl

theorem rDecrypt_eq {n : ℕ} (hn : self.mURounds = n + 2) (a : Aes.State) :
    rDecrypt self a = rounds.add (rounds.sub.symm (rounds.add
      (rounds.beforeInv self.roundKey 1 (n + 1) a) (self.roundKey 1))) (self.roundKey 0) := by
  have h : decryptLoop self n (decryptStep self (addKey self a (n + 2))) =
      rounds.beforeInv self.roundKey 1 (n + 1) a := by
    rw [decryptLoop_eq htables, decryptStep_eq htables, addKey_eq, Cipher.Rounds.beforeInv,
      Nat.add_comm 1 n]
  rw [rDecrypt, htables, hn, Nat.add_sub_cancel, h]
  rfl

end Rijndael

end AlphaMon
