import Mathlib.Data.List.GetD
import Mathlib.Data.UInt
import Mathlib.Tactic.IntervalCases

/-!
# Base 64

`base64.h`, the text of the key in the configuration.  A buffer that is allocated and then written
one byte after the other is the list of the bytes written, next to the size it was allocated with,
so that a write past its end is a list longer than that size.  Allocations succeed, unless the size
is negative, which as a `size_t` is more than there is.  Lengths are natural numbers.  The source
computes the sizes with `int`s (`base64Size`, `unbase64Size`), which gives the same as long as they
do not overflow, that is, for fewer than about `2 ^ 29` bytes: the results ask for it.

`base64` writes exactly the characters it allocated for, and `unbase64` undoes it on every string of
at least one byte (`base64_round_trip`).  On text that `base64` did not make, `unbase64` computes
the size and the number of bytes to write by different formulas.  `unbase64_bytes_iff` says for
which texts it stays inside the buffer and for which it fills it.
-/

set_option autoImplicit false

namespace AlphaMon

/-- `b64`. -/
def b64 : List UInt8 :=
  (['A', 'B', 'C', 'D', 'E', 'F', 'G', 'H', 'I', 'J', 'K', 'L', 'M', 'N', 'O', 'P',
    'Q', 'R', 'S', 'T', 'U', 'V', 'W', 'X', 'Y', 'Z', 'a', 'b', 'c', 'd', 'e', 'f',
    'g', 'h', 'i', 'j', 'k', 'l', 'm', 'n', 'o', 'p', 'q', 'r', 's', 't', 'u', 'v',
    'w', 'x', 'y', 'z', '0', '1', '2', '3', '4', '5', '6', '7', '8', '9', '+', '/'] : List Char).map
      fun c ↦ .ofNat c.toNat

/-- `unb64`. -/
def unb64 : List ℕ :=
  [0, 0, 0, 0, 0, 0, 0, 0, 0, 0,
   0, 0, 0, 0, 0, 0, 0, 0, 0, 0,
   0, 0, 0, 0, 0, 0, 0, 0, 0, 0,
   0, 0, 0, 0, 0, 0, 0, 0, 0, 0,
   0, 0, 0, 62, 0, 0, 0, 63, 52, 53,
   54, 55, 56, 57, 58, 59, 60, 61, 0, 0,
   0, 0, 0, 0, 0, 0, 1, 2, 3, 4,
   5, 6, 7, 8, 9, 10, 11, 12, 13, 14,
   15, 16, 17, 18, 19, 20, 21, 22, 23, 24,
   25, 0, 0, 0, 0, 0, 0, 26, 27, 28,
   29, 30, 31, 32, 33, 34, 35, 36, 37, 38,
   39, 40, 41, 42, 43, 44, 45, 46, 47, 48,
   49, 50, 51, 0, 0, 0, 0, 0, 0, 0,
   0, 0, 0, 0, 0, 0, 0, 0, 0, 0,
   0, 0, 0, 0, 0, 0, 0, 0, 0, 0,
   0, 0, 0, 0, 0, 0, 0, 0, 0, 0,
   0, 0, 0, 0, 0, 0, 0, 0, 0, 0,
   0, 0, 0, 0, 0, 0, 0, 0, 0, 0,
   0, 0, 0, 0, 0, 0, 0, 0, 0, 0,
   0, 0, 0, 0, 0, 0, 0, 0, 0, 0,
   0, 0, 0, 0, 0, 0, 0, 0, 0, 0,
   0, 0, 0, 0, 0, 0, 0, 0, 0, 0,
   0, 0, 0, 0, 0, 0, 0, 0, 0, 0,
   0, 0, 0, 0, 0, 0, 0, 0, 0, 0,
   0, 0, 0, 0, 0, 0, 0, 0, 0, 0,
   0, 0, 0, 0, 0, 0]

/-- `'='`. -/
def equals : UInt8 := 61

/-- `b64[i]`. -/
def digit (i : ℕ) : UInt8 := b64.getD i 0

/-- `unb64[c]`. -/
def undigit (c : UInt8) : ℕ := unb64.getD c.toNat 0

/-! ## Encoding -/

/-- A byte of the data as an `int`. -/
def binAt (bin : List UInt8) (i : ℕ) : ℕ := (bin.getD i 0).toNat

/-- The loop of `base64`, from `byteNo` on, with the characters written so far. -/
def base64Loop (bin : List UInt8) (len byteNo : ℕ) (res : List UInt8) : ℕ × List UInt8 :=
  if byteNo + 3 ≤ len then
    let byte0 := binAt bin byteNo
    let byte1 := binAt bin (byteNo + 1)
    let byte2 := binAt bin (byteNo + 2)
    base64Loop bin len (byteNo + 3) (res ++
      [digit (byte0 >>> 2), digit (((0x3 &&& byte0) <<< 4) + (byte1 >>> 4)),
        digit (((0x0f &&& byte1) <<< 2) + (byte2 >>> 6)), digit (0x3f &&& byte2)])
  else (byteNo, res)
termination_by len - byteNo

/-- `base64`: the characters before the final zero, and `*flen`. -/
def base64 (bin : List UInt8) (len : ℕ) : List UInt8 × ℕ :=
  let modulusLen := len % 3
  let pad := ((modulusLen &&& 1) <<< 1) + ((modulusLen &&& 2) >>> 1)
  let flen := 4 * (len + pad) / 3
  let (byteNo, res) := base64Loop bin len 0 []
  if pad = 2 then
    (res ++ [digit (binAt bin byteNo >>> 2), digit ((0x3 &&& binAt bin byteNo) <<< 4), equals,
        equals],
      flen)
  else if pad = 1 then
    (res ++ [digit (binAt bin byteNo >>> 2),
      digit (((0x3 &&& binAt bin byteNo) <<< 4) + (binAt bin (byteNo + 1) >>> 4)),
      digit ((0x0f &&& binAt bin (byteNo + 1)) <<< 2), equals], flen)
  else (res, flen)

/-! ## Decoding -/

/-- `unb64[safeAsciiPtr[i]]`. -/
def undigitAt (ascii : List UInt8) (i : ℕ) : ℕ := undigit (ascii.getD i 0)

/-- The loop of `unbase64`, from `charNo` on, with the bytes written so far. -/
def unbase64Loop (ascii : List UInt8) (len pad charNo : ℕ) (bin : List UInt8) : ℕ × List UInt8 :=
  if charNo + 4 + pad ≤ len then
    let a := undigitAt ascii charNo
    let b := undigitAt ascii (charNo + 1)
    let c := undigitAt ascii (charNo + 2)
    let d := undigitAt ascii (charNo + 3)
    unbase64Loop ascii len pad (charNo + 4) (bin ++
      [.ofNat (a <<< 2 ||| b >>> 4), .ofNat (b <<< 4 ||| c >>> 2), .ofNat (c <<< 6 ||| d)])
  else (charNo, bin)
termination_by len - charNo

/-- How many of the last two characters are `'='`. -/
def padOf (ascii : List UInt8) (len : ℕ) : ℕ :=
  (if ascii.getD (len - 1) 0 = equals then 1 else 0) + if ascii.getD (len - 2) 0 = equals then 1
    else 0

/-- What `unbase64` writes, one byte after the other. -/
def unbase64Bytes (ascii : List UInt8) (len pad : ℕ) : List UInt8 :=
  let (charNo, bin) := unbase64Loop ascii len pad 0 []
  if pad = 1 then
    let a := undigitAt ascii charNo
    let b := undigitAt ascii (charNo + 1)
    let c := undigitAt ascii (charNo + 2)
    bin ++ [.ofNat (a <<< 2 ||| b >>> 4), .ofNat (b <<< 4 ||| c >>> 2)]
  else if pad = 2 then
    let a := undigitAt ascii charNo
    let b := undigitAt ascii (charNo + 1)
    bin ++ [.ofNat (a <<< 2 ||| b >>> 4)]
  else bin

/-- `unbase64`: the bytes written, if there is a buffer, and `*flen`, its size. -/
def unbase64 (ascii : List UInt8) (len : ℕ) : Option (List UInt8) × ℤ :=
  if len < 2 then (none, 0)
  else
    let pad := padOf ascii len
    let flen : ℤ := (3 * len / 4 : ℕ) - (pad : ℤ)
    if flen < 0 then (none, flen) else (some (unbase64Bytes ascii len pad), flen)

/-! ## Sizes -/

/-- `4*(len + pad)/3`, as the source computes it. -/
def base64Size (len pad : ℕ) : Int32 := 4 * (.ofNat len + .ofNat pad) / 3

/-- `3*len/4 - pad`, as the source computes it. -/
def unbase64Size (len pad : ℕ) : Int32 := 3 * .ofNat len / 4 - .ofNat pad

/-- An `int` that is in its bounds. -/
theorem int_eq {n : ℤ} (h0 : -2 ^ 31 ≤ n) (h : n < 2 ^ 31) : n.bmod (2 ^ 32) = n :=
  Int.bmod_eq_of_le (by omega) (by omega)

theorem base64Size_eq {len pad : ℕ} (h : len + pad < 2 ^ 29) :
    (base64Size len pad).toInt = ((4 * (len + pad) / 3 : ℕ) : ℤ) := by
  rw [base64Size, Int32.toInt_div, Int32.toInt_mul, Int32.toInt_add,
    Int32.toInt_ofNat_of_lt (by omega),
    Int32.toInt_ofNat_of_lt (by omega), show (4 : Int32).toInt = 4 from rfl,
      show (3 : Int32).toInt = 3 from rfl,
    int_eq (n := (len : ℤ) + pad) (by omega) (by omega), int_eq (n := 4 * ((len : ℤ) + pad))
      (by omega) (by omega),
    Int.tdiv_eq_ediv_of_nonneg (by omega), int_eq (by omega) (by omega)]
  omega

theorem unbase64Size_eq {len pad : ℕ} (h : 3 * len < 2 ^ 31) (hpad : pad ≤ 2) :
    (unbase64Size len pad).toInt = ((3 * len / 4 : ℕ) : ℤ) - pad := by
  rw [unbase64Size, Int32.toInt_sub, Int32.toInt_div, Int32.toInt_mul,
    Int32.toInt_ofNat_of_lt (by omega),
    Int32.toInt_ofNat_of_lt (by omega), show (3 : Int32).toInt = 3 from rfl,
      show (4 : Int32).toInt = 4 from rfl,
    int_eq (n := 3 * (len : ℤ)) (by omega) (by omega), Int.tdiv_eq_ediv_of_nonneg (by omega),
    int_eq (n := 3 * (len : ℤ) / 4) (by omega) (by omega), int_eq (by omega) (by omega)]
  omega

/-! ## What is written -/

theorem padOf_le (ascii : List UInt8) (len : ℕ) : padOf ascii len ≤ 2 := by
  rw [padOf]
  split_ifs <;> decide

/-- The loop takes four characters at a time and gives three bytes for them. -/
theorem unbase64Loop_length (ascii : List UInt8) (len pad charNo : ℕ) (bin : List UInt8) :
    ∃ k, (unbase64Loop ascii len pad charNo bin).1 = charNo + 4 * k ∧
      (unbase64Loop ascii len pad charNo bin).2.length = bin.length + 3 * k ∧
      len < charNo + 4 * k + 4 + pad ∧ (k = 0 ∨ charNo + 4 * k + pad ≤ len) := by
  induction h : len - charNo using Nat.strong_induction_on generalizing charNo bin with
  | _ n ih =>
    rw [unbase64Loop]
    split_ifs with hc
    · obtain ⟨k, h1, h2, h3, h4⟩ := ih (len - (charNo + 4)) (by omega) (charNo + 4)
        (bin ++ [.ofNat (undigitAt ascii charNo <<< 2 ||| undigitAt ascii (charNo + 1) >>> 4),
          .ofNat (undigitAt ascii (charNo + 1) <<< 4 ||| undigitAt ascii (charNo + 2) >>> 2),
          .ofNat (undigitAt ascii (charNo + 2) <<< 6 ||| undigitAt ascii (charNo + 3))]) rfl
      refine ⟨k + 1, by rw [h1]; omega, ?_, by omega, by omega⟩
      rw [h2, List.length_append]
      show bin.length + 3 + 3 * k = _
      omega
    · exact ⟨0, by simp, by simp, by omega, Or.inl rfl⟩

theorem length_unbase64Bytes (ascii : List UInt8) (len pad : ℕ) :
    (unbase64Bytes ascii len pad).length =
      3 * ((len - pad) / 4) + if pad = 1 then 2 else if pad = 2 then 1 else 0 := by
  obtain ⟨k, -, hlen, h3, h4⟩ := unbase64Loop_length ascii len pad 0 []
  obtain rfl : k = (len - pad) / 4 := by omega
  rw [List.length_nil, Nat.zero_add] at hlen
  rw [unbase64Bytes]
  split_ifs <;> simp [hlen]

/-- The three ways `unbase64` ends: on a text that is too short, on `==`, and with a buffer. -/
theorem unbase64_cases (ascii : List UInt8) (len : ℕ) :
    len < 2 ∧ unbase64 ascii len = (none, 0) ∨
    len = 2 ∧ padOf ascii len = 2 ∧ unbase64 ascii len = (none, -1) ∨
    2 ≤ len ∧ padOf ascii len ≤ 3 * len / 4 ∧ unbase64 ascii len =
      (some (unbase64Bytes ascii len (padOf ascii len)),
        ((3 * len / 4 - padOf ascii len : ℕ) : ℤ)) := by
  have hpad := padOf_le ascii len
  by_cases h2 : len < 2
  · exact Or.inl ⟨h2, by rw [unbase64, if_pos h2]⟩
  by_cases hneg : 3 * len / 4 < padOf ascii len
  · have hlen : len = 2 := by omega
    have hp : padOf ascii len = 2 := by omega
    refine Or.inr (Or.inl ⟨hlen, hp, ?_⟩)
    have hflen : ((3 * len / 4 : ℕ) : ℤ) - padOf ascii len = -1 := by omega
    rw [unbase64, if_neg h2]
    simp only [hflen]
    rfl
  · have hflen : ((3 * len / 4 : ℕ) : ℤ) - padOf ascii len =
        ((3 * len / 4 - padOf ascii len : ℕ) : ℤ) := by omega
    refine Or.inr (Or.inr ⟨by omega, by omega, ?_⟩)
    rw [unbase64, if_neg h2]
    simp only [hflen]
    rw [if_neg (by omega)]

/-- The sizes of a text of `4 * q + r` characters with `p` signs `'='` at its end. -/
theorem sizes_eq {q r p : ℕ} (hr : r < 4) (hp : p ≤ 2) :
    (4 * q + r - p) / 4 = q + (r + 4 - p) / 4 - 1 ∧ 3 * (4 * q + r) / 4 = 3 * q + 3 * r / 4 ∧
    (4 * q + r) % 4 = r := by
  refine ⟨?_, ?_, ?_⟩ <;> omega

/-- **When `unbase64` stays inside the buffer it allocated**, and when it fills all of it, for a
text for which the size of the buffer is computed without overflow.  The texts that do neither are
no texts of `base64`. -/
theorem unbase64_bytes_iff (ascii : List UInt8) (len : ℕ) (hlen : 3 * len < 2 ^ 31)
    (bin : List UInt8) (flen : ℤ) (h : unbase64 ascii len = (some bin, flen)) :
    (unbase64Size len (padOf ascii len)).toInt = flen ∧
    ((bin.length : ℤ) ≤ flen ↔
      padOf ascii len = 0 ∨ len % 4 = 0 ∨ len % 4 = 1 ∧ padOf ascii len = 2) ∧
    ((bin.length : ℤ) = flen ↔ len % 4 = 0 ∨ len % 4 = 1 ∧ padOf ascii len ≠ 1) := by
  have hpad := padOf_le ascii len
  rcases unbase64_cases ascii len with ⟨-, h'⟩ | ⟨-, -, h'⟩ | ⟨h2, hle, h'⟩
  · rw [h] at h'
    simp at h'
  · rw [h] at h'
    simp at h'
  rw [h, Prod.mk.injEq, Option.some_inj] at h'
  obtain ⟨rfl, rfl⟩ := h'
  rw [length_unbase64Bytes]
  refine ⟨by rw [unbase64Size_eq hlen hpad, Nat.cast_sub hle], ?_⟩
  generalize padOf ascii len = p at *
  obtain ⟨q, r, hr, rfl⟩ : ∃ q r, r < 4 ∧ len = 4 * q + r := ⟨len / 4, len % 4, by omega, by omega⟩
  obtain ⟨hblocks, hsize, hmod⟩ := sizes_eq (q := q) hr hpad
  rw [hblocks, hmod, hsize]
  rw [hsize] at hle
  split_ifs with hp1 hp2 <;> interval_cases r <;> constructor <;> omega

/-- `AAAA=`: five bytes for a buffer of two. -/
theorem unbase64_bytes_iff_short :
    let ascii : List UInt8 := [65, 65, 65, 65, 61]
    (unbase64 ascii 5).2 = 2 ∧ ¬((unbase64Bytes ascii 5 1).length : ℤ) ≤ 2 := by
  intro ascii
  have h : unbase64 ascii 5 = (some (unbase64Bytes ascii 5 1), 2) := rfl
  exact ⟨by rw [h], fun hle ↦
    absurd ((unbase64_bytes_iff ascii 5 (by decide) _ 2 h).2.1.1 hle) (by decide)⟩

/-! ## Round trip -/

/-- The text of some bytes, three at a time. -/
def encode : List UInt8 → List UInt8
  | b0 :: b1 :: b2 :: bs =>
    [digit (b0.toNat >>> 2), digit (((0x3 &&& b0.toNat) <<< 4) + (b1.toNat >>> 4)),
      digit (((0x0f &&& b1.toNat) <<< 2) + (b2.toNat >>> 6)), digit (0x3f &&& b2.toNat)] ++
        encode bs
  | [b0, b1] =>
    [digit (b0.toNat >>> 2), digit (((0x3 &&& b0.toNat) <<< 4) + (b1.toNat >>> 4)),
      digit ((0x0f &&& b1.toNat) <<< 2), equals]
  | [b0] => [digit (b0.toNat >>> 2), digit ((0x3 &&& b0.toNat) <<< 4), equals, equals]
  | [] => []

/-- The characters that complete the last group. -/
def padding (n : ℕ) : ℕ := (3 - n % 3) % 3

theorem pad_eq (n : ℕ) :
    ((n % 3 &&& 1) <<< 1) + ((n % 3 &&& 2) >>> 1) = padding n := by
  have h : n % 3 = 0 ∨ n % 3 = 1 ∨ n % 3 = 2 := by omega
  rw [padding]
  rcases h with h | h | h <;> rw [h] <;> decide

theorem length_encode (bin : List UInt8) :
    (encode bin).length = 4 * (bin.length + padding bin.length) / 3 := by
  induction bin using encode.induct with
  | case1 b0 b1 b2 bs ih =>
    simp only [encode, List.length_append, List.length_cons, List.length_nil, ih, padding]
    omega
  | case2 => simp [encode, padding]
  | case3 => simp [encode, padding]
  | case4 => rfl

theorem binAt_append (p bs : List UInt8) (i : ℕ) : binAt (p ++ bs) (p.length + i) = binAt bs i := by
  rw [binAt, List.getD_append_right _ _ _ _ (Nat.le_add_right _ _), Nat.add_sub_cancel_left, binAt]

/-- The loop encodes the groups of three bytes, and the end of `base64` what is left, of the part
`bs` of a buffer. -/
theorem base64_append (bs p q res : List UInt8) :
    let r := base64Loop (p ++ (bs ++ q)) (p ++ bs).length p.length res
    (if padding bs.length = 2 then
        r.2 ++ [digit (binAt (p ++ (bs ++ q)) r.1 >>> 2),
          digit ((0x3 &&& binAt (p ++ (bs ++ q)) r.1) <<< 4), equals, equals]
      else if padding bs.length = 1 then
        r.2 ++ [digit (binAt (p ++ (bs ++ q)) r.1 >>> 2),
          digit (((0x3 &&& binAt (p ++ (bs ++ q)) r.1) <<< 4) +
            (binAt (p ++ (bs ++ q)) (r.1 + 1) >>> 4)),
          digit ((0x0f &&& binAt (p ++ (bs ++ q)) (r.1 + 1)) <<< 2), equals]
      else r.2) = res ++ encode bs := by
  induction bs using encode.induct generalizing p res with
  | case1 b0 b1 b2 bs ih =>
    have h0 : binAt (p ++ (b0 :: b1 :: b2 :: bs ++ q)) p.length = b0.toNat := binAt_append p _ 0
    have h1 : binAt (p ++ (b0 :: b1 :: b2 :: bs ++ q)) (p.length + 1) = b1.toNat :=
      binAt_append p _ 1
    have h2 : binAt (p ++ (b0 :: b1 :: b2 :: bs ++ q)) (p.length + 2) = b2.toNat :=
      binAt_append p _ 2
    have hp : padding (b0 :: b1 :: b2 :: bs).length = padding bs.length := by
      simp only [List.length_cons, padding]
      omega
    have h := ih (p ++ [b0, b1, b2]) (res ++
      [digit (b0.toNat >>> 2), digit (((0x3 &&& b0.toNat) <<< 4) + (b1.toNat >>> 4)),
        digit (((0x0f &&& b1.toNat) <<< 2) + (b2.toNat >>> 6)), digit (0x3f &&& b2.toNat)])
    rw [show p ++ [b0, b1, b2] ++ bs = p ++ b0 :: b1 :: b2 :: bs by simp,
      show p ++ [b0, b1, b2] ++ (bs ++ q) = p ++ (b0 :: b1 :: b2 :: bs ++ q) by simp,
      show (p ++ [b0, b1, b2]).length = p.length + 3 by simp] at h
    rw [base64Loop, if_pos (by simp), hp, h0, h1, h2, encode, ← List.append_assoc res]
    exact h
  | case2 b0 b1 =>
    have h0 : binAt (p ++ ([b0, b1] ++ q)) p.length = b0.toNat := binAt_append p _ 0
    have h1 : binAt (p ++ ([b0, b1] ++ q)) (p.length + 1) = b1.toNat := binAt_append p _ 1
    rw [base64Loop, if_neg (by simp)]
    simp only [h0, h1]
    rfl
  | case3 b0 =>
    have h0 : binAt (p ++ ([b0] ++ q)) p.length = b0.toNat := binAt_append p _ 0
    rw [base64Loop, if_neg (by simp)]
    simp only [h0]
    rfl
  | case4 =>
    rw [base64Loop, if_neg (by simp)]
    simp [padding, encode]

/-- `base64` gives the text of the bytes, and as many characters as it allocates for. -/
theorem base64_eq (bin q : List UInt8) :
    base64 (bin ++ q) bin.length = (encode bin, (encode bin).length) := by
  have h := base64_append bin [] q []
  simp only [List.nil_append, List.length_nil] at h
  rw [base64, pad_eq, length_encode]
  simp only
  split_ifs with h2 h1
  · rw [if_pos h2] at h
    rw [h]
  · rw [if_neg h2, if_pos h1] at h
    rw [h]
  · rw [if_neg h2, if_neg h1] at h
    rw [h]

/-- Each digit reads back as its own value, and none is `'='`. -/
theorem undigit_digit : ∀ i < 64, undigit (digit i) = i ∧ digit i ≠ equals := by decide +kernel

theorem digit_ne_zero : ∀ i < 64, digit i ≠ 0 := by decide +kernel

theorem low_two (n : ℕ) : 0x3 &&& n = n % 4 := by
  rw [Nat.and_comm]
  exact Nat.and_two_pow_sub_one_eq_mod n 2

theorem low_four (n : ℕ) : 0x0f &&& n = n % 16 := by
  rw [Nat.and_comm]
  exact Nat.and_two_pow_sub_one_eq_mod n 4

theorem low_six (n : ℕ) : 0x3f &&& n = n % 64 := by
  rw [Nat.and_comm]
  exact Nat.and_two_pow_sub_one_eq_mod n 6

/-- The bits of two parts of a byte do not meet. -/
theorem shift_or {k n m : ℕ} (hm : m < 2 ^ k) : n <<< k ||| m = n * 2 ^ k + m := by
  rw [Nat.shiftLeft_eq, Nat.mul_comm, Nat.two_pow_add_eq_or_of_lt hm]

/-- The four digits of three bytes, by division. -/
theorem digits_eq (b0 b1 b2 : ℕ) :
    b0 >>> 2 = b0 / 4 ∧ ((0x3 &&& b0) <<< 4) + (b1 >>> 4) = b0 % 4 * 16 + b1 / 16 ∧
    ((0x0f &&& b1) <<< 2) + (b2 >>> 6) = b1 % 16 * 4 + b2 / 64 ∧ 0x3f &&& b2 = b2 % 64 := by
  simp only [low_two, low_four, low_six, Nat.shiftRight_eq_div_pow, Nat.shiftLeft_eq, Nat.reducePow,
    and_self]

/-- Three bytes come back from their digits. -/
theorem undigits_eq (b0 b1 b2 : UInt8) :
    UInt8.ofNat ((b0.toNat / 4) <<< 2 ||| (b0.toNat % 4 * 16 + b1.toNat / 16) >>> 4) = b0 ∧
    UInt8.ofNat ((b0.toNat % 4 * 16 + b1.toNat / 16) <<< 4 |||
      (b1.toNat % 16 * 4 + b2.toNat / 64) >>> 2) = b1 ∧
    UInt8.ofNat ((b1.toNat % 16 * 4 + b2.toNat / 64) <<< 6 ||| b2.toNat % 64) = b2 := by
  have h0 := b0.toNat_lt
  have h1 := b1.toNat_lt
  have h2 := b2.toNat_lt
  simp only [Nat.shiftRight_eq_div_pow]
  rw [shift_or (k := 2) (by omega), shift_or (k := 4) (by omega), shift_or (k := 6) (by omega)]
  refine ⟨?_, ?_, ?_⟩ <;> rw [← UInt8.toNat_inj, UInt8.toNat_ofNat'] <;> omega

/-- A text is a C string. -/
theorem zero_notMem_encode (bin : List UInt8) : (0 : UInt8) ∉ encode bin := by
  have hdigit (i : ℕ) (hi : i < 64) : (0 : UInt8) ≠ digit i := (digit_ne_zero i hi).symm
  have hequals : (0 : UInt8) ≠ equals := by decide
  induction bin using encode.induct with
  | case1 b0 b1 b2 bs ih =>
    obtain ⟨d0, d1, d2, d3⟩ := digits_eq b0.toNat b1.toNat b2.toNat
    have hb0 := b0.toNat_lt
    have hb1 := b1.toNat_lt
    have hb2 := b2.toNat_lt
    rw [encode, d0, d1, d2, d3]
    simp only [List.mem_append, List.mem_cons, List.not_mem_nil, or_false, not_or]
    exact ⟨⟨hdigit _ (by omega), hdigit _ (by omega), hdigit _ (by omega), hdigit _ (by omega)⟩, ih⟩
  | case2 b0 b1 =>
    obtain ⟨d0, d1, -, -⟩ := digits_eq b0.toNat b1.toNat 0
    have hb0 := b0.toNat_lt
    have hb1 := b1.toNat_lt
    rw [encode, d0, d1, low_four, Nat.shiftLeft_eq]
    simp only [List.mem_cons, List.not_mem_nil, or_false, not_or]
    exact ⟨hdigit _ (by omega), hdigit _ (by omega), hdigit _ (by omega), hequals⟩
  | case3 b0 =>
    have hb0 := b0.toNat_lt
    rw [encode, low_two, Nat.shiftRight_eq_div_pow, Nat.shiftLeft_eq]
    simp only [List.mem_cons, List.not_mem_nil, or_false, not_or]
    exact ⟨hdigit _ (by omega), hdigit _ (by omega), hequals, hequals⟩
  | case4 => simp [encode]

theorem undigitAt_append (p t : List UInt8) (i : ℕ) :
    undigitAt (p ++ t) (p.length + i) = undigitAt t i := by
  rw [undigitAt, List.getD_append_right _ _ _ _ (Nat.le_add_right _ _), Nat.add_sub_cancel_left,
    undigitAt]

/-- The loop decodes the groups of four characters, and the end of `unbase64Bytes` what is left. -/
theorem unbase64_append (bs p acc : List UInt8) :
    let r := unbase64Loop (p ++ encode bs) (p ++ encode bs).length (padding bs.length) p.length acc
    (if padding bs.length = 1 then
        r.2 ++ [.ofNat (undigitAt (p ++ encode bs) r.1 <<< 2 |||
            undigitAt (p ++ encode bs) (r.1 + 1) >>> 4),
          .ofNat (undigitAt (p ++ encode bs) (r.1 + 1) <<< 4 |||
            undigitAt (p ++ encode bs) (r.1 + 2) >>> 2)]
      else if padding bs.length = 2 then
        r.2 ++ [.ofNat (undigitAt (p ++ encode bs) r.1 <<< 2 |||
          undigitAt (p ++ encode bs) (r.1 + 1) >>> 4)]
      else r.2) = acc ++ bs := by
  induction bs using encode.induct generalizing p acc with
  | case1 b0 b1 b2 bs ih =>
    obtain ⟨d0, d1, d2, d3⟩ := digits_eq b0.toNat b1.toNat b2.toNat
    obtain ⟨u0, u1, u2⟩ := undigits_eq b0 b1 b2
    have hb0 := b0.toNat_lt
    have hb1 := b1.toNat_lt
    have hb2 := b2.toNat_lt
    set quad := [digit (b0.toNat / 4), digit (b0.toNat % 4 * 16 + b1.toNat / 16),
      digit (b1.toNat % 16 * 4 + b2.toNat / 64), digit (b2.toNat % 64)] with hquad
    have ht : encode (b0 :: b1 :: b2 :: bs) = quad ++ encode bs := by rw [encode, d0, d1, d2, d3]
    have h0 : undigitAt (p ++ (quad ++ encode bs)) p.length = b0.toNat / 4 :=
      (undigitAt_append p _ 0).trans (undigit_digit _ (by omega)).1
    have h1 : undigitAt (p ++ (quad ++ encode bs)) (p.length + 1) =
        b0.toNat % 4 * 16 + b1.toNat / 16 :=
      (undigitAt_append p _ 1).trans (undigit_digit _ (by omega)).1
    have h2 : undigitAt (p ++ (quad ++ encode bs)) (p.length + 2) =
        b1.toNat % 16 * 4 + b2.toNat / 64 :=
      (undigitAt_append p _ 2).trans (undigit_digit _ (by omega)).1
    have h3 : undigitAt (p ++ (quad ++ encode bs)) (p.length + 3) = b2.toNat % 64 :=
      (undigitAt_append p _ 3).trans (undigit_digit _ (by omega)).1
    have hp : padding (b0 :: b1 :: b2 :: bs).length = padding bs.length := by
      simp only [List.length_cons, padding]
      omega
    -- a text that is not complete has one more group
    have hlen : p.length + 4 + padding bs.length ≤ (p ++ (quad ++ encode bs)).length := by
      rw [List.length_append, List.length_append, length_encode, hquad, padding]
      simp only [List.length_cons, List.length_nil]
      omega
    have h := ih (p ++ quad) (acc ++ [b0, b1, b2])
    rw [List.append_assoc p, show (p ++ quad).length = p.length + 4 by simp [hquad]] at h
    rw [ht, hp, unbase64Loop, if_pos hlen, h0, h1, h2, h3]
    simp only [u0, u1, u2]
    rw [show acc ++ b0 :: b1 :: b2 :: bs = acc ++ [b0, b1, b2] ++ bs by simp]
    exact h
  | case2 b0 b1 =>
    obtain ⟨d0, d1, d2, -⟩ := digits_eq b0.toNat b1.toNat (0 : UInt8).toNat
    obtain ⟨u0, u1, -⟩ := undigits_eq b0 b1 0
    have hb0 := b0.toNat_lt
    have hb1 := b1.toNat_lt
    have ht : encode [b0, b1] = [digit (b0.toNat / 4), digit (b0.toNat % 4 * 16 + b1.toNat / 16),
        digit (b1.toNat % 16 * 4 + (0 : UInt8).toNat / 64), equals] := by
      rw [encode, d0, d1, ← d2]
      rfl
    have h0 : undigitAt (p ++ encode [b0, b1]) p.length = b0.toNat / 4 := by
      rw [ht]
      exact (undigitAt_append p _ 0).trans (undigit_digit _ (by omega)).1
    have h1 : undigitAt (p ++ encode [b0, b1]) (p.length + 1) = b0.toNat % 4 * 16 + b1.toNat /
      16 := by
      rw [ht]
      exact (undigitAt_append p _ 1).trans (undigit_digit _ (by omega)).1
    have h2 : undigitAt (p ++ encode [b0, b1]) (p.length + 2) =
        b1.toNat % 16 * 4 + (0 : UInt8).toNat / 64 := by
      rw [ht]
      exact (undigitAt_append p _ 2).trans (undigit_digit _ (by simp; omega)).1
    rw [unbase64Loop, if_neg (by simp [encode, padding])]
    simp only [h0, h1, h2, u0, u1]
    rfl
  | case3 b0 =>
    obtain ⟨d0, d1, -, -⟩ := digits_eq b0.toNat (0 : UInt8).toNat (0 : UInt8).toNat
    obtain ⟨u0, -, -⟩ := undigits_eq b0 0 0
    have hb0 := b0.toNat_lt
    have ht : encode [b0] = [digit (b0.toNat / 4),
        digit (b0.toNat % 4 * 16 + (0 : UInt8).toNat / 16), equals, equals] := by
      rw [encode, d0, ← d1]
      rfl
    have h0 : undigitAt (p ++ encode [b0]) p.length = b0.toNat / 4 := by
      rw [ht]
      exact (undigitAt_append p _ 0).trans (undigit_digit _ (by omega)).1
    have h1 : undigitAt (p ++ encode [b0]) (p.length + 1) =
        b0.toNat % 4 * 16 + (0 : UInt8).toNat / 16 := by
      rw [ht]
      exact (undigitAt_append p _ 1).trans (undigit_digit _ (by simp; omega)).1
    rw [unbase64Loop, if_neg (by simp [encode, padding])]
    simp only [h0, h1, u0]
    rfl
  | case4 =>
    rw [unbase64Loop, if_neg (by simp [encode, padding])]
    simp [padding]

/-- The last two characters of a text that is long enough. -/
theorem padOf_append (p : List UInt8) {t : List UInt8} (ht : 2 ≤ t.length) :
    padOf (p ++ t) (p ++ t).length = padOf t t.length := by
  have h1 : (p ++ t).length - 1 = p.length + (t.length - 1) := by
    rw [List.length_append]
    omega
  have h2 : (p ++ t).length - 2 = p.length + (t.length - 2) := by
    rw [List.length_append]
    omega
  rw [padOf, h1, h2, List.getD_append_right _ _ _ _ (Nat.le_add_right _ _),
    List.getD_append_right _ _ _ _ (Nat.le_add_right _ _), Nat.add_sub_cancel_left,
    Nat.add_sub_cancel_left, padOf]

theorem four_le_length_encode (bin : List UInt8) (h : bin ≠ []) : 4 ≤ (encode bin).length := by
  have := List.length_pos_iff.2 h
  rw [length_encode, padding]
  omega

theorem padOf_encode {bin : List UInt8} (h : bin ≠ []) :
    padOf (encode bin) (encode bin).length = padding bin.length := by
  induction bin using encode.induct with
  | case1 b0 b1 b2 bs ih =>
    have hp : padding (b0 :: b1 :: b2 :: bs).length = padding bs.length := by
      simp only [List.length_cons, padding]
      omega
    rcases bs with _ | ⟨b, bs⟩
    · obtain ⟨-, -, d2, d3⟩ := digits_eq b0.toNat b1.toNat b2.toNat
      have hb1 := b1.toNat_lt
      have hb2 := b2.toNat_lt
      have h2 := (undigit_digit (b1.toNat % 16 * 4 + b2.toNat / 64) (by omega)).2
      have h3 := (undigit_digit (b2.toNat % 64) (by omega)).2
      rw [encode, d2, d3]
      simp [padOf, encode, padding, h2, h3]
    · rw [hp, encode, padOf_append _ (by have := four_le_length_encode (b :: bs) (by simp); omega)]
      exact ih (by simp)
  | case2 b0 b1 =>
    have hb1 := b1.toNat_lt
    have h2 := (undigit_digit (b1.toNat % 16 * 4) (by omega)).2
    have hd : ((0x0f &&& b1.toNat) <<< 2) = b1.toNat % 16 * 4 := by
      rw [low_four, Nat.shiftLeft_eq]
    rw [encode, hd]
    simp [padOf, padding, h2]
  | case3 b0 => simp [padOf, encode, padding]
  | case4 => exact absurd rfl h

theorem unbase64_encode {bin : List UInt8} (h : bin ≠ []) :
    unbase64 (encode bin) (encode bin).length = (some bin, (bin.length : ℤ)) := by
  have hlen := four_le_length_encode _ h
  have hpos := List.length_pos_iff.2 h
  have hsize : ((3 * (encode bin).length / 4 : ℕ) : ℤ) - (padding bin.length : ℕ) = bin.length := by
    rw [length_encode, padding]
    omega
  have hbytes : unbase64Bytes (encode bin) (encode bin).length (padding bin.length) = bin := by
    rw [unbase64Bytes]
    exact unbase64_append bin [] []
  rw [unbase64, if_neg (by omega)]
  simp only [padOf_encode h, hsize, hbytes]
  rw [if_neg (by omega)]

/-- **Decoding undoes encoding**, for every string of at least one byte with a text whose size is
computed without overflow, and the text fills the buffer that was allocated for it up to the final
zero. -/
theorem base64_round_trip (bin : List UInt8) (h : bin ≠ [])
    (hlen : bin.length + padding bin.length < 2 ^ 29) :
    let text := (base64 bin bin.length).1
    let flen := (base64 bin bin.length).2
    (base64Size bin.length (padding bin.length)).toInt = flen ∧ text.length = flen ∧
    (unbase64Size flen (padOf text flen)).toInt = bin.length ∧
    unbase64 text flen = (some bin, (bin.length : ℤ)) := by
  have heq := base64_eq bin []
  rw [List.append_nil] at heq
  rw [heq]
  have hpad := padOf_encode h
  have hle := padOf_le (encode bin) (encode bin).length
  refine ⟨by rw [base64Size_eq hlen, length_encode], rfl, ?_, unbase64_encode h⟩
  rw [unbase64Size_eq (by rw [length_encode]; omega) hle, hpad, length_encode, padding]
  omega

theorem base64_round_trip_four :
    unbase64 (base64 [1, 2, 3, 4] 4).1 (base64 [1, 2, 3, 4] 4).2 = (some [1, 2, 3, 4], 4) :=
  (base64_round_trip [1, 2, 3, 4] (by decide) (by decide)).2.2.2

end AlphaMon
