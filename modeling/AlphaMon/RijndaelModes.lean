import Mathlib.Data.List.GetD
import Mathlib.Tactic.IntervalCases
import AlphaMon.RijndaelKeys

/-!
# Modes of the cipher

`blockEncrypt` and `blockDecrypt` over buffers of any number of blocks.  `ECB`, the mode the program
uses, takes one block at a time and leaves the rest of the buffer alone (`ecbLoop_spec`), so
decrypting gives the blocks back (`ecb_round_trip`).

`CBC` is not what its name says.  `input32` is not moved together with `input`: the encryption uses
the first block twice and never the last one (`cbc_encrypts_shifted`), and the decryption moves it
four blocks at a time, out of the text (`cbc_decrypts_iff`).
-/

set_option autoImplicit false

namespace AlphaMon

open Aes (Word)

namespace Rijndael

/-! ## Blocks in a buffer -/

theorem length_blockBytes (b : Aes.State) : (blockBytes b).length = 16 := rfl

theorem readBlock_blockBytes (b : Aes.State) : readBlock (blockBytes b) 0 = b := rfl

theorem length_writeBlock {m : List UInt8} {at' : ℕ} (h : at' + 16 ≤ m.length) (b : Aes.State) :
    (writeBlock m at' b).length = m.length := by
  simp only [writeBlock, List.length_append, List.length_take, List.length_drop, length_blockBytes]
  omega

theorem getD_writeBlock {m : List UInt8} {at' : ℕ} (h : at' + 16 ≤ m.length) (b : Aes.State)
    (i : ℕ) :
    (writeBlock m at' b).getD i 0 =
      if at' ≤ i ∧ i < at' + 16 then (blockBytes b).getD (i - at') 0 else m.getD i 0 := by
  have hb := length_blockBytes b
  have ht : (m.take at').length = at' := by rw [List.length_take]; omega
  rw [writeBlock, List.append_assoc]
  rcases Nat.lt_or_ge i at' with hi | hi
  · rw [List.getD_append _ _ _ _ (by omega), if_neg (by omega), List.getD_eq_getElem?_getD,
      List.getElem?_take_of_lt hi, List.getD_eq_getElem?_getD]
  · rw [List.getD_append_right _ _ _ _ (by omega), ht]
    rcases Nat.lt_or_ge i (at' + 16) with hi' | hi'
    · rw [List.getD_append _ _ _ _ (by omega), if_pos ⟨hi, hi'⟩]
    · rw [List.getD_append_right _ _ _ _ (by omega), hb, if_neg (by omega),
        List.getD_eq_getElem?_getD, List.getElem?_drop, List.getD_eq_getElem?_getD]
      congr 2
      omega

/-- A block is its bytes. -/
theorem readBlock_congr {m m' : List UInt8} {p q : ℕ}
    (h : ∀ i < 16, m.getD (p + i) 0 = m'.getD (q + i) 0) : readBlock m p = readBlock m' q := by
  simp only [readBlock, readWord, Nat.add_assoc, Nat.reduceAdd]
  congr 2 <;> first | exact h _ (by decide) | exact h 0 (by decide)

theorem readBlock_writeBlock {m : List UInt8} {at' : ℕ} (h : at' + 16 ≤ m.length) (b : Aes.State) :
    readBlock (writeBlock m at' b) at' = b := by
  rw [← readBlock_blockBytes b]
  refine readBlock_congr fun i hi ↦ ?_
  rw [readBlock_blockBytes, getD_writeBlock h, if_pos (by omega), Nat.add_sub_cancel_left,
    Nat.zero_add]

theorem getD_eq_of_readBlock {m m' : List UInt8} {at' i : ℕ}
    (h : readBlock m at' = readBlock m' at') (h1 : at' ≤ i) (h2 : i < at' + 16) :
    m.getD i 0 = m'.getD i 0 := by
  obtain ⟨k, rfl⟩ := Nat.exists_eq_add_of_le h1
  have hk : k < 16 := by omega
  simp only [readBlock, readWord, Aes.State.mk.injEq, Word.mk.injEq, Nat.add_assoc,
    Nat.reduceAdd] at h
  obtain ⟨⟨h0, h1, h2, h3⟩, ⟨h4, h5, h6, h7⟩, ⟨h8, h9, h10, h11⟩, h12, h13, h14, h15⟩ := h
  interval_cases k <;> assumption

/-! ## ECB -/

/-- One pass writes its blocks, one for each block of the input, and nothing else. -/
theorem ecbLoop_spec (f : Aes.State → Aes.State) (input : List UInt8) (n at' : ℕ) (out : List UInt8)
    (h : at' + 16 * n ≤ out.length) :
    (ecbLoop f input n at' out).length = out.length ∧
    (∀ j < n, readBlock (ecbLoop f input n at' out) (at' + 16 * j) =
      f (readBlock input (at' + 16 * j))) ∧
    ∀ i, i < at' ∨ at' + 16 * n ≤ i → (ecbLoop f input n at' out).getD i 0 = out.getD i 0 := by
  induction n generalizing at' out with
  | zero => exact ⟨rfl, fun j hj ↦ absurd hj (Nat.not_lt_zero j), fun _ _ ↦ rfl⟩
  | succ n ih =>
    have hw : at' + 16 ≤ out.length := by omega
    have hlen := length_writeBlock hw (f (readBlock input at'))
    obtain ⟨hl, hblock, hout⟩ := ih (at' + 16) (writeBlock out at' (f (readBlock input at')))
      (by omega)
    rw [ecbLoop]
    refine ⟨hl.trans hlen, fun j hj ↦ ?_, fun i hi ↦ ?_⟩
    · rcases j with _ | j
      · -- the first block is behind the rest of the pass
        have hfirst := readBlock_congr (p := at') (q := at') fun i hi ↦ hout (at' + i) (by omega)
        rw [Nat.mul_zero, Nat.add_zero at', hfirst, readBlock_writeBlock hw]
      · have := hblock j (by omega)
        rwa [show at' + 16 + 16 * j = at' + 16 * (j + 1) by omega] at this
    · rw [hout i (by omega), getD_writeBlock hw, if_neg (by omega)]

theorem writeBlock_append {m : List UInt8} {at' : ℕ} (h : at' + 16 ≤ m.length) (b : Aes.State)
    (q : List UInt8) : writeBlock (m ++ q) at' b = writeBlock m at' b ++ q := by
  rw [writeBlock, List.take_append_of_le_length (by omega), List.drop_append_of_le_length h,
    ← List.append_assoc, writeBlock]

/-- A pass does not read or move what lies behind its blocks in the output. -/
theorem ecbLoop_append (f : Aes.State → Aes.State) (input q : List UInt8) (n : ℕ) {at' : ℕ}
    {out : List UInt8} (h : at' + 16 * n ≤ out.length) :
    ecbLoop f input n at' (out ++ q) = ecbLoop f input n at' out ++ q := by
  induction n generalizing at' out with
  | zero => rfl
  | succ n ih =>
    have hw : at' + 16 ≤ out.length := by omega
    rw [ecbLoop, writeBlock_append hw, ih (by rw [length_writeBlock hw]; omega), ecbLoop]

/-- A pass reads the blocks of its input and nothing else. -/
theorem ecbLoop_congr (f : Aes.State → Aes.State) {input input' : List UInt8} (n : ℕ) {at' : ℕ}
    (out : List UInt8) (h : ∀ i < at' + 16 * n, input.getD i 0 = input'.getD i 0) :
    ecbLoop f input n at' out = ecbLoop f input' n at' out := by
  induction n generalizing at' out with
  | zero => rfl
  | succ n ih =>
    rw [ecbLoop, readBlock_congr fun i hi ↦ h (at' + i) (by omega), ih _ fun i hi ↦ h i (by omega),
      ecbLoop]

/-- What `blockEncrypt` does in `ECB` mode. -/
theorem blockEncrypt_ecb {self : Rijndael} {nk : ℕ} {key : ℕ → Word}
    (h : Ready self .encrypt nk key) (hm : self.mMode = .ecb) (input out : List UInt8) (len : ℕ) :
    blockEncrypt self input len out =
      (128 * ((len / 128 : ℕ) : ℤ), ecbLoop (Aes.cipher sbox nk key) input (len / 128) 0 out) := by
  rw [blockEncrypt, if_neg (not_not.2 h.state), if_neg (not_not.2 h.direction), hm,
    Int.toNat_natCast]
  split_ifs with h0
  · obtain rfl : len = 0 := by omega
    rfl
  · rw [show rEncrypt self = Aes.cipher sbox nk key from funext h.rEncrypt_eq]

theorem blockDecrypt_ecb {self : Rijndael} {nk : ℕ} {key : ℕ → Word}
    (h : Ready self .decrypt nk key) (hm : self.mMode = .ecb) (input out : List UInt8) (len : ℕ) :
    blockDecrypt self input len out =
      some (128 * ((len / 128 : ℕ) : ℤ), ecbLoop (Aes.invCipher sbox nk key) input
        (len / 128) 0 out) := by
  rw [blockDecrypt, if_neg (not_not.2 h.state), if_neg (by rw [h.direction]; simp), hm,
    Int.toNat_natCast]
  split_ifs with h0
  · obtain rfl : len = 0 := by omega
    rfl
  · rw [show rDecrypt self = Aes.invCipher sbox nk key from funext h.rDecrypt_eq]
    rfl

/-- One pass undoes another, read from any buffer that holds its blocks. -/
theorem ecbLoop_inverse {f g : Aes.State → Aes.State} (hgf : ∀ a, g (f a) = a) (input : List UInt8)
    {out m out' : List UInt8} {n : ℕ} (hout : 16 * n ≤ out.length)
    (hout' : 16 * n ≤ out'.length)
    (hm : ∀ i < 16 * n, m.getD i 0 = (ecbLoop f input n 0 out).getD i 0) :
    (ecbLoop g m n 0 out').length = out'.length ∧
    (∀ i < 16 * n, (ecbLoop g m n 0 out').getD i 0 = input.getD i 0) ∧
    ∀ i, 16 * n ≤ i → (ecbLoop g m n 0 out').getD i 0 = out'.getD i 0 := by
  obtain ⟨-, henc, -⟩ := ecbLoop_spec f input n 0 out (by omega)
  obtain ⟨hl, hdec, hrest⟩ := ecbLoop_spec g m n 0 out' (by omega)
  refine ⟨hl, fun i hi ↦ ?_, fun i hi ↦ hrest i (by omega)⟩
  have hj : i / 16 < n := by omega
  have hblock : readBlock (ecbLoop g m n 0 out') (0 + 16 * (i / 16)) =
      readBlock input (0 + 16 * (i / 16)) := by
    rw [hdec _ hj, readBlock_congr fun k hk ↦ hm (0 + 16 * (i / 16) + k) (by omega), henc _ hj, hgf]
  exact getD_eq_of_readBlock hblock (by omega) (by omega)

theorem eq_of_getD {l l' : List UInt8} (hl : l.length = l'.length)
    (h : ∀ i < l.length, l.getD i 0 = l'.getD i 0) : l = l' :=
  List.ext_getElem hl fun i h1 h2 ↦ by
    rw [← List.getD_eq_getElem _ 0 h1, h i h1, List.getD_eq_getElem _ 0 h2]

/-- **Decrypting gives the blocks back.**  Both calls return the length of the whole blocks of the
length they are given, in bits, and write nothing else of their output buffers. -/
theorem ecb_round_trip (self self' : Rijndael) (htables : self.tables = .op)
    (htables' : self'.tables = .op) (key : List UInt8) (keyLen : KeyLength)
    (input out out' : List UInt8) (len : ℕ) (hinput : len ≤ 8 * input.length)
    (hout : len ≤ 8 * out.length) (hout' : len ≤ 8 * out'.length) :
    let enc := (rijndaelInit self .ecb .encrypt (some key) keyLen none).2
    let dec := (rijndaelInit self' .ecb .decrypt (some key) keyLen none).2
    let cipher := blockEncrypt enc input len out
    let bytes := 16 * (len / 128)
    cipher.1 = ((8 * bytes : ℕ) : ℤ) ∧ cipher.2.length = out.length ∧
      cipher.2.drop bytes = out.drop bytes ∧
    blockDecrypt dec cipher.2 len out' =
      some (((8 * bytes : ℕ) : ℤ), input.take bytes ++ out'.drop bytes) := by
  intro enc dec cipher bytes
  have henc := rijndaelInit_ready htables .ecb .encrypt key keyLen none
  have hdec := rijndaelInit_ready htables' .ecb .decrypt key keyLen none
  have hc : cipher = (128 * ((len / 128 : ℕ) : ℤ),
      ecbLoop (Aes.cipher sbox keyLen.columns (keyColumns key)) input (len / 128) 0 out) :=
    blockEncrypt_ecb henc rfl input out len
  have hbits : 128 * ((len / 128 : ℕ) : ℤ) = ((8 * bytes : ℕ) : ℤ) := by
    simp only [bytes]
    omega
  obtain ⟨hl, -, hframe⟩ := ecbLoop_spec (Aes.cipher sbox keyLen.columns (keyColumns key)) input
    (len / 128) 0 out (by omega)
  obtain ⟨hl', hplain, hframe'⟩ := ecbLoop_inverse (m := cipher.2) (n := len / 128)
    (Aes.invCipher_cipher sbox keyLen.columns (keyColumns key)) input
    (show 16 * (len / 128) ≤ out.length by omega) (show 16 * (len / 128) ≤ out'.length by omega)
    fun i _ ↦ by rw [hc]
  have hdrop : cipher.2.drop bytes = out.drop bytes := by
    rw [hc]
    refine eq_of_getD (by rw [List.length_drop, List.length_drop, hl]) fun i _ ↦ ?_
    rw [List.getD_eq_getElem?_getD, List.getElem?_drop, ← List.getD_eq_getElem?_getD,
      hframe _ (Or.inr (by omega)), List.getD_eq_getElem?_getD, List.getD_eq_getElem?_getD,
        List.getElem?_drop]
  have hback : ecbLoop (Aes.invCipher sbox keyLen.columns (keyColumns key)) cipher.2
    (len / 128) 0 out' =
      input.take bytes ++ out'.drop bytes := by
    have htake : (input.take bytes).length = bytes := by
      rw [List.length_take]
      omega
    refine eq_of_getD ?_ fun i _ ↦ ?_
    · rw [hl', List.length_append, htake, List.length_drop]
      omega
    · rcases Nat.lt_or_ge i bytes with hi | hi
      · rw [hplain i hi, List.getD_append _ _ _ _ (by omega), List.getD_eq_getElem?_getD,
          List.getD_eq_getElem?_getD, List.getElem?_take_of_lt hi]
      · rw [hframe' i hi, List.getD_append_right _ _ _ _ (by omega), htake,
          List.getD_eq_getElem?_getD,
          List.getD_eq_getElem?_getD, List.getElem?_drop, Nat.add_sub_cancel' hi]
  refine ⟨by rw [hc, hbits], by rw [hc, hl], hdrop, ?_⟩
  rw [blockDecrypt_ecb hdec rfl, hback, hbits]

/-- One block and three more bytes. -/
theorem ecb_round_trip_block :
    let key : List UInt8 := List.replicate 24 7
    let input : List UInt8 := List.range' 1 19 |>.map UInt8.ofNat
    let enc := (rijndaelInit (initRijndaelOP zero) .ecb .encrypt (some key) .key24Bytes none).2
    let dec := (rijndaelInit (initRijndaelOP zero) .ecb .decrypt (some key) .key24Bytes none).2
    let cipher := blockEncrypt enc input ((152 : ℕ) : ℤ) (List.replicate 19 0)
    cipher.1 = 128 ∧ blockDecrypt dec cipher.2 ((152 : ℕ) : ℤ) (List.replicate 19 0) =
      some (128, (List.range' 1 16 |>.map UInt8.ofNat) ++ [0, 0, 0]) := by
  obtain ⟨hlen, -, -, hplain⟩ := ecb_round_trip (initRijndaelOP zero) (initRijndaelOP zero)
    rfl rfl (List.replicate 24 7) .key24Bytes (List.range' 1 19 |>.map UInt8.ofNat)
      (List.replicate 19 0)
    (List.replicate 19 0) 152 (by decide) (by decide) (by decide)
  exact ⟨hlen, hplain⟩

/-! ## CBC -/

/-- The first `n` blocks from an offset on. -/
def blocksFrom (m : List UInt8) (at' n : ℕ) : List Aes.State :=
  (List.range n).map fun j ↦ readBlock m (at' + 16 * j)

@[simp] theorem blocksFrom_zero (m : List UInt8) (at' : ℕ) : blocksFrom m at' 0 = [] := rfl

theorem blocksFrom_succ (m : List UInt8) (at' n : ℕ) :
    blocksFrom m at' (n + 1) = readBlock m at' :: blocksFrom m (at' + 16) n := by
  rw [blocksFrom, List.range_succ_eq_map, List.map_cons, List.map_map]
  congr 1
  refine List.map_congr_left fun j _ ↦ ?_
  rw [Function.comp_apply, show at' + 16 * (j + 1) = at' + 16 + 16 * j by omega]

/-- The loop of the encryption chains the blocks from `input32` on, behind the block at
`outBuffer`. -/
theorem cbcEncryptLoop_spec (self : Rijndael) (input : List UInt8) (n input32 at' : ℕ)
    (out : List UInt8) (h : at' + 16 * (n + 1) ≤ out.length) :
    (∀ i, i < at' + 16 → (cbcEncryptLoop self input n input32 at' out).getD i 0 = out.getD i 0) ∧
    blocksFrom (cbcEncryptLoop self input n input32 at' out) (at' + 16) n =
      Cipher.chain (· ^^^ ·) (rEncrypt self) (readBlock out at') (blocksFrom input input32 n) := by
  induction n generalizing input32 at' out with
  | zero => exact ⟨fun _ _ ↦ rfl, rfl⟩
  | succ n ih =>
    have hw : at' + 16 + 16 ≤ out.length := by omega
    set c := rEncrypt self (readBlock out at' ^^^ readBlock input input32) with hc
    have hlen := length_writeBlock hw c
    obtain ⟨hout, hblocks⟩ := ih (input32 + 16) (at' + 16) (writeBlock out (at' + 16) c) (by omega)
    rw [cbcEncryptLoop, ← hc]
    refine ⟨fun i hi ↦ ?_, ?_⟩
    · rw [hout i (by omega), getD_writeBlock hw, if_neg (by omega)]
    · have hfirst := readBlock_congr (p := at' + 16) (q := at' + 16)
        fun i hi ↦ hout (at' + 16 + i) (by omega)
      rw [blocksFrom_succ, blocksFrom_succ, hfirst, hblocks, readBlock_writeBlock hw, Cipher.chain]

theorem getElem?_blocksFrom (m : List UInt8) (at' : ℕ) {n j : ℕ} (hj : j < n) :
    (blocksFrom m at' n)[j]? = some (readBlock m (at' + 16 * j)) := by
  rw [blocksFrom, List.getElem?_map, List.getElem?_range hj]
  rfl

/-- The loop of the decryption adds to block `j` the block at `input32`, which has moved by four
blocks for each one before it. -/
theorem cbcDecryptLoop_spec (self : Rijndael) (input : List UInt8) (n input32 at' : ℕ)
    (iv : Aes.State) (out : List UInt8) (h : at' + 16 * n ≤ out.length)
    (hmemory : n = 0 ∨ input32 + 64 * (n - 1) + 16 ≤ input.length) :
    ∃ plain, cbcDecryptLoop self input n input32 at' iv out = some plain ∧
      (∀ i, i < at' → plain.getD i 0 = out.getD i 0) ∧
      ∀ j < n, readBlock plain (at' + 16 * j) = rDecrypt self (readBlock input (at' + 16 * j)) ^^^
        if j = 0 then iv else readBlock input (input32 + 64 * (j - 1)) := by
  induction n generalizing input32 at' iv out with
  | zero => exact ⟨out, rfl, fun _ _ ↦ rfl, fun j hj ↦ absurd hj (Nat.not_lt_zero j)⟩
  | succ n ih =>
    have hw : at' + 16 ≤ out.length := by omega
    set b := rDecrypt self (readBlock input at') ^^^ iv with hb
    have hlen := length_writeBlock hw b
    obtain ⟨plain, hplain, hout, hblock⟩ := ih (input32 + 64) (at' + 16) (readBlock input input32)
      (writeBlock out at' b) (by omega) (by omega)
    refine ⟨plain, by
      rw [cbcDecryptLoop, if_pos (by omega), ← hb, hplain], fun i hi ↦ ?_, fun j hj ↦ ?_⟩
    · rw [hout i (by omega), getD_writeBlock hw, if_neg (by omega)]
    · rcases j with _ | j
      · have hfirst := readBlock_congr (p := at') (q := at') fun i hi ↦ hout (at' + i) (by omega)
        rw [Nat.mul_zero, Nat.add_zero at', hfirst, readBlock_writeBlock hw, if_pos rfl]
      · have h' := hblock j (by omega)
        rw [show at' + 16 + 16 * j = at' + 16 * (j + 1) by omega] at h'
        rw [h', if_neg (Nat.succ_ne_zero j), Nat.add_sub_cancel]
        rcases j with _ | j
        · rfl
        · rw [if_neg (Nat.succ_ne_zero j), Nat.add_sub_cancel]
          congr 2
          omega

/-- **What `CBC` decryption makes of a chained text** in a buffer that holds all that is read: block
`j` comes back if and only if the block before it, which it was chained to, equals the one four
times as far from the start, which may lie behind the text. -/
theorem cbc_decrypts_iff (self : Rijndael) (htables : self.tables = .op) (key : List UInt8)
    (keyLen : KeyLength) (iv : Aes.State) (ps : List Aes.State) (input out : List UInt8)
    (hmemory : 64 * (ps.length - 1) + 16 ≤ input.length) (hout : 16 * ps.length ≤ out.length)
    (hinput : blocksFrom input 0 ps.length =
      Cipher.chain (· ^^^ ·) (Aes.cipher sbox keyLen.columns (keyColumns key)) iv ps) :
    let dec := (rijndaelInit self .cbc .decrypt (some key) keyLen (some iv)).2
    ∃ plain, blockDecrypt dec input ((128 * ps.length : ℕ) : ℤ) out =
        some (((128 * ps.length : ℕ) : ℤ), plain) ∧
      ∀ (j : ℕ) (p : Aes.State), ps[j]? = some p → (readBlock plain (16 * j) = p ↔
        j = 0 ∨ readBlock input (64 * (j - 1)) = readBlock input (16 * (j - 1))) := by
  intro dec
  have hdec := rijndaelInit_ready htables .cbc .decrypt key keyLen (some iv)
  obtain ⟨plain, hloop, -, hblock⟩ := cbcDecryptLoop_spec dec input ps.length 0 0 iv out (by omega)
    (by omega)
  have hres : blockDecrypt dec input ((128 * ps.length : ℕ) : ℤ) out =
      some (((128 * ps.length : ℕ) : ℤ), plain) := by
    rw [blockDecrypt, if_neg (not_not.2 hdec.state), if_neg (by rw [hdec.direction]; simp),
      Int.toNat_natCast, Nat.mul_div_cancel_left _ (by decide)]
    split_ifs with h0
    · have hnil : ps.length = 0 := by omega
      rw [hnil] at hloop
      rw [hnil, ← Option.some_inj.1 hloop]
      rfl
    · show (cbcDecryptLoop dec input ps.length 0 0 iv out).map _ = _
      rw [hloop]
      simp
  refine ⟨plain, hres, fun j p hj ↦ ?_⟩
  have hlt : j < ps.length := (List.getElem?_eq_some_iff.1 hj).1
  have hplain := hblock j hlt
  simp only [Nat.zero_add] at hplain
  -- the text of the block, undone
  have htext (i : ℕ) (hi : i < ps.length) := getElem?_blocksFrom input 0 hi
  simp only [Nat.zero_add] at htext
  rw [hinput] at htext
  have hchain := Cipher.getElem?_chain (· ^^^ ·)
    (Aes.cipher sbox keyLen.columns (keyColumns key)) iv hj
  rw [htext j hlt, Option.some_inj] at hchain
  rw [hplain, hdec.rDecrypt_eq, hchain, Aes.invCipher_cipher]
  rcases Nat.eq_zero_or_pos j with rfl | hj0
  · rw [if_pos rfl, if_pos rfl, Aes.State.xor_comm iv, Aes.State.xor_xor]
    exact ⟨fun _ ↦ Or.inl rfl, fun _ ↦ rfl⟩
  · have hprev : (Cipher.chain (· ^^^ ·) (Aes.cipher sbox keyLen.columns (keyColumns key)) iv
      ps).getD
        (j - 1) iv = readBlock input (16 * (j - 1)) := by
      rw [List.getD_eq_getElem?_getD, htext (j - 1) (by omega), Option.getD_some]
    rw [if_neg hj0.ne', if_neg hj0.ne', hprev, Aes.State.xor_comm _ p, Aes.State.xor_eq_left_iff]
    constructor
    · intro h
      exact Or.inr h.symm
    · rintro (h | h)
      · omega
      · exact h.symm

/-- A text of five blocks whose last one is not its second one: the third block is not given
back. -/
theorem cbc_decrypts_iff_third :
    let key : List UInt8 := List.replicate 16 7
    let iv : Aes.State := readBlock (List.replicate 16 0) 0
    let text : List Aes.State := [iv, readBlock (List.replicate 16 1) 0, iv, iv, iv]
    let ps := Cipher.unchain (· ^^^ ·) (Aes.invCipher sbox 4 (keyColumns key)) iv text
    let dec := (rijndaelInit (initRijndaelOP zero) .cbc .decrypt (some key) .key16Bytes (some iv)).2
    ∃ plain, blockDecrypt dec (text.flatMap blockBytes ++ List.replicate 192 0) ((128 * 5 : ℕ) : ℤ)
        (List.replicate 80 0) = some (((128 * 5 : ℕ) : ℤ), plain) ∧
      ps[1]? = some (readBlock plain 16) ∧ ps[2]? ≠ some (readBlock plain 32) := by
  intro key iv text ps dec
  have hchain : Cipher.chain (· ^^^ ·) (Aes.cipher sbox 4 (keyColumns key)) iv ps = text :=
    Cipher.chain_unchain (fun a b ↦ by
      rw [Aes.State.xor_comm, Aes.State.xor_comm a b, Aes.State.xor_xor])
      (fun c ↦ Aes.cipher_invCipher ..) iv text
  have hlen : (text.flatMap blockBytes ++ List.replicate 192 0).length = 80 + 192 := by
    rw [List.length_append, List.length_replicate]
    rfl
  obtain ⟨plain, hplain, hblock⟩ := cbc_decrypts_iff (initRijndaelOP zero) rfl key .key16Bytes iv ps
    (text.flatMap blockBytes ++ List.replicate 192 0) (List.replicate 80 0) (by rw [hlen]; decide)
      (by decide)
    (Eq.trans (by decide) hchain.symm)
  obtain ⟨p, hp⟩ : ∃ p, ps[1]? = some p := ⟨_, rfl⟩
  refine ⟨plain, hplain, ?_, fun h ↦ ?_⟩
  · rw [hp, (hblock 1 p hp).2 (Or.inr rfl)]
  · rcases (hblock 2 _ h).1 rfl with h | h
    · exact absurd h (by decide)
    · exact absurd h (by decide)

end Rijndael

end AlphaMon
