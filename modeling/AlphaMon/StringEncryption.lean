import AlphaMon.CryptoKey

/-!
# Encrypted strings

`StringEncryptedBase64` of `crypto_ip.c`.  Its three buffers are static: a call makes them larger
when its string, filled up to whole blocks, would not fit, and they are never made smaller.  A call
clears all of them, so that only their sizes go from one call to the next (`SeBuffers`).

The `int`s are natural numbers, which is right as long as the number of bits of a string, filled up,
is one (`BitsFit`).

`SeBuffers.Fit` is the invariant of the sizes.  It is what keeps the two bounded copies from cutting
anything off (`stringEncryptedBase64_eq`), and then the text gives the string back
(`string_round_trip`).
-/

set_option autoImplicit false

namespace AlphaMon

open Rijndael

/-- `SE_BUFFER_SIZE`. -/
def seBufferSize : ℕ := 80

/-- `SE_BUFFER_SIZE_B64`. -/
def seBufferSizeB64 : ℕ := 120

/-- The sizes of the static buffers, 0 before they are allocated. -/
structure SeBuffers where
  inBufferSize : ℕ
  encOutBufferSize : ℕ
  b64ResultSize : ℕ

/-- The sizes before the first call. -/
def SeBuffers.null : SeBuffers := ⟨0, 0, 0⟩

/-- The buffers allocated at first, and again for a string that does not fit. -/
def SeBuffers.grow (b : SeBuffers) (inputLen : ℕ) : SeBuffers :=
  let b : SeBuffers :=
    if b.inBufferSize = 0 then ⟨seBufferSize, seBufferSize, seBufferSizeB64⟩ else b
  if b.inBufferSize < inputLen + 15 then
    let times := 1 + (inputLen + 15) / seBufferSize
    ⟨times * seBufferSize, times * seBufferSize, times * seBufferSizeB64⟩
  else b

/-- `strncpy` to a cleared buffer of a size, with room for a final zero. -/
def strncpyTo (size : ℕ) (string : List UInt8) : List UInt8 :=
  string.take (size - 1) ++ List.replicate (size - min string.length (size - 1)) 0

/-- The length of a string filled up to whole blocks. -/
def paddedLen (inputLen : ℕ) : ℕ :=
  if inputLen % 16 = 0 then inputLen else 16 * (1 + inputLen / 16)

/-- `padded_len*8`, as the source computes it. -/
def paddedBits (inputLen : ℕ) : Int32 := .ofNat (paddedLen inputLen) * 8

/-- The number of bits does not overflow. -/
def BitsFit (inputLen : ℕ) : Prop := 8 * paddedLen inputLen < 2 ^ 31

/-- `StringEncryptedBase64`: the string in `b64_result`, and the sizes of the buffers. -/
def stringEncryptedBase64 (op : Rijndael) (b : SeBuffers) (string : List UInt8) :
    List UInt8 × SeBuffers :=
  let b := b.grow string.length
  let inBuffer := strncpyTo b.inBufferSize string
  let (retval, encOutBuffer) := blockEncrypt op inBuffer ((paddedLen string.length * 8 : ℕ) : ℤ)
    (List.replicate b.encOutBufferSize 0)
  let (b64EncString, _) := base64 encOutBuffer (retval.toNat / 8)
  ((strncpyTo b.b64ResultSize b64EncString).takeWhile (· ≠ 0), b)

/-! ## Sizes -/

/-- The sizes are those of a number of units. -/
def SeBuffers.Fit (b : SeBuffers) : Prop :=
  b = .null ∨ ∃ times, 0 < times ∧
    b = ⟨times * seBufferSize, times * seBufferSize, times * seBufferSizeB64⟩

/-- After the allocation there is room for the blocks of the string and for their text. -/
theorem SeBuffers.Fit.grow {b : SeBuffers} (hb : b.Fit) (inputLen : ℕ) :
    (b.grow inputLen).Fit ∧ inputLen + 15 ≤ (b.grow inputLen).inBufferSize ∧
    paddedLen inputLen ≤ (b.grow inputLen).encOutBufferSize ∧
    4 * ((paddedLen inputLen + 2) / 3) < (b.grow inputLen).b64ResultSize := by
  have hpad : paddedLen inputLen ≤ inputLen + 15 := by
    rw [paddedLen]
    split_ifs <;> omega
  have hunits (times : ℕ) (ht : 0 < times) (h : inputLen + 15 ≤ times * seBufferSize) :
      (⟨times * seBufferSize, times * seBufferSize, times * seBufferSizeB64⟩ : SeBuffers).Fit ∧
      inputLen + 15 ≤ times * seBufferSize ∧ paddedLen inputLen ≤ times * seBufferSize ∧
      4 * ((paddedLen inputLen + 2) / 3) < times * seBufferSizeB64 := by
    simp only [seBufferSize, seBufferSizeB64] at h ⊢
    exact ⟨Or.inr ⟨times, ht, rfl⟩, h, by omega, by omega⟩
  -- the sizes after the first allocation
  obtain ⟨times, ht, hfirst⟩ : ∃ times, 0 < times ∧
      (if b.inBufferSize = 0 then ⟨seBufferSize, seBufferSize, seBufferSizeB64⟩
        else b : SeBuffers) =
        ⟨times * seBufferSize, times * seBufferSize, times * seBufferSizeB64⟩ := by
    rcases hb with rfl | ⟨times, ht, rfl⟩
    · exact ⟨1, one_pos, rfl⟩
    · refine ⟨times, ht, if_neg ?_⟩
      simp only [seBufferSize]
      omega
  rw [SeBuffers.grow, hfirst]
  simp only
  split_ifs with hlt
  · refine hunits _ (Nat.add_pos_left one_pos _) ?_
    simp only [seBufferSize]
    omega
  · exact hunits times ht (by omega)

theorem paddedBits_eq {inputLen : ℕ} (h : BitsFit inputLen) :
    (paddedBits inputLen).toInt = ((paddedLen inputLen * 8 : ℕ) : ℤ) := by
  rw [BitsFit] at h
  rw [paddedBits, Int32.toInt_mul, Int32.toInt_ofNat_of_lt (by omega),
    show (8 : Int32).toInt = 8 from rfl,
    int_eq (by omega) (by omega), Nat.cast_mul]
  rfl

/-- A buffer grows to an `int`. -/
theorem SeBuffers.grow_lt {b : SeBuffers} (hb : b.b64ResultSize < 2 ^ 31) {inputLen : ℕ}
    (h : BitsFit inputLen) : (b.grow inputLen).b64ResultSize < 2 ^ 31 := by
  have hlen : inputLen ≤ paddedLen inputLen := by
    rw [paddedLen]
    split_ifs <;> omega
  rw [BitsFit] at h
  rw [SeBuffers.grow]
  simp only [seBufferSize, seBufferSizeB64]
  split_ifs
  · simp only
    omega
  · norm_num
  · simp only
    omega
  · exact hb

/-- The sizes after some calls. -/
theorem fit_of_calls (op : Rijndael) {strings : List (List UInt8)}
    (h : ∀ s ∈ strings, BitsFit s.length) :
    let b := strings.foldl (fun b string ↦ (stringEncryptedBase64 op b string).2) SeBuffers.null
    b.Fit ∧ b.b64ResultSize < 2 ^ 31 := by
  induction strings using List.reverseRecOn with
  | nil => exact ⟨Or.inl rfl, Nat.two_pow_pos 31⟩
  | append_singleton strings string ih =>
    obtain ⟨hfit, hlt⟩ := ih fun s hs ↦ h s (List.mem_append_left _ hs)
    rw [List.foldl_append]
    exact ⟨(hfit.grow string.length).1, SeBuffers.grow_lt hlt (h string (by simp))⟩

/-! ## The text -/

/-- A copy to a buffer with room for the string and its final zero keeps it whole. -/
theorem strncpyTo_eq {size : ℕ} {string : List UInt8} (h : string.length < size) :
    strncpyTo size string = string ++ List.replicate (size - string.length) 0 := by
  rw [strncpyTo, List.take_of_length_le (by omega), min_eq_left (by omega)]

/-- The blocks of a string, encrypted. -/
def encryptedBlocks (key : ℕ → Aes.Word) (string : List UInt8) : List UInt8 :=
  ecbLoop (Aes.cipher sbox 4 key)
    (string ++ List.replicate (paddedLen string.length - string.length) 0)
    (paddedLen string.length / 16) 0 (List.replicate (paddedLen string.length) 0)

theorem paddedLen_spec (n : ℕ) :
    n ≤ paddedLen n ∧ paddedLen n % 16 = 0 ∧ (0 < n → 0 < paddedLen n) := by
  rw [paddedLen]
  split_ifs <;> refine ⟨?_, ?_, ?_⟩ <;> omega

theorem getD_append_replicate (string : List UInt8) (m i : ℕ) :
    (string ++ List.replicate m 0).getD i 0 = string.getD i 0 := by
  rcases Nat.lt_or_ge i string.length with hi | hi
  · rw [List.getD_append _ _ _ _ hi]
  · rw [List.getD_append_right _ _ _ _ hi, List.getD_eq_default _ _ hi, List.getD_eq_getElem?_getD,
      List.getElem?_replicate]
    split_ifs <;> rfl

theorem length_encryptedBlocks (key : ℕ → Aes.Word) (string : List UInt8) :
    (encryptedBlocks key string).length = paddedLen string.length := by
  obtain ⟨-, hmod, -⟩ := paddedLen_spec string.length
  obtain ⟨hl, -, -⟩ := ecbLoop_spec (Aes.cipher sbox 4 key)
    (string ++ List.replicate (paddedLen string.length - string.length) 0)
    (paddedLen string.length / 16) 0 (List.replicate (paddedLen string.length) 0)
    (by rw [List.length_replicate]; omega)
  rw [encryptedBlocks, hl, List.length_replicate]

/-- What a call returns: the text of the encrypted blocks, whole. -/
theorem stringEncryptedBase64_eq {op : Rijndael} {key : ℕ → Aes.Word}
    (hop : Ready op .encrypt 4 key) (hm : op.mMode = .ecb) {b : SeBuffers} (hb : b.Fit)
    (string : List UInt8) :
    (stringEncryptedBase64 op b string).1 = encode (encryptedBlocks key string) := by
  obtain ⟨-, hin, henc, hb64⟩ := hb.grow string.length
  obtain ⟨hle, hmod, -⟩ := paddedLen_spec string.length
  have hlen := length_encryptedBlocks key string
  have hblocks : paddedLen string.length * 8 / 128 = paddedLen string.length / 16 := by omega
  have hretval : (128 * ((paddedLen string.length / 16 : ℕ) : ℤ)).toNat / 8 =
      (encryptedBlocks key string).length := by
    rw [hlen]
    omega
  -- the blocks, in front of what the buffer is larger
  have hbuffer : ecbLoop (Aes.cipher sbox 4 key)
      (strncpyTo (b.grow string.length).inBufferSize string) (paddedLen string.length / 16) 0
      (List.replicate (b.grow string.length).encOutBufferSize 0) = encryptedBlocks key string ++
        List.replicate ((b.grow string.length).encOutBufferSize - paddedLen string.length) 0 := by
    rw [strncpyTo_eq (by omega), encryptedBlocks, ← ecbLoop_append _ _ _ _ (by
      rw [List.length_replicate]
      omega), ← List.replicate_add, Nat.add_sub_cancel' henc]
    refine ecbLoop_congr _ _ _ fun i hi ↦ ?_
    rw [getD_append_replicate, getD_append_replicate]
  have htext : (encode (encryptedBlocks key string)).length <
    (b.grow string.length).b64ResultSize := by
    refine lt_of_eq_of_lt ?_ hb64
    rw [length_encode, hlen, padding]
    omega
  rw [stringEncryptedBase64, blockEncrypt_ecb hop hm]
  simp only [hblocks, hbuffer, hretval, base64_eq]
  rw [strncpyTo_eq htext, List.takeWhile_append_of_pos]
  · rw [List.takeWhile_replicate]
    simp
  · intro c hc
    simpa using fun h0 : c = 0 ↦ zero_notMem_encode _ (h0 ▸ hc)

/-- The cipher with a key of 16 bytes reads no more of it. -/
theorem invCipher_take (key : List UInt8) :
    Aes.invCipher sbox 4 (keyColumns (key.take 16)) = Aes.invCipher sbox 4 (keyColumns key) := by
  have hget (i : ℕ) (hi : i < 16) : (key.take 16).getD i 0 = key.getD i 0 := by
    rw [List.getD_eq_getElem?_getD, List.getElem?_take_of_lt hi, List.getD_eq_getElem?_getD]
  have hexpand : Aes.expandKey (byteOf s) 4 (keyColumns (key.take 16)) =
      Aes.expandKey (byteOf s) 4 (keyColumns key) := by
    refine funext (expandKey_congr (by decide) fun j hj ↦ ?_)
    simp only [keyColumns, readWord]
    rw [hget _ (by omega), hget _ (by omega), hget _ (by omega), hget _ (by omega)]
  funext a
  rw [Aes.invCipher, Aes.invCipher, show (sbox.toEquiv : UInt8 → UInt8) = byteOf s from rfl,
    hexpand]

/-- **An encrypted string can be read back**, whatever strings were encrypted before it: decoding
its text and decrypting the blocks with the first half of the key gives the string, filled up with
zeros.  No `int` overflows on the way. -/
theorem string_round_trip (op op' : Rijndael) (htables : op.tables = .op)
    (htables' : op'.tables = .op) (key : List UInt8) (strings : List (List UInt8))
    (string : List UInt8) (h : string ≠ []) (hbits : ∀ s ∈ string :: strings, BitsFit s.length) :
    let enc := (rijndaelInit op .ecb .encrypt (some key) .key16Bytes none).2
    let dec := (rijndaelInit op' .ecb .decrypt (some (key.take 16)) .key16Bytes none).2
    let b := strings.foldl (fun b string ↦ (stringEncryptedBase64 enc b string).2) SeBuffers.null
    let text := (stringEncryptedBase64 enc b string).1
    let n := paddedLen string.length
    (paddedBits string.length).toInt = ((n * 8 : ℕ) : ℤ) ∧
    (stringEncryptedBase64 enc b string).2.b64ResultSize < 2 ^ 31 ∧
    (base64Size n (padding n)).toInt = text.length ∧
    ∃ blocks, unbase64 text text.length = (some blocks, (n : ℤ)) ∧
      blockDecrypt dec blocks ((n * 8 : ℕ) : ℤ) (List.replicate n 0) =
        some (((n * 8 : ℕ) : ℤ), string ++ List.replicate (n - string.length) 0) := by
  intro enc dec b text n
  have henc : Ready enc .encrypt 4 (keyColumns key) :=
    rijndaelInit_ready htables .ecb .encrypt key .key16Bytes none
  have hdec : Ready dec .decrypt 4 (keyColumns (key.take 16)) :=
    rijndaelInit_ready htables' .ecb .decrypt (key.take 16) .key16Bytes none
  have hstring : BitsFit string.length := hbits string List.mem_cons_self
  obtain ⟨hfit, hlt⟩ := fit_of_calls enc fun s hs ↦ hbits s (List.mem_cons_of_mem _ hs)
  obtain ⟨hle, hmod, hpos⟩ := paddedLen_spec string.length
  have hlen := length_encryptedBlocks (keyColumns key) string
  have htext : text = encode (encryptedBlocks (keyColumns key) string) :=
    stringEncryptedBase64_eq henc rfl hfit string
  have hne : encryptedBlocks (keyColumns key) string ≠ [] := by
    rw [← List.length_pos_iff, hlen]
    exact hpos (List.length_pos_iff.2 h)
  have hsize : (base64Size n (padding n)).toInt = text.length := by
    rw [base64Size_eq, htext, length_encode, hlen]
    rw [BitsFit] at hstring
    rw [padding]
    omega
  refine ⟨paddedBits_eq hstring, SeBuffers.grow_lt hlt hstring, hsize,
    encryptedBlocks (keyColumns key) string, by rw [htext, unbase64_encode hne, hlen], ?_⟩
  have hblocks : n * 8 / 128 = n / 16 := by omega
  have hwhole : 16 * (n / 16) ≤ (List.replicate n (0 : UInt8)).length := by
    rw [List.length_replicate]
    omega
  obtain ⟨hl, hget, -⟩ := ecbLoop_inverse (g := Aes.invCipher sbox 4 (keyColumns key))
    (f := Aes.cipher sbox 4 (keyColumns key)) (m := encryptedBlocks (keyColumns key) string)
    (fun a ↦ Aes.invCipher_cipher ..)
    (string ++ List.replicate (n - string.length) 0) hwhole hwhole fun i _ ↦ rfl
  rw [List.length_replicate] at hl
  rw [blockDecrypt_ecb hdec rfl, hblocks, invCipher_take]
  congr 2
  · omega
  · refine eq_of_getD ?_ fun i hi ↦ hget i (by rw [hl] at hi; omega)
    rw [hl, List.length_append, List.length_replicate]
    omega

/-- A string of five bytes, after a long one. -/
theorem string_round_trip_five :
    let key : List UInt8 := List.replicate 32 7
    let enc := (rijndaelInit (initRijndaelOP zero) .ecb .encrypt (some key) .key16Bytes none).2
    let dec := (rijndaelInit (initRijndaelOP zero) .ecb .decrypt (some (key.take 16)) .key16Bytes
      none).2
    let b := (stringEncryptedBase64 enc .null (List.replicate 100 65)).2
    let text := (stringEncryptedBase64 enc b [65, 66, 67, 68, 69]).1
    ∃ blocks, unbase64 text text.length = (some blocks, 16) ∧
      blockDecrypt dec blocks ((128 : ℕ) : ℤ) (List.replicate 16 0) =
        some (128, [65, 66, 67, 68, 69] ++ List.replicate 11 0) :=
  (string_round_trip (initRijndaelOP zero) (initRijndaelOP zero) rfl rfl (List.replicate 32 7)
    [List.replicate 100 65] [65, 66, 67, 68, 69] (by decide)
    (by simp [BitsFit, paddedLen])).2.2.2

end AlphaMon
