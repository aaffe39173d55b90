import AlphaMon.Base64
import AlphaMon.Cryptopan
import AlphaMon.RijndaelModes

/-!
# The key of the configuration

`initialize_crypto`, `encrypt_init` and `panon_init` of `crypto_ip.c`, from the text of the
configuration to the cipher and the pad of an anonymiser.  The decoded bytes are cut or filled with
zeros to 32.  The first 16 are the key of the cipher and the others, encrypted, are the pad.

A text is the value of a line of the configuration, too short for an `int` of `unbase64` to
overflow.  `textKey` is `none` where the source runs into undefined behaviour: where `unbase64`
writes past its buffer, where bytes are copied that it never wrote, and where the size it reports is
negative.  `textKey_isSome_iff` says which texts these are.  For the text that `base64` makes of a
key, `pseudonyms_from_text` puts the cipher, the pad and the caches together: what the anonymiser
answers is CryptoPAn over the standard's cipher, whatever the cipher structure of the core held
before.

`initialize_crypto` ends by freeing `enc_key`, a pointer it never set.  What it holds is an argument
of `initializeFrom`, which fails unless it is null.
-/

set_option autoImplicit false

namespace AlphaMon

open Rijndael

/-- `KEY_SIZE`. -/
def keySize : ℕ := 32

/-! ## From the text to the key -/

/-- The first part of `initialize_crypto`: the key that the text of the configuration stands for. -/
def textKey (value : List UInt8) : Option (List UInt8) :=
  match unbase64 value value.length with
  | (none, flen) => if flen < 0 then none else some (List.replicate keySize 0)
  | (some decodedKey, flen) =>
    let n := min flen.toNat keySize
    if (decodedKey.length : ℤ) ≤ flen ∧ n ≤ decodedKey.length then
      some (decodedKey.take n ++ List.replicate (keySize - n) 0)
    else none

/-- **When the text of a key is read without an error of memory**: when it is too short to be
decoded, which gives the key of zeros, when it is made of groups of four characters, when one
character is left over and is not the only `'='`, or when it is long enough for the missing bytes
not to be used. -/
theorem textKey_isSome_iff (value : List UInt8) :
    (textKey value).isSome = true ↔
      value.length < 2 ∨ value.length % 4 = 0 ∨
      value.length % 4 = 1 ∧ padOf value value.length ≠ 1 ∨
      46 ≤ value.length ∧ padOf value value.length = 0 := by
  set n := value.length with hn
  have hpad := padOf_le value n
  rcases unbase64_cases value n with ⟨h2, h⟩ | ⟨h2, hp, h⟩ | ⟨h2, hle, h⟩
  · simp [textKey, ← hn, h, h2]
  · have hnone : textKey value = none := by
      rw [textKey, ← hn, h]
      rfl
    rw [hnone, Option.isSome_none]
    simp only [Bool.false_eq_true, false_iff]
    omega
  · have hiff : (textKey value).isSome = true ↔
        (unbase64Bytes value n (padOf value n)).length ≤ 3 * n / 4 - padOf value n ∧
        min (3 * n / 4 - padOf value n) keySize ≤
          (unbase64Bytes value n (padOf value n)).length := by
      rw [textKey, ← hn, h]
      simp only [Int.toNat_natCast, Nat.cast_le, apply_ite Option.isSome]
      split_ifs with hc
      · exact ⟨fun _ ↦ hc, fun _ ↦ rfl⟩
      · exact ⟨fun h ↦ absurd h (by simp), fun h ↦ absurd h hc⟩
    rw [hiff, length_unbase64Bytes, keySize, min_le_iff]
    clear hiff h hn
    generalize padOf value n = p at *
    clear_value n
    obtain ⟨q, r, hr, rfl⟩ : ∃ q r, r < 4 ∧ n = 4 * q + r := ⟨n / 4, n % 4, by omega, by omega⟩
    obtain ⟨hblocks, hsize, hmod⟩ := sizes_eq (q := q) hr hpad
    rw [hblocks, hmod, hsize]
    rw [hsize] at hle
    split_ifs with hp1 hp2 <;> interval_cases r <;> omega

/-- The text of a key gives its first 32 bytes, with zeros behind a shorter one. -/
theorem textKey_encode {key : List UInt8} (h : key ≠ []) :
    textKey (encode key) = some ((key ++ List.replicate keySize 0).take keySize) := by
  rw [textKey, unbase64_encode h]
  simp only [Int.toNat_natCast]
  rw [if_pos ⟨le_rfl, min_le_left _ _⟩]
  rcases Nat.le_total key.length keySize with hl | hl
  · rw [min_eq_left hl, List.take_length, List.take_append, List.take_of_length_le hl,
      List.take_replicate, min_eq_left (Nat.sub_le _ _)]
  · rw [min_eq_right hl, Nat.sub_self, List.replicate_zero, List.append_nil,
      List.take_append_of_le_length hl]

/-! ## From the key to the anonymiser -/

/-- `blockEncrypt` for one block, as the function CryptoPAn takes. -/
def encryptOne (op : Rijndael) (a : Block) : Block := fun i ↦
  (blockEncrypt op (List.ofFn a) 128 (List.replicate 16 0)).2.getD i 0

/-- The second half of a key. -/
def padKeyOf (key : List UInt8) : Block := fun i ↦ key.getD (16 + i) 0

/-- `initialize_crypto`: the cipher of the core and the state of its anonymiser. -/
def initializeFrom (op : Rijndael) (value : List UInt8) (encKey : Option ℕ) :
    Option (Rijndael × CryptoIp) := do
  let op := initRijndaelOP op
  let key ← textKey value
  let op := (rijndaelInit op .ecb .encrypt (some key) .key16Bytes none).2
  let self := initializeCrypto (encryptOne op) (padKeyOf key)
  if encKey ≠ none then none else some (op, self)

/-- The standard's cipher with a key of 16 bytes, on blocks of bytes. -/
def aesBlock (key : List UInt8) (a : Block) : Block := fun i ↦
  (blockBytes (Aes.cipher sbox 4 (keyColumns key) (readBlock (List.ofFn a) 0))).getD i 0

theorem encryptOne_eq {op : Rijndael} (htables : op.tables = .op) (key : List UInt8) :
    encryptOne (rijndaelInit op .ecb .encrypt (some key) .key16Bytes none).2 = aesBlock key := by
  have hready := rijndaelInit_ready htables .ecb .encrypt key .key16Bytes none
  funext a i
  rw [encryptOne, show (128 : ℤ) = ((128 : ℕ) : ℤ) from rfl, blockEncrypt_ecb hready rfl]
  obtain ⟨-, hblock, -⟩ := ecbLoop_spec (Aes.cipher sbox 4 (keyColumns key)) (List.ofFn a) 1 0
    (List.replicate 16 0) (by decide)
  have h := hblock 0 (by decide)
  rw [← readBlock_blockBytes (Aes.cipher _ _ _ _)] at h
  exact getD_eq_of_readBlock h (Nat.zero_le _) i.isLt

/-- **The pseudonyms of a configured key.**  Whatever the cipher of a core was used for before, an
anonymiser set up from the text of a key answers CryptoPAn over the standard's cipher with the first
16 bytes of the key, and the next 16 encrypted as the pad, after any calls. -/
theorem pseudonyms_from_text (op : Rijndael) (key : List UInt8) (h : key ≠ []) :
    let k := (key ++ List.replicate keySize 0).take keySize
    let pad := aesBlock k (padKeyOf k)
    ∃ op' s, initializeFrom op (base64 key key.length).1 none = some (op', s) ∧
      ∀ calls : List CryptoCall,
        (∀ a, (retrieveCryptoIp (encryptOne op')
          (calls.foldl (CryptoCall.run (encryptOne op')) s) a).1 = pseudonym (aesBlock k) pad a) ∧
        ∀ a, (retrieveCryptoIpv6 (encryptOne op')
          (calls.foldl (CryptoCall.run (encryptOne op')) s) a).1 = pseudonym6
            (aesBlock k) pad a := by
  intro k pad
  have heq := base64_eq key []
  rw [List.append_nil] at heq
  refine ⟨_, _, by rw [heq, initializeFrom, textKey_encode h]; rfl, fun calls ↦ ?_⟩
  rw [encryptOne_eq rfl]
  have hs : (calls.foldl (CryptoCall.run (aesBlock k))
    (initializeCrypto (aesBlock k) (padKeyOf k))).Sound
      (aesBlock k) pad := runCrypto_sound (padKeyOf k) calls
  exact ⟨fun a ↦ (retrieveCryptoIp_spec hs a).1, fun a ↦ (retrieveCryptoIpv6_spec hs a).1⟩

/-- A key of three bytes. -/
theorem pseudonyms_from_text_short :
    let key : List UInt8 := [1, 2, 3]
    let k := (key ++ List.replicate keySize 0).take keySize
    let pad := aesBlock k (padKeyOf k)
    ∃ op' s, initializeFrom Rijndael.zero (base64 key key.length).1 none = some (op', s) ∧
      ∀ calls : List CryptoCall,
        (∀ a, (retrieveCryptoIp (encryptOne op')
          (calls.foldl (CryptoCall.run (encryptOne op')) s) a).1 = pseudonym (aesBlock k) pad a) ∧
        ∀ a, (retrieveCryptoIpv6 (encryptOne op')
          (calls.foldl (CryptoCall.run (encryptOne op')) s) a).1 = pseudonym6 (aesBlock k) pad a :=
  pseudonyms_from_text Rijndael.zero [1, 2, 3] (by decide)

end AlphaMon
