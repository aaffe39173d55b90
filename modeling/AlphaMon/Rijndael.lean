import Mathlib.Data.List.Basic
import AlphaMon.Cipher.Aes
import AlphaMon.RijndaelTables

/-!
# The block cipher

`rijndael.c`: the set-up of a key, the cipher by tables and the modes of operation.

The source reads and writes words of four bytes through pointers to them and only ever adds two such
words by exclusive or, so a `UINT32` is an `Aes.Word` here, its four bytes in the order of the
memory, and a block of 16 bytes an `Aes.State`, its four words.  Arrays are lists, read by `getD`,
and the results ask for buffers that hold all blocks; the round keys are one vector, with the word
of round `r` and column `t` at `4 * r + t`.  Null pointers are left out, apart from the key's and
the initial vector's, and so are values of the enumerations that they do not name.
-/

set_option autoImplicit false

namespace AlphaMon

open Aes (Word)

namespace Rijndael

/-- `Mode`. -/
inductive Mode
  | ecb | cbc | cfb1
  deriving DecidableEq, Repr

/-- `Direction`. -/
inductive Direction
  | encrypt | decrypt
  deriving DecidableEq, Repr

/-- `KeyLength`. -/
inductive KeyLength
  | key16Bytes | key24Bytes | key32Bytes
  deriving DecidableEq, Repr

/-- `State`. -/
inductive State
  | valid | invalid
  deriving DecidableEq, Repr

end Rijndael

/-- `m_expandedKey`: 15 round keys of four words. -/
abbrev ExpandedKey := Vector Word 60

/-- `struct rijndael`. -/
structure Rijndael where
  mState : Rijndael.State
  mMode : Rijndael.Mode
  mDirection : Rijndael.Direction
  mInitVector : Aes.State
  mURounds : ℕ
  mExpandedKey : ExpandedKey
  tables : Rijndael.Tables

namespace Rijndael

/-- `RIJNDAEL_SUCCESS`. -/
def success : ℤ := 0

/-- `RIJNDAEL_BAD_KEY`. -/
def badKey : ℤ := -4

/-- `RIJNDAEL_NOT_INITIALIZED`. -/
def notInitialized : ℤ := -5

/-- `RIJNDAEL_BAD_DIRECTION`. -/
def badDirection : ℤ := -6

/-! ## Tables -/

/-- The word of zeros, read where an array has no entry. -/
def zeroWord : Word := ⟨0, 0, 0, 0⟩

/-- Zeroed memory. -/
def zero : Rijndael :=
  ⟨.valid, .ecb, .encrypt, ⟨zeroWord, zeroWord, zeroWord, zeroWord⟩, 0,
    Vector.replicate 60 zeroWord,
    ⟨[], [], [], [], [], [], [], [], [], [], [], [], [], [], []⟩⟩

/-- `init_rijndael_OP`. -/
def initRijndaelOP (self : Rijndael) : Rijndael := { self with tables := .op }

/-- A word of the round keys. -/
def keyWord (expandedKey : ExpandedKey) (i : ℕ) : Word := expandedKey[i]?.getD zeroWord

/-- An entry of a table of bytes. -/
def byteOf (t : List ℕ) (x : UInt8) : UInt8 := .ofNat (t.getD x.toNat 0)

/-- The bytes of a row that is written as one number. -/
def row (n : ℕ) : Word := ⟨.ofNat (n >>> 24), .ofNat (n >>> 16), .ofNat (n >>> 8), .ofNat n⟩

/-- An entry of a table of words. -/
def wordOf (t : List ℕ) (x : UInt8) : Word := row (t.getD x.toNat 0)

/-! ## Key schedule -/

/-- `n` columns from `j` on, each xored with the one before it. -/
def addPrevious : ℕ → ℕ → List Word → List Word
  | 0, _, tempKey => tempKey
  | n + 1, j, tempKey =>
    addPrevious n (j + 1)
      (tempKey.set j (tempKey.getD j zeroWord ^^^ tempKey.getD (j - 1) zeroWord))

/-- The next columns of `tempKey`. -/
def nextTempKey (tables : Tables) (uKeyColumns rconpointer : ℕ) (tempKey : List Word) : List Word :=
  let s := tables.s
  let last := tempKey.getD (uKeyColumns - 1) zeroWord
  let first := tempKey.getD 0 zeroWord ^^^
    ⟨byteOf s last.b1, byteOf s last.b2, byteOf s last.b3, byteOf s last.b0⟩
  let tempKey := tempKey.set 0
    { first with b0 := first.b0 ^^^ .ofNat (tables.rcon.getD rconpointer 0) }
  if uKeyColumns ≠ 8 then addPrevious (uKeyColumns - 1) 1 tempKey
  else
    let tempKey := addPrevious (uKeyColumns / 2 - 1) 1 tempKey
    let half := tempKey.getD (uKeyColumns / 2 - 1) zeroWord
    let tempKey := tempKey.set (uKeyColumns / 2) (tempKey.getD (uKeyColumns / 2) zeroWord ^^^
      ⟨byteOf s half.b0, byteOf s half.b1, byteOf s half.b2, byteOf s half.b3⟩)
    addPrevious (uKeyColumns - (uKeyColumns / 2 + 1)) (uKeyColumns / 2 + 1) tempKey

/-- `n` columns of `tempKey` from `j` on are copied to the round keys, from round `r` and column
`t`.  The two loops of the source test `r` only at the start of a round, where alone it changes. -/
def copyColumns (uRounds : ℕ) (tempKey : List Word) :
    ℕ → ℕ → ℕ → ℕ → ExpandedKey → ℕ × ℕ × ExpandedKey
  | 0, _, r, t, expandedKey => (r, t, expandedKey)
  | n + 1, j, r, t, expandedKey =>
    if r ≤ uRounds then
      let expandedKey := expandedKey.setIfInBounds (4 * r + t) (tempKey.getD j zeroWord)
      if t + 1 = 4 then copyColumns uRounds tempKey n (j + 1) (r + 1) 0 expandedKey
      else copyColumns uRounds tempKey n (j + 1) r (t + 1) expandedKey
    else (r, t, expandedKey)

/-- The `while` loop of `keySched`, at most `n` times. -/
def keySchedLoop (tables : Tables) (uRounds uKeyColumns : ℕ) :
    ℕ → List Word → ℕ → ℕ → ℕ → ExpandedKey → ExpandedKey
  | 0, _, _, _, _, expandedKey => expandedKey
  | n + 1, tempKey, rconpointer, r, t, expandedKey =>
    if r ≤ uRounds then
      let tempKey := nextTempKey tables uKeyColumns rconpointer tempKey
      let (r, t, expandedKey) := copyColumns uRounds tempKey uKeyColumns 0 r t expandedKey
      keySchedLoop tables uRounds uKeyColumns n tempKey (rconpointer + 1) r t expandedKey
    else expandedKey

/-- `keySched`, on the columns of the key.  As many passes as rounds are enough for the `while`
loop. -/
def keySched (self : Rijndael) (key : List Word) : Rijndael :=
  let uKeyColumns := self.mURounds - 6
  let tempKey := key.take uKeyColumns
  let (r, t, expandedKey) :=
    copyColumns self.mURounds tempKey uKeyColumns 0 0 0 self.mExpandedKey
  { self with mExpandedKey :=
      keySchedLoop self.tables self.mURounds uKeyColumns self.mURounds tempKey 0 r t expandedKey }

/-- `keyEncToDec`: a word of a round in the middle becomes a sum of entries for its own bytes. -/
def keyEncToDec (self : Rijndael) : Rijndael :=
  { self with mExpandedKey := self.mExpandedKey.mapIdx fun i w ↦
      if 4 ≤ i ∧ i < 4 * self.mURounds then
        wordOf self.tables.u1 w.b0 ^^^ wordOf self.tables.u2 w.b1 ^^^ wordOf self.tables.u3 w.b2 ^^^
          wordOf self.tables.u4 w.b3
      else w }

/-! ## Buffers -/

/-- The four bytes at an offset. -/
def readWord (m : List UInt8) (at' : ℕ) : Word :=
  ⟨m.getD at' 0, m.getD (at' + 1) 0, m.getD (at' + 2) 0, m.getD (at' + 3) 0⟩

/-- The block at an offset. -/
def readBlock (m : List UInt8) (at' : ℕ) : Aes.State :=
  ⟨readWord m at', readWord m (at' + 4), readWord m (at' + 8), readWord m (at' + 12)⟩

/-- The bytes of a word. -/
def wordBytes (w : Word) : List UInt8 := [w.b0, w.b1, w.b2, w.b3]

/-- The bytes of a block. -/
def blockBytes (b : Aes.State) : List UInt8 :=
  wordBytes b.c0 ++ wordBytes b.c1 ++ wordBytes b.c2 ++ wordBytes b.c3

/-- A block written at an offset. -/
def writeBlock (m : List UInt8) (at' : ℕ) (b : Aes.State) : List UInt8 :=
  m.take at' ++ blockBytes b ++ m.drop (at' + 16)

/-- The rounds for a length of the key. -/
def KeyLength.rounds : KeyLength → ℕ
  | .key16Bytes => 10
  | .key24Bytes => 12
  | .key32Bytes => 14

/-- `rijndael_init`. -/
def rijndaelInit (self : Rijndael) (mode : Mode) (dir : Direction) (key : Option (List UInt8))
    (keyLen : KeyLength) (initVector : Option Aes.State) : ℤ × Rijndael :=
  let self := { self with
    mState := .invalid, mMode := mode, mDirection := dir,
    mInitVector := initVector.getD ⟨zeroWord, zeroWord, zeroWord, zeroWord⟩,
    mURounds := keyLen.rounds }
  match key with
  | none => (badKey, self)
  | some key =>
    let self := keySched self ((List.range (self.mURounds - 6)).map fun j ↦ readWord key (4 * j))
    let self := if self.mDirection = .decrypt then keyEncToDec self else self
    (success, { self with mState := .valid })

/-! ## One block -/

/-- The words of a round key added to the words of a block. -/
def addKey (self : Rijndael) (b : Aes.State) (r : ℕ) : Aes.State where
  c0 := b.c0 ^^^ keyWord self.mExpandedKey (4 * r)
  c1 := b.c1 ^^^ keyWord self.mExpandedKey (4 * r + 1)
  c2 := b.c2 ^^^ keyWord self.mExpandedKey (4 * r + 2)
  c3 := b.c3 ^^^ keyWord self.mExpandedKey (4 * r + 3)

/-- `encrypt_b_from_T`. -/
def encryptBFromT (self : Rijndael) (ind1 ind2 ind3 ind4 : UInt8) : Word :=
  wordOf self.tables.t1 ind1 ^^^ wordOf self.tables.t2 ind2 ^^^ wordOf self.tables.t3 ind3 ^^^
    wordOf self.tables.t4 ind4

/-- `decrypt_b_from_T`. -/
def decryptBFromT (self : Rijndael) (ind1 ind2 ind3 ind4 : UInt8) : Word :=
  wordOf self.tables.t5 ind1 ^^^ wordOf self.tables.t6 ind2 ^^^ wordOf self.tables.t7 ind3 ^^^
    wordOf self.tables.t8 ind4

/-- The words of a block after a round, from the words with the key added. -/
def encryptStep (self : Rijndael) (temp : Aes.State) : Aes.State where
  c0 := encryptBFromT self temp.c0.b0 temp.c1.b1 temp.c2.b2 temp.c3.b3
  c1 := encryptBFromT self temp.c1.b0 temp.c2.b1 temp.c3.b2 temp.c0.b3
  c2 := encryptBFromT self temp.c2.b0 temp.c3.b1 temp.c0.b2 temp.c1.b3
  c3 := encryptBFromT self temp.c3.b0 temp.c0.b1 temp.c1.b2 temp.c2.b3

/-- The loop of `r_encrypt`: `n` rounds from `r` up. -/
def encryptLoop (self : Rijndael) : ℕ → ℕ → Aes.State → Aes.State
  | 0, _, b => b
  | n + 1, r, b => encryptLoop self n (r + 1) (encryptStep self (addKey self b r))

/-- `r_encrypt`. -/
def rEncrypt (self : Rijndael) (a : Aes.State) : Aes.State :=
  let b := encryptStep self (addKey self a 0)
  let b := encryptLoop self (self.mURounds - 2) 1 b
  let temp := addKey self b (self.mURounds - 1)
  let t1 := self.tables.t1
  let b : Aes.State :=
    { c0 := ⟨(wordOf t1 temp.c0.b0).b1, (wordOf t1 temp.c1.b1).b1,
        (wordOf t1 temp.c2.b2).b1, (wordOf t1 temp.c3.b3).b1⟩
      c1 := ⟨(wordOf t1 temp.c1.b0).b1, (wordOf t1 temp.c2.b1).b1,
        (wordOf t1 temp.c3.b2).b1, (wordOf t1 temp.c0.b3).b1⟩
      c2 := ⟨(wordOf t1 temp.c2.b0).b1, (wordOf t1 temp.c3.b1).b1,
        (wordOf t1 temp.c0.b2).b1, (wordOf t1 temp.c1.b3).b1⟩
      c3 := ⟨(wordOf t1 temp.c3.b0).b1, (wordOf t1 temp.c0.b1).b1,
        (wordOf t1 temp.c1.b2).b1, (wordOf t1 temp.c2.b3).b1⟩ }
  addKey self b self.mURounds

/-- The words of a block after a round backwards, from the words with the key added. -/
def decryptStep (self : Rijndael) (temp : Aes.State) : Aes.State where
  c0 := decryptBFromT self temp.c0.b0 temp.c3.b1 temp.c2.b2 temp.c1.b3
  c1 := decryptBFromT self temp.c1.b0 temp.c0.b1 temp.c3.b2 temp.c2.b3
  c2 := decryptBFromT self temp.c2.b0 temp.c1.b1 temp.c0.b2 temp.c3.b3
  c3 := decryptBFromT self temp.c3.b0 temp.c2.b1 temp.c1.b2 temp.c0.b3

/-- The loop of `r_decrypt`: `n` rounds down to round 2. -/
def decryptLoop (self : Rijndael) : ℕ → Aes.State → Aes.State
  | 0, b => b
  | n + 1, b => decryptLoop self n (decryptStep self (addKey self b (n + 2)))

/-- `r_decrypt`. -/
def rDecrypt (self : Rijndael) (a : Aes.State) : Aes.State :=
  let b := decryptStep self (addKey self a self.mURounds)
  let b := decryptLoop self (self.mURounds - 2) b
  let temp := addKey self b 1
  let s5 := self.tables.s5
  let b : Aes.State :=
    { c0 := ⟨byteOf s5 temp.c0.b0, byteOf s5 temp.c3.b1, byteOf s5 temp.c2.b2, byteOf s5 temp.c1.b3⟩
      c1 := ⟨byteOf s5 temp.c1.b0, byteOf s5 temp.c0.b1, byteOf s5 temp.c3.b2, byteOf s5 temp.c2.b3⟩
      c2 := ⟨byteOf s5 temp.c2.b0, byteOf s5 temp.c1.b1, byteOf s5 temp.c0.b2, byteOf s5 temp.c3.b3⟩
      c3 := ⟨byteOf s5 temp.c3.b0, byteOf s5 temp.c2.b1, byteOf s5 temp.c1.b2,
        byteOf s5 temp.c0.b3⟩ }
  addKey self b 0

/-! ## Modes of operation -/

/-- `ECB` with either direction of the cipher: `n` blocks from an offset on. -/
def ecbLoop (f : Aes.State → Aes.State) (input : List UInt8) : ℕ → ℕ → List UInt8 → List UInt8
  | 0, _, outBuffer => outBuffer
  | n + 1, at', outBuffer =>
    ecbLoop f input n (at' + 16) (writeBlock outBuffer at' (f (readBlock input at')))

/-- The loop of `blockEncrypt` for `CBC`: `n` blocks, with `input32` and `outBuffer` where they
are. -/
def cbcEncryptLoop (self : Rijndael) (input : List UInt8) : ℕ → ℕ → ℕ → List UInt8 → List UInt8
  | 0, _, _, outBuffer => outBuffer
  | n + 1, input32, at', outBuffer =>
    let block := readBlock outBuffer at' ^^^ readBlock input input32
    cbcEncryptLoop self input n (input32 + 16) (at' + 16)
      (writeBlock outBuffer (at' + 16) (rEncrypt self block))

/-- `ivb` moved by one bit, with a new last bit. -/
def shiftIn (ivb : Aes.State) (bit : UInt8) : Aes.State :=
  let bytes := blockBytes ivb
  readBlock (List.zipWith (fun a b : UInt8 ↦ a <<< 1 ||| b) bytes
    ((bytes.drop 1).map (fun a : UInt8 ↦ a >>> 7) ++ [bit])) 0

/-- Bit `k` of a buffer, from the top bit of a byte down. -/
def bitAt (m : List UInt8) (k : ℕ) : UInt8 := (m.getD (k / 8) 0 >>> (7 - .ofNat (k % 8))) &&& 1

/-- `outBuffer[k/8] ^= (block[0] & 0x80) >> (k & 7)`. -/
def flipBit (outBuffer : List UInt8) (k : ℕ) (block : Aes.State) : List UInt8 :=
  outBuffer.set (k / 8) (outBuffer.getD (k / 8) 0 ^^^ (block.c0.b0 &&& 0x80) >>> .ofNat (k % 8))

/-- `CFB1` for one block: `n` bits from bit `k` on. -/
def cfb1EncryptBits (self : Rijndael) : ℕ → ℕ → Aes.State → List UInt8 → Aes.State × List UInt8
  | 0, _, iv, outBuffer => (iv, outBuffer)
  | n + 1, k, iv, outBuffer =>
    let outBuffer := flipBit outBuffer k (rEncrypt self iv)
    cfb1EncryptBits self n (k + 1) (shiftIn iv (bitAt outBuffer k)) outBuffer

/-- `CFB1` for one block, backwards. -/
def cfb1DecryptBits (self : Rijndael) (input : List UInt8) :
    ℕ → ℕ → Aes.State → List UInt8 → Aes.State × List UInt8
  | 0, _, iv, outBuffer => (iv, outBuffer)
  | n + 1, k, iv, outBuffer =>
    let outBuffer := flipBit outBuffer k (rEncrypt self iv)
    cfb1DecryptBits self input n (k + 1) (shiftIn iv (bitAt input k)) outBuffer

/-- `CFB1`: neither `outBuffer` nor `input` moves from one block to the next. -/
def cfb1Loop (bits : Aes.State → List UInt8 → Aes.State × List UInt8) :
    ℕ → Aes.State → List UInt8 → List UInt8
  | 0, _, outBuffer => outBuffer
  | n + 1, iv, outBuffer =>
    let (iv, outBuffer) := bits iv outBuffer
    cfb1Loop bits n iv outBuffer

/-- `blockEncrypt`.  The length is in bits. -/
def blockEncrypt (self : Rijndael) (input : List UInt8) (inputLen : ℤ) (outBuffer : List UInt8) :
    ℤ × List UInt8 :=
  if self.mState ≠ .valid then (notInitialized, outBuffer)
  else if self.mDirection ≠ .encrypt then (badDirection, outBuffer)
  else if inputLen ≤ 0 then (0, outBuffer)
  else
    let numBlocks := inputLen.toNat / 128
    (128 * (numBlocks : ℤ), match self.mMode with
      | .ecb => ecbLoop (rEncrypt self) input numBlocks 0 outBuffer
      | .cbc =>
        let block := self.mInitVector ^^^ readBlock input 0
        cbcEncryptLoop self input (numBlocks - 1) 0 0
          (writeBlock outBuffer 0 (rEncrypt self block))
      | .cfb1 => cfb1Loop (cfb1EncryptBits self 128 0) numBlocks self.mInitVector outBuffer)

/-- The loop of `blockDecrypt` for `CBC`: `n` blocks, with `input32` where it is.  It is `none`
where `input32` has left the input. -/
def cbcDecryptLoop (self : Rijndael) (input : List UInt8) :
    ℕ → ℕ → ℕ → Aes.State → List UInt8 → Option (List UInt8)
  | 0, _, _, _, outBuffer => some outBuffer
  | n + 1, input32, at', iv, outBuffer =>
    let block := rDecrypt self (readBlock input at') ^^^ iv
    if input32 + 16 ≤ input.length then
      cbcDecryptLoop self input n (input32 + 64) (at' + 16) (readBlock input input32)
        (writeBlock outBuffer at' block)
    else none

/-- `blockDecrypt`.  The length is in bits. -/
def blockDecrypt (self : Rijndael) (input : List UInt8) (inputLen : ℤ) (outBuffer : List UInt8) :
    Option (ℤ × List UInt8) :=
  if self.mState ≠ .valid then some (notInitialized, outBuffer)
  else if self.mMode ≠ .cfb1 ∧ self.mDirection = .encrypt then some (badDirection, outBuffer)
  else if inputLen ≤ 0 then some (0, outBuffer)
  else
    let numBlocks := inputLen.toNat / 128
    (match self.mMode with
      | .ecb => some (ecbLoop (rDecrypt self) input numBlocks 0 outBuffer)
      | .cbc => cbcDecryptLoop self input numBlocks 0 0 self.mInitVector outBuffer
      | .cfb1 =>
        some (cfb1Loop (cfb1DecryptBits self input 128 0) numBlocks self.mInitVector outBuffer)).map
        fun outBuffer ↦ (128 * (numBlocks : ℤ), outBuffer)

end Rijndael

end AlphaMon
