import AlphaMon.Struct

/-!
# Hashes and random characters

`hash_calculator.c`: the bucket of a flow, the bucket of a name, the slot of a client, and the
character that replaces a letter.  The last one reads the time stamp counter; here and everywhere
else a value of `rte_get_tsc_cycles` is an argument, so that every theorem is about every value the
counter can have.
-/

set_option autoImplicit false

namespace AlphaMon

/-- `getHash`: the bucket of a flow. -/
def getHash (sip dip : BitVec 128) (sp dp ptl : ℕ) (maxDim : ℕ) : ℕ :=
  (sip ^^^ dip ^^^ BitVec.ofNat 128 sp ^^^ BitVec.ofNat 128 dp ^^^ BitVec.ofNat 128 ptl).toNat
    % maxDim

/-- The 32-bit accumulator of `nameHash`: `hash * 33 + c`, with `c` a signed character. -/
def nameHashLoop (hash : BitVec 32) : List UInt8 → BitVec 32
  | [] => hash
  | c :: s => nameHashLoop (((hash <<< 5) + hash) + c.toBitVec.signExtend 32) s

/-- `nameHash`: the bucket of a name. -/
def nameHash (s : List UInt8) : ℕ := (nameHashLoop 5381#32 s).toNat % flowTableSize

/-- `getHashClient`: the slot of a client. -/
def getHashClient (sip : BitVec 128) (maxDim : ℕ) : ℕ :=
  let kMul : BitVec 64 := 0x9ddfea08eb382d69#64
  let low := sip.setWidth 64
  let high := (sip >>> 64).setWidth 64
  let a := (low ^^^ high) * kMul
  let a := a ^^^ (a >>> 47)
  let b := (high ^^^ a) * kMul
  let b := b ^^^ (b >>> 47)
  let b := b * kMul
  b.toNat % maxDim

/-- `randChar`: one of the letters `A` to `Z`. -/
def randChar (tsc : ℕ) : UInt8 := UInt8.ofNat (65 + tsc % 26)

/-- A letter `A` to `Z`. -/
def IsCapital (c : UInt8) : Prop := 65 ≤ c ∧ c ≤ 90

instance (c : UInt8) : Decidable (IsCapital c) := inferInstanceAs (Decidable (_ ∧ _))

theorem isCapital_randChar (tsc : ℕ) : IsCapital (randChar tsc) := by
  have h : ∀ r < 26, IsCapital (UInt8.ofNat (65 + r)) := by decide
  exact h _ (Nat.mod_lt _ (by decide))

end AlphaMon
