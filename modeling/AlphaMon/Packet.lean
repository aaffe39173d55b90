import AlphaMon.Memory.CString
import AlphaMon.NameTable

/-!
# Packets in memory

A packet is a frame in memory together with the memory that follows it, which the C string functions
and the parsers of the name modules reach when nothing stops them earlier.  Positions are counted
from the first byte of the frame, so that the constants are those of the code: the IPv4 header is at
14, the transport header at 34.

`removePayload` is the loop of `remove_payload`, and `Packet.mask` the loop with which the name
modules replace the bytes of a name by random letters.  `HandlerResult` is what a name module leaves
behind: the packet, its return value, the table of names, and the call of `table_add` it made.
-/

set_option autoImplicit false

namespace AlphaMon

open CString

/-- A packet and the memory after it. -/
structure Packet where
  /-- The bytes of the frame, and those in memory after it. -/
  data : List UInt8
  /-- `pkt_len`: the length of the frame. -/
  pktLen : ℕ
  /-- The frame is in memory. -/
  pktLen_le : pktLen ≤ data.length
  deriving DecidableEq

namespace Packet

/-- The frame in another place of the memory, with what follows it there. -/
def followedBy (p : Packet) (after : List UInt8) : Packet :=
  ⟨p.data.take p.pktLen ++ after, p.pktLen, by simp [p.pktLen_le]⟩

/-- The byte at a position. -/
def byte (p : Packet) (i : ℕ) : UInt8 := byteAt p.data i

/-- Write a byte. -/
def set (p : Packet) (i : ℕ) (b : UInt8) : Packet :=
  ⟨p.data.set i b, p.pktLen, by simpa using p.pktLen_le⟩

/-- The C string at a position. -/
def text (p : Packet) (i : ℕ) : List UInt8 := cstr p.data i

/-- `ntohs` of the two bytes at a position. -/
def ntohs (p : Packet) (i : ℕ) : ℕ := (p.byte i).toNat * 256 + (p.byte (i + 1)).toNat

/-- The 32-bit word at a position, as a little-endian machine reads it. -/
def word (p : Packet) (i : ℕ) : BitVec 32 :=
  (p.byte (i + 3)).toBitVec ++ (p.byte (i + 2)).toBitVec ++ (p.byte (i + 1)).toBitVec ++
    (p.byte i).toBitVec

/-- Write a 32-bit word, least significant byte first. -/
def setWord (p : Packet) (i : ℕ) (w : BitVec 32) : Packet :=
  (((p.set i ⟨w.setWidth 8⟩).set (i + 1) ⟨(w >>> 8).setWidth 8⟩).set (i + 2)
    ⟨(w >>> 16).setWidth 8⟩).set (i + 3) ⟨(w >>> 24).setWidth 8⟩

@[simp] theorem set_pktLen (p : Packet) (i : ℕ) (b : UInt8) : (p.set i b).pktLen = p.pktLen := rfl

@[simp] theorem set_length (p : Packet) (i : ℕ) (b : UInt8) :
    (p.set i b).data.length = p.data.length :=
  List.length_set ..

theorem set_byte (p : Packet) (i j : ℕ) (b : UInt8) :
    (p.set i b).byte j = if i = j ∧ i < p.data.length then b else p.byte j :=
  byteAt_set ..

/-- The word written is the word read. -/
theorem word_setWord {p : Packet} {i : ℕ} (h : i + 4 ≤ p.data.length) (w : BitVec 32) :
    (p.setWord i w).word i = w := by
  simp only [setWord, word, set_byte, set_length]
  rw [if_pos ⟨trivial, by omega⟩, if_neg (by omega), if_pos ⟨trivial, by omega⟩, if_neg (by omega),
    if_neg (by omega),
    if_pos ⟨trivial, by omega⟩, if_neg (by omega), if_neg (by omega), if_neg (by omega),
      if_pos ⟨trivial, by omega⟩]
  refine BitVec.eq_of_getLsbD_eq fun k hk ↦ ?_
  simp only [BitVec.getLsbD_append, BitVec.getLsbD_setWidth, BitVec.getLsbD_ushiftRight]
  split_ifs <;> simp <;> grind

/-- Packets with the same bytes are the same. -/
theorem ext_byte {p q : Packet} (hlen : p.pktLen = q.pktLen) (hdata : p.data.length = q.data.length)
    (h : ∀ i, p.byte i = q.byte i) : p = q := by
  obtain ⟨d, n, hd⟩ := p
  obtain ⟨e, m, he⟩ := q
  obtain rfl : n = m := hlen
  obtain rfl : d = e := by
    refine List.ext_getElem hdata fun i h₁ h₂ ↦ ?_
    have := h i
    rwa [byte, byte, byteAt_of_lt h₁, byteAt_of_lt h₂] at this
  rfl

/-! ## Removing the payload -/

/-- The loop of `remove_payload`, over `n` bytes. -/
def zeroLoop : ℕ → ℕ → Packet → Packet
  | 0, _, p => p
  | n + 1, i, p => zeroLoop n (i + 1) (p.set i 0)

/-- `remove_payload`.  The C computes the number of bytes as an unsigned difference: for a packet
that ends before the offset it wraps around and the loop runs off the memory of the packet. -/
def removePayload (p : Packet) (offset : ℕ) : Option Packet :=
  if offset ≤ p.pktLen then some (zeroLoop (p.pktLen - offset) offset p) else none

/-! ## What stays the same -/

/-- The bytes outside of a region are the same. -/
structure SameOutside (P : ℕ → Prop) (p q : Packet) : Prop where
  pktLen : q.pktLen = p.pktLen
  length : q.data.length = p.data.length
  byte : ∀ j, ¬P j → q.byte j = p.byte j

namespace SameOutside

variable {P Q : ℕ → Prop} {p q r : Packet}

theorem refl (P : ℕ → Prop) (p : Packet) : SameOutside P p p := ⟨rfl, rfl, fun _ _ ↦ rfl⟩

theorem trans (hpq : SameOutside P p q) (hqr : SameOutside P q r) : SameOutside P p r :=
  ⟨hqr.pktLen.trans hpq.pktLen, hqr.length.trans hpq.length,
    fun j hj ↦ (hqr.byte j hj).trans (hpq.byte j hj)⟩

theorem mono (h : SameOutside P p q) (hPQ : ∀ j, P j → Q j) : SameOutside Q p q :=
  ⟨h.pktLen, h.length, fun j hj ↦ h.byte j fun hP ↦ hj (hPQ j hP)⟩

theorem set (p : Packet) (i : ℕ) (b : UInt8) : SameOutside (· = i) p (p.set i b) :=
  ⟨rfl, set_length .., fun _ hj ↦ (set_byte ..).trans (if_neg fun h ↦ hj h.1.symm)⟩

theorem setWord (p : Packet) (i : ℕ) (w : BitVec 32) :
    SameOutside (fun j ↦ i ≤ j ∧ j < i + 4) p (p.setWord i w) := by
  rw [Packet.setWord]
  refine ((((set p i _).mono ?_).trans ((set _ (i + 1) _).mono ?_)).trans
    ((set _ (i + 2) _).mono ?_)).trans ((set _ (i + 3) _).mono ?_) <;> omega

theorem zeroLoop (n i : ℕ) (p : Packet) :
    SameOutside (fun j ↦ i ≤ j ∧ j < i + n) p (p.zeroLoop n i) := by
  induction n generalizing i p with
  | zero => exact refl _ p
  | succ n ih => exact ((set p i 0).mono (by omega)).trans ((ih (i + 1) _).mono (by omega))

/-- Text in the part that is the same. -/
theorem text (h : SameOutside P p q) {i : ℕ} (hP : ∀ j, i ≤ j → ¬P j) : q.text i = p.text i := by
  have hdrop : q.data.drop i = p.data.drop i := by
    refine List.ext_getElem (by simp [h.length]) fun j h₁ h₂ ↦ ?_
    simp only [List.length_drop] at h₁ h₂
    have hj := h.byte (i + j) (hP _ (Nat.le_add_right ..))
    rw [Packet.byte, Packet.byte, byteAt_of_lt (by omega), byteAt_of_lt (by omega)] at hj
    simpa using hj
  rw [Packet.text, Packet.text, cstr, cstr, hdrop]

theorem ntohs (h : SameOutside P p q) {i : ℕ} (h₁ : ¬P i) (h₂ : ¬P (i + 1)) :
    q.ntohs i = p.ntohs i := by
  rw [Packet.ntohs, Packet.ntohs, h.byte i h₁, h.byte _ h₂]

theorem word (h : SameOutside P p q) {i : ℕ} (hP : ∀ j, i ≤ j → j < i + 4 → ¬P j) :
    q.word i = p.word i := by
  rw [Packet.word, Packet.word, h.byte i (hP i (by omega) (by omega)),
    h.byte (i + 1) (hP _ (by omega) (by omega)),
    h.byte (i + 2) (hP _ (by omega) (by omega)), h.byte (i + 3) (hP _ (by omega) (by omega))]

end SameOutside

/-- The bytes after the loop of `remove_payload`. -/
theorem zeroLoop_byte {n i : ℕ} {p : Packet} {j : ℕ} (h₁ : i ≤ j) (h₂ : j < i + n)
    (h : j < p.data.length) : (zeroLoop n i p).byte j = 0 := by
  induction n generalizing i p with
  | zero => omega
  | succ n ih =>
    rw [zeroLoop]
    by_cases hij : i = j
    · subst hij
      rw [(SameOutside.zeroLoop n (i + 1) _).byte i (by omega), set_byte, if_pos ⟨rfl, h⟩]
    · exact ih (by omega) (by omega) (by rwa [set_length])

/-- **Removing the payload** zeroes it and touches nothing else. -/
theorem removePayload_spec {p q : Packet} {offset : ℕ} (h : p.removePayload offset = some q) :
    offset ≤ p.pktLen ∧ SameOutside (fun j ↦ offset ≤ j ∧ j < p.pktLen) p q ∧
      ∀ j, offset ≤ j → j < p.pktLen → q.byte j = 0 := by
  rw [removePayload] at h
  split at h
  · next hle =>
    obtain rfl := Option.some.inj h
    refine ⟨hle, (SameOutside.zeroLoop _ _ p).mono (by omega), fun j h₁ h₂ ↦ ?_⟩
    exact zeroLoop_byte h₁ (by omega) (h₂.trans_le p.pktLen_le)
  · exact absurd h (by simp)

/-! ## Random letters -/

/-- A byte that is not to be kept becomes a random letter.  `tsc` is the time stamp counter when a
loop is at a position. -/
def maskByte (keep : UInt8 → Bool) (tsc : ℕ → ℕ) (p : Packet) (i : ℕ) : Packet :=
  if keep (p.byte i) then p else p.set i (randChar (tsc i))

/-- Every byte of `n` from position `i` on that is not to be kept becomes a random letter. -/
def mask (keep : UInt8 → Bool) (tsc : ℕ → ℕ) : ℕ → ℕ → Packet → Packet
  | 0, _, p => p
  | n + 1, i, p => mask keep tsc n (i + 1) (maskByte keep tsc p i)

variable {keep : UInt8 → Bool} {tsc : ℕ → ℕ}

@[simp] theorem maskByte_pktLen (p : Packet) (i : ℕ) :
    (maskByte keep tsc p i).pktLen = p.pktLen := by
  rw [maskByte]
  split <;> rfl

@[simp] theorem maskByte_length (p : Packet) (i : ℕ) :
    (maskByte keep tsc p i).data.length = p.data.length := by
  rw [maskByte]
  split
  · rfl
  · exact set_length ..

theorem maskByte_byte {p : Packet} {i : ℕ} (h : i < p.data.length) (j : ℕ) :
    (maskByte keep tsc p i).byte j =
      if i = j ∧ keep (p.byte j) = false then randChar (tsc j) else p.byte j := by
  rw [maskByte]
  by_cases hij : i = j
  · subst hij
    split
    · next hk => simp [hk]
    · next hk => rw [set_byte, if_pos ⟨rfl, h⟩, if_pos ⟨rfl, by simpa using hk⟩]
  · split
    · simp [hij]
    · rw [set_byte, if_neg (by tauto), if_neg (by tauto)]

@[simp] theorem mask_pktLen (n i : ℕ) (p : Packet) : (mask keep tsc n i p).pktLen = p.pktLen := by
  induction n generalizing i p with
  | zero => rfl
  | succ n ih => rw [mask, ih, maskByte_pktLen]

@[simp] theorem mask_length (n i : ℕ) (p : Packet) :
    (mask keep tsc n i p).data.length = p.data.length := by
  induction n generalizing i p with
  | zero => rfl
  | succ n ih => rw [mask, ih, maskByte_length]

/-- **The bytes after the loop.** -/
theorem mask_byte {n i : ℕ} {p : Packet} (h : i + n ≤ p.data.length) (j : ℕ) :
    (mask keep tsc n i p).byte j =
      if i ≤ j ∧ j < i + n ∧ keep (p.byte j) = false then randChar (tsc j) else p.byte j := by
  induction n generalizing i p with
  | zero => rw [mask, if_neg (by omega)]
  | succ n ih =>
    rw [mask, ih (by rw [maskByte_length]; omega), maskByte_byte (by omega)]
    by_cases hij : i = j
    · subst hij
      rw [if_neg (by omega)]
      exact if_congr (by simp) rfl rfl
    · simp only [hij, false_and, if_false]
      refine if_congr ⟨fun h ↦ ⟨by omega, by omega, h.2.2⟩, fun h ↦ ⟨by omega, ?_, h.2.2⟩⟩ rfl rfl
      have := h.2.1
      omega

/-- The loop touches nothing but the bytes it goes over. -/
theorem mask_byte_ne {n i j : ℕ} (h : ¬(i ≤ j ∧ j < i + n)) (p : Packet) :
    (mask keep tsc n i p).byte j = p.byte j := by
  induction n generalizing i p with
  | zero => rfl
  | succ n ih =>
    rw [mask, ih (by omega), maskByte]
    split
    · rfl
    · rw [set_byte, if_neg (by omega)]

/-- The bytes of `n` from position `i` on have become letters, except those that are kept, and
nothing else has changed. -/
structure Obfuscated (keep : UInt8 → Bool) (i n : ℕ) (p q : Packet) : Prop where
  pktLen : q.pktLen = p.pktLen
  length : q.data.length = p.data.length
  letter : ∀ j, i ≤ j → j < i + n → keep (p.byte j) = false → IsCapital (q.byte j)
  frame : ∀ j, ¬(i ≤ j ∧ j < i + n ∧ keep (p.byte j) = false) → q.byte j = p.byte j

theorem mask_obfuscated {n i : ℕ} {p : Packet} (h : i + n ≤ p.data.length) :
    Obfuscated keep i n p (mask keep tsc n i p) where
  pktLen := mask_pktLen ..
  length := mask_length ..
  letter j h₁ h₂ h₃ := by
    rw [mask_byte h, if_pos ⟨h₁, h₂, h₃⟩]
    exact isCapital_randChar _
  frame j hj := by rw [mask_byte h, if_neg hj]

end Packet

/-! ## Name modules -/

/-- Where the payload of an IPv4 packet starts, from the byte with the TCP data offset in its upper
half; protocol 0 is TCP, 1 is UDP.  The test against 60 never fails. -/
def payloadOffset (protocol : ℕ) (offset : UInt8) : ℕ :=
  if offset.toNat / 16 * 4 > 60 then 0
  else if protocol = 0 then 34 + offset.toNat / 16 * 4
  else 42

/-- What a name module gets from outside: what its call of `table_add` gets; the time stamp counter
at an iteration of one of its loops; whether the scratch buffers of `ReadName` can be allocated; and
the value in the return register when a function ends without returning one. -/
structure HandlerEnv where
  table : TableEnv
  tsc : ℕ → ℕ → ℕ
  allocName : ℕ → Bool := fun _ ↦ true
  noReturn : ℤ := 0

/-- What a name module leaves behind. -/
structure HandlerResult where
  /-- The packet. -/
  packet : Packet
  /-- The return value: nonzero when the name was anonymised. -/
  flag : ℤ
  /-- The table of names. -/
  db : HashStruct
  /-- The name passed to `table_add` and the number of users it returned, if it was called. -/
  counted : Option (List UInt8 × ℤ)

end AlphaMon
