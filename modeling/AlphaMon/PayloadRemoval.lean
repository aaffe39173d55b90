import AlphaMon.ProcessPacket

/-!
# Removing the payload

`remove_payload` compares an `int`, which counts up, with the difference of the length of the packet
and the end of its headers, which is a `size_t`.  `removeLoop` is this loop with all it can run
into: a write behind the memory of the packet, and the end of the `int`.

It removes the payload exactly when the packet does not end before its headers do, and is no longer
than an `int` counts (`payload_removal`).  For a packet that ends before, the difference wraps
around, and the loop runs through the memory behind it (`payload_removal_fails`).
-/

set_option autoImplicit false

namespace AlphaMon

open CString

/-- The loop of `remove_payload`: the packet it leaves, and the positions it wrote.  `i` is the
counter, and `left` how often it can still be incremented. -/
def removeLoop (bound offset : ℕ) : ℕ → ℕ → Packet → Option (Packet × List ℕ)
  | 0, i, p => if i < bound then none else some (p, [])
  | left + 1, i, p =>
    if i < bound then
      if offset + i < p.data.length then
        (removeLoop bound offset left (i + 1) (p.set (offset + i) 0)).map fun r ↦
          (r.1, (offset + i) :: r.2)
      else none
    else some (p, [])

/-- `remove_payload`, with the difference as the C computes it. -/
def removePayloadWrites (p : Packet) (offset : ℕ) : Option (Packet × List ℕ) :=
  removeLoop ((p.pktLen + 2 ^ 64 - offset) % 2 ^ 64) offset intMax 0 p

/-- The end of the headers that `l4_payload_remover` selects. -/
def Packet.headerEnd (p : Packet) : ℕ :=
  let proto := (p.byte 23).toNat
  if proto = protoTcp then 54 else if proto = protoUdp ∨ proto = protoIcmp then 42 else 34

/-- `l4_payload_remover` on an IPv4 packet. -/
def l4PayloadRemoverWrites (p : Packet) : Option (Packet × List ℕ) :=
  removePayloadWrites p p.headerEnd

variable {p q : Packet} {bound offset left i : ℕ} {writes : List ℕ}

/-! ## The loop -/

/-- **A loop that ends in time** is the one over so many bytes, and writes exactly these. -/
theorem removeLoop_eq (hbound : bound ≤ i + left) (hlen : offset + bound ≤ p.data.length) :
    removeLoop bound offset left i p =
      some (p.zeroLoop (bound - i) (offset + i), List.range' (offset + i) (bound - i)) := by
  induction left generalizing i p with
  | zero => rw [removeLoop, if_neg (by omega), show bound - i = 0 by omega]; rfl
  | succ left ih =>
    rw [removeLoop]
    split
    · next hi =>
      rw [if_pos (by omega), ih (by omega) (by simpa using hlen)]
      obtain ⟨n, hn⟩ : ∃ n, bound - i = n + 1 := ⟨bound - i - 1, by omega⟩
      rw [hn, show bound - (i + 1) = n by omega]
      rfl
    · rw [show bound - i = 0 by omega]
      rfl

/-- A loop that can not end in time does not end well. -/
theorem removeLoop_eq_none (hbound : i + left < bound) :
    removeLoop bound offset left i p = none := by
  induction left generalizing i p with
  | zero => exact if_pos hbound
  | succ left ih =>
    rw [removeLoop, if_pos (by omega), ih (by omega)]
    simp

/-- The difference wraps around for a packet that ends before its headers. -/
theorem removePayloadWrites_short (hoff : offset ≤ 54) (h : p.pktLen < offset) :
    removePayloadWrites p offset = none := by
  refine removeLoop_eq_none ?_
  rw [Nat.mod_eq_of_lt (by omega), intMax]
  omega

/-- **What the code does to a packet that does not end before its headers.** -/
theorem removePayloadWrites_eq (h32 : p.pktLen < 2 ^ 32) (h : offset ≤ p.pktLen) :
    removePayloadWrites p offset = if p.pktLen - offset ≤ intMax then
      (p.removePayload offset).map fun q ↦ (q, List.range' offset (p.pktLen - offset))
        else none := by
  have hbound : (p.pktLen + 2 ^ 64 - offset) % 2 ^ 64 = p.pktLen - offset := by omega
  rw [removePayloadWrites, hbound, Packet.removePayload, if_pos h]
  split
  · next hmax =>
    rw [removeLoop_eq (by omega) (by have := p.pktLen_le; omega)]
    rfl
  · next hmax => exact removeLoop_eq_none (by omega)

/-! ## The payload -/

/-- Exactly the payload, which starts at `start`, has been written, with zeros. -/
structure Packet.Removed (start : ℕ) (p q : Packet) (writes : List ℕ) : Prop where
  writes : ∀ j, j ∈ writes ↔ start ≤ j ∧ j < p.pktLen
  zero : ∀ j, start ≤ j → j < p.pktLen → q.byte j = 0
  frame : Packet.SameOutside (fun j ↦ start ≤ j ∧ j < p.pktLen) p q

theorem Packet.headerEnd_le (p : Packet) : p.headerEnd ≤ 54 := by
  rw [headerEnd]
  split_ifs <;> decide

/-- The packet is the one of `l4PayloadRemover`. -/
theorem l4PayloadRemoverWrites_packet (h32 : p.pktLen < 2 ^ 32)
    (hmax : p.pktLen - p.headerEnd ≤ intMax) :
    (l4PayloadRemoverWrites p).map Prod.fst = l4PayloadRemover p := by
  have hremover : l4PayloadRemover p = p.removePayload p.headerEnd := rfl
  rw [l4PayloadRemoverWrites, hremover]
  by_cases hle : p.headerEnd ≤ p.pktLen
  · rw [removePayloadWrites_eq h32 hle, if_pos hmax, Option.map_map]
    exact Option.map_id'
  · rw [removePayloadWrites_short p.headerEnd_le (by omega), Packet.removePayload, if_neg hle]
    rfl

/-- **`l4_payload_remover` removes exactly the payload** of a packet that does not end before its
headers, and whose payload is no longer than an `int` counts; with any other packet it does not come
to an end. -/
theorem payload_removal (h32 : p.pktLen < 2 ^ 32) :
    (∃ q writes, l4PayloadRemoverWrites p = some (q, writes) ∧ p.Removed p.headerEnd q writes) ↔
      p.headerEnd ≤ p.pktLen ∧ p.pktLen - p.headerEnd ≤ intMax := by
  constructor
  · rintro ⟨q, writes, hrun, -⟩
    rw [l4PayloadRemoverWrites] at hrun
    by_cases hle : p.headerEnd ≤ p.pktLen
    · rw [removePayloadWrites_eq h32 hle] at hrun
      refine ⟨hle, ?_⟩
      by_contra hmax
      rw [if_neg hmax] at hrun
      exact absurd hrun (by simp)
    · rw [removePayloadWrites_short p.headerEnd_le (by omega)] at hrun
      exact absurd hrun (by simp)
  · rintro ⟨hle, hmax⟩
    obtain ⟨q, hq⟩ : ∃ q, p.removePayload p.headerEnd = some q := ⟨_, if_pos hle⟩
    obtain ⟨-, hframe, hzero⟩ := Packet.removePayload_spec hq
    refine ⟨q, List.range' p.headerEnd (p.pktLen - p.headerEnd), ?_, fun j ↦ ?_, hzero, hframe⟩
    · rw [l4PayloadRemoverWrites, removePayloadWrites_eq h32 hle, if_pos hmax, hq]
      rfl
    · rw [List.mem_range'_1]
      omega

/-- A UDP packet with four bytes of payload, and one that ends before its headers. -/
def sampleUdpPacket : Packet := ⟨(List.replicate 46 1).set 23 17, 46, by decide⟩

def shortPacket : Packet := ⟨(List.replicate 64 1).set 23 17, 40, by decide⟩

theorem payload_removal_sample :
    ∃ q writes, l4PayloadRemoverWrites sampleUdpPacket = some (q, writes) ∧
    sampleUdpPacket.Removed sampleUdpPacket.headerEnd q writes :=
  (payload_removal (by decide)).2 ⟨by decide, by decide⟩

/-- The packet that ends before its headers is not left unchanged. -/
theorem payload_removal_fails : ¬∀ p : Packet, p.pktLen < 2 ^ 32 →
    ∃ q writes, l4PayloadRemoverWrites p = some (q, writes) ∧ p.Removed p.headerEnd q writes := by
  intro h
  obtain ⟨q, writes, hrun, -⟩ := h shortPacket (by decide)
  rw [l4PayloadRemoverWrites, removePayloadWrites_short (Packet.headerEnd_le _) (by decide)] at hrun
  exact absurd hrun (by simp)

end AlphaMon
