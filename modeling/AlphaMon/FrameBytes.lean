import AlphaMon.Packet

/-!
# The bytes of a frame

What stands in a frame from a position on, as a list of bytes that ends where the frame does.
Formats are stated of such lists, and `Packet.frameFrom_eq_append` is how they are compared with
what the code reads at its offsets: a part that comes first is in the frame and is read there, and
the rest is what stands behind it.
-/

set_option autoImplicit false

namespace AlphaMon

open CString

namespace Packet

/-- The bytes of the frame from a position on. -/
def frameFrom (p : Packet) (i : ℕ) : List UInt8 := (p.data.take p.pktLen).drop i

variable {p : Packet} {i n : ℕ} {b : UInt8} {l r : List UInt8}

theorem frameFrom_eq_nil (h : p.pktLen ≤ i) : p.frameFrom i = [] :=
  List.drop_eq_nil_of_le ((List.length_take_le ..).trans h)

theorem frameFrom_drop (p : Packet) (i n : ℕ) : (p.frameFrom i).drop n = p.frameFrom (i + n) :=
  List.drop_drop

theorem frameFrom_eq_cons (h : i < p.pktLen) : p.frameFrom i = p.byte i :: p.frameFrom (i + 1) := by
  have hle := p.pktLen_le
  have hi : i < (p.data.take p.pktLen).length := by
    rw [List.length_take]
    omega
  rw [frameFrom, List.drop_eq_getElem_cons hi, List.getElem_take, byte, byteAt_of_lt (by omega),
    frameFrom]

theorem frameFrom_eq_cons_iff :
    p.frameFrom i = b :: r ↔ i < p.pktLen ∧ p.byte i = b ∧ p.frameFrom (i + 1) = r := by
  by_cases h : i < p.pktLen
  · rw [frameFrom_eq_cons h, List.cons.injEq, and_iff_right h]
  · rw [frameFrom_eq_nil (Nat.not_lt.1 h)]
    exact iff_of_false (List.cons_ne_nil _ _).symm fun h' ↦ h h'.1

/-- **A part that comes first** is in the frame and is read there. -/
theorem frameFrom_eq_append (hl : l ≠ []) : p.frameFrom i = l ++ r ↔
    i + l.length ≤ p.pktLen ∧ Reads p.data i l ∧ p.frameFrom (i + l.length) = r := by
  induction l generalizing i with
  | nil => exact absurd rfl hl
  | cons b l ih =>
    rw [List.cons_append, frameFrom_eq_cons_iff, reads_cons, List.length_cons, and_assoc]
    rcases List.eq_nil_or_concat l with rfl | ⟨_, _, rfl⟩
    · exact and_congr_right fun _ ↦ and_congr_right fun _ ↦ (and_iff_right (reads_nil _ _)).symm
    · rw [ih (by simp), Nat.add_right_comm, Nat.add_assoc]
      refine ⟨fun ⟨_, hb, hle, h⟩ ↦ ⟨hle, hb, h⟩, fun ⟨hle, hb, h⟩ ↦ ⟨by omega, hb, hle, h⟩⟩

/-- A part behind a position that is in the frame. -/
theorem frameFrom_eq_part (hi : i ≤ p.pktLen) (h : p.frameFrom i = l ++ r) :
    i + l.length ≤ p.pktLen ∧ p.frameFrom (i + l.length) = r := by
  rcases eq_or_ne l [] with rfl | hl
  · exact ⟨hi, h⟩
  · obtain ⟨hle, -, hr⟩ := (frameFrom_eq_append hl).1 h
    exact ⟨hle, hr⟩

/-- The part before a position that is in the frame. -/
theorem frameFrom_eq_bytes (h : i + n ≤ p.pktLen) :
    ∃ l, l.length = n ∧ p.frameFrom i = l ++ p.frameFrom (i + n) := by
  have hle := p.pktLen_le
  refine ⟨(p.frameFrom i).take n, ?_, ?_⟩
  · rw [List.length_take, frameFrom, List.length_drop, List.length_take]
    omega
  · rw [← frameFrom_drop, List.take_append_drop]

theorem ntohs_lt (p : Packet) (i : ℕ) : p.ntohs i < 2 ^ 16 := by
  have h := (p.byte i).toNat_lt
  have h' := (p.byte (i + 1)).toNat_lt
  rw [ntohs]
  omega

theorem reads_ntohs (p : Packet) (i : ℕ) : Reads p.data i (be16 (p.ntohs i)) := by
  have h := (p.byte i).toNat_lt
  have h' := (p.byte (i + 1)).toNat_lt
  rw [be16, reads_cons, reads_cons, ntohs]
  refine ⟨UInt8.toNat_inj.1 ?_, UInt8.toNat_inj.1 ?_, reads_nil _ _⟩
  · rw [UInt8.toNat_ofNat']
    show (p.byte i).toNat = _
    omega
  · rw [UInt8.toNat_ofNat']
    show (p.byte (i + 1)).toNat = _
    omega

/-- **A number in the frame.** -/
theorem frameFrom_eq_be16 (hn : n < 2 ^ 16) :
    p.frameFrom i = be16 n ++ r ↔ i + 2 ≤ p.pktLen ∧ p.ntohs i = n ∧ p.frameFrom (i + 2) = r := by
  rw [frameFrom_eq_append (by simp [be16]), be16_length]
  refine and_congr_right fun _ ↦ and_congr_left fun _ ↦ ⟨fun h ↦ reads_be16 h hn, ?_⟩
  rintro rfl
  exact reads_ntohs p i

/-- A small number in the frame. -/
theorem frameFrom_eq_byte (hn : n < 2 ^ 8) :
    p.frameFrom i = UInt8.ofNat n :: r ↔ i < p.pktLen ∧ (p.byte i).toNat = n ∧
      p.frameFrom (i + 1) = r := by
  rw [frameFrom_eq_cons_iff, ← UInt8.toNat_inj, UInt8.toNat_ofNat', Nat.mod_eq_of_lt hn]

end Packet

end AlphaMon
