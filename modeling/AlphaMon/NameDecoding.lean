import AlphaMon.ReadName

/-!
# Names as `ReadName` decodes them

A name at a position of a message is a `0`; or a pointer and the name where it points; or a label,
behind a byte with its length, and the name behind it (`Packet.NameAt`).  Such a name has the
positions of its letters and those of its octets, the lengths, pointers and the last `0`, and takes
a number of bytes where it starts.

When no letter is also an octet, `ReadName` goes through the name, makes its letters capitals and
leaves everything else alone, and it counts the bytes the name takes (`readName_decodes`).
-/

set_option autoImplicit false

namespace AlphaMon

open CString

/-- A byte of a label: not the last byte of a name, and no pointer. -/
def IsLetter (b : UInt8) : Prop := b ≠ 0 ∧ b.toNat < 192

/-- Where the pointer at a position points: at an offset of 14 bits from the start of the
message. -/
def Packet.target (p : Packet) (buffer i : ℕ) :
    ℕ := buffer + ((p.byte i).toNat % 64 * 256 + (p.byte (i + 1)).toNat)

/-- A name at a position of a message that starts at `buffer`: the number of bytes it takes there,
and the positions of its letters and of its octets. -/
inductive Packet.NameAt (p : Packet) (buffer : ℕ) : ℕ → ℕ → List ℕ → List ℕ → Prop
  /-- The end of a name. -/
  | root {i : ℕ} (hi : i < p.data.length) (h0 : p.byte i = 0) : NameAt p buffer i 1 [] [i]
  /-- A pointer, and the name where it points. -/
  | pointer {i n : ℕ} {letters octets : List ℕ} (hi : i + 1 < p.data.length)
    (hptr : 192 ≤ (p.byte i).toNat)
      (hrest : NameAt p buffer (p.target buffer i) n letters octets) :
      NameAt p buffer i 2 letters (i :: (i + 1) :: octets)
  /-- A label, and the name behind it. -/
  | label {i k n : ℕ} {letters octets : List ℕ} (hk : (p.byte i).toNat = k) (hpos : 1 ≤ k)
    (hle : k ≤ 63)
      (hlabel : ∀ j ∈ List.range' (i + 1) k, IsLetter (p.byte j))
      (hrest : NameAt p buffer (i + 1 + k) n letters octets) :
      NameAt p buffer i (1 + k + n) (List.range' (i + 1) k ++ letters) (i :: octets)

variable {buffer fuel n m k i : ℕ} {letters octets : List ℕ} {tsc : ℕ → ℕ} {p q : Packet}

theorem IsLetter.of_isCapital {b : UInt8} (h : IsCapital b) : IsLetter b := by
  have h₁ : 65 ≤ b.toNat := h.1
  have h₂ : b.toNat ≤ 90 := h.2
  refine ⟨?_, by omega⟩
  rintro rfl
  simp at h₁

/-- `ReadName` computes where a pointer points. -/
theorem Packet.pointer_eq_target (h : 192 ≤ (p.byte i).toNat) :
    p.pointer buffer i = p.target buffer i := by
  have := (p.byte i).toNat_lt
  unfold pointer target
  omega

/-! ## Moving through labels -/

/-- The loop of `ReadName` has moved over `n` bytes and has made those at the positions `P`
letters. -/
structure NameReader.Moves (P : ℕ → Prop) (n : ℕ) (s s' : NameReader) : Prop where
  ok : s'.Ok
  reader : s'.reader = s.reader + n
  jumped : s'.jumped = s.jumped
  count : s'.count = if s.jumped then s.count else s.count + n
  same : s.packet.SameOutside P s'.packet
  letter : ∀ j, P j → IsCapital (s'.packet.byte j)

namespace NameReader

variable {P Q : ℕ → Prop} {s s' s'' : NameReader}

theorem Moves.refl (hs : s.Ok) : Moves (fun _ ↦ False) 0 s s :=
  ⟨hs, rfl, rfl, by simp, .refl _ _, fun _ h ↦ h.elim⟩

theorem Moves.trans (h : Moves P n s s') (h' : Moves Q m s' s'') :
    Moves (fun j ↦ P j ∨ Q j) (n + m) s s'' where
  ok := h'.ok
  reader := by rw [h'.reader, h.reader, Nat.add_assoc]
  jumped := h'.jumped.trans h.jumped
  count := by
    rw [h'.count, h.jumped, h.count]
    split_ifs <;> omega
  same := (h.same.mono fun _ ↦ .inl).trans (h'.same.mono fun _ ↦ .inr)
  letter j hj := by
    by_cases hQ : Q j
    · exact h'.letter j hQ
    · rw [h'.same.byte j hQ]
      exact h.letter j (hj.resolve_right hQ)

theorem Moves.congr (h : Moves P n s s') (hPQ : ∀ j, P j ↔ Q j) : Moves Q n s s' :=
  ⟨h.ok, h.reader, h.jumped, h.count, h.same.mono fun j ↦ (hPQ j).1, fun j hj ↦
    h.letter j ((hPQ j).2 hj)⟩

/-- What a step does to the number of bytes at a byte that is no pointer. -/
theorem step_count (hlt : (s.packet.byte s.reader).toNat < 192) (buffer t : ℕ) :
    (s.step buffer t).jumped = s.jumped ∧
      (s.step buffer t).count = if s.jumped then s.count else s.count + 1 := by
  simp only [step, if_neg (Nat.not_le.2 hlt)]
  split_ifs <;> exact ⟨rfl, rfl⟩

/-- The step at the length of a label. -/
theorem moves_length (hs : s.Ok) (h0 : s.left = 0) (hlt : (s.packet.byte s.reader).toNat < 192)
    (t : ℕ) :
    Moves (fun _ ↦ False) 1 s (s.step buffer t) ∧ (s.step buffer t).left =
      (s.packet.byte s.reader).toNat := by
  obtain ⟨hok, hstate⟩ := @step_spec buffer s hs t
  obtain ⟨hjumped, hcount⟩ := step_count hlt buffer t
  rw [if_neg (Nat.not_le.2 hlt), if_pos h0] at hstate
  have hpacket : (s.step buffer t).packet = s.packet := congrArg NameState.packet hstate
  refine ⟨⟨hok, congrArg NameState.pos hstate, hjumped, hcount, ?_, fun _ h ↦ h.elim⟩,
    congrArg NameState.left hstate⟩
  rw [hpacket]
  exact .refl _ _

/-- The step at a byte of a label. -/
theorem moves_letter (hs : s.Ok) (hleft : s.left = k + 1)
    (hletter : IsLetter (s.packet.byte s.reader)) (t : ℕ) :
    Moves (· = s.reader) 1 s (s.step buffer t) ∧ (s.step buffer t).left = k := by
  obtain ⟨h0, hlt⟩ := hletter
  obtain ⟨hok, hstate⟩ := @step_spec buffer s hs t
  obtain ⟨hjumped, hcount⟩ := step_count hlt buffer t
  rw [if_neg (Nat.not_le.2 hlt), if_neg (by omega), hleft] at hstate
  have hpacket : (s.step buffer t).packet = s.packet.set s.reader (randChar t) :=
    congrArg NameState.packet hstate
  have hmem : s.reader < s.packet.data.length := Nat.not_le.1 fun hle ↦ h0 (byteAt_of_le hle)
  refine ⟨⟨hok, congrArg NameState.pos hstate, hjumped, hcount, ?_, ?_⟩,
    congrArg NameState.left hstate⟩
  · rw [hpacket]
    exact .set ..
  · rintro j rfl
    rw [hpacket, Packet.set_byte, if_pos ⟨rfl, hmem⟩]
    exact isCapital_randChar t

/-- A step of the loop. -/
theorem readNameLoop_succ (h0 : s.packet.byte s.reader ≠ 0) :
    readNameLoop buffer tsc (fuel + 1) s = readNameLoop buffer tsc fuel
      (s.step buffer (tsc fuel)) := by
  rw [readNameLoop, if_neg h0]

/-- **The bytes of a label** become letters. -/
theorem moves_label (hs : s.Ok) (hleft : s.left = k)
    (hlabel : ∀ j ∈ List.range' s.reader k, IsLetter (s.packet.byte j)) (tsc : ℕ → ℕ) (fuel : ℕ) :
    ∃ s', readNameLoop buffer tsc (fuel + k) s = readNameLoop buffer tsc fuel s' ∧
      Moves (· ∈ List.range' s.reader k) k s s' ∧ s'.left = 0 := by
  induction k generalizing s with
  | zero => exact ⟨s, rfl, (Moves.refl hs).congr fun j ↦ ⟨False.elim, fun h ↦ by simp at h⟩, hleft⟩
  | succ k ih =>
    rw [List.range'_succ] at hlabel ⊢
    obtain ⟨hletter, hlabel⟩ := List.forall_mem_cons.1 hlabel
    obtain ⟨hstep, hleft'⟩ := @moves_letter buffer k s hs hleft hletter (tsc (fuel + k))
    obtain ⟨s', hrun, hmoves, hend⟩ := ih hstep.ok hleft' fun j hj ↦ by
      rw [hstep.reader] at hj
      rw [hstep.same.byte j (by rw [List.mem_range'_1] at hj; omega)]
      exact hlabel j hj
    refine ⟨s', (readNameLoop_succ hletter.1).trans hrun, ?_, hend⟩
    rw [Nat.add_comm k]
    refine (hstep.trans hmoves).congr fun j ↦ ?_
    rw [hstep.reader, List.mem_cons]

/-- The number of bytes that `ReadName` returns. -/
def stop (s : NameReader) : ℕ := if s.jumped then s.count + 1 else s.count

/-- The loop of `ReadName` goes through a name whose octets are in place and whose letters may have
become others. -/
theorem readNameLoop_nameAt (hname : p.NameAt buffer i n letters octets)
    (hdisj : ∀ j ∈ letters, j ∉ octets) (hs : s.Ok) (hleft : s.left = 0) (hreader : s.reader = i)
    (hlen : s.packet.data.length = p.data.length)
    (hoctets : ∀ j ∈ octets, s.packet.byte j = p.byte j)
    (hletters : ∀ j ∈ letters, IsLetter (s.packet.byte j))
    (hfuel : letters.length + octets.length ≤ fuel) (tsc : ℕ → ℕ) :
    ∃ s', readNameLoop buffer tsc fuel s = some s' ∧ s.packet.SameOutside (· ∈ letters) s'.packet ∧
      (∀ j ∈ letters, IsCapital (s'.packet.byte j)) ∧
      s'.stop = if s.jumped then s.count + 1 else s.count + n - 1 := by
  induction hname generalizing s fuel with
  | @root i hi h0 =>
    obtain ⟨fuel, rfl⟩ : ∃ m, fuel = m + 1 := ⟨fuel - 1, by simp at hfuel; omega⟩
    have hzero : s.packet.byte s.reader = 0 := by rw [hreader, hoctets i (by simp), h0]
    refine ⟨s, if_pos hzero, .refl _ _, by simp, ?_⟩
    rw [stop, Nat.add_sub_cancel]
  | @pointer i n letters octets hi hptr hrest ih =>
    obtain ⟨fuel, rfl⟩ : ∃ m, fuel = m + 1 := ⟨fuel - 1, by simp at hfuel; omega⟩
    have h₁ : s.packet.byte i = p.byte i := hoctets i (by simp)
    have h₂ : s.packet.byte (i + 1) = p.byte (i + 1) := hoctets (i + 1) (by simp)
    have hstep : s.step buffer (tsc fuel) = s.jump (p.target buffer i) := by
      have hptr' : 192 ≤ (s.packet.byte s.reader).toNat := by rw [hreader, h₁]; exact hptr
      rw [step_pointer hptr', Packet.pointer_eq_target hptr', hreader, Packet.target, h₁, h₂,
        Packet.target]
    have hne : s.packet.byte s.reader ≠ 0 := fun h0 ↦ by
      rw [hreader, h₁] at h0
      rw [h0] at hptr
      exact absurd hptr (by decide)
    have hfuel' : letters.length + octets.length ≤ fuel := by
      simp only [List.length_cons] at hfuel
      omega
    obtain ⟨s', hrun, hsame, hcapital, hstop⟩ := ih (s := s.jump (p.target buffer i))
      (fun j hj hmem ↦ hdisj j hj (by simp [hmem])) (hs.jump _) hleft rfl hlen
      (fun j hj ↦ hoctets j (by simp [hj])) hletters hfuel'
    refine ⟨s', ?_, hsame, hcapital, ?_⟩
    · rw [readNameLoop_succ hne, hstep, hrun]
    · rw [hstop, if_pos (show (s.jump _).jumped = true from rfl)]
      change s.count + 1 = _
      split_ifs <;> omega
  | @label i k n letters octets hk hpos hle hlabel hrest ih =>
    rw [List.length_append, List.length_range', List.length_cons] at hfuel
    obtain ⟨fuel, rfl⟩ : ∃ m, fuel = m + k + 1 := ⟨fuel - k - 1, by omega⟩
    have hbyte : (s.packet.byte s.reader).toNat = k := by rw [hreader, hoctets i (by simp), hk]
    have hne : s.packet.byte s.reader ≠ 0 := fun h0 ↦ by
      rw [h0] at hbyte
      simp at hbyte
      omega
    -- the length of the label, its letters, and the rest of the name
    obtain ⟨hlength, hleft₁⟩ := @moves_length buffer s hs hleft (by omega) (tsc (fuel + k))
    have hreader₁ : (s.step buffer (tsc (fuel + k))).reader = i + 1 := by
      rw [hlength.reader, hreader]
    obtain ⟨s₂, hrun₂, hmoves, hleft₂⟩ := moves_label hlength.ok (hleft₁.trans hbyte) (fun j hj ↦ by
      rw [hreader₁] at hj
      rw [hlength.same.byte j id]
      exact hletters j (List.mem_append_left _ hj)) tsc fuel
    rw [hreader₁] at hmoves
    have hfuel' : letters.length + octets.length ≤ fuel := by omega
    have htotal := hlength.trans hmoves
    obtain ⟨s', hrun, hsame, hcapital, hstop⟩ := ih (s := s₂)
      (fun j hj hmem ↦ hdisj j (List.mem_append_right _ hj) (List.mem_cons_of_mem _ hmem)) htotal.ok
        hleft₂
      (by rw [htotal.reader, hreader]; omega) (htotal.same.length.trans hlen)
      (fun j hj ↦ by
        rw [htotal.same.byte j fun h ↦ hdisj j (List.mem_append_left _ (h.resolve_left id))
          (List.mem_cons_of_mem _ hj)]
        exact hoctets j (List.mem_cons_of_mem _ hj))
      (fun j hj ↦ by
        by_cases hmem : j ∈ List.range' (i + 1) k
        · exact .of_isCapital (htotal.letter j (.inr hmem))
        · rw [htotal.same.byte j fun h ↦ hmem (h.resolve_left id)]
          exact hletters j (List.mem_append_right _ hj)) hfuel'
    refine ⟨s', ?_, ?_, fun j hj ↦ ?_, ?_⟩
    · rw [readNameLoop_succ hne, hrun₂, hrun]
    · refine (htotal.same.mono fun j h ↦ ?_).trans (hsame.mono fun j h ↦ List.mem_append_right _ h)
      exact List.mem_append_left _ (h.resolve_left id)
    · by_cases hmem : j ∈ letters
      · exact hcapital j hmem
      · rw [hsame.byte j hmem]
        exact htotal.letter j (.inr ((List.mem_append.1 hj).resolve_right hmem))
    · rw [hstop, htotal.jumped, htotal.count]
      split_ifs <;> omega

end NameReader

/-! ## The call -/

/-- `ReadName` as a whole: the packet, `*count` and the return value.  Without memory for its
scratch buffer it returns 1. -/
def readNameRet (alloc : Bool) (buffer : ℕ) (tsc : ℕ → ℕ) (fuel reader : ℕ) (packet : Packet) :
    Option (Packet × ℕ × ℤ) :=
  if alloc then (readName buffer tsc fuel reader packet).map fun r ↦
    (r.1, r.2, 0) else some (packet, 1, 1)

/-- The call in `dnsEntry`, which goes on if the return value is not 1. -/
theorem DnsWalk.readName_eq (env : DnsEnv) (buffstart : ℕ) (w : DnsWalk)
    (h : env.allocName w.calls = true) :
    w.readName env buffstart =
      (readNameRet true buffstart (env.tsc (w.calls + 1)) env.fuel w.buff w.packet).map fun r ↦
        (({ w with packet := r.1, calls := w.calls + 1 }, decide (r.2.2 ≠ 1)), r.2.1) := by
  rw [DnsWalk.readName, if_pos h, readNameRet, if_pos rfl]
  cases AlphaMon.readName buffstart (env.tsc (w.calls + 1)) env.fuel w.buff w.packet <;> rfl

/-- The letters of a name have become capitals, and nothing else has changed. -/
structure Packet.LettersRandom (letters : List ℕ) (p q : Packet) : Prop where
  letter : ∀ j ∈ letters, IsCapital (q.byte j)
  frame : p.SameOutside (· ∈ letters) q

/-- The letters of a name are letters. -/
theorem Packet.NameAt.isLetter (h : p.NameAt buffer i n letters octets) :
    ∀ j ∈ letters, IsLetter (p.byte j) := by
  induction h with
  | root hi h0 => simp
  | pointer hi hptr hrest ih => exact ih
  | label hk hpos hle hlabel hrest ih =>
    intro j hj
    exact (List.mem_append.1 hj).elim (hlabel j) (ih j)

/-- **`ReadName` decodes every well-formed name** none of whose letters is also an octet: whatever
it draws it ends and returns 0, counts the bytes the name takes, and makes capitals of its letters
and nothing else. -/
theorem readName_decodes (hname : p.NameAt buffer i n letters octets)
    (hdisj : ∀ j ∈ letters, j ∉ octets) (hfuel : letters.length + octets.length ≤ fuel)
    (tsc : ℕ → ℕ) :
    ∃ q, readNameRet true buffer tsc fuel i p = some (q, n, 0) ∧ p.LettersRandom letters q := by
  have hok : NameReader.Ok ⟨p, i, false, 0, none, 1⟩ := Nat.zero_le _
  obtain ⟨s', hrun, hsame, hcapital, hstop⟩ :=
    NameReader.readNameLoop_nameAt (s := ⟨p, i, false, 0, none, 1⟩) hname
    hdisj hok rfl rfl rfl (fun _ _ ↦ rfl) hname.isLetter hfuel tsc
  refine ⟨s'.packet, ?_, hcapital, hsame⟩
  have hcount : (if s'.jumped then s'.count + 1 else s'.count) = n := by
    rw [← NameReader.stop, hstop]
    simp
  rw [readNameRet, if_pos rfl, readName, hrun]
  simp [hcount]

/-- The name `c` as a pointer into the name `ab.c` behind it. -/
def samplePointer : Packet := ⟨[0xC0, 5, 2, 97, 98, 1, 99, 0], 8, by decide⟩

theorem samplePointer_nameAt : samplePointer.NameAt 0 0 2 [6] [0, 1, 5, 7] :=
  .pointer (by decide) (by decide)
    (.label (k := 1) (by decide) (by decide) (by decide) (by unfold IsLetter; decide)
        (.root (by decide) (by decide)))

theorem readName_decodes_sample :
    ∃ q, readNameRet true 0 (fun _ ↦ 0) 5 0 samplePointer = some (q, 2, 0) ∧
    samplePointer.LettersRandom [6] q :=
  readName_decodes samplePointer_nameAt (by decide) (by decide) _

end AlphaMon
