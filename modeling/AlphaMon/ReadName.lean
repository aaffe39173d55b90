import Mathlib.Data.FinEnum
import Mathlib.Data.Finset.Lattice.Fold
import Mathlib.Data.Set.Finite.List
import AlphaMon.DnsMng
import AlphaMon.Runs.Acyclic

/-!
# The way through a name

`ReadName` goes through a name from byte to byte, and at a compression pointer goes on where that
points.  It has no other way to end than to come to a `0`, and nothing keeps a pointer from pointing
to itself, or to a byte from which the name leads back to it.

What decides whether a call ends is the way itself (`NameState.Goes`): at which byte it is, how much
is left of the current label, and what the bytes are, since those of the labels become letters on
the way and may be the second byte of a pointer met later.  A call ends, whatever is drawn, if and
only if the way has no cycle (`readName_ends_iff`).
-/

set_option autoImplicit false

namespace AlphaMon

open Relation

variable {buffer fuel reader stop : ℕ} {tsc tsc' : ℕ → ℕ} {p q : Packet}

/-! ## The loop -/

/-- A step leaves the packet alone or writes a random letter where it reads. -/
theorem NameReader.step_packet (buffer tsc : ℕ) (s : NameReader) :
    (s.step buffer tsc).packet = s.packet ∨
      (s.step buffer tsc).packet = s.packet.set s.reader (randChar tsc) := by
  simp only [step]
  split_ifs
  all_goals first
    | exact .inl rfl
    | exact .inr rfl

/-- **`ReadName` changes bytes to random letters only.** -/
theorem readName_byte (h : readName buffer tsc fuel reader p = some (q, stop)) (j : ℕ) :
    q.byte j = p.byte j ∨ ∃ n, q.byte j = randChar (tsc n) := by
  have hloop : ∀ (fuel : ℕ) (s s' : NameReader), readNameLoop buffer tsc fuel s = some s' →
      s'.packet.byte j = s.packet.byte j ∨ ∃ n, s'.packet.byte j = randChar (tsc n) := by
    intro fuel
    induction fuel with
    | zero => exact fun s s' h ↦ absurd h (by simp [readNameLoop])
    | succ fuel ih =>
      intro s s' h
      rw [readNameLoop] at h
      split at h
      · obtain rfl := Option.some.inj h
        exact .inl rfl
      rcases ih _ _ h with h | h
      swap
      · exact .inr h
      rw [h]
      rcases NameReader.step_packet buffer (tsc fuel) s with hstep | hstep
      · exact .inl (by rw [hstep])
      · rw [hstep, Packet.set_byte]
        split
        · exact .inr ⟨fuel, rfl⟩
        · exact .inl rfl
  obtain ⟨s, hs, h⟩ := Option.bind_eq_some_iff.1 h
  obtain ⟨rfl, -⟩ : s.packet = q ∧ _ := by simpa using h
  exact hloop fuel _ s hs

/-- The loop draws one number for each step it may take. -/
theorem readNameLoop_congr (h : ∀ n < fuel, tsc n = tsc' n) (s : NameReader) :
    readNameLoop buffer tsc fuel s = readNameLoop buffer tsc' fuel s := by
  induction fuel generalizing s with
  | zero => rfl
  | succ fuel ih =>
    rw [readNameLoop, readNameLoop, h fuel (Nat.lt_succ_self _)]
    exact if_congr Iff.rfl rfl (ih (fun n hn ↦ h n (by omega)) _)

/-- The loop ends within a number of steps, whatever is drawn. -/
def NameReader.EndsIn (buffer fuel : ℕ) (s : NameReader) : Prop :=
  ∀ tsc, (readNameLoop buffer tsc fuel s).isSome

namespace NameReader

variable {s : NameReader}

theorem not_endsIn_zero (s : NameReader) : ¬s.EndsIn buffer 0 := fun h ↦ by
  have := h fun _ ↦ 0
  simp [readNameLoop] at this

/-- The loop ends at once or from wherever a step leads. -/
theorem endsIn_succ : s.EndsIn buffer (fuel + 1) ↔
    s.packet.byte s.reader = 0 ∨ ∀ t, (s.step buffer t).EndsIn buffer fuel := by
  by_cases h0 : s.packet.byte s.reader = 0
  · simp [EndsIn, readNameLoop, h0]
  simp only [EndsIn, readNameLoop, h0, if_false, false_or]
  constructor
  · intro h t tsc
    have := h fun n ↦ if n = fuel then t else tsc n
    rw [if_pos rfl] at this
    rwa [readNameLoop_congr fun n hn ↦ if_neg (by omega)] at this
  · exact fun h tsc ↦ h _ tsc

theorem EndsIn.mono {fuel' : ℕ} (h : s.EndsIn buffer fuel) (hle : fuel ≤ fuel') :
    s.EndsIn buffer fuel' := by
  induction fuel' generalizing fuel s with
  | zero =>
    obtain rfl : fuel = 0 := by omega
    exact h
  | succ fuel' ih =>
    cases fuel with
    | zero => exact absurd h s.not_endsIn_zero
    | succ fuel =>
      rw [endsIn_succ] at h ⊢
      exact h.imp_right fun h t ↦ ih (h t) (by omega)

/-- A step depends on the letter drawn alone. -/
theorem step_mod (buffer t : ℕ) (s : NameReader) : s.step buffer (t % 26) = s.step buffer t := by
  have : randChar (t % 26) = randChar t := by rw [randChar, randChar, Nat.mod_mod]
  simp only [step, this]

/-- There are 26 letters, so that one number of steps is enough for all of them. -/
theorem endsIn_of_forall (h : ∀ t, ∃ fuel, (s.step buffer t).EndsIn buffer fuel) :
    ∃ fuel, ∀ t, (s.step buffer t).EndsIn buffer fuel := by
  choose f hf using h
  refine ⟨(Finset.range 26).sup f, fun t ↦ ?_⟩
  rw [← step_mod]
  exact (hf _).mono (Finset.le_sup (Finset.mem_range.2 (Nat.mod_lt _ (by decide))))

end NameReader

/-! ## The way -/

/-- Where a name is: the bytes of the packet, the position, and how much is left of the label. -/
structure NameState where
  packet : Packet
  pos : ℕ
  left : ℕ

/-- Where a pointer at a position points. -/
def Packet.pointer (p : Packet) (buffer i : ℕ) : ℕ :=
  buffer + ((p.byte i).toNat * 256 + (p.byte (i + 1)).toNat - 49152)

theorem Packet.pointer_lt (p : Packet) (buffer i : ℕ) : p.pointer buffer i < buffer + 2 ^ 14 := by
  have h₁ := (p.byte i).toNat_lt
  have h₂ := (p.byte (i + 1)).toNat_lt
  unfold pointer
  generalize (p.byte i).toNat = a at *
  generalize (p.byte (i + 1)).toNat = b at *
  omega

/-- Where a name goes on: from a pointer to where it points; from a length into its label; from a
byte of a label, which may have become any letter, to the next. -/
inductive NameState.Goes (buffer : ℕ) : NameState → NameState → Prop
  | pointer {p : Packet} {i n : ℕ} (h : 192 ≤ (p.byte i).toNat) :
    Goes buffer ⟨p, i, n⟩ ⟨p, p.pointer buffer i, n⟩
  | length {p : Packet} {i : ℕ} (h0 : p.byte i ≠ 0) (h : (p.byte i).toNat < 192) :
      Goes buffer ⟨p, i, 0⟩ ⟨p, i + 1, (p.byte i).toNat⟩
  | label {p : Packet} {i n : ℕ} {c : UInt8} (h0 : p.byte i ≠ 0) (h : (p.byte i).toNat < 192)
      (hc : IsCapital c) : Goes buffer ⟨p, i, n + 1⟩ ⟨p.set i c, i + 1, n⟩

/-- A way ends at a `0`. -/
theorem NameState.not_goes_of_zero {x y : NameState} (h : x.packet.byte x.pos = 0) :
    ¬x.Goes buffer y := by
  rintro (h' | ⟨h', -⟩ | ⟨h', -⟩)
  · rw [h] at h'
    exact absurd h' (by decide)
  · exact h' h
  · exact h' h

/-- How much is left of the label. -/
def NameReader.left (s : NameReader) : ℕ := s.cnt.elim 0 (· - s.first)

/-- Where the loop is. -/
def NameReader.state (s : NameReader) : NameState := ⟨s.packet, s.reader, s.left⟩

/-- The loop has seen no more of a label than there is. -/
def NameReader.Ok (s : NameReader) : Prop := s.first ≤ s.cnt.getD 0

/-- Every letter can be drawn. -/
theorem exists_randChar {c : UInt8} (hc : IsCapital c) : ∃ t, randChar t = c := by
  refine ⟨c.toNat - 65, ?_⟩
  have h₁ : 65 ≤ c.toNat := hc.1
  have h₂ : c.toNat ≤ 90 := hc.2
  rw [randChar, Nat.mod_eq_of_lt (by omega), Nat.add_sub_cancel' h₁, UInt8.ofNat_toNat]

/-- The loop goes on at another position. -/
def NameReader.jump (s : NameReader) (i : ℕ) : NameReader := { s with reader := i, jumped := true }

@[simp] theorem NameReader.state_jump (s : NameReader) (i : ℕ) :
    (s.jump i).state = ⟨s.packet, i, s.left⟩ := rfl

theorem NameReader.Ok.jump {s : NameReader} (h : s.Ok) (i : ℕ) : (s.jump i).Ok := h

/-- The step at a pointer. -/
theorem NameReader.step_pointer {s : NameReader} (h : 192 ≤ (s.packet.byte s.reader).toNat)
    (t : ℕ) :
    s.step buffer t = s.jump (s.packet.pointer buffer s.reader) :=
  if_pos h

/-- The steps of the loop. -/
theorem NameReader.step_spec {s : NameReader} (hs : s.Ok) (t : ℕ) : (s.step buffer t).Ok ∧
    (s.step buffer t).state =
      if 192 ≤ (s.packet.byte s.reader).toNat then
        ⟨s.packet, s.packet.pointer buffer s.reader, s.left⟩
      else if s.left = 0 then ⟨s.packet, s.reader + 1, (s.packet.byte s.reader).toNat⟩
      else ⟨s.packet.set s.reader (randChar t), s.reader + 1, s.left - 1⟩ := by
  by_cases hptr : 192 ≤ (s.packet.byte s.reader).toNat
  · rw [step_pointer hptr, if_pos hptr, state_jump]
    exact ⟨hs.jump _, rfl⟩
  rw [if_neg hptr]
  obtain ⟨packet, reader, jumped, first, cnt, count⟩ := s
  simp only [step, if_neg hptr]
  cases cnt with
  | none =>
    obtain rfl : first = 0 := Nat.le_zero.1 hs
    simp [Ok, state, left]
  | some c =>
    have hle : first ≤ c := hs
    by_cases hfull : c = first
    · subst hfull
      simp [Ok, state, left]
    · have hlt : c - first ≠ 0 := by omega
      simp only [state, left, Ok, reduceCtorEq, if_false, Option.some.injEq, hfull,
        Option.elim_some, hlt,
        Option.getD_some]
      exact ⟨by omega, by rw [Nat.sub_sub]⟩

/-- **A step of the loop is a step on the way**, and every step on the way is one the loop may
take. -/
theorem NameReader.goes_iff {s : NameReader} (hs : s.Ok) (h0 : s.packet.byte s.reader ≠ 0)
    {x : NameState} :
    s.state.Goes buffer x ↔ ∃ t, (s.step buffer t).state = x := by
  simp only [(step_spec hs _).2]
  rw [state]
  constructor
  · intro h
    generalize hleft : s.left = n at h
    cases h with
    | pointer hptr => exact ⟨0, if_pos hptr⟩
    | length h0 hlt => exact ⟨0, by rw [if_neg (by omega), if_pos rfl]⟩
    | label h0 hlt hc =>
      obtain ⟨t, rfl⟩ := exists_randChar hc
      exact ⟨t, by rw [if_neg (by omega), if_neg (by omega), Nat.add_sub_cancel]⟩
  · rintro ⟨t, rfl⟩
    split
    · next hptr => exact .pointer hptr
    next hptr =>
    split
    · next hleft =>
      rw [hleft]
      exact .length h0 (by omega)
    · next hleft =>
      obtain ⟨n, hn⟩ := Nat.exists_eq_succ_of_ne_zero hleft
      rw [hn]
      exact .label h0 (by omega) (isCapital_randChar t)

/-- **The loop ends whatever is drawn if and only if the way does.** -/
theorem NameReader.exists_endsIn_iff {s : NameReader} (hs : s.Ok) :
    (∃ fuel, s.EndsIn buffer fuel) ↔ Acc (flip (NameState.Goes buffer)) s.state := by
  constructor
  · rintro ⟨fuel, h⟩
    induction fuel generalizing s with
    | zero => exact absurd h s.not_endsIn_zero
    | succ fuel ih =>
      refine ⟨_, fun x hx ↦ ?_⟩
      rcases endsIn_succ.1 h with h0 | h
      · exact absurd hx (NameState.not_goes_of_zero h0)
      · have h0 : s.packet.byte s.reader ≠ 0 := fun h0 ↦ NameState.not_goes_of_zero h0 hx
        obtain ⟨t, rfl⟩ := (goes_iff hs h0).1 hx
        exact ih (step_spec hs t).1 (h t)
  · intro h
    generalize hx : s.state = x at h
    induction h generalizing s with
    | intro x _ ih =>
      subst hx
      by_cases h0 : s.packet.byte s.reader = 0
      · exact ⟨1, endsIn_succ.2 (.inl h0)⟩
      obtain ⟨fuel, hfuel⟩ := endsIn_of_forall fun t ↦
        ih _ ((goes_iff hs h0).2 ⟨t, rfl⟩) (step_spec hs t).1 rfl
      exact ⟨fuel + 1, endsIn_succ.2 (.inr hfuel)⟩

/-! ## The ways of a packet -/

/-- A state that a way through a packet can come to. -/
structure NameState.Within (p : Packet) (bound : ℕ) (x : NameState) : Prop where
  pktLen : x.packet.pktLen = p.pktLen
  length : x.packet.data.length = p.data.length
  pos : x.pos ≤ bound
  left : x.left < 192

theorem NameState.Goes.within {bound : ℕ} {x y : NameState} (h : x.Goes buffer y)
    (hlen : p.data.length ≤ bound) (hjump : buffer + 2 ^ 14 ≤ bound) (hx : x.Within p bound) :
    y.Within p bound := by
  have hmem : ∀ (p' : Packet) (i : ℕ), p'.byte i ≠ 0 → i < p'.data.length := fun p' i h0 ↦
    Nat.not_le.1 fun hle ↦ h0 (CString.byteAt_of_le hle)
  obtain ⟨hpkt, hlength, -, hleft⟩ := hx
  cases h with
  | @pointer p' i n h =>
    have hpos := p'.pointer_lt buffer i
    generalize p'.pointer buffer i = j at hpos
    refine ⟨hpkt, hlength, ?_, hleft⟩
    simp only
    omega
  | @length p' i h0 h =>
    refine ⟨hpkt, hlength, ?_, h⟩
    have := hmem p' i h0
    simp only at hlength ⊢
    omega
  | @label p' i n c h0 h hc =>
    have := hmem p' i h0
    refine ⟨hpkt, (Packet.set_length ..).trans hlength, ?_, ?_⟩
    · simp only at hlength ⊢
      omega
    · simp only at hleft ⊢
      omega

/-- There are finitely many such states. -/
theorem NameState.finite_within (p : Packet) (bound : ℕ) :
    {x | NameState.Within p bound x}.Finite := by
  have hdata : {d : List UInt8 | d.length = p.data.length}.Finite := List.finite_length_eq _ _
  refine Set.Finite.of_injOn (f := fun x : NameState ↦ (x.packet.data, x.pos, x.left))
    (t := {d : List UInt8 | d.length = p.data.length} ×ˢ ({i | i ≤ bound} ×ˢ {l | l < 192})) ?_ ?_
      ?_
  · exact fun x hx ↦ ⟨hx.length, hx.pos, hx.left⟩
  · rintro ⟨⟨d, n, hd⟩, i, l⟩ hx ⟨⟨d', n', hd'⟩, i', l'⟩ hx' heq
    obtain rfl : n = n' := hx.pktLen.trans hx'.pktLen.symm
    simp only [Prod.mk.injEq] at heq
    obtain ⟨rfl, rfl, rfl⟩ := heq
    rfl
  · exact hdata.prod ((Set.finite_le_nat _).prod (Set.finite_lt_nat _))

/-- Where a call of `ReadName` starts. -/
def NameState.start (p : Packet) (reader : ℕ) : NameState := ⟨p, reader, 0⟩

/-- The way through the name at a position comes to no state twice. -/
def NameState.Acyclic (buffer : ℕ) (p : Packet) (reader : ℕ) : Prop :=
  ∀ x, ReflTransGen (NameState.Goes buffer) (.start p reader) x →
    ¬TransGen (NameState.Goes buffer) x x

/-- **A call of `ReadName` ends**, whatever is drawn, if and only if the way through the name has no
cycle. -/
theorem readName_ends_iff (buffer reader : ℕ) (p : Packet) :
    (∃ fuel, ∀ tsc, (readName buffer tsc fuel reader p).isSome) ↔
      NameState.Acyclic buffer p reader := by
  have hok : NameReader.Ok ⟨p, reader, false, 0, none, 1⟩ := Nat.zero_le _
  have hends : (∃ fuel, ∀ tsc, (readName buffer tsc fuel reader p).isSome) ↔
      ∃ fuel, NameReader.EndsIn buffer fuel ⟨p, reader, false, 0, none, 1⟩ := by
    refine exists_congr fun fuel ↦ forall_congr' fun tsc ↦ ?_
    rw [readName]
    cases readNameLoop buffer tsc fuel ⟨p, reader, false, 0, none, 1⟩ <;> simp
  have hfin : {x | ReflTransGen (NameState.Goes buffer) (.start p reader) x}.Finite := by
    refine (NameState.finite_within p (max reader (p.data.length + buffer + 2 ^ 14))).subset
      fun x hx ↦ ?_
    induction hx with
    | refl => exact ⟨rfl, rfl, le_max_left _ _, (by decide : 0 < 192)⟩
    | tail _ hstep ih =>
      exact hstep.within (by simp only [le_max_iff]; omega) (by simp only [le_max_iff]; omega) ih
  rw [hends, NameReader.exists_endsIn_iff hok]
  exact Acyclic.acc_iff_no_cycle hfin

/-- A loop at a pointer to itself stays there. -/
theorem NameReader.not_endsIn_of_self {s : NameReader} (h : 192 ≤ (s.packet.byte s.reader).toNat)
    (hself : s.packet.pointer buffer s.reader = s.reader) (fuel : ℕ) : ¬s.EndsIn buffer fuel := by
  induction fuel generalizing s with
  | zero => exact s.not_endsIn_zero
  | succ fuel ih =>
    rw [endsIn_succ]
    rintro (h0 | hstep)
    · rw [h0] at h
      exact absurd h (by decide)
    · have := hstep 0
      rw [step_pointer h, hself] at this
      exact ih (s := s.jump s.reader) h hself this

/-- A response whose only record is owned by a name that is a pointer to itself. -/
def selfPointer : Packet where
  data := [0, 0, 0x80, 0, 0, 1, 0, 1, 0, 0, 0, 0] ++ [1, 97, 0, 0, 1, 0, 1] ++ [0xC0, 19]
  pktLen := 21
  pktLen_le := by decide

/-- `ReadName` does not end on a pointer to itself. -/
theorem readName_ends_fails : ¬∀ (buffer reader : ℕ) (p : Packet),
    ∃ fuel, ∀ tsc, (readName buffer tsc fuel reader p).isSome := by
  intro h
  obtain ⟨fuel, hfuel⟩ := h 0 19 selfPointer
  have hself : selfPointer.pointer 0 19 = 19 := by decide
  refine NameReader.not_endsIn_of_self (s := ⟨selfPointer, 19, false, 0, none, 1⟩) (by decide)
    hself fuel fun tsc ↦ ?_
  have := hfuel tsc
  rw [readName] at this
  cases hs : readNameLoop 0 tsc fuel ⟨selfPointer, 19, false, 0, none, 1⟩ with
  | none => simp [hs] at this
  | some s => rfl

end AlphaMon
