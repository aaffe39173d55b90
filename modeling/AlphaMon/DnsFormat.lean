import AlphaMon.DnsBounds
import AlphaMon.FrameBytes
import AlphaMon.NameDecoding

/-!
# Messages that the DNS module reads to the end

What has to be right about a message for `dnsEntry` to stay in its packet, as a format of the bytes
that are received (`MessageIn`).  The name of the question is there as far as it is read.  Behind it
are records, each an owner name, ten bytes and data, and of the data the addresses and names that
the function goes into.

The function writes while it reads: the letters of names become other letters, and the data of an
address its pseudonym.  A message of the format has these bytes in places of their own
(`MessageMap`), where no length, pointer, type or end of a name is.  Then what the function reads
later is what was received (`MessageMap.ShownBy`), and `dns_inside` follows record by record.
-/

set_option autoImplicit false

namespace AlphaMon

open CString DomainName Traced

/-! ## The question -/

/-- The name of a question as far as it is read, with `left` bytes left to the running length and
`n` characters in `name`: at its end, or where the function returns, no more than one byte is
needed. -/
inductive QuestionIn : ℕ → ℕ → List UInt8 → Prop
  | stop {left n : ℕ} {b : UInt8} {rest : List UInt8} :
      b = 0 ∨ 128 ≤ b.toNat ∨ left ≤ b.toNat ∨ nameDns ≤ n → QuestionIn left n (b :: rest)
  | label {left n : ℕ} {l rest : List UInt8} : 0 < l.length → l.length < 128 → l.length < left →
    n < nameDns →
      labelStart n + l.length ≤ nameDns →
        QuestionIn (left - l.length) (labelStart n + l.length) rest →
      QuestionIn left n (UInt8.ofNat l.length :: (l ++ rest))

section Question

variable {p : Packet} {i left n : ℕ}

/-- A question in the frame, as the loop over its labels reads it. -/
theorem questionIn_iff : QuestionIn left n (p.frameFrom i) ↔ p.QuestionFits p.pktLen i left n := by
  constructor
  · intro h
    generalize hl : p.frameFrom i = bytes at h
    induction h generalizing i with
    | stop hstop =>
      obtain ⟨hin, rfl, -⟩ := Packet.frameFrom_eq_cons_iff.1 hl
      exact .stop hin hstop
    | label hpos hlow hlt hn hfits _ ih =>
      obtain ⟨hin, hbyte, hl₁⟩ := (Packet.frameFrom_eq_byte (by omega)).1 hl
      obtain ⟨-, hl₂⟩ := Packet.frameFrom_eq_part hin hl₁
      rw [← hbyte] at hpos hlow hlt hfits ih hl₂
      refine .label hin (fun h0 ↦ ?_) hlow hlt hn hfits (ih hl₂)
      rw [h0] at hpos
      exact absurd hpos (by decide)
  · intro h
    induction h with
    | stop hin hstop =>
      rw [Packet.frameFrom_eq_cons hin]
      exact .stop hstop
    | @label i left n hin h0 hlow hlt hn hfits hnext ih =>
      have hnext := hnext.lt
      obtain ⟨l, hl, hframe⟩ :=
        Packet.frameFrom_eq_bytes (p := p) (i := i + 1) (n := (p.byte i).toNat) (by omega)
      rw [(Packet.frameFrom_eq_byte (p.byte i).toNat_lt).2 ⟨hin, rfl, hframe⟩]
      have hpos := Packet.byte_pos h0
      rw [← hl] at hpos hlow hlt hfits ih ⊢
      exact .label hpos hlow hlt hn hfits ih

end Question

/-! ## Names -/

/-- What the bytes of a message are for: which are letters of its names, which are data of its
addresses, and where a name goes on, with how many letters of a label to come.  A byte of a name
that is no letter is the end of it, the first of a pointer, or the length of a label. -/
structure MessageMap (p : Packet) where
  letters : ℕ → Prop
  addresses : ℕ → Prop
  names : ℕ → ℕ → Prop
  disjoint : ∀ j, letters j → ¬addresses j
  inside : ∀ j k, names j k → j < p.pktLen ∧ ¬addresses j
  letter : ∀ j k, names j k → letters j → 0 < k ∧ names (j + 1) (k - 1)
  length : ∀ j k, names j k → ¬letters j → p.byte j ≠ 0 → (p.byte j).toNat < 192 →
    k = 0 ∧ names (j + 1) (p.byte j).toNat
  pointer : ∀ j k, names j k → ¬letters j → 192 ≤ (p.byte j).toNat →
    (j + 1 < p.pktLen ∧ ¬letters (j + 1) ∧ ¬addresses (j + 1)) ∧ names (p.target 42 j) k

namespace MessageMap

variable {p : Packet} (map : MessageMap p)

/-- The number of bytes that a name takes: up to its end, or up to a pointer and with it. -/
inductive Takes : ℕ → ℕ → Prop
  | root {i : ℕ} : ¬map.letters i → p.byte i = 0 → Takes i 1
  | pointer {i : ℕ} : ¬map.letters i → 192 ≤ (p.byte i).toNat → Takes i 2
  | on {i n : ℕ} : map.letters i ∨ p.byte i ≠ 0 ∧ (p.byte i).toNat < 192 → Takes (i + 1) n →
    Takes i (n + 1)

/-- A packet shows the message that was received, but for the letters and the addresses. -/
structure ShownBy (q : Packet) : Prop where
  pktLen : q.pktLen = p.pktLen
  letter : ∀ j, map.letters j → IsLetter (q.byte j)
  byte : ∀ j, ¬map.letters j → ¬map.addresses j → q.byte j = p.byte j

/-- The loop of `ReadName` is in a name that takes `n` bytes. -/
structure Reading (n : ℕ) (s : NameReader) : Prop where
  ok : s.Ok
  shown : map.ShownBy s.packet
  name : map.names s.reader s.left
  takes : if s.jumped then s.count + 1 = n else ∃ k, map.Takes s.reader k ∧ s.count + k = n + 1

variable {map} {q q' : Packet} {fuel i n stop : ℕ} {tsc : ℕ → ℕ} {s s' : NameReader}

theorem Takes.eq_one (h : map.Takes i n) (hl : ¬map.letters i) (h0 : p.byte i = 0) : n = 1 := by
  cases h with
  | root => rfl
  | pointer _ hptr =>
    rw [h0] at hptr
    exact absurd hptr (by decide)
  | on hon =>
    rcases hon with h | h
    · exact absurd h hl
    · exact absurd h0 h.1

theorem Takes.eq_two (h : map.Takes i n) (hl : ¬map.letters i) (hptr : 192 ≤ (p.byte i).toNat) :
    n = 2 := by
  cases h with
  | root _ h0 =>
    rw [h0] at hptr
    exact absurd hptr (by decide)
  | pointer => rfl
  | on hon =>
    rcases hon with h | h
    · exact absurd h hl
    · exact absurd h.2 (by omega)

theorem Takes.succ (h : map.Takes i n)
    (hon : map.letters i ∨ p.byte i ≠ 0 ∧ (p.byte i).toNat < 192) :
    ∃ m, n = m + 1 ∧ map.Takes (i + 1) m := by
  cases h with
  | root hl h0 =>
    rcases hon with h | h
    · exact absurd h hl
    · exact absurd h0 h.1
  | pointer hl hptr =>
    rcases hon with h | h
    · exact absurd h hl
    · exact absurd h.2 (by omega)
  | @on _ m _ h => exact ⟨m, rfl, h⟩

/-- Other letters, and other addresses. -/
theorem ShownBy.changed {P : ℕ → Prop} (h : map.ShownBy q) (hsame : q.SameOutside P q')
    (hP : ∀ j, P j → map.letters j ∧ IsCapital (q'.byte j) ∨ map.addresses j) : map.ShownBy q' where
  pktLen := hsame.pktLen.trans h.pktLen
  letter j hj := by
    by_cases hPj : P j
    · rcases hP j hPj with h' | h'
      · exact .of_isCapital h'.2
      · exact absurd h' (map.disjoint j hj)
    · rw [hsame.byte j hPj]
      exact h.letter j hj
  byte j hl ha := by
    rw [hsame.byte j fun hPj ↦ (hP j hPj).elim (fun h' ↦ hl h'.1) ha, h.byte j hl ha]

/-- The byte of a name that is no letter is the one that was received. -/
theorem Reading.byte_eq (h : map.Reading n s) (hl : ¬map.letters s.reader) :
    s.packet.byte s.reader = p.byte s.reader :=
  h.shown.byte _ hl (map.inside _ _ h.name).2

/-- Over a byte that is no pointer, the number of bytes goes on. -/
theorem Reading.takes_on {P : ℕ → Prop} (h : map.Reading n s) (hmoves : NameReader.Moves P 1 s s')
    (hon : map.letters s.reader ∨ p.byte s.reader ≠ 0 ∧ (p.byte s.reader).toNat < 192) :
    if s'.jumped then s'.count + 1 = n else ∃ k, map.Takes s'.reader k ∧ s'.count + k = n + 1 := by
  have htakes := h.takes
  rw [hmoves.jumped, hmoves.count, hmoves.reader]
  split_ifs at htakes ⊢ with hjumped
  · exact htakes
  · obtain ⟨k, hk, hcount⟩ := htakes
    obtain ⟨m, rfl, hm⟩ := hk.succ hon
    exact ⟨m, hm, by omega⟩

/-- **A step of `ReadName`** stays in the name. -/
theorem Reading.step (h : map.Reading n s) (h0 : s.packet.byte s.reader ≠ 0) (t : ℕ) :
    map.Reading n (s.step 42 t) := by
  by_cases hl : map.letters s.reader
  · obtain ⟨hpos, hnext⟩ := map.letter _ _ h.name hl
    obtain ⟨hmoves, hleft⟩ := @NameReader.moves_letter 42 _ s h.ok (Nat.sub_add_cancel hpos).symm
      (h.shown.letter _ hl) t
    refine ⟨hmoves.ok, h.shown.changed hmoves.same fun j hj ↦ .inl ⟨hj ▸ hl, hmoves.letter j hj⟩,
      ?_,
      h.takes_on hmoves (.inl hl)⟩
    rwa [hmoves.reader, hleft]
  have hbyte := h.byte_eq hl
  by_cases hptr : 192 ≤ (p.byte s.reader).toNat
  · obtain ⟨⟨-, hl', ha'⟩, hnext⟩ := map.pointer _ _ h.name hl hptr
    have htarget : s.packet.pointer 42 s.reader = p.target 42 s.reader := by
      rw [Packet.pointer_eq_target (by rwa [hbyte]), Packet.target, Packet.target, hbyte,
        h.shown.byte _ hl' ha']
    have htakes := h.takes
    rw [NameReader.step_pointer (by rwa [hbyte]), htarget]
    refine ⟨h.ok.jump _, h.shown, hnext, ?_⟩
    rw [if_pos (show (s.jump _).jumped = true from rfl)]
    show s.count + 1 = n
    split_ifs at htakes
    · exact htakes
    · obtain ⟨k, hk, hcount⟩ := htakes
      have := hk.eq_two hl hptr
      omega
  · rw [hbyte] at h0
    obtain ⟨hleft, hnext⟩ := map.length _ _ h.name hl h0 (Nat.not_le.1 hptr)
    obtain ⟨hmoves, hleft'⟩ := @NameReader.moves_length 42 s h.ok hleft (by rw [hbyte]; omega) t
    refine ⟨hmoves.ok, h.shown.changed hmoves.same fun j hj ↦ hj.elim, ?_,
      h.takes_on hmoves (.inr ⟨h0, Nat.not_le.1 hptr⟩)⟩
    rwa [hmoves.reader, hleft', hbyte]

/-- **The loop of `ReadName`** ends in the name. -/
theorem Reading.loop (h : map.Reading n s) (hs : readNameLoop 42 tsc fuel s = some s') :
    map.ShownBy s'.packet ∧ s'.stop = n := by
  induction fuel generalizing s with
  | zero => exact absurd hs (by simp [readNameLoop])
  | succ fuel ih =>
    rw [readNameLoop] at hs
    split at hs
    · next h0 =>
      obtain rfl := Option.some.inj hs
      refine ⟨h.shown, ?_⟩
      have hl : ¬map.letters s.reader := fun hl ↦ (h.shown.letter _ hl).1 h0
      have htakes := h.takes
      rw [NameReader.stop]
      split_ifs at htakes ⊢
      · exact htakes
      · obtain ⟨k, hk, hcount⟩ := htakes
        have := hk.eq_one hl ((h.byte_eq hl).symm.trans h0)
        omega
    · next h0 => exact ih (h.step h0 _) hs

/-- **A name in the frame** is read in the frame. -/
theorem Reading.stays (h : map.Reading n s) :
    (readNameLoopTraced 42 tsc fuel s).run.Stays (DnsAccess.Inside p.pktLen) := by
  induction fuel generalizing s with
  | zero => exact Partial.stays_failure
  | succ fuel ih =>
    have hin := (map.inside _ _ h.name).1
    rw [readNameLoopTraced, stays_packet]
    constructor
    · split_ifs with hptr
      · have hl : ¬map.letters s.reader := fun hl ↦ by
          have := (h.shown.letter _ hl).2
          omega
        rw [h.byte_eq hl] at hptr
        have := (map.pointer _ _ h.name hl hptr).1.1
        omega
      · omega
    · split_ifs with h0
      · exact Partial.stays_pure _
      · exact ih (h.step h0 _)

end MessageMap

/-! ## Records -/

namespace MessageMap

variable {p : Packet} (map : MessageMap p)

/-- `n` bytes in the frame that are neither letters nor data of an address. -/
def Plain (i n : ℕ) : Prop :=
  ∀ j, i ≤ j → j < i + n → j < p.pktLen ∧ ¬map.letters j ∧ ¬map.addresses j

/-- A name that takes `n` bytes. -/
def Name (i n : ℕ) : Prop := map.names i 0 ∧ map.Takes i n

/-- `n` bytes of an address. -/
def Address (i n : ℕ) : Prop := n < 200 ∧ ∀ j, i ≤ j → j < i + n → j < p.pktLen ∧ map.addresses j

variable (next : ℕ → ℕ → Prop)

/-- The record `i` of the answer section: a name, and behind it the type and the length of the
data.  If the running length leaves more than `10` and this length, the data of an address or the
name of an alias follows, and then what `next` says of the bytes behind the data and of what is
left. -/
def AnswerIn (i c left : ℕ) : Prop :=
  i < 100 ∧ ∃ n, map.Name c n ∧ map.Plain (c + n) 2 ∧ map.Plain (c + n + 8) 2 ∧
    let type := p.ntohs (c + n)
    let dataLen := p.ntohs (c + n + 8)
    (10 + dataLen < left → (type = 1 → map.Address (c + n + 10) dataLen ∧
        next (c + n + 10 + dataLen) (left - (10 + dataLen))) ∧
      (type = 5 → (∃ k, map.Name (c + n + 10) k) ∧
        (10 + dataLen + dataLen < left →
          next (c + n + 10 + dataLen) (left - (10 + dataLen + dataLen)))))

/-- The record `i` of the authority section.  The name of a name server is gone over, whatever the
length of the data is said to be. -/
def AuthorityIn (i c left : ℕ) : Prop :=
  ∃ n, map.Name c n ∧ (n < left → i < 100 ∧ (n + 10 < left → map.Plain (c + n) 2 ∧
    let dataLen := p.ntohs (c + n + 8)
    (p.ntohs (c + n) = 2 → ∃ k, map.Name (c + n + 10) k ∧
      (n + 10 + k < left → next (c + n + 10 + k) (left - (n + 10 + k)))) ∧
    (p.ntohs (c + n) ≠ 2 → map.Plain (c + n + 8) 2 ∧
      (n + 10 + dataLen < left → next (c + n + 10 + dataLen) (left - (n + 10 + dataLen))))))

/-- The record `i` of the additional section, where the function returns at the first that is no
address. -/
def AdditionalIn (i c left : ℕ) : Prop :=
  ∃ n, map.Name c n ∧ (n < left → i < 100 ∧ (n + 10 < left → map.Plain (c + n) 2 ∧
    (p.ntohs (c + n) = 1 → map.Plain (c + n + 8) 2 ∧
      let dataLen := p.ntohs (c + n + 8)
      (n + 10 + dataLen < left → map.Address (c + n + 10) dataLen ∧
        next (c + n + 10 + dataLen) (left - (n + 10 + dataLen))))))

/-- A section with a number of records to come. -/
def SectionIn (record : (ℕ → ℕ → Prop) → ℕ → ℕ → ℕ → Prop) : ℕ → ℕ → ℕ → ℕ → Prop
  | 0, _, c, left => next c left
  | records + 1, i, c, left => record (SectionIn record records (i + 1)) i c left

/-- The three sections, from a position on. -/
def RecordsIn (dns : DnsHeader) (c left : ℕ) : Prop :=
  SectionIn (SectionIn (SectionIn (fun _ _ ↦ True) map.AdditionalIn dns.addCount 0)
    map.AuthorityIn dns.authCount 0) map.AnswerIn dns.ansCount 0 c left

end MessageMap

section Walk

open MessageMap

variable {p : Packet} {map : MessageMap p} {env : DnsEnv} {blockEncrypt : Block → Block}
  {w w' : DnsWalk}
  {next : ℕ → ℕ → Prop} {i n stop : ℕ}

theorem MessageMap.Plain.le (h : map.Plain i 2) : i + 2 ≤ p.pktLen := by
  have := (h (i + 1) (by omega) (by omega)).1
  omega

theorem MessageMap.ShownBy.ntohs_eq {q : Packet} (h : map.ShownBy q) (hplain : map.Plain i 2) :
    q.ntohs i = p.ntohs i := by
  obtain ⟨-, h₁, h₂⟩ := hplain i le_rfl (by omega)
  obtain ⟨-, h₃, h₄⟩ := hplain (i + 1) (by omega) (by omega)
  rw [Packet.ntohs, Packet.ntohs, h.byte _ h₁ h₂, h.byte _ h₃ h₄]

theorem MessageMap.Address.fits (h : map.Address i n) : AddressFits p.pktLen i n := by
  refine ⟨h.1, Nat.eq_zero_or_pos n |>.imp_right fun hpos ↦ ?_⟩
  have := (h.2 (i + n - 1) (by omega) (by omega)).1
  omega

theorem Packet.write_sameOutside (p : Packet) (i : ℕ) (l : List UInt8) :
    p.SameOutside (fun j ↦ i ≤ j ∧ j < i + l.length) (p.write i l) := by
  induction l generalizing i p with
  | nil => exact .refl _ p
  | cons b l ih =>
    refine ((Packet.SameOutside.set p i b).mono fun j hj ↦ ?_).trans
      ((ih (p.set i b) (i + 1)).mono fun j hj ↦ ?_)
    all_goals
      rw [List.length_cons]
      omega

/-- A part goes on only if the function has not returned. -/
theorem DnsStep.andThen_eq_true {r : DnsStep} {f : DnsWalk → Option DnsStep}
    (h : r.andThen f = some (w', true)) : r.2 = true ∧ f r.1 = some (w', true) := by
  rw [DnsStep.andThen] at h
  split at h
  · next hr => exact ⟨hr, h⟩
  · next hr =>
    obtain rfl := Option.some.inj h
    exact absurd rfl hr

/-- Where a call of `ReadName` starts. -/
theorem MessageMap.ShownBy.reading (h : map.ShownBy w.packet) (hname : map.Name w.buff n) :
    map.Reading n ⟨w.packet, w.buff, false, 0, none, 1⟩ :=
  ⟨Nat.zero_le _, h, hname.1, by
    rw [if_neg (by simp)]
    exact ⟨n, hname.2, Nat.add_comm 1 n⟩⟩

/-- The walk stands at a position of the message, and its running length leaves `left`. -/
structure MessageMap.Stands (map : MessageMap p) (w : DnsWalk) (c left : ℕ) : Prop where
  shown : map.ShownBy w.packet
  buff : w.buff = c
  left : p.pktLen - w.len = left

namespace MessageMap.Stands

variable {c left : ℕ}

/-- **A name of the message** is read in the frame. -/
theorem nameFits (h : map.Stands w c left) (hname : map.Name c n) :
    w.NameFits env 42 p.pktLen := by
  rw [← h.buff] at hname
  rw [DnsWalk.NameFits, DnsWalk.readNameTraced]
  split
  · rw [Partial.stays_bind, AlphaMon.readNameTraced, Partial.stays_bind]
    exact ⟨⟨(h.shown.reading hname).stays, fun _ _ ↦ Partial.stays_pure _⟩,
      fun _ _ ↦ Partial.stays_pure _⟩
  · exact Partial.stays_pure _

/-- **Behind a name** the walk stands where it stood, and the name takes the bytes it takes in the
message. -/
theorem readName (h : map.Stands w c left) (hname : map.Name c n)
    (hread : w.readName env 42 = some ((w', true), stop)) : stop = n ∧ map.Stands w' c left := by
  rw [← h.buff] at hname
  by_cases halloc : env.allocName w.calls
  swap
  · simp [DnsWalk.readName, halloc] at hread
  rw [DnsWalk.readName_eq env 42 w halloc, readNameRet, if_pos rfl, Option.map_map] at hread
  obtain ⟨⟨q, k⟩, hq, hx⟩ := Option.map_eq_some_iff.1 hread
  simp only [Function.comp_apply, Prod.mk.injEq] at hx
  obtain ⟨⟨rfl, -⟩, rfl⟩ := hx
  obtain ⟨s, hs, hx⟩ := Option.bind_eq_some_iff.1 hq
  obtain ⟨rfl, rfl⟩ := Prod.mk.inj (Option.some.inj hx)
  obtain ⟨hshown, hstop⟩ := (h.shown.reading hname).loop hs
  exact ⟨hstop, hshown, h.buff, h.left⟩

/-- What the running length is compared with. -/
theorem lt_iff (h : map.Stands w c left) : n < left ↔ w.len + n < w.packet.pktLen := by
  rw [h.shown.pktLen, ← h.left]
  omega

theorem skip (h : map.Stands w c left) (k : ℕ) : map.Stands (w.skip k) (c + k) left :=
  ⟨h.shown, congrArg (· + k) h.buff, h.left⟩

theorem grow (h : map.Stands w c left) (k : ℕ) : map.Stands (w.count k).1 c (left - k) :=
  ⟨h.shown, h.buff, by rw [← h.left, Nat.sub_sub]; rfl⟩

/-- The function goes on behind a name. -/
theorem name (h : map.Stands w c left) (hname : map.Name c n) {f : DnsStep × ℕ → Option DnsStep}
    {g : ℕ → DnsWalk → Option DnsStep} (hf : ∀ r stop, f (r, stop) = r.andThen (g stop))
    (hgo : w.readName env 42 >>= f = some (w', true)) :
    ∃ w₁, map.Stands w₁ c left ∧ g n w₁ = some (w', true) := by
  obtain ⟨⟨⟨w₁, goesOn⟩, stop⟩, hread, hgo⟩ := Option.bind_eq_some_iff.1 hgo
  rw [hf] at hgo
  obtain ⟨rfl, hgo⟩ := DnsStep.andThen_eq_true hgo
  obtain ⟨rfl, hw₁⟩ := h.readName hname hread
  exact ⟨w₁, hw₁, hgo⟩

/-- The function goes on if the running length leaves more. -/
theorem count (h : map.Stands w c left) {f : DnsWalk → Option DnsStep}
    (hgo : (w.count n).andThen f = some (w', true)) :
    n < left ∧ ∃ w₁, map.Stands w₁ c (left - n) ∧ f w₁ = some (w', true) := by
  obtain ⟨hlt, hgo⟩ := DnsStep.andThen_eq_true hgo
  exact ⟨h.lt_iff.2 (of_decide_eq_true hlt), _, h.grow n, hgo⟩

/-- The data of a record are gone over. -/
theorem data (h : map.Stands w c left) {k : ℕ}
    (hgo : (w.count n).andThen (fun w ↦ some (w.skip k, true)) = some (w', true)) :
    n < left ∧ map.Stands w' (c + k) (left - n) := by
  obtain ⟨hlt, w₁, hw₁, hx⟩ := h.count hgo
  obtain ⟨rfl, -⟩ := Prod.mk.inj (Option.some.inj hx)
  exact ⟨hlt, hw₁.skip k⟩

/-- **Behind an address** the packet still shows the message. -/
theorem address (h : map.Stands w c left) {dataLen : ℕ} {stack : ℕ → UInt8}
    (haddr : map.Address c dataLen) (hgo : (do
      let w ← w.address blockEncrypt dataLen stack
      some (w, true)) = some (w', true)) : map.Stands w' (c + dataLen) left := by
  obtain ⟨w₁, hw, hx⟩ := Option.bind_eq_some_iff.1 hgo
  obtain ⟨rfl, -⟩ := Prod.mk.inj (Option.some.inj hx)
  rw [← h.buff] at haddr
  rw [DnsWalk.address, if_neg (by have := haddr.1; omega)] at hw
  generalize retrieveCryptoIp blockEncrypt w.self (rdataWord w.packet w.buff dataLen stack) =
    r at hw
  obtain ⟨addr, self⟩ := r
  obtain rfl := Option.some.inj hw
  have hsame := w.packet.write_sameOutside w.buff ((wordBytes addr ++ [0, 0, 0, 0]).take dataLen)
  refine ⟨h.shown.changed hsame fun j hj ↦ .inr ?_, congrArg (· + dataLen) h.buff, h.left⟩
  rw [List.length_take] at hj
  exact (haddr.2 j hj.1 (by omega)).2

/-- The fixed part of a record of the authority or the additional section. -/
theorem resource (h : map.Stands w c left) (hname : map.Name c n)
    {g : ℕ → DnsWalk → Option DnsStep} (hgo : (do
      let (r, stop) ← w.readName env 42
      r.andThen fun w ↦ (w.count stop).andThen fun w₁ ↦
        if 100 ≤ i then none
        else ((w₁.skip stop).count 10).andThen fun w₂ ↦ g (w₁.buff + stop) (w₂.skip 10)) =
          some (w', true)) :
    n + 10 < left ∧
      ∃ w₁, map.Stands w₁ (c + n + 10) (left - (n + 10)) ∧ g (c + n) w₁ = some (w', true) := by
  obtain ⟨w₁, hw₁, hgo⟩ := h.name hname (g := fun stop w ↦ (w.count stop).andThen fun w₁ ↦
    if 100 ≤ i then none
    else ((w₁.skip stop).count 10).andThen fun w₂ ↦ g (w₁.buff + stop) (w₂.skip 10))
    (fun _ _ ↦ rfl) hgo
  obtain ⟨hlt, w₂, hw₂, hgo⟩ := hw₁.count hgo
  split_ifs at hgo
  obtain ⟨hlt', w₃, hw₃, hgo⟩ := (hw₂.skip n).count hgo
  rw [hw₂.buff] at hgo
  have hw₄ := hw₃.skip 10
  rw [Nat.sub_sub] at hw₄
  exact ⟨by omega, _, hw₄, hgo⟩

end MessageMap.Stands

theorem DnsWalk.drop_ne : w.drop ≠ some (w', true) := by
  intro h
  obtain ⟨q, -, h⟩ := Option.bind_eq_some_iff.1 h
  simp at h

/-! ### One record -/

section Record

variable {c left : ℕ}

/-- **A record of the answer section** of the message fits. -/
theorem MessageMap.AnswerIn.fits (hw : map.Stands w c left) (h : map.AnswerIn next i c left) :
    AnswerFits env 42 p.pktLen i w := by
  obtain ⟨hi, n, hname, htype, hlength, hdata⟩ := h
  refine ⟨hw.nameFits hname, fun w₁ stop hread ↦ ?_⟩
  obtain ⟨rfl, hw₁⟩ := hw.readName hname hread
  simp only at hdata ⊢
  rw [hw₁.buff, hw₁.shown.ntohs_eq htype, hw₁.shown.ntohs_eq hlength, ← hw₁.lt_iff]
  refine ⟨hi, hlength.le, fun hlt ↦ ?_⟩
  obtain ⟨haddr, halias⟩ := hdata hlt
  refine ⟨fun h₁ ↦ (haddr h₁).1.fits, fun h₅ ↦ ?_⟩
  obtain ⟨⟨k, hk⟩, -⟩ := halias h₅
  exact (((hw₁.skip stop).grow _).skip 10).nameFits hk

/-- **Behind a record of the answer section** the function is where the message goes on. -/
theorem MessageMap.AnswerIn.goesOn (hw : map.Stands w c left) (h : map.AnswerIn next i c left)
    (hgo : answerRecord blockEncrypt env 42 i w = some (w', true)) :
    ∃ c' left', map.Stands w' c' left' ∧ next c' left' := by
  obtain ⟨hi, n, hname, htype, hlength, hdata⟩ := h
  obtain ⟨w₁, hw₁, hgo⟩ := hw.name hname (fun _ _ ↦ rfl) hgo
  simp only at hdata hgo
  rw [if_neg (Nat.not_le.2 hi), hw₁.buff, hw₁.shown.ntohs_eq hlength] at hgo
  obtain ⟨hlt, w₂, hw₂, hgo⟩ := (hw₁.skip n).count hgo
  obtain ⟨haddr, halias⟩ := hdata hlt
  have hw₃ := hw₂.skip 10
  simp only [hw₃.shown.ntohs_eq htype, hw₃.shown.ntohs_eq hlength] at hgo
  split_ifs at hgo with h₁ h₅
  · obtain ⟨haddr, hnext⟩ := haddr h₁
    exact ⟨_, _, hw₃.address haddr hgo, hnext⟩
  · obtain ⟨⟨k, hk⟩, hnext⟩ := halias h₅
    obtain ⟨w₄, hw₄, hgo⟩ := hw₃.name hk (fun _ _ ↦ rfl) hgo
    simp only [hw₄.shown.ntohs_eq hlength] at hgo
    obtain ⟨hlt', hw₅⟩ := hw₄.data hgo
    rw [Nat.sub_sub] at hw₅
    exact ⟨_, _, hw₅, hnext (by omega)⟩
  · exact absurd hgo DnsWalk.drop_ne

/-- **A record of the authority section** of the message fits. -/
theorem MessageMap.AuthorityIn.fits (hw : map.Stands w c left)
    (h : map.AuthorityIn next i c left) : AuthorityFits env 42 p.pktLen i w := by
  obtain ⟨n, hname, hrest⟩ := h
  refine ⟨hw.nameFits hname, fun w₁ stop hread hlt ↦ ?_⟩
  obtain ⟨rfl, hw₁⟩ := hw.readName hname hread
  obtain ⟨hi, hrest⟩ := hrest (hw₁.lt_iff.2 hlt)
  refine ⟨hi, fun hlt' ↦ ?_⟩
  rw [Nat.add_assoc, ← hw₁.lt_iff] at hlt'
  obtain ⟨htype, hserver, hother⟩ := hrest hlt'
  rw [hw₁.buff, hw₁.shown.ntohs_eq htype]
  refine ⟨htype.le, fun h₂ ↦ ?_, fun h₂ ↦ (hother h₂).1.le⟩
  obtain ⟨k, hk, -⟩ := hserver h₂
  exact ((((hw₁.grow stop).skip stop).grow 10).skip 10).nameFits hk

/-- **Behind a record of the authority section** the function is where the message goes on. -/
theorem MessageMap.AuthorityIn.goesOn (hw : map.Stands w c left)
    (h : map.AuthorityIn next i c left) (hgo : authorityRecord env 42 i w = some (w', true)) :
    ∃ c' left', map.Stands w' c' left' ∧ next c' left' := by
  obtain ⟨n, hname, hrest⟩ := h
  obtain ⟨hlt, w₁, hw₁, hgo⟩ := hw.resource hname (i := i) (g := fun resource w ↦
    if w.packet.ntohs resource = 2 then do
      let (r, stop) ← w.readName env 42
      r.andThen fun w ↦ (w.count stop).andThen fun w ↦ some (w.skip stop, true)
    else (w.count (w.packet.ntohs (resource + 8))).andThen fun w₁ ↦
      some (w₁.skip (w.packet.ntohs (resource + 8)), true)) hgo
  obtain ⟨-, hrest⟩ := hrest (Nat.lt_of_le_of_lt (Nat.le_add_right ..) hlt)
  obtain ⟨htype, hserver, hother⟩ := hrest hlt
  rw [hw₁.shown.ntohs_eq htype] at hgo
  split_ifs at hgo with h₂
  · obtain ⟨k, hk, hnext⟩ := hserver h₂
    obtain ⟨w₂, hw₂, hgo⟩ := hw₁.name hk
      (g := fun stop w ↦ (w.count stop).andThen fun w ↦ some (w.skip stop, true))
      (fun _ _ ↦ rfl) hgo
    obtain ⟨hlt', hw₃⟩ := hw₂.data hgo
    rw [Nat.sub_sub] at hw₃
    exact ⟨_, _, hw₃, hnext (by omega)⟩
  · obtain ⟨hlength, hnext⟩ := hother h₂
    simp only [hw₁.shown.ntohs_eq hlength] at hgo
    obtain ⟨hlt', hw₂⟩ := hw₁.data hgo
    rw [Nat.sub_sub] at hw₂
    exact ⟨_, _, hw₂, hnext (by omega)⟩

/-- **A record of the additional section** of the message fits. -/
theorem MessageMap.AdditionalIn.fits (hw : map.Stands w c left)
    (h : map.AdditionalIn next i c left) : AdditionalFits env 42 p.pktLen i w := by
  obtain ⟨n, hname, hrest⟩ := h
  refine ⟨hw.nameFits hname, fun w₁ stop hread hlt ↦ ?_⟩
  obtain ⟨rfl, hw₁⟩ := hw.readName hname hread
  obtain ⟨hi, hrest⟩ := hrest (hw₁.lt_iff.2 hlt)
  refine ⟨hi, fun hlt' ↦ ?_⟩
  rw [Nat.add_assoc, ← hw₁.lt_iff] at hlt'
  obtain ⟨htype, haddr⟩ := hrest hlt'
  rw [hw₁.buff, hw₁.shown.ntohs_eq htype]
  refine ⟨htype.le, fun h₁ ↦ ?_⟩
  obtain ⟨hlength, haddr⟩ := haddr h₁
  rw [hw₁.shown.ntohs_eq hlength, Nat.add_assoc w₁.len, Nat.add_assoc w₁.len, ← hw₁.lt_iff]
  exact ⟨hlength.le, fun hlt'' ↦ (haddr hlt'').1.fits⟩

/-- **Behind a record of the additional section** the function is where the message goes on. -/
theorem MessageMap.AdditionalIn.goesOn (hw : map.Stands w c left)
    (h : map.AdditionalIn next i c left)
    (hgo : additionalRecord blockEncrypt env 42 i w = some (w', true)) :
    ∃ c' left', map.Stands w' c' left' ∧ next c' left' := by
  obtain ⟨n, hname, hrest⟩ := h
  obtain ⟨hlt, w₁, hw₁, hgo⟩ := hw.resource hname (i := i) (g := fun resource w ↦
    if w.packet.ntohs resource = 1 then
      (w.count (w.packet.ntohs (resource + 8))).andThen fun w₁ ↦ do
        let w₁ ← w₁.address blockEncrypt (w.packet.ntohs (resource + 8)) (env.stack (100 + i))
        some (w₁, true)
    else w.drop) hgo
  obtain ⟨-, hrest⟩ := hrest (Nat.lt_of_le_of_lt (Nat.le_add_right ..) hlt)
  obtain ⟨htype, haddr⟩ := hrest hlt
  rw [hw₁.shown.ntohs_eq htype] at hgo
  split_ifs at hgo with h₁
  · obtain ⟨hlength, haddr⟩ := haddr h₁
    simp only [hw₁.shown.ntohs_eq hlength] at hgo
    obtain ⟨hlt', w₂, hw₂, hgo⟩ := hw₁.count hgo
    obtain ⟨haddr, hnext⟩ := haddr (by omega)
    rw [Nat.sub_sub] at hw₂
    exact ⟨_, _, hw₂.address haddr hgo, hnext⟩
  · exact absurd hgo DnsWalk.drop_ne

/-! ### The sections -/

/-- **The records of a section** of the message fit, and behind them the function is where the
message goes on. -/
theorem MessageMap.sectionIn {recordIn : (ℕ → ℕ → Prop) → ℕ → ℕ → ℕ → Prop}
    (record : ℕ → DnsWalk → Option DnsStep) {fits : ℕ → DnsWalk → Prop}
    (hrecord : ∀ next i (w : DnsWalk) c left, map.Stands w c left → recordIn next i c left →
      fits i w ∧ ∀ w', record i w = some (w', true) →
        ∃ c' left', map.Stands w' c' left' ∧ next c' left')
    (records : ℕ) (hw : map.Stands w c left) (h : SectionIn next recordIn records i c left) :
    recordsFit record fits records i w ∧ ∀ w', recordsLoop record records i w = some (w', true) →
      ∃ c' left', map.Stands w' c' left' ∧ next c' left' := by
  induction records generalizing i w c left with
  | zero =>
    refine ⟨trivial, fun w' hgo ↦ ?_⟩
    obtain ⟨rfl, -⟩ := Prod.mk.inj (Option.some.inj hgo)
    exact ⟨c, left, hw, h⟩
  | succ records ih =>
    obtain ⟨hfits, hnext⟩ := hrecord _ i w c left hw h
    refine ⟨⟨hfits, fun w₁ hgo ↦ ?_⟩, fun w' hgo ↦ ?_⟩
    · obtain ⟨c₁, left₁, hw₁, h₁⟩ := hnext w₁ hgo
      exact (ih hw₁ h₁).1
    · obtain ⟨⟨w₁, goesOn⟩, hone, hgo⟩ := Option.bind_eq_some_iff.1 hgo
      obtain ⟨rfl, hgo⟩ := DnsStep.andThen_eq_true hgo
      obtain ⟨c₁, left₁, hw₁, h₁⟩ := hnext w₁ hone
      exact (ih hw₁ h₁).2 w' hgo

/-- **The records** of the message fit. -/
theorem MessageMap.RecordsIn.fits {dns : DnsHeader} (hw : map.Stands w c left)
    (h : map.RecordsIn dns c left) : dns.RecordsFit blockEncrypt env 42 p.pktLen w := by
  obtain ⟨hfits, hnext⟩ := sectionIn (answerRecord blockEncrypt env 42)
    (fun _ _ _ _ _ hw h ↦ ⟨h.fits hw, fun _ ↦ h.goesOn hw⟩) dns.ansCount hw h
  refine ⟨hfits, fun w₁ hgo ↦ ?_⟩
  obtain ⟨c₁, left₁, hw₁, h₁⟩ := hnext w₁ hgo
  obtain ⟨hfits₁, hnext₁⟩ := sectionIn (authorityRecord env 42)
    (fun _ _ _ _ _ hw h ↦ ⟨h.fits hw, fun _ ↦ h.goesOn hw⟩) dns.authCount hw₁ h₁
  refine ⟨hfits₁, fun w₂ hgo₁ ↦ ?_⟩
  obtain ⟨c₂, left₂, hw₂, h₂⟩ := hnext₁ w₂ hgo₁
  exact (sectionIn (additionalRecord blockEncrypt env 42)
    (fun _ _ _ _ _ hw h ↦ ⟨h.fits hw, fun _ ↦ h.goesOn hw⟩) dns.addCount hw₂ h₂).1

end Record

end Walk

/-! ## The message -/

section Message

variable (packet : Packet) (flow : Flow) (flowDb : HashStruct) (kAnon kDelta : ℤ) (env : DnsEnv)

/-- What is read of every message: of a response that tells of an error or has no answer, the header
as far as it shows this, and of any other the name of the question as far as it is read. -/
structure StartIn : Prop where
  empty : (packet.dnsHeader 42).Empty →
    (if (packet.dnsHeader 42).rcode ≠ 0 then 46 else 50) ≤ packet.pktLen
  question : ¬(packet.dnsHeader 42).Empty → QuestionIn (packet.pktLen - 54) 0 (packet.frameFrom 54)

/-- A message that `dnsEntry` reads to the end.  If it is a response, with answers, and its question
is for a name that fits into `name` and is not counted for `kAnon` users, then there are records,
the first of them behind the type and the class of the question, and the running length leaves what
is behind the text of the name and these. -/
structure MessageIn : Prop extends StartIn packet where
  records : (packet.dnsHeader 42).qr ≠ 0 → ¬(packet.dnsHeader 42).Empty → ∀ ls rest, Short ls →
    packet.frameFrom 54 = wire ls ++ rest → (text ls).length < nameDns →
      let name := (text ls).takeWhile (· ≠ 0)
      name ≠ [] → ¬Popular flowDb flow name kAnon kDelta env.table →
        58 + name.length < packet.pktLen →
        ∃ map : MessageMap packet, (∀ j, LabelByte ls 54 j → map.letters j) ∧
          (∀ j, map.letters j → LabelByte ls 54 j ∨ IsLetter (packet.byte j)) ∧
          map.RecordsIn (packet.dnsHeader 42) (54 + (wire ls).length + 4)
            (packet.pktLen - (58 + name.length))

variable {packet flow flowDb kAnon kDelta env} {self : CryptoIp} {blockEncrypt : Block → Block}

variable (env self) in
/-- Behind the question, which has been rewritten, the walk stands at the first record. -/
theorem MessageMap.Stands.recordsStart {map : MessageMap packet} {ls : List (List UInt8)}
    (hls : Short ls) (hreads : Reads packet.data 54 (wire ls))
    (hle : 54 + (wire ls).length ≤ packet.pktLen) (hlabel : ∀ j, LabelByte ls 54 j → map.letters j)
    (hletter : ∀ j, map.letters j → LabelByte ls 54 j ∨ IsLetter (packet.byte j))
    (name : List UInt8) :
    map.Stands (AlphaMon.recordsStart packet self env name) (54 + (wire ls).length + 4)
      (packet.pktLen - (58 + name.length)) := by
  have hmem := packet.pktLen_le
  have hlength := length_lt_length_wire ls
  obtain ⟨hstop, hsame, hcapital⟩ :=
    @questionRewrite_wire _ _ _ (env.tsc 0) hls (packet.data.length + 1)
    (by omega) hreads (by omega)
  refine ⟨⟨hsame.pktLen, fun j hj ↦ ?_, fun j hl _ ↦ hsame.byte j fun h ↦ hl (hlabel j h)⟩,
    congrArg (· + 4) hstop, ?_⟩
  swap
  · show packet.pktLen - (42 + 12 + name.length + 4) = _
    omega
  show IsLetter ((questionRewrite (env.tsc 0) (packet.data.length + 1) 54 packet).1.byte j)
  by_cases hj' : LabelByte ls 54 j
  · rw [hcapital j hj']
    exact .of_isCapital (isCapital_randChar _)
  · rw [hsame.byte j hj']
    exact (hletter j hj).resolve_left hj'

/-- **The records** that `dnsEntry` comes to fit. -/
theorem MessageIn.recordsFit (h : MessageIn packet flow flowDb kAnon kDelta env)
    (hmax : packet.pktLen < 2 ^ 32) (hempty : ¬(packet.dnsHeader 42).Empty) {name : List UInt8}
    (hcomes : ComesToRecords packet flow flowDb kAnon kDelta env name) :
    (packet.dnsHeader 42).RecordsFit blockEncrypt env 42 packet.pktLen
      (recordsStart packet self env name) := by
  obtain ⟨⟨copy, hcopy, rfl⟩, hne, ⟨db, ret, hadd, hret⟩, hresp, hroom⟩ := hcomes
  obtain ⟨ls, hls, hreads, hle, rfl, hshort⟩ :=
    labels_of_questionName hmax (questionIn_iff.1 (h.question hempty)) hcopy
  have hpos := length_wire_pos ls
  have hframe : packet.frameFrom 54 = wire ls ++ packet.frameFrom (54 + (wire ls).length) :=
    (Packet.frameFrom_eq_append (List.ne_nil_of_length_pos hpos)).2 ⟨hle, hreads, rfl⟩
  obtain ⟨map, hlabel, hletter, hrecords⟩ := h.records hresp hempty ls _ hls hframe hshort
    (fun h0 ↦ hne (by rw [h0]; rfl)) (fun hpop ↦ absurd (hpop db ret hadd) (not_le.2 hret))
      (by omega)
  exact hrecords.fits (.recordsStart env self hls hreads hle hlabel hletter _)

/-- A response for the name `a.b` with an address, whose owner is a pointer to the question. -/
def addressResponse : Packet :=
  dnsFrame 2 1 53 40000 32768 1 (wire [[97], [98]] ++ [0, 1, 0, 1] ++
    [192, 12, 0, 1, 0, 1, 0, 0, 0, 60, 0, 4, 10, 0, 0, 1])

/-- Where its names go on. -/
def addressResponseNames : List (ℕ × ℕ) := [(63, 0), (54, 0), (55, 1), (56, 0), (57, 1), (58, 0)]

/-- What its bytes are for. -/
def addressResponseMap : MessageMap addressResponse where
  letters j := j ∈ [55, 57]
  addresses j := j ∈ [75, 76, 77, 78]
  names j k := (j, k) ∈ addressResponseNames
  disjoint := by decide
  inside j k := (by decide +kernel : ∀ x ∈ addressResponseNames,
    x.1 < addressResponse.pktLen ∧ x.1 ∉ [75, 76, 77, 78]) (j, k)
  letter j k := (by decide +kernel : ∀ x ∈ addressResponseNames, x.1 ∈ [55, 57] →
    0 < x.2 ∧ (x.1 + 1, x.2 - 1) ∈ addressResponseNames) (j, k)
  length j k :=
    (by decide +kernel : ∀ x ∈ addressResponseNames, x.1 ∉ [55, 57] → addressResponse.byte x.1 ≠ 0 →
    (addressResponse.byte x.1).toNat < 192 →
      x.2 = 0 ∧ (x.1 + 1, (addressResponse.byte x.1).toNat) ∈ addressResponseNames) (j, k)
  pointer j k := (by decide +kernel : ∀ x ∈ addressResponseNames, x.1 ∉ [55, 57] →
    192 ≤ (addressResponse.byte x.1).toNat →
      (x.1 + 1 < addressResponse.pktLen ∧ x.1 + 1 ∉ [55, 57] ∧ x.1 + 1 ∉ [75, 76, 77, 78]) ∧
        (addressResponse.target 42 x.1, x.2) ∈ addressResponseNames) (j, k)

theorem addressResponseMap_plain {i n : ℕ} (h : ∀ j ∈ List.range' i n,
    j < addressResponse.pktLen ∧ j ∉ [55, 57] ∧ j ∉ [75, 76, 77, 78]) :
      addressResponseMap.Plain i n :=
  fun j h₁ h₂ ↦ h j (List.mem_range'_1.2 ⟨h₁, h₂⟩)

theorem addressResponse_recordsIn :
    addressResponseMap.RecordsIn (addressResponse.dnsHeader 42) 63 18 := by
  have hname : addressResponseMap.Name 63 2 :=
    ⟨(by decide : (63, 0) ∈ addressResponseNames), .pointer (by decide : 63 ∉ [55, 57])
      (by decide +kernel)⟩
  have htype : addressResponse.ntohs 65 = 1 := by decide +kernel
  have hlength : addressResponse.ntohs 73 = 4 := by decide +kernel
  have haddr : addressResponseMap.Address 75 4 := by
    refine ⟨by decide, fun j h₁ h₂ ↦ ?_⟩
    exact (by
      decide +kernel : ∀ j ∈ List.range' 75 4, j < addressResponse.pktLen ∧ j ∈ [75, 76, 77, 78]) j
      (List.mem_range'_1.2 ⟨h₁, h₂⟩)
  have hans : (addressResponse.dnsHeader 42).ansCount = 1 := by decide +kernel
  have hauth : (addressResponse.dnsHeader 42).authCount = 0 := by decide +kernel
  have hadd : (addressResponse.dnsHeader 42).addCount = 0 := by decide +kernel
  rw [MessageMap.RecordsIn, hans, hauth, hadd]
  refine ⟨by
    decide, 2, hname, addressResponseMap_plain (by decide +kernel),
    addressResponseMap_plain (by decide +kernel),
    fun _ ↦ ⟨fun _ ↦ ?_, fun h ↦ absurd (htype.symm.trans h) (by decide)⟩⟩
  rw [hlength]
  exact ⟨haddr, trivial⟩

/-- A query whose name goes on to the end of the frame. -/
def cutQuery : Packet where
  data := dnsHeaders 1 2 40000 53 0 0 ++ [1, 97, 1, 98] ++ [255]
  pktLen := 58
  pktLen_le := by decide

end Message

end AlphaMon
