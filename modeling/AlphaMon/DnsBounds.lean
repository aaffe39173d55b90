import AlphaMon.DnsAccesses
import AlphaMon.DnsQuestion
import AlphaMon.HeaderFrame
import AlphaMon.ReadName

/-!
# Whether the DNS module stays in the packet

Nothing in `dnsEntry` keeps the pointer into the message below `pkt_len`: the remaining length of
the question is not told of the length octets, the running length of the records not of the owner
names, and `ReadName` is told of no length at all.  Nor are the counts of records compared with the
sizes of the arrays, or the length of an address with that of `rdata`.

So the accesses stay in the packet for another reason, which is taken apart here: `QuestionFits` is
about those of the name of the question, `NameFits` about those of a call of `ReadName`, and
`AnswerFits` and its siblings about those of a record.  `dnsInside_iff` says that there are no
others.
-/

set_option autoImplicit false

namespace AlphaMon

open CString DomainName Traced

/-! ## Single accesses -/

section Touch

variable {α : Type} {m i n : ℕ} {f : Unit → Partial DnsAccess α}

theorem stays_access {kind : ℕ → DnsAccess} {bound : ℕ} (hk : ∀ j, (kind j).Inside m ↔ j < bound) :
    (access kind i n >>= f).run.Stays (DnsAccess.Inside m) ↔
      (n = 0 ∨ i + n ≤ bound) ∧ (f ()).run.Stays (DnsAccess.Inside m) := by
  rw [access, Partial.stays_emit, List.forall_mem_map]
  refine and_congr_left fun _ ↦ ?_
  simp only [hk, List.mem_range'_1]
  constructor
  · intro h
    rcases Nat.eq_zero_or_pos n with h0 | hpos
    · exact .inl h0
    · have hlast := h (i + n - 1) (by omega)
      exact .inr (by omega)
  · intro h j hj
    omega

theorem stays_packet : (access .packet i n >>= f).run.Stays (DnsAccess.Inside m) ↔
    (n = 0 ∨ i + n ≤ m) ∧ (f ()).run.Stays (DnsAccess.Inside m) :=
  stays_access fun _ ↦ Iff.rfl

theorem stays_name : (access .name i n >>= f).run.Stays (DnsAccess.Inside m) ↔
    (n = 0 ∨ i + n ≤ nameDns) ∧ (f ()).run.Stays (DnsAccess.Inside m) :=
  stays_access fun _ ↦ Iff.rfl

/-- A record is kept in an array, and the function goes on only if there is a place for it. -/
theorem stays_record {g : Partial DnsAccess α} :
    (access .record i 1 >>= fun _ ↦ if 100 ≤ i then failure else g).run.Stays (DnsAccess.Inside m) ↔
      i < 100 ∧ g.run.Stays (DnsAccess.Inside m) := by
  have haccess : ∀ j, (DnsAccess.record j).Inside m ↔ j < 100 := fun _ ↦ Iff.rfl
  rw [stays_access haccess]
  by_cases hi : 100 ≤ i
  · exact iff_of_false (fun h ↦ absurd h.1 (by omega)) fun h ↦ absurd h.1 (by omega)
  · rw [if_neg hi]
    exact and_congr_left fun _ ↦ by omega

theorem stays_rdata : (access .rdata i n >>= f).run.Stays (DnsAccess.Inside m) ↔
    (n = 0 ∨ i + n ≤ 200) ∧ (f ()).run.Stays (DnsAccess.Inside m) :=
  stays_access fun _ ↦ Iff.rfl

end Touch

/-- What is removed is in the frame if it starts there. -/
theorem removePayloadTraced_stays {p : Packet} {offset : ℕ} (h : offset ≤ p.pktLen) :
    (removePayloadTraced p offset).run.Stays (DnsAccess.Inside p.pktLen) := by
  rw [removePayloadTraced, if_pos h, stays_packet]
  exact ⟨.inr (by omega), Partial.stays_pure _⟩

/-! ## The name of the question -/

/-- Where a label starts in `name`, which has `n` characters: behind a dot, unless it is the
first. -/
def labelStart (n : ℕ) : ℕ := if n = 0 then 0 else n + 1

/-- The loop over the labels stays in the frame and in `name`, from a length octet at `i` on.  The
running length lets `left` pass, and `name` has `n` characters. -/
inductive Packet.QuestionFits (p : Packet) (m : ℕ) : ℕ → ℕ → ℕ → Prop
  /-- The name ends, or the function returns. -/
  | stop {i left n : ℕ} : i < m →
      p.byte i = 0 ∨ 128 ≤ (p.byte i).toNat ∨ left ≤ (p.byte i).toNat ∨ nameDns ≤ n →
        QuestionFits p m i left n
  /-- A label is copied. -/
  | label {i left n : ℕ} : i < m → p.byte i ≠ 0 → (p.byte i).toNat < 128 → (p.byte i).toNat < left →
      n < nameDns → labelStart n + (p.byte i).toNat ≤ nameDns →
      QuestionFits p m (i + 1 + (p.byte i).toNat) (left - (p.byte i).toNat)
        (labelStart n + (p.byte i).toNat) →
      QuestionFits p m i left n

section Question

variable {p q : Packet} {m i j left n fuel : ℕ} {name : List UInt8}

theorem Packet.QuestionFits.lt (h : p.QuestionFits m i left n) : i < m := by
  cases h with
  | stop h => exact h
  | label h => exact h

/-- At a length octet at which the function does not return. -/
theorem Packet.questionFits_iff (hi : i < m) (h0 : p.byte i ≠ 0) (hlow : (p.byte i).toNat < 128)
    (hlt : (p.byte i).toNat < left) (hn : n < nameDns) : p.QuestionFits m i left n ↔
      labelStart n + (p.byte i).toNat ≤ nameDns ∧
        p.QuestionFits m (i + 1 + (p.byte i).toNat) (left - (p.byte i).toNat)
          (labelStart n + (p.byte i).toNat) := by
  constructor
  · intro h
    cases h with
    | stop _ hstop => exact absurd hstop (by simp only [h0, false_or]; omega)
    | label _ _ _ _ _ hfits hnext => exact ⟨hfits, hnext⟩
  · exact fun h ↦ .label hi h0 hlow hlt hn h.1 h.2

/-- The value of a `char`. -/
theorem Packet.char_eq (p : Packet) (j : ℕ) :
    p.char j = if (p.byte j).toNat < 128 then ((p.byte j).toNat : ℤ)
      else (p.byte j).toNat - 256 := by
  rw [char, BitVec.toInt_eq_toNat_cond]
  show (if 2 * (p.byte j).toNat < 2 ^ 8 then ((p.byte j).toNat : ℤ)
    else (p.byte j).toNat - (2 ^ 8 : ℕ)) = _
  refine if_congr (by omega) rfl (by norm_num)

/-- When the function returns at a length octet. -/
theorem exceeds_iff (h0 : 0 < left) (hleft : left < 2 ^ 32) :
    exceeds (p.char j) (54 + left) 42 = true ↔ 128 ≤ (p.byte j).toNat ∨
      left ≤ (p.byte j).toNat := by
  have hbyte := (p.byte j).toNat_lt
  rw [exceeds, decide_eq_true_iff, Packet.char_eq]
  split_ifs with hlow <;> omega

/-- The length octet at which the loop stands: the function has not returned there. -/
structure Packet.AtLabel (p : Packet) (m i left n : ℕ) (name : List UInt8) : Prop where
  inside : i < m
  low : (p.byte i).toNat < 128
  lt : (p.byte i).toNat < left
  small : left < 2 ^ 32
  room : n < nameDns
  length : name.length = if p.byte i = 0 then n else labelStart n

theorem Packet.AtLabel.char (h : p.AtLabel m i left n name) :
    p.char i = ((p.byte i).toNat : ℤ) := by
  rw [char_eq, if_pos h.low]

theorem Packet.byte_pos (h0 : p.byte i ≠ 0) : 0 < (p.byte i).toNat :=
  Nat.pos_of_ne_zero fun h ↦ h0 (UInt8.toNat_inj.1 h)

/-- The next length octet. -/
theorem Packet.AtLabel.next (h : p.AtLabel m i left n name) (h0 : p.byte i ≠ 0)
    (hin : i + 1 + (p.byte i).toNat < m)
    (hgo : ¬(exceeds (p.char (i + 1 + (p.byte i).toNat)) (54 + ↑(left - (p.byte i).toNat)) 42 =
      true ∨
      nameDns ≤ labelStart n + (p.byte i).toNat)) (l : List UInt8)
        (hl : l.length = (p.byte i).toNat) :
    p.AtLabel m (i + 1 + (p.byte i).toNat) (left - (p.byte i).toNat)
      (labelStart n + (p.byte i).toNat)
      (if p.char (i + 1 + (p.byte i).toNat) = 0 then name ++ l else name ++ l ++ [46]) := by
  have hlt := h.lt
  have hsmall := h.small
  rw [exceeds_iff (by omega) (by omega)] at hgo
  have hlow : (p.byte (i + 1 + (p.byte i).toNat)).toNat < 128 := by omega
  refine ⟨hin, hlow, by omega, by omega, by omega, ?_⟩
  have hlength := h.length
  rw [if_neg h0] at hlength
  have hpos := byte_pos h0
  have hzero : p.char (i + 1 + (p.byte i).toNat) = 0 ↔ p.byte (i + 1 + (p.byte i).toNat) = 0 := by
    rw [char_eq, if_pos hlow, Int.natCast_eq_zero, ← UInt8.toNat_zero, UInt8.toNat_inj]
  rw [apply_ite List.length, if_congr hzero rfl rfl]
  simp only [List.length_append, List.length_singleton, hlength, hl]
  refine if_congr Iff.rfl rfl ?_
  conv_rhs => rw [labelStart, if_neg (by omega)]

theorem Packet.reads_bytes (p : Packet) (i n : ℕ) : Reads p.data i (p.bytes i n) := by
  intro j hj
  simp [bytes, byte]

/-- **The loop that copies the name of the question** stays in the frame and in `name` exactly when
its labels do. -/
theorem questionLoopTraced_stays (hfuel : m ≤ fuel + i) (h : p.AtLabel m i left n name) :
    (questionLoopTraced p 42 fuel (p.char i) (54 + ↑left - ↑(p.byte i).toNat)
        (i + 1) name).run.Stays
      (DnsAccess.Inside m) ↔ p.QuestionFits m i left n := by
  induction fuel generalizing i left n name with
  | zero => exact absurd h.inside (by omega)
  | succ fuel ih =>
    have hlength := h.length
    rw [questionLoopTraced, h.char]
    by_cases h0 : p.byte i = 0
    · have hroom := h.room
      rw [if_pos h0] at hlength
      rw [if_pos (by simp [h0]), stays_name]
      exact iff_of_true ⟨by omega, Partial.stays_pure _⟩ (.stop h.inside (.inl h0))
    have hpos := Packet.byte_pos h0
    rw [if_neg h0] at hlength
    rw [if_neg (by omega), Packet.questionFits_iff h.inside h0 h.low h.lt h.room, Int.toNat_natCast,
      stays_packet,
      stays_name, hlength]
    by_cases hfits : nameDns < labelStart n + (p.byte i).toNat
    · exact iff_of_false (fun hin ↦ absurd hin.2.1 (by omega)) (fun hin ↦ absurd hin.1 (by omega))
    rw [if_neg hfits, stays_packet, and_iff_right (Nat.not_lt.1 hfits)]
    have hbytes : (p.bytes (i + 1) (p.byte i).toNat).length = (p.byte i).toNat := by
      simp [Packet.bytes]
    have hrest : (54 + (left : ℤ) - ↑(p.byte i).toNat) = 54 + ↑(left - (p.byte i).toNat) := by
      have := h.lt
      omega
    rw [List.length_append, hlength, hbytes, hrest]
    have hlt := h.lt
    have hsmall := h.small
    by_cases hgo : exceeds (p.char (i + 1 + (p.byte i).toNat)) (54 + ↑(left - (p.byte i).toNat))
      42 = true ∨
        nameDns ≤ labelStart n + (p.byte i).toNat
    · -- the function returns
      rw [if_pos (by simpa using hgo)]
      rw [exceeds_iff (by omega) (by omega)] at hgo
      constructor
      · exact fun hin ↦ .stop (by omega) (.inr (or_assoc.1 hgo))
      · intro hq
        have hnext := hq.lt
        exact ⟨by omega, by omega, by omega, Partial.stays_pure _⟩
    · rw [if_neg (by simpa using hgo), stays_name]
      have hdot : labelStart n + (p.byte i).toNat < nameDns := Nat.not_le.1 fun hle ↦ hgo (.inr hle)
      constructor
      · rintro ⟨-, -, hnext, -, hin⟩
        have hat := h.next h0 (by omega) hgo _ hbytes
        have hiff := ih (by omega) hat
        rw [← hat.char] at hiff
        exact hiff.1 hin
      · intro hq
        have hat := h.next h0 hq.lt hgo _ hbytes
        have hnext := hq.lt
        have hiff := ih (by omega) hat
        rw [← hat.char] at hiff
        exact ⟨by omega, by omega, by omega, by split_ifs <;> omega, hiff.2 hq⟩

/-- **Copying the name of the question** stays in the frame and in `name` exactly when its labels
do. -/
theorem questionNameTraced_stays (hmax : p.pktLen < 2 ^ 32) :
    (questionNameTraced p 42).run.Stays (DnsAccess.Inside p.pktLen) ↔
      p.QuestionFits p.pktLen 54 (p.pktLen - 54) 0 := by
  rw [questionNameTraced, stays_packet]
  by_cases hin : 54 < p.pktLen
  swap
  · exact iff_of_false (fun h ↦ absurd h.1 (by omega)) (fun h ↦ hin h.lt)
  have hlen : (p.pktLen : ℤ) = 54 + ↑(p.pktLen - 54) := by omega
  have hmem := p.pktLen_le
  rw [and_iff_right (by omega), hlen]
  by_cases hgo : exceeds (p.char (42 + 12)) (54 + ↑(p.pktLen - 54)) 42 = true
  · rw [if_pos hgo]
    rw [exceeds_iff (by omega) (by omega)] at hgo
    exact iff_of_true (Partial.stays_pure _) (.stop hin (.inr (hgo.imp_right .inl)))
  · have hgo' := hgo
    rw [exceeds_iff (by omega) (by omega), not_or] at hgo'
    have hat : p.AtLabel p.pktLen 54 (p.pktLen - 54) 0 [] :=
      ⟨hin, Nat.not_le.1 hgo'.1, Nat.not_le.1 hgo'.2, by omega, by decide, (ite_self _).symm⟩
    rw [if_neg hgo, hat.char]
    have hfuel : p.pktLen ≤ p.data.length + 1 + 54 := by omega
    have hiff := questionLoopTraced_stays hfuel hat
    rwa [hat.char] at hiff

/-! ## Rewriting it -/

/-- The labels from a position on lead to a `0` at `e`. -/
inductive Packet.LabelsTo (p : Packet) (e : ℕ) : ℕ → Prop
  | stop : p.byte e = 0 → LabelsTo p e e
  | label {i : ℕ} : p.byte i ≠ 0 → (p.byte i).toNat < 128 →
    LabelsTo p e (i + 1 + (p.byte i).toNat) → LabelsTo p e i

theorem Packet.LabelsTo.le {e : ℕ} (h : p.LabelsTo e i) : i ≤ e := by
  induction h with
  | stop => exact le_rfl
  | label _ _ _ ih => omega

theorem Packet.labelsTo_of_reads {ls : List (List UInt8)} (hv : Short ls)
    (h : Reads p.data i (wire ls)) :
    p.LabelsTo (i + (wire ls).length - 1) i := by
  induction ls generalizing i with
  | nil => exact .stop (reads_cons.1 h).1
  | cons l ls ih =>
    obtain ⟨⟨hpos, hlt⟩, hv'⟩ := short_cons.1 hv
    rw [wire_cons, reads_cons, reads_append] at h
    have hbyte : (p.byte i).toNat = l.length := by
      rw [show p.byte i = _ from h.1, UInt8.toNat_ofNat', Nat.mod_eq_of_lt (by omega)]
    have hrest := ih hv' h.2.2
    have hwire := length_wire_pos ls
    rw [length_wire_cons]
    refine .label (fun h0 ↦ ?_) (by omega) ?_
    · rw [h0] at hbyte
      simp at hbyte
      omega
    · convert hrest using 1
      all_goals omega

/-- **A name that is copied**, and not returned from, is a list of labels in the frame. -/
theorem labels_of_questionLoop {x : List UInt8} (h : p.AtLabel m i left n name)
    (hq : p.QuestionFits m i left n)
    (hx : questionLoop p 42 fuel (p.char i) (54 + ↑left - ↑(p.byte i).toNat) (i + 1) name =
      some (some x)) :
    ∃ ls, Short ls ∧ Reads p.data i (wire ls) ∧ i + (wire ls).length ≤ m ∧ x = name ++ text ls ∧
      x.length < nameDns ∧ (p.byte i = 0 ↔ ls = []) := by
  induction fuel generalizing i left n name with
  | zero => exact absurd hx (by simp [questionLoop])
  | succ fuel ih =>
    by_cases h0 : p.byte i = 0
    · rw [questionLoop, h.char, h0, if_pos (by simp), Option.some_inj, Option.some_inj] at hx
      have hin := h.inside
      have hlength := h.length
      rw [if_pos h0] at hlength
      refine ⟨[], short_nil, reads_cons.2 ⟨h0, reads_nil _ _⟩, ?_, ?_, ?_, by simp [h0]⟩
      · rw [wire_nil, List.length_singleton]
        omega
      · rw [text_nil, List.append_nil, hx]
      · rw [← hx, hlength]
        exact h.room
    have hlength := h.length
    have hpos := Packet.byte_pos h0
    have hlow := h.low
    have hlt := h.lt
    have hsmall := h.small
    obtain ⟨hfits, hnext⟩ := (Packet.questionFits_iff h.inside h0 h.low h.lt h.room).1 hq
    have hbytes : (p.bytes (i + 1) (p.byte i).toNat).length = (p.byte i).toNat := by
      simp [Packet.bytes]
    have hrest : (54 + (left : ℤ) - ↑(p.byte i).toNat) = 54 + ↑(left - (p.byte i).toNat) := by omega
    rw [if_neg h0] at hlength
    rw [questionLoop, h.char, if_neg (by omega), Int.toNat_natCast, if_neg (by omega)] at hx
    simp only [List.length_append, hlength, hbytes, hrest] at hx
    split at hx
    · exact absurd hx (by simp)
    next hgo =>
    have hat := h.next h0 hnext.lt (by simpa using hgo) _ hbytes
    have hchar := hat.char
    rw [hchar] at hx hat
    obtain ⟨ls, hls, hreads, hle, rfl, hroom, hnil⟩ := ih hat hnext (by rwa [hchar])
    refine ⟨p.bytes (i + 1) (p.byte i).toNat :: ls, short_cons.2 ⟨by omega, hls⟩, ?_, ?_, ?_,
      hroom, by simp [h0]⟩
    · rw [wire_cons, reads_cons, reads_append, hbytes, UInt8.ofNat_toNat]
      exact ⟨rfl, p.reads_bytes (i + 1) _, hreads⟩
    · rw [length_wire_cons, hbytes]
      omega
    · by_cases hend : p.byte (i + 1 + (p.byte i).toNat) = 0
      · rw [hnil.1 hend, if_pos (by simp [hend]), text_nil, text_singleton, List.append_nil]
      · have hne : ls ≠ [] := fun h ↦ hend (hnil.2 h)
        have hpos' := Packet.byte_pos hend
        rw [if_neg (by omega), text_cons _ hne]
        simp

/-- **Rewriting the name** goes no further than copying it. -/
theorem questionRewriteTraced_stays {e : ℕ} (h : p.LabelsTo e i) (he : e < m)
    (hsame : ∀ j, i ≤ j → q.byte j = p.byte j) (tsc : ℕ → ℕ) (fuel : ℕ) :
    (questionRewriteTraced tsc fuel i q).run.Stays (DnsAccess.Inside m) := by
  induction h generalizing fuel q with
  | stop h0 =>
    cases fuel with
    | zero => exact Partial.stays_pure _
    | succ fuel =>
      have hchar : q.char e = 0 := by rw [Packet.char_eq, hsame e le_rfl, h0]; decide
      rw [questionRewriteTraced, stays_packet, if_pos hchar]
      exact ⟨by omega, Partial.stays_pure _⟩
  | @label i h0 hlow hnext ih =>
    cases fuel with
    | zero => exact Partial.stays_pure _
    | succ fuel =>
      have hpos := Packet.byte_pos h0
      have hle := hnext.le
      have hchar : q.char i = (p.byte i).toNat := by
        rw [Packet.char_eq, hsame i le_rfl, if_pos hlow]
      rw [questionRewriteTraced, stays_packet, hchar, if_neg (by omega), stays_packet,
        Int.toNat_natCast]
      refine ⟨by omega, by omega, ih (fun j hj ↦ ?_) fuel⟩
      rw [Packet.mask_byte_ne (by omega), hsame j (by omega)]

end Question

/-! ## The records -/

section Records

variable (env : DnsEnv) (buffstart m : ℕ)

/-- A call of `ReadName` at the pointer stays in the frame. -/
def DnsWalk.NameFits (w : DnsWalk) :
    Prop := (w.readNameTraced env buffstart).run.Stays (DnsAccess.Inside m)

/-- `n` bytes of an address at a position are in the frame, and fit into `rdata` with a `0` behind
them. -/
def AddressFits (i n : ℕ) : Prop := n < 200 ∧ (n = 0 ∨ i + n ≤ m)

/-- The record `i` of the answer section stays inside: its owner name; its type, class, time to live
and length; and, if the function goes on, the address or the name that it carries. -/
def AnswerFits (i : ℕ) (w : DnsWalk) : Prop :=
  w.NameFits env buffstart m ∧ ∀ w' stop, w.readName env buffstart = some ((w', true), stop) →
    let resource := w'.buff + stop
    let dataLen := w'.packet.ntohs (resource + 8)
    i < 100 ∧ resource + 10 ≤ m ∧ (w'.len + (10 + dataLen) < w'.packet.pktLen →
      (w'.packet.ntohs resource = 1 → AddressFits m (resource + 10) dataLen) ∧
      (w'.packet.ntohs resource = 5 →
        (((w'.skip stop).count (10 + dataLen)).1.skip 10).NameFits env buffstart m))

/-- The record `i` of the authority section stays inside.  Of a name server, the length of the data
is not looked at. -/
def AuthorityFits (i : ℕ) (w : DnsWalk) : Prop :=
  w.NameFits env buffstart m ∧ ∀ w' stop, w.readName env buffstart = some ((w', true), stop) →
    w'.len + stop < w'.packet.pktLen →
      let resource := w'.buff + stop
      i < 100 ∧ (w'.len + stop + 10 < w'.packet.pktLen → resource + 2 ≤ m ∧
        (w'.packet.ntohs resource = 2 →
          ((((w'.count stop).1.skip stop).count 10).1.skip 10).NameFits env buffstart m) ∧
        (w'.packet.ntohs resource ≠ 2 → resource + 10 ≤ m))

/-- The record `i` of the additional section stays inside.  Of a record that is no address, nothing
but the type is looked at. -/
def AdditionalFits (i : ℕ) (w : DnsWalk) : Prop :=
  w.NameFits env buffstart m ∧ ∀ w' stop, w.readName env buffstart = some ((w', true), stop) →
    w'.len + stop < w'.packet.pktLen →
      let resource := w'.buff + stop
      let dataLen := w'.packet.ntohs (resource + 8)
      i < 100 ∧ (w'.len + stop + 10 < w'.packet.pktLen → resource + 2 ≤ m ∧
        (w'.packet.ntohs resource = 1 → resource + 10 ≤ m ∧
          (w'.len + stop + 10 + dataLen < w'.packet.pktLen →
            AddressFits m (resource + 10) dataLen)))

/-- Every record of a section that the function comes to fits. -/
def recordsFit (record : ℕ → DnsWalk → Option DnsStep) (fits : ℕ → DnsWalk → Prop) :
    ℕ → ℕ → DnsWalk → Prop
  | 0, _, _ => True
  | left + 1, i, w =>
    fits i w ∧ ∀ w', record i w = some (w', true) → recordsFit record fits left (i + 1) w'

variable {env buffstart m} {blockEncrypt : Block → Block} {p : Packet} {w : DnsWalk} {i : ℕ}

theorem DnsStep.andThenTraced_stays {f : DnsWalk → Partial DnsAccess DnsStep} {r : DnsStep} :
    (r.andThenTraced f).run.Stays (DnsAccess.Inside m) ↔
      (r.2 = true → (f r.1).run.Stays (DnsAccess.Inside m)) := by
  rw [andThenTraced]
  by_cases h : r.2
  · rw [if_pos h, imp_iff_right h]
  · rw [if_neg h]
    exact iff_of_true (Partial.stays_pure _) fun h' ↦ absurd h' h

/-- A computation, and what follows if the function goes on. -/
theorem stays_andThen {x : Partial DnsAccess DnsStep} {f : DnsWalk → Partial DnsAccess DnsStep} :
    (x >>= fun r ↦ r.andThenTraced f).run.Stays (DnsAccess.Inside m) ↔
      x.run.Stays (DnsAccess.Inside m) ∧
      ∀ w, x.run.value = some (w, true) → (f w).run.Stays (DnsAccess.Inside m) := by
  rw [Partial.stays_bind]
  refine and_congr_right fun _ ↦ ⟨fun h w hw ↦ ?_, fun h r hr ↦ ?_⟩
  · exact DnsStep.andThenTraced_stays.1 (h _ hw) rfl
  · exact DnsStep.andThenTraced_stays.2 fun hgo ↦ h r.1 (by rw [hr, ← hgo])

theorem DnsWalk.count_stays {f : DnsWalk → Partial DnsAccess DnsStep} {n : ℕ} :
    ((w.count n).andThenTraced f).run.Stays (DnsAccess.Inside m) ↔
      (w.len + n < w.packet.pktLen → (f (w.count n).1).run.Stays (DnsAccess.Inside m)) := by
  rw [DnsStep.andThenTraced_stays, DnsWalk.count, decide_eq_true_iff]

/-- A call of `ReadName`, and what follows if the function goes on. -/
theorem DnsWalk.stays_readName {f : DnsStep × ℕ → Partial DnsAccess DnsStep}
    {g : ℕ → DnsWalk → Partial DnsAccess DnsStep}
    (hf : ∀ r stop, f (r, stop) = r.andThenTraced (g stop)) :
    (w.readNameTraced env buffstart >>= f).run.Stays (DnsAccess.Inside m) ↔
      w.NameFits env buffstart m ∧ ∀ w' stop, w.readName env buffstart = some ((w', true), stop) →
        (g stop w').run.Stays (DnsAccess.Inside m) := by
  rw [Partial.stays_bind, readNameTraced_value]
  refine and_congr_right fun _ ↦ ⟨fun h w' stop hw ↦ ?_, fun h ⟨⟨w', goesOn⟩, stop⟩ hx ↦ ?_⟩
  · have hin := h _ hw
    rw [hf] at hin
    exact DnsStep.andThenTraced_stays.1 hin rfl
  · rw [hf, DnsStep.andThenTraced_stays]
    rintro rfl
    exact h w' stop hx

theorem DnsWalk.addressTraced_stays {dataLen : ℕ} {stack : ℕ → UInt8} :
    (w.addressTraced blockEncrypt dataLen stack).run.Stays (DnsAccess.Inside m) ↔
      AddressFits m w.buff dataLen := by
  rw [DnsWalk.addressTraced, stays_packet, stays_rdata, AddressFits]
  by_cases h : 200 ≤ dataLen
  · rw [if_pos h]
    exact iff_of_false (fun hin ↦ absurd hin.2.1 (by omega)) fun hin ↦ absurd hin.1 (by omega)
  · rw [if_neg h]
    have hroom : 0 + max 8 (dataLen + 1) ≤ 200 := by omega
    exact ⟨fun hin ↦ ⟨by omega, hin.1⟩, fun hin ↦ ⟨hin.2, .inr hroom, Partial.stays_pure _⟩⟩

theorem DnsWalk.dropTraced_stays (hp : 54 ≤ p.pktLen) (hw : w.Behind 0 p) :
    w.dropTraced.run.Stays (DnsAccess.Inside p.pktLen) := by
  have hlen := hw.packet.pktLen
  rw [DnsWalk.dropTraced, Partial.stays_bind, ← hlen]
  exact ⟨removePayloadTraced_stays (by omega), fun _ _ ↦ Partial.stays_pure _⟩

/-- An address, and what follows. -/
theorem DnsWalk.stays_address {dataLen : ℕ} {stack : ℕ → UInt8} :
    (do
      let w ← w.addressTraced blockEncrypt dataLen stack
      pure (w, true) : Partial DnsAccess DnsStep).run.Stays (DnsAccess.Inside m) ↔
        AddressFits m w.buff dataLen := by
  rw [Partial.stays_bind, addressTraced_stays]
  exact and_iff_left fun _ _ ↦ Partial.stays_pure _

/-- **A record of the answer section** stays inside exactly when it fits. -/
theorem answerRecordTraced_stays (hp : 54 ≤ p.pktLen) (hw : w.Behind 0 p) :
    (answerRecordTraced blockEncrypt env buffstart i w).run.Stays (DnsAccess.Inside p.pktLen) ↔
      AnswerFits env buffstart p.pktLen i w := by
  have hstable : DnsWalk.Stable blockEncrypt env buffstart (·.Behind 0 p) :=
    DnsWalk.stable_behind (Nat.zero_le _) (by omega) p
  rw [answerRecordTraced, AnswerFits]
  refine (DnsWalk.stays_readName fun _ _ ↦ rfl).trans
    (and_congr_right fun _ ↦ forall_congr' fun w₁ ↦
    forall_congr' fun stop ↦ forall_congr' fun hread ↦ ?_)
  have hw₁ := hstable.readName w _ hw hread
  simp only
  have hdata : (2 = 0 ∨ w₁.buff + stop + 8 + 2 ≤ p.pktLen) ↔ w₁.buff + stop + 10 ≤ p.pktLen := by
    omega
  rw [stays_record, stays_packet, DnsWalk.count_stays, hdata]
  refine and_congr_right fun _ ↦ and_congr_right fun hres ↦ imp_congr_right fun _ ↦ ?_
  -- behind the fixed part of the record
  obtain ⟨w₂, hw₂, hpacket, hbuff, hbehind⟩ : ∃ w₂,
      ((w₁.skip stop).count (10 + w₁.packet.ntohs (w₁.buff + stop + 8))).1.skip 10 = w₂ ∧
        w₂.packet = w₁.packet ∧ w₂.buff = w₁.buff + stop + 10 ∧ w₂.Behind 0 p :=
    ⟨_, rfl, rfl, rfl, hstable.skip _ _ (hstable.count _ _ (hstable.skip _ _ hw₁))⟩
  rw [hw₂, hpacket, stays_packet, and_iff_right (by omega)]
  by_cases h₁ : w₁.packet.ntohs (w₁.buff + stop) = 1
  · rw [if_pos h₁, DnsWalk.stays_address, imp_iff_right h₁, hbuff]
    exact (and_iff_left fun h₅ ↦ absurd (h₁.symm.trans h₅) (by decide)).symm
  rw [if_neg h₁, and_iff_right fun h ↦ absurd h h₁]
  by_cases h₅ : w₁.packet.ntohs (w₁.buff + stop) = 5
  · rw [if_pos h₅, DnsWalk.stays_readName fun _ _ ↦ rfl, imp_iff_right h₅]
    exact and_iff_left fun w₃ _ _ ↦ DnsWalk.count_stays.2 fun _ ↦ Partial.stays_pure _
  · rw [if_neg h₅]
    exact iff_of_true (DnsWalk.dropTraced_stays hp hbehind) fun h ↦ absurd h h₅

/-- **A record of the authority section** stays inside exactly when it fits. -/
theorem authorityRecordTraced_stays :
    (authorityRecordTraced env buffstart i w).run.Stays (DnsAccess.Inside m) ↔
      AuthorityFits env buffstart m i w := by
  rw [authorityRecordTraced, AuthorityFits]
  refine (DnsWalk.stays_readName fun _ _ ↦ rfl).trans
    (and_congr_right fun _ ↦ forall_congr' fun w₁ ↦
    forall_congr' fun stop ↦ forall_congr' fun hread ↦ ?_)
  rw [DnsWalk.count_stays]
  refine imp_congr_right fun _ ↦ ?_
  simp only
  rw [stays_record, DnsWalk.count_stays]
  refine and_congr_right fun _ ↦ imp_congr_right fun _ ↦ ?_
  obtain ⟨w₂, hw₂, hpacket⟩ : ∃ w₂, ((((w₁.count stop).1.skip stop).count 10).1.skip 10) = w₂ ∧
      w₂.packet = w₁.packet := ⟨_, rfl, rfl⟩
  have hres : (2 = 0 ∨ w₁.buff + stop + 2 ≤ m) ↔ w₁.buff + stop + 2 ≤ m := by omega
  rw [hw₂, hpacket, show (w₁.count stop).1.buff = w₁.buff from rfl, stays_packet, hres]
  refine and_congr_right fun _ ↦ ?_
  by_cases h₂ : w₁.packet.ntohs (w₁.buff + stop) = 2
  · rw [if_pos h₂, imp_iff_right h₂, and_iff_left (absurd h₂)]
    refine (DnsWalk.stays_readName fun r stop' ↦ (rfl : _ = r.andThenTraced fun w ↦
      (w.count stop').andThenTraced fun w ↦ pure (w.skip stop', true))).trans ?_
    exact and_iff_left fun w₃ _ _ ↦ DnsWalk.count_stays.2 fun _ ↦ Partial.stays_pure _
  · rw [if_neg h₂, stays_packet, imp_iff_right h₂, and_iff_right fun h ↦ absurd h h₂]
    exact (and_iff_left (DnsWalk.count_stays.2 fun _ ↦ Partial.stays_pure _)).trans (by omega)

/-- **A record of the additional section** stays inside exactly when it fits. -/
theorem additionalRecordTraced_stays (hp : 54 ≤ p.pktLen) (hw : w.Behind 0 p) :
    (additionalRecordTraced blockEncrypt env buffstart i w).run.Stays (DnsAccess.Inside p.pktLen) ↔
      AdditionalFits env buffstart p.pktLen i w := by
  have hstable : DnsWalk.Stable blockEncrypt env buffstart (·.Behind 0 p) :=
    DnsWalk.stable_behind (Nat.zero_le _) (by omega) p
  rw [additionalRecordTraced, AdditionalFits]
  refine (DnsWalk.stays_readName fun _ _ ↦ rfl).trans
    (and_congr_right fun _ ↦ forall_congr' fun w₁ ↦
    forall_congr' fun stop ↦ forall_congr' fun hread ↦ ?_)
  have hw₁ := hstable.readName w _ hw hread
  rw [DnsWalk.count_stays]
  refine imp_congr_right fun _ ↦ ?_
  simp only
  rw [stays_record, DnsWalk.count_stays]
  refine and_congr_right fun _ ↦ imp_congr_right fun _ ↦ ?_
  obtain ⟨w₂, hw₂, hpacket, hlen, hbuff, hbehind⟩ : ∃ w₂,
      ((((w₁.count stop).1.skip stop).count 10).1.skip 10) = w₂ ∧ w₂.packet = w₁.packet ∧
        w₂.len = w₁.len + stop + 10 ∧ w₂.buff = w₁.buff + stop + 10 ∧ w₂.Behind 0 p :=
    ⟨_, rfl, rfl, rfl, rfl,
      hstable.skip _ _ (hstable.count _ _ (hstable.skip _ _ (hstable.count _ _ hw₁)))⟩
  have hres : (2 = 0 ∨ w₁.buff + stop + 2 ≤ p.pktLen) ↔ w₁.buff + stop + 2 ≤ p.pktLen := by omega
  rw [hw₂, hpacket, show (w₁.count stop).1.buff = w₁.buff from rfl, stays_packet, hres]
  refine and_congr_right fun _ ↦ ?_
  by_cases h₁ : w₁.packet.ntohs (w₁.buff + stop) = 1
  · rw [if_pos h₁, stays_packet, imp_iff_right h₁, DnsWalk.count_stays, hlen, hpacket]
    refine and_congr (by omega) (imp_congr_right fun _ ↦ ?_)
    rw [DnsWalk.stays_address, ← hbuff]
    rfl
  · rw [if_neg h₁]
    exact iff_of_true (DnsWalk.dropTraced_stays hp hbehind) fun h ↦ absurd h h₁

/-- **The loop over a section** stays inside exactly when every record that it comes to fits. -/
theorem recordsLoopTraced_stays {record : ℕ → DnsWalk → Partial DnsAccess DnsStep}
    {record' : ℕ → DnsWalk → Option DnsStep} {fits : ℕ → DnsWalk → Prop} {I : DnsWalk → Prop}
    (hvalue : ∀ i w, (record i w).run.value = record' i w)
    (hkeeps : ∀ i, DnsWalk.Keeps I (record' i))
    (hstays : ∀ i w, I w → ((record i w).run.Stays (DnsAccess.Inside m) ↔ fits i w)) (left : ℕ)
    (hw : I w) :
    (recordsLoopTraced record left i w).run.Stays (DnsAccess.Inside m) ↔
      recordsFit record' fits left i w := by
  induction left generalizing i w with
  | zero => exact iff_of_true (Partial.stays_pure _) trivial
  | succ left ih =>
    rw [recordsLoopTraced, stays_andThen, hstays i w hw, hvalue, recordsFit]
    exact and_congr_right fun _ ↦ forall_congr' fun w' ↦ forall_congr' fun hw' ↦
      ih (hkeeps i w _ hw hw')

/-- Every record of a response that the function comes to fits. -/
def DnsHeader.RecordsFit (blockEncrypt : Block → Block) (env : DnsEnv) (buffstart m : ℕ)
    (dns : DnsHeader) (w : DnsWalk) : Prop :=
  recordsFit (answerRecord blockEncrypt env buffstart) (AnswerFits env buffstart m) dns.ansCount 0
    w ∧
    ∀ w₁, recordsLoop (answerRecord blockEncrypt env buffstart) dns.ansCount 0 w = some (w₁, true) →
      recordsFit (authorityRecord env buffstart) (AuthorityFits env buffstart m) dns.authCount 0
        w₁ ∧
        ∀ w₂, recordsLoop (authorityRecord env buffstart) dns.authCount 0 w₁ = some (w₂, true) →
          recordsFit (additionalRecord blockEncrypt env buffstart) (AdditionalFits env buffstart m)
            dns.addCount 0 w₂

/-- **The records of a response** stay inside exactly when they fit. -/
theorem dnsRecordsTraced_stays (hp : 54 ≤ p.pktLen) (hw : w.Behind 0 p) (dns : DnsHeader) :
    (dnsRecordsTraced blockEncrypt env buffstart dns w).run.Stays (DnsAccess.Inside p.pktLen) ↔
      dns.RecordsFit blockEncrypt env buffstart p.pktLen w := by
  have hstable : DnsWalk.Stable blockEncrypt env buffstart (·.Behind 0 p) :=
    DnsWalk.stable_behind (Nat.zero_le _) (by omega) p
  rw [dnsRecordsTraced, stays_andThen, recordsLoopTraced_value answerRecordTraced_value,
    recordsLoopTraced_stays answerRecordTraced_value (answerRecord_keeps hstable)
      (fun _ _ h ↦ answerRecordTraced_stays hp h) _ hw]
  refine and_congr_right fun _ ↦ forall_congr' fun w₁ ↦ forall_congr' fun h₁ ↦ ?_
  have hw₁ := recordsLoop_keeps (answerRecord_keeps hstable) _ _ w _ hw h₁
  rw [stays_andThen, recordsLoopTraced_value authorityRecordTraced_value,
    recordsLoopTraced_stays authorityRecordTraced_value (authorityRecord_keeps hstable)
      (fun _ _ _ ↦ authorityRecordTraced_stays) _ hw₁]
  refine and_congr_right fun _ ↦ forall_congr' fun w₂ ↦ forall_congr' fun h₂ ↦ ?_
  exact recordsLoopTraced_stays additionalRecordTraced_value (additionalRecord_keeps hstable)
    (fun _ _ h ↦ additionalRecordTraced_stays hp h) _
    (recordsLoop_keeps (authorityRecord_keeps hstable) _ _ w₁ _ hw₁ h₂)

end Records

/-! ## The message -/

section Message

variable (packet : Packet) (flow : Flow) (flowDb : HashStruct) (kAnon kDelta : ℤ) (self : CryptoIp)
  (env : DnsEnv)

/-- The function comes to the records: the message is a response, whose question has been counted
under `name` for few users. -/
structure ComesToRecords (name : List UInt8) : Prop where
  copied : ∃ copy, questionName packet 42 = some (some copy) ∧ name = copy.takeWhile (· ≠ 0)
  nonempty : name.length ≠ 0
  rare : ∃ db ret, tableAdd flowDb flow name kAnon kDelta env.table = some (db, ret) ∧ ret < kAnon
  response : (packet.dnsHeader 42).qr ≠ 0
  room : 42 + 12 + name.length + 4 < packet.pktLen

/-- Where the function comes to the records: behind the question, which has been rewritten. -/
def recordsStart (name : List UInt8) : DnsWalk :=
  let x := questionRewrite (env.tsc 0) (packet.data.length + 1) 54 packet
  ⟨x.1, self, 42 + 12 + name.length + 4, x.2 + 4, 0⟩

/-- The accesses of a call: of a message that tells of an error or has no answer, those of the
header that show it; of any other, those of the name of the question and of the records. -/
structure DnsFits (blockEncrypt : Block → Block) : Prop where
  empty : (packet.dnsHeader 42).Empty →
    (if (packet.dnsHeader 42).rcode ≠ 0 then 46 else 50) ≤ packet.pktLen
  question : ¬(packet.dnsHeader 42).Empty →
    packet.QuestionFits packet.pktLen 54 (packet.pktLen - 54) 0
  records : ¬(packet.dnsHeader 42).Empty → ∀ name,
    ComesToRecords packet flow flowDb kAnon kDelta env name →
    (packet.dnsHeader 42).RecordsFit blockEncrypt env 42 packet.pktLen
      (recordsStart packet self env name)

/-- `dnsEntry` stays inside: what it reads and writes of the packet is in the frame, and what it
writes elsewhere exists. -/
def DnsInside (blockEncrypt : Block → Block) : Prop :=
  (dnsEntryTraced blockEncrypt packet 1 flow flowDb kAnon kDelta self env).run.Stays
    (DnsAccess.Inside packet.pktLen)

variable {packet flow flowDb kAnon kDelta self env} {blockEncrypt : Block → Block}

/-- A name that is copied is a list of labels in the frame. -/
theorem labels_of_questionName {copy : List UInt8} (hmax : packet.pktLen < 2 ^ 32)
    (hq : packet.QuestionFits packet.pktLen 54 (packet.pktLen - 54) 0)
    (hcopy : questionName packet 42 = some (some copy)) :
    ∃ ls, Short ls ∧ Reads packet.data 54 (wire ls) ∧
      54 + (wire ls).length ≤ packet.pktLen ∧ copy = text ls ∧ (text ls).length < nameDns := by
  have hin := hq.lt
  have hlen : (packet.pktLen : ℤ) = 54 + ↑(packet.pktLen - 54) := by omega
  rw [questionName, hlen] at hcopy
  split at hcopy
  · exact absurd hcopy (by simp)
  next hgo =>
  rw [exceeds_iff (by omega) (by omega), not_or] at hgo
  have hat : packet.AtLabel packet.pktLen 54 (packet.pktLen - 54) 0 [] :=
    ⟨hin, Nat.not_le.1 hgo.1, Nat.not_le.1 hgo.2, by omega, by decide, (ite_self _).symm⟩
  rw [hat.char] at hcopy
  obtain ⟨ls, hls, hreads, hle, rfl, hroom, -⟩ := labels_of_questionLoop hat hq (by rwa [hat.char])
  exact ⟨ls, hls, hreads, hle, rfl, hroom⟩

/-- **The part of `dnsEntry` behind the header** stays inside exactly when the question and the
records fit. -/
theorem dnsMessageTraced_stays (hmax : packet.pktLen < 2 ^ 32) :
    (dnsMessageTraced blockEncrypt env 42 packet (packet.dnsHeader 42) 42 flow flowDb kAnon kDelta
        self).run.Stays
        (DnsAccess.Inside packet.pktLen) ↔
      packet.QuestionFits packet.pktLen 54 (packet.pktLen - 54) 0 ∧
        ∀ name, ComesToRecords packet flow flowDb kAnon kDelta env name →
          (packet.dnsHeader 42).RecordsFit blockEncrypt env 42 packet.pktLen
            (recordsStart packet self env name) := by
  rw [dnsMessageTraced, Partial.stays_bind, questionNameTraced_stays hmax, questionNameTraced_value]
  refine and_congr_right fun hq ↦ ?_
  have hin := hq.lt
  obtain ⟨hsame, -⟩ := questionRewrite_behind (Nat.zero_le 54) (env.tsc 0) (packet.data.length + 1)
    packet
  have hstart : ∀ name, (recordsStart packet self env name).Behind 0 packet :=
    fun _ ↦ ⟨hsame, Nat.zero_le _⟩
  have hlen : (questionRewrite (env.tsc 0) (packet.data.length + 1) 54 packet).1.pktLen =
    packet.pktLen :=
    hsame.pktLen
  constructor
  · rintro h _ ⟨⟨copy, hcopy, rfl⟩, hne, ⟨db, ret, hadd, hret⟩, hresp, hroom⟩
    have hin := h _ hcopy
    simp only at hin
    rw [if_neg hne, Partial.stays_bind, Partial.value_ofOption] at hin
    have hin := hin.2 _ hadd
    simp only at hin
    rw [if_pos hret, Partial.stays_bind, questionRewriteTraced_value] at hin
    have hin := hin.2 _ rfl
    rw [if_neg hresp, hlen, if_neg (Nat.not_le.2 hroom), Partial.stays_bind] at hin
    exact (dnsRecordsTraced_stays (by omega) (hstart _) _).1 hin.1
  · intro h copy hcopy
    cases copy with
    | none => exact Partial.stays_pure _
    | some copy =>
      obtain ⟨ls, hls, hreads, hle, -⟩ := labels_of_questionName hmax hq hcopy
      have hlabels := Packet.labelsTo_of_reads hls hreads
      have hpos := length_wire_pos ls
      simp only
      by_cases hne : (copy.takeWhile (· ≠ 0)).length = 0
      · rw [if_pos hne]
        exact Partial.stays_pure _
      rw [if_neg hne, Partial.stays_bind, Partial.value_ofOption]
      refine ⟨Partial.stays_ofOption _, ?_⟩
      rintro ⟨db, ret⟩ hadd
      simp only
      by_cases hret : ret < kAnon
      swap
      · rw [if_neg hret]
        exact Partial.stays_pure _
      rw [if_pos hret, Partial.stays_bind, questionRewriteTraced_value]
      refine ⟨questionRewriteTraced_stays hlabels (by omega) (fun _ _ ↦ rfl) _ _, fun x hx ↦ ?_⟩
      obtain rfl := Option.some.inj hx
      by_cases hresp : (packet.dnsHeader 42).qr = 0
      · rw [if_pos hresp]
        exact Partial.stays_pure _
      rw [if_neg hresp, hlen]
      by_cases hroom : packet.pktLen ≤ 42 + 12 + (copy.takeWhile (· ≠ 0)).length + 4
      · rw [if_pos hroom]
        exact Partial.stays_pure _
      · rw [if_neg hroom, Partial.stays_bind]
        have hfit := h _ ⟨⟨copy, hcopy, rfl⟩, hne, ⟨db, ret, hadd, hret⟩, hresp, Nat.not_le.1 hroom⟩
        exact ⟨(dnsRecordsTraced_stays (by omega) (hstart _) _).2 hfit,
          fun _ _ ↦ Partial.stays_pure _⟩

/-- `dnsEntry` stays inside exactly when all its parts do. -/
theorem dnsInside_iff (hdns : isDns packet 1 flow.inPort flow.outPort = some 0)
    (hmax : packet.pktLen < 2 ^ 32) :
    DnsInside packet flow flowDb kAnon kDelta self env blockEncrypt ↔
      DnsFits packet flow flowDb kAnon kDelta self env blockEncrypt := by
  have hlen : 42 < packet.pktLen := (isDns_eq_zero_iff.1 hdns).2.1
  have hhead : dnsHeaderExtractor packet 1 = some 42 := if_neg (Nat.not_le.2 hlen)
  rw [DnsInside, dnsEntryTraced, hhead]
  simp only
  rw [stays_packet, stays_packet, stays_packet]
  by_cases hempty : (packet.dnsHeader 42).Empty
  · have hqr := hempty.1
    rw [if_pos hqr, if_pos (show _ ∧ _ from hempty), Partial.stays_bind]
    have hremoved := removePayloadTraced_stays (Nat.le_of_lt hlen)
    have hiff : ((packet.dnsHeader 42).Empty →
        (if (packet.dnsHeader 42).rcode ≠ 0 then 46 else 50) ≤ packet.pktLen) ↔
          DnsFits packet flow flowDb kAnon kDelta self env blockEncrypt := by
      refine ⟨fun h ↦ ⟨h, fun h ↦ absurd hempty h, fun h ↦ absurd hempty h⟩, ?_⟩
      rintro ⟨h, -, -⟩
      exact h
    rw [← hiff, imp_iff_right hempty, iff_true_intro hremoved, true_and]
    by_cases hrcode : (packet.dnsHeader 42).rcode = 0
    · rw [if_pos ⟨hqr, hrcode⟩, if_neg (not_not.2 hrcode)]
      exact ⟨fun h ↦ by
        omega, fun h ↦ ⟨by omega, by omega, by omega, fun _ _ ↦ Partial.stays_pure _⟩⟩
    · rw [if_neg fun h ↦ hrcode h.2, if_pos hrcode]
      exact ⟨fun h ↦ by
        omega, fun h ↦ ⟨by omega, by omega, by omega, fun _ _ ↦ Partial.stays_pure _⟩⟩
  · rw [if_neg (show ¬(_ ∧ _) from hempty), stays_packet, dnsMessageTraced_stays hmax]
    constructor
    · exact fun h ↦ ⟨fun h' ↦ absurd h' hempty, fun _ ↦ h.2.2.2.2.1, fun _ ↦ h.2.2.2.2.2⟩
    · rintro ⟨-, hquestion, hrecords⟩
      have hq := hquestion hempty
      have hin := hq.lt
      exact ⟨by omega, by split_ifs <;> omega, by split_ifs <;> omega, by split_ifs <;> omega, hq,
        hrecords hempty⟩

end Message

end AlphaMon
