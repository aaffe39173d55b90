import AlphaMon.DnsMng
import AlphaMon.Memory.DomainName

/-!
# The name of the question

`dnsEntry` goes through the name of the question twice.  The first loop copies it, and gives up on
any length that is not below what it takes to be the rest of the message; that difference leaves out
the length bytes, so that no name that is inside the packet is given up (`questionName_wire`).  The
second loop replaces the bytes of the labels, and reads the lengths from the packet it is changing
(`questionRewrite_wire`).

From this a query is anonymised exactly (`query_anonymised`).  But where the first loop gives up,
the function returns, and the message passes as it is: the only messages without a counted name that
lose their payload are the responses with an error or without an answer (`fails_closed_iff`).
-/

set_option autoImplicit false

namespace AlphaMon

open CString DomainName

variable {packet : Packet} {l : List UInt8} {ls : List (List UInt8)} {i len : ℕ}

/-- The value of a `char` below 128. -/
theorem Packet.char_of_reads {n : ℕ} (h : packet.byte i = UInt8.ofNat n) (hn : n < 128) :
    packet.char i = n := by
  have hlt : n < 256 := by omega
  have : n % 2 ^ 8 = n := Nat.mod_eq_of_lt hlt
  rw [Packet.char, h]
  simp only [UInt8.toBitVec_ofNat', BitVec.toInt_eq_toNat_cond, BitVec.toNat_ofNat, this]
  rw [if_pos (by omega)]

/-- A length below the rest of the message is accepted. -/
theorem exceeds_of_lt (len : ℕ) {n dnslen : ℤ} (h0 : 0 ≤ n) (h : n < dnslen - (len + 12))
    (hmax : dnslen < 2 ^ 63) :
    exceeds n dnslen len = false := by
  rw [exceeds, decide_eq_false_iff_not, not_le, Int.emod_eq_of_lt h0 (by omega),
    Int.emod_eq_of_lt (by omega) (by omega)]
  exact h

/-- **The loop over the labels** copies a name that is inside the packet, label by label. -/
theorem questionLoop_wire (hv : Valid (l :: ls)) {fuel buff : ℕ} {dnslen : ℤ} {name : List UInt8}
    (hfuel : ls.length + 2 ≤ fuel) (hreads : Reads packet.data buff (l ++ wire ls))
    (hlen : len + 12 + (wire ls).length ≤ dnslen) (hmax : dnslen < 2 ^ 63)
    (hname : name.length + (text (l :: ls)).length < nameDns) :
    questionLoop packet len fuel l.length dnslen buff name =
      some (some (name ++ text (l :: ls))) := by
  induction ls generalizing l fuel buff dnslen name with
  | nil =>
    obtain ⟨⟨hpos, -⟩, -⟩ := valid_cons.1 hv
    obtain ⟨fuel, rfl⟩ : ∃ n, fuel = n + 2 := ⟨fuel - 2, by simp at hfuel; omega⟩
    obtain ⟨hl, hend⟩ := reads_append.1 hreads
    have hnext : packet.char (buff + l.length) = 0 :=
      Packet.char_of_reads (n := 0) (reads_cons.1 hend).1 (by decide)
    simp only [wire_nil, List.length_singleton] at hlen
    rw [text_singleton] at hname ⊢
    rw [questionLoop, if_neg (by omega), Int.toNat_natCast, if_neg (by omega)]
    simp only [hnext, Packet.bytes_eq hl, exceeds_of_lt len le_rfl (by omega) hmax, Bool.false_or]
    rw [if_neg (by simp; omega), questionLoop, if_pos rfl, if_pos trivial]
  | cons l' ls ih =>
    obtain ⟨⟨hpos, -⟩, hv'⟩ := valid_cons.1 hv
    obtain ⟨fuel, rfl⟩ : ∃ n, fuel = n + 1 := ⟨fuel - 1, by omega⟩
    obtain ⟨hl, hrest⟩ := reads_append.1 hreads
    obtain ⟨⟨hpos', hle'⟩, -⟩ := valid_cons.1 hv'
    rw [wire_cons, reads_cons] at hrest
    have hnext : packet.char (buff + l.length) = l'.length :=
      Packet.char_of_reads hrest.1 (by omega)
    rw [length_wire_cons] at hlen
    rw [text_cons l (by simp)] at hname ⊢
    simp only [List.length_append, List.length_cons] at hname hfuel
    have hl' : l'.length ≤ (text (l' :: ls)).length := by
      cases ls with
      | nil => simp
      | cons l'' ls => simp [text_cons]
    rw [questionLoop, if_neg (by omega), Int.toNat_natCast, if_neg (by omega)]
    simp only [hnext, Packet.bytes_eq hl, exceeds_of_lt len (Int.natCast_nonneg l'.length)
      (by omega) hmax,
      Bool.false_or]
    rw [if_neg (by simp; omega), if_neg (by omega),
      ih hv' (by omega) hrest.2 (by push_cast at hlen ⊢; omega) (by omega) (by simp; omega)]
    simp

/-- The question of a message asks for a name, which is inside the packet with the type and the
class after it. -/
structure Packet.Asks (p : Packet) (ls : List (List UInt8)) : Prop where
  /-- The lengths of the labels. -/
  valid : Valid ls
  /-- The name stands behind the header of the message. -/
  reads : Reads p.data 54 (wire ls)
  /-- The question is inside the packet. -/
  fits : 54 + (wire ls).length + 4 ≤ p.pktLen
  /-- `pkt_len` is a `uint32_t`. -/
  pktLen : p.pktLen < 2 ^ 32

/-- **The name of the question is copied** if it fits into the buffer. -/
theorem questionName_wire (h : packet.Asks ls) (hshort : (text ls).length < nameDns) :
    questionName packet 42 = some (some (text ls)) := by
  have hfits := h.fits
  have hmem := packet.pktLen_le
  have hmax := h.pktLen
  cases ls with
  | nil =>
    have hlength : packet.char 54 = 0 :=
      Packet.char_of_reads (n := 0) (reads_cons.1 h.reads).1 (by decide)
    rw [wire_nil, List.length_singleton] at hfits
    simp only [questionName, hlength]
    rw [exceeds_of_lt 42 le_rfl (by push_cast; omega) (by omega), if_neg (by decide), questionLoop,
      if_pos rfl,
      text_nil]
  | cons l ls =>
    have hreads := h.reads
    rw [wire_cons, reads_cons] at hreads
    rw [length_wire_cons] at hfits
    obtain ⟨⟨hpos, hle⟩, -⟩ := valid_cons.1 h.valid
    have hlength : packet.char 54 = l.length := Packet.char_of_reads hreads.1 (by omega)
    have hfew := length_lt_length_wire ls
    simp only [questionName, hlength]
    rw [exceeds_of_lt 42 (Int.natCast_nonneg _) (by push_cast; omega) (by omega),
      if_neg (by decide),
      questionLoop_wire h.valid (by omega) hreads.2 (by push_cast; omega) (by omega)
        (by simpa using hshort),
      List.nil_append]

/-- **The loop that rewrites the name** replaces the bytes of its labels, and ends behind it. -/
theorem questionRewrite_wire {tsc : ℕ → ℕ} (hv : Short ls) {fuel : ℕ} (hfuel : ls.length < fuel)
    (hreads : Reads packet.data i (wire ls)) (hmem : i + (wire ls).length ≤ packet.data.length) :
    (questionRewrite tsc fuel i packet).2 = i + (wire ls).length ∧
      packet.SameOutside (LabelByte ls i) (questionRewrite tsc fuel i packet).1 ∧
      ∀ j, LabelByte ls i j → (questionRewrite tsc fuel i packet).1.byte j = randChar (tsc j) := by
  induction ls generalizing fuel i packet with
  | nil =>
    obtain ⟨fuel, rfl⟩ : ∃ n, fuel = n + 1 := ⟨fuel - 1, by omega⟩
    have hlength : packet.char i = 0 := Packet.char_of_reads (n := 0) (reads_cons.1 hreads).1
      (by decide)
    rw [questionRewrite, if_pos hlength]
    exact ⟨rfl, .refl _ packet, fun j h ↦ h.elim⟩
  | cons l ls ih =>
    obtain ⟨fuel, rfl⟩ : ∃ n, fuel = n + 1 := ⟨fuel - 1, by omega⟩
    obtain ⟨⟨hpos, hle⟩, hv'⟩ := short_cons.1 hv
    rw [wire_cons, reads_cons, reads_append] at hreads
    obtain ⟨hlen, -, hrest⟩ := hreads
    have hlength : packet.char i = l.length := Packet.char_of_reads hlen (by omega)
    rw [length_wire_cons] at hmem
    rw [List.length_cons] at hfuel
    rw [questionRewrite, if_neg (by omega), hlength, Int.toNat_natCast]
    -- the first label is rewritten, and the rest of the name stands where it stood
    have hmask : ∀ j, (packet.mask (fun _ ↦ false) tsc l.length (i + 1)).byte j =
        if i + 1 ≤ j ∧ j < i + 1 + l.length ∧ false = false then randChar (tsc j)
          else packet.byte j :=
      Packet.mask_byte (by omega)
    generalize hq : packet.mask (fun _ ↦ false) tsc l.length (i + 1) = q at *
    have hlenq : q.data.length = packet.data.length := by rw [← hq, Packet.mask_length]
    have hsame : packet.SameOutside (fun j ↦ i + 1 ≤ j ∧ j < i + 1 + l.length) q := by
      refine ⟨by rw [← hq, Packet.mask_pktLen], hlenq, fun j hj ↦ ?_⟩
      rw [hmask, if_neg (by tauto)]
    have hrest' : Reads q.data (i + 1 + l.length) (wire ls) :=
      hrest.congr fun j h₁ _ ↦ hsame.byte j (by omega)
    obtain ⟨hend, hframe, hletters⟩ := ih hv' (show ls.length < fuel by omega) hrest' (by omega)
    refine ⟨by rw [hend, length_wire_cons]; omega, ?_, ?_⟩
    · exact (hsame.mono fun j hj ↦ .inl hj).trans (hframe.mono fun j hj ↦ .inr hj)
    · rintro j (hj | hj)
      · rw [hframe.byte j fun h ↦ by have := h.bounds; omega, hmask, if_pos ⟨hj.1, hj.2, rfl⟩]
      · exact hletters j hj

/-- The headers of an IPv4/UDP frame without options that carries a message. -/
def dnsHeaders (src dst : BitVec 32) (inPort outPort flags ansCount : ℕ) : List UInt8 :=
  List.replicate 12 0 ++ [8, 0] ++
    (List.replicate 9 0 ++ [17, 0, 0] ++ wordBytes src ++ wordBytes dst) ++
    (be16 inPort ++ be16 outPort ++ List.replicate 4 0) ++
    ([0, 0] ++ be16 flags ++ be16 1 ++ be16 ansCount ++ List.replicate 4 0)

/-- An IPv4/UDP frame that carries a message. -/
def dnsFrame (src dst : BitVec 32) (inPort outPort flags ansCount : ℕ) (body : List UInt8) :
    Packet where
  data := dnsHeaders src dst inPort outPort flags ansCount ++ body
  pktLen := (dnsHeaders src dst inPort outPort flags ansCount ++ body).length
  pktLen_le := le_rfl

@[simp] theorem length_dnsHeaders (src dst : BitVec 32) (inPort outPort flags ansCount : ℕ) :
    (dnsHeaders src dst inPort outPort flags ansCount).length = 54 := by
  simp [dnsHeaders, wordBytes]

/-- A frame with a name behind the header asks for it. -/
theorem asks_dnsFrame (hv : Valid ls) (src dst : BitVec 32) (inPort outPort flags ansCount : ℕ)
    {tail : List UInt8} (h₁ : 4 ≤ tail.length) (h₂ : (wire ls).length + tail.length < 2 ^ 16) :
    (dnsFrame src dst inPort outPort flags ansCount (wire ls ++ tail)).Asks ls where
  valid := hv
  reads := by
    have := reads_of_append (dnsHeaders src dst inPort outPort flags ansCount) (wire ls) tail
    rwa [length_dnsHeaders] at this
  fits := by
    simp only [dnsFrame, List.length_append, length_dnsHeaders]
    omega
  pktLen := by
    simp only [dnsFrame, List.length_append, length_dnsHeaders]
    omega

/-! ## The part behind the header -/

section Entry

variable {blockEncrypt : Block → Block} {flow : Flow} {flowDb : HashStruct} {kAnon kDelta : ℤ}
  {self : CryptoIp} {env : DnsEnv} {r : DnsResult}

/-- The message is a response that tells of an error, or one without an answer. -/
def DnsHeader.Empty (dns : DnsHeader) : Prop := dns.qr ≠ 0 ∧ (dns.rcode ≠ 0 ∨ dns.ansCount = 0)

instance (dns : DnsHeader) : Decidable dns.Empty := inferInstanceAs (Decidable (_ ∧ _))

/-- What `dnsEntry` does with a packet that has room for the header of a message. -/
theorem dnsEntry_eq (h : 42 < packet.pktLen) :
    dnsEntry blockEncrypt packet 1 flow flowDb kAnon kDelta self env =
      if (packet.dnsHeader 42).Empty then
        (packet.removePayload 42).map fun q ↦ ⟨q, flowDb, self, none⟩
      else dnsMessage blockEncrypt env 42 packet (packet.dnsHeader 42) 42 flow flowDb kAnon kDelta
        self := by
  have hbase : offsetExtractor 1 = 42 := rfl
  have hhead : dnsHeaderExtractor packet 1 = some 42 := by
    rw [dnsHeaderExtractor, hbase]
    exact if_neg (by omega)
  simp only [dnsEntry, hhead]
  refine if_congr Iff.rfl ?_ rfl
  cases packet.removePayload 42 <;> rfl

/-- A message whose name cannot be copied, or is empty, passes as it is; any other name is
counted. -/
theorem dnsMessage_cases {dns : DnsHeader} {buffstart : ℕ}
    (h : dnsMessage blockEncrypt env buffstart packet dns len flow flowDb kAnon kDelta self =
      some r) :
    (r = ⟨packet, flowDb, self, none⟩ ∧
      ∀ name, questionName packet len = some (some name) → (name.takeWhile (· ≠ 0)).length = 0) ∨
    ∃ name ret, questionName packet len = some (some name) ∧
      (name.takeWhile (· ≠ 0)).length ≠ 0 ∧ r.counted = some (name.takeWhile (· ≠ 0), ret) ∧
      tableAdd flowDb flow (name.takeWhile (· ≠ 0)) kAnon kDelta env.table = some (r.db, ret) := by
  obtain ⟨name, hname, h⟩ := Option.bind_eq_some_iff.1 h
  cases name with
  | none =>
    exact .inl ⟨(Option.some.inj h).symm, fun name h ↦ absurd (hname.symm.trans h) (by simp)⟩
  | some name =>
    simp only at h
    split at h
    · next hempty =>
      refine .inl ⟨(Option.some.inj h).symm, fun name' h ↦ ?_⟩
      rw [hname, Option.some.injEq, Option.some.injEq] at h
      exact h ▸ hempty
    next hne =>
    refine .inr ⟨name, ?_⟩
    obtain ⟨⟨db, ret⟩, hadd, h⟩ := Option.bind_eq_some_iff.1 h
    refine ⟨ret, hname, hne, ?_⟩
    simp only at h
    split at h
    swap
    · obtain rfl := Option.some.inj h
      exact ⟨rfl, hadd⟩
    split at h
    · obtain rfl := Option.some.inj h
      exact ⟨rfl, hadd⟩
    split at h
    · obtain rfl := Option.some.inj h
      exact ⟨rfl, hadd⟩
    · obtain ⟨⟨w, goesOn⟩, -, h⟩ := Option.bind_eq_some_iff.1 h
      obtain rfl := Option.some.inj h
      exact ⟨rfl, hadd⟩

/-- A message that asks for a name is longer than its header. -/
theorem Packet.Asks.lt_pktLen (h : packet.Asks ls) : 54 < packet.pktLen := by
  have := h.fits
  have := length_wire_pos ls
  omega

/-- The name as a C string. -/
theorem takeWhile_text (h0 : ∀ l ∈ ls, 0 ∉ l) : (text ls).takeWhile (· ≠ 0) = text ls := by
  rw [List.takeWhile_eq_self_iff]
  intro b hb
  simpa using fun he : b = 0 ↦ zero_notMem_text h0 (he ▸ hb)

/-- What `dnsEntry` does below the threshold. -/
def dnsRewrite (blockEncrypt : Block → Block) (env : DnsEnv) (packet : Packet) (self : CryptoIp)
    (name : List UInt8) (db : HashStruct) (ret : ℤ) : Option DnsResult :=
  let x := questionRewrite (env.tsc 0) (packet.data.length + 1) 54 packet
  if (packet.dnsHeader 42).qr = 0 then some ⟨x.1, db, self, some (name, ret)⟩
  else
    let w : DnsWalk := ⟨x.1, self, 42 + 12 + name.length + 4, x.2 + 4, 0⟩
    if x.1.pktLen ≤ w.len then some ⟨x.1, db, self, some (name, ret)⟩
    else (dnsRecords blockEncrypt env 42 (packet.dnsHeader 42) w).map fun r ↦
      ⟨r.1.packet, db, r.1.self, some (name, ret)⟩

/-- **What `dnsEntry` does with a message that asks for a name**: count it, and rewrite the message
if few users have asked for it. -/
theorem dnsEntry_asks (hask : packet.Asks ls) (hne : ls ≠ []) (h0 : ∀ l ∈ ls, 0 ∉ l)
    (hshort : (text ls).length < nameDns) (hfull : ¬(packet.dnsHeader 42).Empty) :
    dnsEntry blockEncrypt packet 1 flow flowDb kAnon kDelta self env =
      (tableAdd flowDb flow (text ls) kAnon kDelta env.table).bind fun x ↦
        if x.2 < kAnon then dnsRewrite blockEncrypt env packet self (text ls) x.1 x.2
        else some ⟨packet, x.1, self, some (text ls, x.2)⟩ := by
  have hlen : (text ls).length ≠ 0 := by simpa using text_ne_nil hask.valid hne
  have := hask.lt_pktLen
  rw [dnsEntry_eq (by omega), if_neg hfull]
  simp only [dnsMessage, questionName_wire hask hshort, takeWhile_text h0, hlen,
    Option.bind_eq_bind,
    Option.bind_some, if_false]
  refine congrArg _ (funext fun x ↦ ?_)
  refine if_congr Iff.rfl ?_ rfl
  simp only [dnsRewrite]
  refine if_congr Iff.rfl rfl (if_congr Iff.rfl rfl ?_)
  cases dnsRecords blockEncrypt env 42 (packet.dnsHeader 42) _ <;> rfl

/-- **A query is anonymised exactly**: the labels, joined by dots, are counted, and below the
threshold their bytes become letters and nothing else changes. -/
theorem query_anonymised (hask : packet.Asks ls) (hne : ls ≠ []) (h0 : ∀ l ∈ ls, 0 ∉ l)
    (hwire : (wire ls).length ≤ 255) (hquery : (packet.dnsHeader 42).qr = 0) :
    ∃ q, packet.SameOutside (LabelByte ls 54) q ∧ (∀ j, LabelByte ls 54 j → IsCapital (q.byte j)) ∧
      dnsEntry blockEncrypt packet 1 flow flowDb kAnon kDelta self env =
        (tableAdd flowDb flow (text ls) kAnon kDelta env.table).map fun x ↦
          ⟨if x.2 < kAnon then q else packet, x.1, self, some (text ls, x.2)⟩ := by
  have hfits := hask.fits
  have hmem := packet.pktLen_le
  have htext := length_wire hne
  have hfew := length_lt_length_wire ls
  have hfull : ¬(packet.dnsHeader 42).Empty := fun h ↦ h.1 hquery
  have hfuel : ls.length < packet.data.length + 1 := by omega
  obtain ⟨-, hsame, hletters⟩ :=
    @questionRewrite_wire _ _ _ (env.tsc 0) hask.valid.short _ hfuel hask.reads (by omega)
  refine ⟨(questionRewrite (env.tsc 0) (packet.data.length + 1) 54 packet).1, hsame, fun j hj ↦ ?_,
    ?_⟩
  · rw [hletters j hj]
    exact isCapital_randChar _
  · rw [dnsEntry_asks hask hne h0 (by rw [nameDns]; omega) hfull, Option.map_eq_bind]
    refine congrArg _ (funext fun x ↦ ?_)
    simp only [dnsRewrite, if_pos hquery, Function.comp_apply]
    split <;> rfl

/-- A flow from a client to a resolver. -/
def dnsFlow : Flow := ⟨4, 1, 2, 0, 0, 40000, 53, 17, 0⟩

/-- Memory suffices, and every time stamp is 0. -/
def DnsEnv.plain : DnsEnv := { table := ⟨0, true, true⟩, tsc := fun _ _ ↦ 0, fuel := 100 }

/-- A query for the name `a.b`. -/
theorem query_anonymised_sample : ∃ q,
    (dnsFrame 1 2 40000 53 0 0 (wire [[97], [98]] ++ [0, 1, 0, 1])).SameOutside
      (LabelByte [[97], [98]] 54) q ∧
      (∀ j, LabelByte [[97], [98]] 54 j → IsCapital (q.byte j)) ∧
      dnsEntry id (dnsFrame 1 2 40000 53 0 0 (wire [[97], [98]] ++ [0, 1, 0, 1])) 1 dnsFlow
        tableInit 2 60
          .zero .plain =
        (tableAdd tableInit dnsFlow (text [[97], [98]]) 2 60 DnsEnv.plain.table).map fun x ↦
          ⟨if x.2 < 2 then q else dnsFrame 1 2 40000 53 0 0 (wire [[97], [98]] ++ [0, 1, 0, 1]),
            x.1, .zero,
            some (text [[97], [98]], x.2)⟩ :=
  query_anonymised (asks_dnsFrame (by decide) 1 2 40000 53 0 0 (by decide) (by decide)) (by decide)
    (by decide) (by decide) (by decide)

/-- **A message whose name is not counted** loses what follows its header if and only if nothing
does, or it is a response that tells of an error or has no answer. -/
theorem fails_closed_iff (h : dnsEntry blockEncrypt packet 1 flow flowDb kAnon kDelta self env =
      some r) (hcounted : r.counted = none) (hroot : packet.byte 54 ≠ 0) :
    (∀ j, 54 ≤ j → j < packet.pktLen → r.packet.byte j = 0) ↔
      packet.pktLen ≤ 54 ∨ (packet.dnsHeader 42).Empty := by
  rcases Nat.lt_or_ge 54 packet.pktLen with hlen | hlen
  swap
  · exact ⟨fun _ ↦ .inl hlen, fun _ j h₁ h₂ ↦ absurd h₂ (by omega)⟩
  rw [dnsEntry_eq (by omega)] at h
  split at h
  · next hempty =>
    obtain ⟨q, hq, rfl⟩ := Option.map_eq_some_iff.1 h
    obtain ⟨-, -, hzero⟩ := Packet.removePayload_spec hq
    exact ⟨fun _ ↦ .inr hempty, fun _ j h₁ h₂ ↦ hzero j (by omega) h₂⟩
  · next hfull =>
    -- whatever made the function return, it has not touched the packet
    obtain ⟨rfl, -⟩ | ⟨name, ret, -, -, hsome, -⟩ := dnsMessage_cases h
    swap
    · exact absurd hcounted (by simp [hsome])
    constructor
    · intro hzero
      exact absurd (hzero 54 le_rfl hlen) hroot
    · rintro (hle | hempty)
      · omega
      · exact absurd hempty hfull

/-- A query whose name starts with a compression pointer. -/
def pointerQuery : Packet := dnsFrame 1 2 40000 53 0 0 [0xC0, 12, 0, 1, 0, 1]

theorem pointerQuery_passes :
    dnsEntry id pointerQuery 1 dnsFlow tableInit 2 60 .zero .plain = some ⟨pointerQuery, tableInit,
      .zero, none⟩ := by
  have hname : questionName pointerQuery 42 = some none := by decide +kernel
  have hquery : ¬(pointerQuery.dnsHeader 42).Empty := by decide +kernel
  rw [dnsEntry_eq (by decide +kernel), if_neg hquery, dnsMessage, hname]
  rfl

/-- The query with a pointer is not one of the messages that lose what follows their header. -/
theorem fails_closed_iff_pointer :
    (∀ j, 54 ≤ j → j < pointerQuery.pktLen → pointerQuery.byte j = 0) ↔
      pointerQuery.pktLen ≤ 54 ∨ (pointerQuery.dnsHeader 42).Empty :=
  fails_closed_iff pointerQuery_passes rfl (by decide +kernel)

/-- The query with a pointer passes in clear. -/
theorem fails_closed_fails : ¬∀ (blockEncrypt : Block → Block) (packet : Packet) (flow : Flow)
    (flowDb : HashStruct) (kAnon kDelta : ℤ) (self : CryptoIp) (env : DnsEnv) (r : DnsResult),
    dnsEntry blockEncrypt packet 1 flow flowDb kAnon kDelta self env = some r → r.counted = none →
    packet.byte 54 ≠ 0 → ∀ j, 54 ≤ j → j < packet.pktLen → r.packet.byte j = 0 := by
  intro h
  have hzero := h id pointerQuery dnsFlow tableInit 2 60 .zero .plain _ pointerQuery_passes rfl
    (by decide +kernel) 54 le_rfl (by decide +kernel)
  revert hzero
  decide +kernel

end Entry

end AlphaMon
