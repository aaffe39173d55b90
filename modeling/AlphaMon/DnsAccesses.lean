import AlphaMon.DnsMng
import AlphaMon.Runs.Traced

/-!
# What the DNS module reads and writes

The functions of `dns_mng.c` and `dnsEntry` once more, as traced computations: with every access to
the packet, to `name`, to the three arrays of records and to the field `rdata`.  Their values are
those of the plain functions (`dnsEntryTraced_value`).

The log of a computation that fails ends with the access that it fails at, or, if a call of
`ReadName` takes more steps than it may, with the last step.  An access to a place that was accessed
just before is not logged again.
-/

set_option autoImplicit false

namespace AlphaMon

open CString Traced

/-- An access of the DNS module to memory. -/
inductive DnsAccess where
  /-- A byte of the packet is read or written. -/
  | packet (i : ℕ)
  /-- A byte of `name` is written. -/
  | name (i : ℕ)
  /-- A record of `answers`, `auth` or `addit` is used. -/
  | record (i : ℕ)
  /-- A byte of the field `rdata` of a record is written. -/
  | rdata (i : ℕ)

/-- The access is to a byte of the frame, or to a place that exists. -/
def DnsAccess.Inside (pktLen : ℕ) : DnsAccess → Prop
  | .packet i => i < pktLen
  | .name i => i < nameDns
  | .record i => i < 100
  | .rdata i => i < 200

instance (pktLen : ℕ) : DecidablePred (DnsAccess.Inside pktLen) := fun e ↦ by
  cases e <;> exact inferInstanceAs (Decidable (_ < _))

/-- `n` places of one kind are accessed, from one on. -/
def access (kind : ℕ → DnsAccess) (i n : ℕ) : Partial DnsAccess Unit :=
  Partial.emit ((List.range' i n).map kind)

/-! ## The functions, traced -/

/-- `remove_payload`.  If the number of bytes wraps around, the first one written is behind the
frame. -/
def removePayloadTraced (p : Packet) (offset : ℕ) : Partial DnsAccess Packet :=
  if offset ≤ p.pktLen then do
    access .packet offset (p.pktLen - offset)
    pure (Packet.zeroLoop (p.pktLen - offset) offset p)
  else do
    access .packet offset 1
    failure

/-- The loop of `ReadName`.  A step reads one byte, two at a pointer, and writes none but the
first. -/
def readNameLoopTraced (buffer : ℕ) (tsc : ℕ → ℕ) : ℕ → NameReader → Partial DnsAccess NameReader
  | 0, _ => failure
  | fuel + 1, s => do
    access .packet s.reader (if 192 ≤ (s.packet.byte s.reader).toNat then 2 else 1)
    if s.packet.byte s.reader = 0 then pure s
    else readNameLoopTraced buffer tsc fuel (s.step buffer (tsc fuel))

/-- `ReadName`. -/
def readNameTraced (buffer : ℕ) (tsc : ℕ → ℕ) (fuel reader : ℕ) (packet : Packet) :
    Partial DnsAccess (Packet × ℕ) := do
  let s ← readNameLoopTraced buffer tsc fuel ⟨packet, reader, false, 0, none, 1⟩
  pure (s.packet, if s.jumped then s.count + 1 else s.count)

/-- The loop that copies the name of the question. -/
def questionLoopTraced (packet : Packet) (len : ℕ) :
    ℕ → ℤ → ℤ → ℕ → List UInt8 → Partial DnsAccess (Option (List UInt8))
  | 0, _, _, _, _ => failure
  | fuel + 1, length, dnslen, buff, name =>
    if length = 0 then do
      access .name name.length 1
      pure (some name)
    else do
      access .packet buff length.toNat
      access .name name.length length.toNat
      if nameDns < name.length + length.toNat then failure
      else do
        let name := name ++ packet.bytes buff length.toNat
        let next := packet.char (buff + length.toNat)
        access .packet (buff + length.toNat) 1
        if exceeds next dnslen len || decide (nameDns ≤ name.length) then pure none
        else do
          access .name name.length (if next = 0 then 0 else 1)
          questionLoopTraced packet len fuel next (dnslen - next) (buff + length.toNat + 1)
            (if next = 0 then name else name ++ [46])

/-- The part of `dnsEntry` that copies the name of the question. -/
def questionNameTraced (packet : Packet) (len : ℕ) : Partial DnsAccess (Option (List UInt8)) := do
  let length := packet.char (len + 12)
  access .packet (len + 12) 1
  if exceeds length packet.pktLen len then pure none
  else
    questionLoopTraced packet len (packet.data.length + 1) length (packet.pktLen - length)
      (len + 13) []

/-- The loop that rewrites the name of the question. -/
def questionRewriteTraced (tsc : ℕ → ℕ) : ℕ → ℕ → Packet → Partial DnsAccess (Packet × ℕ)
  | 0, buff, packet => pure (packet, buff)
  | fuel + 1, buff, packet => do
    access .packet buff 1
    if packet.char buff = 0 then pure (packet, buff + 1)
    else do
      access .packet (buff + 1) (packet.char buff).toNat
      questionRewriteTraced tsc fuel (buff + 1 + (packet.char buff).toNat)
        (packet.mask (fun _ ↦ false) tsc (packet.char buff).toNat (buff + 1))

/-- Go on with a step if the function has not returned. -/
def DnsStep.andThenTraced (r : DnsStep) (f : DnsWalk → Partial DnsAccess DnsStep) :
    Partial DnsAccess DnsStep :=
  if r.2 then f r.1 else pure r

section Records

variable (blockEncrypt : Block → Block) (env : DnsEnv) (buffstart : ℕ)

/-- A call of `ReadName` at the pointer. -/
def DnsWalk.readNameTraced (w : DnsWalk) : Partial DnsAccess (DnsStep × ℕ) :=
  if env.allocName w.calls then do
    let (packet, stop) ←
      AlphaMon.readNameTraced buffstart (env.tsc (w.calls + 1)) env.fuel w.buff w.packet
    pure (({ w with packet := packet, calls := w.calls + 1 }, true), stop)
  else pure ((w, false), 0)

/-- The address of `dataLen` bytes of data at the pointer is replaced.  Written in `rdata` are the
data, the eight bytes of a `long`, and a `0` behind the data. -/
def DnsWalk.addressTraced (dataLen : ℕ) (stack : ℕ → UInt8) (w : DnsWalk) :
    Partial DnsAccess DnsWalk := do
  access .packet w.buff dataLen
  access .rdata 0 (max 8 (dataLen + 1))
  if 200 ≤ dataLen then failure
  else
    let (addr, self) :=
      retrieveCryptoIp blockEncrypt w.self (rdataWord w.packet w.buff dataLen stack)
    pure { w with
      packet := w.packet.write w.buff ((wordBytes addr ++ [0, 0, 0, 0]).take dataLen)
      self := self
      buff := w.buff + dataLen }

/-- The payload behind the header of the message is removed. -/
def DnsWalk.dropTraced (w : DnsWalk) : Partial DnsAccess DnsStep := do
  let packet ← removePayloadTraced w.packet 54
  pure ({ w with packet := packet }, false)

/-- A record of the answer section. -/
def answerRecordTraced (i : ℕ) (w : DnsWalk) : Partial DnsAccess DnsStep := do
  let (r, stop) ← w.readNameTraced env buffstart
  r.andThenTraced fun w ↦ do
    let resource := w.buff + stop
    access .record i 1
    if 100 ≤ i then failure
    else do
      access .packet (resource + 8) 2
      ((w.skip stop).count (10 + w.packet.ntohs (resource + 8))).andThenTraced fun w ↦ do
        let w := w.skip 10
        let type := w.packet.ntohs resource
        access .packet resource 2
        if type = 1 then do
          let w ← w.addressTraced blockEncrypt (w.packet.ntohs (resource + 8)) (env.stack i)
          pure (w, true)
        else if type = 5 then do
          let (r, _) ← w.readNameTraced env buffstart
          r.andThenTraced fun w ↦
            let dataLen := w.packet.ntohs (resource + 8)
            (w.count dataLen).andThenTraced fun w ↦ pure (w.skip dataLen, true)
        else w.dropTraced

/-- A record of the authority section. -/
def authorityRecordTraced (i : ℕ) (w : DnsWalk) : Partial DnsAccess DnsStep := do
  let (r, stop) ← w.readNameTraced env buffstart
  r.andThenTraced fun w ↦ (w.count stop).andThenTraced fun w ↦ do
    let resource := w.buff + stop
    access .record i 1
    if 100 ≤ i then failure
    else ((w.skip stop).count 10).andThenTraced fun w ↦ do
      let w := w.skip 10
      access .packet resource 2
      if w.packet.ntohs resource = 2 then do
        let (r, stop) ← w.readNameTraced env buffstart
        r.andThenTraced fun w ↦ (w.count stop).andThenTraced fun w ↦ pure (w.skip stop, true)
      else do
        let dataLen := w.packet.ntohs (resource + 8)
        access .packet (resource + 8) 2
        (w.count dataLen).andThenTraced fun w ↦ pure (w.skip dataLen, true)

/-- A record of the additional section. -/
def additionalRecordTraced (i : ℕ) (w : DnsWalk) : Partial DnsAccess DnsStep := do
  let (r, stop) ← w.readNameTraced env buffstart
  r.andThenTraced fun w ↦ (w.count stop).andThenTraced fun w ↦ do
    let resource := w.buff + stop
    access .record i 1
    if 100 ≤ i then failure
    else ((w.skip stop).count 10).andThenTraced fun w ↦ do
      let w := w.skip 10
      access .packet resource 2
      if w.packet.ntohs resource = 1 then do
        let dataLen := w.packet.ntohs (resource + 8)
        access .packet (resource + 8) 2
        (w.count dataLen).andThenTraced fun w ↦ do
          let w ← w.addressTraced blockEncrypt dataLen (env.stack (100 + i))
          pure (w, true)
      else w.dropTraced

/-- The loop over the records of a section. -/
def recordsLoopTraced (record : ℕ → DnsWalk → Partial DnsAccess DnsStep) :
    ℕ → ℕ → DnsWalk → Partial DnsAccess DnsStep
  | 0, _, w => pure (w, true)
  | left + 1, i, w => do
    let r ← record i w
    r.andThenTraced (recordsLoopTraced record left (i + 1))

/-- The records of a response. -/
def dnsRecordsTraced (dns : DnsHeader) (w : DnsWalk) : Partial DnsAccess DnsStep := do
  let r ← recordsLoopTraced (answerRecordTraced blockEncrypt env buffstart) dns.ansCount 0 w
  r.andThenTraced fun w ↦ do
    let r ← recordsLoopTraced (authorityRecordTraced env buffstart) dns.authCount 0 w
    r.andThenTraced fun w ↦
      recordsLoopTraced (additionalRecordTraced blockEncrypt env buffstart) dns.addCount 0 w

/-- The part of `dnsEntry` behind the header. -/
def dnsMessageTraced (packet : Packet) (dns : DnsHeader) (len : ℕ) (newPacket : Flow)
    (flowDb : HashStruct) (kAnon kDelta : ℤ) (self : CryptoIp) : Partial DnsAccess DnsResult := do
  match ← questionNameTraced packet len with
  | none => pure ⟨packet, flowDb, self, none⟩
  | some name =>
    let name := name.takeWhile (· ≠ 0)
    if name.length = 0 then pure ⟨packet, flowDb, self, none⟩
    else do
      let (db, ret) ← Partial.ofOption (tableAdd flowDb newPacket name kAnon kDelta env.table)
      if ret < kAnon then do
        let (packet, buff) ←
          questionRewriteTraced (env.tsc 0) (packet.data.length + 1) (len + 12) packet
        if dns.qr = 0 then pure ⟨packet, db, self, some (name, ret)⟩
        else
          let w : DnsWalk := ⟨packet, self, len + 12 + name.length + 4, buff + 4, 0⟩
          if packet.pktLen ≤ w.len then pure ⟨packet, db, self, some (name, ret)⟩
          else do
            let (w, _) ← dnsRecordsTraced blockEncrypt env buffstart dns w
            pure ⟨w.packet, db, w.self, some (name, ret)⟩
      else pure ⟨packet, db, self, some (name, ret)⟩

end Records

/-- `dnsEntry`.  Of the header it reads the flags of a query; of a response also the code and, one
after the other as long as it goes on, the counts. -/
def dnsEntryTraced (blockEncrypt : Block → Block) (packet : Packet) (protocol : ℕ)
    (newPacket : Flow) (flowDb : HashStruct) (kAnon kDelta : ℤ) (self : CryptoIp) (env : DnsEnv) :
    Partial DnsAccess DnsResult :=
  let removed : Partial DnsAccess DnsResult := do
    let packet ← removePayloadTraced packet 42
    pure ⟨packet, flowDb, self, none⟩
  match dnsHeaderExtractor packet protocol with
  | none => removed
  | some len => do
    let dns := packet.dnsHeader len
    access .packet (len + 2) 1
    access .packet (len + 3) (if dns.qr ≠ 0 then 1 else 0)
    access .packet (len + 6) (if dns.qr ≠ 0 ∧ dns.rcode = 0 then 2 else 0)
    if dns.qr ≠ 0 ∧ (dns.rcode ≠ 0 ∨ dns.ansCount = 0) then removed
    else do
      access .packet (len + 8) (if dns.qr ≠ 0 then 4 else 0)
      dnsMessageTraced blockEncrypt env len packet dns len newPacket flowDb kAnon kDelta self

/-! ## Their values -/

section Values

variable {env : DnsEnv} {blockEncrypt : Block → Block} {buffstart : ℕ}

@[simp] theorem value_access {α : Type} (kind : ℕ → DnsAccess) (i n : ℕ)
    (f : Unit → Partial DnsAccess α) :
    (access kind i n >>= f).run.value = (f ()).run.value :=
  Partial.value_emit ..

theorem removePayloadTraced_value (p : Packet) (offset : ℕ) :
    (removePayloadTraced p offset).run.value = p.removePayload offset := by
  rw [removePayloadTraced, Packet.removePayload, Partial.value_ite, value_access, value_access]
  rfl

theorem readNameLoopTraced_value (buffer : ℕ) (tsc : ℕ → ℕ) (fuel : ℕ) (s : NameReader) :
    (readNameLoopTraced buffer tsc fuel s).run.value = readNameLoop buffer tsc fuel s := by
  induction fuel generalizing s with
  | zero => rfl
  | succ fuel ih =>
    rw [readNameLoopTraced, readNameLoop, value_access, Partial.value_ite, ih]
    rfl

theorem readNameTraced_value (buffer : ℕ) (tsc : ℕ → ℕ) (fuel reader : ℕ) (packet : Packet) :
    (readNameTraced buffer tsc fuel reader packet).run.value =
      readName buffer tsc fuel reader packet := by
  rw [readNameTraced, readName, Partial.value_bind, readNameLoopTraced_value]
  rfl

theorem questionLoopTraced_value (packet : Packet) (len fuel : ℕ) (length dnslen : ℤ) (buff : ℕ)
    (name : List UInt8) : (questionLoopTraced packet len fuel length dnslen buff name).run.value =
      questionLoop packet len fuel length dnslen buff name := by
  induction fuel generalizing length dnslen buff name with
  | zero => rfl
  | succ fuel ih =>
    rw [questionLoopTraced, questionLoop]
    simp only [Partial.value_ite, value_access, Partial.value_pure, Partial.value_failure, ih]

theorem questionNameTraced_value (packet : Packet) (len : ℕ) :
    (questionNameTraced packet len).run.value = questionName packet len := by
  rw [questionNameTraced, questionName]
  simp only [Partial.value_ite, value_access, Partial.value_pure, questionLoopTraced_value]

theorem questionRewriteTraced_value (tsc : ℕ → ℕ) (fuel buff : ℕ) (packet : Packet) :
    (questionRewriteTraced tsc fuel buff packet).run.value =
      some (questionRewrite tsc fuel buff packet) := by
  induction fuel generalizing buff packet with
  | zero => rfl
  | succ fuel ih =>
    rw [questionRewriteTraced, questionRewrite, value_access, Partial.value_ite, value_access, ih,
      Partial.value_pure, apply_ite some]

theorem DnsStep.andThenTraced_value {f : DnsWalk → Partial DnsAccess DnsStep}
    {g : DnsWalk → Option DnsStep} (h : ∀ w, (f w).run.value = g w) (r : DnsStep) :
    (r.andThenTraced f).run.value = r.andThen g := by
  rw [andThenTraced, andThen, Partial.value_ite, h, Partial.value_pure]

theorem DnsWalk.readNameTraced_value (w : DnsWalk) :
    (w.readNameTraced env buffstart).run.value = w.readName env buffstart := by
  rw [DnsWalk.readNameTraced, DnsWalk.readName, Partial.value_ite, Partial.value_bind,
    AlphaMon.readNameTraced_value]
  rfl

theorem DnsWalk.addressTraced_value (dataLen : ℕ) (stack : ℕ → UInt8) (w : DnsWalk) :
    (w.addressTraced blockEncrypt dataLen stack).run.value =
      w.address blockEncrypt dataLen stack := by
  rw [DnsWalk.addressTraced, DnsWalk.address, value_access, value_access, Partial.value_ite]
  rfl

theorem DnsWalk.dropTraced_value (w : DnsWalk) : w.dropTraced.run.value = w.drop := by
  rw [DnsWalk.dropTraced, DnsWalk.drop, Partial.value_bind, removePayloadTraced_value]
  rfl

theorem answerRecordTraced_value (i : ℕ) (w : DnsWalk) :
    (answerRecordTraced blockEncrypt env buffstart i w).run.value =
      answerRecord blockEncrypt env buffstart i w := by
  rw [answerRecordTraced, answerRecord, Partial.value_bind, DnsWalk.readNameTraced_value]
  refine congrArg _ (funext fun x ↦ DnsStep.andThenTraced_value (fun w ↦ ?_) x.1)
  rw [value_access, Partial.value_ite, value_access]
  refine if_congr Iff.rfl rfl (DnsStep.andThenTraced_value (fun w ↦ ?_) _)
  rw [value_access, Partial.value_ite, Partial.value_ite, Partial.value_bind, Partial.value_bind,
    DnsWalk.readNameTraced_value, DnsWalk.addressTraced_value, DnsWalk.dropTraced_value]
  refine if_congr Iff.rfl rfl (if_congr Iff.rfl (congrArg _ (funext fun x ↦ ?_)) rfl)
  exact DnsStep.andThenTraced_value (fun w ↦ DnsStep.andThenTraced_value (fun w ↦ rfl) _) _

theorem authorityRecordTraced_value (i : ℕ) (w : DnsWalk) :
    (authorityRecordTraced env buffstart i w).run.value = authorityRecord env buffstart i w := by
  rw [authorityRecordTraced, authorityRecord, Partial.value_bind, DnsWalk.readNameTraced_value]
  refine congrArg _ (funext fun x ↦ DnsStep.andThenTraced_value (fun w ↦ ?_) x.1)
  refine DnsStep.andThenTraced_value (fun w ↦ ?_) _
  rw [value_access, Partial.value_ite]
  refine if_congr Iff.rfl rfl (DnsStep.andThenTraced_value (fun w ↦ ?_) _)
  rw [value_access, Partial.value_ite, Partial.value_bind, DnsWalk.readNameTraced_value,
    value_access]
  refine if_congr Iff.rfl (congrArg _ (funext fun x ↦ ?_)) ?_
  · exact DnsStep.andThenTraced_value (fun w ↦ DnsStep.andThenTraced_value (fun w ↦ rfl) _) _
  · exact DnsStep.andThenTraced_value (fun w ↦ rfl) _

theorem additionalRecordTraced_value (i : ℕ) (w : DnsWalk) :
    (additionalRecordTraced blockEncrypt env buffstart i w).run.value =
      additionalRecord blockEncrypt env buffstart i w := by
  rw [additionalRecordTraced, additionalRecord, Partial.value_bind, DnsWalk.readNameTraced_value]
  refine congrArg _ (funext fun x ↦ DnsStep.andThenTraced_value (fun w ↦ ?_) x.1)
  refine DnsStep.andThenTraced_value (fun w ↦ ?_) _
  rw [value_access, Partial.value_ite]
  refine if_congr Iff.rfl rfl (DnsStep.andThenTraced_value (fun w ↦ ?_) _)
  rw [value_access, Partial.value_ite, value_access, DnsWalk.dropTraced_value]
  refine if_congr Iff.rfl (DnsStep.andThenTraced_value (fun w ↦ ?_) _) rfl
  rw [Partial.value_bind, DnsWalk.addressTraced_value]
  rfl

theorem recordsLoopTraced_value {record : ℕ → DnsWalk → Partial DnsAccess DnsStep}
    {record' : ℕ → DnsWalk → Option DnsStep} (h : ∀ i w, (record i w).run.value = record' i w)
    (left i : ℕ) (w : DnsWalk) :
    (recordsLoopTraced record left i w).run.value = recordsLoop record' left i w := by
  induction left generalizing i w with
  | zero => rfl
  | succ left ih =>
    rw [recordsLoopTraced, recordsLoop, Partial.value_bind, h]
    exact congrArg _ (funext fun r ↦ DnsStep.andThenTraced_value (fun w ↦ ih (i + 1) w) r)

theorem dnsRecordsTraced_value (dns : DnsHeader) (w : DnsWalk) :
    (dnsRecordsTraced blockEncrypt env buffstart dns w).run.value =
      dnsRecords blockEncrypt env buffstart dns w := by
  rw [dnsRecordsTraced, dnsRecords, Partial.value_bind,
    recordsLoopTraced_value answerRecordTraced_value]
  refine congrArg _ (funext fun r ↦ DnsStep.andThenTraced_value (fun w ↦ ?_) r)
  rw [Partial.value_bind, recordsLoopTraced_value authorityRecordTraced_value]
  refine congrArg _ (funext fun r ↦ DnsStep.andThenTraced_value (fun w ↦ ?_) r)
  exact recordsLoopTraced_value additionalRecordTraced_value ..

theorem dnsMessageTraced_value (packet : Packet) (dns : DnsHeader) (len : ℕ) (newPacket : Flow)
    (flowDb : HashStruct) (kAnon kDelta : ℤ) (self : CryptoIp) :
    (dnsMessageTraced blockEncrypt env buffstart packet dns len newPacket flowDb kAnon kDelta
        self).run.value =
      dnsMessage blockEncrypt env buffstart packet dns len newPacket flowDb kAnon kDelta self := by
  rw [dnsMessageTraced, dnsMessage, Partial.value_bind, questionNameTraced_value]
  refine congrArg _ (funext fun name ↦ ?_)
  cases name with
  | none => rfl
  | some name =>
    simp only
    rw [Partial.value_ite, Partial.value_bind, Partial.value_ofOption]
    refine if_congr Iff.rfl rfl (congrArg _ (funext fun x ↦ ?_))
    rw [Partial.value_ite, Partial.value_bind, questionRewriteTraced_value, Option.bind_some]
    refine if_congr Iff.rfl ?_ rfl
    rw [Partial.value_ite, Partial.value_ite, Partial.value_bind, dnsRecordsTraced_value]
    rfl

/-- **The traced function computes what `dnsEntry` does.** -/
theorem dnsEntryTraced_value (packet : Packet) (protocol : ℕ) (newPacket : Flow)
    (flowDb : HashStruct) (kAnon kDelta : ℤ) (self : CryptoIp) (env : DnsEnv) :
    (dnsEntryTraced blockEncrypt packet protocol newPacket flowDb kAnon kDelta self env).run.value =
      dnsEntry blockEncrypt packet protocol newPacket flowDb kAnon kDelta self env := by
  have hremoved : (do
      let packet ← removePayloadTraced packet 42
      pure ⟨packet, flowDb, self, none⟩ : Partial DnsAccess DnsResult).run.value = (do
        let packet ← packet.removePayload 42
        some ⟨packet, flowDb, self, none⟩) := by
    rw [Partial.value_bind, removePayloadTraced_value]
    rfl
  rw [dnsEntryTraced, dnsEntry]
  cases dnsHeaderExtractor packet protocol with
  | none => exact hremoved
  | some len =>
    simp only
    rw [value_access, value_access, value_access, Partial.value_ite, value_access,
      dnsMessageTraced_value, hremoved]

end Values

end AlphaMon
