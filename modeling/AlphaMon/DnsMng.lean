import AlphaMon.CryptoIp
import AlphaMon.Packet

/-!
# The DNS module

`dns_mng.c`, and `dnsEntry` of `proto_mng.c`.  `readName` steps through a name of a message, through
the compression pointers as well, and replaces the bytes of its labels by random letters as it
goes.  `dnsEntry` takes the name of the question apart by a loop of its own, counts it and, below
the threshold, rewrites it; of a response it then goes through the records.

Next to the pointer into the message the C keeps a running length and returns as soon as that is not
below the length of the packet.  For the records of the answer section the length is not told how
long the owner names are.

Not every call of `ReadName` ends: a pointer may point back to itself.  The number of steps a call
may take is an argument, and a call that needs more has no result.  Nor has one that writes outside
of `name`, of `answers` and its siblings, or of the field `rdata`.
-/

set_option autoImplicit false

namespace AlphaMon

open CString

/-- `dns_header`, less the fields nothing reads. -/
structure DnsHeader where
  rd : ℕ
  tc : ℕ
  aa : ℕ
  opcode : ℕ
  qr : ℕ
  rcode : ℕ
  z : ℕ
  ra : ℕ
  ansCount : ℕ
  authCount : ℕ
  addCount : ℕ

/-- The header at a position.  The bit fields of a byte start at its least significant bit, and the
counts are after the `ntohs` that every reader applies to them. -/
def Packet.dnsHeader (p : Packet) (i : ℕ) : DnsHeader where
  rd := (p.byte (i + 2)).toNat % 2
  tc := (p.byte (i + 2)).toNat / 2 % 2
  aa := (p.byte (i + 2)).toNat / 4 % 2
  opcode := (p.byte (i + 2)).toNat / 8 % 16
  qr := (p.byte (i + 2)).toNat / 128
  rcode := (p.byte (i + 3)).toNat % 16
  z := (p.byte (i + 3)).toNat / 64 % 2
  ra := (p.byte (i + 3)).toNat / 128
  ansCount := p.ntohs (i + 6)
  authCount := p.ntohs (i + 8)
  addCount := p.ntohs (i + 10)

/-- `offset_extractor`: where the message starts; protocol 0 is TCP, 1 is UDP. -/
def offsetExtractor (protocol : ℕ) : ℕ := if protocol = 0 then 54 else 42

/-- `dns_header_extractor`: the position of the header, or a null pointer. -/
def dnsHeaderExtractor (packet : Packet) (protocol : ℕ) : Option ℕ :=
  let len := offsetExtractor protocol
  if packet.pktLen ≤ len then none else some len

/-! ## `ReadName` -/

/-- The local variables of `ReadName`.  `cnt` is the length of the current label, unset before the
first one (the C has a flag `ctrl` for that), and `first` the number of its bytes seen. -/
structure NameReader where
  packet : Packet
  reader : ℕ
  jumped : Bool
  first : ℕ
  cnt : Option ℕ
  count : ℕ

/-- The body of the loop of `ReadName`.  `buffer` is where the message starts. -/
def NameReader.step (buffer tsc : ℕ) (s : NameReader) : NameReader :=
  let b := s.packet.byte s.reader
  if 192 ≤ b.toNat then
    { s with
      reader := buffer + (b.toNat * 256 + (s.packet.byte (s.reader + 1)).toNat - 49152)
      jumped := true }
  else
    let s := if s.cnt = none then { s with cnt := some b.toNat }
      else if s.cnt = some s.first then { s with first := 0, cnt := some b.toNat }
      else { s with packet := s.packet.set s.reader (randChar tsc), first := s.first + 1 }
    { s with reader := s.reader + 1, count := if s.jumped then s.count else s.count + 1 }

/-- The loop of `ReadName`. -/
def readNameLoop (buffer : ℕ) (tsc : ℕ → ℕ) : ℕ → NameReader → Option NameReader
  | 0, _ => none
  | fuel + 1, s =>
    if s.packet.byte s.reader = 0 then some s
    else readNameLoop buffer tsc fuel (s.step buffer (tsc fuel))

/-- `ReadName` at a position: the packet, and the number of bytes the name takes there. -/
def readName (buffer : ℕ) (tsc : ℕ → ℕ) (fuel reader : ℕ) (packet : Packet) :
    Option (Packet × ℕ) := do
  let s ← readNameLoop buffer tsc fuel ⟨packet, reader, false, 0, none, 1⟩
  some (s.packet, if s.jumped then s.count + 1 else s.count)

/-! ## The name of the question -/

/-- The value of a `char`. -/
def Packet.char (p : Packet) (i : ℕ) : ℤ := (p.byte i).toBitVec.toInt

/-- The test `length >= dnslen - (len + 12)`, in which both sides are converted to `size_t`. -/
def exceeds (length dnslen : ℤ) (len : ℕ) : Bool :=
  decide ((dnslen - (len + 12)) % 2 ^ 64 ≤ length % 2 ^ 64)

/-- The bytes from a position on. -/
def Packet.bytes (p : Packet) (i n : ℕ) : List UInt8 := (List.range n).map fun j ↦ p.byte (i + j)

theorem Packet.bytes_eq {p : Packet} {i : ℕ} {l : List UInt8} (h : CString.Reads p.data i l) :
    p.bytes i l.length = l := by
  refine List.ext_getElem (by simp [bytes]) fun j h₁ h₂ ↦ ?_
  simpa [bytes, byte] using h j h₂

/-- The loop that copies the name of the question.  The result is the name, or `none` if the
function returns from the loop. -/
def questionLoop (packet : Packet) (len : ℕ) :
    ℕ → ℤ → ℤ → ℕ → List UInt8 → Option (Option (List UInt8))
  | 0, _, _, _, _ => none
  | fuel + 1, length, dnslen, buff, name =>
    if length = 0 then some (some name)
    else if nameDns < name.length + length.toNat then none
    else
      let name := name ++ packet.bytes buff length.toNat
      let next := packet.char (buff + length.toNat)
      if exceeds next dnslen len || decide (nameDns ≤ name.length) then some none
      else questionLoop packet len fuel next (dnslen - next) (buff + length.toNat + 1)
        (if next = 0 then name else name ++ [46])

/-- The part of `dnsEntry` that copies the name of the question.  Every iteration moves forward in a
memory that ends, so that its size bounds their number. -/
def questionName (packet : Packet) (len : ℕ) : Option (Option (List UInt8)) :=
  let length := packet.char (len + 12)
  if exceeds length packet.pktLen len then some none
  else questionLoop packet len (packet.data.length + 1) length (packet.pktLen - length) (len + 13)
    []

/-- The loop that rewrites the name of the question, and the position behind it. -/
def questionRewrite (tsc : ℕ → ℕ) : ℕ → ℕ → Packet → Packet × ℕ
  | 0, buff, packet => (packet, buff)
  | fuel + 1, buff, packet =>
    if packet.char buff = 0 then (packet, buff + 1)
    else questionRewrite tsc fuel (buff + 1 + (packet.char buff).toNat)
      (packet.mask (fun _ ↦ false) tsc (packet.char buff).toNat (buff + 1))

/-! ## The records -/

/-- What `dnsEntry` gets from outside: what a name module gets; the number of steps a call of
`ReadName` may take; and what stands in the field `rdata` of a record before anything is copied
there. -/
structure DnsEnv extends HandlerEnv where
  fuel : ℕ
  stack : ℕ → ℕ → UInt8 := fun _ _ ↦ 0

/-- Where `dnsEntry` is in the records: the packet and the anonymiser, the running length, the
pointer, and the number of calls of `ReadName` so far. -/
structure DnsWalk where
  packet : Packet
  self : CryptoIp
  len : ℕ
  buff : ℕ
  calls : ℕ

/-- How a part of `dnsEntry` ends: it goes on, or the function returns. -/
abbrev DnsStep := DnsWalk × Bool

/-- The running length grows; the function returns when it is not below that of the packet. -/
def DnsWalk.count (n : ℕ) (w : DnsWalk) : DnsStep :=
  ({ w with len := w.len + n }, decide (w.len + n < w.packet.pktLen))

/-- Go on with a step if the function has not returned. -/
def DnsStep.andThen (r : DnsStep) (f : DnsWalk → Option DnsStep) : Option DnsStep :=
  if r.2 then f r.1 else some r

/-- The bytes of a word, the least significant first. -/
def wordBytes (w : BitVec 32) : List UInt8 :=
  [⟨w.setWidth 8⟩, ⟨(w >>> 8).setWidth 8⟩, ⟨(w >>> 16).setWidth 8⟩, ⟨(w >>> 24).setWidth 8⟩]

/-- Write bytes from a position on. -/
def Packet.write (p : Packet) (i : ℕ) : List UInt8 → Packet
  | [] => p
  | b :: l => (p.set i b).write (i + 1) l

/-- The address in `rdata` after `dataLen` bytes of data have been copied there. -/
def rdataWord (packet : Packet) (buff dataLen : ℕ) (stack : ℕ → UInt8) : BitVec 32 :=
  let b j := if j < dataLen then packet.byte (buff + j) else stack j
  (b 3).toBitVec ++ (b 2).toBitVec ++ (b 1).toBitVec ++ (b 0).toBitVec

section Records

variable (blockEncrypt : Block → Block) (env : DnsEnv) (buffstart : ℕ)

/-- A call of `ReadName` at the pointer, which it does not move: the walk and the length of the
name.  The function returns when the scratch buffer cannot be allocated. -/
def DnsWalk.readName (w : DnsWalk) : Option (DnsStep × ℕ) :=
  if env.allocName w.calls then do
    let (packet, stop) ←
      AlphaMon.readName buffstart (env.tsc (w.calls + 1)) env.fuel w.buff w.packet
    some (({ w with packet := packet, calls := w.calls + 1 }, true), stop)
  else some ((w, false), 0)

/-- The address of `dataLen` bytes of data at the pointer is replaced by its pseudonym.  The C
copies the data to `rdata`, writes the eight bytes of a `long` there and copies everything back. -/
def DnsWalk.address (dataLen : ℕ) (stack : ℕ → UInt8) (w : DnsWalk) : Option DnsWalk :=
  if 200 ≤ dataLen then none
  else
    let (addr, self) :=
      retrieveCryptoIp blockEncrypt w.self (rdataWord w.packet w.buff dataLen stack)
    some { w with
      packet := w.packet.write w.buff ((wordBytes addr ++ [0, 0, 0, 0]).take dataLen)
      self := self
      buff := w.buff + dataLen }

/-- The payload behind the header of the message is removed, and the function returns. -/
def DnsWalk.drop (w : DnsWalk) : Option DnsStep := do
  let packet ← w.packet.removePayload 54
  some ({ w with packet := packet }, false)

/-- The pointer moves. -/
def DnsWalk.skip (n : ℕ) (w : DnsWalk) : DnsWalk := { w with buff := w.buff + n }

/-- A record of the answer section: the owner name; type, class, time to live and length; the
data. -/
def answerRecord (i : ℕ) (w : DnsWalk) : Option DnsStep := do
  let (r, stop) ← w.readName env buffstart
  r.andThen fun w ↦
    let resource := w.buff + stop
    if 100 ≤ i then none
    else ((w.skip stop).count (10 + w.packet.ntohs (resource + 8))).andThen fun w ↦
      let w := w.skip 10
      let type := w.packet.ntohs resource
      if type = 1 then do
        let w ← w.address blockEncrypt (w.packet.ntohs (resource + 8)) (env.stack i)
        some (w, true)
      else if type = 5 then do
        let (r, _) ← w.readName env buffstart
        r.andThen fun w ↦
          let dataLen := w.packet.ntohs (resource + 8)
          (w.count dataLen).andThen fun w ↦ some (w.skip dataLen, true)
      else w.drop

/-- A record of the authority section. -/
def authorityRecord (i : ℕ) (w : DnsWalk) : Option DnsStep := do
  let (r, stop) ← w.readName env buffstart
  r.andThen fun w ↦ (w.count stop).andThen fun w ↦
    let resource := w.buff + stop
    if 100 ≤ i then none
    else ((w.skip stop).count 10).andThen fun w ↦
      let w := w.skip 10
      if w.packet.ntohs resource = 2 then do
        let (r, stop) ← w.readName env buffstart
        r.andThen fun w ↦ (w.count stop).andThen fun w ↦ some (w.skip stop, true)
      else
        let dataLen := w.packet.ntohs (resource + 8)
        (w.count dataLen).andThen fun w ↦ some (w.skip dataLen, true)

/-- A record of the additional section. -/
def additionalRecord (i : ℕ) (w : DnsWalk) : Option DnsStep := do
  let (r, stop) ← w.readName env buffstart
  r.andThen fun w ↦ (w.count stop).andThen fun w ↦
    let resource := w.buff + stop
    if 100 ≤ i then none
    else ((w.skip stop).count 10).andThen fun w ↦
      let w := w.skip 10
      if w.packet.ntohs resource = 1 then
        let dataLen := w.packet.ntohs (resource + 8)
        (w.count dataLen).andThen fun w ↦ do
          let w ← w.address blockEncrypt dataLen (env.stack (100 + i))
          some (w, true)
      else w.drop

/-- The loop over the records of a section, with the number of records left. -/
def recordsLoop (record : ℕ → DnsWalk → Option DnsStep) : ℕ → ℕ → DnsWalk → Option DnsStep
  | 0, _, w => some (w, true)
  | left + 1, i, w => do
    let r ← record i w
    r.andThen (recordsLoop record left (i + 1))

/-! ## `dnsEntry` -/

/-- What `dnsEntry` leaves behind: the packet, the table of names, the anonymiser, and the name
passed to `table_add` with the number of users it returned, if it was called. -/
structure DnsResult where
  packet : Packet
  db : HashStruct
  self : CryptoIp
  counted : Option (List UInt8 × ℤ)

/-- The records of a response, section by section. -/
def dnsRecords (dns : DnsHeader) (w : DnsWalk) : Option DnsStep := do
  let r ← recordsLoop (answerRecord blockEncrypt env buffstart) dns.ansCount 0 w
  r.andThen fun w ↦ do
    let r ← recordsLoop (authorityRecord env buffstart) dns.authCount 0 w
    r.andThen fun w ↦
      recordsLoop (additionalRecord blockEncrypt env buffstart) dns.addCount 0 w

/-- The part of `dnsEntry` behind the header that queries and responses have in common, up to the
rewriting of the name of the question, and the records of a response. -/
def dnsMessage (packet : Packet) (dns : DnsHeader) (len : ℕ) (newPacket : Flow)
    (flowDb : HashStruct) (kAnon kDelta : ℤ) (self : CryptoIp) : Option DnsResult := do
  match ← questionName packet len with
  | none => some ⟨packet, flowDb, self, none⟩
  | some name =>
    -- `name` as a C string ends at the first `0` copied
    let name := name.takeWhile (· ≠ 0)
    if name.length = 0 then some ⟨packet, flowDb, self, none⟩
    else do
      let (db, ret) ← tableAdd flowDb newPacket name kAnon kDelta env.table
      if ret < kAnon then
        let (packet, buff) := questionRewrite (env.tsc 0) (packet.data.length + 1) (len + 12) packet
        if dns.qr = 0 then some ⟨packet, db, self, some (name, ret)⟩
        else
          let w : DnsWalk := ⟨packet, self, len + 12 + name.length + 4, buff + 4, 0⟩
          if packet.pktLen ≤ w.len then some ⟨packet, db, self, some (name, ret)⟩
          else do
            let (w, _) ← dnsRecords blockEncrypt env buffstart dns w
            some ⟨w.packet, db, w.self, some (name, ret)⟩
      else some ⟨packet, db, self, some (name, ret)⟩

end Records

/-- `dnsEntry`.  (`ntohs(dns->qr)` is `0` for a query and `256` for a response, so that the test
against `1` always holds of a response.) -/
def dnsEntry (blockEncrypt : Block → Block) (packet : Packet) (protocol : ℕ) (newPacket : Flow)
    (flowDb : HashStruct) (kAnon kDelta : ℤ) (self : CryptoIp) (env : DnsEnv) : Option DnsResult :=
  let removed : Option DnsResult := do
    let packet ← packet.removePayload 42
    some ⟨packet, flowDb, self, none⟩
  match dnsHeaderExtractor packet protocol with
  | none => removed
  | some len =>
    let dns := packet.dnsHeader len
    if dns.qr ≠ 0 ∧ (dns.rcode ≠ 0 ∨ dns.ansCount = 0) then removed
    else dnsMessage blockEncrypt env len packet dns len newPacket flowDb kAnon kDelta self

end AlphaMon
