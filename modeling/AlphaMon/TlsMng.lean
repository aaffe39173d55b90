import AlphaMon.Packet

/-!
# The TLS module

`tls_mng.c`.  `tlsHelloEntry` finds the server name in a ClientHello: it steps over the session
identifier, the cipher suites and the compression methods, and then over the extensions up to the
first of type 0.  The name is taken as the C string at its first byte, and counted only if that
string has the length the extension gives.

The parsers check no bound.  What they read past the frame is whatever stands in memory there.
-/

set_option autoImplicit false

namespace AlphaMon

open CString

/-- `offset_extractor_tls`. -/
def offsetExtractorTls (protocol : ℕ) (offset : UInt8) : ℕ := payloadOffset protocol offset

/-- The loop over the extensions: the body of the first one of type 0, or the position at which the
loop ended.  Every iteration moves forward, so that the bytes left bound their number.  (The loop of
the C also ends after type 0, but it has returned by then.) -/
def extLoop (packet : Packet) (maxchar : ℕ) : ℕ → ℕ → ℕ ⊕ ℕ
  | 0, curr => .inr curr
  | fuel + 1, curr =>
    if curr < maxchar then
      if packet.ntohs curr = 0 then .inl (curr + 4)
      else extLoop packet maxchar fuel (curr + 4 + packet.ntohs (curr + 2))
    else .inr curr

/-- What `tlsHelloEntry` does with the body of the server name extension. -/
def sniEntry (packet : Packet) (curr : ℕ) (newPacket : Flow) (flowDb : HashStruct)
    (kAnon kDelta : ℤ) (env : HandlerEnv) : Option HandlerResult :=
  let namelen := packet.ntohs (curr + 3)
  let curr := curr + 5
  let name := packet.text curr
  if namelen = 0 ∨ namelen ≠ name.length then some ⟨packet, 0, flowDb, none⟩
  else do
    let (db, ret) ← tableAdd flowDb newPacket name kAnon kDelta env.table
    if ret < kAnon then
      some ⟨packet.mask (· == 46) (env.tsc 0) namelen curr, 1, db, some (name, ret)⟩
    else some ⟨packet, 0, db, some (name, ret)⟩

/-- `tlsHelloEntry`.  When the extensions end without a server name exactly where they should, the
function ends without returning a value. -/
def tlsHelloEntry (packet : Packet) (protocol : ℕ) (offset : UInt8) (newPacket : Flow)
    (flowDb : HashStruct) (kAnon kDelta : ℤ) (env : HandlerEnv) : Option HandlerResult :=
  let bytes := offsetExtractorTls protocol offset
  let sidlen := (packet.byte (bytes + 43)).toNat
  let curr := bytes + 1 + 43 + sidlen
  let cslen := packet.ntohs curr
  let curr := curr + (2 + cslen)
  let cmplen := (packet.byte curr).toNat
  let curr := curr + (1 + cmplen)
  let maxchar := curr + 2 + packet.ntohs curr
  let curr := curr + 2
  match extLoop packet maxchar (maxchar - curr) curr with
  | .inl curr => sniEntry packet curr newPacket flowDb kAnon kDelta env
  | .inr curr => some ⟨packet, if curr ≠ maxchar then 0 else env.noReturn, flowDb, none⟩

end AlphaMon
