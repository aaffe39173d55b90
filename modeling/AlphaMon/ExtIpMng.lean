import AlphaMon.FlowMng
import AlphaMon.Packet

/-!
# External addresses

`ext-ip_mng.c`.  The address of the external endpoint is counted like a name, by its four bytes, and
replaced by a random address of 127.0.0.0/8 as long as few users have been seen with it.
`ip_origin` says which endpoint is external: 10 the source, 1 the destination.

The two cases are not alike.  For a source the replacement by the address of an earlier packet
stands inside the branch for undecided flows and never happens.  The branch for IPv6 frames is left
out: the engine is called for IPv4 frames only.
-/

set_option autoImplicit false

namespace AlphaMon

/-- What a call of `external_ip` gets from outside: what its call of `table_add` gets, and the time
stamp counter in `addressV4_gen`. -/
structure ExtEnv where
  table : TableEnv
  tsc : ℕ

/-- `addressV4_gen`. -/
def addressV4Gen (tsc : ℕ) : BitVec 32 :=
  let randomNum := BitVec.ofNat 32 tsc
  ((randomNum &&& 0xFF) <<< 24) ||| ((randomNum >>> 16 &&& 0xFF) <<< 16) |||
    ((randomNum >>> 8 &&& 0xFF) <<< 8) ||| (127 &&& 0xFF)

/-- What `external_ip` leaves behind. -/
structure ExternalResult where
  /-- The packet. -/
  packet : Packet
  /-- The return value: nonzero when an address was generated. -/
  flag : ℤ
  /-- The table of names. -/
  db : HashStruct
  /-- The field `ipv4_anon` of the flow's record. -/
  ipv4Anon : BitVec 32

/-- The address at a position as a name: its last byte comes first, and the C string ends at the
first byte that is `0`. -/
def addressName (packet : Packet) (i : ℕ) : List UInt8 :=
  [packet.byte (i + 3), packet.byte (i + 2), packet.byte (i + 1), packet.byte i].takeWhile (· ≠ 0)

/-- The first packet of a flow: count the address at a position, and below the threshold replace
it. -/
def countAddress (packet : Packet) (i : ℕ) (flusso : FlowRec) (flowDb : HashStruct)
    (newPacket : Flow) (kAnon kDelta : ℤ) (env : ExtEnv) : Option ExternalResult := do
  let (db, ret) ← tableAdd flowDb newPacket (addressName packet i) kAnon kDelta env.table
  if ret < kAnon then
    some ⟨packet.setWord i (addressV4Gen env.tsc), 1, db, addressV4Gen env.tsc⟩
  else some ⟨packet, 0, db, flusso.ipv4Anon⟩

/-- `external_ip` on an IPv4 frame. -/
def externalIp (packet : Packet) (ipOrigin : ℤ) (flusso : FlowRec) (flowDb : HashStruct)
    (newPacket : Flow) (kAnon kDelta : ℤ) (env : ExtEnv) : Option ExternalResult :=
  let unchanged : ExternalResult := ⟨packet, 0, flowDb, flusso.ipv4Anon⟩
  if packet.ntohs 12 = 0x0800 then
    if ipOrigin = 10 then
      if flusso.toAnon = -1 then countAddress packet 26 flusso flowDb newPacket kAnon kDelta env
      else some unchanged
    else if ipOrigin = 1 then
      if flusso.toAnon = -1 then countAddress packet 30 flusso flowDb newPacket kAnon kDelta env
      else if flusso.toAnon = 1 then
        some { unchanged with packet := packet.setWord 30 flusso.ipv4Anon }
      else some unchanged
    else some unchanged
  else some unchanged

end AlphaMon
