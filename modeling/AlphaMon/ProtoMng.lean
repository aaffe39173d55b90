import AlphaMon.ExtIpMng
import AlphaMon.FlowRun
import AlphaMon.NameModules
import AlphaMon.ProtoFinder

/-!
# The engine

`multiplexer_proto` of `proto_mng.c`: what the engine does with one IPv4 packet.  A TCP packet may
have its external address replaced; then the detectors decide between the TLS module, the HTTP
module and removing the payload, where the modules are called unless the flow's record says that the
flow is exempt.  A UDP packet goes to the DNS module or loses its payload, and a packet of any other
protocol loses what follows the IP header.

The field `toAnon` of the record is `-1` for a flow not yet decided on, `0` for an exempt one, and
`1` for one to anonymise.  The TCP branch stores into it whatever the last call said.  The UDP
branch was meant to, but compares where it should assign.
-/

set_option autoImplicit false

namespace AlphaMon

/-- `TCP`. -/
def protoTcp : ℕ := 0x06

/-- `UDP`. -/
def protoUdp : ℕ := 0x11

/-- The tables of the engine, and the anonymiser of the interface. -/
structure Engine where
  flowDb : HashStruct
  flowStruct : FlowTable
  self : CryptoIp

/-- What the engine gets from outside while it processes a packet: what the two calls of
`reference_flow` get, what `external_ip` gets, and what the name module gets. -/
structure PacketEnv where
  extFlow : FlowEnv
  ext : ExtEnv
  nameFlow : FlowEnv
  handler : DnsEnv

/-- What the engine leaves behind: the packet, its state, and what the TLS or HTTP module reported,
if one was called. -/
structure Outcome where
  packet : Packet
  engine : Engine
  handled : Option HandlerResult

/-- `newPacket`.  (The IPv6 addresses are left unset; nothing reads them of an IPv4 flow.) -/
def newPacket (packet : Packet) (tvSec : ℤ) : Flow where
  ipv := 4
  ipv4Src := packet.word 26
  ipv4Dst := packet.word 30
  ipv6Src := 0
  ipv6Dst := 0
  inPort := packet.ntohs 34
  outPort := packet.ntohs 36
  protocol := (packet.byte 23).toNat
  timestamp := tvSec

/-- Neither port is 22 or 443. -/
def Flow.RemovesUnknown (f : Flow) : Prop :=
  f.inPort ≠ 22 ∧ f.inPort ≠ 443 ∧ f.outPort ≠ 22 ∧ f.outPort ≠ 443

instance (f : Flow) : Decidable f.RemovesUnknown := inferInstanceAs (Decidable (_ ∧ _))

section Engine

variable (setting : OutInterfaceSett) (flow : Flow) (env : PacketEnv)

/-- The record of a flow, and the field `toAnon` that decides whether the flow is exempt. -/
def lookUp (flowStruct : FlowTable) (flowEnv : FlowEnv) : Option (FlowTable × ℕ × FlowRec) := do
  let (flowStruct, a) ← referenceFlow flowStruct flow flowEnv
  let flusso ← (flowStruct flow.bucket).cell a
  some (flowStruct, a, flusso.toFlowRec)

/-- A store into the record at `a` of the flow's bucket. -/
def storeRecord (flowStruct : FlowTable) (a : ℕ) (f : FlowRec → FlowRec) : Option FlowTable := do
  let mem ← storeFlow (flowStruct flow.bucket) a f
  some (Function.update flowStruct flow.bucket mem)

/-- The value stored in `toAnon` after a call. -/
def toAnonOf (flag : ℤ) : ℤ := if flag ≠ 0 then 1 else 0

/-- The part of `multiplexer_proto` about the external address.  `stores` says whether the result is
stored in the record, as in the TCP branch. -/
def externalPart (stores : Bool) (ipOrigin : ℤ) (packet : Packet) (engine : Engine) :
    Option (Packet × Engine) :=
  if setting.anonExtIp = 1 ∧ (ipOrigin = 1 ∨ ipOrigin = 10) then do
    let (flowStruct, a, flusso) ← lookUp flow engine.flowStruct env.extFlow
    if flusso.toAnon = -1 ∨ flusso.toAnon = 1 then do
      let r ← externalIp packet ipOrigin flusso engine.flowDb flow setting.alpha setting.delta
        env.ext
      let flowStruct ← storeRecord flow flowStruct a fun x ↦
        { x with ipv4Anon := r.ipv4Anon, toAnon := if stores then toAnonOf r.flag else x.toAnon }
      some (r.packet, { engine with flowDb := r.db, flowStruct := flowStruct })
    else some (packet, { engine with flowStruct := flowStruct })
  else some (packet, engine)

/-- Call a name module unless the flow is exempt. -/
def namePart (module : NameModule) (packet : Packet) (engine : Engine) : Option Outcome := do
  let (flowStruct, a, flusso) ← lookUp flow engine.flowStruct env.nameFlow
  if flusso.toAnon = -1 ∨ flusso.toAnon = 1 then do
    let r ← module packet 0 (packet.byte 46) flow engine.flowDb setting.alpha setting.delta
      env.handler.toHandlerEnv
    let flowStruct ← storeRecord flow flowStruct a fun x ↦ { x with toAnon := toAnonOf r.flag }
    some ⟨r.packet, { engine with flowDb := r.db, flowStruct := flowStruct }, some r⟩
  else some ⟨packet, { engine with flowStruct := flowStruct }, none⟩

/-- Remove the payload. -/
def removePart (offset : ℕ) (packet : Packet) (engine : Engine) : Option Outcome := do
  let packet ← packet.removePayload offset
  some ⟨packet, engine, none⟩

/-- What the TCP branch does after the part about the external address. -/
def tcpPart (packet : Packet) (engine : Engine) : Option Outcome := do
  let detectedProto ← protoDetector packet 0 flow.inPort flow.outPort
  if detectedProto = 443 then
    if setting.tls ≠ 0 then namePart setting flow env tlsHelloEntry packet engine
    else some ⟨packet, engine, none⟩
  else if detectedProto = 80 then
    if setting.http ≠ 0 then namePart setting flow env httpEntry packet engine
    else some ⟨packet, engine, none⟩
  else if flow.RemovesUnknown then removePart 54 packet engine
  else some ⟨packet, engine, none⟩

/-- What the UDP branch does after the part about the external address. -/
def udpPart (blockEncrypt : Block → Block) (packet : Packet) (engine : Engine) : Option Outcome :=
  if setting.dns ≠ 0 then do
    if (← protoDetector packet 1 flow.inPort flow.outPort) = 53 then do
      let r ← dnsEntry blockEncrypt packet 1 flow engine.flowDb setting.alpha setting.delta
        engine.self
        env.handler
      some ⟨r.packet, { engine with flowDb := r.db, self := r.self }, none⟩
    else removePart 42 packet engine
  else if flow.RemovesUnknown then removePart 42 packet engine
  else some ⟨packet, engine, none⟩

end Engine

/-- `multiplexer_proto` on an IPv4 packet.  (For an IPv6 packet it does nothing.) -/
def multiplexerProto (blockEncrypt : Block → Block) (packet : Packet) (tvSec : ℤ)
    (setting : OutInterfaceSett) (ipOrigin : ℤ) (engine : Engine) (env : PacketEnv) :
    Option Outcome :=
  let flow := newPacket packet tvSec
  if flow.protocol = protoTcp then do
    let (packet, engine) ← externalPart setting flow env true ipOrigin packet engine
    tcpPart setting flow env packet engine
  else if flow.protocol = protoUdp then do
    let (packet, engine) ← externalPart setting flow env false ipOrigin packet engine
    udpPart setting flow env blockEncrypt packet engine
  else removePart 34 packet engine

end AlphaMon
