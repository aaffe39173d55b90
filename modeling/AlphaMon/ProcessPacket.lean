import AlphaMon.EngineRun
import AlphaMon.IpUtils

/-!
# Processing a packet

`process_packet.c`: what is done with a packet for one output interface.  The Ethernet addresses
come first, then the IP addresses, replaced by pseudonyms when they belong to the networks of the
anon subnet file, then the payload and the engine.  An IPv4 packet with an address of the no-anon
subnet file is let through as it is.

`process_packet_init` parses the two subnet files of every interface into the same global tables,
one interface after the other.
-/

set_option autoImplicit false

namespace AlphaMon

open CString

/-- `MAX_INTERFACES`. -/
def maxInterfaces : ℕ := 64

/-- `ICMP`. -/
def protoIcmp : ℕ := 0x01

/-- `"static"`. -/
def kwStatic : List UInt8 := [115, 116, 97, 116, 105, 99]

/-! ## Initialisation -/

/-- The global state of a core: the tables of networks, the tables of the engine, and an anonymiser
for every interface. -/
structure World where
  nets : Nets
  flowDb : HashStruct
  flowStruct : FlowTable
  cryptoData : ℕ → CryptoIp

/-- The IP addresses are to be replaced, under a key from the configuration. -/
def OutInterfaceSett.UsesKey (s : OutInterfaceSett) : Prop :=
  s.anonIpEnabled = 1 ∧ s.anonIpKeyMode = kwStatic

instance (s : OutInterfaceSett) : Decidable s.UsesKey := inferInstanceAs (Decidable (_ ∧ _))

section Init

variable (inet : Inet) (fopen : List UInt8 → Option (List UInt8))

/-- The two calls of `ParseNetFile` for an interface, whose results are ignored.  A file that cannot
be opened is a null pointer for it. -/
def parseNets (s : OutInterfaceSett) (nets : Nets) : Option Nets := do
  let anon ← fopen s.anonSubnetFile
  let noAnon ← fopen s.noAnonSubnetFile
  some ⟨(parseNetFile inet anon maxSubnets nets.anon).1,
    (parseNetFile inet noAnon maxSubnets nets.noAnon).1⟩

/-- The loop of `process_packet_init` as far as it is about the networks, over some interfaces. -/
def initNets (outInterface : ℕ → OutInterfaceSett) : List ℕ → Nets → Option Nets
  | [], nets => some nets
  | i :: l, nets => do
    let nets ←
      if (outInterface i).anonIpEnabled = 1 then parseNets inet fopen (outInterface i) nets
      else some nets
    initNets outInterface l nets

/-- `process_packet_init` for one core.  Each interface has its own key. -/
def processPacketInit (blockEncrypt : ℕ → Block → Block) (padKey : ℕ → Block)
    (outInterface : ℕ → OutInterfaceSett) : Option World := do
  let nets ← initNets inet fopen outInterface (List.range maxInterfaces) ⟨.zero, .zero⟩
  some ⟨nets, tableInit, flowTableInit, fun i ↦
    if (outInterface i).UsesKey then initializeCrypto (blockEncrypt i) (padKey i) else .zero⟩

end Init

/-! ## A packet -/

/-- Write the same value to the first bytes. -/
def fillLoop (b : UInt8) : ℕ → Packet → Packet
  | 0, p => p
  | n + 1, p => fillLoop b n (p.set n b)

/-- `process_packet_eth`: both addresses are the time stamp, or zeros. -/
def processPacketEth (packet : Packet) (s : OutInterfaceSett) (tvSec : ℤ) : Packet :=
  if s.anonMacEnabled = 2 then fillLoop ⟨BitVec.ofInt 8 tvSec⟩ 12 packet
  else if s.anonMacEnabled = 1 then fillLoop 0 12 packet
  else packet

/-- `l4_payload_remover` on an IPv4 packet. -/
def l4PayloadRemover (packet : Packet) : Option Packet :=
  let proto := (packet.byte 23).toNat
  packet.removePayload
    (if proto = protoTcp then 54 else if proto = protoUdp ∨ proto = protoIcmp then 42 else 34)

/-- Replace the IPv4 address at a position if it is in the networks to anonymise.  Otherwise the
endpoint is external, which adds to `ip_origin`. -/
def replaceEnd (blockEncrypt : Block → Block) (nets : Nets) (i : ℕ) (external : ℤ) (packet : Packet)
    (self : CryptoIp) : Packet × CryptoIp × ℤ :=
  if anonIpCheck nets (packet.word i) ≠ 0 then
    let (a, self) := retrieveCryptoIp blockEncrypt self (packet.word i)
    (packet.setWord i a, self, 0)
  else (packet, self, external)

/-- The IPv6 address at a position. -/
def Packet.in6Addr (packet : Packet) (i : ℕ) : In6Addr :=
  ⟨packet.word i, packet.word (i + 4), packet.word (i + 8), packet.word (i + 12)⟩

/-- Write an IPv6 address. -/
def Packet.setIn6Addr (packet : Packet) (i : ℕ) (a : In6Addr) : Packet :=
  (((packet.setWord i a.w0).setWord (i + 4) a.w1).setWord (i + 8) a.w2).setWord (i + 12) a.w3

/-- Replace the IPv6 address at a position if it is in the networks to anonymise. -/
def replaceEndv6 (blockEncrypt : Block → Block) (nets : Nets) (i : ℕ) (packet : Packet)
    (self : CryptoIp) : Packet × CryptoIp :=
  if anonIpCheckv6 nets (packet.in6Addr i) ≠ 0 then
    let (a, self) := retrieveCryptoIpv6 blockEncrypt self (packet.in6Addr i)
    (packet.setIn6Addr i a, self)
  else (packet, self)

section Process

variable (blockEncrypt : Block → Block) (nets : Nets) (s : OutInterfaceSett)

/-- One of the addresses is not to be anonymised, and the packet with it. -/
def LetThrough (packet : Packet) : Prop :=
  noAnonIpCheck nets (packet.word 26) ≠ 0 ∨ noAnonIpCheck nets (packet.word 30) ≠ 0

instance (packet : Packet) : Decidable (LetThrough nets packet) :=
  inferInstanceAs (Decidable (_ ∨ _))

/-- The addresses of an IPv4 packet, and `ip_origin`. -/
def replaceAddresses (packet : Packet) (self : CryptoIp) : Packet × CryptoIp × ℤ :=
  if s.UsesKey then
    let (packet, self, src) := replaceEnd blockEncrypt nets 26 10 packet self
    let (packet, self, dst) := replaceEnd blockEncrypt nets 30 1 packet self
    (packet, self, src + dst)
  else (packet, self, 0)

/-- The payload of an IPv4 packet, if it is to be dropped. -/
def dropPayload (packet : Packet) : Option Packet :=
  if s.payloadDropEnabled = 1 then l4PayloadRemover packet else some packet

/-- `process_packet_ip`. -/
def processPacketIp (packet : Packet) (tvSec : ℤ) (engine : Engine) (env : PacketEnv) :
    Option Outcome :=
  if packet.ntohs 12 = 0x0800 then
    if LetThrough nets packet then some ⟨packet, engine, none⟩
    else do
      let (packet, self, ipOrigin) := replaceAddresses blockEncrypt nets s packet engine.self
      let packet ← dropPayload s packet
      if s.engine ≠ 0 then
        multiplexerProto blockEncrypt packet tvSec s ipOrigin { engine with self := self } env
      else some ⟨packet, { engine with self := self }, none⟩
  else if packet.ntohs 12 = 0x86DD then
    if s.UsesKey then
      let (packet, self) := replaceEndv6 blockEncrypt nets 22 packet engine.self
      let (packet, self) := replaceEndv6 blockEncrypt nets 38 packet self
      some ⟨packet, { engine with self := self }, none⟩
    else some ⟨packet, engine, none⟩
  else some ⟨packet, engine, none⟩

/-- `process_packet`. -/
def processPacket (packet : Packet) (tvSec : ℤ) (engine : Engine) (env : PacketEnv) :
    Option Outcome :=
  processPacketIp blockEncrypt nets s (processPacketEth packet s tvSec) tvSec engine env

end Process

end AlphaMon
