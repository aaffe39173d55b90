import AlphaMon.ProcessPacket

/-!
# Mirroring packets

The fan-out of `main_loop` in `traffic_anon.c`.  A burst of packets read from an input interface is
processed for each of its output interfaces in turn, the whole burst for one before the next.  All
but the last work on deep copies, so that each finds the packets as they were received.

What `process_packet` leaves for the next call is the state of the core: the tables of the engine,
which all interfaces share, and the anonymiser of the interface.
-/

set_option autoImplicit false

namespace AlphaMon

/-- A call of `process_packet`: the output interface, the packet, the time and what the engine gets
from outside. -/
structure PacketCopy where
  port : ℕ
  packet : Packet
  tvSec : ℤ
  env : PacketEnv

/-- A received packet, with the memory after its copy for an output interface, the time at which
that is processed and what the engine gets from outside then. -/
structure Received where
  packet : Packet
  after : ℕ → List UInt8
  tvSec : ℕ → ℤ
  env : ℕ → PacketEnv

/-- A burst from an input interface, and `out_port`, to which the interface is mapped. -/
structure Burst where
  outPort : List ℕ
  packets : List Received

/-- The copy of a received packet for an output interface. -/
def Received.copy (r : Received) (port : ℕ) : PacketCopy :=
  ⟨port, r.packet.followedBy (r.after port), r.tvSec port, r.env port⟩

/-- The calls of `process_packet` for a burst, in the order of the two loops. -/
def fanOut (b : Burst) : List PacketCopy := b.outPort.flatMap fun port ↦ b.packets.map (·.copy port)

/-- The state in which a packet is processed for an output interface. -/
def World.engine (w : World) (port : ℕ) : Engine := ⟨w.flowDb, w.flowStruct, w.cryptoData port⟩

/-- The state after it. -/
def World.leave (w : World) (port : ℕ) (engine : Engine) : World where
  nets := w.nets
  flowDb := engine.flowDb
  flowStruct := engine.flowStruct
  cryptoData := Function.update w.cryptoData port engine.self

section MainLoop

variable (blockEncrypt : ℕ → Block → Block) (outInterface : ℕ → OutInterfaceSett)

/-- A call of `process_packet`, and the packet sent. -/
def worldStep (c : PacketCopy) (w : World) : Option (World × Packet) := do
  let o ← processPacket (blockEncrypt c.port) w.nets (outInterface c.port) c.packet c.tvSec
    (w.engine c.port) c.env
  some (w.leave c.port o.engine, o.packet)

/-- Some calls of `process_packet`, and the packets sent. -/
abbrev runWorld (w : World) (calls : List PacketCopy) : Option (World × List Packet) :=
  PartialRun.run (worldStep blockEncrypt outInterface) w calls

/-- `main_loop` on some bursts. -/
def mainLoop (w : World) (bursts : List Burst) : Option (World × List Packet) :=
  runWorld blockEncrypt outInterface w (bursts.flatMap fanOut)

/-- The packets that `main_loop` sends before it ends, or before a packet on which it fails. -/
def sentPackets (w : World) (bursts : List Burst) : List Packet :=
  PartialRun.outputs (worldStep blockEncrypt outInterface) w (bursts.flatMap fanOut)

end MainLoop

/-- The packets sent on an output interface. -/
def emitted (port : ℕ) (calls : List PacketCopy) (packets : List Packet) : List Packet :=
  ((calls.zip packets).filter (·.1.port = port)).map (·.2)

end AlphaMon
