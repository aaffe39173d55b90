import Mathlib.Algebra.Group.Int.Defs
import Mathlib.Algebra.Group.Nat.Defs
import Mathlib.Data.Int.Notation
import AlphaMon.Memory.Arena

/-!
# Constants and shared structures

The constants of `defines.h` and `crypto_ip.h`, and the structures of `struct.h` that more than one
module uses.  Addresses are kept the way the code keeps them, as 32-bit words read from the packet
without a byte swap, and ports after the `htons` that turns them into numbers.  A `time_t` is an
integer number of seconds.
-/

set_option autoImplicit false

namespace AlphaMon

/-- `MAX_CLIENT`: the slots of a name's client list. -/
def maxClient : ℕ := 900

/-- `FLOW_TABLE_SIZE`: the buckets of the table of names. -/
def flowTableSize : ℕ := 10000

/-- `NAME_DNS`: the size of a name buffer. -/
def nameDns : ℕ := 500

/-- `T_OUT`: the seconds after which a flow expires. -/
def tOut : ℤ := 300

/-- `TCP_UDP_FLOWS`: the buckets of the table of flows. -/
def tcpUdpFlows : ℕ := 2000003

/-- The largest `int`. -/
def intMax : ℕ := 2 ^ 31 - 1

/-- `struct flow`: the packet's flow, as the engine passes it around. -/
structure Flow where
  ipv : ℤ
  ipv4Src : BitVec 32
  ipv4Dst : BitVec 32
  ipv6Src : BitVec 128
  ipv6Dst : BitVec 128
  inPort : ℕ
  outPort : ℕ
  protocol : ℕ
  timestamp : ℤ
  deriving DecidableEq, Repr

/-- `struct out_interface_sett`: the settings of an output interface, less those nothing here reads.
Strings are given by their bytes before the terminator. -/
structure OutInterfaceSett where
  anonMacEnabled : ℤ := 0
  anonIpEnabled : ℤ := 0
  anonIpKeyMode : List UInt8 := []
  anonSubnetFile : List UInt8 := []
  noAnonSubnetFile : List UInt8 := []
  payloadDropEnabled : ℤ := 0
  engine : ℤ := 0
  anonExtIp : ℤ := 0
  dns : ℤ := 0
  tls : ℤ := 0
  http : ℤ := 0
  alpha : ℤ := 0
  delta : ℤ := 0
  deriving DecidableEq

/-- `struct lru`: a node of a name's user list. -/
structure Lru where
  clientHash : ℕ
  timestamp : ℤ
  prev : Option ℕ
  next : Option ℕ
  deriving DecidableEq, Repr

/-- `struct client`: a slot of a name's client list. -/
structure Client where
  active : ℤ
  ipv : ℤ
  ipv4Src : BitVec 32
  ipv4Dst : BitVec 32
  ipv6Src : BitVec 128
  ipv6Dst : BitVec 128
  inPort : ℕ
  outPort : ℕ
  protocol : ℕ
  lastSeen : ℤ
  lruPtr : Option ℕ

/-- A slot of zeroed memory. -/
def Client.zero : Client := ⟨0, 0, 0, 0, 0, 0, 0, 0, 0, 0, none⟩

/-- `struct names`: the record of a name.  `nodes` is the part of the heap with the user list: a
node is only ever reachable from the record it was allocated for.  Names are C strings, given by
their bytes before the terminator. -/
structure Names where
  name : List UInt8
  nEntry : ℤ
  nClient : ℤ
  oldest : ℤ
  prev : Option ℕ
  next : Option ℕ
  head : Option ℕ
  tail : Option ℕ
  clientList : ℕ → Client
  nodes : Arena Lru

/-- A record of zeroed memory. -/
def Names.zero : Names := ⟨[], 0, 0, 0, none, none, none, none, fun _ ↦ Client.zero, Arena.empty⟩

end AlphaMon
