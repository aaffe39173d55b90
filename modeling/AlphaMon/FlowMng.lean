import AlphaMon.HashCalculator
import AlphaMon.NameTable

/-!
# The table of flows

`flow_mng.c`.  Like the table of names, the table of flows has a bucket for each hash, with a record
embedded in the table and further ones chained to it.  `reference_flow` walks the chain until it
comes to a record that matches the packet and, when a draw says so, deletes on the way the records
of flows that have expired; if it comes to none it reuses the embedded record, when that has
expired, or chains a new one.

The definitions follow the C on the arena of a bucket, in which address `0` is the embedded record.
A result of `none` is a null, dangling or unset pointer followed.  When the walk deletes a record it
moves to the next one and then, at the end of the same iteration, past it.
-/

set_option autoImplicit false

namespace AlphaMon

/-- `struct table_flow`, without its links. -/
structure FlowRec where
  ipv : ℤ
  ipv4Src : BitVec 32
  ipv4Dst : BitVec 32
  ipv4Anon : BitVec 32
  ipv6Src : BitVec 128
  ipv6Dst : BitVec 128
  ipv6Anon : BitVec 128
  inPort : ℕ
  outPort : ℕ
  protocol : ℕ
  timestamp : ℤ
  toAnon : ℤ
  deriving DecidableEq, Repr

/-- `struct table_flow`. -/
structure TableFlow extends FlowRec where
  prev : Option ℕ
  next : Option ℕ

/-- `flow_struct`: the buckets by the hash of the flow. -/
abbrev FlowTable := ℕ → Arena TableFlow

/-- An embedded record as `flow_table_init` leaves it, in zeroed memory. -/
def FlowRec.init : FlowRec := ⟨0, 0, 0, 0, 0, 0, 0, 0, 0, 0, 0, -1⟩

/-- `flow_table_init`. -/
def flowTableInit : FlowTable :=
  fun _ ↦ ⟨fun a ↦ if a = 0 then some ⟨FlowRec.init, none, none⟩ else none, 1⟩

/-- The bucket of a flow. -/
def Flow.bucket (data : Flow) : ℕ :=
  if data.ipv = 4 then
    getHash (data.ipv4Src.setWidth 128) (data.ipv4Dst.setWidth 128) data.inPort data.outPort
      data.protocol tcpUdpFlows
  else
    getHash data.ipv6Src data.ipv6Dst data.inPort data.outPort data.protocol tcpUdpFlows

/-- The test of `reference_flow`: the two addresses and, independently, the two ports are those of
the packet in one order or the other. -/
def FlowRec.Matches (c : FlowRec) (data : Flow) : Prop :=
  (c.ipv4Src = data.ipv4Src ∧ c.ipv4Dst = data.ipv4Dst ∨
    c.ipv4Src = data.ipv4Dst ∧ c.ipv4Dst = data.ipv4Src) ∧
  (c.inPort = data.inPort ∧ c.outPort = data.outPort ∨
    c.outPort = data.inPort ∧ c.inPort = data.outPort) ∧
  c.protocol = data.protocol

instance (c : FlowRec) (data : Flow) : Decidable (c.Matches data) :=
  inferInstanceAs (Decidable (_ ∧ _ ∧ _))

/-- The flow of the record has expired at time `t`. -/
def FlowRec.Expired (c : FlowRec) (t : ℤ) : Prop := t - c.timestamp > tOut

instance (c : FlowRec) (t : ℤ) : Decidable (c.Expired t) := inferInstanceAs (Decidable (_ > _))

/-- The fields a record gets for a new flow.  (The C stores `ipv4_dst` twice and leaves `ipv6_dst`
and the pseudonyms as they are.) -/
def FlowRec.fill (r : FlowRec) (data : Flow) : FlowRec :=
  { r with
    ipv := data.ipv
    ipv4Src := data.ipv4Src
    ipv4Dst := data.ipv4Dst
    ipv6Src := data.ipv6Src
    inPort := data.inPort
    outPort := data.outPort
    protocol := data.protocol
    timestamp := data.timestamp
    toAnon := -1 }

/-- The record with the time of the packet. -/
def FlowRec.touch (r : FlowRec) (t : ℤ) : FlowRec := { r with timestamp := t }

/-- What a call of `reference_flow` gets from outside: the time stamp counter, and what `malloc`
leaves in the block of a new record, if it succeeds. -/
structure FlowEnv where
  tsc : ℕ
  malloc : Option FlowRec := some FlowRec.init

/-- Does the draw start a garbage collection?  It does so in 49 cases out of 100. -/
def FlowEnv.collects (env : FlowEnv) : Bool := decide (probability env.tsc > 50)

/-- Delete the record `tmp`, which is not the first, and which is followed by `curr`. -/
def deleteFlow (mem : Arena TableFlow) (tmp : ℕ) (curr : Option ℕ) : Option (Arena TableFlow) := do
  let t ← mem.cell tmp
  let p ← mem.read t.prev
  let mem ← (if p.prev ≠ none then do
      let c ← mem.read curr
      let cp ← mem.read c.prev
      let mem ← mem.modify cp.prev fun r ↦ { r with next := curr }
      let c ← mem.read curr
      let cp ← mem.read c.prev
      mem.modify curr fun r ↦ { r with prev := cp.prev }
    else do
      let mem ← mem.modify t.prev fun r ↦ { r with next := curr }
      let t ← mem.cell tmp
      mem.modify curr fun r ↦ { r with prev := t.prev })
  mem.free (some tmp)

/-- Garbage collection at the record `curr`, whose contents are `c`: the memory, the cursor and
`first_free` afterwards. -/
def collect (data : Flow) (gc : Bool) (mem : Arena TableFlow) (curr : ℕ) (c : TableFlow)
    (firstFree : Bool) : Option (Arena TableFlow × Option ℕ × Bool) :=
  if gc = true ∧ c.Expired data.timestamp then
    if c.prev ≠ none then do
      let mem ← deleteFlow mem curr c.next
      some (mem, c.next, firstFree)
    else some (mem, some curr, true)
  else some (mem, some curr, firstFree)

/-- The walk of `reference_flow`: the record found, or `last` and `first_free` at the end of the
chain.  `fuel` bounds the number of iterations; the C loop is bounded by the chain. -/
def flowLoop (data : Flow) (gc : Bool) : ℕ → Option ℕ → Option ℕ → Bool → Arena TableFlow →
    Option (Arena TableFlow × (ℕ ⊕ Option ℕ × Bool))
  | _, none, last, firstFree, mem => some (mem, .inr (last, firstFree))
  | 0, some _, _, _, _ => none
  | fuel + 1, some curr, last, firstFree, mem => do
    let c ← mem.cell curr
    if c.Matches data then do
      let mem ← mem.modify (some curr) fun r ↦ { r with timestamp := data.timestamp }
      some (mem, .inl curr)
    else do
      let (mem, curr, firstFree) ← collect data gc mem curr c firstFree
      let c ← mem.read curr
      flowLoop data gc fuel c.next (if c.next = none then curr else last) firstFree mem

/-- The part of `reference_flow` between taking and releasing the lock of the bucket: the memory and
the address of the record returned. -/
def referenceFlowBucket (mem : Arena TableFlow) (data : Flow) (env : FlowEnv) :
    Option (Arena TableFlow × ℕ) := do
  match ← flowLoop data env.collects (mem.fresh + 1) (some 0) none false mem with
  | (mem, .inl curr) => some (mem, curr)
  | (mem, .inr (last, firstFree)) =>
    if firstFree then do
      let mem ← mem.modify (some 0) fun r ↦ { r with toFlowRec := r.toFlowRec.fill data }
      some (mem, 0)
    else do
      let junk ← env.malloc
      let mem' ← mem.modify last fun r ↦ { r with next := some mem.fresh }
      some (mem'.alloc ⟨junk.fill data, last, none⟩, mem.fresh)

/-- `reference_flow`: the record of a packet's flow, given by its address in the bucket of the
flow. -/
def referenceFlow (flowStruct : FlowTable) (data : Flow) (env : FlowEnv) :
    Option (FlowTable × ℕ) := do
  let hash := data.bucket
  let (mem, curr) ← referenceFlowBucket (flowStruct hash) data env
  some (Function.update flowStruct hash mem, curr)

end AlphaMon
