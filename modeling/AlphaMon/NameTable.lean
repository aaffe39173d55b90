import AlphaMon.HashCalculator
import AlphaMon.Lru

/-!
# The table of names

`table_add` of `proto_mng.c`.  The table has a bucket for each hash of a name: a record embedded in
the table itself, to which further records are chained, and a count of the records.  A call looks
for the record of its name, on two draws out of three prunes and deletes the records it passes on
the way, and then references the caller in the record found or in a new one.

The definitions follow the C on the arena `Bucket.mem`, in which address `0` is the embedded record.
The time stamp counter and the outcomes of the two `malloc`s a call can make are arguments
(`TableEnv`).  A result of `none` is a null or dangling pointer followed, or a name copied into a
record whose buffer is too short for it.

The three searches stop where the C loops stop.  The loop of the partial clean compares the number
of iterations with a count that it lowers with every record it deletes, so that it can stop before
it has seen the whole chain; what follows from this is the subject of `AlphaMon.RandomCleaning`.
-/

set_option autoImplicit false

namespace AlphaMon

/-- A bucket: `bitMap[hash].number`, and the memory of the records, the embedded one at `0`. -/
structure Bucket where
  number : ℤ
  mem : Arena Names

/-- A bucket as `table_init` leaves it, in zeroed memory. -/
def Bucket.init : Bucket := ⟨0, ⟨fun a ↦ if a = 0 then some Names.zero else none, 1⟩⟩

/-- `hash_struct`: the buckets by the hash of the name. -/
abbrev HashStruct := ℕ → Bucket

/-- `table_init`. -/
def tableInit : HashStruct := fun _ ↦ Bucket.init

/-- What a call of `table_add` gets from outside: the time stamp counter, and whether the `malloc`
of a name record and of a user node succeed. -/
structure TableEnv where
  tsc : ℕ
  allocNames : Bool := true
  allocLru : Bool := true

/-- The draw of `table_add`, from 0 to 99: bits 16 to 30 of a 32-bit product, modulo 100. -/
def probability (tsc : ℕ) : ℕ := (214013 * tsc + 2531011) % 2 ^ 32 / 2 ^ 16 % 2 ^ 15 % 100

/-! ## The three searches -/

/-- The search without cleaning, with the number of iterations left; the result is the record it
stopped at and whether that is the one looked for. -/
def searchLoop (mem : Arena Names) (name : List UInt8) : ℕ → ℕ → Option (ℕ × Bool)
  | 0, curr => some (curr, false)
  | left + 1, curr => do
    let c ← mem.cell curr
    if c.name = name then some (curr, true)
    else match c.next with
      | some nx => searchLoop mem name left nx
      | none => some (curr, false)

/-- Delete the record `tmp`, which is followed by `curr` and is not the first. -/
def deleteRecord (b : Bucket) (tmp curr : ℕ) : Option Bucket := do
  let t ← b.mem.read (some tmp)
  let p ← b.mem.read t.prev
  let mem ← (if p.prev ≠ none then do
      let c ← b.mem.read (some curr)
      let cp ← b.mem.read c.prev
      let mem ← b.mem.modify cp.prev fun r ↦ { r with next := some curr }
      let c ← mem.read (some curr)
      let cp ← mem.read c.prev
      mem.modify (some curr) fun r ↦ { r with prev := cp.prev }
    else do
      let mem ← b.mem.modify t.prev fun r ↦ { r with next := some curr }
      let t ← mem.read (some tmp)
      mem.modify (some curr) fun r ↦ { r with prev := t.prev })
  let mem ← mem.free (some tmp)
  some ⟨b.number - 1, mem⟩

/-- The loop of the partial clean.  `fuel` bounds the iterations left; the C loop is bounded by
`number` alone. -/
def partialCleanLoop (name : List UInt8) (timestamp kDelta : ℤ) :
    ℕ → ℕ → ℕ → Bucket → Option (Bucket × ℕ × Bool)
  | 0, i, curr, b => if (i : ℤ) < b.number then none else some (b, curr, false)
  | fuel + 1, i, curr, b =>
    if (i : ℤ) < b.number then do
      let c ← b.mem.cell curr
      if c.name = name then some (b, curr, true)
      else match c.next with
        | none => some (b, curr, false)
        | some nx =>
          if i ≠ 0 then do
            let c ← (if c.nEntry > 0 then prune c timestamp kDelta else some c)
            let mem ← b.mem.modify (some curr) fun _ ↦ c
            if c.nEntry ≤ 0 then do
              let b ← deleteRecord ⟨b.number, mem⟩ curr nx
              partialCleanLoop name timestamp kDelta fuel (i + 1) nx b
            else partialCleanLoop name timestamp kDelta fuel (i + 1) nx ⟨b.number, mem⟩
          else partialCleanLoop name timestamp kDelta fuel (i + 1) nx b
    else some (b, curr, false)

/-- The loop of the complete clean.  `curr` is the cursor and `currName`, `found` the result so far;
`i` is the index of the other two searches, which this one reads before anything has set it. -/
def completeCleanLoop (name : List UInt8) (timestamp kDelta : ℤ) :
    ℕ → ℕ → ℕ → ℕ → ℕ → Bool → Bucket → Option (Bucket × ℕ × Bool)
  | 0, j, _, _, currName, found, b => if (j : ℤ) < b.number then none else some (b, currName, found)
  | fuel + 1, j, i, curr, currName, found, b =>
    if (j : ℤ) < b.number then do
      let c ← b.mem.cell curr
      if c.name = name then completeCleanLoop name timestamp kDelta fuel (j + 1) j curr curr true b
      else match c.next with
        | none => some (b, currName, found)
        | some nx =>
          if i ≠ 0 then do
            let c ← prune c timestamp kDelta
            let mem ← b.mem.modify (some curr) fun _ ↦ c
            if c.nEntry ≤ 0 then do
              let b ← deleteRecord ⟨b.number, mem⟩ curr nx
              completeCleanLoop name timestamp kDelta fuel (j + 1) i nx currName found b
            else
              completeCleanLoop name timestamp kDelta fuel (j + 1) i nx currName found
                ⟨b.number, mem⟩
          else completeCleanLoop name timestamp kDelta fuel (j + 1) i nx currName found b
    else some (b, currName, found)

/-- Is the draw one of a partial clean?  The C writes `33 <= probability <= 66`, which compares the
truth value of the first comparison with 66. -/
def drawsPartial (p : ℕ) : Bool := decide ((if 33 ≤ p then 1 else 0) ≤ 66)

/-- The search of a call: no clean, partial clean or complete clean.  The initial value of the index
in the last one is left open by the C. -/
def searchName (b : Bucket) (name : List UInt8) (timestamp kDelta : ℤ) (tsc : ℕ) :
    Option (Bucket × ℕ × Bool) :=
  if probability tsc < 33 then do
    let (curr, found) ← searchLoop b.mem name b.number.toNat 0
    some (b, curr, found)
  else if drawsPartial (probability tsc) then
    partialCleanLoop name timestamp kDelta b.number.toNat 0 0 b
  else completeCleanLoop name timestamp kDelta b.number.toNat 0 0 0 0 false b

/-! ## The call -/

/-- A freshly allocated name record, with its client list cleared. -/
def newName (name : List UInt8) (prev : ℕ) (timestamp : ℤ) : Names :=
  { Names.zero with name := name, prev := some prev, oldest := timestamp }

@[simp] theorem newName_name (name : List UInt8) (prev : ℕ) (timestamp : ℤ) :
    (newName name prev timestamp).name = name := rfl

@[simp] theorem newName_prev (name : List UInt8) (prev : ℕ) (timestamp : ℤ) :
    (newName name prev timestamp).prev = some prev := rfl

@[simp] theorem newName_next (name : List UInt8) (prev : ℕ) (timestamp : ℤ) :
    (newName name prev timestamp).next = none := rfl

/-- `strcpy(names->name, name)`: the buffer of a record has `nameDns` bytes, and the copy writes the
NUL too. -/
def strcpyName (name : List UInt8) : Option (List UInt8) :=
  if name.length < nameDns then some name else none

@[simp] theorem strcpyName_of_lt {name : List UInt8} (h : name.length < nameDns) :
    strcpyName name = some name := if_pos h

@[simp] theorem strcpyName_of_le {name : List UInt8} (h : nameDns ≤ name.length) :
    strcpyName name = none := if_neg (Nat.not_lt.2 h)

/-- The part of `table_add` between taking and releasing the lock of the bucket. -/
def tableAddBucket (b : Bucket) (flowRecv : Flow) (name : List UInt8) (userHash : ℕ)
    (kAnon kDelta : ℤ) (env : TableEnv) : Option (Bucket × ℤ) := do
  let (b, currName, found) ← searchName b name flowRecv.timestamp kDelta env.tsc
  if found then do
    let c ← b.mem.cell currName
    let c ← referencePage env.allocLru c flowRecv userHash kAnon kDelta
    let mem ← b.mem.modify (some currName) fun _ ↦ c
    some (⟨b.number, mem⟩, c.nEntry)
  else if b.number = 0 then do
    let c ← b.mem.cell 0
    let name ← strcpyName name
    let c : Names := { c with
      name := name, oldest := flowRecv.timestamp, prev := none, next := none, nEntry := 0 }
    let c ← referencePage env.allocLru c flowRecv userHash kAnon kDelta
    let mem ← b.mem.modify (some 0) fun _ ↦ c
    some (⟨b.number + 1, mem⟩, c.nEntry)
  else if env.allocNames then do
    let mem ← b.mem.modify (some currName) fun c ↦ { c with next := some b.mem.fresh }
    let name ← strcpyName name
    let c ← referencePage env.allocLru (newName name currName flowRecv.timestamp) flowRecv userHash
      kAnon kDelta
    some (⟨b.number + 1, mem.alloc c⟩, c.nEntry)
  else some (b, 0)

/-- The address a call counts: the IPv4 source, or the IPv6 source of an IPv6 flow.  (For any other
version the C leaves the user hash unset; the engine makes only IPv4 flows.) -/
def Flow.source (f : Flow) : BitVec 128 := if f.ipv = 4 then f.ipv4Src.setWidth 128 else f.ipv6Src

/-- The slot of the caller. -/
def Flow.userHash (f : Flow) : ℕ := getHashClient f.source maxClient

/-- `table_add`: count the source of a flow as a user of a name. -/
def tableAdd (flowDb : HashStruct) (flowRecv : Flow) (name : List UInt8) (kAnon kDelta : ℤ)
    (env : TableEnv) : Option (HashStruct × ℤ) := do
  let hash := nameHash name
  let (b, ret) ← tableAddBucket (flowDb hash) flowRecv name flowRecv.userHash kAnon kDelta env
  some (Function.update flowDb hash b, ret)

/-- The name has its users: with one more it is counted for no fewer than the threshold. -/
def Popular (flowDb : HashStruct) (flowRecv : Flow) (name : List UInt8) (kAnon kDelta : ℤ)
    (env : TableEnv) :
    Prop :=
  ∀ db ret, tableAdd flowDb flowRecv name kAnon kDelta env = some (db, ret) → kAnon ≤ ret

end AlphaMon
