import AlphaMon.CryptoIp
import AlphaMon.Memory.Relink

/-!
# The hash of addresses in memory

The macros of `uthash.h` that `crypto_ip.c` uses, on a heap: `HASH_FIND`, `HASH_ADD`, `HASH_DELETE`,
and `HASH_EXPAND_BUCKETS` with which an addition may end.  Every entry is on two doubly linked lists
at a time.  One has all entries in the order of insertion, from `head` to the `tail` of the table,
and is what `HASH_ITER` walks.  The others are the chains of the buckets, which is where `HASH_FIND`
looks.

The handle is at a fixed place of its entry, so that a pointer to the one is a pointer to the other.
The length of the keys of a hash is fixed, and two keys with the same bytes are equal.
`HASH_FUNCTION` is set to the hash of Bernstein, but only after `uthash.h` has been included, which
has taken its default, the one of Jenkins, by then.

An operation is `none` when it follows a null or dangling pointer, leaves the array of the buckets
or divides by zero.  Allocations succeed.  The counters of entries are far from their bounds.  The
number of buckets is not: it is doubled modulo `2 ^ 32`.
-/

set_option autoImplicit false

namespace AlphaMon

/-- `HASH_INITIAL_NUM_BUCKETS`. -/
def hashInitialNumBuckets : ℕ := 131072

/-- `HASH_INITIAL_NUM_BUCKETS_LOG2`. -/
def hashInitialNumBucketsLog2 : ℕ := 17

/-- `HASH_BKT_CAPACITY_THRESH`. -/
def hashBktCapacityThresh : ℕ := 10

/-! ## The hash function -/

/-- The keys of a hash, as the bytes in memory. -/
class HashKey (κ : Type) where
  bytes : κ → List UInt8

/-- The bytes of a word of a little-endian machine. -/
def addrBytes (a : BitVec 32) : List UInt8 :=
  [.ofBitVec (a.extractLsb' 0 8), .ofBitVec (a.extractLsb' 8 8), .ofBitVec (a.extractLsb' 16 8),
    .ofBitVec (a.extractLsb' 24 8)]

instance : HashKey (BitVec 32) := ⟨addrBytes⟩

instance : HashKey In6Addr :=
  ⟨fun a ↦ addrBytes a.w0 ++ addrBytes a.w1 ++ addrBytes a.w2 ++ addrBytes a.w3⟩

/-- `HASH_JEN_MIX`. -/
def hashJenMix (a b c : BitVec 32) : BitVec 32 × BitVec 32 × BitVec 32 :=
  let a := (a - b - c) ^^^ (c >>> 13)
  let b := (b - c - a) ^^^ (a <<< 8)
  let c := (c - a - b) ^^^ (b >>> 13)
  let a := (a - b - c) ^^^ (c >>> 12)
  let b := (b - c - a) ^^^ (a <<< 16)
  let c := (c - a - b) ^^^ (b >>> 5)
  let a := (a - b - c) ^^^ (c >>> 3)
  let b := (b - c - a) ^^^ (a <<< 10)
  let c := (c - a - b) ^^^ (b >>> 15)
  (a, b, c)

/-- A byte of a key, shifted into its place, if the key is long enough. -/
def keyByte (key : List UInt8) (i shift : ℕ) : BitVec 32 :=
  if i < key.length then (key.getD i 0).toBitVec.setWidth 32 <<< shift else 0

/-- Four bytes of a key. -/
def keyWord4 (key : List UInt8) (i : ℕ) : BitVec 32 :=
  keyByte key i 0 + keyByte key (i + 1) 8 + keyByte key (i + 2) 16 + keyByte key (i + 3) 24

/-- The loop of `HASH_JEN`, for `n` groups of twelve bytes from `at'` on. -/
def hashJenLoop (key : List UInt8) : ℕ → ℕ → BitVec 32 → BitVec 32 → BitVec 32 →
    BitVec 32 × BitVec 32 × BitVec 32
  | 0, _, i, j, hashv => (i, j, hashv)
  | n + 1, at', i, j, hashv =>
    let (i, j, hashv) := hashJenMix (i + keyWord4 key at') (j + keyWord4 key (at' + 4))
      (hashv + keyWord4 key (at' + 8))
    hashJenLoop key n (at' + 12) i j hashv

/-- `HASH_JEN`, without the bucket. -/
def hashJen (key : List UInt8) : BitVec 32 :=
  let (i, j, hashv) := hashJenLoop key (key.length / 12) 0 0x9e3779b9 0x9e3779b9 0xfeedbeef
  let at' := 12 * (key.length / 12)
  -- the cases of the switch fall through, so that a byte counts whenever there is one
  let hashv := hashv + .ofNat 32 key.length + keyByte key (at' + 10) 24 + keyByte key (at' + 9) 16 +
    keyByte key (at' + 8) 8
  (hashJenMix (i + keyWord4 key at') (j + keyWord4 key (at' + 4)) hashv).2.2

/-- `HASH_FCN`, without the bucket. -/
def hashFcn {κ : Type} [HashKey κ] (key : κ) : BitVec 32 := hashJen (HashKey.bytes key)

/-- `a & (n - 1)`, of unsigned numbers. -/
def mask (a : BitVec 32) (n : ℕ) : ℕ := (a &&& (.ofNat 32 n - 1)).toNat

/-- `HASH_TO_BKT`. -/
def hashToBkt (hashv : BitVec 32) (numBkts : ℕ) : ℕ := mask hashv numBkts

/-! ## Entries and tables -/

/-- `key_hashT` and `key6_hashT`: a key, its pseudonym and the handle. -/
structure KeyHash (κ : Type) where
  key : κ
  cpanAddr : κ
  tbl : Option ℕ
  prev : Option ℕ
  next : Option ℕ
  hhPrev : Option ℕ
  hhNext : Option ℕ
  hashv : BitVec 32

/-- `UT_hash_bucket`. -/
structure UtHashBucket where
  hhHead : Option ℕ
  count : ℕ
  expandMult : ℕ

/-- A bucket of zeroed memory. -/
def UtHashBucket.zero : UtHashBucket := ⟨none, 0, 0⟩

/-- `UT_hash_table`. -/
structure UtHashTable where
  buckets : Array UtHashBucket
  numBuckets : ℕ
  log2NumBuckets : ℕ
  numItems : ℕ
  tail : Option ℕ
  idealChainMaxlen : ℕ
  nonidealItems : ℕ
  ineffExpands : ℕ
  noexpand : Bool

/-- A hash: its head, with the entries and tables that are allocated. -/
structure UtHash (κ : Type) where
  elems : Arena (KeyHash κ)
  tables : Arena UtHashTable
  head : Option ℕ

/-- No hash. -/
def UtHash.null (κ : Type) : UtHash κ := ⟨Arena.empty, Arena.empty, none⟩

section Macros

variable {κ : Type} [DecidableEq κ] [HashKey κ]

/-! ## Finding -/

/-- `HASH_FIND_IN_BKT`.  It follows at most `n` links. -/
def hashFindInBkt (m : Arena (KeyHash κ)) (keyptr : κ) : ℕ → Option ℕ → Option (Option ℕ)
  | _, none => some none
  | 0, some _ => none
  | n + 1, some out => do
    let e ← m.cell out
    if e.key = keyptr then some (some out) else hashFindInBkt m keyptr n e.hhNext

/-- `HASH_FIND`. -/
def hashFindKey (self : UtHash κ) (keyptr : κ) : Option (Option ℕ) :=
  match self.head with
  | none => some none
  | some head => do
    let e ← self.elems.cell head
    let tbl ← self.tables.read e.tbl
    let bkt ← tbl.buckets[hashToBkt (hashFcn keyptr) tbl.numBuckets]?
    hashFindInBkt self.elems keyptr self.elems.fresh bkt.hhHead

/-! ## Expanding -/

/-- What `HASH_EXPAND_BUCKETS` works on: the entries, the new buckets, and
`tbl->nonideal_items`. -/
structure Expansion (κ : Type) where
  elems : Arena (KeyHash κ)
  newBuckets : Array UtHashBucket
  nonidealItems : ℕ

/-- A pass of the inner loop: `_he_thh` goes to the front of its new bucket. -/
def hashMove (newNum idealChainMaxlen : ℕ) (x : Expansion κ) (thh : ℕ) :
    Option (Option ℕ × Expansion κ) := do
  let e ← x.elems.cell thh
  let bkt := hashToBkt e.hashv newNum
  let newbkt ← x.newBuckets[bkt]?
  let count := newbkt.count + 1
  let elems ← x.elems.modify (some thh) fun e ↦ { e with hhPrev := none, hhNext := newbkt.hhHead }
  let elems ← elems.modifyIf newbkt.hhHead fun e ↦ { e with hhPrev := some thh }
  if count > idealChainMaxlen then
    if idealChainMaxlen = 0 then none
    else some (e.hhNext, ⟨elems, x.newBuckets.setIfInBounds bkt
      ⟨some thh, count, count / idealChainMaxlen⟩, x.nonidealItems + 1⟩)
  else
    some (e.hhNext, ⟨elems, x.newBuckets.setIfInBounds bkt ⟨some thh, count, newbkt.expandMult⟩,
      x.nonidealItems⟩)

/-- The inner loop: the entries of a bucket, at most `n` of them. -/
def hashMoveBucket (newNum idealChainMaxlen : ℕ) : ℕ → Expansion κ → Option ℕ → Option (Expansion κ)
  | _, x, none => some x
  | 0, _, some _ => none
  | n + 1, x, some thh => do
    let (hhNxt, x) ← hashMove newNum idealChainMaxlen x thh
    hashMoveBucket newNum idealChainMaxlen n x hhNxt

/-- The outer loop: `n` buckets from number `i` on. -/
def hashMoveBuckets (buckets : Array UtHashBucket) (newNum idealChainMaxlen : ℕ) :
    ℕ → ℕ → Expansion κ → Option (Expansion κ)
  | 0, _, x => some x
  | n + 1, i, x => do
    let bkt ← buckets[i]?
    let x ← hashMoveBucket newNum idealChainMaxlen x.elems.fresh x bkt.hhHead
    hashMoveBuckets buckets newNum idealChainMaxlen n (i + 1) x

/-- `HASH_EXPAND_BUCKETS`. -/
def hashExpandBuckets (self : UtHash κ) (tbl : Option ℕ) : Option (UtHash κ) := do
  let t ← self.tables.read tbl
  let newNum := 2 * t.numBuckets % 2 ^ 32
  let idealChainMaxlen := t.numItems >>> (t.log2NumBuckets + 1) +
    if mask (.ofNat 32 t.numItems) newNum ≠ 0 then 1 else 0
  let x ← hashMoveBuckets t.buckets newNum idealChainMaxlen t.numBuckets 0
    ⟨self.elems, Array.replicate newNum .zero, 0⟩
  let ineffExpands := if x.nonidealItems > t.numItems >>> 1 then t.ineffExpands + 1 else 0
  let tables ← self.tables.modify tbl fun t ↦ { t with
    buckets := x.newBuckets
    numBuckets := newNum
    log2NumBuckets := t.log2NumBuckets + 1
    idealChainMaxlen := idealChainMaxlen
    nonidealItems := x.nonidealItems
    ineffExpands := ineffExpands
    noexpand := if ineffExpands > 1 then true else t.noexpand }
  some { self with elems := x.elems, tables := tables }

/-! ## Adding -/

/-- `HASH_ADD_TO_BKT`, for bucket `bkt` of the table. -/
def hashAddToBkt (self : UtHash κ) (tbl : Option ℕ) (bkt addhh : ℕ) : Option (UtHash κ) := do
  let t ← self.tables.read tbl
  let head ← t.buckets[bkt]?
  let count := head.count + 1
  let elems ← self.elems.modify (some addhh) fun e ↦
    { e with hhNext := head.hhHead, hhPrev := none }
  let elems ← elems.modifyIf head.hhHead fun e ↦ { e with hhPrev := some addhh }
  let tables ← self.tables.modify tbl fun t ↦ { t with
    buckets := t.buckets.setIfInBounds bkt ⟨some addhh, count, head.expandMult⟩ }
  let self := { self with elems := elems, tables := tables }
  let add ← elems.cell addhh
  let t ← tables.read add.tbl
  if count ≥ (head.expandMult + 1) * hashBktCapacityThresh ∧ t.noexpand = false then
    hashExpandBuckets self add.tbl
  else some self

/-- `HASH_MAKE_TABLE`, for a head that has just been set. -/
def hashMakeTable (self : UtHash κ) (head : ℕ) : Option (UtHash κ) := do
  let tables := self.tables.alloc
    ⟨Array.replicate hashInitialNumBuckets .zero, hashInitialNumBuckets, hashInitialNumBucketsLog2,
      0,
      some head, 0, 0, 0, false⟩
  let elems ← self.elems.modify (some head) fun e ↦ { e with tbl := some self.tables.fresh }
  some { self with elems := elems, tables := tables }

/-- The first half of `HASH_ADD_KEYPTR`: the entry goes to the end of the order of insertion. -/
def hashAppend (self : UtHash κ) (add : ℕ) : Option (UtHash κ) := do
  let elems ← self.elems.modify (some add) fun e ↦ { e with next := none }
  match self.head with
  | none =>
    let elems ← elems.modify (some add) fun e ↦ { e with prev := none }
    hashMakeTable { self with elems := elems, head := some add } add
  | some head =>
    let hd ← elems.cell head
    let t ← self.tables.read hd.tbl
    let elems ← elems.modify t.tail fun e ↦ { e with next := some add }
    let elems ← elems.modify (some add) fun e ↦ { e with prev := t.tail }
    let tables ← self.tables.modify hd.tbl fun t ↦ { t with tail := some add }
    some { self with elems := elems, tables := tables }

/-- `HASH_ADD_KEYPTR`, for an entry that holds its key. -/
def hashAddKeyptr (self : UtHash κ) (add : ℕ) : Option (UtHash κ) := do
  let self ← hashAppend self add
  let hd ← self.elems.read self.head
  let tables ← self.tables.modify hd.tbl fun t ↦ { t with numItems := t.numItems + 1 }
  let t ← tables.read hd.tbl
  let elems ← self.elems.modify (some add) fun e ↦ { e with tbl := hd.tbl, hashv := hashFcn e.key }
  let e ← elems.cell add
  hashAddToBkt { self with elems := elems, tables := tables } hd.tbl
    (hashToBkt e.hashv t.numBuckets) add

/-! ## Deleting -/

/-- `HASH_DEL_IN_BKT`. -/
def hashDelInBkt (self : UtHash κ) (tbl : Option ℕ) (bkt hhDel : ℕ) : Option (UtHash κ) := do
  let t ← self.tables.read tbl
  let head ← t.buckets[bkt]?
  let del ← self.elems.cell hhDel
  let hhHead := if head.hhHead = some hhDel then del.hhNext else head.hhHead
  let elems ← self.elems.modifyIf del.hhPrev fun e ↦ { e with hhNext := del.hhNext }
  let elems ← elems.modifyIf del.hhNext fun e ↦ { e with hhPrev := del.hhPrev }
  let tables ← self.tables.modify tbl fun t ↦ { t with
    buckets := t.buckets.setIfInBounds bkt ⟨hhHead, head.count - 1, head.expandMult⟩ }
  some { self with elems := elems, tables := tables }

/-- The order of insertion without `delptr`: the second half of `HASH_DELETE`, up to the buckets.
None of the writes is to `delptr` itself, which is read once. -/
def hashUnlink (self : UtHash κ) (delptr : ℕ) (del : KeyHash κ) : Option (UtHash κ) := do
  let hd ← self.elems.read self.head
  let tables ← self.tables.modify hd.tbl fun t ↦ { t with
    tail := if t.tail = some delptr then del.prev else t.tail }
  let head := if del.prev.isSome then self.head else del.next
  let elems ← self.elems.modifyIf del.prev fun e ↦ { e with next := del.next }
  let elems ← elems.modifyIf del.next fun e ↦ { e with prev := del.prev }
  some ⟨elems, tables, head⟩

/-- `HASH_DELETE`. -/
def hashDelete (self : UtHash κ) (delptr : ℕ) : Option (UtHash κ) := do
  let del ← self.elems.cell delptr
  if del.prev = none ∧ del.next = none then
    let hd ← self.elems.read self.head
    let tables ← self.tables.free hd.tbl
    some { self with tables := tables, head := none }
  else
    let self ← hashUnlink self delptr del
    let hd ← self.elems.read self.head
    let t ← self.tables.read hd.tbl
    let self ← hashDelInBkt self hd.tbl (hashToBkt del.hashv t.numBuckets) delptr
    let tables ← self.tables.modify hd.tbl fun t ↦ { t with numItems := t.numItems - 1 }
    some { self with tables := tables }

/-- `HASH_COUNT`. -/
def hashCount (self : UtHash κ) : Option ℕ :=
  match self.head with
  | none => some 0
  | some head => do
    let e ← self.elems.cell head
    let t ← self.tables.read e.tbl
    some t.numItems

/-! ## The addresses -/

/-- `add_address` and `add_address6`: an entry is added, and the first one is dropped and freed if
the hash is over its size. -/
def addAddressUt (self : UtHash κ) (src cpanAddr : κ) : Option (UtHash κ) := do
  let s := self.elems.fresh
  let self ← hashAddKeyptr
    { self with elems := self.elems.alloc ⟨src, cpanAddr, none, none, none, none, none, 0⟩ } s
  let count ← hashCount self
  if count > maxCryptioCacheSize then
    match self.head with
    | none => some self
    | some s =>
      let self ← hashDelete self s
      let elems ← self.elems.free (some s)
      some { self with elems := elems }
  else some self

/-- `find_address` and `find_address6`: an entry that is found is moved to the end. -/
def findAddressUt (self : UtHash κ) (src : κ) : Option (Option (KeyHash κ) × UtHash κ) := do
  match ← hashFindKey self src with
  | none => some (none, self)
  | some s =>
    let self ← hashDelete self s
    let self ← hashAddKeyptr self s
    let e ← self.elems.cell s
    some (some e, self)

end Macros

end AlphaMon
