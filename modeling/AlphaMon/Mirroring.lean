import Mathlib.Data.Finset.Lattice.Fold
import Mathlib.Order.Lattice.Nat
import AlphaMon.Memory.SegmentPool
import AlphaMon.TrafficAnon

/-!
# Copies of packets

`main_loop` in its own terms: a packet is a chain of segments, `process_packet` works on the
segments it is handed, and for all destinations but the last it is handed a deep copy, whose
segments come from a pool.  When the pool runs dry the part of the copy there is is freed and the
allocation tried again.  That loop forgets to start the copy again: `mirror_mbuf` stays null, and
the tail pointer in a segment that is no longer its own.

So every destination gets every packet as it was received exactly when no allocation fails but for
first segments (`mirroring`), and then in the order of `fanOut` (`handed_eq_fanOut`).
-/

set_option autoImplicit false

namespace AlphaMon

open SegmentPool

/-! ## The code -/

/-- What an `rte_mbuf` holds, less its link; `data` are the `data_len` bytes of the segment. -/
structure MbufVal where
  dataOff : ℕ
  port : ℕ
  vlanTci : ℕ
  txOffload : ℕ
  hash : ℕ
  pktLen : ℕ
  nbSegs : ℕ
  olFlags : ℕ
  packetType : ℕ
  data : List UInt8

/-- The local variables of a deep copy: the memory, `mirror_mbuf`, and the segment whose link
`mirror_mbufs` points to (at first it points to `mirror_mbuf`). -/
structure Mirror where
  mem : Mem MbufVal
  mirror : Option ℕ
  tail : Option ℕ

/-- The loop around `rte_pktmbuf_alloc`, which fails the given number of times. -/
def allocRetry (pool : Pool MbufVal) : ℕ → Mirror → Option (Mirror × ℕ)
  | 0, s => some ({ s with mem := s.mem.alloc pool }, pool.take s.mem)
  | failures + 1, s => do
    let mem ← s.mem.free (s.mem.used.card + 1) s.mirror
    allocRetry pool failures { s with mem := mem, mirror := none }

/-- Fill a copy of the segment `org` and link it. -/
def copySegment (org copy : ℕ) (s : Mirror) : Mirror :=
  let o := (s.mem.seg org).val
  let mem := s.mem.set copy ⟨{
    dataOff := o.dataOff
    port := o.port
    vlanTci := o.vlanTci
    txOffload := o.txOffload
    hash := o.hash
    pktLen := o.pktLen
    nbSegs := o.nbSegs
    olFlags := o.olFlags
    packetType := o.packetType
    data := o.data }, none⟩
  match s.tail with
  | none => ⟨mem, some copy, some copy⟩
  | some a => ⟨mem.set a ⟨(mem.seg a).val, some copy⟩, s.mirror, some copy⟩

/-- The deep copy, from the segment `org` on, which is the `i`-th of the packet. -/
def copyLoop (pool : Pool MbufVal) (failures : ℕ → ℕ) : ℕ → ℕ → ℕ → Mirror → Option Mirror
  | 0, _, _, _ => none
  | fuel + 1, i, org, s => do
    let (s, copy) ← allocRetry pool (failures i) s
    let s := copySegment org copy s
    match (s.mem.seg org).next with
    | none => some s
    | some org => copyLoop pool failures fuel (i + 1) org s

/-- A destination: the output interface, and how often the allocation fails for a segment of a
packet, given by their positions. -/
structure Destination where
  port : ℕ
  failures : ℕ → ℕ → ℕ

/-- The memory, the state of `process_packet`, and the packets handed to it, each with the output
interface. -/
structure MirrorState (σ : Type) where
  mem : Mem MbufVal
  world : σ
  handed : List (ℕ × List MbufVal)

section MainLoop

variable {σ : Type} (pool : Pool MbufVal) (process : σ → ℕ → List MbufVal → σ × (ℕ → MbufVal))

/-- Hand a packet to `process_packet`, which can not do with a null pointer, and send it. -/
def handOver (port : ℕ) (packet : Option ℕ) (s : MirrorState σ) : Option (MirrorState σ) :=
  if packet = none then none
  else do
    let l ← s.mem.addresses (s.mem.used.card + 1) packet
    let vals := l.map fun a ↦ (s.mem.seg a).val
    let (world, vals') := process s.world port vals
    some ⟨(s.mem.setVals vals' 0 l).release l, world, s.handed ++ [(port, vals)]⟩

/-- The packets of a burst for the last destination, from the `k`-th on: they are not copied. -/
def lastLoop (port : ℕ) : List ℕ → MirrorState σ → Option (MirrorState σ)
  | [], s => some s
  | a :: burst, s => do
    let s ← handOver process port (some a) s
    lastLoop port burst s

/-- The packets of a burst for another destination. -/
def mirrorLoop (d : Destination) : ℕ → List ℕ → MirrorState σ → Option (MirrorState σ)
  | _, [], s => some s
  | k, a :: burst, s => do
    let c ← copyLoop pool (d.failures k) (s.mem.used.card + 1) 0 a ⟨s.mem, none, none⟩
    let s ← handOver process d.port c.mirror { s with mem := c.mem }
    mirrorLoop d (k + 1) burst s

/-- The loop over the destinations of an input interface, for a burst of packets. -/
def destinationLoop (burst : List ℕ) : List Destination → MirrorState σ → Option (MirrorState σ)
  | [], s => some s
  | [d], s => lastLoop process d.port burst s
  | d :: dests, s => do
    let s ← mirrorLoop pool process d 0 burst s
    destinationLoop burst dests s

end MainLoop

/-! ## One copy -/

variable (pool : Pool MbufVal) {m : Mem MbufVal} {s s' : Mirror} {c l : List ℕ}
  {vals : List MbufVal}

/-- The segments `c` are the copy so far, they hold `vals`, and nothing that was in use in `m` has
changed. -/
structure Mirror.Copies (m : Mem MbufVal) (c : List ℕ) (vals : List MbufVal) (s : Mirror) :
    Prop where
  chain : Chained s.mem s.mirror c
  tail : s.tail = c.getLast?
  nodup : c.Nodup
  fresh : ∀ a ∈ c, a ∉ m.used
  inUse : ∀ a ∈ c, a ∈ s.mem.used
  vals : c.map (fun a ↦ (s.mem.seg a).val) = vals
  keeps : Keeps m s.mem

theorem Mirror.copies_init (m : Mem MbufVal) : Mirror.Copies m [] [] ⟨m, none, none⟩ :=
  ⟨chained_none m, rfl, .nil, by simp, by simp, rfl, .refl m⟩

/-- As long as there is no copy, a failure is harmless. -/
theorem allocRetry_of_none (h : s.mirror = none) (failures : ℕ) :
    allocRetry pool failures s = some ({ s with mem := s.mem.alloc pool }, pool.take s.mem) := by
  obtain ⟨mem, mirror, tail⟩ := s
  obtain rfl : mirror = none := h
  induction failures with
  | zero => rfl
  | succ failures ih =>
    rw [allocRetry, Mem.free_none]
    exact ih

/-- **A segment is copied** behind the copy so far. -/
theorem Mirror.Copies.copySegment (h : s.Copies m c vals) {org : ℕ} (horg : org ∈ m.used) :
    (AlphaMon.copySegment org (pool.take s.mem) { s with mem := s.mem.alloc pool }).Copies m
      (c ++ [pool.take s.mem]) (vals ++ [(m.seg org).val]) := by
  have hnew : pool.take s.mem ∉ s.mem.used := pool.notMem s.mem
  rw [← h.keeps.seg org horg]
  obtain ⟨mem, mirror, tail⟩ := s
  generalize hb : pool.take mem = b at hnew
  have hbm : b ∉ m.used := fun hmem ↦ hnew (h.keeps.used hmem)
  have hbc : b ∉ c := fun hmem ↦ hnew (h.inUse b hmem)
  let mem₁ : Mem MbufVal := (mem.alloc pool).set b ⟨(mem.seg org).val, none⟩
  have hself : mem₁.seg b = ⟨(mem.seg org).val, none⟩ := Mem.set_seg_self ..
  have hne : ∀ x, x ≠ b → mem₁.seg x = mem.seg x := fun x hx ↦ Mem.set_seg_of_ne _ hx _
  have hvals : c.map (fun x ↦ (mem₁.seg x).val) = vals := by
    rw [← h.vals]
    exact List.map_congr_left fun x hx ↦ by rw [hne x (ne_of_mem_of_not_mem hx hbc)]
  have hbused : b ∈ mem₁.used := hb ▸ Finset.mem_insert_self ..
  have hused : ∀ x ∈ mem.used, x ∈ mem₁.used := fun x hx ↦ Finset.mem_insert_of_mem hx
  have hkeeps : Keeps m mem₁ := {
    seg := fun x hx ↦ (hne x (ne_of_mem_of_not_mem hx hbm)).trans (h.keeps.seg x hx)
    used := fun x hx ↦ hused x (h.keeps.used hx)
    freed := h.keeps.freed }
  rcases c.eq_nil_or_concat' with rfl | ⟨c, a, rfl⟩
  · obtain rfl : tail = none := h.tail
    change Mirror.Copies m _ _ ⟨mem₁, some b, some b⟩
    exact {
      chain := ⟨rfl, by rw [hself]; rfl⟩
      tail := rfl
      nodup := List.nodup_singleton b
      fresh := by simpa using hbm
      inUse := by simpa using hbused
      vals := by simp [← hvals, hself]
      keeps := hkeeps }
  · obtain rfl : tail = some a := h.tail.trans List.getLast?_concat
    change Mirror.Copies m _ _ ⟨mem₁.set a ⟨(mem₁.seg a).val, some b⟩, mirror, some b⟩
    have hval : ∀ x, ((mem₁.set a ⟨(mem₁.seg a).val, some b⟩).seg x).val = (mem₁.seg x).val := by
      intro x
      by_cases hx : x = a
      · rw [hx, Mem.set_seg_self]
      · rw [Mem.set_seg_of_ne _ hx]
    have ham : a ∉ m.used := h.fresh a (by simp)
    have hac : a ∉ c := by
      have := h.nodup
      rw [List.nodup_append] at this
      exact fun hmem ↦ this.2.2 a hmem a (List.mem_singleton_self a) rfl
    have hchain : Chained mem₁ mirror (c ++ [a]) :=
      h.chain.congr fun x hx ↦ hne x (ne_of_mem_of_not_mem hx hbc)
    exact {
      chain := hchain.concat hac hbc (by rw [hself])
      tail := List.getLast?_concat.symm
      nodup := List.Nodup.append h.nodup (List.nodup_singleton b) (by simpa using hbc)
      fresh := by
        intro x hx
        rcases List.mem_append.1 hx with hx | hx
        · exact h.fresh x hx
        · exact List.mem_singleton.1 hx ▸ hbm
      inUse := by
        intro x hx
        rcases List.mem_append.1 hx with hx | hx
        · exact hused x (h.inUse x hx)
        · exact List.mem_singleton.1 hx ▸ hbused
      vals := by
        rw [List.map_append]
        simp only [hval, hvals]
        simp [hself]
      keeps := {
        seg := fun x hx ↦ (Mem.set_seg_of_ne _ (ne_of_mem_of_not_mem hx ham) _).trans
          (hkeeps.seg x hx)
        used := hkeeps.used
        freed := hkeeps.freed } }

variable {pool} in
/-- One round of the loop, after the allocation. -/
theorem copyLoop_succ {failures : ℕ → ℕ} {i org copy : ℕ} (fuel : ℕ) {next : Option ℕ}
    (h : allocRetry pool (failures i) s = some (s', copy))
    (hnext : ((AlphaMon.copySegment org copy s').mem.seg org).next = next) :
    copyLoop pool failures (fuel + 1) i org s = next.elim (some (AlphaMon.copySegment org copy s'))
      fun org' ↦ copyLoop pool failures fuel (i + 1) org' (AlphaMon.copySegment org copy s') := by
  subst hnext
  rw [copyLoop, h, Option.bind_eq_bind, Option.bind_some]
  cases hnext : ((AlphaMon.copySegment org copy s').mem.seg org).next <;> simp [hnext]

/-- One segment is allocated and copied. -/
theorem Mirror.Copies.round {failures : ℕ → ℕ} {i org : ℕ} (h : s.Copies m c vals)
    (hfirst : i = 0 → c = []) (horg : org ∈ m.used) (hfailures : i ≠ 0 → failures i = 0)
    (fuel : ℕ) :
    ∃ s₁, s₁.Copies m (c ++ [pool.take s.mem]) (vals ++ [(m.seg org).val]) ∧
      copyLoop pool failures (fuel + 1) i org s = (m.seg org).next.elim (some s₁)
        fun org' ↦ copyLoop pool failures fuel (i + 1) org' s₁ := by
  have halloc : allocRetry pool (failures i) s = some ({ s with mem := s.mem.alloc pool },
    pool.take s.mem) := by
    by_cases hi : i = 0
    · have hmirror := h.chain
      rw [hfirst hi] at hmirror
      exact allocRetry_of_none pool hmirror _
    · rw [hfailures hi]
      rfl
  have hcopy := h.copySegment pool horg
  exact ⟨_, hcopy, copyLoop_succ fuel halloc (congrArg _ (hcopy.keeps.seg org horg))⟩

/-- The rest of the loop, by what is left of the packet. -/
theorem rest_of_chained {P : Mirror → Prop} {f : ℕ → Option Mirror} {p : Option ℕ}
    (hl : Chained m p l) (hnil : l = [] → P s)
    (hcons : ∀ org, Chained m (some org) l → ∃ s', f org = some s' ∧ P s') :
    ∃ s', p.elim (some s) f = some s' ∧ P s' := by
  cases p with
  | none =>
    cases l with
    | nil => exact ⟨s, rfl, hnil rfl⟩
    | cons a l => exact absurd hl.1.symm (Option.some_ne_none a)
  | some org => exact hcons org hl

/-- **A copy without failures** but for its first segment. -/
theorem copyLoop_copies {failures : ℕ → ℕ} {fuel i org : ℕ} (h : s.Copies m c vals)
    (hfirst : i = 0 → c = []) (horg : Chained m (some org) l) (hused : ∀ a ∈ l, a ∈ m.used)
    (hfuel : l.length ≤ fuel) (hfailures : ∀ j < l.length, i + j ≠ 0 → failures (i + j) = 0) :
    ∃ s', copyLoop pool failures fuel i org s = some s' ∧
      ∃ c', s'.Copies m c' (vals ++ l.map fun a ↦ (m.seg a).val) := by
  induction l generalizing fuel i org s c vals with
  | nil => exact absurd horg (Option.some_ne_none org)
  | cons a l ih =>
    obtain ⟨ha, hl⟩ := horg
    obtain rfl : org = a := Option.some.inj ha
    obtain ⟨fuel, rfl⟩ : ∃ n, fuel = n + 1 := ⟨fuel - 1, by simp at hfuel; omega⟩
    obtain ⟨s₁, hcopy, hrun⟩ :=
      h.round pool hfirst (hused org (by simp)) (hfailures 0 (by simp)) fuel
    have hlater : ∀ j < l.length, i + 1 + j ≠ 0 → failures (i + 1 + j) = 0 := by
      intro j hj _
      rw [show i + 1 + j = i + (j + 1) by omega]
      exact hfailures (j + 1) (Nat.succ_lt_succ hj) (by omega)
    rw [hrun, List.map_cons, ← List.singleton_append, ← List.append_assoc]
    refine rest_of_chained hl (fun hnil ↦ ?_) fun org' horg' ↦ ?_
    · subst hnil
      exact ⟨_, by simpa using hcopy⟩
    · exact ih hcopy (by simp) horg' (fun x hx ↦ hused x (List.mem_cons_of_mem _ hx))
        (Nat.le_of_succ_le_succ hfuel) hlater

/-- There is no copy, the tail is somewhere in memory that is not the packet's, and nothing that was
in use in `m` has changed. -/
structure Mirror.Lost (m : Mem MbufVal) (s : Mirror) : Prop where
  mirror : s.mirror = none
  tail : ∃ a, s.tail = some a ∧ a ∉ m.used
  seg : ∀ a ∈ m.used, s.mem.seg a = m.seg a
  used : m.used ⊆ s.mem.used

/-- **A failure in a copy** gives it back and keeps its tail. -/
theorem Mirror.Copies.lost (h : s.Copies m c vals) (hc : c ≠ []) (failures : ℕ) :
    ∃ s₁ : Mirror, allocRetry pool (failures + 1) s =
      some ({ s₁ with mem := s₁.mem.alloc pool }, pool.take s₁.mem) ∧ s₁.Lost m := by
  obtain ⟨mem, hfree, hseg, hused, -⟩ :=
    h.chain.free_eq h.nodup h.inUse (Nat.le_succ_of_le (length_le_card h.nodup h.inUse))
  obtain ⟨a, ha⟩ := List.getLast?_isSome.2 hc |> Option.isSome_iff_exists.1
  refine ⟨{ s with mem := mem, mirror := none }, ?_, rfl,
    ⟨a, h.tail.trans ha, h.fresh a (List.mem_of_getLast? ha)⟩,
    fun x hx ↦ ?_, fun x hx ↦ ?_⟩
  · rw [allocRetry, hfree]
    exact allocRetry_of_none pool rfl failures
  · rw [hseg]
    exact h.keeps.seg x hx
  · rw [hused, Finset.mem_sdiff, List.mem_toFinset]
    exact ⟨h.keeps.used hx, fun hxc ↦ h.fresh x hxc hx⟩

/-- What is linked then is lost too. -/
theorem Mirror.Lost.copySegment (h : s.Lost m) (org : ℕ) :
    (AlphaMon.copySegment org (pool.take s.mem) { s with mem := s.mem.alloc pool }).Lost m := by
  have hnew : pool.take s.mem ∉ m.used := fun hmem ↦ pool.notMem s.mem (h.used hmem)
  obtain ⟨mem, mirror, tail⟩ := s
  obtain ⟨a, htail, ha⟩ := h.tail
  obtain rfl : tail = some a := htail
  refine ⟨h.mirror, ⟨_, rfl, hnew⟩, fun x hx ↦ ?_, fun x hx ↦ Finset.mem_insert_of_mem (h.used hx)⟩
  calc _ = _ := Mem.set_seg_of_ne _ (ne_of_mem_of_not_mem hx ha) _
    _ = _ := Mem.set_seg_of_ne _ (ne_of_mem_of_not_mem hx hnew) _
    _ = _ := h.seg x hx

/-- One round of the loop without a copy. -/
theorem Mirror.Lost.round {failures : ℕ → ℕ} {i org : ℕ} {s₁ : Mirror} (h : s₁.Lost m)
    (halloc : allocRetry pool (failures i) s =
      some ({ s₁ with mem := s₁.mem.alloc pool }, pool.take s₁.mem)) (horg : org ∈ m.used)
    (fuel : ℕ) :
    ∃ s₂ : Mirror, s₂.Lost m ∧ copyLoop pool failures (fuel + 1) i org s = (m.seg org).next.elim
      (some s₂)
      fun org' ↦ copyLoop pool failures fuel (i + 1) org' s₂ := by
  have hlost := h.copySegment pool org
  exact ⟨_, hlost, copyLoop_succ fuel halloc (congrArg _ (hlost.seg org horg))⟩

/-- The loop goes on to the end of the packet, and does not find the copy again. -/
theorem Mirror.Lost.copyLoop {failures : ℕ → ℕ} {fuel i org : ℕ} (h : s.Lost m)
    (horg : Chained m (some org) l) (hused : ∀ a ∈ l, a ∈ m.used) (hfuel : l.length ≤ fuel) :
    ∃ s', AlphaMon.copyLoop pool failures fuel i org s = some s' ∧ s'.mirror = none := by
  induction l generalizing fuel i org s with
  | nil => exact absurd horg (Option.some_ne_none org)
  | cons a l ih =>
    obtain ⟨ha, hl⟩ := horg
    obtain rfl : org = a := Option.some.inj ha
    obtain ⟨fuel, rfl⟩ : ∃ n, fuel = n + 1 := ⟨fuel - 1, by simp at hfuel; omega⟩
    obtain ⟨s₁, hlost, hrun⟩ := h.round pool (allocRetry_of_none pool h.mirror (failures i))
      (hused org (by simp)) fuel
    rw [hrun]
    exact rest_of_chained hl (fun _ ↦ hlost.mirror) fun org' horg' ↦
      ih hlost horg' (fun x hx ↦ hused x (List.mem_cons_of_mem _ hx)) (Nat.le_of_succ_le_succ hfuel)

/-- **A copy with a failure** at a segment other than the first: there is none. -/
theorem copyLoop_lost {failures : ℕ → ℕ} {fuel i org j : ℕ} (h : s.Copies m c vals)
    (hfirst : i = 0 ↔ c = []) (horg : Chained m (some org) l) (hused : ∀ a ∈ l, a ∈ m.used)
    (hfuel : l.length ≤ fuel) (hj : j < l.length) (hij : i + j ≠ 0)
    (hfailures : failures (i + j) ≠ 0) :
    ∃ s', copyLoop pool failures fuel i org s = some s' ∧ s'.mirror = none := by
  induction l generalizing fuel i j org s c vals with
  | nil => exact absurd hj (Nat.not_lt_zero j)
  | cons a l ih =>
    obtain ⟨ha, hl⟩ := horg
    obtain rfl : org = a := Option.some.inj ha
    obtain ⟨fuel, rfl⟩ : ∃ n, fuel = n + 1 := ⟨fuel - 1, by simp at hfuel; omega⟩
    by_cases hi : i ≠ 0 ∧ failures i ≠ 0
    · -- the pool runs dry at this segment
      obtain ⟨n, hn⟩ := Nat.exists_eq_succ_of_ne_zero hi.2
      obtain ⟨s₁, halloc, hs₁⟩ := h.lost pool (mt hfirst.2 hi.1) n
      rw [← Nat.succ_eq_add_one, ← hn] at halloc
      obtain ⟨s₂, hlost, hrun⟩ := hs₁.round pool halloc (hused org (by simp)) fuel
      rw [hrun]
      exact rest_of_chained hl (fun _ ↦ hlost.mirror) fun org' horg' ↦
        hlost.copyLoop pool horg' (fun x hx ↦ hused x (List.mem_cons_of_mem _ hx))
          (Nat.le_of_succ_le_succ hfuel)
    · obtain ⟨j, rfl⟩ : ∃ n, j = n + 1 := by
        refine ⟨j - 1, (Nat.succ_pred ?_).symm⟩
        rintro rfl
        exact hi ⟨hij, hfailures⟩
      have hfirst' : i ≠ 0 → failures i = 0 := fun hi' ↦ not_not.1 fun hf ↦ hi ⟨hi', hf⟩
      obtain ⟨s₁, hcopy, hrun⟩ := h.round pool hfirst.1 (hused org (by simp)) hfirst' fuel
      have hlt : j < l.length := Nat.lt_of_succ_lt_succ hj
      rw [hrun]
      refine rest_of_chained hl (fun hnil ↦ absurd hlt (by simp [hnil])) fun org' horg' ↦ ?_
      exact ih hcopy (by simp) horg' (fun x hx ↦ hused x (List.mem_cons_of_mem _ hx))
        (Nat.le_of_succ_le_succ hfuel)
        hlt (by omega) (by rwa [show i + 1 + j = i + (j + 1) by omega])

/-! ## A burst -/

section Burst

variable {σ : Type} (process : σ → ℕ → List MbufVal → σ × (ℕ → MbufVal))

/-- The packets of a burst, each with its segments: these are in use, and no segment is in two
packets. -/
structure HoldsBurst (m : Mem MbufVal) (burst : List ℕ) (chains : List (List ℕ)) : Prop where
  chained : List.Forall₂ (fun a l ↦ Chained m (some a) l ∧ ∀ x ∈ l, x ∈ m.used) burst chains
  nodup : chains.flatten.Nodup

/-- No allocation fails but for the first segments of packets, which have their positions. -/
def Destination.Supplied (d : Destination) (packets : List (List ℕ × ℕ)) : Prop :=
  ∀ x ∈ packets, ∀ i, 0 < i → i < x.1.length → d.failures x.2 i = 0

variable {m' : Mem MbufVal} {burst : List ℕ} {chains : List (List ℕ)} {a : ℕ} (port : ℕ)
  {d : Destination}
  {t : MirrorState σ}

theorem HoldsBurst.tail (h : HoldsBurst m (a :: burst) (l :: chains)) : HoldsBurst m burst chains :=
  ⟨(List.forall₂_cons.1 h.chained).2, (List.nodup_append.1 h.nodup).2.1⟩

/-- Whether a memory holds a burst depends only on the segments of the burst. -/
theorem HoldsBurst.congr (h : HoldsBurst m burst chains)
    (hm : ∀ x ∈ chains.flatten, x ∈ m.used → m'.seg x = m.seg x ∧ x ∈ m'.used) :
    HoldsBurst m' burst chains := by
  refine ⟨?_, h.nodup⟩
  obtain ⟨hlength, hchained⟩ := List.forall₂_iff_zip.1 h.chained
  refine List.forall₂_iff_zip.2 ⟨hlength, fun {a l} hmem ↦ ?_⟩
  obtain ⟨hl, hused⟩ := hchained hmem
  have hm' : ∀ x ∈ l, m'.seg x = m.seg x ∧ x ∈ m'.used := fun x hx ↦
    hm x (List.mem_flatten.2 ⟨l, (List.of_mem_zip hmem).2, hx⟩) (hused x hx)
  exact ⟨hl.congr fun x hx ↦ (hm' x hx).1, fun x hx ↦ (hm' x hx).2⟩

theorem HoldsBurst.keeps (h : HoldsBurst m burst chains) (hm : Keeps m m') :
    HoldsBurst m' burst chains :=
  h.congr fun x _ hx ↦ ⟨hm.seg x hx, hm.used hx⟩

@[simp] theorem handOver_none : handOver process port none t = none := rfl

/-- **A packet is handed over** with what its segments hold. -/
theorem handOver_of_chained (h : Chained t.mem (some a) l) (hnodup : l.Nodup)
    (hused : ∀ x ∈ l, x ∈ t.mem.used) :
    ∃ t', handOver process port (some a) t = some t' ∧
      t'.handed = t.handed ++ [(port, l.map fun a ↦ (t.mem.seg a).val)] ∧
      t'.mem.freed = t.mem.freed ∧ t'.mem.used = t.mem.used \ l.toFinset ∧
      ∀ x ∉ l, t'.mem.seg x = t.mem.seg x := by
  have haddresses := h.addresses_eq (Nat.le_succ_of_le (length_le_card hnodup hused))
  let vals := l.map fun a ↦ (t.mem.seg a).val
  let vals' := (process t.world port vals).2
  refine ⟨⟨(t.mem.setVals vals' 0 l).release l, (process t.world port vals).1,
    t.handed ++ [(port, vals)]⟩, ?_, rfl,
    Mem.setVals_freed .., congrArg (· \ l.toFinset) (Mem.setVals_used ..), fun x hx ↦
      Mem.setVals_seg_of_notMem _ _ hx⟩
  rw [handOver, if_neg (Option.some_ne_none a), haddresses]
  rfl

/-- What the packets hold, each with an output interface. -/
def packetsFor (port : ℕ) (m : Mem MbufVal) (chains : List (List ℕ)) : List (ℕ × List MbufVal) :=
  chains.map fun l ↦ (port, l.map fun a ↦ (m.seg a).val)

theorem packetsFor_congr (hm : ∀ x ∈ chains.flatten, m'.seg x = m.seg x) :
    packetsFor port m' chains = packetsFor port m chains := by
  refine List.map_congr_left fun l hl ↦ congrArg _ (List.map_congr_left fun x hx ↦ ?_)
  rw [hm x (List.mem_flatten.2 ⟨l, hl, hx⟩)]

/-- The segments of a burst that is held are in use. -/
theorem HoldsBurst.used (h : HoldsBurst m burst chains) : ∀ x ∈ chains.flatten, x ∈ m.used := by
  intro x hx
  obtain ⟨l, hl, hx⟩ := List.mem_flatten.1 hx
  obtain ⟨i, hi, rfl⟩ := List.mem_iff_getElem.1 hl
  exact ((List.forall₂_iff_get.1 h.chained).2 i (by rw [h.chained.length_eq]; exact hi) hi).2 x hx

/-- **The last destination** gets the burst itself. -/
theorem lastLoop_spec (h : HoldsBurst t.mem burst chains) :
    ∃ t', lastLoop process port burst t = some t' ∧
    t'.handed = t.handed ++ packetsFor port t.mem chains ∧ t'.mem.freed = t.mem.freed := by
  induction chains generalizing burst t with
  | nil =>
    obtain rfl := List.forall₂_nil_right_iff.1 h.chained
    exact ⟨t, rfl, (List.append_nil _).symm, rfl⟩
  | cons l chains ih =>
    obtain ⟨a, burst, hl, -, rfl⟩ := List.forall₂_cons_right_iff.1 h.chained
    obtain ⟨hnodup, -, hdisjoint⟩ := List.nodup_append.1 h.nodup
    obtain ⟨t₁, hrun, hhanded, hfreed, hused, hseg⟩ :=
      handOver_of_chained process port hl.1 hnodup hl.2
    have hnotMem : ∀ x ∈ chains.flatten, x ∉ l := fun x hx hxl ↦ hdisjoint x hxl x hx rfl
    have htail : HoldsBurst t₁.mem burst chains := h.tail.congr fun x hx hx' ↦
      ⟨hseg x (hnotMem x hx), by
        rw [hused, Finset.mem_sdiff, List.mem_toFinset]; exact ⟨hx', hnotMem x hx⟩⟩
    obtain ⟨t', hrun', hhanded', hfreed'⟩ := ih htail
    refine ⟨t', ?_, ?_, hfreed'.trans hfreed⟩
    · rw [lastLoop, hrun]
      exact hrun'
    · rw [hhanded', hhanded, packetsFor_congr _ fun x hx ↦ hseg x (hnotMem x hx), List.append_assoc]
      rfl

/-- **A packet is mirrored**: another destination gets a copy of it, and it stays as it is. -/
theorem mirror_packet (h : Chained t.mem (some a) l) (hnodup : l.Nodup)
    (hused : ∀ x ∈ l, x ∈ t.mem.used) {failures : ℕ → ℕ}
    (hfailures : ∀ i, 0 < i → i < l.length → failures i = 0) :
    ∃ c t', copyLoop pool failures (t.mem.used.card + 1) 0 a ⟨t.mem, none, none⟩ = some c ∧
      handOver process port c.mirror { t with mem := c.mem } = some t' ∧
      t'.handed = t.handed ++ [(port, l.map fun a ↦ (t.mem.seg a).val)] ∧ Keeps t.mem t'.mem := by
  have hfuel : l.length ≤ t.mem.used.card + 1 := Nat.le_succ_of_le (length_le_card hnodup hused)
  have hlater : ∀ j < l.length, 0 + j ≠ 0 → failures (0 + j) = 0 := fun j hj h0 ↦ by
    rw [Nat.zero_add] at h0 ⊢
    exact hfailures j (Nat.pos_of_ne_zero h0) hj
  obtain ⟨s, hrun, c, hcopies⟩ :=
    copyLoop_copies pool (Mirror.copies_init t.mem) (fun _ ↦ rfl) h hused hfuel hlater
  have hfresh : ∀ x ∈ t.mem.used, x ∉ c := fun x hx hxc ↦ hcopies.fresh x hxc hx
  have hvals : c.map (fun a ↦ (s.mem.seg a).val) = l.map fun a ↦ (t.mem.seg a).val := hcopies.vals
  cases c with
  | nil =>
    obtain rfl : l = [] := List.map_eq_nil_iff.1 hvals.symm
    exact absurd h (Option.some_ne_none a)
  | cons b c =>
    have hchain := hcopies.chain
    rw [hchain.1] at hchain
    obtain ⟨t', hhand, hhanded, hfreed, hused', hseg⟩ := handOver_of_chained process port
      (t := { t with mem := s.mem }) hchain hcopies.nodup hcopies.inUse
    refine ⟨s, t', hrun, ?_, hhanded.trans (by rw [hvals]), {
      seg := fun x hx ↦ (hseg x (hfresh x hx)).trans (hcopies.keeps.seg x hx)
      used := fun x hx ↦ ?_
      freed := hfreed.trans hcopies.keeps.freed }⟩
    · rw [hcopies.chain.1]
      exact hhand
    · rw [hused', Finset.mem_sdiff, List.mem_toFinset]
      exact ⟨hcopies.keeps.used hx, hfresh x hx⟩

/-- For a packet with a failure at a segment other than the first there is a null pointer. -/
theorem mirror_lost (h : Chained t.mem (some a) l) (hnodup : l.Nodup)
    (hused : ∀ x ∈ l, x ∈ t.mem.used) {failures : ℕ → ℕ} {i : ℕ} (hi : 0 < i) (hl : i < l.length)
    (hfailures : failures i ≠ 0) :
    ∃ c, copyLoop pool failures (t.mem.used.card + 1) 0 a ⟨t.mem, none, none⟩ = some c ∧
      c.mirror = none :=
  copyLoop_lost pool (Mirror.copies_init t.mem) (by simp) h hused
    (Nat.le_succ_of_le (length_le_card hnodup hused)) hl
    (by omega) (by rwa [Nat.zero_add])

/-- **Another destination** gets copies of the burst, which stays as it is. -/
theorem mirrorLoop_spec {k : ℕ} (h : HoldsBurst t.mem burst chains)
    (hd : d.Supplied (chains.zipIdx k)) :
    ∃ t', mirrorLoop pool process d k burst t = some t' ∧
      t'.handed = t.handed ++ packetsFor d.port t.mem chains ∧ Keeps t.mem t'.mem := by
  induction chains generalizing burst t k with
  | nil =>
    obtain rfl := List.forall₂_nil_right_iff.1 h.chained
    exact ⟨t, rfl, (List.append_nil _).symm, .refl _⟩
  | cons l chains ih =>
    obtain ⟨a, burst, hl, -, rfl⟩ := List.forall₂_cons_right_iff.1 h.chained
    obtain ⟨hfirst, hrest⟩ := List.forall_mem_cons.1 hd
    have hnodup : l.Nodup := (List.nodup_append.1 h.nodup).1
    obtain ⟨c, t₁, hcopy, hhand, hhanded, hkeeps⟩ :=
      mirror_packet pool process d.port hl.1 hnodup hl.2 hfirst
    obtain ⟨t', hrun', hhanded', hkeeps'⟩ := ih (h.tail.keeps hkeeps) hrest
    refine ⟨t', ?_, ?_, hkeeps.trans hkeeps'⟩
    · rw [mirrorLoop, hcopy, Option.bind_eq_bind, Option.bind_some, hhand]
      exact hrun'
    · rw [hhanded', hhanded, packetsFor_congr _ fun x hx ↦ hkeeps.seg x (h.tail.used x hx),
        List.append_assoc]
      rfl

/-- A destination without the segments for its copies: `process_packet` is handed a null pointer. -/
theorem mirrorLoop_lost {k : ℕ} (h : HoldsBurst t.mem burst chains)
    (hd : ¬d.Supplied (chains.zipIdx k)) :
    mirrorLoop pool process d k burst t = none := by
  induction chains generalizing burst t k with
  | nil => exact absurd (fun _ ↦ by simp) hd
  | cons l chains ih =>
    obtain ⟨a, burst, hl, -, rfl⟩ := List.forall₂_cons_right_iff.1 h.chained
    have hnodup : l.Nodup := (List.nodup_append.1 h.nodup).1
    by_cases hfirst : ∀ i, 0 < i → i < l.length → d.failures k i = 0
    · obtain ⟨c, t₁, hcopy, hhand, -, hkeeps⟩ :=
        mirror_packet pool process d.port hl.1 hnodup hl.2 hfirst
      have hrest : ¬d.Supplied (chains.zipIdx (k + 1)) :=
        fun hrest ↦ hd (List.forall_mem_cons.2 ⟨hfirst, hrest⟩)
      rw [mirrorLoop, hcopy, Option.bind_eq_bind, Option.bind_some, hhand]
      exact ih (h.tail.keeps hkeeps) hrest
    · simp only [not_forall] at hfirst
      obtain ⟨i, hi, hlt, hfailures⟩ := hfirst
      obtain ⟨c, hcopy, hmirror⟩ := mirror_lost pool hl.1 hnodup hl.2 hi hlt hfailures
      rw [mirrorLoop, hcopy, Option.bind_eq_bind, Option.bind_some, hmirror, handOver_none]
      rfl

/-- **Mirroring**: every destination gets every packet as it was received, and no segment is given
back before that, exactly when no allocation fails but for first segments. -/
theorem mirroring (t : MirrorState σ) (h : HoldsBurst t.mem burst chains)
    (dests : List Destination) :
    (∃ t', destinationLoop pool process burst dests t = some t' ∧
      t'.handed = t.handed ++ dests.flatMap (fun d ↦ packetsFor d.port t.mem chains) ∧
        t'.mem.freed = t.mem.freed) ↔
      ∀ d ∈ dests.dropLast, d.Supplied chains.zipIdx := by
  induction dests generalizing t with
  | nil => simp [destinationLoop]
  | cons d dests ih =>
    cases dests with
    | nil =>
      obtain ⟨t', hrun, hhanded, hfreed⟩ := lastLoop_spec process d.port h
      refine iff_of_true ⟨t', hrun, ?_, hfreed⟩ (by simp)
      rw [hhanded, List.flatMap_singleton]
    | cons d' dests =>
      have hloop : destinationLoop pool process burst (d :: d' :: dests) t =
          (mirrorLoop pool process d 0 burst t).bind
            (destinationLoop pool process burst (d' :: dests)) := rfl
      rw [List.dropLast_cons_cons, List.forall_mem_cons, hloop]
      by_cases hd : d.Supplied chains.zipIdx
      · obtain ⟨t₁, hrun, hhanded, hkeeps⟩ := mirrorLoop_spec pool process h hd
        have hpackets (port : ℕ) : packetsFor port t₁.mem chains = packetsFor port t.mem chains :=
          packetsFor_congr _ fun x hx ↦ hkeeps.seg x (h.used x hx)
        have hrest := ih t₁ (h.keeps hkeeps)
        simp only [hpackets, hhanded, hkeeps.freed, List.append_assoc] at hrest
        rw [hrun, Option.bind_some, List.flatMap_cons]
        simp only [hrest, hd, true_and]
      · rw [mirrorLoop_lost pool process h hd, Option.bind_none]
        exact iff_of_false (fun ⟨_, hrun, _⟩ ↦ Option.some_ne_none _ hrun.symm)
          fun ⟨hd', _⟩ ↦ hd hd'

/-- What is handed over then is what `fanOut` lists, whatever is read off the segments of a packet
and off the memory after a copy. -/
theorem handed_eq_fanOut (b : Burst) (view : ℕ → List MbufVal → Packet) {dests : List Destination}
    (hports : dests.map (·.port) = b.outPort)
    (hpackets : ∀ port, b.packets.map (fun r ↦ r.packet.followedBy (r.after port)) =
      chains.map fun l ↦ view port (l.map fun a ↦ (m.seg a).val)) :
    (dests.flatMap fun d ↦ packetsFor d.port m chains).map (fun x ↦ (x.1, view x.1 x.2)) =
      (fanOut b).map fun c ↦ (c.port, c.packet) := by
  have hport (port : ℕ) : (packetsFor port m chains).map (fun x ↦ (x.1, view x.1 x.2)) =
      (b.packets.map fun r ↦ r.packet.followedBy (r.after port)).map fun p ↦ (port, p) := by
    rw [hpackets, packetsFor, List.map_map, List.map_map]
    rfl
  rw [fanOut, ← hports, List.flatMap_map, List.map_flatMap, List.map_flatMap]
  refine List.flatMap_congr fun d _ ↦ ?_
  rw [hport, List.map_map, List.map_map]
  rfl

end Burst

/-! ## A packet of two segments -/

/-- The pool that hands out the segment behind those in use. -/
def nextPool : Pool MbufVal where
  take m := m.used.sup id + 1
  notMem _ h := absurd (Finset.le_sup (f := id) h) (Nat.not_succ_le_self _)

/-- What a segment of a byte holds. -/
def byteSegment (b : UInt8) : MbufVal := ⟨128, 0, 0, 0, 0, 2, 2, 0, 0, [b]⟩

/-- A packet of two segments in memory. -/
def twoSegments : MirrorState Unit where
  mem := {
    seg a := if a = 0 then ⟨byteSegment 7, some 1⟩ else ⟨byteSegment 8, none⟩
    used := {0, 1}
    freed := [] }
  world := ()
  handed := []

/-- A `process_packet` that overwrites what it is handed. -/
def overwrite (_ : Unit) (_ : ℕ) (_ : List MbufVal) : Unit × (ℕ → MbufVal) :=
  ((), fun _ ↦ byteSegment 0)

theorem twoSegments_holds : HoldsBurst twoSegments.mem [0] [[0, 1]] :=
  ⟨.cons ⟨⟨rfl, rfl, rfl⟩, by decide⟩ .nil, by decide⟩

/-- Two destinations get the two bytes each, although the pool runs dry before the first copy. -/
theorem mirroring_twoSegments :
    ∃ t', destinationLoop nextPool overwrite [0] [⟨1, fun _ i ↦ if i = 0 then 3 else 0⟩,
      ⟨2, fun _ _ ↦ 5⟩]
      twoSegments = some t' ∧
      t'.handed = [(1, [byteSegment 7, byteSegment 8]), (2, [byteSegment 7, byteSegment 8])] ∧
      t'.mem.freed = [] :=
  (mirroring nextPool overwrite twoSegments twoSegments_holds _).2 (by
    intro d hd x hx i hi _
    obtain rfl := List.mem_singleton.1 hd
    exact if_neg hi.ne')

/-- One failure at the second segment: the first segment of the copy is freed, and a null pointer is
handed to `process_packet`. -/
theorem mirroring_dry :
    HoldsBurst twoSegments.mem [0] [[0, 1]] ∧
      (copyLoop nextPool (fun i ↦ if i = 1 then 1 else 0) 3 0 0 ⟨twoSegments.mem, none, none⟩).map
        (fun c ↦ (c.mirror, c.tail, c.mem.freed)) = some (none, some 2, [2]) ∧
      destinationLoop nextPool overwrite [0] [⟨1, fun _ i ↦ if i = 1 then 1 else 0⟩,
        ⟨2, fun _ _ ↦ 0⟩]
        twoSegments = none :=
  ⟨twoSegments_holds, by decide +kernel, Option.isNone_iff_eq_none.1 (by decide +kernel)⟩

end AlphaMon
