import Mathlib.Data.Sym.Sym2
import AlphaMon.FlowMngSpec

/-!
# Runs of the table of flows

A run is a list of calls of `reference_flow`, each followed, if the caller decides something about
the flow, by a store into the record returned.  What tells the records of a bucket apart is their
key: the unordered pair of addresses, the unordered pair of ports and the protocol.

The walk of a call that collects garbage can go wrong in two ways, both because it moves on twice
after a deletion.  It can fall off the chain (`FallsOff`), which happens when the last record is
deleted; and it can step over the record it is looking for (`StepsOver`), which happens when the one
right before it is deleted.  `flow_chain_ok` says that falling off is all that can break a bucket: a
run is free of bad pointers, and leaves every bucket well linked, if and only if no call of it falls
off.
-/

set_option autoImplicit false

namespace AlphaMon

/-! ## Keys -/

/-- What a record is found by. -/
abbrev FlowKey := Sym2 (BitVec 32) × Sym2 ℕ × ℕ

/-- The key of a packet's flow. -/
def Flow.key (data : Flow) : FlowKey :=
  (s(data.ipv4Src, data.ipv4Dst), s(data.inPort, data.outPort), data.protocol)

/-- The key of a record. -/
def FlowRec.key (c : FlowRec) : FlowKey :=
  (s(c.ipv4Src, c.ipv4Dst), s(c.inPort, c.outPort), c.protocol)

/-- **A record matches a packet when they have the same key.** -/
theorem FlowRec.matches_iff {c : FlowRec} {data : Flow} : c.Matches data ↔ c.key = data.key := by
  simp only [Matches, key, Flow.key, Prod.mk.injEq, Sym2.eq_iff]
  tauto

@[simp] theorem FlowRec.touch_key (c : FlowRec) (t : ℤ) : (c.touch t).key = c.key := rfl

@[simp] theorem FlowRec.fill_key (c : FlowRec) (data : Flow) : (c.fill data).key = data.key := rfl

/-! ## Calls -/

/-- A call of `reference_flow` and what the caller then stores in the field `toAnon` of the record
returned. -/
structure FlowCall where
  flow : Flow
  env : FlowEnv
  store : Option ℤ := none

namespace FlowCall

/-- The time of a call. -/
def time (c : FlowCall) : ℤ := c.flow.timestamp

/-- The allocation of a call succeeds. -/
def AllocOk (c : FlowCall) : Prop := c.env.malloc ≠ none

end FlowCall

/-- A store into the record at `a` of a bucket. -/
def storeFlow (mem : Arena TableFlow) (a : ℕ) (f : FlowRec → FlowRec) : Option (Arena TableFlow) :=
  mem.modify (some a) fun r ↦ { r with toFlowRec := f r.toFlowRec }

/-- `flusso->toAnon = v`, if there is a value to store. -/
def storeToAnon (mem : Arena TableFlow) (a : ℕ) (v : Option ℤ) : Option (Arena TableFlow) :=
  match v with
  | none => some mem
  | some v => storeFlow mem a fun r ↦ { r with toAnon := v }

/-- A call and the store after it: the table and the address of the record. -/
def FlowCall.run (c : FlowCall) (db : FlowTable) : Option (FlowTable × ℕ) := do
  let (db, a) ← referenceFlow db c.flow c.env
  let mem ← storeToAnon (db c.flow.bucket) a c.store
  some (Function.update db c.flow.bucket mem, a)

/-- A run, with the records the calls returned, each given by its bucket and its address there. -/
def runFlows : FlowTable → List FlowCall → Option (FlowTable × List (ℕ × ℕ))
  | db, [] => some (db, [])
  | db, c :: calls => do
    let (db, a) ← c.run db
    let (db, ptrs) ← runFlows db calls
    some (db, (c.flow.bucket, a) :: ptrs)

/-! ## What can go wrong -/

/-- The walk over the records after the first deletes the last one. -/
def FallsOff (data : Flow) (gc : Bool) : List FlowRec → Prop
  | [] => False
  | [p] => ¬p.Matches data ∧ gc = true ∧ p.Expired data.timestamp
  | p :: q :: l => ¬p.Matches data ∧
    if gc = true ∧ p.Expired data.timestamp then FallsOff data gc l else FallsOff data gc (q :: l)

/-- The walk over the records after the first moves past a record that matches. -/
def StepsOver (data : Flow) (gc : Bool) : List FlowRec → Prop
  | [] => False
  | [_] => False
  | p :: q :: l => ¬p.Matches data ∧
    if gc = true ∧ p.Expired data.timestamp then q.Matches data ∨ StepsOver data gc l
    else StepsOver data gc (q :: l)

instance decidableFallsOff (data : Flow) (gc : Bool) : ∀ l, Decidable (FallsOff data gc l)
  | [] => inferInstanceAs (Decidable False)
  | [p] => inferInstanceAs (Decidable (¬p.Matches data ∧ gc = true ∧ p.Expired data.timestamp))
  | p :: q :: l =>
    have := decidableFallsOff data gc l
    have := decidableFallsOff data gc (q :: l)
    inferInstanceAs (Decidable (¬p.Matches data ∧
      if gc = true ∧ p.Expired data.timestamp then FallsOff data gc l else FallsOff data gc
        (q :: l)))

instance decidableStepsOver (data : Flow) (gc : Bool) : ∀ l, Decidable (StepsOver data gc l)
  | [] => inferInstanceAs (Decidable False)
  | [_] => inferInstanceAs (Decidable False)
  | p :: q :: l =>
    have := decidableStepsOver data gc l
    have := decidableStepsOver data gc (q :: l)
    inferInstanceAs (Decidable (¬p.Matches data ∧
      if gc = true ∧ p.Expired data.timestamp then q.Matches data ∨ StepsOver data gc l
      else StepsOver data gc (q :: l)))

/-- The record at which the walk over the records after the first stops. -/
def meets (data : Flow) (gc : Bool) : List FlowRec → Option FlowRec
  | [] => none
  | [p] => if p.Matches data then some p else none
  | p :: q :: l =>
    if p.Matches data then some p
    else if gc = true ∧ p.Expired data.timestamp then meets data gc l
    else meets data gc (q :: l)

/-- The record a call stops at, of those of its bucket. -/
def bucketMeets (data : Flow) (gc : Bool) : List FlowRec → Option FlowRec
  | [] => none
  | p :: l => if p.Matches data then some p else meets data gc l

namespace FlowCall

/-- In the state `db` the call deletes the last record of its bucket. -/
def FallsOff (c : FlowCall) (db : FlowTable) : Prop :=
  match flowRecords (db c.flow.bucket) with
  | [] => False
  | p :: l => ¬p.Matches c.flow ∧ AlphaMon.FallsOff c.flow c.env.collects l

/-- In the state `db` the call moves past the record of its flow. -/
def StepsOver (c : FlowCall) (db : FlowTable) : Prop :=
  match flowRecords (db c.flow.bucket) with
  | [] => False
  | p :: l => ¬p.Matches c.flow ∧ AlphaMon.StepsOver c.flow c.env.collects l

instance (c : FlowCall) (db : FlowTable) : Decidable (c.FallsOff db) :=
  match h : flowRecords (db c.flow.bucket) with
  | [] => isFalse (by simp [FallsOff, h])
  | p :: l => decidable_of_iff (¬p.Matches c.flow ∧ AlphaMon.FallsOff c.flow c.env.collects l)
      (by simp [FallsOff, h])

instance (c : FlowCall) (db : FlowTable) : Decidable (c.StepsOver db) :=
  match h : flowRecords (db c.flow.bucket) with
  | [] => isFalse (by simp [StepsOver, h])
  | p :: l => decidable_of_iff (¬p.Matches c.flow ∧ AlphaMon.StepsOver c.flow c.env.collects l)
      (by simp [StepsOver, h])

/-- The record at which the call stops in the state `db`, as it is before the call. -/
def meets (c : FlowCall) (db : FlowTable) : Option FlowRec :=
  bucketMeets c.flow c.env.collects (flowRecords (db c.flow.bucket))

end FlowCall

variable {data : Flow} {gc : Bool} {l l' : List (ℕ × FlowRec)}

/-- **The walk fails exactly when it falls off.** -/
theorem walkFlows_eq_none : ∀ {l : List (ℕ × FlowRec)},
    walkFlows data gc l = none ↔ FallsOff data gc (l.map Prod.snd)
  | [] => by simp [walkFlows, FallsOff]
  | [p] => by
    simp only [walkFlows, List.map_cons, List.map_nil, FallsOff]
    split_ifs <;> simp_all
  | p :: q :: l => by
    have ih₁ := walkFlows_eq_none (l := l)
    have ih₂ := walkFlows_eq_none (l := q :: l)
    simp only [List.map_cons] at ih₂
    simp only [walkFlows, List.map_cons, FallsOff]
    split_ifs <;> simp_all

theorem meets_key {x : FlowRec} : ∀ {l : List FlowRec}, meets data gc l = some x → x.key = data.key
  | [], h => by simp [meets] at h
  | [p], h => by
    rw [meets] at h
    split at h
    · next hm => exact Option.some.inj h ▸ FlowRec.matches_iff.1 hm
    · exact absurd h (by simp)
  | p :: q :: l, h => by
    rw [meets] at h
    split at h
    · next hm => exact Option.some.inj h ▸ FlowRec.matches_iff.1 hm
    · split at h <;> exact meets_key h

/-- **The record a call stops at** has the key of the packet. -/
theorem bucketMeets_key {x : FlowRec} {l : List FlowRec} (h : bucketMeets data gc l = some x) :
    x.key = data.key := by
  cases l with
  | nil => simp [bucketMeets] at h
  | cons p l =>
    rw [bucketMeets] at h
    split at h
    · next hm => exact Option.some.inj h ▸ FlowRec.matches_iff.1 hm
    · exact meets_key h

/-- What the walk leaves: records it passed, less some that have expired, and the record it stopped
at with the time of the packet. -/
structure Walked (data : Flow) (gc : Bool) (l l' : List (ℕ × FlowRec)) (found : Option ℕ) :
    Prop where
  /-- The addresses that are left, in order. -/
  sublist : (Linked.addrs l').Sublist (Linked.addrs l)
  /-- A record that is left is an old one, or the one found. -/
  old : ∀ p ∈ l', p ∈ l ∨ ∃ x, (p.1, x) ∈ l ∧ p.2 = x.touch data.timestamp ∧ x.key = data.key ∧
    found = some p.1
  /-- A record of another flow that has not expired is left. -/
  kept : ∀ p ∈ l, p.2.key ≠ data.key → ¬(gc = true ∧ p.2.Expired data.timestamp) → p ∈ l'
  /-- The record found. -/
  stop : ∀ a, found = some a → ∃ x, (a, x) ∈ l ∧ x.key = data.key ∧
    meets data gc (l.map Prod.snd) = some x ∧ (a, x.touch data.timestamp) ∈ l'
  /-- When none is found, a record of the flow was stepped over. -/
  absent : found = none → meets data gc (l.map Prod.snd) = none ∧
    (¬StepsOver data gc (l.map Prod.snd) → ∀ p ∈ l, p.2.key ≠ data.key)

theorem Walked.found {a : ℕ} {x : FlowRec} (hx : x.key = data.key) (gc : Bool)
    (l : List (ℕ × FlowRec)) :
    Walked data gc ((a, x) :: l) ((a, x.touch data.timestamp) :: l) (some a) where
  sublist := by simp
  old p hp := by
    rcases List.mem_cons.1 hp with rfl | hp
    · exact .inr ⟨x, by simp, rfl, hx, rfl⟩
    · exact .inl (by simp [hp])
  kept p hp hne _ := by
    rcases List.mem_cons.1 hp with rfl | hp
    · exact absurd hx hne
    · simp [hp]
  stop b hb := by
    obtain rfl : a = b := by simpa using hb
    refine ⟨x, by simp, hx, ?_, by simp⟩
    cases l <;> simp [meets, FlowRec.matches_iff.2 hx]
  absent h := by simp at h

/-- The walk goes on behind a record it leaves. -/
theorem Walked.cons {p q : ℕ × FlowRec} {found : Option ℕ} (h : Walked data gc (q :: l) l' found)
    (hp : p.2.key ≠ data.key) (hexp : ¬(gc = true ∧ p.2.Expired data.timestamp)) :
    Walked data gc (p :: q :: l) (p :: l') found where
  sublist := by simpa using h.sublist.cons_cons p.1
  old r hr := by
    rcases List.mem_cons.1 hr with rfl | hr
    · exact .inl (by simp)
    · rcases h.old r hr with h | ⟨x, hx, h⟩
      · exact .inl (List.mem_cons_of_mem _ h)
      · exact .inr ⟨x, List.mem_cons_of_mem _ hx, h⟩
  kept r hr hne he := by
    rcases List.mem_cons.1 hr with rfl | hr
    · simp
    · exact List.mem_cons_of_mem _ (h.kept r hr hne he)
  stop a ha := by
    obtain ⟨x, hx, hk, hm, hl⟩ := h.stop a ha
    refine ⟨x, List.mem_cons_of_mem _ hx, hk, ?_, List.mem_cons_of_mem _ hl⟩
    simpa [meets, FlowRec.matches_iff, hp, hexp] using hm
  absent hf := by
    obtain ⟨hm, hs⟩ := h.absent hf
    refine ⟨by simpa [meets, FlowRec.matches_iff, hp, hexp] using hm, fun hso r hr ↦ ?_⟩
    rcases List.mem_cons.1 hr with rfl | hr
    · exact hp
    · exact hs (by simpa [StepsOver, FlowRec.matches_iff, hp, hexp] using hso) r hr

/-- The walk deletes a record and goes on after the next one. -/
theorem Walked.delete {p q : ℕ × FlowRec} {found : Option ℕ} (h : Walked data gc l l' found)
    (hp : p.2.key ≠ data.key) (hexp : gc = true ∧ p.2.Expired data.timestamp) :
    Walked data gc (p :: q :: l) (q :: l') found where
  sublist := by simpa using (h.sublist.cons_cons q.1).cons p.1
  old r hr := by
    rcases List.mem_cons.1 hr with rfl | hr
    · exact .inl (by simp)
    · rcases h.old r hr with h | ⟨x, hx, h⟩
      · exact .inl (by simp [h])
      · exact .inr ⟨x, by simp [hx], h⟩
  kept r hr hne he := by
    rcases List.mem_cons.1 hr with rfl | hr
    · exact absurd hexp he
    · rcases List.mem_cons.1 hr with rfl | hr
      · simp
      · exact List.mem_cons_of_mem _ (h.kept r hr hne he)
  stop a ha := by
    obtain ⟨x, hx, hk, hm, hl⟩ := h.stop a ha
    refine ⟨x, by simp [hx], hk, ?_, List.mem_cons_of_mem _ hl⟩
    simpa [meets, FlowRec.matches_iff, hp, hexp] using hm
  absent hf := by
    obtain ⟨hm, hs⟩ := h.absent hf
    refine ⟨by simpa [meets, FlowRec.matches_iff, hp, hexp] using hm, fun hso r hr ↦ ?_⟩
    simp only [List.map_cons, StepsOver, FlowRec.matches_iff, hp, not_false_eq_true, hexp, and_self,
      if_true, true_and, not_or] at hso
    rcases List.mem_cons.1 hr with rfl | hr
    · exact hp
    · rcases List.mem_cons.1 hr with rfl | hr
      · exact hso.1
      · exact hs (by rw [hexp.1]; exact hso.2) r hr

/-- **What a walk does.** -/
theorem walkFlows_walked : ∀ {l l' : List (ℕ × FlowRec)} {found : Option ℕ},
    walkFlows data gc l = some (l', found) → Walked data gc l l' found
  | [], l', found, h => by
    obtain ⟨rfl, rfl⟩ : [] = l' ∧ none = found := by simpa [walkFlows] using h
    exact ⟨by simp, by simp, by simp, by simp, by simp [meets]⟩
  | [p], l', found, h => by
    rw [walkFlows] at h
    split at h
    · next hm =>
      obtain ⟨rfl, rfl⟩ : _ ∧ some p.1 = found := by simpa using h
      exact .found (FlowRec.matches_iff.1 hm) gc []
    · next hm =>
      split at h
      · exact absurd h (by simp)
      · obtain ⟨rfl, rfl⟩ : [p] = l' ∧ none = found := by simpa using h
        have hk : p.2.key ≠ data.key := fun hk ↦ hm (FlowRec.matches_iff.2 hk)
        exact ⟨by
          simp, by simp, by simp, by simp, fun _ ↦ ⟨by simp [meets, hm], fun _ ↦ by simpa using hk⟩⟩
  | p :: q :: l, l', found, h => by
    rw [walkFlows] at h
    split at h
    · next hm =>
      obtain ⟨rfl, rfl⟩ : _ ∧ some p.1 = found := by simpa using h
      exact .found (FlowRec.matches_iff.1 hm) gc (q :: l)
    · next hm =>
      have hk : p.2.key ≠ data.key := fun hk ↦ hm (FlowRec.matches_iff.2 hk)
      split at h
      · next hexp =>
        obtain ⟨⟨l₁, found₁⟩, hw, he⟩ := Option.map_eq_some_iff.1 h
        obtain ⟨rfl, rfl⟩ : q :: l₁ = l' ∧ found₁ = found := by simpa using he
        exact (walkFlows_walked hw).delete hk hexp
      · next hexp =>
        obtain ⟨⟨l₁, found₁⟩, hw, he⟩ := Option.map_eq_some_iff.1 h
        obtain ⟨rfl, rfl⟩ : p :: l₁ = l' ∧ found₁ = found := by simpa using he
        exact (walkFlows_walked hw).cons hk hexp

/-! ## A call on its bucket -/

/-- What a call does to its bucket, where `a` is the address of the record it returns. -/
structure Referenced (data : Flow) (gc : Bool) (new : ℕ) (l l' : List (ℕ × FlowRec)) (a : ℕ) :
    Prop where
  /-- The record returned is the one met, with the time of the packet, or a new one. -/
  ret : ∃ y, (a, y) ∈ l' ∧ y.key = data.key ∧ y.timestamp = data.timestamp ∧
    match bucketMeets data gc (l.map Prod.snd) with
    | some x => (a, x) ∈ l ∧ y = x.touch data.timestamp
    | none => y.toAnon = -1 ∧ (a = new ∨ ∃ x, l.head? = some (a, x) ∧ x.Expired data.timestamp)
  /-- A record of another flow that has not expired is left. -/
  kept : ∀ p ∈ l, p.2.key ≠ data.key → ¬p.2.Expired data.timestamp → p ∈ l'
  /-- The other records were there before. -/
  old : ∀ p ∈ l', p.1 ≠ a → p ∈ l
  /-- When no record is met, one of the flow was stepped over. -/
  absent : bucketMeets data gc (l.map Prod.snd) = none → ∀ p l₀, l = p :: l₀ →
    ¬StepsOver data gc (l₀.map Prod.snd) → ∀ q ∈ l, q.2.key ≠ data.key

/-- A record of another flow is left unless it has expired and the call collects garbage. -/
theorem refFlows_kept {new a : ℕ} {junk : FlowRec}
    (h : refFlows data gc new junk l = some (l', a)) :
    ∀ p ∈ l, p.2.key ≠ data.key → ¬(gc = true ∧ p.2.Expired data.timestamp) → p ∈ l' := by
  cases l with
  | nil => exact absurd h (by simp [refFlows])
  | cons p l =>
    intro q hq hne hexp
    rw [refFlows] at h
    split at h
    · next hm =>
      obtain ⟨rfl, -⟩ : _ ∧ p.1 = a := by simpa using h
      rcases List.mem_cons.1 hq with rfl | hq
      · exact absurd (FlowRec.matches_iff.1 hm) hne
      · simp [hq]
    obtain ⟨⟨l₁, found⟩, hw, he⟩ := Option.map_eq_some_iff.1 h
    have hkept := (walkFlows_walked hw).kept
    cases found with
    | some b =>
      obtain ⟨rfl, -⟩ : p :: l₁ = l' ∧ b = a := by simpa using he
      rcases List.mem_cons.1 hq with rfl | hq
      · simp
      · exact List.mem_cons_of_mem _ (hkept q hq hne hexp)
    | none =>
      by_cases hp : gc = true ∧ p.2.Expired data.timestamp
      · obtain ⟨rfl, -⟩ : (p.1, p.2.fill data) :: l₁ = l' ∧ p.1 = a := by simpa [hp] using he
        rcases List.mem_cons.1 hq with rfl | hq
        · exact absurd hp hexp
        · exact List.mem_cons_of_mem _ (hkept q hq hne hexp)
      · obtain ⟨rfl, -⟩ : p :: l₁ ++ [(new, junk.fill data)] = l' ∧ new = a := by
          simpa [hp] using he
        rcases List.mem_cons.1 hq with rfl | hq
        · simp
        · simp [hkept q hq hne hexp]

/-- **What a call does.** -/
theorem refFlows_referenced {new a : ℕ} {junk : FlowRec} (hnd : (Linked.addrs l).Nodup)
    (h : refFlows data gc new junk l = some (l', a)) : Referenced data gc new l l' a := by
  have hkept : ∀ p ∈ l, p.2.key ≠ data.key → ¬p.2.Expired data.timestamp → p ∈ l' :=
    fun p hp hne hexp ↦ refFlows_kept h p hp hne fun hgc ↦ hexp hgc.2
  cases l with
  | nil => exact absurd h (by simp [refFlows])
  | cons p l =>
    rw [refFlows] at h
    split at h
    · next hm =>
      obtain ⟨rfl, rfl⟩ : _ ∧ p.1 = a := by simpa using h
      have hk := FlowRec.matches_iff.1 hm
      refine ⟨⟨p.2.touch data.timestamp, by simp, hk, rfl, by simp [bucketMeets, hm]⟩, hkept, ?_,
        ?_⟩
      · intro q hq hne
        rcases List.mem_cons.1 hq with rfl | hq
        · exact absurd rfl hne
        · simp [hq]
      · simp [bucketMeets, hm]
    next hm =>
    have hk : p.2.key ≠ data.key := fun hk ↦ hm (FlowRec.matches_iff.2 hk)
    have hmeets : bucketMeets data gc ((p :: l).map Prod.snd) = meets data gc (l.map Prod.snd) := by
      simp [bucketMeets, hm]
    obtain ⟨⟨l₁, found⟩, hw, he⟩ := Option.map_eq_some_iff.1 h
    have hwalk := walkFlows_walked hw
    have hadd : (Linked.addrs l₁).Sublist (Linked.addrs l) := hwalk.sublist
    have hp : p.1 ∉ Linked.addrs l := (List.nodup_cons.1 hnd).1
    have hold : ∀ q ∈ l₁, found ≠ some q.1 → q ∈ p :: l := by
      intro q hq hne
      rcases hwalk.old q hq with h | ⟨x, -, -, -, hf⟩
      · exact List.mem_cons_of_mem _ h
      · exact absurd hf hne
    cases found with
    | some b =>
      obtain ⟨rfl, rfl⟩ : p :: l₁ = l' ∧ b = a := by simpa using he
      obtain ⟨x, hx, hkx, hmx, hl₁⟩ := hwalk.stop b rfl
      refine ⟨⟨x.touch data.timestamp, List.mem_cons_of_mem _ hl₁, hkx, rfl, ?_⟩, hkept, ?_, ?_⟩
      · rw [hmeets, hmx]
        exact ⟨List.mem_cons_of_mem _ hx, rfl⟩
      · intro q hq hne
        rcases List.mem_cons.1 hq with rfl | hq
        · simp
        · exact hold q hq fun h ↦ hne (Option.some.inj h).symm
      · rw [hmeets, hmx]
        simp
    | none =>
      obtain ⟨hnone, habs⟩ := hwalk.absent rfl
      have hall : ∀ p₀ l₀, p :: l = p₀ :: l₀ → ¬StepsOver data gc (l₀.map Prod.snd) →
          ∀ q ∈ p :: l, q.2.key ≠ data.key := by
        rintro p₀ l₀ ⟨⟩ hso q hq
        rcases List.mem_cons.1 hq with rfl | hq
        · exact hk
        · exact habs hso q hq
      by_cases hexp : gc = true ∧ p.2.Expired data.timestamp
      · obtain ⟨rfl, rfl⟩ : (p.1, p.2.fill data) :: l₁ = l' ∧ p.1 = a := by simpa [hexp] using he
        refine ⟨⟨p.2.fill data, by simp, rfl, rfl, ?_⟩, hkept, ?_, fun _ ↦ hall⟩
        · rw [hmeets, hnone]
          exact ⟨rfl, .inr ⟨p.2, by simp, hexp.2⟩⟩
        · intro q hq hne
          rcases List.mem_cons.1 hq with rfl | hq
          · exact absurd rfl hne
          · exact hold q hq (by simp)
      · obtain ⟨rfl, rfl⟩ : p :: l₁ ++ [(new, junk.fill data)] = l' ∧ new = a := by
          simpa [hexp] using he
        refine ⟨⟨junk.fill data, by simp, rfl, rfl, ?_⟩, hkept, ?_, fun _ ↦ hall⟩
        · rw [hmeets, hnone]
          exact ⟨rfl, .inl rfl⟩
        · intro q hq hne
          simp only [List.cons_append, List.mem_cons, List.mem_append, List.not_mem_nil,
            or_false] at hq
          rcases hq with rfl | hq | rfl
          · simp
          · exact hold q hq (by simp)
          · exact absurd rfl hne

/-! ## Tables -/

/-- The records of each bucket, with their addresses. -/
abbrev FlowTab := ℕ → List (ℕ × FlowRec)

/-- The table `db` of the code is well formed and its records are those of `T`. -/
def FlowTable.View (db : FlowTable) (T : FlowTab) : Prop := ∀ h, HoldsFlows (db h) (T h)

/-- The table before the first call. -/
def FlowTab.init : FlowTab := fun _ ↦ [(0, FlowRec.init)]

theorem view_flowTableInit : FlowTable.View flowTableInit FlowTab.init := holdsFlows_init

variable {mem : Arena TableFlow} {a : ℕ} {x : FlowRec} {db db' : FlowTable} {T T' : FlowTab}

/-- A record's contents are those of its address. -/
theorem HoldsFlows.unique (h : HoldsFlows mem l) {y : FlowRec} (hx : (a, x) ∈ l) (hy : (a, y) ∈ l) :
    x = y := by
  have hinj := List.inj_on_of_nodup_map h.nodup
  exact congrArg Prod.snd (hinj hx hy rfl)

/-- The records after a store at `a`. -/
def storeAt (a : ℕ) (f : FlowRec → FlowRec) (l : List (ℕ × FlowRec)) : List (ℕ × FlowRec) :=
  l.map fun p ↦ if p.1 = a then (p.1, f p.2) else p

theorem mem_storeAt {f : FlowRec → FlowRec} {p : ℕ × FlowRec} :
    p ∈ storeAt a f l ↔ (p.1 ≠ a ∧ p ∈ l) ∨ (p.1 = a ∧ ∃ x, (a, x) ∈ l ∧ p.2 = f x) := by
  simp only [storeAt, List.mem_map]
  constructor
  · rintro ⟨q, hq, rfl⟩
    split
    · next h => exact .inr ⟨h, q.2, by rwa [← h], rfl⟩
    · next h => exact .inl ⟨h, hq⟩
  · rintro (⟨hne, hp⟩ | ⟨rfl, x, hx, hp⟩)
    · exact ⟨p, hp, if_neg hne⟩
    · exact ⟨(p.1, x), hx, by rw [if_pos rfl, ← hp]⟩

/-- **A store into a record of the bucket.** -/
theorem storeFlow_spec (h : HoldsFlows mem l) (hx : (a, x) ∈ l) (f : FlowRec → FlowRec) :
    ∃ mem', storeFlow mem a f = some mem' ∧ HoldsFlows mem' (storeAt a f l) := by
  obtain ⟨l₁, l₂, rfl⟩ := List.append_of_mem hx
  obtain ⟨mem', hmod, hh, -⟩ := h.set (fun r : TableFlow ↦ { r with toFlowRec := f r.toFlowRec })
    (y := f x) fun c hc ↦ ⟨by rw [← hc], rfl, rfl⟩
  have hnd := h.nodup
  rw [Linked.addrs_append, Linked.addrs_cons] at hnd
  obtain ⟨-, hnd₂, hdisj⟩ := List.nodup_append.1 hnd
  have hsame : ∀ l₀ : List (ℕ × FlowRec), a ∉ Linked.addrs l₀ → storeAt a f l₀ = l₀ := by
    intro l₀ ha
    calc storeAt a f l₀ = l₀.map id := List.map_congr_left fun p hp ↦
          if_neg fun h ↦ ha (by rw [← h]; exact Linked.mem_addrs_of_mem hp)
      _ = l₀ := List.map_id _
  have hstore : storeAt a f (l₁ ++ (a, x) :: l₂) = l₁ ++ (a, f x) :: l₂ := by
    have h₁ := hsame l₁ fun hm ↦ hdisj a hm a (by simp) rfl
    have h₂ := hsame l₂ (List.nodup_cons.1 hnd₂).1
    rw [storeAt] at h₁ h₂ ⊢
    rw [List.map_append, List.map_cons, h₁, h₂, if_pos rfl]
  exact ⟨mem', hmod, hstore ▸ hh⟩

/-- What a call and the store after it do to the table, where `a` is the address of the record
returned. -/
structure FlowCall.Did (c : FlowCall) (T T' : FlowTab) (a : ℕ) : Prop where
  /-- The other buckets are as before. -/
  other : ∀ h, h ≠ c.flow.bucket → T' h = T h
  /-- The record returned is the one met, or a new one in a block that was not in use or held a flow
  that has expired. -/
  ret : ∃ y, (a, y) ∈ T' c.flow.bucket ∧ y.key = c.flow.key ∧ y.timestamp = c.time ∧
    match bucketMeets c.flow c.env.collects ((T c.flow.bucket).map Prod.snd) with
    | some x => (a, x) ∈ T c.flow.bucket ∧ y.toAnon = c.store.getD x.toAnon
    | none => y.toAnon = c.store.getD (-1) ∧ ∀ x, (a, x) ∈ T c.flow.bucket → x.Expired c.time
  /-- A record of another flow that has not expired is left. -/
  kept : ∀ p ∈ T c.flow.bucket, p.2.key ≠ c.flow.key → ¬p.2.Expired c.time → p ∈ T' c.flow.bucket
  /-- The other records were there before. -/
  old : ∀ p ∈ T' c.flow.bucket, p.1 ≠ a → p ∈ T c.flow.bucket
  /-- When no record is met, one of the flow was stepped over. -/
  absent : bucketMeets c.flow c.env.collects ((T c.flow.bucket).map Prod.snd) = none →
    ∀ p l, T c.flow.bucket = p :: l → ¬AlphaMon.StepsOver c.flow c.env.collects (l.map Prod.snd) →
    ∀ q ∈ T c.flow.bucket, q.2.key ≠ c.flow.key

/-- The records of a bucket, in terms of which the conditions on a call are stated. -/
theorem FlowTable.View.records (hdb : db.View T) (h : ℕ) :
    flowRecords (db h) = (T h).map Prod.snd :=
  (hdb h).records_eq

theorem FlowTable.View.ne_nil (hdb : db.View T) (h : ℕ) : ∃ p l, T h = p :: l := by
  have hfirst := (hdb h).first
  cases hT : T h with
  | nil => simp [hT] at hfirst
  | cons p l => exact ⟨p, l, rfl⟩

/-- **The call of `reference_flow`** on the table is `refFlows` on its bucket: it fails when it
falls off, and otherwise leaves a well-formed table. -/
theorem referenceFlow_eq (hdb : db.View T) {c : FlowCall} (hok : c.AllocOk) :
    (c.FallsOff db ∧ referenceFlow db c.flow c.env = none) ∨
    (¬c.FallsOff db ∧ ∃ db' a l' junk, referenceFlow db c.flow c.env = some (db', a) ∧
      db'.View (Function.update T c.flow.bucket l') ∧
      refFlows c.flow c.env.collects (db c.flow.bucket).fresh junk (T c.flow.bucket) =
        some (l', a)) := by
  obtain ⟨junk, hjunk⟩ := Option.ne_none_iff_exists'.1 hok
  obtain ⟨p, l, hT⟩ := hdb.ne_nil c.flow.bucket
  have hspec := referenceFlowBucket_spec (hdb c.flow.bucket) c.flow c.env hjunk
  have hfalls : refFlows c.flow c.env.collects (db c.flow.bucket).fresh junk (T c.flow.bucket) =
    none ↔
      c.FallsOff db := by
    rw [FlowCall.FallsOff, hdb.records, hT, refFlows, List.map_cons]
    split
    · next hm => simp [hm]
    · next hm => simp [hm, walkFlows_eq_none]
  cases hr : refFlows c.flow c.env.collects (db c.flow.bucket).fresh junk (T c.flow.bucket) with
  | none =>
    rw [hr] at hspec
    have hnone : referenceFlowBucket (db c.flow.bucket) c.flow c.env = none := hspec
    exact .inl ⟨hfalls.1 hr, by simp [referenceFlow, hnone]⟩
  | some r =>
    rw [hr] at hspec hfalls
    obtain ⟨l', a⟩ := r
    obtain ⟨mem', hrun, hh⟩ := hspec
    refine .inr ⟨fun h ↦ absurd (hfalls.2 h) (by simp),
      Function.update db c.flow.bucket mem', a, l', junk, by
        simp [referenceFlow, hrun], fun h ↦ ?_, hr⟩
    by_cases he : h = c.flow.bucket
    · subst he
      simpa using hh
    · simpa [Function.update_of_ne he] using hdb h

/-- What the call does to its bucket. -/
theorem referenceFlow_spec (hdb : db.View T) {c : FlowCall} (hok : c.AllocOk) :
    (c.FallsOff db ∧ referenceFlow db c.flow c.env = none) ∨
    (¬c.FallsOff db ∧ ∃ db' a l', referenceFlow db c.flow c.env = some (db', a) ∧
      db'.View (Function.update T c.flow.bucket l') ∧
      Referenced c.flow c.env.collects (db c.flow.bucket).fresh (T c.flow.bucket) l' a) := by
  rcases referenceFlow_eq hdb hok with h | ⟨hf, db', a, l', junk, href, hdb', hr⟩
  · exact .inl h
  · exact .inr ⟨hf, db', a, l', href, hdb', refFlows_referenced (hdb c.flow.bucket).nodup hr⟩

/-- What the caller stores in the record returned, as a function on records. -/
def FlowCall.stored (c : FlowCall) (r : FlowRec) :
    FlowRec := { r with toAnon := c.store.getD r.toAnon }

theorem storeAt_id (a : ℕ) (l : List (ℕ × FlowRec)) : storeAt a id l = l := by
  simp [storeAt]

/-- A call on its bucket and the store after it, as a step of the table. -/
theorem Referenced.did (hdb : db.View T) {c : FlowCall} {l' : List (ℕ × FlowRec)}
    (hb : HoldsFlows mem l') (h : Referenced c.flow c.env.collects (db c.flow.bucket).fresh
      (T c.flow.bucket) l' a) :
    c.Did T (Function.update T c.flow.bucket (storeAt a c.stored l')) a := by
  obtain ⟨y, hy, hkey, htime, hmeets⟩ := h.ret
  refine ⟨fun h he ↦ Function.update_of_ne he _ _, ⟨c.stored y, ?_, hkey, htime, ?_⟩, ?_, ?_,
    h.absent⟩
  · rw [Function.update_self]
    exact mem_storeAt.2 (.inr ⟨rfl, y, hy, rfl⟩)
  · split at hmeets
    · next x _ =>
      obtain ⟨hx, rfl⟩ := hmeets
      exact ⟨hx, rfl⟩
    · obtain ⟨hundec, hnew⟩ := hmeets
      refine ⟨by simp [FlowCall.stored, hundec], fun x hx ↦ ?_⟩
      rcases hnew with rfl | ⟨x₀, hhead, hexp⟩
      · exact absurd ((hdb c.flow.bucket).lt_fresh _ (Linked.mem_addrs_of_mem hx)) (lt_irrefl _)
      · obtain rfl := (hdb c.flow.bucket).unique hx (List.mem_of_head? hhead)
        exact hexp
  · intro p hp hne hexp
    rw [Function.update_self]
    refine mem_storeAt.2 (.inl ⟨fun ha ↦ hne ?_, h.kept p hp hne hexp⟩)
    have hp' : (a, p.2) ∈ l' := ha ▸ h.kept p hp hne hexp
    rw [← hb.unique hy hp', hkey]
  · intro p hp hne
    rw [Function.update_self] at hp
    rcases mem_storeAt.1 hp with ⟨-, hp⟩ | ⟨ha, -⟩
    · exact h.old p hp hne
    · exact absurd ha hne

/-- **A call and the store after it** on the table. -/
theorem FlowCall.run_spec (hdb : db.View T) {c : FlowCall} (hok : c.AllocOk) :
    (c.FallsOff db ∧ c.run db = none) ∨
    (¬c.FallsOff db ∧ ∃ db' a T', c.run db = some (db', a) ∧ db'.View T' ∧ c.Did T T' a) := by
  rcases referenceFlow_spec hdb hok with ⟨hf, hnone⟩ | ⟨hf, db₁, a, l', href, hdb₁, hdid⟩
  · exact .inl ⟨hf, by simp [FlowCall.run, hnone]⟩
  obtain ⟨y, hy, -⟩ := hdid.ret
  have hb : HoldsFlows (db₁ c.flow.bucket) l' := by simpa using hdb₁ c.flow.bucket
  obtain ⟨mem', hstore, hh⟩ : ∃ mem', storeToAnon (db₁ c.flow.bucket) a c.store = some mem' ∧
      HoldsFlows mem' (storeAt a c.stored l') := by
    cases hs : c.store with
    | none =>
      have hid : c.stored = id := funext fun r ↦ by simp [FlowCall.stored, hs]
      exact ⟨_, rfl, by rwa [hid, storeAt_id]⟩
    | some v =>
      have hf : c.stored = fun r ↦ { r with toAnon := v } :=
        funext fun r ↦ by simp [FlowCall.stored, hs]
      obtain ⟨mem', hmod, hh⟩ := storeFlow_spec hb hy c.stored
      exact ⟨mem', by rw [hf] at hmod; exact hmod, hh⟩
  refine .inr ⟨hf, Function.update db₁ c.flow.bucket mem', a,
    Function.update T c.flow.bucket (storeAt a c.stored l'), by simp [FlowCall.run, href, hstore],
    fun h ↦ ?_, hdid.did hdb hb⟩
  by_cases he : h = c.flow.bucket
  · subst he
    simpa using hh
  · simpa [Function.update_of_ne he] using hdb₁ h

/-! ## Runs -/

/-- Every call of the run meets a condition in the state it finds. -/
def FlowRunMeets (P : FlowCall → FlowTable → Prop) : FlowTable → List FlowCall → Prop
  | _, [] => True
  | db, c :: calls => P c db ∧ ∀ db' a, c.run db = some (db', a) → FlowRunMeets P db' calls

instance decidableFlowRunMeets {P : FlowCall → FlowTable → Prop} [∀ c db, Decidable (P c db)] :
    ∀ db calls, Decidable (FlowRunMeets P db calls)
  | _, [] => isTrue trivial
  | db, c :: calls =>
    match h : c.run db with
    | none =>
      decidable_of_iff (P c db) ⟨fun hP ↦ ⟨hP, fun _ _ h' ↦ absurd (h.symm.trans h') (by simp)⟩,
      And.left⟩
    | some (db₁, a₁) =>
      have := decidableFlowRunMeets (P := P) db₁ calls
      decidable_of_iff (P c db ∧ FlowRunMeets P db₁ calls)
        ⟨fun ⟨hP, hl⟩ ↦ ⟨hP, fun _ _ h' ↦ by
          obtain ⟨rfl, -⟩ := Prod.mk.inj (Option.some.inj (h.symm.trans h'))
          exact hl⟩,
          fun ⟨hP, hl⟩ ↦ ⟨hP, hl db₁ a₁ h⟩⟩

/-- **Falling off is all that breaks a bucket**: from a well-formed table, a run follows no bad
pointer and leaves every bucket well linked if and only if none of its calls falls off. -/
theorem runFlows_ok_iff (hdb : db.View T) {calls : List FlowCall} (hok : ∀ c ∈ calls, c.AllocOk) :
    (∃ db' ptrs, runFlows db calls = some (db', ptrs) ∧ ∀ h, WellLinked (db' h)) ↔
      FlowRunMeets (fun c db ↦ ¬c.FallsOff db) db calls := by
  induction calls generalizing db T with
  | nil => exact ⟨fun _ ↦ trivial, fun _ ↦ ⟨db, [], rfl, fun h ↦ ⟨T h, hdb h⟩⟩⟩
  | cons c calls ih =>
    rcases FlowCall.run_spec hdb (hok c (by simp)) with ⟨hf, hnone⟩ | ⟨hf, db₁, a, T₁, hrun,
      hdb₁, -⟩
    · simp [runFlows, hnone, FlowRunMeets, hf]
    · have ih := ih hdb₁ fun c' hc' ↦ hok c' (by simp [hc'])
      simp only [FlowRunMeets, hf, not_false_eq_true, true_and]
      constructor
      · rintro ⟨db', ptrs, hr, hw⟩ db₂ a₂ hrun₂
        obtain ⟨rfl, rfl⟩ : db₁ = db₂ ∧ a = a₂ := by simpa using hrun.symm.trans hrun₂
        simp only [runFlows, hrun, Option.bind_eq_bind, Option.bind_some] at hr
        obtain ⟨⟨db₃, ptrs₃⟩, hr₃, he⟩ := Option.bind_eq_some_iff.1 hr
        obtain ⟨rfl, -⟩ : db₃ = db' ∧ _ := by simpa using he
        exact ih.1 ⟨db₃, ptrs₃, hr₃, hw⟩
      · intro hm
        obtain ⟨db', ptrs, hr, hw⟩ := ih.2 (hm db₁ a hrun)
        exact ⟨db', (c.flow.bucket, a) :: ptrs, by simp [runFlows, hrun, hr], hw⟩

/-- **The chains of the flow table**: from the initial table, a run follows no bad pointer and
leaves every bucket well linked if and only if none of its calls falls off. -/
theorem flow_chain_ok {calls : List FlowCall} (hok : ∀ c ∈ calls, c.AllocOk) :
    (∃ db ptrs, runFlows flowTableInit calls = some (db, ptrs) ∧ ∀ h, WellLinked (db h)) ↔
      FlowRunMeets (fun c db ↦ ¬c.FallsOff db) flowTableInit calls :=
  runFlows_ok_iff view_flowTableInit hok

/-- A call for an IPv4/TCP flow. -/
def FlowCall.plain (src dst : BitVec 32) (inPort outPort : ℕ) (t : ℤ) (tsc : ℕ)
    (store : Option ℤ) : FlowCall :=
  { flow := ⟨4, src, dst, 0, 0, inPort, outPort, 6, t⟩, env := ⟨tsc, some FlowRec.init⟩,
    store := store }

/-- Four flows of one bucket, the first two of which have expired when the third is seen again: that
call deletes the record of the first. -/
def sampleFlows : List FlowCall := [.plain 1 2 10 20 0 0 (some 0), .plain 1 2 11 21 0 0 (some 1),
  .plain 1 2 12 18 1000 0 (some 1), .plain 1 2 13 19 1000 0 (some 0), .plain 1 2 12 18 1001 6 none]

/-- The fourth flow in the other direction: the call deletes the record of the second. -/
def sampleFlowAgain : FlowCall := .plain 2 1 19 13 1002 6 none

theorem flow_chain_ok_collected :
    ∃ db ptrs, runFlows flowTableInit (sampleFlows ++ [sampleFlowAgain]) = some (db, ptrs) ∧
      ∀ h, WellLinked (db h) :=
  have hok : ∀ c ∈ sampleFlows ++ [sampleFlowAgain], c.AllocOk := by
    simp [sampleFlows, sampleFlowAgain, FlowCall.AllocOk, FlowCall.plain]
  (flow_chain_ok hok).2 (by decide +kernel)

/-- Two flows of one bucket a quarter of an hour apart: the second call deletes the record of the
first, which is the last of the chain. -/
theorem flow_chain_fails : ¬∀ calls : List FlowCall,
    (calls.Pairwise fun c c' ↦ c.time ≤ c'.time) → (∀ c ∈ calls, c.AllocOk) →
    ∃ db ptrs, runFlows flowTableInit calls = some (db, ptrs) ∧ ∀ h, WellLinked (db h) := by
  intro h
  obtain ⟨db, ptrs, hrun, -⟩ := h [.plain 1 2 10 20 0 0 none, .plain 1 2 11 21 1000 6 none]
    (by simp [FlowCall.plain, FlowCall.time]) (by simp [FlowCall.AllocOk, FlowCall.plain])
  have hnone : (runFlows flowTableInit
      [.plain 1 2 10 20 0 0 none, .plain 1 2 11 21 1000 6 none]).isSome = false := by
    decide +kernel
  rw [hrun] at hnone
  simp at hnone

end AlphaMon
