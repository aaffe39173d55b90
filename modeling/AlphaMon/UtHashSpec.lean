import Mathlib.Data.Finset.Card
import AlphaMon.UtHashChains

/-!
# What the macros do

A hash in memory stands for the list of its entries in the order of insertion (`UtHash.State`).  The
entries are linked in this order, the table of the head counts them and points to the last one, and
each is in the bucket of its hash, among as many buckets as a power of two below `2 ^ 32`.

`HASH_ADD` puts an entry at the end of the list, `HASH_DELETE` takes one out and `HASH_FIND` finds
the entry with a key.  Only the first can fail, and only when it has to double `2 ^ 31` buckets,
whose number is then zero.
-/

set_option autoImplicit false

namespace AlphaMon

open Linked

variable {κ : Type} [HashKey κ]

/-- A hash whose entries are `l`, in the order of insertion, of which those of `k` are in the
buckets. -/
structure UtHash.Holds (s : UtHash κ) (t : ℕ) (T : UtHashTable) (l k : List (ℕ × κ × κ)) :
    Prop where
  head : s.head = first l none
  ne : l ≠ []
  nodup : (addrs l).Nodup
  chain : Chain s.elems.cell none l none
  tbl : ∀ a ∈ addrs k, ∀ e, s.elems.cell a = some e → e.tbl = some t
  fresh : ∀ a, (s.elems.cell a).isSome → a < s.elems.fresh
  table : s.tables.cell t = some T
  only : ∀ t', (s.tables.cell t').isSome → t' = t
  tail : T.tail = last none l
  log2 : T.log2NumBuckets < 32
  size : T.numBuckets = 2 ^ T.log2NumBuckets
  buckets : ∃ B, Buckets s.elems.cell T.buckets T.numBuckets B ∧
    ∀ j < T.numBuckets, ∀ q, q ∈ B j ↔ q ∈ k ∧ AlphaMon.home T.numBuckets q = j

/-- `tbl->num_buckets` of the table of a hash, if there is one. -/
def UtHash.numBuckets (s : UtHash κ) : ℕ :=
  (((s.elems.read s.head).bind fun e ↦ s.tables.read e.tbl).map UtHashTable.numBuckets).getD 0

/-- A hash that stands for the entries `l`. -/
def UtHash.State (s : UtHash κ) (l : List (ℕ × κ × κ)) : Prop :=
  (l = [] ∧ s.head = none ∧ (∀ t, s.tables.cell t = none) ∧
    ∀ a, (s.elems.cell a).isSome → a < s.elems.fresh) ∨
  ∃ t T, s.Holds t T l l ∧ T.numItems = l.length

variable {s : UtHash κ} {t : ℕ} {T : UtHashTable} {l k : List (ℕ × κ × κ)}

theorem UtHash.Holds.home_lt (h : s.Holds t T l k) (q : ℕ × κ × κ) :
    AlphaMon.home T.numBuckets q < T.numBuckets := h.size ▸ AlphaMon.home_lt h.log2 q

omit [HashKey κ] in
theorem exists_entry {m : ℕ → Option (KeyHash κ)} {b e : Option ℕ} (h : Chain m b l e) {a : ℕ}
    (ha : a ∈ addrs l) : ∃ c, m a = some c := Option.isSome_iff_exists.1 (h.isSome ha)

/-- The entry at the head, and its table. -/
theorem UtHash.Holds.read_head (h : s.Holds t T l l) :
    ∃ a hd, s.head = some a ∧ a ∈ addrs l ∧ s.elems.cell a = some hd ∧ hd.tbl = some t := by
  rcases hl : l with _ | ⟨p, l'⟩
  · exact absurd hl h.ne
  · have hp : p.1 ∈ addrs l := by rw [hl, addrs_cons]; exact List.mem_cons_self
    obtain ⟨hd, hhd⟩ := exists_entry h.chain hp
    exact ⟨p.1, hd, by rw [h.head, hl, first_cons], hl ▸ hp, hhd, h.tbl _ hp _ hhd⟩

theorem UtHash.Holds.numBuckets (h : s.Holds t T l l) : s.numBuckets = T.numBuckets := by
  obtain ⟨a, hd, hhead, -, hcell, htbl⟩ := h.read_head
  rw [UtHash.numBuckets, hhead, Arena.read_some, hcell, Option.bind_some, htbl, Arena.read_some,
    h.table]
  rfl

/-! ## Finding -/

theorem hashFindInBkt_spec [DecidableEq κ] {m : Arena (KeyHash κ)} {b : Option ℕ} (key : κ)
    {fuel : ℕ} (hfuel : l.length ≤ fuel) (h : BktChain m.cell b l) :
    hashFindInBkt m key fuel (first l none) =
      some ((l.find? fun p ↦ p.2.1 = key).map Prod.fst) := by
  induction l generalizing fuel b with
  | nil => cases fuel <;> rfl
  | cons p l ih =>
    obtain ⟨fuel, rfl⟩ := Nat.exists_eq_add_of_le' (Nat.one_le_of_lt hfuel)
    obtain ⟨⟨e, he, hR, -, hnext⟩, hl⟩ := bktChain_cons.1 h
    rw [first_cons, hashFindInBkt, he]
    simp only [Option.bind_eq_bind, Option.bind_some, hR.1, List.find?_cons]
    by_cases hp : p.2.1 = key
    · rw [if_pos hp, decide_eq_true hp]
      rfl
    · rw [if_neg hp, decide_eq_false hp, hnext]
      exact ih (Nat.le_of_succ_le_succ hfuel) hl

/-- The chains are no longer than what was ever allocated. -/
theorem length_le_fresh {m : Arena (KeyHash κ)} {b : Option ℕ}
    (hfresh : ∀ a, (m.cell a).isSome → a < m.fresh) (h : BktChain m.cell b l)
    (hnd : (addrs l).Nodup) : l.length ≤ m.fresh := by
  have hlt : ∀ a ∈ addrs l, a < m.fresh := fun a ha ↦ hfresh a (Chain.isSome h ha)
  calc l.length = (addrs l).length := (List.length_map ..).symm
    _ = (addrs l).toFinset.card := (List.toFinset_card_of_nodup hnd).symm
    _ ≤ (Finset.range m.fresh).card := Finset.card_le_card fun a ha ↦ by
      rw [Finset.mem_range]
      exact hlt a (List.mem_toFinset.1 ha)
    _ = m.fresh := Finset.card_range _

/-- **`HASH_FIND` finds the entry with the key**, if there is one. -/
theorem hashFindKey_spec [DecidableEq κ] (h : s.State l) (hkeys : (l.map fun p ↦ p.2.1).Nodup)
    (key : κ) : hashFindKey s key = some ((l.find? fun p ↦ p.2.1 = key).map Prod.fst) := by
  rcases h with ⟨rfl, hhead, -, -⟩ | ⟨t, T, h, -⟩
  · rw [hashFindKey, hhead]
    rfl
  obtain ⟨a, hd, hhead, -, hcell, htbl⟩ := h.read_head
  obtain ⟨B, hB, hmem⟩ := h.buckets
  set j := hashToBkt (hashFcn key) T.numBuckets with hj
  have hjlt : j < T.numBuckets := h.home_lt (0, key, key)
  obtain ⟨b, hb, hfirst, -⟩ := hB.bucket j hjlt
  have hfind := hashFindInBkt_spec key (length_le_fresh h.fresh (hB.chain j hjlt) (hB.nodup j hjlt))
    (hB.chain j hjlt)
  rw [hashFindKey, hhead]
  simp only [Option.bind_eq_bind, hcell, Option.bind_some, htbl, Arena.read_some, h.table, ← hj, hb]
  rw [hfirst, hfind]
  -- an entry with the key is in this bucket
  have hiff (p : ℕ × κ × κ) (hp : p.2.1 = key) : p ∈ B j ↔ p ∈ l := by
    rw [hmem j hjlt, AlphaMon.home, hp, ← hj]
    exact and_iff_left rfl
  suffices heq : (B j).find? (fun p ↦ p.2.1 = key) = l.find? fun p ↦ p.2.1 = key by rw [heq]
  rcases hl : l.find? fun p ↦ p.2.1 = key with _ | p
  · rw [hl, List.find?_eq_none]
    intro p hp hk
    exact List.find?_eq_none.1 hl p ((hiff p (of_decide_eq_true hk)).1 hp) hk
  · have hp : p ∈ l := List.mem_of_find?_eq_some hl
    have hk : p.2.1 = key := by simpa using List.find?_some hl
    rcases hq : (B j).find? fun p ↦ p.2.1 = key with _ | q
    · rw [List.find?_eq_none] at hq
      exact absurd (decide_eq_true hk) (hq p ((hiff p hk).2 hp))
    · have hqk : q.2.1 = key := by simpa using List.find?_some hq
      have hql := (hiff q hqk).1 (List.mem_of_find?_eq_some hq)
      rw [hl, hq, List.inj_on_of_nodup_map hkeys hql hp (hqk.trans hk.symm)]

/-! ## Adding -/

/-- A table of empty buckets. -/
theorem Buckets.zero (m : ℕ → Option (KeyHash κ)) (n : ℕ) :
    Buckets m (Array.replicate n .zero) n fun _ ↦ [] := by
  refine ⟨Array.size_replicate, fun j hj ↦ ⟨.zero, ?_, rfl, rfl⟩, fun _ _ ↦ trivial,
    fun _ _ ↦ List.nodup_nil, fun _ _ _ hp ↦ absurd hp List.not_mem_nil⟩
  rw [Array.getElem?_replicate, if_pos hj]

omit [HashKey κ] in
/-- The entry that an entry was, before writes to the links of its bucket. -/
theorem SameApp.entry {m m' : ℕ → Option (KeyHash κ)} (h : SameApp m m') {a : ℕ} {e' : KeyHash κ}
    (he : m' a = some e') :
    ∃ e, m a = some e ∧ e'.key = e.key ∧ e'.cpanAddr = e.cpanAddr ∧ e'.tbl = e.tbl := by
  obtain ⟨e, he₁, happ⟩ := exists_of_map_eq (h a).symm he
  simp only [KeyHash.app, KeyHash.mk.injEq] at happ
  exact ⟨e, he₁, happ.1.symm, happ.2.1.symm, happ.2.2.1.symm⟩

/-- Writes to the buckets, and to the table. -/
theorem UtHash.Holds.rebucket (h : s.Holds t T l k) {s' : UtHash κ} {T' : UtHashTable}
    {k' : List (ℕ × κ × κ)} (happ : SameApp s.elems.cell s'.elems.cell)
    (hfresh : s'.elems.fresh = s.elems.fresh) (hhead : s'.head = s.head)
    (htables : s'.tables.cell = Function.update s.tables.cell t (some T'))
    (htail : T'.tail = T.tail) (hlog2 : T'.log2NumBuckets < 32)
    (hsize : T'.numBuckets = 2 ^ T'.log2NumBuckets)
    (htbl : ∀ a ∈ addrs k', ∀ e, s.elems.cell a = some e → e.tbl = some t)
    (hbuckets : ∃ B, Buckets s'.elems.cell T'.buckets T'.numBuckets B ∧
      ∀ j < T'.numBuckets, ∀ q, q ∈ B j ↔ q ∈ k' ∧ AlphaMon.home T'.numBuckets q = j) :
    s'.Holds t T' l k' where
  head := hhead.trans h.head
  ne := h.ne
  nodup := h.nodup
  chain := chain_of_app h.chain fun a _ ↦ happ a
  tbl a ha e' he' := by
    obtain ⟨e, he, -, -, htbl'⟩ := happ.entry he'
    exact htbl'.trans (htbl a ha e he)
  fresh a ha := hfresh ▸ h.fresh a (happ.isSome a ▸ ha)
  table := by rw [htables, Function.update_self]
  only t' ht' := by
    by_contra hne
    rw [htables, Function.update_of_ne hne] at ht'
    exact hne (h.only t' ht')
  tail := htail.trans h.tail
  log2 := hlog2
  size := hsize
  buckets := hbuckets

/-- **Doubling the buckets** moves every entry to its new bucket. -/
theorem hashExpandBuckets_spec (h : s.Holds t T l l) (hlog2 : T.log2NumBuckets < 31)
    (hitems : 0 < T.numItems) :
    ∃ s' T', hashExpandBuckets s (some t) = some s' ∧ s'.Holds t T' l l ∧
      T'.numItems = T.numItems ∧ SameApp s.elems.cell s'.elems.cell ∧
      s'.elems.fresh = s.elems.fresh := by
  have hlog2' : T.log2NumBuckets + 1 < 32 := by omega
  have hnum : 2 * T.numBuckets % 2 ^ 32 = 2 ^ (T.log2NumBuckets + 1) := by
    rw [h.size, ← Nat.pow_succ', Nat.mod_eq_of_lt (Nat.pow_lt_pow_right (by decide) hlog2')]
  have hideal : 0 < T.numItems >>> (T.log2NumBuckets + 1) +
      if mask (.ofNat 32 T.numItems) (2 ^ (T.log2NumBuckets + 1)) ≠ 0 then 1 else 0 := by
    rcases Nat.eq_zero_or_pos (T.numItems >>> (T.log2NumBuckets + 1)) with hz | hz
    · -- fewer entries than buckets, so that the mask leaves their number alone
      have hlt : T.numItems < 2 ^ (T.log2NumBuckets + 1) := by
        rw [Nat.shiftRight_eq_div_pow] at hz
        exact (Nat.div_eq_zero_iff.1 hz).resolve_left (Nat.two_pow_pos _).ne'
      rw [if_pos]
      · exact Nat.lt_add_left _ Nat.one_pos
      · rw [mask_ofNat hlog2' hlt]
        exact hitems.ne'
    · exact Nat.lt_add_right _ hz
  obtain ⟨B, hB, hmem⟩ := h.buckets
  obtain ⟨x', B', hloop, hB', hmem', happ, hfresh⟩ := hashMoveBuckets_spec hB
    (fun p ↦ AlphaMon.home_lt hlog2' p) hideal T.numBuckets (i := 0) (by omega)
    (x := ⟨s.elems, Array.replicate (2 ^ (T.log2NumBuckets + 1)) .zero, 0⟩)
    (fun j hj ↦ length_le_fresh h.fresh (hB.chain j hj) (hB.nodup j hj))
    (fun j _ hj ↦ hB.chain j (by omega)) (Buckets.zero _ _) (fun _ _ _ _ _ _ _ ↦ by simp)
  simp only [hashExpandBuckets, Arena.read_some, h.table, Option.bind_eq_bind, Option.bind_some,
    hnum,
    hloop, Arena.modify_of_cell h.table]
  refine ⟨_, _, rfl, h.rebucket happ hfresh rfl rfl rfl hlog2' rfl h.tbl
    ⟨B', hB', fun j _ q ↦ ?_⟩, rfl, happ, hfresh⟩
  rw [hmem' j q]
  constructor
  · rintro (hq | ⟨j', -, hj', hq, hhome⟩)
    · exact absurd hq List.not_mem_nil
    · exact ⟨((hmem j' (by omega) q).1 hq).1, hhome⟩
  · rintro ⟨hq, hhome⟩
    have hj' := h.home_lt q
    exact Or.inr ⟨_, Nat.zero_le _, by omega, (hmem _ hj' q).2 ⟨hq, rfl⟩, hhome⟩

/-- **An entry goes to its bucket**, which may double the buckets. -/
theorem hashAddToBkt_spec (h : s.Holds t T l k) {p : ℕ × κ × κ} (hp : p.1 ∉ addrs k) {e : KeyHash κ}
    (he : s.elems.cell p.1 = some e)
    (hR : e.key = p.2.1 ∧ e.cpanAddr = p.2.2 ∧ e.hashv = hashFcn p.2.1) (htbl : e.tbl = some t)
    (hl : ∀ q, q ∈ l ↔ q ∈ k ∨ q = p) (hlog2 : T.log2NumBuckets < 31) (hitems : 0 < T.numItems) :
    ∃ s' T', hashAddToBkt s (some t) (AlphaMon.home T.numBuckets p) p.1 = some s' ∧
      s'.Holds t T' l l ∧ T'.numItems = T.numItems ∧ SameApp s.elems.cell s'.elems.cell ∧
      s'.elems.fresh = s.elems.fresh := by
  obtain ⟨B, hB, hmem⟩ := h.buckets
  have hj := h.home_lt p
  have hpB : p.1 ∉ addrs (B (AlphaMon.home T.numBuckets p)) := fun ha ↦ by
    obtain ⟨q, hq, hqp⟩ := List.mem_map.1 ha
    exact hp (hqp ▸ mem_addrs_of_mem ((hmem _ hj q).1 hq).1)
  obtain ⟨b, hb, -⟩ := hB.bucket _ hj
  obtain ⟨hw₁, hw₂, happ, -⟩ := hB.push_writes (by rw [he]; rfl) hj hb
  have hpush := hB.push he hR hj hpB hb b.expandMult
  set m₁ := modifyAt s.elems.cell (some p.1) fun e ↦ { e with hhPrev := none, hhNext := b.hhHead }
  set m₂ := modifyAt m₁ b.hhHead fun e ↦ { e with hhPrev := some p.1 }
  obtain ⟨e', he', happ'⟩ := exists_of_map_eq (happ p.1) he
  have htbl' : e'.tbl = some t := by
    simp only [KeyHash.app, KeyHash.mk.injEq] at happ'
    exact happ'.2.2.1.trans htbl
  -- the hash before it may be expanded
  let T₁ : UtHashTable := { T with
    buckets := T.buckets.setIfInBounds (AlphaMon.home T.numBuckets p)
      ⟨some p.1, b.count + 1, b.expandMult⟩ }
  have hbefore : UtHash.Holds ⟨⟨m₂, s.elems.fresh⟩,
      ⟨Function.update s.tables.cell t (some T₁), s.tables.fresh⟩, s.head⟩ t T₁ l l := by
    refine h.rebucket happ rfl rfl rfl rfl h.log2 h.size (fun a ha e₁ he₁ ↦ ?_)
      ⟨_, hpush, fun j hj' q ↦ ?_⟩
    · obtain ⟨q, hq, rfl⟩ := List.mem_map.1 ha
      rcases (hl q).1 hq with hq | rfl
      · exact h.tbl _ (mem_addrs_of_mem hq) e₁ he₁
      · rwa [Option.some.inj (he₁.symm.trans he)]
    · by_cases hij : j = AlphaMon.home T.numBuckets p
      · rw [hij, Function.update_self, List.mem_cons, hmem _ hj, hl]
        constructor
        · rintro (rfl | ⟨hq, hq'⟩)
          · exact ⟨Or.inr rfl, rfl⟩
          · exact ⟨Or.inl hq, hq'⟩
        · rintro ⟨hq | rfl, hq'⟩
          · exact Or.inr ⟨hq, hq'⟩
          · exact Or.inl rfl
      · rw [Function.update_of_ne hij, hmem j hj', hl]
        constructor
        · rintro ⟨hq, hq'⟩
          exact ⟨Or.inl hq, hq'⟩
        · rintro ⟨hq | rfl, hq'⟩
          · exact ⟨hq, hq'⟩
          · exact absurd hq'.symm hij
  simp only [hashAddToBkt, Arena.read_some, h.table, Option.bind_eq_bind, Option.bind_some, hb, hw₁,
    hw₂,
    Arena.modify_of_cell h.table, he', htbl', Function.update_self]
  split_ifs
  · obtain ⟨s', T', hexp, h', hitems', happ'', hfresh⟩ :=
      hashExpandBuckets_spec hbefore hlog2 hitems
    exact ⟨s', T', hexp, h', hitems', happ.trans happ'', hfresh⟩
  · exact ⟨_, _, rfl, hbefore, rfl, happ, rfl⟩

omit [HashKey κ] in
/-- A field that writes have kept. -/
theorem eq_of_map_eq {γ : Type} {v : KeyHash κ → γ} {m m' : ℕ → Option (KeyHash κ)} {a : ℕ}
    (h : (m' a).map v = (m a).map v) {e e' : KeyHash κ} (he : m a = some e) (he' : m' a = some e') :
    v e' = v e := by
  rw [he, he'] at h
  exact Option.some.inj h

/-- What appending an entry leaves: the entry is last in the order of insertion, in no bucket yet,
and the table is that of the head. -/
theorem hashAppend_spec (h : s.State l) {a : ℕ} {e : KeyHash κ} (he : s.elems.cell a = some e)
    (ha : a ∉ addrs l) :
    ∃ s' t T hd e', hashAppend s a = some s' ∧ s'.Holds t T (l ++ [(a, e.key, e.cpanAddr)]) l ∧
      T.numItems = l.length ∧ (s.numBuckets = T.numBuckets ∨ T.log2NumBuckets = 17) ∧
      s'.elems.read s'.head = some hd ∧ hd.tbl = some t ∧ s'.elems.cell a = some e' ∧
      e'.key = e.key ∧ e'.cpanAddr = e.cpanAddr ∧ s'.elems.fresh = s.elems.fresh ∧
      ∀ b, (s'.elems.cell b).isSome = (s.elems.cell b).isSome := by
  have hsome : (s.elems.cell a).isSome := by rw [he]; rfl
  have hw₁ := Arena.modify_eq hsome fun e ↦ { e with next := none }
  rcases h with ⟨rfl, hhead, htables, hfresh⟩ | ⟨t, T, h, hitems⟩
  · -- the first entry gets a table
    set m₁ := modifyAt s.elems.cell (some a) fun e ↦ { e with next := none } with hm₁
    have hw₂ := Arena.modify_eq (m := ⟨m₁, s.elems.fresh⟩) (a := a) (by rw [isSome_modifyAt, hsome])
      fun e ↦ { e with prev := none }
    set m₂ := modifyAt m₁ (some a) fun e ↦ { e with prev := none } with hm₂
    have hw₃ := Arena.modify_eq (m := ⟨m₂, s.elems.fresh⟩) (a := a)
      (by rw [isSome_modifyAt, isSome_modifyAt, hsome]) fun e ↦
        { e with tbl := some s.tables.fresh }
    set m₃ := modifyAt m₂ (some a) fun e ↦ { e with tbl := some s.tables.fresh } with hm₃
    have hcell : m₃ a = some { e with next := none, prev := none, tbl := some s.tables.fresh } := by
      rw [hm₃, modifyAt_self, hm₂, modifyAt_self, hm₁, modifyAt_self, he]
      rfl
    have hisSome (b : ℕ) : (m₃ b).isSome = (s.elems.cell b).isSome := by
      rw [isSome_modifyAt, isSome_modifyAt, isSome_modifyAt]
    simp only [hashAppend, hw₁, Option.bind_eq_bind, Option.bind_some, hhead, hw₂, hashMakeTable,
      hw₃]
    refine ⟨_, s.tables.fresh, _, _, _, rfl, ⟨rfl, List.cons_ne_nil _ _, List.nodup_singleton a,
      chain_singleton.2 ⟨_, hcell, ⟨rfl, rfl⟩, rfl, rfl⟩, fun _ hb ↦ absurd hb List.not_mem_nil,
      fun b hb ↦ hfresh b (hisSome b ▸ hb), Function.update_self .., fun t' ht' ↦ ?_, rfl,
      show 17 < 32 by decide, show 131072 = 2 ^ 17 by decide,
      ⟨fun _ ↦ [], Buckets.zero _ _, fun _ _ _ ↦ by simp⟩⟩, rfl, Or.inr rfl, hcell, rfl, hcell, rfl,
      rfl, rfl, hisSome⟩
    by_contra hne
    simp [Function.update_of_ne hne, htables] at ht'
  · obtain ⟨a₀, hd, hhead, ha₀, hcell₀, htbl₀⟩ := h.read_head
    obtain ⟨q, hq, hlast⟩ := exists_last h.ne none
    have hne₀ : a₀ ≠ a := ne_of_mem_of_not_mem ha₀ ha
    have hneq : (some a : Option ℕ) ≠ last none l := fun he ↦ last_ne ha he.symm
    have htail : T.tail = some q := h.tail.trans hlast
    set m₁ := modifyAt s.elems.cell (some a) fun e ↦ { e with next := none } with hm₁
    have hcell₁ : m₁ a₀ = some hd :=
      (modifyAt_of_ne (fun h ↦ hne₀ (Option.some.inj h).symm) _).trans hcell₀
    have hw₂ := Arena.modify_eq (m := ⟨m₁, s.elems.fresh⟩) (a := q)
      (by rw [isSome_modifyAt]; exact h.chain.isSome hq) fun e ↦ { e with next := some a }
    set m₂ := modifyAt m₁ (some q) fun e ↦ { e with next := some a } with hm₂
    have hw₃ := Arena.modify_eq (m := ⟨m₂, s.elems.fresh⟩) (a := a)
      (by rw [isSome_modifyAt, isSome_modifyAt, hsome]) fun e ↦ { e with prev := some q }
    set m₃ := modifyAt m₂ (some a) fun e ↦ { e with prev := some q } with hm₃
    have hm : m₃ = modifyAt (modifyAt m₁ (some a) fun e ↦ { e with prev := some q }) (last none l)
        fun e ↦ { e with next := some a } := by
      rw [hm₃, hm₂, ← hlast, modifyAt_comm hneq.symm]
    have hcell : m₃ a = some { e with next := none, prev := some q } := by
      rw [hm, modifyAt_of_ne hneq.symm, modifyAt_self, hm₁, modifyAt_self, he]
      rfl
    have hcell' : m₃ a₀ = (m₂ a₀) := modifyAt_of_ne (fun h ↦ hne₀ (Option.some.inj h).symm) _
    have hisSome (b : ℕ) : (m₃ b).isSome = (s.elems.cell b).isSome := by
      rw [isSome_modifyAt, isSome_modifyAt, isSome_modifyAt]
    -- none of the writes is to the table or the bucket of an entry
    have hbkt (b : ℕ) : (m₃ b).map KeyHash.bkt = (s.elems.cell b).map KeyHash.bkt := by
      rw [hm₃, map_modifyAt fun _ ↦ by rfl, hm₂, map_modifyAt fun _ ↦ by rfl, hm₁,
        map_modifyAt fun _ ↦ by rfl]
    have htbls (b : ℕ) : (m₃ b).map KeyHash.tbl = (s.elems.cell b).map KeyHash.tbl := by
      rw [hm₃, map_modifyAt fun _ ↦ by rfl, hm₂, map_modifyAt fun _ ↦ by rfl, hm₁,
        map_modifyAt fun _ ↦ by rfl]
    have htbl' (b : ℕ) (hb : b ∈ addrs l) (e' : KeyHash κ) (he' : m₃ b = some e') :
        e'.tbl = some t := by
      obtain ⟨e₀, he₀⟩ := exists_entry h.chain hb
      exact (eq_of_map_eq (htbls b) he₀ he').trans (h.tbl b hb e₀ he₀)
    obtain ⟨hd', hhd'⟩ := Option.isSome_iff_exists.1 ((hisSome a₀).trans (h.chain.isSome ha₀))
    obtain ⟨B, hB, hmem⟩ := h.buckets
    simp only [hashAppend, hw₁, Option.bind_eq_bind, Option.bind_some, hhead, hcell₁, htbl₀,
      Arena.read_some, h.table, htail, hw₂, hw₃, Arena.modify_of_cell h.table]
    refine ⟨_, t, _, hd', _, rfl,
      ⟨?_, by simp, ?_, ?_, htbl', fun b hb ↦ h.fresh b (hisSome b ▸ hb),
      Function.update_self .., fun t' ht' ↦ ?_, ?_, h.log2, h.size,
      ⟨B, hB.congr fun _ _ b _ ↦ hbkt b, hmem⟩⟩, hitems, Or.inl h.numBuckets, hhd',
      htbl' a₀ ha₀ hd' hhd', hcell, rfl, rfl, rfl, hisSome⟩
    · rw [first_append, ← hhead, h.head]
      rcases l with _ | ⟨p, l⟩
      · exact absurd rfl h.ne
      · rfl
    · rw [addrs_append, List.nodup_append]
      exact ⟨h.nodup, List.nodup_singleton a, fun b hb c hc ↦
        List.mem_singleton.1 hc ▸ ne_of_mem_of_not_mem hb ha⟩
    · show Chain m₃ none _ none
      rw [hm]
      refine Chain.concat (c := { e with next := none, prev := some q }) ?_ h.nodup ha ?_ ⟨rfl, rfl⟩
        hlast.symm rfl fun _ _ hR ↦ ⟨hR, rfl, rfl⟩
      · have hoff : ∀ b ∈ addrs l, (some a : Option ℕ) ≠ some b := fun b hb hab ↦
          ha (Option.some.inj hab ▸ hb)
        exact (h.chain.modifyAt_of_notMem hoff _).modifyAt_of_notMem hoff _
      · rw [modifyAt_self, hm₁, modifyAt_self, he]
        rfl
    · by_contra hne
      simp only [Function.update_of_ne hne] at ht'
      exact hne (h.only t' ht')
    · rw [last_append]
      rfl

/-- **`HASH_ADD` puts the entry at the end**, unless it may have to double `2 ^ 31` buckets. -/
theorem hashAddKeyptr_spec (h : s.State l) {a : ℕ} {e : KeyHash κ} (he : s.elems.cell a = some e)
    (ha : a ∉ addrs l) (hn : s.numBuckets ≠ 2 ^ 31) :
    ∃ s', hashAddKeyptr s a = some s' ∧ s'.State (l ++ [(a, e.key, e.cpanAddr)]) ∧
      s'.elems.fresh = s.elems.fresh ∧ ∀ b, (s'.elems.cell b).isSome = (s.elems.cell b).isSome := by
  obtain ⟨s₁, t, T, hd, e₁, happend, h₁, hitems, hnum, hhead, htbl, hcell, hkey, hcpan, hfresh,
    hsome⟩ :=
    hashAppend_spec h he ha
  have hlog2 : T.log2NumBuckets < 31 := by
    rcases hnum with hnum | hnum
    · refine lt_of_le_of_ne (Nat.le_of_lt_succ h₁.log2) fun heq ↦ hn ?_
      rw [hnum, h₁.size, heq]
    · omega
  let T₁ : UtHashTable := { T with numItems := T.numItems + 1 }
  let f : KeyHash κ → KeyHash κ := fun e ↦ { e with tbl := some t, hashv := hashFcn e.key }
  have hw := Arena.modify_eq (m := s₁.elems) (a := a) (by rw [hcell]; rfl) f
  set m := modifyAt s₁.elems.cell (some a) f with hm
  have hoff (b : ℕ) (hb : b ∈ addrs l) : m b = s₁.elems.cell b :=
    modifyAt_of_ne (fun hab : some a = some b ↦ ha (Option.some.inj hab ▸ hb)) f
  have hcell' : m a = some (f e₁) := by rw [hm, modifyAt_self, hcell]; rfl
  obtain ⟨B, hB, hmem⟩ := h₁.buckets
  have hbefore : UtHash.Holds ⟨⟨m, s₁.elems.fresh⟩,
      ⟨Function.update s₁.tables.cell t (some T₁), s₁.tables.fresh⟩, s₁.head⟩ t T₁
      (l ++ [(a, e.key, e.cpanAddr)]) l :=
    { h₁ with
      chain := h₁.chain.modifyAt_of_keep _ fun _ ↦ ⟨rfl, rfl, fun _ hR ↦ hR⟩
      tbl := fun b hb e' he' ↦ h₁.tbl b hb e' ((hoff b hb).symm.trans he')
      fresh := fun b hb ↦ h₁.fresh b ((isSome_modifyAt s₁.elems.cell (some a) f b).symm.trans hb)
      table := Function.update_self ..
      only := fun t' ht' ↦ by
        by_contra hne
        simp only [Function.update_of_ne hne] at ht'
        exact hne (h₁.only t' ht')
      buckets := ⟨B, hB.congr fun j hj b hb ↦ by
        obtain ⟨q, hq, rfl⟩ := List.mem_map.1 hb
        exact congrArg _ (hoff _ (mem_addrs_of_mem ((hmem j hj q).1 hq).1)), hmem⟩ }
  obtain ⟨s', T', hadd, h', hitems', happ, hfresh'⟩ := hashAddToBkt_spec hbefore
    (p := (a, e.key, e.cpanAddr)) ha hcell' ⟨hkey, hcpan, congrArg hashFcn hkey⟩ rfl (by simp) hlog2
    (Nat.succ_pos _)
  have hbkt : hashToBkt (hashFcn e₁.key) T.numBuckets =
      AlphaMon.home T₁.numBuckets (a, e.key, e.cpanAddr) := by rw [hkey]; rfl
  refine ⟨s', ?_, Or.inr ⟨t, T', h', ?_⟩, hfresh'.trans hfresh, fun b ↦ ?_⟩
  · simp only [hashAddKeyptr, happend, Option.bind_eq_bind, Option.bind_some, hhead, htbl,
      Arena.modify_of_cell h₁.table, Arena.read_some, Function.update_self]
    rw [show (fun e : KeyHash κ ↦ { e with tbl := some t, hashv := hashFcn e.key }) = f from rfl,
      hw]
    simp only [Option.bind_some, hcell']
    rw [show hashToBkt (f e₁).hashv T.numBuckets = _ from hbkt]
    exact hadd
  · rw [hitems', List.length_append, ← hitems]
    rfl
  · rw [happ.isSome b, show (m b).isSome = _ from isSome_modifyAt .., hsome b]

/-! ## Deleting -/

theorem hashDelInBkt_spec (h : s.Holds t T l k) {p : ℕ × κ × κ} (hp : p ∈ k)
    {k' : List (ℕ × κ × κ)} (hk' : ∀ q, q ∈ k' ↔ q ∈ k ∧ q ≠ p) {e : KeyHash κ}
    (he : s.elems.cell p.1 = some e) :
    ∃ s' T', hashDelInBkt s (some t) (AlphaMon.home T.numBuckets p) p.1 = some s' ∧
      s'.Holds t T' l k' ∧ T'.numItems = T.numItems ∧ T'.numBuckets = T.numBuckets ∧
      SameApp s.elems.cell s'.elems.cell ∧ s'.elems.fresh = s.elems.fresh := by
  obtain ⟨B, hB, hmem⟩ := h.buckets
  have hj := h.home_lt p
  set j := AlphaMon.home T.numBuckets p with hjdef
  obtain ⟨b, hb, -⟩ := hB.bucket j hj
  obtain ⟨l₁, l₂, hsplit⟩ := List.append_of_mem ((hmem j hj p).2 ⟨hp, rfl⟩)
  obtain ⟨hprev, hnext, hB'⟩ := hB.remove he hj hsplit hb
  have hchain := hB.chain j hj
  have hnd := hB.nodup j hj
  rw [hsplit] at hchain hnd
  have hw₁ := Arena.modifyIf_eq (m := s.elems) (p := e.hhPrev) (fun a ha ↦ by
      refine Chain.isSome hchain ?_
      rw [addrs_append]
      exact List.mem_append_left _ (mem_of_last (hprev ▸ ha)))
    fun e' ↦ { e' with hhNext := e.hhNext }
  set m₁ := modifyAt s.elems.cell e.hhPrev fun e' ↦ { e' with hhNext := e.hhNext } with hm₁
  have hw₂ := Arena.modifyIf_eq (m := ⟨m₁, s.elems.fresh⟩) (p := e.hhNext) (fun a ha ↦ by
      rw [isSome_modifyAt]
      refine Chain.isSome hchain ?_
      rw [addrs_append, addrs_cons]
      exact List.mem_append_right _ (List.mem_cons_of_mem _ (mem_of_first (hnext ▸ ha))))
    fun e' ↦ { e' with hhPrev := e.hhPrev }
  set m₂ := modifyAt m₁ e.hhNext fun e' ↦ { e' with hhPrev := e.hhPrev } with hm₂
  have happ : SameApp s.elems.cell m₂ := fun a ↦ by
    rw [hm₂, map_modifyAt fun _ ↦ by rfl, hm₁, map_modifyAt fun _ ↦ by rfl]
  have hmem' (q : ℕ × κ × κ) : q ∈ l₁ ++ l₂ ↔ q ∈ B j ∧ q ≠ p := by
    rw [hsplit, List.mem_append, List.mem_append, List.mem_cons]
    have hpnd : p ∉ l₁ ++ l₂ := fun hp' ↦ by
      rw [addrs_append, addrs_cons, List.nodup_middle] at hnd
      refine (List.nodup_cons.1 hnd).1 ?_
      rw [← addrs_append]
      exact mem_addrs_of_mem hp'
    constructor
    · intro hq
      exact ⟨hq.imp id Or.inr, fun heq ↦ hpnd (heq ▸ List.mem_append.2 hq)⟩
    · rintro ⟨hq | rfl | hq, hne⟩
      · exact Or.inl hq
      · exact absurd rfl hne
      · exact Or.inr hq
  simp only [hashDelInBkt, Arena.read_some, h.table, Option.bind_eq_bind, Option.bind_some, hb, he,
    hw₁,
    hw₂, Arena.modify_of_cell h.table]
  refine ⟨_, _, rfl, h.rebucket happ rfl rfl rfl rfl h.log2 h.size (fun a ha e' he' ↦ ?_)
    ⟨_, hB', fun i hi q ↦ ?_⟩, rfl, rfl, happ, rfl⟩
  · obtain ⟨q, hq, rfl⟩ := List.mem_map.1 ha
    exact h.tbl _ (mem_addrs_of_mem ((hk' q).1 hq).1) e' he'
  · by_cases hij : i = j
    · rw [hij, Function.update_self, hmem', hmem j hj, hk']
      tauto
    · rw [Function.update_of_ne hij, hmem i hi, hk']
      constructor
      · rintro ⟨hq, hhome⟩
        exact ⟨⟨hq, fun heq ↦ hij (hhome.symm.trans (by rw [heq, hjdef]))⟩, hhome⟩
      · rintro ⟨⟨hq, -⟩, hhome⟩
        exact ⟨hq, hhome⟩

/-- The order of insertion without an entry, when there is another one. -/
theorem hashUnlink_spec {l₁ l₂ : List (ℕ × κ × κ)} {p : ℕ × κ × κ}
    (h : s.Holds t T (l₁ ++ p :: l₂) (l₁ ++ p :: l₂)) (hne : l₁ ++ l₂ ≠ []) {e : KeyHash κ}
    (he : s.elems.cell p.1 = some e) (hprev : e.prev = last none l₁)
    (hnext : e.next = first l₂ none) :
    ∃ s' T' e', hashUnlink s p.1 e = some s' ∧ s'.Holds t T' (l₁ ++ l₂) (l₁ ++ p :: l₂) ∧
      T'.numItems = T.numItems ∧ T'.numBuckets = T.numBuckets ∧ s'.elems.cell p.1 = some e' ∧
      e'.key = e.key ∧ e'.cpanAddr = e.cpanAddr ∧ s'.elems.fresh = s.elems.fresh ∧
      ∀ b, (s'.elems.cell b).isSome = (s.elems.cell b).isSome := by
  obtain ⟨a₀, hd, hhead, ha₀, hcell₀, htbl₀⟩ := h.read_head
  have hw₁ := Arena.modifyIf_eq (m := s.elems) (p := e.prev) (fun a ha ↦ by
      refine h.chain.isSome ?_
      rw [addrs_append]
      exact List.mem_append_left _ (mem_of_last (hprev ▸ ha)))
    fun e' ↦ { e' with next := e.next }
  set m₁ := modifyAt s.elems.cell e.prev fun e' ↦ { e' with next := e.next } with hm₁
  have hw₂ := Arena.modifyIf_eq (m := ⟨m₁, s.elems.fresh⟩) (p := e.next) (fun a ha ↦ by
      rw [isSome_modifyAt]
      refine h.chain.isSome ?_
      rw [addrs_append, addrs_cons]
      exact List.mem_append_right _ (List.mem_cons_of_mem _ (mem_of_first (hnext ▸ ha))))
    fun e' ↦ { e' with prev := e.prev }
  set m₂ := modifyAt m₁ e.next fun e' ↦ { e' with prev := e.prev } with hm₂
  have hisSome (b : ℕ) : (m₂ b).isSome = (s.elems.cell b).isSome := by
    rw [isSome_modifyAt, isSome_modifyAt]
  have hbkt (b : ℕ) : (m₂ b).map KeyHash.bkt = (s.elems.cell b).map KeyHash.bkt := by
    rw [hm₂, map_modifyAt fun _ ↦ by rfl, hm₁, map_modifyAt fun _ ↦ by rfl]
  have htbls (b : ℕ) : (m₂ b).map KeyHash.tbl = (s.elems.cell b).map KeyHash.tbl := by
    rw [hm₂, map_modifyAt fun _ ↦ by rfl, hm₁, map_modifyAt fun _ ↦ by rfl]
  obtain ⟨e', he'⟩ := Option.isSome_iff_exists.1 ((hisSome p.1).trans (by rw [he]; rfl))
  have hsame := eq_of_map_eq (hbkt p.1) he he'
  simp only [KeyHash.bkt, KeyHash.mk.injEq] at hsame
  obtain ⟨B, hB, hmem⟩ := h.buckets
  simp only [hashUnlink, hhead, Arena.read_some, hcell₀, Option.bind_eq_bind, Option.bind_some,
    htbl₀,
    Arena.modify_of_cell h.table, hw₁, hw₂]
  refine ⟨_, _, e', rfl, ⟨?_, hne, ?_, ?_, fun b hb e₁ he₁ ↦ ?_, fun b hb ↦
    h.fresh b (hisSome b ▸ hb),
    Function.update_self .., fun t' ht' ↦ ?_, ?_, h.log2, h.size,
    ⟨B, hB.congr fun _ _ b _ ↦ hbkt b, hmem⟩⟩, rfl, rfl, he', hsame.1, hsame.2.1, rfl, hisSome⟩
  · show (if e.prev.isSome = true then some a₀ else e.next) = _
    rw [first_append, hprev, hnext, ← hhead, h.head, first_append]
    rcases l₁ with _ | ⟨q, l₁⟩
    · rfl
    · obtain ⟨a, -, hlast⟩ := exists_last (List.cons_ne_nil q l₁) none
      rw [hlast]
      rfl
  · have hnd := h.nodup
    rw [addrs_append, addrs_cons] at hnd
    rw [addrs_append]
    exact hnd.sublist ((List.Sublist.refl _).append (List.sublist_cons_self _ _))
  · show Chain m₂ none (l₁ ++ l₂) none
    rw [hm₂, hm₁, hprev, hnext]
    exact Chain.remove h.chain h.nodup (fun _ _ hR ↦ ⟨hR, rfl, rfl⟩) fun _ _ hR ↦ ⟨hR, rfl, rfl⟩
  · obtain ⟨e₀, he₀⟩ := exists_entry h.chain hb
    exact (eq_of_map_eq (htbls b) he₀ he₁).trans (h.tbl b hb e₀ he₀)
  · by_contra hne'
    simp only [Function.update_of_ne hne'] at ht'
    exact hne' (h.only t' ht')
  · show (if T.tail = some p.1 then e.prev else T.tail) = _
    rw [h.tail, hprev, last_append, last_append, last_cons]
    rcases l₂ with _ | ⟨q, l₂⟩
    · rw [last_nil, if_pos rfl, last_nil]
    · obtain ⟨a, ha, hlast⟩ := exists_last (List.cons_ne_nil q l₂) (some p.1)
      have hap : a ≠ p.1 := fun heq ↦ by
        have hnd := h.nodup
        rw [addrs_append, addrs_cons, List.nodup_append, List.nodup_cons] at hnd
        exact hnd.2.1.1 (heq ▸ ha)
      rw [hlast, if_neg fun heq ↦ hap (Option.some.inj heq), ← hlast]
      rfl

/-- **`HASH_DELETE` takes the entry out**; the entry itself stays allocated. -/
theorem hashDelete_spec {l₁ l₂ : List (ℕ × κ × κ)} {p : ℕ × κ × κ} (h : s.State (l₁ ++ p :: l₂)) :
    ∃ s' e', hashDelete s p.1 = some s' ∧ s'.State (l₁ ++ l₂) ∧ s'.elems.cell p.1 = some e' ∧
      e'.key = p.2.1 ∧ e'.cpanAddr = p.2.2 ∧ (s'.numBuckets = 0 ∨ s'.numBuckets = s.numBuckets) ∧
      s'.elems.fresh = s.elems.fresh ∧ ∀ b, (s'.elems.cell b).isSome = (s.elems.cell b).isSome := by
  rcases h with ⟨hnil, -⟩ | ⟨t, T, h, hitems⟩
  · simp at hnil
  obtain ⟨e, he, hR, hprev, hnext⟩ := h.chain.cell
  have hprev : e.prev = last none l₁ := hprev
  have hnext : e.next = first l₂ none := hnext
  by_cases hne : l₁ ++ l₂ = []
  · -- the table goes with its last entry
    obtain ⟨rfl, rfl⟩ := List.append_eq_nil_iff.1 hne
    obtain ⟨a₀, hd, hhead, ha₀, hcell₀, htbl₀⟩ := h.read_head
    have hnone : e.prev = none ∧ e.next = none := ⟨hprev, hnext⟩
    simp only [hashDelete, he, Option.bind_eq_bind, Option.bind_some, if_pos hnone, hhead,
      Arena.read_some,
      hcell₀, htbl₀, Arena.free_of_cell h.table]
    refine ⟨_, e, rfl, Or.inl ⟨rfl, rfl, fun t' ↦ ?_, h.fresh⟩, he, hR.1, hR.2, Or.inl rfl, rfl,
      fun _ ↦ rfl⟩
    by_cases ht : t' = t
    · rw [ht]
      exact Function.update_self ..
    · show Function.update s.tables.cell t none t' = none
      rw [Function.update_of_ne ht]
      exact Option.not_isSome_iff_eq_none.1 fun hs ↦ ht (h.only t' hs)
  · have hlinks : ¬(e.prev = none ∧ e.next = none) := fun hnone ↦ hne <| by
      rw [hprev, hnext] at hnone
      rcases l₁ with _ | ⟨q, l₁⟩
      · rcases l₂ with _ | ⟨q, l₂⟩
        · rfl
        · simp at hnone
      · obtain ⟨a, -, hlast⟩ := exists_last (List.cons_ne_nil q l₁) none
        rw [hlast] at hnone
        simp at hnone
    obtain ⟨s₁, T₁, e₁, hunlink, h₁, hitems₁, hnum₁, he₁, hkey₁, hcpan₁, hfresh₁, hsome₁⟩ :=
      hashUnlink_spec h hne he hprev hnext
    have hp : p ∈ l₁ ++ p :: l₂ := List.mem_append_right _ List.mem_cons_self
    have hpnd : p ∉ l₁ ++ l₂ := fun hp' ↦ by
      have hnd := h.nodup
      rw [addrs_append, addrs_cons, List.nodup_middle, List.nodup_cons, ← addrs_append] at hnd
      exact hnd.1 (mem_addrs_of_mem hp')
    have hmem (q : ℕ × κ × κ) : q ∈ l₁ ++ l₂ ↔ q ∈ l₁ ++ p :: l₂ ∧ q ≠ p := by
      simp only [List.mem_append, List.mem_cons]
      rw [List.mem_append] at hpnd
      constructor
      · intro hq
        exact ⟨hq.imp id Or.inr, fun heq ↦ hpnd (heq ▸ hq)⟩
      · tauto
    obtain ⟨s₂, T₂, hdel, h₂, hitems₂, hnum₂, happ, hfresh₂⟩ := hashDelInBkt_spec h₁ hp hmem he₁
    obtain ⟨a₁, hd₁, hhead₁, ha₁, hcell₁⟩ : ∃ a hd, s₁.head = some a ∧ a ∈ addrs (l₁ ++ l₂) ∧
        s₁.elems.cell a = some hd := by
      rcases hl : l₁ ++ l₂ with _ | ⟨q, l⟩
      · exact absurd hl hne
      · have hq : q.1 ∈ addrs (l₁ ++ l₂) := by rw [hl, addrs_cons]; exact List.mem_cons_self
        obtain ⟨hd, hhd⟩ := exists_entry h₁.chain hq
        exact ⟨q.1, hd, by rw [h₁.head, hl, first_cons], hl ▸ hq, hhd⟩
    have htbl₁ : hd₁.tbl = some t := h₁.tbl a₁ (by
      rw [addrs_append, addrs_cons]
      rw [addrs_append] at ha₁
      exact List.mem_append.2 ((List.mem_append.1 ha₁).imp id (List.mem_cons_of_mem _))) hd₁ hcell₁
    have hhashv : e.hashv = hashFcn p.2.1 := by
      obtain ⟨B, hB, hmem⟩ := h.buckets
      obtain ⟨e', he', -, -, hv⟩ :=
        (hB.chain _ (h.home_lt p)).entry ((hmem _ (h.home_lt p) p).2 ⟨hp, rfl⟩)
      rwa [Option.some.inj (he.symm.trans he')]
    have hbkt : hashToBkt e.hashv T₁.numBuckets = AlphaMon.home T₁.numBuckets p := by
      rw [hhashv]; rfl
    obtain ⟨e₂, he₂, happ₂⟩ := exists_of_map_eq (happ p.1) he₁
    simp only [KeyHash.app, KeyHash.mk.injEq] at happ₂
    let T₃ : UtHashTable := { T₂ with numItems := T₂.numItems - 1 }
    have h₃ : UtHash.Holds ⟨s₂.elems, ⟨Function.update s₂.tables.cell t (some T₃), s₂.tables.fresh⟩,
        s₂.head⟩ t T₃ (l₁ ++ l₂) (l₁ ++ l₂) :=
      h₂.rebucket (SameApp.refl _) rfl rfl rfl rfl h₂.log2 h₂.size h₂.tbl h₂.buckets
    simp only [hashDelete, he, Option.bind_eq_bind, Option.bind_some, if_neg hlinks, hunlink,
      hhead₁,
      Arena.read_some, hcell₁, htbl₁, h₁.table, hbkt, hdel, Arena.modify_of_cell h₂.table]
    refine ⟨_, e₂, rfl, Or.inr ⟨t, T₃, h₃, ?_⟩, he₂, ?_, ?_, Or.inr ?_, hfresh₂.trans hfresh₁,
      fun b ↦ ?_⟩
    · show T₂.numItems - 1 = _
      rw [hitems₂, hitems₁, hitems]
      simp only [List.length_append, List.length_cons]
      omega
    · exact happ₂.1.trans (hkey₁.trans hR.1)
    · exact happ₂.2.1.trans (hcpan₁.trans hR.2)
    · rw [h.numBuckets, h₃.numBuckets]
      exact hnum₂.trans hnum₁
    · exact (happ.isSome b).trans (hsome₁ b)

end AlphaMon
