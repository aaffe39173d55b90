import AlphaMon.UtHash

/-!
# The chains of the buckets

`Buckets m bs n B` says that the `n` buckets of `bs` have the chains `B j`, each entry in the bucket
of its hash.  An entry put at the front of its bucket keeps this (`Buckets.push`), whether it is a
new one or one that an expansion moves.

The invariant of the two loops of `HASH_EXPAND_BUCKETS` is that the entries moved so far are in the
new buckets, that those left in the current bucket are still linked, and that the buckets not
reached yet have not been touched.  Every entry moves once, to the bucket of its hash
(`hashMoveBuckets_spec`), and no write reaches the links of the order of insertion.
-/

set_option autoImplicit false

namespace AlphaMon

open Linked

variable {κ : Type}

/-! ## Views of an entry -/

/-- An entry without the links of its bucket. -/
def KeyHash.app (e : KeyHash κ) : KeyHash κ := { e with hhPrev := none, hhNext := none }

/-- An entry without the links of the order of insertion. -/
def KeyHash.bkt (e : KeyHash κ) : KeyHash κ := { e with tbl := none, prev := none, next := none }

/-- The links of the order of insertion have not changed. -/
def SameApp (m m' : ℕ → Option (KeyHash κ)) : Prop :=
  ∀ a, (m' a).map KeyHash.app = (m a).map KeyHash.app

theorem SameApp.refl (m : ℕ → Option (KeyHash κ)) : SameApp m m := fun _ ↦ rfl

theorem SameApp.trans {m m' m'' : ℕ → Option (KeyHash κ)} (h : SameApp m m') (h' : SameApp m' m'') :
    SameApp m m'' := fun a ↦ (h' a).trans (h a)

theorem SameApp.modifyAt {m m' : ℕ → Option (KeyHash κ)} (h : SameApp m m') (p : Option ℕ)
    {f : KeyHash κ → KeyHash κ} (hf : ∀ e, (f e).app = e.app) : SameApp m (modifyAt m' p f) :=
  h.trans (map_modifyAt hf m' p)

theorem SameApp.isSome {m m' : ℕ → Option (KeyHash κ)} (h : SameApp m m') (a : ℕ) :
    (m' a).isSome = (m a).isSome := by
  rw [← Option.isSome_map (f := KeyHash.app), h a, Option.isSome_map]

/-- The entry that has become of one. -/
theorem exists_of_map_eq {γ : Type} {v : KeyHash κ → γ} {m m' : ℕ → Option (KeyHash κ)} {a : ℕ}
    (h : (m' a).map v = (m a).map v) {e : KeyHash κ} (he : m a = some e) :
    ∃ e', m' a = some e' ∧ v e' = v e := by
  rw [he, Option.map_some, Option.map_eq_some_iff] at h
  exact h

/-- The links of the order of insertion. -/
instance appLinks : Linked (KeyHash κ) (κ × κ) where
  prev := KeyHash.prev
  next := KeyHash.next
  Rep e x := e.key = x.1 ∧ e.cpanAddr = x.2

variable [HashKey κ]

/-- An entry, as a cell of the chain of its bucket. -/
def InBucket (κ : Type) : Type := KeyHash κ

/-- The links of a bucket. -/
instance bktLinks : Linked (InBucket κ) (κ × κ) where
  prev := KeyHash.hhPrev
  next := KeyHash.hhNext
  Rep e x := KeyHash.key e = x.1 ∧ KeyHash.cpanAddr e = x.2 ∧ KeyHash.hashv e = hashFcn x.1

/-- The chain of a bucket. -/
def BktChain (m : ℕ → Option (KeyHash κ)) (b : Option ℕ) (l : List (ℕ × κ × κ)) : Prop :=
  Chain (show ℕ → Option (InBucket κ) from m) b l none

omit [HashKey κ] in
theorem chain_of_app {m m' : ℕ → Option (KeyHash κ)} {b e : Option ℕ} {l : List (ℕ × κ × κ)}
    (h : Chain m b l e) (hm : ∀ a ∈ addrs l, (m' a).map KeyHash.app = (m a).map KeyHash.app) :
    Chain m' b l e := by
  refine h.congr_view fun a ha c hc ↦ ?_
  obtain ⟨c', hc', he⟩ := exists_of_map_eq (hm a ha) hc
  simp only [KeyHash.app, KeyHash.mk.injEq] at he
  exact ⟨c', hc', he.2.2.2.1, he.2.2.2.2.1, fun x hx ↦
    ⟨he.1.trans hx.1, he.2.1.trans hx.2⟩⟩

theorem bktChain_cons {m : ℕ → Option (KeyHash κ)} {b : Option ℕ} {p : ℕ × κ × κ}
    {l : List (ℕ × κ × κ)} : BktChain m b (p :: l) ↔
      (∃ e, m p.1 = some e ∧ (e.key = p.2.1 ∧ e.cpanAddr = p.2.2 ∧ e.hashv = hashFcn p.2.1) ∧
        e.hhPrev = b ∧ e.hhNext = first l none) ∧ BktChain m (some p.1) l := Iff.rfl

theorem BktChain.of_bkt {m m' : ℕ → Option (KeyHash κ)} {b : Option ℕ} {l : List (ℕ × κ × κ)}
    (h : BktChain m b l) (hm : ∀ a ∈ addrs l, (m' a).map KeyHash.bkt = (m a).map KeyHash.bkt) :
    BktChain m' b l := by
  refine Chain.congr_view h fun a ha c hc ↦ ?_
  obtain ⟨c', hc', he⟩ := exists_of_map_eq (hm a ha) hc
  simp only [KeyHash.bkt, KeyHash.mk.injEq] at he
  exact ⟨c', hc', he.2.2.2.2.2.1, he.2.2.2.2.2.2.1, fun x hx ↦
    ⟨he.1.trans hx.1, he.2.1.trans hx.2.1, he.2.2.2.2.2.2.2.trans hx.2.2⟩⟩

/-- The entry of a cell of a bucket. -/
theorem BktChain.entry {m : ℕ → Option (KeyHash κ)} {b : Option ℕ} {l : List (ℕ × κ × κ)}
    (h : BktChain m b l) {p : ℕ × κ × κ} (hp : p ∈ l) :
    ∃ e, m p.1 = some e ∧ e.key = p.2.1 ∧ e.cpanAddr = p.2.2 ∧ e.hashv = hashFcn p.2.1 := by
  obtain ⟨l₁, l₂, rfl⟩ := List.append_of_mem hp
  obtain ⟨e, he, hR, -⟩ := Chain.cell h
  exact ⟨e, he, hR⟩

/-! ## Buckets -/

/-- The bucket an entry belongs to. -/
def home (n : ℕ) (p : ℕ × κ × κ) : ℕ := hashToBkt (hashFcn p.2.1) n

/-- The buckets and their chains. -/
structure Buckets (m : ℕ → Option (KeyHash κ)) (bs : Array UtHashBucket) (n : ℕ)
    (B : ℕ → List (ℕ × κ × κ)) : Prop where
  size : bs.size = n
  bucket : ∀ j < n, ∃ b, bs[j]? = some b ∧ b.hhHead = first (B j) none ∧ b.count = (B j).length
  chain : ∀ j < n, BktChain m none (B j)
  nodup : ∀ j < n, (addrs (B j)).Nodup
  home : ∀ j < n, ∀ p ∈ B j, home n p = j

variable {m m' : ℕ → Option (KeyHash κ)} {bs : Array UtHashBucket} {n : ℕ}
  {B : ℕ → List (ℕ × κ × κ)}

theorem Buckets.congr (h : Buckets m bs n B)
    (hm : ∀ j < n, ∀ a ∈ addrs (B j), (m' a).map KeyHash.bkt = (m a).map KeyHash.bkt) :
    Buckets m' bs n B :=
  ⟨h.size, h.bucket, fun j hj ↦ (h.chain j hj).of_bkt (hm j hj), h.nodup, h.home⟩

/-- An entry can only be in the bucket of its hash. -/
theorem Buckets.notMem (h : Buckets m bs n B) {p : ℕ × κ × κ} {e : KeyHash κ} (he : m p.1 = some e)
    (hk : e.key = p.2.1) (hp : p.1 ∉ addrs (B (AlphaMon.home n p))) :
    ∀ j < n, p.1 ∉ addrs (B j) := by
  intro j hj hmem
  obtain ⟨q, hq, hqa⟩ := List.mem_map.1 hmem
  obtain ⟨e', he', hk', -⟩ := (h.chain j hj).entry hq
  obtain rfl : e = e' := Option.some.inj (he.symm.trans (hqa ▸ he'))
  have hhome : AlphaMon.home n p = j := by
    rw [← h.home j hj q hq, AlphaMon.home, AlphaMon.home, ← hk, ← hk']
  exact hp (hhome ▸ hmem)

/-- No entry is in two buckets. -/
theorem Buckets.unique (h : Buckets m bs n B) {i j : ℕ} (hi : i < n) (hj : j < n) {a : ℕ}
    (hai : a ∈ addrs (B i)) (haj : a ∈ addrs (B j)) : i = j := by
  obtain ⟨q, hq, rfl⟩ := List.mem_map.1 hai
  obtain ⟨r, hr, hra⟩ := List.mem_map.1 haj
  obtain ⟨e, he, hk, -⟩ := (h.chain i hi).entry hq
  obtain ⟨e', he', hk', -⟩ := (h.chain j hj).entry hr
  obtain rfl : e = e' := Option.some.inj (he.symm.trans (hra ▸ he'))
  rw [← h.home i hi q hq, ← h.home j hj r hr, AlphaMon.home, AlphaMon.home, ← hk, ← hk']

/-- A write to an entry of one bucket leaves the others alone. -/
theorem Buckets.chain_modifyAt (h : Buckets m bs n B) {i j : ℕ} (hi : i < n) (hj : j < n)
    (hne : i ≠ j) {m' : ℕ → Option (KeyHash κ)} (hm : BktChain m' none (B i)) {p : Option ℕ}
    (hp : ∀ a, p = some a → a ∈ addrs (B j)) (f : KeyHash κ → KeyHash κ) :
    BktChain (modifyAt m' p f) none (B i) :=
  Chain.modifyAt_of_notMem hm (fun a ha hpa ↦ hne (h.unique hi hj ha (hp a hpa))) f

/-- The first entry of a bucket is allocated. -/
theorem Buckets.isSome_head (h : Buckets m bs n B) {j : ℕ} (hj : j < n) {b : UtHashBucket}
    (hb : bs[j]? = some b) {a : ℕ} (ha : b.hhHead = some a) : a ∈ addrs (B j) ∧ (m a).isSome := by
  obtain ⟨b', hb', hhead, -⟩ := h.bucket j hj
  obtain rfl : b = b' := Option.some.inj (hb.symm.trans hb')
  rcases hB : B j with _ | ⟨q, l⟩
  · simp [ha, hB] at hhead
  · have hq : q ∈ B j := hB ▸ List.mem_cons_self
    have hqa : q.1 = a := by
      rw [ha, hB, first_cons] at hhead
      exact (Option.some.inj hhead).symm
    obtain ⟨e, he, -⟩ := (h.chain j hj).entry hq
    exact ⟨by rw [addrs_cons, hqa]; exact List.mem_cons_self, by rw [← hqa, he]; rfl⟩

/-- **An entry goes to the front of its bucket.** -/
theorem Buckets.push (h : Buckets m bs n B) {p : ℕ × κ × κ} {e : KeyHash κ} (he : m p.1 = some e)
    (hR : e.key = p.2.1 ∧ e.cpanAddr = p.2.2 ∧ e.hashv = hashFcn p.2.1)
    (hj : AlphaMon.home n p < n) (hp : p.1 ∉ addrs (B (AlphaMon.home n p))) {b : UtHashBucket}
    (hb : bs[AlphaMon.home n p]? = some b) (expandMult : ℕ) :
    Buckets (modifyAt (modifyAt m (some p.1) fun e ↦ { e with hhPrev := none, hhNext := b.hhHead })
        b.hhHead fun e ↦ { e with hhPrev := some p.1 })
      (bs.setIfInBounds (AlphaMon.home n p) ⟨some p.1, b.count + 1, expandMult⟩) n
      (Function.update B (AlphaMon.home n p) (p :: B (AlphaMon.home n p))) := by
  set j := AlphaMon.home n p with hjdef
  have hoff := h.notMem he hR.1 hp
  obtain ⟨b', hb', hhead, hcount⟩ := h.bucket j hj
  obtain rfl : b = b' := Option.some.inj (hb.symm.trans hb')
  -- neither write is to another bucket
  have hother (i : ℕ) (hi : i < n) (hne : i ≠ j) :
      BktChain (modifyAt (modifyAt m (some p.1) fun e ↦
        { e with hhPrev := none, hhNext := b.hhHead })
        b.hhHead fun e ↦ { e with hhPrev := some p.1 }) none (B i) := by
    refine h.chain_modifyAt hi hj hne
      (Chain.modifyAt_of_notMem (h.chain i hi) (fun a ha hpa ↦ ?_) _)
      (fun a ha ↦ (h.isSome_head hj hb ha).1) _
    exact hoff i hi (Option.some.inj hpa ▸ ha)
  refine ⟨by rw [Array.size_setIfInBounds, h.size], fun i hi ↦ ?_, fun i hi ↦ ?_, fun i hi ↦ ?_,
    fun i hi q hq ↦ ?_⟩
  · by_cases hij : i = j
    · subst hij
      refine ⟨_, Array.getElem?_setIfInBounds_self_of_lt (h.size.symm ▸ hj), ?_, ?_⟩
      · rw [Function.update_self, first_cons]
      · rw [Function.update_self, List.length_cons, hcount]
    · rw [Array.getElem?_setIfInBounds_ne (Ne.symm hij), Function.update_of_ne hij]
      exact h.bucket i hi
  · by_cases hij : i = j
    · subst hij
      rw [Function.update_self, hhead]
      have hcell : modifyAt m (some p.1) (fun e ↦ { e with hhPrev := none, hhNext := b.hhHead })
        p.1 =
          some { e with hhPrev := none, hhNext := b.hhHead } := by
        rw [modifyAt_self, he, Option.map_some]
      rw [hhead] at hcell
      refine Chain.push (Chain.modifyAt_of_notMem (h.chain j hj) (fun a ha hpa ↦ ?_) _)
        (h.nodup j hj) hp hcell hR rfl rfl fun _ _ hR ↦ ⟨hR, rfl, rfl⟩
      exact hp (Option.some.inj hpa ▸ ha)
    · rw [Function.update_of_ne hij]
      exact hother i hi hij
  · by_cases hij : i = j
    · subst hij
      rw [Function.update_self, addrs_cons]
      exact List.nodup_cons.2 ⟨hp, h.nodup j hj⟩
    · rw [Function.update_of_ne hij]
      exact h.nodup i hi
  · by_cases hij : i = j
    · subst hij
      rw [Function.update_self] at hq
      rcases List.mem_cons.1 hq with rfl | hq
      · rfl
      · exact h.home j hj q hq
    · rw [Function.update_of_ne hij] at hq
      exact h.home i hi q hq

/-- **An entry leaves its bucket.** -/
theorem Buckets.remove (h : Buckets m bs n B) {p : ℕ × κ × κ} {e : KeyHash κ} (he : m p.1 = some e)
    {j : ℕ} (hj : j < n) {l₁ l₂ : List (ℕ × κ × κ)} (hB : B j = l₁ ++ p :: l₂) {b : UtHashBucket}
    (hb : bs[j]? = some b) :
    e.hhPrev = last none l₁ ∧ e.hhNext = first l₂ none ∧
    Buckets (modifyAt (modifyAt m e.hhPrev fun e' ↦ { e' with hhNext := e.hhNext })
        e.hhNext fun e' ↦ { e' with hhPrev := e.hhPrev })
      (bs.setIfInBounds j ⟨if b.hhHead = some p.1 then e.hhNext else b.hhHead, b.count - 1,
        b.expandMult⟩) n (Function.update B j (l₁ ++ l₂)) := by
  obtain ⟨b', hb', hhead, hcount⟩ := h.bucket j hj
  obtain rfl : b = b' := Option.some.inj (hb.symm.trans hb')
  have hchain := h.chain j hj
  have hnd := h.nodup j hj
  rw [hB] at hchain hnd hhead hcount
  obtain ⟨e', he', -, hprev, hnext⟩ := Chain.cell hchain
  obtain rfl : e = e' := Option.some.inj (he.symm.trans he')
  have hprev : e.hhPrev = last none l₁ := hprev
  have hnext : e.hhNext = first l₂ none := hnext
  have hsub : ∀ a ∈ addrs (l₁ ++ l₂), a ∈ addrs (B j) := fun a ha ↦ by
    rw [hB, addrs_append, addrs_cons, List.mem_append, List.mem_cons]
    rw [addrs_append, List.mem_append] at ha
    exact ha.imp id Or.inr
  refine ⟨hprev, hnext, by rw [Array.size_setIfInBounds, h.size], fun i hi ↦ ?_, fun i hi ↦ ?_,
    fun i hi ↦ ?_, fun i hi q hq ↦ ?_⟩
  · by_cases hij : i = j
    · subst hij
      refine ⟨_, Array.getElem?_setIfInBounds_self_of_lt (h.size.symm ▸ hj), ?_, ?_⟩
      · -- the head is the entry only if nothing is before it
        rw [Function.update_self, hhead, hnext]
        rcases l₁ with _ | ⟨q, l₁⟩
        · rw [List.nil_append, first_cons, if_pos rfl, List.nil_append]
        · have hne : q.1 ≠ p.1 := fun he ↦ by
            simp [he] at hnd
          rw [List.cons_append, first_cons, if_neg fun he ↦ hne (Option.some.inj he),
            List.cons_append, first_cons]
      · rw [Function.update_self]
        show b.count - 1 = _
        rw [hcount, List.length_append, List.length_append, List.length_cons]
        omega
    · rw [Array.getElem?_setIfInBounds_ne (Ne.symm hij), Function.update_of_ne hij]
      exact h.bucket i hi
  · rw [hprev, hnext]
    by_cases hij : i = j
    · rw [hij, Function.update_self]
      exact Chain.remove hchain hnd (fun _ _ hR ↦ ⟨hR, rfl, rfl⟩) fun _ _ hR ↦ ⟨hR, rfl, rfl⟩
    · rw [Function.update_of_ne hij]
      refine h.chain_modifyAt hi hj hij
        (h.chain_modifyAt hi hj hij (h.chain i hi) (fun a ha ↦ ?_) _)
        (fun a ha ↦ ?_) _
      · exact hsub a (by rw [addrs_append]; exact List.mem_append_left _ (mem_of_last ha))
      · exact hsub a (by rw [addrs_append]; exact List.mem_append_right _ (mem_of_first ha))
  · by_cases hij : i = j
    · rw [hij, Function.update_self, addrs_append]
      rw [addrs_append, addrs_cons] at hnd
      exact hnd.sublist ((List.Sublist.refl _).append (List.sublist_cons_self _ _))
    · rw [Function.update_of_ne hij]
      exact h.nodup i hi
  · by_cases hij : i = j
    · rw [hij, Function.update_self] at hq
      rw [hij]
      refine h.home j hj q ?_
      rw [hB, List.mem_append, List.mem_cons]
      exact (List.mem_append.1 hq).imp id Or.inr
    · rw [Function.update_of_ne hij] at hq
      exact h.home i hi q hq

/-- Both writes of a push, with what they leave alone. -/
theorem Buckets.push_writes {m : Arena (KeyHash κ)} (h : Buckets m.cell bs n B) {p : ℕ × κ × κ}
    (he : (m.cell p.1).isSome) (hj : AlphaMon.home n p < n) {b : UtHashBucket}
    (hb : bs[AlphaMon.home n p]? = some b) :
    let m₁ := modifyAt m.cell (some p.1) fun e ↦ { e with hhPrev := none, hhNext := b.hhHead }
    let m₂ := modifyAt m₁ b.hhHead fun e ↦ { e with hhPrev := some p.1 }
    (m.modify (some p.1) fun e ↦ { e with hhPrev := none, hhNext := b.hhHead }) =
      some ⟨m₁, m.fresh⟩ ∧
    (Arena.mk m₁ m.fresh).modifyIf b.hhHead (fun e ↦ { e with hhPrev := some p.1 }) =
      some ⟨m₂, m.fresh⟩ ∧
    SameApp m.cell m₂ ∧ ∀ a, a ≠ p.1 → (∀ j < n, a ∉ addrs (B j)) → m₂ a = m.cell a := by
  intro m₁ m₂
  refine ⟨Arena.modify_eq he _, Arena.modifyIf_eq (fun a ha ↦ ?_) _,
    fun a ↦ ?_, fun a hne hoff ↦ ?_⟩
  · rw [isSome_modifyAt]
    exact (h.isSome_head hj hb ha).2
  · have h₂ : (m₂ a).map KeyHash.app = (m₁ a).map KeyHash.app := map_modifyAt (fun _ ↦ by rfl) ..
    exact h₂.trans (map_modifyAt (fun _ ↦ by rfl) ..)
  · have hhead : b.hhHead ≠ some a := fun ha ↦ hoff _ hj (h.isSome_head hj hb ha).1
    exact (modifyAt_of_ne hhead _).trans (modifyAt_of_ne (fun h ↦ hne (Option.some.inj h).symm) _)

/-! ## Expanding -/

theorem toNat_pow_sub_one {k : ℕ} (hk : k < 32) :
    (BitVec.ofNat 32 (2 ^ k) - 1).toNat = 2 ^ k - 1 := by
  have hpow : 2 ^ k < 2 ^ 32 := Nat.pow_lt_pow_right (by decide) hk
  rw [BitVec.toNat_sub_of_le, BitVec.toNat_ofNat, Nat.mod_eq_of_lt hpow]
  · rfl
  · rw [BitVec.le_def, BitVec.toNat_ofNat, Nat.mod_eq_of_lt hpow]
    exact Nat.two_pow_pos k

theorem mask_lt (a : BitVec 32) {k : ℕ} (hk : k < 32) : mask a (2 ^ k) < 2 ^ k := by
  rw [mask, BitVec.toNat_and, toNat_pow_sub_one hk, Nat.and_two_pow_sub_one_eq_mod]
  exact Nat.mod_lt _ (Nat.two_pow_pos k)

theorem mask_ofNat {a k : ℕ} (hk : k < 32) (ha : a < 2 ^ k) : mask (.ofNat 32 a) (2 ^ k) = a := by
  have hpow : 2 ^ k < 2 ^ 32 := Nat.pow_lt_pow_right (by decide) hk
  rw [mask, BitVec.toNat_and, toNat_pow_sub_one hk, BitVec.toNat_ofNat,
    Nat.mod_eq_of_lt (ha.trans hpow), Nat.and_two_pow_sub_one_eq_mod, Nat.mod_eq_of_lt ha]

theorem home_lt {k : ℕ} (hk : k < 32) (p : ℕ × κ × κ) : AlphaMon.home (2 ^ k) p < 2 ^ k :=
  mask_lt _ hk

/-- The buckets with the entries of a list put to the front, one after the other. -/
def place (n : ℕ) : List (ℕ × κ × κ) → (ℕ → List (ℕ × κ × κ)) → ℕ → List (ℕ × κ × κ)
  | [], B => B
  | p :: l, B => place n l (Function.update B (AlphaMon.home n p) (p :: B (AlphaMon.home n p)))

theorem mem_place {l : List (ℕ × κ × κ)} {j : ℕ} {q : ℕ × κ × κ} :
    q ∈ place n l B j ↔ q ∈ B j ∨ q ∈ l ∧ AlphaMon.home n q = j := by
  induction l generalizing B with
  | nil => simp [place]
  | cons p l ih =>
    rw [place, ih, List.mem_cons]
    by_cases hj : j = AlphaMon.home n p
    · rw [hj, Function.update_self, List.mem_cons]
      constructor
      · rintro ((rfl | h) | h)
        · exact Or.inr ⟨Or.inl rfl, rfl⟩
        · exact Or.inl h
        · exact Or.inr ⟨Or.inr h.1, h.2⟩
      · rintro (h | ⟨rfl | h, hq⟩)
        · exact Or.inl (Or.inr h)
        · exact Or.inl (Or.inl rfl)
        · exact Or.inr ⟨h, hq⟩
    · rw [Function.update_of_ne hj]
      constructor
      · rintro (h | h)
        · exact Or.inl h
        · exact Or.inr ⟨Or.inr h.1, h.2⟩
      · rintro (h | ⟨rfl | h, hq⟩)
        · exact Or.inl h
        · exact absurd hq.symm hj
        · exact Or.inr ⟨h, hq⟩

/-- A pass of the inner loop. -/
theorem hashMove_spec {x : Expansion κ} (h : Buckets x.elems.cell x.newBuckets n B)
    {idealChainMaxlen : ℕ} (hideal : 0 < idealChainMaxlen) {p : ℕ × κ × κ} {e : KeyHash κ}
    (he : x.elems.cell p.1 = some e)
    (hR : e.key = p.2.1 ∧ e.cpanAddr = p.2.2 ∧ e.hashv = hashFcn p.2.1)
    (hj : AlphaMon.home n p < n) (hp : p.1 ∉ addrs (B (AlphaMon.home n p))) :
    ∃ x', hashMove n idealChainMaxlen x p.1 = some (e.hhNext, x') ∧
      Buckets x'.elems.cell x'.newBuckets n
        (Function.update B (AlphaMon.home n p) (p :: B (AlphaMon.home n p))) ∧
      SameApp x.elems.cell x'.elems.cell ∧ x'.elems.fresh = x.elems.fresh ∧
      ∀ a, a ≠ p.1 → (∀ j < n, a ∉ addrs (B j)) → x'.elems.cell a = x.elems.cell a := by
  obtain ⟨b, hb, -⟩ := h.bucket _ hj
  obtain ⟨hw₁, hw₂, happ, hoff⟩ := h.push_writes (by rw [he]; rfl) hj hb
  have hj' : hashToBkt e.hashv n = AlphaMon.home n p := by rw [hR.2.2]; rfl
  by_cases hcount : b.count + 1 > idealChainMaxlen
  · refine ⟨⟨⟨_, x.elems.fresh⟩, _, x.nonidealItems + 1⟩, ?_,
      h.push he hR hj hp hb ((b.count + 1) / idealChainMaxlen), happ, rfl, hoff⟩
    rw [hashMove, he]
    simp only [Option.bind_eq_bind, Option.bind_some, hj', hb, hw₁, hw₂, if_pos hcount,
      if_neg hideal.ne']
    rfl
  · refine ⟨⟨⟨_, x.elems.fresh⟩, _, x.nonidealItems⟩, ?_, h.push he hR hj hp hb b.expandMult, happ,
      rfl, hoff⟩
    rw [hashMove, he]
    simp only [Option.bind_eq_bind, Option.bind_some, hj', hb, hw₁, hw₂, if_neg hcount]
    rfl

/-- The inner loop moves the entries that are left in its bucket. -/
theorem hashMoveBucket_spec (hn : ∀ p : ℕ × κ × κ, AlphaMon.home n p < n) {idealChainMaxlen : ℕ}
    (hideal : 0 < idealChainMaxlen) {rest : List (ℕ × κ × κ)} {fuel : ℕ}
    (hfuel : rest.length ≤ fuel) {x : Expansion κ} {b : Option ℕ}
    (hrest : BktChain x.elems.cell b rest) (hnd : (addrs rest).Nodup)
    (h : Buckets x.elems.cell x.newBuckets n B)
    (hoff : ∀ a ∈ addrs rest, ∀ j < n, a ∉ addrs (B j)) :
    ∃ x', hashMoveBucket n idealChainMaxlen fuel x (first rest none) = some x' ∧
      Buckets x'.elems.cell x'.newBuckets n (place n rest B) ∧
      SameApp x.elems.cell x'.elems.cell ∧ x'.elems.fresh = x.elems.fresh ∧
      ∀ a, a ∉ addrs rest → (∀ j < n, a ∉ addrs (B j)) → x'.elems.cell a = x.elems.cell a := by
  induction rest generalizing fuel x b B with
  | nil => exact ⟨x, by cases fuel <;> rfl, h, SameApp.refl _, rfl, fun _ _ _ ↦ rfl⟩
  | cons p rest ih =>
    obtain ⟨fuel, rfl⟩ := Nat.exists_eq_add_of_le' (Nat.one_le_of_lt hfuel)
    obtain ⟨⟨e, he, hR, -, hnext⟩, hchain⟩ := bktChain_cons.1 hrest
    rw [addrs_cons, List.nodup_cons] at hnd
    have hp := hoff p.1 (by simp)
    obtain ⟨x₁, hmove, h₁, happ₁, hfresh₁, hoff₁⟩ :=
      hashMove_spec h hideal he hR (hn p) (hp _ (hn p))
    have hsame (a : ℕ) (ha : a ∈ addrs rest) : x₁.elems.cell a = x.elems.cell a :=
      hoff₁ a (ne_of_mem_of_not_mem ha hnd.1) (hoff a (by simp [ha]))
    -- the entries moved so far are those of `B` and this one
    have hoff' (a : ℕ) (hne : a ≠ p.1) (ha : ∀ j < n, a ∉ addrs (B j)) (j : ℕ) (hj : j < n) :
        a ∉ addrs (Function.update B (AlphaMon.home n p) (p :: B (AlphaMon.home n p)) j) := by
      by_cases hij : j = AlphaMon.home n p
      · rw [hij, Function.update_self, addrs_cons, List.mem_cons, not_or]
        exact ⟨hne, ha _ (hn p)⟩
      · rw [Function.update_of_ne hij]
        exact ha j hj
    obtain ⟨x', hloop, h', happ', hfresh', hrest'⟩ := ih (Nat.le_of_succ_le_succ hfuel)
      (Chain.congr hchain hsame) hnd.2 h₁
      fun a ha ↦ hoff' a (ne_of_mem_of_not_mem ha hnd.1) (hoff a (by simp [ha]))
    refine ⟨x', ?_, h', happ₁.trans happ', hfresh'.trans hfresh₁, fun a ha hB ↦ ?_⟩
    · rw [first_cons, hashMoveBucket, hmove]
      simp only [Option.bind_eq_bind, Option.bind_some]
      rw [hnext]
      exact hloop
    · rw [addrs_cons, List.mem_cons, not_or] at ha
      rw [hrest' a ha.2 (hoff' a ha.1 hB), hoff₁ a ha.1 hB]

/-- The outer loop moves the entries of the buckets it goes over. -/
theorem hashMoveBuckets_spec {N : ℕ} {A : ℕ → List (ℕ × κ × κ)} (hA : Buckets m bs N A)
    (hn : ∀ p : ℕ × κ × κ, AlphaMon.home n p < n) {idealChainMaxlen : ℕ}
    (hideal : 0 < idealChainMaxlen) (k : ℕ) {i : ℕ} (hi : i + k ≤ N) {x : Expansion κ}
    (hlen : ∀ j < N, (A j).length ≤ x.elems.fresh)
    (hrest : ∀ j, i ≤ j → j < i + k → BktChain x.elems.cell none (A j))
    (h : Buckets x.elems.cell x.newBuckets n B)
    (hoff : ∀ j, i ≤ j → j < i + k → ∀ a ∈ addrs (A j), ∀ j' < n, a ∉ addrs (B j')) :
    ∃ x' B', hashMoveBuckets bs n idealChainMaxlen k i x = some x' ∧
      Buckets x'.elems.cell x'.newBuckets n B' ∧
      (∀ j q, q ∈ B' j ↔
        q ∈ B j ∨ ∃ j', i ≤ j' ∧ j' < i + k ∧ q ∈ A j' ∧ AlphaMon.home n q = j) ∧
      SameApp x.elems.cell x'.elems.cell ∧ x'.elems.fresh = x.elems.fresh := by
  induction k generalizing i x B with
  | zero =>
    refine ⟨x, B, rfl, h, fun j q ↦ ⟨Or.inl, ?_⟩, SameApp.refl _, rfl⟩
    rintro (hq | ⟨j', h₁, h₂, -⟩)
    · exact hq
    · omega
  | succ k ih =>
    have hiN : i < N := by omega
    obtain ⟨b, hb, hhead, -⟩ := hA.bucket i hiN
    obtain ⟨x₁, hbucket, h₁, happ₁, hfresh₁, hoff₁⟩ := hashMoveBucket_spec hn hideal
      (hlen i hiN) (hrest i le_rfl (by omega)) (hA.nodup i hiN) h (hoff i le_rfl (by omega))
    -- the buckets after this one are as they were
    have hother (j : ℕ) (hj : i + 1 ≤ j) (hj' : j < i + 1 + k) (a : ℕ) (ha : a ∈ addrs (A j)) :
        a ∉ addrs (A i) ∧ ∀ j' < n, a ∉ addrs (B j') :=
      ⟨fun hai ↦ absurd (hA.unique hiN (by omega) hai ha) (by omega),
        hoff j (by omega) (by omega) a ha⟩
    obtain ⟨x', B', hloop, h', hmem, happ', hfresh'⟩ := ih (i := i + 1) (by omega)
      (fun j hj ↦ (hlen j hj).trans_eq hfresh₁.symm)
      (fun j hj hj' ↦ Chain.congr (hrest j (by omega) (by omega)) fun a ha ↦
        hoff₁ a (hother j hj hj' a ha).1 (hother j hj hj' a ha).2) h₁
      (fun j hj hj' a ha j' hj'n hmem ↦ by
        obtain ⟨q, hq, rfl⟩ := List.mem_map.1 hmem
        rcases mem_place.1 hq with hq | hq
        · exact (hother j hj hj' _ ha).2 j' hj'n (mem_addrs_of_mem hq)
        · exact (hother j hj hj' _ ha).1 (mem_addrs_of_mem hq.1))
    refine ⟨x', B', ?_, h', fun j q ↦ ?_, happ₁.trans happ', hfresh'.trans hfresh₁⟩
    · rw [hashMoveBuckets, hb]
      simp only [Option.bind_eq_bind, Option.bind_some, hhead, hbucket]
      exact hloop
    · rw [hmem, mem_place]
      constructor
      · rintro ((hq | hq) | ⟨j', h₁, h₂, hq⟩)
        · exact Or.inl hq
        · exact Or.inr ⟨i, le_rfl, by omega, hq⟩
        · exact Or.inr ⟨j', by omega, by omega, hq⟩
      · rintro (hq | ⟨j', h₁, h₂, hq⟩)
        · exact Or.inl (Or.inl hq)
        · rcases Nat.eq_or_lt_of_le h₁ with rfl | h₁
          · exact Or.inl (Or.inr hq)
          · exact Or.inr ⟨j', h₁, by omega, hq⟩

end AlphaMon
