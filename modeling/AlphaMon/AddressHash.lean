import AlphaMon.AddressCache
import AlphaMon.UtHashSpec

/-!
# The anonymiser on the hash in memory

`crypto_ip.c` again, now with its two hashes as `uthash.h` keeps them.  `CryptoIp` has lists in the
order of insertion in their place, and all that is said of the pseudonyms and of the caches is
said of these lists.

`CryptoIpUt.Refines` connects the two.  Every call takes a state that refines one with lists to a
state that refines the next, with the same answer (`CryptoCall.runUt_refines`).  It follows no null
or dangling pointer, and what is allocated afterwards are the entries of the hashes and nothing
else.  The exception is a table of `2 ^ 31` buckets, 32 GiB, which must not be doubled again.
-/

set_option autoImplicit false

namespace AlphaMon

open Linked

/-! ## Calls -/

/-- The state of the anonymiser of a core: the hashes in memory, and the other fields of
`CryptoIp`. -/
structure CryptoIpUt where
  rest : CryptoIp
  addressHash : UtHash (BitVec 32)
  address6Hash : UtHash In6Addr

section Code

variable (blockEncrypt : Block → Block)

/-- `store_crypto_ip`. -/
def storeCryptoIpUt (self : CryptoIpUt) (address : BitVec 32) : Option CryptoIpUt := do
  let (entry, hash) ← findAddressUt self.addressHash address
  match entry with
  | none =>
    let (e, rest) := encryptIp blockEncrypt self.rest (htonl address)
    let hash ← addAddressUt hash address (htonl e)
    some { self with
      rest := { rest with cryptoTotalInsert := rest.cryptoTotalInsert + 1 }, addressHash := hash }
  | some _ =>
    some { self with
      rest := { self.rest with cryptoTotalHit := self.rest.cryptoTotalHit + 1 }, addressHash :=
        hash }

/-- `retrieve_crypto_ip`. -/
def retrieveCryptoIpUt (self : CryptoIpUt) (address : BitVec 32) :
    Option (BitVec 32 × CryptoIpUt) := do
  let (entry, hash) ← findAddressUt self.addressHash address
  match entry with
  | none =>
    let (e, rest) := encryptIp blockEncrypt self.rest (htonl address)
    let hash ← addAddressUt hash address (htonl e)
    some (htonl e, { self with
      rest := { rest with
        cryptoTotalInsert := rest.cryptoTotalInsert + 1
        cryptoTotalMiss := rest.cryptoTotalMiss + 1 }
      addressHash := hash })
  | some entry => some (entry.cpanAddr, { self with addressHash := hash })

/-- `store_crypto_ipv6`. -/
def storeCryptoIpv6Ut (self : CryptoIpUt) (address : In6Addr) : Option CryptoIpUt := do
  let (entry, hash) ← findAddressUt self.address6Hash address
  match entry with
  | none =>
    let (e, rest) := encryptIpv6 blockEncrypt self.rest address
    let hash ← addAddressUt hash address e
    some { self with
      rest := { rest with cryptoTotalInsertIpv6 := rest.cryptoTotalInsertIpv6 + 1 }
      address6Hash := hash }
  | some _ =>
    some { self with
      rest := { self.rest with cryptoTotalHitIpv6 := self.rest.cryptoTotalHitIpv6 + 1 }
      address6Hash := hash }

/-- `retrieve_crypto_ipv6`. -/
def retrieveCryptoIpv6Ut (self : CryptoIpUt) (address : In6Addr) : Option (In6Addr × CryptoIpUt) :=
  do
  let (entry, hash) ← findAddressUt self.address6Hash address
  match entry with
  | none =>
    let (e, rest) := encryptIpv6 blockEncrypt self.rest address
    let hash ← addAddressUt hash address e
    some (e, { self with
      rest := { rest with
        cryptoTotalInsertIpv6 := rest.cryptoTotalInsertIpv6 + 1
        cryptoTotalMissIpv6 := rest.cryptoTotalMissIpv6 + 1 }
      address6Hash := hash })
  | some entry => some (entry.cpanAddr, { self with address6Hash := hash })

/-- `initialize_crypto`, from the key on. -/
def initializeCryptoUt (padKey : Block) : Option CryptoIpUt := do
  let rest := panonInit blockEncrypt padKey
  let (_, rest) := encryptIp blockEncrypt rest 1
  let (_, rest) := encryptIp blockEncrypt rest 2
  let (e, rest) := encryptIp blockEncrypt rest (htonl 0)
  let addressHash ← addAddressUt (UtHash.null _) 0 (htonl e)
  let rest := { rest with cryptoTotalHit := 0, cryptoTotalInsert := 1, cryptoTotalMiss := 0 }
  let (e6, rest) := encryptIpv6 blockEncrypt rest ⟨0, 0, 0, 0⟩
  let address6Hash ← addAddressUt (UtHash.null _) ⟨0, 0, 0, 0⟩ e6
  let rest :=
    { rest with cryptoTotalHitIpv6 := 0, cryptoTotalInsertIpv6 := 1, cryptoTotalMissIpv6 := 0 }
  some ⟨rest, addressHash, address6Hash⟩

/-- The state after a call. -/
def CryptoCall.runUt (self : CryptoIpUt) : CryptoCall → Option CryptoIpUt
  | .retrieveCryptoIp a => (retrieveCryptoIpUt blockEncrypt self a).map Prod.snd
  | .storeCryptoIp a => storeCryptoIpUt blockEncrypt self a
  | .retrieveCryptoIpv6 a => (retrieveCryptoIpv6Ut blockEncrypt self a).map Prod.snd
  | .storeCryptoIpv6 a => storeCryptoIpv6Ut blockEncrypt self a

/-- The state of an anonymiser after initialisation and some calls. -/
def runCryptoUt (padKey : Block) (calls : List CryptoCall) : Option CryptoIpUt :=
  (initializeCryptoUt blockEncrypt padKey).bind fun self ↦
    calls.foldlM (CryptoCall.runUt blockEncrypt) self

end Code

/-! ## One hash -/

section Hash

variable {κ : Type} [HashKey κ] {s : UtHash κ} {l : List (ℕ × κ × κ)}
  {hash : List (κ × κ)}

/-- A hash in memory that stands for a list with no key twice, and has nothing else allocated. -/
def UtHash.Represents (s : UtHash κ) (hash : List (κ × κ)) : Prop :=
  ∃ l, s.State l ∧ l.map Prod.snd = hash ∧ (hash.map Prod.fst).Nodup ∧
    ∀ a, (s.elems.cell a).isSome → a ∈ addrs l

/-- Blocks that are not entries do not matter. -/
theorem UtHash.State.congr (h : s.State l) {m : Arena (KeyHash κ)}
    (hm : ∀ a ∈ addrs l, m.cell a = s.elems.cell a)
    (hfresh : ∀ a, (m.cell a).isSome → a < m.fresh) :
    UtHash.State ⟨m, s.tables, s.head⟩ l ∧ UtHash.numBuckets ⟨m, s.tables, s.head⟩ =
      s.numBuckets := by
  rcases h with ⟨rfl, hhead, htables, -⟩ | ⟨t, T, h, hitems⟩
  · refine ⟨Or.inl ⟨rfl, hhead, htables, hfresh⟩, ?_⟩
    rw [UtHash.numBuckets, UtHash.numBuckets, hhead]
    rfl
  · obtain ⟨B, hB, hmem⟩ := h.buckets
    have h' : UtHash.Holds ⟨m, s.tables, s.head⟩ t T l l :=
      { h with
        chain := h.chain.congr hm
        tbl := fun a ha e he ↦ h.tbl a ha e ((hm a ha).symm.trans he)
        fresh := hfresh
        buckets := ⟨B, hB.congr fun j hj a ha ↦ by
          obtain ⟨q, hq, rfl⟩ := List.mem_map.1 ha
          exact congrArg _ (hm _ (mem_addrs_of_mem ((hmem j hj q).1 hq).1)), hmem⟩ }
    exact ⟨Or.inr ⟨t, T, h', hitems⟩, h'.numBuckets.trans h.numBuckets.symm⟩

theorem UtHash.State.nodup (h : s.State l) : (addrs l).Nodup := by
  rcases h with ⟨rfl, -⟩ | ⟨t, T, h, -⟩
  · exact List.nodup_nil
  · exact h.nodup

theorem UtHash.State.fresh (h : s.State l) : ∀ a, (s.elems.cell a).isSome → a < s.elems.fresh := by
  rcases h with ⟨-, -, -, h⟩ | ⟨t, T, h, -⟩
  · exact h
  · exact h.fresh

/-- The entries of a hash are allocated. -/
theorem UtHash.State.isSome (h : s.State l) {a : ℕ} (ha : a ∈ addrs l) :
    (s.elems.cell a).isSome := by
  rcases h with ⟨rfl, -⟩ | ⟨t, T, h, -⟩
  · exact absurd ha List.not_mem_nil
  · exact h.chain.isSome ha

theorem hashCount_spec (h : s.State l) : hashCount s = some l.length := by
  rcases h with ⟨rfl, hhead, -, -⟩ | ⟨t, T, h, hitems⟩
  · rw [hashCount, hhead]
    rfl
  · obtain ⟨a, hd, hhead, -, hcell, htbl⟩ := h.read_head
    rw [hashCount, hhead]
    simp only [Option.bind_eq_bind, hcell, Option.bind_some, htbl, Arena.read_some, h.table, hitems]

/-- **`find_address` moves the entry to the end of the list.** -/
theorem findAddressUt_spec [DecidableEq κ] (h : s.Represents hash) (hn : s.numBuckets ≠ 2 ^ 31)
    (src : κ) :
    ∃ entry s', findAddressUt s src = some (entry, s') ∧
      entry.map KeyHash.cpanAddr = (hashFind hash src).1 ∧ s'.Represents (hashFind hash src).2 ∧
      (entry = none → s'.numBuckets = s.numBuckets) := by
  obtain ⟨l, hs, rfl, hkeys, hown⟩ := h
  have hfind := hashFindKey_spec hs (by rwa [List.map_map] at hkeys) src
  have hmap : (l.map Prod.snd).find? (·.1 = src) = (l.find? fun p ↦ p.2.1 = src).map Prod.snd :=
    List.find?_map ..
  rcases hl : l.find? fun p ↦ p.2.1 = src with _ | p
  · rw [hl] at hfind hmap
    refine ⟨none, s, ?_, ?_, ?_, fun _ ↦ rfl⟩
    · rw [findAddressUt, hfind]
      rfl
    · rw [hashFind, hmap]
      rfl
    · rw [hashFind, hmap]
      exact ⟨l, hs, rfl, hkeys, hown⟩
  · rw [hl] at hfind hmap
    obtain ⟨hpk, l₁, l₂, rfl, hl₁⟩ := List.find?_eq_some_iff_append.1 hl
    have hpk : p.2.1 = src := by simpa using hpk
    obtain ⟨s₁, e₁, hdel, hs₁, he₁, hkey, hcpan, hnum, hfresh₁, hsome₁⟩ := hashDelete_spec hs
    have hnd := hs.nodup
    rw [addrs_append, addrs_cons, List.nodup_middle, ← addrs_append, List.nodup_cons] at hnd
    obtain ⟨s₂, hadd, hs₂, -, hsome₂⟩ := hashAddKeyptr_spec hs₁ he₁ hnd.1 (by
      rcases hnum with hnum | hnum
      · rw [hnum]
        decide
      · rwa [hnum])
    have hentry : (p.1, e₁.key, e₁.cpanAddr) = p := by rw [hkey, hcpan]
    rw [hentry] at hs₂
    have hcell : ∃ e, s₂.elems.cell p.1 = some e ∧ e.cpanAddr = p.2.2 := by
      rcases hs₂ with ⟨hnil, -⟩ | ⟨t, T, h₂, -⟩
      · simp at hnil
      · obtain ⟨e, he, hR, -⟩ := h₂.chain.cell
        exact ⟨e, he, hR.2⟩
    obtain ⟨e, he, hcpan'⟩ := hcell
    have herase : ((l₁ ++ p :: l₂).map Prod.snd).eraseP (·.1 = src) = (l₁ ++ l₂).map Prod.snd := by
      rw [List.map_append, List.map_cons, List.eraseP_append_right,
        List.eraseP_cons_of_pos (by simpa),
        List.map_append]
      intro q hq
      obtain ⟨r, hr, rfl⟩ := List.mem_map.1 hq
      simpa using hl₁ r hr
    refine ⟨some e, s₂, ?_, ?_, ?_, fun he ↦ absurd he (Option.some_ne_none e)⟩
    · rw [findAddressUt, hfind]
      simp only [Option.map_some, Option.bind_eq_bind, Option.bind_some, hdel, hadd, he]
    · rw [hashFind, hmap]
      exact congrArg some hcpan'
    · rw [hashFind, hmap]
      refine ⟨l₁ ++ l₂ ++ [p], hs₂, ?_, ?_, fun a ha ↦ ?_⟩
      · rw [List.map_append, ← herase]
        rfl
      · show ((((l₁ ++ p :: l₂).map Prod.snd).eraseP (·.1 = src) ++ [p.2]).map Prod.fst).Nodup
        rw [herase]
        simp only [List.map_append, List.map_cons, List.nodup_middle, List.map_nil] at hkeys ⊢
        simpa only [List.append_nil] using hkeys
      · rw [hsome₂ a, hsome₁ a] at ha
        have := hown a ha
        simp only [addrs_append, addrs_cons, List.mem_append, List.mem_cons, addrs_nil] at this ⊢
        tauto

/-- A new entry is allocated and appended. -/
theorem hashAddKeyptr_new (hs : s.State l) (hown : ∀ a, (s.elems.cell a).isSome → a ∈ addrs l)
    (hn : s.numBuckets ≠ 2 ^ 31) (src cpanAddr : κ) :
    ∃ s', hashAddKeyptr
        { s with elems := s.elems.alloc ⟨src, cpanAddr, none, none, none, none, none, 0⟩ }
          s.elems.fresh = some s' ∧
      s'.State (l ++ [(s.elems.fresh, src, cpanAddr)]) ∧
      ∀ a, (s'.elems.cell a).isSome → a ∈ addrs (l ++ [(s.elems.fresh, src, cpanAddr)]) := by
  set m := s.elems.alloc ⟨src, cpanAddr, none, none, none, none, none, 0⟩ with hm
  have hnew : s.elems.fresh ∉ addrs l := fun ha ↦ (hs.fresh _ (hs.isSome ha)).false
  have hcell : m.cell s.elems.fresh = some ⟨src, cpanAddr, none, none, none, none, none, 0⟩ :=
    Function.update_self ..
  have hother (a : ℕ) (ha : a ≠ s.elems.fresh) : m.cell a = s.elems.cell a :=
    Function.update_of_ne ha ..
  obtain ⟨hs₀, hnum⟩ := hs.congr (m := m) (fun a ha ↦ hother a (ne_of_mem_of_not_mem ha hnew))
    (fun a ha ↦ by
      by_cases hne : a = s.elems.fresh
      · rw [hne]
        exact Nat.lt_succ_self _
      · rw [hother a hne] at ha
        exact Nat.lt_succ_of_lt (hs.fresh a ha))
  obtain ⟨s₁, hadd, hs₁, -, hsome₁⟩ := hashAddKeyptr_spec hs₀ hcell hnew (hnum.trans_ne hn)
  refine ⟨s₁, hadd, hs₁, fun a ha ↦ ?_⟩
  rw [addrs_append, List.mem_append]
  by_cases hne : a = s.elems.fresh
  · exact Or.inr (by simp [hne])
  · rw [hsome₁ a] at ha
    exact Or.inl (hown a ((congrArg Option.isSome (hother a hne)).symm.trans ha))

/-- The first entry is deleted and freed. -/
theorem hashDelete_first {p : ℕ × κ × κ} (hs : s.State (p :: l))
    (hown : ∀ a, (s.elems.cell a).isSome → a ∈ addrs (p :: l)) :
    ∃ s' m, s.head = some p.1 ∧ hashDelete s p.1 = some s' ∧ s'.elems.free (some p.1) = some m ∧
      UtHash.State ⟨m, s'.tables, s'.head⟩ l ∧ ∀ a, (m.cell a).isSome → a ∈ addrs l := by
  have hhead : s.head = some p.1 := by
    rcases hs with ⟨hnil, -⟩ | ⟨t, T, h, -⟩
    · cases hnil
    · rw [h.head, first_cons]
  have hnd : p.1 ∉ addrs l := (List.nodup_cons.1 hs.nodup).1
  rw [← List.nil_append (p :: l)] at hs
  obtain ⟨s₂, e₂, hdel, hs₂, he₂, -, -, -, -, hsome₂⟩ := hashDelete_spec hs
  rw [List.nil_append] at hs₂
  have hgone (a : ℕ) (ha : (Function.update s₂.elems.cell p.1 none a).isSome) :
      a ≠ p.1 ∧ (s₂.elems.cell a).isSome := by
    by_cases hne : a = p.1
    · simp [hne] at ha
    · rw [Function.update_of_ne hne] at ha
      exact ⟨hne, ha⟩
  obtain ⟨hs₃, -⟩ := hs₂.congr (m := ⟨Function.update s₂.elems.cell p.1 none, s₂.elems.fresh⟩)
    (fun a ha ↦ Function.update_of_ne (ne_of_mem_of_not_mem ha hnd) ..)
    (fun a ha ↦ hs₂.fresh a (hgone a ha).2)
  refine ⟨s₂, _, hhead, hdel, Arena.free_of_cell he₂, hs₃, fun a ha ↦ ?_⟩
  obtain ⟨hne, ha⟩ := hgone a ha
  rw [hsome₂ a] at ha
  exact (List.mem_cons.1 (addrs_cons p l ▸ hown a ha)).resolve_left hne

/-- **`add_address` adds an entry**, and drops the first one from a full hash. -/
theorem addAddressUt_spec (h : s.Represents hash) (hn : s.numBuckets ≠ 2 ^ 31) {src : κ}
    (hsrc : src ∉ hash.map Prod.fst) (cpanAddr : κ) :
    ∃ s', addAddressUt s src cpanAddr = some s' ∧ s'.Represents (hashAdd hash src cpanAddr) := by
  obtain ⟨l, hs, rfl, hkeys, hown⟩ := h
  obtain ⟨s₁, hadd, hs₁, hown₁⟩ := hashAddKeyptr_new hs hown hn src cpanAddr
  set l' := l ++ [(s.elems.fresh, src, cpanAddr)] with hl'
  have hlist : l'.map Prod.snd = l.map Prod.snd ++ [(src, cpanAddr)] := by
    rw [hl', List.map_append]; rfl
  have hlen : (l.map Prod.snd ++ [(src, cpanAddr)]).length = l'.length := by
    rw [← hlist, List.length_map]
  have hkeys' : ((l'.map Prod.snd).map Prod.fst).Nodup := by
    rw [hlist, List.map_append, List.nodup_append]
    exact ⟨hkeys, List.nodup_singleton _, fun k hk k' hk' ↦
      List.mem_singleton.1 hk' ▸ ne_of_mem_of_not_mem hk hsrc⟩
  simp only [addAddressUt, Option.bind_eq_bind, hadd, Option.bind_some, hashCount_spec hs₁]
  rw [hashAdd, hlen, ← hlist]
  by_cases hfull : l'.length > maxCryptioCacheSize
  · -- the first entry goes
    obtain ⟨p, l₂, hp⟩ : ∃ p l₂, l' = p :: l₂ := List.exists_cons_of_ne_nil (by simp [hl'])
    rw [hp] at hs₁ hown₁ hkeys'
    obtain ⟨s₂, m, hhead, hdel, hfree, hs₂, hown₂⟩ := hashDelete_first hs₁ hown₁
    rw [if_pos hfull, if_pos hfull]
    simp only [hhead, hdel, Option.bind_some, hfree]
    rw [hp, List.map_cons, List.tail_cons]
    rw [List.map_cons, List.map_cons, List.nodup_cons] at hkeys'
    exact ⟨_, rfl, l₂, hs₂, rfl, hkeys'.2, hown₂⟩
  · rw [if_neg hfull, if_neg hfull]
    exact ⟨s₁, rfl, l', hs₁, rfl, hkeys', hown₁⟩

/-- A call looks an address up, and adds it if it is not there. -/
theorem lookUpUt_spec [DecidableEq κ] (h : s.Represents hash) (hn : s.numBuckets ≠ 2 ^ 31)
    (src : κ) :
    (∃ entry s', findAddressUt s src = some (some entry, s') ∧
      (hashFind hash src).1 = some entry.cpanAddr ∧ s'.Represents (hashFind hash src).2) ∨
    ∃ s', findAddressUt s src = some (none, s') ∧ hashFind hash src = (none, hash) ∧
      ∀ cpanAddr, ∃ s'', addAddressUt s' src cpanAddr = some s'' ∧
        s''.Represents (hashAdd hash src cpanAddr) := by
  obtain ⟨entry, s', hfind, hentry, hrep, hnum⟩ := findAddressUt_spec h hn src
  rcases entry with _ | entry
  · have hsrc : src ∉ hash.map Prod.fst := fun hmem ↦ by
      obtain ⟨p, hp, rfl⟩ := List.mem_map.1 hmem
      rcases hfind' : hash.find? (·.1 = p.1) with _ | q
      · exact absurd (decide_eq_true rfl) (List.find?_eq_none.1 hfind' p hp)
      · rw [hashFind, hfind'] at hentry
        cases hentry
    have hnone := hashFind_eq_none hsrc
    rw [hnone] at hrep
    exact Or.inr ⟨s', hfind, hnone, fun v ↦ addAddressUt_spec hrep (hnum rfl ▸ hn) hsrc v⟩
  · exact Or.inl ⟨entry, s', hfind, hentry.symm, hrep⟩

end Hash

/-! ## Refinement -/

/-- The fields of an anonymiser other than its hashes. -/
def CryptoIp.bare (s : CryptoIp) : CryptoIp := { s with addressHash := [], address6Hash := [] }

/-- A state with hashes in memory stands for one with lists. -/
structure CryptoIpUt.Refines (c : CryptoIpUt) (s : CryptoIp) : Prop where
  rest : c.rest = s.bare
  hash : c.addressHash.Represents s.addressHash
  hash6 : c.address6Hash.Represents s.address6Hash

section Calls

variable {blockEncrypt : Block → Block} {c : CryptoIpUt} {s : CryptoIp}

theorem lookupCache_bare (s : CryptoIp) (a : BitVec 32) :
    lookupCache blockEncrypt s.bare a =
      ((lookupCache blockEncrypt s a).1, (lookupCache blockEncrypt s a).2.bare) := by
  simp only [lookupCache]
  by_cases h : s.encCache (a >>> (32 - cacheBits)) = 0
  · rw [if_pos h, if_pos (show s.bare.encCache _ = 0 from h)]
    rfl
  · rw [if_neg h, if_neg (show ¬s.bare.encCache _ = 0 from h)]
    rfl

/-- Encrypting does not look at the hashes. -/
theorem encryptIp_bare (blockEncrypt : Block → Block) (s : CryptoIp) (a : BitVec 32) :
    encryptIp blockEncrypt s.bare a =
      ((encryptIp blockEncrypt s a).1, (encryptIp blockEncrypt s a).2.bare) := by
  rw [encryptIp, encryptIp, cppAnonymize, cppAnonymize, lookupCache_bare]
  by_cases h₀ : s.fullcache0.1 = a
  · rw [if_pos h₀, if_pos (show s.bare.fullcache0.1 = a from h₀)]
    rfl
  · rw [if_neg h₀, if_neg (show ¬s.bare.fullcache0.1 = a from h₀)]
    by_cases h₁ : s.fullcache1.1 = a
    · rw [if_pos h₁, if_pos (show s.bare.fullcache1.1 = a from h₁)]
      rfl
    · rw [if_neg h₁, if_neg (show ¬s.bare.fullcache1.1 = a from h₁)]
      rfl

theorem encryptIpv6_bare (blockEncrypt : Block → Block) (s : CryptoIp) (a : In6Addr) :
    encryptIpv6 blockEncrypt s.bare a =
      ((encryptIpv6 blockEncrypt s a).1, (encryptIpv6 blockEncrypt s a).2.bare) := by
  simp only [encryptIpv6, encryptIp_bare]

/-- An encryption, seen from an anonymiser with its hashes and from one without. -/
theorem exists_encryptIp (blockEncrypt : Block → Block) (s : CryptoIp) (a : BitVec 32) :
    ∃ e s', encryptIp blockEncrypt s a = (e, s') ∧ encryptIp blockEncrypt s.bare a = (e, s'.bare) ∧
      s.SameHashes s' :=
  ⟨_, _, rfl, encryptIp_bare blockEncrypt s a, encryptIp_sameHashes s a⟩

theorem exists_encryptIpv6 (blockEncrypt : Block → Block) (s : CryptoIp) (a : In6Addr) :
    ∃ e s', encryptIpv6 blockEncrypt s a = (e, s') ∧ encryptIpv6 blockEncrypt s.bare a =
      (e, s'.bare) ∧
      s.SameHashes s' :=
  ⟨_, _, rfl, encryptIpv6_bare blockEncrypt s a, encryptIpv6_sameHashes s a⟩

theorem retrieveCryptoIpUt_refines (blockEncrypt : Block → Block) (h : c.Refines s)
    (hn : c.addressHash.numBuckets ≠ 2 ^ 31) (a : BitVec 32) :
    ∃ c', retrieveCryptoIpUt blockEncrypt c a = some ((retrieveCryptoIp blockEncrypt s a).1, c') ∧
      c'.Refines (retrieveCryptoIp blockEncrypt s a).2 := by
  rcases lookUpUt_spec h.hash hn a with ⟨e, hash, hfind, hentry, hrep⟩ | ⟨hash, hfind, hnone, hadd⟩
  · simp only [retrieveCryptoIpUt, hfind, Option.bind_eq_bind, Option.bind_some, retrieveCryptoIp,
      findAddress, hentry]
    exact ⟨_, rfl, h.rest, hrep, h.hash6⟩
  · obtain ⟨e, s', hs, hbare, hsame⟩ := exists_encryptIp blockEncrypt s (htonl a)
    obtain ⟨hash', hadd', hrep⟩ := hadd (htonl e)
    simp only [retrieveCryptoIpUt, hfind, Option.bind_eq_bind, Option.bind_some, retrieveCryptoIp,
      findAddress, hnone, h.rest, hbare,
      hadd', hs, addAddress]
    exact ⟨_, rfl, rfl, hsame.hash.symm ▸ hrep, hsame.hash6.symm ▸ h.hash6⟩

theorem storeCryptoIpUt_refines (blockEncrypt : Block → Block) (h : c.Refines s)
    (hn : c.addressHash.numBuckets ≠ 2 ^ 31) (a : BitVec 32) :
    ∃ c', storeCryptoIpUt blockEncrypt c a = some c' ∧
      c'.Refines (storeCryptoIp blockEncrypt s a) := by
  rcases lookUpUt_spec h.hash hn a with ⟨e, hash, hfind, hentry, hrep⟩ | ⟨hash, hfind, hnone, hadd⟩
  · simp only [storeCryptoIpUt, hfind, Option.bind_eq_bind, Option.bind_some, storeCryptoIp,
      findAddress, hentry, h.rest]
    exact ⟨_, rfl, rfl, hrep, h.hash6⟩
  · obtain ⟨e, s', hs, hbare, hsame⟩ := exists_encryptIp blockEncrypt s (htonl a)
    obtain ⟨hash', hadd', hrep⟩ := hadd (htonl e)
    simp only [storeCryptoIpUt, hfind, Option.bind_eq_bind, Option.bind_some, storeCryptoIp,
      findAddress, hnone, h.rest, hbare,
      hadd', hs, addAddress]
    exact ⟨_, rfl, rfl, hsame.hash.symm ▸ hrep, hsame.hash6.symm ▸ h.hash6⟩

theorem retrieveCryptoIpv6Ut_refines (blockEncrypt : Block → Block) (h : c.Refines s)
    (hn : c.address6Hash.numBuckets ≠ 2 ^ 31) (a : In6Addr) :
    ∃ c', retrieveCryptoIpv6Ut blockEncrypt c a = some ((retrieveCryptoIpv6 blockEncrypt s a).1,
      c') ∧
      c'.Refines (retrieveCryptoIpv6 blockEncrypt s a).2 := by
  rcases lookUpUt_spec h.hash6 hn a with ⟨e, hash, hfind, hentry, hrep⟩ | ⟨hash, hfind, hnone, hadd⟩
  · simp only [retrieveCryptoIpv6Ut, hfind, Option.bind_eq_bind, Option.bind_some,
      retrieveCryptoIpv6, findAddress6, hentry]
    exact ⟨_, rfl, h.rest, h.hash, hrep⟩
  · obtain ⟨e, s', hs, hbare, hsame⟩ := exists_encryptIpv6 blockEncrypt s a
    obtain ⟨hash', hadd', hrep⟩ := hadd e
    simp only [retrieveCryptoIpv6Ut, hfind, Option.bind_eq_bind, Option.bind_some,
      retrieveCryptoIpv6, findAddress6, hnone, h.rest, hbare,
      hadd', hs, addAddress6]
    exact ⟨_, rfl, rfl, hsame.hash.symm ▸ h.hash, hsame.hash6.symm ▸ hrep⟩

theorem storeCryptoIpv6Ut_refines (blockEncrypt : Block → Block) (h : c.Refines s)
    (hn : c.address6Hash.numBuckets ≠ 2 ^ 31) (a : In6Addr) :
    ∃ c', storeCryptoIpv6Ut blockEncrypt c a = some c' ∧
      c'.Refines (storeCryptoIpv6 blockEncrypt s a) := by
  rcases lookUpUt_spec h.hash6 hn a with ⟨e, hash, hfind, hentry, hrep⟩ | ⟨hash, hfind, hnone, hadd⟩
  · simp only [storeCryptoIpv6Ut, hfind, Option.bind_eq_bind, Option.bind_some, storeCryptoIpv6,
      findAddress6, hentry, h.rest]
    exact ⟨_, rfl, rfl, h.hash, hrep⟩
  · obtain ⟨e, s', hs, hbare, hsame⟩ := exists_encryptIpv6 blockEncrypt s a
    obtain ⟨hash', hadd', hrep⟩ := hadd e
    simp only [storeCryptoIpv6Ut, hfind, Option.bind_eq_bind, Option.bind_some, storeCryptoIpv6,
      findAddress6, hnone, h.rest, hbare, hadd', hs, addAddress6]
    exact ⟨_, rfl, rfl, hsame.hash.symm ▸ h.hash, hsame.hash6.symm ▸ hrep⟩

/-- A table that must not be doubled. -/
def CryptoIpUt.Full (c : CryptoIpUt) : Prop :=
  c.addressHash.numBuckets = 2 ^ 31 ∨ c.address6Hash.numBuckets = 2 ^ 31

/-- **A call on the hashes in memory does what it does on lists.** -/
theorem CryptoCall.runUt_refines (blockEncrypt : Block → Block) (h : c.Refines s) (hn : ¬c.Full)
    (call : CryptoCall) :
    ∃ c', CryptoCall.runUt blockEncrypt c call = some c' ∧
      c'.Refines (CryptoCall.run blockEncrypt s call) := by
  have h₄ : c.addressHash.numBuckets ≠ 2 ^ 31 := fun he ↦ hn (Or.inl he)
  have h₆ : c.address6Hash.numBuckets ≠ 2 ^ 31 := fun he ↦ hn (Or.inr he)
  cases call with
  | retrieveCryptoIp a =>
    obtain ⟨c', heq, h'⟩ := retrieveCryptoIpUt_refines blockEncrypt h h₄ a
    exact ⟨c', by rw [CryptoCall.runUt, heq]; rfl, h'⟩
  | storeCryptoIp a => exact storeCryptoIpUt_refines blockEncrypt h h₄ a
  | retrieveCryptoIpv6 a =>
    obtain ⟨c', heq, h'⟩ := retrieveCryptoIpv6Ut_refines blockEncrypt h h₆ a
    exact ⟨c', by rw [CryptoCall.runUt, heq]; rfl, h'⟩
  | storeCryptoIpv6 a => exact storeCryptoIpv6Ut_refines blockEncrypt h h₆ a

end Calls

/-! ## Runs -/

/-- No hash stands for no entries. -/
theorem UtHash.represents_null (κ : Type) [HashKey κ] : (UtHash.null κ).Represents [] :=
  ⟨[], Or.inl ⟨rfl, rfl, fun _ ↦ rfl, nofun⟩, rfl, List.nodup_nil, nofun⟩

theorem initializeCryptoUt_refines (blockEncrypt : Block → Block) (padKey : Block) :
    ∃ c, initializeCryptoUt blockEncrypt padKey = some c ∧
      c.Refines (initializeCrypto blockEncrypt padKey) := by
  obtain ⟨e₁, s₁, hs₁, hbare₁, hsame₁⟩ :=
    exists_encryptIp blockEncrypt (panonInit blockEncrypt padKey) 1
  obtain ⟨e₂, s₂, hs₂, hbare₂, hsame₂⟩ := exists_encryptIp blockEncrypt s₁ 2
  obtain ⟨e₃, s₃, hs₃, hbare₃, hsame₃⟩ := exists_encryptIp blockEncrypt s₂ (htonl 0)
  have hnil : s₃.addressHash = [] := hsame₃.hash.trans (hsame₂.hash.trans hsame₁.hash)
  have hnil6 : s₃.address6Hash = [] := hsame₃.hash6.trans (hsame₂.hash6.trans hsame₁.hash6)
  obtain ⟨hash, hadd, hrep⟩ := addAddressUt_spec (UtHash.represents_null (BitVec 32)) (by decide)
    (List.not_mem_nil (a := 0)) (htonl e₃)
  set s₄ : CryptoIp := { s₃ with
    addressHash := hashAdd s₃.addressHash 0 (htonl e₃), cryptoTotalHit := 0, cryptoTotalInsert := 1,
    cryptoTotalMiss := 0 } with hs₄
  have hs₄' : ({ s₃ with cryptoTotalHit := 0, cryptoTotalInsert := 1, cryptoTotalMiss := 0 } :
    CryptoIp) =
      s₄.bare := by
    rw [hs₄, CryptoIp.bare, ← hnil, ← hnil6]
  obtain ⟨e₅, s₅, hs₅, hbare₅, hsame₅⟩ := exists_encryptIpv6 blockEncrypt s₄ ⟨0, 0, 0, 0⟩
  obtain ⟨hash6, hadd6, hrep6⟩ := addAddressUt_spec (UtHash.represents_null In6Addr) (by decide)
    (List.not_mem_nil (a := ⟨0, 0, 0, 0⟩)) e₅
  simp only [initializeCryptoUt, initializeCrypto, hs₁, hs₂, hs₃, addAddress, addAddress6, ← hs₄,
    hs₄', hadd,
    hs₅, hbare₅, hadd6, Option.bind_eq_bind, Option.bind_some]
  refine ⟨_, rfl, rfl, ?_, ?_⟩
  · rw [hsame₅.hash, hs₄, hnil]
    exact hrep
  · rw [hsame₅.hash6, hs₄, hnil6]
    exact hrep6

/-- **A run on the hashes in memory is a run on lists**, as long as no table is full. -/
theorem runCryptoUt_refines (blockEncrypt : Block → Block) (padKey : Block)
    (calls : List CryptoCall) :
    (∃ n < calls.length, ∃ c, runCryptoUt blockEncrypt padKey (calls.take n) = some c ∧ c.Full) ∨
      ∃ c, runCryptoUt blockEncrypt padKey calls = some c ∧
        c.Refines (runCrypto blockEncrypt padKey calls) := by
  induction calls using List.reverseRecOn with
  | nil =>
    obtain ⟨c, hc, href⟩ := initializeCryptoUt_refines blockEncrypt padKey
    exact Or.inr ⟨c, by rw [runCryptoUt, hc]; rfl, href⟩
  | append_singleton calls call ih =>
    rw [List.length_append, List.length_singleton]
    rcases ih with ⟨n, hn, c, hc, hfull⟩ | ⟨c, hc, href⟩
    · exact Or.inl ⟨n, hn.trans (Nat.lt_succ_self _),
        c, by rwa [List.take_append_of_le_length hn.le], hfull⟩
    · by_cases hfull : c.Full
      · exact Or.inl ⟨calls.length, Nat.lt_succ_self _, c, by rwa [List.take_left], hfull⟩
      · obtain ⟨c', hc', href'⟩ := CryptoCall.runUt_refines blockEncrypt href hfull call
        refine Or.inr ⟨c', ?_, ?_⟩
        · rw [runCryptoUt, Option.bind_eq_some_iff] at hc ⊢
          obtain ⟨c₀, hc₀, hrun⟩ := hc
          refine ⟨c₀, hc₀, ?_⟩
          rw [List.foldlM_append, hrun]
          simpa using hc'
        · rw [runCrypto, List.foldl_append, ← runCrypto]
          exact href'

/-- **The anonymiser on the hash in memory**: whatever the calls, unless a table gets full on the
way it comes to a state that stands for the one with lists, and answers with the pseudonyms. -/
theorem crypto_over_uthash (blockEncrypt : Block → Block) (padKey : Block)
    (calls : List CryptoCall) :
    (∃ n < calls.length, ∃ c, runCryptoUt blockEncrypt padKey (calls.take n) = some c ∧ c.Full) ∨
      ∃ c, runCryptoUt blockEncrypt padKey calls = some c ∧
        c.Refines (runCrypto blockEncrypt padKey calls) ∧
        (¬c.Full → ∀ a, ∃ c', retrieveCryptoIpUt blockEncrypt c a =
          some (pseudonym blockEncrypt (blockEncrypt padKey) a, c')) ∧
        (¬c.Full → ∀ a, ∃ c', retrieveCryptoIpv6Ut blockEncrypt c a =
          some (pseudonym6 blockEncrypt (blockEncrypt padKey) a, c')) := by
  have hsound : (runCrypto blockEncrypt padKey calls).Sound blockEncrypt (blockEncrypt padKey) :=
    runCrypto_sound padKey calls
  refine (runCryptoUt_refines blockEncrypt padKey calls).imp_right fun ⟨c, hc, href⟩ ↦
    ⟨c, hc, href, fun hfull a ↦ ?_, fun hfull a ↦ ?_⟩
  · obtain ⟨c', hc', -⟩ := retrieveCryptoIpUt_refines blockEncrypt href (fun he ↦ hfull (Or.inl he))
      a
    exact ⟨c', (retrieveCryptoIp_spec hsound a).1 ▸ hc'⟩
  · obtain ⟨c', hc', -⟩ := retrieveCryptoIpv6Ut_refines blockEncrypt href
      (fun he ↦ hfull (Or.inr he)) a
    exact ⟨c', (retrieveCryptoIpv6_spec hsound a).1 ▸ hc'⟩

end AlphaMon
