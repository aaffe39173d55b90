import AlphaMon.Cryptopan
import AlphaMon.Memory.LastUse

/-!
# The address hashes as caches

The two address hashes of an anonymiser are bounded caches that keep the addresses used last.  A
look-up takes the entry it finds out and adds it again, so that the order of insertion is the order
of last use; an address that is not found is added, and of a hash that is then over its size the
first entry goes.

`cache_is_lru` says that in every state that calls can lead to, each hash has the addresses used
last, every one once, in the order of last use and with its pseudonym, and that a call that adds to
a full hash drops the entry used longest ago and nothing else.
-/

set_option autoImplicit false

namespace AlphaMon

open LastUse

/-- The IPv4 address a call looks up. -/
def CryptoCall.address : CryptoCall → Option (BitVec 32)
  | .retrieveCryptoIp a | .storeCryptoIp a => some a
  | .retrieveCryptoIpv6 _ | .storeCryptoIpv6 _ => none

/-- The IPv6 address a call looks up. -/
def CryptoCall.address6 : CryptoCall → Option In6Addr
  | .retrieveCryptoIp _ | .storeCryptoIp _ => none
  | .retrieveCryptoIpv6 a | .storeCryptoIpv6 a => some a

/-- The IPv4 addresses used: the one that `initialize_crypto` enters, and those looked up. -/
def addressUses (calls : List CryptoCall) :
    List (BitVec 32) := 0 :: calls.filterMap CryptoCall.address

/-- The IPv6 addresses used. -/
def address6Uses (calls : List CryptoCall) : List In6Addr :=
  ⟨0, 0, 0, 0⟩ :: calls.filterMap CryptoCall.address6

section Hash

variable {κ : Type} [DecidableEq κ]

/-- The hash is a cache of the values of `f` at the keys used last. -/
structure IsLruCache (f : κ → κ) (uses : List κ) (hash : List (κ × κ)) : Prop where
  /-- No key occurs twice. -/
  nodup : (hash.map Prod.fst).Nodup
  /-- The size is bounded. -/
  size : hash.length ≤ maxCryptioCacheSize
  /-- The keys have been used. -/
  used : ∀ p ∈ hash, p.1 ∈ uses
  /-- They are in the order of last use. -/
  order : (hash.map Prod.fst).Pairwise fun a b ↦ lastUse uses a < lastUse uses b
  /-- Every entry pairs its key with the value. -/
  entry : ∀ p ∈ hash, p.2 = f p.1
  /-- No key is missing: they are the last ones of those that have been used. -/
  last : hash.map Prod.fst = uses.dedup.rtake maxCryptioCacheSize

/-- If a call adds an entry for the address to a full hash, the first entry goes and all others
stay. -/
def EvictsFirst (f : κ → κ) (address : Option κ) (hash hash' : List (κ × κ)) : Prop :=
  ∀ a ∈ address, a ∉ hash.map Prod.fst → hash.length = maxCryptioCacheSize →
    hash' = hash.tail ++ [(a, f a)]

/-- What a look-up does to a hash, where `v` is what is added. -/
def hashLookup (hash : List (κ × κ)) (a v : κ) : List (κ × κ) :=
  if (hashFind hash a).1 = none then hashAdd (hashFind hash a).2 a v else (hashFind hash a).2

variable {f : κ → κ} {hash : List (κ × κ)} {a v : κ} {uses : List κ}

theorem hashFind_eq_none (h : a ∉ hash.map Prod.fst) : hashFind hash a = (none, hash) := by
  have hfind : hash.find? (·.1 = a) = none := by
    rw [List.find?_eq_none]
    exact fun p hp ↦ by simpa using fun he : p.1 = a ↦ h (he ▸ List.mem_map_of_mem hp)
  rw [hashFind, hfind]

theorem hashLookup_of_notMem (h : a ∉ hash.map Prod.fst) (v : κ) :
    hashLookup hash a v = hashAdd hash a v := by
  rw [hashLookup, hashFind_eq_none h, if_pos rfl]

/-- **The keys after a look-up.** -/
theorem map_fst_hashLookup (hash : List (κ × κ)) (a v : κ) :
    (hashLookup hash a v).map Prod.fst = use maxCryptioCacheSize a (hash.map Prod.fst) := by
  by_cases h : a ∈ hash.map Prod.fst
  · obtain ⟨p, hp, rfl⟩ := List.mem_map.1 h
    obtain ⟨s, hs⟩ : ∃ s, hash.find? (·.1 = p.1) = some s :=
      Option.isSome_iff_exists.1 (List.find?_isSome.2 ⟨p, hp, by simp⟩)
    have hkey : s.1 = p.1 := by simpa using List.find?_some hs
    have herase : (hash.eraseP (·.1 = p.1)).map Prod.fst = (hash.map Prod.fst).erase p.1 := by
      rw [List.erase_eq_eraseP, List.eraseP_map]
      congr 2
      funext q
      exact decide_eq_decide.2 eq_comm
    rw [use, if_pos h, hashLookup, hashFind, hs]
    simp [herase, hkey]
  · rw [hashLookup_of_notMem h, use, if_neg h, hashAdd]
    simp only [List.length_append, List.length_map, List.length_singleton]
    split <;> simp

/-- A look-up that adds to a full hash. -/
theorem evictsFirst_hashLookup (hash : List (κ × κ)) (a : κ) :
    EvictsFirst f (some a) hash (hashLookup hash a (f a)) := by
  rintro _ ⟨⟩ hmem hfull
  rw [hashLookup_of_notMem hmem, hashAdd, if_pos (by simp [hfull])]
  obtain ⟨p, l, rfl⟩ := List.exists_cons_of_length_pos (by rw [hfull]; decide : 0 < hash.length)
  rfl

omit [DecidableEq κ] in
theorem evictsFirst_none (f : κ → κ) (hash hash' : List (κ × κ)) : EvictsFirst f none hash hash' :=
  fun _ h ↦ absurd h (by simp)

/-- **A hash whose keys are the last ones in the order of use** is a cache of what was used last. -/
theorem IsLruCache.of_keys (hkeys : hash.map Prod.fst = uses.dedup.rtake maxCryptioCacheSize)
    (hentry : ∀ p ∈ hash, p.2 = f p.1) : IsLruCache f uses hash := by
  have hsub : (hash.map Prod.fst).Sublist uses.dedup := by
    rw [hkeys]
    exact List.drop_sublist _ _
  refine ⟨(List.nodup_dedup uses).sublist hsub, ?_, fun p hp ↦ ?_,
    (pairwise_lastUse uses).sublist hsub, hentry, hkeys⟩
  · have hlen := congrArg List.length hkeys
    rw [List.length_map, length_rtake] at hlen
    omega
  · exact List.mem_dedup.1 (hsub.subset (List.mem_map_of_mem hp))

/-- The keys after one more use. -/
theorem keys_hashLookup (hkeys : hash.map Prod.fst = uses.dedup.rtake maxCryptioCacheSize)
    (a v : κ) :
    (hashLookup hash a v).map Prod.fst = (uses ++ [a]).dedup.rtake maxCryptioCacheSize := by
  rw [map_fst_hashLookup, hkeys, dedup_concat]
  exact use_rtake (List.nodup_dedup uses) _ a

end Hash

/-! ## The calls -/

variable {blockEncrypt : Block → Block} {mPad : Block} {s : CryptoIp}

/-- **`retrieve_crypto_ip` is a look-up**, and leaves the IPv6 addresses alone. -/
theorem retrieveCryptoIp_hash (hs : s.Sound blockEncrypt mPad) (a : BitVec 32) :
    (retrieveCryptoIp blockEncrypt s a).2.addressHash =
        hashLookup s.addressHash a (pseudonym blockEncrypt mPad a) ∧
      (retrieveCryptoIp blockEncrypt s a).2.address6Hash = s.address6Hash := by
  have hfind := findAddress_sound hs a
  rw [retrieveCryptoIp, hashLookup]
  simp only [findAddress] at hfind ⊢
  generalize hashFind s.addressHash a = r at hfind ⊢
  obtain ⟨entry, hash⟩ := r
  cases entry with
  | none =>
    obtain ⟨s', hrun, -, hsame⟩ := cppAnonymize_spec hfind (htonl a)
    simp only [encryptIp, hrun, addAddress, hsame.hash, hsame.hash6]
    exact ⟨rfl, trivial⟩
  | some v => exact ⟨rfl, rfl⟩

/-- `store_crypto_ip` does to the hashes what `retrieve_crypto_ip` does. -/
theorem retrieveCryptoIp_sameHashes (blockEncrypt : Block → Block) (s : CryptoIp) (a : BitVec 32) :
    (retrieveCryptoIp blockEncrypt s a).2.SameHashes (storeCryptoIp blockEncrypt s a) := by
  rw [retrieveCryptoIp, storeCryptoIp]
  obtain ⟨entry, s'⟩ := findAddress s a
  cases entry <;> exact ⟨rfl, rfl⟩

/-- **`retrieve_crypto_ipv6` is a look-up**, and leaves the IPv4 addresses alone. -/
theorem retrieveCryptoIpv6_hash (hs : s.Sound blockEncrypt mPad) (a : In6Addr) :
    (retrieveCryptoIpv6 blockEncrypt s a).2.addressHash = s.addressHash ∧
      (retrieveCryptoIpv6 blockEncrypt s a).2.address6Hash =
        hashLookup s.address6Hash a (pseudonym6 blockEncrypt mPad a) := by
  have hfind := findAddress6_sound hs a
  rw [retrieveCryptoIpv6, hashLookup]
  simp only [findAddress6] at hfind ⊢
  generalize hashFind s.address6Hash a = r at hfind ⊢
  obtain ⟨entry, hash⟩ := r
  cases entry with
  | none =>
    obtain ⟨s', hrun, -, hsame⟩ := encryptIpv6_spec hfind a
    simp only [hrun, addAddress6, hsame.hash, hsame.hash6]
    exact ⟨trivial, rfl⟩
  | some v => exact ⟨rfl, rfl⟩

/-- `store_crypto_ipv6` does to the hashes what `retrieve_crypto_ipv6` does. -/
theorem retrieveCryptoIpv6_sameHashes (blockEncrypt : Block → Block) (s : CryptoIp) (a : In6Addr) :
    (retrieveCryptoIpv6 blockEncrypt s a).2.SameHashes (storeCryptoIpv6 blockEncrypt s a) := by
  rw [retrieveCryptoIpv6, storeCryptoIpv6]
  obtain ⟨entry, s'⟩ := findAddress6 s a
  cases entry <;> exact ⟨rfl, rfl⟩

/-- What a call does to a hash: a look-up of its address, if it has one. -/
def hashStep {κ : Type} [DecidableEq κ] (f : κ → κ) (address : Option κ) (hash : List (κ × κ)) :
    List (κ × κ) :=
  address.elim hash fun a ↦ hashLookup hash a (f a)

/-- **What a call does to the hashes.** -/
theorem CryptoCall.run_hash (hs : s.Sound blockEncrypt mPad) (call : CryptoCall) :
    (call.run blockEncrypt s).addressHash = hashStep (pseudonym blockEncrypt mPad) call.address
      s.addressHash ∧
      (call.run blockEncrypt s).address6Hash =
        hashStep (pseudonym6 blockEncrypt mPad) call.address6 s.address6Hash := by
  cases call with
  | retrieveCryptoIp a => exact retrieveCryptoIp_hash hs a
  | storeCryptoIp a =>
    have hsame := retrieveCryptoIp_sameHashes blockEncrypt s a
    rw [run, hsame.hash, hsame.hash6]
    exact retrieveCryptoIp_hash hs a
  | retrieveCryptoIpv6 a => exact retrieveCryptoIpv6_hash hs a
  | storeCryptoIpv6 a =>
    have hsame := retrieveCryptoIpv6_sameHashes blockEncrypt s a
    rw [run, hsame.hash, hsame.hash6]
    exact retrieveCryptoIpv6_hash hs a

section Step

variable {κ : Type} [DecidableEq κ] {f : κ → κ} {hash : List (κ × κ)} {uses : List κ}

theorem evictsFirst_hashStep (f : κ → κ) (address : Option κ) (hash : List (κ × κ)) :
    EvictsFirst f address hash (hashStep f address hash) := by
  cases address with
  | none => exact evictsFirst_none _ _ _
  | some a => exact evictsFirst_hashLookup hash a

/-- The keys after a call. -/
theorem keys_hashStep (hkeys : hash.map Prod.fst = uses.dedup.rtake maxCryptioCacheSize)
    (address : Option κ) :
    (hashStep f address hash).map Prod.fst =
      (uses ++ address.toList).dedup.rtake maxCryptioCacheSize := by
  cases address with
  | none => simpa [hashStep] using hkeys
  | some a => exact keys_hashLookup hkeys a (f a)

end Step

/-! ## Reachable states -/

/-- Encrypting leaves the hashes alone, whatever the state. -/
theorem encryptIp_sameHashes (s : CryptoIp) (a : BitVec 32) :
    s.SameHashes (encryptIp blockEncrypt s a).2 := by
  rw [encryptIp, cppAnonymize, lookupCache]
  split_ifs <;> exact ⟨rfl, rfl⟩

theorem encryptIpv6_sameHashes (s : CryptoIp) (a : In6Addr) :
    s.SameHashes (encryptIpv6 blockEncrypt s a).2 := by
  rw [encryptIpv6]
  constructor
  · simp only [(encryptIp_sameHashes _ _).hash]
  · simp only [(encryptIp_sameHashes _ _).hash6]

/-- After initialisation a hash has one entry. -/
theorem initializeCrypto_hash (blockEncrypt : Block → Block) (padKey : Block) :
    (initializeCrypto blockEncrypt padKey).addressHash.map Prod.fst = [0] ∧
      (initializeCrypto blockEncrypt padKey).address6Hash.map Prod.fst = [⟨0, 0, 0, 0⟩] := by
  simp only [initializeCrypto, addAddress, addAddress6, (encryptIpv6_sameHashes _ _).hash,
    (encryptIpv6_sameHashes _ _).hash6, (encryptIp_sameHashes _ _).hash,
      (encryptIp_sameHashes _ _).hash6]
  exact ⟨rfl, rfl⟩

/-- **The keys of a hash are the addresses used last**, in the order of their last uses. -/
theorem runCrypto_keys (blockEncrypt : Block → Block) (padKey : Block) (calls : List CryptoCall) :
    (runCrypto blockEncrypt padKey calls).addressHash.map Prod.fst =
        (addressUses calls).dedup.rtake maxCryptioCacheSize ∧
      (runCrypto blockEncrypt padKey calls).address6Hash.map Prod.fst =
        (address6Uses calls).dedup.rtake maxCryptioCacheSize := by
  induction calls using List.reverseRecOn with
  | nil =>
    obtain ⟨h, h6⟩ := initializeCrypto_hash blockEncrypt padKey
    rw [runCrypto, List.foldl_nil, h, h6]
    exact ⟨rfl, rfl⟩
  | append_singleton calls call ih =>
    obtain ⟨h, h6⟩ := CryptoCall.run_hash (runCrypto_sound padKey calls) call
    rw [runCrypto, List.foldl_append, ← runCrypto, List.foldl_cons, List.foldl_nil, h, h6]
    have huses : addressUses (calls ++ [call]) = addressUses calls ++ call.address.toList := by
      cases call <;> simp [addressUses, CryptoCall.address]
    have huses6 : address6Uses (calls ++ [call]) = address6Uses calls ++ call.address6.toList := by
      cases call <;> simp [address6Uses, CryptoCall.address6]
    rw [huses, huses6]
    exact ⟨keys_hashStep ih.1 _, keys_hashStep ih.2 _⟩

/-- **Both address hashes are bounded LRU caches of the pseudonyms**, in every state after
initialisation and some calls. -/
theorem cache_is_lru (blockEncrypt : Block → Block) (padKey : Block) (calls : List CryptoCall) :
    let s := runCrypto blockEncrypt padKey calls
    let ip a := htonl (ppAnonymize blockEncrypt s.mPad (htonl a))
    let ipv6 a := (encryptIpv6 blockEncrypt s a).1
    IsLruCache ip (addressUses calls) s.addressHash ∧
      IsLruCache ipv6 (address6Uses calls) s.address6Hash ∧
      ∀ call : CryptoCall,
        EvictsFirst ip call.address s.addressHash (call.run blockEncrypt s).addressHash ∧
          EvictsFirst ipv6 call.address6 s.address6Hash (call.run blockEncrypt s).address6Hash := by
  intro s ip ipv6
  have hs : s.Sound blockEncrypt (blockEncrypt padKey) := runCrypto_sound padKey calls
  obtain ⟨hkeys, hkeys6⟩ := runCrypto_keys blockEncrypt padKey calls
  have hip : ip = pseudonym blockEncrypt (blockEncrypt padKey) := by
    funext a
    simp only [ip, hs.pad, pseudonym]
  have hipv6 : ipv6 = pseudonym6 blockEncrypt (blockEncrypt padKey) := by
    funext a
    obtain ⟨s', hrun, -, -⟩ := encryptIpv6_spec hs a
    simp only [ipv6, hrun]
  rw [hip, hipv6]
  refine ⟨.of_keys hkeys hs.hash, .of_keys hkeys6 hs.hash6, fun call ↦ ?_⟩
  obtain ⟨hrun, hrun6⟩ := CryptoCall.run_hash hs call
  rw [hrun, hrun6]
  exact ⟨evictsFirst_hashStep _ _ _, evictsFirst_hashStep _ _ _⟩

end AlphaMon
