import AlphaMon.CryptoIp

/-!
# What the anonymiser computes

The plain algorithm adds to an address a pad whose bit `i` depends only on the first `i` bits of the
address (`padLoop_causal`), so it keeps common prefixes and is a bijection
(`pp_anonymize_prefix`).

The caches do not show.  `CryptoIp.Sound` says that each of them holds only what the plain algorithm
would compute; it holds after initialisation, thanks to the two calls that fill `fullcache`, and is
kept by every call.  So in every reachable state the cached functions are the plain ones
(`cached_eq_plain`), and the image of an IPv6 address is that of its words (`ipv6_prefix`).
-/

set_option autoImplicit false

namespace AlphaMon

open Prefix

/-! ## Byte order -/

/-- The bytes change places, the bits in a byte do not. -/
theorem getLsbD_htonl (a : BitVec 32) {i : ℕ} (hi : i < 32) :
    (htonl a).getLsbD i = a.getLsbD (8 * (3 - i / 8) + i % 8) := by
  simp only [htonl, BitVec.getLsbD_append, BitVec.getLsbD_extractLsb']
  rcases (by omega : i / 8 = 0 ∨ i / 8 = 1 ∨ i / 8 = 2 ∨ i / 8 = 3) with h | h | h | h
  · rw [if_pos (by omega), show 8 * (3 - i / 8) + i % 8 = 24 + i by omega]
    simp [show i < 8 by omega]
  · rw [if_neg (by omega), if_pos (by omega), show 8 * (3 - i / 8) + i % 8 = 16 + (i - 8) by omega]
    simp [show i - 8 < 8 by omega]
  · rw [if_neg (by omega), if_neg (by omega), if_pos (by omega),
      show 8 * (3 - i / 8) + i % 8 = 8 + (i - 8 - 8) by omega]
    simp [show i - 8 - 8 < 8 by omega]
  · rw [if_neg (by omega), if_neg (by omega), if_neg (by omega),
      show 8 * (3 - i / 8) + i % 8 = 0 + (i - 8 - 8 - 8) by omega]
    simp [show i - 8 - 8 - 8 < 8 by omega]

@[simp] theorem htonl_htonl (a : BitVec 32) : htonl (htonl a) = a := by
  refine BitVec.eq_of_getLsbD_eq fun i hi ↦ ?_
  rw [getLsbD_htonl _ hi, getLsbD_htonl _ (by omega)]
  congr 1
  omega

theorem htonl_xor (a b : BitVec 32) : htonl (a ^^^ b) = htonl a ^^^ htonl b := by
  refine BitVec.eq_of_getLsbD_eq fun i hi ↦ ?_
  rw [BitVec.getLsbD_xor, getLsbD_htonl _ hi, getLsbD_htonl _ hi, getLsbD_htonl _ hi,
    BitVec.getLsbD_xor]

/-! ## The bits of the pad -/

section Pad

variable (blockEncrypt : Block → Block) (mPad : Block)

/-- The bit the cipher gives in round `pos`. -/
def cipherBit (origAddr : BitVec 32) (pos : ℕ) : Bool :=
  (blockEncrypt (rinInput mPad (first4bytesInput mPad origAddr pos)) 0).toBitVec.getLsbD 7

variable {blockEncrypt mPad}

theorem getMsbD_padBit {a : BitVec 32} {pos i : ℕ} (hpos : pos < 32) (hi : i < 32) :
    (padBit blockEncrypt mPad a pos).getMsbD i =
      (decide (i = pos) && cipherBit blockEncrypt mPad a pos) := by
  rw [padBit, cipherBit]
  generalize blockEncrypt (rinInput mPad (first4bytesInput mPad a pos)) 0 = b
  rw [BitVec.getMsbD_eq_getLsbD, show (b >>> 7).toBitVec = b.toBitVec >>> 7 from rfl]
  simp only [BitVec.getLsbD_shiftLeft, BitVec.getLsbD_setWidth, BitVec.getLsbD_ushiftRight]
  by_cases h : i = pos
  · subst h
    simp [hi]
    omega
  · by_cases h' : 31 - i < 31 - pos
    · simp [h, h']
    · rw [BitVec.getLsbD_of_ge _ _ (by omega)]
      simp [h]

/-- The round `pos` sees only the first `pos` bits of the address. -/
theorem first4bytesInput_congr {a b : BitVec 32} {pos : ℕ} (hpos : pos < 32) (h : Agree pos a b) :
    first4bytesInput mPad a pos = first4bytesInput mPad b pos := by
  rw [first4bytesInput, first4bytesInput]
  split
  · rfl
  congr 1
  refine BitVec.eq_of_getLsbD_eq fun i hi ↦ ?_
  simp only [BitVec.getLsbD_shiftLeft, BitVec.getLsbD_ushiftRight]
  by_cases hlt : i < 32 - pos
  · simp [hlt]
  · have hbit := h (31 - i) (by omega)
    rw [BitVec.getMsbD_eq_getLsbD, BitVec.getMsbD_eq_getLsbD,
      show 32 - 1 - (31 - i) = 32 - pos + (i - (32 - pos)) by omega] at hbit
    simp only [show 31 - i < 32 by omega, decide_true, Bool.true_and] at hbit
    rw [hbit]

theorem cipherBit_congr {a b : BitVec 32} {pos : ℕ} (hpos : pos < 32) (h : Agree pos a b) :
    cipherBit blockEncrypt mPad a pos = cipherBit blockEncrypt mPad b pos := by
  rw [cipherBit, first4bytesInput_congr hpos h, cipherBit]

/-- **The bits of the pad** are those of the rounds done. -/
theorem getMsbD_padLoop {a : BitVec 32} {i : ℕ} (hi : i < 32) : ∀ (n pos : ℕ) (result : BitVec 32),
    pos + n ≤ 32 → (padLoop blockEncrypt mPad a n pos result).getMsbD i =
      (result.getMsbD i || (decide (pos ≤ i ∧ i < pos + n) && cipherBit blockEncrypt mPad a i))
  | 0, pos, result, _ => by
    have hnone : ¬(pos ≤ i ∧ i < pos + 0) := by omega
    rw [padLoop, decide_eq_false hnone, Bool.false_and, Bool.or_false]
  | n + 1, pos, result, hn => by
    rw [padLoop, getMsbD_padLoop hi n (pos + 1) _ (by omega), BitVec.getMsbD_or,
      getMsbD_padBit (by omega) hi]
    by_cases h : i = pos
    · subst h
      simp
    · have hiff : (pos + 1 ≤ i ∧ i < pos + 1 + n) ↔ (pos ≤ i ∧ i < pos + (n + 1)) := by omega
      simp only [h, hiff, decide_false, Bool.false_and, Bool.or_false]

theorem padLoop_add (a : BitVec 32) (m : ℕ) : ∀ (n pos : ℕ) (result : BitVec 32),
    padLoop blockEncrypt mPad a (n + m) pos result =
      padLoop blockEncrypt mPad a m (pos + n) (padLoop blockEncrypt mPad a n pos result)
  | 0, _, _ => by rw [Nat.zero_add, padLoop, Nat.add_zero]
  | n + 1, pos, result => by
    rw [Nat.add_right_comm, padLoop, padLoop_add a m n (pos + 1), padLoop,
      Nat.add_assoc, Nat.add_comm 1]

/-- **The pad is causal.** -/
theorem padLoop_causal : Causal fun a ↦ padLoop blockEncrypt mPad a 32 0 0 := by
  intro a b i hi h
  rw [getMsbD_padLoop hi _ _ _ le_rfl, getMsbD_padLoop hi _ _ _ le_rfl, cipherBit_congr hi h]

/-- **The first 20 bits of the pad** do not depend on the others of the address, and can be shifted
down and up again. -/
theorem padLoop_top (a : BitVec 32) :
    (padLoop blockEncrypt mPad ((a >>> (32 - cacheBits)) <<< (32 - cacheBits)) cacheBits 0 0
      >>> (32 - cacheBits)) <<< (32 - cacheBits) = padLoop blockEncrypt mPad a cacheBits 0 0 := by
  have htop : Agree cacheBits ((a >>> (32 - cacheBits)) <<< (32 - cacheBits)) a := by
    intro i hi
    simp only [cacheBits] at hi ⊢
    rw [BitVec.getMsbD_eq_getLsbD, BitVec.getMsbD_eq_getLsbD, BitVec.getLsbD_shiftLeft,
      BitVec.getLsbD_ushiftRight, show 32 - 20 + (32 - 1 - i - (32 - 20)) = 32 - 1 - i by omega]
    simp [show 32 - 1 - i < 32 by omega, show ¬32 - 1 - i < 12 by omega]
  have hcut : ∀ r : BitVec 32, ∀ i < 32, ((r >>> (32 - cacheBits)) <<< (32 - cacheBits)).getMsbD i =
      (decide (i < cacheBits) && r.getMsbD i) := by
    intro r i hi
    simp only [cacheBits]
    rw [BitVec.getMsbD_eq_getLsbD, BitVec.getMsbD_eq_getLsbD, BitVec.getLsbD_shiftLeft,
      BitVec.getLsbD_ushiftRight]
    by_cases h : i < 20
    · rw [show 32 - 20 + (32 - 1 - i - (32 - 20)) = 32 - 1 - i by omega]
      simp [h, hi]
      omega
    · simp [h]
      omega
  refine BitVec.eq_of_getMsbD_eq fun i hi ↦ ?_
  rw [hcut _ i hi, getMsbD_padLoop hi _ _ _ (by decide), getMsbD_padLoop hi _ _ _ (by decide)]
  by_cases h : i < cacheBits
  · rw [cipherBit_congr hi (htop.mono h.le)]
    simp [h]
  · simp [h]

/-- **CryptoPAn keeps common prefixes**: two addresses and their pseudonyms have common prefixes of
the same length, whatever the cipher and the pad, and so the map is a bijection. -/
theorem pp_anonymize_prefix (blockEncrypt : Block → Block) (mPad : Block) :
    (∀ a b, lcp (ppAnonymize blockEncrypt mPad a) (ppAnonymize blockEncrypt mPad b) = lcp a b) ∧
      Function.Bijective (ppAnonymize blockEncrypt mPad) :=
  ⟨padLoop_causal.preserving, padLoop_causal.preserving.bijective⟩

end Pad

/-! ## The caches -/

section Caches

variable (blockEncrypt : Block → Block) (mPad : Block)

/-- The pseudonym of an address in the byte order of the packet. -/
def pseudonym (a : BitVec 32) : BitVec 32 := htonl (ppAnonymize blockEncrypt mPad (htonl a))

/-- The pseudonym of an IPv6 address. -/
def pseudonym6 (a : In6Addr) : In6Addr :=
  ⟨pseudonym blockEncrypt mPad (a.w0 ^^^ 0xffffffff#32),
    pseudonym blockEncrypt mPad (a.w1 ^^^ 0xf0f0f0f0#32),
    pseudonym blockEncrypt mPad (a.w2 ^^^ 0x0f0f0f0f#32),
    pseudonym blockEncrypt mPad (a.w3 ^^^ 0x00000000#32)⟩

/-- An entry of the big cache is empty, or the bits the plain algorithm gives. -/
def EncSound (s : CryptoIp) : Prop :=
  ∀ scan, s.encCache scan ≠ 0 → s.encCache scan =
    padLoop blockEncrypt mPad (scan <<< (32 - cacheBits)) cacheBits 0 0 >>> (32 - cacheBits)

/-- Every cache holds only what the plain algorithm computes. -/
structure CryptoIp.Sound (s : CryptoIp) : Prop where
  /-- The pad is the one of the key. -/
  pad : s.mPad = mPad
  /-- The big cache. -/
  enc : EncSound blockEncrypt mPad s
  /-- The last address. -/
  full0 : s.fullcache0.2 = ppAnonymize blockEncrypt mPad s.fullcache0.1
  /-- The address before. -/
  full1 : s.fullcache1.2 = ppAnonymize blockEncrypt mPad s.fullcache1.1
  /-- The address hash. -/
  hash : ∀ p ∈ s.addressHash, p.2 = pseudonym blockEncrypt mPad p.1
  /-- The IPv6 address hash. -/
  hash6 : ∀ p ∈ s.address6Hash, p.2 = pseudonym6 blockEncrypt mPad p.1

variable {blockEncrypt mPad} {s : CryptoIp}

theorem lookupCache_spec (hpad : s.mPad = mPad) (henc : EncSound blockEncrypt mPad s)
    (a : BitVec 32) :
    ∃ cache, lookupCache blockEncrypt s a =
        (padLoop blockEncrypt mPad ((a >>> (32 - cacheBits)) <<< (32 - cacheBits)) cacheBits 0 0
          >>> (32 - cacheBits), { s with encCache := cache }) ∧
      EncSound blockEncrypt mPad { s with encCache := cache } := by
  rw [lookupCache]
  by_cases h : s.encCache (a >>> (32 - cacheBits)) = 0
  · simp only [if_pos h, cacheUpdate, hpad, Function.update_self]
    refine ⟨_, rfl, fun scan hne ↦ ?_⟩
    by_cases hs : scan = a >>> (32 - cacheBits)
    · subst hs
      simp
    · simp only [Function.update_of_ne hs] at hne ⊢
      exact henc scan hne
  · simp only [if_neg h]
    exact ⟨s.encCache, by rw [henc _ h], henc⟩

/-- The address hashes stay as they are. -/
structure CryptoIp.SameHashes (s s' : CryptoIp) : Prop where
  hash : s'.addressHash = s.addressHash
  hash6 : s'.address6Hash = s.address6Hash

/-- **A miss computes the plain pseudonym**: the 20 bits from the cache and the 12 computed are the
32 of the plain algorithm. -/
theorem cppAnonymize_miss (hpad : s.mPad = mPad) (henc : EncSound blockEncrypt mPad s)
    {a : BitVec 32} (h0 : s.fullcache0.1 ≠ a) (h1 : s.fullcache1.1 ≠ a) :
    ∃ s', cppAnonymize blockEncrypt s a = (ppAnonymize blockEncrypt mPad a, s') ∧ s'.mPad = mPad ∧
      EncSound blockEncrypt mPad s' ∧ s'.fullcache0 = (a, ppAnonymize blockEncrypt mPad a) ∧
      s'.fullcache1 = s.fullcache0 ∧ s.SameHashes s' := by
  obtain ⟨cache, hrun, hcache⟩ := lookupCache_spec hpad henc a
  have hsplit : padLoop blockEncrypt mPad a (32 - cacheBits) cacheBits
      (padLoop blockEncrypt mPad a cacheBits 0 0) = padLoop blockEncrypt mPad a 32 0 0 :=
    (padLoop_add a (32 - cacheBits) cacheBits 0 0).symm
  refine ⟨{ s with
    encCache := cache, fullcache1 := s.fullcache0
    fullcache0 := (a, ppAnonymize blockEncrypt mPad a) }, ?_, hpad, hcache, rfl, rfl, rfl, rfl⟩
  simp only [cppAnonymize, if_neg h0, if_neg h1, hrun, padLoop_top, hpad, hsplit, ppAnonymize]

/-- **The cached anonymisation is the plain one**, and keeps the caches sound. -/
theorem cppAnonymize_spec (hs : s.Sound blockEncrypt mPad) (a : BitVec 32) :
    ∃ s', cppAnonymize blockEncrypt s a = (ppAnonymize blockEncrypt mPad a, s') ∧
      s'.Sound blockEncrypt mPad ∧ s.SameHashes s' := by
  by_cases h0 : s.fullcache0.1 = a
  · refine ⟨s, ?_, hs, rfl, rfl⟩
    rw [cppAnonymize, if_pos h0, hs.full0, h0]
  by_cases h1 : s.fullcache1.1 = a
  · have hval : s.fullcache1.2 = ppAnonymize blockEncrypt mPad a := h1 ▸ hs.full1
    refine ⟨{ s with fullcache1 := s.fullcache0, fullcache0 := (a, s.fullcache1.2) }, ?_,
      ⟨hs.pad, hs.enc, hval, hs.full0, hs.hash, hs.hash6⟩, rfl, rfl⟩
    rw [cppAnonymize, if_neg h0, if_pos h1, hval]
  · obtain ⟨s', hrun, hpad, henc, hf0, hf1, hsame⟩ := cppAnonymize_miss hs.pad hs.enc h0 h1
    refine ⟨s', hrun, ⟨hpad, henc, by rw [hf0], by rw [hf1, hs.full0], ?_, ?_⟩, hsame⟩
    · rw [hsame.hash]
      exact hs.hash
    · rw [hsame.hash6]
      exact hs.hash6

theorem encryptIpv6_spec (hs : s.Sound blockEncrypt mPad) (a : In6Addr) :
    ∃ s', encryptIpv6 blockEncrypt s a = (pseudonym6 blockEncrypt mPad a, s') ∧
      s'.Sound blockEncrypt mPad ∧ s.SameHashes s' := by
  obtain ⟨s₀, h₀, hs₀, e₀⟩ := cppAnonymize_spec hs (htonl (a.w0 ^^^ 0xffffffff#32))
  obtain ⟨s₁, h₁, hs₁, e₁⟩ := cppAnonymize_spec hs₀ (htonl (a.w1 ^^^ 0xf0f0f0f0#32))
  obtain ⟨s₂, h₂, hs₂, e₂⟩ := cppAnonymize_spec hs₁ (htonl (a.w2 ^^^ 0x0f0f0f0f#32))
  obtain ⟨s₃, h₃, hs₃, e₃⟩ := cppAnonymize_spec hs₂ (htonl (a.w3 ^^^ 0x00000000#32))
  refine ⟨s₃, ?_, hs₃, ?_, ?_⟩
  · simp only [encryptIpv6, encryptIp, h₀, h₁, h₂, h₃]
    rfl
  · rw [e₃.hash, e₂.hash, e₁.hash, e₀.hash]
  · rw [e₃.hash6, e₂.hash6, e₁.hash6, e₀.hash6]

/-! ## The calls -/

section Hash

variable {κ : Type} {hash : List (κ × κ)} {P : κ × κ → Prop} {a : κ}

theorem forall_hashAdd (h : ∀ p ∈ hash, P p) {v : κ} (hv : P (a, v)) :
    ∀ p ∈ hashAdd hash a v, P p := by
  have happ : ∀ p ∈ hash ++ [(a, v)], P p := by
    intro p hp
    rcases List.mem_append.1 hp with hp | hp
    · exact h p hp
    · exact List.mem_singleton.1 hp ▸ hv
  rw [hashAdd]
  split
  · exact fun p hp ↦ happ p (List.mem_of_mem_tail hp)
  · exact happ

variable [DecidableEq κ]

theorem forall_hashFind (h : ∀ p ∈ hash, P p) : ∀ p ∈ (hashFind hash a).2, P p := by
  rw [hashFind]
  split
  · next s hs =>
    intro p hp
    rcases List.mem_append.1 hp with hp | hp
    · exact h p (List.mem_of_mem_eraseP hp)
    · exact List.mem_singleton.1 hp ▸ h s (List.mem_of_find?_eq_some hs)
  · exact h

theorem hashFind_some {v : κ} (h : ∀ p ∈ hash, P p) (hv : (hashFind hash a).1 = some v) :
    P (a, v) := by
  rw [hashFind] at hv
  split at hv
  · next s hs =>
    have hsa : s.1 = a := by simpa using List.find?_some hs
    obtain rfl : s.2 = v := by simpa using hv
    exact hsa ▸ h s (List.mem_of_find?_eq_some hs)
  · simp at hv

end Hash

theorem findAddress_sound (hs : s.Sound blockEncrypt mPad) (a : BitVec 32) :
    (findAddress s a).2.Sound blockEncrypt mPad :=
  ⟨hs.pad, hs.enc, hs.full0, hs.full1, forall_hashFind hs.hash, hs.hash6⟩

theorem findAddress6_sound (hs : s.Sound blockEncrypt mPad) (a : In6Addr) :
    (findAddress6 s a).2.Sound blockEncrypt mPad :=
  ⟨hs.pad, hs.enc, hs.full0, hs.full1, hs.hash, forall_hashFind hs.hash6⟩

theorem addAddress_sound (hs : s.Sound blockEncrypt mPad) (a : BitVec 32) :
    (addAddress s a (pseudonym blockEncrypt mPad a)).Sound blockEncrypt mPad :=
  ⟨hs.pad, hs.enc, hs.full0, hs.full1, forall_hashAdd hs.hash rfl, hs.hash6⟩

theorem addAddress6_sound (hs : s.Sound blockEncrypt mPad) (a : In6Addr) :
    (addAddress6 s a (pseudonym6 blockEncrypt mPad a)).Sound blockEncrypt mPad :=
  ⟨hs.pad, hs.enc, hs.full0, hs.full1, hs.hash, forall_hashAdd hs.hash6 rfl⟩

/-- The counters are not part of what is sound. -/
theorem CryptoIp.Sound.counters (hs : s.Sound blockEncrypt mPad) (h i m h6 i6 m6 : ℕ) :
    CryptoIp.Sound blockEncrypt mPad { s with
      cryptoTotalHit := h, cryptoTotalInsert := i, cryptoTotalMiss := m, cryptoTotalHitIpv6 := h6
      cryptoTotalInsertIpv6 := i6, cryptoTotalMissIpv6 := m6 } :=
  ⟨hs.pad, hs.enc, hs.full0, hs.full1, hs.hash, hs.hash6⟩

/-- **`retrieve_crypto_ip` returns the pseudonym**, whether it finds or computes it. -/
theorem retrieveCryptoIp_spec (hs : s.Sound blockEncrypt mPad) (a : BitVec 32) :
    (retrieveCryptoIp blockEncrypt s a).1 = pseudonym blockEncrypt mPad a ∧
      (retrieveCryptoIp blockEncrypt s a).2.Sound blockEncrypt mPad := by
  have hfind := findAddress_sound hs a
  have hsome : ∀ v, (findAddress s a).1 = some v → v = pseudonym blockEncrypt mPad a := fun v hv ↦
    hashFind_some (P := fun p ↦ p.2 = pseudonym blockEncrypt mPad p.1) hs.hash hv
  rw [retrieveCryptoIp]
  generalize findAddress s a = r at hfind hsome
  obtain ⟨entry, s₁⟩ := r
  cases entry with
  | none =>
    obtain ⟨s₂, hrun, hs₂, -⟩ := cppAnonymize_spec hfind (htonl a)
    simp only [encryptIp, hrun]
    exact ⟨rfl, (addAddress_sound hs₂ a).counters ..⟩
  | some v => exact ⟨hsome v rfl, hfind⟩

theorem storeCryptoIp_sound (hs : s.Sound blockEncrypt mPad) (a : BitVec 32) :
    (storeCryptoIp blockEncrypt s a).Sound blockEncrypt mPad := by
  have hfind := findAddress_sound hs a
  rw [storeCryptoIp]
  generalize findAddress s a = r at hfind
  obtain ⟨entry, s₁⟩ := r
  cases entry with
  | none =>
    obtain ⟨s₂, hrun, hs₂, -⟩ := cppAnonymize_spec hfind (htonl a)
    simp only [encryptIp, hrun]
    exact (addAddress_sound hs₂ a).counters ..
  | some v => exact hfind.counters ..

/-- **`retrieve_crypto_ipv6` returns the pseudonym**, whether it finds or computes it. -/
theorem retrieveCryptoIpv6_spec (hs : s.Sound blockEncrypt mPad) (a : In6Addr) :
    (retrieveCryptoIpv6 blockEncrypt s a).1 = pseudonym6 blockEncrypt mPad a ∧
      (retrieveCryptoIpv6 blockEncrypt s a).2.Sound blockEncrypt mPad := by
  have hfind := findAddress6_sound hs a
  have hsome : ∀ v, (findAddress6 s a).1 = some v → v = pseudonym6 blockEncrypt mPad a := fun v hv ↦
    hashFind_some (P := fun p ↦ p.2 = pseudonym6 blockEncrypt mPad p.1) hs.hash6 hv
  rw [retrieveCryptoIpv6]
  generalize findAddress6 s a = r at hfind hsome
  obtain ⟨entry, s₁⟩ := r
  cases entry with
  | none =>
    obtain ⟨s₂, hrun, hs₂, -⟩ := encryptIpv6_spec hfind a
    simp only [hrun]
    exact ⟨trivial, (addAddress6_sound hs₂ a).counters ..⟩
  | some v => exact ⟨hsome v rfl, hfind⟩

theorem storeCryptoIpv6_sound (hs : s.Sound blockEncrypt mPad) (a : In6Addr) :
    (storeCryptoIpv6 blockEncrypt s a).Sound blockEncrypt mPad := by
  have hfind := findAddress6_sound hs a
  rw [storeCryptoIpv6]
  generalize findAddress6 s a = r at hfind
  obtain ⟨entry, s₁⟩ := r
  cases entry with
  | none =>
    obtain ⟨s₂, hrun, hs₂, -⟩ := encryptIpv6_spec hfind a
    simp only [hrun]
    exact (addAddress6_sound hs₂ a).counters ..
  | some v => exact hfind.counters ..

theorem CryptoCall.run_sound (hs : s.Sound blockEncrypt mPad) (call : CryptoCall) :
    (call.run blockEncrypt s).Sound blockEncrypt mPad := by
  cases call with
  | retrieveCryptoIp a => exact (retrieveCryptoIp_spec hs a).2
  | storeCryptoIp a => exact storeCryptoIp_sound hs a
  | retrieveCryptoIpv6 a => exact (retrieveCryptoIpv6_spec hs a).2
  | storeCryptoIpv6 a => exact storeCryptoIpv6_sound hs a

/-! ## Reachable states -/

/-- **After initialisation the caches are sound.**  `fullcache` is so only because two addresses
other than 0 were encrypted first: neither of them hits a cleared entry. -/
theorem initializeCrypto_sound (padKey : Block) :
    (initializeCrypto blockEncrypt padKey).Sound blockEncrypt (blockEncrypt padKey) := by
  have henc : EncSound blockEncrypt (blockEncrypt padKey) (panonInit blockEncrypt padKey) :=
    fun _ hne ↦ absurd rfl hne
  have hpad : (panonInit blockEncrypt padKey).mPad = blockEncrypt padKey := rfl
  have hf : (panonInit blockEncrypt padKey).fullcache0 = (0, 0) := rfl
  have h01 : (panonInit blockEncrypt padKey).fullcache0.1 ≠ 1 := by
    rw [hf]
    decide
  obtain ⟨s₁, hrun₁, hpad₁, henc₁, hf₁, hf₁', hsame₁⟩ := cppAnonymize_miss hpad henc h01 h01
  have h12 : s₁.fullcache0.1 ≠ 2 := by
    rw [hf₁]
    show (1 : BitVec 32) ≠ 2
    decide
  have h02 : s₁.fullcache1.1 ≠ 2 := by
    rw [hf₁', hf]
    decide
  obtain ⟨s₂, hrun₂, hpad₂, henc₂, hf₂, hf₂', hsame₂⟩ := cppAnonymize_miss hpad₁ henc₁ h12 h02
  have hs₂ : s₂.Sound blockEncrypt (blockEncrypt padKey) := by
    refine ⟨hpad₂, henc₂, by rw [hf₂], by rw [hf₂', hf₁], ?_, ?_⟩
    · rw [hsame₂.hash, hsame₁.hash, panonInit]
      simp
    · rw [hsame₂.hash6, hsame₁.hash6, panonInit]
      simp
  obtain ⟨s₃, hrun₃, hs₃, -⟩ := cppAnonymize_spec hs₂ (htonl 0)
  have hs₄ := (addAddress_sound hs₃ 0).counters 0 1 0 s₃.cryptoTotalHitIpv6 s₃.cryptoTotalInsertIpv6
    s₃.cryptoTotalMissIpv6
  obtain ⟨s₅, hrun₅, hs₅, -⟩ := encryptIpv6_spec hs₄ ⟨0, 0, 0, 0⟩
  have hs₆ := (addAddress6_sound hs₅ ⟨0, 0, 0, 0⟩).counters s₅.cryptoTotalHit s₅.cryptoTotalInsert
    s₅.cryptoTotalMiss 0 1 0
  rw [pseudonym, addAddress] at hrun₅
  simp only [initializeCrypto, encryptIp, hrun₁, hrun₂, hrun₃, addAddress, hrun₅]
  exact hs₆

/-- **Every reachable state has sound caches.** -/
theorem runCrypto_sound (padKey : Block) (calls : List CryptoCall) :
    (runCrypto blockEncrypt padKey calls).Sound blockEncrypt (blockEncrypt padKey) := by
  induction calls using List.reverseRecOn with
  | nil => exact initializeCrypto_sound padKey
  | append_singleton calls call ih =>
    rw [runCrypto, List.foldl_append, ← runCrypto]
    exact CryptoCall.run_sound ih call

/-- **Cached CryptoPAn equals plain CryptoPAn**: in every reachable state, and so on every core with
the same key. -/
theorem cached_eq_plain (blockEncrypt : Block → Block) (padKey : Block) (calls : List CryptoCall)
    (a : BitVec 32) :
    (cppAnonymize blockEncrypt (runCrypto blockEncrypt padKey calls) a).1 =
        ppAnonymize blockEncrypt (runCrypto blockEncrypt padKey calls).mPad a ∧
      (retrieveCryptoIp blockEncrypt (runCrypto blockEncrypt padKey calls) a).1 =
        htonl (ppAnonymize blockEncrypt (runCrypto blockEncrypt padKey calls).mPad (htonl a)) ∧
      ∀ calls', (retrieveCryptoIp blockEncrypt (runCrypto blockEncrypt padKey calls) a).1 =
        (retrieveCryptoIp blockEncrypt (runCrypto blockEncrypt padKey calls') a).1 := by
  have hs : (runCrypto blockEncrypt padKey calls).Sound blockEncrypt (blockEncrypt padKey) :=
    runCrypto_sound padKey calls
  obtain ⟨s', hrun, -, -⟩ := cppAnonymize_spec hs a
  have hret := (retrieveCryptoIp_spec hs a).1
  refine ⟨?_, ?_, fun calls' ↦ ?_⟩
  · rw [hrun, hs.pad]
  · rw [hret, hs.pad, pseudonym]
  · rw [hret, (retrieveCryptoIp_spec (runCrypto_sound padKey calls') a).1]

end Caches

/-! ## IPv6 -/

/-- The 128 bits of an address in network order. -/
def In6Addr.network (a : In6Addr) :
    BitVec 128 := htonl a.w0 ++ htonl a.w1 ++ htonl a.w2 ++ htonl a.w3

theorem In6Addr.network_injective : Function.Injective In6Addr.network := by
  have hword : Function.Injective htonl := fun x y h ↦ by simpa using congrArg htonl h
  rintro ⟨a0, a1, a2, a3⟩ ⟨b0, b1, b2, b3⟩ h
  have h : htonl a0 ++ htonl a1 ++ htonl a2 ++ htonl a3 =
      htonl b0 ++ htonl b1 ++ htonl b2 ++ htonl b3 := h
  obtain ⟨h, h3⟩ := append_inj.1 h
  obtain ⟨h, h2⟩ := append_inj.1 h
  obtain ⟨h0, h1⟩ := append_inj.1 h
  rw [hword h0, hword h1, hword h2, hword h3]

section Ipv6

variable {blockEncrypt : Block → Block} {mPad : Block}

/-- Under a fixed mask, the words of two addresses and of their pseudonyms have common prefixes of
the same length. -/
theorem pseudonym_lcp (m a b : BitVec 32) :
    lcp (htonl (pseudonym blockEncrypt mPad (a ^^^ m)))
      (htonl (pseudonym blockEncrypt mPad (b ^^^ m))) =
      lcp (htonl a) (htonl b) := by
  have hpp : ∀ x y, lcp (ppAnonymize blockEncrypt mPad x) (ppAnonymize blockEncrypt mPad y) =
    lcp x y :=
    padLoop_causal.preserving
  rw [pseudonym, pseudonym, htonl_htonl, htonl_htonl, hpp, htonl_xor, htonl_xor,
    preserving_xor (htonl m)]

theorem pseudonym6_lcp (a b : In6Addr) :
    lcp (pseudonym6 blockEncrypt mPad a).network (pseudonym6 blockEncrypt mPad b).network =
      lcp a.network b.network :=
  lcp_append (lcp_append (lcp_append (pseudonym_lcp ..) (pseudonym_lcp ..)) (pseudonym_lcp ..))
    (pseudonym_lcp ..)

/-- **CryptoPAn on IPv6 addresses keeps common prefixes**, in every reachable state and whether the
pseudonyms are computed or come from the hash; distinct addresses have distinct pseudonyms. -/
theorem ipv6_prefix (blockEncrypt : Block → Block) (padKey : Block) (calls calls' : List CryptoCall)
    (a b : In6Addr) :
    let s := runCrypto blockEncrypt padKey calls
    let s' := runCrypto blockEncrypt padKey calls'
    lcp (encryptIpv6 blockEncrypt s a).1.network (encryptIpv6 blockEncrypt s' b).1.network =
        lcp a.network b.network ∧
      lcp (retrieveCryptoIpv6 blockEncrypt s a).1.network
        (retrieveCryptoIpv6 blockEncrypt s' b).1.network = lcp a.network b.network ∧
      (a ≠ b → (encryptIpv6 blockEncrypt s a).1 ≠ (encryptIpv6 blockEncrypt s' b).1 ∧
        (retrieveCryptoIpv6 blockEncrypt s a).1 ≠ (retrieveCryptoIpv6 blockEncrypt s' b).1) := by
  intro s s'
  have hs : s.Sound blockEncrypt (blockEncrypt padKey) := runCrypto_sound padKey calls
  have hs' : s'.Sound blockEncrypt (blockEncrypt padKey) := runCrypto_sound padKey calls'
  obtain ⟨_, hrun, -, -⟩ := encryptIpv6_spec hs a
  obtain ⟨_, hrun', -, -⟩ := encryptIpv6_spec hs' b
  have hlcp : lcp (pseudonym6 blockEncrypt (blockEncrypt padKey) a).network
      (pseudonym6 blockEncrypt (blockEncrypt padKey) b).network = lcp a.network b.network :=
    pseudonym6_lcp a b
  have hne : a ≠ b → pseudonym6 blockEncrypt (blockEncrypt padKey) a ≠
      pseudonym6 blockEncrypt (blockEncrypt padKey) b := by
    intro hab he
    rw [he, lcp_eq_width.2 rfl] at hlcp
    exact hab (In6Addr.network_injective (lcp_eq_width.1 hlcp.symm))
  rw [hrun, hrun', (retrieveCryptoIpv6_spec hs a).1, (retrieveCryptoIpv6_spec hs' b).1]
  exact ⟨hlcp, hlcp, fun hab ↦ ⟨hne hab, hne hab⟩⟩

end Ipv6

end AlphaMon
