import AlphaMon.SubnetLists

/-!
# Rewriting the addresses of a frame

The two branches of `process_packet_ip`, written separately for IPv4 and IPv6, are meant to follow
one policy: a frame with an address of a no-anon network is let through, in every other the
addresses of the anon networks become pseudonyms.  `AddressFamily.Policy` states it once for both
families.

The IPv4 branch follows it (`ipv4_policy`).  The IPv6 branch does not look at the no-anon networks:
`no_anon_ip_checkv6` is there, but nothing calls it.  It replaces addresses in every frame
(`ipv6_rewritten`), so that it follows the policy on all frames but those whose exemption matters
(`addresses_rewritten_iff`).
-/

set_option autoImplicit false

namespace AlphaMon

/-! ## The policy -/

/-- What the policy needs to know about an address family. -/
structure AddressFamily (α : Type) where
  /-- The ether type. -/
  etherType : ℕ
  /-- The position of the source address. -/
  src : ℕ
  /-- The position of the destination address. -/
  dst : ℕ
  /-- The number of bytes of an address. -/
  width : ℕ
  /-- The address at a position. -/
  read : Packet → ℕ → α
  /-- The address is in a no-anon network. -/
  noAnon : Nets → α → ℤ
  /-- The address is in an anon network. -/
  anon : Nets → α → ℤ

/-- IPv4. -/
def ipv4Family : AddressFamily (BitVec 32) where
  etherType := 0x0800
  src := 26
  dst := 30
  width := 4
  read := Packet.word
  noAnon := noAnonIpCheck
  anon := anonIpCheck

/-- IPv6. -/
def ipv6Family : AddressFamily In6Addr where
  etherType := 0x86DD
  src := 22
  dst := 38
  width := 16
  read := Packet.in6Addr
  noAnon := noAnonIpCheckv6
  anon := anonIpCheckv6

namespace AddressFamily

variable {α : Type} (f : AddressFamily α) (nets : Nets) (image : α → α) (p q : Packet)

/-- The frame carries a packet of the family, with both addresses. -/
def Carried : Prop := p.ntohs 12 = f.etherType ∧ f.dst + f.width ≤ p.data.length

/-- One of the addresses is in a no-anon network. -/
def Exempt : Prop := f.noAnon nets (f.read p f.src) ≠ 0 ∨ f.noAnon nets (f.read p f.dst) ≠ 0

/-- An address after the rewriting. -/
def replaced (a : α) : α := if f.anon nets a ≠ 0 then image a else a

/-- The address at a position is one that the rewriting changes. -/
def Changes (i : ℕ) : Prop := f.anon nets (f.read p i) ≠ 0 ∧ image (f.read p i) ≠ f.read p i

/-- The byte is one of an address. -/
def InAddress (j : ℕ) : Prop :=
  (f.src ≤ j ∧ j < f.src + f.width) ∨ (f.dst ≤ j ∧ j < f.dst + f.width)

/-- The addresses of the anon networks are replaced, and nothing else is changed. -/
structure Rewritten : Prop where
  same : p.SameOutside f.InAddress q
  src : f.read q f.src = f.replaced nets image (f.read p f.src)
  dst : f.read q f.dst = f.replaced nets image (f.read p f.dst)

/-- **The policy**: an exempt frame is left as it is, the addresses of the others are rewritten. -/
def Policy : Prop :=
  (f.Exempt nets p → q = p) ∧ (¬f.Exempt nets p → f.Rewritten nets image p q)

variable {f nets image p q}

theorem replaced_of_anon {a : α} (h : f.anon nets a ≠ 0) : f.replaced nets image a = image a :=
  if_pos h

theorem replaced_of_not_anon {a : α} (h : ¬f.anon nets a ≠ 0) : f.replaced nets image a = a :=
  if_neg h

theorem replaced_ne_iff {i : ℕ} :
    f.replaced nets image (f.read p i) ≠ f.read p i ↔ f.Changes nets image p i := by
  rw [replaced, Changes]
  split_ifs with h
  · rw [and_iff_right h]
  · simp [h]

end AddressFamily

/-- What is asked of a frame and what becomes of it, under a key. -/
structure AddressesRewritten (blockEncrypt : Block → Block) (mPad : Block) (nets : Nets)
    (p q : Packet) :
    Prop where
  ipv4 : ipv4Family.Carried p → ipv4Family.Policy nets (pseudonym blockEncrypt mPad) p q
  ipv6 : ipv6Family.Carried p → ipv6Family.Policy nets (pseudonym6 blockEncrypt mPad) p q
  other : p.ntohs 12 ≠ 0x0800 → p.ntohs 12 ≠ 0x86DD → q = p

/-! ## The two branches -/

section Branches

variable {blockEncrypt : Block → Block} {mPad : Block} {nets : Nets} {s : OutInterfaceSett}
  {self : CryptoIp} {p : Packet}

/-- One IPv4 address. -/
theorem replaceEnd_replaced (nets : Nets) (hs : self.Sound blockEncrypt mPad) {i : ℕ}
    (hi : i + 4 ≤ p.data.length) (external : ℤ) :
    ∃ q self' origin, replaceEnd blockEncrypt nets i external p self = (q, self', origin) ∧
      self'.Sound blockEncrypt mPad ∧ p.SameOutside (fun j ↦ i ≤ j ∧ j < i + 4) q ∧
      q.word i = ipv4Family.replaced nets (pseudonym blockEncrypt mPad) (p.word i) := by
  obtain ⟨hval, hsound⟩ := retrieveCryptoIp_spec hs (p.word i)
  rw [replaceEnd]
  by_cases h : anonIpCheck nets (p.word i) ≠ 0
  · rw [if_pos h]
    revert hval hsound
    generalize retrieveCryptoIp blockEncrypt self (p.word i) = r
    obtain ⟨a, self'⟩ := r
    rintro rfl hsound
    exact ⟨_, _, _, rfl, hsound, Packet.SameOutside.setWord p i _,
      (Packet.word_setWord hi _).trans (ipv4Family.replaced_of_anon h).symm⟩
  · rw [if_neg h]
    exact ⟨_, _, _, rfl, hs, Packet.SameOutside.refl _ p, (ipv4Family.replaced_of_not_anon h).symm⟩

/-- One IPv6 address. -/
theorem replaceEndv6_replaced (nets : Nets) (hs : self.Sound blockEncrypt mPad) {i : ℕ}
    (hi : i + 16 ≤ p.data.length) :
    ∃ q self', replaceEndv6 blockEncrypt nets i p self = (q, self') ∧
      self'.Sound blockEncrypt mPad ∧ p.SameOutside (fun j ↦ i ≤ j ∧ j < i + 16) q ∧
      q.in6Addr i = ipv6Family.replaced nets (pseudonym6 blockEncrypt mPad) (p.in6Addr i) := by
  obtain ⟨hval, hsound⟩ := retrieveCryptoIpv6_spec hs (p.in6Addr i)
  rw [replaceEndv6]
  by_cases h : anonIpCheckv6 nets (p.in6Addr i) ≠ 0
  · rw [if_pos h]
    revert hval hsound
    generalize retrieveCryptoIpv6 blockEncrypt self (p.in6Addr i) = r
    obtain ⟨a, self'⟩ := r
    rintro rfl hsound
    exact ⟨_, _, rfl, hsound, setIn6Addr_sameOutside p i _,
      (in6Addr_setIn6Addr hi _).trans (ipv6Family.replaced_of_anon h).symm⟩
  · rw [if_neg h]
    exact ⟨_, _, rfl, hs, Packet.SameOutside.refl _ p, (ipv6Family.replaced_of_not_anon h).symm⟩

/-- An IPv6 address in the part that is the same. -/
theorem Packet.SameOutside.in6Addr {P : ℕ → Prop} {q : Packet} (h : p.SameOutside P q) {i : ℕ}
    (hP : ∀ j, i ≤ j → j < i + 16 → ¬P j) : q.in6Addr i = p.in6Addr i := by
  rw [Packet.in6Addr, Packet.in6Addr, h.word fun j _ _ ↦ hP j (by omega) (by omega),
    h.word fun j _ _ ↦ hP j (by omega) (by omega), h.word fun j _ _ ↦ hP j (by omega) (by omega),
    h.word fun j _ _ ↦ hP j (by omega) (by omega)]

/-- **The IPv4 branch follows the policy.**  The second look-up starts from the caches that the
first one left, which are sound again. -/
theorem ipv4_policy (hs : self.Sound blockEncrypt mPad) (hkey : s.UsesKey)
    (h : ipv4Family.Carried p) :
    ipv4Family.Policy nets (pseudonym blockEncrypt mPad) p
      (if LetThrough nets p then p else (replaceAddresses blockEncrypt nets s p self).1) := by
  have hlen : 30 + 4 ≤ p.data.length := h.2
  by_cases hlet : LetThrough nets p
  · rw [if_pos hlet]
    exact ⟨fun _ ↦ rfl, fun hno ↦ absurd hlet hno⟩
  · rw [if_neg hlet, replaceAddresses, if_pos hkey]
    obtain ⟨q₁, self₁, o₁, hrun₁, hs₁, hsame₁, hword₁⟩ :=
      replaceEnd_replaced nets hs (p := p) (i := 26) (by omega) 10
    obtain ⟨q₂, self₂, o₂, hrun₂, hs₂, hsame₂, hword₂⟩ :=
      replaceEnd_replaced nets hs₁ (p := q₁) (i := 30) (by rw [hsame₁.length]; omega) 1
    rw [hrun₁]
    simp only [hrun₂]
    refine ⟨fun hex ↦ absurd hex hlet, fun _ ↦ ⟨?_, ?_, ?_⟩⟩
    · exact (hsame₁.mono fun j hj ↦ Or.inl hj).trans (hsame₂.mono fun j hj ↦ Or.inr hj)
    · exact (hsame₂.word (i := 26) (by omega)).trans hword₁
    · rw [hsame₁.word (i := 30) (by omega)] at hword₂
      exact hword₂

/-- **The IPv6 branch rewrites every frame.** -/
theorem ipv6_rewritten (hs : self.Sound blockEncrypt mPad) (h : ipv6Family.Carried p) {q : Packet}
    {self' : CryptoIp} (hrun : replaceEndv6 blockEncrypt nets 22 p self = (q, self')) :
    ipv6Family.Rewritten nets (pseudonym6 blockEncrypt mPad) p
      (replaceEndv6 blockEncrypt nets 38 q self').1 := by
  have hlen : 38 + 16 ≤ p.data.length := h.2
  obtain ⟨q₁, self₁, hrun₁, hs₁, hsame₁, haddr₁⟩ :=
    replaceEndv6_replaced nets hs (p := p) (i := 22) (by omega)
  obtain ⟨rfl, rfl⟩ := Prod.mk.inj (hrun.symm.trans hrun₁)
  obtain ⟨q₂, self₂, hrun₂, hs₂, hsame₂, haddr₂⟩ :=
    replaceEndv6_replaced nets hs₁ (p := q) (i := 38) (by rw [hsame₁.length]; omega)
  rw [hrun₂]
  refine ⟨?_, ?_, ?_⟩
  · exact (hsame₁.mono fun j hj ↦ Or.inl hj).trans (hsame₂.mono fun j hj ↦ Or.inr hj)
  · exact (hsame₂.in6Addr (i := 22) (by omega)).trans haddr₁
  · rw [hsame₁.in6Addr (i := 38) (by omega)] at haddr₂
    exact haddr₂

/-- The bytes of a word. -/
theorem Packet.byte_of_word {q : Packet} {i j : ℕ} (h : q.word i = p.word i) (hij : i ≤ j)
    (hji : j < i + 4) :
    q.byte j = p.byte j := by
  rw [Packet.word, Packet.word] at h
  obtain ⟨h, h0⟩ := Prefix.append_inj.1 h
  obtain ⟨h, h1⟩ := Prefix.append_inj.1 h
  obtain ⟨h3, h2⟩ := Prefix.append_inj.1 h
  obtain rfl | rfl | rfl | rfl : j = i ∨ j = i + 1 ∨ j = i + 2 ∨ j = i + 3 := by omega
  · exact UInt8.toBitVec_inj.1 h0
  · exact UInt8.toBitVec_inj.1 h1
  · exact UInt8.toBitVec_inj.1 h2
  · exact UInt8.toBitVec_inj.1 h3

/-- The bytes of an IPv6 address. -/
theorem Packet.byte_of_in6Addr {q : Packet} {i j : ℕ} (h : q.in6Addr i = p.in6Addr i) (hij : i ≤ j)
    (hji : j < i + 16) : q.byte j = p.byte j := by
  rw [Packet.in6Addr, Packet.in6Addr, In6Addr.mk.injEq] at h
  obtain ⟨h0, h1, h2, h3⟩ := h
  by_cases h4 : j < i + 4
  · exact byte_of_word h0 hij h4
  by_cases h8 : j < i + 8
  · exact byte_of_word h1 (by omega) (by omega)
  by_cases h12 : j < i + 12
  · exact byte_of_word h2 (by omega) (by omega)
  · exact byte_of_word h3 (by omega) (by omega)

/-- A frame is left as it is when neither address is changed. -/
theorem rewritten_eq_iff {image : In6Addr → In6Addr} {q : Packet}
    (h : ipv6Family.Rewritten nets image p q) :
    q = p ↔ ¬(ipv6Family.Changes nets image p 22 ∨ ipv6Family.Changes nets image p 38) := by
  rw [← AddressFamily.replaced_ne_iff, ← AddressFamily.replaced_ne_iff, not_or, not_not, not_not]
  constructor
  · rintro rfl
    exact ⟨h.src.symm, h.dst.symm⟩
  · rintro ⟨hsrc, hdst⟩
    refine Packet.ext_byte h.same.pktLen h.same.length fun j ↦ ?_
    by_cases hs : 22 ≤ j ∧ j < 22 + 16
    · exact Packet.byte_of_in6Addr (h.src.trans hsrc) hs.1 hs.2
    by_cases hd : 38 ≤ j ∧ j < 38 + 16
    · exact Packet.byte_of_in6Addr (h.dst.trans hdst) hd.1 hd.2
    · exact h.same.byte j (not_or.2 ⟨hs, hd⟩)

/-- A frame that the policy lets through, but the code does not. -/
structure ExemptionIgnored (blockEncrypt : Block → Block) (mPad : Block) (nets : Nets)
    (p : Packet) :
    Prop where
  carried : ipv6Family.Carried p
  exempt : ipv6Family.Exempt nets p
  changes : ipv6Family.Changes nets (pseudonym6 blockEncrypt mPad) p 22 ∨
    ipv6Family.Changes nets (pseudonym6 blockEncrypt mPad) p 38

/-- What `process_packet_ip` leaves of an IPv4 frame. -/
theorem processPacketIp_ipv4 (blockEncrypt : Block → Block) (nets : Nets)
    (h12 : p.ntohs 12 = 0x0800) (hdrop : s.payloadDropEnabled = 0) (heng : s.engine = 0) (tvSec : ℤ)
    (engine : Engine) (env : PacketEnv) :
    ∃ o, processPacketIp blockEncrypt nets s p tvSec engine env = some o ∧
      o.packet = if LetThrough nets p then p
        else (replaceAddresses blockEncrypt nets s p engine.self).1 := by
  rw [processPacketIp, if_pos h12]
  by_cases hlet : LetThrough nets p
  · rw [if_pos hlet, if_pos hlet]
    exact ⟨_, rfl, rfl⟩
  · rw [if_neg hlet, if_neg hlet]
    have hdrop' : ¬s.payloadDropEnabled = 1 := by omega
    have heng' : ¬s.engine ≠ 0 := not_not.2 heng
    simp only [dropPayload, if_neg hdrop', if_neg heng', Option.bind_eq_bind, Option.bind_some]
    exact ⟨_, rfl, rfl⟩

/-- What it leaves of an IPv6 frame. -/
theorem processPacketIp_ipv6 (blockEncrypt : Block → Block) (nets : Nets)
    (h12 : p.ntohs 12 = 0x86DD) (hkey : s.UsesKey) (tvSec : ℤ) (engine : Engine) (env : PacketEnv) :
    ∃ o q self',
      processPacketIp blockEncrypt nets s p tvSec engine env = some o ∧
      replaceEndv6 blockEncrypt nets 22 p engine.self = (q, self') ∧
      o.packet = (replaceEndv6 blockEncrypt nets 38 q self').1 := by
  have hnot : ¬p.ntohs 12 = 0x0800 := by omega
  rw [processPacketIp, if_neg hnot, if_pos h12, if_pos hkey]
  exact ⟨_, _, _, rfl, rfl, rfl⟩

/-- **The addresses of a frame are rewritten as the policy asks** exactly when the frame is not an
IPv6 frame with an address of a no-anon network and one that the rewriting changes. -/
theorem addresses_rewritten_iff (blockEncrypt : Block → Block) (padKey : Block)
    (calls : List CryptoCall) (nets : Nets) {s : OutInterfaceSett} (hkey : s.UsesKey)
    (hdrop : s.payloadDropEnabled = 0) (heng : s.engine = 0) {engine : Engine}
    (hself : engine.self = runCrypto blockEncrypt padKey calls) (p : Packet) (tvSec : ℤ)
    (env : PacketEnv) :
    ∃ o, processPacketIp blockEncrypt nets s p tvSec engine env = some o ∧
      (AddressesRewritten blockEncrypt (blockEncrypt padKey) nets p o.packet ↔
        ¬ExemptionIgnored blockEncrypt (blockEncrypt padKey) nets p) := by
  have hs : engine.self.Sound blockEncrypt (blockEncrypt padKey) := by
    rw [hself]
    exact runCrypto_sound padKey calls
  by_cases h4 : p.ntohs 12 = 0x0800
  · obtain ⟨o, hrun, hpkt⟩ := processPacketIp_ipv4 blockEncrypt nets h4 hdrop heng tvSec engine env
    have hnot6 : ¬ipv6Family.Carried p := fun h ↦ absurd (h4.symm.trans h.1) (by decide)
    refine ⟨o, hrun, iff_of_true ⟨fun h ↦ ?_, fun h ↦ absurd h hnot6, fun h ↦ absurd h4 h⟩
      fun h ↦ hnot6 h.carried⟩
    rw [hpkt]
    exact ipv4_policy hs hkey h
  have hnot4 : ¬ipv4Family.Carried p := fun h ↦ h4 h.1
  by_cases h6 : p.ntohs 12 = 0x86DD
  · obtain ⟨o, q, self', hrun, hfirst, hpkt⟩ :=
      processPacketIp_ipv6 blockEncrypt nets h6 hkey tvSec engine env
    refine ⟨o, hrun, ?_⟩
    rw [hpkt]
    constructor
    · intro h hign
      have hrew := ipv6_rewritten hs hign.carried hfirst
      exact (rewritten_eq_iff hrew).1 ((h.ipv6 hign.carried).1 hign.exempt) hign.changes
    · intro hno
      refine ⟨fun h ↦ absurd h hnot4, fun h ↦ ?_, fun _ h ↦ absurd h6 h⟩
      have hrew := ipv6_rewritten hs h hfirst
      exact ⟨fun hex ↦ (rewritten_eq_iff hrew).2 fun hch ↦ hno ⟨h, hex, hch⟩, fun _ ↦ hrew⟩
  · have hnot6 : ¬ipv6Family.Carried p := fun h ↦ h6 h.1
    rw [processPacketIp, if_neg h4, if_neg h6]
    exact ⟨_, rfl, iff_of_true ⟨fun h ↦ absurd h hnot4, fun h ↦ absurd h hnot6, fun _ _ ↦ rfl⟩
      fun h ↦ hnot6 h.carried⟩

end Branches

/-! ## Two frames -/

/-- A subnet file with the networks `0.0.0.0/0` and `::/0`. -/
def allNets : NetTable := ((NetTable.zero.setNet 0).addMask 0).addMaskv6 0

/-- Static keys, and no other processing. -/
def addressSetting : OutInterfaceSett := { anonIpEnabled := 1, anonIpKeyMode := kwStatic }

theorem usesKey_addressSetting : addressSetting.UsesKey := ⟨rfl, rfl⟩

/-- The state of a core before its first packet. -/
def freshEngine (blockEncrypt : Block → Block) (padKey : Block) : Engine :=
  ⟨tableInit, flowTableInit, runCrypto blockEncrypt padKey []⟩

/-- An IPv4 frame whose addresses are replaced. -/
theorem addresses_rewritten_ipv4 : ∃ o,
    processPacketIp (fun b ↦ b) ⟨allNets, .zero⟩ addressSetting (ipv4Frame (inAddr 10 0 0 1)) 0
        (freshEngine (fun b ↦ b) fun _ ↦ 0) .plain = some o ∧
      AddressesRewritten (fun b ↦ b) (fun _ ↦ 0) ⟨allNets, .zero⟩ (ipv4Frame (inAddr 10 0 0 1))
        o.packet := by
  obtain ⟨o, hrun, hiff⟩ := addresses_rewritten_iff (fun b ↦ b) (fun _ ↦ 0) [] ⟨allNets, .zero⟩
    usesKey_addressSetting rfl rfl (rfl : (freshEngine (fun b ↦ b) fun _ ↦ 0).self = _)
    (ipv4Frame (inAddr 10 0 0 1)) 0 .plain
  refine ⟨o, hrun, hiff.2 fun h ↦ ?_⟩
  have h12 := (ipv4Frame_spec (inAddr 10 0 0 1)).1.symm.trans h.carried.1
  exact absurd h12 (by decide)

/-- An IPv6 frame with both addresses in a no-anon network, which are replaced nevertheless. -/
theorem addresses_rewritten_fails : ¬∀ (blockEncrypt : Block → Block) (padKey : Block)
    (calls : List CryptoCall) (nets : Nets) (s : OutInterfaceSett) (engine : Engine) (p : Packet)
    (tvSec : ℤ) (env : PacketEnv),
    s.UsesKey → s.payloadDropEnabled = 0 → s.engine = 0 →
      engine.self = runCrypto blockEncrypt padKey calls →
      ∃ o, processPacketIp blockEncrypt nets s p tvSec engine env = some o ∧
        AddressesRewritten blockEncrypt (blockEncrypt padKey) nets p o.packet := by
  intro hall
  obtain ⟨o, hrun, h⟩ := hall (fun b ↦ b) (fun _ ↦ 0) [] ⟨allNets, allNets⟩ addressSetting
    (freshEngine (fun b ↦ b) fun _ ↦ 0)
      (ipv6Frame ⟨0, 0, 0, 0⟩) 0 .plain usesKey_addressSetting rfl rfl rfl
  have hcarried : ipv6Family.Carried (ipv6Frame ⟨0, 0, 0, 0⟩) :=
    ⟨(ipv6Frame_spec _).1, by decide⟩
  have hs : (freshEngine (fun b ↦ b) fun _ ↦ 0).self.Sound (fun b ↦ b) fun _ ↦ 0 :=
    runCrypto_sound (fun _ ↦ 0) []
  obtain ⟨o', q, self', hrun', hfirst, hpkt⟩ := processPacketIp_ipv6 (fun b ↦ b) ⟨allNets, allNets⟩
    hcarried.1 usesKey_addressSetting 0 (freshEngine (fun b ↦ b) fun _ ↦ 0) .plain
  obtain rfl := Option.some.inj (hrun.symm.trans hrun')
  have hrew := ipv6_rewritten hs hcarried hfirst
  have hexempt : ipv6Family.Exempt ⟨allNets, allNets⟩ (ipv6Frame ⟨0, 0, 0, 0⟩) :=
    .inl (by decide +kernel)
  have hsame := (h.ipv6 hcarried).1 hexempt
  rw [hpkt] at hsame
  refine (rewritten_eq_iff hrew).1 hsame (.inl ⟨by decide +kernel, ?_⟩)
  show pseudonym6 (fun b ↦ b) (fun _ ↦ 0) ((ipv6Frame ⟨0, 0, 0, 0⟩).in6Addr 22) ≠ _
  rw [(ipv6Frame_spec _).2]
  decide +kernel

end AlphaMon
