import AlphaMon.ProcessPacket
import AlphaMon.SubnetFiles

/-!
# The subnet lists of an interface

`process_packet_init` parses the subnet files of all interfaces into the same tables, so that those
of the last interface with `anon_ip` are what is left.  What `process_packet_ip` looks up for an
interface are therefore the networks of its own files only if they denote the same addresses as
those of the last one (`own_lists_iff`).

The tables are compared up to what a look-up can see of them (`NetTable.Same`): parsing does not
depend on what was in a table before (`parseNetFile_same`).
-/

set_option autoImplicit false

namespace AlphaMon

open CString

/-! ## Tables that look the same -/

/-- The networks up to the counters are the same. -/
structure NetTable.Same (tab tab' : NetTable) : Prop where
  tot : tab.totNets = tab'.totNets
  totv6 : tab.totNetsv6 = tab'.totNetsv6
  net : ∀ i < tab.totNets, tab.netList i = tab'.netList i
  mask : ∀ i < tab.totNets, tab.netMask i = tab'.netMask i
  netv6 : ∀ i < tab.totNetsv6, tab.netListv6 i = tab'.netListv6 i
  maskv6 : ∀ i < tab.totNetsv6, tab.netMaskv6 i = tab'.netMaskv6 i

namespace NetTable.Same

variable {tab tab' : NetTable}

theorem setNet (h : tab.Same tab') (a : BitVec 32) : (tab.setNet a).Same (tab'.setNet a) where
  tot := h.tot
  totv6 := h.totv6
  net := fun i hi ↦ by
    simp only [NetTable.setNet, Function.update_apply, h.tot]
    rw [h.net i hi]
  mask := h.mask
  netv6 := h.netv6
  maskv6 := h.maskv6

theorem setNetv6 (h : tab.Same tab') (a : In6Addr) : (tab.setNetv6 a).Same (tab'.setNetv6 a) where
  tot := h.tot
  totv6 := h.totv6
  net := h.net
  mask := h.mask
  netv6 := fun i hi ↦ by
    simp only [NetTable.setNetv6, Function.update_apply, h.totv6]
    rw [h.netv6 i hi]
  maskv6 := h.maskv6

/-- A network is added. -/
theorem add (h : tab.Same tab') (a m : BitVec 32) :
    ((tab.setNet a).addMask m).Same ((tab'.setNet a).addMask m) where
  tot := congrArg (· + 1) h.tot
  totv6 := h.totv6
  net := fun i hi ↦ by
    simp only [NetTable.addMask, NetTable.setNet, Function.update_apply, h.tot]
    split_ifs with heq
    · rfl
    · exact h.net i (lt_of_le_of_ne (Nat.lt_succ_iff.1 hi) fun hi ↦ heq (hi.trans h.tot))
  mask := fun i hi ↦ by
    simp only [NetTable.addMask, NetTable.setNet, Function.update_apply, h.tot]
    split_ifs with heq
    · rfl
    · exact h.mask i (lt_of_le_of_ne (Nat.lt_succ_iff.1 hi) fun hi ↦ heq (hi.trans h.tot))
  netv6 := h.netv6
  maskv6 := h.maskv6

/-- An IPv6 network is added. -/
theorem addv6 (h : tab.Same tab') (a : In6Addr) (m : ℤ) :
    ((tab.setNetv6 a).addMaskv6 m).Same ((tab'.setNetv6 a).addMaskv6 m) where
  tot := h.tot
  totv6 := congrArg (· + 1) h.totv6
  net := h.net
  mask := h.mask
  netv6 := fun i hi ↦ by
    simp only [NetTable.addMaskv6, NetTable.setNetv6, Function.update_apply, h.totv6]
    split_ifs with heq
    · rfl
    · exact h.netv6 i (lt_of_le_of_ne (Nat.lt_succ_iff.1 hi) fun hi ↦ heq (hi.trans h.totv6))
  maskv6 := fun i hi ↦ by
    simp only [NetTable.addMaskv6, NetTable.setNetv6, Function.update_apply, h.totv6]
    split_ifs with heq
    · rfl
    · exact h.maskv6 i (lt_of_le_of_ne (Nat.lt_succ_iff.1 hi) fun hi ↦ heq (hi.trans h.totv6))

theorem any_range_congr {n : ℕ} {p q : ℕ → Bool} (h : ∀ i < n, p i = q i) :
    (List.range n).any p = (List.range n).any q := by
  rw [Bool.eq_iff_iff, List.any_eq_true, List.any_eq_true]
  refine exists_congr fun i ↦ and_congr_right fun hi ↦ ?_
  rw [h i (List.mem_range.1 hi)]

/-- A look-up sees no difference. -/
theorem ipCheck (h : tab.Same tab') (x : BitVec 32) :
    AlphaMon.ipCheck tab x = AlphaMon.ipCheck tab' x := by
  rw [AlphaMon.ipCheck, AlphaMon.ipCheck, ← h.tot, any_range_congr fun i hi ↦ ?_]
  rw [h.net i hi, h.mask i hi]

theorem matchIpv6Net (h : tab.Same tab') (x : In6Addr) :
    AlphaMon.matchIpv6Net x tab = AlphaMon.matchIpv6Net x tab' := by
  rw [AlphaMon.matchIpv6Net, AlphaMon.matchIpv6Net, ← h.totv6, any_range_congr fun i hi ↦ ?_]
  rw [h.netv6 i hi, h.maskv6 i hi]

end NetTable.Same

/-- Two results of parsing that look the same. -/
def SameResult (r r' : NetTable × Option NetError) : Prop := r.1.Same r'.1 ∧ r.2 = r'.2

section Parse

variable {inet : Inet} {tab tab' : NetTable}

theorem parseMask_same (h : tab.Same tab') (entry : ℕ) (maskString : List UInt8) (a : BitVec 32) :
    SameResult (parseMask inet entry maskString (tab.setNet a))
      (parseMask inet entry maskString (tab'.setNet a)) := by
  simp only [parseMask]
  split_ifs
  · cases inet.aton maskString with
    | none => exact ⟨h.setNet a, rfl⟩
    | some b => exact ⟨h.add a _, rfl⟩
  · exact ⟨h.setNet a, rfl⟩
  · simp only [NetTable.setNet_setNet, NetTable.setNet_totNets, NetTable.setNet_netList]
    exact ⟨h.add 0 _, rfl⟩
  · simp only [NetTable.setNet_totNets, NetTable.setNet_netList]
    exact ⟨h.add a _, rfl⟩

theorem parseMaskv6_same (h : tab.Same tab') (entry : ℕ) (maskString : List UInt8) (a : In6Addr) :
    SameResult (parseMaskv6 entry maskString (tab.setNetv6 a))
      (parseMaskv6 entry maskString (tab'.setNetv6 a)) := by
  simp only [parseMaskv6]
  split_ifs
  · exact ⟨h.setNetv6 a, rfl⟩
  · exact ⟨h.setNetv6 a, rfl⟩
  · exact ⟨h.addv6 a _, rfl⟩

theorem parseSingle_same (inet : Inet) (h : tab.Same tab') (entry : ℕ) (line : List UInt8) :
    SameResult (parseSingle inet entry line tab) (parseSingle inet entry line tab') := by
  rw [parseSingle, parseSingle]
  cases strtok 47 line with
  | none => exact ⟨h, rfl⟩
  | some t =>
    simp only
    cases strtok 47 t.2 with
    | none => exact ⟨h, rfl⟩
    | some u =>
      simp only
      split_ifs
      · cases inet.pton6 t.1 with
        | none => exact ⟨h, rfl⟩
        | some a => exact parseMaskv6_same h entry u.1 a
      · cases inet.pton t.1 with
        | none => exact ⟨h, rfl⟩
        | some a => exact parseMask_same h entry u.1 a

theorem parseOld_same (inet : Inet) (h : tab.Same tab') (entry : ℕ) (line file : List UInt8) :
    SameResult (parseOld inet entry line file tab).1 (parseOld inet entry line file tab').1 ∧
      (parseOld inet entry line file tab).2 = (parseOld inet entry line file tab').2 := by
  rw [parseOld, parseOld]
  cases inet.aton line with
  | none => exact ⟨⟨h, rfl⟩, rfl⟩
  | some a =>
    simp only
    rcases readline file true true with ⟨_ | maskString, rest⟩
    · exact ⟨⟨h.setNet a, rfl⟩, rfl⟩
    · simp only
      cases inet.aton (chomp maskString) with
      | none => exact ⟨⟨h.setNet a, rfl⟩, rfl⟩
      | some b => exact ⟨⟨h.add a _, rfl⟩, rfl⟩

theorem parseLoop_same (maxEntries fuel : ℕ) {i : ℕ} {file : List UInt8} (h : tab.Same tab') :
    SameResult (parseLoop inet maxEntries fuel i file tab)
      (parseLoop inet maxEntries fuel i file tab') := by
  induction fuel generalizing i file tab tab' with
  | zero => exact ⟨h, rfl⟩
  | succ fuel ih =>
    rw [parseLoop, parseLoop]
    rcases readline file true true with ⟨_ | line, rest⟩
    · exact ⟨h, rfl⟩
    simp only [← h.tot, ← h.totv6]
    by_cases h₁ : tab.totNets = maxEntries
    · rw [if_pos h₁, if_pos h₁]
      exact ⟨h, rfl⟩
    by_cases h₂ : tab.totNetsv6 = maxEntries
    · rw [if_neg h₁, if_pos h₂, if_neg h₁, if_pos h₂]
      exact ⟨h, rfl⟩
    rw [if_neg h₁, if_neg h₂, if_neg h₁, if_neg h₂]
    by_cases h₃ : 47 ∈ chomp line
    · obtain ⟨hsame, herr⟩ := parseSingle_same inet h (i + 1) (chomp line)
      simp only [if_pos h₃, ← herr]
      split
      · exact ih hsame
      · exact ⟨hsame, herr⟩
    · obtain ⟨⟨hsame, herr⟩, hrest⟩ := parseOld_same inet h (i + 1) (chomp line) rest
      simp only [if_neg h₃, ← herr, ← hrest]
      split
      · exact ih hsame
      · exact ⟨hsame, herr⟩

/-- **Parsing does not depend on what was in the table.** -/
theorem parseNetFile_same (inet : Inet) (file : List UInt8) (maxEntries : ℕ) (tab tab' : NetTable) :
    SameResult (parseNetFile inet file maxEntries tab) (parseNetFile inet file maxEntries tab') :=
  parseLoop_same maxEntries _ ⟨rfl, rfl, by simp, by simp, by simp, by simp⟩

end Parse

/-! ## The lists that are looked up -/

/-- The decisions that `process_packet_ip` takes about the addresses of a packet, in the order in
which it takes them. -/
def ipChecks (nets : Nets) (s : OutInterfaceSett) (packet : Packet) : List ℤ :=
  if packet.ntohs 12 = 0x0800 then
    if noAnonIpCheck nets (packet.word 26) ≠ 0 then [noAnonIpCheck nets (packet.word 26)]
    else if noAnonIpCheck nets (packet.word 30) ≠ 0 ∨ ¬s.UsesKey then
      [noAnonIpCheck nets (packet.word 26), noAnonIpCheck nets (packet.word 30)]
    else [noAnonIpCheck nets (packet.word 26), noAnonIpCheck nets (packet.word 30),
      anonIpCheck nets (packet.word 26), anonIpCheck nets (packet.word 30)]
  else if packet.ntohs 12 = 0x86DD ∧ s.UsesKey then
    [anonIpCheckv6 nets (packet.in6Addr 22), anonIpCheckv6 nets (packet.in6Addr 38)]
  else []

/-- Two pairs of tables denote the same addresses, as far as packets of an interface depend on it:
the networks to anonymise do not matter for the addresses of the others. -/
structure DenoteSame (s : OutInterfaceSett) (nets nets' : Nets) : Prop where
  noAnon : ∀ x, noAnonIpCheck nets x = noAnonIpCheck nets' x
  anon : s.UsesKey → ∀ x, noAnonIpCheck nets x = 0 → anonIpCheck nets x = anonIpCheck nets' x
  anonv6 : s.UsesKey → ∀ x, anonIpCheckv6 nets x = anonIpCheckv6 nets' x

/-- An IPv4 frame between two addresses that are the same. -/
def ipv4Frame (x : BitVec 32) : Packet :=
  ((⟨List.replicate 12 0 ++ 0x08 :: List.replicate 41 0, 54, by decide⟩ : Packet).setWord 26
    x).setWord 30 x

/-- An IPv6 frame from an address. -/
def ipv6Frame (x : In6Addr) : Packet :=
  (⟨List.replicate 12 0 ++ 0x86 :: 0xDD :: List.replicate 40 0, 54, by decide⟩ : Packet).setIn6Addr
    22 x

theorem ipv4Frame_spec (x : BitVec 32) :
    (ipv4Frame x).ntohs 12 = 0x0800 ∧ (ipv4Frame x).word 26 = x ∧
    (ipv4Frame x).word 30 = x := by
  refine ⟨?_, ?_, Packet.word_setWord ?_ x⟩
  · rw [ipv4Frame, (Packet.SameOutside.setWord _ 30 x).ntohs (by omega) (by omega),
      (Packet.SameOutside.setWord _ 26 x).ntohs (by omega) (by omega)]
    decide
  · rw [ipv4Frame, (Packet.SameOutside.setWord _ 30 x).word (by omega)]
    exact Packet.word_setWord (by decide) x
  · rw [(Packet.SameOutside.setWord _ 26 x).length]
    decide

/-- Writing an address changes its sixteen bytes. -/
theorem setIn6Addr_sameOutside (p : Packet) (i : ℕ) (a : In6Addr) :
    p.SameOutside (fun j ↦ i ≤ j ∧ j < i + 16) (p.setIn6Addr i a) := by
  rw [Packet.setIn6Addr]
  refine ((((Packet.SameOutside.setWord p i _).mono ?_).trans
    ((Packet.SameOutside.setWord _ (i + 4) _).mono ?_)).trans
    ((Packet.SameOutside.setWord _ (i + 8) _).mono ?_)).trans
    ((Packet.SameOutside.setWord _ (i + 12) _).mono ?_) <;> omega

/-- The address written is the address read. -/
theorem in6Addr_setIn6Addr {p : Packet} {i : ℕ} (h : i + 16 ≤ p.data.length) (a : In6Addr) :
    (p.setIn6Addr i a).in6Addr i = a := by
  have hword : ∀ {q : Packet} {j k : ℕ} (w : BitVec 32), j + 4 ≤ k →
    (q.setWord k w).word j = q.word j :=
    fun w hjk ↦ (Packet.SameOutside.setWord _ _ w).word fun _ _ _ ↦ by omega
  have hlen : ∀ (q : Packet) (k : ℕ) (w : BitVec 32), (q.setWord k w).data.length = q.data.length :=
    fun _ _ w ↦ (Packet.SameOutside.setWord _ _ w).length
  rw [Packet.in6Addr, Packet.setIn6Addr, hword a.w3 (by omega), hword a.w2 (by omega),
    hword a.w1 (by omega),
    Packet.word_setWord (by omega), hword a.w3 (by omega), hword a.w2 (by omega),
    Packet.word_setWord (by rw [hlen]; omega), hword a.w3 (by omega),
    Packet.word_setWord (by rw [hlen, hlen]; omega),
      Packet.word_setWord (by rw [hlen, hlen, hlen]; omega)]

theorem ipv6Frame_spec (x : In6Addr) :
    (ipv6Frame x).ntohs 12 = 0x86DD ∧ (ipv6Frame x).in6Addr 22 = x := by
  refine ⟨?_, in6Addr_setIn6Addr (by decide) x⟩
  rw [ipv6Frame, (setIn6Addr_sameOutside _ 22 x).ntohs (by omega) (by omega)]
  decide

/-- What equal decisions about an IPv4 packet say. -/
theorem ipChecks_ipv4 {nets nets' : Nets} {s : OutInterfaceSett} {packet : Packet}
    (h12 : packet.ntohs 12 = 0x0800) (h : ipChecks nets s packet = ipChecks nets' s packet) :
    (LetThrough nets packet ↔ LetThrough nets' packet) ∧ (¬LetThrough nets packet → s.UsesKey →
      anonIpCheck nets (packet.word 26) = anonIpCheck nets' (packet.word 26) ∧
        anonIpCheck nets (packet.word 30) = anonIpCheck nets' (packet.word 30)) := by
  simp only [ipChecks, h12, if_true] at h
  have hsrc : noAnonIpCheck nets (packet.word 26) = noAnonIpCheck nets' (packet.word 26) := by
    have hhead := congrArg List.head? h
    split_ifs at hhead <;> simpa using hhead
  rw [← hsrc] at h
  rw [LetThrough, LetThrough, ← hsrc]
  by_cases h26 : noAnonIpCheck nets (packet.word 26) = 0
  · rw [if_neg (not_not.2 h26), if_neg (not_not.2 h26)] at h
    have hdst : noAnonIpCheck nets (packet.word 30) = noAnonIpCheck nets' (packet.word 30) := by
      have hhead := congrArg (·.tail.head?) h
      split_ifs at hhead <;> simpa using hhead
    rw [← hdst] at h ⊢
    refine ⟨Iff.rfl, fun hlet hkey ↦ ?_⟩
    have h30 : ¬(noAnonIpCheck nets (packet.word 30) ≠ 0 ∨ ¬s.UsesKey) :=
      not_or.2 ⟨(not_or.1 hlet).2, not_not.2 hkey⟩
    simpa [if_neg h30] using h
  · exact ⟨by simp [h26], fun hlet ↦ absurd (.inl h26) hlet⟩

/-- A first address that is replaced leaves the second as it is. -/
theorem replaceEnd_word (blockEncrypt : Block → Block) (nets : Nets) (external : ℤ)
    (packet : Packet) (self : CryptoIp) :
    (replaceEnd blockEncrypt nets 26 external packet self).1.word 30 = packet.word 30 := by
  rw [replaceEnd]
  split
  · exact (Packet.SameOutside.setWord _ 26 _).word (by omega)
  · rfl

theorem replaceEndv6_in6Addr (blockEncrypt : Block → Block) (nets : Nets) (packet : Packet)
    (self : CryptoIp) : (replaceEndv6 blockEncrypt nets 22 packet self).1.in6Addr 38 =
    packet.in6Addr 38 := by
  rw [replaceEndv6]
  split
  · generalize retrieveCryptoIpv6 blockEncrypt self (packet.in6Addr 22) = r
    have hsame := setIn6Addr_sameOutside packet 22 r.1
    rw [Packet.in6Addr, Packet.in6Addr, hsame.word (by omega), hsame.word (by omega),
      hsame.word (by omega),
      hsame.word (by omega)]
  · rfl

/-- **The decisions are all that the tables are for.** -/
theorem processPacketIp_congr {blockEncrypt : Block → Block} {nets nets' : Nets}
    {s : OutInterfaceSett} {packet : Packet} (h : ipChecks nets s packet = ipChecks nets' s packet)
    (tvSec : ℤ) (engine : Engine) (env : PacketEnv) :
    processPacketIp blockEncrypt nets s packet tvSec engine env =
      processPacketIp blockEncrypt nets' s packet tvSec engine env := by
  by_cases h12 : packet.ntohs 12 = 0x0800
  · obtain ⟨hthrough, hends⟩ := ipChecks_ipv4 h12 h
    rw [processPacketIp, processPacketIp, if_pos h12, if_pos h12]
    by_cases hlet : LetThrough nets packet
    · rw [if_pos hlet, if_pos (hthrough.1 hlet)]
    rw [if_neg hlet, if_neg (mt hthrough.2 hlet)]
    have haddr : replaceAddresses blockEncrypt nets s packet engine.self =
        replaceAddresses blockEncrypt nets' s packet engine.self := by
      rw [replaceAddresses, replaceAddresses]
      split
      · next hkey =>
        obtain ⟨h26, h30⟩ := hends hlet hkey
        have hfirst : replaceEnd blockEncrypt nets 26 10 packet engine.self =
            replaceEnd blockEncrypt nets' 26 10 packet engine.self := by
          rw [replaceEnd, replaceEnd, h26]
        have hword := replaceEnd_word blockEncrypt nets' 10 packet engine.self
        rw [hfirst]
        revert hword
        generalize replaceEnd blockEncrypt nets' 26 10 packet engine.self = r
        obtain ⟨q, self, src⟩ := r
        intro hword
        have hsecond : replaceEnd blockEncrypt nets 30 1 q self = replaceEnd blockEncrypt nets' 30 1
          q self := by
          rw [replaceEnd, replaceEnd, show q.word 30 = packet.word 30 from hword, h30]
        simp only [hsecond]
      · rfl
    rw [haddr]
  · by_cases h12' : packet.ntohs 12 = 0x86DD ∧ s.UsesKey
    · simp only [ipChecks, if_neg h12, if_pos h12', List.cons.injEq, and_true] at h
      obtain ⟨h22, h38⟩ := h
      have hfirst : replaceEndv6 blockEncrypt nets 22 packet engine.self =
          replaceEndv6 blockEncrypt nets' 22 packet engine.self := by
        rw [replaceEndv6, replaceEndv6, h22]
      have hword := replaceEndv6_in6Addr blockEncrypt nets' packet engine.self
      rw [processPacketIp, processPacketIp, if_neg h12, if_neg h12, if_pos h12'.1, if_pos h12'.1,
        if_pos h12'.2, if_pos h12'.2, hfirst]
      revert hword
      generalize replaceEndv6 blockEncrypt nets' 22 packet engine.self = r
      obtain ⟨q, self⟩ := r
      intro hword
      have hsecond : replaceEndv6 blockEncrypt nets 38 q self = replaceEndv6 blockEncrypt nets' 38 q
        self := by
        rw [replaceEndv6, replaceEndv6, show q.in6Addr 38 = packet.in6Addr 38 from hword, h38]
      simp only [hsecond]
    · rw [processPacketIp, processPacketIp, if_neg h12, if_neg h12]
      by_cases hv6 : packet.ntohs 12 = 0x86DD
      · have hkey : ¬s.UsesKey := fun hkey ↦ h12' ⟨hv6, hkey⟩
        rw [if_pos hv6, if_pos hv6, if_neg hkey, if_neg hkey]
      · rw [if_neg hv6, if_neg hv6]

/-- **When two pairs of tables give the same decisions.** -/
theorem denoteSame_iff {s : OutInterfaceSett} {nets nets' : Nets} :
    (∀ packet, ipChecks nets s packet = ipChecks nets' s packet) ↔ DenoteSame s nets nets' := by
  constructor
  · intro h
    have hno : ∀ x, noAnonIpCheck nets x = noAnonIpCheck nets' x := by
      intro x
      have hx := congrArg List.head? (h (ipv4Frame x))
      obtain ⟨h12, h26, h30⟩ := ipv4Frame_spec x
      simp only [ipChecks, h12, if_true, h26, h30] at hx
      split_ifs at hx <;> simpa using hx
    refine ⟨hno, fun hkey x hx ↦ ?_, fun hkey x ↦ ?_⟩
    · have heq := h (ipv4Frame x)
      obtain ⟨h12, h26, h30⟩ := ipv4Frame_spec x
      simpa [ipChecks, h12, h26, h30, ← hno, hx, hkey] using heq
    · have heq := h (ipv6Frame x)
      obtain ⟨h12, h22⟩ := ipv6Frame_spec x
      simp only [ipChecks, h12, h22] at heq
      simpa [hkey] using congrArg List.head? heq
  · intro h packet
    simp only [ipChecks, ← h.noAnon]
    split_ifs with h₁ h₂ h₃ h₄
    · rfl
    · rfl
    · obtain ⟨h30, hkey⟩ := not_or.1 h₃
      rw [h.anon (not_not.1 hkey) _ (not_not.1 h₂), h.anon (not_not.1 hkey) _ (not_not.1 h30)]
    · rw [h.anonv6 h₄.2, h.anonv6 h₄.2]
    · rfl

/-! ## What initialisation leaves -/

/-- Both tables look the same. -/
def Nets.Same (nets nets' : Nets) :
    Prop := nets.anon.Same nets'.anon ∧ nets.noAnon.Same nets'.noAnon

theorem Nets.Same.ipChecks {nets nets' : Nets} (h : nets.Same nets') (s : OutInterfaceSett)
    (packet : Packet) : ipChecks nets s packet = ipChecks nets' s packet :=
  denoteSame_iff.2 ⟨h.2.ipCheck, fun _ x _ ↦ h.1.ipCheck x, fun _ x ↦ h.1.matchIpv6Net x⟩ packet

section Init

variable (inet : Inet) (fopen : List UInt8 → Option (List UInt8))
  (outInterface : ℕ → OutInterfaceSett)

/-- The tables of an interface's own files. -/
def ownNets (s : OutInterfaceSett) : Option Nets := parseNets inet fopen s ⟨.zero, .zero⟩

/-- A subnet file that is there and that `ParseNetFile` accepts. -/
def GoodFile (name : List UInt8) : Prop :=
  ∃ file, fopen name = some file ∧ netRet (parseNetFile inet file maxSubnets .zero) = 1

/-- The interfaces with `anon_ip`. -/
def enabled : List ℕ := (List.range maxInterfaces).filter fun i ↦ (outInterface i).anonIpEnabled = 1

/-- Every interface with `anon_ip` names two good files. -/
def GoodConfig : Prop := ∀ i ∈ enabled outInterface,
  GoodFile inet fopen (outInterface i).anonSubnetFile ∧
    GoodFile inet fopen (outInterface i).noAnonSubnetFile

/-- The decisions about every packet of an interface with `anon_ip` are those of its own files. -/
def UsesOwnLists (w : World) : Prop :=
  ∀ i ∈ enabled outInterface, ∀ own, ownNets inet fopen (outInterface i) = some own →
    ∀ packet, ipChecks w.nets (outInterface i) packet = ipChecks own (outInterface i) packet

/-- Every packet of an interface with `anon_ip` is processed as with the tables of its own files. -/
def TreatsByOwnLists (w : World) : Prop :=
  ∀ i ∈ enabled outInterface, ∀ own, ownNets inet fopen (outInterface i) = some own →
    ∀ blockEncrypt packet tvSec engine env,
      processPacketIp blockEncrypt w.nets (outInterface i) packet tvSec engine env =
        processPacketIp blockEncrypt own (outInterface i) packet tvSec engine env

/-- The files of every interface with `anon_ip` denote the same addresses as those of the last
one. -/
def FilesAgree : Prop :=
  ∀ i ∈ enabled outInterface, ∀ l, (enabled outInterface).getLast? = some l →
    ∀ own last, ownNets inet fopen (outInterface i) = some own →
      ownNets inet fopen (outInterface l) = some last → DenoteSame (outInterface i) own last

variable {inet fopen outInterface}

/-- Parsing the files of an interface, whatever was in the tables. -/
theorem parseNets_same {s : OutInterfaceSett} {own : Nets} (h : ownNets inet fopen s = some own)
    (nets : Nets) : ∃ nets', parseNets inet fopen s nets = some nets' ∧ nets'.Same own := by
  obtain ⟨anon, ha, h⟩ := Option.bind_eq_some_iff.1 h
  obtain ⟨noAnon, hn, h⟩ := Option.bind_eq_some_iff.1 h
  obtain rfl := Option.some.inj h
  rw [parseNets, ha, Option.bind_eq_bind, Option.bind_some, hn, Option.bind_some]
  exact ⟨_, rfl, (parseNetFile_same ..).1, (parseNetFile_same ..).1⟩

/-- **The loop of `process_packet_init`** leaves the tables of the last interface with `anon_ip`. -/
theorem initNets_spec {l : List ℕ}
    (hown : ∀ i ∈ l, (outInterface i).anonIpEnabled = 1 →
      ∃ own, ownNets inet fopen (outInterface i) = some own) (nets : Nets) :
    ∃ nets', initNets inet fopen outInterface l nets = some nets' ∧
      match (l.filter fun i ↦ (outInterface i).anonIpEnabled = 1).getLast? with
      | none => nets' = nets
      | some j => ∀ own, ownNets inet fopen (outInterface j) = some own → nets'.Same own := by
  induction l generalizing nets with
  | nil => exact ⟨nets, rfl, rfl⟩
  | cons i l ih =>
    have hl := ih fun j hj ↦ hown j (List.mem_cons_of_mem _ hj)
    by_cases hi : (outInterface i).anonIpEnabled = 1
    · obtain ⟨own, hiown⟩ := hown i List.mem_cons_self hi
      obtain ⟨nets₁, hparse, hsame⟩ := parseNets_same hiown nets
      obtain ⟨nets', hinit, hlast⟩ := hl nets₁
      refine ⟨nets', ?_, ?_⟩
      · rw [initNets, if_pos hi, hparse]
        exact hinit
      · rw [List.filter_cons_of_pos (by simpa using hi), List.getLast?_cons]
        cases h : (l.filter fun i ↦ (outInterface i).anonIpEnabled = 1).getLast? with
        | none =>
          rw [h] at hlast
          obtain rfl : nets' = nets₁ := hlast
          intro own' hown'
          obtain rfl := Option.some.inj (hiown.symm.trans hown')
          exact hsame
        | some j =>
          rw [h] at hlast
          exact hlast
    · obtain ⟨nets', hinit, hlast⟩ := hl nets
      refine ⟨nets', ?_, ?_⟩
      · rw [initNets, if_neg hi]
        exact hinit
      · rwa [List.filter_cons_of_neg (by simpa using hi)]

theorem GoodConfig.ownNets (h : GoodConfig inet fopen outInterface) {i : ℕ}
    (hi : i ∈ enabled outInterface) :
    ∃ own, ownNets inet fopen (outInterface i) = some own := by
  obtain ⟨⟨anon, ha, -⟩, noAnon, hn, -⟩ := h i hi
  exact ⟨_, by rw [AlphaMon.ownNets, parseNets, ha, hn]; rfl⟩

/-- **An interface uses its own lists** exactly when the files of the interfaces with `anon_ip`
denote the same addresses as those of the last one.  Then its packets are what its own lists make of
them. -/
theorem own_lists_iff (h : GoodConfig inet fopen outInterface) (blockEncrypt : ℕ → Block → Block)
    (padKey : ℕ → Block) :
    ∃ w, processPacketInit inet fopen blockEncrypt padKey outInterface = some w ∧
      (UsesOwnLists inet fopen outInterface w ↔ FilesAgree inet fopen outInterface) ∧
      (UsesOwnLists inet fopen outInterface w → TreatsByOwnLists inet fopen outInterface w) := by
  obtain ⟨nets, hinit, hlast⟩ := initNets_spec (l := List.range maxInterfaces)
    (fun i hi hen ↦ h.ownNets (List.mem_filter.2 ⟨hi, by simpa using hen⟩)) ⟨.zero, .zero⟩
  refine ⟨⟨nets, tableInit, flowTableInit, _⟩, by rw [processPacketInit, hinit]; rfl, ?_,
    fun huse i hi own hown _ packet ↦ processPacketIp_congr (huse i hi own hown packet)⟩
  refine forall_congr' fun i ↦ forall_congr' fun hi ↦ ?_
  cases hl : (enabled outInterface).getLast? with
  | none =>
    rw [List.getLast?_eq_none_iff.1 hl] at hi
    exact absurd hi List.not_mem_nil
  | some l =>
    obtain ⟨last, hlastown⟩ := h.ownNets (List.mem_of_getLast? hl)
    have hsame : nets.Same last := by
      rw [enabled] at hl
      rw [hl] at hlast
      exact hlast last hlastown
    constructor
    · intro huse l' hl' own last' hown hlast'
      obtain rfl := Option.some.inj hl'
      obtain rfl := Option.some.inj (hlastown.symm.trans hlast')
      exact denoteSame_iff.1 fun packet ↦
        (huse own hown packet).symm.trans (hsame.ipChecks _ packet)
    · intro hagree own hown packet
      rw [hsame.ipChecks]
      exact (denoteSame_iff.2 (hagree l rfl own last hown hlastown) packet).symm

end Init

/-! ## Two interfaces -/

/-- Three files: `10.0.0.0/8`, `11.0.0.0/8`, and an empty one. -/
def twoNetFiles : List UInt8 → Option (List UInt8)
  | [97] => some (Quad.text ⟨10, 0, 0, 0⟩ ++ 47 :: CString.decimal 8)
  | [98] => some (Quad.text ⟨11, 0, 0, 0⟩ ++ 47 :: CString.decimal 8)
  | [99] => some []
  | _ => none

/-- Two interfaces with `anon_ip`, each with its anon subnet file. -/
def twoInterfaces (file₀ file₁ : List UInt8) (i : ℕ) : OutInterfaceSett :=
  if i < 2 then
    { anonIpEnabled := 1, anonIpKeyMode := kwStatic, noAnonSubnetFile := [99],
      anonSubnetFile := if i = 0 then file₀ else file₁ }
  else {}

theorem enabled_twoInterfaces (file₀ file₁ : List UInt8) :
    enabled (twoInterfaces file₀ file₁) = [0, 1] := by
  rw [enabled, show (fun i ↦ decide ((twoInterfaces file₀ file₁ i).anonIpEnabled = 1)) =
    fun i ↦ decide (i < 2) from funext fun i ↦ by rw [twoInterfaces]; split <;> simp_all]
  decide

theorem goodFile_twoNetFiles {name : List UInt8} (h : name = [97] ∨ name = [98] ∨ name = [99]) :
    GoodFile Inet.quads twoNetFiles name := by
  rcases h with rfl | rfl | rfl <;> exact ⟨_, rfl, by decide +kernel⟩

theorem goodConfig_twoInterfaces {file₀ file₁ : List UInt8} (h₀ : file₀ = [97] ∨ file₀ = [98])
    (h₁ : file₁ = [97] ∨ file₁ = [98]) :
    GoodConfig Inet.quads twoNetFiles (twoInterfaces file₀ file₁) := by
  intro i hi
  rw [enabled_twoInterfaces] at hi
  rcases List.mem_pair.1 hi with rfl | rfl
  · exact ⟨goodFile_twoNetFiles (h₀.imp_right .inl), goodFile_twoNetFiles (.inr (.inr rfl))⟩
  · exact ⟨goodFile_twoNetFiles (h₁.imp_right .inl), goodFile_twoNetFiles (.inr (.inr rfl))⟩

/-- Both interfaces name the same file. -/
theorem own_lists_iff_same : ∃ w,
    processPacketInit Inet.quads twoNetFiles (fun _ b ↦ b) (fun _ _ ↦ 0) (twoInterfaces [97] [97]) =
      some w ∧
      UsesOwnLists Inet.quads twoNetFiles (twoInterfaces [97] [97]) w := by
  obtain ⟨w, hinit, hiff, -⟩ := own_lists_iff (goodConfig_twoInterfaces (.inl rfl) (.inl rfl))
    (fun _ b ↦ b)
    (fun _ _ ↦ 0)
  refine ⟨w, hinit, hiff.2 fun i hi l hl own last hown hlast ↦ ?_⟩
  have hl' := List.mem_of_getLast? hl
  rw [enabled_twoInterfaces] at hi hl'
  have heq : twoInterfaces [97] [97] i = twoInterfaces [97] [97] l := by
    rcases List.mem_pair.1 hi with rfl | rfl <;> rcases List.mem_pair.1 hl' with rfl | rfl <;>
      decide
  rw [heq] at hown
  obtain rfl := Option.some.inj (hown.symm.trans hlast)
  exact ⟨fun _ ↦ rfl, fun _ _ _ ↦ rfl, fun _ _ ↦ rfl⟩

/-- The first interface anonymises 10.0.0.0/8 and the second 11.0.0.0/8: the packets of the first
are treated as those of the second. -/
theorem own_lists_fails : ¬∀ (inet : Inet) (fopen : List UInt8 → Option (List UInt8))
    (outInterface : ℕ → OutInterfaceSett) (blockEncrypt : ℕ → Block → Block) (padKey : ℕ → Block),
    GoodConfig inet fopen outInterface →
      ∃ w, processPacketInit inet fopen blockEncrypt padKey outInterface = some w ∧
        UsesOwnLists inet fopen outInterface w := by
  intro hall
  let out := twoInterfaces [97] [98]
  obtain ⟨w, hinit, huse⟩ := hall Inet.quads twoNetFiles out (fun _ b ↦ b) (fun _ _ ↦ 0)
    (goodConfig_twoInterfaces (.inl rfl) (.inr rfl))
  have hw : (processPacketInit Inet.quads twoNetFiles (fun _ b ↦ b) (fun _ _ ↦ 0) out).map
      (fun w ↦ ipChecks w.nets (out 0) (ipv4Frame (inAddr 10 0 0 1))) = some [0, 0, 0, 0] := by
    decide +kernel
  have hown : (ownNets Inet.quads twoNetFiles (out 0)).map
      (fun own ↦ ipChecks own (out 0) (ipv4Frame (inAddr 10 0 0 1))) = some [0, 0, 1, 1] := by
    decide +kernel
  obtain ⟨own, howneq, hchecks⟩ := Option.map_eq_some_iff.1 hown
  rw [hinit, Option.map_some, huse 0 (by rw [enabled_twoInterfaces]; decide) own howneq,
    hchecks] at hw
  exact absurd hw (by decide)

end AlphaMon
