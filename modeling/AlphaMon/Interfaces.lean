import AlphaMon.FlowConsistency
import AlphaMon.TrafficAnon
import AlphaMon.UnknownPayload

/-!
# One interface and another's settings

The engine keeps one table of names and one table of flows for all output interfaces, while the
threshold, the window and the modules are settings of each.  What is counted for an interface is
counted for all, a name is pruned after the window of whichever interface counts it, and a flow that
is exempt for one is exempt for the others.  So the packets of one interface do depend on the
settings of another.

They do not as long as the other's packets make the engine read no setting in which the two runs
differ (`ReadsAlike`), or once the interface's own packets no longer make it look into the tables
(`Consults`).  These are facts about a packet: one for which two settings agree leaves the same
(`processPacket_alike`), and one that looks into no table leaves the same whatever is in them
(`processPacket_blind`).
-/

set_option autoImplicit false

namespace AlphaMon

/-! ## What the engine reads for a packet -/

namespace PacketCall

variable (setting : OutInterfaceSett) (c : PacketCall)

/-- The external address of the packet is looked at. -/
def ReadsExternal : Prop := setting.anonExtIp = 1 ∧ (c.ipOrigin = 1 ∨ c.ipOrigin = 10)

/-- The packet is handed to the DNS module. -/
def IsDns : Prop :=
  c.IsUdp ∧ setting.dns ≠ 0 ∧ protoDetector c.packet 1 c.flow.inPort c.flow.outPort = some 53

/-- The packet makes the engine look into its tables. -/
def Consults : Prop :=
  (c.IsTcp ∨ c.IsUdp) ∧ c.ReadsExternal setting ∨ c.handed setting ≠ none ∨ c.IsDns setting

instance : Decidable (c.ReadsExternal setting) := inferInstanceAs (Decidable (_ ∧ _))

instance : Decidable (c.IsDns setting) := inferInstanceAs (Decidable (_ ∧ _ ∧ _))

instance : Decidable (c.Consults setting) := inferInstanceAs (Decidable (_ ∨ _ ∨ _))

end PacketCall

/-- Two settings agree on what the engine reads of them for a packet. -/
structure ReadsAlike (s s' : OutInterfaceSett) (c : PacketCall) : Prop where
  external : c.IsTcp ∨ c.IsUdp → (c.ReadsExternal s ↔ c.ReadsExternal s')
  handed : c.handed s = c.handed s'
  counts : c.Consults s → s.alpha = s'.alpha ∧ s.delta = s'.delta

/-- The settings differ at most in those the engine reads: `alpha`, `delta`, `external_ip`, `tls`
and `http`. -/
def SameButEngine (s s' : OutInterfaceSett) : Prop :=
  s' = { s with
    anonExtIp := s'.anonExtIp, tls := s'.tls, http := s'.http, alpha := s'.alpha, delta :=
      s'.delta }

variable {blockEncrypt : Block → Block} {s s' : OutInterfaceSett} {c c' : PacketCall}
  {engine : Engine}

/-- A change of the addresses is not noticed. -/
theorem consults_congr {P : ℕ → Prop} (h : c.packet.SameOutside P c'.packet)
    (hP : ∀ j, P j → 26 ≤ j ∧ j < 34) (horigin : c'.ipOrigin = c.ipOrigin) :
    (c'.IsTcp ↔ c.IsTcp) ∧ (c'.IsUdp ↔ c.IsUdp) ∧ (∀ t, c'.ReadsExternal t ↔ c.ReadsExternal t) ∧
      (∀ t, c'.handed t = c.handed t) ∧ ∀ t, c'.Consults t ↔ c.Consults t := by
  have hfar : ∀ j, j < 26 ∨ 34 ≤ j → ¬P j := fun j hj hPj ↦ by
    have := hP j hPj
    omega
  have hproto : c'.flow.protocol = c.flow.protocol := by
    simp only [PacketCall.flow, newPacket]
    rw [h.byte 23 (hfar _ (by omega))]
  have hin : c'.flow.inPort = c.flow.inPort := h.ntohs (hfar _ (by omega)) (hfar _ (by omega))
  have hout : c'.flow.outPort = c.flow.outPort := h.ntohs (hfar _ (by omega)) (hfar _ (by omega))
  have hdet : ∀ n, protoDetector c'.packet n c'.flow.inPort c'.flow.outPort =
      protoDetector c.packet n c.flow.inPort c.flow.outPort := fun n ↦ by
    rw [hin, hout]
    exact protoDetector_congr h (fun j hj ↦ hfar j (.inr hj)) ..
  have htcp : c'.IsTcp ↔ c.IsTcp := by rw [PacketCall.IsTcp, PacketCall.IsTcp, hproto]
  have hudp : c'.IsUdp ↔ c.IsUdp := by rw [PacketCall.IsUdp, PacketCall.IsUdp, hproto]
  have hext : ∀ t, c'.ReadsExternal t ↔ c.ReadsExternal t := fun t ↦ by
    rw [PacketCall.ReadsExternal, PacketCall.ReadsExternal, horigin]
  have hhanded : ∀ t, c'.handed t = c.handed t := fun t ↦ by
    simp only [PacketCall.handed, handedTo, hdet, htcp]
  refine ⟨htcp, hudp, hext, hhanded, fun t ↦ ?_⟩
  simp only [PacketCall.Consults, PacketCall.IsDns, htcp, hudp, hext, hhanded, hdet]

/-! ## Packets for which the settings agree -/

/-- Equal decisions of the detectors hand a packet to the same module. -/
theorem handedTo_congr {packet q : Packet} {flow : Flow}
    (h : protoDetector q 0 flow.inPort flow.outPort =
      protoDetector packet 0 flow.inPort flow.outPort) (t : OutInterfaceSett) :
    handedTo t q flow = handedTo t packet flow := by
  rw [handedTo, handedTo, h]

/-- A TCP packet that is handed to the same module, or to none. -/
theorem tcpPart_alike {packet : Packet} {flow : Flow} {env : PacketEnv}
    (hhanded : handedTo s packet flow = handedTo s' packet flow)
    (hcounts : handedTo s packet flow ≠ none → s.alpha = s'.alpha ∧ s.delta = s'.delta) :
    tcpPart s flow env packet engine = tcpPart s' flow env packet engine := by
  cases hm : handedTo s packet flow with
  | some m =>
    obtain ⟨halpha, hdelta⟩ := hcounts (by simp [hm])
    rw [tcpPart_handed env hm, tcpPart_handed env (hhanded.symm.trans hm), namePart, namePart,
      halpha, hdelta]
  | none =>
    have hm' := hhanded.symm.trans hm
    rw [handedTo] at hm hm'
    rw [tcpPart, tcpPart]
    cases hd : protoDetector packet 0 flow.inPort flow.outPort with
    | none => simp only [Option.bind_eq_bind, Option.bind_none]
    | some d =>
      rw [hd] at hm hm'
      simp only [Option.bind_eq_bind, Option.bind_some]
      by_cases h443 : d = 443
      · subst h443
        simp only [ite_eq_right_iff, reduceCtorEq, imp_false] at hm hm'
        rw [if_pos rfl, if_neg hm, if_pos rfl, if_neg hm']
      · rw [if_neg h443, if_neg h443]
        by_cases h80 : d = 80
        · subst h80
          simp only [ite_eq_right_iff, reduceCtorEq, imp_false] at hm hm'
          rw [if_pos rfl, if_neg hm, if_pos rfl, if_neg hm']
        · rw [if_neg h80, if_neg h80]

/-- The parts about the external address do the same, and so does what follows if it does so on
every packet with the other bytes as they are. -/
theorem external_alike {stores : Bool} (k k' : Packet → Engine → Option Outcome)
    (hext : c.ReadsExternal s ↔ c.ReadsExternal s')
    (hcounts : c.ReadsExternal s → s.alpha = s'.alpha ∧ s.delta = s'.delta)
    (hk : ∀ q engine', c.packet.SameOutside (fun j ↦ 26 ≤ j ∧ j < 34) q →
      k q engine' = k' q engine') :
    ((externalPart s c.flow c.env stores c.ipOrigin c.packet engine).bind fun x ↦ k x.1 x.2) =
      (externalPart s' c.flow c.env stores c.ipOrigin c.packet engine).bind fun x ↦ k' x.1 x.2 := by
  have heq : externalPart s c.flow c.env stores c.ipOrigin c.packet engine =
      externalPart s' c.flow c.env stores c.ipOrigin c.packet engine := by
    unfold PacketCall.ReadsExternal at hext hcounts
    by_cases hread : s.anonExtIp = 1 ∧ (c.ipOrigin = 1 ∨ c.ipOrigin = 10)
    · obtain ⟨halpha, hdelta⟩ := hcounts hread
      rw [externalPart, externalPart, if_pos hread, if_pos (hext.1 hread), halpha, hdelta]
    · rw [externalPart, externalPart, if_neg hread, if_neg (mt hext.2 hread)]
  rw [← heq]
  cases hx : externalPart s c.flow c.env stores c.ipOrigin c.packet engine with
  | none => rfl
  | some x =>
    refine hk x.1 x.2 ((externalPart_sameOutside hx).mono fun j hj ↦ ?_)
    rcases hj.2 with ⟨-, h₁, h₂⟩ | ⟨-, h₁, h₂⟩ <;> omega

/-- **The engine does the same** under settings that agree on what it reads. -/
theorem run_alike (hs : SameButEngine s s') (h : ReadsAlike s s' c) :
    c.run blockEncrypt s engine = c.run blockEncrypt s' engine := by
  have hdns : s'.dns = s.dns := by rw [hs]
  have hdet : ∀ {q : Packet}, c.packet.SameOutside (fun j ↦ 26 ≤ j ∧ j < 34) q → ∀ n,
      protoDetector q n c.flow.inPort c.flow.outPort =
        protoDetector c.packet n c.flow.inPort c.flow.outPort :=
    fun hq n ↦ protoDetector_congr hq (fun j hj hP ↦ by omega) ..
  by_cases htcp : c.IsTcp
  · have hhanded : ∀ t, c.handed t = handedTo t c.packet c.flow := fun t ↦ if_pos htcp
    rw [run_of_tcp htcp, run_of_tcp htcp]
    refine external_alike (tcpPart s c.flow c.env) (tcpPart s' c.flow c.env)
      (h.external (.inl htcp))
      (fun hr ↦ h.counts (.inl ⟨.inl htcp, hr⟩)) fun q engine' hq ↦ ?_
    have hq' := handedTo_congr (hdet hq 0)
    refine tcpPart_alike ?_ fun hne ↦ h.counts (.inr (.inl ?_))
    · rw [hq', hq', ← hhanded, ← hhanded]
      exact h.handed
    · rwa [hhanded, ← hq' s]
  by_cases hudp : c.IsUdp
  · rw [run_of_udp hudp, run_of_udp hudp]
    refine external_alike (udpPart s c.flow c.env blockEncrypt)
      (udpPart s' c.flow c.env blockEncrypt)
      (h.external (.inr hudp)) (fun hr ↦ h.counts (.inl ⟨.inr hudp, hr⟩)) fun q engine' hq ↦ ?_
    rw [udpPart, udpPart, hdns, hdet hq 1]
    by_cases h53 : c.IsDns s
    · obtain ⟨halpha, hdelta⟩ := h.counts (.inr (.inr h53))
      rw [halpha, hdelta]
    · by_cases hd : s.dns = 0
      · simp [hd]
      · rw [if_pos hd, if_pos hd]
        cases hp : protoDetector c.packet 1 c.flow.inPort c.flow.outPort with
        | none => simp only [Option.bind_eq_bind, Option.bind_none]
        | some d =>
          have hne : d ≠ 53 := fun h53' ↦ h53 ⟨hudp, hd, h53' ▸ hp⟩
          simp [hne]
  · rw [run_of_other htcp hudp, run_of_other htcp hudp]

/-! ## Packets for which the tables do not matter -/

/-- The part about an external address that is not looked at. -/
theorem externalPart_unread (h : ¬c.ReadsExternal s) (env : PacketEnv) (stores : Bool)
    (engine : Engine) :
    externalPart s c.flow env stores c.ipOrigin c.packet engine = some (c.packet, engine) :=
  if_neg h

theorem removePart_eq (offset : ℕ) (packet : Packet) (engine : Engine) :
    removePart offset packet engine = (packet.removePayload offset).map
      fun p ↦ ⟨p, engine, none⟩ := by
  rw [removePart]
  cases packet.removePayload offset with
  | none => rfl
  | some p => rfl

/-- A TCP packet that is handed to no module. -/
theorem tcpPart_blind {packet : Packet} {flow : Flow} (h : handedTo s packet flow = none) :
    ∃ r : Option Packet, ∀ env engine,
      tcpPart s flow env packet engine = r.map fun p ↦ ⟨p, engine, none⟩ := by
  rw [handedTo] at h
  cases hd : protoDetector packet 0 flow.inPort flow.outPort with
  | none =>
    refine ⟨none, fun env engine ↦ ?_⟩
    simp only [tcpPart, hd, Option.bind_eq_bind, Option.bind_none, Option.map_none]
  | some d =>
    rw [hd] at h
    simp only [tcpPart, hd, Option.bind_eq_bind, Option.bind_some]
    by_cases h443 : d = 443
    · subst h443
      simp only [ite_eq_right_iff, reduceCtorEq, imp_false] at h
      refine ⟨some packet, fun env engine ↦ ?_⟩
      rw [if_pos rfl, if_neg h, Option.map_some]
    by_cases h80 : d = 80
    · subst h80
      simp only [ite_eq_right_iff, reduceCtorEq, imp_false] at h
      refine ⟨some packet, fun env engine ↦ ?_⟩
      rw [if_neg h443, if_pos rfl, if_neg h, Option.map_some]
    by_cases hremove : flow.RemovesUnknown
    · refine ⟨packet.removePayload 54, fun env engine ↦ ?_⟩
      rw [if_neg h443, if_neg h80, if_pos hremove, removePart_eq]
    · refine ⟨some packet, fun env engine ↦ ?_⟩
      rw [if_neg h443, if_neg h80, if_neg hremove, Option.map_some]

/-- A UDP packet that is not handed to the DNS module. -/
theorem udpPart_blind (blockEncrypt : Block → Block) {packet : Packet} {flow : Flow}
    (h : ¬(s.dns ≠ 0 ∧ protoDetector packet 1 flow.inPort flow.outPort = some 53)) :
    ∃ r : Option Packet, ∀ env engine,
      udpPart s flow env blockEncrypt packet engine = r.map fun p ↦ ⟨p, engine, none⟩ := by
  by_cases hdns : s.dns ≠ 0
  · cases hd : protoDetector packet 1 flow.inPort flow.outPort with
    | none =>
      refine ⟨none, fun env engine ↦ ?_⟩
      simp only [udpPart, hd, if_pos hdns, Option.bind_eq_bind, Option.bind_none, Option.map_none]
    | some d =>
      have hne : d ≠ 53 := fun h53 ↦ h ⟨hdns, h53 ▸ hd⟩
      refine ⟨packet.removePayload 42, fun env engine ↦ ?_⟩
      simp only [udpPart, hd, if_pos hdns, Option.bind_eq_bind, Option.bind_some, if_neg hne]
      exact removePart_eq ..
  · by_cases hremove : flow.RemovesUnknown
    · refine ⟨packet.removePayload 42, fun env engine ↦ ?_⟩
      rw [udpPart, if_neg hdns, if_pos hremove, removePart_eq]
    · refine ⟨some packet, fun env engine ↦ ?_⟩
      rw [udpPart, if_neg hdns, if_neg hremove, Option.map_some]

/-- **A packet that makes the engine look into no table** is treated alike in every state. -/
theorem run_blind (blockEncrypt : Block → Block) (h : ¬c.Consults s) :
    ∃ r : Option Packet, ∀ env engine, ({ c with env := env } : PacketCall).run blockEncrypt s
      engine =
      r.map fun p ↦ ⟨p, engine, none⟩ := by
  obtain ⟨hext, hhanded, hdns⟩ : ¬((c.IsTcp ∨ c.IsUdp) ∧ c.ReadsExternal s) ∧ c.handed s = none ∧
      ¬c.IsDns s := by
    rwa [PacketCall.Consults, not_or, not_or, not_not] at h
  have hoff : ∀ (k : PacketEnv → Packet → Engine → Option Outcome) stores, c.IsTcp ∨ c.IsUdp →
      ∀ env engine, ((externalPart s c.flow env stores c.ipOrigin c.packet engine).bind fun x ↦
        k env x.1 x.2) = k env c.packet engine := by
    intro k stores hproto env engine
    rw [externalPart_unread fun hread ↦ hext ⟨hproto, hread⟩, Option.bind_some]
  by_cases htcp : c.IsTcp
  · obtain ⟨r, hr⟩ := tcpPart_blind ((if_pos htcp).symm.trans hhanded)
    exact ⟨r, fun env engine ↦ (run_of_tcp (c := { c with env := env }) htcp engine).trans
      ((hoff (tcpPart s c.flow) true (.inl htcp) env engine).trans (hr env engine))⟩
  by_cases hudp : c.IsUdp
  · obtain ⟨r, hr⟩ := udpPart_blind blockEncrypt fun hd ↦ hdns ⟨hudp, hd⟩
    exact ⟨r, fun env engine ↦ (run_of_udp (c := { c with env := env }) hudp engine).trans
      ((hoff (fun env ↦ udpPart s c.flow env blockEncrypt) false (.inr hudp) env engine).trans
        (hr env engine))⟩
  · exact ⟨c.packet.removePayload 34, fun env engine ↦
      (run_of_other (c := { c with env := env }) htcp hudp engine).trans (removePart_eq ..)⟩

/-! ## What reaches the engine -/

section Packet

variable (nets : Nets) (t : OutInterfaceSett)

/-- `ip_origin` of a packet. -/
def ipOriginOf (packet : Packet) : ℤ :=
  if t.UsesKey then
    (if anonIpCheck nets (packet.word 26) ≠ 0 then 0 else 10) +
      if anonIpCheck nets (packet.word 30) ≠ 0 then 0 else 1
  else 0

/-- The packet is for the engine. -/
def ForEngine (packet : Packet) : Prop :=
  packet.ntohs 12 = 0x0800 ∧ ¬LetThrough nets packet ∧ t.engine ≠ 0

instance (packet : Packet) : Decidable (ForEngine nets t packet) :=
  inferInstanceAs (Decidable (_ ∧ _ ∧ _))

/-- What the engine is called with, but for the replaced addresses. -/
def PacketCopy.call (x : PacketCopy) : PacketCall where
  packet := (dropPayload t (processPacketEth x.packet t x.tvSec)).getD x.packet
  tvSec := x.tvSec
  ipOrigin := ipOriginOf nets t (processPacketEth x.packet t x.tvSec)
  env := x.env

/-- The packet makes the engine look into its tables. -/
def PacketCopy.Consults (x : PacketCopy) : Prop :=
  ForEngine nets t (processPacketEth x.packet t x.tvSec) ∧ (x.call nets t).Consults t

instance (x : PacketCopy) : Decidable (x.Consults nets t) := inferInstanceAs (Decidable (_ ∧ _))

end Packet

/-- Only addresses are replaced. -/
theorem replaceEnd_spec (blockEncrypt : Block → Block) (nets : Nets) (i : ℕ) (external : ℤ)
    (packet : Packet) (self : CryptoIp) :
    packet.SameOutside (fun j ↦ i ≤ j ∧ j < i + 4)
      (replaceEnd blockEncrypt nets i external packet self).1 ∧
      (replaceEnd blockEncrypt nets i external packet self).2.2 =
        if anonIpCheck nets (packet.word i) ≠ 0 then 0 else external := by
  rw [replaceEnd]
  split
  · exact ⟨Packet.SameOutside.setWord .., rfl⟩
  · exact ⟨Packet.SameOutside.refl .., rfl⟩

theorem replaceAddresses_spec (blockEncrypt : Block → Block) (nets : Nets) (t : OutInterfaceSett)
    (packet : Packet) (self : CryptoIp) :
    packet.SameOutside (fun j ↦ 26 ≤ j ∧ j < 34)
      (replaceAddresses blockEncrypt nets t packet self).1 ∧
      (replaceAddresses blockEncrypt nets t packet self).2.2 = ipOriginOf nets t packet := by
  rw [replaceAddresses, ipOriginOf]
  split
  · obtain ⟨hsrc, hsrc'⟩ := replaceEnd_spec blockEncrypt nets 26 10 packet self
    generalize replaceEnd blockEncrypt nets 26 10 packet self = r at hsrc hsrc'
    obtain ⟨hdst, hdst'⟩ := replaceEnd_spec blockEncrypt nets 30 1 r.1 r.2.1
    rw [hsrc.word fun _ _ _ ↦ by omega] at hdst'
    refine ⟨(hsrc.mono fun j hj ↦ by omega).trans (hdst.mono fun j hj ↦ by omega), ?_⟩
    simp only [hsrc', hdst']
  · exact ⟨Packet.SameOutside.refl .., rfl⟩

/-- Dropping the payload does not depend on the bytes before it. -/
theorem dropPayload_congr {P : ℕ → Prop} {t : OutInterfaceSett} {packet q q' : Packet}
    (h : packet.SameOutside P q) (hP : ∀ j, P j → 26 ≤ j ∧ j < 34)
    (hq : dropPayload t q = some q') :
    ∃ p', dropPayload t packet = some p' ∧ p'.SameOutside P q' := by
  rw [dropPayload] at hq ⊢
  split at hq
  · next hdrop =>
    have h23 : q.byte 23 = packet.byte 23 := h.byte 23 fun hj ↦ by
      have := hP 23 hj
      omega
    rw [if_pos hdrop]
    rw [l4PayloadRemover, h23] at hq
    rw [l4PayloadRemover]
    have hoff : 34 ≤ if (packet.byte 23).toNat = protoTcp then 54
        else if (packet.byte 23).toNat = protoUdp ∨ (packet.byte 23).toNat = protoIcmp then 42
          else 34 := by
      split_ifs <;> omega
    revert hq hoff
    generalize (if (packet.byte 23).toNat = protoTcp then 54
        else if (packet.byte 23).toNat = protoUdp ∨ (packet.byte 23).toNat = protoIcmp then 42
          else 34) = off
    intro hq hoff
    obtain ⟨hle, hsame, hzero⟩ := Packet.removePayload_spec hq
    have hle' : off ≤ packet.pktLen := h.pktLen ▸ hle
    have hp : packet.removePayload off = some (packet.zeroLoop (packet.pktLen - off) off) :=
      if_pos hle'
    obtain ⟨-, hsame', hzero'⟩ := Packet.removePayload_spec hp
    refine ⟨_, hp, ⟨?_, ?_, fun j hj ↦ ?_⟩⟩
    · rw [hsame.pktLen, hsame'.pktLen, h.pktLen]
    · rw [hsame.length, hsame'.length, h.length]
    · by_cases hin : off ≤ j ∧ j < packet.pktLen
      · rw [hzero j hin.1 (h.pktLen ▸ hin.2), hzero' j hin.1 hin.2]
      · rw [hsame.byte j (h.pktLen ▸ hin), hsame'.byte j hin, h.byte j hj]
  · next hdrop =>
    obtain rfl := Option.some.inj hq
    exact ⟨packet, if_neg hdrop, h⟩

/-- The settings that are read before the engine is called. -/
theorem SameButEngine.outside (hs : SameButEngine s s') (blockEncrypt : Block → Block)
    (nets : Nets) :
    (∀ packet tvSec, processPacketEth packet s' tvSec = processPacketEth packet s tvSec) ∧
      s'.engine = s.engine ∧ (s'.UsesKey ↔ s.UsesKey) ∧ dropPayload s' = dropPayload s ∧
      replaceAddresses blockEncrypt nets s' = replaceAddresses blockEncrypt nets s := by
  rw [hs]
  exact ⟨fun _ _ ↦ rfl, rfl, Iff.rfl, rfl, rfl⟩

section Process

variable {nets : Nets} {t : OutInterfaceSett} {x : PacketCopy}

/-- A packet for the engine. -/
theorem processPacketIp_engine {packet : Packet} (h : ForEngine nets t packet) (tvSec : ℤ)
    (engine : Engine) (env : PacketEnv) :
    processPacketIp blockEncrypt nets t packet tvSec engine env =
      (dropPayload t (replaceAddresses blockEncrypt nets t packet engine.self).1).bind fun p ↦
        (⟨p, tvSec, ipOriginOf nets t packet, env⟩ : PacketCall).run blockEncrypt t
          { engine with
            self := (replaceAddresses blockEncrypt nets t packet engine.self).2.1 } := by
  obtain ⟨h12, hlet, hengine⟩ := h
  have horigin := (replaceAddresses_spec blockEncrypt nets t packet engine.self).2
  rw [processPacketIp, if_pos h12, if_neg hlet]
  generalize replaceAddresses blockEncrypt nets t packet engine.self = r at horigin
  obtain ⟨q, self, origin⟩ := r
  obtain rfl : origin = ipOriginOf nets t packet := horigin
  simp only [if_pos hengine]
  rfl

/-- What is left of a packet that is not for the engine. -/
def withoutEngine (blockEncrypt : Block → Block) (nets : Nets) (t : OutInterfaceSett)
    (packet : Packet) (self : CryptoIp) : Option (Packet × CryptoIp) :=
  if packet.ntohs 12 = 0x0800 then
    if LetThrough nets packet then some (packet, self)
    else
      let r := replaceAddresses blockEncrypt nets t packet self
      (dropPayload t r.1).map fun p ↦ (p, r.2.1)
  else if packet.ntohs 12 = 0x86DD ∧ t.UsesKey then
    let r := replaceEndv6 blockEncrypt nets 22 packet self
    some (replaceEndv6 blockEncrypt nets 38 r.1 r.2)
  else some (packet, self)

/-- A packet that is not for the engine. -/
theorem processPacketIp_idle {packet : Packet} (h : ¬ForEngine nets t packet) (tvSec : ℤ)
    (engine : Engine) (env : PacketEnv) :
    processPacketIp blockEncrypt nets t packet tvSec engine env =
      (withoutEngine blockEncrypt nets t packet engine.self).map fun y ↦
        ⟨y.1, { engine with self := y.2 }, none⟩ := by
  rw [processPacketIp, withoutEngine]
  by_cases h12 : packet.ntohs 12 = 0x0800
  · rw [if_pos h12, if_pos h12]
    by_cases hlet : LetThrough nets packet
    · rw [if_pos hlet, if_pos hlet, Option.map_some]
    · have hengine : ¬t.engine ≠ 0 := fun hne ↦ h ⟨h12, hlet, hne⟩
      rw [if_neg hlet, if_neg hlet]
      generalize replaceAddresses blockEncrypt nets t packet engine.self = r
      obtain ⟨q, self, origin⟩ := r
      simp only [if_neg hengine]
      cases dropPayload t q <;> rfl
  · rw [if_neg h12, if_neg h12]
    by_cases h86 : packet.ntohs 12 = 0x86DD
    · rw [if_pos h86]
      by_cases hkey : t.UsesKey
      · rw [if_pos hkey, if_pos ⟨h86, hkey⟩]
        rfl
      · rw [if_neg hkey, if_neg fun h ↦ hkey h.2, Option.map_some]
    · rw [if_neg h86, if_neg fun h ↦ h86 h.1, Option.map_some]

/-- The engine is called with the packet of `PacketCopy.call`, but for the addresses. -/
theorem call_sameOutside {self : CryptoIp} {p : Packet}
    (hp : dropPayload t (replaceAddresses blockEncrypt nets t
      (processPacketEth x.packet t x.tvSec) self).1 =
      some p) : (x.call nets t).packet.SameOutside (fun j ↦ 26 ≤ j ∧ j < 34) p := by
  obtain ⟨p', hp', hsame⟩ := dropPayload_congr
    (replaceAddresses_spec blockEncrypt nets t (processPacketEth x.packet t x.tvSec) self).1
      (fun _ hj ↦ hj) hp
  rw [PacketCopy.call, hp', Option.getD_some]
  exact hsame

/-- **A packet for which the settings agree** leaves the same. -/
theorem processPacket_alike (hs : SameButEngine s s')
    (h : ForEngine nets s (processPacketEth x.packet s x.tvSec) → ReadsAlike s s' (x.call nets s))
    (engine : Engine) (env : PacketEnv) :
    processPacket blockEncrypt nets s x.packet x.tvSec engine env =
      processPacket blockEncrypt nets s' x.packet x.tvSec engine env := by
  obtain ⟨heth, hengine, hkey, hdrop, haddr⟩ := hs.outside blockEncrypt nets
  rw [processPacket, processPacket, heth]
  by_cases hfor : ForEngine nets s (processPacketEth x.packet s x.tvSec)
  · have hfor' : ForEngine nets s' (processPacketEth x.packet s x.tvSec) :=
      ⟨hfor.1, hfor.2.1, hengine ▸ hfor.2.2⟩
    have horigin : ipOriginOf nets s' (processPacketEth x.packet s x.tvSec) =
        ipOriginOf nets s (processPacketEth x.packet s x.tvSec) := by
      rw [ipOriginOf, ipOriginOf, if_congr hkey rfl rfl]
    rw [processPacketIp_engine hfor, processPacketIp_engine hfor', hdrop, haddr, horigin]
    cases hp : dropPayload s (replaceAddresses blockEncrypt nets s
        (processPacketEth x.packet s x.tvSec) engine.self).1 with
    | none => simp only [Option.bind_none]
    | some p =>
      rw [Option.bind_some, Option.bind_some]
      refine run_alike hs ?_
      obtain ⟨htcp, hudp, hread, hhanded, hcons⟩ := @consults_congr (x.call nets s)
        ⟨p, x.tvSec, ipOriginOf nets s (processPacketEth x.packet s x.tvSec), env⟩ _
        (call_sameOutside hp) (fun _ hj ↦ hj) rfl
      have halike := h hfor
      refine ⟨fun hproto ↦ ?_, ?_, fun hc ↦ halike.counts ((hcons s).1 hc)⟩
      · rw [hread, hread]
        exact halike.external (hproto.imp htcp.1 hudp.1)
      · rw [hhanded, hhanded]
        exact halike.handed
  · have hfor' : ¬ForEngine nets s' (processPacketEth x.packet s x.tvSec) :=
      fun h ↦ hfor ⟨h.1, h.2.1, hengine ▸ h.2.2⟩
    have hwithout : ∀ packet self, withoutEngine blockEncrypt nets s' packet self =
        withoutEngine blockEncrypt nets s packet self := fun packet self ↦ by
      simp only [withoutEngine, haddr, hdrop, hkey]
    rw [processPacketIp_idle hfor, processPacketIp_idle hfor', hwithout]

/-- **A packet that makes the engine look into no table** leaves the same in every state with the
same anonymiser, and leaves the tables as they are. -/
theorem processPacket_blind (blockEncrypt : Block → Block) (h : ¬x.Consults nets t) :
    ∃ r : CryptoIp → Option (Packet × CryptoIp), ∀ engine env,
      processPacket blockEncrypt nets t x.packet x.tvSec engine env =
        (r engine.self).map fun y ↦ ⟨y.1, { engine with self := y.2 }, none⟩ := by
  by_cases hfor : ForEngine nets t (processPacketEth x.packet t x.tvSec)
  · have hcall : ¬(x.call nets t).Consults t := fun hc ↦ h ⟨hfor, hc⟩
    have hrun : ∀ self, ∃ r : Option (Packet × CryptoIp), ∀ engine env, engine.self = self →
        processPacket blockEncrypt nets t x.packet x.tvSec engine env =
          r.map fun y ↦ ⟨y.1, { engine with self := y.2 }, none⟩ := by
      intro self
      cases hp : dropPayload t (replaceAddresses blockEncrypt nets t
          (processPacketEth x.packet t x.tvSec) self).1 with
      | none =>
        refine ⟨none, fun engine env hself ↦ ?_⟩
        rw [processPacket, processPacketIp_engine hfor, hself, hp, Option.bind_none,
          Option.map_none]
      | some p =>
        obtain ⟨-, -, -, -, hcons⟩ := @consults_congr (x.call nets t)
          ⟨p, x.tvSec, ipOriginOf nets t (processPacketEth x.packet t x.tvSec), x.env⟩ _
          (call_sameOutside hp) (fun _ hj ↦ hj) rfl
        obtain ⟨r, hr⟩ := run_blind blockEncrypt (mt (hcons t).1 hcall)
        refine ⟨r.map fun q ↦ (q, (replaceAddresses blockEncrypt nets t
          (processPacketEth x.packet t x.tvSec) self).2.1), fun engine env hself ↦ ?_⟩
        rw [processPacket, processPacketIp_engine hfor, hself, hp, Option.bind_some, Option.map_map]
        exact hr env _
    choose r hr using hrun
    exact ⟨r, fun engine env ↦ hr engine.self engine env rfl⟩
  · exact ⟨_, fun engine env ↦ processPacketIp_idle hfor x.tvSec engine env⟩

end Process

end AlphaMon
