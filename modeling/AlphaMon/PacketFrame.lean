import AlphaMon.AddressRewriting
import AlphaMon.HeaderFrame
import AlphaMon.InterfaceRuns

/-!
# What is sent of a packet

The Ethernet addresses, the IP addresses, the payload and the engine: every part of `process_packet`
has its own region of the packet, and the settings of the interface, the networks and the headers of
the packet say whether it may write there (`Writable`).

`sent_frame` is about the runs of the main loop.  Whatever the packets say, and whatever the tables
have come to hold, one packet is sent for every call, it is as long as the one received, and it has
the bytes received outside of that region.
-/

set_option autoImplicit false

namespace AlphaMon

/-! ## The region -/

section Writable

variable (nets : Nets) (t : OutInterfaceSett) (p : Packet)

/-- An address of an IPv4 packet may be written: it is in the networks to anonymise, or the other
end is and external addresses are anonymised as well. -/
def EndWritable (i other : ℕ) : Prop :=
  t.UsesKey ∧ (anonIpCheck nets (p.word i) ≠ 0 ∨
    t.engine ≠ 0 ∧ t.anonExtIp = 1 ∧ anonIpCheck nets (p.word other) ≠ 0)

/-- The bytes that may be written of an IPv4 packet that is not let through. -/
def Ipv4Writable (j : ℕ) : Prop :=
  (26 ≤ j ∧ j < 30) ∧ EndWritable nets t p 26 30 ∨
  (30 ≤ j ∧ j < 34) ∧ EndWritable nets t p 30 26 ∨
  34 ≤ j ∧ (t.payloadDropEnabled = 1 ∨ t.engine ≠ 0)

/-- The bytes that may be written of an IPv6 packet: those of the addresses to anonymise. -/
def Ipv6Writable (j : ℕ) : Prop :=
  t.UsesKey ∧ ((22 ≤ j ∧ j < 38) ∧ anonIpCheckv6 nets (p.in6Addr 22) ≠ 0 ∨
    (38 ≤ j ∧ j < 54) ∧ anonIpCheckv6 nets (p.in6Addr 38) ≠ 0)

/-- The bytes that may be written of a packet behind the Ethernet addresses. -/
def IpWritable (j : ℕ) : Prop :=
  p.ntohs 12 = 0x0800 ∧ ¬LetThrough nets p ∧ Ipv4Writable nets t p j ∨
  p.ntohs 12 = 0x86DD ∧ Ipv6Writable nets t p j

/-- The bytes that may be written of a packet received. -/
def Writable (j : ℕ) : Prop :=
  j < 12 ∧ (t.anonMacEnabled = 1 ∨ t.anonMacEnabled = 2) ∨ IpWritable nets t p j

end Writable

variable {nets : Nets} {t : OutInterfaceSett} {p q : Packet}

/-- What is read behind the Ethernet addresses does not depend on them. -/
theorem Packet.SameOutside.behind {P : ℕ → Prop} (h : p.SameOutside P q) (hP : ∀ j, P j → j < 12) :
    q.ntohs 12 = p.ntohs 12 ∧ (∀ i, 12 ≤ i → q.word i = p.word i) ∧
      ∀ i, 12 ≤ i → q.in6Addr i = p.in6Addr i := by
  have hfar : ∀ j, 12 ≤ j → ¬P j := fun j hj hPj ↦ by
    have := hP j hPj
    omega
  refine ⟨h.ntohs (hfar 12 le_rfl) (hfar 13 (by decide)), fun i hi ↦ ?_, fun i hi ↦ ?_⟩
  · exact h.word fun j hj _ ↦ hfar j (by omega)
  · exact h.in6Addr fun j hj _ ↦ hfar j (by omega)

/-- The region depends on nothing before the Ethernet type. -/
theorem ipWritable_congr {P : ℕ → Prop} (h : p.SameOutside P q) (hP : ∀ j, P j → j < 12) (j : ℕ) :
    IpWritable nets t q j ↔ IpWritable nets t p j := by
  obtain ⟨htype, hword, haddr⟩ := h.behind hP
  have h26 := hword 26 (by decide)
  have h30 := hword 30 (by decide)
  have h22 := haddr 22 (by decide)
  have h38 := haddr 38 (by decide)
  simp only [IpWritable, LetThrough, Ipv4Writable, Ipv6Writable, EndWritable, htype, h26, h30, h22,
    h38]

/-! ## The parts of `process_packet` -/

theorem fillLoop_sameOutside (b : UInt8) (n : ℕ) (p : Packet) :
    p.SameOutside (· < n) (fillLoop b n p) := by
  induction n generalizing p with
  | zero => exact .refl _ p
  | succ n ih =>
    exact ((Packet.SameOutside.set p n b).mono (by omega)).trans ((ih _).mono (by omega))

/-- The Ethernet addresses. -/
theorem processPacketEth_sameOutside (t : OutInterfaceSett) (p : Packet) (tvSec : ℤ) :
    p.SameOutside (fun j ↦ j < 12 ∧ (t.anonMacEnabled = 1 ∨ t.anonMacEnabled = 2))
      (processPacketEth p t tvSec) := by
  rw [processPacketEth]
  split_ifs with h2 h1
  · exact (fillLoop_sameOutside ..).mono fun j hj ↦ ⟨hj, .inr h2⟩
  · exact (fillLoop_sameOutside ..).mono fun j hj ↦ ⟨hj, .inl h1⟩
  · exact .refl ..

/-- One IPv4 address. -/
theorem replaceEnd_sameOutside (blockEncrypt : Block → Block) (nets : Nets) (i : ℕ) (external : ℤ)
    (p : Packet) (self : CryptoIp) :
    p.SameOutside (fun j ↦ (i ≤ j ∧ j < i + 4) ∧ anonIpCheck nets (p.word i) ≠ 0)
      (replaceEnd blockEncrypt nets i external p self).1 := by
  rw [replaceEnd]
  split
  · next h => exact (Packet.SameOutside.setWord ..).mono fun j hj ↦ ⟨hj, h⟩
  · exact .refl ..

/-- One IPv6 address. -/
theorem replaceEndv6_sameOutside (blockEncrypt : Block → Block) (nets : Nets) (i : ℕ) (p : Packet)
    (self : CryptoIp) :
    p.SameOutside (fun j ↦ (i ≤ j ∧ j < i + 16) ∧ anonIpCheckv6 nets (p.in6Addr i) ≠ 0)
      (replaceEndv6 blockEncrypt nets i p self).1 := by
  rw [replaceEndv6]
  split
  · next h => exact (setIn6Addr_sameOutside ..).mono fun j hj ↦ ⟨hj, h⟩
  · exact .refl ..

/-- The addresses of an IPv4 packet. -/
theorem replaceAddresses_sameOutside (blockEncrypt : Block → Block) (nets : Nets)
    (t : OutInterfaceSett) (p : Packet) (self : CryptoIp) :
    p.SameOutside (fun j ↦ t.UsesKey ∧ ((26 ≤ j ∧ j < 30) ∧ anonIpCheck nets (p.word 26) ≠ 0 ∨
      (30 ≤ j ∧ j < 34) ∧ anonIpCheck nets (p.word 30) ≠ 0))
      (replaceAddresses blockEncrypt nets t p self).1 := by
  rw [replaceAddresses]
  split
  · next hkey =>
    have hsrc := replaceEnd_sameOutside blockEncrypt nets 26 10 p self
    generalize replaceEnd blockEncrypt nets 26 10 p self = r at hsrc
    have hdst := replaceEnd_sameOutside blockEncrypt nets 30 1 r.1 r.2.1
    rw [hsrc.word fun j _ _ hj ↦ by omega] at hdst
    exact (hsrc.mono fun j hj ↦ ⟨hkey, .inl hj⟩).trans (hdst.mono fun j hj ↦ ⟨hkey, .inr hj⟩)
  · exact .refl ..

/-- The addresses of an IPv6 packet. -/
theorem replaceAddressesv6_sameOutside (blockEncrypt : Block → Block) (hkey : t.UsesKey)
    (self : CryptoIp) :
    p.SameOutside (Ipv6Writable nets t p)
      (replaceEndv6 blockEncrypt nets 38 (replaceEndv6 blockEncrypt nets 22 p self).1
        (replaceEndv6 blockEncrypt nets 22 p self).2).1 := by
  have hsrc := replaceEndv6_sameOutside blockEncrypt nets 22 p self
  generalize replaceEndv6 blockEncrypt nets 22 p self = r at hsrc
  have hdst := replaceEndv6_sameOutside blockEncrypt nets 38 r.1 r.2
  rw [hsrc.in6Addr fun j _ _ hj ↦ by omega] at hdst
  exact (hsrc.mono fun j hj ↦ ⟨hkey, .inl hj⟩).trans (hdst.mono fun j hj ↦ ⟨hkey, .inr hj⟩)

/-- The payload that is dropped. -/
theorem dropPayload_sameOutside (h : dropPayload t p = some q) :
    p.SameOutside (fun j ↦ 34 ≤ j ∧ t.payloadDropEnabled = 1) q := by
  rw [dropPayload] at h
  split at h
  · next hdrop =>
    obtain ⟨-, hsame, -⟩ := Packet.removePayload_spec h
    refine hsame.mono fun j hj ↦ ⟨?_, hdrop⟩
    have := hj.1
    split_ifs at this <;> omega
  · obtain rfl := Option.some.inj h
    exact .refl ..

/-- **The engine** writes to the external address, if it is about it, and behind the IP header. -/
theorem run_sameOutside {blockEncrypt : Block → Block} {c : PacketCall} {engine : Engine}
    {o : Outcome} (h : c.run blockEncrypt t engine = some o) :
    c.packet.SameOutside (fun j ↦ t.anonExtIp = 1 ∧ ExternalField c.ipOrigin j ∨ 34 ≤ j)
      o.packet := by
  by_cases htcp : c.IsTcp
  · rw [run_of_tcp htcp] at h
    obtain ⟨⟨q, engine'⟩, hext, h⟩ := Option.bind_eq_some_iff.1 h
    exact ((externalPart_sameOutside hext).mono fun j hj ↦ .inl hj).trans
      ((tcpPart_sameBefore h).mono fun j hj ↦ .inr hj)
  by_cases hudp : c.IsUdp
  · rw [run_of_udp hudp] at h
    obtain ⟨⟨q, engine'⟩, hext, h⟩ := Option.bind_eq_some_iff.1 h
    exact ((externalPart_sameOutside hext).mono fun j hj ↦ .inl hj).trans
      ((udpPart_frame h).1.mono fun j hj ↦ .inr hj)
  · rw [run_of_other htcp hudp] at h
    exact (removePart_sameBefore le_rfl h).mono fun j hj ↦ .inr hj

/-! ## A packet -/

section Packet

variable {blockEncrypt : Block → Block} {tvSec : ℤ} {engine : Engine} {env : PacketEnv}
  {o : Outcome}

/-- An address is taken for an external one only if the other end is to be anonymised, and it is
not. -/
theorem ipOriginOf_external {j : ℕ} (h : ExternalField (ipOriginOf nets t p) j) :
    t.UsesKey ∧
      ((26 ≤ j ∧ j < 30) ∧ anonIpCheck nets (p.word 26) = 0 ∧ anonIpCheck nets (p.word 30) ≠ 0 ∨
      (30 ≤ j ∧ j < 34) ∧ anonIpCheck nets (p.word 30) = 0 ∧ anonIpCheck nets (p.word 26) ≠ 0) := by
  rw [ExternalField, ipOriginOf] at h
  split_ifs at h with hkey hsrc hdst hdst
  · omega
  · exact ⟨hkey, .inr ⟨by omega, not_not.1 hdst, hsrc⟩⟩
  · exact ⟨hkey, .inl ⟨by omega, not_not.1 hsrc, hdst⟩⟩
  · omega
  · omega

/-- **What follows the addresses** of an IPv4 packet: the engine may write to an external address,
and the engine and the payload remover to what is behind the IP header. -/
theorem processPacketIp_later (htype : p.ntohs 12 = 0x0800) (hlet : ¬LetThrough nets p)
    (h : processPacketIp blockEncrypt nets t p tvSec engine env = some o) :
    (replaceAddresses blockEncrypt nets t p engine.self).1.SameOutside (fun j ↦
      (t.engine ≠ 0 ∧ t.anonExtIp = 1 ∧ ExternalField (ipOriginOf nets t p) j) ∨
        34 ≤ j ∧ (t.payloadDropEnabled = 1 ∨ t.engine ≠ 0)) o.packet := by
  by_cases hengine : t.engine ≠ 0
  · rw [processPacketIp_engine ⟨htype, hlet, hengine⟩] at h
    obtain ⟨q, hdrop, h⟩ := Option.bind_eq_some_iff.1 h
    refine ((dropPayload_sameOutside hdrop).mono fun j hj ↦ .inr ⟨hj.1, .inl hj.2⟩).trans
      ((run_sameOutside h).mono fun j hj ↦ ?_)
    rcases hj with ⟨hext, hj⟩ | hj
    · exact .inl ⟨hengine, hext, hj⟩
    · exact .inr ⟨hj, .inr hengine⟩
  · rw [processPacketIp_idle fun hfor ↦ hengine hfor.2.2] at h
    obtain ⟨⟨q, self⟩, hq, rfl⟩ := Option.map_eq_some_iff.1 h
    rw [withoutEngine, if_pos htype, if_neg hlet] at hq
    obtain ⟨q', hdrop, hq⟩ := Option.map_eq_some_iff.1 hq
    obtain ⟨rfl, -⟩ := Prod.mk.inj hq
    exact (dropPayload_sameOutside hdrop).mono fun j hj ↦ .inr ⟨hj.1, .inl hj.2⟩

/-- **The IP part** writes to nothing but the region. -/
theorem processPacketIp_sameOutside
    (h : processPacketIp blockEncrypt nets t p tvSec engine env = some o) :
    p.SameOutside (IpWritable nets t p) o.packet := by
  by_cases htype : p.ntohs 12 = 0x0800
  · by_cases hlet : LetThrough nets p
    · rw [processPacketIp, if_pos htype, if_pos hlet] at h
      obtain rfl := Option.some.inj h
      exact .refl ..
    have haddr := replaceAddresses_sameOutside blockEncrypt nets t p engine.self
    refine (haddr.mono fun j hj ↦ ?_).trans ((processPacketIp_later htype hlet h).mono
      fun j hj ↦ ?_) <;>
      refine .inl ⟨htype, hlet, ?_⟩
    · obtain ⟨hkey, ⟨hj, hsrc⟩ | ⟨hj, hdst⟩⟩ := hj
      · exact .inl ⟨hj, hkey, .inl hsrc⟩
      · exact .inr (.inl ⟨hj, hkey, .inl hdst⟩)
    · rcases hj with ⟨hengine, hext, hj⟩ | hj
      · obtain ⟨hkey, ⟨hj, -, hdst⟩ | ⟨hj, -, hsrc⟩⟩ := ipOriginOf_external hj
        · exact .inl ⟨hj, hkey, .inr ⟨hengine, hext, hdst⟩⟩
        · exact .inr (.inl ⟨hj, hkey, .inr ⟨hengine, hext, hsrc⟩⟩)
      · exact .inr (.inr hj)
  · rw [processPacketIp_idle fun hfor ↦ htype hfor.1] at h
    obtain ⟨⟨q, self⟩, hq, rfl⟩ := Option.map_eq_some_iff.1 h
    rw [withoutEngine, if_neg htype] at hq
    split_ifs at hq with h86
    · obtain rfl : _ = q := congrArg Prod.fst (Option.some.inj hq)
      exact (replaceAddressesv6_sameOutside blockEncrypt h86.2 engine.self).mono
        fun j hj ↦ .inr ⟨h86.1, hj⟩
    · obtain ⟨rfl, -⟩ := Prod.mk.inj (Option.some.inj hq)
      exact .refl ..

/-- **A packet that is processed** has the bytes received outside of the region. -/
theorem processPacket_sameOutside
    (h : processPacket blockEncrypt nets t p tvSec engine env = some o) :
    p.SameOutside (Writable nets t p) o.packet := by
  have heth := processPacketEth_sameOutside t p tvSec
  refine (heth.mono fun j hj ↦ .inl hj).trans
    ((processPacketIp_sameOutside h).mono fun j hj ↦ .inr ?_)
  exact (ipWritable_congr heth (fun j hj ↦ hj.1) j).1 hj

end Packet

/-! ## A run -/

section Runs

variable {cipher : ℕ → Block → Block} {out : ℕ → OutInterfaceSett} {w w' : World}

/-- **Every call of a run** sends one packet, with the bytes received outside of the region. -/
theorem runWorld_sameOutside {calls : List PacketCopy} {sent : List Packet}
    (h : runWorld cipher out w calls = some (w', sent)) :
    w'.nets = w.nets ∧ List.Forall₂
      (fun c ↦ c.packet.SameOutside (Writable w.nets (out c.port) c.packet))
      calls sent := by
  induction calls generalizing w sent with
  | nil =>
    obtain ⟨rfl, rfl⟩ : w = w' ∧ [] = sent := by simpa using h
    exact ⟨rfl, .nil⟩
  | cons c calls ih =>
    obtain ⟨w₁, q, sent, hstep, hrest, rfl⟩ := PartialRun.run_cons_eq_some.1 h
    obtain ⟨o, ho, rfl, rfl⟩ := worldStep_eq_some.1 hstep
    -- a step leaves the networks alone, on which the regions of the later packets depend
    obtain ⟨hnets, hrest⟩ := ih hrest
    exact ⟨hnets, .cons (processPacket_sameOutside ho) hrest⟩

/-- **The packets sent by the main loop.**  From any state and for any bursts that the loop gets
through, a packet is sent for every copy of a packet received, in the order of the calls, and it
differs from the packet received in the region of the interface at most. -/
theorem sent_frame {bursts : List Burst} {sent : List Packet}
    (h : mainLoop cipher out w bursts = some (w', sent)) :
    List.Forall₂ (fun c ↦ c.packet.SameOutside (Writable w.nets (out c.port) c.packet))
      (bursts.flatMap fanOut) sent :=
  (runWorld_sameOutside h).2

/-- A request that is mirrored to two interfaces. -/
theorem sent_frame_request : ∃ w' sent,
    mainLoop (fun _ b ↦ b) (fun _ ↦ .plain 2) .init [mirroredRequest] = some (w', sent) ∧
    List.Forall₂ (fun c ↦ c.packet.SameOutside (Writable World.init.nets (.plain 2) c.packet))
      ([mirroredRequest].flatMap fanOut) sent := by
  have hsome : (mainLoop (fun _ b ↦ b) (fun _ ↦ .plain 2) .init [mirroredRequest]).isSome =
    true := by
    decide +kernel
  obtain ⟨⟨w', sent⟩, hrun⟩ := Option.isSome_iff_exists.1 hsome
  exact ⟨w', sent, hrun, sent_frame hrun⟩

end Runs

end AlphaMon
