import AlphaMon.PacketFrame

/-!
# The addresses that are sent

The anonymiser of an interface is called for the two addresses of a packet, and by the DNS module
for those in a response.  All these calls keep its caches sound, and nothing that is done to a
packet later writes over an address that has been replaced.

So from start-up on, every address of the anon networks leaves as the pseudonym that the key of the
interface gives it (`sent_pseudonyms`), with the engine or without, whatever the packets before have
done to the caches.
-/

set_option autoImplicit false

namespace AlphaMon

section Engine

variable {blockEncrypt : Block → Block} {mPad : Block} {t : OutInterfaceSett} {p q : Packet}
  {flow : Flow}
  {env : PacketEnv} {engine engine' : Engine} {o : Outcome}

/-! ## The engine -/

/-- Every step through the records of a response keeps the caches sound. -/
theorem DnsWalk.stable_sound (env : DnsEnv) (buffer : ℕ) :
    DnsWalk.Stable blockEncrypt env buffer (·.self.Sound blockEncrypt mPad) where
  count _ _ h := h
  skip _ _ h := h
  readName w x h hx := by
    rw [DnsWalk.readName] at hx
    split at hx
    · obtain ⟨y, -, hx⟩ := Option.bind_eq_some_iff.1 hx
      obtain rfl := Option.some.inj hx
      exact h
    · obtain rfl := Option.some.inj hx
      exact h
  address w w' dataLen stack h hw := by
    rw [DnsWalk.address] at hw
    split at hw
    · exact absurd hw (by simp)
    · obtain rfl := Option.some.inj hw
      exact (retrieveCryptoIp_spec h _).2
  drop w r h hr := by
    obtain ⟨q, -, hr⟩ := Option.bind_eq_some_iff.1 hr
    obtain rfl := Option.some.inj hr
    exact h

/-- **The DNS module** keeps the caches sound. -/
theorem dnsEntry_sound {protocol : ℕ} {flowDb : HashStruct} {kAnon kDelta : ℤ} {self : CryptoIp}
    {env : DnsEnv} {r : DnsResult} (hs : self.Sound blockEncrypt mPad)
    (h : dnsEntry blockEncrypt p protocol flow flowDb kAnon kDelta self env = some r) :
    r.self.Sound blockEncrypt mPad := by
  have hremoved : ∀ {r : DnsResult}, (do
      let packet ← p.removePayload 42
      some (⟨packet, flowDb, self, none⟩ : DnsResult)) = some r →
        r.self.Sound blockEncrypt mPad := by
    intro r h
    obtain ⟨q, -, h⟩ := Option.bind_eq_some_iff.1 h
    obtain rfl := Option.some.inj h
    exact hs
  simp only [dnsEntry] at h
  split at h
  · exact hremoved h
  split at h
  · exact hremoved h
  simp only [dnsMessage] at h
  obtain ⟨name, -, h⟩ := Option.bind_eq_some_iff.1 h
  cases name with
  | none =>
    obtain rfl := Option.some.inj h
    exact hs
  | some name =>
    simp only at h
    split at h
    · obtain rfl := Option.some.inj h
      exact hs
    obtain ⟨⟨db, ret⟩, -, h⟩ := Option.bind_eq_some_iff.1 h
    simp only at h
    split at h
    swap
    · obtain rfl := Option.some.inj h
      exact hs
    split at h
    · obtain rfl := Option.some.inj h
      exact hs
    split at h
    · obtain rfl := Option.some.inj h
      exact hs
    · -- a response, whose addresses are looked up
      obtain ⟨⟨w, goesOn⟩, hw, h⟩ := Option.bind_eq_some_iff.1 h
      obtain rfl := Option.some.inj h
      exact dnsRecords_keeps (DnsWalk.stable_sound env _) _ _ _ hs hw

/-- The part about the external address leaves the anonymiser alone. -/
theorem externalPart_self {stores : Bool} {ipOrigin : ℤ}
    (h : externalPart t flow env stores ipOrigin p engine = some (q, engine')) :
    engine'.self = engine.self := by
  rw [externalPart] at h
  split at h
  · obtain ⟨⟨fs, a, y⟩, -, h⟩ := Option.bind_eq_some_iff.1 h
    simp only at h
    split at h
    · obtain ⟨r, -, h⟩ := Option.bind_eq_some_iff.1 h
      obtain ⟨fs', -, h⟩ := Option.bind_eq_some_iff.1 h
      obtain ⟨-, rfl⟩ := Prod.mk.inj (Option.some.inj h)
      rfl
    · obtain ⟨-, rfl⟩ := Prod.mk.inj (Option.some.inj h)
      rfl
  · obtain ⟨-, rfl⟩ := Prod.mk.inj (Option.some.inj h)
    rfl

/-- So do the name modules. -/
theorem tcpPart_self (h : tcpPart t flow env p engine = some o) : o.engine.self = engine.self := by
  cases hm : handedTo t p flow with
  | some m =>
    rw [tcpPart_handed env hm] at h
    obtain ⟨fs, a, y, -, ⟨-, rfl⟩ | ⟨-, r, fs', -, -, rfl⟩⟩ := namePart_cases h <;> rfl
  | none => rw [(tcpPart_not_handed hm h).1]

theorem udpPart_sound (hs : engine.self.Sound blockEncrypt mPad)
    (h : udpPart t flow env blockEncrypt p engine = some o) :
    o.engine.self.Sound blockEncrypt mPad := by
  rw [udpPart] at h
  split at h
  · obtain ⟨d, -, h⟩ := Option.bind_eq_some_iff.1 h
    split at h
    · obtain ⟨r, hr, h⟩ := Option.bind_eq_some_iff.1 h
      obtain rfl := Option.some.inj h
      exact dnsEntry_sound hs hr
    · exact (removePart_engine h).1 ▸ hs
  · split at h
    · exact (removePart_engine h).1 ▸ hs
    · obtain rfl := Option.some.inj h
      exact hs

/-- **The engine** keeps the caches sound. -/
theorem run_sound {c : PacketCall} (hs : engine.self.Sound blockEncrypt mPad)
    (h : c.run blockEncrypt t engine = some o) : o.engine.self.Sound blockEncrypt mPad := by
  by_cases htcp : c.IsTcp
  · rw [run_of_tcp htcp] at h
    obtain ⟨⟨q, engine'⟩, hext, h⟩ := Option.bind_eq_some_iff.1 h
    rw [tcpPart_self h, externalPart_self hext]
    exact hs
  by_cases hudp : c.IsUdp
  · rw [run_of_udp hudp] at h
    obtain ⟨⟨q, engine'⟩, hext, h⟩ := Option.bind_eq_some_iff.1 h
    exact udpPart_sound ((externalPart_self hext).symm ▸ hs) h
  · rw [run_of_other htcp hudp] at h
    exact (removePart_engine h).1 ▸ hs

end Engine

/-! ## A packet -/

section Packet

variable {blockEncrypt : Block → Block} {mPad : Block} {nets : Nets} {t : OutInterfaceSett}
  {p q : Packet}
  {self : CryptoIp} {tvSec : ℤ} {engine : Engine} {env : PacketEnv} {o : Outcome}

theorem replaceEnd_sound (hs : self.Sound blockEncrypt mPad) (i : ℕ) (external : ℤ) :
    (replaceEnd blockEncrypt nets i external p self).2.1.Sound blockEncrypt mPad := by
  rw [replaceEnd]
  split
  · exact (retrieveCryptoIp_spec hs _).2
  · exact hs

theorem replaceEndv6_sound (hs : self.Sound blockEncrypt mPad) (i : ℕ) :
    (replaceEndv6 blockEncrypt nets i p self).2.Sound blockEncrypt mPad := by
  rw [replaceEndv6]
  split
  · exact (retrieveCryptoIpv6_spec hs _).2
  · exact hs

theorem replaceAddresses_sound (hs : self.Sound blockEncrypt mPad) :
    (replaceAddresses blockEncrypt nets t p self).2.1.Sound blockEncrypt mPad := by
  rw [replaceAddresses]
  split
  · exact replaceEnd_sound (replaceEnd_sound hs 26 10) 30 1
  · exact hs

/-- **A packet** keeps the caches of the interface sound. -/
theorem processPacketIp_sound (hs : engine.self.Sound blockEncrypt mPad)
    (h : processPacketIp blockEncrypt nets t p tvSec engine env = some o) :
    o.engine.self.Sound blockEncrypt mPad := by
  by_cases hfor : ForEngine nets t p
  · rw [processPacketIp_engine hfor] at h
    obtain ⟨q, -, h⟩ := Option.bind_eq_some_iff.1 h
    exact run_sound (replaceAddresses_sound hs) h
  · rw [processPacketIp_idle hfor] at h
    obtain ⟨⟨q, self⟩, hq, rfl⟩ := Option.map_eq_some_iff.1 h
    rw [withoutEngine] at hq
    split_ifs at hq
    · obtain ⟨-, rfl⟩ := Prod.mk.inj (Option.some.inj hq)
      exact hs
    · obtain ⟨q', -, hq⟩ := Option.map_eq_some_iff.1 hq
      obtain ⟨-, rfl⟩ := Prod.mk.inj hq
      exact replaceAddresses_sound hs
    · obtain rfl : _ = self := congrArg Prod.snd (Option.some.inj hq)
      exact replaceEndv6_sound (replaceEndv6_sound hs 22) 38
    · obtain ⟨-, rfl⟩ := Prod.mk.inj (Option.some.inj hq)
      exact hs

/-- Of a packet received, the addresses of the anon networks are sent as their pseudonyms. -/
structure PseudonymsSent (blockEncrypt : Block → Block) (mPad : Block) (nets : Nets)
    (p q : Packet) : Prop where
  ipv4 : ipv4Family.Carried p → ¬LetThrough nets p → ∀ i, i = 26 ∨ i = 30 →
    anonIpCheck nets (p.word i) ≠ 0 →
    q.word i = pseudonym blockEncrypt mPad (p.word i)
  ipv6 : ipv6Family.Carried p → ∀ i, i = 22 ∨ i = 38 → anonIpCheckv6 nets (p.in6Addr i) ≠ 0 →
    q.in6Addr i = pseudonym6 blockEncrypt mPad (p.in6Addr i)

/-- It makes no difference what the Ethernet addresses are. -/
theorem PseudonymsSent.of_sameOutside {P : ℕ → Prop} {p' : Packet}
    (h : PseudonymsSent blockEncrypt mPad nets p' q) (hsame : p.SameOutside P p')
    (hP : ∀ j, P j → j < 12) : PseudonymsSent blockEncrypt mPad nets p q := by
  obtain ⟨htype, hword, haddr⟩ := hsame.behind hP
  constructor
  · intro hc hlet i hi hanon
    rw [← hword i (by omega)] at hanon ⊢
    refine h.ipv4 ⟨htype.trans hc.1, hsame.length ▸ hc.2⟩ ?_ i hi hanon
    rwa [LetThrough, hword 26 (by decide), hword 30 (by decide)]
  · intro hc i hi hanon
    rw [← haddr i (by omega)] at hanon ⊢
    exact h.ipv6 ⟨htype.trans hc.1, hsame.length ▸ hc.2⟩ i hi hanon

/-- **The IP part** sends the pseudonyms.  What is done to a packet later may write to an external
address, which is not one that was replaced. -/
theorem processPacketIp_pseudonyms (hs : engine.self.Sound blockEncrypt mPad) (hkey : t.UsesKey)
    (h : processPacketIp blockEncrypt nets t p tvSec engine env = some o) :
    PseudonymsSent blockEncrypt mPad nets p o.packet := by
  constructor
  · intro hc hlet i hi hanon
    have hlater := processPacketIp_later hc.1 hlet h
    have hpolicy : ipv4Family.Policy nets (pseudonym blockEncrypt mPad) p _ :=
      ipv4_policy hs hkey hc
    have hrew := hpolicy.2 hlet
    rw [if_neg hlet] at hrew
    rcases hi with rfl | rfl
    · rw [hlater.word (i := 26) ?_]
      · exact hrew.src.trans (ipv4Family.replaced_of_anon hanon)
      · rintro j h₁ h₂ (⟨-, -, hj⟩ | hj)
        · obtain ⟨-, ⟨-, hsrc, -⟩ | ⟨hj, -⟩⟩ := ipOriginOf_external hj
          · exact hanon hsrc
          · omega
        · omega
    · rw [hlater.word (i := 30) ?_]
      · exact hrew.dst.trans (ipv4Family.replaced_of_anon hanon)
      · rintro j h₁ h₂ (⟨-, -, hj⟩ | hj)
        · obtain ⟨-, ⟨hj, -⟩ | ⟨-, hdst, -⟩⟩ := ipOriginOf_external hj
          · omega
          · exact hanon hdst
        · omega
  · intro hc i hi hanon
    obtain ⟨o', q, self', hrun, hfirst, hpkt⟩ :=
      processPacketIp_ipv6 blockEncrypt nets hc.1 hkey tvSec engine env
    obtain rfl := Option.some.inj (h.symm.trans hrun)
    have hrew := ipv6_rewritten hs hc hfirst
    rw [hpkt]
    rcases hi with rfl | rfl
    · exact hrew.src.trans (ipv6Family.replaced_of_anon hanon)
    · exact hrew.dst.trans (ipv6Family.replaced_of_anon hanon)

end Packet

/-! ## Runs -/

/-- The interfaces that replace addresses have sound anonymisers. -/
def World.Sound (cipher : ℕ → Block → Block) (padKey : ℕ → Block) (out : ℕ → OutInterfaceSett)
    (w : World) : Prop :=
  ∀ d, (out d).UsesKey → (w.cryptoData d).Sound (cipher d) (cipher d (padKey d))

section Runs

variable {cipher : ℕ → Block → Block} {padKey : ℕ → Block} {out : ℕ → OutInterfaceSett}
  {w w' : World}

/-- They do after start-up. -/
theorem processPacketInit_sound {inet : Inet} {fopen : List UInt8 → Option (List UInt8)}
    (h : processPacketInit inet fopen cipher padKey out = some w) : w.Sound cipher padKey out := by
  obtain ⟨nets, -, h⟩ := Option.bind_eq_some_iff.1 h
  obtain rfl := Option.some.inj h
  intro d hd
  simp only [if_pos hd]
  exact initializeCrypto_sound (padKey d)

/-- **A call** keeps the anonymisers sound and sends the pseudonyms of its interface. -/
theorem worldStep_sound {c : PacketCopy} {q : Packet} (hw : w.Sound cipher padKey out)
    (h : worldStep cipher out c w = some (w', q)) :
    w'.Sound cipher padKey out ∧ w'.nets = w.nets ∧ ((out c.port).UsesKey →
      PseudonymsSent (cipher c.port) (cipher c.port (padKey c.port)) w.nets c.packet q) := by
  obtain ⟨o, ho, rfl, rfl⟩ := worldStep_eq_some.1 h
  refine ⟨fun d hd ↦ ?_, rfl, fun hkey ↦ ?_⟩
  · simp only [World.leave]
    by_cases hport : d = c.port
    · subst hport
      rw [Function.update_self]
      exact processPacketIp_sound (hw _ hd) ho
    · rw [Function.update_of_ne hport]
      exact hw d hd
  · exact (processPacketIp_pseudonyms (hw _ hkey) hkey ho).of_sameOutside
      (processPacketEth_sameOutside ..) fun j hj ↦ hj.1

/-- **Every call of a run** does. -/
theorem runWorld_pseudonyms {calls : List PacketCopy} {sent : List Packet}
    (hw : w.Sound cipher padKey out) (h : runWorld cipher out w calls = some (w', sent)) :
    List.Forall₂ (fun c q ↦ (out c.port).UsesKey →
      PseudonymsSent (cipher c.port) (cipher c.port (padKey c.port)) w.nets c.packet q) calls
        sent := by
  induction calls generalizing w sent with
  | nil =>
    obtain ⟨-, rfl⟩ : w = w' ∧ [] = sent := by simpa using h
    exact .nil
  | cons c calls ih =>
    obtain ⟨w₁, q, sent, hstep, hrest, rfl⟩ := PartialRun.run_cons_eq_some.1 h
    obtain ⟨hw₁, hnets, hq⟩ := worldStep_sound hw hstep
    exact .cons hq (hnets ▸ ih hw₁ hrest)

/-- **The addresses that are sent.**  In every run from start-up on, an interface with `anon_ip` and
a static key sends each address of the anon networks as its pseudonym under that key. -/
theorem sent_pseudonyms {inet : Inet} {fopen : List UInt8 → Option (List UInt8)}
    {bursts : List Burst} {sent : List Packet}
    (hinit : processPacketInit inet fopen cipher padKey out = some w)
    (hrun : mainLoop cipher out w bursts = some (w', sent)) :
    List.Forall₂ (fun c q ↦ (out c.port).UsesKey →
      PseudonymsSent (cipher c.port) (cipher c.port (padKey c.port)) w.nets c.packet q)
      (bursts.flatMap fanOut) sent :=
  runWorld_pseudonyms (processPacketInit_sound hinit) hrun

/-- A frame from 10.0.0.1, mirrored to the interfaces 0 and 1. -/
def mirroredFrame : Burst :=
  ⟨[0, 1], [⟨ipv4Frame (inAddr 10 0 0 1), fun _ ↦ [], fun _ ↦ 0, fun _ ↦ .plain⟩]⟩

/-- Both interfaces anonymise 10.0.0.0/8. -/
theorem sent_pseudonyms_frame : ∃ w w' sent,
    processPacketInit Inet.quads twoNetFiles (fun _ b ↦ b) (fun _ _ ↦ 0) (twoInterfaces [97] [97]) =
      some w ∧
    mainLoop (fun _ b ↦ b) (twoInterfaces [97] [97]) w [mirroredFrame] = some (w', sent) ∧
    List.Forall₂ (fun c q ↦ (twoInterfaces [97] [97] c.port).UsesKey →
      PseudonymsSent (fun b ↦ b) (fun _ ↦ 0) w.nets c.packet q) ([mirroredFrame].flatMap fanOut)
        sent := by
  have hsome : ((processPacketInit Inet.quads twoNetFiles (fun _ b ↦ b) (fun _ _ ↦ 0)
      (twoInterfaces [97] [97])).bind fun w ↦
        mainLoop (fun _ b ↦ b) (twoInterfaces [97] [97]) w [mirroredFrame]).isSome = true := by
    decide +kernel
  obtain ⟨⟨w', sent⟩, hboth⟩ := Option.isSome_iff_exists.1 hsome
  obtain ⟨w, hinit, hrun⟩ := Option.bind_eq_some_iff.1 hboth
  exact ⟨w, w', sent, hinit, hrun, sent_pseudonyms hinit hrun⟩

end Runs

end AlphaMon
