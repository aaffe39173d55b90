import AlphaMon.HeaderFrame

/-!
# Payloads of unknown protocols

A payload that no module understands is removed: everything behind the transport header is zeroed.
This is what `payload_removed_iff` is about, with the modules all on.  The payloads meant to pass
are DNS messages, TCP payloads that start with a ClientHello or with `GET` or `POST`, and whatever
has 22 or 443 as a port.

Two more kinds pass.  `isHttp` accepts a payload with `get` or `post` anywhere in it, in any case,
and no detector for TCP looks at where the frame ends, so that a short payload passes whose bytes
only go on like a ClientHello or a request in the memory behind it.  A packet accepted is never
stripped.  The other thing that can go wrong is that a call does not return: `isDns` reads the
header of a message that is not there.
-/

set_option autoImplicit false

namespace AlphaMon

open CString

/-! ## What the parts of the engine leave alone -/

/-- The field with the external address. -/
def ExternalField (ipOrigin : ℤ) (j : ℕ) : Prop :=
  ipOrigin = 10 ∧ 26 ≤ j ∧ j < 30 ∨ ipOrigin = 1 ∧ 30 ≤ j ∧ j < 34

/-- **`external_ip` rewrites the external address** and nothing else. -/
theorem externalIp_sameOutside {packet : Packet} {ipOrigin : ℤ} {flusso : FlowRec}
    {flowDb : HashStruct} {flow : Flow} {kAnon kDelta : ℤ} {env : ExtEnv} {r : ExternalResult}
    (h : externalIp packet ipOrigin flusso flowDb flow kAnon kDelta env = some r) :
    packet.SameOutside (ExternalField ipOrigin) r.packet := by
  have hcount : ∀ i, (∀ j, i ≤ j ∧ j < i + 4 → ExternalField ipOrigin j) →
      countAddress packet i flusso flowDb flow kAnon kDelta env = some r →
      packet.SameOutside (ExternalField ipOrigin) r.packet := by
    intro i hi h
    obtain ⟨⟨db, ret⟩, -, h⟩ := Option.bind_eq_some_iff.1 h
    simp only at h
    split at h
    · obtain rfl := Option.some.inj h
      exact (Packet.SameOutside.setWord ..).mono hi
    · obtain rfl := Option.some.inj h
      exact .refl ..
  simp only [externalIp] at h
  split_ifs at h with hv4 h10 hdec h1 hdec h1'
  · exact hcount 26 (fun j hj ↦ .inl ⟨h10, hj⟩) h
  · obtain rfl := Option.some.inj h
    exact .refl ..
  · exact hcount 30 (fun j hj ↦ .inr ⟨h1, hj⟩) h
  · obtain rfl := Option.some.inj h
    exact (Packet.SameOutside.setWord ..).mono fun j hj ↦ .inr ⟨h1, hj⟩
  all_goals
    obtain rfl := Option.some.inj h
    exact .refl ..

variable {setting : OutInterfaceSett} {c : PacketCall} {engine engine' : Engine} {packet q : Packet}

/-- The part about the external address touches nothing else. -/
theorem externalPart_sameOutside {flow : Flow} {env : PacketEnv} {stores : Bool} {ipOrigin : ℤ}
    (h : externalPart setting flow env stores ipOrigin packet engine = some (q, engine')) :
    packet.SameOutside (fun j ↦ setting.anonExtIp = 1 ∧ ExternalField ipOrigin j) q := by
  rw [externalPart] at h
  split at h
  · next hext =>
    obtain ⟨⟨fs, a, y⟩, -, h⟩ := Option.bind_eq_some_iff.1 h
    simp only at h
    split at h
    · obtain ⟨r, hr, h⟩ := Option.bind_eq_some_iff.1 h
      obtain ⟨fs', -, h⟩ := Option.bind_eq_some_iff.1 h
      obtain ⟨rfl, -⟩ : r.packet = q ∧ _ := by simpa using h
      exact (externalIp_sameOutside hr).mono fun j hj ↦ ⟨hext.1, hj⟩
    · obtain ⟨rfl, -⟩ : packet = q ∧ _ := by simpa using h
      exact .refl ..
  · obtain ⟨rfl, -⟩ : packet = q ∧ _ := by simpa using h
    exact .refl ..

/-- **The detectors** look at nothing before the transport header. -/
theorem protoDetector_congr {P : ℕ → Prop} (h : packet.SameOutside P q) (hP : ∀ j, 34 ≤ j → ¬P j)
    (protocol inport outport : ℕ) :
    protoDetector q protocol inport outport = protoDetector packet protocol inport outport := by
  have hoff := payloadOffset_ge protocol (packet.byte 46)
  have hdns : isDns q protocol inport outport = isDns packet protocol inport outport := by
    have hbase : 42 ≤ offsetExtractor protocol := by
      rw [offsetExtractor]
      split <;> omega
    have hheader : q.dnsHeader (offsetExtractor protocol) = packet.dnsHeader
      (offsetExtractor protocol) := by
      simp only [Packet.dnsHeader, Packet.ntohs]
      repeat rw [h.byte _ (hP _ (by omega))]
    simp only [isDns, dnsHeaderExtractor, h.pktLen]
    split <;> [split <;> [rfl; simp only [Option.map_some, hheader]]; rfl]
  have htext := h.text (i := payloadOffset protocol (packet.byte 46))
    fun j hj ↦ hP j (hoff.trans hj)
  have hhello : q.StartsHello (payloadOffset protocol (packet.byte 46)) ↔
      packet.StartsHello (payloadOffset protocol (packet.byte 46)) := by
    rw [Packet.StartsHello, Packet.StartsHello, h.byte _ (hP _ hoff), h.byte _ (hP _ (by omega)),
      h.byte _ (hP _ (by omega))]
  have hmethod : q.MentionsMethod (payloadOffset protocol (packet.byte 46)) ↔
      packet.MentionsMethod (payloadOffset protocol (packet.byte 46)) := by
    rw [Packet.MentionsMethod, Packet.MentionsMethod, htext]
  rw [protoDetector_eq, protoDetector_eq, hdns, h.byte 46 (hP 46 (by decide))]
  simp only [hhello, hmethod]

/-! ## Payloads that are removed -/

namespace PacketCall

/-- The end of the fixed part of the transport header, or of the IP header for other protocols. -/
def headerEnd (c : PacketCall) : ℕ := if c.IsTcp then 54 else if c.IsUdp then 42 else 34

/-- What the detectors say. -/
def detected (c : PacketCall) : Option ℕ :=
  protoDetector c.packet (if c.IsTcp then 0 else 1) c.flow.inPort c.flow.outPort

/-- Where the payload of a TCP packet starts. -/
def payloadAt (c : PacketCall) : ℕ := payloadOffset 0 c.dataOff

/-- The TCP payload, as far as the frame goes, starts with a ClientHello. -/
def CarriesHello (c : PacketCall) :
    Prop := c.packet.StartsHello c.payloadAt ∧ c.payloadAt + 6 ≤ c.packet.pktLen

/-- The TCP payload, as far as the frame goes, starts with a word. -/
def StartsWith (c : PacketCall) (word : List UInt8) : Prop :=
  Reads c.packet.data c.payloadAt word ∧ c.payloadAt + word.length ≤ c.packet.pktLen

/-- The payloads that are meant to pass. -/
def MayPass (c : PacketCall) : Prop :=
  (c.IsTcp ∨ c.IsUdp) ∧ ¬c.flow.RemovesUnknown ∨
  c.IsUdp ∧ isDns c.packet 1 c.flow.inPort c.flow.outPort = some 0 ∨
  c.IsTcp ∧ (c.CarriesHello ∨ c.StartsWith kwGet ∨ c.StartsWith kwPost)

/-- The part about the external address. -/
def external (setting : OutInterfaceSett) (c : PacketCall) (engine : Engine) :
    Option (Packet × Engine) :=
  externalPart setting c.flow c.env (decide c.IsTcp) c.ipOrigin c.packet engine

/-- The payload is gone, and of the headers at most the external address has changed. -/
structure Removed (setting : OutInterfaceSett) (c : PacketCall) (q : Packet) : Prop where
  pktLen : q.pktLen = c.packet.pktLen
  payload : ∀ j, c.headerEnd ≤ j → j < c.packet.pktLen → q.byte j = 0
  header : ∀ j, j < c.headerEnd → ¬(setting.anonExtIp = 1 ∧ ExternalField c.ipOrigin j) →
    q.byte j = c.packet.byte j

/-- The packet `q` goes through a module: the record of its flow can be looked up, and unless the
flow is exempt `table_add` returns for the name the module finds, if it finds one. -/
def Handles (setting : OutInterfaceSett) (c : PacketCall) (m : ModuleKind) (q : Packet)
    (engine : Engine) : Prop :=
  ∃ fs a y, lookUp c.flow engine.flowStruct c.env.nameFlow = some (fs, a, y) ∧
    (y.toAnon = -1 ∨ y.toAnon = 1 → ∀ f, m.find q (q.byte 46) = some f →
      ∃ x, tableAdd engine.flowDb c.flow f.name setting.alpha setting.delta c.env.handler.table =
        some x)

/-- The packets whose payload is removed: the calls about the external address return, the detectors
do, and they do not hand a TCP packet to a module.  If they do, for what is in memory behind an
empty payload, there must be nothing to remove, and the packet must go through the module. -/
def Removable (setting : OutInterfaceSett) (engine : Engine) (c : PacketCall) : Prop :=
  c.IsTcp ∨ c.IsUdp → ∃ q engine', c.external setting engine = some (q, engine') ∧
    c.detected ≠ none ∧
    ∀ m, c.handed setting = some m → 5 ≤ c.dataOff.toNat / 16 ∧
      (∀ j, 54 ≤ j → j < c.packet.pktLen → c.packet.byte j = 0) ∧ c.Handles setting m q engine'

end PacketCall

variable {blockEncrypt : Block → Block} {o : Outcome} {m : ModuleKind}

/-- What is handed to a module starts with a byte that is not zero. -/
theorem byte_ne_zero_of_handedTo {flow : Flow} (h : handedTo setting packet flow = some m) :
    packet.byte (payloadOffset 0 (packet.byte 46)) ≠ 0 := by
  rw [handedTo] at h
  split at h
  · next hd =>
    rw [((protoDetector_inv hd).2.1 rfl).1]
    decide
  · next hd =>
    intro h0
    have hmethod := (protoDetector_inv hd).2.2 rfl
    rw [Packet.MentionsMethod, Packet.text, cstr_zero h0] at hmethod
    exact absurd hmethod (by decide)
  · exact absurd h (by simp)

/-- A store into the record that was looked up goes through. -/
theorem storeRecord_lookUp {flow : Flow} {db fs : FlowTable} {env : FlowEnv} {a : ℕ} {y : FlowRec}
    (h : lookUp flow db env = some (fs, a, y)) (f : FlowRec → FlowRec) :
    ∃ fs', storeRecord flow fs a f = some fs' := by
  simp only [lookUp, Option.bind_eq_bind] at h
  obtain ⟨⟨db₁, a₁⟩, -, h⟩ := Option.bind_eq_some_iff.1 h
  obtain ⟨r, hr, h⟩ := Option.bind_eq_some_iff.1 h
  obtain ⟨rfl, rfl, -⟩ : db₁ = fs ∧ a₁ = a ∧ _ := by simpa using h
  simp only at hr
  rw [storeRecord, storeFlow, Arena.modify_of_cell hr]
  exact ⟨_, rfl⟩

/-- **A packet goes through a module** exactly when its record is looked up and its name is
counted. -/
theorem namePart_returns_iff :
    (∃ o, namePart setting c.flow c.env m.entry packet engine = some o) ↔
      c.Handles setting m packet engine := by
  constructor
  · rintro ⟨o, h⟩
    obtain ⟨fs, a, y, hlook, ⟨hy, -⟩ | ⟨-, r, fs', hr, -⟩⟩ := namePart_cases h
    · exact ⟨fs, a, y, hlook, fun h ↦ absurd h hy⟩
    refine ⟨fs, a, y, hlook, fun _ f hf ↦ ?_⟩
    have hrep := ModuleKind.reported hr
    rw [hf] at hrep
    cases hrep with
    | below hadd => exact ⟨_, hadd⟩
    | above hadd => exact ⟨_, hadd⟩
  · rintro ⟨fs, a, y, hlook, hadd⟩
    rw [namePart, hlook]
    simp only [Option.bind_eq_bind, Option.bind_some]
    split
    · next hy =>
      obtain ⟨r, hr⟩ : ∃ r, m.entry packet 0 (packet.byte 46) c.flow engine.flowDb setting.alpha
          setting.delta c.env.handler.toHandlerEnv = some r :=
        ModuleKind.entry_total packet (packet.byte 46) c.flow (hadd hy)
      obtain ⟨fs', hstore⟩ := storeRecord_lookUp hlook fun x ↦ { x with toAnon := toAnonOf r.flag }
      rw [hr, Option.bind_some, hstore]
      exact ⟨_, rfl⟩
    · exact ⟨_, rfl⟩

/-- A packet that was handed to a module has changed to letters only. -/
theorem namePart_scrambled {flow : Flow} {env : PacketEnv} {m : ModuleKind}
    (h : namePart setting flow env m.entry packet engine = some o) : Scrambled packet o.packet := by
  obtain ⟨fs, a, y, -, ⟨-, rfl⟩ | ⟨-, r, fs', hr, -, rfl⟩⟩ := namePart_cases h
  · exact .refl _
  · have hrep := ModuleKind.reported hr
    generalize m.find packet (packet.byte 46) = found at hrep
    cases hrep with
    | none => exact .refl _
    | below _ _ hq => exact hq
    | above => exact .refl _

/-- **Removing a payload behind the headers.** -/
theorem removePart_removed {offset : ℕ} (hend : offset = c.headerEnd)
    (hlen : offset ≤ c.packet.pktLen)
    (hq : c.packet.SameOutside (fun j ↦ setting.anonExtIp = 1 ∧ ExternalField c.ipOrigin j) q) :
    ∃ o, removePart offset q engine = some o ∧ c.Removed setting o.packet := by
  have hle : offset ≤ q.pktLen := hq.pktLen ▸ hlen
  have hrem : q.removePayload offset = some (q.zeroLoop (q.pktLen - offset) offset) := if_pos hle
  obtain ⟨-, hsame, hzero⟩ := Packet.removePayload_spec hrem
  refine ⟨_, by rw [removePart, hrem]; rfl, hsame.pktLen.trans hq.pktLen, fun j h₁ h₂ ↦ ?_,
    fun j h₁ h₂ ↦ ?_⟩
  · exact hzero j (hend ▸ h₁) (by rw [hq.pktLen]; exact h₂)
  · exact (hsame.byte j (by omega)).trans (hq.byte j h₂)

/-- The detectors see what they see in the packet as it came. -/
theorem external_detected (h : c.external setting engine = some (q, engine')) (protocol : ℕ) :
    protoDetector q protocol c.flow.inPort c.flow.outPort =
      protoDetector c.packet protocol c.flow.inPort c.flow.outPort := by
  refine protoDetector_congr (externalPart_sameOutside h) (fun j hj hP ↦ ?_) ..
  rcases hP.2 with ⟨-, -, h⟩ | ⟨-, -, h⟩ <;> omega

/-- A TCP packet that the detectors hand to no module loses its payload. -/
theorem tcpPart_remove {flow : Flow} {env : PacketEnv} (htls : setting.tls ≠ 0)
    (hhttp : setting.http ≠ 0) (hports : flow.RemovesUnknown)
    (hnone : handedTo setting packet flow = none) (engine : Engine) :
    tcpPart setting flow env packet engine =
      (protoDetector packet 0 flow.inPort flow.outPort).bind fun _ ↦
        removePart 54 packet engine := by
  rw [tcpPart, Option.bind_eq_bind]
  refine Option.bind_congr fun d hd ↦ ?_
  rw [handedTo, hd] at hnone
  have h443 : d ≠ 443 := by
    rintro rfl
    simp [htls] at hnone
  have h80 : d ≠ 80 := by
    rintro rfl
    simp [hhttp] at hnone
  rw [if_neg h443, if_neg h80, if_pos hports]

/-- **TCP payloads.** -/
theorem tcp_removed_iff (htls : setting.tls ≠ 0) (hhttp : setting.http ≠ 0) (htcp : c.IsTcp)
    (hlen : 54 ≤ c.packet.pktLen) (hports : c.flow.RemovesUnknown)
    (hext : c.external setting engine = some (q, engine')) :
    (c.detected ≠ none → (∀ m, c.handed setting = some m → 5 ≤ c.dataOff.toNat / 16 ∧
        (∀ j, 54 ≤ j → j < c.packet.pktLen → c.packet.byte j = 0) ∧ c.Handles setting m q engine') →
      ∃ o, tcpPart setting c.flow c.env q engine' = some o ∧ c.Removed setting o.packet) ∧
    (5 ≤ c.dataOff.toNat / 16 →
      (∃ o, tcpPart setting c.flow c.env q engine' = some o ∧ c.Removed setting o.packet) →
      c.detected ≠ none ∧ ∀ m, c.handed setting = some m →
        (∀ j, 54 ≤ j → j < c.packet.pktLen → c.packet.byte j = 0) ∧
          c.Handles setting m q engine') := by
  have hsame := externalPart_sameOutside hext
  have hfar : ∀ j, 34 ≤ j → ¬(setting.anonExtIp = 1 ∧ ExternalField c.ipOrigin j) := by
    rintro j hj ⟨-, ⟨-, -, h⟩ | ⟨-, -, h⟩⟩ <;> omega
  have hend : 54 = c.headerEnd := (if_pos htcp).symm
  have hdet : protoDetector q 0 c.flow.inPort c.flow.outPort = c.detected := by
    rw [external_detected hext 0, PacketCall.detected, if_pos htcp]
  have hhanded : c.handed setting = handedTo setting q c.flow := by
    rw [PacketCall.handed, if_pos htcp, handedTo, handedTo, external_detected hext 0]
  rw [hhanded]
  cases hm : handedTo setting q c.flow with
  | none =>
    rw [tcpPart_remove htls hhttp hports hm, hdet]
    cases hd : c.detected with
    | none => simp
    | some d =>
      simp only [Option.bind_some]
      exact ⟨fun _ _ ↦ removePart_removed hend hlen hsame, fun _ _ ↦ ⟨by simp, by simp⟩⟩
  | some m =>
    rw [tcpPart_handed _ hm]
    have hdne : c.detected ≠ none := by
      rw [← hdet]
      intro h
      rw [handedTo, h] at hm
      exact absurd hm (by simp)
    constructor
    · intro _ h
      obtain ⟨hoff, hzero, hhandles⟩ := h m rfl
      -- the payload starts behind the frame, since its first byte is not zero
      have hbehind : q.pktLen ≤ payloadOffset 0 (q.byte 46) := by
        have hne := byte_ne_zero_of_handedTo hm
        rw [hsame.byte _ (hfar _ (payloadOffset_ge ..)), hsame.byte 46 (hfar 46 (by decide))] at hne
        rw [hsame.pktLen, hsame.byte 46 (hfar 46 (by decide))]
        by_contra hlt
        have h54 : 54 ≤ payloadOffset 0 (c.packet.byte 46) := by
          have := c.dataOff.toNat_lt
          rw [PacketCall.dataOff] at this hoff
          rw [payloadOffset, if_neg (by omega), if_pos rfl]
          omega
        exact hne (hzero _ h54 (by omega))
      obtain ⟨o, ho⟩ := namePart_returns_iff.2 hhandles
      have hkept := namePart_sameBefore ho
      refine ⟨o, ho, hkept.pktLen.trans hsame.pktLen, fun j h₁ h₂ ↦ ?_, fun j h₁ h₂ ↦ ?_⟩
      · rw [hkept.byte j (by rw [hsame.pktLen] at hbehind; omega), hsame.byte j (hfar j (by omega))]
        exact hzero j (by omega) h₂
      · rw [hkept.byte j (by rw [hsame.pktLen] at hbehind; omega), hsame.byte j h₂]
    · rintro - ⟨o, ho, hrem⟩
      refine ⟨hdne, fun m' hm' ↦ ?_⟩
      obtain rfl := Option.some.inj hm'
      refine ⟨fun j h₁ h₂ ↦ ?_, namePart_returns_iff.1 ⟨o, ho⟩⟩
      have hscr : Scrambled q o.packet := namePart_scrambled ho
      rw [← hsame.byte j (hfar j (by omega))]
      exact hscr.eq_zero (hrem.payload j (by omega) h₂)

/-- **UDP payloads.** -/
theorem udp_removed_iff (hdns : setting.dns ≠ 0) (hudp : c.IsUdp) (hlen : 42 ≤ c.packet.pktLen)
    (hmay : ¬c.MayPass) (hext : c.external setting engine = some (q, engine')) :
    (∃ o, udpPart setting c.flow c.env blockEncrypt q engine' = some o ∧
        c.Removed setting o.packet) ↔
      c.detected ≠ none := by
  have htcp : ¬c.IsTcp := fun h ↦ absurd (Eq.symm h |>.trans hudp) (by decide)
  have hend : 42 = c.headerEnd := by rw [PacketCall.headerEnd, if_neg htcp, if_pos hudp]
  have hdet : c.detected = protoDetector c.packet 1 c.flow.inPort c.flow.outPort := by
    rw [PacketCall.detected, if_neg htcp]
  rw [udpPart, if_pos hdns, external_detected hext 1, ← hdet]
  cases hd : c.detected with
  | none => simp
  | some d =>
    have hd53 : d ≠ 53 := by
      rintro rfl
      exact hmay (.inr (.inl ⟨hudp, (protoDetector_inv (hdet ▸ hd)).1 rfl⟩))
    simp only [Option.bind_eq_bind, Option.bind_some, hd53, if_false]
    exact iff_of_true (removePart_removed hend hlen (externalPart_sameOutside hext)) (by simp)

/-- **Unknown payloads are removed** from the packets that are `Removable`, and, for a TCP header
that is at least as long as its fixed part, from no others. -/
theorem payload_removed_iff (hdns : setting.dns ≠ 0) (htls : setting.tls ≠ 0)
    (hhttp : setting.http ≠ 0) (hlen : c.headerEnd ≤ c.packet.pktLen) (hmay : ¬c.MayPass) :
    (c.Removable setting engine →
      ∃ o, c.run blockEncrypt setting engine = some o ∧ c.Removed setting o.packet) ∧
    ((c.IsTcp → 5 ≤ c.dataOff.toNat / 16) →
      (∃ o, c.run blockEncrypt setting engine = some o ∧ c.Removed setting o.packet) →
      c.Removable setting engine) := by
  by_cases htcp : c.IsTcp
  · have hrun : c.run blockEncrypt setting engine = _ := run_of_tcp htcp engine
    have hcall : externalPart setting c.flow c.env true c.ipOrigin c.packet engine =
        c.external setting engine := by rw [PacketCall.external, decide_eq_true htcp]
    have hlen54 : 54 ≤ c.packet.pktLen := by rwa [PacketCall.headerEnd, if_pos htcp] at hlen
    have hports : c.flow.RemovesUnknown := by
      by_contra h
      exact hmay (.inl ⟨.inl htcp, h⟩)
    rw [hrun, hcall]
    constructor
    · intro h
      obtain ⟨q, engine', hext, hd, hm⟩ := h (.inl htcp)
      rw [hext]
      exact (tcp_removed_iff htls hhttp htcp hlen54 hports hext).1 hd hm
    · rintro hoff ⟨o, ho, hrem⟩ -
      obtain ⟨⟨q, engine'⟩, hext, ho⟩ := Option.bind_eq_some_iff.1 ho
      obtain ⟨hd, hm⟩ := (tcp_removed_iff htls hhttp htcp hlen54 hports hext).2 (hoff htcp)
        ⟨o, ho, hrem⟩
      exact ⟨q, engine', hext, hd, fun m h ↦ ⟨hoff htcp, hm m h⟩⟩
  by_cases hudp : c.IsUdp
  · have hrun : c.run blockEncrypt setting engine = _ := run_of_udp hudp engine
    have hcall : externalPart setting c.flow c.env false c.ipOrigin c.packet engine =
        c.external setting engine := by rw [PacketCall.external, decide_eq_false htcp]
    have hlen42 : 42 ≤ c.packet.pktLen := by
      rwa [PacketCall.headerEnd, if_neg htcp, if_pos hudp] at hlen
    rw [hrun, hcall]
    constructor
    · intro h
      obtain ⟨q, engine', hext, hd, -⟩ := h (.inr hudp)
      rw [hext]
      exact (udp_removed_iff hdns hudp hlen42 hmay hext).2 hd
    · rintro - ⟨o, ho, hrem⟩ -
      obtain ⟨⟨q, engine'⟩, hext, ho⟩ := Option.bind_eq_some_iff.1 ho
      exact ⟨q, engine', hext, (udp_removed_iff hdns hudp hlen42 hmay hext).1 ⟨o, ho, hrem⟩,
        fun m h ↦ absurd h (by simp [PacketCall.handed, htcp])⟩
  · rw [run_of_other htcp hudp]
    have hend : 34 = c.headerEnd := by rw [PacketCall.headerEnd, if_neg htcp, if_neg hudp]
    exact ⟨fun _ ↦ removePart_removed hend (hend ▸ hlen) (.refl ..),
      fun _ _ h ↦ absurd h (by tauto)⟩

/-- A frame with a few bytes of text. -/
def textFrame (payload : List UInt8) :
    Packet := tcpFrame [10, 0, 0, 1] [10, 0, 0, 2] 40000 80 payload

/-- The text `abc` is removed. -/
theorem payload_removed_text :
    ((PacketCall.plain (textFrame [97, 98, 99]) 0).Removable (.plain 2) (Engine.init .zero) →
      ∃ o, (PacketCall.plain (textFrame [97, 98, 99]) 0).run id (.plain 2) (Engine.init .zero) =
        some o ∧
        (PacketCall.plain (textFrame [97, 98, 99]) 0).Removed (.plain 2) o.packet) ∧
    (((PacketCall.plain (textFrame [97, 98, 99]) 0).IsTcp →
        5 ≤ (PacketCall.plain (textFrame [97, 98, 99]) 0).dataOff.toNat / 16) →
      (∃ o, (PacketCall.plain (textFrame [97, 98, 99]) 0).run id (.plain 2) (Engine.init .zero) =
        some o ∧
        (PacketCall.plain (textFrame [97, 98, 99]) 0).Removed (.plain 2) o.packet) →
      (PacketCall.plain (textFrame [97, 98, 99]) 0).Removable (.plain 2) (Engine.init .zero)) := by
  refine payload_removed_iff (by decide) (by decide) (by decide) (by decide +kernel) ?_
  rintro (⟨-, h⟩ | ⟨h, -⟩ | ⟨-, ⟨h, -⟩ | ⟨h, -⟩ | ⟨h, -⟩⟩)
  · exact h (by decide +kernel)
  · exact absurd h (by decide +kernel)
  · exact absurd h (by decide +kernel)
  · exact absurd (reads_cons.1 h).1 (by decide +kernel)
  · exact absurd (reads_cons.1 h).1 (by decide +kernel)

/-- The text `xget` is taken for HTTP, and passes. -/
theorem payload_removed_fails : ¬∀ (blockEncrypt : Block → Block) (setting : OutInterfaceSett)
    (c : PacketCall) (engine : Engine), setting.dns ≠ 0 → setting.tls ≠ 0 → setting.http ≠ 0 →
    c.headerEnd ≤ c.packet.pktLen → ¬c.MayPass →
    ∃ o, c.run blockEncrypt setting engine = some o ∧ c.Removed setting o.packet := by
  intro hall
  obtain ⟨o, ho, hrem⟩ := hall id (.plain 2) (.plain (textFrame [120, 103, 101, 116]) 0)
    (Engine.init .zero) (by decide) (by decide) (by decide) (by decide +kernel) (by
      rintro (⟨-, h⟩ | ⟨h, -⟩ | ⟨-, ⟨h, -⟩ | ⟨h, -⟩ | ⟨h, -⟩⟩)
      · exact h (by decide +kernel)
      · exact absurd h (by decide +kernel)
      · exact absurd h (by decide +kernel)
      · exact absurd (reads_cons.1 h).1 (by decide +kernel)
      · exact absurd (reads_cons.1 h).1 (by decide +kernel))
  have hbyte : ((PacketCall.plain (textFrame [120, 103, 101, 116]) 0).run id (.plain 2)
      (Engine.init .zero)).map (·.packet.byte 54) = some 120 := by
    decide +kernel
  rw [ho, Option.map_some, hrem.payload 54 (by decide +kernel) (by decide +kernel)] at hbyte
  exact absurd hbyte (by decide)

end AlphaMon
