import AlphaMon.Exemption
import AlphaMon.FlowConsistency
import AlphaMon.HeaderFrame
import AlphaMon.UnknownPayload

/-!
# The external address of a flow

With `external_ip` on, the first packet of a flow decides whether the address of the external
endpoint is replaced, and all packets of the flow should then show the same address, the one
generated for the first packet or the true one.

Of a TCP flow the second packet finds `toAnon = 1` and the generated address in the record, and if
its external endpoint is the destination, it gets that address.  But `external_ip` returns `0` then,
since it generated nothing, and the engine stores that in `toAnon`: the third packet shows the true
address.  A packet from the external endpoint shows it even as the second.  Of a UDP flow nothing is
ever stored, and every packet is counted and given an address as if it were the first.
`external_address_stable` says that this is all that goes wrong.
-/

set_option autoImplicit false

namespace AlphaMon

variable {blockEncrypt : Block → Block} {setting : OutInterfaceSett} {φ : Flow} {q : Packet}
  {engine engine' : Engine} {N : NameTab} {T : FlowTab} {o : Outcome} {c : PacketCall} {y : FlowRec}

/-- The four octets of an address, or fewer, fit into a record of the table of names. -/
theorem addressName_length_lt (p : Packet) (i : ℕ) : (addressName p i).length < nameDns :=
  ((List.takeWhile_sublist _).length_le).trans_lt (by simp [nameDns])

namespace PacketCall

/-- Where the external address stands. -/
def externalAt (c : PacketCall) : ℕ := if c.ipOrigin = 10 then 26 else 30

/-- An IPv4 frame of which one endpoint is external. -/
structure HasExternal (c : PacketCall) : Prop where
  origin : c.ipOrigin = 1 ∨ c.ipOrigin = 10
  ipv4 : c.packet.ntohs 12 = 0x0800
  header : 34 ≤ c.packet.pktLen

/-- What `table_add` returns for the external address of a packet. -/
def externalCount (setting : OutInterfaceSett) (engine : Engine) (c : PacketCall) : ℤ :=
  engine.flowDb.count c.flow (addressName c.packet c.externalAt) setting.alpha setting.delta
    c.env.ext.table.tsc

/-- The address generated for a packet because its external address has few users, if it is. -/
def pseudonym (setting : OutInterfaceSett) (engine : Engine) (c : PacketCall) :
    Option (BitVec 32) := do
  let (_, _, flusso) ← lookUp c.flow engine.flowStruct c.env.extFlow
  if flusso.toAnon = -1 ∧ c.externalCount setting engine < setting.alpha then
    some (addressV4Gen c.env.ext.tsc)
  else none

end PacketCall

/-! ## The part about the external address -/

/-- What the part about the external address makes of a packet whose flow has the record `y`: the
record and the packet afterwards. -/
inductive ExternalDecides (setting : OutInterfaceSett) (c : PacketCall) (engine : Engine)
    (y : FlowRec) :
    FlowRec → Packet → Prop
  /-- The flow is exempt. -/
  | exempt (h : ¬(y.toAnon = -1 ∨ y.toAnon = 1)) : ExternalDecides setting c engine y y c.packet
  /-- Not decided on yet, and few users. -/
  | generated (h : y.toAnon = -1) (hlt : c.externalCount setting engine < setting.alpha) :
      ExternalDecides setting c engine y
        { y with ipv4Anon := addressV4Gen c.env.ext.tsc, toAnon := if c.IsTcp then 1 else -1 }
        (c.packet.setWord c.externalAt (addressV4Gen c.env.ext.tsc))
  /-- Not decided on yet, and enough users. -/
  | popular (h : y.toAnon = -1) (hle : setting.alpha ≤ c.externalCount setting engine) :
      ExternalDecides setting c engine y { y with toAnon := if c.IsTcp then 0 else -1 } c.packet
  /-- To anonymise, and the destination is external. -/
  | destination (h : y.toAnon = 1) (h1 : c.ipOrigin = 1) :
      ExternalDecides setting c engine y { y with toAnon := if c.IsTcp then 0 else 1 }
        (c.packet.setWord 30 y.ipv4Anon)
  /-- To anonymise, and the source is external. -/
  | source (h : y.toAnon = 1) (h10 : c.ipOrigin = 10) :
      ExternalDecides setting c engine y { y with toAnon := if c.IsTcp then 0 else 1 } c.packet

/-- **`external_ip`** and the store after it. -/
theorem externalIp_decides (hN : engine.flowDb.View N) (hd : 0 ≤ setting.delta)
    (hmem : c.env.MemoryOk) (hc : c.HasExternal) (hy : y.toAnon = -1 ∨ y.toAnon = 1) :
    ∃ r N', externalIp c.packet c.ipOrigin y engine.flowDb c.flow setting.alpha setting.delta
      c.env.ext =
        some r ∧ r.db.View N' ∧ ExternalDecides setting c engine y
          { y with ipv4Anon := r.ipv4Anon, toAnon := if c.IsTcp then toAnonOf r.flag else y.toAnon }
          r.packet := by
  -- a packet that is counted
  have hcounted : y.toAnon = -1 → ∃ r N', countAddress c.packet c.externalAt y engine.flowDb c.flow
      setting.alpha setting.delta c.env.ext = some r ∧ r.db.View N' ∧
        ExternalDecides setting c engine y
          { y with ipv4Anon := r.ipv4Anon, toAnon := if c.IsTcp then toAnonOf r.flag else y.toAnon }
          r.packet := by
    intro h
    obtain ⟨names', N', hadd, hN'⟩ := tableAdd_total hN c.flow setting.alpha hd
      (addressName_length_lt c.packet c.externalAt) hmem.ext.1 hmem.ext.2
    rw [← PacketCall.externalCount] at hadd
    by_cases hlt : c.externalCount setting engine < setting.alpha
    · refine ⟨⟨c.packet.setWord c.externalAt (addressV4Gen c.env.ext.tsc), 1, names',
        addressV4Gen c.env.ext.tsc⟩, N', by simp [countAddress, hadd, hlt], hN', ?_⟩
      simpa [toAnonOf, h] using ExternalDecides.generated h hlt
    · refine ⟨⟨c.packet, 0, names', y.ipv4Anon⟩, N', by simp [countAddress, hadd, hlt], hN', ?_⟩
      simpa [toAnonOf, h] using ExternalDecides.popular h (not_lt.1 hlt)
  rcases hc.origin with h1 | h10
  · have hne : c.ipOrigin ≠ 10 := by omega
    have hat : c.externalAt = 30 := if_neg hne
    rcases hy with h | h
    · obtain ⟨r, N', hr, hrest⟩ := hcounted h
      exact ⟨r, N', by simpa [externalIp, hc.ipv4, h1, h, hat] using hr, hrest⟩
    · refine ⟨⟨c.packet.setWord 30 y.ipv4Anon, 0, engine.flowDb, y.ipv4Anon⟩, N,
        by simp [externalIp, hc.ipv4, h1, h], hN, ?_⟩
      simpa [toAnonOf, h] using ExternalDecides.destination h h1
  · have hat : c.externalAt = 26 := if_pos h10
    rcases hy with h | h
    · obtain ⟨r, N', hr, hrest⟩ := hcounted h
      exact ⟨r, N', by simpa [externalIp, hc.ipv4, h10, h, hat] using hr, hrest⟩
    · refine ⟨⟨c.packet, 0, engine.flowDb, y.ipv4Anon⟩,
        N, by simp [externalIp, hc.ipv4, h10, h], hN, ?_⟩
      simpa [toAnonOf, h] using ExternalDecides.source h h10

/-- What the part about the external address goes through: the record of the flow is looked up, and
unless that is exempt `external_ip` is called and its result stored. -/
theorem external_eq (hext : setting.anonExtIp = 1) (hc : c.HasExternal) (engine : Engine) :
    c.external setting engine = (lookUp c.flow engine.flowStruct c.env.extFlow).bind fun l ↦
      if l.2.2.toAnon = -1 ∨ l.2.2.toAnon = 1 then
        (externalIp c.packet c.ipOrigin l.2.2 engine.flowDb c.flow setting.alpha setting.delta
          c.env.ext).bind fun r ↦ (storeRecord c.flow l.1 l.2.1 fun x ↦
            { x with
              ipv4Anon := r.ipv4Anon
              toAnon := if c.IsTcp then toAnonOf r.flag else x.toAnon }).map
          fun fs ↦ (r.packet, { engine with flowDb := r.db, flowStruct := fs })
      else some (c.packet, { engine with flowStruct := l.1 }) := by
  rw [PacketCall.external, externalPart, if_pos ⟨hext, hc.origin⟩]
  simp only [decide_eq_true_eq, Option.bind_eq_bind, Option.map_eq_bind]
  rfl

/-- **The part about the external address** and the record of the flow `φ`. -/
theorem external_tracked (hst : engine.Stands N T) (hT : T.Single φ) (h4 : φ.ipv = 4)
    (hmem : c.env.MemoryOk) (hd : 0 ≤ setting.delta) (hext : setting.anonExtIp = 1)
    (hc : c.HasExternal) (hs : c.flow.key = φ.key →
      (lookUpCall c.flow c.env.extFlow).Safe engine.flowStruct)
    (h : c.external setting engine = some (q, engine')) :
    ∃ N' T', engine'.Stands N' T' ∧ T'.Single φ ∧
      (c.flow.key ≠ φ.key → ∀ p ∈ T φ.bucket, p.2.key = φ.key →
        ¬(φ.bucket = c.flow.bucket ∧ c.env.extFlow.collects = true ∧ p.2.Expired c.flow.timestamp) →
        p ∈ T' φ.bucket) ∧
      (c.flow.key = φ.key → ∃ a y y', (∀ b x, (b, x) ∈ T φ.bucket → x.key = φ.key →
          y = x.touch c.flow.timestamp) ∧
        ((∃ b x, (b, x) ∈ T φ.bucket ∧ x.key = φ.key ∧ y = x.touch c.flow.timestamp) ∨
          y.toAnon = -1) ∧
        y.timestamp = c.tvSec ∧
        c.pseudonym setting engine =
          (if y.toAnon = -1 ∧ c.externalCount setting engine < setting.alpha then
          some (addressV4Gen c.env.ext.tsc) else none) ∧
        ExternalDecides setting c engine y y' q ∧ (a, y') ∈ T' φ.bucket ∧ y'.key = φ.key) := by
  rw [external_eq hext hc] at h
  obtain ⟨⟨fs, a, y⟩, hlook, h⟩ := Option.bind_eq_some_iff.1 h
  obtain ⟨T', hfs, hT', hl, hother, hown⟩ :=
    lookUp_tracked hst.flows hT c.flow_ipv h4 hmem.extFlow hs hlook
  have hpseudo : c.pseudonym setting engine = if y.toAnon = -1 ∧ c.externalCount setting engine <
      setting.alpha then some (addressV4Gen c.env.ext.tsc) else none := by
    rw [PacketCall.pseudonym, hlook]
    rfl
  have hret : c.flow.key = φ.key → (∃ b x, (b, x) ∈ T φ.bucket ∧ x.key = φ.key ∧
      y = x.touch c.flow.timestamp) ∨ y.toAnon = -1 := by
    intro hkey
    rw [← Flow.bucket_eq c.flow_ipv h4 hkey, ← hkey]
    exact hl.ret
  simp only at h
  split at h
  · next hy =>
    obtain ⟨r, N', hr, hN', hdec⟩ := externalIp_decides hst.names hd hmem hc hy
    rw [hr, Option.bind_some] at h
    obtain ⟨fs', hstore, h⟩ := Option.map_eq_some_iff.1 h
    obtain ⟨rfl, rfl⟩ : r.packet = q ∧ _ = engine' := by simpa using h
    obtain ⟨fs₁, hstore', hfs'⟩ := storeRecord_spec hfs hl.mem fun x ↦
      { x with ipv4Anon := r.ipv4Anon, toAnon := if c.IsTcp then toAnonOf r.flag else x.toAnon }
    obtain rfl : fs₁ = fs' := by simpa using hstore'.symm.trans hstore
    refine ⟨N', _, ⟨hN', hfs'⟩, hT'.store _ _ fun _ ↦ rfl, fun hkey p hp hpk hexp ↦ ?_,
      fun hkey ↦ ?_⟩
    · exact hfs.mem_store hl.mem _ (hother hkey p hp hpk hexp) fun he ↦
        hkey (by rw [← hl.key, ← he, hpk])
    · refine ⟨a, y, _, hown hkey, hret hkey, hl.time, hpseudo, hdec, ?_, hl.key.trans hkey⟩
      rw [← Flow.bucket_eq c.flow_ipv h4 hkey]
      exact FlowTab.mem_store_self hl.mem _
  · next hy =>
    obtain ⟨rfl, rfl⟩ : c.packet = q ∧ _ = engine' := by simpa using h
    refine ⟨N, T', ⟨hst.names, hfs⟩, hT', hother, fun hkey ↦
      ⟨a, y, y, hown hkey, hret hkey, hl.time, hpseudo,
      .exempt hy, ?_, hl.key.trans hkey⟩⟩
    rw [← Flow.bucket_eq c.flow_ipv h4 hkey]
    exact hl.mem

/-- **The part about the external address returns** if its look-up does not fall off the chain. -/
theorem external_total (hst : engine.Stands N T) (hmem : c.env.MemoryOk) (hd : 0 ≤ setting.delta)
    (hext : setting.anonExtIp = 1) (hc : c.HasExternal)
    (hs : ¬(lookUpCall c.flow c.env.extFlow).FallsOff engine.flowStruct) :
    ∃ q engine', c.external setting engine = some (q, engine') := by
  have hok : (lookUpCall c.flow c.env.extFlow).AllocOk := hmem.extFlow
  rcases lookUp_spec hst.flows hok with ⟨hf, -⟩ | ⟨-, fs, a, y, T', hlook, hfs, hl, -⟩
  · exact absurd hf hs
  rw [external_eq hext hc, hlook, Option.bind_some]
  simp only
  split
  · next hy =>
    obtain ⟨r, N', hr, -⟩ := externalIp_decides hst.names hd hmem hc hy
    obtain ⟨fs', hstore, -⟩ := storeRecord_spec hfs hl.mem fun x ↦
      { x with ipv4Anon := r.ipv4Anon, toAnon := if c.IsTcp then toAnonOf r.flag else x.toAnon }
    rw [hr, Option.bind_some, hstore]
    exact ⟨_, _, rfl⟩
  · exact ⟨_, _, rfl⟩

/-! ## The rest of the packet -/

/-- A TCP or UDP packet: first the part about the external address, then the rest. -/
theorem run_of_external (h : c.IsTcp ∨ c.IsUdp) (engine : Engine) :
    c.run blockEncrypt setting engine = (c.external setting engine).bind fun x ↦
      if c.IsTcp then tcpPart setting c.flow c.env x.1 x.2
      else udpPart setting c.flow c.env blockEncrypt x.1 x.2 := by
  by_cases htcp : c.IsTcp
  · rw [run_of_tcp htcp, PacketCall.external, decide_eq_true htcp]
    simp only [if_pos htcp]
  · rw [run_of_udp (h.resolve_left htcp), PacketCall.external, decide_eq_false htcp]
    simp only [if_neg htcp]

/-- What the rest of a packet may do to the record of its flow. -/
structure RestOf (c : PacketCall) (x x' : FlowRec) : Prop where
  key : x'.key = x.key
  anon : x'.ipv4Anon = x.ipv4Anon
  time : x'.timestamp = x.timestamp ∨ x'.timestamp = c.tvSec
  exempt : ¬(x.toAnon = -1 ∨ x.toAnon = 1) → x'.toAnon = x.toAnon
  decided : x.toAnon ≠ -1 → x'.toAnon ≠ -1

/-- **The rest of a packet** and the record of the flow `φ`. -/
theorem rest_tracked (hst : engine.Stands N T) (hT : T.Single φ) (h4 : φ.ipv = 4)
    (hmem : c.env.MemoryOk) (hd : 0 ≤ setting.delta)
    (hs : c.flow.key = φ.key → ∀ m, handedTo setting q c.flow = some m →
      (lookUpCall c.flow c.env.nameFlow).Safe engine.flowStruct)
    (h : (if c.IsTcp then tcpPart setting c.flow c.env q engine
      else udpPart setting c.flow c.env blockEncrypt q engine) = some o) :
    q.SameBefore 34 o.packet ∧ ∃ N' T', o.engine.Stands N' T' ∧ T'.Single φ ∧
      (c.flow.key ≠ φ.key → ∀ p ∈ T φ.bucket, p.2.key = φ.key →
        ¬p.2.Expired c.flow.timestamp → p ∈ T' φ.bucket) ∧
      (c.flow.key = φ.key → ∀ b x, (b, x) ∈ T φ.bucket → x.key = φ.key →
        ∃ b' x', (b', x') ∈ T' φ.bucket ∧ RestOf c x x') := by
  have hsame : ∀ x, RestOf c x x := fun x ↦ ⟨rfl, rfl, .inl rfl, fun _ ↦ rfl, id⟩
  by_cases htcp : c.IsTcp
  · rw [if_pos htcp] at h
    refine ⟨tcpPart_sameBefore h, ?_⟩
    cases hm : handedTo setting q c.flow with
    | none =>
      obtain ⟨he, -⟩ := tcpPart_not_handed hm h
      rw [he]
      exact ⟨N, T, hst, hT, fun _ p hp _ _ ↦ hp, fun _ b x hx _ ↦ ⟨b, x, hx, hsame x⟩⟩
    | some m =>
      rw [tcpPart_handed _ hm] at h
      obtain ⟨N', T', hst', hT', hother, hown⟩ :=
        namePart_tracked hst hT c.flow_ipv h4 hmem hd (fun hkey ↦ hs hkey m hm) h
      refine ⟨N', T', hst', hT', fun hkey p hp hpk hexp ↦ hother hkey p hp hpk fun he ↦ hexp he.2.2,
        fun hkey b x hx hxk ↦ ?_⟩
      obtain ⟨a, y, y', hfound, hdec, hy', hyk⟩ := hown hkey
      obtain rfl := hfound b x hx hxk
      refine ⟨a, y', hy', ?_⟩
      generalize o.packet = r, o.handled = handled at hdec
      cases hdec with
      | exempt => exact ⟨rfl, rfl, .inr rfl, fun _ ↦ rfl, id⟩
      | called hyes =>
        refine ⟨rfl, rfl, .inr rfl, fun hno ↦ absurd hyes hno, fun _ ↦ ?_⟩
        simp only [toAnonOf]
        split <;> decide
  · rw [if_neg htcp] at h
    obtain ⟨hbefore, hfs, hnames⟩ := udpPart_frame h
    have hflows : o.engine.flowStruct.View T := hfs ▸ hst.flows
    have hN' : ∃ N', o.engine.flowDb.View N' := by
      rcases hnames with hdb | ⟨name, ret, hadd⟩
      · exact ⟨N, hdb ▸ hst.names⟩
      · exact (tableAdd_count hst.names hd hmem.handler.1 hmem.handler.2 hadd).2
    obtain ⟨N', hN'⟩ := hN'
    exact ⟨hbefore, N', T, ⟨hN', hflows⟩, hT, fun _ p hp _ _ ↦ hp,
      fun _ b x hx _ ↦ ⟨b, x, hx, hsame x⟩⟩

/-! ## TCP flows -/

namespace PacketCall

/-- The look-ups for a packet of the flow `φ` do not go wrong: they do not fall off the chain, and
for a TCP flow they do not step over the record. -/
structure LooksUpSafely (setting : OutInterfaceSett) (φ : Flow) (engine : Engine) (c : PacketCall) :
    Prop where
  external : c.flow.key = φ.key → ¬(lookUpCall c.flow c.env.extFlow).FallsOff engine.flowStruct ∧
    (c.IsTcp → ¬(lookUpCall c.flow c.env.extFlow).StepsOver engine.flowStruct)
  name : c.flow.key = φ.key → ∀ q engine' m, c.external setting engine = some (q, engine') →
    c.handed setting = some m → (lookUpCall c.flow c.env.nameFlow).Safe engine'.flowStruct

end PacketCall

/-- What the record of a flow remembers of the decision about its external address. -/
def Remembers (first : Option (BitVec 32)) (x : FlowRec) : Prop :=
  match first with
  | some w => x.ipv4Anon = w ∧ x.toAnon ≠ -1
  | none => ¬(x.toAnon = -1 ∨ x.toAnon = 1)

/-- The rest of a packet does not change what is remembered. -/
theorem RestOf.remembers {x x' : FlowRec} (h : RestOf c x x') {first : Option (BitVec 32)}
    (hx : Remembers first x) : Remembers first x' := by
  cases first with
  | none =>
    have hx : ¬(x.toAnon = -1 ∨ x.toAnon = 1) := hx
    rwa [Remembers, h.exempt hx]
  | some w => exact ⟨h.anon.trans hx.1, h.decided hx.2⟩

/-- Nor does a later packet of a TCP flow. -/
theorem ExternalDecides.remembers {y' : FlowRec} (h : ExternalDecides setting c engine y y' q)
    (htcp : c.IsTcp) {first : Option (BitVec 32)} (hy : Remembers first y) :
    Remembers first y' := by
  have hdecided : y.toAnon ≠ -1 := by
    cases first with
    | none => exact fun h ↦ hy (.inl h)
    | some w => exact hy.2
  cases h with
  | exempt => exact hy
  | generated h => exact absurd h hdecided
  | popular h => exact absurd h hdecided
  | destination h | source h =>
    cases first with
    | none => exact absurd (.inr h) hy
    | some w => exact ⟨hy.1, by simp [htcp]⟩

/-- The first packet of a TCP flow makes its record remember. -/
theorem ExternalDecides.first {y' : FlowRec} (h : ExternalDecides setting c engine y y' q)
    (htcp : c.IsTcp) :
    Remembers (if y.toAnon = -1 ∧ c.externalCount setting engine < setting.alpha then
      some (addressV4Gen c.env.ext.tsc) else none) y' := by
  cases h with
  | exempt h => rwa [if_neg fun he ↦ h (.inl he.1)]
  | generated h hlt =>
    rw [if_pos ⟨h, hlt⟩]
    exact ⟨rfl, by simp [htcp]⟩
  | popular h hle =>
    rw [if_neg fun he ↦ not_lt.2 hle he.2]
    simp [Remembers, htcp]
  | destination h | source h =>
    rw [if_neg fun he ↦ absurd (he.1.symm.trans h) (by decide)]
    simp [Remembers, htcp]

theorem ExternalDecides.time {y' : FlowRec} (h : ExternalDecides setting c engine y y' q) :
    y'.timestamp = y.timestamp := by
  cases h <;> rfl

/-- The flow has one record, which remembers the decision, and is not older than the packets
seen. -/
def Engine.Remembers (engine : Engine) (φ : Flow) (first : Option (BitVec 32))
    (seen : List PacketCall) :
    Prop :=
  engine.Tracks φ fun x ↦ AlphaMon.Remembers first x ∧
    ∀ f ∈ seen, f.flow.SameFlow φ → f.tvSec ≤ x.timestamp

/-- The module a packet is handed to is the same after the part about the external address. -/
theorem handedTo_external (h : c.external setting engine = some (q, engine')) (flow : Flow) :
    handedTo setting q flow = handedTo setting c.packet flow := by
  have hcongr := protoDetector_congr (externalPart_sameOutside h)
    (fun j hj hP ↦ by rcases hP.2 with h | h <;> omega) 0 flow.inPort flow.outPort
  rw [handedTo, handedTo, hcongr]

/-- A TCP or UDP packet of which one endpoint is external, and memory suffices. -/
structure PacketCall.Ok (c : PacketCall) : Prop where
  transport : c.IsTcp ∨ c.IsUdp
  external : c.HasExternal
  memory : c.env.MemoryOk

/-- A packet with the key of a TCP flow is TCP. -/
theorem isTcp_of_key (htu : c.IsTcp ∨ c.IsUdp) (hφ : φ.protocol ≠ protoUdp)
    (hkey : c.flow.key = φ.key) :
    c.IsTcp :=
  htu.resolve_right fun hudp ↦ hφ ((congrArg (fun k : FlowKey ↦ k.2.2) hkey).symm.trans hudp)

/-- **One packet** and the record of a flow `φ` that is not UDP. -/
theorem tracked_step (hok : c.Ok) (hd : 0 ≤ setting.delta) (hext : setting.anonExtIp = 1)
    (h4 : φ.ipv = 4) (hφ : φ.protocol ≠ protoUdp) (hsafe : c.LooksUpSafely setting φ engine)
    (hst : engine.Stands N T) (hT : T.Single φ) (h : c.run blockEncrypt setting engine = some o) :
    ∃ N' T', o.engine.Stands N' T' ∧ T'.Single φ ∧
      (c.flow.key ≠ φ.key → ∀ p ∈ T φ.bucket, p.2.key = φ.key → ¬p.2.Expired c.tvSec →
        p ∈ T' φ.bucket) ∧
      (c.flow.key = φ.key → ∃ a q y y' x,
        (∀ b x, (b, x) ∈ T φ.bucket → x.key = φ.key → y = x.touch c.tvSec) ∧
        y.timestamp = c.tvSec ∧
        c.pseudonym setting engine =
          (if y.toAnon = -1 ∧ c.externalCount setting engine < setting.alpha then
          some (addressV4Gen c.env.ext.tsc) else none) ∧
        ExternalDecides setting c engine y y' q ∧ RestOf c y' x ∧ (a, x) ∈ T' φ.bucket ∧
          x.key = φ.key) := by
  rw [run_of_external hok.transport] at h
  obtain ⟨⟨q, engine₁⟩, hq, h⟩ := Option.bind_eq_some_iff.1 h
  have hsafe₁ : c.flow.key = φ.key → (lookUpCall c.flow c.env.extFlow).Safe engine.flowStruct :=
    fun hkey ↦
    ⟨(hsafe.external hkey).1, (hsafe.external hkey).2 (isTcp_of_key hok.transport hφ hkey)⟩
  obtain ⟨N₁, T₁, hst₁, hT₁, hother₁, hown₁⟩ :=
    external_tracked hst hT h4 hok.memory hd hext hok.external hsafe₁ hq
  have hsafe₂ : c.flow.key = φ.key → ∀ m, handedTo setting q c.flow = some m →
      (lookUpCall c.flow c.env.nameFlow).Safe engine₁.flowStruct := by
    intro hkey m hm
    refine hsafe.name hkey q engine₁ m hq ?_
    rw [PacketCall.handed, if_pos (isTcp_of_key hok.transport hφ hkey), ← handedTo_external hq, hm]
  obtain ⟨-, N', T', hst', hT', hother, hown⟩ := rest_tracked hst₁ hT₁ h4 hok.memory hd hsafe₂ h
  refine ⟨N', T', hst', hT', fun hkey p hp hpk hexp ↦ ?_, fun hkey ↦ ?_⟩
  · exact hother hkey p (hother₁ hkey p hp hpk fun he ↦ hexp he.2.2) hpk hexp
  · obtain ⟨a, y, y', hfound, -, htime, hpseudo, hdec, hy', hyk⟩ := hown₁ hkey
    obtain ⟨b, x, hx, hrest⟩ := hown hkey a y' hy' hyk
    exact ⟨b, q, y, y', x, hfound, htime, hpseudo, hdec, hrest, hx, hrest.key.trans hyk⟩

/-- The first packet of a TCP flow. -/
theorem remembers_first (hok : c.Ok) (hd : 0 ≤ setting.delta) (hext : setting.anonExtIp = 1)
    (h4 : φ.ipv = 4) (hφ : φ.protocol ≠ protoUdp) (hsafe : c.LooksUpSafely setting φ engine)
    (hsingle : engine.Single φ) (hkey : c.flow.key = φ.key)
    (h : c.run blockEncrypt setting engine = some o) :
    o.engine.Remembers φ (c.pseudonym setting engine) [c] := by
  obtain ⟨N, T, hst, hT⟩ := hsingle
  obtain ⟨N', T', hst', hT', -, hown⟩ := tracked_step hok hd hext h4 hφ hsafe hst hT h
  obtain ⟨a, q, y, y', x, -, htime, hpseudo, hdec, hrest, hx, hxk⟩ := hown hkey
  have htcp := isTcp_of_key hok.transport hφ hkey
  refine ⟨N', T', hst', hT', a, x, hx, hxk, ?_, fun f hf _ ↦ ?_⟩
  · rw [hpseudo]
    exact hrest.remembers (hdec.first htcp)
  · obtain rfl : f = c := by simpa using hf
    rcases hrest.time with ht | ht
    · rw [ht, hdec.time, htime]
    · rw [ht]

/-- **A later packet** does not change what the record of a TCP flow remembers. -/
theorem remembers_step (hok : c.Ok) (hd : 0 ≤ setting.delta) (hext : setting.anonExtIp = 1)
    (h4 : φ.ipv = 4) (hφ : φ.protocol ≠ protoUdp) (hsafe : c.LooksUpSafely setting φ engine)
    {first : Option (BitVec 32)} {seen : List PacketCall} (hrem : engine.Remembers φ first seen)
    (htimed : ∀ f ∈ seen, f.tvSec ≤ c.tvSec)
    (hgap : ¬c.flow.SameFlow φ → ∃ f ∈ seen, f.flow.SameFlow φ ∧ c.tvSec - f.tvSec ≤ tOut)
    (h : c.run blockEncrypt setting engine = some o) :
    o.engine.Remembers φ first (seen ++ [c]) := by
  obtain ⟨N, T, hst, hT, a, x, hx, hxk, hfirst, hseen⟩ := hrem
  obtain ⟨N', T', hst', hT', hother, hown⟩ := tracked_step hok hd hext h4 hφ hsafe hst hT h
  by_cases hkey : c.flow.key = φ.key
  · obtain ⟨b, q, y, y', x', hfound, htime, -, hdec, hrest, hx', hxk'⟩ := hown hkey
    obtain rfl := hfound a x hx hxk
    have htcp := isTcp_of_key hok.transport hφ hkey
    refine ⟨N', T', hst', hT', b, x', hx', hxk', hrest.remembers (hdec.remembers htcp hfirst),
      fun f hf _ ↦ ?_⟩
    have hle : f.tvSec ≤ c.tvSec := by
      rcases List.mem_append.1 hf with hf | hf
      · exact htimed f hf
      · obtain rfl : f = c := by simpa using hf
        exact le_rfl
    rcases hrest.time with ht | ht
    · rwa [ht, hdec.time]
    · rwa [ht]
  · -- a packet of another flow, before the record can have expired
    have hnot : ¬c.flow.SameFlow φ := fun hs ↦ hkey (Flow.key_eq_iff.2 (.inl hs))
    obtain ⟨f, hf, hfφ, hle⟩ := hgap hnot
    have hlive : ¬x.Expired c.tvSec := by
      have := hseen f hf hfφ
      rw [FlowRec.Expired]
      omega
    refine ⟨N', T', hst', hT', a, x, hother hkey _ hx hxk hlive, hxk, hfirst, fun f hf hfφ ↦ ?_⟩
    rcases List.mem_append.1 hf with hf | hf
    · exact hseen f hf hfφ
    · obtain rfl : f = c := by simpa using hf
      exact absurd hfφ hnot

/-- What the external address field of a packet of a TCP flow shows: the address remembered if the
record says `1` and the destination is external, and otherwise the true address. -/
theorem remembers_shown (hok : c.Ok) (hd : 0 ≤ setting.delta) (hext : setting.anonExtIp = 1)
    (h4 : φ.ipv = 4) (hφ : φ.protocol ≠ protoUdp) (hsafe : c.LooksUpSafely setting φ engine)
    {first : Option (BitVec 32)} {seen : List PacketCall} (hrem : engine.Remembers φ first seen)
    (hkey : c.flow.key = φ.key) (h : c.external setting engine = some (q, engine')) :
    q = match first with
      | some w =>
        if c.ipOrigin = 1 ∧ ∃ x ∈ flowRecords (engine.flowStruct φ.bucket), x.key = φ.key ∧
          x.toAnon = 1 then c.packet.setWord 30 w else c.packet
      | none => c.packet := by
  obtain ⟨N, T, hst, hT, a, x, hx, hxk, hfirst, -⟩ := hrem
  have hsafe₁ : c.flow.key = φ.key → (lookUpCall c.flow c.env.extFlow).Safe engine.flowStruct :=
    fun hkey ↦
    ⟨(hsafe.external hkey).1, (hsafe.external hkey).2 (isTcp_of_key hok.transport hφ hkey)⟩
  obtain ⟨_, _, -, -, -, hown⟩ :=
    external_tracked hst hT h4 hok.memory hd hext hok.external hsafe₁ h
  obtain ⟨_, y, y', hfound, -, -, -, hdec, -⟩ := hown hkey
  clear h
  obtain rfl := hfound a x hx hxk
  have hrecord : (∃ x' ∈ flowRecords (engine.flowStruct φ.bucket), x'.key = φ.key ∧ x'.toAnon = 1) ↔
      x.toAnon = 1 := by
    rw [hst.flows.records]
    constructor
    · rintro ⟨x', hx', hxk', h1⟩
      obtain ⟨⟨b, x'⟩, hb, rfl⟩ := List.mem_map.1 hx'
      obtain rfl : b = a := hT _ hb _ hx hxk' hxk
      rwa [(hst.flows φ.bucket).unique hx hb]
    · exact fun h1 ↦ ⟨x, List.mem_map_of_mem hx, hxk, h1⟩
  cases first with
  | none =>
    cases hdec with
    | exempt => rfl
    | generated h | popular h => exact absurd (.inl h) hfirst
    | destination h | source h => exact absurd (.inr h) hfirst
  | some w =>
    obtain ⟨rfl, hne⟩ := hfirst
    simp only [hrecord]
    cases hdec with
    | exempt h => rw [if_neg fun he ↦ h (.inr he.2)]
    | generated h | popular h => exact absurd h hne
    | destination h h1 =>
      rw [if_pos ⟨h1, h⟩]
      rfl
    | source h h10 => rw [if_neg fun he ↦ absurd (he.1.symm.trans h10) (by decide)]

/-! ## UDP flows -/

/-- No record of a UDP flow is decided on. -/
def UdpUndecided (db : FlowTable) : Prop :=
  ∀ b a x, db.recordAt b a = some x → x.protocol = protoUdp → x.toAnon = -1

variable {db db' : FlowTable} {flow : Flow} {env : FlowEnv} {a : ℕ}

theorem udpUndecided_init : UdpUndecided flowTableInit := by
  intro b a x hx _
  obtain ⟨c, hc, rfl⟩ := Option.map_eq_some_iff.1 hx
  simp only [flowTableInit] at hc
  split at hc
  · obtain rfl := Option.some.inj hc
    rfl
  · exact absurd hc (by simp)

/-- A look-up decides nothing. -/
theorem UdpUndecided.lookUp (hu : UdpUndecided db) (h : lookUp flow db env = some (db', a, y)) :
    UdpUndecided db' := by
  intro b a' x hx hudp
  obtain ⟨c', hc', rfl⟩ := Option.map_eq_some_iff.1 hx
  rcases (lookUp_keeps h).1 b a' c' hc' with hm | ⟨c, hc, hdec, hkey⟩
  · exact hm
  · have hproto : c.protocol = protoUdp := (congrArg (fun k : FlowKey ↦ k.2.2) hkey).trans hudp
    rw [← hdec]
    exact hu b a' c.toFlowRec (by simp [FlowTable.recordAt, hc]) hproto

/-- Nor does a store into the record of a packet that is not UDP, or one that leaves the field
alone. -/
theorem UdpUndecided.store (hu : UdpUndecided db) {f : FlowRec → FlowRec}
    (hrec : db.recordAt flow.bucket a = some y)
    (hf : y.protocol = protoUdp → (f y).toAnon = y.toAnon) (hproto : (f y).protocol = y.protocol)
    (h : storeRecord flow db a f = some db') : UdpUndecided db' := by
  intro b a' x hx hudp
  rw [storeRecord_recordAt h] at hx
  split at hx
  · next hba =>
    obtain ⟨rfl, rfl⟩ := hba
    rw [hrec] at hx
    obtain rfl := Option.some.inj hx
    rw [hf (hproto.symm.trans hudp)]
    exact hu _ _ y hrec (hproto.symm.trans hudp)
  · exact hu b a' x hx hudp

/-- **One packet** decides on no UDP flow. -/
theorem UdpUndecided.run (hok : c.Ok) (hext : setting.anonExtIp = 1)
    (hu : UdpUndecided engine.flowStruct) (h : c.run blockEncrypt setting engine = some o) :
    UdpUndecided o.engine.flowStruct := by
  rw [run_of_external hok.transport] at h
  obtain ⟨⟨q, engine₁⟩, hq, h⟩ := Option.bind_eq_some_iff.1 h
  have hu₁ : UdpUndecided engine₁.flowStruct := by
    rw [external_eq hext hok.external] at hq
    obtain ⟨⟨fs, a, y⟩, hlook, hq⟩ := Option.bind_eq_some_iff.1 hq
    have hfs := hu.lookUp hlook
    simp only at hq
    split at hq
    · obtain ⟨r, -, hq⟩ := Option.bind_eq_some_iff.1 hq
      obtain ⟨fs', hstore, hq⟩ := Option.map_eq_some_iff.1 hq
      obtain ⟨-, rfl⟩ : _ ∧ _ = engine₁ := by simpa using hq
      obtain ⟨-, hrec, hkey⟩ := lookUp_keeps hlook
      refine hfs.store hrec (fun hudp ↦ if_neg fun htcp ↦ ?_) rfl hstore
      exact absurd (((congrArg (fun k : FlowKey ↦ k.2.2) hkey).trans htcp).symm.trans hudp)
        (by decide)
    · obtain ⟨-, rfl⟩ : _ ∧ _ = engine₁ := by simpa using hq
      exact hfs
  by_cases htcp : c.IsTcp
  swap
  · simp only [if_neg htcp] at h
    rwa [(udpPart_frame h).2.1]
  simp only [if_pos htcp] at h
  cases hm : handedTo setting q c.flow with
  | none => rwa [(tcpPart_not_handed hm h).1]
  | some m =>
    rw [tcpPart_handed _ hm] at h
    obtain ⟨fs, a, y, hlook, ⟨-, rfl⟩ | ⟨-, r, fs', -, hstore, rfl⟩⟩ := namePart_cases h
    · exact hu₁.lookUp hlook
    · obtain ⟨-, hrec, hkey⟩ := lookUp_keeps hlook
      refine (hu₁.lookUp hlook).store hrec (fun hudp ↦ ?_) rfl hstore
      exact absurd (((congrArg (fun k : FlowKey ↦ k.2.2) hkey).trans htcp).symm.trans hudp)
        (by decide)

/-- What the external address field of a UDP packet shows: an address generated for this packet if
the true one has few users, and otherwise the true one. -/
theorem udp_shown (hok : c.Ok) (hd : 0 ≤ setting.delta) (hext : setting.anonExtIp = 1)
    (hudp : c.IsUdp) (hu : UdpUndecided engine.flowStruct) (hN : engine.flowDb.View N)
    (h : c.external setting engine = some (q, engine')) :
    (q = if c.externalCount setting engine < setting.alpha then
      c.packet.setWord c.externalAt (addressV4Gen c.env.ext.tsc) else c.packet) ∧
    c.pseudonym setting engine = if c.externalCount setting engine < setting.alpha then
      some (addressV4Gen c.env.ext.tsc) else none := by
  rw [external_eq hext hok.external] at h
  obtain ⟨⟨fs, a, y⟩, hlook, h⟩ := Option.bind_eq_some_iff.1 h
  obtain ⟨-, hrec, hkey⟩ := lookUp_keeps hlook
  have hy : y.toAnon = -1 :=
    hu.lookUp hlook _ _ y hrec ((congrArg (fun k : FlowKey ↦ k.2.2) hkey).trans hudp)
  have hpseudo : c.pseudonym setting engine = if c.externalCount setting engine < setting.alpha then
      some (addressV4Gen c.env.ext.tsc) else none := by
    rw [PacketCall.pseudonym, hlook]
    simp [hy]
  obtain ⟨r, N', hr, -, hdec⟩ := externalIp_decides hN hd hok.memory hok.external (.inl hy)
  simp only [hr, if_pos (Or.inl hy : y.toAnon = -1 ∨ y.toAnon = 1), Option.bind_some] at h
  obtain ⟨fs', -, h⟩ := Option.map_eq_some_iff.1 h
  obtain ⟨rfl, -⟩ : r.packet = q ∧ _ := by simpa using h
  refine ⟨?_, hpseudo⟩
  clear h hr
  generalize r.packet = q, FlowRec.mk .. = y' at hdec
  cases hdec with
  | exempt h => exact absurd (.inl hy) h
  | generated _ hlt => rw [if_pos hlt]
  | popular _ hle => rw [if_neg (not_lt.2 hle)]
  | destination h | source h => exact absurd (hy.symm.trans h) (by decide)

/-! ## Runs -/

namespace PacketCall

/-- The external address of a packet is left as it was: none is generated, and the packet does not
change. -/
def LeftAlone (setting : OutInterfaceSett) (engine : Engine) (c : PacketCall) : Prop :=
  c.pseudonym setting engine = none ∧ ∃ engine',
    c.external setting engine = some (c.packet, engine')

/-- The external address field shows `w` after the part about it, and when the engine is done with
the packet. -/
def Shows (blockEncrypt : Block → Block) (setting : OutInterfaceSett) (engine : Engine)
    (c : PacketCall) (w : BitVec 32) : Prop :=
  ∃ q engine', c.external setting engine = some (q, engine') ∧ q.word c.externalAt = w ∧
    ∀ o, c.run blockEncrypt setting engine = some o → o.packet.word c.externalAt = w

/-- A later packet for which the address `w` is generated again or taken from the record. -/
def ShowsAgain (setting : OutInterfaceSett) (φ : Flow) (engine : Engine) (c : PacketCall)
    (w : BitVec 32) :
    Prop :=
  if c.IsTcp then
    (c.ipOrigin = 1 ∧ ∃ x ∈ flowRecords (engine.flowStruct φ.bucket), x.key = φ.key ∧
        x.toAnon = 1) ∨
      c.packet.word c.externalAt = w
  else if c.externalCount setting engine < setting.alpha then addressV4Gen c.env.ext.tsc = w
  else c.packet.word c.externalAt = w

/-- A later packet for which no other address than the true one is generated. -/
def ShowsTrue (setting : OutInterfaceSett) (engine : Engine) (c : PacketCall) : Prop :=
  c.IsTcp ∨ (c.externalCount setting engine < setting.alpha →
    addressV4Gen c.env.ext.tsc = c.packet.word c.externalAt)

end PacketCall

/-- Something holds of the first packet `c` of the flow, in the state it finds, and every later one,
`d`. -/
def EveryLater (blockEncrypt : Block → Block) (setting : OutInterfaceSett) (start : Engine)
    (φ : Flow) (calls : List PacketCall) (R : PacketCall → Engine → PacketCall → Engine → Prop) :
    Prop :=
  ∀ pre c mid d rest engine outs o engine₁ outs₁, calls = pre ++ c :: (mid ++ d :: rest) →
    c.flow.SameFlow φ → d.flow.SameFlow φ → (∀ e ∈ pre, ¬e.flow.SameFlow φ) →
    runEngine blockEncrypt setting start pre = some (engine, outs) →
    c.run blockEncrypt setting engine = some o →
    runEngine blockEncrypt setting o.engine mid = some (engine₁, outs₁) → R c engine d engine₁

/-- The external address of a flow is replaced by the same address in all packets, or in none. -/
def ExternalStable (blockEncrypt : Block → Block) (setting : OutInterfaceSett) (start : Engine)
    (φ : Flow) (calls : List PacketCall) : Prop :=
  EveryLater blockEncrypt setting start φ calls fun c engine d engine₁ ↦
    (∀ w, c.pseudonym setting engine = some w → d.Shows blockEncrypt setting engine₁ w) ∧
    (c.LeftAlone setting engine → d.Shows blockEncrypt setting engine₁ (d.packet.word d.externalAt))

/-- The words of two packets that differ only behind the IP header. -/
theorem word_sameBefore {p q : Packet} (h : p.SameBefore 34 q) {i : ℕ} (hi : i + 4 ≤ 34) :
    q.word i = p.word i :=
  Packet.SameOutside.word h fun _ _ hj ↦ by omega

theorem externalAt_le (c : PacketCall) : c.externalAt + 4 ≤ 34 := by
  rw [PacketCall.externalAt]
  split <;> omega

/-- What the field shows is decided by the part about it. -/
theorem shows_iff (hok : c.Ok) (h : c.external setting engine = some (q, engine')) (w : BitVec 32) :
    c.Shows blockEncrypt setting engine w ↔ q.word c.externalAt = w := by
  constructor
  · rintro ⟨q', engine'', hq', hw, -⟩
    obtain ⟨rfl, -⟩ : q = q' ∧ _ := by simpa using h.symm.trans hq'
    exact hw
  · refine fun hw ↦ ⟨q, engine', h, hw, fun o ho ↦ ?_⟩
    rw [run_of_external hok.transport, h, Option.bind_some] at ho
    have hbefore : q.SameBefore 34 o.packet := by
      by_cases htcp : c.IsTcp
      · simp only [if_pos htcp] at ho
        exact tcpPart_sameBefore ho
      · simp only [if_neg htcp] at ho
        exact (udpPart_frame ho).1
    rw [word_sameBefore hbefore (externalAt_le c), hw]

/-- The address generated for a packet is the one it shows. -/
theorem pseudonym_shown (hok : c.Ok) (hd : 0 ≤ setting.delta) (hext : setting.anonExtIp = 1)
    (hN : engine.flowDb.View N) {w : BitVec 32} (hw : c.pseudonym setting engine = some w)
    (h : c.external setting engine = some (q, engine')) : q.word c.externalAt = w := by
  have hmem : c.externalAt + 4 ≤ c.packet.data.length :=
    (externalAt_le c).trans (hok.external.header.trans c.packet.pktLen_le)
  rw [PacketCall.pseudonym] at hw
  rw [external_eq hext hok.external] at h
  obtain ⟨⟨fs, a, y⟩, hlook, h⟩ := Option.bind_eq_some_iff.1 h
  rw [hlook] at hw
  simp only [Option.bind_eq_bind, Option.bind_some] at hw
  split at hw
  swap
  · exact absurd hw (by simp)
  next hy =>
  obtain rfl := Option.some.inj hw
  obtain ⟨r, N', hr, -, hdec⟩ := externalIp_decides hN hd hok.memory hok.external (.inl hy.1)
  simp only [hr, if_pos (Or.inl hy.1 : y.toAnon = -1 ∨ y.toAnon = 1), Option.bind_some] at h
  obtain ⟨fs', -, h⟩ := Option.map_eq_some_iff.1 h
  obtain ⟨rfl, -⟩ : r.packet = q ∧ _ := by simpa using h
  clear h hr
  generalize r.packet = q, FlowRec.mk .. = y' at hdec ⊢
  cases hdec with
  | exempt h => exact absurd (.inl hy.1) h
  | generated => exact Packet.word_setWord hmem _
  | popular _ hle => exact absurd hy.2 (not_lt.2 hle)
  | destination h | source h => exact absurd (hy.1.symm.trans h) (by decide)

/-- A packet of another flow comes at most `T_OUT` seconds after one of the flow, if one of the flow
is still to come. -/
theorem FlowGaps.before_next {pre mid post : List PacketCall} {e d : PacketCall}
    (hgaps : FlowGaps φ (pre ++ c :: (mid ++ e :: post)))
    (htimed : (pre ++ c :: (mid ++ e :: post)).Pairwise fun c d ↦ c.tvSec ≤ d.tvSec)
    (hc : c.flow.SameFlow φ) (he : ¬e.flow.SameFlow φ) (hd : d ∈ post) (hdφ : d.flow.SameFlow φ) :
    ∃ f ∈ c :: mid, f.flow.SameFlow φ ∧ e.tvSec - f.tvSec ≤ tOut := by
  have hsplit : pre ++ c :: (mid ++ e :: post) = (pre ++ c :: mid) ++ e :: post := by simp
  rw [FlowGaps, hsplit, List.filter_append, List.filter_cons_of_neg (by simpa using he),
    List.filter_append,
    List.filter_cons_of_pos (by simpa using hc)] at hgaps
  obtain ⟨-, -, hnext⟩ := List.isChain_append.1 hgaps
  -- the last packet of the flow before, and the first one after
  obtain ⟨f, hf⟩ := Option.isSome_iff_exists.1 (List.getLast?_isSome.2
    (by simp : (pre.filter fun c ↦ decide (c.flow.SameFlow φ)) ++
      c :: mid.filter (fun c ↦ decide (c.flow.SameFlow φ)) ≠ []))
  obtain ⟨g, hg⟩ := Option.isSome_iff_exists.1 (List.isSome_head?.2 (List.ne_nil_of_mem
    (List.mem_filter.2 ⟨hd, decide_eq_true hdφ⟩ : d ∈ post.filter fun c ↦
        decide (c.flow.SameFlow φ))))
  have hgap := hnext f hf g hg
  rw [List.getLast?_append_cons] at hf
  have hfmem := List.mem_of_getLast? hf
  rw [← List.filter_cons_of_pos (p := fun c : PacketCall ↦ decide (c.flow.SameFlow φ))
    (by simpa using hc),
    List.mem_filter] at hfmem
  have hgmem := (List.mem_filter.1 (List.mem_of_head? hg)).1
  rw [hsplit] at htimed
  have hle := (List.pairwise_cons.1 (List.pairwise_append.1 htimed).2.1).1 g hgmem
  exact ⟨f, hfmem.1, of_decide_eq_true hfmem.2, by omega⟩

section Run

variable {self : CryptoIp} {calls pre mid rest : List PacketCall} {d : PacketCall}
  {engine₁ : Engine}
  {outs outs₁ : List Outcome}

/-- The table of flows of a run in which no look-up for the flow `φ`, which is not UDP, goes
wrong. -/
theorem single_run (hd : 0 ≤ setting.delta) (hext : setting.anonExtIp = 1) (h4 : φ.ipv = 4)
    (hφ : φ.protocol ≠ protoUdp) (hok : ∀ c ∈ calls, c.Ok)
    (hsafe : EngineRunMeets blockEncrypt setting (fun engine c ↦ c.LooksUpSafely setting φ engine)
      (Engine.init self) calls)
    (hrun : runEngine blockEncrypt setting (Engine.init self) calls = some (engine, outs)) :
    engine.Single φ := by
  refine PartialRun.run_invariant (I := fun e : Engine ↦ e.Single φ)
    (fun e b hb e' o hI hP hstep ↦ ?_)
    ⟨_, _, engine_init_stands self, single_init φ⟩ hsafe hrun
  obtain ⟨ho, rfl⟩ := engineStep_eq_some.1 hstep
  obtain ⟨N, T, hst, hT⟩ := hI
  obtain ⟨N', T', hst', hT', -⟩ := tracked_step (hok b hb) hd hext h4 hφ hP hst hT ho
  exact ⟨N', T', hst', hT'⟩

/-- The tables stay well formed in every run. -/
theorem stands_run (hd : 0 ≤ setting.delta) (hext : setting.anonExtIp = 1) (hok : ∀ c ∈ calls, c.Ok)
    (hrun : runEngine blockEncrypt setting (Engine.init self) calls = some (engine, outs)) :
    ∃ N T, engine.Stands N T := by
  -- no packet belongs to a flow of another protocol
  have hother : ∀ c ∈ calls, c.flow.key ≠ Flow.key ⟨4, 0, 0, 0, 0, 0, 0, 0, 0⟩ := by
    intro c hc hkey
    have hproto : c.flow.protocol = 0 := congrArg (fun k : FlowKey ↦ k.2.2) hkey
    rcases (hok c hc).transport with h | h <;> exact absurd (hproto.symm.trans h) (by decide)
  have hsafe : EngineRunMeets blockEncrypt setting
      (fun engine c ↦ c.LooksUpSafely setting ⟨4, 0, 0, 0, 0, 0, 0, 0, 0⟩ engine)
        (Engine.init self) calls := by
    have htrue : ∀ (l : List PacketCall) (e : Engine),
        EngineRunMeets blockEncrypt setting (fun _ _ ↦ True) e l := by
      intro l
      induction l with
      | nil => exact fun _ ↦ trivial
      | cons c l ih => exact fun e ↦ ⟨trivial, fun _ _ _ ↦ ih _⟩
    exact (htrue calls _).imp fun e c hc _ ↦
      ⟨fun hkey ↦ absurd hkey (hother c hc), fun hkey ↦ absurd hkey (hother c hc)⟩
  have hsingle : engine.Single ⟨4, 0, 0, 0, 0, 0, 0, 0, 0⟩ :=
    single_run hd hext rfl (by decide) hok hsafe hrun
  obtain ⟨N, T, hst, -⟩ := hsingle
  exact ⟨N, T, hst⟩

/-- **What a TCP flow's record remembers** up to a later packet of the flow. -/
theorem remembers_run (hd : 0 ≤ setting.delta) (hext : setting.anonExtIp = 1) (h4 : φ.ipv = 4)
    (hφ : φ.protocol ≠ protoUdp) (hok : ∀ c ∈ calls, c.Ok)
    (htimed : calls.Pairwise fun c d ↦ c.tvSec ≤ d.tvSec) (hgaps : FlowGaps φ calls)
    (hcalls : calls = pre ++ c :: (mid ++ d :: rest)) (hcφ : c.flow.SameFlow φ)
    (hdφ : d.flow.SameFlow φ)
    (hsafe : EngineRunMeets blockEncrypt setting (fun engine c ↦ c.LooksUpSafely setting φ engine)
      (Engine.init self) calls)
    (hpre : runEngine blockEncrypt setting (Engine.init self) pre = some (engine, outs))
    (hc : c.run blockEncrypt setting engine = some o)
    (hmid : runEngine blockEncrypt setting o.engine mid = some (engine₁, outs₁)) :
    engine₁.Remembers φ (c.pseudonym setting engine) (c :: mid) := by
  subst hcalls
  obtain ⟨hspre, hs⟩ := PartialRun.meets_append.1 hsafe
  obtain ⟨hsc, hs⟩ := hs engine outs hpre
  have hsmid := (PartialRun.meets_append.1 (hs _ o (engineStep_eq_some.2 ⟨hc, rfl⟩))).1
  have hsingle := single_run hd hext h4 hφ (fun c hc ↦ hok c (by simp [hc])) hspre hpre
  have hfirst := remembers_first (hok c (by simp)) hd hext h4 hφ hsc hsingle
    (Flow.key_eq_iff.2 (.inl hcφ)) hc
  -- along the packets in between
  have hgo : ∀ m tail engine₁ outs₁, mid = m ++ tail →
      runEngine blockEncrypt setting o.engine m = some (engine₁, outs₁) →
      engine₁.Remembers φ (c.pseudonym setting engine) (c :: m) := by
    intro m
    induction m using List.reverseRecOn with
    | nil =>
      intro _ engine₁ _ _ hrun
      obtain ⟨rfl, -⟩ : o.engine = engine₁ ∧ _ := by simpa using hrun
      exact hfirst
    | append_singleton m e ih =>
      rintro tail engine₁ outs₁ rfl hrun
      obtain ⟨engine₂, outs₂, outs₃, hm, hlast, -⟩ := PartialRun.run_append_eq_some.1 hrun
      obtain ⟨o', hstep, -⟩ := PartialRun.run_singleton_eq_some.1 hlast
      obtain ⟨ho', rfl⟩ := engineStep_eq_some.1 hstep
      rw [List.append_assoc] at hsmid
      have hse := ((PartialRun.meets_append.1 hsmid).2 _ _ hm).1
      have hshape : pre ++ c :: (m ++ [e] ++ tail ++ d :: rest) =
          pre ++ c :: (m ++ e :: (tail ++ d :: rest)) := by simp
      rw [hshape] at hok htimed hgaps
      have hbefore : ∀ f ∈ c :: m, f.tvSec ≤ e.tvSec := by
        intro f hf
        have hsplit : pre ++ c :: (m ++ e :: (tail ++ d :: rest)) =
            (pre ++ c :: m) ++ e :: (tail ++ d :: rest) := by simp
        rw [hsplit] at htimed
        exact (List.pairwise_append.1 htimed).2.2 f (List.mem_append_right pre hf) e (by simp)
      exact remembers_step (hok e (by simp)) hd hext h4 hφ hse (ih ([e] ++ tail) _ _ (by simp) hm)
        hbefore
        (fun hne ↦ hgaps.before_next htimed hcφ hne (by simp) hdφ) ho'
  exact hgo mid [] engine₁ outs₁ (by simp) hmid

/-- A later packet of a UDP flow: it is decided on anew. -/
theorem udp_shows_iff (hext : setting.anonExtIp = 1) (hd : 0 ≤ setting.delta) (hok : d.Ok)
    (hudp : d.IsUdp) (hu : UdpUndecided engine.flowStruct) (hst : engine.Stands N T)
    (hq : d.external setting engine = some (q, engine')) :
    (∀ w, d.Shows blockEncrypt setting engine w ↔ d.ShowsAgain setting φ engine w) ∧
      (d.Shows blockEncrypt setting engine (d.packet.word d.externalAt) ↔
        d.ShowsTrue setting engine) := by
  have hfits : d.externalAt + 4 ≤ d.packet.data.length :=
    (externalAt_le d).trans (hok.external.header.trans d.packet.pktLen_le)
  have htcp : ¬d.IsTcp := fun h ↦ absurd (h.symm.trans hudp) (by decide)
  simp only [shows_iff hok hq]
  obtain ⟨rfl, -⟩ := udp_shown hok hd hext hudp hu hst.names hq
  constructor
  · intro w
    rw [PacketCall.ShowsAgain, if_neg htcp]
    split
    · rw [Packet.word_setWord hfits]
    · rfl
  · rw [PacketCall.ShowsTrue]
    split
    · next hlt =>
      rw [Packet.word_setWord hfits]
      exact ⟨fun h ↦ .inr fun _ ↦ h, fun h ↦ (h.resolve_left htcp) hlt⟩
    · next hlt => exact ⟨fun _ ↦ .inr fun h ↦ absurd h hlt, fun _ ↦ rfl⟩

/-- A later packet of a TCP flow: it is treated as the record remembers. -/
theorem tcp_shows_iff (hext : setting.anonExtIp = 1) (hd : 0 ≤ setting.delta) (h4 : φ.ipv = 4)
    (hφ : φ.protocol ≠ protoUdp) (hok : d.Ok) (hkey : d.flow.key = φ.key)
    (hsafe : d.LooksUpSafely setting φ engine) {first : Option (BitVec 32)} {seen : List PacketCall}
    (hrem : engine.Remembers φ first seen) (hq : d.external setting engine = some (q, engine')) :
    (∀ w, first = some w → (d.Shows blockEncrypt setting engine w ↔
        d.ShowsAgain setting φ engine w)) ∧
      (first = none →
        (d.Shows blockEncrypt setting engine (d.packet.word d.externalAt) ↔
          d.ShowsTrue setting engine)) := by
  have hfits : d.externalAt + 4 ≤ d.packet.data.length :=
    (externalAt_le d).trans (hok.external.header.trans d.packet.pktLen_le)
  have htcp := isTcp_of_key hok.transport hφ hkey
  simp only [shows_iff hok hq]
  have hshown := remembers_shown hok hd hext h4 hφ hsafe hrem hkey hq
  constructor
  · rintro w rfl
    simp only at hshown
    rw [hshown, PacketCall.ShowsAgain, if_pos htcp]
    split
    · next hagain =>
      have hat : d.externalAt = 30 := if_neg (by rw [hagain.1]; decide)
      rw [hat] at hfits ⊢
      rw [Packet.word_setWord hfits]
      exact ⟨fun _ ↦ .inl hagain, fun _ ↦ rfl⟩
    · next hagain => exact ⟨.inr, fun h ↦ h.resolve_left hagain⟩
  · rintro rfl
    simp only at hshown
    rw [hshown]
    exact ⟨fun _ ↦ .inl htcp, fun _ ↦ rfl⟩

/-- **A later packet of a flow.** -/
theorem later_shows_iff (hext : setting.anonExtIp = 1) (hd : 0 ≤ setting.delta) (h4 : φ.ipv = 4)
    (hok : ∀ c ∈ calls, c.Ok) (htimed : calls.Pairwise fun c d ↦ c.tvSec ≤ d.tvSec)
    (hgaps : FlowGaps φ calls)
    (hsafe : EngineRunMeets blockEncrypt setting (fun engine c ↦ c.LooksUpSafely setting φ engine)
      (Engine.init self) calls) (hcalls : calls = pre ++ c :: (mid ++ d :: rest))
        (hcφ : c.flow.SameFlow φ)
    (hdφ : d.flow.SameFlow φ)
    (hpre : runEngine blockEncrypt setting (Engine.init self) pre = some (engine, outs))
    (hc : c.run blockEncrypt setting engine = some o)
    (hmid : runEngine blockEncrypt setting o.engine mid = some (engine₁, outs₁)) :
    (∀ w, c.pseudonym setting engine = some w →
      (d.Shows blockEncrypt setting engine₁ w ↔ d.ShowsAgain setting φ engine₁ w)) ∧
    (c.LeftAlone setting engine →
        (d.Shows blockEncrypt setting engine₁ (d.packet.word d.externalAt) ↔
      d.ShowsTrue setting engine₁)) := by
  have hdkey := Flow.key_eq_iff.2 (.inl hdφ)
  have hassoc : calls = (pre ++ c :: mid) ++ d :: rest := by simp [hcalls]
  have hdok : d.Ok := hok d (by simp [hcalls])
  have hok₁ : ∀ e ∈ pre ++ c :: mid, e.Ok :=
    fun e he ↦ hok e (by rw [hassoc]; exact List.mem_append_left _ he)
  have hrun₁ := PartialRun.run_append_eq_some.2
    ⟨engine, outs, _, hpre, PartialRun.run_cons_eq_some.2
    ⟨o.engine, o, outs₁, engineStep_eq_some.2 ⟨hc, rfl⟩, hmid, rfl⟩, rfl⟩
  obtain ⟨hsafe₁, hsd⟩ := PartialRun.meets_append.1 (hassoc ▸ hsafe)
  obtain ⟨hsd, -⟩ := hsd _ _ hrun₁
  obtain ⟨N, T, hst⟩ := stands_run hd hext hok₁ hrun₁
  obtain ⟨q, engine₂, hq⟩ := external_total hst hdok.memory hd hext hdok.external
    (hsd.external hdkey).1
  by_cases hφ : φ.protocol = protoUdp
  · have hu : UdpUndecided engine₁.flowStruct := by
      refine PartialRun.run_invariant (I := fun e : Engine ↦ UdpUndecided e.flowStruct)
        (fun e b hb e' o hI _ hstep ↦ ?_) udpUndecided_init hsafe₁ hrun₁
      obtain ⟨ho, rfl⟩ := engineStep_eq_some.1 hstep
      exact hI.run (hok₁ b hb) hext ho
    have hudp : d.IsUdp := (congrArg (fun k : FlowKey ↦ k.2.2) hdkey).trans hφ
    have hshows : (∀ w, d.Shows blockEncrypt setting engine₁ w ↔ d.ShowsAgain setting φ engine₁ w) ∧
        (d.Shows blockEncrypt setting engine₁ (d.packet.word d.externalAt) ↔
          d.ShowsTrue setting engine₁) :=
      udp_shows_iff hext hd hdok hudp hu hst hq
    exact ⟨fun w _ ↦ hshows.1 w, fun _ ↦ hshows.2⟩
  · have hrem := remembers_run hd hext h4 hφ hok htimed hgaps hcalls hcφ hdφ hsafe hpre hc hmid
    exact ⟨(tcp_shows_iff hext hd h4 hφ hdok hdkey hsd hrem hq).1,
      fun hleft ↦ (tcp_shows_iff hext hd h4 hφ hdok hdkey hsd hrem hq).2 hleft.1⟩

/-- **External addresses are stable within a flow** exactly if every later packet of the flow has
its address generated again or taken from the record, where the first one's was replaced, and not
replaced where it was not: in every run in which the look-ups for the flow do not go wrong. -/
theorem external_address_stable (hext : setting.anonExtIp = 1) (hd : 0 ≤ setting.delta)
    (h4 : φ.ipv = 4) (hok : ∀ c ∈ calls, c.Ok) (htimed : calls.Pairwise fun c d ↦ c.tvSec ≤ d.tvSec)
    (hgaps : FlowGaps φ calls)
    (hsafe : EngineRunMeets blockEncrypt setting (fun engine c ↦ c.LooksUpSafely setting φ engine)
      (Engine.init self) calls) :
    ExternalStable blockEncrypt setting (Engine.init self) φ calls ↔
      EveryLater blockEncrypt setting (Engine.init self) φ calls fun c engine d engine₁ ↦
        (∀ w, c.pseudonym setting engine = some w → d.ShowsAgain setting φ engine₁ w) ∧
        (c.LeftAlone setting engine → d.ShowsTrue setting engine₁) := by
  constructor <;> intro h pre c mid d rest engine outs o engine₁ outs₁ hcalls hcφ hdφ hfirst hpre hc
    hmid
  all_goals
    obtain ⟨hagain, htrue⟩ :=
      later_shows_iff hext hd h4 hok htimed hgaps hsafe hcalls hcφ hdφ hpre hc hmid
    obtain ⟨h₁, h₂⟩ := h pre c mid d rest engine outs o engine₁ outs₁ hcalls hcφ hdφ hfirst hpre hc
      hmid
  · exact ⟨fun w hw ↦ (hagain w hw).1 (h₁ w hw), fun hl ↦ (htrue hl).1 (h₂ hl)⟩
  · exact ⟨fun w hw ↦ (hagain w hw).2 (h₁ w hw), fun hl ↦ (htrue hl).2 (h₂ hl)⟩

end Run

/-- A packet from the inside host 10.0.0.1 to the external host 8.8.4.1, without payload. -/
def outwardPacket (t : ℤ) : PacketCall :=
  ⟨tcpFrame [10, 0, 0, 1] [8, 8, 4, 1] 40000 8080 [], t, 1, .plain⟩

/-- `external_ip` on, with a threshold. -/
def OutInterfaceSett.external (alpha : ℤ) :
    OutInterfaceSett := { OutInterfaceSett.plain alpha with anonExtIp := 1 }

theorem outwardPacket_ok (t : ℤ) : (outwardPacket t).Ok where
  transport := .inl
    (by simp only [PacketCall.IsTcp, PacketCall.flow, newPacket, outwardPacket]; decide +kernel)
  external := ⟨.inl rfl, by simp only [outwardPacket]; decide +kernel,
    by simp only [outwardPacket]; decide +kernel⟩
  memory := memoryOk_plain

/-- The second packet of a flow to an external host gets the address generated for the first. -/
theorem external_address_stable_twice : ExternalStable id (.external 2) (Engine.init .zero)
    (outwardPacket 0).flow [outwardPacket 0, outwardPacket 1] := by
  have hplain : PacketEnv.plain.extFlow.collects = false ∧ PacketEnv.plain.nameFlow.collects =
    false := by
    decide
  have hsafe : ∀ φ e t, (outwardPacket t).LooksUpSafely (.external 2) φ e := fun φ e t ↦ by
    have hext : (lookUpCall (outwardPacket t).flow PacketEnv.plain.extFlow).Safe e.flowStruct :=
      FlowCall.safe_of_not_collects (c := lookUpCall (outwardPacket t).flow PacketEnv.plain.extFlow)
        hplain.1 _
    exact ⟨fun _ ↦ ⟨hext.1, fun _ ↦ hext.2⟩, fun _ q e' m _ _ ↦ FlowCall.safe_of_not_collects
      (c := lookUpCall (outwardPacket t).flow PacketEnv.plain.nameFlow) hplain.2 _⟩
  have hmeets : EngineRunMeets id (.external 2)
      (fun e c ↦ c.LooksUpSafely (.external 2) (outwardPacket 0).flow e) (Engine.init .zero)
      [outwardPacket 0, outwardPacket 1] :=
    ⟨hsafe _ _ 0, fun _ _ _ ↦ ⟨hsafe _ _ 1, fun _ _ _ ↦ trivial⟩⟩
  refine (external_address_stable rfl (by decide) rfl (fun c hc ↦ ?_) (by decide +kernel)
    (by rw [FlowGaps]; decide +kernel) hmeets).2 ?_
  · simp only [List.mem_cons, List.not_mem_nil, or_false] at hc
    rcases hc with rfl | rfl <;> exact outwardPacket_ok _
  · intro pre c mid d rest engine outs o engine₁ outs₁ hcalls _ _ _ hpre hc hmid
    obtain ⟨rfl, rfl, rfl, rfl⟩ : pre = [] ∧ c = outwardPacket 0 ∧ mid = [] ∧
      d = outwardPacket 1 := by
      have hlen := congrArg List.length hcalls
      simp only [List.length_cons, List.length_nil, List.length_append] at hlen
      obtain rfl := List.length_eq_zero_iff.1 (by omega : pre.length = 0)
      obtain rfl := List.length_eq_zero_iff.1 (by omega : mid.length = 0)
      simp only [List.nil_append, List.cons.injEq] at hcalls
      exact ⟨rfl, hcalls.1.symm, rfl, hcalls.2.1.symm⟩
    obtain ⟨rfl, -⟩ : Engine.init .zero = engine ∧ _ := by simpa using hpre
    obtain ⟨rfl, -⟩ : o.engine = engine₁ ∧ _ := by simpa using hmid
    have hpseudo : (outwardPacket 0).pseudonym (.external 2) (Engine.init .zero) = some 127 := by
      decide +kernel
    have hrecord : ((outwardPacket 0).run id (.external 2) (Engine.init .zero)).map
      (fun o : Outcome ↦
        decide (∃ x ∈ flowRecords (o.engine.flowStruct (outwardPacket 0).flow.bucket),
          x.key = (outwardPacket 0).flow.key ∧ x.toAnon = 1)) = some true := by
      decide +kernel
    rw [hc, Option.map_some, Option.some.injEq, decide_eq_true_eq] at hrecord
    refine ⟨fun w _ ↦ ?_, fun hleft ↦ absurd (hpseudo.symm.trans hleft.1) (by simp)⟩
    rw [PacketCall.ShowsAgain, if_pos (by decide +kernel)]
    exact .inl ⟨rfl, hrecord⟩

/-- Of three packets to an external host the third shows its address. -/
theorem external_address_stable_fails :
    ¬∀ (blockEncrypt : Block → Block) (setting : OutInterfaceSett) (self : CryptoIp) (φ : Flow)
    (calls : List PacketCall), setting.anonExtIp = 1 → 0 ≤ setting.delta →
    φ.ipv = 4 → (∀ c ∈ calls, c.Ok) → calls.Pairwise (fun c d ↦ c.tvSec ≤ d.tvSec) →
      FlowGaps φ calls →
    ExternalStable blockEncrypt setting (Engine.init self) φ calls := by
  intro h
  have hcalls := h id (.external 2) .zero (outwardPacket 0).flow
    [outwardPacket 0, outwardPacket 1, outwardPacket 2] rfl (by decide) rfl (fun c hc ↦ by
      simp only [List.mem_cons, List.not_mem_nil, or_false] at hc
      rcases hc with rfl | rfl | rfl <;> exact outwardPacket_ok _)
    (by decide +kernel) (by rw [FlowGaps]; decide +kernel)
  have hpseudo : (outwardPacket 0).pseudonym (.external 2) (Engine.init .zero) = some 127 := by
    decide +kernel
  have hrun : ((outwardPacket 0).run id (.external 2) (Engine.init .zero)).bind (fun o ↦
      (runEngine id (.external 2) o.engine [outwardPacket 1]).bind fun p ↦
        ((outwardPacket 2).run id (.external 2) p.1).map fun o' ↦ o'.packet.word 30) =
          some 0x01040808 := by
    decide +kernel
  obtain ⟨o, ho, hrun⟩ := Option.bind_eq_some_iff.1 hrun
  obtain ⟨⟨engine₁, outs₁⟩, hmid, hrun⟩ := Option.bind_eq_some_iff.1 hrun
  obtain ⟨o', ho', hword⟩ := Option.map_eq_some_iff.1 hrun
  obtain ⟨hshows, -⟩ := hcalls [] (outwardPacket 0) [outwardPacket 1] (outwardPacket 2)
    [] _ [] o engine₁ outs₁
    rfl (by decide +kernel) (by decide +kernel) (by simp) rfl ho hmid
  obtain ⟨-, -, -, -, hlast⟩ := hshows 127 hpseudo
  exact absurd (hword.symm.trans (hlast o' ho')) (by decide)

end AlphaMon
