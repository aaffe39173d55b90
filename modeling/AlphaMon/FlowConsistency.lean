import AlphaMon.EngineFlows
import AlphaMon.FlowIdentity

/-!
# One decision for a flow

The first packet of a flow that carries a name decides about the flow: if the name has few users it
is hidden, and so should be the names of all later packets of the flow; if it has enough, later
packets are left alone.

The decision is the field `toAnon` of the flow's record, and `0` is final: a packet of an exempt
flow is not handed to a module.  But `1` is not.  Every later packet of the flow is handed to its
module, which decides anew by the number of users the packet's own name has by then, and the engine
stores what it says.  `flow_treated_alike` is about the runs in which this does no harm: the packets
of a flow under anonymisation carry names with few users, the record of the flow is not lost, and no
name is too long for the table of names.  In these a flow whose first name is hidden has all later
ones hidden, and a flow whose first name is left is left alone.
-/

set_option autoImplicit false

namespace AlphaMon

variable {blockEncrypt : Block → Block} {setting : OutInterfaceSett} {flow φ : Flow}
  {env : PacketEnv}
  {m : ModuleKind} {packet : Packet} {engine engine' : Engine} {N : NameTab} {T : FlowTab}
    {o : Outcome}
  {c : PacketCall} {r : HandlerResult} {offset : UInt8} {giveUp : ℤ} {found : Option FoundName}

/-- The allocations for a packet succeed. -/
structure PacketEnv.MemoryOk (env : PacketEnv) : Prop where
  extFlow : env.extFlow.malloc ≠ none
  nameFlow : env.nameFlow.malloc ≠ none
  ext : env.ext.table.allocNames = true ∧ env.ext.table.allocLru = true
  handler : env.handler.table.allocNames = true ∧ env.handler.table.allocLru = true

theorem memoryOk_plain : PacketEnv.plain.MemoryOk :=
  ⟨by simp [PacketEnv.plain], by simp [PacketEnv.plain], ⟨rfl, rfl⟩, rfl, rfl⟩

/-! ## A packet handed to a module -/

/-- What `table_add` returns for the name of a packet in a state of the engine. -/
def Engine.count (engine : Engine) (setting : OutInterfaceSett) (flow : Flow) (env : PacketEnv)
    (name : List UInt8) : ℤ :=
  engine.flowDb.count flow name setting.alpha setting.delta env.handler.table.tsc

/-- A module leaves the table of names well formed. -/
theorem Reported.names (hN : engine.flowDb.View N) (hd : 0 ≤ setting.delta) (hmem : env.MemoryOk)
    (h : Reported packet flow engine.flowDb setting.alpha setting.delta env.handler.toHandlerEnv
      giveUp
      found r) : ∃ N', r.db.View N' := by
  cases h with
  | none => exact ⟨N, hN⟩
  | below hadd => exact (tableAdd_count hN hd hmem.handler.1 hmem.handler.2 hadd).2
  | above hadd => exact (tableAdd_count hN hd hmem.handler.1 hmem.handler.2 hadd).2

/-- A module hides a name with few users. -/
theorem Reported.hides (hN : engine.flowDb.View N) (hd : 0 ≤ setting.delta) (hmem : env.MemoryOk)
    {f : FoundName} (h : Reported packet flow engine.flowDb setting.alpha setting.delta
      env.handler.toHandlerEnv giveUp (some f) r)
    (hcount : engine.count setting flow env f.name < setting.alpha) :
    r.flag = 1 ∧ r.packet.Hides f.pos f.name.length := by
  cases h with
  | below _ _ _ hhides => exact ⟨rfl, hhides⟩
  | @above _ _ ret hadd hle =>
    obtain ⟨rfl, -⟩ := tableAdd_count hN hd hmem.handler.1 hmem.handler.2 hadd
    rw [Engine.count] at hcount
    omega

/-- What a module makes of a packet whose flow has the record `y`: the record afterwards, the
packet, and what the module reports. -/
inductive Decides (setting : OutInterfaceSett) (flow : Flow) (env : PacketEnv) (m : ModuleKind)
    (packet : Packet) (engine : Engine) (y : FlowRec) : FlowRec → Packet → Option HandlerResult →
    Prop
  /-- The flow is exempt: the module is not called. -/
  | exempt (h : ¬(y.toAnon = -1 ∨ y.toAnon = 1)) :
    Decides setting flow env m packet engine y y packet none
  /-- The module is called. -/
  | called {r : HandlerResult} (h : y.toAnon = -1 ∨ y.toAnon = 1)
      (hr : Reported packet flow engine.flowDb setting.alpha setting.delta env.handler.toHandlerEnv
        (m.giveUp packet (packet.byte 46) env.handler.noReturn) (m.find packet (packet.byte 46))
          r) :
      Decides setting flow env m packet engine y { y with toAnon := toAnonOf r.flag } r.packet
        (some r)

/-- **A packet handed to a module** and the record of the flow `φ`. -/
theorem namePart_tracked (hst : engine.Stands N T) (hT : T.Single φ) (h4 : flow.ipv = 4)
    (h4' : φ.ipv = 4) (hmem : env.MemoryOk) (hd : 0 ≤ setting.delta)
    (hs : flow.key = φ.key → (lookUpCall flow env.nameFlow).Safe engine.flowStruct)
    (h : namePart setting flow env m.entry packet engine = some o) :
    ∃ N' T', o.engine.Stands N' T' ∧ T'.Single φ ∧
      (flow.key ≠ φ.key → ∀ p ∈ T φ.bucket, p.2.key = φ.key →
        ¬(φ.bucket = flow.bucket ∧ env.nameFlow.collects = true ∧ p.2.Expired flow.timestamp) →
        p ∈ T' φ.bucket) ∧
      (flow.key = φ.key → ∃ a y y', (∀ b x, (b, x) ∈ T φ.bucket → x.key = φ.key →
          y = x.touch flow.timestamp) ∧ Decides setting flow env m packet engine y y' o.packet
            o.handled ∧
        (a, y') ∈ T' φ.bucket ∧ y'.key = φ.key) := by
  obtain ⟨fs, a, y, hlook, hcases⟩ := namePart_cases h
  obtain ⟨T', hfs, hT', hl, hother, hown⟩ :=
    lookUp_tracked hst.flows hT h4 h4' hmem.nameFlow hs hlook
  rcases hcases with ⟨hy, rfl⟩ | ⟨hy, r, fs', hr, hstore, rfl⟩
  · refine ⟨N, T', ⟨hst.names, hfs⟩, hT', hother, fun hkey ↦ ⟨a, y, y, hown hkey, .exempt hy, ?_,
      hl.key.trans hkey⟩⟩
    rw [← Flow.bucket_eq h4 h4' hkey]
    exact hl.mem
  · have hrep := ModuleKind.reported hr
    obtain ⟨N', hN'⟩ := hrep.names hst.names hd hmem
    obtain ⟨fs₁, hstore', hfs'⟩ := storeRecord_spec hfs hl.mem fun x ↦
      { x with toAnon := toAnonOf r.flag }
    obtain rfl : fs₁ = fs' := by simpa using hstore'.symm.trans hstore
    refine ⟨N', _, ⟨hN', hfs'⟩, hT'.store _ _ fun _ ↦ rfl, fun hkey p hp hpk hexp ↦ ?_,
      fun hkey ↦ ?_⟩
    · exact hfs.mem_store hl.mem _ (hother hkey p hp hpk hexp) fun he ↦
        hkey (by rw [← hl.key, ← he, hpk])
    · refine ⟨a, y, _, hown hkey, .called hy hrep, ?_, hl.key.trans hkey⟩
      rw [← Flow.bucket_eq h4 h4' hkey]
      exact FlowTab.mem_store_self hl.mem _

/-- **A packet handed to a module is processed** if the look-up of its flow does not fall off the
chain and the name found, if any, fits into a record. -/
theorem namePart_total (hst : engine.Stands N T) (hmem : env.MemoryOk) (hd : 0 ≤ setting.delta)
    (hfits : ∀ f, m.find packet (packet.byte 46) = some f → f.name.length < nameDns)
    (hs : ¬(lookUpCall flow env.nameFlow).FallsOff engine.flowStruct) :
    ∃ o, namePart setting flow env m.entry packet engine = some o := by
  have hok : (lookUpCall flow env.nameFlow).AllocOk := hmem.nameFlow
  rcases lookUp_spec hst.flows hok with ⟨hf, -⟩ | ⟨-, fs, a, y, T', hlook, hfs, hl, -⟩
  · exact absurd hf hs
  rw [namePart, hlook]
  simp only [Option.bind_eq_bind, Option.bind_some]
  split
  swap
  · exact ⟨_, rfl⟩
  obtain ⟨r, hr⟩ := ModuleKind.entry_total (m := m) packet (packet.byte 46) flow fun f hf ↦ by
    obtain ⟨names', N', hadd, -⟩ :=
      tableAdd_total hst.names flow setting.alpha hd (hfits f hf) hmem.handler.1 hmem.handler.2
    exact ⟨_, hadd⟩
  obtain ⟨fs', hstore, -⟩ := storeRecord_spec hfs hl.mem fun x ↦
    { x with toAnon := toAnonOf r.flag }
  rw [hr, Option.bind_some, hstore]
  exact ⟨_, rfl⟩

/-! ## A packet of the run -/

/-- The engine stands for tables in which the flow has at most one record. -/
def Engine.Single (engine : Engine) (φ : Flow) : Prop := ∃ N T, engine.Stands N T ∧ T.Single φ

/-- The flow has one record, and that meets `P`. -/
def Engine.Tracks (engine : Engine) (φ : Flow) (P : FlowRec → Prop) : Prop :=
  ∃ N T, engine.Stands N T ∧ T.Single φ ∧ ∃ a x, (a, x) ∈ T φ.bucket ∧ x.key = φ.key ∧ P x

theorem Engine.Tracks.single {P : FlowRec → Prop} (h : engine.Tracks φ P) : engine.Single φ := by
  obtain ⟨N, T, hst, hT, -⟩ := h
  exact ⟨N, T, hst, hT⟩

/-- A packet that does no harm to the decision about the flow `φ`: the name it carries fits into a
record of the table of names, the look-up of its flow spares the record of the flow, and if it is a
packet of the flow while that is anonymised, it carries a name that the module finds and for which
`table_add` returns less than `alpha`. -/
structure PacketCall.KeepsDecision (setting : OutInterfaceSett) (φ : Flow) (engine : Engine)
    (c : PacketCall) : Prop where
  fits : ∀ m, c.handed setting = some m → ∀ f, m.find c.packet c.dataOff = some f →
    f.name.length < nameDns
  spares : ∀ m, c.handed setting = some m → Spares φ c.flow c.env.nameFlow engine.flowStruct
  few : ∀ m, c.handed setting = some m → c.flow.key = φ.key →
    ∀ x ∈ flowRecords (engine.flowStruct φ.bucket), x.key = φ.key → x.toAnon = 1 →
    ∃ f, m.find c.packet c.dataOff = some f ∧ engine.count setting c.flow c.env f.name <
      setting.alpha

/-- A TCP packet while `external_ip` is off is handed to a module or leaves the engine as it is. -/
theorem run_tcp_cases (hext : setting.anonExtIp ≠ 1) (htcp : c.IsTcp)
    (h : c.run blockEncrypt setting engine = some o) :
    (c.handed setting = none ∧ o.engine = engine ∧ o.handled = none) ∨
    ∃ m, c.handed setting = some m ∧ namePart setting c.flow c.env m.entry c.packet engine =
      some o := by
  have hhanded : c.handed setting = handedTo setting c.packet c.flow := if_pos htcp
  rw [run_tcp hext htcp] at h
  rw [hhanded]
  cases hm : handedTo setting c.packet c.flow with
  | none => exact .inl ⟨rfl, tcpPart_not_handed hm h⟩
  | some m => exact .inr ⟨m, rfl, by rwa [tcpPart_handed _ hm] at h⟩

/-- **One packet** leaves at most one record of the flow. -/
theorem single_step (hext : setting.anonExtIp ≠ 1) (hd : 0 ≤ setting.delta) (h4 : φ.ipv = 4)
    (htcp : c.IsTcp) (hmem : c.env.MemoryOk) (hc : c.KeepsDecision setting φ engine)
    (hsingle : engine.Single φ) (h : c.run blockEncrypt setting engine = some o) :
    o.engine.Single φ := by
  rcases run_tcp_cases hext htcp h with ⟨-, he, -⟩ | ⟨m, hm, hpart⟩
  · rwa [he]
  obtain ⟨N, T, hst, hT⟩ := hsingle
  obtain ⟨N', T', hst', hT', -⟩ :=
    namePart_tracked hst hT c.flow_ipv h4 hmem hd (hc.spares m hm).safe hpart
  exact ⟨N', T', hst', hT'⟩

/-- **The packet that decides**: afterwards the record of its flow says what the module said. -/
theorem decided_by (hext : setting.anonExtIp ≠ 1) (hd : 0 ≤ setting.delta) (h4 : φ.ipv = 4)
    (htcp : c.IsTcp) (hmem : c.env.MemoryOk) (hc : c.KeepsDecision setting φ engine)
    (hsingle : engine.Single φ) (hkey : c.flow.key = φ.key)
    (h : c.run blockEncrypt setting engine = some o) (hr : o.handled = some r) :
    o.engine.Tracks φ fun x ↦ x.toAnon = toAnonOf r.flag := by
  rcases run_tcp_cases hext htcp h with ⟨-, -, hnone⟩ | ⟨m, hm, hpart⟩
  · exact absurd (hnone.symm.trans hr) (by simp)
  obtain ⟨N, T, hst, hT⟩ := hsingle
  obtain ⟨N', T', hst', hT', -, hown⟩ :=
    namePart_tracked hst hT c.flow_ipv h4 hmem hd (hc.spares m hm).safe hpart
  obtain ⟨a, y, y', -, hdec, hy', hyk⟩ := hown hkey
  refine ⟨N', T', hst', hT', a, y', hy', hyk, ?_⟩
  rw [hr] at hdec
  generalize o.packet = q at hdec
  cases hdec with
  | called => rfl

/-- What a packet of a flow with the decision `v` looks like afterwards. -/
def PacketCall.Treated (setting : OutInterfaceSett) (c : PacketCall) (v : ℤ) (o : Outcome) : Prop :=
  ∀ m, c.handed setting = some m →
    (v = 1 → ∀ f, m.find c.packet c.dataOff = some f → o.packet.Hides f.pos f.name.length) ∧
    (v = 0 → o.packet = c.packet)

/-- **A later packet** keeps the decision, and if it is one of the flow it is treated
accordingly. -/
theorem decided_step {v : ℤ} (hv : v = 0 ∨ v = 1) (hext : setting.anonExtIp ≠ 1)
    (hd : 0 ≤ setting.delta) (h4 : φ.ipv = 4) (htcp : c.IsTcp) (hmem : c.env.MemoryOk)
    (hc : c.KeepsDecision setting φ engine) (htracks : engine.Tracks φ fun x ↦ x.toAnon = v)
    (h : c.run blockEncrypt setting engine = some o) :
    o.engine.Tracks φ (fun x ↦ x.toAnon = v) ∧ (c.flow.key = φ.key → c.Treated setting v o) := by
  rcases run_tcp_cases hext htcp h with ⟨hnone, he, -⟩ | ⟨m, hm, hpart⟩
  · exact ⟨by rwa [he], fun _ m hm ↦ absurd (hnone.symm.trans hm) (by simp)⟩
  obtain ⟨N, T, hst, hT, a, x, hx, hxk, hxv⟩ := htracks
  obtain ⟨N', T', hst', hT', hother, hown⟩ :=
    namePart_tracked hst hT c.flow_ipv h4 hmem hd (hc.spares m hm).safe hpart
  by_cases hkey : c.flow.key = φ.key
  swap
  · have hrec := List.mem_map_of_mem (f := Prod.snd) hx
    rw [← hst.flows.records] at hrec
    have hlive : ¬(φ.bucket = c.flow.bucket ∧ c.env.nameFlow.collects = true ∧
      x.Expired c.flow.timestamp) :=
      fun ⟨hb, hgc, hexp⟩ ↦ (hc.spares m hm).kept hkey hb hgc x hrec hxk hexp
    exact ⟨⟨N', T', hst', hT', a, x, hother hkey _ hx hxk hlive, hxk, hxv⟩, fun he ↦ absurd he hkey⟩
  obtain ⟨a', y, y', hfound, hdec, hy', hyk⟩ := hown hkey
  obtain rfl := hfound a x hx hxk
  -- the decision is kept, by the condition or because it is final
  have hkept : y'.toAnon = v ∧ (v = 1 → ∀ f, m.find c.packet c.dataOff = some f →
      o.packet.Hides f.pos f.name.length) ∧ (v = 0 → o.packet = c.packet) := by
    generalize o.packet = q, o.handled = handled at hdec
    cases hdec with
    | exempt hno => exact ⟨hxv, fun hv1 ↦ absurd (.inr (hxv.trans hv1)) hno, fun _ ↦ rfl⟩
    | called hyes hr =>
      obtain rfl : v = 1 := by
        rcases hyes with h1 | h1 <;> rcases hv with rfl | rfl <;> simp_all [FlowRec.touch]
      have hrec : x ∈ flowRecords (engine.flowStruct φ.bucket) := by
        rw [hst.flows.records]
        exact List.mem_map_of_mem hx
      obtain ⟨f, hf, hcount⟩ := hc.few m hm hkey x hrec hxk hxv
      rw [PacketCall.dataOff] at hf
      rw [hf] at hr
      obtain ⟨hflag, hhides⟩ := hr.hides hst.names hd hmem hcount
      refine ⟨by simp [toAnonOf, hflag], fun _ f' hf' ↦ ?_, fun h0 ↦ absurd h0 (by decide)⟩
      obtain rfl := Option.some.inj (hf.symm.trans hf')
      exact hhides
  refine ⟨⟨N', T', hst', hT', a', y', hy', hyk, hkept.1⟩, fun _ m' hm' ↦ ?_⟩
  obtain rfl := Option.some.inj (hm.symm.trans hm')
  exact hkept.2

/-! ## Runs -/

/-- Successive packets of the flow are at most `T_OUT` seconds apart. -/
def FlowGaps (φ : Flow) (calls : List PacketCall) : Prop :=
  (calls.filter fun c ↦ decide (c.flow.SameFlow φ)).IsChain fun c d ↦ d.tvSec - c.tvSec ≤ tOut

/-- The packets of a flow are treated alike: once the first packet that carries a name has been
hidden, every later packet handed to a module has its name hidden, and once it has been left alone,
every later one is. -/
def TreatedAlike (blockEncrypt : Block → Block) (setting : OutInterfaceSett) (start : Engine)
    (φ : Flow) (calls : List PacketCall) : Prop :=
  ∀ pre c mid d rest engine outs o r name ret engine₁ outs₁ m,
    calls = pre ++ c :: (mid ++ d :: rest) → c.flow.SameFlow φ → d.flow.SameFlow φ →
    (∀ e ∈ pre, e.flow.SameFlow φ → ∀ m, e.handed setting = some m →
        m.find e.packet e.dataOff = none) →
    runEngine blockEncrypt setting start pre = some (engine, outs) →
    c.run blockEncrypt setting engine = some o → o.handled = some r → r.counted = some (name, ret) →
    runEngine blockEncrypt setting o.engine mid = some (engine₁, outs₁) →
      d.handed setting = some m →
    ∃ o', d.run blockEncrypt setting engine₁ = some o' ∧
      (r.flag ≠ 0 → ∀ f, m.find d.packet d.dataOff = some f → o'.packet.Hides f.pos f.name.length) ∧
      (r.flag = 0 → o'.packet = d.packet)

/-- **The packets of a flow are treated alike** in every run of TCP packets that do no harm to the
decision about the flow. -/
theorem flow_treated_alike (hext : setting.anonExtIp ≠ 1) (hd : 0 ≤ setting.delta) (h4 : φ.ipv = 4)
    {self : CryptoIp} {calls : List PacketCall} (htcp : ∀ c ∈ calls, c.IsTcp)
    (hmem : ∀ c ∈ calls, c.env.MemoryOk)
    (hkeeps : EngineRunMeets blockEncrypt setting (fun engine c ↦ c.KeepsDecision setting φ engine)
      (Engine.init self) calls) :
    TreatedAlike blockEncrypt setting (Engine.init self) φ calls := by
  rintro pre c mid d rest engine outs o r name ret engine₁ outs₁ m rfl hcφ hdφ - hpre hc hr - hmid
    hm
  obtain ⟨hkpre, hk⟩ := PartialRun.meets_append.1 hkeeps
  obtain ⟨hkc, hk⟩ := hk engine outs hpre
  obtain ⟨hkmid, hk⟩ := PartialRun.meets_append.1 (hk _ o (engineStep_eq_some.2 ⟨hc, rfl⟩))
  obtain ⟨hkd, -⟩ := hk engine₁ outs₁ hmid
  have hckey := Flow.key_eq_iff.2 (.inl hcφ)
  have hdkey := Flow.key_eq_iff.2 (.inl hdφ)
  -- up to the packet that decides
  have hsingle : engine.Single φ := by
    refine PartialRun.run_invariant (I := fun e : Engine ↦ e.Single φ)
      (fun e b hb e' o' hI hP hstep ↦ ?_)
      ⟨_, _, engine_init_stands self, single_init φ⟩ hkpre hpre
    obtain ⟨ho, rfl⟩ := engineStep_eq_some.1 hstep
    exact single_step hext hd h4 (htcp b (by simp [hb])) (hmem b (by simp [hb])) hP hI ho
  have hdecided := decided_by hext hd h4 (htcp c (by simp)) (hmem c (by simp)) hkc hsingle hckey hc
    hr
  -- after it
  have hv : toAnonOf r.flag = 0 ∨ toAnonOf r.flag = 1 := by
    rw [toAnonOf]
    split <;> simp
  have htracks : engine₁.Tracks φ fun x ↦ x.toAnon = toAnonOf r.flag := by
    refine PartialRun.run_invariant (I := fun e : Engine ↦ e.Tracks φ fun x ↦
      x.toAnon = toAnonOf r.flag)
      (fun e b hb e' o' hI hP hstep ↦ ?_) hdecided hkmid hmid
    obtain ⟨ho, rfl⟩ := engineStep_eq_some.1 hstep
    exact (decided_step hv hext hd h4 (htcp b (by simp [hb])) (hmem b (by simp [hb])) hP hI ho).1
  -- the later packet
  obtain ⟨o', ho'⟩ : ∃ o', d.run blockEncrypt setting engine₁ = some o' := by
    obtain ⟨N, T, hst, -⟩ := htracks
    have hdtcp := htcp d (by simp)
    rw [run_tcp hext hdtcp, tcpPart_handed d.env ((if_pos hdtcp).symm.trans hm)]
    exact namePart_total hst (hmem d (by simp)) hd (hkd.fits m hm) ((hkd.spares m hm).safe hdkey).1
  obtain ⟨-, htreated⟩ :=
    decided_step hv hext hd h4 (htcp d (by simp)) (hmem d (by simp)) hkd htracks ho'
  obtain ⟨hhides, hsame⟩ := htreated hdkey m hm
  refine ⟨o', ho', fun hne ↦ hhides (if_pos hne), fun h0 ↦ hsame ?_⟩
  rw [h0]
  rfl

/-- A client asks for the host `a`. -/
def clientRequest (client : UInt8) (t : ℤ) : PacketCall :=
  .plain (tcpFrame [10, 0, 0, client] [10, 0, 0, 9] 40000 80
    [71, 69, 84, 32, 47, 32, 72, 84, 84, 80, 47, 49, 46, 49, 13, 10, 72, 111, 115, 116, 58, 32, 97,
        13, 10,
      13, 10]) t

/-- Two requests of one flow under the threshold 2. -/
theorem flow_treated_alike_twice :
    TreatedAlike id (.plain 2) (Engine.init .zero) (clientRequest 1 0).flow
    [clientRequest 1 0, clientRequest 1 1] := by
  have hplain : PacketEnv.plain.nameFlow.collects = false := by decide
  have hspares : ∀ φ flow fs, Spares φ flow PacketEnv.plain.nameFlow fs := fun φ flow fs ↦
    ⟨fun _ ↦ FlowCall.safe_of_not_collects (c := lookUpCall flow PacketEnv.plain.nameFlow) hplain
      fs,
      fun _ _ hgc ↦ absurd (hplain.symm.trans hgc) (by simp)⟩
  have hhttp₀ : (clientRequest 1 0).handed (.plain 2) = some .http := by decide +kernel
  have hhttp : (clientRequest 1 1).handed (.plain 2) = some .http := by decide +kernel
  have hfind : ModuleKind.http.find (clientRequest 1 0).packet (clientRequest 1 0).dataOff =
      some ⟨76, [97]⟩ := by
    decide +kernel
  have hfits : ∀ m f, some ModuleKind.http = some m →
      m.find (clientRequest 1 0).packet (clientRequest 1 0).dataOff = some f →
        f.name.length < nameDns := by
    intro m f hm hf
    obtain rfl := Option.some.inj hm
    obtain rfl := Option.some.inj (hfind.symm.trans hf)
    decide
  refine flow_treated_alike (by decide) (by decide) rfl (by decide +kernel)
    (fun c hc ↦ ?_) ⟨⟨fun m hm f hf ↦ hfits m f (hhttp₀.symm.trans hm) hf,
      fun _ _ ↦ hspares _ _ _, fun m hm _ x hx _ h1 ↦ ?_⟩, fun e o hstep ↦
      ⟨⟨fun m hm f hf ↦ hfits m f (hhttp.symm.trans hm) hf, fun _ _ ↦ hspares _ _ _,
        fun m hm _ x hx _ h1 ↦ ?_⟩, fun _ _ _ ↦ trivial⟩⟩
  · simp only [List.mem_cons, List.not_mem_nil, or_false] at hc
    rcases hc with rfl | rfl <;> exact memoryOk_plain
  · have hinit : ∀ x ∈ flowRecords ((Engine.init .zero).flowStruct (clientRequest 1 0).flow.bucket),
        x.toAnon ≠ 1 := by decide +kernel
    exact absurd h1 (hinit x hx)
  · obtain rfl : ModuleKind.http = m := Option.some.inj (hhttp.symm.trans hm)
    have hcount : (engineStep id (.plain 2) (clientRequest 1 0) (Engine.init .zero)).map
        (fun r ↦ r.1.count (.plain 2) (clientRequest 1 1).flow (clientRequest 1 1).env [97]) =
          some 1 := by
      decide +kernel
    rw [hstep, Option.map_some, Option.some.injEq] at hcount
    refine ⟨⟨76, [97]⟩, hfind, ?_⟩
    rw [hcount]
    decide

/-- Between two requests of a flow another client asks for the same host: the second request of the
flow is left in clear. -/
theorem flow_treated_alike_fails : ¬∀ (blockEncrypt : Block → Block) (setting : OutInterfaceSett)
    (self : CryptoIp) (φ : Flow) (calls : List PacketCall), setting.anonExtIp = 0 →
    setting.tls = 1 →
    setting.http = 1 → 0 ≤ setting.delta → φ.ipv = 4 → (∀ c ∈ calls, c.IsTcp) →
    (∀ c ∈ calls, c.env.MemoryOk) → calls.Pairwise (fun c d ↦ c.tvSec ≤ d.tvSec) →
      FlowGaps φ calls →
    TreatedAlike blockEncrypt setting (Engine.init self) φ calls := by
  intro h
  have hcalls := h id (.plain 2) .zero (clientRequest 1 0).flow
    [clientRequest 1 0, clientRequest 2 1, clientRequest 1 2] rfl rfl rfl (by decide)
      rfl (by decide +kernel)
    (fun c hc ↦ by
      simp only [List.mem_cons, List.not_mem_nil, or_false] at hc
      rcases hc with rfl | rfl | rfl <;> exact memoryOk_plain)
    (by decide +kernel) (by rw [FlowGaps]; decide +kernel)
  have hrun : ((clientRequest 1 0).run id (.plain 2) (Engine.init .zero)).bind (fun o ↦
      o.handled.bind fun r ↦ r.counted.bind fun x ↦
        (runEngine id (.plain 2) o.engine [clientRequest 2 1]).bind fun p ↦
          ((clientRequest 1 2).run id (.plain 2) p.1).map fun o' ↦ (r.flag, o'.packet.byte 76)) =
      some (1, 97) := by
    decide +kernel
  obtain ⟨o, ho, hrun⟩ := Option.bind_eq_some_iff.1 hrun
  obtain ⟨r, hr, hrun⟩ := Option.bind_eq_some_iff.1 hrun
  obtain ⟨⟨name, ret⟩, hcounted, hrun⟩ := Option.bind_eq_some_iff.1 hrun
  obtain ⟨⟨engine₁, outs₁⟩, hmid, hrun⟩ := Option.bind_eq_some_iff.1 hrun
  obtain ⟨o', ho', hrun⟩ := Option.map_eq_some_iff.1 hrun
  obtain ⟨hflag, hbyte⟩ : r.flag = 1 ∧ o'.packet.byte 76 = 97 := by simpa using hrun
  obtain ⟨o'', ho'', hhides, -⟩ := hcalls [] (clientRequest 1 0) [clientRequest 2 1]
    (clientRequest 1 2) []
    _ [] o r name ret engine₁ outs₁ .http rfl (by decide +kernel) (by decide +kernel)
      (by simp) rfl ho hr
    hcounted hmid (by decide +kernel)
  obtain rfl : o' = o'' := Option.some.inj (ho'.symm.trans ho'')
  have hfind : ModuleKind.http.find (clientRequest 1 2).packet (clientRequest 1 2).dataOff =
      some ⟨76, [97]⟩ := by
    decide +kernel
  have hletter := hhides (by rw [hflag]; decide) _ hfind 76 (by simp) (by simp)
  rw [hbyte] at hletter
  revert hletter
  decide

end AlphaMon
