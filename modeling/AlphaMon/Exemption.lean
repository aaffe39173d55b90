import AlphaMon.EngineRun
import AlphaMon.FlowLife

/-!
# What exempts a flow

A flow is exempt once the field `toAnon` of its record is `0`: from then on its packets are not
handed to the TLS and the HTTP module.  The field is meant to be set to `0` by a packet whose name
has enough users.  But `0` is also what a module returns when it finds no name, and the engine does
not tell the two apart.

`exempt_for_cause` says that this is the only other way: in a run in which every packet handed to a
module has a name that the module finds, a flow is exempt only because `table_add` has returned at
least `alpha` for a name of one of its packets.  It needs nothing of the table of flows, whose calls
never make a record exempt (`lookUp_keeps`).
-/

set_option autoImplicit false

namespace AlphaMon

/-! ## The table of flows and the decisions in it -/

/-- Every record is an old one, as far as its flow and the decision on it go, or has no decision. -/
def KeepsDecisions (mem mem' : Arena TableFlow) : Prop :=
  ∀ a c', mem'.cell a = some c' → c'.toAnon = -1 ∨
    ∃ c, mem.cell a = some c ∧ c.toAnon = c'.toAnon ∧ c.key = c'.key

namespace KeepsDecisions

variable {mem mem₁ mem' : Arena TableFlow} {p : Option ℕ} {f : TableFlow → TableFlow}

theorem refl (mem : Arena TableFlow) : KeepsDecisions mem mem := fun _ c hc ↦ .inr ⟨c, hc, rfl, rfl⟩

theorem trans (h₁ : KeepsDecisions mem mem₁) (h₂ : KeepsDecisions mem₁ mem') :
    KeepsDecisions mem mem' := by
  intro a c' hc'
  rcases h₂ a c' hc' with h | ⟨c₁, hc₁, hdec, hkey⟩
  · exact .inl h
  rcases h₁ a c₁ hc₁ with h | ⟨c, hc, hdec', hkey'⟩
  · exact .inl (hdec ▸ h)
  · exact .inr ⟨c, hc, hdec'.trans hdec, hkey'.trans hkey⟩

/-- A store that leaves the decision alone or withdraws it. -/
theorem modify (h : mem.modify p f = some mem')
    (hf : ∀ c, (f c).toAnon = -1 ∨ ((f c).toAnon = c.toAnon ∧ (f c).key = c.key)) :
    KeepsDecisions mem mem' := by
  cases p with
  | none => exact absurd h (by simp [Arena.modify])
  | some a =>
    obtain ⟨c, hc, rfl⟩ := Option.map_eq_some_iff.1 h
    intro b c' hc'
    simp only [Function.update_apply] at hc'
    split at hc'
    · next hb =>
      subst hb
      obtain rfl := Option.some.inj hc'
      exact (hf c).imp_right fun h ↦ ⟨c, hc, h.1.symm, h.2.symm⟩
    · exact .inr ⟨c', hc', rfl, rfl⟩

theorem free (h : mem.free p = some mem') : KeepsDecisions mem mem' := by
  cases p with
  | none => exact absurd h (by simp [Arena.free])
  | some a =>
    obtain ⟨c, hc, rfl⟩ := Option.map_eq_some_iff.1 h
    intro b c' hc'
    simp only [Function.update_apply] at hc'
    split at hc'
    · exact absurd hc' (by simp)
    · exact .inr ⟨c', hc', rfl, rfl⟩

theorem alloc (mem : Arena TableFlow) {c : TableFlow} (hc : c.toAnon = -1) :
    KeepsDecisions mem (mem.alloc c) := by
  intro b c' hc'
  simp only [Arena.alloc_cell, Function.update_apply] at hc'
  split at hc'
  · exact .inl (Option.some.inj hc' ▸ hc)
  · exact .inr ⟨c', hc', rfl, rfl⟩

theorem deleteFlow {tmp : ℕ} (h : AlphaMon.deleteFlow mem tmp p = some mem') :
    KeepsDecisions mem mem' := by
  simp only [AlphaMon.deleteFlow, Option.bind_eq_bind] at h
  obtain ⟨t, -, h⟩ := Option.bind_eq_some_iff.1 h
  obtain ⟨q, -, h⟩ := Option.bind_eq_some_iff.1 h
  obtain ⟨mem₂, hlinks, hfree⟩ := Option.bind_eq_some_iff.1 h
  refine trans ?_ (.free hfree)
  split at hlinks
  · obtain ⟨_, -, h⟩ := Option.bind_eq_some_iff.1 hlinks
    obtain ⟨_, -, h⟩ := Option.bind_eq_some_iff.1 h
    obtain ⟨m₁, hnext, h⟩ := Option.bind_eq_some_iff.1 h
    obtain ⟨_, -, h⟩ := Option.bind_eq_some_iff.1 h
    obtain ⟨_, -, hprev⟩ := Option.bind_eq_some_iff.1 h
    exact (modify hnext fun _ ↦ .inr ⟨rfl, rfl⟩).trans (modify hprev fun _ ↦ .inr ⟨rfl, rfl⟩)
  · obtain ⟨m₁, hnext, h⟩ := Option.bind_eq_some_iff.1 hlinks
    obtain ⟨_, -, hprev⟩ := Option.bind_eq_some_iff.1 h
    exact (modify hnext fun _ ↦ .inr ⟨rfl, rfl⟩).trans (modify hprev fun _ ↦ .inr ⟨rfl, rfl⟩)

theorem collect {data : Flow} {gc firstFree firstFree' : Bool} {curr : ℕ} {c : TableFlow}
    {curr' : Option ℕ}
    (h : AlphaMon.collect data gc mem curr c firstFree = some (mem', curr', firstFree')) :
    KeepsDecisions mem mem' := by
  rw [AlphaMon.collect] at h
  split at h
  · split at h
    · obtain ⟨m₁, hdel, h⟩ := Option.bind_eq_some_iff.1 h
      obtain ⟨rfl, -⟩ : m₁ = mem' ∧ _ := by simpa using h
      exact .deleteFlow hdel
    · obtain ⟨rfl, -⟩ : mem = mem' ∧ _ := by simpa using h
      exact refl mem
  · obtain ⟨rfl, -⟩ : mem = mem' ∧ _ := by simpa using h
    exact refl mem

/-- The walk leaves the decisions alone, and stops at a record of the flow. -/
theorem flowLoop {data : Flow} {gc : Bool} {fuel : ℕ} {curr last : Option ℕ} {firstFree : Bool}
    {res : ℕ ⊕ Option ℕ × Bool}
    (h : AlphaMon.flowLoop data gc fuel curr last firstFree mem = some (mem', res)) :
    KeepsDecisions mem mem' ∧
      ∀ a, res = .inl a → ∃ c, mem'.cell a = some c ∧ c.key = data.key := by
  induction fuel generalizing curr last firstFree mem with
  | zero =>
    cases curr with
    | none =>
      rw [AlphaMon.flowLoop] at h
      obtain ⟨rfl, rfl⟩ : mem = mem' ∧ _ = res := by simpa using h
      exact ⟨refl mem, by simp⟩
    | some curr => exact absurd h (by simp [AlphaMon.flowLoop])
  | succ fuel ih =>
    cases curr with
    | none =>
      rw [AlphaMon.flowLoop] at h
      obtain ⟨rfl, rfl⟩ : mem = mem' ∧ _ = res := by simpa using h
      exact ⟨refl mem, by simp⟩
    | some curr =>
      rw [AlphaMon.flowLoop] at h
      obtain ⟨c, hc, h⟩ := Option.bind_eq_some_iff.1 h
      split at h
      · next hm =>
        obtain ⟨m₁, hmod, h⟩ := Option.bind_eq_some_iff.1 h
        obtain ⟨rfl, rfl⟩ : m₁ = mem' ∧ .inl curr = res := by simpa using h
        refine ⟨modify hmod fun _ ↦ .inr ⟨rfl, rfl⟩, fun a ha ↦ ?_⟩
        obtain rfl : curr = a := by simpa using ha
        rw [Arena.modify_of_cell hc] at hmod
        obtain rfl := Option.some.inj hmod
        exact ⟨_, Function.update_self .., FlowRec.matches_iff.1 hm⟩
      · obtain ⟨⟨m₁, curr₁, ff₁⟩, hcoll, h⟩ := Option.bind_eq_some_iff.1 h
        obtain ⟨c₁, -, h⟩ := Option.bind_eq_some_iff.1 h
        obtain ⟨hkeeps, hret⟩ := ih h
        exact ⟨(KeepsDecisions.collect hcoll).trans hkeeps, hret⟩

/-- **A call of `reference_flow`** leaves the decisions alone and returns a record of the flow. -/
theorem referenceFlowBucket {data : Flow} {env : FlowEnv} {a : ℕ}
    (h : AlphaMon.referenceFlowBucket mem data env = some (mem', a)) :
    KeepsDecisions mem mem' ∧ ∃ c, mem'.cell a = some c ∧ c.key = data.key := by
  simp only [AlphaMon.referenceFlowBucket, Option.bind_eq_bind] at h
  obtain ⟨⟨m₁, res⟩, hloop, h⟩ := Option.bind_eq_some_iff.1 h
  obtain ⟨hkeeps, hret⟩ := flowLoop hloop
  obtain curr | ⟨last, firstFree⟩ := res
  · obtain ⟨rfl, rfl⟩ : m₁ = mem' ∧ curr = a := by simpa using h
    exact ⟨hkeeps, hret curr rfl⟩
  simp only at h
  split at h
  · -- the embedded record becomes the flow's
    obtain ⟨m₂, hmod, h⟩ := Option.bind_eq_some_iff.1 h
    obtain ⟨rfl, rfl⟩ : m₂ = mem' ∧ 0 = a := by simpa using h
    refine ⟨hkeeps.trans (modify hmod fun _ ↦ .inl rfl), ?_⟩
    obtain ⟨c, hc, rfl⟩ := Option.map_eq_some_iff.1 hmod
    exact ⟨⟨c.toFlowRec.fill data, c.prev, c.next⟩, by simp, rfl⟩
  · obtain ⟨junk, -, h⟩ := Option.bind_eq_some_iff.1 h
    obtain ⟨m₂, hmod, h⟩ := Option.bind_eq_some_iff.1 h
    obtain ⟨rfl, rfl⟩ : m₂.alloc ⟨junk.fill data, last, none⟩ = mem' ∧ m₁.fresh = a := by
      simpa using h
    have hfresh : m₂.fresh = m₁.fresh := by
      cases last with
      | none => exact absurd hmod (by simp [Arena.modify])
      | some q =>
        obtain ⟨_, -, rfl⟩ := Option.map_eq_some_iff.1 hmod
        rfl
    refine ⟨(hkeeps.trans (modify hmod fun _ ↦ .inr ⟨rfl, rfl⟩)).trans (.alloc _ rfl), ?_⟩
    exact ⟨⟨junk.fill data, last, none⟩, by
      rw [← hfresh, Arena.alloc_cell, Function.update_self], rfl⟩

end KeepsDecisions

variable {flow : Flow} {db db' : FlowTable} {env : FlowEnv} {a : ℕ} {y : FlowRec}

/-- **Looking up a flow** leaves the decisions alone and returns the flow's record. -/
theorem lookUp_keeps (h : lookUp flow db env = some (db', a, y)) :
    (∀ b, KeepsDecisions (db b) (db' b)) ∧ db'.recordAt flow.bucket a = some y ∧
      y.key = flow.key := by
  simp only [lookUp, Option.bind_eq_bind] at h
  obtain ⟨⟨db₁, a₁⟩, href, h⟩ := Option.bind_eq_some_iff.1 h
  obtain ⟨c, hc, h⟩ := Option.bind_eq_some_iff.1 h
  obtain ⟨rfl, rfl, rfl⟩ : db₁ = db' ∧ a₁ = a ∧ c.toFlowRec = y := by simpa using h
  simp only [referenceFlow, Option.bind_eq_bind] at href
  obtain ⟨⟨mem, a₂⟩, hbucket, h⟩ := Option.bind_eq_some_iff.1 href
  obtain ⟨rfl, rfl⟩ : Function.update db flow.bucket mem = db₁ ∧ a₂ = a₁ := by simpa using h
  obtain ⟨hkeeps, c', hc', hkey⟩ := KeepsDecisions.referenceFlowBucket hbucket
  refine ⟨fun b ↦ ?_, ?_, ?_⟩
  · by_cases hb : b = flow.bucket
    · subst hb
      rwa [Function.update_self]
    · rw [Function.update_of_ne hb]
      exact .refl _
  · simp only at hc
    rw [FlowTable.recordAt, hc]
    rfl
  · simp only [Function.update_self] at hc
    rw [← Option.some.inj (hc'.symm.trans hc), hkey]

/-- The record after a store, and the others. -/
theorem storeRecord_recordAt {f : FlowRec → FlowRec} (h : storeRecord flow db a f = some db')
    (b a' : ℕ) :
    db'.recordAt b a' = if b = flow.bucket ∧ a' = a then (db.recordAt b a').map f
      else db.recordAt b a' := by
  simp only [storeRecord, storeFlow, Option.bind_eq_bind] at h
  obtain ⟨mem, hmod, h⟩ := Option.bind_eq_some_iff.1 h
  obtain rfl := Option.some.inj h
  obtain ⟨c, hc, rfl⟩ := Option.map_eq_some_iff.1 hmod
  simp only [FlowTable.recordAt]
  by_cases hb : b = flow.bucket
  · subst hb
    rw [Function.update_self]
    by_cases ha : a' = a
    · subst ha
      simp [hc]
    · simp [ha]
  · rw [Function.update_of_ne hb, if_neg (by tauto)]

/-! ## Exempt records -/

/-- The record at an address of a bucket is exempt. -/
def FlowTable.Exempt (db : FlowTable) (b a : ℕ) : Prop :=
  ∃ x, db.recordAt b a = some x ∧ x.toAnon = 0

/-- A record that is exempt after a flow was looked up was exempt before. -/
theorem exempt_of_lookUp (h : lookUp flow db env = some (db', a, y)) {b a' : ℕ} {x : FlowRec}
    (hx : db'.recordAt b a' = some x) (h0 : x.toAnon = 0) :
    ∃ x₀, db.recordAt b a' = some x₀ ∧ x₀.toAnon = 0 ∧ x₀.key = x.key := by
  obtain ⟨c', hc', rfl⟩ := Option.map_eq_some_iff.1 hx
  rcases (lookUp_keeps h).1 b a' c' hc' with h | ⟨c, hc, hdec, hkey⟩
  · rw [h] at h0
    exact absurd h0 (by decide)
  · exact ⟨c.toFlowRec, by simp [FlowTable.recordAt, hc], hdec.trans h0, hkey⟩

variable {blockEncrypt : Block → Block} {setting : OutInterfaceSett}

/-- The packet is handed to a module that finds a name in it, or that returns something else than
`0` when it finds none, unless its flow is exempt. -/
def PacketCall.NameFound (setting : OutInterfaceSett) (engine : Engine) (c : PacketCall) : Prop :=
  ∀ m fs a y, c.handed setting = some m →
    lookUp c.flow engine.flowStruct c.env.nameFlow = some (fs, a, y) → y.toAnon ≠ 0 →
    (m.find c.packet c.dataOff).isSome ∨
      m.giveUp c.packet c.dataOff c.env.handler.noReturn ≠ 0

/-- What a packet did that exempted its flow: it was handed to a module, which passed a name of the
packet to `table_add` and got at least `alpha`. -/
def Outcome.HasCause (setting : OutInterfaceSett) (c : PacketCall) (o : Outcome) : Prop :=
  ∃ m r f ret, c.handed setting = some m ∧ o.handled = some r ∧
    m.find c.packet c.dataOff = some f ∧ r.counted = some (f.name, ret) ∧ setting.alpha ≤ ret

/-- A packet set the field `toAnon` of the record at an address to `0`: the look-up of its flow
returned the record, not exempt yet, and afterwards it is. -/
def PacketCall.Exempts (c : PacketCall) (engine : Engine) (o : Outcome) (b a : ℕ) : Prop :=
  c.flow.bucket = b ∧ o.engine.flowStruct.Exempt b a ∧
    ∃ fs y, lookUp c.flow engine.flowStruct c.env.nameFlow = some (fs, a, y) ∧ y.toAnon ≠ 0

/-- **One packet**: a record that is exempt after it was exempt before, or the packet exempted it,
for a cause. -/
theorem exempt_step {c : PacketCall} {engine : Engine} {o : Outcome} (hext : setting.anonExtIp ≠ 1)
    (hc : c.NameFound setting engine) (h : c.run blockEncrypt setting engine = some o) {b a : ℕ}
    {x : FlowRec} (hx : o.engine.flowStruct.recordAt b a = some x) (h0 : x.toAnon = 0) :
    (∃ x₀, engine.flowStruct.recordAt b a = some x₀ ∧ x₀.toAnon = 0 ∧ x₀.key = x.key) ∨
    (c.Exempts engine o b a ∧ x.key = c.flow.key ∧ o.HasCause setting c) := by
  rcases run_cases hext h with ⟨-, hfs, -⟩ | ⟨m, hm, hpart⟩
  · rw [hfs] at hx
    exact .inl ⟨x, hx, h0, rfl⟩
  obtain ⟨fs, a₁, y, hlook, ⟨-, rfl⟩ | ⟨hy, r, fs', hr, hstore, rfl⟩⟩ := namePart_cases hpart
  · exact .inl (exempt_of_lookUp hlook hx h0)
  have hexempt : FlowTable.Exempt fs' b a := ⟨x, hx, h0⟩
  rw [storeRecord_recordAt hstore] at hx
  split at hx
  swap
  · exact .inl (exempt_of_lookUp hlook hx h0)
  -- the record of the packet's flow
  next hba =>
  obtain ⟨rfl, rfl⟩ := hba
  obtain ⟨-, hrec, hkey⟩ := lookUp_keeps hlook
  rw [hrec] at hx
  obtain rfl := Option.some.inj hx
  have hflag : r.flag = 0 := by
    by_contra hne
    simp [toAnonOf, hne] at h0
  have hy0 : y.toAnon ≠ 0 := by
    rcases hy with h | h <;> rw [h] <;> decide
  refine .inr ⟨⟨rfl, hexempt, fs, y, hlook, hy0⟩, hkey, ?_⟩
  have hfound := hc m fs a y hm hlook hy0
  have hrep := ModuleKind.reported hr
  rw [← PacketCall.dataOff] at hrep
  generalize hf : m.find c.packet c.dataOff = found at hrep hfound
  cases hrep with
  | none => exact absurd hflag (hfound.resolve_left (by simp))
  | below => exact absurd hflag (by simp)
  | above hadd hle => exact ⟨m, _, _, _, hm, rfl, hf, rfl, hle⟩

/-- In a run that has come to the state `engine`, the record at an address was exempted by a packet
of its flow, for a cause, and has been exempt since. -/
def ExemptedForCause (blockEncrypt : Block → Block) (setting : OutInterfaceSett) (start : Engine)
    (calls : List PacketCall) (engine : Engine) (b a : ℕ) (x : FlowRec) : Prop :=
  ∃ pre c post engine₀ outs₀ o outs₁, calls = pre ++ c :: post ∧
    runEngine blockEncrypt setting start pre = some (engine₀, outs₀) ∧
    c.run blockEncrypt setting engine₀ = some o ∧ c.Exempts engine₀ o b a ∧ x.key = c.flow.key ∧
    o.HasCause setting c ∧
    runEngine blockEncrypt setting o.engine post = some (engine, outs₁) ∧
    ∀ o' ∈ outs₁, o'.engine.flowStruct.Exempt b a

/-- **A flow is exempted only for a cause**: in every run in which the modules find the names of the
packets they are handed, a record that is exempt was exempted by a packet of its flow, with a name
for which `table_add` returned at least `alpha`. -/
theorem exempt_for_cause (hext : setting.anonExtIp ≠ 1) {self : CryptoIp} {calls : List PacketCall}
    (hfound : EngineRunMeets blockEncrypt setting (fun engine c ↦ c.NameFound setting engine)
      (Engine.init self) calls)
    {engine : Engine} {outs : List Outcome}
    (hrun : runEngine blockEncrypt setting (Engine.init self) calls = some (engine, outs)) {b a : ℕ}
    {x : FlowRec} (hx : engine.flowStruct.recordAt b a = some x) (h0 : x.toAnon = 0) :
    ExemptedForCause blockEncrypt setting (Engine.init self) calls engine b a x := by
  induction calls using List.reverseRecOn generalizing engine outs x with
  | nil =>
    -- no record is exempt before the first packet
    obtain ⟨rfl, -⟩ : Engine.init self = engine ∧ _ := by simpa using hrun
    obtain ⟨c, hc, rfl⟩ := Option.map_eq_some_iff.1 hx
    simp only [Engine.init, flowTableInit] at hc
    split at hc
    · obtain rfl := Option.some.inj hc
      exact absurd h0 (by decide)
    · exact absurd hc (by simp)
  | append_singleton calls c ih =>
    obtain ⟨engine₁, outs₁, outs₂, hrun₁, hlast, -⟩ := PartialRun.run_append_eq_some.1 hrun
    obtain ⟨hfound₁, hfoundc⟩ := PartialRun.meets_append.1 hfound
    obtain ⟨o, hstep, -⟩ := PartialRun.run_singleton_eq_some.1 hlast
    obtain ⟨ho, rfl⟩ := engineStep_eq_some.1 hstep
    rcases exempt_step hext (hfoundc _ _ hrun₁).1 ho hx h0 with ⟨x₀, hx₀, h0₀, hkey₀⟩ | ⟨hset, hkey,
      hcause⟩
    · obtain ⟨pre, c', post, engine₀, outs₀, o', outs', rfl, hpre, ho', hset, hkey, hcause, hpost,
        hstay⟩ :=
        ih hfound₁ hrun₁ hx₀ h0₀
      refine ⟨pre, c', post ++ [c], engine₀, outs₀, o', outs' ++ [o], by simp, hpre, ho', hset,
        hkey₀ ▸ hkey, hcause, PartialRun.run_append_eq_some.2 ⟨_, outs', [o], hpost,
          PartialRun.run_singleton_eq_some.2 ⟨o, hstep, rfl⟩, rfl⟩, ?_⟩
      intro o'' ho''
      rcases List.mem_append.1 ho'' with h | h
      · exact hstay o'' h
      · obtain rfl : o'' = o := by simpa using h
        exact ⟨x, hx, h0⟩
    · exact ⟨calls, c, [], engine₁, outs₁, o, [], rfl, hrun₁, ho, hset, hkey, hcause, rfl, by simp⟩

/-- A frame with a request from a client to a server. -/
def requestFrame (payload : List UInt8) :
    Packet := tcpFrame [10, 0, 0, 1] [10, 0, 0, 2] 40000 80 payload

/-- `GET / HTTP/1.1` with the field `Host: a`. -/
def popularRequest : List UInt8 :=
  [71, 69, 84, 32, 47, 32, 72, 84, 84, 80, 47, 49, 46, 49, 13, 10, 72, 111, 115, 116, 58, 32, 97,
    13, 10, 13,
    10]

/-- `GET /`. -/
def hostlessRequest : List UInt8 := [71, 69, 84, 32, 47, 13, 10]

/-- A request with a Host field, under the threshold 1: it exempts its flow, for a cause. -/
theorem exempt_for_cause_popular : ∃ engine outs b a x,
    runEngine id (.plain 1) (Engine.init .zero) [.plain (requestFrame popularRequest) 0] =
      some (engine, outs) ∧
    engine.flowStruct.recordAt b a = some x ∧ x.toAnon = 0 ∧
    ExemptedForCause id (.plain 1) (Engine.init .zero) [.plain (requestFrame popularRequest) 0]
      engine
      b a x := by
  have hrun : ((runEngine id (.plain 1) (Engine.init .zero)
      [.plain (requestFrame popularRequest) 0]).bind fun r ↦
        (r.1.flowStruct.recordAt 371531 1).map FlowRec.toAnon) = some 0 := by
    decide +kernel
  obtain ⟨⟨engine, outs⟩, hr, hx⟩ := Option.bind_eq_some_iff.1 hrun
  obtain ⟨x, hx, h0⟩ := Option.map_eq_some_iff.1 hx
  have hfound : EngineRunMeets id (.plain 1) (fun engine c ↦ c.NameFound (.plain 1) engine)
      (Engine.init .zero) [.plain (requestFrame popularRequest) 0] := by
    refine ⟨fun m fs a y hm _ _ ↦ ?_, fun _ _ _ ↦ trivial⟩
    have hhttp : (PacketCall.plain (requestFrame popularRequest) 0).handed (.plain 1) =
      some .http := by
      decide +kernel
    obtain rfl : ModuleKind.http = m := Option.some.inj (hhttp.symm.trans hm)
    exact .inl (by decide +kernel)
  exact ⟨engine, outs, 371531, 1, x, hr, hx, h0, exempt_for_cause (by decide) hfound hr hx h0⟩

/-- A request without a Host field exempts its flow. -/
theorem exempt_for_cause_fails : ¬∀ (blockEncrypt : Block → Block) (setting : OutInterfaceSett)
    (self : CryptoIp) (calls : List PacketCall) (engine : Engine) (outs : List Outcome) (b a : ℕ)
    (x : FlowRec), setting.anonExtIp = 0 →
    runEngine blockEncrypt setting (Engine.init self) calls = some (engine, outs) →
    engine.flowStruct.recordAt b a = some x → x.toAnon = 0 →
    ExemptedForCause blockEncrypt setting (Engine.init self) calls engine b a x := by
  intro h
  have hrun : ((runEngine id (.plain 2) (Engine.init .zero)
    [.plain (requestFrame hostlessRequest) 0]).bind
      fun r ↦ (r.1.flowStruct.recordAt 371531 1).map FlowRec.toAnon) = some 0 := by
    decide +kernel
  obtain ⟨⟨engine, outs⟩, hr, hx⟩ := Option.bind_eq_some_iff.1 hrun
  obtain ⟨x, hx, h0⟩ := Option.map_eq_some_iff.1 hx
  obtain ⟨pre, c, post, _, _, o, _, hcalls, -, -, -, -, ⟨m, r, f, ret, hm, -, hf, -⟩, -⟩ :=
    h id (.plain 2) .zero _ engine outs 371531 1 x rfl hr hx h0
  obtain ⟨rfl, rfl, -⟩ : [] = pre ∧ PacketCall.plain (requestFrame hostlessRequest) 0 = c ∧
    [] = post := by
    cases pre with
    | nil => simpa using hcalls
    | cons e pre => simp at hcalls
  have hhttp : (PacketCall.plain (requestFrame hostlessRequest) 0).handed (.plain 2) =
    some .http := by
    decide +kernel
  obtain rfl : ModuleKind.http = m := Option.some.inj (hhttp.symm.trans hm)
  have hfind : httpName (requestFrame hostlessRequest) 0x50 = none := by decide +kernel
  exact absurd (hfind.symm.trans hf) (by simp)

end AlphaMon
