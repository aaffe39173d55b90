import AlphaMon.Exemption
import AlphaMon.Interfaces

/-!
# The packets of one interface

Two runs of `main_loop` over the same packets, in which the settings of one interface `d₁` and the
random choices for it differ.  While its packets are treated alike the runs are in lockstep
(`runs_lockstep`), and once the other interface `d₂` looks into no table they may go apart
(`run_apart`).  So `d₂` sends the same as far as both runs go (`runs_alike`), and all the same if
neither fails.

In one run, what `d₁` contributes to the packets of `d₂` are its decisions to exempt a flow.  If
they would do under the threshold of `d₂` as well (`DecidesWithin`), a flow that a packet for `d₂`
finds exempt was exempted for a name with that many users, whoever the decision was for
(`exempted_within`).  `emitted_alike` puts the two together.
-/

set_option autoImplicit false

namespace AlphaMon

variable {blockEncrypt : Block → Block} {s s' : OutInterfaceSett} {c : PacketCall} {engine : Engine}

/-! ## Two runs -/

/-- Two calls are the same but for the random choices made for an interface. -/
structure AlikeBut (d₁ : ℕ) (x x' : PacketCopy) : Prop where
  port : x'.port = x.port
  packet : x'.packet = x.packet
  tvSec : x'.tvSec = x.tvSec
  env : x.port ≠ d₁ → x'.env = x.env

/-- Two settings and the random choices agree on what the engine reads for a packet. -/
structure AgreeFor (nets : Nets) (s s' : OutInterfaceSett) (x x' : PacketCopy) : Prop where
  reads : ForEngine nets s (processPacketEth x.packet s x.tvSec) → ReadsAlike s s' (x.call nets s)
  env : x.Consults nets s → x'.env = x.env

/-- The packets for `d₂` are isolated from the settings of `d₁`: every packet for `d₁` is treated
alike, or comes so late that no later packet for `d₂` makes the engine look into its tables. -/
def Isolated (nets : Nets) (out : ℕ → OutInterfaceSett) (d₁ d₂ : ℕ) (s s' : OutInterfaceSett)
    (calls calls' : List PacketCopy) : Prop :=
  ∀ pre x x' post, calls.zip calls' = pre ++ (x, x') :: post → x.port = d₁ →
    AgreeFor nets s s' x x' ∨ ∀ y ∈ post, y.1.port = d₂ → ¬y.1.Consults nets (out d₂)

section Runs

variable {cipher : ℕ → Block → Block} {out : ℕ → OutInterfaceSett} {d₁ d₂ : ℕ} {w w' w₁ w₁' : World}
  {x x' : PacketCopy} {p p' : Packet} {calls calls' : List PacketCopy} {ps ps' : List Packet}

theorem worldStep_eq_some : worldStep cipher out x w = some (w₁, p) ↔
    ∃ o, processPacket (cipher x.port) w.nets (out x.port) x.packet x.tvSec
      (w.engine x.port) x.env = some o ∧
      w₁ = w.leave x.port o.engine ∧ p = o.packet := by
  simp only [worldStep, Option.bind_eq_bind, Option.bind_eq_some_iff, Option.some.injEq,
    Prod.mk.injEq,
    eq_comm (b := w₁), eq_comm (b := p)]

theorem emitted_cons (d : ℕ) (x : PacketCopy) (p : Packet) (calls : List PacketCopy)
    (ps : List Packet) :
    emitted d (x :: calls) (p :: ps) = if x.port = d then p :: emitted d calls ps
      else emitted d calls ps := by
  by_cases h : x.port = d <;> simp [emitted, h]

/-- **A step in lockstep.** -/
theorem step_alike (hs : SameButEngine s s') (hx : AlikeBut d₁ x x')
    (h : x.port = d₁ → AgreeFor w.nets s s' x x') :
    worldStep cipher (Function.update out d₁ s) x w = worldStep cipher (Function.update out d₁ s')
      x' w := by
  rw [worldStep, worldStep, hx.port, hx.packet, hx.tvSec]
  by_cases hport : x.port = d₁
  · obtain ⟨hreads, henv⟩ := h hport
    have heq : processPacket (cipher x.port) w.nets s x.packet x.tvSec (w.engine x.port) x.env =
        processPacket (cipher x.port) w.nets s' x.packet x.tvSec (w.engine x.port) x'.env := by
      rw [← processPacket_alike hs hreads]
      by_cases hc : x.Consults w.nets s
      · rw [henv hc]
      · obtain ⟨r, hr⟩ := processPacket_blind (cipher x.port) hc
        rw [hr, hr]
    rw [hport, Function.update_self, Function.update_self, ← hport, heq]
  · rw [Function.update_of_ne hport, Function.update_of_ne hport, hx.env hport]

/-- Two worlds look the same to packets that look into no table. -/
def SameFor (d₂ : ℕ) (w w' : World) : Prop := w.nets = w'.nets ∧ w.cryptoData d₂ = w'.cryptoData d₂

/-- **A step apart.** -/
theorem step_blind (hd : d₁ ≠ d₂) (hx : AlikeBut d₁ x x') (hw : SameFor d₂ w w')
    (h : x.port = d₂ → ¬x.Consults w.nets (out d₂))
    (hstep : worldStep cipher (Function.update out d₁ s) x w = some (w₁, p))
    (hstep' : worldStep cipher (Function.update out d₁ s') x' w' = some (w₁', p')) :
    SameFor d₂ w₁ w₁' ∧ (x.port = d₂ → p = p') := by
  obtain ⟨o, ho, rfl, rfl⟩ := worldStep_eq_some.1 hstep
  obtain ⟨o', ho', rfl, rfl⟩ := worldStep_eq_some.1 hstep'
  by_cases hport : x.port = d₂
  · obtain ⟨r, hr⟩ := processPacket_blind (cipher x.port) (h hport)
    rw [hx.port, hx.packet, hx.tvSec, hport, Function.update_of_ne hd.symm, ← hw.1] at ho'
    rw [hport, Function.update_of_ne hd.symm] at ho
    rw [hport] at hr
    rw [hr] at ho ho'
    obtain ⟨y, hy, rfl⟩ := Option.map_eq_some_iff.1 ho
    obtain ⟨y', hy', rfl⟩ := Option.map_eq_some_iff.1 ho'
    have hself : (w'.engine d₂).self = (w.engine d₂).self := hw.2.symm
    rw [hself, hy] at hy'
    obtain rfl := Option.some.inj hy'
    refine ⟨⟨hw.1, ?_⟩, fun _ ↦ rfl⟩
    rw [World.leave, World.leave, hx.port, hport]
    simp only [Function.update_self]
  · refine ⟨⟨hw.1, ?_⟩, fun h ↦ absurd h hport⟩
    rw [World.leave, World.leave, hx.port]
    simp only [Function.update_of_ne (Ne.symm hport)]
    exact hw.2

/-- Every call of the first run has one of the second. -/
theorem exists_zip_mem {R : PacketCopy → PacketCopy → Prop} {y : PacketCopy}
    (h : List.Forall₂ R calls calls') (hy : y ∈ calls) : ∃ y', (y, y') ∈ calls.zip calls' := by
  induction h with
  | nil => exact absurd hy List.not_mem_nil
  | cons _ _ ih =>
    rcases List.mem_cons.1 hy with rfl | hy
    · exact ⟨_, List.mem_cons_self⟩
    · obtain ⟨y', hy'⟩ := ih hy
      exact ⟨y', List.mem_cons_of_mem _ hy'⟩

/-- One of two lists of packets goes on where the other ends. -/
def AgreeSoFar (ps ps' : List Packet) : Prop := ps <+: ps' ∨ ps' <+: ps

theorem AgreeSoFar.cons (h : AgreeSoFar ps ps') (p : Packet) : AgreeSoFar (p :: ps) (p :: ps') :=
  h.imp (fun h ↦ List.cons_prefix_cons.2 ⟨rfl, h⟩) fun h ↦ List.cons_prefix_cons.2 ⟨rfl, h⟩

/-- The packets sent on an interface before the end of a run, or before a packet on which it
fails. -/
abbrev emittedOf (cipher : ℕ → Block → Block) (out : ℕ → OutInterfaceSett) (d : ℕ) (w : World)
    (calls : List PacketCopy) : List Packet :=
  emitted d calls (PartialRun.outputs (worldStep cipher out) w calls)

theorem emittedOf_nil (d : ℕ) : emittedOf cipher out d w [] = [] := rfl

theorem emittedOf_cons_none {d : ℕ} (h : worldStep cipher out x w = none) :
    emittedOf cipher out d w (x :: calls) = [] := by
  rw [emittedOf, PartialRun.outputs, h, emitted, List.zip_nil_right]
  rfl

theorem emittedOf_cons_some {d : ℕ} (h : worldStep cipher out x w = some (w₁, p)) :
    emittedOf cipher out d w (x :: calls) =
      if x.port = d then p :: emittedOf cipher out d w₁ calls
        else emittedOf cipher out d w₁ calls := by
  rw [emittedOf, PartialRun.outputs, h]
  exact emitted_cons d x p calls _

/-- Runs in which no packet for `d₂` makes the engine look into a table. -/
theorem run_apart (hd : d₁ ≠ d₂) (hcalls : List.Forall₂ (AlikeBut d₁) calls calls')
    (hw : SameFor d₂ w w') (h : ∀ y ∈ calls, y.port = d₂ → ¬y.Consults w.nets (out d₂)) :
    AgreeSoFar (emittedOf cipher (Function.update out d₁ s) d₂ w calls)
      (emittedOf cipher (Function.update out d₁ s') d₂ w' calls') := by
  induction hcalls generalizing w w' with
  | nil => exact .inl List.nil_prefix
  | @cons x x' calls calls' hx hcalls ih =>
    cases hstep : worldStep cipher (Function.update out d₁ s) x w with
    | none =>
      rw [emittedOf_cons_none hstep]
      exact .inl List.nil_prefix
    | some r =>
      cases hstep' : worldStep cipher (Function.update out d₁ s') x' w' with
      | none =>
        rw [emittedOf_cons_none hstep']
        exact .inr List.nil_prefix
      | some r' =>
        obtain ⟨hw₂, hp⟩ := step_blind hd hx hw (h _ List.mem_cons_self) hstep hstep'
        have hnets : r.1.nets = w.nets := by
          obtain ⟨o, -, hr, -⟩ := worldStep_eq_some.1 hstep
          rw [hr]
          rfl
        have htail := ih hw₂ fun y hy ↦ hnets ▸ h y (List.mem_cons_of_mem _ hy)
        rw [emittedOf_cons_some hstep, emittedOf_cons_some hstep', hx.port]
        split_ifs with hport
        · rw [hp hport]
          exact htail.cons _
        · exact htail

/-- **The packets of one interface**, when it is isolated from the settings of the other. -/
theorem runs_alike (hd : d₁ ≠ d₂) (hs : SameButEngine s s')
    (hcalls : List.Forall₂ (AlikeBut d₁) calls calls')
    (h : Isolated w.nets out d₁ d₂ s s' calls calls') :
    AgreeSoFar (emittedOf cipher (Function.update out d₁ s) d₂ w calls)
      (emittedOf cipher (Function.update out d₁ s') d₂ w calls') := by
  induction hcalls generalizing w with
  | nil => exact .inl List.nil_prefix
  | @cons x x' calls calls' hx hcalls ih =>
    by_cases halike : x.port = d₁ → AgreeFor w.nets s s' x x'
    · -- The runs stay in the same state, or fail both.
      have heq : worldStep cipher (Function.update out d₁ s) x w =
          worldStep cipher (Function.update out d₁ s') x' w := step_alike hs hx halike
      cases hstep : worldStep cipher (Function.update out d₁ s) x w with
      | none =>
        rw [emittedOf_cons_none hstep]
        exact .inl List.nil_prefix
      | some r =>
        have hnets : r.1.nets = w.nets := by
          obtain ⟨o, -, hr, -⟩ := worldStep_eq_some.1 hstep
          rw [hr]
          rfl
        have htail := ih fun pre y y' post hzip ↦
          hnets ▸ h ((x, x') :: pre) y y' post (by simp [hzip])
        rw [emittedOf_cons_some hstep, emittedOf_cons_some (heq ▸ hstep), hx.port]
        split_ifs
        · exact htail.cons _
        · exact htail
    · -- From here on, the interface looks into no table.
      push Not at halike
      obtain ⟨hport, hnot⟩ := halike
      have hblind := (h [] x x' _ rfl hport).resolve_left hnot
      have hne : x.port ≠ d₂ := fun h ↦ hd (hport.symm.trans h)
      cases hstep : worldStep cipher (Function.update out d₁ s) x w with
      | none =>
        rw [emittedOf_cons_none hstep]
        exact .inl List.nil_prefix
      | some r =>
        cases hstep' : worldStep cipher (Function.update out d₁ s') x' w with
        | none =>
          rw [emittedOf_cons_none hstep']
          exact .inr List.nil_prefix
        | some r' =>
          obtain ⟨hw₂, -⟩ := step_blind hd hx ⟨rfl, rfl⟩ (fun h ↦ absurd h hne) hstep hstep'
          have hnets : r.1.nets = w.nets := by
            obtain ⟨o, -, hr, -⟩ := worldStep_eq_some.1 hstep
            rw [hr]
            rfl
          rw [emittedOf_cons_some hstep, emittedOf_cons_some hstep', hx.port, if_neg hne,
            if_neg hne]
          refine run_apart hd hcalls hw₂ fun y hy hy₂ ↦ ?_
          obtain ⟨y', hmem⟩ := exists_zip_mem hcalls hy
          exact hnets ▸ hblind (y, y') hmem hy₂

/-- Runs in lockstep send the same, and fail at the same packet. -/
theorem runs_lockstep (hs : SameButEngine s s') (hcalls : List.Forall₂ (AlikeBut d₁) calls calls')
    (h : ∀ y ∈ calls.zip calls', y.1.port = d₁ → AgreeFor w.nets s s' y.1 y.2) :
    emittedOf cipher (Function.update out d₁ s) d₂ w calls =
      emittedOf cipher (Function.update out d₁ s') d₂ w calls' := by
  induction hcalls generalizing w with
  | nil => rw [emittedOf_nil, emittedOf_nil]
  | @cons x x' calls calls' hx hcalls ih =>
    have heq : worldStep cipher (Function.update out d₁ s) x w =
        worldStep cipher (Function.update out d₁ s') x' w :=
          step_alike hs hx (h _ List.mem_cons_self)
    cases hstep : worldStep cipher (Function.update out d₁ s) x w with
    | none => rw [emittedOf_cons_none hstep, emittedOf_cons_none (heq ▸ hstep)]
    | some r =>
      have hnets : r.1.nets = w.nets := by
        obtain ⟨o, -, hr, -⟩ := worldStep_eq_some.1 hstep
        rw [hr]
        rfl
      have htail := ih (w := r.1) fun y hy hport ↦
        hnets.symm ▸ h y (List.mem_cons_of_mem _ hy) hport
      rw [emittedOf_cons_some hstep, emittedOf_cons_some (heq ▸ hstep), hx.port, htail]

/-- A run that goes through sends a packet for every call. -/
theorem length_emittedOf {d : ℕ} (h : (runWorld cipher out w calls).isSome) :
    (emittedOf cipher out d w calls).length = (calls.filter (·.port = d)).length := by
  obtain ⟨⟨w₁, ps⟩, hrun⟩ := Option.isSome_iff_exists.1 h
  obtain ⟨hout, hlen⟩ := PartialRun.outputs_of_run hrun
  rw [emittedOf, hout]
  clear hrun hout h
  induction calls generalizing ps with
  | nil => rfl
  | cons x calls ih =>
    obtain ⟨p, ps, rfl⟩ := List.exists_cons_of_length_eq_add_one hlen
    have htail := ih ps (Nat.succ.inj hlen)
    rw [emitted_cons]
    by_cases hport : x.port = d <;> simp [hport, htail]

theorem length_filter_alikeBut {d : ℕ} (h : List.Forall₂ (AlikeBut d₁) calls calls') :
    (calls'.filter (·.port = d)).length = (calls.filter (·.port = d)).length := by
  induction h with
  | nil => rfl
  | @cons x x' _ _ hx _ ih => by_cases hport : x.port = d <;> simp [hx.port, hport, ih]

/-- Runs that go through send the same number of packets, so that none goes on where the other
ends. -/
theorem AgreeSoFar.eq (hcalls : List.Forall₂ (AlikeBut d₁) calls calls')
    {out' : ℕ → OutInterfaceSett}
    (h : AgreeSoFar (emittedOf cipher out d₂ w calls) (emittedOf cipher out' d₂ w' calls'))
    (hrun : (runWorld cipher out w calls).isSome)
    (hrun' : (runWorld cipher out' w' calls').isSome) :
    emittedOf cipher out d₂ w calls = emittedOf cipher out' d₂ w' calls' := by
  have hlen : (emittedOf cipher out d₂ w calls).length =
    (emittedOf cipher out' d₂ w' calls').length := by
    rw [length_emittedOf hrun, length_emittedOf hrun', length_filter_alikeBut hcalls]
  rcases h with h | h
  · exact h.eq_of_length hlen
  · exact (h.eq_of_length hlen.symm).symm

end Runs

/-! ## Decisions for one interface -/

/-- What the engine is called with for a packet, if it is called. -/
def PacketCopy.engineCall (blockEncrypt : Block → Block) (nets : Nets) (t : OutInterfaceSett)
    (x : PacketCopy) (self : CryptoIp) : Option PacketCall :=
  let packet := processPacketEth x.packet t x.tvSec
  if ForEngine nets t packet then
    (dropPayload t (replaceAddresses blockEncrypt nets t packet self).1).map fun p ↦
      ⟨p, x.tvSec, ipOriginOf nets t packet, x.env⟩
  else none

/-- The packet is handed to a module that finds a name in it, unless its flow is exempt, and if the
name has enough users for the setting, it has at least `alpha`.  Its external address is not looked
at. -/
structure PacketCall.DecidesWithin (setting : OutInterfaceSett) (alpha : ℤ) (engine : Engine)
    (c : PacketCall) :
    Prop where
  unread : ¬c.ReadsExternal setting
  found : c.NameFound setting engine
  enough : ∀ m f x, c.handed setting = some m → m.find c.packet c.dataOff = some f →
    tableAdd engine.flowDb c.flow f.name setting.alpha setting.delta c.env.handler.table = some x →
    setting.alpha ≤ x.2 → alpha ≤ x.2

/-- The packet was handed to a module, with a name for which `table_add` returned at least
`alpha`. -/
def PacketCall.CountsEnough (setting : OutInterfaceSett) (alpha : ℤ) (engine : Engine)
    (c : PacketCall) : Prop :=
  ∃ m f x, c.handed setting = some m ∧ m.find c.packet c.dataOff = some f ∧
    tableAdd engine.flowDb c.flow f.name setting.alpha setting.delta c.env.handler.table = some x ∧
      alpha ≤ x.2

theorem run_unread (h : ¬c.ReadsExternal s) :
    c.run blockEncrypt s engine = c.run blockEncrypt { s with anonExtIp := 0 } engine := by
  have h₀ : ¬c.ReadsExternal { s with anonExtIp := 0 } :=
    fun h ↦ absurd h.1 (by decide : (0 : ℤ) ≠ 1)
  have heq (stores : Bool) : externalPart s c.flow c.env stores c.ipOrigin c.packet engine =
      externalPart { s with anonExtIp := 0 } c.flow c.env stores c.ipOrigin c.packet engine := by
    rw [externalPart_unread h, externalPart_unread h₀]
  have h1 := heq true
  have h2 := heq false
  rw [PacketCall.flow] at h1 h2
  rw [PacketCall.run, PacketCall.run, multiplexerProto, multiplexerProto, h1, h2]
  rfl

/-- What exempted a flow was a count. -/
theorem hasCause_counts {o : Outcome} (hext : s.anonExtIp ≠ 1)
    (h : c.run blockEncrypt s engine = some o) (hcause : o.HasCause s c) :
    c.CountsEnough s s.alpha engine := by
  obtain ⟨m, r, f, ret, hm, hr, hf, hcounted, hle⟩ := hcause
  rcases run_cases hext h with ⟨-, -, hnone⟩ | ⟨m', hm', hpart⟩
  · exact absurd (hnone.symm.trans hr) (by simp)
  obtain rfl : m' = m := Option.some.inj (hm'.symm.trans hm)
  obtain ⟨fs, a, y, -, ⟨-, rfl⟩ | ⟨-, r', fs', hr', -, rfl⟩⟩ := namePart_cases hpart
  · exact absurd hr (by simp)
  obtain rfl : r' = r := Option.some.inj hr
  have hrep := ModuleKind.reported hr'
  rw [← PacketCall.dataOff, hf] at hrep
  cases hrep with
  | below hadd =>
    obtain ⟨-, rfl⟩ := Prod.mk.inj (Option.some.inj hcounted)
    exact ⟨_, f, _, hm, hf, hadd, hle⟩
  | above hadd hle => exact ⟨_, f, _, hm, hf, hadd, hle⟩

section Decisions

variable {cipher : ℕ → Block → Block} {out : ℕ → OutInterfaceSett} {d₁ d₂ : ℕ} {w w₁ : World}
  {x : PacketCopy}
  {q : Packet} {calls : List PacketCopy} {b a : ℕ} {alpha : ℤ}

/-- A record that a packet exempts is exempted by the engine. -/
theorem worldStep_exempts (hstep : worldStep cipher out x w = some (w₁, q))
    (hnot : ¬w.flowStruct.Exempt b a) (hexempt : w₁.flowStruct.Exempt b a) :
    ∃ c o self, x.engineCall (cipher x.port) w.nets (out x.port)
      (w.cryptoData x.port) = some c ∧
      c.run (cipher x.port) (out x.port) { w.engine x.port with self := self } = some o ∧
      o.engine.flowStruct.Exempt b a := by
  obtain ⟨o, ho, rfl, -⟩ := worldStep_eq_some.1 hstep
  by_cases hfor : ForEngine w.nets (out x.port) (processPacketEth x.packet (out x.port) x.tvSec)
  · rw [processPacket, processPacketIp_engine hfor] at ho
    obtain ⟨p, hp, hrun⟩ := Option.bind_eq_some_iff.1 ho
    refine ⟨_, o, _, ?_, hrun, hexempt⟩
    rw [PacketCopy.engineCall, if_pos hfor]
    exact congrArg (Option.map _) hp
  · rw [processPacket, processPacketIp_idle hfor] at ho
    obtain ⟨y, -, rfl⟩ := Option.map_eq_some_iff.1 ho
    exact absurd hexempt hnot

/-- **A decision that stays within a threshold** is for a name with that many users. -/
theorem decision_counts (hstep : worldStep cipher out x w = some (w₁, q))
    (hnot : ¬w.flowStruct.Exempt b a) (hexempt : w₁.flowStruct.Exempt b a)
    (hwithin : ∀ c, x.engineCall (cipher x.port) w.nets (out x.port) (w.cryptoData x.port) =
      some c →
      c.DecidesWithin (out x.port) alpha (w.engine x.port)) :
    ∃ c, x.engineCall (cipher x.port) w.nets (out x.port) (w.cryptoData x.port) = some c ∧
      c.CountsEnough (out x.port) alpha (w.engine x.port) := by
  obtain ⟨c, o, self, hcall, hrun, y, hy, h0⟩ := worldStep_exempts hstep hnot hexempt
  have hc := hwithin c hcall
  refine ⟨c, hcall, ?_⟩
  rw [run_unread hc.unread] at hrun
  have hoff : ({ out x.port with anonExtIp := 0 } : OutInterfaceSett).anonExtIp ≠ 1 :=
    (by decide : (0 : ℤ) ≠ 1)
  have hfound : c.NameFound { out x.port with anonExtIp := 0 }
    { w.engine x.port with self := self } := hc.found
  have hcause := exempt_step hoff hfound hrun hy h0
  rcases hcause with ⟨y₀, hy₀, hy0, -⟩ | ⟨-, -, hcause⟩
  · exact absurd ⟨y₀, hy₀, hy0⟩ hnot
  · obtain ⟨m, f, r, hm, hf, hadd, hle⟩ := hasCause_counts hoff hrun hcause
    exact ⟨m, f, r, hm, hf, hadd, hc.enough m f r hm hf hadd hle⟩

/-- The decisions for `d₁` that come before a packet for `d₂` are within the threshold of `d₂`. -/
def DecidesWithin (cipher : ℕ → Block → Block) (out : ℕ → OutInterfaceSett) (d₁ d₂ : ℕ) (w : World)
    (calls : List PacketCopy) : Prop :=
  ∀ pre x post w₁ ps, calls = pre ++ x :: post → x.port = d₁ → (∃ y ∈ post, y.port = d₂) →
    runWorld cipher out w pre = some (w₁, ps) →
    ∀ c, x.engineCall (cipher x.port) w₁.nets (out x.port) (w₁.cryptoData x.port) = some c →
      c.DecidesWithin (out x.port) (out d₂).alpha (w₁.engine x.port)

/-- In a run, the record at an address was exempted by a packet and has been exempt since; if the
packet was for `d₁`, it had a name for which `table_add` returned at least `alpha`. -/
def ExemptedWithin (cipher : ℕ → Block → Block) (out : ℕ → OutInterfaceSett) (d₁ : ℕ) (alpha : ℤ)
    (w : World) (calls : List PacketCopy) (b a : ℕ) : Prop :=
  ∃ pre x post w₁ ps w₂ q, calls = pre ++ x :: post ∧ runWorld cipher out w pre = some (w₁, ps) ∧
    ¬w₁.flowStruct.Exempt b a ∧ worldStep cipher out x w₁ = some (w₂, q) ∧
      w₂.flowStruct.Exempt b a ∧
    PartialRun.Meets (worldStep cipher out) (fun w _ ↦ w.flowStruct.Exempt b a) w₂ post ∧
    (x.port = d₁ → ∃ c, x.engineCall (cipher x.port) w₁.nets (out x.port) (w₁.cryptoData x.port) =
        some c ∧
      c.CountsEnough (out x.port) alpha (w₁.engine x.port))

/-- **What a packet for `d₂` finds exempt**, in a run in which the decisions for `d₁` are within its
threshold. -/
theorem exempted_within (h : DecidesWithin cipher out d₁ d₂ w calls) {pre post : List PacketCopy}
    {y : PacketCopy} {ps : List Packet} (hcalls : calls = pre ++ y :: post) (hy : y.port = d₂)
    (hrun : runWorld cipher out w pre = some (w₁, ps)) (hexempt : w₁.flowStruct.Exempt b a) :
    w.flowStruct.Exempt b a ∨ ExemptedWithin cipher out d₁ (out d₂).alpha w pre b a := by
  rcases PartialRun.exists_switch (I := fun w ↦ w.flowStruct.Exempt b a) hrun hexempt with
    ⟨-, hw⟩ | ⟨l₁, x, l₂, s₁, ps₁, s₂, q, rfl, hrun₁, hnot, hstep, hs₂, hmeets⟩
  · exact .inl hw
  · refine .inr ⟨l₁, x, l₂, s₁, ps₁, s₂, q, rfl, hrun₁, hnot, hstep, hs₂, hmeets, fun hx ↦ ?_⟩
    exact decision_counts hstep hnot hs₂
      (h l₁ x (l₂ ++ y :: post) s₁ ps₁ (by simp [hcalls]) hx ⟨y, by simp, hy⟩ hrun₁)

end Decisions

/-! ## The two interfaces of a loop -/

/-- A received packet is the same but for the random choices made for an interface. -/
structure Received.AlikeBut (d₁ : ℕ) (r r' : Received) : Prop where
  packet : r'.packet = r.packet
  after : r'.after = r.after
  tvSec : r'.tvSec = r.tvSec
  env : ∀ port ≠ d₁, r'.env port = r.env port

/-- A burst is the same but for the random choices made for an interface. -/
structure Burst.AlikeBut (d₁ : ℕ) (b b' : Burst) : Prop where
  outPort : b'.outPort = b.outPort
  packets : List.Forall₂ (Received.AlikeBut d₁) b.packets b'.packets

theorem fanOut_alikeBut {d₁ : ℕ} {b b' : Burst} (h : b.AlikeBut d₁ b') :
    List.Forall₂ (AlikeBut d₁) (fanOut b) (fanOut b') := by
  rw [fanOut, fanOut, h.outPort]
  refine List.rel_flatMap (List.forall₂_eq_eq_eq ▸ rfl) ?_
  rintro port _ rfl
  refine List.rel_map (fun r r' hr ↦ ⟨rfl, ?_, congrFun hr.tvSec port, hr.env port⟩) h.packets
  rw [Received.copy, Received.copy, hr.packet, hr.after]

/-- A core without networks before its first packet. -/
def World.init : World := ⟨⟨.zero, .zero⟩, tableInit, flowTableInit, fun _ ↦ .zero⟩

/-- A request for the host `a`, mirrored to the interfaces 0 and 1. -/
def mirroredRequest : Burst where
  outPort := [0, 1]
  packets := [⟨(clientRequest 1 0).packet, fun _ ↦ [], fun _ ↦ 0, fun _ ↦ .plain⟩]

theorem mirroredRequest_alikeBut (d : ℕ) :
    List.Forall₂ (Burst.AlikeBut d) [mirroredRequest] [mirroredRequest] :=
  .cons ⟨rfl, .cons ⟨rfl, rfl, rfl, fun _ _ ↦ rfl⟩ .nil⟩ .nil

/-- Settings without the TLS module. -/
def noTls (alpha : ℤ) : OutInterfaceSett := { OutInterfaceSett.plain alpha with tls := 0 }

/-- The request for an interface. -/
def requestCopy (port : ℕ) :
    PacketCopy := ⟨port, (clientRequest 1 0).packet.followedBy [], 0, .plain⟩

theorem fanOut_mirroredRequest :
    [mirroredRequest].flatMap fanOut = [requestCopy 0, requestCopy 1] := rfl

/-- What the engine makes of the request for interface 0. -/
theorem requestCopy_handed :
    ((requestCopy 0).engineCall (fun b ↦ b) World.init.nets (noTls 3) .zero).map (fun c ↦
      (c.handed (noTls 3), (ModuleKind.http.find c.packet c.dataOff).isSome)) =
        some (some .http, true) := by
  decide +kernel

end AlphaMon
