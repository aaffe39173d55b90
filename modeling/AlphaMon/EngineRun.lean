import AlphaMon.ProtoMng
import AlphaMon.Runs.Partial

/-!
# Runs of the engine

A run of the engine is a list of packets, each with its time, where it comes from and what the
engine gets from outside while it processes it, all under one setting.

What the engine does with a TCP packet while `external_ip` is off is said once
(`PacketCall.run_tcp`): the detectors decide which module the packet is handed to, if any
(`handedTo`), and this is a function of the packet alone.  A packet that is handed to none leaves
the tables as they are.
-/

set_option autoImplicit false

namespace AlphaMon

/-- A packet for the engine. -/
structure PacketCall where
  packet : Packet
  tvSec : ℤ
  ipOrigin : ℤ
  env : PacketEnv

namespace PacketCall

/-- The flow of a packet. -/
def flow (c : PacketCall) : Flow := newPacket c.packet c.tvSec

/-- The packet is an IPv4/TCP packet. -/
def IsTcp (c : PacketCall) : Prop := c.flow.protocol = protoTcp

/-- The packet is an IPv4/UDP packet. -/
def IsUdp (c : PacketCall) : Prop := c.flow.protocol = protoUdp

instance (c : PacketCall) : Decidable c.IsTcp := inferInstanceAs (Decidable (_ = _))

instance (c : PacketCall) : Decidable c.IsUdp := inferInstanceAs (Decidable (_ = _))

@[simp] theorem flow_ipv (c : PacketCall) : c.flow.ipv = 4 := rfl

@[simp] theorem flow_timestamp (c : PacketCall) : c.flow.timestamp = c.tvSec := rfl

/-- The byte with the TCP data offset. -/
def dataOff (c : PacketCall) : UInt8 := c.packet.byte 46

end PacketCall

/-- Memory suffices, and every time stamp is 0. -/
def PacketEnv.plain : PacketEnv where
  extFlow := ⟨0, some FlowRec.init⟩
  ext := ⟨⟨0, true, true⟩, 0⟩
  nameFlow := ⟨0, some FlowRec.init⟩
  handler := { table := ⟨0, true, true⟩, tsc := fun _ _ ↦ 0, fuel := 100 }

/-- A packet between internal hosts. -/
def PacketCall.plain (packet : Packet) (t : ℤ) : PacketCall := ⟨packet, t, 0, .plain⟩

/-- An IPv4/TCP frame without options. -/
def tcpFrame (src dst : List UInt8) (inPort outPort : ℕ) (payload : List UInt8) : Packet :=
  let bytes := List.replicate 12 0 ++ [8, 0] ++ (List.replicate 9 0 ++ [6, 0, 0] ++ src ++ dst) ++
    (CString.be16 inPort ++ CString.be16 outPort ++ List.replicate 8 0 ++ 0x50 ::
        List.replicate 7 0) ++
    payload
  ⟨bytes, bytes.length, le_rfl⟩

/-- The DNS, TLS and HTTP modules on, with a threshold. -/
def OutInterfaceSett.plain (alpha : ℤ) : OutInterfaceSett :=
  { engine := 1, dns := 1, tls := 1, http := 1, alpha := alpha, delta := 60 }

variable (blockEncrypt : Block → Block) (setting : OutInterfaceSett)

/-- The engine processes a packet. -/
def PacketCall.run (c : PacketCall) (engine : Engine) : Option Outcome :=
  multiplexerProto blockEncrypt c.packet c.tvSec setting c.ipOrigin engine c.env

/-- A step of the engine. -/
def engineStep (c : PacketCall) (engine : Engine) : Option (Engine × Outcome) :=
  (c.run blockEncrypt setting engine).map fun o ↦ (o.engine, o)

/-- A run of the engine. -/
abbrev runEngine (engine : Engine) (calls : List PacketCall) : Option (Engine × List Outcome) :=
  PartialRun.run (engineStep blockEncrypt setting) engine calls

/-- Every packet of the run meets a condition in the state it finds. -/
abbrev EngineRunMeets (P : Engine → PacketCall → Prop) (engine : Engine) (calls : List PacketCall) :
    Prop :=
  PartialRun.Meets (engineStep blockEncrypt setting) P engine calls

/-- The engine before the first packet. -/
def Engine.init (self : CryptoIp) : Engine := ⟨tableInit, flowTableInit, self⟩

/-- The module a TCP packet is handed to. -/
def handedTo (packet : Packet) (flow : Flow) : Option ModuleKind :=
  match protoDetector packet 0 flow.inPort flow.outPort with
  | some 443 => if setting.tls ≠ 0 then some .tls else none
  | some 80 => if setting.http ≠ 0 then some .http else none
  | _ => none

/-- The module the packet of a call is handed to. -/
def PacketCall.handed (c : PacketCall) : Option ModuleKind :=
  if c.IsTcp then handedTo setting c.packet c.flow else none

variable {blockEncrypt setting} {c : PacketCall} {engine engine' : Engine} {o : Outcome}
  {m : ModuleKind}

theorem engineStep_eq_some : engineStep blockEncrypt setting c engine = some (engine', o) ↔
    c.run blockEncrypt setting engine = some o ∧ engine' = o.engine := by
  simp only [engineStep, Option.map_eq_some_iff, Prod.mk.injEq]
  constructor
  · rintro ⟨_, h, rfl, rfl⟩
    exact ⟨h, rfl⟩
  · rintro ⟨h, rfl⟩
    exact ⟨o, h, rfl, rfl⟩

/-- The three branches of `multiplexer_proto`. -/
theorem run_of_tcp (htcp : c.IsTcp) (engine : Engine) : c.run blockEncrypt setting engine =
    (externalPart setting c.flow c.env true c.ipOrigin c.packet engine).bind fun x ↦
      tcpPart setting c.flow c.env x.1 x.2 :=
  if_pos htcp

theorem run_of_udp (hudp : c.IsUdp) (engine : Engine) : c.run blockEncrypt setting engine =
    (externalPart setting c.flow c.env false c.ipOrigin c.packet engine).bind fun x ↦
      udpPart setting c.flow c.env blockEncrypt x.1 x.2 := by
  have htcp : ¬c.IsTcp := fun h ↦ absurd (Eq.symm h |>.trans hudp) (by decide)
  exact (if_neg htcp).trans (if_pos hudp)

theorem run_of_other (htcp : ¬c.IsTcp) (hudp : ¬c.IsUdp) (engine : Engine) :
    c.run blockEncrypt setting engine = removePart 34 c.packet engine :=
  (if_neg htcp).trans (if_neg hudp)

/-- While `external_ip` is off, its part does nothing. -/
theorem externalPart_off (hext : setting.anonExtIp ≠ 1) (flow : Flow) (env : PacketEnv)
    (stores : Bool) (ipOrigin : ℤ) (packet : Packet) (engine : Engine) :
    externalPart setting flow env stores ipOrigin packet engine = some (packet, engine) :=
  if_neg fun h ↦ hext h.1

/-- Removing the payload leaves the engine as it is. -/
theorem removePart_engine {offset : ℕ} {packet : Packet}
    (h : removePart offset packet engine = some o) : o.engine = engine ∧ o.handled = none := by
  obtain ⟨p, -, h⟩ := Option.bind_eq_some_iff.1 h
  obtain rfl := Option.some.inj h
  exact ⟨rfl, rfl⟩

/-- **A TCP packet that is handed to a module.** -/
theorem tcpPart_handed {packet : Packet} {flow : Flow} (env : PacketEnv)
    (h : handedTo setting packet flow = some m) (engine : Engine) :
    tcpPart setting flow env packet engine = namePart setting flow env m.entry packet engine := by
  rw [handedTo] at h
  rw [tcpPart]
  split at h
  · next hd =>
    split at h
    · next ht =>
      obtain rfl := Option.some.inj h
      simp [hd, ht, ModuleKind.entry]
    · exact absurd h (by simp)
  · next hd =>
    split at h
    · next ht =>
      obtain rfl := Option.some.inj h
      simp [hd, ht, ModuleKind.entry]
    · exact absurd h (by simp)
  · exact absurd h (by simp)

/-- **A TCP packet that is handed to none** leaves the engine as it is. -/
theorem tcpPart_not_handed {packet : Packet} {flow : Flow} {env : PacketEnv}
    (hnone : handedTo setting packet flow = none)
    (h : tcpPart setting flow env packet engine = some o) :
    o.engine = engine ∧ o.handled = none := by
  rw [handedTo] at hnone
  rw [tcpPart] at h
  cases hd : protoDetector packet 0 flow.inPort flow.outPort with
  | none => simp [hd] at h
  | some d =>
    rw [hd] at h hnone
    simp only [Option.bind_eq_bind, Option.bind_some, removePart] at h
    split at h
    · next he =>
      subst he
      simp only [ite_eq_right_iff, reduceCtorEq, imp_false] at hnone
      rw [if_neg hnone] at h
      obtain rfl := Option.some.inj h
      exact ⟨rfl, rfl⟩
    split at h
    · next he =>
      subst he
      simp only [ite_eq_right_iff, reduceCtorEq, imp_false] at hnone
      rw [if_neg hnone] at h
      obtain rfl := Option.some.inj h
      exact ⟨rfl, rfl⟩
    split at h
    · exact removePart_engine h
    · obtain rfl := Option.some.inj h
      exact ⟨rfl, rfl⟩

/-- A packet that is not TCP leaves the table of flows as it is while `external_ip` is off. -/
theorem run_flowStruct_of_not_tcp (hext : setting.anonExtIp ≠ 1) (htcp : ¬c.IsTcp)
    (h : c.run blockEncrypt setting engine = some o) :
    o.engine.flowStruct = engine.flowStruct ∧ o.handled = none := by
  by_cases hudp : c.IsUdp
  · rw [run_of_udp hudp, externalPart_off hext] at h
    simp only [Option.bind_some, udpPart] at h
    split at h
    · obtain ⟨d, -, h⟩ := Option.bind_eq_some_iff.1 h
      split at h
      · obtain ⟨r, -, h⟩ := Option.bind_eq_some_iff.1 h
        obtain rfl := Option.some.inj h
        exact ⟨rfl, rfl⟩
      · exact (removePart_engine h).imp_left fun he ↦ by rw [he]
    · split at h
      · exact (removePart_engine h).imp_left fun he ↦ by rw [he]
      · obtain rfl := Option.some.inj h
        exact ⟨rfl, rfl⟩
  · rw [run_of_other htcp hudp] at h
    exact (removePart_engine h).imp_left fun he ↦ by rw [he]

/-- A TCP packet while `external_ip` is off. -/
theorem run_tcp (hext : setting.anonExtIp ≠ 1) (htcp : c.IsTcp) (engine : Engine) :
    c.run blockEncrypt setting engine = tcpPart setting c.flow c.env c.packet engine := by
  rw [run_of_tcp htcp, externalPart_off hext]
  rfl

/-- **What a packet can do while `external_ip` is off**: unless it is handed to a module, the table
of flows stays as it is. -/
theorem run_cases (hext : setting.anonExtIp ≠ 1) (h : c.run blockEncrypt setting engine = some o) :
    (c.handed setting = none ∧ o.engine.flowStruct = engine.flowStruct ∧ o.handled = none) ∨
    ∃ m, c.handed setting = some m ∧ namePart setting c.flow c.env m.entry c.packet engine =
      some o := by
  by_cases htcp : c.IsTcp
  swap
  · exact .inl ⟨if_neg htcp, run_flowStruct_of_not_tcp hext htcp h⟩
  have hhanded : c.handed setting = handedTo setting c.packet c.flow := if_pos htcp
  rw [run_tcp hext htcp] at h
  rw [hhanded]
  cases hm : handedTo setting c.packet c.flow with
  | none =>
    obtain ⟨he, hh⟩ := tcpPart_not_handed hm h
    exact .inl ⟨rfl, by rw [he], hh⟩
  | some m =>
    rw [tcpPart_handed _ hm] at h
    exact .inr ⟨m, rfl, h⟩

/-- What a packet that is handed to a module goes through: the record of its flow is looked up, and
unless that is exempt the module is called and its value stored. -/
theorem namePart_cases {module : NameModule} {packet : Packet} {flow : Flow} {env : PacketEnv}
    (h : namePart setting flow env module packet engine = some o) :
    ∃ fs a y, lookUp flow engine.flowStruct env.nameFlow = some (fs, a, y) ∧
      ((¬(y.toAnon = -1 ∨ y.toAnon = 1) ∧ o = ⟨packet, { engine with flowStruct := fs }, none⟩) ∨
      ((y.toAnon = -1 ∨ y.toAnon = 1) ∧ ∃ r fs',
        module packet 0 (packet.byte 46) flow engine.flowDb setting.alpha setting.delta
          env.handler.toHandlerEnv = some r ∧
        storeRecord flow fs a (fun x ↦ { x with toAnon := toAnonOf r.flag }) = some fs' ∧
        o = ⟨r.packet, { engine with flowDb := r.db, flowStruct := fs' }, some r⟩)) := by
  rw [namePart] at h
  obtain ⟨⟨fs, a, y⟩, hlook, h⟩ := Option.bind_eq_some_iff.1 h
  refine ⟨fs, a, y, hlook, ?_⟩
  simp only at h
  split at h
  · next hy =>
    obtain ⟨r, hr, h⟩ := Option.bind_eq_some_iff.1 h
    obtain ⟨fs', hstore, h⟩ := Option.bind_eq_some_iff.1 h
    exact .inr ⟨hy, r, fs', hr, hstore, (Option.some.inj h).symm⟩
  · next hy => exact .inl ⟨hy, (Option.some.inj h).symm⟩

end AlphaMon
