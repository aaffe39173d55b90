import AlphaMon.PacketFrame
import AlphaMon.ParseIni

/-!
# Interfaces without settings

`parse_ini` copies settings to the interfaces that `[interface_conf]` names.  The others keep the
zeros of the global array, under which no part of `process_packet` has anything to do.

So the packets for such an interface are sent as they were received (`unconfigured_forwards`),
whatever the other interfaces are configured to do, with the same tables and for copies of the same
packets.
-/

set_option autoImplicit false

namespace AlphaMon

/-- Nothing is to be done to the packets. -/
structure OutInterfaceSett.Passive (s : OutInterfaceSett) : Prop where
  mac : ¬(s.anonMacEnabled = 1 ∨ s.anonMacEnabled = 2)
  key : ¬s.UsesKey
  drop : s.payloadDropEnabled ≠ 1
  engine : s.engine = 0

variable {s : OutInterfaceSett} {p q : Packet}

/-- No byte may be written then. -/
theorem OutInterfaceSett.Passive.not_writable (h : s.Passive) (nets : Nets) (p : Packet) (j : ℕ) :
    ¬Writable nets s p j := by
  rintro (⟨-, hmac⟩ | ⟨-, -, hip⟩ | ⟨-, hkey, -⟩)
  · exact h.mac hmac
  · rcases hip with ⟨-, hkey, -⟩ | ⟨-, hkey, -⟩ | ⟨-, hdrop | hengine⟩
    · exact h.key hkey
    · exact h.key hkey
    · exact h.drop hdrop
    · exact hengine h.engine
  · exact h.key hkey

section Runs

variable {cipher : ℕ → Block → Block} {out : ℕ → OutInterfaceSett} {w w' : World} {port : ℕ}

/-- **The packets for an interface without settings** leave as they came, in their order. -/
theorem emitted_passive {nets : Nets} {calls : List PacketCopy} {sent : List Packet}
    (hport : (out port).Passive)
    (h : List.Forall₂ (fun c ↦ c.packet.SameOutside (Writable nets (out c.port) c.packet)) calls
      sent) :
    emitted port calls sent = (calls.filter (·.port = port)).map (·.packet) := by
  induction h with
  | nil => rfl
  | @cons c q calls sent hq _ ih =>
    rw [emitted_cons, ih]
    by_cases hc : c.port = port
    · have heq : q = c.packet :=
        Packet.ext_byte hq.pktLen hq.length fun j ↦
          hq.byte j ((hc ▸ hport).not_writable nets c.packet j)
      rw [if_pos hc, List.filter_cons_of_pos (by simpa using hc), List.map_cons, heq]
    · rw [if_neg hc, List.filter_cons_of_neg (by simpa using hc)]

/-- **An interface that the configuration does not name** sends what it receives, whenever the main
loop gets through the packets.  The settings of all interfaces are those that the handler leaves
when the file has been parsed. -/
theorem unconfigured_forwards {portByName : List UInt8 → Option ℕ} {fresh : ℕ → ℕ → ConfigSett}
    {lines : List IniLine} {r : ℤ} {g : IniGlobals} (hok : IniLine.AllOk [] lines)
    (hfits : ∀ l ∈ lines, l.Fits) (hbom : ¬iniBom <+: iniText lines)
    (hport : ∀ c ∈ (iniCalls [] [] lines).reduceOption, c.1 = kwInterfaceConf →
      portByName c.2.1 ≠ some port)
    (hconf : iniParse (parseIni portByName fresh) .zero (some (iniText lines)) = some (r, g))
    {bursts : List Burst} {sent : List Packet}
    (hrun : mainLoop cipher (fun d ↦ (g.outInterface d).sett) w bursts = some (w', sent)) :
    emitted port (bursts.flatMap fanOut) sent =
      ((bursts.flatMap fanOut).filter (·.port = port)).map (·.packet) := by
  have hzero : g.outInterface port = ⟨{}, [], 0⟩ := by
    rw [iniParse, iniParseFile_text _ _ hok hfits hbom, serve_parseIni, Option.map_map,
      Option.map_eq_some_iff] at hconf
    obtain ⟨g', hg, hr⟩ := hconf
    obtain ⟨-, rfl⟩ := Prod.mk.inj hr
    exact runIni_outInterface hg hport
  have hpassive : (g.outInterface port).sett.Passive := by
    rw [hzero]
    exact ⟨by decide, by decide, by decide, rfl⟩
  exact @emitted_passive (fun d ↦ (g.outInterface d).sett) port w.nets _ _ hpassive
    (runWorld_sameOutside hrun).2

/-- The sample configuration is about port 0 only: port 1 sends the request as it was received. -/
theorem unconfigured_forwards_sample : ∃ g w' sent, sampleGlobals = some (0, g) ∧
    mainLoop (fun _ b ↦ b) (fun d ↦ (g.outInterface d).sett) .init [mirroredRequest] =
      some (w', sent) ∧
    emitted 1 ([mirroredRequest].flatMap fanOut) sent =
      (([mirroredRequest].flatMap fanOut).filter (·.port = 1)).map (·.packet) := by
  have hsome : (sampleGlobals.bind fun x ↦ if x.1 = 0 then
      mainLoop (fun _ b ↦ b) (fun d ↦ (x.2.outInterface d).sett) .init [mirroredRequest]
        else none).isSome := by
    decide +kernel
  obtain ⟨⟨w', sent⟩, hboth⟩ := Option.isSome_iff_exists.1 hsome
  obtain ⟨⟨r, g⟩, hconf, hrun⟩ := Option.bind_eq_some_iff.1 hboth
  simp only at hrun
  split_ifs at hrun with hr
  subst hr
  refine ⟨g, w', sent, hconf, hrun, ?_⟩
  exact unconfigured_forwards (by decide) (by decide) (by decide) (by decide) hconf hrun

end Runs

end AlphaMon
