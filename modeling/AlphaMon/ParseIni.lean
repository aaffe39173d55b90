import AlphaMon.Ini
import AlphaMon.InterfaceMappings
import Mathlib.Data.List.ReduceOption

/-!
# The settings of the interfaces

`parse_ini` of `traffic_anon.c`, the handler of the configuration file.  The settings are first
collected by groups, in an array that the line `num_config` allocates, and a line of
`[interface_conf]` copies a group to an output interface.  So the order of the lines matters: what a
group gets after the copy does not reach the interface.

The array is a pointer: null, freed, or to a block with as many entries as the line said and with
any contents.  `rte_eth_dev_get_port_by_name` is an argument, with no result for a name that it does
not know.

`interface_settings` says what an interface has in the end: what the lines of its group up to the
copy say.
-/

set_option autoImplicit false

namespace AlphaMon

open CString

/-! ## The texts -/

/-- `"general"`. -/
def kwGeneral : List UInt8 := [103, 101, 110, 101, 114, 97, 108]

/-- `"mempool_elem_nb"`. -/
def kwMempoolElemNb : List UInt8 :=
  [109, 101, 109, 112, 111, 111, 108, 95, 101, 108, 101, 109, 95, 110, 98]

/-- `"num_config"`. -/
def kwNumConfig : List UInt8 := [110, 117, 109, 95, 99, 111, 110, 102, 105, 103]

/-- `"interfaces_mappings"`. -/
def kwInterfacesMappings : List UInt8 :=
  [105, 110, 116, 101, 114, 102, 97, 99, 101, 115, 95, 109, 97, 112, 112, 105, 110, 103, 115]

/-- `"group_"`. -/
def kwGroup : List UInt8 := [103, 114, 111, 117, 112, 95]

/-- `"interface_conf"`. -/
def kwInterfaceConf : List UInt8 :=
  [105, 110, 116, 101, 114, 102, 97, 99, 101, 95, 99, 111, 110, 102]

/-- `"end"`. -/
def kwEnd : List UInt8 := [101, 110, 100]

/-- `"anon_mac"`. -/
def kwAnonMac : List UInt8 := [97, 110, 111, 110, 95, 109, 97, 99]

/-- `"anon_ip"`. -/
def kwAnonIp : List UInt8 := [97, 110, 111, 110, 95, 105, 112]

/-- `"key_mode"`. -/
def kwKeyMode : List UInt8 := [107, 101, 121, 95, 109, 111, 100, 101]

/-- `"key"`. -/
def kwKey : List UInt8 := [107, 101, 121]

/-- `"rotation_delay"`. -/
def kwRotationDelay : List UInt8 :=
  [114, 111, 116, 97, 116, 105, 111, 110, 95, 100, 101, 108, 97, 121]

/-- `"anon_subnet_file"`. -/
def kwAnonSubnetFile : List UInt8 :=
  [97, 110, 111, 110, 95, 115, 117, 98, 110, 101, 116, 95, 102, 105, 108, 101]

/-- `"no_anon_subnet_file"`. -/
def kwNoAnonSubnetFile : List UInt8 :=
  [110, 111, 95, 97, 110, 111, 110, 95, 115, 117, 98, 110, 101, 116, 95, 102, 105, 108, 101]

/-- `"payload_drop"`. -/
def kwPayloadDrop : List UInt8 := [112, 97, 121, 108, 111, 97, 100, 95, 100, 114, 111, 112]

/-- `"engine"`. -/
def kwEngine : List UInt8 := [101, 110, 103, 105, 110, 101]

/-- `"external_ip"`. -/
def kwExternalIp : List UInt8 := [101, 120, 116, 101, 114, 110, 97, 108, 95, 105, 112]

/-- `"dns"`. -/
def kwDns : List UInt8 := [100, 110, 115]

/-- `"tls"`. -/
def kwTls : List UInt8 := [116, 108, 115]

/-- `"http"`. -/
def kwHttpName : List UInt8 := [104, 116, 116, 112]

/-- `"alpha"`. -/
def kwAlpha : List UInt8 := [97, 108, 112, 104, 97]

/-- `"delta"`. -/
def kwDelta : List UInt8 := [100, 101, 108, 116, 97]

/-! ## The handler -/

/-- `atoi`: a `long` converted to an `int`. -/
def atoi (s : List UInt8) : ℤ := (BitVec.ofInt 32 (strtol s).1).toInt

/-- `strstr`. -/
def strstr (s needle : List UInt8) :
    Option ℕ := (List.range (s.length + 1)).find? fun i ↦ needle <+: s.drop i

/-- `MAX_STR`. -/
def maxStr : ℕ := 256

/-- The port of a name in a variable that was -1 before, as `uint16_t`. -/
def portOr (portByName : List UInt8 → Option ℕ) (name : List UInt8) :
    ℕ := (portByName name).getD 65535

/-- `strcpy` to an array of a size. -/
def strcpyTo (size : ℕ) (src : List UInt8) : Option (List UInt8) :=
  if src.length < size then some src else none

/-- `struct out_interface_sett` with the fields that only `parse_ini` knows. -/
structure ConfigSett where
  sett : OutInterfaceSett
  anonIpKey : List UInt8
  anonIpRotationDelay : ℤ
  deriving DecidableEq

/-- The pointer `config`. -/
inductive ConfigPtr where
  | null
  | freed
  | block (entries : List ConfigSett)

/-- `config[i]`. -/
def ConfigPtr.entry (i : ℤ) : ConfigPtr → Option ConfigSett
  | null => none
  | freed => none
  | block entries => if 0 ≤ i then entries[i.toNat]? else none

/-- A write to `config[i]`. -/
def ConfigPtr.set (i : ℤ) (s : ConfigSett) : ConfigPtr → ConfigPtr
  | null => null
  | freed => freed
  | block entries => block (entries.set i.toNat s)

/-- `free`. -/
def ConfigPtr.free : ConfigPtr → Option ConfigPtr
  | null => some null
  | freed => none
  | block _ => some freed

/-- The globals that `parse_ini` sets.  `mallocs` is how often it has allocated. -/
structure IniGlobals where
  mempoolElemNb : ℤ
  config : ConfigPtr
  mallocs : ℕ
  outInterface : ℕ → ConfigSett
  table : InterfaceTable

/-- The globals before anything is read. -/
def IniGlobals.zero : IniGlobals := ⟨0, .null, 0, fun _ ↦ ⟨{}, [], 0⟩, .zero⟩

/-- The setting of a group with a name, as what its value makes of the settings.  Nothing is written
to the settings for any other name. -/
def groupField (name : List UInt8) : Option (List UInt8 → ConfigSett → Option ConfigSett) :=
  if name = kwAnonMac then some fun value s ↦
    some { s with sett := { s.sett with anonMacEnabled := atoi value } }
  else if name = kwAnonIp then some fun value s ↦
    some { s with sett := { s.sett with anonIpEnabled := atoi value } }
  else if name = kwKeyMode then some fun value s ↦ do
    let value ← strcpyTo maxStr value
    some { s with sett := { s.sett with anonIpKeyMode := value } }
  else if name = kwKey then some fun value s ↦ do
    let value ← strcpyTo maxStr value
    some { s with anonIpKey := value }
  else if name = kwRotationDelay then some fun value s ↦
    some { s with anonIpRotationDelay := atoi value }
  else if name = kwAnonSubnetFile then some fun value s ↦ do
    let value ← strcpyTo maxStr value
    some { s with sett := { s.sett with anonSubnetFile := value } }
  else if name = kwNoAnonSubnetFile then some fun value s ↦ do
    let value ← strcpyTo maxStr value
    some { s with sett := { s.sett with noAnonSubnetFile := value } }
  else if name = kwPayloadDrop then some fun value s ↦
    some { s with sett := { s.sett with payloadDropEnabled := atoi value } }
  else if name = kwEngine then some fun value s ↦
    some { s with sett := { s.sett with engine := atoi value } }
  else if name = kwExternalIp then some fun value s ↦
    some { s with sett := { s.sett with anonExtIp := atoi value } }
  else if name = kwDns then some fun value s ↦
    some { s with sett := { s.sett with dns := atoi value } }
  else if name = kwTls then some fun value s ↦
    some { s with sett := { s.sett with tls := atoi value } }
  else if name = kwHttpName then some fun value s ↦
    some { s with sett := { s.sett with http := atoi value } }
  else if name = kwAlpha then some fun value s ↦
    some { s with sett := { s.sett with alpha := atoi value } }
  else if name = kwDelta then some fun value s ↦
    -- with a threshold, a window that is not positive is refused
    if s.sett.alpha ≠ 0 ∧ atoi value ≤ 0 then some s
    else some { s with sett := { s.sett with delta := atoi value } }
  else none

/-- The number behind `group_` in the name of a section. -/
def groupNumber (sectionName : List UInt8) : Option ℤ :=
  (strstr sectionName kwGroup).map fun i ↦ atoi (sectionName.drop (i + kwGroup.length))

/-- `str` has room for the name of a section. -/
def strSize : ℕ := 100

/-- `parse_ini`. -/
def parseIni (portByName : List UInt8 → Option ℕ) (fresh : ℕ → ℕ → ConfigSett) :
    IniHandler IniGlobals :=
  fun g sectionName name value ↦
    if sectionName = kwGeneral then
      if name = kwMempoolElemNb then some (true, { g with mempoolElemNb := atoi value })
      else if name = kwNumConfig then
        -- a negative number is a size for which `malloc` fails
        some (true, { g with
          config :=
            if 0 ≤ atoi value then .block ((List.range (atoi value).toNat).map (fresh g.mallocs))
              else .null
          mallocs := g.mallocs + 1 })
      else some (true, g)
    else if sectionName = kwInterfacesMappings then do
      let table ← parseMapping (portOr portByName) name value g.table
      some (true, { g with table := table })
    else match groupNumber sectionName with
      | some i => do
        let _ ← strcpyTo strSize sectionName
        match groupField name with
        | none => some (true, g)
        | some assign =>
          let s ← g.config.entry i
          let s ← assign value s
          some (true, { g with config := g.config.set i s })
      | none =>
        if sectionName = kwInterfaceConf then
          match portByName name with
          | none => some (true, g)
          | some port => do
            let s ← g.config.entry (atoi value)
            if maxInterfaces ≤ port then none
            else some (true, { g with outInterface := Function.update g.outInterface port s })
        else if sectionName = kwEnd then do
          let config ← g.config.free
          some (true, { g with config := config })
        else some (true, g)

/-! ## A call -/

/-- What the handler is called with: a section, a name and a value. -/
abbrev IniCall := List UInt8 × List UInt8 × List UInt8

/-- A line that allocates the array. -/
def IsNumConfig (c : IniCall) : Prop := c.1 = kwGeneral ∧ c.2.1 = kwNumConfig

instance (c : IniCall) : Decidable (IsNumConfig c) :=
  inferInstanceAs (Decidable (c.1 = kwGeneral ∧ c.2.1 = kwNumConfig))

/-- The lines of `[interfaces_mappings]`. -/
def mappingLines (calls : List IniCall) : List (List UInt8 × List UInt8) :=
  calls.filterMap fun c ↦ if c.1 = kwInterfacesMappings then some c.2 else none

section Run

variable {portByName : List UInt8 → Option ℕ} {fresh : ℕ → ℕ → ConfigSett} {g g' : IniGlobals}
  {ok : Bool}
  {c : IniCall} {i : ℤ} {port : ℕ} {s : ConfigSett}

/-- What a call does to the array and to the interfaces; it leaves the table of the mappings to
`parseMapping`. -/
inductive IniStep (portByName : List UInt8 → Option ℕ) (fresh : ℕ → ℕ → ConfigSett) (c : IniCall)
    (g g' : IniGlobals) : Prop
  | numConfig (hc : IsNumConfig c)
    (hconfig : g'.config =
      if 0 ≤ atoi c.2.2 then .block ((List.range (atoi c.2.2).toNat).map (fresh g.mallocs))
        else .null)
    (hmallocs : g'.mallocs = g.mallocs + 1) (hout : g'.outInterface = g.outInterface)
  | group (hc : ¬IsNumConfig c) {j : ℤ} {assign : List UInt8 → ConfigSett → Option ConfigSett}
    {s₀ s₁ : ConfigSett} (hj : groupNumber c.1 = some j) (hassign : groupField c.2.1 = some assign)
    (hentry : g.config.entry j = some s₀) (hs : assign c.2.2 s₀ = some s₁)
    (hconfig : g'.config = g.config.set j s₁) (hmallocs : g'.mallocs = g.mallocs)
    (hout : g'.outInterface = g.outInterface)
  | conf (hc : ¬IsNumConfig c) {j : ℕ} {s₀ : ConfigSett} (hj : groupNumber c.1 = none)
    (hs : c.1 = kwInterfaceConf)
    (hport : portByName c.2.1 = some j) (hmax : j < maxInterfaces)
      (hentry : g.config.entry (atoi c.2.2) = some s₀)
    (hconfig : g'.config = g.config) (hmallocs : g'.mallocs = g.mallocs)
    (hout : g'.outInterface = Function.update g.outInterface j s₀)
  | free (hc : ¬IsNumConfig c) (hj : groupNumber c.1 = none) (hs : c.1 = kwEnd)
    (hconfig : g.config.free = some g'.config) (hmallocs : g'.mallocs = g.mallocs)
    (hout : g'.outInterface = g.outInterface)
  | other (hc : ¬IsNumConfig c) (hj : groupNumber c.1 = none ∨ groupField c.2.1 = none)
    (hs : c.1 = kwInterfaceConf → portByName c.2.1 = none) (hend : c.1 ≠ kwEnd)
      (hconfig : g'.config = g.config)
    (hmallocs : g'.mallocs = g.mallocs) (hout : g'.outInterface = g.outInterface)

/-- **A call accepts, and does one of these things.** -/
theorem parseIni_step (h : parseIni portByName fresh g c.1 c.2.1 c.2.2 = some (ok, g')) :
    ok = true ∧ IniStep portByName fresh c g g' ∧
      parseMappings (portOr portByName) (mappingLines [c]) g.table = some g'.table := by
  obtain ⟨sectionName, name, value⟩ := c
  have hgroup₁ : groupNumber kwGeneral = none := by decide
  have hgroup₂ : groupNumber kwInterfacesMappings = none := by decide
  have hgroup₃ : groupNumber kwInterfaceConf = none := by decide
  have hgroup₄ : groupNumber kwEnd = none := by decide
  have hmapping (hne : sectionName ≠ kwInterfacesMappings) :
    mappingLines [(sectionName, name, value)] = [] := by
    simp [mappingLines, hne]
  by_cases h₁ : sectionName = kwGeneral
  · rw [parseIni, if_pos h₁] at h
    have hs : sectionName = kwInterfaceConf → portByName name = none := fun he ↦
      absurd (h₁.symm.trans he) (by decide)
    have hend : sectionName ≠ kwEnd := fun he ↦ absurd (h₁.symm.trans he) (by decide)
    rw [hmapping fun he ↦ absurd (h₁.symm.trans he) (by decide)]
    by_cases h₂ : name = kwMempoolElemNb
    · rw [if_pos h₂] at h
      obtain ⟨rfl, rfl⟩ := Prod.mk.inj (Option.some.inj h)
      refine ⟨rfl, .other (fun hc ↦ ?_) (Or.inl (h₁ ▸ hgroup₁)) hs hend rfl rfl rfl, rfl⟩
      exact absurd (h₂.symm.trans hc.2) (by decide)
    · rw [if_neg h₂] at h
      by_cases h₃ : name = kwNumConfig
      · rw [if_pos h₃] at h
        obtain ⟨rfl, rfl⟩ := Prod.mk.inj (Option.some.inj h)
        exact ⟨rfl, .numConfig ⟨h₁, h₃⟩ rfl rfl rfl, rfl⟩
      · rw [if_neg h₃] at h
        obtain ⟨rfl, rfl⟩ := Prod.mk.inj (Option.some.inj h)
        exact ⟨rfl, .other (fun hc ↦ h₃ hc.2) (Or.inl (h₁ ▸ hgroup₁)) hs hend rfl rfl rfl, rfl⟩
  have hc : ¬IsNumConfig (sectionName, name, value) := fun hc ↦ h₁ hc.1
  rw [parseIni, if_neg h₁] at h
  by_cases h₂ : sectionName = kwInterfacesMappings
  · rw [if_pos h₂] at h
    obtain ⟨table, htable, h⟩ := Option.bind_eq_some_iff.1 h
    obtain ⟨rfl, rfl⟩ := Prod.mk.inj (Option.some.inj h)
    exact ⟨rfl, .other hc (Or.inl (h₂ ▸ hgroup₂)) (fun he ↦ absurd (h₂.symm.trans he) (by decide))
      (fun he ↦ absurd (h₂.symm.trans he) (by decide)) rfl rfl rfl,
      by simp [mappingLines, h₂, parseMappings, htable]⟩
  rw [if_neg h₂] at h
  rw [hmapping h₂]
  rcases hj : groupNumber sectionName with _ | j
  · simp only [hj] at h
    by_cases h₃ : sectionName = kwInterfaceConf
    · rw [if_pos h₃] at h
      rcases hport : portByName name with _ | port
      · simp only [hport] at h
        obtain ⟨rfl, rfl⟩ := Prod.mk.inj (Option.some.inj h)
        exact ⟨rfl, .other hc (Or.inl hj) (fun _ ↦ hport)
          (fun he ↦ absurd (h₃.symm.trans he) (by decide)) rfl rfl rfl,
          rfl⟩
      · simp only [hport] at h
        obtain ⟨s₀, hentry, h⟩ := Option.bind_eq_some_iff.1 h
        by_cases hmax : maxInterfaces ≤ port
        · rw [if_pos hmax] at h
          cases h
        · rw [if_neg hmax] at h
          obtain ⟨rfl, rfl⟩ := Prod.mk.inj (Option.some.inj h)
          exact ⟨rfl, .conf hc hj h₃ hport (not_le.1 hmax) hentry rfl rfl rfl, rfl⟩
    · rw [if_neg h₃] at h
      by_cases h₄ : sectionName = kwEnd
      · rw [if_pos h₄] at h
        obtain ⟨config, hfree, h⟩ := Option.bind_eq_some_iff.1 h
        obtain ⟨rfl, rfl⟩ := Prod.mk.inj (Option.some.inj h)
        exact ⟨rfl, .free hc hj h₄ hfree rfl rfl, rfl⟩
      · rw [if_neg h₄] at h
        obtain ⟨rfl, rfl⟩ := Prod.mk.inj (Option.some.inj h)
        exact ⟨rfl, .other hc (Or.inl hj) (fun he ↦ absurd he h₃) h₄ rfl rfl rfl, rfl⟩
  · simp only [hj] at h
    obtain ⟨-, -, h⟩ := Option.bind_eq_some_iff.1 h
    rcases hassign : groupField name with _ | assign
    · simp only [hassign] at h
      obtain ⟨rfl, rfl⟩ := Prod.mk.inj (Option.some.inj h)
      refine ⟨rfl, .other hc (Or.inr hassign) (fun (he : sectionName = kwInterfaceConf) ↦ ?_)
        (fun (he : sectionName = kwEnd) ↦ ?_) rfl rfl rfl, rfl⟩
      · rw [he, hgroup₃] at hj
        cases hj
      · rw [he, hgroup₄] at hj
        cases hj
    · simp only [hassign] at h
      obtain ⟨s₀, hentry, h⟩ := Option.bind_eq_some_iff.1 h
      obtain ⟨s₁, hs, h⟩ := Option.bind_eq_some_iff.1 h
      obtain ⟨rfl, rfl⟩ := Prod.mk.inj (Option.some.inj h)
      exact ⟨rfl, .group hc hj hassign hentry hs rfl rfl rfl, rfl⟩

/-! ## A group -/

/-- The lines of a group: the settings they make, with their values. -/
def groupLines (i : ℤ) (calls : List IniCall) :
    List ((List UInt8 → ConfigSett → Option ConfigSett) × List UInt8) :=
  calls.filterMap fun c ↦
    if groupNumber c.1 = some i then (groupField c.2.1).map (·, c.2.2) else none

/-- The settings after some lines of their group. -/
def ConfigSett.after (s : ConfigSett)
    (lines : List ((List UInt8 → ConfigSett → Option ConfigSett) × List UInt8)) :
    Option ConfigSett :=
  lines.foldlM (fun s l ↦ l.1 l.2 s) s

theorem ConfigPtr.entry_set_self {p : ConfigPtr} {s₀ : ConfigSett} (h : p.entry i = some s₀)
    (s : ConfigSett) :
    (p.set i s).entry i = some s := by
  cases p with
  | null => cases h
  | freed => cases h
  | block entries =>
    simp only [entry, ConfigPtr.set] at h ⊢
    split_ifs at h ⊢ with hi
    have hlt : i.toNat < entries.length := (List.getElem?_eq_some_iff.1 h).1
    rw [List.getElem?_set_self hlt]

theorem ConfigPtr.entry_set_of_ne {p : ConfigPtr} {j : ℤ} {s₀ : ConfigSett}
    (h : p.entry j = some s₀) (hij : j ≠ i) (s : ConfigSett) : (p.set j s).entry i = p.entry i := by
  cases p with
  | null => rfl
  | freed => rfl
  | block entries =>
    simp only [entry, ConfigPtr.set] at h ⊢
    split_ifs at h ⊢ with hj hi
    · rw [List.getElem?_set_ne (by omega)]
    · rfl

/-- An entry changes with the lines of its group only. -/
theorem IniStep.entry (h : IniStep portByName fresh c g g') (hc : ¬IsNumConfig c)
    (hs : g'.config.entry i = some s) :
    ∃ s₀, g.config.entry i = some s₀ ∧ s₀.after (groupLines i [c]) = some s := by
  cases h with
  | numConfig hnum => exact absurd hnum hc
  | @group _ j assign s₀ s₁ hj hassign hentry hs₁ hconfig =>
    rw [hconfig] at hs
    by_cases hij : j = i
    · subst hij
      rw [ConfigPtr.entry_set_self hentry] at hs
      obtain rfl := Option.some.inj hs
      exact ⟨s₀, hentry, by simp [groupLines, hj, hassign, ConfigSett.after, hs₁]⟩
    · rw [ConfigPtr.entry_set_of_ne hentry hij] at hs
      exact ⟨s, hs, by simp [groupLines, hj, hij, ConfigSett.after]⟩
  | conf _ hj _ _ _ _ hconfig => exact ⟨s, hconfig ▸ hs, by simp [groupLines, hj, ConfigSett.after]⟩
  | free _ hj _ hfree =>
    -- a freed array has no entries
    rcases hp : g.config with _ | _ | entries <;> rw [hp] at hfree
    · rw [← Option.some.inj hfree] at hs
      cases hs
    · cases hfree
    · rw [← Option.some.inj hfree] at hs
      cases hs
  | other _ hj _ _ hconfig =>
    exact ⟨s, hconfig ▸ hs, by rcases hj with hj | hj <;> simp [groupLines, hj, ConfigSett.after]⟩

/-! ## Runs -/

/-- The calls of the handler, one after the other. -/
def runIni (portByName : List UInt8 → Option ℕ) (fresh : ℕ → ℕ → ConfigSett) (g : IniGlobals)
    (calls : List IniCall) : Option IniGlobals :=
  calls.foldlM (fun g c ↦ (parseIni portByName fresh g c.1 c.2.1 c.2.2).map Prod.snd) g

theorem runIni_cons {calls : List IniCall} (h : runIni portByName fresh g (c :: calls) = some g') :
    ∃ g₁, IniStep portByName fresh c g g₁ ∧ runIni portByName fresh g₁ calls = some g' := by
  obtain ⟨g₁, hstep, hrun⟩ := Option.bind_eq_some_iff.1 h
  obtain ⟨⟨ok, g₁⟩, hcall, rfl⟩ := Option.map_eq_some_iff.1 hstep
  exact ⟨g₁, (parseIni_step hcall).2.1, hrun⟩

theorem runIni_append {calls calls' : List IniCall}
    (h : runIni portByName fresh g (calls ++ calls') = some g') :
    ∃ g₁, runIni portByName fresh g calls = some g₁ ∧ runIni portByName fresh g₁ calls' =
      some g' := by
  rw [runIni, List.foldlM_append] at h
  exact Option.bind_eq_some_iff.1 h

/-- **An entry after some lines** is what the lines of its group make of it. -/
theorem runIni_entry {calls : List IniCall} (h : runIni portByName fresh g calls = some g')
    (hcalls : ∀ c ∈ calls, ¬IsNumConfig c) (hs : g'.config.entry i = some s) :
    ∃ s₀, g.config.entry i = some s₀ ∧ s₀.after (groupLines i calls) = some s := by
  induction calls generalizing g with
  | nil => exact ⟨s, Option.some.inj h ▸ hs, rfl⟩
  | cons c calls ih =>
    obtain ⟨g₁, hstep, hrun⟩ := runIni_cons h
    obtain ⟨s₁, hs₁, hafter₁⟩ := ih hrun fun c hc ↦ hcalls c (List.mem_cons_of_mem _ hc)
    obtain ⟨s₀, hs₀, hafter₀⟩ := hstep.entry (hcalls c List.mem_cons_self) hs₁
    refine ⟨s₀, hs₀, ?_⟩
    have hsplit : groupLines i (c :: calls) = groupLines i [c] ++ groupLines i calls :=
      List.filterMap_append (l := [c])
    rw [hsplit, ConfigSett.after, List.foldlM_append, ← ConfigSett.after, hafter₀]
    exact hafter₁

/-- Lines that do not copy to the interface leave it alone. -/
theorem runIni_outInterface {calls : List IniCall} (h : runIni portByName fresh g calls = some g')
    (hcalls : ∀ c ∈ calls, c.1 = kwInterfaceConf → portByName c.2.1 ≠ some port) :
    g'.outInterface port = g.outInterface port := by
  induction calls generalizing g with
  | nil => rw [Option.some.inj h]
  | cons c calls ih =>
    obtain ⟨g₁, hstep, hrun⟩ := runIni_cons h
    rw [ih hrun fun c hc ↦ hcalls c (List.mem_cons_of_mem _ hc)]
    cases hstep with
    | numConfig _ _ _ hout => rw [hout]
    | group _ _ _ _ _ _ _ hout => rw [hout]
    | free _ _ _ _ _ hout => rw [hout]
    | other _ _ _ _ _ _ hout => rw [hout]
    | @conf _ j s₀ _ hs hport _ _ _ _ hout =>
      have hne : port ≠ j := fun he ↦ hcalls c List.mem_cons_self hs (he ▸ hport)
      rw [hout, Function.update_of_ne hne]

/-- The array has been allocated as often as there are lines for it. -/
theorem runIni_mallocs {calls : List IniCall} (h : runIni portByName fresh g calls = some g') :
    g'.mallocs = g.mallocs + calls.countP fun c ↦ IsNumConfig c := by
  induction calls generalizing g with
  | nil => rw [Option.some.inj h]; rfl
  | cons c calls ih =>
    obtain ⟨g₁, hstep, hrun⟩ := runIni_cons h
    rw [ih hrun, List.countP_cons]
    cases hstep with
    | numConfig hc _ hmallocs => rw [hmallocs, if_pos (decide_eq_true hc)]; omega
    | group hc _ _ _ _ _ hmallocs => rw [hmallocs, if_neg (by simpa using hc)]; omega
    | free hc _ _ _ hmallocs => rw [hmallocs, if_neg (by simpa using hc)]; omega
    | other hc _ _ _ _ hmallocs => rw [hmallocs, if_neg (by simpa using hc)]; omega
    | conf hc _ _ _ _ _ _ hmallocs => rw [hmallocs, if_neg (by simpa using hc)]; omega

/-- The parser with this handler. -/
theorem serve_parseIni (g : IniGlobals) (lineno : ℕ) (calls : List (Option IniCall)) :
    serve (parseIni portByName fresh) lineno calls 0 g =
      (runIni portByName fresh g calls.reduceOption).map fun g ↦ (0, g) := by
  induction calls generalizing g lineno with
  | nil => rfl
  | cons c calls ih =>
    rcases c with _ | ⟨sectionName, name, value⟩
    · rw [serve, ih, List.reduceOption_cons_of_none]
    · rw [serve, List.reduceOption_cons_of_some, runIni, List.foldlM_cons]
      rcases hcall : parseIni portByName fresh g sectionName name value with _ | ⟨ok, g₁⟩
      · rfl
      · have hok : ok = true := (parseIni_step (c := (sectionName, name, value)) hcall).1
        subst hok
        exact ih g₁ (lineno + 1)

/-- **What an output interface has in the end**: the settings that the lines of a group make of the
entry that the last `num_config` allocated, up to the line that copies the group to the interface.
The parser finds no error. -/
theorem interface_settings {lines : List IniLine} (hok : IniLine.AllOk [] lines)
    (hfits : ∀ l ∈ lines, l.Fits) (hbom : ¬iniBom <+: iniText lines) {b₁ b₂ a : List IniCall}
    {n name value : List UInt8} {r : ℤ} (hcalls : (iniCalls [] [] lines).reduceOption =
      b₁ ++ (kwGeneral, kwNumConfig, n) :: (b₂ ++ (kwInterfaceConf, name, value) :: a))
    (hnum : ∀ c ∈ b₂, ¬IsNumConfig c) (hport : portByName name = some port)
    (hlast : ∀ c ∈ a, c.1 = kwInterfaceConf → portByName c.2.1 ≠ some port)
    (hrun : iniParse (parseIni portByName fresh) .zero (some (iniText lines)) = some (r, g)) :
    r = 0 ∧ 0 ≤ atoi value ∧ atoi value < atoi n ∧
      (fresh (b₁.countP fun c ↦ IsNumConfig c) (atoi value).toNat).after
        (groupLines (atoi value) b₂) =
        some (g.outInterface port) := by
  rw [iniParse, iniParseFile_text _ _ hok hfits hbom, serve_parseIni, hcalls, Option.map_map,
    Option.map_eq_some_iff] at hrun
  obtain ⟨g₅, hrun, hr⟩ := hrun
  obtain ⟨rfl, rfl⟩ := Prod.mk.inj hr
  obtain ⟨g₁, hrun₁, hrun⟩ := runIni_append hrun
  obtain ⟨g₂, hstep₂, hrun⟩ := runIni_cons hrun
  obtain ⟨g₃, hrun₃, hrun⟩ := runIni_append hrun
  obtain ⟨g₄, hstep₄, hrun₅⟩ := runIni_cons hrun
  -- the array as it has just been allocated
  have hconfig₂ : g₂.config =
      if 0 ≤ atoi n then .block ((List.range (atoi n).toNat).map (fresh g₁.mallocs))
        else .null := by
    cases hstep₂ with
    | numConfig _ hconfig => exact hconfig
    | group hc => exact absurd ⟨rfl, rfl⟩ hc
    | conf hc => exact absurd ⟨rfl, rfl⟩ hc
    | free hc => exact absurd ⟨rfl, rfl⟩ hc
    | other hc => exact absurd ⟨rfl, rfl⟩ hc
  -- the copy
  have hcopy : ∃ s, g₃.config.entry (atoi value) = some s ∧ g₄.outInterface port = s := by
    cases hstep₄ with
    | numConfig hc => exact absurd hc.1 (by decide : kwInterfaceConf ≠ kwGeneral)
    | group _ hj =>
      rw [show groupNumber kwInterfaceConf = none by decide] at hj
      cases hj
    | @conf _ j s _ _ hport' _ hentry _ _ hout =>
      obtain rfl : port = j := Option.some.inj (hport.symm.trans hport')
      exact ⟨s, hentry, by rw [hout, Function.update_self]⟩
    | free _ _ hs => exact absurd hs (by decide : kwInterfaceConf ≠ kwEnd)
    | other _ _ hs => exact absurd (hport.symm.trans (hs rfl)) (by simp)
  obtain ⟨s, hentry, hs⟩ := hcopy
  obtain ⟨s₀, hs₀, hafter⟩ := runIni_entry hrun₃ hnum hentry
  have hmallocs : g₁.mallocs = b₁.countP fun c ↦ IsNumConfig c := by
    rw [runIni_mallocs hrun₁]
    exact Nat.zero_add _
  rw [hconfig₂] at hs₀
  split_ifs at hs₀ with hn
  · simp only [ConfigPtr.entry] at hs₀
    split_ifs at hs₀ with hi
    rw [List.getElem?_map, Option.map_eq_some_iff] at hs₀
    obtain ⟨m, hm, rfl⟩ := hs₀
    obtain ⟨hlt, hm⟩ := List.getElem?_eq_some_iff.1 hm
    rw [List.getElem_range] at hm
    rw [List.length_range] at hlt
    subst hm
    rw [runIni_outInterface hrun₅ hlast, hs, ← hmallocs]
    exact ⟨rfl, hi, by omega, hafter⟩
  · cases hs₀

/-- A configuration of one group, for port 0. -/
def sampleConfig : List IniLine :=
  [.header kwGeneral [], .entry kwNumConfig [32] [32] [49] [] none,
    .header [103, 114, 111, 117, 112, 95, 48] [],
    .entry kwAlpha [32] [32] [50] [] none, .entry kwDelta [32] [32] [48] [] none,
      .header kwInterfaceConf [],
    .entry [48] [32] [32] [48] [] none]

/-- The lines of the group. -/
def sampleGroup : List IniCall :=
  [([103, 114, 111, 117, 112, 95, 48], kwAlpha, [50]),
    ([103, 114, 111, 117, 112, 95, 48], kwDelta, [48])]

/-- The globals after the configuration, with zeroed memory. -/
def sampleGlobals : Option (ℤ × IniGlobals) :=
  iniParse (parseIni (fun _ ↦ some 0) fun _ _ ↦ ⟨{}, [], 0⟩) .zero (some (iniText sampleConfig))

/-- A window of no seconds is refused. -/
theorem interface_settings_sample :
    ∃ g, sampleGlobals = some (0, g) ∧ g.outInterface 0 = ⟨{ alpha := 2 }, [], 0⟩ := by
  obtain ⟨⟨r, g⟩, hrun⟩ := Option.isSome_iff_exists.1 (by decide +kernel : sampleGlobals.isSome)
  have hcalls : (iniCalls [] [] sampleConfig).reduceOption =
      [] ++ (kwGeneral, kwNumConfig, [49]) ::
        (sampleGroup ++ (kwInterfaceConf, [48], [48]) :: []) := rfl
  have hafter : (⟨{}, [], 0⟩ : ConfigSett).after (groupLines (atoi [48]) sampleGroup) =
      some ⟨{ alpha := 2 }, [], 0⟩ := by
    decide
  obtain ⟨rfl, -, -, h⟩ :=
    interface_settings (by decide) (by decide) (by decide) hcalls (by decide) rfl (by simp) hrun
  exact ⟨g, hrun, Option.some.inj (h.symm.trans hafter)⟩

end Run

/-! ## What start-up touches -/

/-- What the lines so far have left of the array: nothing, a freed block, or a block with as many
entries. -/
inductive ArrayState where
  | null
  | freed
  | size (n : ℕ)

namespace ArrayState

/-- There is an entry. -/
def Has (i : ℤ) : ArrayState → Prop
  | null => False
  | freed => False
  | size n => 0 ≤ i ∧ i < n

/-- The array after the last section frees it. -/
def free : ArrayState → ArrayState
  | null => null
  | freed => freed
  | size _ => freed

/-- The array after a line. -/
def next (st : ArrayState) (c : IniCall) : ArrayState :=
  if IsNumConfig c then if 0 ≤ atoi c.2.2 then size (atoi c.2.2).toNat else null
  else if c.1 = kwEnd then st.free
  else st

/-- The array after some lines. -/
def after (calls : List IniCall) : ArrayState := calls.foldl next null

end ArrayState

/-- The pointer without what the entries hold. -/
def ConfigPtr.shape : ConfigPtr → ArrayState
  | null => .null
  | freed => .freed
  | block entries => .size entries.length

/-- What a line uses is there: the entry of a group that is set or copied, the interface it is
copied to, and the array when it is freed. -/
structure SafeLine (portByName : List UInt8 → Option ℕ) (st : ArrayState) (c : IniCall) : Prop where
  group : ∀ i ∈ groupNumber c.1, (groupField c.2.1).isSome → st.Has i
  conf : c.1 = kwInterfaceConf → ∀ port ∈ portByName c.2.1, port < maxInterfaces ∧
    st.Has (atoi c.2.2)
  free : c.1 = kwEnd → st ≠ .freed

/-- So it is for all lines from here on. -/
def SafeFrom (portByName : List UInt8 → Option ℕ) : ArrayState → List IniCall → Prop
  | _, [] => True
  | st, c :: calls => SafeLine portByName st c ∧ SafeFrom portByName (st.next c) calls

/-- The copies of the section's name and of the value fit. -/
def IniCall.Short (c : IniCall) : Prop := c.1.length < strSize ∧ c.2.2.length < maxStr

section Safety

variable {portByName : List UInt8 → Option ℕ} {fresh : ℕ → ℕ → ConfigSett} {g g' : IniGlobals}
  {c : IniCall}

theorem ConfigPtr.entry_isSome {p : ConfigPtr} {i : ℤ} : (p.entry i).isSome = true ↔
    p.shape.Has i := by
  cases p with
  | null => simp [entry, shape, ArrayState.Has]
  | freed => simp [entry, shape, ArrayState.Has]
  | block entries =>
    simp only [entry, shape, ArrayState.Has]
    split_ifs with hi
    · rw [Option.isSome_iff_ne_none, ne_eq, List.getElem?_eq_none_iff]
      omega
    · simp [hi]

theorem ConfigPtr.shape_set (p : ConfigPtr) (i : ℤ) (s : ConfigSett) :
    (p.set i s).shape = p.shape := by
  cases p with
  | null => rfl
  | freed => rfl
  | block entries => simp [ConfigPtr.set, shape]

/-- A setting takes every value that fits. -/
def TakesAll (assign : List UInt8 → ConfigSett → Option ConfigSett) : Prop :=
  ∀ value s, value.length < maxStr → ∃ s', assign value s = some s'

theorem takesAll_ite {p : Prop} [Decidable p]
    {f assign : List UInt8 → ConfigSett → Option ConfigSett}
    {rest : Option (List UInt8 → ConfigSett → Option ConfigSett)} (hf : TakesAll f)
    (hrest : rest = some assign → TakesAll assign)
    (h : (if p then some f else rest) = some assign) :
    TakesAll assign := by
  by_cases hp : p
  · rw [if_pos hp] at h
    exact Option.some.inj h ▸ hf
  · rw [if_neg hp] at h
    exact hrest h

theorem groupField_takesAll (name : List UInt8)
    (assign : List UInt8 → ConfigSett → Option ConfigSett) :
    groupField name = some assign → TakesAll assign := by
  unfold groupField
  repeat' refine takesAll_ite ?_ ?_
  all_goals first
    | exact fun value s _ ↦ ⟨_, rfl⟩
    | exact fun value s hvalue ↦ ⟨_, by simp only [strcpyTo, if_pos hvalue]; rfl⟩
    | exact fun h ↦ absurd h (by simp)
    | exact fun value s _ ↦ by split <;> exact ⟨_, rfl⟩

/-- **A safe line goes through.** -/
theorem parseIni_isSome (hshort : c.Short) (hsafe : SafeLine portByName g.config.shape c)
    (hmap : (parseMappings (portOr portByName) (mappingLines [c]) g.table).isSome) :
    ∃ r, parseIni portByName fresh g c.1 c.2.1 c.2.2 = some r := by
  obtain ⟨sectionName, name, value⟩ := c
  obtain ⟨hsection, hvalue⟩ : sectionName.length < strSize ∧ value.length < maxStr := hshort
  show ∃ r, parseIni portByName fresh g sectionName name value = some r
  by_cases h₁ : sectionName = kwGeneral
  · rw [parseIni, if_pos h₁]
    split_ifs <;> exact ⟨_, rfl⟩
  rw [parseIni, if_neg h₁]
  by_cases h₂ : sectionName = kwInterfacesMappings
  · rw [if_pos h₂]
    obtain ⟨table, htable⟩ := Option.isSome_iff_exists.1 hmap
    have hline : parseMapping (portOr portByName) name value g.table = some table := by
      simpa [mappingLines, h₂, parseMappings] using htable
    exact ⟨_, by rw [hline]; rfl⟩
  rw [if_neg h₂]
  rcases hj : groupNumber sectionName with _ | j
  · by_cases h₃ : sectionName = kwInterfaceConf
    · simp only [if_pos h₃]
      rcases hport : portByName name with _ | port
      · exact ⟨_, rfl⟩
      · obtain ⟨hmax, hhas⟩ := hsafe.conf h₃ port hport
        obtain ⟨s, hs⟩ : ∃ s, g.config.entry (atoi value) = some s :=
          Option.isSome_iff_exists.1 (ConfigPtr.entry_isSome.2 hhas)
        exact ⟨_, by
          simp only [hs, Option.bind_eq_bind, Option.bind_some, if_neg (not_le.2 hmax)]; rfl⟩
    · simp only [if_neg h₃]
      by_cases h₄ : sectionName = kwEnd
      · rw [if_pos h₄]
        have hfreed := hsafe.free h₄
        rcases hconfig : g.config with _ | _ | entries
        · exact ⟨_, rfl⟩
        · rw [hconfig] at hfreed
          exact absurd rfl hfreed
        · exact ⟨_, rfl⟩
      · rw [if_neg h₄]
        exact ⟨_, rfl⟩
  · simp only [strcpyTo, if_pos hsection, Option.bind_eq_bind, Option.bind_some]
    rcases hassign : groupField name with _ | assign
    · exact ⟨_, rfl⟩
    · obtain ⟨s, hs⟩ := Option.isSome_iff_exists.1
        (ConfigPtr.entry_isSome.2 (hsafe.group j hj (by simp [hassign])))
      obtain ⟨s', hs'⟩ := groupField_takesAll name assign hassign value s hvalue
      exact ⟨_, by simp only [hs, Option.bind_some, hs']; rfl⟩

/-- **A line that goes through was safe**, and leaves the array as it should. -/
theorem IniStep.safe (h : IniStep portByName fresh c g g') :
    SafeLine portByName g.config.shape c ∧ g'.config.shape = g.config.shape.next c := by
  have hgroup₁ : groupNumber kwGeneral = none := by decide
  have hgroup₃ : groupNumber kwInterfaceConf = none := by decide
  have hgroup₄ : groupNumber kwEnd = none := by decide
  have hne₁ : kwGeneral ≠ kwInterfaceConf := by decide
  have hne₂ : kwGeneral ≠ kwEnd := by decide
  have hne₃ : kwInterfaceConf ≠ kwEnd := by decide
  cases h with
  | numConfig hc hconfig =>
    refine ⟨⟨fun i hi ↦ ?_, fun he ↦ ?_, fun he ↦ ?_⟩, ?_⟩
    · rw [hc.1, hgroup₁] at hi
      cases hi
    · exact absurd (hc.1.symm.trans he) hne₁
    · exact absurd (hc.1.symm.trans he) hne₂
    · rw [hconfig, ArrayState.next, if_pos hc]
      split_ifs
      · simp [ConfigPtr.shape]
      · rfl
  | @group hc j assign s₀ s₁ hj hassign hentry _ hconfig =>
    have hhas := ConfigPtr.entry_isSome.1 (Option.isSome_iff_exists.2 ⟨s₀, hentry⟩)
    have hend : c.1 ≠ kwEnd := fun he ↦ by
      rw [he, hgroup₄] at hj
      cases hj
    refine ⟨⟨fun i hi _ ↦ ?_, fun he ↦ ?_, fun he ↦ absurd he hend⟩, ?_⟩
    · obtain rfl : j = i := Option.some.inj (hj.symm.trans hi)
      exact hhas
    · rw [he, hgroup₃] at hj
      cases hj
    · rw [hconfig, ConfigPtr.shape_set, ArrayState.next, if_neg hc, if_neg hend]
  | @conf hc j s₀ hj hs hport hmax hentry hconfig =>
    have hhas := ConfigPtr.entry_isSome.1 (Option.isSome_iff_exists.2 ⟨s₀, hentry⟩)
    have hend : c.1 ≠ kwEnd := fun he ↦ hne₃ (hs.symm.trans he)
    refine ⟨⟨fun i hi ↦ ?_, fun _ port hp ↦ ?_, fun he ↦ absurd he hend⟩, ?_⟩
    · rw [hj] at hi
      cases hi
    · obtain rfl : j = port := Option.some.inj (hport.symm.trans hp)
      exact ⟨hmax, hhas⟩
    · rw [hconfig, ArrayState.next, if_neg hc, if_neg hend]
  | free hc hj hs hconfig =>
    refine ⟨⟨fun i hi ↦ ?_, fun he ↦ absurd (he.symm.trans hs) hne₃, fun _ ↦ ?_⟩, ?_⟩
    · rw [hj] at hi
      cases hi
    · rcases hp : g.config with _ | _ | entries <;> rw [hp] at hconfig
      · simp [ConfigPtr.shape]
      · cases hconfig
      · simp [ConfigPtr.shape]
    · rw [ArrayState.next, if_neg hc, if_pos hs]
      rcases hp : g.config with _ | _ | entries <;> rw [hp] at hconfig
      · rw [← Option.some.inj hconfig]
        rfl
      · cases hconfig
      · rw [← Option.some.inj hconfig]
        rfl
  | other hc hj hs hend hconfig =>
    refine ⟨⟨fun i hi hfield ↦ ?_, fun he port hp ↦ ?_, fun he ↦ absurd he hend⟩, ?_⟩
    · rcases hj with hj | hj
      · rw [hj] at hi
        cases hi
      · rw [hj] at hfield
        cases hfield
    · rw [hs he] at hp
      cases hp
    · rw [hconfig, ArrayState.next, if_neg hc, if_neg hend]

theorem parseMappings_append {portByName : List UInt8 → ℕ} (l₁ l₂ : List (List UInt8 × List UInt8))
    (t : InterfaceTable) :
    parseMappings portByName (l₁ ++ l₂) t =
      (parseMappings portByName l₁ t).bind fun t ↦ parseMappings portByName l₂ t := by
  induction l₁ generalizing t with
  | nil => rfl
  | cons l l₁ ih =>
    rw [List.cons_append, parseMappings, parseMappings]
    rcases parseMapping portByName l.1 l.2 t with _ | t₁
    · rfl
    · exact ih t₁

/-- **The lines go through if and only if each of them is safe.** -/
theorem runIni_isSome_iff {calls : List IniCall} (hshort : ∀ c ∈ calls, c.Short) :
    (∃ g', runIni portByName fresh g calls = some g') ↔
      (parseMappings (portOr portByName) (mappingLines calls) g.table).isSome ∧
        SafeFrom portByName g.config.shape calls := by
  induction calls generalizing g with
  | nil => exact ⟨fun _ ↦ ⟨rfl, trivial⟩, fun _ ↦ ⟨g, rfl⟩⟩
  | cons c calls ih =>
    have hshort' : ∀ c ∈ calls, c.Short := fun c hc ↦ hshort c (List.mem_cons_of_mem _ hc)
    have hmap : mappingLines (c :: calls) = mappingLines [c] ++ mappingLines calls :=
      List.filterMap_append (l := [c])
    rw [hmap, parseMappings_append]
    constructor
    · rintro ⟨g', hrun⟩
      obtain ⟨g₁, hstep, hrest⟩ := Option.bind_eq_some_iff.1 hrun
      obtain ⟨⟨ok, g₁⟩, hcall, rfl⟩ := Option.map_eq_some_iff.1 hstep
      obtain ⟨-, hstep, htable⟩ := parseIni_step hcall
      obtain ⟨hsafe, hshape⟩ := hstep.safe
      obtain ⟨hmaps, hfrom⟩ := (ih hshort').1 ⟨g', hrest⟩
      rw [htable, SafeFrom, ← hshape]
      exact ⟨hmaps, hsafe, hfrom⟩
    · rintro ⟨hmaps, hsafe, hfrom⟩
      obtain ⟨t, ht⟩ := Option.isSome_iff_exists.1 hmaps
      obtain ⟨t₁, ht₁, -⟩ := Option.bind_eq_some_iff.1 ht
      obtain ⟨⟨ok, g₁⟩, hcall⟩ : ∃ r, parseIni portByName fresh g c.1 c.2.1 c.2.2 = some r :=
        parseIni_isSome (hshort c List.mem_cons_self) hsafe (by rw [ht₁]; rfl)
      obtain ⟨-, hstep, htable⟩ := parseIni_step hcall
      rw [htable] at hmaps
      rw [← hstep.safe.2] at hfrom
      obtain ⟨g', hrun⟩ := (ih hshort').2 ⟨hmaps, hfrom⟩
      refine ⟨g', ?_⟩
      rw [runIni, List.foldlM_cons, hcall]
      exact hrun

theorem safeFrom_iff {st : ArrayState} {calls : List IniCall} :
    SafeFrom portByName st calls ↔
      ∀ before c after, calls = before ++ c :: after →
        SafeLine portByName (before.foldl ArrayState.next st) c := by
  induction calls generalizing st with
  | nil => exact ⟨fun _ before c after h ↦ absurd h (by simp), fun _ ↦ trivial⟩
  | cons c calls ih =>
    rw [SafeFrom, ih]
    constructor
    · rintro ⟨hc, hcalls⟩ before d after heq
      rcases before with _ | ⟨b, before⟩
      · obtain ⟨rfl, -⟩ := List.cons.inj heq
        exact hc
      · obtain ⟨rfl, hrest⟩ := List.cons.inj heq
        exact hcalls before d after hrest
    · intro h
      exact ⟨h [] c calls rfl, fun before d after heq ↦ h (c :: before) d after (by rw [heq]; rfl)⟩

/-- The parser calls the handler with short strings. -/
theorem short_iniCalls {lines : List IniLine} (hfits : ∀ l ∈ lines, l.Fits)
    {sectionName prevName : List UInt8} (hsection : sectionName.length < strSize) :
    ∀ c : IniCall, c ∈ (iniCalls sectionName prevName lines).reduceOption → c.Short := by
  induction lines generalizing sectionName prevName with
  | nil => exact fun c hc ↦ absurd hc List.not_mem_nil
  | cons l lines ih =>
    intro c hc
    have hopens : (l.opens sectionName prevName).1.length < strSize := by
      cases l with
      | header name _ =>
        have : (name.take (maxSection - 1)).length ≤ maxSection - 1 := List.length_take_le _ _
        exact lt_of_le_of_lt this (by decide)
      | skip => exact hsection
      | entry => exact hsection
      | more => exact hsection
    rw [iniCalls, List.reduceOption, List.filterMap_cons] at hc
    rcases hcall : l.calls prevName with _ | ⟨name, value⟩
    · simp only [hcall, Option.map_none, id] at hc
      exact ih (fun l hl ↦ hfits l (List.mem_cons_of_mem _ hl)) hopens c hc
    · simp only [hcall, Option.map_some, id, List.mem_cons] at hc
      rcases hc with rfl | hc
      · refine ⟨hsection, ?_⟩
        have hlen := (hfits l List.mem_cons_self).2.2
        rw [iniMaxLine] at hlen
        show value.length < 256
        cases l with
        | skip => cases hcall
        | header => cases hcall
        | entry =>
          obtain ⟨-, rfl⟩ := Prod.mk.inj (Option.some.inj hcall)
          simp only [IniLine.text, List.length_append, List.length_cons] at hlen
          omega
        | more =>
          obtain ⟨-, rfl⟩ := Prod.mk.inj (Option.some.inj hcall)
          simp only [IniLine.text, List.length_append] at hlen
          omega
      · exact ih (fun l hl ↦ hfits l (List.mem_cons_of_mem _ hl)) hopens c hc

/-- **When start-up stays inside its arrays**, whatever memory holds, given that the array can be
allocated: exactly when the table of the mappings does, and every line finds what it uses as the
lines before it have left it. -/
theorem startup_safe_iff (portByName : List UInt8 → Option ℕ) (fresh : ℕ → ℕ → ConfigSett)
    {lines : List IniLine} (hok : IniLine.AllOk [] lines) (hfits : ∀ l ∈ lines, l.Fits)
    (hbom : ¬iniBom <+: iniText lines) :
    (∃ r, iniParse (parseIni portByName fresh) .zero (some (iniText lines)) = some r) ↔
      (parseMappings (portOr portByName) (mappingLines (iniCalls [] [] lines).reduceOption)
        .zero).isSome ∧
        ∀ before c after, (iniCalls [] [] lines).reduceOption = before ++ c :: after →
          SafeLine portByName (ArrayState.after before) c := by
  have hshort : ∀ c ∈ (iniCalls [] [] lines).reduceOption, IniCall.Short c :=
    short_iniCalls hfits (by decide)
  have hrun : (∃ g', runIni portByName fresh .zero (iniCalls [] [] lines).reduceOption = some g') ↔
    _ :=
    runIni_isSome_iff hshort
  rw [safeFrom_iff] at hrun
  refine Iff.trans ?_ hrun
  rw [iniParse, iniParseFile_text _ _ hok hfits hbom, serve_parseIni]
  constructor
  · rintro ⟨r, hr⟩
    obtain ⟨s, hs, -⟩ := Option.map_eq_some_iff.1 hr
    obtain ⟨g, hg, -⟩ := Option.map_eq_some_iff.1 hs
    exact ⟨g, hg⟩
  · rintro ⟨g, hg⟩
    exact ⟨_, by rw [hg]; rfl⟩

/-- The sample configuration is safe. -/
theorem startup_safe_iff_sample :
    (parseMappings (portOr fun _ ↦ some 0) (mappingLines (iniCalls [] [] sampleConfig).reduceOption)
        .zero).isSome ∧
      ∀ before c after, (iniCalls [] [] sampleConfig).reduceOption = before ++ c :: after →
        SafeLine (fun _ ↦ some 0) (ArrayState.after before) c := by
  have hrun : ∃ r, iniParse (parseIni (fun _ ↦ some 0) fun _ _ ↦ ⟨{}, [], 0⟩) .zero
      (some (iniText sampleConfig)) = some r :=
    Option.isSome_iff_exists.1 (by decide +kernel : sampleGlobals.isSome)
  exact (startup_safe_iff (fun _ ↦ some 0) (fun _ _ ↦ ⟨{}, [], 0⟩) (by decide) (by decide)
    (by decide)).1 hrun

end Safety

end AlphaMon
