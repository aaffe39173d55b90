import Mathlib.Data.Finset.Card
import AlphaMon.ProcessPacket

/-!
# The interface mappings

The section `[interfaces_mappings]` of the configuration, as `parse_ini` of `traffic_anon.c` enters
it into the table `in_interface` line by line.  A line is looked up by its input port and appended
to the entry found; when there is none a new entry is made of the slot behind the entries.

The search goes one slot too far: it looks at the slot behind the entries as well, and there finds
the port 0, which is the `id` of every slot in zeroed memory.  An input port 0 that does not come
first never gets an entry, and its outputs are left in a slot that is not counted or goes to another
port (`mappings_faithful_iff`).
-/

set_option autoImplicit false

namespace AlphaMon

/-- `struct in_interface_sett`. -/
structure InInterfaceSett where
  id : ℕ
  address : List UInt8
  nOut : ℕ
  outPort : ℕ → ℕ

/-- The globals `in_interface`, `in_interface_cnt` and `used_ports`. -/
structure InterfaceTable where
  inInterface : ℕ → InInterfaceSett
  inInterfaceCnt : ℕ
  usedPorts : ℕ → ℕ

/-- The globals before anything is read. -/
def InterfaceTable.zero : InterfaceTable := ⟨fun _ ↦ ⟨0, [], 0, fun _ ↦ 0⟩, 0, fun _ ↦ 0⟩

/-- Append an output port.  There is no result when the array is full. -/
def InInterfaceSett.addOut (s : InInterfaceSett) (portOut : ℕ) : Option InInterfaceSett :=
  if maxInterfaces ≤ s.nOut then none
  else some { s with outPort := Function.update s.outPort s.nOut portOut, nOut := s.nOut + 1 }

/-- The search for an input port among the slots left, from slot `i` on.  There is no result when it
reads behind the array. -/
def InterfaceTable.findLoop (t : InterfaceTable) (portIn : ℕ) : ℕ → ℕ → Option (Option ℕ)
  | 0, _ => some none
  | left + 1, i =>
    if maxInterfaces ≤ i then none
    else if (t.inInterface i).id = portIn ∧ t.inInterfaceCnt ≠ 0 then some (some i)
    else t.findLoop portIn left (i + 1)

/-- `parse_ini` on a line `name = value` of `[interfaces_mappings]`.  `portByName` is
`rte_eth_dev_get_port_by_name`. -/
def parseMapping (portByName : List UInt8 → ℕ) (name value : List UInt8) (t : InterfaceTable) :
    Option InterfaceTable :=
  let portIn := portByName name
  let portOut := portByName value
  if maxInterfaces ≤ portIn ∨ maxInterfaces ≤ portOut then none
  else do
    let usedPorts := Function.update (Function.update t.usedPorts portIn 1) portOut 1
    -- in an empty table nothing is found
    match ← t.findLoop portIn (t.inInterfaceCnt + 1) 0 with
    | some i =>
      let s ← (t.inInterface i).addOut portOut
      some ⟨Function.update t.inInterface i s, t.inInterfaceCnt, usedPorts⟩
    | none =>
      if maxInterfaces ≤ t.inInterfaceCnt then none
      else
        let s ← { t.inInterface t.inInterfaceCnt with id := portIn, address := name }.addOut portOut
        some ⟨Function.update t.inInterface t.inInterfaceCnt s, t.inInterfaceCnt + 1, usedPorts⟩

/-- `parse_ini` on the lines of the section. -/
def parseMappings (portByName : List UInt8 → ℕ) :
    List (List UInt8 × List UInt8) → InterfaceTable → Option InterfaceTable
  | [], t => some t
  | (name, value) :: lines, t => do
    let t ← parseMapping portByName name value t
    parseMappings portByName lines t

/-! ## What the table should say -/

/-- The list `out_port` of an entry. -/
def InInterfaceSett.outs (s : InInterfaceSett) : List ℕ := (List.range s.nOut).map s.outPort

/-- The table says what the lines say: one entry for each input port, with its outputs in the order
of the lines. -/
structure InterfaceTable.Faithful (lines : List (ℕ × ℕ)) (t : InterfaceTable) : Prop where
  /-- Every input port has exactly one entry. -/
  entry : ∀ port ∈ lines.map Prod.fst, ∃! i, i < t.inInterfaceCnt ∧ (t.inInterface i).id = port
  /-- Every entry is that of an input port. -/
  mapped : ∀ i < t.inInterfaceCnt, (t.inInterface i).id ∈ lines.map Prod.fst
  /-- An entry has the outputs of its port, and no others. -/
  outs : ∀ i < t.inInterfaceCnt, (t.inInterface i).outs =
    (lines.filter fun l ↦ l.1 = (t.inInterface i).id).map Prod.snd

/-- The lines by their port numbers. -/
def portLines (portByName : List UInt8 → ℕ) (lines : List (List UInt8 × List UInt8)) :
    List (ℕ × ℕ) :=
  lines.map fun l ↦ (portByName l.1, portByName l.2)

variable {portByName : List UInt8 → ℕ} {t t' : InterfaceTable} {lines : List (ℕ × ℕ)}
  {portIn portOut i j left : ℕ}
  {name value : List UInt8}

/-! ## The search -/

/-- The search stops at the first slot with the port. -/
theorem InterfaceTable.findLoop_found (hcnt : t.inInterfaceCnt ≠ 0)
    (hid : (t.inInterface j).id = portIn) (hfirst : ∀ m < j, (t.inInterface m).id ≠ portIn)
    (hj : j < maxInterfaces) (h₁ : i ≤ j) (h₂ : j < i + left) :
    t.findLoop portIn left i = some (some j) := by
  induction left generalizing i with
  | zero => omega
  | succ left ih =>
    rw [findLoop, if_neg (by omega)]
    by_cases hij : i = j
    · subst hij
      rw [if_pos ⟨hid, hcnt⟩]
    · rw [if_neg fun h ↦ hfirst i (by omega) h.1, ih (by omega) (by omega)]

/-- The search comes to its end. -/
theorem InterfaceTable.findLoop_none
    (hnone : ∀ j, i ≤ j → j < i + left → ¬((t.inInterface j).id = portIn ∧ t.inInterfaceCnt ≠ 0))
    (hend : i + left ≤ maxInterfaces) : t.findLoop portIn left i = some none := by
  induction left generalizing i with
  | zero => rfl
  | succ left ih =>
    rw [findLoop, if_neg (by omega), if_neg (hnone i le_rfl (by omega)),
      ih (fun j h₁ h₂ ↦ hnone j (by omega) (by omega)) (by omega)]

/-! ## A line -/

theorem InInterfaceSett.addOut_eq {s : InInterfaceSett} (h : s.nOut < maxInterfaces) (portOut : ℕ) :
    s.addOut portOut =
      some { s with outPort := Function.update s.outPort s.nOut portOut, nOut := s.nOut + 1 } :=
  if_neg (by omega)

theorem InInterfaceSett.outs_addOut {s s' : InInterfaceSett} (h : s.addOut portOut = some s') :
    s'.id = s.id ∧ s'.outs = s.outs ++ [portOut] := by
  rw [addOut] at h
  split at h
  · exact absurd h (by simp)
  obtain rfl := Option.some.inj h
  refine ⟨rfl, ?_⟩
  simp only [outs, List.range_succ, List.map_append, List.map_singleton, Function.update_self]
  refine congrArg (· ++ [portOut]) (List.map_congr_left fun j hj ↦ ?_)
  have : j < s.nOut := List.mem_range.1 hj
  exact Function.update_of_ne (by omega) ..

@[simp] theorem InInterfaceSett.length_outs (s : InInterfaceSett) : s.outs.length = s.nOut := by
  simp [outs]

/-- The table after the first lines, while port 0 is not missed: it is faithful, and the slots
behind the entries are untouched. -/
structure InterfaceTable.Good (lines : List (ℕ × ℕ)) (t : InterfaceTable) : Prop where
  faithful : t.Faithful lines
  fresh : ∀ i, t.inInterfaceCnt ≤ i → (t.inInterface i).id = 0 ∧ (t.inInterface i).nOut = 0

namespace InterfaceTable.Good

/-- Two entries have two ports. -/
theorem id_inj (h : t.Good lines) (hi : i < t.inInterfaceCnt) (hj : j < t.inInterfaceCnt)
    (he : (t.inInterface i).id = (t.inInterface j).id) : i = j := by
  obtain ⟨n, -, huniq⟩ := h.faithful.entry _ (h.faithful.mapped i hi)
  exact (huniq i ⟨hi, rfl⟩).trans (huniq j ⟨hj, he.symm⟩).symm

/-- There are not more entries than ports, and fewer as long as some port has none. -/
theorem cnt_le (h : t.Good lines) (hports : ∀ l ∈ lines, l.1 < maxInterfaces) {s : Finset ℕ}
    (hs : ∀ port < maxInterfaces, port ∈ lines.map Prod.fst → port ∈ s) :
    t.inInterfaceCnt ≤ s.card := by
  have hcard : (Finset.range t.inInterfaceCnt).card ≤ s.card := by
    refine Finset.card_le_card_of_injOn (fun i ↦ (t.inInterface i).id) (fun i hi ↦ ?_)
      fun i hi j hj he ↦ ?_
    · have hmem := h.faithful.mapped i (Finset.mem_range.1 hi)
      obtain ⟨l, hl, he⟩ := List.mem_map.1 hmem
      exact hs _ (lt_of_eq_of_lt he.symm (hports l hl)) hmem
    · exact h.id_inj (Finset.mem_range.1 hi) (Finset.mem_range.1 hj) he
  rwa [Finset.card_range] at hcard

theorem cnt_le_max (h : t.Good lines) (hports : ∀ l ∈ lines, l.1 < maxInterfaces) :
    t.inInterfaceCnt ≤ maxInterfaces := by
  simpa using h.cnt_le hports (s := Finset.range maxInterfaces)
    fun port hport _ ↦ Finset.mem_range.2 hport

theorem cnt_lt_max (h : t.Good lines) (hports : ∀ l ∈ lines, l.1 < maxInterfaces)
    (hin : portIn < maxInterfaces) (hnew : portIn ∉ lines.map Prod.fst) :
    t.inInterfaceCnt < maxInterfaces := by
  have := h.cnt_le hports (s := (Finset.range maxInterfaces).erase portIn) fun port hport hmem ↦
    Finset.mem_erase.2 ⟨fun he ↦ hnew (he ▸ hmem), Finset.mem_range.2 hport⟩
  rw [Finset.card_erase_of_mem (Finset.mem_range.2 hin), Finset.card_range] at this
  omega

/-- A line of a port that has an entry. -/
theorem append (h : t.Good lines) (hi : i < t.inInterfaceCnt) (hid : (t.inInterface i).id = portIn)
    (hcnt : t'.inInterfaceCnt = t.inInterfaceCnt) (hsid : (t'.inInterface i).id = portIn)
    (hsouts : (t'.inInterface i).outs = (t.inInterface i).outs ++ [portOut])
    (hold : ∀ j, j ≠ i → t'.inInterface j = t.inInterface j) :
    t'.Good (lines ++ [(portIn, portOut)]) := by
  have hids : ∀ j, (t'.inInterface j).id = (t.inInterface j).id := by
    intro j
    by_cases hj : j = i
    · rw [hj, hsid, hid]
    · rw [hold j hj]
  have hmem : portIn ∈ lines.map Prod.fst := hid ▸ h.faithful.mapped i hi
  refine ⟨⟨fun port hport ↦ ?_, fun j hj ↦ ?_, fun j hj ↦ ?_⟩, fun j hj ↦ ?_⟩
  · simp only [hids, hcnt]
    refine h.faithful.entry port ?_
    simp only [List.map_append, List.map_singleton, List.mem_append, List.mem_singleton] at hport
    exact hport.elim id fun he ↦ he ▸ hmem
  · rw [hids, List.map_append]
    exact List.mem_append_left _ (h.faithful.mapped j (hcnt ▸ hj))
  · rw [hcnt] at hj
    rw [hids, List.filter_append, List.map_append, ← h.faithful.outs j hj]
    by_cases hj' : j = i
    · subst hj'
      simp [hsouts, hid]
    · have hne : portIn ≠ (t.inInterface j).id :=
        fun he ↦ hj' (h.id_inj hj hi (he.symm.trans hid.symm))
      simp [hold j hj', hne]
  · rw [hcnt] at hj
    rw [hold j (by omega)]
    exact h.fresh j hj

/-- The first line of a port. -/
theorem insert (h : t.Good lines) (hnew : portIn ∉ lines.map Prod.fst)
    (hcnt : t'.inInterfaceCnt = t.inInterfaceCnt + 1)
    (hsid : (t'.inInterface t.inInterfaceCnt).id = portIn)
    (hsouts : (t'.inInterface t.inInterfaceCnt).outs = [portOut])
    (hold : ∀ j, j ≠ t.inInterfaceCnt → t'.inInterface j = t.inInterface j) :
    t'.Good (lines ++ [(portIn, portOut)]) := by
  have hne : ∀ j < t.inInterfaceCnt, (t.inInterface j).id ≠ portIn := fun j hj he ↦
    hnew (he ▸ h.faithful.mapped j hj)
  have hempty : lines.filter (fun l ↦ l.1 = portIn) = [] := by
    refine List.filter_eq_nil_iff.2 fun l hl ↦ ?_
    simpa using fun he : l.1 = portIn ↦ hnew (he ▸ List.mem_map_of_mem hl)
  refine ⟨⟨fun port hport ↦ ?_, fun j hj ↦ ?_, fun j hj ↦ ?_⟩, fun j hj ↦ ?_⟩
  · rw [hcnt]
    by_cases hp : port = portIn
    · subst hp
      refine ⟨t.inInterfaceCnt, ⟨Nat.lt_succ_self _, hsid⟩, ?_⟩
      rintro j ⟨hj, hjid⟩
      refine Nat.le_antisymm (Nat.lt_succ_iff.1 hj) (Nat.not_lt.1 fun hlt ↦ hne j hlt ?_)
      rwa [hold j hlt.ne] at hjid
    · have hport' : port ∈ lines.map Prod.fst := by
        simp only [List.map_append, List.map_singleton, List.mem_append,
          List.mem_singleton] at hport
        exact hport.resolve_right hp
      obtain ⟨i, ⟨hi, hid⟩, huniq⟩ := h.faithful.entry port hport'
      refine ⟨i, ⟨by omega, by rwa [hold i hi.ne]⟩, ?_⟩
      rintro j ⟨hj, hjid⟩
      rcases Nat.lt_succ_iff_lt_or_eq.1 hj with hlt | rfl
      · rw [hold j hlt.ne] at hjid
        exact huniq j ⟨hlt, hjid⟩
      · exact absurd (hjid.symm.trans hsid) hp
  · rw [hcnt] at hj
    rcases Nat.lt_succ_iff_lt_or_eq.1 hj with hlt | rfl
    · rw [hold j hlt.ne, List.map_append]
      exact List.mem_append_left _ (h.faithful.mapped j hlt)
    · simp [hsid]
  · rw [hcnt] at hj
    rcases Nat.lt_succ_iff_lt_or_eq.1 hj with hlt | rfl
    · have hport := (hne j hlt).symm
      rw [hold j hlt.ne, h.faithful.outs j hlt, List.filter_append]
      simp [hport]
    · rw [hsid, hsouts, List.filter_append, hempty]
      simp
  · rw [hcnt] at hj
    rw [hold j (by omega)]
    exact h.fresh j (by omega)

/-- **A line keeps the table faithful**, unless it is the first line of port 0 and comes after
others. -/
theorem step (h : t.Good lines) (hports : ∀ l ∈ lines, l.1 < maxInterfaces)
    (hin : portByName name < maxInterfaces) (hout : portByName value < maxInterfaces)
    (hfew : (lines.filter fun l ↦ l.1 = portByName name).length < maxInterfaces)
    (hzero : lines = [] ∨ portByName name ≠ 0 ∨ 0 ∈ lines.map Prod.fst) :
    ∃ t', parseMapping portByName name value t = some t' ∧
      t'.Good (lines ++ [(portByName name, portByName value)]) := by
  simp only [parseMapping]
  rw [if_neg (by omega)]
  generalize portByName name = portIn at *
  by_cases hmem : portIn ∈ lines.map Prod.fst
  · obtain ⟨i, ⟨hi, hid⟩, huniq⟩ := h.faithful.entry portIn hmem
    have hmax := h.cnt_le_max hports
    have hfind : t.findLoop portIn (t.inInterfaceCnt + 1) 0 = some (some i) :=
      findLoop_found (by omega) hid (fun m hm he ↦ absurd (huniq m ⟨by omega, he⟩) (by omega))
        (by omega)
        (Nat.zero_le i) (by omega)
    have hroom : (t.inInterface i).nOut < maxInterfaces := by
      rw [← InInterfaceSett.length_outs, h.faithful.outs i hi, hid, List.length_map]
      exact hfew
    have hadd := InInterfaceSett.addOut_eq hroom (portByName value)
    obtain ⟨hsid, hsouts⟩ := InInterfaceSett.outs_addOut hadd
    simp only [hfind, hadd, Option.bind_eq_bind, Option.bind_some]
    refine ⟨_, rfl, h.append hi hid rfl ?_ ?_ fun j hj ↦ Function.update_of_ne hj ..⟩
    · simpa only [Function.update_self] using hsid.trans hid
    · simpa only [Function.update_self] using hsouts
  · have hlt := h.cnt_lt_max hports hin hmem
    have hfind : t.findLoop portIn (t.inInterfaceCnt + 1) 0 = some none := by
      refine findLoop_none (fun j _ hj ⟨hid, hcnt⟩ ↦ hmem ?_) (by omega)
      rcases Nat.lt_or_ge j t.inInterfaceCnt with hlt | hge
      · exact hid ▸ h.faithful.mapped j hlt
      · -- the slot behind the entries has the port 0
        have h0 : portIn = 0 := hid ▸ (h.fresh j hge).1
        have hne : lines ≠ [] := fun he ↦ by
          have := h.faithful.mapped 0 (by omega)
          simp [he] at this
        rw [h0]
        exact (hzero.resolve_left hne).resolve_left (not_not.2 h0)
    have hroom : InInterfaceSett.nOut
      { t.inInterface t.inInterfaceCnt with id := portIn, address := name } <
        maxInterfaces := by
      simp only [(h.fresh _ le_rfl).2]
      decide
    have hadd := InInterfaceSett.addOut_eq hroom (portByName value)
    obtain ⟨hsid, hsouts⟩ := InInterfaceSett.outs_addOut hadd
    have hslot : InInterfaceSett.outs
      { t.inInterface t.inInterfaceCnt with id := portIn, address := name } = [] := by
      rw [← List.length_eq_zero_iff, InInterfaceSett.length_outs]
      exact (h.fresh _ le_rfl).2
    simp only [hfind, hadd, Option.bind_eq_bind, Option.bind_some]
    rw [if_neg (by omega)]
    refine ⟨_, rfl, h.insert hmem rfl ?_ ?_ fun j hj ↦ Function.update_of_ne hj ..⟩
    · simp only [Function.update_self]
    · simpa only [Function.update_self, hslot, List.nil_append] using hsouts

/-- **The lines of the section**, after some lines before them. -/
theorem run {todo : List (List UInt8 × List UInt8)} (h : t.Good lines)
    (hports : ∀ l ∈ lines, l.1 < maxInterfaces)
    (htodo : ∀ l ∈ todo, portByName l.1 < maxInterfaces ∧ portByName l.2 < maxInterfaces)
    (hfew : ∀ port, ((lines ++ portLines portByName todo).filter fun l ↦ l.1 = port).length ≤
      maxInterfaces) (hzero : 0 ∈ (lines ++ portLines portByName todo).map Prod.fst →
      ((lines ++ portLines portByName todo).map Prod.fst).head? = some 0) :
    ∃ t', parseMappings portByName todo t = some t' ∧
      t'.Good (lines ++ portLines portByName todo) := by
  induction todo generalizing lines t with
  | nil =>
    refine ⟨t, rfl, ?_⟩
    rwa [portLines, List.map_nil, List.append_nil]
  | cons l todo ih =>
    obtain ⟨name, value⟩ := l
    have hsplit : lines ++ portLines portByName ((name, value) :: todo) =
        (lines ++ [(portByName name, portByName value)]) ++ portLines portByName todo := by
      simp [portLines]
    rw [hsplit] at hfew hzero ⊢
    obtain ⟨hin, hout⟩ := htodo (name, value) (by simp)
    have hroom : (lines.filter fun l ↦ l.1 = portByName name).length < maxInterfaces := by
      have := hfew (portByName name)
      simp only [List.filter_append, List.length_append, List.filter_singleton, decide_true,
        cond_true,
        List.length_singleton] at this
      omega
    have hfirst : lines = [] ∨ portByName name ≠ 0 ∨ 0 ∈ lines.map Prod.fst := by
      -- a line of port 0 that is not the first comes after one that is
      refine or_iff_not_imp_left.2 fun hne ↦ or_iff_not_imp_left.2 fun h0 ↦ ?_
      obtain ⟨l, ls, rfl⟩ := List.exists_cons_of_ne_nil hne
      have hhead := hzero (by simp [not_not.1 h0])
      simp only [List.cons_append, List.map_cons, List.head?_cons, Option.some.injEq] at hhead
      simp [hhead]
    obtain ⟨t₁, ht₁, hgood⟩ := h.step hports hin hout hroom hfirst
    have hports' : ∀ l ∈ lines ++ [(portByName name, portByName value)], l.1 < maxInterfaces := by
      intro l hl
      rcases List.mem_append.1 hl with hl | hl
      · exact hports l hl
      · rw [List.mem_singleton.1 hl]
        exact hin
    obtain ⟨t', ht', hgood'⟩ := ih hgood hports' (fun l hl ↦ htodo l (by simp [hl])) hfew hzero
    refine ⟨t', ?_, hgood'⟩
    rw [parseMappings, ht₁]
    exact ht'

end InterfaceTable.Good

/-- No entry has the port 0, and there is an entry. -/
structure InterfaceTable.Misses (t : InterfaceTable) : Prop where
  cnt : t.inInterfaceCnt ≠ 0
  entries : ∀ i < t.inInterfaceCnt, (t.inInterface i).id ≠ 0
  fresh : ∀ i, t.inInterfaceCnt ≤ i → (t.inInterface i).id = 0

/-- **Once port 0 is missed it stays missed.** -/
theorem InterfaceTable.Misses.step (h : t.Misses)
    (ht : parseMapping portByName name value t = some t') :
    t'.Misses := by
  simp only [parseMapping] at ht
  split at ht
  · exact absurd ht (by simp)
  obtain ⟨found, hfound, ht⟩ := Option.bind_eq_some_iff.1 ht
  cases found with
  | some i =>
    obtain ⟨s, hs, ht⟩ := Option.bind_eq_some_iff.1 ht
    obtain rfl := Option.some.inj ht
    obtain ⟨hsid, -⟩ := InInterfaceSett.outs_addOut hs
    have hids : ∀ j, (Function.update t.inInterface i s j).id = (t.inInterface j).id := by
      intro j
      by_cases hj : j = i
      · rw [hj, Function.update_self, hsid]
      · rw [Function.update_of_ne hj]
    exact ⟨h.cnt, fun j hj ↦ (hids j).trans_ne (h.entries j hj), fun j hj ↦
      (hids j).trans (h.fresh j hj)⟩
  | none =>
    simp only at ht
    split at ht
    · exact absurd ht (by simp)
    next hroom =>
    obtain ⟨s, hs, ht⟩ := Option.bind_eq_some_iff.1 ht
    obtain rfl := Option.some.inj ht
    obtain ⟨hsid, -⟩ := InInterfaceSett.outs_addOut hs
    -- had the line been one of port 0, the search would have found the slot behind the entries
    have hne : s.id ≠ 0 := by
      intro h0
      rw [hsid] at h0
      have hlast := h.fresh t.inInterfaceCnt le_rfl
      have hmiss : t.findLoop (portByName name) (t.inInterfaceCnt + 1) 0 =
        some (some t.inInterfaceCnt) :=
        findLoop_found h.cnt (hlast.trans h0.symm) (fun m hm he ↦ h.entries m hm (he.trans h0))
          (by omega)
          (Nat.zero_le _) (by omega)
      rw [hmiss] at hfound
      exact absurd hfound (by simp)
    refine ⟨by simp, fun j hj ↦ ?_, fun j hj ↦ ?_⟩
    · by_cases hj' : j = t.inInterfaceCnt
      · simp only [hj', Function.update_self]
        exact hne
      · simp only [Function.update_of_ne hj']
        simp only at hj
        exact h.entries j (by omega)
    · simp only at hj
      have hj' : j ≠ t.inInterfaceCnt := by omega
      simp only [Function.update_of_ne hj']
      exact h.fresh j (by omega)

theorem InterfaceTable.Misses.run {todo : List (List UInt8 × List UInt8)} (h : t.Misses)
    (ht : parseMappings portByName todo t = some t') : t'.Misses := by
  induction todo generalizing t with
  | nil =>
    obtain rfl := Option.some.inj ht
    exact h
  | cons l todo ih =>
    obtain ⟨t₁, ht₁, ht⟩ := Option.bind_eq_some_iff.1 ht
    exact ih (h.step ht₁) ht

theorem InterfaceTable.good_zero : InterfaceTable.zero.Good [] where
  faithful :=
    ⟨by simp, fun i hi ↦ absurd hi (Nat.not_lt_zero i), fun i hi ↦ absurd hi (Nat.not_lt_zero i)⟩
  fresh _ _ := ⟨rfl, rfl⟩

/-- **The table is faithful to the lines** if and only if port 0, if it is an input port at all, is
that of the first line. -/
theorem mappings_faithful_iff {lines : List (List UInt8 × List UInt8)}
    (hports : ∀ l ∈ lines, portByName l.1 < maxInterfaces ∧ portByName l.2 < maxInterfaces)
    (hfew : ∀ port, ((portLines portByName lines).filter fun l ↦ l.1 = port).length ≤
      maxInterfaces) :
    (∃ t, parseMappings portByName lines .zero = some t ∧ t.Faithful (portLines portByName lines)) ↔
      (0 ∈ (portLines portByName lines).map Prod.fst →
        ((portLines portByName lines).map Prod.fst).head? = some 0) := by
  constructor
  · rintro ⟨t, ht, hfaithful⟩ h0
    by_contra hhead
    obtain ⟨i, ⟨hi, hid⟩, -⟩ := hfaithful.entry 0 h0
    refine InterfaceTable.Misses.entries ?_ i hi hid
    cases lines with
    | nil => simp [portLines] at h0
    | cons l lines =>
      -- the first line makes an entry of another port
      obtain ⟨t₁, ht₁, ht⟩ := Option.bind_eq_some_iff.1 ht
      refine InterfaceTable.Misses.run ?_ ht
      have hne : portByName l.1 ≠ 0 := fun he ↦ hhead (by simp [portLines, he])
      obtain ⟨hin, hout⟩ := hports l (by simp)
      obtain ⟨t₂, ht₂, hgood⟩ := InterfaceTable.good_zero.step (by simp) hin hout
        (lt_of_eq_of_lt List.length_nil (by decide)) (.inl rfl)
      obtain rfl : t₁ = t₂ := Option.some.inj (ht₁.symm.trans ht₂)
      obtain ⟨j, ⟨hj, -⟩, -⟩ := hgood.faithful.entry (portByName l.1) (by simp)
      refine ⟨by omega, fun m hm h0 ↦ hne ?_, fun m hm ↦ (hgood.fresh m hm).1⟩
      have := hgood.faithful.mapped m hm
      simpa [h0, eq_comm] using this
  · intro hzero
    obtain ⟨t, ht, hgood⟩ := InterfaceTable.good_zero.run (by simp) hports
      (by simpa using hfew) (by simpa using hzero)
    exact ⟨t, ht, by simpa using hgood.faithful⟩

/-- Ports named by their numbers. -/
def portOfDigit (name : List UInt8) : ℕ := (name.headD 48).toNat - 48

/-- Two input ports, the port 0 first. -/
theorem mappings_faithful_zero_first :
    (∃ t, parseMappings portOfDigit [([48], [50]), ([49], [51]), ([48], [51])] .zero = some t ∧
        t.Faithful (portLines portOfDigit [([48], [50]), ([49], [51]), ([48], [51])])) ↔
      (0 ∈ (portLines portOfDigit [([48], [50]), ([49], [51]), ([48], [51])]).map Prod.fst →
        ((portLines portOfDigit [([48], [50]), ([49], [51]), ([48], [51])]).map Prod.fst).head? =
          some 0) := by
  refine mappings_faithful_iff (by decide) fun port ↦ (List.length_filter_le ..).trans ?_
  decide

/-- The port 1 and then the port 0: there is no entry for port 0. -/
theorem mappings_faithful_fails :
    ¬∀ (portByName : List UInt8 → ℕ) (lines : List (List UInt8 × List UInt8)),
    (∀ l ∈ lines, portByName l.1 < maxInterfaces ∧ portByName l.2 < maxInterfaces) →
    (∀ port, ((portLines portByName lines).filter fun l ↦ l.1 = port).length ≤ maxInterfaces) →
    ∃ t, parseMappings portByName lines .zero = some t ∧
      t.Faithful (portLines portByName lines) := by
  intro h
  obtain ⟨t, ht, hfaithful⟩ := h portOfDigit [([49], [50]), ([48], [51])] (by decide) fun port ↦
    (List.length_filter_le ..).trans (by decide)
  have hids : ((parseMappings portOfDigit [([49], [50]), ([48], [51])] .zero).map fun t ↦
      (t.inInterfaceCnt, (t.inInterface 0).id)) = some (1, 1) := by
    decide +kernel
  rw [ht, Option.map_some, Option.some.injEq, Prod.mk.injEq] at hids
  obtain ⟨i, ⟨hi, hid⟩, -⟩ := hfaithful.entry 0 (by decide)
  obtain rfl : i = 0 := by omega
  rw [hids.2] at hid
  exact absurd hid (by decide)

end AlphaMon
