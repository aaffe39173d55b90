import AlphaMon.FlowLife

/-!
# Which flows share a record

A flow is a protocol and two endpoints, each an address with a port, in either order.  The match of
`reference_flow` compares the addresses and the ports separately, so that it also takes for the same
flow two packets whose addresses are those of each other in one order and whose ports in the other.

In a run in which no flow expires, two calls return the same record exactly when the keys are the
same (`runFlows_identity`), and this is what the flow is in all cases but those
(`flow_identity_iff`).
-/

set_option autoImplicit false

namespace AlphaMon

/-- Two packets of one flow: the endpoints are the same, or exchanged as a whole. -/
def Flow.SameFlow (f g : Flow) : Prop :=
  f.protocol = g.protocol ∧
  ((f.ipv4Src = g.ipv4Src ∧ f.inPort = g.inPort ∧ f.ipv4Dst = g.ipv4Dst ∧ f.outPort = g.outPort) ∨
    (f.ipv4Src = g.ipv4Dst ∧ f.inPort = g.outPort ∧ f.ipv4Dst = g.ipv4Src ∧ f.outPort = g.inPort))

instance (f g : Flow) : Decidable (f.SameFlow g) := inferInstanceAs (Decidable (_ ∧ (_ ∨ _)))

/-- Two different addresses and two different ports, of which exactly one pair is exchanged. -/
def Flow.PartialSwap (f g : Flow) : Prop :=
  f.protocol = g.protocol ∧ f.ipv4Src ≠ f.ipv4Dst ∧ f.inPort ≠ f.outPort ∧
  ((f.ipv4Src = g.ipv4Src ∧ f.ipv4Dst = g.ipv4Dst ∧ f.inPort = g.outPort ∧ f.outPort = g.inPort) ∨
    (f.ipv4Src = g.ipv4Dst ∧ f.ipv4Dst = g.ipv4Src ∧ f.inPort = g.inPort ∧ f.outPort = g.outPort))

theorem Flow.key_eq_iff {f g : Flow} : f.key = g.key ↔ f.SameFlow g ∨ f.PartialSwap g := by
  simp only [key, SameFlow, PartialSwap, Prod.mk.injEq, Sym2.eq_iff]
  constructor
  · rintro ⟨haddr, hport, hproto⟩
    by_cases ha : f.ipv4Src = f.ipv4Dst
    · refine .inl ⟨hproto, ?_⟩
      rcases hport with ⟨h₁, h₂⟩ | ⟨h₁, h₂⟩
      · exact .inl (by rcases haddr with ⟨h₃, h₄⟩ | ⟨h₃, h₄⟩ <;> simp_all)
      · exact .inr (by rcases haddr with ⟨h₃, h₄⟩ | ⟨h₃, h₄⟩ <;> simp_all)
    by_cases hp : f.inPort = f.outPort
    · refine .inl ⟨hproto, ?_⟩
      rcases haddr with ⟨h₁, h₂⟩ | ⟨h₁, h₂⟩
      · exact .inl (by rcases hport with ⟨h₃, h₄⟩ | ⟨h₃, h₄⟩ <;> simp_all)
      · exact .inr (by rcases hport with ⟨h₃, h₄⟩ | ⟨h₃, h₄⟩ <;> simp_all)
    rcases haddr with ⟨h₁, h₂⟩ | ⟨h₁, h₂⟩ <;> rcases hport with ⟨h₃, h₄⟩ | ⟨h₃, h₄⟩
    · exact .inl ⟨hproto, .inl ⟨h₁, h₃, h₂, h₄⟩⟩
    · exact .inr ⟨hproto, ha, hp, .inl ⟨h₁, h₂, h₃, h₄⟩⟩
    · exact .inr ⟨hproto, ha, hp, .inr ⟨h₁, h₂, h₃, h₄⟩⟩
    · exact .inl ⟨hproto, .inr ⟨h₁, h₃, h₂, h₄⟩⟩
  · tauto

theorem Flow.SameFlow.not_partialSwap {f g : Flow} (h : f.SameFlow g) : ¬f.PartialSwap g := by
  rintro ⟨-, ha, hp, h' | h'⟩
  · rcases h with ⟨-, h | h⟩
    · exact hp (h.2.1.trans h'.2.2.2.symm)
    · exact ha (h.1.trans h'.2.1.symm)
  · rcases h with ⟨-, h | h⟩
    · exact ha (h.1.trans h'.2.1.symm)
    · exact hp (h.2.1.trans h'.2.2.2.symm)

/-- No flow seen in the run expires before the run is over: at every call, every earlier flow was
seen at most `T_OUT` seconds before. -/
def NoExpiry (calls : List FlowCall) : Prop :=
  ∀ pre c post, calls = pre ++ c :: post → ∀ e ∈ pre, ∃ e' ∈ pre, e'.flow.SameFlow e.flow ∧
    c.time - e'.time ≤ tOut

theorem NoExpiry.left {calls calls' : List FlowCall} (h : NoExpiry (calls ++ calls')) :
    NoExpiry calls :=
  fun pre c post he ↦ h pre c (post ++ calls') (by simp [he])

/-! ## Without expiry -/

/-- The table after a run without expiry, and the records the calls returned. -/
structure Unexpired (calls : List FlowCall) (ptrs : List (ℕ × ℕ)) (T : FlowTab) : Prop where
  distinct : T.KeysDistinct
  length : ptrs.length = calls.length
  /-- A record returned is still there, with the key of its flow. -/
  recorded : ∀ e ptr, (e, ptr) ∈ calls.zip ptrs →
    ptr.1 = e.flow.bucket ∧ ∃ x, (ptr.2, x) ∈ T ptr.1 ∧ x.key = e.flow.key
  /-- The record of a flow has been touched by all its calls. -/
  touched : ∀ h, ∀ p ∈ T h, ∀ e ∈ calls, e.flow.bucket = h → e.flow.key = p.2.key →
    e.time ≤ p.2.timestamp
  /-- A record that is not embedded was made for a call. -/
  called : ∀ h, ∀ p ∈ T h, p.1 ≠ 0 → ∃ e ∈ calls, e.flow.bucket = h ∧ e.flow.key = p.2.key

variable {db db' : FlowTable} {T T' : FlowTab} {c : FlowCall} {calls : List FlowCall}
  {ptrs : List (ℕ × ℕ)} {a : ℕ}

theorem not_fallsOff_of_not_expired {data : Flow} {gc : Bool} : ∀ {l : List FlowRec},
    (∀ p ∈ l, ¬p.Expired data.timestamp) → ¬FallsOff data gc l ∧ ¬StepsOver data gc l
  | [], _ => ⟨id, id⟩
  | [p], h => ⟨fun hf ↦ h p (by simp) hf.2.2, id⟩
  | p :: q :: l, h => by
    have hp : ¬(gc = true ∧ p.Expired data.timestamp) := fun hp ↦ h p (by simp) hp.2
    obtain ⟨h₁, h₂⟩ : ¬FallsOff data gc (q :: l) ∧ ¬StepsOver data gc (q :: l) :=
      not_fallsOff_of_not_expired fun r hr ↦ h r (by simp [hr])
    exact ⟨fun hf ↦ h₁ (by simpa [FallsOff, hp] using hf.2),
      fun hs ↦ h₂ (by simpa [StepsOver, hp] using hs.2)⟩

/-- The record of a flow that was called has not expired. -/
theorem Unexpired.not_expired (hu : Unexpired calls ptrs T)
    (h4 : ∀ e ∈ calls ++ [c], e.flow.ipv = 4) (hne : NoExpiry (calls ++ [c])) {h : ℕ}
    {p : ℕ × FlowRec} (hp : p ∈ T h) {e : FlowCall} (he : e ∈ calls) (hb : e.flow.bucket = h)
    (hkey : e.flow.key = p.2.key) : ¬p.2.Expired c.time := by
  obtain ⟨e', he', hsame, hgap⟩ := hne calls c [] rfl e he
  have hkey' : e'.flow.key = e.flow.key := Flow.key_eq_iff.2 (.inl hsame)
  have hb' : e'.flow.bucket = h :=
    (Flow.bucket_eq (h4 e' (by simp [he'])) (h4 e (by simp [he])) hkey').trans hb
  have := hu.touched h p hp e' he' hb' (hkey'.trans hkey)
  rw [FlowRec.Expired]
  omega

/-- **One more call.** -/
theorem Unexpired.step (hu : Unexpired calls ptrs T) (hdb : db.View T)
    (h4 : ∀ e ∈ calls ++ [c], e.flow.ipv = 4) (ht : FlowTimed (calls ++ [c])) (hok : c.AllocOk)
    (hne : NoExpiry (calls ++ [c])) :
    ∃ db' a T', c.run db = some (db', a) ∧ db'.View T' ∧
      Unexpired (calls ++ [c]) (ptrs ++ [(c.flow.bucket, a)]) T' := by
  have hsafe : c.Safe db := by
    obtain ⟨p, l, hT⟩ := hdb.ne_nil c.flow.bucket
    have hb := hdb c.flow.bucket
    rw [hT] at hb
    have hp : p.1 = 0 := by simpa using hb.first
    have hnot : ¬AlphaMon.FallsOff c.flow c.env.collects (l.map Prod.snd) ∧
        ¬AlphaMon.StepsOver c.flow c.env.collects (l.map Prod.snd) :=
      not_fallsOff_of_not_expired fun r hr ↦ by
        obtain ⟨q, hq, rfl⟩ := List.mem_map.1 hr
        have hq0 : q.1 ≠ 0 := fun h0 ↦ by
          have hnd := List.nodup_cons.1 hb.nodup
          exact hnd.1 (hp.trans h0.symm ▸ Linked.mem_addrs_of_mem hq)
        have hqT : q ∈ T c.flow.bucket := hT ▸ List.mem_cons_of_mem _ hq
        obtain ⟨e, he, hbe, hke⟩ := hu.called _ q hqT hq0
        exact hu.not_expired h4 hne hqT he hbe hke
    constructor
    · rw [FlowCall.FallsOff, hdb.records, hT]
      exact fun h ↦ hnot.1 h.2
    · rw [FlowCall.StepsOver, hdb.records, hT]
      exact fun h ↦ hnot.2 h.2
  obtain ⟨db', a, T', hrun, hdb', hT', hdid⟩ := hsafe.run hdb hu.distinct hok
  obtain ⟨y, hy, hykey, hytime, hmeets⟩ := hdid.ret
  have hlast : ∀ e ∈ calls, e.time ≤ c.time := fun e he ↦
    (List.pairwise_append.1 ht).2.2 e he c (by simp)
  refine ⟨db', a, T', hrun, hdb', hT', by simp [hu.length], ?_, ?_, ?_⟩
  · intro e ptr hmem
    rw [List.zip_append hu.length.symm] at hmem
    rcases List.mem_append.1 hmem with hmem | hmem
    swap
    · obtain ⟨rfl, rfl⟩ : e = c ∧ ptr = (c.flow.bucket, a) := by simpa using hmem
      exact ⟨rfl, y, hy, hykey⟩
    obtain ⟨hb, x, hx, hkey⟩ := hu.recorded e ptr hmem
    have he := (List.of_mem_zip hmem).1
    refine ⟨hb, ?_⟩
    by_cases hbc : ptr.1 = c.flow.bucket
    swap
    · exact ⟨x, by rwa [hdid.other _ hbc], hkey⟩
    rw [hbc] at hx ⊢
    by_cases hxc : x.key = c.flow.key
    · -- the call returns this record
      split at hmeets
      · next x' hx' =>
        have haa : a = ptr.2 := hu.distinct _ _ hmeets.1 _ hx ((bucketMeets_key hx').trans hxc.symm)
        exact ⟨y, haa ▸ hy, hykey.trans (hxc.symm.trans hkey)⟩
      · next hx' => exact absurd hxc (hsafe.absent hdb hx' (hdid.absent hx') _ hx)
    · exact ⟨x, hdid.kept _ hx hxc (hu.not_expired h4 hne hx he (hb.symm.trans hbc) hkey.symm),
        hkey⟩
  · intro h p hp e he hb hkey
    by_cases hbc : h = c.flow.bucket
    swap
    · rw [hdid.other h hbc] at hp
      rcases List.mem_append.1 he with he | he
      · exact hu.touched h p hp e he hb hkey
      · obtain rfl : e = c := by simpa using he
        exact absurd hb.symm hbc
    subst hbc
    by_cases hpa : p.1 = a
    · have hpy : p.2 = y := (hdb' c.flow.bucket).unique (a := a) (by rw [← hpa]; exact hp) hy
      rw [hpy, hytime]
      rcases List.mem_append.1 he with he | he
      · exact hlast e he
      · obtain rfl : e = c := by simpa using he
        exact le_rfl
    rcases List.mem_append.1 he with he | he
    · exact hu.touched _ p (hdid.old p hp hpa) e he hb hkey
    · obtain rfl : e = c := by simpa using he
      exact absurd (hT' _ p hp _ hy (hkey.symm.trans hykey.symm)) hpa
  · intro h p hp hp0
    by_cases hbc : h = c.flow.bucket
    swap
    · rw [hdid.other h hbc] at hp
      obtain ⟨e, he, hbe, hke⟩ := hu.called h p hp hp0
      exact ⟨e, by simp [he], hbe, hke⟩
    subst hbc
    by_cases hpa : p.1 = a
    · have hpy : p.2 = y := (hdb' c.flow.bucket).unique (a := a) (by rw [← hpa]; exact hp) hy
      exact ⟨c, by simp, rfl, by rw [hpy, hykey]⟩
    · obtain ⟨e, he, hbe, hke⟩ := hu.called _ p (hdid.old p hp hpa) hp0
      exact ⟨e, by simp [he], hbe, hke⟩

theorem unexpired_init : Unexpired [] [] FlowTab.init where
  distinct := keysDistinct_init
  length := rfl
  recorded _ _ h := by simp at h
  touched _ _ _ _ h := by simp at h
  called h p hp hp0 := absurd (by
    simpa [FlowTab.init] using congrArg Prod.fst (List.mem_singleton.1 hp)) hp0

/-- **A run without expiry.** -/
theorem runFlows_identity (h4 : ∀ e ∈ calls, e.flow.ipv = 4) (ht : FlowTimed calls)
    (hok : ∀ e ∈ calls, e.AllocOk) (hne : NoExpiry calls) :
    ∃ db ptrs T, runFlows flowTableInit calls = some (db, ptrs) ∧ db.View T ∧
      Unexpired calls ptrs T := by
  induction calls using List.reverseRecOn with
  | nil => exact ⟨_, [], _, rfl, view_flowTableInit, unexpired_init⟩
  | append_singleton calls c ih =>
    obtain ⟨db, ptrs, T, hrun, hdb, hu⟩ := ih (fun e he ↦ h4 e (by simp [he]))
      (List.pairwise_append.1 ht).1 (fun e he ↦ hok e (by simp [he])) hne.left
    obtain ⟨db', a, T', hrun', hdb', hu'⟩ := hu.step hdb h4 ht (hok c (by simp)) hne
    exact ⟨db', _, T', runFlows_append hrun (by simp [runFlows, hrun']), hdb', hu'⟩

/-- **Which flows share a record**: in a run without expiry both directions of a flow reach the same
bucket, and two calls return the same record exactly for packets of the same flow, unless exactly
one of the two pairs is exchanged. -/
theorem flow_identity_iff (h4 : ∀ e ∈ calls, e.flow.ipv = 4) (ht : FlowTimed calls)
    (hok : ∀ e ∈ calls, e.AllocOk) (hne : NoExpiry calls) :
    ∃ db ptrs, runFlows flowTableInit calls = some (db, ptrs) ∧ ptrs.length = calls.length ∧
      ∀ e ptr e' ptr', (e, ptr) ∈ calls.zip ptrs → (e', ptr') ∈ calls.zip ptrs →
        (e.flow.SameFlow e'.flow → e.flow.bucket = e'.flow.bucket) ∧
        ((ptr = ptr' ↔ e.flow.SameFlow e'.flow) ↔ ¬e.flow.PartialSwap e'.flow) := by
  obtain ⟨db, ptrs, T, hrun, hdb, hu⟩ := runFlows_identity h4 ht hok hne
  refine ⟨db, ptrs, hrun, hu.length, fun e ptr e' ptr' hm hm' ↦ ?_⟩
  obtain ⟨hb, x, hx, hkey⟩ := hu.recorded e ptr hm
  obtain ⟨hb', x', hx', hkey'⟩ := hu.recorded e' ptr' hm'
  have hbucket : e.flow.key = e'.flow.key → e.flow.bucket = e'.flow.bucket :=
    Flow.bucket_eq (h4 e (List.of_mem_zip hm).1) (h4 e' (List.of_mem_zip hm').1)
  have hptr : ptr = ptr' ↔ e.flow.key = e'.flow.key := by
    constructor
    · rintro rfl
      rw [← hkey, ← hkey', (hdb ptr.1).unique hx hx']
    · intro h
      have hbb : ptr.1 = ptr'.1 := (hb.trans (hbucket h)).trans hb'.symm
      rw [← hbb] at hx'
      exact Prod.ext hbb (hu.distinct _ _ hx _ hx' (hkey.trans (h.trans hkey'.symm)))
  refine ⟨fun h ↦ hbucket (Flow.key_eq_iff.2 (.inl h)), ?_⟩
  rw [hptr, Flow.key_eq_iff]
  constructor
  · intro h hp
    exact (h.1 (.inr hp)).not_partialSwap hp
  · intro h
    exact ⟨fun h' ↦ h'.resolve_right h, .inl⟩

/-- The two directions of a flow. -/
theorem flow_identity_directions : ∃ db ptrs,
    runFlows flowTableInit [.plain 1 2 10 20 0 0 none, .plain 2 1 20 10 1 6 none] =
      some (db, ptrs) ∧
      ptrs.length = [FlowCall.plain 1 2 10 20 0 0 none, .plain 2 1 20 10 1 6 none].length ∧
      ∀ e ptr e' ptr',
        (e, ptr) ∈ [FlowCall.plain 1 2 10 20 0 0 none, .plain 2 1 20 10 1 6 none].zip ptrs →
        (e', ptr') ∈ [FlowCall.plain 1 2 10 20 0 0 none, .plain 2 1 20 10 1 6 none].zip ptrs →
        (e.flow.SameFlow e'.flow → e.flow.bucket = e'.flow.bucket) ∧
        ((ptr = ptr' ↔ e.flow.SameFlow e'.flow) ↔ ¬e.flow.PartialSwap e'.flow) := by
  refine flow_identity_iff (by simp [FlowCall.plain])
    (by simp [FlowTimed, FlowCall.plain, FlowCall.time])
    (by simp [FlowCall.AllocOk, FlowCall.plain]) ?_
  rintro (_ | ⟨e₁, _ | ⟨e₂, pre⟩⟩) c post h e he
  · simp at he
  · obtain ⟨rfl, rfl, -⟩ : FlowCall.plain 1 2 10 20 0 0 none = e₁ ∧
        FlowCall.plain 2 1 20 10 1 6 none = c ∧ [] = post := by simpa using h
    obtain rfl : e = _ := List.mem_singleton.1 he
    exact ⟨_, by simp, ⟨rfl, .inl ⟨rfl, rfl, rfl, rfl⟩⟩, by decide⟩
  · simp at h

/-- Two flows between the same addresses, with the ports the other way round, share a record. -/
theorem flow_identity_fails : ¬∀ calls : List FlowCall, (∀ e ∈ calls, e.flow.ipv = 4) →
    FlowTimed calls → (∀ e ∈ calls, e.AllocOk) → NoExpiry calls →
    ∃ db ptrs, runFlows flowTableInit calls = some (db, ptrs) ∧ ptrs.length = calls.length ∧
      ∀ e ptr e' ptr', (e, ptr) ∈ calls.zip ptrs → (e', ptr') ∈ calls.zip ptrs →
        (e.flow.SameFlow e'.flow → e.flow.bucket = e'.flow.bucket) ∧
        (ptr = ptr' ↔ e.flow.SameFlow e'.flow) := by
  intro hall
  have hne : NoExpiry [.plain 1 2 10 20 0 0 none, .plain 1 2 20 10 1 0 none] := by
    rintro (_ | ⟨e₁, _ | ⟨e₂, pre⟩⟩) c post h e he
    · simp at he
    · obtain ⟨rfl, rfl, -⟩ : FlowCall.plain 1 2 10 20 0 0 none = e₁ ∧
          FlowCall.plain 1 2 20 10 1 0 none = c ∧ [] = post := by simpa using h
      obtain rfl : e = _ := List.mem_singleton.1 he
      exact ⟨_, by simp, ⟨rfl, .inl ⟨rfl, rfl, rfl, rfl⟩⟩, by decide⟩
    · simp at h
  obtain ⟨db, ptrs, hrun, -, hsame⟩ := hall _ (by simp [FlowCall.plain])
    (by simp [FlowTimed, FlowCall.plain, FlowCall.time])
      (by simp [FlowCall.AllocOk, FlowCall.plain]) hne
  have hptrs : (runFlows flowTableInit [.plain 1 2 10 20 0 0 none, .plain 1 2 20 10 1 0 none]).map
      Prod.snd = some [(27, 1), (27, 1)] := by
    decide +kernel
  rw [hrun] at hptrs
  obtain rfl : ptrs = _ := Option.some.inj hptrs
  have := (hsame (.plain 1 2 10 20 0 0 none) (27, 1) (.plain 1 2 20 10 1 0 none) (27, 1) (by simp)
    (by simp)).2.1 rfl
  simp [Flow.SameFlow, FlowCall.plain] at this

end AlphaMon
