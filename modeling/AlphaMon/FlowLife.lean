import AlphaMon.FlowRun

/-!
# The life of a flow's record

While a flow is active its record should be found again, with the decision stored in it, and once it
has been idle for `T_OUT` seconds the decision should be forgotten.

The first holds in every run whose calls neither fall off the chain nor step over the record they
look for (`flow_not_lost`): a bucket then never holds two records with one key, and a record that
has not expired is left where it is by the calls for other flows.  The second has nothing to enforce
it but the garbage collection of other calls: the walk compares a record with the packet before it
looks at its age, and the decision is forgotten only where such a call has deleted the record, or
where the call itself passes it unseen behind records that have expired (`flow_expires_iff`).
-/

set_option autoImplicit false

namespace AlphaMon

variable {db db' : FlowTable} {T T' : FlowTab} {c : FlowCall} {a : ℕ} {x : FlowRec}

/-- A call that does not go wrong in the state `db`. -/
def FlowCall.Safe (c : FlowCall) (db : FlowTable) : Prop := ¬c.FallsOff db ∧ ¬c.StepsOver db

/-- The calls are in the order of their times. -/
def FlowTimed (calls : List FlowCall) : Prop := calls.Pairwise fun c c' ↦ c.time ≤ c'.time

/-- No bucket has two records with one key. -/
def FlowTab.KeysDistinct (T : FlowTab) : Prop :=
  ∀ h, ∀ p ∈ T h, ∀ q ∈ T h, p.2.key = q.2.key → p.1 = q.1

/-- The record at an address of a bucket. -/
def FlowTable.recordAt (db : FlowTable) (h a : ℕ) :
    Option FlowRec := ((db h).cell a).map TableFlow.toFlowRec

theorem FlowTable.View.recordAt (hdb : db.View T) {h : ℕ} (hx : (a, x) ∈ T h) :
    db.recordAt h a = some x := by
  have hb := hdb h
  obtain ⟨l₁, l₂, hT⟩ := List.append_of_mem hx
  rw [hT] at hb
  obtain ⟨c, hc, hcx, -, -⟩ := hb.cell
  simp [FlowTable.recordAt, hc, hcx]

theorem keysDistinct_init : FlowTab.init.KeysDistinct := by
  intro h p hp q hq _
  simp only [FlowTab.init, List.mem_singleton] at hp hq
  rw [hp, hq]

instance (c : FlowCall) (db : FlowTable) : Decidable (c.Safe db) :=
  inferInstanceAs (Decidable (_ ∧ _))

/-- What a call that does not step over its record knows when it meets none. -/
theorem FlowCall.Safe.absent (hs : c.Safe db) (hdb : db.View T)
    (hnone : bucketMeets c.flow c.env.collects ((T c.flow.bucket).map Prod.snd) = none)
    (habs : ∀ p l, T c.flow.bucket = p :: l →
      ¬AlphaMon.StepsOver c.flow c.env.collects (l.map Prod.snd) →
      ∀ q ∈ T c.flow.bucket, q.2.key ≠ c.flow.key) :
    ∀ q ∈ T c.flow.bucket, q.2.key ≠ c.flow.key := by
  obtain ⟨p, l, hT⟩ := hdb.ne_nil c.flow.bucket
  have hso := hs.2
  rw [FlowCall.StepsOver, hdb.records, hT] at hso
  refine habs p l hT fun hl ↦ hso ⟨fun hm ↦ ?_, hl⟩
  rw [hT, List.map_cons, bucketMeets, if_pos hm] at hnone
  exact absurd hnone (by simp)

theorem not_fallsOff_of_not_collects {data : Flow} : ∀ {l : List FlowRec}, ¬FallsOff data false l
  | [] => id
  | [_] => fun h ↦ absurd h.2.1 (by simp)
  | p :: q :: l => fun h ↦ not_fallsOff_of_not_collects (l := q :: l) (by simpa using h.2)

theorem not_stepsOver_of_not_collects {data : Flow} : ∀ {l : List FlowRec}, ¬StepsOver data false l
  | [] => id
  | [_] => id
  | p :: q :: l => fun h ↦ not_stepsOver_of_not_collects (l := q :: l) (by simpa using h.2)

/-- **A call that does not collect garbage is safe.** -/
theorem FlowCall.safe_of_not_collects (h : c.env.collects = false) (db : FlowTable) :
    c.Safe db := by
  constructor
  · rw [FlowCall.FallsOff, h]
    split
    · exact id
    · exact fun h ↦ not_fallsOff_of_not_collects h.2
  · rw [FlowCall.StepsOver, h]
    split
    · exact id
    · exact fun h ↦ not_stepsOver_of_not_collects h.2

/-- **A safe call keeps the keys distinct.** -/
theorem FlowCall.Did.keysDistinct (h : c.Did T T' a) (hdb : db.View T) (hdb' : db'.View T')
    (hs : c.Safe db) (hT : T.KeysDistinct) : T'.KeysDistinct := by
  intro b p hp q hq hpq
  by_cases hb : b = c.flow.bucket
  swap
  · rw [h.other b hb] at hp hq
    exact hT b p hp q hq hpq
  subst hb
  obtain ⟨y, hy, hykey, -, hmeets⟩ := h.ret
  -- the record returned is the only one with its key
  have honly : ∀ r ∈ T' c.flow.bucket, r.2.key = c.flow.key → r.1 = a := by
    intro r hr hkey
    by_contra hne
    have hold := h.old r hr hne
    split at hmeets
    · next x hx =>
      obtain ⟨hax, -⟩ := hmeets
      exact hne (hT _ r hold (a, x) hax (hkey.trans (bucketMeets_key hx).symm))
    · next hx => exact hs.absent hdb hx (h.absent hx) r hold hkey
  by_cases hpa : p.1 = a
  · have hpy : p.2 = y := (hdb' c.flow.bucket).unique (a := a) (by rw [← hpa]; exact hp) hy
    rw [hpa]
    exact (honly q hq (by rw [← hpq, hpy, hykey])).symm
  by_cases hqa : q.1 = a
  · have hqy : q.2 = y := (hdb' c.flow.bucket).unique (a := a) (by rw [← hqa]; exact hq) hy
    rw [hqa]
    exact honly p hp (by rw [hpq, hqy, hykey])
  exact hT _ p (h.old p hp hpa) q (h.old q hq hqa) hpq

/-! ## Runs of safe calls -/

theorem runFlows_append {calls calls' : List FlowCall} {ptrs ptrs' : List (ℕ × ℕ)} {db₁ : FlowTable}
    (h : runFlows db calls = some (db₁, ptrs)) (h' : runFlows db₁ calls' = some (db', ptrs')) :
    runFlows db (calls ++ calls') = some (db', ptrs ++ ptrs') := by
  induction calls generalizing db ptrs with
  | nil =>
    obtain ⟨rfl, rfl⟩ : db = db₁ ∧ [] = ptrs := by simpa [runFlows] using h
    exact h'
  | cons c calls ih =>
    simp only [runFlows, Option.bind_eq_bind] at h
    obtain ⟨⟨db₂, a⟩, hrun, h⟩ := Option.bind_eq_some_iff.1 h
    obtain ⟨⟨db₃, ptrs₃⟩, hr, he⟩ := Option.bind_eq_some_iff.1 h
    obtain ⟨rfl, rfl⟩ : db₃ = db₁ ∧ (c.flow.bucket, a) :: ptrs₃ = ptrs := by simpa using he
    simp [runFlows, hrun, ih hr]

/-- The conditions on the calls of a run are conditions on its beginning. -/
theorem FlowRunMeets.append {P : FlowCall → FlowTable → Prop} {calls calls' : List FlowCall} :
    FlowRunMeets P db (calls ++ calls') → FlowRunMeets P db calls ∧
      ∀ db' ptrs, runFlows db calls = some (db', ptrs) → FlowRunMeets P db' calls' := by
  induction calls generalizing db with
  | nil =>
    intro h
    refine ⟨trivial, fun db' ptrs hr ↦ ?_⟩
    obtain ⟨rfl, -⟩ : db = db' ∧ _ := by simpa [runFlows] using hr
    exact h
  | cons c calls ih =>
    rintro ⟨hc, h⟩
    refine ⟨⟨hc, fun db₁ a hrun ↦ (ih (h db₁ a hrun)).1⟩, fun db' ptrs hr ↦ ?_⟩
    simp only [runFlows, Option.bind_eq_bind] at hr
    obtain ⟨⟨db₁, a⟩, hrun, hr⟩ := Option.bind_eq_some_iff.1 hr
    obtain ⟨⟨db₂, ptrs₂⟩, hr₂, he⟩ := Option.bind_eq_some_iff.1 hr
    obtain ⟨rfl, -⟩ : db₂ = db' ∧ _ := by simpa using he
    exact (ih (h db₁ a hrun)).2 db₂ ptrs₂ hr₂

/-- A safe call goes through. -/
theorem FlowCall.Safe.run (hs : c.Safe db) (hdb : db.View T) (hT : T.KeysDistinct)
    (hok : c.AllocOk) :
    ∃ db' a T', c.run db = some (db', a) ∧ db'.View T' ∧ T'.KeysDistinct ∧ c.Did T T' a := by
  rcases FlowCall.run_spec hdb hok with ⟨hf, -⟩ | ⟨-, db', a, T', hrun, hdb', hdid⟩
  · exact absurd hf hs.1
  · exact ⟨db', a, T', hrun, hdb', hdid.keysDistinct hdb hdb' hs hT, hdid⟩

/-- **A run of safe calls** goes through, keeps the keys distinct, and leaves alone every record
that no call is for and that has not expired. -/
theorem runFlows_safe {calls : List FlowCall} (hdb : db.View T) (hT : T.KeysDistinct)
    (hok : ∀ c ∈ calls, c.AllocOk) (hs : FlowRunMeets FlowCall.Safe db calls) :
    ∃ db' ptrs T', runFlows db calls = some (db', ptrs) ∧ db'.View T' ∧ T'.KeysDistinct ∧
      ∀ h, ∀ p ∈ T h, (∀ c ∈ calls, c.flow.key ≠ p.2.key ∧ ¬p.2.Expired c.time) → p ∈ T' h := by
  induction calls generalizing db T with
  | nil => exact ⟨db, [], T, rfl, hdb, hT, fun _ _ hp _ ↦ hp⟩
  | cons c calls ih =>
    obtain ⟨hsafe, hs⟩ := hs
    obtain ⟨db₁, a, T₁, hrun, hdb₁, hT₁, hdid⟩ := hsafe.run hdb hT (hok c (by simp))
    obtain ⟨db', ptrs, T', hruns, hdb', hT', hkept⟩ :=
      ih hdb₁ hT₁ (fun c' hc' ↦ hok c' (by simp [hc']))
      (hs db₁ a hrun)
    refine ⟨db', (c.flow.bucket, a) :: ptrs, T', by simp [runFlows, hrun, hruns], hdb', hT', ?_⟩
    intro h p hp hc
    refine hkept h p ?_ fun c' hc' ↦ hc c' (by simp [hc'])
    obtain ⟨hne, hexp⟩ := hc c (by simp)
    by_cases hb : h = c.flow.bucket
    · subst hb
      exact hdid.kept p hp hne.symm hexp
    · rwa [hdid.other h hb]

/-! ## Active flows -/

/-- The bucket of an IPv4 flow is determined by its key. -/
theorem Flow.bucket_eq {f g : Flow} (hf : f.ipv = 4) (hg : g.ipv = 4) (h : f.key = g.key) :
    f.bucket = g.bucket := by
  simp only [Flow.key, Prod.mk.injEq, Sym2.eq_iff] at h
  obtain ⟨haddr, hport, hproto⟩ := h
  have hxor : ∀ a b : BitVec 128, a ^^^ b = b ^^^ a := BitVec.xor_comm
  rw [Flow.bucket, Flow.bucket, if_pos hf, if_pos hg, getHash, getHash, hproto]
  have h₁ : f.ipv4Src.setWidth 128 ^^^ f.ipv4Dst.setWidth 128 =
      g.ipv4Src.setWidth 128 ^^^ g.ipv4Dst.setWidth 128 := by
    rcases haddr with ⟨h₁, h₂⟩ | ⟨h₁, h₂⟩ <;> rw [h₁, h₂]
    exact hxor _ _
  have h₂ : BitVec.ofNat 128 f.inPort ^^^ BitVec.ofNat 128 f.outPort =
      BitVec.ofNat 128 g.inPort ^^^ BitVec.ofNat 128 g.outPort := by
    rcases hport with ⟨h₁, h₂⟩ | ⟨h₁, h₂⟩ <;> rw [h₁, h₂]
    exact hxor _ _
  rw [h₁, BitVec.xor_assoc _ (BitVec.ofNat 128 f.inPort), h₂, ← BitVec.xor_assoc]

/-- The records of a bucket have distinct keys: no two of them match one packet. -/
theorem FlowTable.View.pairwise (hdb : db.View T) (hT : T.KeysDistinct) (h : ℕ) :
    (flowRecords (db h)).Pairwise fun r r' ↦ ∀ data, ¬(r.Matches data ∧ r'.Matches data) := by
  rw [hdb.records, List.pairwise_map]
  have hnd := List.pairwise_map.1 (hdb h).nodup
  refine hnd.imp_of_mem fun {p q} hp hq hne data ⟨hmp, hmq⟩ ↦ hne ?_
  exact hT h p hp q hq ((FlowRec.matches_iff.1 hmp).trans (FlowRec.matches_iff.1 hmq).symm)

/-- **Active flows keep their record**: in a run of safe calls, the call for a flow last referenced
at most `T_OUT` seconds ago returns the record that the last reference returned, with all that was
stored in it, and at no time does a bucket hold two records that match one packet. -/
theorem flow_not_lost {calls : List FlowCall} {c : FlowCall}
    (h4 : ∀ e ∈ calls ++ [c], e.flow.ipv = 4) (ht : FlowTimed (calls ++ [c]))
    (hok : ∀ e ∈ calls ++ [c], e.AllocOk)
    (hs : FlowRunMeets FlowCall.Safe flowTableInit (calls ++ [c])) :
    ∃ db ptrs, runFlows flowTableInit calls = some (db, ptrs) ∧
      (∀ h, (flowRecords (db h)).Pairwise fun r r' ↦ ∀ data, ¬(r.Matches data ∧ r'.Matches data)) ∧
      ∀ pre e mid, calls = pre ++ e :: mid → e.flow.key = c.flow.key →
        (∀ e' ∈ mid, e'.flow.key ≠ c.flow.key) → c.time - e.time ≤ tOut →
        ∃ db₁ ptrs₁ a r, runFlows flowTableInit (pre ++ [e]) =
            some (db₁, ptrs₁ ++ [(c.flow.bucket, a)]) ∧
          db₁.recordAt c.flow.bucket a = some r ∧
          ∃ db', referenceFlow db c.flow c.env = some (db', a) ∧
            db'.recordAt c.flow.bucket a = some (r.touch c.time) := by
  obtain ⟨hscalls, hsc⟩ := hs.append
  obtain ⟨db, ptrs, T, hrun, hdb, hT, -⟩ := runFlows_safe view_flowTableInit keysDistinct_init
    (fun e he ↦ hok e (by simp [he])) hscalls
  refine ⟨db, ptrs, hrun, hdb.pairwise hT, ?_⟩
  rintro pre e mid rfl hkey hmid hgap
  have hsafe : c.Safe db := (hsc db ptrs hrun).1
  -- up to the last reference, that reference, and what follows it
  obtain ⟨hspre, hse⟩ := hscalls.append
  obtain ⟨db₀, ptrs₀, T₀, hrun₀, hdb₀, hT₀, -⟩ := runFlows_safe view_flowTableInit keysDistinct_init
    (fun e he ↦ hok e (by simp [he])) hspre
  obtain ⟨hsafe_e, hsmid⟩ := hse db₀ ptrs₀ hrun₀
  obtain ⟨db₁, a, T₁, hrun_e, hdb₁, hT₁, hdid⟩ := hsafe_e.run hdb₀ hT₀ (hok e (by simp))
  obtain ⟨db₂, ptrs₂, T₂, hrun₂, hdb₂, hT₂, hkept⟩ := runFlows_safe hdb₁ hT₁
    (fun e he ↦ hok e (by simp [he])) (hsmid db₁ a hrun_e)
  obtain ⟨r, hr, hrkey, hrtime, -⟩ := hdid.ret
  have hbucket : e.flow.bucket = c.flow.bucket :=
    Flow.bucket_eq (h4 e (by simp)) (h4 c (by simp)) hkey
  have hrun₁ : runFlows db₀ [e] = some (db₁, [(c.flow.bucket, a)]) := by
    simp [runFlows, hrun_e, hbucket]
  obtain ⟨rfl, -⟩ : db = db₂ ∧ _ := by
    have hall := runFlows_append (runFlows_append hrun₀ hrun₁) hrun₂
    rw [List.append_assoc, List.singleton_append, hrun] at hall
    simpa using hall
  rw [hbucket] at hr
  -- the record is still there, and the call stops at it
  have hr₂ : (a, r) ∈ T₂ c.flow.bucket := by
    refine hkept _ _ hr fun e' he' ↦ ⟨fun h ↦ hmid e' he' (h.trans (hrkey.trans hkey)), ?_⟩
    have htime : e'.time ≤ c.time := by
      have := (List.pairwise_append.1 ht).2.2 e' (by simp [he']) c (by simp)
      exact this
    rw [FlowRec.Expired, hrtime]
    omega
  rcases referenceFlow_spec hdb₂ (hok c (by simp)) with ⟨hf, -⟩ | ⟨-, db', a', l', href, hdb',
    hdid'⟩
  · exact absurd hf hsafe.1
  obtain ⟨y, hy, -, -, hmeets⟩ := hdid'.ret
  split at hmeets
  · next x hx =>
    obtain ⟨hx', rfl⟩ := hmeets
    obtain rfl : a' = a := hT₂ _ _ hx' _ hr₂ ((bucketMeets_key hx).trans (hrkey.trans hkey).symm)
    obtain rfl := (hdb₂ c.flow.bucket).unique hx' hr₂
    refine ⟨db₁, ptrs₀, a', x, runFlows_append hrun₀ hrun₁, hdb₁.recordAt hr, db', href, ?_⟩
    refine hdb'.recordAt ?_
    rw [Function.update_self]
    exact hy
  · next hx =>
    exact absurd (hrkey.trans hkey) (hsafe.absent hdb₂ hx (hdid'.absent hx) _ hr₂)

/-- Two collections, each of which deletes a record that has expired on the way to the one of its
flow. -/
theorem flow_not_lost_collected : ∃ db ptrs,
    runFlows flowTableInit sampleFlows = some (db, ptrs) ∧
      (∀ h, (flowRecords (db h)).Pairwise fun r r' ↦ ∀ data, ¬(r.Matches data ∧ r'.Matches data)) ∧
      ∀ pre e mid, sampleFlows = pre ++ e :: mid → e.flow.key = sampleFlowAgain.flow.key →
        (∀ e' ∈ mid, e'.flow.key ≠ sampleFlowAgain.flow.key) →
          sampleFlowAgain.time - e.time ≤ tOut →
        ∃ db₁ ptrs₁ a r, runFlows flowTableInit (pre ++ [e]) =
            some (db₁, ptrs₁ ++ [(sampleFlowAgain.flow.bucket, a)]) ∧
          db₁.recordAt sampleFlowAgain.flow.bucket a = some r ∧
          ∃ db', referenceFlow db sampleFlowAgain.flow sampleFlowAgain.env = some (db', a) ∧
            db'.recordAt sampleFlowAgain.flow.bucket a = some (r.touch sampleFlowAgain.time) :=
  flow_not_lost (by simp [sampleFlows, sampleFlowAgain, FlowCall.plain])
    (by simp [sampleFlows, sampleFlowAgain, FlowTimed, FlowCall.plain, FlowCall.time])
    (by simp [sampleFlows, sampleFlowAgain, FlowCall.AllocOk, FlowCall.plain]) (by decide +kernel)

/-- Two flows of one bucket: when the second is seen again, the call deletes the expired record of
the first and steps over the one of the second, and makes the embedded record its record. -/
theorem flow_not_lost_fails : ¬∀ (calls : List FlowCall) (c : FlowCall),
    (∀ e ∈ calls ++ [c], e.flow.ipv = 4) → FlowTimed (calls ++ [c]) →
      (∀ e ∈ calls ++ [c], e.AllocOk) →
    ∃ db ptrs, runFlows flowTableInit calls = some (db, ptrs) ∧
      (∀ h, (flowRecords (db h)).Pairwise fun r r' ↦ ∀ data, ¬(r.Matches data ∧ r'.Matches data)) ∧
      ∀ pre e mid, calls = pre ++ e :: mid → e.flow.key = c.flow.key →
        (∀ e' ∈ mid, e'.flow.key ≠ c.flow.key) → c.time - e.time ≤ tOut →
        ∃ db₁ ptrs₁ a r, runFlows flowTableInit (pre ++ [e]) =
            some (db₁, ptrs₁ ++ [(c.flow.bucket, a)]) ∧
          db₁.recordAt c.flow.bucket a = some r ∧
          ∃ db', referenceFlow db c.flow c.env = some (db', a) ∧
            db'.recordAt c.flow.bucket a = some (r.touch c.time) := by
  intro hall
  obtain ⟨db, ptrs, hrun, -, hlast⟩ := hall
    [.plain 1 2 10 20 0 0 none, .plain 1 2 11 21 1000 0 none] (.plain 1 2 11 21 1001 6 none)
    (by simp [FlowCall.plain]) (by simp [FlowTimed, FlowCall.plain, FlowCall.time])
    (by simp [FlowCall.AllocOk, FlowCall.plain])
  obtain ⟨db₁, ptrs₁, a, r, hrun₁, -, db', href, -⟩ := hlast [.plain 1 2 10 20 0 0 none]
    (.plain 1 2 11 21 1000 0 none) [] rfl rfl (by simp) (by decide)
  have hfirst : (runFlows flowTableInit [.plain 1 2 10 20 0 0 none,
    .plain 1 2 11 21 1000 0 none]).map
      (fun r ↦ r.2.map Prod.snd) = some [1, 2] := by
    decide +kernel
  have hsecond : (runFlows flowTableInit [.plain 1 2 10 20 0 0 none,
    .plain 1 2 11 21 1000 0 none]).bind
      (fun r ↦ (referenceFlow r.1 (FlowCall.plain 1 2 11 21 1001 6 none).flow
        ⟨6, some FlowRec.init⟩).map Prod.snd) = some 0 := by
    decide +kernel
  rw [hrun] at hsecond
  have ha : a = 0 := by
    rw [Option.bind_some] at hsecond
    have href' : referenceFlow db (FlowCall.plain 1 2 11 21 1001 6 none).flow
        ⟨6, some FlowRec.init⟩ = some (db', a) := href
    rw [href'] at hsecond
    exact Option.some.inj hsecond
  have hrun₂ : runFlows flowTableInit [.plain 1 2 10 20 0 0 none, .plain 1 2 11 21 1000 0 none] =
      some (db₁, ptrs₁ ++ [((FlowCall.plain 1 2 11 21 1001 6 none).flow.bucket, a)]) := hrun₁
  rw [hrun₂, Option.map_some, ha] at hfirst
  have hptrs : ptrs₁.map Prod.snd ++ [0] = [1] ++ [2] := by simpa using hfirst
  exact absurd (List.append_inj_right' hptrs rfl) (by decide)

/-! ## Idle flows -/

/-- A run that goes through leaves a well-formed table. -/
theorem runFlows_view {calls : List FlowCall} {ptrs : List (ℕ × ℕ)} (hdb : db.View T)
    (hok : ∀ c ∈ calls, c.AllocOk) (h : runFlows db calls = some (db', ptrs)) :
    ∃ T', db'.View T' := by
  induction calls generalizing db T ptrs with
  | nil =>
    obtain ⟨rfl, -⟩ : db = db' ∧ _ := by simpa [runFlows] using h
    exact ⟨T, hdb⟩
  | cons c calls ih =>
    simp only [runFlows, Option.bind_eq_bind] at h
    obtain ⟨⟨db₁, a⟩, hrun, h⟩ := Option.bind_eq_some_iff.1 h
    obtain ⟨⟨db₂, ptrs₂⟩, hr, he⟩ := Option.bind_eq_some_iff.1 h
    obtain ⟨rfl, -⟩ : db₂ = db' ∧ _ := by simpa using he
    rcases FlowCall.run_spec hdb (hok c (by simp)) with ⟨-, hnone⟩ | ⟨-, db₃, a₃, T₃, hrun₃,
      hdb₃, -⟩
    · rw [hrun] at hnone
      exact absurd hnone (by simp)
    · obtain ⟨rfl, -⟩ : db₁ = db₃ ∧ a = a₃ := by simpa using hrun.symm.trans hrun₃
      exact ih hdb₃ (fun c' hc' ↦ hok c' (by simp [hc'])) hr

/-- The number of records at the end of a list that have expired, without one among them that has
not. -/
def expiredLast (t : ℤ) (l : List FlowRec) :
    ℕ := (l.reverse.takeWhile fun r ↦ decide (r.Expired t)).length

theorem expiredLast_cons (t : ℤ) (p : FlowRec) (l : List FlowRec) :
    expiredLast t (p :: l) =
      if expiredLast t l = l.length ∧ p.Expired t then l.length + 1 else expiredLast t l := by
  rw [expiredLast, expiredLast, List.reverse_cons, List.takeWhile_append, List.length_reverse]
  by_cases hall : (l.reverse.takeWhile fun r ↦ decide (r.Expired t)).length = l.length <;>
    by_cases hp : p.Expired t <;> simp [hall, hp]

theorem expiredLast_le (t : ℤ) (l : List FlowRec) : expiredLast t l ≤ l.length := by
  have hsub := (List.takeWhile_sublist (l := l.reverse) fun r ↦ decide (r.Expired t)).length_le
  rwa [List.length_reverse] at hsub

/-- A collection passes the record behind `front` unseen, where `front` comes after the first record
of the chain: each record it deletes makes it pass the next one too, so that of the expired records
right before that place it sees the first, the third and so on. -/
def Unseen (data : Flow) (gc : Bool) (front : List FlowRec) : Prop :=
  gc = true ∧ expiredLast data.timestamp front % 2 = 1

instance (data : Flow) (gc : Bool) (front : List FlowRec) : Decidable (Unseen data gc front) :=
  inferInstanceAs (Decidable (_ ∧ _))

theorem not_unseen_nil (data : Flow) (gc : Bool) : ¬Unseen data gc [] := by
  simp [Unseen, expiredLast]

/-- A record that is left changes nothing for the records behind it. -/
theorem unseen_cons {data : Flow} {gc : Bool} {p : FlowRec}
    (hp : ¬(gc = true ∧ p.Expired data.timestamp)) (front : List FlowRec) :
    Unseen data gc (p :: front) ↔ Unseen data gc front := by
  rw [Unseen, Unseen, and_congr_right_iff]
  intro hgc
  rw [expiredLast_cons, if_neg fun h ↦ hp ⟨hgc, h.2⟩]

/-- Behind a record that is deleted the next one is passed unseen. -/
theorem unseen_singleton {data : Flow} {gc : Bool} {p : FlowRec}
    (hp : gc = true ∧ p.Expired data.timestamp) :
    Unseen data gc [p] := by
  refine ⟨hp.1, ?_⟩
  simp [expiredLast, hp.2]

/-- These two change nothing for the records behind them. -/
theorem unseen_cons_cons {data : Flow} {gc : Bool} {p : FlowRec}
    (hp : gc = true ∧ p.Expired data.timestamp) (q : FlowRec) (front : List FlowRec) :
    Unseen data gc (p :: q :: front) ↔ Unseen data gc front := by
  have hle := expiredLast_le data.timestamp front
  rw [Unseen, Unseen, and_congr_right_iff]
  intro _
  rw [expiredLast_cons _ p, expiredLast_cons, List.length_cons]
  by_cases hall : expiredLast data.timestamp front = front.length
  · by_cases hq : q.Expired data.timestamp
    · simp [hall, hq, hp.2]
      omega
    · simp [hall, hq]
  · have hne : expiredLast data.timestamp front ≠ front.length + 1 := by omega
    simp [hall, hne]

/-- `x` is the first record of the packet's flow in `l` that a collection does not pass unseen. -/
def FirstSeen (data : Flow) (gc : Bool) (l : List FlowRec) (x : FlowRec) : Prop :=
  ∃ front back, l = front ++ x :: back ∧ x.key = data.key ∧ ¬Unseen data gc front ∧
    ∀ front' y mid, front = front' ++ y :: mid → y.key = data.key → Unseen data gc front'

theorem firstSeen_cons_of_key {data : Flow} {gc : Bool} {p x : FlowRec} (hp : p.key = data.key)
    (l : List FlowRec) :
    FirstSeen data gc (p :: l) x ↔ p = x := by
  constructor
  · rintro ⟨front, back, hl, -, -, hfirst⟩
    cases front with
    | nil => exact (List.cons.inj hl).1
    | cons q front =>
      obtain ⟨rfl, -⟩ := List.cons.inj hl
      exact absurd (hfirst [] p front rfl hp) (not_unseen_nil data gc)
  · rintro rfl
    exact ⟨[], l, rfl, hp, not_unseen_nil data gc, fun front' y mid h ↦ by simp at h⟩

/-- A record of another flow that is left is passed. -/
theorem firstSeen_cons {data : Flow} {gc : Bool} {p x : FlowRec} (hp : p.key ≠ data.key)
    (hexp : ¬(gc = true ∧ p.Expired data.timestamp)) (l : List FlowRec) :
    FirstSeen data gc (p :: l) x ↔ FirstSeen data gc l x := by
  constructor
  · rintro ⟨_ | ⟨r, front⟩, back, heq, hkey, hseen, hfirst⟩
    · obtain ⟨rfl, -⟩ := List.cons.inj heq
      exact absurd hkey hp
    · obtain ⟨rfl, rfl⟩ := List.cons.inj heq
      refine ⟨front, back, rfl, hkey, fun h ↦ hseen ((unseen_cons hexp _).2 h), ?_⟩
      rintro front' y mid rfl hy
      exact (unseen_cons hexp _).1 (hfirst (p :: front') y mid rfl hy)
  · rintro ⟨front, back, rfl, hkey, hseen, hfirst⟩
    refine ⟨p :: front, back, rfl, hkey, fun h ↦ hseen ((unseen_cons hexp front).1 h), ?_⟩
    rintro (_ | ⟨r, front'⟩) y mid heq hy
    · obtain ⟨rfl, -⟩ := List.cons.inj heq
      exact absurd hy hp
    · obtain ⟨rfl, hfront⟩ := List.cons.inj heq
      exact (unseen_cons hexp _).2 (hfirst front' y mid hfront hy)

/-- A record of another flow that is deleted is passed together with the next one. -/
theorem firstSeen_cons_cons {data : Flow} {gc : Bool} {p x : FlowRec} (hp : p.key ≠ data.key)
    (hexp : gc = true ∧ p.Expired data.timestamp) (q : FlowRec) (l : List FlowRec) :
    FirstSeen data gc (p :: q :: l) x ↔ FirstSeen data gc l x := by
  constructor
  · rintro ⟨_ | ⟨r, _ | ⟨r', front⟩⟩, back, heq, hkey, hseen, hfirst⟩
    · obtain ⟨rfl, -⟩ := List.cons.inj heq
      exact absurd hkey hp
    · obtain ⟨rfl, -⟩ := List.cons.inj heq
      exact absurd (unseen_singleton hexp) hseen
    · obtain ⟨rfl, hcons⟩ := List.cons.inj heq
      obtain ⟨rfl, rfl⟩ := List.cons.inj hcons
      refine ⟨front, back, rfl, hkey, fun h ↦ hseen ((unseen_cons_cons hexp _ _).2 h), ?_⟩
      rintro front' y mid rfl hy
      exact (unseen_cons_cons hexp _ _).1 (hfirst (p :: q :: front') y mid rfl hy)
  · rintro ⟨front, back, rfl, hkey, hseen, hfirst⟩
    refine ⟨p :: q :: front, back, rfl, hkey, fun h ↦ hseen ((unseen_cons_cons hexp q front).1 h),
      ?_⟩
    rintro (_ | ⟨r, _ | ⟨r', front'⟩⟩) y mid heq hy
    · obtain ⟨rfl, -⟩ := List.cons.inj heq
      exact absurd hy hp
    · obtain ⟨rfl, -⟩ := List.cons.inj heq
      exact unseen_singleton hexp
    · obtain ⟨rfl, hcons⟩ := List.cons.inj heq
      obtain ⟨rfl, hfront⟩ := List.cons.inj hcons
      exact (unseen_cons_cons hexp _ _).2 (hfirst front' y mid hfront hy)

/-- **The walk stops at the first record of the flow that it sees.** -/
theorem meets_iff {data : Flow} {gc : Bool} {x : FlowRec} : ∀ {l : List FlowRec},
    meets data gc l = some x ↔ FirstSeen data gc l x
  | [] => by simp [meets, FirstSeen]
  | [p] => by
    rw [meets]
    split
    · next hm => rw [firstSeen_cons_of_key (FlowRec.matches_iff.1 hm), Option.some.injEq]
    · next hm =>
      refine iff_of_false (by simp) ?_
      rintro ⟨front, back, hl, hkey, -⟩
      have hx : x ∈ [p] := by simp [hl]
      exact hm (FlowRec.matches_iff.2 (List.mem_singleton.1 hx ▸ hkey))
  | p :: q :: l => by
    rw [meets]
    split
    · next hm => rw [firstSeen_cons_of_key (FlowRec.matches_iff.1 hm), Option.some.injEq]
    next hm =>
    have hp : p.key ≠ data.key := fun h ↦ hm (FlowRec.matches_iff.2 h)
    split
    · next hexp => rw [meets_iff, firstSeen_cons_cons hp hexp]
    · next hexp => rw [meets_iff, firstSeen_cons hp hexp]

/-- The decision about the flow of a call is out of its reach: the first record of the chain is not
one of the flow or is undecided, and of the records of the flow behind it the first that the walk
does not pass unseen, if there is one, is undecided. -/
def FlowCall.Forgets (c : FlowCall) (db : FlowTable) : Prop :=
  ∀ p l, flowRecords (db c.flow.bucket) = p :: l →
    (p.key = c.flow.key → p.toAnon = -1) ∧
    (p.key ≠ c.flow.key → ∀ x, FirstSeen c.flow c.env.collects l x → x.toAnon = -1)

/-- **When a decision is forgotten**: after any run, and however long the flow has been idle, the
call returns a record that is undecided, with the time of the packet, if and only if it does not
fall off the chain and its bucket holds no decision about the flow within the reach of its walk. -/
theorem flow_expires_iff {calls : List FlowCall} {ptrs : List (ℕ × ℕ)}
    (hrun : runFlows flowTableInit calls = some (db, ptrs)) (hok : ∀ e ∈ calls, e.AllocOk)
    (hc : c.AllocOk) :
    (∃ db' a r, referenceFlow db c.flow c.env = some (db', a) ∧
        db'.recordAt c.flow.bucket a = some r ∧
        r.toAnon = -1 ∧ r.timestamp = c.time) ↔
      ¬c.FallsOff db ∧ c.Forgets db := by
  obtain ⟨T, hdb⟩ := runFlows_view view_flowTableInit hok hrun
  rcases referenceFlow_spec hdb hc with ⟨hf, hnone⟩ | ⟨hf, db', a, l', href, hdb', hdid⟩
  · exact iff_of_false (by simp [hnone]) fun h ↦ h.1 hf
  obtain ⟨y, hy, -, htime, hmeets⟩ := hdid.ret
  have hrec : db'.recordAt c.flow.bucket a = some y := hdb'.recordAt (by rwa [Function.update_self])
  -- the record returned is undecided exactly when the one met, if there is one, is
  have hret : (∃ db' a r, referenceFlow db c.flow c.env = some (db', a) ∧
      db'.recordAt c.flow.bucket a = some r ∧ r.toAnon = -1 ∧ r.timestamp = c.time) ↔
        y.toAnon = -1 := by
    constructor
    · rintro ⟨db₁, a₁, r, href₁, hr, hund, -⟩
      obtain ⟨rfl, rfl⟩ : db' = db₁ ∧ a = a₁ := by simpa using href.symm.trans href₁
      obtain rfl := Option.some.inj (hrec.symm.trans hr)
      exact hund
    · exact fun hund ↦ ⟨db', a, y, href, hrec, hund, htime⟩
  have hmet : y.toAnon = -1 ↔
    ∀ x, bucketMeets c.flow c.env.collects (flowRecords (db c.flow.bucket)) = some x →
      x.toAnon = -1 := by
    rw [hdb.records]
    split at hmeets
    · next x hx =>
      obtain ⟨-, rfl⟩ := hmeets
      simp [hx, FlowRec.touch]
    · next hx => simp [hx, hmeets.1]
  rw [hret, hmet, and_iff_right hf, FlowCall.Forgets]
  obtain ⟨p, l, hT⟩ := hdb.ne_nil c.flow.bucket
  simp only [hdb.records, hT, List.map_cons, List.cons.injEq, bucketMeets, FlowRec.matches_iff]
  by_cases hp : p.2.key = c.flow.key
  · simp [hp]
  · simp [hp, meets_iff]

/-- Two flows of one bucket, decided at once, and another one of the bucket a quarter of an hour
later, whose call collects garbage. -/
def sampleIdle : List FlowCall :=
  [.plain 1 2 10 20 0 0 (some 0), .plain 1 2 11 21 0 0 (some 1), .plain 1 2 12 18 1000 6 none]

/-- The first of these flows, idle for more than half an hour, is undecided again: the collection
has deleted its record. -/
theorem flow_expires_collected : ∃ db ptrs, runFlows flowTableInit sampleIdle = some (db, ptrs) ∧
    ∃ db' a r, referenceFlow db (FlowCall.plain 1 2 10 20 2000 0 none).flow ⟨0, some FlowRec.init⟩ =
      some (db', a) ∧
      db'.recordAt (FlowCall.plain 1 2 10 20 2000 0 none).flow.bucket a = some r ∧ r.toAnon = -1 ∧
      r.timestamp = 2000 := by
  let c : FlowCall := .plain 1 2 10 20 2000 0 none
  have hstate : (runFlows flowTableInit sampleIdle).map (fun (r : FlowTable × List (ℕ × ℕ)) ↦ decide
      (¬c.FallsOff r.1 ∧ ∀ x ∈ flowRecords (r.1 c.flow.bucket), ¬x.Matches c.flow)) =
        some true := by
    decide +kernel
  obtain ⟨⟨db, ptrs⟩, hrun, hstate⟩ := Option.map_eq_some_iff.1 hstate
  obtain ⟨hf, habsent⟩ := of_decide_eq_true hstate
  refine ⟨db, ptrs, hrun, (flow_expires_iff (c := c) hrun ?_ ?_).2
    ⟨hf, fun p l hl ↦ ⟨fun hp ↦ ?_, ?_⟩⟩⟩
  · simp [sampleIdle, FlowCall.AllocOk, FlowCall.plain]
  · simp [c, FlowCall.AllocOk, FlowCall.plain]
  · exact absurd (FlowRec.matches_iff.2 hp) (habsent p (by simp [hl]))
  · rintro - x ⟨front, back, rfl, hx, -⟩
    exact absurd (FlowRec.matches_iff.2 hx) (habsent x (by simp [hl]))

/-- A flow decided at time 0 and idle for a quarter of an hour: the decision is still there. -/
theorem flow_expires_fails : ¬∀ (calls : List FlowCall) (c : FlowCall) db ptrs db' a,
    FlowTimed (calls ++ [c]) → runFlows flowTableInit calls = some (db, ptrs) →
    (∀ e ∈ calls ++ [c], e.AllocOk) →
      (∀ e ∈ calls, e.flow.key = c.flow.key → tOut < c.time - e.time) →
    referenceFlow db c.flow c.env = some (db', a) →
    ∃ r, db'.recordAt c.flow.bucket a = some r ∧ r.toAnon = -1 ∧ r.timestamp = c.time := by
  intro hall
  have hold : (runFlows flowTableInit [.plain 1 2 10 20 0 0 (some 0)]).bind (fun r ↦
      (referenceFlow r.1 (FlowCall.plain 1 2 10 20 1000 6 none).flow ⟨6, some FlowRec.init⟩).map
        fun r ↦ (r.1.recordAt (FlowCall.plain 1 2 10 20 1000 6 none).flow.bucket r.2).map
          FlowRec.toAnon) = some (some 0) := by
    decide +kernel
  obtain ⟨⟨db, ptrs⟩, hrun, hold⟩ := Option.bind_eq_some_iff.1 hold
  obtain ⟨⟨db', a⟩, href, hold⟩ := Option.map_eq_some_iff.1 hold
  obtain ⟨r, hr, hund, -⟩ := hall [.plain 1 2 10 20 0 0 (some 0)] (.plain 1 2 10 20 1000 6 none) db
    ptrs
    db' a (by simp [FlowTimed, FlowCall.plain, FlowCall.time]) hrun
    (by simp [FlowCall.AllocOk, FlowCall.plain])
      (by simp [FlowCall.plain, FlowCall.time, tOut]) href
  rw [hr, Option.map_some, hund] at hold
  exact absurd hold (by decide)

end AlphaMon
