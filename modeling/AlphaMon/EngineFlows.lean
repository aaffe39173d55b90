import AlphaMon.EngineRun
import AlphaMon.FlowLife
import AlphaMon.TableRun

/-!
# The engine on well-formed tables

As long as memory suffices, the tables of the engine stay well formed: `Engine.Stands e N T` says
that they stand for the table of names `N` and the table of flows `T`, both without pointers.

What matters for one flow is that its bucket has at most one record with its key (`FlowTab.Single`),
and that the look-ups of other flows do not delete it.  A look-up that `Spares` the flow does
neither harm: the look-up of the flow itself returns its record, with the time of the packet and
everything else as it was, and that of another flow leaves it where it is (`lookUp_tracked`).
-/

set_option autoImplicit false

namespace AlphaMon

variable {flow φ : Flow} {env : FlowEnv} {db db' : FlowTable} {T T' : FlowTab} {a : ℕ}
  {x y : FlowRec}

/-- The look-up of a flow, as a call. -/
def lookUpCall (flow : Flow) (env : FlowEnv) : FlowCall := ⟨flow, env, none⟩

/-- The bucket of a flow has at most one record with its key. -/
def FlowTab.Single (T : FlowTab) (φ : Flow) : Prop :=
  ∀ p ∈ T φ.bucket, ∀ q ∈ T φ.bucket, p.2.key = φ.key → q.2.key = φ.key → p.1 = q.1

/-- The look-up of `flow` does not harm the record of the flow `φ`: if it is a look-up of that
record, the walk neither falls off the chain nor steps over the record, and if it is one of another
flow that collects garbage in the same bucket, the record has not expired. -/
structure Spares (φ flow : Flow) (env : FlowEnv) (db : FlowTable) : Prop where
  safe : flow.key = φ.key → (lookUpCall flow env).Safe db
  kept : flow.key ≠ φ.key → φ.bucket = flow.bucket → env.collects = true →
    ∀ x ∈ flowRecords (db φ.bucket), x.key = φ.key → ¬x.Expired flow.timestamp

/-- What looking up a flow does to the table, where `y` is the record returned, at the address
`a`. -/
structure LookedUp (flow : Flow) (env : FlowEnv) (T T' : FlowTab) (a : ℕ) (y : FlowRec) : Prop where
  /-- The record returned is the flow's. -/
  mem : (a, y) ∈ T' flow.bucket
  key : y.key = flow.key
  time : y.timestamp = flow.timestamp
  /-- It was there before, or is new and undecided. -/
  ret : (∃ b x, (b, x) ∈ T flow.bucket ∧ x.key = flow.key ∧ y = x.touch flow.timestamp) ∨
    y.toAnon = -1
  /-- A record of another flow is left, unless it has expired and garbage is collected. -/
  kept : ∀ h, ∀ p ∈ T h, p.2.key ≠ flow.key → ¬(h = flow.bucket ∧ env.collects = true ∧
    p.2.Expired flow.timestamp) → p ∈ T' h
  /-- The other records were there before. -/
  old : ∀ h, ∀ p ∈ T' h, ¬(h = flow.bucket ∧ p.1 = a) → p ∈ T h

/-- **Looking up a flow** in a well-formed table. -/
theorem lookUp_spec (hdb : db.View T) (hok : (lookUpCall flow env).AllocOk) :
    ((lookUpCall flow env).FallsOff db ∧ lookUp flow db env = none) ∨
    (¬(lookUpCall flow env).FallsOff db ∧ ∃ db' a y T', lookUp flow db env = some (db', a, y) ∧
      db'.View T' ∧ LookedUp flow env T T' a y ∧
      ((lookUpCall flow env).Safe db → T.Single flow → T'.Single flow ∧
        ∀ b x, (b, x) ∈ T flow.bucket → x.key = flow.key →
          b = a ∧ y = x.touch flow.timestamp)) := by
  rcases referenceFlow_eq hdb hok with ⟨hf, hnone⟩ | ⟨hf, db', a, l', junk, href, hdb', hr⟩
  · simp only [lookUpCall] at hnone
    exact .inl ⟨hf, by simp [lookUp, hnone]⟩
  simp only [lookUpCall] at href hdb' hr
  have hdid := refFlows_referenced (hdb flow.bucket).nodup hr
  obtain ⟨y, hy, hkey, htime, hmeets⟩ := hdid.ret
  have hrec := hdb'.recordAt (h := flow.bucket) (a := a) (x := y) (by simpa using hy)
  obtain ⟨c, hc, hcy⟩ := Option.map_eq_some_iff.1 hrec
  have hlooked : LookedUp flow env T (Function.update T flow.bucket l') a y := by
    refine ⟨by simpa using hy, hkey, htime, ?_, fun h p hp hne hexp ↦ ?_, fun h p hp hne ↦ ?_⟩
    · split at hmeets
      · next x hx => exact .inl ⟨a, x, hmeets.1, bucketMeets_key hx, hmeets.2⟩
      · exact .inr hmeets.1
    · by_cases hb : h = flow.bucket
      · subst hb
        rw [Function.update_self]
        exact refFlows_kept hr p hp hne fun he ↦ hexp ⟨rfl, he⟩
      · rwa [Function.update_of_ne hb]
    · by_cases hb : h = flow.bucket
      · subst hb
        rw [Function.update_self] at hp
        exact hdid.old p hp fun ha ↦ hne ⟨rfl, ha⟩
      · rwa [Function.update_of_ne hb] at hp
  refine .inr ⟨hf, db', a, y, Function.update T flow.bucket l', ?_, hdb', hlooked, fun hs hT ↦ ?_⟩
  · simp [lookUp, href, hc, hcy]
  -- if the flow has a record, it is the one returned
  have hfound : ∀ b x, (b, x) ∈ T flow.bucket → x.key = flow.key →
    b = a ∧ y = x.touch flow.timestamp := by
    intro b x hx hxk
    split at hmeets
    · next x' hx' =>
      obtain ⟨hax', rfl⟩ := hmeets
      obtain rfl : b = a := hT _ hx _ hax' hxk (bucketMeets_key hx')
      exact ⟨rfl, by rw [(hdb flow.bucket).unique hx hax']⟩
    · next hx' => exact absurd hxk (hs.absent hdb hx' (hdid.absent hx') _ hx)
  refine ⟨fun p hp q hq hpk hqk ↦ ?_, hfound⟩
  have haddr : ∀ p ∈ Function.update T flow.bucket l' flow.bucket, p.2.key = flow.key →
    p.1 = a := by
    intro p hp hpk
    by_contra hne
    exact hne (hfound _ _ (hlooked.old _ p hp fun h ↦ hne h.2) hpk).1
  rw [haddr p hp hpk, haddr q hq hqk]

/-- Two packets of one flow are looked up alike. -/
theorem FlowTab.single_congr (h4 : flow.ipv = 4) (h4' : φ.ipv = 4) (hkey : flow.key = φ.key) :
    T.Single flow ↔ T.Single φ := by
  rw [FlowTab.Single, FlowTab.Single, Flow.bucket_eq h4 h4' hkey, hkey]

/-- The look-up of another flow adds no record of the flow. -/
theorem LookedUp.single (h : LookedUp flow env T T' a y) (hdb' : db'.View T')
    (hne : flow.key ≠ φ.key) (hT : T.Single φ) : T'.Single φ := by
  have hold : ∀ p ∈ T' φ.bucket, p.2.key = φ.key → p ∈ T φ.bucket := by
    intro p hp hpk
    refine h.old _ p hp ?_
    rintro ⟨hb, ha⟩
    have hpa : (a, p.2) ∈ T' flow.bucket := by rwa [← ha, ← hb]
    exact hne (by rw [← h.key, (hdb' _).unique h.mem hpa, hpk])
  exact fun p hp q hq hpk hqk ↦ hT p (hold p hp hpk) q (hold q hq hqk) hpk hqk

/-- **A look-up and the record of a flow `φ`**: a look-up of that flow that does not go wrong
returns the record, and that of another flow leaves it where it is, unless it has expired and
garbage is collected. -/
theorem lookUp_tracked (hdb : db.View T) (hT : T.Single φ) (h4 : flow.ipv = 4) (h4' : φ.ipv = 4)
    (hok : (lookUpCall flow env).AllocOk) (hs : flow.key = φ.key → (lookUpCall flow env).Safe db)
    (h : lookUp flow db env = some (db', a, y)) :
    ∃ T', db'.View T' ∧ T'.Single φ ∧ LookedUp flow env T T' a y ∧
      (flow.key ≠ φ.key → ∀ p ∈ T φ.bucket, p.2.key = φ.key →
        ¬(φ.bucket = flow.bucket ∧ env.collects = true ∧ p.2.Expired flow.timestamp) →
          p ∈ T' φ.bucket) ∧
      (flow.key = φ.key → ∀ b x, (b, x) ∈ T φ.bucket → x.key = φ.key →
        y = x.touch flow.timestamp) := by
  rcases lookUp_spec hdb hok with ⟨-, hnone⟩ | ⟨-, db₁, a₁, y₁, T', hlook, hdb', hl, hsafe⟩
  · exact absurd (hnone.symm.trans h) (by simp)
  obtain ⟨rfl, rfl, rfl⟩ : db₁ = db' ∧ a₁ = a ∧ y₁ = y := by simpa using hlook.symm.trans h
  by_cases hkey : flow.key = φ.key
  · obtain ⟨hT', hfound⟩ := hsafe (hs hkey) ((FlowTab.single_congr h4 h4' hkey).2 hT)
    refine ⟨T', hdb', (FlowTab.single_congr h4 h4' hkey).1 hT', hl, fun hne ↦ absurd hkey hne,
      fun _ b x hx hxk ↦ ?_⟩
    rw [← Flow.bucket_eq h4 h4' hkey] at hx
    exact (hfound b x hx (hxk.trans hkey.symm)).2
  · exact ⟨T', hdb', hl.single hdb' hkey hT, hl,
      fun _ p hp hpk hexp ↦ hl.kept _ p hp (fun he ↦ hkey (he.symm.trans hpk)) hexp,
      fun he ↦ absurd he hkey⟩

/-! ## Stores -/

/-- The table after a store into the record at an address. -/
def FlowTab.store (T : FlowTab) (b a : ℕ) (f : FlowRec → FlowRec) : FlowTab :=
  Function.update T b (storeAt a f (T b))

theorem FlowTab.store_of_ne {b h : ℕ} (hb : h ≠ b) (T : FlowTab) (a : ℕ) (f : FlowRec → FlowRec) :
    T.store b a f h = T h :=
  Function.update_of_ne hb ..

@[simp] theorem FlowTab.store_self (T : FlowTab) (b a : ℕ) (f : FlowRec → FlowRec) :
    T.store b a f b = storeAt a f (T b) :=
  Function.update_self ..

/-- **A store into a record** of a well-formed table. -/
theorem storeRecord_spec (hdb : db.View T) (hx : (a, x) ∈ T flow.bucket) (f : FlowRec → FlowRec) :
    ∃ db', storeRecord flow db a f = some db' ∧ db'.View (T.store flow.bucket a f) := by
  obtain ⟨mem', hmod, hh⟩ := storeFlow_spec (hdb flow.bucket) hx f
  refine ⟨Function.update db flow.bucket mem', by simp [storeRecord, hmod], fun h ↦ ?_⟩
  by_cases hb : h = flow.bucket
  · subst hb
    simpa using hh
  · simpa [Function.update_of_ne hb, FlowTab.store_of_ne hb] using hdb h

/-- A store that leaves the keys alone leaves at most one record of a flow. -/
theorem FlowTab.Single.store (hT : T.Single φ) (b a : ℕ) {f : FlowRec → FlowRec}
    (hf : ∀ r, (f r).key = r.key) : (T.store b a f).Single φ := by
  have hold : ∀ p ∈ T.store b a f φ.bucket, ∃ q ∈ T φ.bucket, q.1 = p.1 ∧ q.2.key = p.2.key := by
    intro p hp
    by_cases hb : φ.bucket = b
    · subst hb
      rw [store_self] at hp
      rcases mem_storeAt.1 hp with ⟨-, hp⟩ | ⟨hpa, r, hr, hpr⟩
      · exact ⟨p, hp, rfl, rfl⟩
      · exact ⟨(a, r), hr, hpa.symm, by rw [hpr, hf]⟩
    · rw [store_of_ne hb] at hp
      exact ⟨p, hp, rfl, rfl⟩
  intro p hp q hq hpk hqk
  obtain ⟨p₀, hp₀, hp₁, hp₂⟩ := hold p hp
  obtain ⟨q₀, hq₀, hq₁, hq₂⟩ := hold q hq
  rw [← hp₁, ← hq₁]
  exact hT p₀ hp₀ q₀ hq₀ (hp₂.trans hpk) (hq₂.trans hqk)

/-- The record stored into. -/
theorem FlowTab.mem_store_self {b : ℕ} (hx : (a, x) ∈ T b) (f : FlowRec → FlowRec) :
    (a, f x) ∈ T.store b a f b := by
  rw [store_self]
  exact mem_storeAt.2 (.inr ⟨rfl, x, hx, rfl⟩)

/-- A record of another flow is not the one stored into. -/
theorem FlowTable.View.mem_store (hdb : db.View T) {b h : ℕ} (hx : (a, x) ∈ T b)
    (f : FlowRec → FlowRec) {p : ℕ × FlowRec} (hp : p ∈ T h) (hne : p.2.key ≠ x.key) :
    p ∈ T.store b a f h := by
  by_cases hb : h = b
  · subst hb
    rw [FlowTab.store_self]
    refine mem_storeAt.2 (.inl ⟨?_, hp⟩)
    rintro rfl
    exact hne (congrArg FlowRec.key ((hdb h).unique hp hx))
  · rwa [FlowTab.store_of_ne hb]

/-! ## Engines -/

/-- The tables of the engine are well formed and stand for `N` and `T`. -/
structure Engine.Stands (e : Engine) (N : NameTab) (T : FlowTab) : Prop where
  names : e.flowDb.View N
  flows : e.flowStruct.View T

theorem engine_init_stands (self : CryptoIp) :
    (Engine.init self).Stands NameTab.empty FlowTab.init :=
  ⟨view_tableInit, view_flowTableInit⟩

theorem single_init (φ : Flow) : FlowTab.init.Single φ :=
  fun p hp q hq hpk hqk ↦ keysDistinct_init _ p hp q hq (hpk.trans hqk.symm)

/-- The number of users `table_add` returns for a name, from what the table holds. -/
def HashStruct.count (db : HashStruct) (flow : Flow) (name : List UInt8) (kAnon kDelta : ℤ)
    (tsc : ℕ) : ℤ :=
  (NameBucket.add kAnon kDelta flow.timestamp flow.userHash name (probability tsc)
    ⟨(db (nameHash name)).number, (db (nameHash name)).records⟩).2

/-- **`table_add` in a well-formed table** returns that number. -/
theorem tableAdd_count {names names' : HashStruct} {N : NameTab} (hN : names.View N) {flow : Flow}
    {kAnon kDelta ret : ℤ} (hd : 0 ≤ kDelta) {name : List UInt8} {env : TableEnv}
    (h₁ : env.allocNames = true) (h₂ : env.allocLru = true)
    (hadd : tableAdd names flow name kAnon kDelta env = some (names', ret)) :
    ret = names.count flow name kAnon kDelta env.tsc ∧ ∃ N', names'.View N' := by
  obtain ⟨rfl, hN'⟩ := tableAdd_of_some hN hd (c := ⟨flow, name, env⟩) ⟨h₁, h₂⟩ hadd
  have hbucket : ⟨(names (nameHash name)).number, (names (nameHash name)).records⟩ =
    N (nameHash name) := by
    obtain ⟨l, -, -, hnum⟩ := hN (nameHash name)
    rw [(hN _).records_eq, hnum]
  refine ⟨?_, _, hN'⟩
  rw [HashStruct.count, hbucket]
  rfl

/-- It returns if the name fits into a record. -/
theorem tableAdd_total {names : HashStruct} {N : NameTab} (hN : names.View N) (flow : Flow)
    (kAnon : ℤ) {kDelta : ℤ} (hd : 0 ≤ kDelta) {name : List UInt8} (hfits : name.length < nameDns)
    {env : TableEnv} (h₁ : env.allocNames = true) (h₂ : env.allocLru = true) :
    ∃ names' N', tableAdd names flow name kAnon kDelta env =
      some (names', names.count flow name kAnon kDelta env.tsc) ∧ names'.View N' := by
  obtain ⟨names', hadd, -⟩ := tableAdd_spec (k := kAnon) hN hd (c := ⟨flow, name, env⟩)
    ⟨h₁, h₂⟩ hfits
  obtain ⟨hret, N', hN'⟩ := tableAdd_count hN hd h₁ h₂ hadd
  exact ⟨names', N', hret ▸ hadd, hN'⟩

end AlphaMon
