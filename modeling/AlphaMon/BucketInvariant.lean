import AlphaMon.TableCalls

/-!
# The buckets of the table of names

A bucket counts the records of its chain; the chain is linked both ways, has no name twice and no
record that has been freed, and its names belong into the bucket (`Bucket.Ok`).

Every call keeps it so whose search gets to the record of its name, or to the end of the chain
(`bucket_invariant`).  A partial clean that stops before that enters the name a second time, or
drops what comes after the record at which it stopped and goes on counting it
(`bucket_invariant_fails`).
-/

set_option autoImplicit false

namespace AlphaMon

/-- A call of `table_add` with its threshold and its `k_delta`. -/
structure TableCall extends Call where
  kAnon : ℤ
  kDelta : ℤ

namespace TableCall

/-- The call as a step of a run. -/
def step (c : TableCall) (db : HashStruct) : Option (HashStruct × ℤ) :=
  tableAdd db c.flow c.name c.kAnon c.kDelta c.env

/-- The time before which a user is expired. -/
def cutoff (c : TableCall) : ℤ := c.time - c.kDelta

/-- The search of the call gets where it has to get. -/
def CleanSafe (db : HashStruct) (c : TableCall) : Prop := db.CleanSafe c.kDelta c.toCall

instance (db : HashStruct) (c : TableCall) : Decidable (c.CleanSafe db) :=
  inferInstanceAs (Decidable (HashStruct.CleanSafe ..))

end TableCall

/-- The records `l` are the bucket `b`, which is the one of a hash. -/
structure Bucket.Ok (hash : ℕ) (b : Bucket) (l : List (ℕ × NameRec)) : Prop where
  /-- The records are allocated and linked both ways, the embedded one first, and their user lists
  are well formed. -/
  holds : b.Holds l
  /-- The bucket counts its records. -/
  number : b.number = l.length
  /-- No name occurs twice. -/
  names : (l.map (·.2.name)).Nodup
  /-- The names belong into the bucket. -/
  hash : ∀ p ∈ l, nameHash p.2.name = hash

/-- Every bucket is well formed. -/
def HashStruct.Ok (db : HashStruct) : Prop := ∀ hash, ∃ l, (db hash).Ok hash l

variable {db db' : HashStruct} {c : TableCall} {ret : ℤ}

/-- A well-formed bucket without pointers. -/
theorem Bucket.Ok.view {hash : ℕ} {b : Bucket} {l : List (ℕ × NameRec)} (h : b.Ok hash l) :
    b.View ⟨b.number, l.map Prod.snd⟩ ∧ NameBucket.Exact ⟨b.number, l.map Prod.snd⟩ ∧
      b.records = l.map Prod.snd := by
  have hview : b.View ⟨b.number, l.map Prod.snd⟩ := ⟨l, h.holds, rfl, rfl⟩
  refine ⟨hview, ⟨?_, ?_⟩, hview.records_eq⟩
  · simpa [Function.comp_def] using h.names
  · simpa using h.number

/-- A bucket that stands for a list of records is well formed if the list is. -/
theorem Bucket.View.ok {hash : ℕ} {b : Bucket} {s : NameBucket} (hb : b.View s) (hs : s.Exact)
    (hhash : ∀ r ∈ s.recs, nameHash r.name = hash) : ∃ l, b.Ok hash l := by
  obtain ⟨l, hl, hrecs, hnum⟩ := hb
  obtain ⟨hnames, hnumber⟩ := hs
  rw [← hrecs] at hnames hnumber hhash
  refine ⟨l, hl, ?_, ?_, fun p hp ↦ hhash p.2 (List.mem_map_of_mem hp)⟩
  · rw [hnum, hnumber, List.length_map]
  · simpa [Function.comp_def] using hnames

theorem ok_tableInit : HashStruct.Ok tableInit := fun _ ↦
  ⟨[], Bucket.holds_init, rfl, by simp, by simp⟩

/-- A call changes its own bucket only. -/
theorem TableCall.step_eq_some : c.step db = some (db', ret) ↔
    ∃ b', tableAddBucket (db (nameHash c.name)) c.flow c.name c.user c.kAnon c.kDelta c.env =
      some (b', ret) ∧
      db' = Function.update db (nameHash c.name) b' := by
  simp only [step, tableAdd, Option.bind_eq_bind, Option.bind_eq_some_iff, Prod.exists,
    Option.some.injEq,
    Prod.mk.injEq, Call.user]
  constructor
  · rintro ⟨b', r, hrun, rfl, rfl⟩
    exact ⟨b', hrun, rfl⟩
  · rintro ⟨b', hrun, rfl⟩
    exact ⟨b', ret, hrun, rfl, rfl⟩

/-- What a call that returns does to a well-formed table, without pointers. -/
theorem TableCall.step_try (hdb : db.Ok) (hrun : c.step db = some (db', ret)) :
    ∃ s s', s = ⟨(db (nameHash c.name)).number, (db (nameHash c.name)).records⟩ ∧
      (db (nameHash c.name)).View s ∧
      s.Exact ∧ (∀ r ∈ s.recs, nameHash r.name = nameHash c.name) ∧
        (db' (nameHash c.name)).View s' ∧
      (∀ h ≠ nameHash c.name, db' h = db h) ∧
      s.tryAdd c.kAnon c.kDelta c.time c.user c.name c.env = some (s', ret) := by
  obtain ⟨l, hl⟩ := hdb (nameHash c.name)
  obtain ⟨hview, hexact, hrecords⟩ := hl.view
  obtain ⟨b', hadd, rfl⟩ := step_eq_some.1 hrun
  have href := tableAddBucket_try hview c.flow c.name c.user c.kAnon c.kDelta c.env
  rw [hadd] at href
  cases htry : NameBucket.tryAdd c.kAnon c.kDelta c.flow.timestamp c.user c.name c.env
      ⟨(db (nameHash c.name)).number, l.map Prod.snd⟩ with
  | none =>
    rw [htry] at href
    exact absurd href (by simp [Bucket.Refines])
  | some r =>
    obtain ⟨s', ret'⟩ := r
    rw [htry] at href
    obtain ⟨b'', heq, hb''⟩ := href
    obtain ⟨rfl, rfl⟩ := Prod.mk.inj (Option.some.inj heq)
    exact ⟨_,
      s', by rw [hrecords], hview, hexact, List.forall_mem_map.2 hl.hash, by simpa using hb'',
      fun h hh ↦ Function.update_of_ne hh .., htry⟩

/-- **What a safe call does to a well-formed table**, without pointers. -/
theorem TableCall.step_cases (hdb : db.Ok) (hsafe : c.CleanSafe db)
    (hrun : c.step db = some (db', ret)) :
    ∃ s s', (db (nameHash c.name)).View s ∧ s.Exact ∧
      (∀ r ∈ s.recs, nameHash r.name = nameHash c.name) ∧
      (db' (nameHash c.name)).View s' ∧ (∀ h ≠ nameHash c.name, db' h = db h) ∧
      s.TryAdded c.kAnon c.kDelta c.time c.user c.name c.env s' ret := by
  obtain ⟨s, s', rfl, hs, hexact, hhash, hs', hother, htry⟩ := step_try hdb hrun
  exact ⟨_, s', hs, hexact, hhash, hs', hother, NameBucket.tryAdd_cases hexact hsafe htry⟩

/-- **A safe call keeps the table well formed.** -/
theorem TableCall.step_ok (hdb : db.Ok) (hsafe : c.CleanSafe db)
    (hrun : c.step db = some (db', ret)) : db'.Ok := by
  obtain ⟨s, s', hs, hexact, hhash, hs', hother, hadd⟩ := step_cases hdb hsafe hrun
  intro h
  by_cases hh : h = nameHash c.name
  · subst hh
    refine hs'.ok (hadd.exact hexact) fun r hr ↦ ?_
    rcases hadd.name_mem hr with hname | hname
    · rw [hname]
    · obtain ⟨r₀, hr₀, heq⟩ := List.mem_map.1 hname
      rw [← heq, hhash r₀ hr₀]
  · rw [hother h hh]
    exact hdb h

/-- **Every bucket is well formed in every state reached** by calls whose searches get where they
have to get. -/
theorem bucket_invariant {calls : List TableCall} {rets : List ℤ}
    (hsafe : PartialRun.Meets TableCall.step TableCall.CleanSafe tableInit calls)
    (hrun : PartialRun.run TableCall.step tableInit calls = some (db, rets)) : db.Ok :=
  PartialRun.run_invariant (fun _ _ _ _ _ hdb hc hstep ↦ TableCall.step_ok hdb hc hstep)
    ok_tableInit hsafe hrun

/-- Four names of one bucket.  When the third is called for with a partial clean, the second is
stale and is deleted; the last call enters the second again, behind the fourth, with another partial
clean. -/
def sampleTableCalls : List TableCall :=
  [⟨.plain [96, 132] 1 0 19, 2, 60⟩, ⟨.plain [97, 99] 1 0 19, 2, 60⟩,
  ⟨.plain [98, 66] 1 990 19, 2, 60⟩, ⟨.plain [99, 33] 1 990 19, 2, 60⟩,
    ⟨.plain [98, 66] 2 1000 0, 2, 60⟩,
  ⟨.plain [97, 99] 2 1010 0, 2, 60⟩]

theorem sampleTableCalls_safe :
    PartialRun.Meets TableCall.step TableCall.CleanSafe tableInit sampleTableCalls := by
  decide +kernel

theorem bucket_invariant_cleaned : ∃ db rets,
    PartialRun.run TableCall.step tableInit sampleTableCalls = some (db, rets) ∧ db.Ok := by
  have hsome : (PartialRun.run TableCall.step tableInit sampleTableCalls).isSome = true := by
    decide +kernel
  obtain ⟨⟨db, rets⟩, hrun⟩ := Option.isSome_iff_exists.1 hsome
  exact ⟨db, rets, hrun, bucket_invariant sampleTableCalls_safe hrun⟩

/-- Three names of one bucket, the second of them stale, and a call for the third: the partial clean
deletes the second on the way, the bound of its loop drops to the index, and the third name is
entered a second time. -/
theorem bucket_invariant_fails : ¬∀ (calls : List TableCall) (db : HashStruct) (rets : List ℤ),
    (∀ c ∈ calls, c.AllocOk ∧ c.name.length < nameDns) →
    PartialRun.run TableCall.step tableInit calls = some (db, rets) → db.Ok := by
  intro h
  let calls : List TableCall := [⟨.plain [97, 99] 1 0 19, 2, 60⟩, ⟨.plain [98, 66] 1 0 19, 2, 60⟩,
    ⟨.plain [99, 33] 1 990 19, 2, 60⟩, ⟨.plain [99, 33] 2 1000 0, 2, 60⟩]
  have hnames : (PartialRun.run TableCall.step tableInit calls).map (fun r ↦
      (r.1 (nameHash [99, 33])).records.map NameRec.name) =
        some [[97, 99], [99, 33], [99, 33]] := by
    decide +kernel
  obtain ⟨⟨db, rets⟩, hrun, hnames⟩ := Option.map_eq_some_iff.1 hnames
  obtain ⟨l, hl⟩ := h calls db rets (by decide) hrun (nameHash [99, 33])
  obtain ⟨-, hexact, hrecords⟩ := hl.view
  have hnodup := hexact.names
  rw [← hrecords, hnames] at hnodup
  exact absurd hnodup (by decide)

end AlphaMon
