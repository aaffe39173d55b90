import AlphaMon.BucketInvariant

/-!
# Calls without memory

A call of `table_add` may find no memory for a name record or for a user node, and copies its name
into a new record whatever its length is.  Without the record it returns 0 and leaves the table as
its search did.  Without the node it goes on with the user list it has, prunes it, and reads its
tail; in a list that is then empty, and the list of a new record always is, that is a null pointer.

As long as every call leaves somebody in the list (`NameBucket.Serves`), and gets to where its
search has to get, the table stays well formed, keeps what was recorded, and counts no more users
than there are (`allocation_failure`).
-/

set_option autoImplicit false

namespace AlphaMon

open Recency

/-! ## Who is left in a list -/

/-- Somebody is in the list after the first half of `referencePage`, and is not dropped by the
second. -/
def Names.Leaves (allocOk : Bool) (k t d : ℤ) (h : ℕ) (us : List (ℕ × ℤ)) : Prop :=
  ∃ u ∈ touched allocOk t h us, ((touched allocOk t h us).length : ℤ) ≤ k ∨ t - d ≤ u.2

instance (allocOk : Bool) (k t d : ℤ) (h : ℕ) (us : List (ℕ × ℤ)) :
    Decidable (Names.Leaves allocOk k t d h us) :=
  inferInstanceAs (Decidable (∃ _ ∈ _, _))

variable {allocOk : Bool} {k t d : ℤ} {h : ℕ} {us us' : List (ℕ × ℤ)} {name : List UInt8}
  {env : TableEnv}
  {s s' : NameBucket} {ret : ℤ}

/-- A user seen since the cutoff is not dropped, in whatever order the list is. -/
theorem mem_expire_of_le {c : ℤ} {u : ℕ × ℤ} (hu : u ∈ us) (hc : c ≤ u.2) : u ∈ expire c us := by
  induction us using List.reverseRecOn with
  | nil => exact hu
  | append_singleton us v ih =>
    rw [expire_concat]
    split
    · next hv =>
      rcases List.mem_append.1 hu with hu | hu
      · exact ih hu
      · exact absurd (List.mem_singleton.1 hu ▸ hc) (not_le.2 hv)
    · exact hu

/-- **A reference returns exactly when it leaves somebody.** -/
theorem Names.tryReference_isSome (allocOk : Bool) (k t d : ℤ) (h : ℕ) (us : List (ℕ × ℤ)) :
    (tryReference allocOk k t d h us).isSome = true ↔ Leaves allocOk k t d h us := by
  rw [tryReference, Leaves]
  generalize touched allocOk t h us = us
  by_cases hk : k < us.length
  · have hk' : ¬(us.length : ℤ) ≤ k := not_le.2 hk
    have hnil : expire (t - d) us = [] ↔ ∀ u ∈ us, u.2 < t - d := by
      simp [expire, List.rdropWhile_eq_nil_iff]
    simp only [if_pos hk, hk', false_or]
    split
    · next he =>
      have hold := hnil.1 he
      refine iff_of_false Bool.false_ne_true ?_
      rintro ⟨u, hu, hle⟩
      exact absurd (hold u hu) (not_lt.2 hle)
    · next he =>
      refine iff_of_true rfl ?_
      by_contra hno
      exact he (hnil.2 fun u hu ↦ not_le.1 fun hle ↦ hno ⟨u, hu, hle⟩)
  · simp only [if_neg hk, not_lt.1 hk, true_or, and_true]
    cases us <;> simp

/-- What a reference keeps. -/
theorem Names.mem_of_tryReference (htry : tryReference allocOk k t d h us = some us') {u : ℕ × ℤ}
    (hu : u ∈ touched allocOk t h us) (hc : t - d ≤ u.2) : u ∈ us' := by
  have hmem : u ∈ if k < (touched allocOk t h us).length then expire (t - d)
    (touched allocOk t h us)
      else touched allocOk t h us := by
    split
    · exact mem_expire_of_le hu hc
    · exact hu
  rw [tryReference] at htry
  generalize (if k < (touched allocOk t h us).length then expire (t - d) (touched allocOk t h us)
    else touched allocOk t h us) = us₁ at htry hmem
  have hne : us₁ ≠ [] := List.ne_nil_of_mem hmem
  obtain rfl : us₁ = us' := by simpa [hne] using htry
  exact hmem

/-- A user other than the caller stays as he is, and a caller who was there is seen now. -/
theorem Names.mem_touched {u : ℕ × ℤ} (hu : u ∈ us) :
    (u.1 ≠ h → u ∈ touched allocOk t h us) ∧ (u.1 = h → (h, t) ∈ touched allocOk t h us) := by
  rw [touched]
  constructor
  · intro hne
    split
    · exact mem_touch.2 (.inr ⟨hu, hne⟩)
    · exact hu
  · rintro rfl
    rw [if_pos (.inr (mem_keys.2 ⟨u.2, hu⟩))]
    exact mem_touch.2 (.inl rfl)

/-! ## The bucket -/

/-- The call has a name that fits into a record and leaves somebody in its list, or has no memory
for a new record. -/
def NameBucket.Serves (k d t : ℤ) (h : ℕ) (name : List UInt8) (env : TableEnv) (s : NameBucket) :
    Prop :=
  name.length < nameDns ∧ Names.Leaves env.allocLru k t d h (s.usersOf name) ∨
    env.allocNames = false ∧ s.recs ≠ [] ∧ ∀ r ∈ s.recs, r.name ≠ name

instance (k d t : ℤ) (h : ℕ) (name : List UInt8) (env : TableEnv) (s : NameBucket) :
    Decidable (s.Serves k d t h name env) :=
      inferInstanceAs (Decidable (_ ∧ _ ∨ _ ∧ _ ∧ ∀ _ ∈ _, _))

/-- Where a search has stopped, a call that serves the caller returns. -/
theorem Stop.Right.tryAdd_isSome {w : Stop} (hw : w.Right name (t - d) s)
    (hserves : s.Serves k d t h name env) :
    (w.tryAdd k d t h name env).isSome = true := by
  rw [Stop.tryAdd]
  split
  · next hf =>
    have hcur := hw.find hf
    have hname : w.cur.name = name := by simpa using List.find?_some hcur
    rcases hserves with ⟨-, hleaves⟩ | ⟨-, -, habsent⟩
    · rw [NameBucket.usersOf, hcur] at hleaves
      rw [Option.isSome_map]
      exact (Names.tryReference_isSome ..).2 hleaves
    · exact absurd hname (habsent _ (List.mem_of_find?_eq_some hcur))
  next hf =>
  split
  · next halloc =>
    rcases hserves with ⟨hname, hleaves⟩ | ⟨hno, -, -⟩
    · rw [NameBucket.usersOf_eq_nil fun r hr he ↦ hf (hw.found ⟨r, hr, he⟩)] at hleaves
      rw [Option.isSome_map, NameRec.tryNew, if_pos hname, Option.isSome_map]
      exact (Names.tryReference_isSome ..).2 hleaves
    · rw [hno] at halloc
      exact absurd halloc (by decide)
  · rfl

/-- **A safe call that serves the caller returns.** -/
theorem NameBucket.exists_tryAdd (hs : s.Exact)
    (hsafe : s.CleanSafe name (t - d) (probability env.tsc)) (hserves : s.Serves k d t h name env) :
    ∃ s' ret, s.tryAdd k d t h name env = some (s', ret) := by
  suffices hsome : (s.tryAdd k d t h name env).isSome = true by
    obtain ⟨⟨s', ret⟩, hrun⟩ := Option.isSome_iff_exists.1 hsome
    exact ⟨s', ret, hrun⟩
  obtain ⟨n, recs⟩ := s
  cases recs with
  | nil =>
    rcases hserves with ⟨hname, hleaves⟩ | ⟨-, hne, -⟩
    · rw [tryAdd, Option.isSome_map, NameRec.tryNew, if_pos hname, Option.isSome_map]
      exact (Names.tryReference_isSome ..).2 hleaves
    · exact absurd rfl hne
  | cons cur after => exact (walk_right hs hsafe).tryAdd_isSome hserves

/-- The users of a name are those of its record. -/
theorem NameBucket.Exact.usersOf_eq (hs : s.Exact) {r : NameRec} (hr : r ∈ s.recs) :
    s.usersOf r.name = r.users := by
  have hfind : s.recs.find? (·.name = r.name) = some r := by
    rw [← List.head?_filter, hs.filter_eq hr]
    rfl
  rw [usersOf, hfind]

/-- What a call keeps in its bucket: the records of other names and the users of its name, less what
is expired, and with the caller refreshed; and it counts no more users than there are. -/
structure NameBucket.Kept (t d : ℤ) (h : ℕ) (name : List UInt8) (s s' : NameBucket) (ret : ℤ) :
    Prop where
  others : ∀ r ∈ s.recs, r.name ≠ name → r.Stale (t - d) ∨ r ∈ s'.recs ∨ r.pruned (t - d) ∈ s'.recs
  users : ∀ u ∈ s.usersOf name, u.1 ≠ h → t - d ≤ u.2 → u ∈ s'.usersOf name
  caller : ∀ u ∈ s.usersOf name, u.1 = h → t - d ≤ t → (h, t) ∈ s'.usersOf name
  ret : ret ≤ (s'.usersOf name).length

/-- **A safe call keeps what was recorded.** -/
theorem NameBucket.TryAdded.kept (hadd : s.TryAdded k d t h name env s' ret) (hs : s.Exact) :
    s.Kept t d h name s' ret := by
  have hs' := hadd.exact hs
  have hold : ∀ {s₁ : NameBucket}, s.Cleaned (t - d) s₁ →
    (∀ r ∈ s₁.recs, r.name ≠ name → r ∈ s'.recs) →
      ∀ r ∈ s.recs, r.name ≠ name → r.Stale (t - d) ∨ r ∈ s'.recs ∨ r.pruned (t - d) ∈ s'.recs := by
    intro s₁ hclean hsub r hr hne
    rcases hclean.kept r hr with hstale | hr | hr
    · exact .inl hstale
    · exact .inr (.inl (hsub r hr hne))
    · exact .inr (.inr (hsub _ hr hne))
  cases hadd with
  | @found s₁ l l' us' hclean hrecs htry =>
    have husers := hs'.usersOf_eq (r := ⟨name, us'⟩) (by simp)
    refine ⟨hold hclean fun r hr hne ↦ ?_, fun u hu hne hc ↦ ?_, fun u hu he hc ↦ ?_, ?_⟩
    · rw [hrecs, List.mem_append, List.mem_cons] at hr
      rw [List.mem_append, List.mem_cons]
      rcases hr with hr | rfl | hr
      · exact .inl hr
      · exact absurd rfl hne
      · exact .inr (.inr hr)
    · rw [husers]
      exact Names.mem_of_tryReference htry ((Names.mem_touched hu).1 hne) hc
    · rw [husers]
      exact Names.mem_of_tryReference htry ((Names.mem_touched hu).2 he) hc
    · rw [husers]
  | @new s₁ us' hclean habsent htry =>
    have husers := hs'.usersOf_eq (r := ⟨name, us'⟩) (by simp)
    have hnil := usersOf_eq_nil habsent
    refine ⟨hold hclean fun r hr _ ↦ List.mem_append_left _ hr, ?_, ?_, ?_⟩
    · simp [hnil]
    · simp [hnil]
    · rw [husers]
  | noMemory hclean habsent =>
    have hnil := usersOf_eq_nil habsent
    exact ⟨hold hclean fun r hr _ ↦ hr, by simp [hnil], by simp [hnil], by simp⟩

/-! ## The table -/

variable {db db' : HashStruct} {c : TableCall}

/-- The call has a name that fits into a record and leaves somebody in its list, or has no memory
for a new record. -/
def TableCall.Serves (db : HashStruct) (c : TableCall) : Prop :=
  NameBucket.Serves c.kAnon c.kDelta c.time c.user c.name c.env
    ⟨(db (nameHash c.name)).number, (db (nameHash c.name)).records⟩

/-- The call gets where it has to get, and leaves somebody. -/
def TableCall.Survives (db : HashStruct) (c : TableCall) : Prop := c.CleanSafe db ∧ c.Serves db

instance (db : HashStruct) (c : TableCall) : Decidable (c.Survives db) :=
  inferInstanceAs (Decidable (NameBucket.CleanSafe .. ∧ NameBucket.Serves ..))

/-- What a call that returns `ret` keeps: the records of all other names and the users of its own,
less what is expired, and with the caller refreshed if he was there; and it counts no more users
than are recorded. -/
structure HashStruct.Kept (c : TableCall) (db db' : HashStruct) (ret : ℤ) : Prop where
  others : ∀ hash, ∀ r ∈ (db hash).records, r.name ≠ c.name →
    r.Stale c.cutoff ∨ r ∈ (db' hash).records ∨ r.pruned c.cutoff ∈ (db' hash).records
  users : ∀ u ∈ db.usersOf c.name, u.1 ≠ c.user → c.cutoff ≤ u.2 → u ∈ db'.usersOf c.name
  caller : ∀ u ∈ db.usersOf c.name, u.1 = c.user → c.cutoff ≤ c.time →
    (c.user, c.time) ∈ db'.usersOf c.name
  ret : ret ≤ (db'.usersOf c.name).length

/-- **A call that survives returns.** -/
theorem TableCall.exists_step (hdb : db.Ok) (hc : c.Survives db) :
    ∃ db' ret, c.step db = some (db', ret) := by
  obtain ⟨l, hl⟩ := hdb (nameHash c.name)
  obtain ⟨hview, hexact, hrecords⟩ := hl.view
  obtain ⟨hsafe, hserves⟩ := hc
  rw [CleanSafe, HashStruct.CleanSafe, hrecords] at hsafe
  rw [Serves, hrecords] at hserves
  obtain ⟨s', ret, htry⟩ := NameBucket.exists_tryAdd hexact hsafe hserves
  have href := tableAddBucket_try hview c.flow c.name c.user c.kAnon c.kDelta c.env
  rw [show c.flow.timestamp = c.time from rfl, htry] at href
  obtain ⟨b', hrun, -⟩ := href
  exact ⟨_, ret, step_eq_some.2 ⟨b', hrun, rfl⟩⟩

/-- **A safe call keeps what was recorded.** -/
theorem TableCall.step_kept (hdb : db.Ok) (hsafe : c.CleanSafe db)
    (hrun : c.step db = some (db', ret)) :
    HashStruct.Kept c db db' ret := by
  obtain ⟨s, s', hs, hexact, -, hs', hother, hadd⟩ := step_cases hdb hsafe hrun
  have hkept := hadd.kept hexact
  have husers : db.usersOf c.name = s.usersOf c.name := by
    rw [HashStruct.usersOf, hs.records_eq]
    rfl
  have husers' : db'.usersOf c.name = s'.usersOf c.name := by
    rw [HashStruct.usersOf, hs'.records_eq]
    rfl
  refine ⟨fun hash r hr hne ↦ ?_, ?_, ?_, ?_⟩
  · by_cases hh : hash = nameHash c.name
    · subst hh
      rw [hs.records_eq] at hr
      rw [hs'.records_eq]
      exact hkept.others r hr hne
    · rw [hother hash hh]
      exact .inr (.inl hr)
  · rw [husers, husers']
    exact hkept.users
  · rw [husers, husers']
    exact hkept.caller
  · rw [husers']
    exact hkept.ret

/-- **`table_add` survives every pattern of allocation failures** in runs whose calls get where they
have to get, have names that fit into a record and leave somebody in the list they end with: every
call returns, leaves the table well formed, keeps what was recorded and counts no more users than
there are. -/
theorem allocation_failure {calls : List TableCall}
    (h : PartialRun.Meets TableCall.step TableCall.Survives tableInit (calls ++ [c])) :
    ∃ db rets db' ret, PartialRun.run TableCall.step tableInit calls = some (db, rets) ∧ db.Ok ∧
      c.step db = some (db', ret) ∧ db'.Ok ∧ HashStruct.Kept c db db' ret := by
  obtain ⟨hcalls, hlast⟩ := PartialRun.meets_append.1 h
  obtain ⟨db, rets, hrun, hdb⟩ := PartialRun.run_total
    (fun db c _ hdb hc ↦ by
      obtain ⟨db', ret, hstep⟩ := TableCall.exists_step hdb hc
      exact ⟨db', ret, hstep, TableCall.step_ok hdb hc.1 hstep⟩) ok_tableInit hcalls
  have hc : c.Survives db := (hlast db rets hrun).1
  obtain ⟨db', ret, hstep⟩ := TableCall.exists_step hdb hc
  exact ⟨db, rets, db', ret, hrun, hdb, hstep, TableCall.step_ok hdb hc.1 hstep,
    TableCall.step_kept hdb hc.1 hstep⟩

/-- A call with a name, and one with another name of the bucket for which there is no memory. -/
def noMemoryCall : TableCall :=
  ⟨{ Call.plain [98, 66] 2 10 19 with env := ⟨19, false, true⟩ }, 2, 60⟩

theorem allocation_failure_no_memory : ∃ db rets db' ret,
    PartialRun.run TableCall.step tableInit [⟨.plain [97, 99] 1 0 19, 2, 60⟩] = some (db, rets) ∧
      db.Ok ∧
      noMemoryCall.step db = some (db', ret) ∧ db'.Ok ∧
        HashStruct.Kept noMemoryCall db db' ret := by
  have hfirst : TableCall.Survives tableInit ⟨.plain [97, 99] 1 0 19, 2, 60⟩ := by decide +kernel
  have hsecond : (TableCall.step ⟨.plain [97, 99] 1 0 19, 2, 60⟩ tableInit).map (fun r ↦
      decide (noMemoryCall.Survives r.1)) = some true := by
    decide +kernel
  have hmeets : PartialRun.Meets TableCall.step TableCall.Survives tableInit
      ([⟨.plain [97, 99] 1 0 19, 2, 60⟩] ++ [noMemoryCall]) := by
    refine ⟨hfirst, fun db ret hstep ↦ ⟨?_, fun _ _ _ ↦ trivial⟩⟩
    rw [hstep] at hsecond
    simpa using hsecond
  exact allocation_failure hmeets

/-- The first call of all finds no memory for a user node, and reads the tail of an empty list. -/
theorem allocation_failure_fails : ¬∀ (calls : List TableCall) (c : TableCall) (db : HashStruct)
    (rets : List ℤ),
    PartialRun.run TableCall.step tableInit calls = some (db, rets) →
    ∃ db' ret, c.step db = some (db', ret) ∧ db'.Ok ∧ HashStruct.Kept c db db' ret := by
  intro h
  let c : TableCall := ⟨{ Call.plain [97] 1 0 19 with env := ⟨19, true, false⟩ }, 2, 60⟩
  obtain ⟨db', ret, hstep, -⟩ := h [] c tableInit [] rfl
  have hnone : (c.step tableInit).isNone = true := by decide +kernel
  rw [hstep] at hnone
  exact absurd hnone (by simp)

end AlphaMon
