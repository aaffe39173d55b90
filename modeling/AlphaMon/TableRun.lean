import AlphaMon.TableWalk

/-!
# Runs of the table of names

A run is a list of calls of `table_add`, each with the flow, the name and what the call gets from
outside.  `runTable` is the run of the code and `NameTab.run` the same run without pointers;
`runTable_spec` says that from well-formed tables, with enough memory and names that fit into their
records, the first never fails and computes the second.

What a call does to the records of its bucket is said once, by `NameBucket.add_forall` for the
records it leaves and `NameBucket.add_ret` for the value it returns.
-/

set_option autoImplicit false

namespace AlphaMon

open Recency

/-- A call of `table_add`. -/
structure Call where
  flow : Flow
  name : List UInt8
  env : TableEnv

namespace Call

/-- The time of a call. -/
def time (c : Call) : ℤ := c.flow.timestamp

/-- The slot of the caller. -/
def user (c : Call) : ℕ := c.flow.userHash

/-- Both allocations of a call succeed. -/
def AllocOk (c : Call) : Prop := c.env.allocNames = true ∧ c.env.allocLru = true

instance (c : Call) : Decidable c.AllocOk := inferInstanceAs (Decidable (_ ∧ _))

/-- The name of a call fits into a record, which it is copied to without a look at its length. -/
def Fits (c : Call) : Prop := c.name.length < nameDns

instance (c : Call) : Decidable c.Fits := inferInstanceAs (Decidable (_ < _))

end Call

/-- The calls are in the order of their times. -/
def Timed (calls : List Call) : Prop := calls.Pairwise fun c c' ↦ c.time ≤ c'.time

instance (calls : List Call) : Decidable (Timed calls) :=
  inferInstanceAs (Decidable (List.Pairwise ..))

theorem Timed.left {calls calls' : List Call} (h : Timed (calls ++ calls')) : Timed calls :=
  (List.pairwise_append.1 h).1

theorem Timed.le_last {calls : List Call} {c : Call} (h : Timed (calls ++ [c])) {e : Call}
    (he : e ∈ calls) : e.time ≤ c.time :=
  (List.pairwise_append.1 h).2.2 e he c (by simp)

/-- A run of the code. -/
def runTable (k d : ℤ) : HashStruct → List Call → Option HashStruct
  | db, [] => some db
  | db, c :: calls => do
    let (db, _) ← tableAdd db c.flow c.name k d c.env
    runTable k d db calls

/-! ## Tables without pointers -/

/-- The buckets by the hash of the name. -/
abbrev NameTab := ℕ → NameBucket

/-- A call on the table. -/
def NameTab.add (k d : ℤ) (c : Call) (T : NameTab) : NameTab × ℤ :=
  let r := (T (nameHash c.name)).add k d c.time c.user c.name (probability c.env.tsc)
  (Function.update T (nameHash c.name) r.1, r.2)

/-- A run. -/
def NameTab.run (k d : ℤ) (T : NameTab) (calls : List Call) : NameTab :=
  calls.foldl (fun T c ↦ (T.add k d c).1) T

/-- The table before the first call. -/
def NameTab.empty : NameTab := fun _ ↦ ⟨0, []⟩

@[simp] theorem NameTab.run_nil (k d : ℤ) (T : NameTab) : T.run k d [] = T := rfl

theorem NameTab.run_concat (k d : ℤ) (T : NameTab) (calls : List Call) (c : Call) :
    T.run k d (calls ++ [c]) = ((T.run k d calls).add k d c).1 := by
  simp [run]

/-- The bucket of the last call. -/
theorem NameTab.run_concat_same (k d : ℤ) (T : NameTab) (calls : List Call) (c : Call) :
    T.run k d (calls ++ [c]) (nameHash c.name) = ((T.run k d calls (nameHash c.name)).add k d c.time
      c.user c.name (probability c.env.tsc)).1 := by
  rw [run_concat]
  exact Function.update_self ..

/-- A bucket that is not the last call's. -/
theorem NameTab.run_concat_of_ne {h : ℕ} {c : Call} (he : h ≠ nameHash c.name) (k d : ℤ)
    (T : NameTab) (calls : List Call) : T.run k d (calls ++ [c]) h = T.run k d calls h := by
  rw [run_concat]
  exact Function.update_of_ne he ..

/-- The table `db` of the code is well formed and stands for `T`. -/
def HashStruct.View (db : HashStruct) (T : NameTab) : Prop := ∀ h, (db h).View (T h)

theorem view_tableInit : HashStruct.View tableInit NameTab.empty :=
  fun _ ↦ ⟨[], Bucket.holds_init, rfl, rfl⟩

variable {k d : ℤ} {db : HashStruct} {T : NameTab}

/-- **A call of the code is a call on the table without pointers**, or its name does not fit into a
record. -/
theorem tableAdd_or (hdb : db.View T) (hd : 0 ≤ d) {c : Call} (hc : c.AllocOk) :
    (∃ db', tableAdd db c.flow c.name k d c.env = some (db', (T.add k d c).2) ∧
      db'.View (T.add k d c).1) ∨
    ¬c.Fits ∧ tableAdd db c.flow c.name k d c.env = none := by
  have hspec := tableAddBucket_spec (k := k) (hdb (nameHash c.name)) hd c.flow c.name c.user hc.1
    hc.2
  rw [show c.flow.timestamp = c.time from rfl] at hspec
  rw [tableAdd]
  rcases hspec with ⟨b', hrun, hb'⟩ | ⟨hlong, hnone⟩
  · refine .inl ⟨Function.update db (nameHash c.name) b', ?_, fun h ↦ ?_⟩
    · rw [show c.flow.userHash = c.user from rfl, hrun]
      rfl
    · rw [NameTab.add]
      by_cases he : h = nameHash c.name
      · subst he
        simpa using hb'
      · simpa [Function.update_of_ne he] using hdb h
  · refine .inr ⟨not_lt.2 hlong, ?_⟩
    rw [show c.flow.userHash = c.user from rfl, hnone]
    rfl

/-- A call whose name fits returns. -/
theorem tableAdd_spec (hdb : db.View T) (hd : 0 ≤ d) {c : Call} (hc : c.AllocOk) (hfits : c.Fits) :
    ∃ db', tableAdd db c.flow c.name k d c.env = some (db', (T.add k d c).2) ∧
      db'.View (T.add k d c).1 :=
  (tableAdd_or hdb hd hc).resolve_right fun hlong ↦ hlong.1 hfits

/-- What a call has done that returns. -/
theorem tableAdd_of_some (hdb : db.View T) (hd : 0 ≤ d) {c : Call} (hc : c.AllocOk)
    {db' : HashStruct} {ret : ℤ} (h : tableAdd db c.flow c.name k d c.env = some (db', ret)) :
    ret = (T.add k d c).2 ∧ db'.View (T.add k d c).1 := by
  rcases tableAdd_or (k := k) hdb hd hc with ⟨db₁, hadd, hdb₁⟩ | ⟨-, hnone⟩
  · obtain ⟨rfl, rfl⟩ : db₁ = db' ∧ _ = ret := by simpa using hadd.symm.trans h
    exact ⟨rfl, hdb₁⟩
  · exact absurd (hnone.symm.trans h) (by simp)

/-- **A run of the code never fails**, and is the run on the table without pointers. -/
theorem runTable_spec (hdb : db.View T) (hd : 0 ≤ d) {calls : List Call}
    (hok : ∀ c ∈ calls, c.AllocOk) (hfits : ∀ c ∈ calls, c.Fits) :
    ∃ db', runTable k d db calls = some db' ∧ db'.View (T.run k d calls) := by
  induction calls generalizing db T with
  | nil => exact ⟨db, rfl, hdb⟩
  | cons c calls ih =>
    obtain ⟨db₁, hrun, hdb₁⟩ := tableAdd_spec hdb hd (hok c (by simp)) (hfits c (by simp))
    obtain ⟨db', hrun', hdb'⟩ := ih hdb₁ (fun c' hc' ↦ hok c' (by simp [hc'])) fun c' hc' ↦
      hfits c' (by simp [hc'])
    refine ⟨db', ?_, hdb'⟩
    rw [runTable, hrun]
    exact hrun'

/-- What a name's record says about its users. -/
def NameBucket.usersOf (name : List UInt8) (s : NameBucket) : List (ℕ × ℤ) :=
  match s.recs.find? (·.name = name) with
  | some r => r.users
  | none => []

/-- The users the table of the code has recorded for a name. -/
def HashStruct.usersOf (db : HashStruct) (name : List UInt8) : List (ℕ × ℤ) :=
  NameBucket.usersOf name ⟨(db (nameHash name)).number, (db (nameHash name)).records⟩

theorem HashStruct.View.usersOf_eq (hdb : db.View T) (name : List UInt8) :
    db.usersOf name = (T (nameHash name)).usersOf name := by
  rw [HashStruct.usersOf, (hdb _).records_eq]
  rfl

/-! ## What a call does to its bucket -/

variable {s : NameBucket} {t : ℤ} {h p : ℕ} {name : List UInt8}

/-- **The records a call leaves**: what holds of all records, and of pruned ones, holds after the
call of the others, and of the record of the name as soon as it holds after the reference. -/
theorem NameBucket.add_forall {P Q : NameRec → Prop} (hP : ∀ r ∈ s.recs, P r)
    (hpruned : ∀ r, P r → P (r.pruned (t - d))) (hPQ : ∀ r, P r → Q r)
    (hfound : ∀ us, P ⟨name, us⟩ → Q ⟨name, Names.reference k t d h us⟩)
    (hnew : Q ⟨name, Names.reference k t d h []⟩) :
    ∀ r ∈ (s.add k d t h name p).1.recs, Q r := by
  rw [NameBucket.add]
  split
  · simpa using hnew
  · next cur after hrecs =>
    have hclean := walk_cleaned name (t - d) p s.number cur after
    have hfind := walk_find name (t - d) p s.number cur after
    generalize walk name (t - d) p s.number cur after = w at hclean hfind
    have hPw : ∀ r ∈ w.recs, P r := by
      intro r hr
      obtain ⟨r₀, hr₀, rfl | rfl⟩ := hclean.old r hr
      · exact hP _ (hrecs ▸ hr₀)
      · exact hpruned _ (hP _ (hrecs ▸ hr₀))
    simp only [Stop.recs, List.forall_mem_append, List.forall_mem_cons] at hPw
    obtain ⟨hbefore, hcur, hafter⟩ := hPw
    rw [Stop.add]
    split
    · next hf =>
      have hname : w.cur.name = name := by simpa using List.find?_some (hfind hf)
      simp only [List.forall_mem_append, List.forall_mem_cons, hname]
      refine ⟨fun r hr ↦ hPQ r (hbefore r hr), hfound _ ?_, fun r hr ↦ hPQ r (hafter r hr)⟩
      rwa [← hname]
    · simp only [List.forall_mem_append, List.forall_mem_cons]
      exact ⟨fun r hr ↦ hPQ r (hbefore r hr), hPQ _ hcur, hnew, by simp⟩

/-- **The value a call returns** is the number of users after the reference, of those recorded for
the name if its record is found and of none otherwise. -/
theorem NameBucket.add_ret (s : NameBucket) (k d t : ℤ) (h : ℕ) (name : List UInt8) (p : ℕ) :
    ∃ us, (s.add k d t h name p).2 = (Names.reference k t d h us).length ∧
      (us = s.usersOf name ∨ us = []) := by
  rw [NameBucket.add, NameBucket.usersOf]
  split
  · exact ⟨[], rfl, .inr rfl⟩
  · next cur after hrecs =>
    have hfind := walk_find name (t - d) p s.number cur after
    generalize walk name (t - d) p s.number cur after = w at hfind
    rw [Stop.add]
    split
    · next hf =>
      rw [hrecs, hfind hf]
      exact ⟨_, rfl, .inl rfl⟩
    · exact ⟨[], rfl, .inr rfl⟩

end AlphaMon
