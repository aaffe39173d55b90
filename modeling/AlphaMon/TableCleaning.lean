import AlphaMon.AllocationFailure

/-!
# The complete clean

A call whose draw is above 66 is meant to clean its whole bucket (`completeCleanLoop`).  The branch
is never taken: `33 <= probability <= 66` holds of every draw, so the call makes a partial clean,
which stops at the record it looks up.  What it has passed is clean (`partialWalk_before`), what
comes behind that record is as it was.

So such a call cleans its bucket completely exactly when there is nothing to clean behind the record
(`complete_clean`).
-/

set_option autoImplicit false

namespace AlphaMon

open Recency

variable {name : List UInt8} {c : ℤ} {s s' : NameBucket} {ret : ℤ}

/-! ## What a partial clean has passed -/

/-- From the second record on, the records passed that are left are not stale, and none had the
name. -/
theorem partialWalk_before_succ : ∀ (after : List NameRec) (i : ℕ) (n : ℤ) (before : List NameRec)
    (cur : NameRec),
    i ≠ 0 → ∃ pre mid, cur :: after = pre ++ (partialWalk name c i n before cur after).cur ::
        (partialWalk name c i n before cur after).after ∧
      (partialWalk name c i n before cur after).before = before ++ mid ∧
      (∀ r ∈ pre, r.name ≠ name) ∧ ∀ r ∈ mid, ¬r.Stale c
  | [], i, n, before, cur, _ => ⟨[], [], rfl, by simp [partialWalk], by simp, by simp⟩
  | nx :: after, i, n, before, cur, hi => by
    have hstop : ∃ pre mid, cur :: nx :: after = pre ++ cur :: nx :: after ∧
      before = before ++ mid ∧
        (∀ r ∈ pre, r.name ≠ name) ∧ ∀ r ∈ mid, ¬r.Stale c :=
          ⟨[], [], rfl, by simp, by simp, by simp⟩
    rw [partialWalk]
    split
    swap
    · exact hstop
    split
    · exact hstop
    next hne =>
    split
    · obtain ⟨pre, mid, hsplit, hbefore, hpre, hmid⟩ :=
        partialWalk_before_succ after (i + 1) (n - 1) before nx (by omega)
      exact ⟨cur :: pre, mid, congrArg (cur :: ·) hsplit, hbefore,
        List.forall_mem_cons.2 ⟨hne, hpre⟩, hmid⟩
    · next hexp =>
      obtain ⟨pre, mid, hsplit, hbefore, hpre, hmid⟩ :=
        partialWalk_before_succ after (i + 1) n (before ++ [cur.pruned c]) nx (by omega)
      refine ⟨cur :: pre, cur.pruned c :: mid, congrArg (cur :: ·) hsplit, ?_,
        List.forall_mem_cons.2 ⟨hne, hpre⟩,
        List.forall_mem_cons.2 ⟨fun hstale ↦ ?_, hmid⟩⟩
      · rw [NameRec.pruned] at hbefore ⊢
        rw [hbefore, List.append_assoc, List.singleton_append]
      · exact hexp (NameRec.expire_eq_nil_iff.2 (NameRec.stale_of_pruned hstale))

/-- **What a partial clean has passed is clean**, but for the first record. -/
theorem partialWalk_before (n : ℤ) (cur : NameRec) (after : List NameRec) :
    ∃ pre, cur :: after = pre ++ (partialWalk name c 0 n [] cur after).cur ::
        (partialWalk name c 0 n [] cur after).after ∧
      (∀ r ∈ pre, r.name ≠ name) ∧ (pre ≠ [] → cur ∈ (partialWalk name c 0 n [] cur after).before) ∧
      ∀ r ∈ (partialWalk name c 0 n [] cur after).before, r = cur ∨ ¬r.Stale c := by
  cases after with
  | nil => exact ⟨[], rfl, by simp, by simp, by simp [partialWalk]⟩
  | cons nx after =>
    have hstop : ∃ pre, cur :: nx :: after = pre ++ cur :: nx :: after ∧
      (∀ r ∈ pre, r.name ≠ name) ∧
        (pre ≠ [] → cur ∈ ([] : List NameRec)) ∧ ∀ r ∈ ([] : List NameRec), r = cur ∨ ¬r.Stale c :=
      ⟨[], rfl, by simp, by simp, by simp⟩
    rw [partialWalk]
    split
    swap
    · exact hstop
    split
    · exact hstop
    next hne =>
    rw [if_pos rfl]
    obtain ⟨pre, mid, hsplit, hbefore, hpre, hmid⟩ :=
      @partialWalk_before_succ name c after (0 + 1) n ([] ++ [cur]) nx (by omega)
    rw [hbefore]
    exact ⟨cur :: pre, congrArg (cur :: ·) hsplit, List.forall_mem_cons.2 ⟨hne, hpre⟩,
      fun _ ↦ List.mem_cons_self,
      List.forall_mem_cons.2 ⟨.inl rfl, fun r hr ↦ .inr (hmid r hr)⟩⟩

/-! ## The bucket after a call -/

/-- The records a complete clean spares: the first, the last, and the one looked up. -/
def NameBucket.Spares (name : List UInt8) (s : NameBucket) (r : NameRec) : Prop :=
  r.name = name ∨ s.recs.head?.map NameRec.name = some r.name ∨ s.recs.getLast?.map NameRec.name =
    some r.name

instance (name : List UInt8) (s : NameBucket) (r : NameRec) : Decidable (s.Spares name r) :=
  inferInstanceAs (Decidable (_ ∨ _ ∨ _))

/-- Between the record of the name and the last record there is nothing to clean. -/
def NameBucket.NoneBehind (name : List UInt8) (c : ℤ) (s : NameBucket) : Prop :=
  ∀ r ∈ (s.recs.dropWhile (·.name ≠ name)).tail.dropLast, ¬r.Stale c

instance (name : List UInt8) (c : ℤ) (s : NameBucket) : Decidable (s.NoneBehind name c) :=
  inferInstanceAs (Decidable (∀ _ ∈ _, _))

variable {k d t : ℤ} {h : ℕ} {env : TableEnv}

/-- The records a call leaves. -/
theorem Stop.mem_of_tryAdd {w : Stop} (hw : w.Right name (t - d) s)
    (htry : w.tryAdd k d t h name env = some (s', ret)) {r : NameRec} (hr : r ∈ s'.recs) :
    r.name = name ∨ r ∈ w.before ∨ (w.found = true ∧ r ∈ w.after) ∨
      (w.found = false ∧ r = w.cur) := by
  rw [tryAdd] at htry
  split at htry
  · next hf =>
    obtain ⟨us, -, heq⟩ := Option.map_eq_some_iff.1 htry
    obtain ⟨rfl, rfl⟩ := Prod.mk.inj heq
    have hname : w.cur.name = name := by simpa using List.find?_some (hw.find hf)
    rcases List.mem_append.1 hr with hr | hr
    · exact .inr (.inl hr)
    rcases List.mem_cons.1 hr with rfl | hr
    · exact .inl hname
    · exact .inr (.inr (.inl ⟨hf, hr⟩))
  next hf =>
  have hf' : w.found = false := by simpa using hf
  split at htry
  · obtain ⟨x, hx, heq⟩ := Option.map_eq_some_iff.1 htry
    obtain ⟨rfl, rfl⟩ := Prod.mk.inj heq
    obtain ⟨-, us, -, rfl⟩ := NameRec.tryNew_eq_some.1 hx
    simp only [List.mem_append, List.mem_cons, List.not_mem_nil, or_false] at hr
    rcases hr with hr | rfl | rfl
    · exact .inr (.inl hr)
    · exact .inr (.inr (.inr ⟨hf', rfl⟩))
    · exact .inl rfl
  · obtain ⟨rfl, -⟩ := Prod.mk.inj (Option.some.inj htry)
    have hlast := hw.last fun r hr he ↦ hf (hw.found ⟨r, hr, he⟩)
    simp only [bucket, recs, hlast, List.mem_append, List.mem_singleton] at hr
    exact hr.elim (fun hr ↦ .inr (.inl hr)) fun hr ↦ .inr (.inr (.inr ⟨hf', hr⟩))

/-- A call leaves the records of other names as its search left them. -/
theorem Stop.Right.mem_tryAdd {w : Stop} (hw : w.Right name (t - d) s)
    (htry : w.tryAdd k d t h name env = some (s', ret)) {r : NameRec} (hr : r ∈ w.recs)
    (hne : r.name ≠ name) :
    r ∈ s'.recs := by
  rw [Stop.tryAdd] at htry
  split at htry
  · next hf =>
    obtain ⟨us, -, heq⟩ := Option.map_eq_some_iff.1 htry
    obtain ⟨rfl, rfl⟩ := Prod.mk.inj heq
    have hname : w.cur.name = name := by simpa using List.find?_some (hw.find hf)
    simp only [Stop.recs, List.mem_append, List.mem_cons] at hr ⊢
    rcases hr with hr | rfl | hr
    · exact .inl hr
    · exact absurd hname hne
    · exact .inr (.inr hr)
  next hf =>
  split at htry
  · obtain ⟨us, -, heq⟩ := Option.map_eq_some_iff.1 htry
    obtain ⟨rfl, rfl⟩ := Prod.mk.inj heq
    rw [Stop.recs, hw.last fun r hr he ↦ hf (hw.found ⟨r, hr, he⟩)] at hr
    simp only [List.mem_append, List.mem_cons, List.not_mem_nil, or_false] at hr ⊢
    exact hr.imp_right .inl
  · obtain ⟨rfl, -⟩ := Prod.mk.inj (Option.some.inj htry)
    exact hr

/-- Where a partial clean has stopped, nothing stale is left but what a complete clean spares, if
there is nothing to clean behind the record found. -/
theorem Stop.Right.stale_spared_iff {n : ℤ} {cur : NameRec} {after pre : List NameRec} {w : Stop}
    (hs : NameBucket.Exact ⟨n, cur :: after⟩) (hw : w.Right name (t - d) ⟨n, cur :: after⟩)
    (hsplit : cur :: after = pre ++ w.cur :: w.after) (hpre : ∀ r ∈ pre, r.name ≠ name)
    (hbefore : ∀ r ∈ w.before, r = cur ∨ ¬r.Stale (t - d))
    (htry : w.tryAdd k d t h name env = some (s', ret)) :
    (∀ r ∈ s'.recs, r.Stale (t - d) → NameBucket.Spares name ⟨n, cur :: after⟩ r) ↔
      NameBucket.NoneBehind name (t - d) ⟨n, cur :: after⟩ := by
  have hnames : ((pre ++ w.cur :: w.after).map NameRec.name).Nodup := hsplit ▸ hs.names
  have hbehind (hf : w.found = true) :
      ((cur :: after).dropWhile (·.name ≠ name)).tail = w.after := by
    have hname : w.cur.name = name := by simpa using List.find?_some (hw.find hf)
    rw [hsplit, List.dropWhile_append_of_pos (by simpa using hpre),
      List.dropWhile_cons_of_neg (by simpa using hname)]
    rfl
  constructor
  · intro hspares r hr hstale
    replace hr : r ∈ ((cur :: after).dropWhile (·.name ≠ name)).tail.dropLast := hr
    by_cases hf : w.found = true
    swap
    · -- the name is not in the chain, and nothing is behind it
      have habsent : ∀ r ∈ cur :: after, r.name ≠ name := fun r hr he ↦ hf (hw.found ⟨r, hr, he⟩)
      rw [List.dropWhile_eq_nil_iff.2 (by simpa using habsent)] at hr
      simp at hr
    rw [hbehind hf] at hr
    have hname : w.cur.name = name := by simpa using List.find?_some (hw.find hf)
    have hmem : r ∈ w.after := List.dropLast_subset _ hr
    have hafter : w.after ≠ [] := List.ne_nil_of_mem hmem
    have hfront : List.Disjoint ((pre ++ [w.cur]).map NameRec.name) (w.after.map NameRec.name) :=
      List.disjoint_of_nodup_append (by simpa using hnames)
    have hback : List.Disjoint (w.after.dropLast.map NameRec.name)
      [(w.after.getLast hafter).name] := by
      refine List.disjoint_of_nodup_append ?_
      rw [← List.map_singleton, ← List.map_append, List.dropLast_append_getLast]
      exact hnames.sublist (((List.sublist_cons_self ..).trans (List.sublist_append_right ..)).map
        _)
    have hne : r.name ≠ name := fun he ↦
      hfront (a := name) (by simp [hname]) (he ▸ List.mem_map_of_mem hmem)
    have hleft : r ∈ s'.recs :=
      hw.mem_tryAdd htry (List.mem_append_right _ (List.mem_cons_of_mem _ hmem)) hne
    rcases hspares r hleft hstale with he | he | he
    · exact hne he
    · have hhead : cur ∈ pre ++ [w.cur] := by
        cases pre with
        | nil => simp_all
        | cons x pre => simp_all
      have he : cur.name = r.name := by simpa using he
      exact hfront (List.mem_map_of_mem hhead) (he ▸ List.mem_map_of_mem hmem)
    · have he : (w.after.getLast hafter).name = r.name := by
        simpa [hsplit, List.getLast?_append, List.getLast?_cons,
          List.getLast?_eq_some_getLast hafter] using he
      exact hback (List.mem_map_of_mem hr) (by simp [he])
  · intro hnone r hr hstale
    rcases Stop.mem_of_tryAdd hw htry hr with he | hr | ⟨hf, hr⟩ | ⟨hf, rfl⟩
    · exact .inl he
    · obtain rfl : r = cur := (hbefore r hr).resolve_right (not_not.2 hstale)
      exact .inr (.inl (by simp))
    · rw [NameBucket.NoneBehind, hbehind hf] at hnone
      have hafter : w.after ≠ [] := List.ne_nil_of_mem hr
      rw [← List.dropLast_append_getLast hafter, List.mem_append, List.mem_singleton] at hr
      rcases hr with hr | rfl
      · exact absurd hstale (hnone r hr)
      · exact .inr
          (.inr (by
          simp [hsplit, List.getLast?_append, List.getLast?_cons,
          List.getLast?_eq_some_getLast hafter]))
    · have hlast := hw.last fun r hr he ↦ by simp [hw.found ⟨r, hr, he⟩] at hf
      exact .inr (.inr (by simp [hsplit, hlast]))

/-- What a complete clean spares is left as it was. -/
theorem Stop.Right.mem_of_spares {n : ℤ} {cur : NameRec} {after pre : List NameRec} {w : Stop}
    (hs : NameBucket.Exact ⟨n, cur :: after⟩) (hw : w.Right name (t - d) ⟨n, cur :: after⟩)
    (hsplit : cur :: after = pre ++ w.cur :: w.after) (hfirst : pre ≠ [] → cur ∈ w.before)
    (htry : w.tryAdd k d t h name env = some (s', ret)) {r : NameRec} (hr : r ∈ cur :: after)
    (hne : r.name ≠ name) (hspares : NameBucket.Spares name ⟨n, cur :: after⟩ r) : r ∈ s'.recs := by
  refine hw.mem_tryAdd htry ?_ hne
  have hinj {r' : NameRec} (hr' : r' ∈ cur :: after) (he : r'.name = r.name) : r' = r :=
    List.inj_on_of_nodup_map hs.names hr' hr he
  rcases hspares with he | he | he
  · exact absurd he hne
  · obtain rfl : cur = r := hinj List.mem_cons_self (by simpa using he)
    cases pre with
    | nil =>
      obtain rfl : cur = w.cur := (List.cons.inj hsplit).1
      exact List.mem_append_right _ List.mem_cons_self
    | cons x pre => exact List.mem_append_left _ (hfirst (by simp))
  · refine List.mem_append_right _ ?_
    have hlast : (w.cur :: w.after).getLast (by simp) = r := by
      refine hinj ?_ ?_
      · rw [hsplit]
        exact List.mem_append_right _ (List.getLast_mem _)
      · simpa [hsplit, List.getLast?_append, List.getLast?_eq_some_getLast] using he
    exact hlast ▸ List.getLast_mem _

/-- **What a call that cleans leaves in its bucket**: what a complete clean spares, and nothing else
that is stale if there is nothing to clean behind the record found. -/
theorem NameBucket.tryAdd_cleans (hs : s.Exact) (hp : 33 ≤ probability env.tsc)
    (hsafe : s.CleanSafe name (t - d) (probability env.tsc))
    (htry : s.tryAdd k d t h name env = some (s', ret)) :
    ((∀ r ∈ s'.recs, r.Stale (t - d) → s.Spares name r) ↔ s.NoneBehind name (t - d)) ∧
      ∀ r ∈ s.recs, r.name ≠ name → s.Spares name r → r ∈ s'.recs := by
  obtain ⟨n, recs⟩ := s
  cases recs with
  | nil =>
    obtain ⟨x, hx, heq⟩ := Option.map_eq_some_iff.1 htry
    obtain ⟨rfl, rfl⟩ := Prod.mk.inj heq
    obtain ⟨-, us, -, rfl⟩ := NameRec.tryNew_eq_some.1 hx
    refine ⟨⟨fun _ r hr ↦ by simp at hr, fun _ r hr _ ↦ .inl ?_⟩, by simp⟩
    obtain rfl := List.mem_singleton.1 hr
    rfl
  | cons cur after =>
    have hw := walk_right hs hsafe
    have hwalk : walk name (t - d) (probability env.tsc) n cur after = partialWalk name (t - d) 0 n
      [] cur after := by
      rw [walk, if_neg (by omega)]
    rw [tryAdd] at htry
    simp only [hwalk] at htry hw
    obtain ⟨pre, hsplit, hpre, hfirst, hbefore⟩ := @partialWalk_before name (t - d) n cur after
    exact ⟨hw.stale_spared_iff hs hsplit hpre hbefore htry, fun r hr ↦
      hw.mem_of_spares hs hsplit hfirst htry hr⟩

/-! ## The table -/

variable {db db' : HashStruct} {c : TableCall}

/-- The bucket of a call, as a list of records. -/
def TableCall.bucket (c : TableCall) (db : HashStruct) : NameBucket :=
  ⟨(db (nameHash c.name)).number, (db (nameHash c.name)).records⟩

/-- The call has cleaned its bucket completely. -/
structure HashStruct.CompletelyCleaned (c : TableCall) (db db' : HashStruct) : Prop where
  /-- A record that is left with all its users expired is the first, the last, or the one looked
  up. -/
  expired : ∀ r ∈ (c.bucket db').recs, r.Stale c.cutoff → (c.bucket db).Spares c.name r
  /-- Every other record is still there, with its users who are not expired. -/
  kept : ∀ r ∈ (c.bucket db).recs, r.name ≠ c.name → ¬r.Stale c.cutoff ∨
    (c.bucket db).Spares c.name r →
    ∃ r' ∈ (c.bucket db').recs, r'.name = r.name ∧ ∀ u ∈ r.users, c.cutoff ≤ u.2 → u ∈ r'.users
  /-- So is the one looked up. -/
  users : ∀ u ∈ db.usersOf c.name, u.1 ≠ c.user → c.cutoff ≤ u.2 → u ∈ db'.usersOf c.name
  /-- The record looked up is found if there is one. -/
  found : (∃ r ∈ (c.bucket db).recs, r.name = c.name) →
    ∃ b a, searchName (db (nameHash c.name)) c.name c.time c.kDelta c.env.tsc = some (b, a, true)

/-- Between the record of the name and the last record of its bucket there is nothing to clean. -/
def TableCall.NoneBehind (db : HashStruct) (c : TableCall) :
    Prop := (c.bucket db).NoneBehind c.name c.cutoff

/-- **A safe call with a draw above 66 cleans completely** exactly when there is nothing to clean
behind the record of its name. -/
theorem TableCall.step_cleans (hdb : db.Ok) (hsafe : c.CleanSafe db)
    (hdraw : 66 < probability c.env.tsc) (hrun : c.step db = some (db', ret)) :
    HashStruct.CompletelyCleaned c db db' ↔ c.NoneBehind db := by
  obtain ⟨s, s', hview, hs, hexact, -, hs', -, htry⟩ := step_try hdb hrun
  have hbucket : c.bucket db = s := hview.symm
  have hbucket' : (c.bucket db').recs = s'.recs := hs'.records_eq
  have hsearch : s.CleanSafe c.name (c.time - c.kDelta) (probability c.env.tsc) := hview ▸ hsafe
  obtain ⟨hiff, hspared⟩ := NameBucket.tryAdd_cleans hexact (by omega) hsearch htry
  have hkept := TableCall.step_kept hdb hsafe hrun
  rw [NoneBehind, hbucket, cutoff, ← hiff]
  refine ⟨fun h ↦ hbucket ▸ hbucket' ▸ h.expired, fun h ↦
    ⟨hbucket ▸ hbucket' ▸ h, ?_, hkept.users, ?_⟩⟩
  · rw [hbucket, hbucket']
    rintro r hr hne (hfresh | hr')
    · rcases hkept.others _ r (hview ▸ hr) hne with hstale | hmem | hmem
      · exact absurd hstale hfresh
      · exact ⟨r, hbucket' ▸ hmem, rfl, fun u hu _ ↦ hu⟩
      · exact ⟨r.pruned c.cutoff, hbucket' ▸ hmem, rfl, fun u hu hc ↦ mem_expire_of_le hu hc⟩
    · exact ⟨r, hspared r hr hne hr', rfl, fun u hu _ ↦ hu⟩
  · rw [hbucket]
    intro hmem
    obtain ⟨b, a, -, hfound, -⟩ := searchName_found hs hexact hsearch hmem
    exact ⟨b, a, hfound⟩

/-- **Every call with a draw above 66 cleans its bucket completely** exactly when there is nothing
to clean behind the record of its name, in runs whose calls get where they have to get, have names
that fit into a record and leave somebody in the list they end with. -/
theorem complete_clean {calls : List TableCall}
    (h : PartialRun.Meets TableCall.step TableCall.Survives tableInit (calls ++ [c]))
    (hdraw : 66 < probability c.env.tsc) :
    ∃ db rets db' ret, PartialRun.run TableCall.step tableInit calls = some (db, rets) ∧
      c.step db = some (db', ret) ∧ (HashStruct.CompletelyCleaned c db db' ↔ c.NoneBehind db) := by
  obtain ⟨hcalls, hlast⟩ := PartialRun.meets_append.1 h
  obtain ⟨db, rets, hrun, hdb⟩ := PartialRun.run_total
    (fun db c _ hdb hc ↦ by
      obtain ⟨db', ret, hstep⟩ := TableCall.exists_step hdb hc
      exact ⟨db', ret, hstep, TableCall.step_ok hdb hc.1 hstep⟩) ok_tableInit hcalls
  have hc : c.Survives db := (hlast db rets hrun).1
  obtain ⟨db', ret, hstep⟩ := TableCall.exists_step hdb hc
  exact ⟨db, rets, db', ret, hrun, hstep, TableCall.step_cleans hdb hc.1 hdraw hstep⟩

/-- Four names of one bucket, the second of them stale, and a call for the third. -/
def sampleCleanCalls : List TableCall :=
  [⟨.plain [96, 132] 1 990 19, 2, 60⟩, ⟨.plain [97, 99] 1 0 19, 2, 60⟩,
  ⟨.plain [98, 66] 1 990 19, 2, 60⟩, ⟨.plain [99, 33] 1 990 19, 2, 60⟩]

theorem complete_clean_sample : ∃ db rets db' ret,
    PartialRun.run TableCall.step tableInit sampleCleanCalls = some (db, rets) ∧
      TableCall.step ⟨.plain [98, 66] 2 1000 9, 2, 60⟩ db = some (db', ret) ∧
      (HashStruct.CompletelyCleaned ⟨.plain [98, 66] 2 1000 9, 2, 60⟩ db db' ↔
        TableCall.NoneBehind db ⟨.plain [98, 66] 2 1000 9, 2, 60⟩) := by
  have hmeets : PartialRun.Meets TableCall.step TableCall.Survives tableInit
      (sampleCleanCalls ++ [⟨.plain [98, 66] 2 1000 9, 2, 60⟩]) := by
    decide +kernel
  exact complete_clean hmeets (by decide +kernel)

/-- Three names of one bucket, all of them stale, and a call for the first: the second is neither
the first nor the last nor the one looked up, and stays. -/
theorem complete_clean_fails : ¬∀ (calls : List TableCall) (c : TableCall) (db : HashStruct)
    (rets : List ℤ) (db' : HashStruct) (ret : ℤ), (∀ e ∈ calls ++ [c], e.AllocOk) →
    PartialRun.run TableCall.step tableInit calls = some (db, rets) → 66 < probability c.env.tsc →
    c.step db = some (db', ret) → HashStruct.CompletelyCleaned c db db' := by
  intro h
  let calls : List TableCall :=
    [⟨.plain [97, 99] 1 0 19, 2, 60⟩, ⟨.plain [98, 66] 1 0 19, 2, 60⟩,
        ⟨.plain [99, 33] 1 0 19, 2, 60⟩]
  let c : TableCall := ⟨.plain [97, 99] 2 1000 9, 2, 60⟩
  have hbad : (PartialRun.run TableCall.step tableInit calls).bind
    (fun r ↦ (c.step r.1).map fun (r' : HashStruct × ℤ) ↦
      decide (∃ x ∈ (c.bucket r'.1).recs, x.Stale c.cutoff ∧ ¬(c.bucket r.1).Spares c.name x)) =
        some true := by
    decide +kernel
  obtain ⟨⟨db, rets⟩, hrun, hbad⟩ := Option.bind_eq_some_iff.1 hbad
  obtain ⟨⟨db', ret⟩, hstep, hbad⟩ := Option.map_eq_some_iff.1 hbad
  obtain ⟨r, hr, hstale, hnot⟩ := of_decide_eq_true hbad
  exact hnot ((h calls c db rets db' ret (by decide) hrun (by decide +kernel) hstep).expired r hr
    hstale)

end AlphaMon
