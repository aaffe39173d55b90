import AlphaMon.AlphaGuarantee

/-!
# Random cleaning

A call of `table_add` draws whether to clean the chain of its bucket on the way.  Cleaning should
not be observable: a record with a user seen within `k_delta` has to stay, once, and with that user.

It is not observable as long as the searches get where they have to get (`NameBucket.CleanSafe`):
to the record of the name, or to the end of the chain.  Then the chain has no name twice and as many
records as the bucket counts (`NameBucket.Exact`), and keeps every user seen recently
(`NameBucket.Keeps`).  `random_cleaning` is this for every run.

The partial clean can stop early, since every record it deletes lowers the bound of its own loop by
one and not the index.  The record it was looking for is then entered a second time, and the rest of
the chain is dropped; `random_cleaning_fails` is such a run.
-/

set_option autoImplicit false

namespace AlphaMon

open Recency

variable {k d t e : ℤ} {h p : ℕ} {name : List UInt8} {s s' : NameBucket} {calls : List Call}

/-- No name occurs twice in the chain, and the bucket counts its records. -/
structure NameBucket.Exact (s : NameBucket) : Prop where
  /-- No name occurs twice. -/
  names : (s.recs.map NameRec.name).Nodup
  /-- The count is the length of the chain. -/
  number : s.number = s.recs.length

/-- The record has the caller at a time no earlier than the call. -/
def NameRec.Has (r : NameRec) (c : Call) : Prop :=
  r.name = c.name ∧ ∃ u ∈ r.users, u.1 = c.user ∧ c.time ≤ u.2

/-- Every call since `e` is still in the record of its name. -/
def NameBucket.Keeps (calls : List Call) (e : ℤ) (s : NameBucket) : Prop :=
  ∀ c ∈ calls, e ≤ c.time → ∃ r ∈ s.recs, r.Has c

theorem NameBucket.Keeps.mono (h : s.Keeps calls e) {e' : ℤ} (he : e ≤ e') : s.Keeps calls e' :=
  fun c hc hct ↦ h c hc (he.trans hct)

/-- A record with a recent user has a single record of its name. -/
theorem NameBucket.Exact.filter_eq (hs : s.Exact) {r : NameRec} (hr : r ∈ s.recs) :
    s.recs.filter (·.name = r.name) = [r] := by
  have hnd := hs.names
  obtain ⟨l₁, l₂, hl⟩ := List.append_of_mem hr
  rw [hl, List.map_append, List.map_cons, List.nodup_append, List.nodup_cons] at hnd
  obtain ⟨-, ⟨h₂, -⟩, h₁⟩ := hnd
  have h₁ : l₁.filter (·.name = r.name) = [] := by
    rw [List.filter_eq_nil_iff]
    intro x hx
    simpa using h₁ x.name (List.mem_map_of_mem hx) r.name (by simp)
  have h₂ : l₂.filter (·.name = r.name) = [] := by
    rw [List.filter_eq_nil_iff]
    intro x hx he
    exact h₂ (List.mem_map.2 ⟨x, hx, by simpa using he⟩)
  simp [hl, h₁, h₂]

/-! ## What a call keeps -/

/-- A cleaning keeps the recent users. -/
theorem NameBucket.Cleaned.keeps (h : s.Cleaned e s') (hs : s.Keeps calls e)
    (hrecent : ∀ r ∈ s.recs, Recent t r.users) : s'.Keeps calls e := by
  intro c hc hct
  obtain ⟨r, hr, hname, u, hu, huser, hut⟩ := hs c hc hct
  rcases h.kept r hr with hstale | hr' | hr'
  · exact absurd (hstale u hu) (not_lt.2 (hct.trans hut))
  · exact ⟨r, hr', hname, u, hu, huser, hut⟩
  · exact ⟨r.pruned e, hr', hname, u, (mem_expire (hrecent r hr)).2 ⟨hu, hct.trans hut⟩, huser, hut⟩

theorem NameBucket.Cleaned.exact (h : s.Cleaned e s') (hs : s.Exact) : s'.Exact := by
  refine ⟨hs.names.sublist h.names, ?_⟩
  have := h.number
  have := hs.number
  omega

/-- A reference keeps the recent users, and the caller is one of them. -/
theorem mem_reference {us : List (ℕ × ℤ)} (hus : Recent t us) {u : ℕ × ℤ} (hu : u ∈ touch h t us)
    (hut : t - d ≤ u.2) : u ∈ Names.reference k t d h us := by
  rw [Names.reference]
  split
  · exact (mem_expire (recent_touch hus le_rfl h)).2 ⟨hu, hut⟩
  · exact hu

theorem NameRec.Has.reference {c c' : Call} {us : List (ℕ × ℤ)} (hus : Recent c.time us)
    (h : NameRec.Has ⟨c.name, us⟩ c') (hold : c.time - d ≤ c'.time) (hle : c'.time ≤ c.time) :
    NameRec.Has ⟨c.name, Names.reference k c.time d c.user us⟩ c' := by
  obtain ⟨hname, u, hu, huser, hut⟩ := h
  by_cases he : u.1 = c.user
  · refine ⟨hname, (c.user, c.time), mem_reference hus (mem_touch.2 (.inl rfl)) ?_, ?_, hle⟩
    · exact hold.trans hle
    · exact he.symm.trans huser
  · exact ⟨hname, u, mem_reference hus (mem_touch.2 (.inr ⟨hu, he⟩)) (hold.trans hut), huser, hut⟩

theorem NameRec.has_reference {c : Call} {us : List (ℕ × ℤ)} (hus : Recent c.time us) (hd : 0 ≤ d) :
    NameRec.Has ⟨c.name, Names.reference k c.time d c.user us⟩ c :=
  ⟨rfl, (c.user, c.time), mem_reference hus (mem_touch.2 (.inl rfl)) (by simp only; omega), rfl,
    le_rfl⟩

/-- What the step of a call needs to know of its bucket. -/
structure NameBucket.Ready (calls : List Call) (c : Call) (d : ℤ) (s : NameBucket) : Prop where
  exact : s.Exact
  keeps : s.Keeps calls (c.time - d)
  recent : ∀ r ∈ s.recs, Recent c.time r.users
  le : ∀ c' ∈ calls, c'.time ≤ c.time

/-- **A safe call keeps the chain exact and every recent user in it**, its own included. -/
theorem NameBucket.Ready.add {c : Call} (hs : s.Ready calls c d) (hd : 0 ≤ d)
    (hsafe : s.CleanSafe c.name (c.time - d) p) :
    (s.add k d c.time c.user c.name p).1.Exact ∧
      (s.add k d c.time c.user c.name p).1.Keeps (calls ++ [c]) (c.time - d) := by
  obtain ⟨n, recs⟩ := s
  obtain ⟨hexact, hkeeps, hrecent, hle⟩ := hs
  cases recs with
  | nil =>
    have hn : n = 0 := by simpa using hexact.number
    refine ⟨⟨by simp [add], by simp [add, hn]⟩, fun c' hc' hct ↦ ?_⟩
    rcases List.mem_append.1 hc' with hc' | hc'
    · obtain ⟨r, hr, -⟩ := hkeeps c' hc' hct
      simp at hr
    · obtain rfl := List.mem_singleton.1 hc'
      exact ⟨_, List.mem_singleton_self _, NameRec.has_reference ⟨by simp, .nil⟩ hd⟩
  | cons cur after =>
    have hclean := walk_cleaned c.name (c.time - d) p n cur after
    have hexact' := hclean.exact hexact
    have hkeeps' := hclean.keeps hkeeps hrecent
    have hfind := walk_find c.name (c.time - d) p n cur after
    have hfound := walk_found hsafe hexact.number.ge
    have hafter := walk_after hsafe hexact.number.ge
    rw [NameBucket.add]
    simp only
    generalize walk c.name (c.time - d) p n cur after = w at *
    have hnum : w.number = w.recs.length := hexact'.number
    rw [Stop.add]
    split
    · next hf =>
      have hf := hfind hf
      have hname : w.cur.name = c.name := by simpa using List.find?_some hf
      have hus : Recent c.time w.cur.users := hrecent _ (List.mem_of_find?_eq_some hf)
      refine ⟨⟨?_, ?_⟩, fun c' hc' hct ↦ ?_⟩
      · simpa [Stop.bucket, Stop.recs] using hexact'.names
      · simpa [Stop.recs] using hnum
      rw [hname]
      rcases List.mem_append.1 hc' with hc' | hc'
      · obtain ⟨r, hr, hhas⟩ := hkeeps' c' hc' hct
        simp only [Stop.bucket, Stop.recs, List.mem_append, List.mem_cons] at hr ⊢
        rcases hr with hr | rfl | hr
        · exact ⟨r, .inl hr, hhas⟩
        · have hcur : NameRec.Has ⟨c.name, w.cur.users⟩ c' := ⟨hname ▸ hhas.1, hhas.2⟩
          exact ⟨_, .inr (.inl rfl), hcur.reference hus hct (hle c' hc')⟩
        · exact ⟨r, .inr (.inr hr), hhas⟩
      · obtain rfl := List.mem_singleton.1 hc'
        exact ⟨_, List.mem_append_right _ List.mem_cons_self, NameRec.has_reference hus hd⟩
    · next hf =>
      -- the name is not in the chain, and the search got to its end
      have hnone : ∀ r ∈ cur :: after, r.name ≠ c.name := fun r hr he ↦ hf (hfound ⟨r, hr, he⟩)
      have hrecs : w.recs = w.before ++ [w.cur] := by rw [Stop.recs, hafter hnone]
      have hnot : c.name ∉ w.recs.map NameRec.name := fun hm ↦ by
        obtain ⟨r, hr, he⟩ := List.mem_map.1 (hclean.names.subset hm)
        exact hnone r hr he
      have hconcat : w.before ++
        [w.cur, (⟨c.name, Names.reference k c.time d c.user []⟩ : NameRec)] =
          w.recs ++ [⟨c.name, Names.reference k c.time d c.user []⟩] := by simp [hrecs]
      simp only [hconcat]
      refine ⟨⟨?_, by simp [hnum]⟩, fun c' hc' hct ↦ ?_⟩
      · rw [List.map_append, List.nodup_append]
        refine ⟨hexact'.names, by simp, fun x hx y hy ↦ ?_⟩
        rintro rfl
        rw [List.map_singleton, List.mem_singleton] at hy
        obtain rfl : x = c.name := hy
        exact hnot hx
      rcases List.mem_append.1 hc' with hc' | hc'
      · obtain ⟨r, hr, hhas⟩ := hkeeps' c' hc' hct
        exact ⟨r, List.mem_append_left _ hr, hhas⟩
      · obtain rfl := List.mem_singleton.1 hc'
        exact ⟨_, List.mem_append_right _ List.mem_cons_self,
          NameRec.has_reference ⟨by simp, .nil⟩ hd⟩

/-! ## Runs -/

/-- The search of the call gets where it has to get, in the table of the code. -/
def HashStruct.CleanSafe (d : ℤ) (c : Call) (db : HashStruct) : Prop :=
  NameBucket.CleanSafe c.name (c.time - d) (probability c.env.tsc)
    ⟨(db (nameHash c.name)).number, (db (nameHash c.name)).records⟩

/-- Every call of the run is safe in the state it finds. -/
def SafeRun (k d : ℤ) (calls : List Call) : Prop :=
  ∀ pre c, pre ++ [c] <+: calls → ∀ db, runTable k d tableInit pre = some db → db.CleanSafe d c

theorem SafeRun.left {calls calls' : List Call} (h : SafeRun k d (calls ++ calls')) :
    SafeRun k d calls :=
  fun pre c hpre ↦ h pre c (hpre.trans (List.prefix_append ..))

/-- A run that never draws a cleaning is safe. -/
theorem SafeRun.of_noClean (h : ∀ c ∈ calls, probability c.env.tsc < 33) : SafeRun k d calls :=
  fun _ c hpre _ _ ↦ .inl (h c (hpre.subset (by simp)))

instance (d : ℤ) (c : Call) (db : HashStruct) : Decidable (db.CleanSafe d c) :=
  inferInstanceAs (Decidable (NameBucket.CleanSafe ..))

/-- A safe run goes on with a call that is safe in the state it finds. -/
theorem SafeRun.concat (h : SafeRun k d calls) {c : Call}
    (hc : ((runTable k d tableInit calls).map fun db ↦ decide (db.CleanSafe d c)) = some true) :
    SafeRun k d (calls ++ [c]) := by
  intro pre c' hpre db hrun
  rcases List.prefix_concat_iff.1 hpre with heq | hpre
  · obtain ⟨rfl, hcc⟩ := List.append_inj' heq rfl
    obtain rfl : c' = c := List.singleton_inj.1 hcc
    rw [hrun] at hc
    simpa using hc
  · exact h pre c' hpre db hrun

/-- Every call since `e` is still in the table, in the only record of its name. -/
def HashStruct.Keeps (calls : List Call) (e : ℤ) (db : HashStruct) : Prop :=
  ∀ c ∈ calls, e ≤ c.time → ∃ r,
    (db (nameHash c.name)).records.filter (·.name = c.name) = [r] ∧ r.Has c

theorem HashStruct.View.cleanSafe_iff {db : HashStruct} {T : NameTab} (hdb : db.View T) {c : Call} :
    db.CleanSafe d c ↔
      (T (nameHash c.name)).CleanSafe c.name (c.time - d) (probability c.env.tsc) := by
  have hnum : (db (nameHash c.name)).number = (T (nameHash c.name)).number := by
    obtain ⟨-, -, -, hnum⟩ := hdb (nameHash c.name)
    exact hnum
  rw [HashStruct.CleanSafe, (hdb _).records_eq, hnum]

/-- The calls that go to a bucket. -/
def callsOf (h : ℕ) (calls : List Call) : List Call := calls.filter (nameHash ·.name = h)

theorem HashStruct.View.keeps {db : HashStruct} {T : NameTab} (hdb : db.View T)
    (hT : ∀ h, (T h).Exact ∧ (T h).Keeps (callsOf h calls) e) : db.Keeps calls e := by
  intro c hc hct
  obtain ⟨hexact, hkeeps⟩ := hT (nameHash c.name)
  obtain ⟨r, hr, hhas⟩ := hkeeps c (by simp [callsOf, hc]) hct
  refine ⟨r, ?_, hhas⟩
  have hfilter := hexact.filter_eq hr
  rwa [hhas.1, ← (hdb _).records_eq] at hfilter

/-- **In every safe run** the chains are exact and keep the recent users. -/
theorem NameTab.run_ready (hd : 0 ≤ d) (ht : Timed calls) (hok : ∀ c ∈ calls, c.AllocOk)
    (hfits : ∀ c ∈ calls, c.Fits) (hsafe : SafeRun k d calls) (hlast : ∀ c ∈ calls, c.time ≤ t)
    (h : ℕ) :
    (empty.run k d calls h).Exact ∧ (empty.run k d calls h).Keeps (callsOf h calls) (t - d) := by
  induction calls using List.reverseRecOn generalizing t with
  | nil => exact ⟨⟨by simp [empty], by simp [empty]⟩, by simp [NameBucket.Keeps, callsOf]⟩
  | append_singleton calls c ih =>
    have hok' : ∀ e ∈ calls, e.AllocOk := fun e he ↦ hok e (List.mem_append_left _ he)
    have hfits' : ∀ e ∈ calls, e.Fits := fun e he ↦ hfits e (List.mem_append_left _ he)
    have hct : c.time ≤ t := hlast c (by simp)
    by_cases hh : h = nameHash c.name
    · subst hh
      obtain ⟨hexact, hkeeps⟩ := ih ht.left hok' hfits' hsafe.left fun e he ↦ ht.le_last he
      obtain ⟨db, hrun, hdb⟩ := runTable_spec (k := k) view_tableInit hd hok' hfits'
      have hsafe := hdb.cleanSafe_iff.1 (hsafe calls c (List.prefix_refl _) db hrun)
      have hready : NameBucket.Ready (callsOf (nameHash c.name) calls) c d
          (empty.run k d calls (nameHash c.name)) :=
        ⟨hexact, hkeeps, fun r hr ↦ (run_seen k d ht.left _ r hr).recent fun e he ↦ ht.le_last he,
          fun e he ↦ ht.le_last (List.mem_of_mem_filter he)⟩
      obtain ⟨hexact', hkeeps'⟩ := hready.add (k := k) hd hsafe
      rw [run_concat_same]
      refine ⟨hexact', ?_⟩
      rw [callsOf, List.filter_append]
      simpa [callsOf] using hkeeps'.mono (show c.time - d ≤ t - d by omega)
    · rw [run_concat_of_ne hh]
      have hcalls : callsOf h (calls ++ [c]) = callsOf h calls := by
        simp [callsOf, List.filter_append, Ne.symm hh]
      rw [hcalls]
      exact ih ht.left hok' hfits' hsafe.left fun e he ↦ (ht.le_last he).trans hct

/-- A search returns. -/
theorem searchName_total {b : Bucket} (hb : b.View s) (name : List UInt8) (t d : ℤ) (tsc : ℕ) :
    ∃ b' a found, searchName b name t d tsc = some (b', a, found) := by
  obtain ⟨l, hb, -, -⟩ := hb
  cases l with
  | nil => exact ⟨b, 0, false, searchName_empty hb name t d tsc⟩
  | cons p l =>
    obtain ⟨a, x⟩ := p
    obtain rfl : a = 0 := Option.some.inj (hb.first (by simp))
    obtain ⟨b', a, found, hsearch, -⟩ := searchName_spec hb name t d tsc
    exact ⟨b', a, found, hsearch⟩

/-- **A safe search finds the record of the name** if there is one, with the users it had. -/
theorem searchName_found {b : Bucket} (hb : b.View s) (hs : s.Exact) {tsc : ℕ}
    (hsafe : s.CleanSafe name (t - d) (probability tsc)) (hmem : ∃ r ∈ s.recs, r.name = name) :
    ∃ b' a q, searchName b name t d tsc = some (b', a, true) ∧ b'.mem.cell a = some q ∧
      q.name = name ∧
      ∀ r ∈ s.recs, r.name = name → q.users = r.users := by
  obtain ⟨l, hb, hrecs, hnum⟩ := hb
  obtain ⟨n, recs⟩ := s
  cases l with
  | nil =>
    obtain rfl : [] = recs := hrecs
    simp at hmem
  | cons p l =>
    obtain ⟨a, x⟩ := p
    obtain rfl : a = 0 := Option.some.inj (hb.first (by simp))
    obtain rfl : x :: l.map Prod.snd = recs := hrecs
    obtain rfl : b.number = n := hnum
    obtain ⟨b', a, found, hsearch, l₁, l₂, hb', -, -, -, hfound⟩ := searchName_spec hb name t d tsc
    have hwalk := walk_found hsafe hs.number.ge hmem
    have hfind := walk_find _ _ _ _ _ _ hwalk
    obtain ⟨q, hq, hqname, hus, -, -⟩ := hb'.cell
    have hcur : (walk name (t - d) (probability tsc) b.number x (l.map Prod.snd)).cur.name =
      name := by
      simpa using List.find?_some hfind
    refine ⟨b', a, q, hfound.trans hwalk ▸ hsearch, hq, hqname.trans hcur, fun r hr hname ↦ ?_⟩
    have hone := hs.filter_eq (List.mem_of_find?_eq_some hfind)
    rw [hcur] at hone
    have hr' : r ∈ (x :: l.map Prod.snd).filter (·.name = name) :=
      List.mem_filter.2 ⟨hr, decide_eq_true hname⟩
    rw [hone, List.mem_singleton] at hr'
    rw [hus.users_eq, ← hr']

/-- In a chain that keeps the recent users, a safe search finds the record of a recent call, with
all its recent users. -/
theorem searchName_finds {b : Bucket} (hb : b.View s) (hs : s.Exact)
    (hkeeps : s.Keeps calls (t - d)) {tsc : ℕ}
    (hsafe : s.CleanSafe name (t - d) (probability tsc)) :
    ∃ b' a found, searchName b name t d tsc = some (b', a, found) ∧
      ((∃ c ∈ calls, c.name = name ∧ t - d ≤ c.time) → found = true ∧
        ∃ q, b'.mem.cell a = some q ∧ q.name = name ∧
          ∀ c ∈ calls, c.name = name → t - d ≤ c.time →
            ∃ u ∈ q.users, u.1 = c.user ∧ c.time ≤ u.2) := by
  by_cases h : ∃ c ∈ calls, c.name = name ∧ t - d ≤ c.time
  · obtain ⟨c, hc, hname, hct⟩ := h
    obtain ⟨r, hr, hhas⟩ := hkeeps c hc hct
    obtain ⟨b', a, q, hsearch, hq, hqname, husers⟩ :=
      searchName_found hb hs hsafe ⟨r, hr, hhas.1.trans hname⟩
    refine ⟨b', a, true, hsearch, fun _ ↦ ⟨rfl, q, hq, hqname, fun c' hc' hname' hct' ↦ ?_⟩⟩
    obtain ⟨r', hr', hname'', hhas'⟩ := hkeeps c' hc' hct'
    rw [husers r' hr' (hname''.trans hname')]
    exact hhas'
  · obtain ⟨b', a, found, hsearch⟩ := searchName_total hb name t d tsc
    exact ⟨b', a, found, hsearch, fun h' ↦ absurd h' h⟩

/-- **Random cleaning is unobservable in safe runs** whose names fit into a record: a call finds the
record of its name if some user of the name was seen within `k_delta`, with every such user in it,
and before and after the call every name with such a user has exactly one record, with every such
user in it. -/
theorem random_cleaning (hd : 0 < d) {c : Call} (ht : Timed (calls ++ [c]))
    (hok : ∀ e ∈ calls ++ [c], e.AllocOk) (hfits : ∀ e ∈ calls ++ [c], e.Fits)
    (hsafe : SafeRun k d (calls ++ [c])) :
    ∃ db b a found db' ret, runTable k d tableInit calls = some db ∧
      db.Keeps calls (c.time - d) ∧
      searchName (db (nameHash c.name)) c.name c.time d c.env.tsc = some (b, a, found) ∧
      ((∃ e ∈ calls, e.name = c.name ∧ c.time - d ≤ e.time) → found = true ∧
        ∃ q, b.mem.cell a = some q ∧ q.name = c.name ∧
          ∀ e ∈ calls, e.name = c.name → c.time - d ≤ e.time →
            ∃ u ∈ q.users, u.1 = e.user ∧ e.time ≤ u.2) ∧
      tableAdd db c.flow c.name k d c.env = some (db', ret) ∧
      db'.Keeps (calls ++ [c]) (c.time - d) := by
  have hok' : ∀ e ∈ calls, e.AllocOk := fun e he ↦ hok e (List.mem_append_left _ he)
  have hfits' : ∀ e ∈ calls, e.Fits := fun e he ↦ hfits e (List.mem_append_left _ he)
  have hlast : ∀ e ∈ calls ++ [c], e.time ≤ c.time := by
    simpa [or_imp, forall_and] using fun e he ↦ ht.le_last he
  obtain ⟨db, hrun, hdb⟩ := runTable_spec (k := k) view_tableInit hd.le hok' hfits'
  obtain ⟨db', hadd, hdb'⟩ := tableAdd_spec (k := k) hdb hd.le (hok c (by simp)) (hfits c (by simp))
  rw [← NameTab.run_concat] at hdb'
  have hready := NameTab.run_ready (t := c.time) hd.le ht.left hok' hfits' hsafe.left fun e he ↦
    ht.le_last he
  have hready' := NameTab.run_ready hd.le ht hok hfits hsafe hlast
  have hsafe' := hdb.cleanSafe_iff.1 (hsafe calls c (List.prefix_refl _) db hrun)
  obtain ⟨b, a, found, hsearch, hfind⟩ := searchName_finds (hdb (nameHash c.name))
    (hready (nameHash c.name)).1 (hready (nameHash c.name)).2 hsafe'
  refine ⟨db, b, a, found, db', _, hrun, hdb.keeps hready, hsearch, fun ⟨e, he, hname, hct⟩ ↦ ?_,
    hadd,
    hdb'.keeps hready'⟩
  obtain ⟨hf, q, hq, hqn, hus⟩ := hfind ⟨e, by simp [callsOf, he, hname], hname, hct⟩
  exact ⟨hf, q, hq, hqn, fun e' he' hn' hct' ↦ hus e' (by simp [callsOf, he', hn']) hn' hct'⟩

/-- Four names of one bucket, of which the second is stale when the third is called for with a
partial clean. -/
def sampleCleaning : List Call := [.plain [96, 132] 1 0 19, .plain [97, 99] 1 0 19,
  .plain [98, 66] 1 990 19, .plain [99, 33] 1 990 19] ++ [.plain [98, 66] 2 1000 0]

/-- The partial clean deletes the second record and finds the third; another one finds what was the
fourth. -/
theorem sampleCleaning_safe : SafeRun 2 60 (sampleCleaning ++ [.plain [99, 33] 2 1010 0]) := by
  refine SafeRun.concat (SafeRun.concat (.of_noClean ?_) ?_) ?_ <;> decide +kernel

theorem random_cleaning_stale_passed : ∃ db b a found db' ret,
    runTable 2 60 tableInit sampleCleaning = some db ∧
      db.Keeps sampleCleaning (1010 - 60) ∧
      searchName (db (nameHash [99, 33])) [99, 33] 1010 60 0 = some (b, a, found) ∧
      ((∃ e ∈ sampleCleaning, e.name = [99, 33] ∧ 1010 - 60 ≤ e.time) → found = true ∧
        ∃ q, b.mem.cell a = some q ∧ q.name = [99, 33] ∧
          ∀ e ∈ sampleCleaning, e.name = [99, 33] → 1010 - 60 ≤ e.time →
            ∃ u ∈ q.users, u.1 = e.user ∧ e.time ≤ u.2) ∧
      tableAdd db (Call.plain [99, 33] 2 1010 0).flow [99, 33] 2 60 ⟨0, true, true⟩ =
        some (db', ret) ∧
      db'.Keeps (sampleCleaning ++ [.plain [99, 33] 2 1010 0]) (1010 - 60) :=
  random_cleaning (k := 2) (c := .plain [99, 33] 2 1010 0) (by decide) (by decide) (by decide)
    (by decide)
    sampleCleaning_safe

/-- Three names of one bucket, the second of them stale: the partial clean deletes it on the way to
the third, the bound of its loop drops to the index, and the third is not found although it was seen
ten seconds ago. -/
theorem random_cleaning_fails : ¬∀ (k d : ℤ) (calls : List Call) (c : Call), 0 < d →
    Timed (calls ++ [c]) → (∀ e ∈ calls ++ [c], e.AllocOk) →
    (∃ e ∈ calls, e.name = c.name ∧ c.time - d ≤ e.time) → ∀ db b a found,
    runTable k d tableInit calls = some db →
    searchName (db (nameHash c.name)) c.name c.time d c.env.tsc = some (b, a, found) →
    found = true := by
  intro h
  let calls : List Call :=
    [.plain [97, 99] 1 0 19, .plain [98, 66] 1 0 19, .plain [99, 33] 1 990 19]
  have hfound : ((runTable 2 60 tableInit calls).bind fun db ↦
      (searchName (db (nameHash [99, 33])) [99, 33] 1000 60 0).map (·.2.2)) = some false := by
    decide +kernel
  obtain ⟨db, hdb, hfound⟩ := Option.bind_eq_some_iff.1 hfound
  obtain ⟨⟨b, a, found⟩, hsearch, rfl⟩ := Option.map_eq_some_iff.1 hfound
  have := h 2 60 calls (.plain [99, 33] 2 1000 0) (by decide) (by decide) (by decide)
    ⟨.plain [99, 33] 1 990 19, by simp [calls], rfl, by decide⟩ db b a _ hdb hsearch
  exact absurd this (by decide)

end AlphaMon
