import Mathlib.Data.Finset.Card
import Mathlib.Data.Finset.Image
import AlphaMon.TableRun

/-!
# The alpha guarantee

A name is left in clear when `table_add` returns at least `k_anon`.  What this is worth depends on
what the returned count counts.  Over any run the following holds of every record (`NameRec.Seen`):
its users are pairwise distinct slots, most recent first, and each was entered or refreshed by a
call with that name at the time the list shows.  From this, `reference_recent` is the whole
argument: a list that has grown past `k_anon` has just been pruned, so what is left was seen within
`k_delta`, and there are at least as many source addresses as slots.

A list of exactly `k_anon` users has not been pruned.  That is the one case in which the returned
count can include users not seen for `k_delta` seconds (`Call.StaleAtThreshold`), and the guarantee
holds of every call outside it (`alpha_guarantee`).
-/

set_option autoImplicit false

namespace AlphaMon

open Recency

/-! ## Where the users of a record come from -/

/-- The users of the record are distinct, sorted by time, and were seen with its name by the calls
so far. -/
structure NameRec.Seen (calls : List Call) (r : NameRec) : Prop where
  /-- No user occurs twice. -/
  nodup : (keys r.users).Nodup
  /-- The most recent user is the first. -/
  sorted : r.users.Pairwise fun u v ↦ v.2 ≤ u.2
  /-- Each user was seen with the name at the time the list shows. -/
  seen : ∀ u ∈ r.users, ∃ c ∈ calls, c.name = r.name ∧ c.user = u.1 ∧ c.time = u.2

namespace NameRec.Seen

variable {calls calls' : List Call} {r : NameRec} {c : Call} {us : List (ℕ × ℤ)} {k d : ℤ}

theorem mono (h : r.Seen calls) (hsub : calls ⊆ calls') : r.Seen calls' :=
  ⟨h.nodup, h.sorted, fun u hu ↦ (h.seen u hu).imp fun _ ⟨hc, hrest⟩ ↦ ⟨hsub hc, hrest⟩⟩

theorem nil (name : List UInt8) : NameRec.Seen calls ⟨name, []⟩ := ⟨by simp, by simp, by simp⟩

theorem expire {name : List UInt8} (h : Seen calls ⟨name, us⟩) (e : ℤ) :
    Seen calls ⟨name, Recency.expire e us⟩ :=
  ⟨nodup_keys_expire h.nodup e, h.sorted.sublist (expire_isPrefix e us).sublist,
    fun u hu ↦ h.seen u ((expire_isPrefix e us).subset hu)⟩

theorem recent (h : r.Seen calls) {t : ℤ} (ht : ∀ c ∈ calls, c.time ≤ t) : Recent t r.users := by
  refine ⟨fun u hu ↦ ?_, h.sorted⟩
  obtain ⟨c, hc, -, -, hct⟩ := h.seen u hu
  exact hct ▸ ht c hc

theorem touch (h : Seen calls ⟨c.name, us⟩) (ht : ∀ e ∈ calls, e.time ≤ c.time) :
    Seen (calls ++ [c]) ⟨c.name, Recency.touch c.user c.time us⟩ := by
  refine ⟨nodup_keys_touch h.nodup _ _, (recent_touch (h.recent ht) le_rfl c.user).2, fun u hu ↦ ?_⟩
  rcases mem_touch.1 hu with rfl | ⟨hu, -⟩
  · exact ⟨c, by simp, rfl, rfl, rfl⟩
  · obtain ⟨e, he, hrest⟩ := h.seen u hu
    exact ⟨e, by simp [he], hrest⟩

/-- **A reference keeps a record true to the calls**, the current one included. -/
theorem reference (h : Seen calls ⟨c.name, us⟩) (ht : ∀ e ∈ calls, e.time ≤ c.time) :
    Seen (calls ++ [c]) ⟨c.name, Names.reference k c.time d c.user us⟩ := by
  rw [Names.reference]
  split
  · exact (h.touch ht).expire _
  · exact h.touch ht

end NameRec.Seen

/-- **In every run all records are true to the calls.** -/
theorem NameTab.run_seen (k d : ℤ) {calls : List Call} (ht : Timed calls) (h : ℕ) :
    ∀ r ∈ (NameTab.empty.run k d calls h).recs, r.Seen calls := by
  induction calls using List.reverseRecOn with
  | nil => simp [empty]
  | append_singleton calls c ih =>
    have ih := ih ht.left
    by_cases he : h = nameHash c.name
    · subst he
      rw [run_concat_same]
      refine NameBucket.add_forall ih (fun r hr ↦ hr.expire _) (fun r hr ↦ hr.mono (by simp)) ?_ ?_
      · exact fun us hus ↦ hus.reference fun e he ↦ ht.le_last he
      · exact (NameRec.Seen.nil c.name).reference fun e he ↦ ht.le_last he
    · rw [run_concat_of_ne he]
      exact fun r hr ↦ (ih r hr).mono (by simp)

/-! ## What the count counts -/

/-- After a reference the list has exactly `k` users, and one of them was last seen before
`t - d`. -/
def StaleAt (k t d : ℤ) (h : ℕ) (us : List (ℕ × ℤ)) : Prop :=
  ((touch h t us).length : ℤ) = k ∧ ∃ u ∈ touch h t us, u.2 < t - d

instance (k t d : ℤ) (h : ℕ) (us : List (ℕ × ℤ)) : Decidable (StaleAt k t d h us) :=
  inferInstanceAs (Decidable (_ ∧ _))

/-- **A count that reaches the threshold counts recent users only**, unless it stops there with a
stale one. -/
theorem reference_recent {k t d : ℤ} {h : ℕ} {us : List (ℕ × ℤ)} (hus : Recent t us)
    (hstale : ¬StaleAt k t d h us) (hk : k ≤ (Names.reference k t d h us).length) :
    ∀ u ∈ Names.reference k t d h us, t - d ≤ u.2 := by
  rw [Names.reference] at hk ⊢
  split
  · -- past the threshold the list was pruned
    exact fun u hu ↦ ((mem_expire (recent_touch hus le_rfl h)).1 hu).2
  · next hlt =>
    rw [if_neg hlt] at hk
    intro u hu
    by_contra hold
    exact hstale ⟨le_antisymm (not_lt.1 hlt) hk, u, hu, not_le.1 hold⟩

/-- The sources passed with a name in the calls of a time window. -/
def sourcesIn (calls : List Call) (name : List UInt8) (t₁ t₂ : ℤ) : Finset (BitVec 128) :=
  ((calls.filter fun c ↦ c.name = name ∧ t₁ ≤ c.time ∧ c.time ≤ t₂).map (·.flow.source)).toFinset

theorem mem_sourcesIn {calls : List Call} {name : List UInt8} {t₁ t₂ : ℤ} {c : Call}
    (hc : c ∈ calls) (hname : c.name = name) (h₁ : t₁ ≤ c.time) (h₂ : c.time ≤ t₂) :
    c.flow.source ∈ sourcesIn calls name t₁ t₂ := by
  simp only [sourcesIn, List.mem_toFinset, List.mem_map, List.mem_filter, decide_eq_true_eq]
  exact ⟨c, ⟨hc, hname, h₁, h₂⟩, rfl⟩

/-- **There are at least as many sources as users**: two users are two slots, and a source has only
one slot. -/
theorem NameRec.Seen.length_le_card {calls : List Call} {r : NameRec} (h : r.Seen calls) {t₁ t₂ : ℤ}
    (h₁ : ∀ u ∈ r.users, t₁ ≤ u.2) (h₂ : ∀ c ∈ calls, c.time ≤ t₂) :
    r.users.length ≤ (sourcesIn calls r.name t₁ t₂).card := by
  have hsub : (keys r.users).toFinset ⊆
      (sourcesIn calls r.name t₁ t₂).image (getHashClient · maxClient) := by
    intro x hx
    obtain ⟨t, hu⟩ := mem_keys.1 (List.mem_toFinset.1 hx)
    obtain ⟨c, hc, hname, huser, htime⟩ := h.seen _ hu
    have hsrc := mem_sourcesIn hc hname (htime ▸ h₁ _ hu) (h₂ c hc)
    exact Finset.mem_image.2 ⟨_, hsrc, huser⟩
  calc r.users.length = (keys r.users).toFinset.card := by
        rw [List.toFinset_card_of_nodup h.nodup, keys, List.length_map]
    _ ≤ ((sourcesIn calls r.name t₁ t₂).image (getHashClient · maxClient)).card :=
        Finset.card_le_card hsub
    _ ≤ (sourcesIn calls r.name t₁ t₂).card := Finset.card_image_le

/-! ## The guarantee -/

/-- The call brings the users recorded for its name to exactly `k_anon` while one of them was last
seen before `t - k_delta`. -/
def Call.StaleAtThreshold (k d : ℤ) (db : HashStruct) (c : Call) : Prop :=
  StaleAt k c.time d c.user (db.usersOf c.name)

/-- **The alpha guarantee**: in every run whose names fit into a record, a call that returns at
least `k_anon` was preceded, itself included and within `k_delta`, by calls with its name from at
least `k_anon` sources, unless it is stale at the threshold. -/
theorem alpha_guarantee {k d : ℤ} (hd : 0 < d) {calls : List Call} {c : Call}
    (ht : Timed (calls ++ [c])) (hok : ∀ e ∈ calls ++ [c], e.AllocOk)
    (hfits : ∀ e ∈ calls ++ [c], e.Fits) :
    ∃ db db' ret, runTable k d tableInit calls = some db ∧
      tableAdd db c.flow c.name k d c.env = some (db', ret) ∧
      (¬c.StaleAtThreshold k d db → k ≤ ret →
        k ≤ (sourcesIn (calls ++ [c]) c.name (c.time - d) c.time).card) := by
  obtain ⟨db, hrun, hdb⟩ := runTable_spec view_tableInit hd.le
    (fun e he ↦ hok e (List.mem_append_left _ he)) fun e he ↦ hfits e (List.mem_append_left _ he)
  obtain ⟨db', hadd, -⟩ := tableAdd_spec hdb hd.le (hok c (by simp)) (hfits c (by simp))
  refine ⟨db, db', _, hrun, hadd, fun hstale hk ↦ ?_⟩
  have hseen := NameTab.run_seen k d ht.left (nameHash c.name)
  rw [Call.StaleAtThreshold, hdb.usersOf_eq] at hstale
  generalize NameTab.empty.run k d calls = T at *
  have hT : NameRec.Seen calls ⟨c.name, (T (nameHash c.name)).usersOf c.name⟩ := by
    rw [NameBucket.usersOf]
    split
    · next r hr =>
      have hname : r.name = c.name := by simpa using List.find?_some hr
      exact hname ▸ hseen r (List.mem_of_find?_eq_some hr)
    · exact .nil _
  obtain ⟨us, hret, hus⟩ := NameBucket.add_ret (T (nameHash c.name)) k d c.time c.user c.name
    (probability c.env.tsc)
  have hlast : ∀ e ∈ calls ++ [c], e.time ≤ c.time := by
    simpa [or_imp, forall_and] using fun e he ↦ ht.le_last he
  -- the record that was referenced, or a new one: both are true to the calls and not stale
  obtain ⟨hSeen, hns⟩ : NameRec.Seen calls ⟨c.name, us⟩ ∧ ¬StaleAt k c.time d c.user us := by
    rcases hus with rfl | rfl
    · exact ⟨hT, hstale⟩
    · refine ⟨.nil _, ?_⟩
      rintro ⟨_, u, hu, hold⟩
      obtain rfl : u = (c.user, c.time) := by simpa [touch] using hu
      simp only at hold
      omega
  have hk' : k ≤ (Names.reference k c.time d c.user us).length := hret ▸ hk
  have hrecent := reference_recent (hSeen.recent fun e he ↦ ht.le_last he) hns hk'
  have hcard := (hSeen.reference (k := k) (d := d) fun e he ↦ ht.le_last he).length_le_card hrecent
    hlast
  exact hk'.trans (by exact_mod_cast hcard)

/-- A call from an IPv4 source. -/
def Call.plain (name : List UInt8) (src : BitVec 32) (t : ℤ) (tsc : ℕ) : Call :=
  { flow := ⟨4, src, 0, 0, 0, 40000, 443, 6, t⟩, name := name, env := ⟨tsc, true, true⟩ }

/-- Two sources within the minute: the guarantee applies, and two is what it gives. -/
theorem alpha_guarantee_two_sources : ∃ db db' ret,
    runTable 2 60 tableInit [.plain [97] 1 0 19] = some db ∧
    tableAdd db (Call.plain [97] 2 10 19).flow [97] 2 60 ⟨19, true, true⟩ = some (db', ret) ∧
    (¬(Call.plain [97] 2 10 19).StaleAtThreshold 2 60 db → 2 ≤ ret →
      2 ≤ ((sourcesIn ([.plain [97] 1 0 19] ++ [.plain [97] 2 10 19]) [97] (10 - 60) 10).card :
        ℤ)) :=
  alpha_guarantee (k := 2) (c := .plain [97] 2 10 19) (by decide) (by decide) (by decide)
    (by decide)

/-- Two sources a quarter of an hour apart: the second call returns 2, although the first source was
last seen long before the minute that counts. -/
theorem alpha_guarantee_fails_at_threshold : ¬∀ (k d : ℤ) (calls : List Call) (c : Call), 1 ≤ k →
    0 < d → Timed (calls ++ [c]) → (∀ e ∈ calls ++ [c], e.AllocOk) → ∀ db db' ret,
    runTable k d tableInit calls = some db →
    tableAdd db c.flow c.name k d c.env = some (db', ret) → k ≤ ret →
    k ≤ (sourcesIn (calls ++ [c]) c.name (c.time - d) c.time).card := by
  intro h
  have hret : ((runTable 2 60 tableInit [.plain [97] 1 0 19]).bind fun db ↦
      (tableAdd db (Call.plain [97] 2 1000 19).flow [97] 2 60 ⟨19, true, true⟩).map Prod.snd) =
        some 2 := by
    decide +kernel
  obtain ⟨db, hdb, hret⟩ := Option.bind_eq_some_iff.1 hret
  obtain ⟨⟨db', ret⟩, hadd, rfl⟩ := Option.map_eq_some_iff.1 hret
  have hcard : (sourcesIn ([.plain [97] 1 0 19] ++ [.plain [97] 2 1000 19]) [97] (1000 - 60)
      1000).card = 1 := by
    decide +kernel
  have := h 2 60 [.plain [97] 1 0 19] (.plain [97] 2 1000 19) (by decide) (by decide) (by decide)
    (by decide) db db' 2 hdb hadd le_rfl
  exact absurd (hcard ▸ this) (by decide)

end AlphaMon
