import AlphaMon.NameTableSpec

/-!
# What a search does to its bucket

A search prunes and deletes the records it passes.  `NameBucket.Cleaned c s s'` says that `s'` is
`s` after some such cleaning with cutoff `c`: no record appears or changes its place, each record is
as it was or pruned, and a record that is gone had no user seen since `c`.  It is reflexive and
transitive, and every search, however it was drawn and wherever it stopped, only cleans
(`walk_cleaned`).

The other half is where a search stops.  The plain search always gets to the record of the name or
to the end of the chain (`plainWalk_found`, `plainWalk_after`).  The partial clean gets there when
the index it counts up and the count it counts down do not meet before (`partialWalk_found`,
`partialWalk_after`).
-/

set_option autoImplicit false

namespace AlphaMon

open Recency

/-- No user of the record was seen since `c`. -/
def NameRec.Stale (c : ℤ) (r : NameRec) : Prop := ∀ u ∈ r.users, u.2 < c

instance (c : ℤ) (r : NameRec) : Decidable (r.Stale c) := inferInstanceAs (Decidable (∀ u ∈ _, _))

/-- The record after a prune. -/
def NameRec.pruned (c : ℤ) (r : NameRec) : NameRec := ⟨r.name, expire c r.users⟩

theorem NameRec.expire_eq_nil_iff {c : ℤ} {r : NameRec} : expire c r.users = [] ↔ r.Stale c := by
  simp [expire, List.rdropWhile_eq_nil_iff, Stale]

@[simp] theorem NameRec.pruned_pruned (c : ℤ) (r : NameRec) :
    (r.pruned c).pruned c = r.pruned c := by
  simp [pruned, expire, List.rdropWhile_idempotent]

/-- Pruning only drops users not seen since `c`. -/
theorem NameRec.stale_of_pruned {c : ℤ} {r : NameRec} (h : (r.pruned c).Stale c) : r.Stale c := by
  rw [← expire_eq_nil_iff] at h ⊢
  simpa [pruned, expire, List.rdropWhile_idempotent] using h

/-! ## Cleaning -/

/-- `s'` is `s` after pruning some records with cutoff `c` and deleting some that this left
empty. -/
structure NameBucket.Cleaned (c : ℤ) (s s' : NameBucket) : Prop where
  /-- The names keep their order, and none is new. -/
  names : (s'.recs.map NameRec.name).Sublist (s.recs.map NameRec.name)
  /-- Each record was there, pruned or as it is. -/
  old : ∀ r' ∈ s'.recs, ∃ r ∈ s.recs, r' = r ∨ r' = r.pruned c
  /-- Each record is still there, pruned or as it was, unless it is stale. -/
  kept : ∀ r ∈ s.recs, r.Stale c ∨ r ∈ s'.recs ∨ r.pruned c ∈ s'.recs
  /-- The count follows the number of records. -/
  number : s'.number - s'.recs.length = s.number - s.recs.length

namespace NameBucket.Cleaned

variable {c : ℤ} {s s' s'' : NameBucket} {n : ℤ} {l l' : List NameRec} {x : NameRec}

theorem refl (c : ℤ) (s : NameBucket) : s.Cleaned c s :=
  ⟨.refl _, fun r hr ↦ ⟨r, hr, .inl rfl⟩, fun _ hr ↦ .inr (.inl hr), rfl⟩

theorem trans (h : s.Cleaned c s') (h' : s'.Cleaned c s'') : s.Cleaned c s'' := by
  refine ⟨h'.names.trans h.names, fun r'' hr'' ↦ ?_, fun r hr ↦ ?_, h'.number.trans h.number⟩
  · obtain ⟨r', hr', he'⟩ := h'.old r'' hr''
    obtain ⟨r, hr, he⟩ := h.old r' hr'
    refine ⟨r, hr, ?_⟩
    rcases he' with rfl | rfl <;> rcases he with rfl | rfl <;> simp
  · rcases h.kept r hr with hs | hr | hr
    · exact .inl hs
    · exact h'.kept r hr
    · rcases h'.kept _ hr with hs | hr | hr
      · exact .inl (NameRec.stale_of_pruned hs)
      · exact .inr (.inr hr)
      · exact .inr (.inr (by simpa using hr))

/-- Pruning one record is a cleaning. -/
theorem prune : Cleaned c ⟨n, l ++ x :: l'⟩ ⟨n, l ++ x.pruned c :: l'⟩ := by
  refine ⟨by simp [NameRec.pruned], fun r hr ↦ ?_, fun r hr ↦ ?_, by simp⟩
  · simp only [List.mem_append, List.mem_cons] at hr ⊢
    rcases hr with hr | rfl | hr
    · exact ⟨r, .inl hr, .inl rfl⟩
    · exact ⟨x, .inr (.inl rfl), .inr rfl⟩
    · exact ⟨r, .inr (.inr hr), .inl rfl⟩
  · simp only [List.mem_append, List.mem_cons] at hr ⊢
    rcases hr with hr | rfl | hr
    · exact .inr (.inl (.inl hr))
    · exact .inr (.inr (.inr (.inl rfl)))
    · exact .inr (.inl (.inr (.inr hr)))

/-- Deleting a stale record is a cleaning. -/
theorem delete (hx : x.Stale c) : Cleaned c ⟨n, l ++ x :: l'⟩ ⟨n - 1, l ++ l'⟩ := by
  refine ⟨?_, fun r hr ↦ ⟨r, ?_, .inl rfl⟩, fun r hr ↦ ?_, ?_⟩
  · exact (((List.sublist_cons_self x l').append_left l).map _)
  · simp only [List.mem_append, List.mem_cons] at hr ⊢
    exact hr.imp_right .inr
  · simp only [List.mem_append, List.mem_cons] at hr ⊢
    rcases hr with hr | rfl | hr
    · exact .inr (.inl (.inl hr))
    · exact .inl hx
    · exact .inr (.inl (.inr hr))
  · simp only [List.length_append, List.length_cons]
    push_cast
    omega

end NameBucket.Cleaned

variable {name : List UInt8} {c : ℤ}

theorem plainWalk_bucket (name : List UInt8) (n : ℤ) :
    ∀ (left : ℕ) (before : List NameRec) (cur : NameRec) (after : List NameRec),
    (plainWalk name n left before cur after).bucket =
      ⟨n, before ++ cur :: after⟩
  | 0, _, _, _ => rfl
  | _ + 1, _, _, [] => rfl
  | left + 1, before, cur, nx :: after => by
    rw [plainWalk]
    split
    · rfl
    · simpa using plainWalk_bucket name n left (before ++ [cur]) nx after

theorem partialWalk_cleaned : ∀ (after : List NameRec) (i : ℕ) (n : ℤ) (before : List NameRec)
    (cur : NameRec), NameBucket.Cleaned c ⟨n, before ++ cur :: after⟩
      (partialWalk name c i n before cur after).bucket
  | [], _, _, _, _ => .refl ..
  | nx :: after, i, n, before, cur => by
    rw [partialWalk]
    split
    swap
    · exact .refl ..
    split
    · exact .refl ..
    split
    · simpa using partialWalk_cleaned after (i + 1) n (before ++ [cur]) nx
    split
    · next hexp =>
      have h := partialWalk_cleaned after (i + 1) (n - 1) before nx
      exact (NameBucket.Cleaned.delete (NameRec.expire_eq_nil_iff.1 hexp)).trans h
    · have h := partialWalk_cleaned after (i + 1) n (before ++ [cur.pruned c]) nx
      rw [List.append_assoc, List.singleton_append] at h
      exact NameBucket.Cleaned.prune.trans h

/-- **Every search only cleans.** -/
theorem walk_cleaned (name : List UInt8) (c : ℤ) (p : ℕ) (n : ℤ) (cur : NameRec)
    (after : List NameRec) :
    NameBucket.Cleaned c ⟨n, cur :: after⟩ (walk name c p n cur after).bucket := by
  rw [walk]
  split
  · have h := plainWalk_bucket name n n.toNat [] cur after
    rw [List.nil_append] at h
    exact h ▸ .refl ..
  · exact partialWalk_cleaned after 0 n [] cur

/-! ## Where a search stops -/

theorem plainWalk_find (n : ℤ) : ∀ (left : ℕ) (before : List NameRec) (cur : NameRec)
    (after : List NameRec), (plainWalk name n left before cur after).found = true →
      (cur :: after).find? (·.name = name) = some (plainWalk name n left before cur after).cur
  | 0, _, _, _, h => by simp [plainWalk] at h
  | _ + 1, _, cur, [], h => by simpa [plainWalk] using h
  | left + 1, before, cur, nx :: after, h => by
    rw [plainWalk] at h ⊢
    by_cases hn : cur.name = name
    · simp [hn]
    · rw [if_neg hn] at h ⊢
      rw [List.find?_cons_of_neg (by simpa using hn)]
      exact plainWalk_find n left _ nx after h

theorem partialWalk_find : ∀ (after : List NameRec) (i : ℕ) (n : ℤ) (before : List NameRec)
    (cur : NameRec), (partialWalk name c i n before cur after).found = true →
      (cur :: after).find? (·.name = name) =
        some (partialWalk name c i n before cur after).cur
  | [], i, n, before, cur, h => by
    simp only [partialWalk, decide_eq_true_eq] at h
    simpa [partialWalk] using h.2
  | nx :: after, i, n, before, cur, h => by
    rw [partialWalk] at h ⊢
    by_cases hi : (i : ℤ) < n
    swap
    · simp [hi] at h
    by_cases hn : cur.name = name
    · simp [hi, hn]
    rw [if_pos hi, if_neg hn] at h ⊢
    rw [List.find?_cons_of_neg (by simpa using hn)]
    split at h
    · next h0 => rw [if_pos h0]; exact partialWalk_find after _ _ _ nx h
    · next h0 =>
      rw [if_neg h0]
      split at h
      · next hexp => rw [if_pos hexp]; exact partialWalk_find after _ _ _ nx h
      · next hexp => rw [if_neg hexp]; exact partialWalk_find after _ _ _ nx h

/-- **A search that finds a record finds the first one with its name.** -/
theorem walk_find (name : List UInt8) (c : ℤ) (p : ℕ) (n : ℤ) (cur : NameRec) (after : List NameRec)
    (h : (walk name c p n cur after).found = true) :
    (cur :: after).find? (·.name = name) = some (walk name c p n cur after).cur := by
  rw [walk] at h ⊢
  split at h
  · next hp => rw [if_pos hp]; exact plainWalk_find _ _ _ _ _ h
  · next hp => rw [if_neg hp]; exact partialWalk_find _ _ _ _ _ h

theorem plainWalk_found (n : ℤ) : ∀ (left : ℕ) (before : List NameRec) (cur : NameRec)
    (after : List NameRec), (cur :: after).length ≤ left → (∃ r ∈ cur :: after, r.name = name) →
      (plainWalk name n left before cur after).found = true
  | 0, _, _, _, hl, _ => absurd hl (by simp)
  | _ + 1, _, cur, [], _, h => by simpa [plainWalk] using h
  | left + 1, before, cur, nx :: after, hl, h => by
    rw [plainWalk]
    split
    · rfl
    · next hn =>
      refine plainWalk_found n left _ nx after (by simpa using hl) ?_
      obtain ⟨r, hr, hrn⟩ := h
      rcases List.mem_cons.1 hr with rfl | hr
      · exact absurd hrn hn
      · exact ⟨r, hr, hrn⟩

theorem plainWalk_after (n : ℤ) : ∀ (left : ℕ) (before : List NameRec) (cur : NameRec)
    (after : List NameRec), (cur :: after).length ≤ left → (∀ r ∈ cur :: after, r.name ≠ name) →
      (plainWalk name n left before cur after).after = []
  | 0, _, _, _, hl, _ => absurd hl (by simp)
  | _ + 1, _, _, [], _, _ => rfl
  | left + 1, before, cur, nx :: after, hl, h => by
    rw [plainWalk, if_neg (h cur (by simp))]
    exact plainWalk_after n left _ nx after (by simpa using hl) fun r hr ↦
      h r (List.mem_cons_of_mem _ hr)

/-- The stale records a partial clean has passed, and deleted, when it gets to position `q`: it
spares the first. -/
def passedStale (c : ℤ) (recs : List NameRec) (q : ℕ) : ℕ :=
  ((recs.take q).drop 1).countP fun r ↦ r.Stale c

/-- From the second record on, the partial clean finds the first record with the name if the index
it has there is below the count that is left. -/
theorem partialWalk_found_succ : ∀ (after : List NameRec) (i : ℕ) (n : ℤ) (before : List NameRec)
    (cur : NameRec) (q : ℕ), i ≠ 0 → (cur :: after).findIdx (·.name = name) = q →
      q < (cur :: after).length →
      ((i + q + ((cur :: after).take q).countP fun r ↦ r.Stale c : ℕ) : ℤ) < n →
      (partialWalk name c i n before cur after).found = true
  | [], i, n, before, cur, q, _, hq, hlt, hn => by
    obtain rfl : q = 0 := by simpa using hlt
    have hname : cur.name = name := by
      by_contra hne
      simp [List.findIdx_cons, hne] at hq
    simpa [partialWalk, hname] using hn
  | nx :: after, i, n, before, cur, q, hi, hq, hlt, hn => by
    rw [partialWalk, if_pos (by omega)]
    by_cases hname : cur.name = name
    · rw [if_pos hname]
    rw [if_neg hname, if_neg hi]
    rw [List.findIdx_cons] at hq
    simp only [hname, decide_false, cond_false] at hq
    obtain ⟨q, rfl⟩ : ∃ q', q = q' + 1 := ⟨_, hq.symm⟩
    have hq' : (nx :: after).findIdx (·.name = name) = q := by simpa using hq
    have hlt' : q < (nx :: after).length := by simpa using hlt
    rw [List.take_succ_cons, List.countP_cons] at hn
    split
    · next hexp =>
      rw [NameRec.expire_eq_nil_iff] at hexp
      simp only [hexp, decide_true, if_true] at hn
      exact partialWalk_found_succ after _ _ _ nx q (by omega) hq' hlt'
        (by push_cast at hn ⊢; omega)
    · next hexp =>
      rw [NameRec.expire_eq_nil_iff] at hexp
      simp only [hexp, decide_false, Bool.false_eq_true, if_false] at hn
      exact partialWalk_found_succ after _ _ _ nx q (by omega) hq' hlt'
        (by push_cast at hn ⊢; omega)

/-- **The partial clean finds the first record with the name** if the index it has there is below
the count that is left. -/
theorem partialWalk_found {n : ℤ} {cur : NameRec} {after : List NameRec} {q : ℕ}
    (hq : (cur :: after).findIdx (·.name = name) = q) (hlt : q < (cur :: after).length)
    (hn : ((q + passedStale c (cur :: after) q : ℕ) : ℤ) < n) :
    (partialWalk name c 0 n [] cur after).found = true := by
  cases after with
  | nil =>
    obtain rfl : q = 0 := by simpa using hlt
    have hname : cur.name = name := by
      by_contra hne
      simp [List.findIdx_cons, hne] at hq
    simpa [partialWalk, hname, passedStale] using hn
  | cons nx after =>
    rw [partialWalk, if_pos (by push_cast at hn ⊢; omega)]
    by_cases hname : cur.name = name
    · rw [if_pos hname]
    rw [if_neg hname, if_pos rfl]
    rw [List.findIdx_cons] at hq
    simp only [hname, decide_false, cond_false] at hq
    obtain ⟨q, rfl⟩ : ∃ q', q = q' + 1 := ⟨_, hq.symm⟩
    refine partialWalk_found_succ after _ _ _ nx q (by omega) (by simpa using hq)
      (by simpa using hlt) ?_
    simp only [passedStale, List.take_succ_cons, List.drop_one, List.tail_cons] at hn
    push_cast at hn ⊢
    omega

/-- From the second record on, the partial clean gets to the end of a chain without the name if the
index it has at the last record but one is below the count that is left. -/
theorem partialWalk_after_succ : ∀ (after : List NameRec) (i : ℕ) (n : ℤ) (before : List NameRec)
    (cur : NameRec), i ≠ 0 → (∀ r ∈ cur :: after, r.name ≠ name) →
      (after ≠ [] → ((i + (after.length - 1) +
        ((cur :: after).take (after.length - 1)).countP fun r ↦ r.Stale c : ℕ) : ℤ) < n) →
      (partialWalk name c i n before cur after).after = []
  | [], _, _, _, _, _, _, _ => rfl
  | nx :: after, i, n, before, cur, hi, hname, hn => by
    have hn := hn (by simp)
    rw [List.length_cons, Nat.add_sub_cancel] at hn
    rw [partialWalk, if_pos (by push_cast at hn; omega), if_neg (hname cur (by simp)), if_neg hi]
    have hname' : ∀ r ∈ nx :: after, r.name ≠ name := fun r hr ↦ hname r (List.mem_cons_of_mem _ hr)
    split
    · next hexp =>
      rw [NameRec.expire_eq_nil_iff] at hexp
      refine partialWalk_after_succ after _ _ _ nx (by omega) hname' fun hne ↦ ?_
      obtain ⟨m, hm⟩ := Nat.exists_eq_succ_of_ne_zero (mt List.length_eq_zero_iff.1 hne)
      rw [hm] at hn ⊢
      simp only [List.take_succ_cons, List.countP_cons, hexp, decide_true, if_true] at hn
      simp only [Nat.succ_eq_add_one, Nat.add_sub_cancel]
      push_cast at hn ⊢
      omega
    · next hexp =>
      rw [NameRec.expire_eq_nil_iff] at hexp
      refine partialWalk_after_succ after _ _ _ nx (by omega) hname' fun hne ↦ ?_
      obtain ⟨m, hm⟩ := Nat.exists_eq_succ_of_ne_zero (mt List.length_eq_zero_iff.1 hne)
      rw [hm] at hn ⊢
      simp only [List.take_succ_cons, List.countP_cons, hexp, decide_false, Bool.false_eq_true,
        if_false] at hn
      simp only [Nat.succ_eq_add_one, Nat.add_sub_cancel]
      push_cast at hn ⊢
      omega

/-- **The partial clean gets to the end** of a chain without the name if the index it has at the
last record but one is below the count that is left. -/
theorem partialWalk_after {n : ℤ} {cur : NameRec} {after : List NameRec}
    (hname : ∀ r ∈ cur :: after, r.name ≠ name)
    (hn : ((after.length - 1 + passedStale c (cur :: after) (after.length - 1) : ℕ) : ℤ) < n) :
    (partialWalk name c 0 n [] cur after).after = [] := by
  cases after with
  | nil => rfl
  | cons nx after =>
    rw [List.length_cons, Nat.add_sub_cancel] at hn
    rw [partialWalk, if_pos (by push_cast at hn ⊢; omega), if_neg (hname cur (by simp)), if_pos rfl]
    have hname' : ∀ r ∈ nx :: after, r.name ≠ name := fun r hr ↦ hname r (List.mem_cons_of_mem _ hr)
    refine partialWalk_after_succ after _ _ _ nx (by omega) hname' fun hne ↦ ?_
    obtain ⟨m, hm⟩ := Nat.exists_eq_succ_of_ne_zero (mt List.length_eq_zero_iff.1 hne)
    rw [hm] at hn ⊢
    simp only [passedStale, List.take_succ_cons, List.drop_one, List.tail_cons] at hn
    simp only [Nat.succ_eq_add_one, Nat.add_sub_cancel]
    push_cast at hn ⊢
    omega

/-- The search for `name` on the draw `p` gets to the record of the name, or to the end of the
chain if there is none: either the draw does not clean, or the index the loop counts up is still
below the count it lowers when it gets to the last record it has to look at. -/
def NameBucket.CleanSafe (name : List UInt8) (c : ℤ) (p : ℕ) (s : NameBucket) : Prop :=
  let q := if ∃ r ∈ s.recs, r.name = name then s.recs.findIdx (·.name = name) else s.recs.length - 2
  p < 33 ∨ s.recs = [] ∨ ((q + passedStale c s.recs q : ℕ) : ℤ) < s.number

instance (name : List UInt8) (c : ℤ) (p : ℕ) (s : NameBucket) : Decidable (s.CleanSafe name c p) :=
  inferInstanceAs (Decidable (_ ∨ _ ∨ _))

/-- **A safe search finds the name if it is there.** -/
theorem walk_found {p : ℕ} {n : ℤ} {cur : NameRec} {after : List NameRec}
    (hs : NameBucket.CleanSafe name c p ⟨n, cur :: after⟩) (hn : ((cur :: after).length : ℤ) ≤ n)
    (h : ∃ r ∈ cur :: after, r.name = name) : (walk name c p n cur after).found = true := by
  rw [walk]
  split
  · exact plainWalk_found _ _ _ _ _ (by omega) h
  · next hp =>
    rw [NameBucket.CleanSafe] at hs
    simp only [if_pos h, hp, reduceCtorEq, false_or] at hs
    exact partialWalk_found rfl (List.findIdx_lt_length.2 (by simpa using h)) hs

/-- **A safe search gets to the end of a chain without the name.** -/
theorem walk_after {p : ℕ} {n : ℤ} {cur : NameRec} {after : List NameRec}
    (hs : NameBucket.CleanSafe name c p ⟨n, cur :: after⟩) (hn : ((cur :: after).length : ℤ) ≤ n)
    (h : ∀ r ∈ cur :: after, r.name ≠ name) : (walk name c p n cur after).after = [] := by
  rw [walk]
  split
  · exact plainWalk_after _ _ _ _ _ (by omega) h
  · next hp =>
    have h' : ¬∃ r ∈ cur :: after, r.name = name := by
      rintro ⟨r, hr, he⟩
      exact h r hr he
    rw [NameBucket.CleanSafe] at hs
    simp only [if_neg h', hp, reduceCtorEq, false_or] at hs
    exact partialWalk_after h hs

end AlphaMon
