import AlphaMon.RandomCleaning
import AlphaMon.Runs.Partial

/-!
# Any call of the table of names

A call of `table_add` can be made with any threshold and any `k_delta`, and its two allocations can
fail (`NameBucket.tryAdd`).  In a bucket with no name twice and as many records as it counts, a call
whose search gets where it has to get does one of three things (`NameBucket.TryAdded`): it
references the caller in the record of the name, in a new record behind all others, or nowhere, when
there is no memory for that record.
-/

set_option autoImplicit false

namespace AlphaMon

open Recency

variable {b : Bucket} {k d t : ℤ} {f : Flow} {name : List UInt8} {h : ℕ} {env : TableEnv}
  {s s' : NameBucket}

/-! ## What a safe call does -/

/-- What a call has done that leaves `s'` and returns `ret`, when its search got where it has to
get. -/
inductive NameBucket.TryAdded (k d t : ℤ) (h : ℕ) (name : List UInt8) (env : TableEnv)
    (s : NameBucket) :
    NameBucket → ℤ → Prop
  /-- The caller was referenced in the record of the name. -/
  | found {s₁ : NameBucket} {l l' : List NameRec} {us' : List (ℕ × ℤ)}
    (hclean : s.Cleaned (t - d) s₁)
      (hrecs : s₁.recs = l ++ ⟨name, s.usersOf name⟩ :: l')
      (htry : Names.tryReference env.allocLru k t d h (s.usersOf name) = some us') :
      TryAdded k d t h name env s ⟨s₁.number, l ++ ⟨name, us'⟩ :: l'⟩ us'.length
  /-- The caller was referenced in a new record, the last of the chain. -/
  | new {s₁ : NameBucket} {us' : List (ℕ × ℤ)} (hclean : s.Cleaned (t - d) s₁)
      (habsent : ∀ r ∈ s.recs, r.name ≠ name)
      (htry : Names.tryReference env.allocLru k t d h [] = some us') :
      TryAdded k d t h name env s ⟨s₁.number + 1, s₁.recs ++ [⟨name, us'⟩]⟩ us'.length
  /-- There was no memory for a record. -/
  | noMemory {s₁ : NameBucket} (hclean : s.Cleaned (t - d) s₁)
    (habsent : ∀ r ∈ s.recs, r.name ≠ name) :
      TryAdded k d t h name env s s₁ 0

theorem NameBucket.usersOf_eq_nil (h : ∀ r ∈ s.recs, r.name ≠ name) : s.usersOf name = [] := by
  have hfind : s.recs.find? (·.name = name) = none := List.find?_eq_none.2 (by simpa using h)
  rw [usersOf, hfind]

/-- Where a search has stopped that got where it has to get. -/
structure Stop.Right (name : List UInt8) (c : ℤ) (s : NameBucket) (w : Stop) : Prop where
  /-- On the way there it has only cleaned. -/
  clean : s.Cleaned c w.bucket
  /-- The record found is the one of the name. -/
  find : w.found = true → s.recs.find? (·.name = name) = some w.cur
  /-- A record of the name is found. -/
  found : (∃ r ∈ s.recs, r.name = name) → w.found = true
  /-- Otherwise the search has come to the end. -/
  last : (∀ r ∈ s.recs, r.name ≠ name) → w.after = []

theorem walk_right {n : ℤ} {cur : NameRec} {after : List NameRec} {c : ℤ} {p : ℕ}
    (hs : NameBucket.Exact ⟨n, cur :: after⟩)
    (hsafe : NameBucket.CleanSafe name c p ⟨n, cur :: after⟩) :
    (walk name c p n cur after).Right name c ⟨n, cur :: after⟩ :=
  ⟨walk_cleaned name c p n cur after, walk_find name c p n cur after, walk_found hsafe hs.number.ge,
    walk_after hsafe hs.number.ge⟩

/-- What is done where a search has stopped. -/
theorem Stop.Right.tryAdd_cases {w : Stop} {ret : ℤ} (hw : w.Right name (t - d) s)
    (hrun : w.tryAdd k d t h name env = some (s', ret)) : s.TryAdded k d t h name env s' ret := by
  rw [Stop.tryAdd] at hrun
  split at hrun
  · next hf =>
    have hcur := hw.find hf
    have hname : w.cur.name = name := by simpa using List.find?_some hcur
    have husers : s.usersOf name = w.cur.users := by rw [NameBucket.usersOf, hcur]
    obtain ⟨us, hus, heq⟩ := Option.map_eq_some_iff.1 hrun
    obtain ⟨rfl, rfl⟩ := Prod.mk.inj heq
    rw [hname]
    refine .found hw.clean ?_ (by rw [husers]; exact hus)
    rw [husers, Stop.bucket, Stop.recs, ← hname]
  next hf =>
  have habsent : ∀ r ∈ s.recs, r.name ≠ name := fun r hr he ↦ hf (hw.found ⟨r, hr, he⟩)
  have hrecs : w.before ++ [w.cur] = w.recs := by rw [Stop.recs, hw.last habsent]
  split at hrun
  · obtain ⟨r, hr, heq⟩ := Option.map_eq_some_iff.1 hrun
    obtain ⟨rfl, rfl⟩ := Prod.mk.inj heq
    obtain ⟨-, us, hus, rfl⟩ := NameRec.tryNew_eq_some.1 hr
    have hlast : w.before ++ [w.cur, ⟨name, us⟩] = w.recs ++ [⟨name, us⟩] := by simp [← hrecs]
    rw [hlast]
    exact .new hw.clean habsent hus
  · obtain ⟨rfl, rfl⟩ := Prod.mk.inj (Option.some.inj hrun)
    exact .noMemory hw.clean habsent

/-- **A safe call that returns** has done one of these things. -/
theorem NameBucket.tryAdd_cases {ret : ℤ} (hs : s.Exact)
    (hsafe : s.CleanSafe name (t - d) (probability env.tsc))
    (hrun : s.tryAdd k d t h name env = some (s', ret)) : s.TryAdded k d t h name env s' ret := by
  obtain ⟨n, recs⟩ := s
  cases recs with
  | nil =>
    obtain ⟨r, hr, heq⟩ := Option.map_eq_some_iff.1 hrun
    obtain ⟨rfl, rfl⟩ := Prod.mk.inj heq
    obtain ⟨-, us, hus, rfl⟩ := NameRec.tryNew_eq_some.1 hr
    exact .new (.refl ..) (by simp) hus
  | cons cur after => exact (walk_right hs hsafe).tryAdd_cases hrun

namespace NameBucket.TryAdded

variable {ret : ℤ}

/-- The chain stays without double names, and the count stays right. -/
theorem exact (hadd : s.TryAdded k d t h name env s' ret) (hs : s.Exact) : s'.Exact := by
  cases hadd with
  | @found s₁ l l' us' hclean hrecs htry =>
    obtain ⟨hnames, hnumber⟩ := hclean.exact hs
    rw [hrecs] at hnames hnumber
    exact ⟨by simpa using hnames, by simpa using hnumber⟩
  | @new s₁ us' hclean habsent htry =>
    obtain ⟨hnames, hnumber⟩ := hclean.exact hs
    refine ⟨?_, by simp [hnumber]⟩
    rw [List.map_append, List.nodup_append]
    refine ⟨hnames, by simp, fun x hx y hy ↦ ?_⟩
    rw [List.map_singleton, List.mem_singleton] at hy
    rintro rfl
    obtain ⟨r, hr, hname⟩ := List.mem_map.1 (hclean.names.subset hx)
    exact habsent r hr (hname.trans hy)
  | noMemory hclean _ => exact hclean.exact hs

/-- Every name was there or is the one of the call. -/
theorem name_mem (hadd : s.TryAdded k d t h name env s' ret) {r : NameRec} (hr : r ∈ s'.recs) :
    r.name = name ∨ r.name ∈ s.recs.map NameRec.name := by
  cases hadd with
  | @found s₁ l l' us' hclean hrecs htry =>
    rw [List.mem_append, List.mem_cons] at hr
    have hold : r ∈ l ∨ r ∈ l' → r.name ∈ s.recs.map NameRec.name := fun h ↦ by
      refine hclean.names.subset (List.mem_map_of_mem ?_)
      rw [hrecs]
      exact h.elim (List.mem_append_left _) fun h ↦
        List.mem_append_right _ (List.mem_cons_of_mem _ h)
    rcases hr with hr | rfl | hr
    · exact .inr (hold (.inl hr))
    · exact .inl rfl
    · exact .inr (hold (.inr hr))
  | @new s₁ us' hclean habsent htry =>
    rcases List.mem_append.1 hr with hr | hr
    · exact .inr (hclean.names.subset (List.mem_map_of_mem hr))
    · exact .inl (congrArg NameRec.name (List.mem_singleton.1 hr))
  | noMemory hclean _ => exact .inr (hclean.names.subset (List.mem_map_of_mem hr))

end NameBucket.TryAdded

end AlphaMon
