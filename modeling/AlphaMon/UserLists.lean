import AlphaMon.Lru
import AlphaMon.Runs.Partial

/-!
# Runs on a user list

A run on the user list of a name is a list of calls of `referencePage` and `prune`.  `UserList` says
what the list is after it: the nodes are linked both ways and indexed, no client occurs twice, the
times are those of the last references and do not increase from the head to the tail, and whoever
was referenced in the last `k_delta` seconds is there.

`user_list_invariant` says that this holds after every run that starts with an empty list, as long
as time does not go back and `prune` is not called on an empty list, and what a `referencePage`
leaves besides.
-/

set_option autoImplicit false

namespace AlphaMon

open Recency

/-- A call on a user list; the allocation it may make succeeds. -/
inductive UserCall where
  | referencePage (flowRecv : Flow) (hashVal : ℕ) (kAnon : ℤ)
  | prune (timestamp : ℤ)

namespace UserCall

/-- The time of a call. -/
def time : UserCall → ℤ
  | .referencePage flowRecv _ _ => flowRecv.timestamp
  | .prune timestamp => timestamp

/-- The client a call references. -/
def client : UserCall → Option ℕ
  | .referencePage _ hashVal _ => some hashVal
  | .prune _ => none

/-- The call. -/
def run (kDelta : ℤ) (q : Names) : UserCall → Option Names
  | .referencePage flowRecv hashVal kAnon =>
    AlphaMon.referencePage true q flowRecv hashVal kAnon kDelta
  | .prune timestamp => AlphaMon.prune q timestamp kDelta

/-- The call as a step of a run. -/
def step (kDelta : ℤ) (c : UserCall) (q : Names) : Option (Names × Unit) :=
  (c.run kDelta q).map (·, ())

/-- A client has a slot, and `prune` is called on lists that are not empty. -/
def Allowed (q : Names) : UserCall → Prop
  | .referencePage _ hashVal _ => hashVal < maxClient
  | .prune _ => q.nEntry ≠ 0

end UserCall

/-- When a client was referenced last. -/
def lastReference (calls : List UserCall) (h : ℕ) : Option ℤ :=
  (calls.reverse.find? (·.client = some h)).map UserCall.time

/-- The nodes `l` are the user list of `q` after the calls. -/
structure UserList (kDelta : ℤ) (calls : List UserCall) (q : Names) (l : List (ℕ × ℕ × ℤ)) :
    Prop where
  /-- The list and the index are well formed, and `n_entry` counts the nodes. -/
  holds : q.Holds l
  /-- There are no more nodes than clients. -/
  size : l.length ≤ maxClient
  /-- The times do not increase from the head to the tail. -/
  sorted : l.Pairwise fun p p' ↦ p'.2.2 ≤ p.2.2
  /-- The time of a node is that of the client's last reference. -/
  last : ∀ p ∈ l, lastReference calls p.2.1 = some p.2.2
  /-- Every client referenced in the last `k_delta` seconds is in the list. -/
  recent : ∀ c ∈ calls.getLast?, ∀ h t, lastReference calls h = some t → c.time - kDelta ≤ t →
    ∃ p ∈ l, p.2.1 = h

/-- What a reference of the client `h` at a time leaves, made in the state `q`: a list that is not
empty and, if there were more than `k_anon` clients before the pruning, no client older than
`k_delta`. -/
def AfterReference (kDelta : ℤ) (q : Names) (l : List (ℕ × ℕ × ℤ)) (flowRecv : Flow) (h : ℕ)
    (kAnon : ℤ) : Prop :=
  l ≠ [] ∧ ∀ q₁, touchPage true q flowRecv h = some q₁ → q₁.nEntry > kAnon →
    ∀ p ∈ l, flowRecv.timestamp - kDelta ≤ p.2.2

/-! ## The users -/

variable {d : ℤ} {calls : List UserCall} {c : UserCall} {us : List (ℕ × ℤ)} {q : Names} {h : ℕ}

theorem lastReference_nil (h : ℕ) : lastReference [] h = none := rfl

theorem lastReference_concat (calls : List UserCall) (c : UserCall) (h : ℕ) :
    lastReference (calls ++ [c]) h = if c.client = some h then some c.time
      else lastReference calls h := by
  rw [lastReference, List.reverse_append, List.reverse_singleton, List.singleton_append,
    List.find?_cons]
  split_ifs with hc <;> simp [hc, lastReference]

theorem lastReference_concat_of_ne (hc : c.client ≠ some h) (calls : List UserCall) :
    lastReference (calls ++ [c]) h = lastReference calls h := by
  rw [lastReference_concat, if_neg hc]

theorem UserCall.client_ne {h' : ℕ} (hne : h' ≠ h) (f : Flow) (k : ℤ) :
    (UserCall.referencePage f h k).client ≠ some h' := fun he ↦ hne (Option.some.inj he).symm

/-- The users that the calls leave, the last of which is at time `now`. -/
structure UsersAfter (d : ℤ) (calls : List UserCall) (now : ℤ) (us : List (ℕ × ℤ)) : Prop where
  recent : Recent now us
  slot : ∀ p ∈ us, p.1 < maxClient
  last : ∀ p ∈ us, lastReference calls p.1 = some p.2
  /-- Who is not in the list has not been seen for `d` seconds. -/
  gone : ∀ h t, lastReference calls h = some t → h ∉ keys us → t < now - d

/-- What a call does to the users. -/
def UserCall.apply (d : ℤ) (us : List (ℕ × ℤ)) : UserCall → List (ℕ × ℤ)
  | .referencePage flowRecv hashVal kAnon => Names.reference kAnon flowRecv.timestamp d hashVal us
  | .prune timestamp => expire (timestamp - d) us

/-- Expired users go. -/
theorem UsersAfter.expire {now : ℤ} (hus : UsersAfter d calls now us) :
    UsersAfter d calls now (expire (now - d) us) where
  recent := recent_expire hus.recent _
  slot p hp := hus.slot p ((expire_isPrefix _ us).subset hp)
  last p hp := hus.last p ((expire_isPrefix _ us).subset hp)
  gone h t ht hmem := by
    by_cases hin : h ∈ keys us
    · obtain ⟨s, hs⟩ := mem_keys.1 hin
      obtain rfl : s = t := Option.some.inj ((hus.last _ hs).symm.trans ht)
      by_contra hle
      exact hmem (mem_keys.2 ⟨s, (mem_expire hus.recent).2 ⟨hs, not_lt.1 hle⟩⟩)
    · exact hus.gone h t ht hin

/-- Time passes. -/
theorem UsersAfter.mono {now t : ℤ} (hus : UsersAfter d calls now us) (ht : now ≤ t) :
    UsersAfter d calls t us where
  recent := ⟨fun p hp ↦ (hus.recent.1 p hp).trans ht, hus.recent.2⟩
  slot := hus.slot
  last := hus.last
  gone h t' ht' hmem := by
    have := hus.gone h t' ht' hmem
    omega

/-- A call that references nobody. -/
theorem UsersAfter.prune {t : ℤ} (hus : UsersAfter d calls t us) :
    UsersAfter d (calls ++ [.prune t]) t us where
  recent := hus.recent
  slot := hus.slot
  last p hp := (lastReference_concat ..).trans (hus.last p hp)
  gone h t' ht' := hus.gone h t' ((lastReference_concat ..).symm.trans ht')

/-- The client referenced comes to the front. -/
theorem UsersAfter.touch {f : Flow} {k : ℤ} (hus : UsersAfter d calls f.timestamp us)
    (hh : h < maxClient) :
    UsersAfter d (calls ++ [.referencePage f h k]) f.timestamp (touch h f.timestamp us) where
  recent := recent_touch hus.recent le_rfl h
  slot p hp := by
    rcases mem_touch.1 hp with rfl | ⟨hp, -⟩
    · exact hh
    · exact hus.slot p hp
  last p hp := by
    rcases mem_touch.1 hp with rfl | ⟨hp, hne⟩
    · exact (lastReference_concat ..).trans (if_pos rfl)
    · rw [lastReference_concat_of_ne (UserCall.client_ne hne f k)]
      exact hus.last p hp
  gone h' t ht hmem := by
    have hne : h' ≠ h := by
      rintro rfl
      exact hmem (by simp [Recency.touch])
    rw [lastReference_concat_of_ne (UserCall.client_ne hne f k)] at ht
    refine hus.gone h' t ht fun hin ↦ hmem ?_
    obtain ⟨s, hs⟩ := mem_keys.1 hin
    exact mem_keys.2 ⟨s, mem_touch.2 (.inr ⟨hs, hne⟩)⟩

/-- **What a call does to the users** keeps them true to the calls. -/
theorem UsersAfter.apply (hus : UsersAfter d calls c.time us) (hc : c.Allowed q) :
    UsersAfter d (calls ++ [c]) c.time (c.apply d us) := by
  cases c with
  | prune t => exact (UsersAfter.prune hus).expire
  | referencePage f h k =>
    have htouch : UsersAfter d (calls ++ [.referencePage f h k]) f.timestamp
      (Recency.touch h f.timestamp us) :=
      UsersAfter.touch hus hc
    rw [UserCall.apply, Names.reference]
    split
    · exact htouch.expire
    · exact htouch

/-! ## The run -/

/-- **A call of the code** does to the users what `UserCall.apply` says. -/
theorem UserCall.run_spec (hq : q.Users us) (hd : 0 ≤ d) (hc : c.Allowed q) :
    ∃ q', c.run d q = some q' ∧ q'.Users (c.apply d us) := by
  cases c with
  | referencePage f h k =>
    obtain ⟨q', hrun, hq', -⟩ := referencePage_spec (h := h) (f := f) (k := k) hq hd
    exact ⟨q', hrun, hq'⟩
  | prune t =>
    obtain ⟨l, hl, rfl⟩ := hq
    have hne : l ≠ [] := by
      rintro rfl
      exact hc hl.nEntry
    obtain ⟨q', l', hrun, hl', heq, -⟩ := prune_spec hl hne t d
    exact ⟨q', hrun, l', hl', heq⟩

/-- What a step of a run leaves. -/
theorem UserCall.users_of_step {q' : Names} {u : Unit} (hq : q.Users us)
    (hstep : c.step d q = some (q', u)) (hd : 0 ≤ d) (hc : c.Allowed q) :
    q'.Users (c.apply d us) := by
  obtain ⟨q₁, hrun, hq₁⟩ := UserCall.run_spec hq hd hc
  rw [UserCall.step, hrun] at hstep
  obtain ⟨rfl, -⟩ := Prod.mk.inj (Option.some.inj hstep)
  exact hq₁

/-- **Every run goes through**, and leaves the users that the calls say. -/
theorem runUsers_spec (hq : q.Users []) (hd : 0 ≤ d)
    (htimed : calls.Pairwise fun c c' ↦ c.time ≤ c'.time)
    (hallowed : PartialRun.Meets (UserCall.step d) UserCall.Allowed q calls) :
    ∃ q' r us, PartialRun.run (UserCall.step d) q calls = some (q', r) ∧ q'.Users us ∧
      ∀ t, (∀ c ∈ calls, c.time ≤ t) → UsersAfter d calls t us := by
  induction calls using List.reverseRecOn with
  | nil =>
    exact ⟨q, [], [], rfl, hq, fun t _ ↦
    ⟨⟨by simp, by simp⟩, by simp, by simp, by simp [lastReference_nil]⟩⟩
  | append_singleton calls c ih =>
    obtain ⟨htimed, -, hle⟩ := List.pairwise_append.1 htimed
    obtain ⟨hallowed, hlast⟩ := PartialRun.meets_append.1 hallowed
    obtain ⟨q₁, r, us, hrun, hq₁, hus⟩ := ih htimed hallowed
    have hc : c.Allowed q₁ := (hlast q₁ r hrun).1
    obtain ⟨q', hstep, hq'⟩ := UserCall.run_spec hq₁ hd hc
    have hstep' : UserCall.step d c q₁ = some (q', ()) := by rw [UserCall.step, hstep]; rfl
    refine ⟨q', r ++ [()], c.apply d us, ?_, hq', fun t ht ↦ ?_⟩
    · exact PartialRun.run_append_eq_some.2
        ⟨q₁, r, [()], hrun, PartialRun.run_singleton_eq_some.2 ⟨(), hstep', rfl⟩, rfl⟩
    · have hnow := hus c.time fun c' hc' ↦ hle c' hc' c (by simp)
      exact (hnow.apply hc).mono (ht c (by simp))

/-- Distinct clients are no more than there are slots. -/
theorem length_le_maxClient (hkeys : (keys us).Nodup) (hslot : ∀ p ∈ us, p.1 < maxClient) :
    us.length ≤ maxClient := by
  have hsub : keys us ⊆ List.range maxClient := fun h hh ↦ by
    obtain ⟨t, ht⟩ := mem_keys.1 hh
    exact List.mem_range.2 (hslot _ ht)
  simpa [keys] using (List.subperm_of_subset hkeys hsub).length_le

/-- **What a reference leaves**, of which `us` are the users before. -/
theorem afterReference {l : List (ℕ × ℕ × ℤ)} {f : Flow} {k : ℤ} (hq : q.Users us)
    (hus : Recent f.timestamp us) (hd : 0 ≤ d)
    (hl : l.map Prod.snd = Names.reference k f.timestamp d h us) : AfterReference d q l f h k := by
  constructor
  · rintro rfl
    exact Names.reference_ne_nil hd h us hl.symm
  · intro q₁ htouch hk p hp
    obtain ⟨q₂, htouch₂, hq₂, -⟩ := touchPage_spec (f := f) (h := h) hq
    obtain rfl : q₂ = q₁ := Option.some.inj (htouch₂.symm.trans htouch)
    rw [Names.reference, if_pos (by rw [← hq₂.length_eq]; exact hk)] at hl
    exact ((mem_expire (recent_touch hus le_rfl h)).1 (hl ▸ List.mem_map_of_mem hp)).2

/-- The time of the last call is not before that of any other. -/
theorem exists_now (htimed : calls.Pairwise fun c c' ↦ c.time ≤ c'.time) :
    ∃ t, (∀ c ∈ calls, c.time ≤ t) ∧ ∀ c ∈ calls.getLast?, c.time = t := by
  rcases calls.eq_nil_or_concat' with rfl | ⟨calls, c, rfl⟩
  · exact ⟨0, by simp, by simp⟩
  · refine ⟨c.time, fun c' hc' ↦ ?_, by simp⟩
    rcases List.mem_append.1 hc' with hc' | hc'
    · exact (List.pairwise_append.1 htimed).2.2 c' hc' c (by simp)
    · exact (congrArg UserCall.time (List.mem_singleton.1 hc')).le

/-- **The user list of a name is well formed after every run**, and a reference leaves the list with
the caller in it and, past the threshold, without expired clients. -/
theorem user_list_invariant (hq : q.Users []) (hd : 0 ≤ d)
    (htimed : calls.Pairwise fun c c' ↦ c.time ≤ c'.time)
    (hallowed : PartialRun.Meets (UserCall.step d) UserCall.Allowed q calls) :
    ∃ q' r l, PartialRun.run (UserCall.step d) q calls = some (q', r) ∧ UserList d calls q' l ∧
      ∀ calls₀ f h k q₀ r₀, calls = calls₀ ++ [.referencePage f h k] →
        PartialRun.run (UserCall.step d) q calls₀ = some (q₀, r₀) →
          AfterReference d q₀ l f h k := by
  obtain ⟨q', r, us, hrun, ⟨l, hl, rfl⟩, hus⟩ := runUsers_spec hq hd htimed hallowed
  obtain ⟨now, hle, hnow⟩ := exists_now htimed
  have hafter := hus now hle
  refine ⟨q', r, l, hrun, ⟨hl, ?_, ?_, ?_, ?_⟩, ?_⟩
  · simpa using length_le_maxClient hl.keys hafter.slot
  · exact List.pairwise_map.1 hafter.recent.2
  · exact fun p hp ↦ hafter.last p.2 (List.mem_map_of_mem hp)
  · intro c hc h t ht hin
    by_contra hno
    have hgone := hafter.gone h t ht fun hmem ↦ hno ?_
    · have := hnow c hc
      omega
    · obtain ⟨s, hs⟩ := mem_keys.1 hmem
      obtain ⟨p, hp, hps⟩ := List.mem_map.1 hs
      exact ⟨p, hp, congrArg Prod.fst hps⟩
  · rintro calls₀ f h k q₀ r₀ rfl hrun₀
    obtain ⟨htimed, -, hle₀⟩ := List.pairwise_append.1 htimed
    obtain ⟨hallowed, hlast⟩ := PartialRun.meets_append.1 hallowed
    obtain ⟨q₁, r₁, us, hrun₁, hq₁, hus⟩ := runUsers_spec hq hd htimed hallowed
    obtain ⟨rfl, -⟩ : q₁ = q₀ ∧ _ := by simpa [hrun₀] using hrun₁.symm
    obtain ⟨q₂, r₂, _, hrun₂, hrun', -⟩ := PartialRun.run_append_eq_some.1 hrun
    obtain ⟨rfl, -⟩ : q₂ = q₁ ∧ _ := by simpa [hrun₀] using hrun₂.symm
    obtain ⟨_, hstep, -⟩ := PartialRun.run_singleton_eq_some.1 hrun'
    have hq' := UserCall.users_of_step hq₁ hstep hd (hlast q₂ r₀ hrun₀).1
    have heq : l.map Prod.snd = Names.reference k f.timestamp d h us :=
      (Names.Users.users_eq ⟨l, hl, rfl⟩).symm.trans hq'.users_eq
    exact afterReference hq₁ (hus f.timestamp fun c hc ↦
      hle₀ c hc (.referencePage f h k) (by simp)).recent hd heq

/-- Two clients are referenced, and the first is pruned later. -/
def sampleUserCalls : List UserCall :=
  [.referencePage ⟨4, 1, 2, 0, 0, 3, 4, 6, 100⟩ 7 0,
    .referencePage ⟨4, 2, 2, 0, 0, 3, 4, 6, 105⟩ 8 5, .prune 112]

theorem user_list_invariant_sample : ∃ q' r l,
    PartialRun.run (UserCall.step 10) .zero sampleUserCalls = some (q', r) ∧
      UserList 10 sampleUserCalls q' l ∧
      ∀ calls₀ f h k q₀ r₀, sampleUserCalls = calls₀ ++ [.referencePage f h k] →
        PartialRun.run (UserCall.step 10) .zero calls₀ = some (q₀, r₀) →
          AfterReference 10 q₀ l f h k := by
  have h7 : 7 < maxClient := by decide
  have h8 : 8 < maxClient := by decide
  refine user_list_invariant Names.users_zero (by decide) (by decide)
    ⟨h7, fun q₁ _ h₁ ↦ ⟨h8, fun q₂ _ h₂ ↦
    ⟨?_, fun _ _ _ ↦ trivial⟩⟩⟩
  have hq₁ := UserCall.users_of_step Names.users_zero h₁ (by decide) h7
  have hq₂ := UserCall.users_of_step hq₁ h₂ (by decide) h8
  rw [UserCall.Allowed, hq₂.length_eq]
  decide

end AlphaMon
