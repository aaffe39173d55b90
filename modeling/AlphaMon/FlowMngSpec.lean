import AlphaMon.FlowMng
import AlphaMon.Memory.Chain

/-!
# What a bucket of flows holds

`HoldsFlows mem l` says that a bucket is well formed and that its records are `l`: a chain linked
both ways, from the embedded record to a null pointer.  On such a bucket `reference_flow` does
something that can be said without pointers, and `referenceFlowBucket_spec` says it:

* `walkFlows` is the walk over the records after the first, which fails when it deletes the last of
  them;
* `refFlows` is the call, with the record it returns.

Everything about runs of `reference_flow` is derived from these two.
-/

set_option autoImplicit false

namespace AlphaMon

instance : Linked TableFlow FlowRec where
  prev := TableFlow.prev
  next := TableFlow.next
  Rep c x := c.toFlowRec = x

/-- The bucket is well formed and its records are `l`. -/
structure HoldsFlows (mem : Arena TableFlow) (l : List (ℕ × FlowRec)) : Prop where
  /-- The records are linked both ways. -/
  chain : Linked.Chain mem.cell none l none
  /-- No record occurs twice. -/
  nodup : (Linked.addrs l).Nodup
  /-- The records were handed out. -/
  lt_fresh : ∀ a ∈ Linked.addrs l, a < mem.fresh
  /-- The chain starts at the embedded record. -/
  first : Linked.first l none = some 0

/-- A bucket is well formed. -/
def WellLinked (mem : Arena TableFlow) : Prop := ∃ l, HoldsFlows mem l

/-- The records of a bucket, read off its chain. -/
def flowRecords (mem : Arena TableFlow) : List FlowRec :=
  Linked.follow TableFlow.toFlowRec mem.cell mem.fresh (some 0)

theorem holdsFlows_init (h : ℕ) : HoldsFlows (flowTableInit h) [(0, FlowRec.init)] where
  chain := Linked.chain_singleton.2 ⟨_, rfl, rfl, rfl, rfl⟩
  nodup := by simp
  lt_fresh := by simp [flowTableInit]
  first := rfl

/-! ## The call without pointers -/

/-- The walk over the records after the first: what is left of them, and the record found.  A record
that has expired is deleted, if there is one behind it, and the walk goes on after that one. -/
def walkFlows (data : Flow) (gc : Bool) :
    List (ℕ × FlowRec) → Option (List (ℕ × FlowRec) × Option ℕ)
  | [] => some ([], none)
  | [p] =>
    if p.2.Matches data then some ([(p.1, p.2.touch data.timestamp)], some p.1)
    else if gc = true ∧ p.2.Expired data.timestamp then none
    else some ([p], none)
  | p :: q :: l =>
    if p.2.Matches data then some ((p.1, p.2.touch data.timestamp) :: q :: l, some p.1)
    else if gc = true ∧ p.2.Expired data.timestamp then
      (walkFlows data gc l).map fun r ↦ (q :: r.1, r.2)
    else (walkFlows data gc (q :: l)).map fun r ↦ (p :: r.1, r.2)

/-- A call of `reference_flow` on its bucket, where `new` is the address of a new record and `junk`
its contents. -/
def refFlows (data : Flow) (gc : Bool) (new : ℕ) (junk : FlowRec) :
    List (ℕ × FlowRec) → Option (List (ℕ × FlowRec) × ℕ)
  | [] => none
  | p :: l =>
    if p.2.Matches data then some ((p.1, p.2.touch data.timestamp) :: l, p.1)
    else (walkFlows data gc l).map fun r ↦
      match r.2 with
      | some a => (p :: r.1, a)
      | none =>
        if gc = true ∧ p.2.Expired data.timestamp then ((p.1, p.2.fill data) :: r.1, p.1)
        else (p :: r.1 ++ [(new, junk.fill data)], new)

/-! ## What a bucket holds -/

variable {mem : Arena TableFlow} {l l' : List (ℕ × FlowRec)} {a : ℕ} {x : FlowRec} {data : Flow}
  {gc : Bool}

/-- The record at a place of the chain. -/
theorem HoldsFlows.cell (h : HoldsFlows mem (l ++ (a, x) :: l')) :
    ∃ c, mem.cell a = some c ∧ c.toFlowRec = x ∧ c.prev = Linked.last none l ∧
      c.next = Linked.first l' none :=
  h.chain.cell

/-- Writing a record back with other contents. -/
theorem HoldsFlows.set (h : HoldsFlows mem (l ++ (a, x) :: l')) (f : TableFlow → TableFlow)
    {y : FlowRec} (hf : ∀ c : TableFlow, c.toFlowRec = x →
      (f c).toFlowRec = y ∧ (f c).prev = c.prev ∧ (f c).next = c.next) :
    ∃ mem', mem.modify (some a) f = some mem' ∧ HoldsFlows mem' (l ++ (a, y) :: l') ∧
      mem'.fresh = mem.fresh := by
  obtain ⟨c, hc, hx, -, -⟩ := h.cell
  obtain ⟨hy, hp, hn⟩ := hf c hx
  have haddrs : Linked.addrs (l ++ (a, y) :: l') = Linked.addrs (l ++ (a, x) :: l') := by simp
  refine ⟨_, Arena.modify_of_cell hc f, ⟨h.chain.setCell h.nodup hc hy hp hn, haddrs ▸ h.nodup,
    haddrs ▸ h.lt_fresh, ?_⟩, rfl⟩
  have hfirst := h.first
  rw [Linked.first_append] at hfirst ⊢
  exact hfirst

/-- **Deleting a record** between two others joins its neighbours.  The two branches of the C do the
same. -/
theorem deleteFlow_spec {p r : ℕ} {y z : FlowRec}
    (h : HoldsFlows mem (l ++ (p, y) :: (a, x) :: (r, z) :: l')) :
    ∃ mem', deleteFlow mem a (some r) = some mem' ∧ mem'.fresh = mem.fresh ∧
      HoldsFlows mem' (l ++ (p, y) :: (r, z) :: l') := by
  have hnodup := h.nodup
  rw [Linked.addrs_append] at hnodup
  obtain ⟨-, hnd, hdisj⟩ := List.nodup_append.1 hnodup
  simp only [Linked.addrs_cons, List.nodup_cons, List.mem_cons, not_or] at hnd
  obtain ⟨⟨hpa, hpr, -⟩, ⟨har, hal'⟩, -⟩ := hnd
  obtain ⟨cp, hcp, hyp, -, -⟩ := h.cell
  have hat_a : HoldsFlows mem ((l ++ [(p, y)]) ++ (a, x) :: (r, z) :: l') := by simpa using h
  have hat_r : HoldsFlows mem ((l ++ [(p, y), (a, x)]) ++ (r, z) :: l') := by simpa using h
  obtain ⟨ca, hca, -, hpca, -⟩ := hat_a.cell
  obtain ⟨cr, hcr, hzr, hpcr, hxcr⟩ := hat_r.cell
  have hpca : ca.prev = some p := hpca.trans (by simp)
  have hpcr : cr.prev = some a := hpcr.trans (by simp)
  -- the two writes, and the free
  let m₁ := Function.update mem.cell p (some { cp with next := some r })
  let m := Function.update m₁ r (some { cr with prev := some p })
  have hm₁a : m₁ a = some ca := (Function.update_of_ne (Ne.symm hpa) _ _).trans hca
  have hm₁r : m₁ r = some cr := (Function.update_of_ne (Ne.symm hpr) _ _).trans hcr
  have hnext : mem.modify (some p) (fun c ↦ { c with next := some r }) =
      some ⟨m₁, mem.fresh⟩ := Arena.modify_of_cell hcp _
  have hprev : Arena.modify ⟨m₁, mem.fresh⟩ (some r) (fun c ↦ { c with prev := some p }) =
      some ⟨m, mem.fresh⟩ := Arena.modify_of_cell hm₁r _
  have hfree : Arena.free ⟨m, mem.fresh⟩ (some a) =
      some ⟨Function.update m a none, mem.fresh⟩ :=
    Arena.free_of_cell (c := ca) ((Function.update_of_ne har _ _).trans hm₁a)
  have hrun : deleteFlow mem a (some r) = some ⟨Function.update m a none, mem.fresh⟩ := by
    simp only [deleteFlow, Arena.read_some, hca, hpca, hcp, hcr, hpcr, hnext, hm₁a, hm₁r,
      Option.bind_eq_bind, Option.bind_some, hprev, ite_self, hfree]
  have hch : Linked.Chain m none (l ++ (p, y) :: (r, z) :: l') none :=
    h.chain.unlink h.nodup hcp hyp rfl rfl hcr hzr rfl rfl
  have hsub : (Linked.addrs (l ++ (p, y) :: (r, z) :: l')).Sublist
      (Linked.addrs (l ++ (p, y) :: (a, x) :: (r, z) :: l')) := by
    simp only [Linked.addrs_append, Linked.addrs_cons]
    exact ((List.sublist_cons_self _ _).cons_cons _).append_left _
  have ha : a ∉ Linked.addrs (l ++ (p, y) :: (r, z) :: l') := by
    simp only [Linked.addrs_append, Linked.addrs_cons, List.mem_append, List.mem_cons, not_or]
    exact ⟨fun hm ↦ hdisj a hm a (by simp) rfl, Ne.symm hpa, har, hal'⟩
  refine ⟨_, hrun, rfl, hch.update_of_notMem ha none, h.nodup.sublist hsub,
    fun a' ha' ↦ h.lt_fresh a' (hsub.subset ha'), ?_⟩
  have hfirst := h.first
  rw [Linked.first_append] at hfirst ⊢
  exact hfirst

/-- **Deleting the last record** follows a null pointer. -/
theorem deleteFlow_last {p : ℕ} {y : FlowRec} (h : HoldsFlows mem (l ++ [(p, y), (a, x)])) :
    deleteFlow mem a none = none := by
  have hnodup := h.nodup
  rw [Linked.addrs_append] at hnodup
  obtain ⟨-, hnd, -⟩ := List.nodup_append.1 hnodup
  simp only [Linked.addrs_cons, List.nodup_cons, List.mem_cons, not_or] at hnd
  obtain ⟨cp, hcp, -, -, -⟩ := h.cell
  have hat_a : HoldsFlows mem ((l ++ [(p, y)]) ++ [(a, x)]) := by simpa using h
  obtain ⟨ca, hca, -, hpca, -⟩ := hat_a.cell
  have hpca : ca.prev = some p := hpca.trans (by simp)
  simp only [deleteFlow, hca, hpca, Arena.read_some, hcp, Arena.read_none, Option.bind_eq_bind,
    Option.bind_some, Option.bind_none]
  split
  · rfl
  · rw [Arena.modify_of_cell hcp]
    simp only [Option.bind_some, Function.update_of_ne (Ne.symm hnd.1.1), hca]
    rfl

/-- Chaining a new record to the last one. -/
theorem HoldsFlows.append (h : HoldsFlows mem l) (y : FlowRec) :
    ∃ mem', mem.modify (Linked.last none l) (fun r ↦ { r with next := some mem.fresh }) =
      some mem' ∧
      HoldsFlows (mem'.alloc ⟨y, Linked.last none l, none⟩) (l ++ [(mem.fresh, y)]) := by
  have hl : l ≠ [] := by
    rintro rfl
    exact absurd h.first (by simp)
  obtain ⟨l, ⟨q, z⟩, rfl⟩ := List.eq_nil_or_concat l |>.resolve_left hl
  rw [List.concat_eq_append] at *
  obtain ⟨c, hc, hz, hp, hn⟩ := h.cell
  have hlast : Linked.last none (l ++ [(q, z)]) = some q := by simp
  have hnd := h.nodup
  simp only [Linked.addrs_append, Linked.addrs_cons, Linked.addrs_nil] at hnd
  have hq : q ∉ Linked.addrs l := fun hm ↦ (List.nodup_append.1 hnd).2.2 q hm q (by simp) rfl
  have hfresh : mem.fresh ∉ Linked.addrs (l ++ [(q, z)]) := fun hm ↦ lt_irrefl _ (h.lt_fresh _ hm)
  have hset : Linked.Chain
      (Function.update mem.cell q (some { c with next := some mem.fresh })) none (l ++ [(q, z)])
      (some mem.fresh) := h.chain.setLast hq hz hp rfl
  rw [hlast]
  refine ⟨_, Arena.modify_of_cell hc _, ?_, ?_, ?_, ?_⟩
  · refine Linked.chain_append.2 ⟨hset.update_of_notMem hfresh _, ?_⟩
    rw [hlast]
    exact Linked.chain_singleton.2 ⟨⟨y, some q, none⟩, by simp, rfl, rfl, rfl⟩
  · rw [Linked.addrs_append]
    refine List.nodup_append.2 ⟨h.nodup, by simp, fun x hx y hy ↦ ?_⟩
    obtain rfl : y = mem.fresh := by simpa using hy
    exact ne_of_mem_of_not_mem hx hfresh
  · intro x hx
    rw [Linked.addrs_append, List.mem_append] at hx
    rcases hx with hx | hx
    · exact Nat.lt_succ_of_lt (h.lt_fresh x hx)
    · obtain rfl : x = mem.fresh := by simpa using hx
      exact Nat.lt_succ_self _
  · have hfirst := h.first
    rw [Linked.first_append] at hfirst ⊢
    cases l <;> simpa using hfirst

/-- **The records read off a bucket.** -/
theorem HoldsFlows.records_eq (h : HoldsFlows mem l) : flowRecords mem = l.map Prod.snd := by
  have hlen : l.length ≤ mem.fresh := by
    have hsub : Linked.addrs l ⊆ List.range mem.fresh :=
      fun a ha ↦ List.mem_range.2 (h.lt_fresh a ha)
    have := (h.nodup.subperm hsub).length_le
    simpa [Linked.addrs] using this
  rw [flowRecords, ← h.first]
  exact h.chain.follow_eq (fun _ _ hc ↦ hc) hlen

/-! ## The walk -/

/-- The walk of the code over the records behind `pre`, with the result `r`, does what `w` says. -/
def WalkOf (mem : Arena TableFlow) (pre : List (ℕ × FlowRec)) (firstFree : Bool)
    (w : Option (List (ℕ × FlowRec) × Option ℕ))
    (r : Option (Arena TableFlow × (ℕ ⊕ Option ℕ × Bool))) : Prop :=
  match w with
  | none => r = none
  | some (post, found) => ∃ mem', r = some (mem',
      match found with
      | some a => .inl a
      | none => .inr (Linked.last none (pre ++ post), firstFree)) ∧
    mem'.fresh = mem.fresh ∧ HoldsFlows mem' (pre ++ post)

variable {pre : List (ℕ × FlowRec)} {firstFree : Bool}

/-- A walk goes on behind one record more. -/
theorem WalkOf.cons {mem' : Arena TableFlow} {p : ℕ × FlowRec}
    {w : Option (List (ℕ × FlowRec) × Option ℕ)}
    {r : Option (Arena TableFlow × (ℕ ⊕ Option ℕ × Bool))} (hfresh : mem'.fresh = mem.fresh)
    (h : WalkOf mem' (pre ++ [p]) firstFree w r) :
    WalkOf mem pre firstFree (w.map fun r ↦ (p :: r.1, r.2)) r := by
  cases w with
  | none => exact h
  | some w =>
    obtain ⟨mem₁, hr, hf, hh⟩ := h
    rw [List.append_assoc, List.singleton_append] at hr hh
    exact ⟨mem₁, hr, hf.trans hfresh, hh⟩

/-- A walk that found its record. -/
theorem WalkOf.found (h : HoldsFlows mem (pre ++ (a, x) :: l)) :
    WalkOf mem pre firstFree (some ((a, x.touch data.timestamp) :: l, some a))
      (do
        let mem ← mem.modify (some a) fun r ↦ { r with timestamp := data.timestamp }
        some (mem, .inl a)) := by
  obtain ⟨mem', hmod, hh, hfresh⟩ := h.set
    (fun r : TableFlow ↦ { r with timestamp := data.timestamp }) (y := x.touch data.timestamp)
    fun c hc ↦ ⟨by rw [← hc]; rfl, rfl, rfl⟩
  rw [hmod]
  exact ⟨mem', rfl, hfresh, hh⟩

/-- **The walk of the code** over the records after the first is `walkFlows`. -/
theorem flowLoop_spec : ∀ (post pre : List (ℕ × FlowRec)) (fuel : ℕ) (last : Option ℕ)
    (mem : Arena TableFlow), pre ≠ [] → HoldsFlows mem (pre ++ post) → post.length ≤ fuel →
    (post = [] → last = Linked.last none pre) →
    WalkOf mem pre firstFree (walkFlows data gc post)
      (flowLoop data gc fuel (Linked.first post none) last firstFree mem)
  | [], pre, fuel, last, mem, _, h, _, hlast => by
    rw [walkFlows, Linked.first_nil, flowLoop]
    exact ⟨mem, by rw [List.append_nil, ← hlast rfl], rfl, h⟩
  | [p], pre, fuel, last, mem, hpre, h, hfuel, _ => by
    obtain ⟨fuel, rfl⟩ : ∃ f, fuel = f + 1 := ⟨fuel - 1, by simp at hfuel; omega⟩
    obtain ⟨q, -, hq⟩ := Linked.exists_last hpre none
    obtain ⟨c, hc, hx, hprev, hnext⟩ := h.cell
    simp only [walkFlows, Linked.first_cons, flowLoop, hc, hx, Option.bind_eq_bind,
      Option.bind_some]
    split
    · exact WalkOf.found h
    have hpv : c.prev ≠ none := by simp [hprev, hq]
    by_cases hexp : gc = true ∧ p.2.Expired data.timestamp
    · -- the last record is deleted, and the null pointer behind it followed
      obtain ⟨pre, ⟨q, z⟩, rfl⟩ := List.eq_nil_or_concat pre |>.resolve_left hpre
      have hdel : deleteFlow mem p.1 none = none :=
        deleteFlow_last (l := pre) (p := q) (y := z) (a := p.1) (x := p.2)
          (by simpa [List.concat_eq_append] using h)
      have hcoll : collect data gc mem p.1 c firstFree = none := by
        rw [collect, if_pos (hx ▸ hexp), if_pos hpv, hnext, Linked.first_nil, hdel]
        rfl
      rw [if_pos hexp, hcoll]
      rfl
    · have hcoll : collect data gc mem p.1 c firstFree = some (mem, some p.1, firstFree) := by
        rw [collect, if_neg (hx ▸ hexp)]
      rw [if_neg hexp, hcoll]
      simp only [Option.bind_some, Arena.read_some, hc, hnext, Linked.first_nil, if_true, flowLoop]
      exact ⟨mem, by simp, rfl, h⟩
  | p :: q :: l, pre, fuel, last, mem, hpre, h, hfuel, _ => by
    obtain ⟨fuel, rfl⟩ : ∃ f, fuel = f + 1 := ⟨fuel - 1, by simp at hfuel; omega⟩
    obtain ⟨v, -, hv⟩ := Linked.exists_last hpre none
    obtain ⟨c, hc, hx, hprev, hnext⟩ := h.cell
    simp only [List.length_cons] at hfuel
    simp only [walkFlows, Linked.first_cons, flowLoop, hc, hx, Option.bind_eq_bind,
      Option.bind_some]
    split
    · exact WalkOf.found h
    have hpv : c.prev ≠ none := by simp [hprev, hv]
    by_cases hexp : gc = true ∧ p.2.Expired data.timestamp
    · -- the record is deleted, and the walk goes on after the next one
      obtain ⟨pre, ⟨v, z⟩, rfl⟩ := List.eq_nil_or_concat pre |>.resolve_left hpre
      have hat : HoldsFlows mem (pre ++ (v, z) :: (p.1, p.2) :: (q.1, q.2) :: l) := by
        simpa [List.concat_eq_append] using h
      obtain ⟨mem₁, hdel, hfresh, hh⟩ := deleteFlow_spec hat
      have hcoll : collect data gc mem p.1 c firstFree = some (mem₁, some q.1, firstFree) := by
        rw [collect, if_pos (hx ▸ hexp), if_pos hpv, hnext, Linked.first_cons, hdel]
        rfl
      have hh' : HoldsFlows mem₁ ((pre.concat (v, z) ++ [q]) ++ l) := by
        simpa [List.concat_eq_append] using hh
      have hat' : HoldsFlows mem₁ (pre.concat (v, z) ++ (q.1, q.2) :: l) := by simpa using hh'
      obtain ⟨d, hd, -, -, hdnext⟩ := hat'.cell
      rw [if_pos hexp, hcoll]
      simp only [Option.bind_some, Arena.read_some, hd, hdnext]
      refine WalkOf.cons hfresh (flowLoop_spec l _ fuel _ mem₁ (by simp) hh' (by omega) ?_)
      rintro rfl
      simp
    · have hcoll : collect data gc mem p.1 c firstFree = some (mem, some p.1, firstFree) := by
        rw [collect, if_neg (hx ▸ hexp)]
      rw [if_neg hexp, hcoll]
      simp only [Option.bind_some, Arena.read_some, hc, hnext]
      refine WalkOf.cons rfl ?_
      exact flowLoop_spec (q :: l) (pre ++ [p]) fuel _ mem (by simp) (by simpa using h)
        (by simp only [List.length_cons]; omega) (by simp)

/-- What a call of the code should do when the call without pointers is `r`. -/
def RefOf (r : Option (List (ℕ × FlowRec) × ℕ)) (res : Option (Arena TableFlow × ℕ)) : Prop :=
  match r with
  | none => res = none
  | some (l, a) => ∃ mem', res = some (mem', a) ∧ HoldsFlows mem' l

/-- **The call of the code** on its bucket is `refFlows`: it fails when that does, and otherwise
leaves a well-formed bucket. -/
theorem referenceFlowBucket_spec (h : HoldsFlows mem l) (data : Flow) (env : FlowEnv)
    {junk : FlowRec} (hm : env.malloc = some junk) :
    RefOf (refFlows data env.collects mem.fresh junk l) (referenceFlowBucket mem data env) := by
  cases l with
  | nil => exact absurd h.first (by simp)
  | cons p l =>
    have hp : p.1 = 0 := by simpa using h.first
    have hlen : l.length ≤ mem.fresh := by
      have hsub : Linked.addrs (p :: l) ⊆ List.range mem.fresh :=
        fun a ha ↦ List.mem_range.2 (h.lt_fresh a ha)
      have := (h.nodup.subperm hsub).length_le
      simp [Linked.addrs] at this
      omega
    obtain ⟨c, hc, hx, hprev, hnext⟩ := HoldsFlows.cell (l := []) h
    rw [hp] at hc
    simp only [referenceFlowBucket, refFlows, flowLoop, hc, hx, Option.bind_eq_bind,
      Option.bind_some]
    split
    · obtain ⟨mem', hmod, hh, -⟩ := HoldsFlows.set (l := []) h
        (fun r : TableFlow ↦ { r with timestamp := data.timestamp }) (y := p.2.touch data.timestamp)
        fun c hc ↦ ⟨by rw [← hc]; rfl, rfl, rfl⟩
      rw [hp] at hmod hh
      rw [hmod, hp]
      exact ⟨mem', rfl, hh⟩
    -- the embedded record is never deleted
    have hcoll : collect data env.collects mem 0 c false = some (mem, some 0,
        decide (env.collects = true ∧ p.2.Expired data.timestamp)) := by
      by_cases hexp : env.collects = true ∧ p.2.Expired data.timestamp
      · rw [collect, if_pos (hx ▸ hexp), if_neg (by simp [hprev]), decide_eq_true hexp]
      · rw [collect, if_neg (hx ▸ hexp), decide_eq_false hexp]
    rw [hcoll]
    simp only [Option.bind_some, Arena.read_some, hc, hnext]
    have hwalk : WalkOf mem [p] (decide (env.collects = true ∧ p.2.Expired data.timestamp))
        (walkFlows data env.collects l) (flowLoop data env.collects mem.fresh (Linked.first l none)
          (if Linked.first l none = none then some 0 else none)
          (decide (env.collects = true ∧ p.2.Expired data.timestamp)) mem) :=
      flowLoop_spec l [p] mem.fresh _ mem (by simp) h hlen (by rintro rfl; simp [hp])
    generalize walkFlows data env.collects l = w at hwalk ⊢
    generalize flowLoop data env.collects mem.fresh (Linked.first l none)
      (if Linked.first l none = none then some 0 else none)
      (decide (env.collects = true ∧ p.2.Expired data.timestamp)) mem = r at hwalk ⊢
    cases w with
    | none =>
      obtain rfl : r = none := hwalk
      rfl
    | some w =>
      obtain ⟨post, found⟩ := w
      obtain ⟨mem', rfl, hfresh, hh⟩ := hwalk
      cases found with
      | some a => exact ⟨mem', rfl, hh⟩
      | none =>
        by_cases hexp : env.collects = true ∧ p.2.Expired data.timestamp
        · obtain ⟨mem₁, hmod, hh₁, -⟩ := HoldsFlows.set (l := []) hh
            (fun r : TableFlow ↦ { r with toFlowRec := r.toFlowRec.fill data }) (y := p.2.fill data)
            fun c hc ↦ ⟨by rw [← hc], rfl, rfl⟩
          rw [hp] at hmod hh₁
          simp only [Option.bind_some, Option.map_some, hexp, and_self, if_true, decide_true, hmod,
            hp]
          exact ⟨mem₁, rfl, hh₁⟩
        · obtain ⟨mem₁, hmod, hh₁⟩ := hh.append (junk.fill data)
          rw [hfresh] at hmod hh₁
          simp only [Option.bind_some, Option.map_some, hexp, if_false, decide_false, hm, hmod,
            Bool.false_eq_true, hfresh]
          exact ⟨_, rfl, hh₁⟩

end AlphaMon
