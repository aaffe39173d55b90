import AlphaMon.NameTable

/-!
# What the table of names computes

The pointers of a bucket and of the user lists in it are gone in this file: a bucket is a list of
records (`NameBucket`), a record is a name with a recency list of users (`NameRec`), and a call of
`table_add` is a function on buckets (`NameBucket.add`).  `Bucket.Holds b l` says that the bucket
`b` of the code is well formed and holds the records `l`, and `tableAddBucket_spec` is the
refinement: on a well-formed bucket the code never follows a bad pointer, leaves a well-formed
bucket, and computes `NameBucket.add`.

That is so while there is memory and the names fit into a record.  `NameBucket.tryAdd` is the call
with any outcome of its two allocations and any name, and `tableAddBucket_try` the refinement: the
code follows a bad pointer or overruns the name of a record exactly where `tryAdd` has no result,
which is where a new record gets a name of `nameDns` bytes or more, or a user list is left without
users, since the last line of `referencePage` reads its tail.

The walk along a bucket is kept as the code does it.  In particular `partialWalk` stops where the
loop of the partial clean stops, which need not be at the name looked for nor at the end.
-/

set_option autoImplicit false

namespace AlphaMon

open Recency

/-! ## Buckets without pointers -/

/-- A name with its users, the most recent first. -/
structure NameRec where
  name : List UInt8
  users : List (ℕ × ℤ)
  deriving DecidableEq

/-- A bucket: the count the code keeps, and the records of the chain. -/
structure NameBucket where
  number : ℤ
  recs : List NameRec
  deriving DecidableEq

/-- Where a search stopped: the record, what is before and after it in the chain, the count, and
whether the record is the one looked for. -/
structure Stop where
  before : List NameRec
  cur : NameRec
  after : List NameRec
  number : ℤ
  found : Bool

/-- The chain a search left. -/
def Stop.recs (s : Stop) : List NameRec := s.before ++ s.cur :: s.after

/-- The bucket a search left. -/
def Stop.bucket (w : Stop) : NameBucket := ⟨w.number, w.recs⟩

/-- The search without cleaning. -/
def plainWalk (name : List UInt8) (number : ℤ) :
    ℕ → List NameRec → NameRec → List NameRec → Stop
  | 0, before, cur, after => ⟨before, cur, after, number, false⟩
  | _ + 1, before, cur, [] => ⟨before, cur, [], number, decide (cur.name = name)⟩
  | left + 1, before, cur, nx :: after =>
    if cur.name = name then ⟨before, cur, nx :: after, number, true⟩
    else plainWalk name number left (before ++ [cur]) nx after

/-- The search with the partial clean: `c` is the time before which users are expired. -/
def partialWalk (name : List UInt8) (c : ℤ) :
    ℕ → ℤ → List NameRec → NameRec → List NameRec → Stop
  | i, number, before, cur, [] =>
    ⟨before, cur, [], number, decide ((i : ℤ) < number ∧ cur.name = name)⟩
  | i, number, before, cur, nx :: after =>
    if (i : ℤ) < number then
      if cur.name = name then ⟨before, cur, nx :: after, number, true⟩
      else if i = 0 then partialWalk name c (i + 1) number (before ++ [cur]) nx after
      else if expire c cur.users = [] then partialWalk name c (i + 1) (number - 1) before nx after
      else partialWalk name c (i + 1) number (before ++ [⟨cur.name, expire c cur.users⟩]) nx after
    else ⟨before, cur, nx :: after, number, false⟩

/-- The search a draw selects. -/
def walk (name : List UInt8) (c : ℤ) (p : ℕ) (number : ℤ) (cur : NameRec) (after : List NameRec) :
    Stop :=
  if p < 33 then plainWalk name number number.toNat [] cur after
  else partialWalk name c 0 number [] cur after

/-- What a call does where the search stopped, at time `t` for the client `h`: the client is
referenced in the record, if it is the one looked for, or in a new record linked after it. -/
def Stop.add (k d t : ℤ) (h : ℕ) (name : List UInt8) (w : Stop) : NameBucket × ℤ :=
  if w.found then
    let us := Names.reference k t d h w.cur.users
    (⟨w.number, w.before ++ ⟨w.cur.name, us⟩ :: w.after⟩, us.length)
  else
    let us := Names.reference k t d h []
    (⟨w.number + 1, w.before ++ [w.cur, ⟨name, us⟩]⟩, us.length)

/-- A call of `table_add` on its bucket: the client `h` is seen with `name` at time `t`. -/
def NameBucket.add (k d t : ℤ) (h : ℕ) (name : List UInt8) (p : ℕ) (s : NameBucket) :
    NameBucket × ℤ :=
  match s.recs with
  | [] =>
    let us := Names.reference k t d h []
    (⟨s.number + 1, [⟨name, us⟩]⟩, us.length)
  | cur :: after => (walk name (t - d) p s.number cur after).add k d t h name

/-- A new record with its first user, which has no more room for the name than `strcpyName` gives
it. -/
def NameRec.tryNew (k d t : ℤ) (h : ℕ) (name : List UInt8) (allocOk : Bool) : Option NameRec :=
  if name.length < nameDns then (Names.tryReference allocOk k t d h []).map (⟨name, ·⟩) else none

/-- `Stop.add`, with any outcome of the allocations and any name. -/
def Stop.tryAdd (k d t : ℤ) (h : ℕ) (name : List UInt8) (env : TableEnv) (w : Stop) :
    Option (NameBucket × ℤ) :=
  if w.found then
    (Names.tryReference env.allocLru k t d h w.cur.users).map fun us ↦
      (⟨w.number, w.before ++ ⟨w.cur.name, us⟩ :: w.after⟩, us.length)
  else if env.allocNames then
    (NameRec.tryNew k d t h name env.allocLru).map fun r ↦
      (⟨w.number + 1, w.before ++ [w.cur, r]⟩, r.users.length)
  else some (w.bucket, 0)

/-- `NameBucket.add`, with any outcome of the allocations and any name. -/
def NameBucket.tryAdd (k d t : ℤ) (h : ℕ) (name : List UInt8) (env : TableEnv) (s : NameBucket) :
    Option (NameBucket × ℤ) :=
  match s.recs with
  | [] =>
    (NameRec.tryNew k d t h name env.allocLru).map fun r ↦ (⟨s.number + 1, [r]⟩, r.users.length)
  | cur :: after =>
    (walk name (t - d) (probability env.tsc) s.number cur after).tryAdd k d t h name env

theorem NameRec.tryNew_eq_some {k d t : ℤ} {h : ℕ} {name : List UInt8} {allocOk : Bool}
    {r : NameRec} :
    tryNew k d t h name allocOk = some r ↔
      name.length < nameDns ∧ ∃ us, Names.tryReference allocOk k t d h [] = some us ∧
        r = ⟨name, us⟩ := by
  rw [tryNew]
  split
  · next hname => simp [hname, Option.map_eq_some_iff, eq_comm (a := r)]
  · next hname => simp [hname]

/-- With enough memory a call does what `NameBucket.add` says, or its name does not fit. -/
theorem NameBucket.tryAdd_or {k d : ℤ} (hd : 0 ≤ d) (t : ℤ) (h : ℕ) (name : List UInt8)
    {env : TableEnv} (hnames : env.allocNames = true) (hlru : env.allocLru = true)
    (s : NameBucket) :
    s.tryAdd k d t h name env = some (s.add k d t h name (probability env.tsc)) ∨
      nameDns ≤ name.length ∧ s.tryAdd k d t h name env = none := by
  have hnew : NameRec.tryNew k d t h name true = some ⟨name, Names.reference k t d h []⟩ ∨
      nameDns ≤ name.length ∧ NameRec.tryNew k d t h name true = none := by
    rw [NameRec.tryNew, Names.tryReference_true hd]
    split
    · exact .inl rfl
    · next hlong => exact .inr ⟨not_lt.1 hlong, rfl⟩
  rw [tryAdd, add]
  split
  · rcases hnew with hnew | ⟨hlong, hnew⟩
    · exact .inl (by rw [hlru, hnew]; rfl)
    · exact .inr ⟨hlong, by rw [hlru, hnew]; rfl⟩
  · rw [Stop.tryAdd, Stop.add, hlru, if_pos hnames, Names.tryReference_true hd]
    split
    · exact .inl rfl
    · rcases hnew with hnew | ⟨hlong, hnew⟩
      · exact .inl (by rw [hnew]; rfl)
      · exact .inr ⟨hlong, by rw [hnew]; rfl⟩

/-! ## What a bucket holds -/

instance : Linked Names NameRec where
  prev := Names.prev
  next := Names.next
  Rep q r := q.name = r.name ∧ q.Users r.users

/-- The bucket `b` is well formed and its records are `l`: a chain that starts at the embedded
record, or nothing at all before the first insertion, and a count that is no less than the length
of the chain and zero only together with it. -/
structure Bucket.Holds (b : Bucket) (l : List (ℕ × NameRec)) : Prop where
  /-- The records are linked both ways. -/
  chain : Linked.Chain b.mem.cell none l none
  /-- No record occurs twice. -/
  nodup : (Linked.addrs l).Nodup
  /-- The records were handed out. -/
  lt_fresh : ∀ a ∈ Linked.addrs l, a < b.mem.fresh
  /-- The chain starts at the embedded record. -/
  first : l ≠ [] → Linked.first l none = some 0
  /-- Before the first insertion the embedded record has no users. -/
  idle : l = [] → ∃ q, b.mem.cell 0 = some q ∧ q.Users [] ∧ 0 < b.mem.fresh
  /-- The count is no less than the length of the chain. -/
  length_le : (l.length : ℤ) ≤ b.number
  /-- The count is zero before the first insertion only. -/
  number_eq_zero : l = [] → b.number = 0

theorem Bucket.holds_init : Bucket.init.Holds [] :=
  ⟨trivial, by
    simp, by simp, by simp, fun _ ↦ ⟨_, rfl, Names.users_zero, Nat.one_pos⟩, by simp [init],
    fun _ ↦ rfl⟩

/-- The records of a bucket, read off its chain. -/
def Bucket.records (b : Bucket) : List NameRec :=
  if b.number = 0 then []
  else Linked.follow (fun q : Names ↦ ⟨q.name, q.users⟩) b.mem.cell b.mem.fresh (some 0)

/-! ## The searches -/

variable {b : Bucket} {l l' : List (ℕ × NameRec)} {a : ℕ} {x : NameRec}

/-- The record at a place of the chain. -/
theorem Bucket.Holds.cell (hb : b.Holds (l ++ (a, x) :: l')) :
    ∃ q, b.mem.cell a = some q ∧ q.name = x.name ∧ q.Users x.users ∧
      q.prev = Linked.last none l ∧ q.next = Linked.first l' none := by
  obtain ⟨q, hq, ⟨hname, hus⟩, hp, hn⟩ := hb.chain.cell
  exact ⟨q, hq, hname, hus, hp, hn⟩

/-- Writing a record back with other users. -/
theorem Bucket.Holds.setUsers {q q' : Names} {us : List (ℕ × ℤ)} (hb : b.Holds (l ++ (a, x) :: l'))
    (hq : b.mem.cell a = some q) (hsame : q.SameEntry q') (hus : q'.Users us) :
    Bucket.Holds ⟨b.number, ⟨Function.update b.mem.cell a (some q'), b.mem.fresh⟩⟩
      (l ++ (a, ⟨x.name, us⟩) :: l') := by
  obtain ⟨q₀, hq₀, hname, -, -, -⟩ := hb.cell
  obtain rfl : q₀ = q := Option.some.inj (hq₀.symm.trans hq)
  have haddrs : Linked.addrs (l ++ (a, (⟨x.name, us⟩ : NameRec)) :: l') =
      Linked.addrs (l ++ (a, x) :: l') := by simp
  refine ⟨hb.chain.setCell hb.nodup hq ⟨hsame.name.trans hname, hus⟩ hsame.prev hsame.next,
    haddrs ▸ hb.nodup, haddrs ▸ hb.lt_fresh, fun _ ↦
      ?_, by simp, by simpa using hb.length_le, by simp⟩
  have hfirst := hb.first (by simp)
  rw [Linked.first_append] at hfirst ⊢
  exact hfirst

/-- **Deleting a record** between two others joins its neighbours.  The two branches of the C do the
same. -/
theorem deleteRecord_spec {p r : ℕ} {y z : NameRec}
    (hb : b.Holds (l ++ (p, y) :: (a, x) :: (r, z) :: l')) :
    ∃ m, deleteRecord b a r = some ⟨b.number - 1, ⟨m, b.mem.fresh⟩⟩ ∧
      Bucket.Holds ⟨b.number - 1, ⟨m, b.mem.fresh⟩⟩ (l ++ (p, y) :: (r, z) :: l') := by
  have hnodup := hb.nodup
  rw [Linked.addrs_append] at hnodup
  obtain ⟨-, hnd, hdisj⟩ := List.nodup_append.1 hnodup
  simp only [Linked.addrs_cons, List.nodup_cons, List.mem_cons, not_or] at hnd
  obtain ⟨⟨hpa, hpr, -⟩, ⟨har, hal'⟩, -⟩ := hnd
  obtain ⟨cp, hcp, hnp, hup, -, -⟩ := hb.cell
  obtain ⟨ca, hca, -, -, hpca, -⟩ := Bucket.Holds.cell (b := b) (l := l ++ [(p, y)]) (a := a)
    (by simpa using hb)
  obtain ⟨cr, hcr, hnr, hur, hpcr, hxcr⟩ := Bucket.Holds.cell (b := b) (l := l ++ [(p, y), (a, x)])
    (a := r) (by simpa using hb)
  have hpca : ca.prev = some p := hpca.trans (by simp)
  have hpcr : cr.prev = some a := hpcr.trans (by simp)
  -- the two writes, and the free
  let m₁ := Function.update b.mem.cell p (some { cp with next := some r })
  let m := Function.update m₁ r (some { cr with prev := some p })
  have hm₁a : m₁ a = some ca := (Function.update_of_ne (Ne.symm hpa) _ _).trans hca
  have hm₁r : m₁ r = some cr := (Function.update_of_ne (Ne.symm hpr) _ _).trans hcr
  have hnext : b.mem.modify (some p) (fun c ↦ { c with next := some r }) =
      some ⟨m₁, b.mem.fresh⟩ := Arena.modify_of_cell hcp _
  have hprev : Arena.modify ⟨m₁, b.mem.fresh⟩ (some r) (fun c ↦ { c with prev := some p }) =
      some ⟨m, b.mem.fresh⟩ := Arena.modify_of_cell hm₁r _
  have hfree : Arena.free ⟨m, b.mem.fresh⟩ (some a) =
      some ⟨Function.update m a none, b.mem.fresh⟩ :=
    Arena.free_of_cell (c := ca) ((Function.update_of_ne har _ _).trans hm₁a)
  have hrun : deleteRecord b a r =
    some ⟨b.number - 1, ⟨Function.update m a none, b.mem.fresh⟩⟩ := by
    simp only [deleteRecord, Arena.read_some, hca, hpca, hcp, hcr, hpcr, hnext, hm₁a, hm₁r,
      Option.bind_eq_bind, Option.bind_some, hprev, ite_self, hfree]
  have hch : Linked.Chain m none (l ++ (p, y) :: (r, z) :: l') none :=
    hb.chain.unlink hb.nodup hcp ⟨hnp, hup.relink cp.name cp.oldest cp.prev (some r)⟩ rfl rfl hcr
      ⟨hnr, hur.relink cr.name cr.oldest (some p) cr.next⟩ rfl rfl
  have hsub : (Linked.addrs (l ++ (p, y) :: (r, z) :: l')).Sublist
      (Linked.addrs (l ++ (p, y) :: (a, x) :: (r, z) :: l')) := by
    simp only [Linked.addrs_append, Linked.addrs_cons]
    exact ((List.sublist_cons_self _ _).cons_cons _).append_left _
  have ha : a ∉ Linked.addrs (l ++ (p, y) :: (r, z) :: l') := by
    simp only [Linked.addrs_append, Linked.addrs_cons, List.mem_append, List.mem_cons, not_or]
    exact ⟨fun hm ↦ hdisj a hm a (by simp) rfl, Ne.symm hpa, har, hal'⟩
  refine ⟨_, hrun, hch.update_of_notMem ha none, hb.nodup.sublist hsub,
    fun a' ha' ↦ hb.lt_fresh a' (hsub.subset ha'), fun _ ↦ ?_, by simp, ?_, by simp⟩
  · have hfirst := hb.first (by simp)
    rw [Linked.first_append] at hfirst ⊢
    exact hfirst
  · have hlen := hb.length_le
    simp only [List.length_append, List.length_cons] at hlen ⊢
    omega

/-- The prune of a record that is passed. -/
theorem prunePassed_spec {q : Names} {us : List (ℕ × ℤ)} (hq : q.Users us) (t d : ℤ) :
    ∃ q', (if q.nEntry > 0 then prune q t d else some q) = some q' ∧ q'.Users (expire (t - d) us) ∧
      q.SameEntry q' := by
  obtain ⟨l, hq, rfl⟩ := hq
  rcases eq_or_ne l [] with rfl | hl
  · exact ⟨q, by simp [hq.nEntry], ⟨[], hq, rfl⟩, .refl q⟩
  · obtain ⟨q', l', hrun, hq', hl', hsame⟩ := prune_spec hq hl t d
    have hpos : q.nEntry > 0 := by simpa [hq.nEntry] using List.length_pos_iff.2 hl
    exact ⟨q', by rw [if_pos hpos, hrun], ⟨l', hq', hl'⟩, hsame⟩

/-- The search in the bucket stopped at `s`, which is the record at the address `a`. -/
def Stop.At (s : Stop) (b : Bucket) (a : ℕ) (found : Bool) : Prop :=
  ∃ l l', b.Holds (l ++ (a, s.cur) :: l') ∧ l.map Prod.snd = s.before ∧ l'.map Prod.snd = s.after ∧
    b.number = s.number ∧ found = s.found

theorem Bucket.Holds.stopAt (hb : b.Holds (l ++ (a, x) :: l')) (found : Bool) :
    Stop.At ⟨l.map Prod.snd, x, l'.map Prod.snd, b.number, found⟩ b a found :=
  ⟨l, l', hb, rfl, rfl, rfl, rfl⟩

/-- **The search without cleaning** is `plainWalk`. -/
theorem searchLoop_spec (name : List UInt8) : ∀ (left : ℕ) (l l' : List (ℕ × NameRec)) (a : ℕ)
    (x : NameRec), b.Holds (l ++ (a, x) :: l') →
    ∃ a' found, searchLoop b.mem name left a = some (a', found) ∧
      (plainWalk name b.number left (l.map Prod.snd) x (l'.map Prod.snd)).At b a' found
  | 0, l, l', a, x, hb => ⟨a, false, rfl, hb.stopAt false⟩
  | left + 1, l, l', a, x, hb => by
    obtain ⟨q, hq, hname, -, -, hnext⟩ := hb.cell
    simp only [searchLoop, hq, hname, Option.bind_eq_bind, Option.bind_some]
    by_cases hn : x.name = name
    · rw [if_pos hn]
      refine ⟨a, true, rfl, ?_⟩
      cases l' <;> simpa [plainWalk, hn] using hb.stopAt true
    rw [if_neg hn]
    cases l' with
    | nil =>
      rw [hnext]
      refine ⟨a, false, rfl, ?_⟩
      simpa [plainWalk, hn] using hb.stopAt false
    | cons p l' =>
      rw [hnext]
      have hb' : b.Holds ((l ++ [(a, x)]) ++ p :: l') := by simpa using hb
      simpa [plainWalk, hn] using searchLoop_spec name left (l ++ [(a, x)]) l' p.1 p.2 hb'

/-- **The search with the partial clean** never follows a bad pointer, and is `partialWalk`. -/
theorem partialCleanLoop_spec (name : List UInt8) (t d : ℤ) : ∀ (fuel i : ℕ) (b : Bucket)
    (l l' : List (ℕ × NameRec)) (a : ℕ) (x : NameRec), b.Holds (l ++ (a, x) :: l') →
    (i = 0 ↔ l = []) → b.number ≤ i + fuel →
    ∃ b' a' found, partialCleanLoop name t d fuel i a b = some (b', a', found) ∧
      (partialWalk name (t - d) i b.number (l.map Prod.snd) x (l'.map Prod.snd)).At b' a' found
  | 0, i, b, l, l', a, x, hb, _, hf => by
    have hi : ¬(i : ℤ) < b.number := by omega
    rw [partialCleanLoop, if_neg hi]
    refine ⟨b, a, false, rfl, ?_⟩
    cases l' <;> simpa [partialWalk, hi] using hb.stopAt false
  | fuel + 1, i, b, l, l', a, x, hb, hil, hf => by
    rw [partialCleanLoop]
    by_cases hi : (i : ℤ) < b.number
    swap
    · rw [if_neg hi]
      refine ⟨b, a, false, rfl, ?_⟩
      cases l' <;> simpa [partialWalk, hi] using hb.stopAt false
    obtain ⟨q, hq, hname, hus, -, hnext⟩ := hb.cell
    simp only [if_pos hi, hq, hname, Option.bind_eq_bind, Option.bind_some]
    by_cases hn : x.name = name
    · rw [if_pos hn]
      refine ⟨b, a, true, rfl, ?_⟩
      cases l' <;> simpa [partialWalk, hi, hn] using hb.stopAt true
    rw [if_neg hn]
    cases l' with
    | nil =>
      rw [hnext]
      refine ⟨b, a, false, rfl, ?_⟩
      simpa [partialWalk, hi, hn] using hb.stopAt false
    | cons p l' =>
      obtain ⟨r, z⟩ := p
      rw [hnext, List.map_cons, partialWalk, if_pos hi, if_neg hn]
      simp only [Linked.first_cons]
      by_cases hi0 : i = 0
      · -- the first record is passed as it is
        obtain rfl := hil.1 hi0
        subst hi0
        simpa using partialCleanLoop_spec name t d fuel 1 b [(a, x)] l' r z hb (by simp)
          (by push_cast at hf ⊢; omega)
      obtain ⟨q', hprune, hus', hsame⟩ := prunePassed_spec hus t d
      have hb' := hb.setUsers hq hsame hus'
      have hlen := hus'.length_eq
      simp only [ne_eq, hi0, not_false_eq_true, if_true, if_false, hprune, Option.bind_some,
        Arena.modify_of_cell hq]
      by_cases hexp : expire (t - d) x.users = []
      · -- the record is deleted: the one before it is followed by the one after it
        obtain ⟨l₀, ⟨p, y⟩, rfl⟩ := (l.eq_nil_or_concat').resolve_left (mt hil.2 hi0)
        rw [List.append_assoc, List.singleton_append] at hb'
        obtain ⟨m, hdel, hb₁⟩ := deleteRecord_spec hb'
        have hle : q'.nEntry ≤ 0 := by simp [hlen, hexp]
        simp only [if_pos hle, hdel, Option.bind_some, if_pos hexp]
        have hb₁' : Bucket.Holds ⟨b.number - 1, ⟨m, b.mem.fresh⟩⟩
          ((l₀ ++ [(p, y)]) ++ (r, z) :: l') := by
          simpa using hb₁
        exact partialCleanLoop_spec name t d fuel (i + 1) _ _ l' r z hb₁' (by simp)
          (by push_cast at hf ⊢; omega)
      · have hgt : ¬q'.nEntry ≤ 0 := by
          have := List.length_pos_iff.2 hexp
          omega
        simp only [if_neg hgt, if_neg hexp]
        have hb₁ : Bucket.Holds ⟨b.number, ⟨Function.update b.mem.cell a (some q'), b.mem.fresh⟩⟩
            ((l ++ [(a, ⟨x.name, expire (t - d) x.users⟩)]) ++ (r, z) :: l') := by simpa using hb'
        simpa using partialCleanLoop_spec name t d fuel (i + 1) _ _ l' r z hb₁ (by simp)
          (by push_cast at hf ⊢; omega)

/-- The test that should keep the complete clean apart always succeeds. -/
theorem drawsPartial_eq_true (p : ℕ) : drawsPartial p = true := by
  rw [drawsPartial, decide_eq_true_eq]
  split <;> decide

/-- **A search** in a bucket that is not empty is `walk`. -/
theorem searchName_spec (hb : b.Holds ((0, x) :: l)) (name : List UInt8) (t d : ℤ) (tsc : ℕ) :
    ∃ b' a found, searchName b name t d tsc = some (b', a, found) ∧
      (walk name (t - d) (probability tsc) b.number x (l.map Prod.snd)).At b' a found := by
  rw [searchName, walk]
  split
  · obtain ⟨a, found, hrun, hat⟩ := searchLoop_spec name b.number.toNat [] l 0 x hb
    exact ⟨b, a, found, by simp [hrun], hat⟩
  · rw [if_pos (drawsPartial_eq_true _)]
    exact partialCleanLoop_spec name t d b.number.toNat 0 b [] l 0 x hb (by simp) (by omega)

/-! ## The call -/

/-- What the search of an empty bucket does: nothing. -/
theorem searchName_empty (hb : b.Holds []) (name : List UInt8) (t d : ℤ) (tsc : ℕ) :
    searchName b name t d tsc = some (b, 0, false) := by
  have hn := hb.number_eq_zero rfl
  simp [searchName, hn, searchLoop, partialCleanLoop, drawsPartial_eq_true]

/-- The bucket `b` of the code is well formed and stands for `s`. -/
def Bucket.View (b : Bucket) (s : NameBucket) : Prop :=
  ∃ l, b.Holds l ∧ l.map Prod.snd = s.recs ∧ b.number = s.number

/-- **Linking a new record** after the one a search stopped at drops whatever came after that. -/
theorem Bucket.Holds.insert {q c : Names} {us : List (ℕ × ℤ)} {name : List UInt8}
    (hb : b.Holds (l ++ (a, x) :: l')) (hq : b.mem.cell a = some q) (hname : c.name = name)
    (hus : c.Users us) (hprev : c.prev = some a) (hnext : c.next = none) :
    Bucket.Holds ⟨b.number + 1, Arena.alloc
      ⟨Function.update b.mem.cell a (some { q with next := some b.mem.fresh }), b.mem.fresh⟩ c⟩
      (l ++ [(a, x), (b.mem.fresh, ⟨name, us⟩)]) := by
  obtain ⟨q₀, hq₀, hn, hu, hp, -⟩ := hb.cell
  obtain rfl : q₀ = q := Option.some.inj (hq₀.symm.trans hq)
  have hsplit : l ++ (a, x) :: l' = (l ++ [(a, x)]) ++ l' := by simp
  have hnodup := hb.nodup
  have hlt := hb.lt_fresh
  rw [hsplit, Linked.addrs_append] at hnodup hlt
  have hla := (List.nodup_append.1 hnodup).1
  rw [Linked.addrs_append] at hla
  have ha : a ∉ Linked.addrs l := fun hm ↦ (List.nodup_append.1 hla).2.2 a hm a (by simp) rfl
  have hfresh : b.mem.fresh ∉ Linked.addrs (l ++ [(a, x)]) := fun hm ↦
    (hlt _ (List.mem_append_left _ hm)).false
  have hch : Linked.Chain b.mem.cell none (l ++ [(a, x)]) (Linked.first l' none) := by
    rw [hsplit] at hb
    exact hb.chain.left
  have hch' := (Linked.Chain.setLast hch ha
    (c := { q₀ with next := some b.mem.fresh }) ⟨hn, hu.relink q₀.name q₀.oldest q₀.prev _⟩ hp
    rfl).update_of_notMem hfresh (some c)
  have hsplit' : l ++ [(a, x), (b.mem.fresh, (⟨name, us⟩ : NameRec))] =
      (l ++ [(a, x)]) ++ [(b.mem.fresh, ⟨name, us⟩)] := by simp
  rw [hsplit']
  refine ⟨Linked.chain_append.2 ⟨hch', ?_⟩, ?_, fun a' ha' ↦ ?_, fun _ ↦ ?_, by simp, ?_, by simp⟩
  · refine Linked.chain_singleton.2 ⟨c, by simp, ⟨hname, hus⟩, ?_, hnext⟩
    rw [Linked.last_append]
    exact hprev
  · rw [Linked.addrs_append, List.nodup_append]
    refine ⟨(List.nodup_append.1 hnodup).1, by simp, fun y hy z hz ↦ ?_⟩
    rw [Linked.addrs_cons, Linked.addrs_nil, List.mem_singleton] at hz
    rintro rfl
    rw [show y = b.mem.fresh from hz] at hy
    exact hfresh hy
  · rw [Linked.addrs_append, List.mem_append] at ha'
    rcases ha' with ha' | ha'
    · exact Nat.lt_succ_of_lt (hlt a' (List.mem_append_left _ ha'))
    · rw [Linked.addrs_cons, Linked.addrs_nil, List.mem_singleton] at ha'
      exact ha' ▸ Nat.lt_succ_self _
  · have hfirst := hb.first (by simp)
    rw [List.append_assoc, Linked.first_append] at *
    exact hfirst
  · have hlen := hb.length_le
    simp only [List.length_append, List.length_cons, List.length_nil] at hlen ⊢
    push_cast at hlen ⊢
    omega

variable {k d : ℤ} {f : Flow} {name : List UInt8} {h : ℕ} {env : TableEnv} {s : NameBucket}

/-- The code does what a result says, and fails if there is none. -/
def Bucket.Refines (run : Option (Bucket × ℤ)) (r : Option (NameBucket × ℤ)) : Prop :=
  match r with
  | none => run = none
  | some (s', ret) => ∃ b', run = some (b', ret) ∧ b'.View s'

/-- A reference that is written back. -/
theorem Bucket.Refines.of_reference {q : Names} {us : List (ℕ × ℤ)}
    {run : Names → Option (Bucket × ℤ)} {r : List (ℕ × ℤ) → NameBucket × ℤ} (hq : q.Users us)
    (hrun : ∀ q' us', q'.Users us' → q.SameEntry q' → ∃ b', run q' = some (b', (r us').2) ∧
      b'.View (r us').1) :
    Bucket.Refines ((referencePage env.allocLru q f h k d).bind run)
      ((Names.tryReference env.allocLru k f.timestamp d h us).map r) := by
  have htry := referencePage_try hq env.allocLru f h k d
  cases hus : Names.tryReference env.allocLru k f.timestamp d h us with
  | none =>
    rw [hus] at htry
    rw [htry]
    rfl
  | some us' =>
    rw [hus] at htry
    obtain ⟨q', hq', husers, hsame⟩ := htry
    rw [hq']
    exact hrun q' us' husers hsame

/-- A new record that is written back. -/
theorem Bucket.Refines.of_new {q : List UInt8 → Names} {run : Names → Option (Bucket × ℤ)}
    {r : NameRec → NameBucket × ℤ} (hq : (q name).Users [])
    (hrun : ∀ q' us', q'.Users us' → (q name).SameEntry q' →
      ∃ b', run q' = some (b', (r ⟨name, us'⟩).2) ∧ b'.View (r ⟨name, us'⟩).1) :
    Bucket.Refines ((strcpyName name).bind fun name ↦
        (referencePage env.allocLru (q name) f h k d).bind run)
      ((NameRec.tryNew k d f.timestamp h name env.allocLru).map r) := by
  by_cases hfits : name.length < nameDns
  · rw [strcpyName_of_lt hfits, NameRec.tryNew, if_pos hfits, Option.map_map]
    exact .of_reference hq hrun
  · rw [strcpyName_of_le (Nat.not_lt.1 hfits), NameRec.tryNew, if_neg hfits]
    rfl

/-- The call in an empty bucket. -/
theorem tableAddBucket_try_empty (hb : b.Holds []) :
    Bucket.Refines (tableAddBucket b f name h k d env)
      ((NameRec.tryNew k d f.timestamp h name env.allocLru).map fun r ↦
        (⟨b.number + 1, [r]⟩, r.users.length)) := by
  obtain ⟨q, hq, hus, hfresh⟩ := hb.idle rfl
  have hn0 := hb.number_eq_zero rfl
  have hne : q.nEntry = 0 := by simpa using hus.length_eq
  have hus' : Names.Users { q with
      name := name, oldest := f.timestamp, prev := none, next := none, nEntry := 0 } [] := by
    rw [← hne]
    exact hus.relink name f.timestamp none none
  simp only [tableAddBucket, searchName_empty hb, hn0, hq, Option.bind_eq_bind, Option.bind_some,
    Bool.false_eq_true,
    if_false, if_true]
  refine .of_new ?_ fun q' us' husers hsame ↦ ?_
  · exact hus'
  refine ⟨⟨0 + 1, ⟨Function.update b.mem.cell 0 (some q'), b.mem.fresh⟩⟩, ?_, [(0, ⟨name, us'⟩)],
    ?_, rfl, rfl⟩
  · simp [Arena.modify_of_cell hq, husers.length_eq]
  · exact ⟨⟨⟨q', by simp, ⟨hsame.name, husers⟩, hsame.prev, hsame.next⟩, trivial⟩, by simp,
      by simpa using hfresh, by simp, by simp, by simp, by simp⟩

/-- The call from where its search stopped. -/
theorem tableAddBucket_try_stop {b' : Bucket} {w : Stop} {a : ℕ} {found : Bool}
    (hsearch : searchName b name f.timestamp d env.tsc = some (b', a, found))
    (hat : w.At b' a found) :
    Bucket.Refines (tableAddBucket b f name h k d env) (w.tryAdd k d f.timestamp h name env) := by
  obtain ⟨l₁, l₂, hb', hl₁, hl₂, hnum, hfound⟩ := hat
  obtain ⟨q, hq, -, hus, -, -⟩ := hb'.cell
  rw [Stop.tryAdd, ← hfound]
  simp only [tableAddBucket, hsearch, Option.bind_eq_bind, Option.bind_some]
  cases found with
  | true =>
    simp only [if_true, hq, Option.bind_some]
    refine .of_reference hus fun q' us' husers hsame ↦
      ⟨_, ?_, _, hb'.setUsers hq hsame husers, ?_, hnum⟩
    · simp [Arena.modify_of_cell hq, husers.length_eq]
    · simp [hl₁, hl₂]
  | false =>
    have hpos : b'.number ≠ 0 := by
      have := hb'.length_le
      simp only [List.length_append, List.length_cons] at this
      omega
    simp only [Bool.false_eq_true, if_false, if_neg hpos]
    split
    · have hnew : (newName name a f.timestamp).Users [] :=
        Names.users_zero.relink name f.timestamp (some a) none
      rw [Arena.modify_of_cell hq, Option.bind_some]
      refine .of_new ?_ fun q' us' husers hsame ↦ ?_
      · exact hnew
      refine ⟨_, ?_, _, hb'.insert hq (hsame.name.trans (newName_name ..))
        husers (hsame.prev.trans (newName_prev ..)) (hsame.next.trans (newName_next ..)), ?_, ?_⟩
      · rw [husers.length_eq]
      · simp [hl₁]
      · rw [hnum]
    · exact ⟨b', rfl, _, hb', by simp [Stop.bucket, Stop.recs, hl₁, hl₂], hnum⟩

/-- **The code refines `NameBucket.tryAdd`**, whatever the allocations give and the name is: on a
well-formed bucket it leaves what that says, and goes wrong exactly where that has no result. -/
theorem tableAddBucket_try (hb : b.View s) (f : Flow) (name : List UInt8) (h : ℕ) (k d : ℤ)
    (env : TableEnv) :
    Bucket.Refines (tableAddBucket b f name h k d env) (s.tryAdd k d f.timestamp h name env) := by
  obtain ⟨l, hb, hrecs, hnum⟩ := hb
  rw [NameBucket.tryAdd, ← hrecs, ← hnum]
  cases l with
  | nil => exact tableAddBucket_try_empty hb
  | cons p l =>
    obtain ⟨a, x⟩ := p
    obtain rfl : a = 0 := Option.some.inj (hb.first (by simp))
    obtain ⟨b', a, found, hsearch, hat⟩ := searchName_spec hb name f.timestamp d env.tsc
    exact tableAddBucket_try_stop hsearch hat

/-- **The code refines `NameBucket.add`**: on a well-formed bucket, with enough memory, a call
leaves a well-formed bucket, and does and returns what `NameBucket.add` says, or its name does not
fit into a record. -/
theorem tableAddBucket_spec {s : NameBucket} (hb : b.View s) (hd : 0 ≤ d) (f : Flow)
    (name : List UInt8) (h : ℕ) (hnames : env.allocNames = true) (hlru : env.allocLru = true) :
    (∃ b', tableAddBucket b f name h k d env =
        some (b', (s.add k d f.timestamp h name (probability env.tsc)).2) ∧
      b'.View (s.add k d f.timestamp h name (probability env.tsc)).1) ∨
    nameDns ≤ name.length ∧ tableAddBucket b f name h k d env = none := by
  have htry := tableAddBucket_try hb f name h k d env
  rcases NameBucket.tryAdd_or hd f.timestamp h name hnames hlru s with hadd | ⟨hlong, hnone⟩
  · rw [hadd] at htry
    exact .inl htry
  · rw [hnone] at htry
    exact .inr ⟨hlong, htry⟩

/-- The records of a well-formed bucket are what its chain reads as. -/
theorem Bucket.View.records_eq {s : NameBucket} (hb : b.View s) : b.records = s.recs := by
  obtain ⟨l, hb, hrecs, -⟩ := hb
  rw [Bucket.records, ← hrecs]
  rcases eq_or_ne l [] with rfl | hl
  · rw [if_pos (hb.number_eq_zero rfl), List.map_nil]
  have hlen : l.length ≤ b.mem.fresh := by
    have hsub : Linked.addrs l ⊆ List.range b.mem.fresh := fun a ha ↦
      List.mem_range.2 (hb.lt_fresh a ha)
    simpa [Linked.addrs] using (List.subperm_of_subset hb.nodup hsub).length_le
  have hpos : b.number ≠ 0 := by
    have := hb.length_le
    have := List.length_pos_iff.2 hl
    omega
  rw [if_neg hpos, ← hb.first hl]
  refine hb.chain.follow_eq (fun c r hc ↦ ?_) hlen
  obtain ⟨hname, hus⟩ := hc
  exact congr (congrArg NameRec.mk hname) hus.users_eq

end AlphaMon
