import Mathlib.Data.List.Perm.Subperm
import AlphaMon.Memory.Chain
import AlphaMon.Memory.Recency
import AlphaMon.Struct

/-!
# The user list of a name

`lru.c`: a name's record keeps its users in a doubly linked list, the most recently seen first, and
an array indexed by client hash that says which clients are in the list and where.  `referencePage`
moves the caller to the front (`enqueue` when it is not there yet) and then, but only when the list
has grown past `k_anon`, prunes from the tail the clients not seen for `k_delta` seconds.

The definitions follow the C line by line on the arena `Names.nodes`; a result of `none` is a null
or dangling pointer followed.  `Names.Users q us` says that the record `q` is well formed and that
its list, read as a recency list, is `us`.  The main results say that under it the three operations
never fail and do what they should to the recency list:

* `enqueue_spec` and `moveToFront_spec` are both `Recency.touch`;
* `prune_spec` is `Recency.expire`;
* `referencePage_spec` is `Names.reference`, a touch followed by an expire past the threshold.
-/

set_option autoImplicit false

namespace AlphaMon

open Recency

/-! ## The code -/

/-- `newlru`: a fresh node, unless `malloc` fails. -/
def newlru (allocOk : Bool) (nodes : Arena Lru) (clientHash : ℕ) (timestamp : ℤ) :
    Option ℕ × Arena Lru :=
  if allocOk then
    (some nodes.fresh, nodes.alloc ⟨clientHash, timestamp, none, none⟩)
  else (none, nodes)

/-- `Enqueue`: put a client that is not in the list at its front. -/
def enqueue (allocOk : Bool) (queue : Names) (flowRecv : Flow) (hashVal : ℕ) : Option Names :=
  match newlru allocOk queue.nodes hashVal flowRecv.timestamp with
  | (none, _) => some queue
  | (some tmp, nodes) => do
    let queue ←
      if queue.nEntry = 0 then
        some { queue with nodes := nodes, tail := some tmp, head := some tmp }
      else do
        let nodes ← nodes.modify (some tmp) fun c ↦ { c with next := queue.head }
        let nodes ← nodes.modify queue.head fun c ↦ { c with prev := some tmp }
        some { queue with nodes := nodes, head := some tmp }
    let slot : Client :=
      { active := 1, ipv := flowRecv.ipv, ipv4Src := flowRecv.ipv4Src, ipv4Dst := flowRecv.ipv4Dst
        ipv6Src := flowRecv.ipv6Src, ipv6Dst := flowRecv.ipv6Dst, inPort := flowRecv.inPort
        outPort := flowRecv.outPort, protocol := flowRecv.protocol
        lastSeen := flowRecv.timestamp, lruPtr := some tmp }
    some { queue with
      clientList := Function.update queue.clientList hashVal slot
      nEntry := queue.nEntry + 1
      nClient := queue.nClient + 1 }

/-- The slot of a client leaving the list. -/
def Client.clear (c : Client) : Client := { c with active := 0, lruPtr := none }

/-- The loop of `prune`, with a bound on the number of nodes it can still meet. -/
def pruneLoop (cutoff : ℤ) : ℕ → Option ℕ → Names → Option Names
  | 0, _, _ => none
  | fuel + 1, tmp, queue => do
    let node ← queue.nodes.read tmp
    if node.timestamp < cutoff then
      let clientList := Function.update queue.clientList node.clientHash
        (queue.clientList node.clientHash).clear
      if queue.tail = queue.head then do
        let nodes ← queue.nodes.free tmp
        some { queue with
          clientList := clientList, nEntry := queue.nEntry - 1, head := none, tail := none
          nodes := nodes }
      else do
        let nodes ← queue.nodes.modify node.prev fun c ↦ { c with next := none }
        let nodes ← nodes.free tmp
        pruneLoop cutoff fuel node.prev { queue with
          clientList := clientList, nEntry := queue.nEntry - 1, tail := node.prev, nodes := nodes }
    else some queue

/-- `prune`: drop from the tail the clients last seen before `timestamp - delta`. -/
def prune (queue : Names) (timestamp delta : ℤ) : Option Names :=
  pruneLoop (timestamp - delta) (queue.nodes.fresh + 1) queue.tail queue

/-- The middle branch of `referencePage`, first half: unlink the client's node, which is not the
first. -/
def unlinkPage (queue : Names) (ptr : Option ℕ) : Option Names := do
  let node ← queue.nodes.read ptr
  let nodes ← queue.nodes.modify node.prev fun c ↦ { c with next := node.next }
  let node ← nodes.read ptr
  let nodes ←
    if node.next = none then some nodes
    else nodes.modify node.next fun c ↦ { c with prev := node.prev }
  if ptr = queue.tail then do
    -- the node was the tail: the one before it becomes the tail
    let node ← nodes.read ptr
    let nodes ← nodes.modify node.prev fun c ↦ { c with next := none }
    some { queue with tail := node.prev, nodes := nodes }
  else some { queue with nodes := nodes }

/-- The middle branch of `referencePage`, second half: put the node before the head. -/
def linkFront (queue : Names) (ptr : Option ℕ) (timestamp : ℤ) : Option Names := do
  let nodes ← queue.nodes.modify ptr fun c ↦ { c with next := queue.head }
  let nodes ← nodes.modify ptr fun c ↦ { c with prev := none }
  let node ← nodes.read ptr
  let nodes ← nodes.modify node.next fun c ↦ { c with prev := ptr }
  let nodes ← nodes.modify ptr fun c ↦ { c with timestamp := timestamp }
  some { queue with nodes := nodes, head := ptr }

/-- The first half of `referencePage`: bring the client to the front, with the time of the
packet. -/
def touchPage (allocOk : Bool) (queue : Names) (flowRecv : Flow) (hashVal : ℕ) : Option Names :=
  if (queue.clientList hashVal).active = 0 then enqueue allocOk queue flowRecv hashVal
  else if (queue.clientList hashVal).lruPtr ≠ queue.head then do
    let queue' ← unlinkPage queue (queue.clientList hashVal).lruPtr
    linkFront queue' (queue.clientList hashVal).lruPtr flowRecv.timestamp
  else do
    let nodes ← queue.nodes.modify queue.head fun c ↦ { c with timestamp := flowRecv.timestamp }
    some { queue with nodes := nodes }

/-- `referencePage`: record that a client was seen, then prune if the list is past `k_anon`. -/
def referencePage (allocOk : Bool) (queue : Names) (flowRecv : Flow) (hashVal : ℕ)
    (kAnon kDelta : ℤ) : Option Names := do
  let queue ← touchPage allocOk queue flowRecv hashVal
  let queue ← (if queue.nEntry > kAnon then prune queue flowRecv.timestamp kDelta else some queue)
  let node ← queue.nodes.read queue.tail
  some { queue with oldest := node.timestamp }

/-! ## What a record holds -/

instance : Linked Lru (ℕ × ℤ) where
  prev := Lru.prev
  next := Lru.next
  Rep c x := (c.clientHash, c.timestamp) = x

/-- The record `q` is well formed and its list consists of the nodes `l`, from the head: a chain
with `head` and `tail` at its ends and `n_entry` its length, in which no client occurs twice, and
an index that agrees with it. -/
structure Names.Holds (q : Names) (l : List (ℕ × ℕ × ℤ)) : Prop where
  /-- The nodes are linked both ways. -/
  chain : Linked.Chain q.nodes.cell none l none
  /-- No node occurs twice. -/
  nodup : (Linked.addrs l).Nodup
  /-- The nodes were handed out. -/
  lt_fresh : ∀ a ∈ Linked.addrs l, a < q.nodes.fresh
  /-- `head` is the first node. -/
  head : q.head = Linked.first l none
  /-- `tail` is the last node. -/
  tail : q.tail = Linked.last none l
  /-- `n_entry` counts the nodes. -/
  nEntry : q.nEntry = l.length
  /-- No client occurs twice. -/
  keys : (keys (l.map Prod.snd)).Nodup
  /-- The slot of a client in the list is active and points at its node. -/
  active : ∀ p ∈ l, (q.clientList p.2.1).active = 1 ∧ (q.clientList p.2.1).lruPtr = some p.1
  /-- Every other slot is inactive. -/
  idle : ∀ h, h ∉ Recency.keys (l.map Prod.snd) → (q.clientList h).active = 0

/-- The record `q` is well formed and `us` are its users, the most recent first. -/
def Names.Users (q : Names) (us : List (ℕ × ℤ)) : Prop := ∃ l, q.Holds l ∧ l.map Prod.snd = us

/-- The operations on the user list leave the rest of the record alone. -/
structure Names.SameEntry (q q' : Names) : Prop where
  name : q'.name = q.name
  prev : q'.prev = q.prev
  next : q'.next = q.next

theorem Names.SameEntry.refl (q : Names) : q.SameEntry q := ⟨rfl, rfl, rfl⟩

theorem Names.SameEntry.trans {q q' q'' : Names} (h : q.SameEntry q') (h' : q'.SameEntry q'') :
    q.SameEntry q'' :=
  ⟨h'.name.trans h.name, h'.prev.trans h.prev, h'.next.trans h.next⟩

/-- The users of a record, read off its list. -/
def Names.users (q : Names) : List (ℕ × ℤ) :=
  Linked.follow (fun c : Lru ↦ (c.clientHash, c.timestamp)) q.nodes.cell q.nodes.fresh q.head

theorem Names.users_zero : Names.zero.Users [] :=
  ⟨[], ⟨trivial, by simp, by simp, rfl, rfl, rfl, by simp, by simp, fun _ _ ↦ rfl⟩, rfl⟩

variable {q : Names} {l : List (ℕ × ℕ × ℤ)} {us : List (ℕ × ℤ)} {h : ℕ} {f : Flow}

/-- The users of a record do not depend on its name, its time or its links. -/
theorem Names.Users.relink (hq : q.Users us) (name : List UInt8) (oldest : ℤ)
    (prev next : Option ℕ) :
    ({ q with name := name, oldest := oldest, prev := prev, next := next } : Names).Users us := by
  obtain ⟨l, hq, rfl⟩ := hq
  exact ⟨l, ⟨hq.chain, hq.nodup, hq.lt_fresh, hq.head, hq.tail, hq.nEntry, hq.keys, hq.active,
    hq.idle⟩,
    rfl⟩

/-! ## Enqueue -/

/-- The index after a client is given the node `a`. -/
theorem Names.Holds.active_update (hq : q.Holds l) (hh : h ∉ Recency.keys (l.map Prod.snd))
    {slot : Client} {a : ℕ} (ha : slot.active = 1) (hp : slot.lruPtr = some a) (t : ℤ)
    (p : ℕ × ℕ × ℤ) (hmem : p ∈ (a, h, t) :: l) :
    (Function.update q.clientList h slot p.2.1).active = 1 ∧
      (Function.update q.clientList h slot p.2.1).lruPtr = some p.1 := by
  rcases List.mem_cons.1 hmem with rfl | hmem
  · simp [ha, hp]
  · have hne : p.2.1 ≠ h := fun he ↦ hh (he ▸ mem_keys.2 ⟨p.2.2, List.mem_map.2 ⟨p, hmem, rfl⟩⟩)
    simpa [Function.update_of_ne hne] using hq.active p hmem

/-- **`Enqueue` puts a new client at the front.** -/
theorem enqueue_spec (hq : q.Holds l) (hh : h ∉ Recency.keys (l.map Prod.snd)) :
    ∃ q', enqueue true q f h = some q' ∧ q'.Holds ((q.nodes.fresh, h, f.timestamp) :: l) ∧
      q.SameEntry q' := by
  have hfresh : q.nodes.fresh ∉ Linked.addrs l := fun ha ↦ (hq.lt_fresh _ ha).false
  have hlt : ∀ a ∈ q.nodes.fresh :: Linked.addrs l, a < q.nodes.fresh + 1 := by
    simpa using fun a ha ↦ Nat.lt_succ_of_lt (hq.lt_fresh a ha)
  have hidle : ∀ slot h', h' ∉ Recency.keys ((h, f.timestamp) :: l.map Prod.snd) →
      (Function.update q.clientList h slot h').active = 0 := by
    intro slot h' hh'
    rw [Recency.keys_cons, List.mem_cons, not_or] at hh'
    rw [Function.update_of_ne hh'.1]
    exact hq.idle h' hh'.2
  cases l with
  | nil =>
    have hn : q.nEntry = 0 := by simpa using hq.nEntry
    simp only [enqueue, newlru, if_true, hn]
    refine ⟨_, rfl, ?_, ⟨rfl, rfl, rfl⟩⟩
    exact ⟨⟨⟨_, Function.update_self .., rfl, rfl, rfl⟩, trivial⟩, by simp, hlt, rfl, rfl, by simp,
      by simp, hq.active_update hh rfl rfl _, hidle _⟩
  | cons p l =>
    have hn : q.nEntry ≠ 0 := by simp [hq.nEntry]; omega
    obtain ⟨⟨c, hc, hR, hp, hnx⟩, hl⟩ := hq.chain
    have hpf : p.1 ≠ q.nodes.fresh := fun he ↦ hfresh (by simp [he])
    have hhead : q.head = some p.1 := hq.head
    have hnew : (q.nodes.alloc ⟨h, f.timestamp, none, none⟩).cell q.nodes.fresh =
        some ⟨h, f.timestamp, none, none⟩ := by simp
    have hold : (Function.update (q.nodes.alloc ⟨h, f.timestamp, none, none⟩).cell q.nodes.fresh
        (some ⟨h, f.timestamp, none, q.head⟩)) p.1 = some c := by
      simpa [Function.update_of_ne hpf] using hc
    simp only [enqueue, newlru, if_true, if_neg hn, Arena.modify_of_cell hnew, hhead,
      Option.bind_eq_bind, Option.bind_some]
    rw [Arena.modify_of_cell (by simpa [hhead] using hold)]
    simp only [Option.bind_some]
    refine ⟨_, rfl, ?_, ⟨rfl, rfl, rfl⟩⟩
    have hnd := hq.nodup
    rw [Linked.addrs_cons, List.nodup_cons] at hnd
    refine ⟨⟨⟨⟨h, f.timestamp, none, some p.1⟩, ?_, rfl, rfl, rfl⟩, ?_⟩,
      List.nodup_cons.2 ⟨hfresh, hq.nodup⟩, hlt, rfl, hq.tail, by simp [hq.nEntry],
      List.nodup_cons.2 ⟨hh, hq.keys⟩, hq.active_update hh rfl rfl _, hidle _⟩
    · simp [Function.update_of_ne hpf.symm]
    · -- the old head points back at the new node, and the rest of the chain is not touched
      have hch := (hq.chain.update_of_notMem hfresh
        (some ⟨h, f.timestamp, none, none⟩)).update_of_notMem hfresh
        (some ⟨h, f.timestamp, none, some p.1⟩)
      exact hch.setFirst (c := { c with prev := some q.nodes.fresh }) hnd.1 hR rfl hnx

/-! ## Refreshing the head -/

/-- **Referencing the client at the front** only sets its time. -/
theorem refreshHead_spec {a s : ℕ} {r : ℤ} (hq : q.Holds ((a, s, r) :: l)) (t : ℤ) :
    ∃ nodes, q.nodes.modify q.head (fun c ↦ { c with timestamp := t }) = some nodes ∧
      ({ q with nodes := nodes } : Names).Holds ((a, s, t) :: l) := by
  obtain ⟨⟨c, hc, hR, hp, hnx⟩, -⟩ := hq.chain
  have hmod : q.nodes.modify q.head (fun c ↦ { c with timestamp := t }) =
      some ⟨Function.update q.nodes.cell a (some { c with timestamp := t }), q.nodes.fresh⟩ := by
    rw [show q.head = some a from hq.head]
    exact Arena.modify_of_cell hc _
  have hnd := List.nodup_cons.1 hq.nodup
  have hact : ∀ p ∈ (a, s, t) :: l,
      (q.clientList p.2.1).active = 1 ∧ (q.clientList p.2.1).lruPtr = some p.1 := by
    intro p hp
    rcases List.mem_cons.1 hp with rfl | hp
    · exact hq.active (a, s, r) (by simp)
    · exact hq.active p (by simp [hp])
  refine ⟨_, hmod, ⟨?_, hq.nodup, hq.lt_fresh, hq.head, hq.tail, hq.nEntry, hq.keys, hact, hq.idle⟩⟩
  have hs : c.clientHash = s := congrArg Prod.fst hR
  exact hq.chain.setFirst (c := { c with timestamp := t }) hnd.1 (by rw [← hs]; rfl) hp hnx

/-! ## Prune -/

/-- Without its last node, the list of a record is shorter by one client. -/
theorem Names.Holds.dropLast_index {a s : ℕ} {r : ℤ} (hq : q.Holds (l ++ [(a, s, r)])) :
    (∀ p ∈ l, (Function.update q.clientList s (q.clientList s).clear p.2.1).active = 1 ∧
      (Function.update q.clientList s (q.clientList s).clear p.2.1).lruPtr = some p.1) ∧
    ∀ h, h ∉ Recency.keys (l.map Prod.snd) →
      (Function.update q.clientList s (q.clientList s).clear h).active = 0 := by
  have hkeys := hq.keys
  simp only [Recency.keys, List.map_append, List.map_cons, List.map_nil] at hkeys
  constructor
  · intro p hp
    have hne : p.2.1 ≠ s := by
      rintro rfl
      have hmem : p.2.1 ∈ (l.map Prod.snd).map Prod.fst :=
        List.mem_map.2 ⟨p.2, List.mem_map_of_mem hp, rfl⟩
      exact (List.nodup_append.1 hkeys).2.2 p.2.1 hmem p.2.1 (by simp) rfl
    rw [Function.update_of_ne hne]
    exact hq.active p (by simp [hp])
  · intro h hh
    by_cases he : h = s
    · subst he; simp [Client.clear]
    · rw [Function.update_of_ne he]
      exact hq.idle h (by simpa [Recency.keys, he] using hh)

/-- A record without its last node, when there are others, is well formed. -/
theorem Names.Holds.dropTail {a b g s : ℕ} {u r : ℤ} {nb : Lru}
    (hq : q.Holds (l ++ [(b, g, u), (a, s, r)])) (hnb : q.nodes.cell b = some nb) :
    ({ q with
      clientList := Function.update q.clientList s (q.clientList s).clear
      nEntry := q.nEntry - 1, tail := some b
      nodes := ⟨Function.update (Function.update q.nodes.cell b (some { nb with next := none })) a
        none, q.nodes.fresh⟩ } : Names).Holds (l ++ [(b, g, u)]) := by
  have hsplit : l ++ [(b, g, u), (a, s, r)] = (l ++ [(b, g, u)]) ++ [(a, s, r)] := by simp
  have hnodup := hq.nodup
  have hkeys := hq.keys
  rw [hsplit, Linked.addrs_append] at hnodup
  rw [hsplit, List.map_append, Recency.keys, List.map_append] at hkeys
  have hb : b ∉ Linked.addrs l := fun hm ↦ by
    have hnd := (List.nodup_append.1 hnodup).1
    rw [Linked.addrs_append] at hnd
    exact (List.nodup_append.1 hnd).2.2 b hm b (by simp) rfl
  have ha : a ∉ Linked.addrs (l ++ [(b, g, u)]) := fun hm ↦
    (List.nodup_append.1 hnodup).2.2 a hm a (by simp) rfl
  obtain ⟨c, hc, hR, -, -⟩ := hq.chain.cell
  obtain rfl : c = nb := Option.some.inj (hc.symm.trans hnb)
  have hch : Linked.Chain (Function.update q.nodes.cell b (some { c with next := none })) none
      (l ++ [(b, g, u)]) none :=
    Linked.Chain.unlinkLast hq.chain hb hnb hR rfl rfl
  rw [hsplit] at hq
  obtain ⟨hact, hidle⟩ := hq.dropLast_index
  refine ⟨hch.update_of_notMem ha none, (List.nodup_append.1 hnodup).1, fun a' ha' ↦
    hq.lt_fresh a' ?_, ?_, by
      simp, by simp [hq.nEntry]; omega, (List.nodup_append.1 hkeys).1, hact, hidle⟩
  · rw [Linked.addrs_append]
    exact List.mem_append_left _ ha'
  · have hhead := hq.head
    cases l <;> exact hhead

theorem pruneLoop_spec (c : ℤ) : ∀ (fuel : ℕ) (q : Names) (l : List (ℕ × ℕ × ℤ)), q.Holds l →
    l ≠ [] → l.length ≤ fuel →
    ∃ q' l', pruneLoop c fuel q.tail q = some q' ∧ q'.Holds l' ∧
      l'.map Prod.snd = expire c (l.map Prod.snd) ∧ q.SameEntry q'
  | 0, _, _, _, hl, hf => absurd (List.length_eq_zero_iff.1 (Nat.le_zero.1 hf)) hl
  | fuel + 1, q, l, hq, hl, hf => by
    obtain ⟨l₀, ⟨a, s, r⟩, rfl⟩ : ∃ l₀ p, l = l₀ ++ [p] :=
      ⟨l.dropLast, l.getLast hl, (List.dropLast_append_getLast hl).symm⟩
    have htail : q.tail = some a := by simpa using hq.tail
    obtain ⟨nd, hnd, hR, hp, -⟩ := hq.chain.cell
    obtain ⟨rfl, rfl⟩ : nd.clientHash = s ∧ nd.timestamp = r := Prod.mk.inj hR
    rw [pruneLoop, htail]
    simp only [Arena.read_some, hnd, Option.bind_eq_bind, Option.bind_some, List.map_append,
      List.map_cons, List.map_nil, expire_concat]
    by_cases hlt : nd.timestamp < c
    swap
    · exact ⟨q, _, by simp [hlt], hq, by simp [hlt], .refl q⟩
    simp only [if_pos hlt]
    rcases l₀.eq_nil_or_concat' with rfl | ⟨l₁, ⟨b, g, u⟩, rfl⟩
    · -- the last node of the list
      obtain ⟨hact, hidle⟩ := hq.dropLast_index
      have hhead : q.head = some a := hq.head
      rw [hhead, if_pos rfl, Arena.free_of_cell hnd]
      refine ⟨_, [], rfl, ?_, rfl, ⟨rfl, rfl, rfl⟩⟩
      exact ⟨trivial, by simp, by simp, rfl, rfl, by simp [hq.nEntry], by simp, hact, hidle⟩
    · have hprev : nd.prev = some b := hp.trans (by simp)
      have hnodup := hq.nodup
      rw [Linked.addrs_append] at hnodup
      have hba : b ≠ a := (List.nodup_append.1 hnodup).2.2 b (by simp) a (by simp)
      have hne : some a ≠ q.head := by
        rw [hq.head]
        cases l₁ with
        | nil => exact fun he ↦ hba (Option.some.inj he).symm
        | cons p l₁ =>
          exact fun he ↦ (List.nodup_append.1 hnodup).2.2 p.1 (by simp) a (by simp)
            (Option.some.inj he).symm
      rw [List.append_assoc, List.singleton_append] at hq
      obtain ⟨nb, hnb, -, -, -⟩ := hq.chain.cell
      have hcell : (Function.update q.nodes.cell b (some { nb with next := none })) a =
        some nd := by
        rwa [Function.update_of_ne hba.symm]
      have hfree := Arena.free_of_cell
        (m := ⟨Function.update q.nodes.cell b (some { nb with next := none }), q.nodes.fresh⟩) hcell
      rw [if_neg hne, hprev, Arena.modify_of_cell hnb]
      simp only [Option.bind_some, hfree]
      obtain ⟨q', l', hrun, hq', hview, hsame⟩ := pruneLoop_spec c fuel _ _ (hq.dropTail hnb)
        (by simp) (by simpa using hf)
      exact ⟨q', l', hrun, hq', by simpa using hview, ⟨hsame.name, hsame.prev, hsame.next⟩⟩

/-- The addresses of a list of nodes fit into what was handed out. -/
theorem Names.Holds.length_le_fresh (hq : q.Holds l) : l.length ≤ q.nodes.fresh := by
  have hsub : Linked.addrs l ⊆ List.range q.nodes.fresh := fun a ha ↦
    List.mem_range.2 (hq.lt_fresh a ha)
  simpa [Linked.addrs] using (List.subperm_of_subset hq.nodup hsub).length_le

/-- The users of a well-formed record are what its list reads as. -/
theorem Names.Users.users_eq (hq : q.Users us) : q.users = us := by
  obtain ⟨l, hq, rfl⟩ := hq
  rw [Names.users, hq.head]
  exact hq.chain.follow_eq (fun _ _ h ↦ h) hq.length_le_fresh

theorem Names.Users.length_eq (hq : q.Users us) : q.nEntry = us.length := by
  obtain ⟨l, hq, rfl⟩ := hq
  simpa using hq.nEntry

/-- **`prune` drops the clients not seen for `delta` seconds**, from the back. -/
theorem prune_spec (hq : q.Holds l) (hl : l ≠ []) (t d : ℤ) :
    ∃ q' l', prune q t d = some q' ∧ q'.Holds l' ∧
      l'.map Prod.snd = expire (t - d) (l.map Prod.snd) ∧ q.SameEntry q' :=
  pruneLoop_spec _ _ q l hq hl (hq.length_le_fresh.trans (Nat.le_succ _))

/-! ## Moving to the front -/

/-- The node list with one node moved to the front is still what the index describes. -/
theorem Names.Holds.perm_index {l' : List (ℕ × ℕ × ℤ)} {a s : ℕ} {r t : ℤ}
    (hq : q.Holds (l ++ (a, s, r) :: l')) :
    (∀ p ∈ (a, s, t) :: (l ++ l'),
      (q.clientList p.2.1).active = 1 ∧ (q.clientList p.2.1).lruPtr = some p.1) ∧
    (∀ h, h ∉ Recency.keys (((a, s, t) :: (l ++ l')).map Prod.snd) → (q.clientList h).active = 0) ∧
    (Recency.keys (((a, s, t) :: (l ++ l')).map Prod.snd)).Nodup := by
  refine ⟨fun p hp ↦ ?_, fun h hh ↦ hq.idle h ?_, ?_⟩
  · rcases List.mem_cons.1 hp with rfl | hp
    · exact hq.active (a, s, r) (by simp)
    · exact hq.active p (by rcases List.mem_append.1 hp with hp | hp <;> simp [hp])
  · intro hm
    exact hh (by simpa [Recency.keys, or_left_comm] using hm)
  · have hperm : (Recency.keys ((l ++ (a, s, r) :: l').map Prod.snd)).Perm
        (Recency.keys (((a, s, t) :: (l ++ l')).map Prod.snd)) := by
      simp only [Recency.keys, List.map_append, List.map_cons]
      exact List.perm_middle
    exact hperm.nodup hq.keys

/-- **Unlinking a node** that is not the first joins its neighbours and keeps the node itself. -/
theorem unlinkPage_spec {l' : List (ℕ × ℕ × ℤ)} {a b s : ℕ} {x : ℕ × ℤ} {r : ℤ}
    (hq : q.Holds (l ++ (b, x) :: (a, s, r) :: l')) :
    ∃ m c, unlinkPage q (some a) =
        some { q with nodes := ⟨m, q.nodes.fresh⟩, tail := Linked.last none (l ++ (b, x) :: l') } ∧
      m a = some c ∧ c.clientHash = s ∧ Linked.Chain m none (l ++ (b, x) :: l') none := by
  have hnodup := hq.nodup
  rw [Linked.addrs_append] at hnodup
  obtain ⟨-, hnd, hdisj⟩ := List.nodup_append.1 hnodup
  simp only [Linked.addrs_cons, List.nodup_cons, List.mem_cons, not_or] at hnd
  have hba : b ≠ a := hnd.1.1
  have hb : b ∉ Linked.addrs l := fun hm ↦ hdisj b hm b (by simp) rfl
  obtain ⟨nb, hnb, hRb, hpb, -⟩ := hq.chain.cell
  obtain ⟨na, hna, hRa, hpa, hxa⟩ := (show Linked.Chain q.nodes.cell none
    ((l ++ [(b, x)]) ++ (a, s, r) :: l') none by simpa using hq.chain).cell
  have hpa : na.prev = some b := hpa.trans (by simp)
  have hs : na.clientHash = s := congrArg Prod.fst hRa
  cases l' with
  | nil =>
    -- the node is the tail
    have hxa : na.next = none := hxa
    have htail : q.tail = some a := hq.tail.trans (by simp)
    refine ⟨Function.update q.nodes.cell b (some { nb with next := none }), na, ?_, ?_, hs,
      Linked.Chain.unlinkLast hq.chain hb hnb hRb rfl rfl⟩
    · simp [unlinkPage, Arena.modify, hna, hpa, hnb, hxa, htail, Function.update_of_ne hba.symm]
    · rw [Function.update_of_ne hba.symm, hna]
  | cons p l' =>
    obtain ⟨d, y⟩ := p
    simp only [Linked.addrs_cons, List.mem_cons, not_or] at hnd
    have hda : d ≠ a := fun he ↦ hnd.2.1.1 he.symm
    have hbd : b ≠ d := hnd.1.2.1
    have hxa : na.next = some d := hxa
    obtain ⟨nd, hnd', hRd, hpd, hxd⟩ := (show Linked.Chain q.nodes.cell none
      ((l ++ [(b, x), (a, s, r)]) ++ (d, y) :: l') none by simpa using hq.chain).cell
    have htail : some a ≠ q.tail := by
      obtain ⟨t, ht, he⟩ := Linked.exists_last (l := (d, y) :: l') (by simp) (some a)
      rw [hq.tail, Linked.last_append, Linked.last_cons, Linked.last_cons, he]
      rintro ⟨⟩
      exact absurd ht (by simpa using hnd.2.1)
    refine ⟨Function.update (Function.update q.nodes.cell b (some { nb with next := some d })) d
      (some { nd with prev := some b }), na, ?_, ?_, hs,
      Linked.Chain.unlink hq.chain hq.nodup hnb hRb rfl rfl hnd' hRd rfl rfl⟩
    · simp [unlinkPage, Arena.modify, hna, hpa, hnb, hxa, htail, hnd',
        Function.update_of_ne hba.symm, Function.update_of_ne hbd.symm]
      exact hq.tail.trans (by simp)
    · rw [Function.update_of_ne hda.symm, Function.update_of_ne hba.symm, hna]

/-- **Linking a node at the front** of the chain it is not in. -/
theorem linkFront_spec {p : ℕ × ℕ × ℤ} {a : ℕ} {c : Lru} (t : ℤ)
    (hch : Linked.Chain q.nodes.cell none (p :: l) none) (hhead : q.head = some p.1)
    (ha : a ∉ Linked.addrs (p :: l)) (hc : q.nodes.cell a = some c)
    (hp : p.1 ∉ Linked.addrs l) :
    ∃ m, linkFront q (some a) t =
        some { q with nodes := ⟨m, q.nodes.fresh⟩, head := some a } ∧
      Linked.Chain m none ((a, c.clientHash, t) :: p :: l) none := by
  obtain ⟨d, hd, hR, -, hn⟩ := hch.1
  have hpa : p.1 ≠ a := fun he ↦ ha (by simp [he])
  -- the four writes: twice the node, then the old head, then the node again
  let m₂ := Function.update (Function.update q.nodes.cell a (some { c with next := some p.1 })) a
    (some { c with prev := none, next := some p.1 })
  let m₃ := Function.update m₂ p.1 (some { d with prev := some a })
  have h₁ : Function.update q.nodes.cell a (some { c with next := some p.1 }) a =
      some { c with next := some p.1 } := Function.update_self ..
  have h₂ : m₂ a = some { c with prev := none, next := some p.1 } := Function.update_self ..
  have h₂' : m₂ p.1 = some d := by simp [m₂, Function.update_of_ne hpa, hd]
  have h₃ : m₃ a = some { c with prev := none, next := some p.1 } :=
    (Function.update_of_ne hpa.symm _ _).trans h₂
  refine ⟨Function.update m₃ a (some { c with prev := none, next := some p.1, timestamp := t }),
    ?_, ⟨_, Function.update_self .., rfl, rfl, rfl⟩, ?_⟩
  · rw [linkFront, Arena.modify_of_cell hc, hhead]
    simp only [Option.bind_eq_bind, Option.bind_some, Arena.modify, h₁, Option.map_some]
    simp only [Arena.read_some, show Function.update (Function.update q.nodes.cell a
      (some { c with next := some p.1 })) a (some { c with prev := none, next := some p.1 }) = m₂
      from rfl, h₂, Option.bind_some, h₂', Option.map_some]
    simp only [show Function.update m₂ p.1 (some { d with prev := some a }) = m₃ from rfl, h₃,
      Option.map_some, Option.bind_some]
  · have hm₂ : Linked.Chain m₂ none (p :: l) none :=
      (hch.update_of_notMem ha _).update_of_notMem ha _
    exact (hm₂.setFirst (c := { d with prev := some a }) hp hR rfl hn).update_of_notMem ha _

/-- **Moving a client to the front**: the middle branch of `referencePage`. -/
theorem moveToFront_spec {l' : List (ℕ × ℕ × ℤ)} {a b s : ℕ} {x : ℕ × ℤ} {r : ℤ} (t : ℤ)
    (hq : q.Holds (l ++ (b, x) :: (a, s, r) :: l')) :
    some a ≠ q.head ∧ ∃ q', (unlinkPage q (some a)).bind (linkFront · (some a) t) = some q' ∧
      q'.Holds ((a, s, t) :: (l ++ (b, x) :: l')) ∧ q.SameEntry q' := by
  obtain ⟨m, c, hun, hc, rfl, hch⟩ := unlinkPage_spec hq
  obtain ⟨p, l₀, hl₀⟩ : ∃ p l₀, l ++ (b, x) :: l' = p :: l₀ := by cases l <;> exact ⟨_, _, rfl⟩
  have hperm : (Linked.addrs (l ++ (b, x) :: (a, c.clientHash, r) :: l')).Perm
      (a :: Linked.addrs (l ++ (b, x) :: l')) := by
    have hsplit : l ++ (b, x) :: (a, c.clientHash, r) :: l' =
      (l ++ [(b, x)]) ++ (a, c.clientHash, r) :: l' := by simp
    rw [hsplit, Linked.addrs_append, Linked.addrs_cons]
    exact List.perm_middle.trans (by simp)
  have hnodup := hperm.nodup hq.nodup
  have hhead : q.head = some p.1 := by
    rw [hq.head]
    cases l with
    | nil => cases hl₀; rfl
    | cons p' l => cases hl₀; rfl
  rw [hl₀] at hch hnodup
  rw [List.nodup_cons] at hnodup
  obtain ⟨m', hlink, hch'⟩ := linkFront_spec
    (q := { q with nodes := ⟨m, q.nodes.fresh⟩, tail := Linked.last none (l ++ (b, x) :: l') })
    t hch hhead hnodup.1 hc (List.nodup_cons.1 hnodup.2).1
  have hrun := (congrArg (·.bind (linkFront · (some a) t)) hun).trans hlink
  refine ⟨fun he ↦ hnodup.1 ?_, _, hrun, ?_, ⟨rfl, rfl, rfl⟩⟩
  · rw [hhead] at he
    simp [Option.some.inj he]
  · have hsplit : l ++ (b, x) :: (a, c.clientHash, r) :: l' =
      (l ++ [(b, x)]) ++ (a, c.clientHash, r) :: l' := by simp
    rw [hsplit] at hq
    obtain ⟨hact, hidle, hkeys⟩ := hq.perm_index (t := t)
    rw [List.append_assoc, List.singleton_append, hl₀] at hact hidle hkeys
    rw [← hsplit] at hq
    rw [hl₀]
    refine ⟨hch', List.nodup_cons.2 hnodup, fun a' ha' ↦ hq.lt_fresh a' ?_, rfl, ?_, ?_, hkeys,
      hact, hidle⟩
    · exact hperm.mem_iff.2 (by rw [hl₀]; exact ha')
    · rfl
    · have hlen := congrArg List.length hl₀
      simp only [List.length_append, List.length_cons] at hlen
      exact hq.nEntry.trans (by simp only [List.length_append, List.length_cons]; omega)

/-! ## referencePage -/

/-- What `referencePage` makes of a user list: the caller is touched, and past the threshold the
users not seen since `t - d` are dropped. -/
def Names.reference (k t d : ℤ) (h : ℕ) (us : List (ℕ × ℤ)) : List (ℕ × ℤ) :=
  if k < (touch h t us).length then expire (t - d) (touch h t us) else touch h t us

/-- The caller itself is not dropped. -/
theorem Names.reference_ne_nil {k t d : ℤ} (hd : 0 ≤ d) (h : ℕ) (us : List (ℕ × ℤ)) :
    Names.reference k t d h us ≠ [] := by
  rw [Names.reference]
  split
  · rw [touch, expire_cons_of_le (show t - d ≤ t by omega)]
    exact List.cons_ne_nil _ _
  · exact List.cons_ne_nil _ _

/-- Whichever of its three branches is taken, `touchPage` touches the caller. -/
theorem touchPage_spec (hq : q.Users us) :
    ∃ q', touchPage true q f h = some q' ∧ q'.Users (touch h f.timestamp us) ∧ q.SameEntry q' := by
  obtain ⟨l, hq, rfl⟩ := hq
  by_cases hh : h ∈ keys (l.map Prod.snd)
  swap
  · -- a client that is not in the list
    obtain ⟨q', hrun, hq', hsame⟩ := enqueue_spec (f := f) hq hh
    exact ⟨q', by
      rw [touchPage, if_pos (hq.idle h hh), hrun], ⟨_, hq', by simp [touch_of_notMem hh]⟩, hsame⟩
  obtain ⟨t, ht⟩ := mem_keys.1 hh
  obtain ⟨⟨a, h, t⟩, hmem, heq⟩ := List.mem_map.1 ht
  obtain ⟨rfl, rfl⟩ := Prod.mk.inj heq
  obtain ⟨hact, hptr⟩ := hq.active _ hmem
  obtain ⟨l₁, l₂, rfl⟩ := List.append_of_mem hmem
  have htouch : touch h f.timestamp ((l₁ ++ (a, h, t) :: l₂).map Prod.snd) =
      ((a, h, f.timestamp) :: (l₁ ++ l₂)).map Prod.snd := by
    have hkeys := hq.keys
    rw [List.map_append, List.map_cons] at hkeys
    simpa using touch_append hkeys f.timestamp
  rw [touchPage, if_neg (by rw [hact]; decide), hptr, htouch]
  rcases l₁.eq_nil_or_concat' with rfl | ⟨l₁, ⟨b, x⟩, rfl⟩
  · -- the client at the front
    have hhead : q.head = some a := hq.head
    rw [if_neg (by simp [hhead])]
    obtain ⟨nodes, hmod, hq'⟩ := refreshHead_spec hq f.timestamp
    exact ⟨_, by rw [hmod]; rfl, ⟨_, hq', by simp⟩, ⟨rfl, rfl, rfl⟩⟩
  · -- a client further back
    rw [List.append_assoc, List.singleton_append] at hq
    obtain ⟨hne, q', hrun, hq', hsame⟩ := moveToFront_spec f.timestamp hq
    rw [if_pos hne]
    exact ⟨q', hrun, ⟨_, hq', by simp⟩, hsame⟩

/-- What the first half of `referencePage` makes of a user list: without a node for a new caller
nothing. -/
def Names.touched (allocOk : Bool) (t : ℤ) (h : ℕ) (us : List (ℕ × ℤ)) : List (ℕ × ℤ) :=
  if allocOk = true ∨ h ∈ keys us then touch h t us else us

/-- What `referencePage` makes of a user list, if it returns: of a list without users it reads the
tail. -/
def Names.tryReference (allocOk : Bool) (k t d : ℤ) (h : ℕ) (us : List (ℕ × ℤ)) :
    Option (List (ℕ × ℤ)) :=
  let us := touched allocOk t h us
  let us := if k < us.length then expire (t - d) us else us
  if us = [] then none else some us

theorem Names.tryReference_true {k t d : ℤ} (hd : 0 ≤ d) (h : ℕ) (us : List (ℕ × ℤ)) :
    Names.tryReference true k t d h us = some (Names.reference k t d h us) := by
  have hne := Names.reference_ne_nil (k := k) (t := t) hd h us
  rw [Names.reference] at hne ⊢
  simp [tryReference, touched, hne]

/-- `touchPage` touches the caller if it is in the list or gets a node. -/
theorem touchPage_try (hq : q.Users us) (allocOk : Bool) (f : Flow) (h : ℕ) :
    ∃ q', touchPage allocOk q f h = some q' ∧ q'.Users (Names.touched allocOk f.timestamp h us) ∧
      q.SameEntry q' := by
  rw [Names.touched]
  cases allocOk with
  | true =>
    rw [if_pos (.inl rfl)]
    exact touchPage_spec hq
  | false =>
    by_cases hh : h ∈ keys us
    · obtain ⟨q', hrun, hq'⟩ := touchPage_spec (f := f) (h := h) hq
      have hactive : (q.clientList h).active ≠ 0 := by
        obtain ⟨l, hq, rfl⟩ := hq
        obtain ⟨t, ht⟩ := mem_keys.1 hh
        obtain ⟨p, hp, heq⟩ := List.mem_map.1 ht
        have hact := (hq.active p hp).1
        rw [heq] at hact
        rw [hact]
        decide
      rw [if_pos (.inr hh)]
      refine ⟨q', ?_, hq'⟩
      rw [← hrun, touchPage, touchPage, if_neg hactive, if_neg hactive]
    · have hidle : (q.clientList h).active = 0 := by
        obtain ⟨l, hq, rfl⟩ := hq
        exact hq.idle h hh
      rw [if_neg (by simpa using hh)]
      exact ⟨q, by rw [touchPage, if_pos hidle]; rfl, hq, .refl q⟩

/-- A list without users has no tail. -/
theorem Names.Users.tail_nil (hq : q.Users []) : q.tail = none := by
  obtain ⟨l, hq, hl⟩ := hq
  obtain rfl := List.map_eq_nil_iff.1 hl
  exact hq.tail

/-- The tail of a list with users can be read. -/
theorem Names.Users.read_tail (hq : q.Users us) (hne : us ≠ []) :
    ∃ c, q.nodes.read q.tail = some c := by
  obtain ⟨l, hq, rfl⟩ := hq
  obtain ⟨a, ha, htail⟩ := Linked.exists_last (mt List.map_eq_nil_iff.2 hne) none
  rw [hq.tail, htail]
  exact Option.isSome_iff_exists.1 (hq.chain.isSome ha)

/-- The pruning step of `referencePage`. -/
theorem pruneStep_try {k : ℤ} (hq : q.Users us) (hne : us ≠ []) (t d : ℤ) :
    ∃ q', (if q.nEntry > k then prune q t d else some q) = some q' ∧
      q'.Users (if k < us.length then expire (t - d) us else us) ∧ q.SameEntry q' := by
  have hlen := hq.length_eq
  by_cases hk : k < us.length
  · obtain ⟨l, hq, rfl⟩ := hq
    obtain ⟨q', l', hrun, hq', hl', hsame⟩ := prune_spec hq (mt List.map_eq_nil_iff.2 hne) t d
    rw [if_pos (by omega), if_pos hk]
    exact ⟨q', hrun, ⟨l', hq', hl'⟩, hsame⟩
  · rw [if_neg (by omega), if_neg hk]
    exact ⟨q, rfl, hq, .refl q⟩

/-- **`referencePage`, whatever the allocation gives**, leaves the users that `Names.tryReference`
says, and fails where that has no result. -/
theorem referencePage_try (hq : q.Users us) (allocOk : Bool) (f : Flow) (h : ℕ) (k d : ℤ) :
    match Names.tryReference allocOk k f.timestamp d h us with
    | none => referencePage allocOk q f h k d = none
    | some us' =>
      ∃ q', referencePage allocOk q f h k d = some q' ∧ q'.Users us' ∧ q.SameEntry q' := by
  obtain ⟨q₁, htouch, hq₁, hsame₁⟩ := touchPage_try hq allocOk f h
  simp only [Names.tryReference, referencePage, htouch, Option.bind_eq_bind, Option.bind_some]
  generalize Names.touched allocOk f.timestamp h us = us₁ at hq₁
  rcases eq_or_ne us₁ [] with rfl | hne₁
  · -- nobody is in the list, and its tail is read
    have htail := hq₁.tail_nil
    have hprune : prune q₁ f.timestamp d = none := by
      rw [prune, pruneLoop, htail]
      rfl
    simp only [expire_nil, ite_self, if_true, hprune]
    split_ifs
    · rfl
    · simp [htail]
  obtain ⟨q₂, hprune, hq₂, hsame₂⟩ := pruneStep_try (k := k) hq₁ hne₁ f.timestamp d
  simp only [hprune, Option.bind_some]
  generalize (if k < us₁.length then expire (f.timestamp - d) us₁ else us₁) = us₂ at hq₂
  rcases eq_or_ne us₂ [] with rfl | hne₂
  · simp [hq₂.tail_nil]
  obtain ⟨c, hc⟩ := hq₂.read_tail hne₂
  simp only [if_neg hne₂, hc, Option.bind_some]
  exact ⟨_, rfl, hq₂.relink q₂.name _ q₂.prev q₂.next, hsame₁.trans ⟨hsame₂.1, hsame₂.2, hsame₂.3⟩⟩

/-- **`referencePage` never fails** on a well-formed record, and does to its users what
`Names.reference` says. -/
theorem referencePage_spec {k d : ℤ} (hq : q.Users us) (hd : 0 ≤ d) :
    ∃ q', referencePage true q f h k d = some q' ∧
      q'.Users (Names.reference k f.timestamp d h us) ∧ q.SameEntry q' := by
  have htry := referencePage_try hq true f h k d
  rwa [Names.tryReference_true hd] at htry

end AlphaMon
