import Mathlib.Data.List.Basic
import AlphaMon.Memory.Arena

/-!
# Doubly linked chains

`Chain m b l e` says that the cells of `m` at the addresses of `l`, in that order, are linked to
one another both ways, that the first of them points back to `b` and the last of them on to `e`.
Each element of `l` is an address with the abstract value the cell there stands for.

A chain is cut anywhere by `chain_append`, and a write is carried across by one of three lemmas:
`Chain.congr` when it is off the chain, `Chain.setFirst` when it is at the first cell and
`Chain.setLast` when it is at the last.  Every edit of a linked list (pushing, unlinking,
truncating, changing a value in place) is a cut, some of these, and the pieces put back together.
-/

set_option autoImplicit false

/-- Cells that can be linked: where the two links are, and which abstract value a cell stands
for. -/
class Linked (α : Type) (β : outParam Type) where
  /-- The link to the cell before. -/
  prev : α → Option ℕ
  /-- The link to the cell after. -/
  next : α → Option ℕ
  /-- The cell stands for the value. -/
  Rep : α → β → Prop

namespace Linked

variable {α β : Type}

/-- The address a pointer at the chain `l` holds, when what follows the chain is at `e`. -/
def first : List (ℕ × β) → Option ℕ → Option ℕ
  | [], e => e
  | p :: _, _ => some p.1

/-- The address of the last cell of the chain `l`, when what precedes the chain is at `b`. -/
def last : Option ℕ → List (ℕ × β) → Option ℕ
  | b, [] => b
  | _, p :: l => last (some p.1) l

@[simp] theorem first_nil (e : Option ℕ) : first ([] : List (ℕ × β)) e = e := rfl

@[simp] theorem first_cons (p : ℕ × β) (l : List (ℕ × β)) (e : Option ℕ) :
    first (p :: l) e = some p.1 := rfl

@[simp] theorem last_nil (b : Option ℕ) : last b ([] : List (ℕ × β)) = b := rfl

@[simp] theorem last_cons (b : Option ℕ) (p : ℕ × β) (l : List (ℕ × β)) :
    last b (p :: l) = last (some p.1) l := rfl

theorem first_append (l₁ l₂ : List (ℕ × β)) (e : Option ℕ) :
    first (l₁ ++ l₂) e = first l₁ (first l₂ e) := by
  cases l₁ <;> rfl

@[simp] theorem last_append (b : Option ℕ) (l₁ l₂ : List (ℕ × β)) :
    last b (l₁ ++ l₂) = last (last b l₁) l₂ := by
  induction l₁ generalizing b with
  | nil => rfl
  | cons p l₁ ih => exact ih _

/-- The addresses of a chain. -/
def addrs (l : List (ℕ × β)) : List ℕ := l.map Prod.fst

@[simp] theorem addrs_nil : addrs ([] : List (ℕ × β)) = [] := rfl

@[simp] theorem addrs_cons (p : ℕ × β) (l : List (ℕ × β)) : addrs (p :: l) = p.1 :: addrs l := rfl

@[simp] theorem addrs_append (l₁ l₂ : List (ℕ × β)) :
    addrs (l₁ ++ l₂) = addrs l₁ ++ addrs l₂ := List.map_append

/-- The last address of a chain that is not empty is one of its addresses. -/
theorem exists_last {l : List (ℕ × β)} (hl : l ≠ []) (b : Option ℕ) :
    ∃ a ∈ addrs l, last b l = some a := by
  induction l generalizing b with
  | nil => exact absurd rfl hl
  | cons p l ih =>
    rcases eq_or_ne l [] with rfl | hl'
    · exact ⟨p.1, by simp, rfl⟩
    · obtain ⟨a, ha, he⟩ := ih hl' (some p.1)
      exact ⟨a, by simp [ha], he⟩

theorem mem_addrs_of_mem {l : List (ℕ × β)} {p : ℕ × β} (h : p ∈ l) : p.1 ∈ addrs l :=
  List.mem_map_of_mem h

variable [Linked α β]

/-- The cells of `m` at the addresses of `l` form a doubly linked chain from `b` to `e`. -/
def Chain (m : ℕ → Option α) : Option ℕ → List (ℕ × β) → Option ℕ → Prop
  | _, [], _ => True
  | b, p :: l, e =>
    (∃ c, m p.1 = some c ∧ Rep c p.2 ∧ prev c = b ∧ next c = first l e) ∧ Chain m (some p.1) l e

variable {m m' : ℕ → Option α} {b b' e e' : Option ℕ} {p : ℕ × β} {l l₁ l₂ : List (ℕ × β)}

@[simp] theorem chain_nil : Chain m b [] e := trivial

theorem chain_cons : Chain m b (p :: l) e ↔
    (∃ c, m p.1 = some c ∧ Rep c p.2 ∧ prev c = b ∧ next c = first l e) ∧
      Chain m (some p.1) l e := Iff.rfl

theorem chain_singleton : Chain m b [p] e ↔
    ∃ c, m p.1 = some c ∧ Rep c p.2 ∧ prev c = b ∧ next c = e := by
  simp [chain_cons]

/-- **A chain can be cut anywhere.** -/
theorem chain_append :
    Chain m b (l₁ ++ l₂) e ↔ Chain m b l₁ (first l₂ e) ∧ Chain m (last b l₁) l₂ e := by
  induction l₁ generalizing b with
  | nil => simp
  | cons p l₁ ih => simp only [List.cons_append, chain_cons, first_append, ih, last_cons, and_assoc]

/-- A chain reads only its own cells. -/
theorem Chain.congr (h : Chain m b l e) (hm : ∀ a ∈ addrs l, m' a = m a) : Chain m' b l e := by
  induction l generalizing b with
  | nil => trivial
  | cons p l ih =>
    obtain ⟨⟨c, hc, hcl⟩, hl⟩ := h
    exact ⟨⟨c, (hm _ (by simp)).trans hc, hcl⟩, ih hl fun a ha ↦ hm a (by simp [ha])⟩

/-- A write outside the chain leaves it alone. -/
theorem Chain.update_of_notMem (h : Chain m b l e) {a : ℕ} (ha : a ∉ addrs l) (c : Option α) :
    Chain (Function.update m a c) b l e :=
  h.congr fun _ ha' ↦ Function.update_of_ne (ne_of_mem_of_not_mem ha' ha) _ _

/-- Writing the first cell: the link to the second has to stay. -/
theorem Chain.setFirst {a : ℕ} {x x' : β} (h : Chain m b ((a, x) :: l) e) (ha : a ∉ addrs l) {c : α}
    (hR : Rep c x') (hp : prev c = b') (hn : next c = first l e) :
    Chain (Function.update m a (some c)) b' ((a, x') :: l) e :=
  ⟨⟨c, by simp, hR, hp, hn⟩, h.2.update_of_notMem ha _⟩

/-- Writing the last cell: the link to the one before it has to stay. -/
theorem Chain.setLast {a : ℕ} {x x' : β} (h : Chain m b (l ++ [(a, x)]) e) (ha : a ∉ addrs l)
    {c : α} (hR : Rep c x') (hp : prev c = last b l) (hn : next c = e') :
    Chain (Function.update m a (some c)) b (l ++ [(a, x')]) e' := by
  rw [chain_append] at h ⊢
  exact ⟨h.1.update_of_notMem ha _, chain_singleton.2 ⟨c, by simp, hR, hp, hn⟩⟩

/-- The cell at an address of the chain, with its links. -/
theorem Chain.cell {a : ℕ} {x : β} (h : Chain m b (l₁ ++ (a, x) :: l₂) e) :
    ∃ c, m a = some c ∧ Rep c x ∧ prev c = last b l₁ ∧ next c = first l₂ e :=
  (chain_append.1 h).2.1

/-- Dropping what follows a cell, once its link forward has been redirected. -/
theorem Chain.left (h : Chain m b (l₁ ++ l₂) e) : Chain m b l₁ (first l₂ e) := (chain_append.1 h).1

theorem Chain.right (h : Chain m b (l₁ ++ l₂) e) : Chain m (last b l₁) l₂ e := (chain_append.1 h).2

/-! ## Edits -/

/-- Unlinking the last cell: the one before it now ends the chain. -/
theorem Chain.unlinkLast {a q : ℕ} {x y : β} (h : Chain m b (l ++ [(q, x), (a, y)]) e)
    (hq : q ∉ addrs l) {c c' : α} (hc : m q = some c) (hR : Rep c' x) (hp : prev c' = prev c)
    (hn : next c' = e') :
    Chain (Function.update m q (some c')) b (l ++ [(q, x)]) e' := by
  have hl : Chain m b (l ++ [(q, x)]) (some a) := by
    have h' : Chain m b ((l ++ [(q, x)]) ++ [(a, y)]) e := by simpa using h
    exact h'.left
  obtain ⟨c₀, hc₀, -, hp₀, -⟩ := hl.cell
  obtain rfl : c₀ = c := Option.some.inj (hc₀.symm.trans hc)
  exact hl.setLast hq hR (hp.trans hp₀) hn

/-- Unlinking a cell between two others: the two are joined. -/
theorem Chain.unlink {a q r : ℕ} {x y z : β}
    (h : Chain m b (l₁ ++ (q, x) :: (a, y) :: (r, z) :: l₂) e)
    (hnd : (addrs (l₁ ++ (q, x) :: (a, y) :: (r, z) :: l₂)).Nodup) {c c' d d' : α}
    (hc : m q = some c) (hcR : Rep c' x) (hcp : prev c' = prev c) (hcn : next c' = some r)
    (hd : m r = some d) (hdR : Rep d' z) (hdp : prev d' = some q) (hdn : next d' = next d) :
    Chain (Function.update (Function.update m q (some c')) r (some d')) b
      (l₁ ++ (q, x) :: (r, z) :: l₂) e := by
  have h' : Chain m b ((l₁ ++ [(q, x)]) ++ (a, y) :: (r, z) :: l₂) e := by simpa using h
  obtain ⟨c₀, hc₀, -, hp₀, -⟩ := h.cell
  obtain rfl : c₀ = c := Option.some.inj (hc₀.symm.trans hc)
  have hr := h'.right.2
  obtain ⟨d₀, hd₀, -, -, hn₀⟩ := hr.1
  obtain rfl : d₀ = d := Option.some.inj (hd₀.symm.trans hd)
  simp only [addrs_append, addrs_cons, List.nodup_append, List.nodup_cons, List.mem_cons] at hnd
  have hq₁ : q ∉ addrs l₁ := fun hm ↦ hnd.2.2 q hm q (.inl rfl) rfl
  have hr₁ : r ∉ addrs (l₁ ++ [(q, x)]) := by
    simp only [addrs_append, addrs_cons, addrs_nil, List.mem_append, List.mem_singleton, not_or]
    exact ⟨fun hm ↦ hnd.2.2 r hm r (.inr (.inr (.inl rfl))) rfl, fun he ↦ by simp_all⟩
  have hq₂ : q ∉ addrs ((r, z) :: l₂) := by
    simp only [addrs_cons, List.mem_cons]
    exact fun hm ↦ hnd.2.1.1 (.inr hm)
  have hleft := (h'.left.setLast hq₁ hcR (hcp.trans hp₀) hcn).update_of_notMem hr₁ (some d')
  have hright := (hr.update_of_notMem hq₂ (some c')).setFirst hnd.2.1.2.2.1 hdR hdp (hdn.trans hn₀)
  have hjoin : Chain (Function.update (Function.update m q (some c')) r (some d')) b
      ((l₁ ++ [(q, x)]) ++ (r, z) :: l₂) e :=
    chain_append.2 ⟨hleft, by simpa using hright⟩
  simpa using hjoin

/-- Changing a cell in place: its links have to stay. -/
theorem Chain.setCell {a : ℕ} {x x' : β} (h : Chain m b (l₁ ++ (a, x) :: l₂) e)
    (hnd : (addrs (l₁ ++ (a, x) :: l₂)).Nodup) {c c' : α} (hc : m a = some c) (hR : Rep c' x')
    (hp : prev c' = prev c) (hn : next c' = next c) :
    Chain (Function.update m a (some c')) b (l₁ ++ (a, x') :: l₂) e := by
  obtain ⟨c₀, hc₀, -, hp₀, hn₀⟩ := h.cell
  obtain rfl : c₀ = c := Option.some.inj (hc₀.symm.trans hc)
  rw [addrs_append, addrs_cons] at hnd
  obtain ⟨-, hnd₂, hdisj⟩ := List.nodup_append.1 hnd
  have ha₁ : a ∉ addrs l₁ := fun hm ↦ hdisj a hm a (by simp) rfl
  refine chain_append.2 ⟨h.left.update_of_notMem ha₁ _, ?_⟩
  exact h.right.setFirst (List.nodup_cons.1 hnd₂).1 hR (hp.trans hp₀) (hn.trans hn₀)

/-- Every address of a chain is allocated. -/
theorem Chain.isSome (h : Chain m b l e) {a : ℕ} (ha : a ∈ addrs l) : (m a).isSome := by
  induction l generalizing b with
  | nil => simp at ha
  | cons p l ih =>
    obtain ⟨⟨c, hc, -⟩, hl⟩ := h
    rcases List.mem_cons.1 ha with rfl | ha
    · simp [hc]
    · exact ih hl ha

/-! ## Reading a chain -/

/-- The values met by following at most `n` links from `p`. -/
def follow (f : α → β) (m : ℕ → Option α) : ℕ → Option ℕ → List β
  | 0, _ => []
  | _ + 1, none => []
  | n + 1, some a =>
    match m a with
    | none => []
    | some c => f c :: follow f m n (next c)

/-- **Following the links of a chain reads its values.** -/
theorem Chain.follow_eq {f : α → β} (hf : ∀ c x, Rep c x → f c = x) (h : Chain m b l none) {n : ℕ}
    (hn : l.length ≤ n) : follow f m n (first l none) = l.map Prod.snd := by
  induction l generalizing b n with
  | nil => cases n <;> rfl
  | cons p l ih =>
    obtain ⟨⟨c, hc, hR, -, hnx⟩, hl⟩ := h
    cases n with
    | zero => exact absurd hn (by simp)
    | succ n =>
      simp only [first_cons, follow, hc, List.map_cons, hnx, hf c p.2 hR]
      rw [ih hl (by simpa using hn)]

end Linked
