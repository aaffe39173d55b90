import Mathlib.Data.List.Induction
import AlphaMon.Memory.Chain

/-!
# Relinking chains

Writes to the links of a doubly linked chain, as functions on the cells.  `modifyAt m p f` are the
cells after `*p = f (*p)`, and after nothing at all if `p` is null, which is how list code with its
`if (p)` guards edits the neighbours of a cell.

Three edits are enough for a list with a pointer to its last cell: `Chain.concat` for a cell at the
end, `Chain.push` for one at the front, and `Chain.remove` for one that is taken out anywhere.
`Chain.congr_view` carries a chain over writes that leave its links alone, as when cells are on
two chains at a time.
-/

set_option autoImplicit false

namespace Linked

variable {α β : Type}

/-- The cells after a write through a pointer, which does nothing if the pointer is null. -/
def modifyAt (m : ℕ → Option α) (p : Option ℕ) (f : α → α) : ℕ → Option α := fun a ↦
  if p = some a then (m a).map f else m a

@[simp] theorem modifyAt_none (m : ℕ → Option α) (f : α → α) : modifyAt m none f = m := rfl

@[simp] theorem modifyAt_self (m : ℕ → Option α) (a : ℕ) (f : α → α) :
    modifyAt m (some a) f a = (m a).map f := if_pos rfl

theorem modifyAt_of_ne {m : ℕ → Option α} {p : Option ℕ} {a : ℕ} (h : p ≠ some a) (f : α → α) :
    modifyAt m p f a = m a := if_neg h

theorem isSome_modifyAt (m : ℕ → Option α) (p : Option ℕ) (f : α → α) (a : ℕ) :
    (modifyAt m p f a).isSome = (m a).isSome := by
  rw [modifyAt]
  split_ifs with h
  · rw [Option.isSome_map]
  · rfl

theorem modifyAt_comm {m : ℕ → Option α} {p q : Option ℕ} (h : p ≠ q) (f g : α → α) :
    modifyAt (modifyAt m p f) q g = modifyAt (modifyAt m q g) p f := by
  funext a
  by_cases hq : q = some a
  · have hp : p ≠ some a := fun hp ↦ h (hp.trans hq.symm)
    rw [modifyAt_of_ne hp, hq, modifyAt_self, modifyAt_self, modifyAt_of_ne hp]
  · rw [modifyAt_of_ne hq, modifyAt, modifyAt, modifyAt_of_ne hq]

/-- A write to fields that a view of the cells leaves out. -/
theorem map_modifyAt {γ : Type} {v : α → γ} {f : α → α} (hf : ∀ c, v (f c) = v c)
    (m : ℕ → Option α) (p : Option ℕ) (a : ℕ) : (modifyAt m p f a).map v = (m a).map v := by
  rw [modifyAt]
  split_ifs with h
  · rw [Option.map_map, show v ∘ f = v from funext hf]
  · rfl

end Linked

namespace Arena

open Linked

variable {α : Type}

/-- `if (p) *p = f (*p)`. -/
def modifyIf (m : Arena α) (p : Option ℕ) (f : α → α) : Option (Arena α) :=
  if p.isSome then m.modify p f else some m

theorem modify_eq {m : Arena α} {a : ℕ} (h : (m.cell a).isSome) (f : α → α) :
    m.modify (some a) f = some ⟨modifyAt m.cell (some a) f, m.fresh⟩ := by
  obtain ⟨c, hc⟩ := Option.isSome_iff_exists.1 h
  rw [modify_of_cell hc]
  congr 2
  funext i
  by_cases hi : i = a
  · rw [hi, Function.update_self, modifyAt_self, hc, Option.map_some]
  · rw [Function.update_of_ne hi, modifyAt_of_ne fun h ↦ hi (Option.some.inj h).symm]

theorem modifyIf_eq {m : Arena α} {p : Option ℕ} (h : ∀ a, p = some a → (m.cell a).isSome)
    (f : α → α) : m.modifyIf p f = some ⟨modifyAt m.cell p f, m.fresh⟩ := by
  cases p with
  | none => rfl
  | some a => exact modify_eq (h a rfl) f

end Arena

namespace Linked

variable {α β : Type} [Linked α β] {m m' : ℕ → Option α} {b b' e e' : Option ℕ}
  {l l₁ l₂ : List (ℕ × β)} {a : ℕ} {x : β} {f g : α → α}

/-- A chain is kept by writes that leave the links and the values of its cells alone. -/
theorem Chain.congr_view (h : Chain m b l e) (hm : ∀ a ∈ addrs l, ∀ c, m a = some c →
    ∃ c', m' a = some c' ∧ prev c' = prev c ∧ next c' = next c ∧ ∀ x : β, Rep c x → Rep c' x) :
    Chain m' b l e := by
  induction l generalizing b with
  | nil => trivial
  | cons p l ih =>
    obtain ⟨⟨c, hc, hR, hp, hn⟩, hl⟩ := h
    obtain ⟨c', hc', hp', hn', hR'⟩ := hm p.1 (by simp) c hc
    exact ⟨⟨c', hc', hR' _ hR, hp'.trans hp, hn'.trans hn⟩, ih hl fun a ha ↦ hm a (by simp [ha])⟩

/-- A write that keeps the links and the values. -/
theorem Chain.modifyAt_of_keep (h : Chain m b l e) (p : Option ℕ)
    (hf : ∀ c, prev (f c) = prev c ∧ next (f c) = next c ∧ ∀ x : β, Rep c x → Rep (f c) x) :
    Chain (modifyAt m p f) b l e := by
  refine h.congr_view fun a _ c hc ↦ ?_
  by_cases hp : p = some a
  · exact ⟨f c, by rw [hp, modifyAt_self, hc, Option.map_some], hf c⟩
  · exact ⟨c, (modifyAt_of_ne hp f).trans hc, rfl, rfl, fun _ h ↦ h⟩

theorem Chain.modifyAt_of_notMem (h : Chain m b l e) {p : Option ℕ} (hp : ∀ a ∈ addrs l, p ≠ some a)
    (f : α → α) : Chain (modifyAt m p f) b l e :=
  h.congr fun a ha ↦ modifyAt_of_ne (hp a ha) f

theorem first_ne {l : List (ℕ × β)} (ha : a ∉ addrs l) : first l none ≠ some a := by
  cases l with
  | nil => simp
  | cons p l => simpa [eq_comm] using fun h : p.1 = a ↦ ha (by simp [h])

theorem last_ne {l : List (ℕ × β)} (ha : a ∉ addrs l) : last none l ≠ some a := by
  rcases eq_or_ne l [] with rfl | hl
  · simp
  · obtain ⟨q, hq, he⟩ := exists_last hl none
    rw [he]
    exact fun h ↦ ha (Option.some.inj h ▸ hq)

theorem mem_of_first {l : List (ℕ × β)} (h : first l none = some a) : a ∈ addrs l := by
  by_contra ha
  exact first_ne ha h

theorem mem_of_last {l : List (ℕ × β)} (h : last none l = some a) : a ∈ addrs l := by
  by_contra ha
  exact last_ne ha h

/-- The last cell of a chain is made to point elsewhere. -/
theorem Chain.relinkLast (h : Chain m b l e) (hnd : (addrs l).Nodup)
    (hf : ∀ c (x : β), Rep c x → Rep (f c) x ∧ prev (f c) = prev c ∧ next (f c) = e') :
    Chain (modifyAt m (last none l) f) b l e' := by
  induction l using List.reverseRecOn with
  | nil => trivial
  | append_singleton l p _ =>
    rw [addrs_append, List.nodup_append] at hnd
    have hp : ∀ q ∈ addrs l, some p.1 ≠ some q := fun q hq he ↦
      hnd.2.2 q hq p.1 (by simp) (Option.some.inj he).symm
    obtain ⟨hl, hc⟩ := chain_append.1 h
    obtain ⟨c, hc, hR, hprev, -⟩ := chain_singleton.1 hc
    obtain ⟨hR', hprev', hnext'⟩ := hf c p.2 hR
    rw [last_append, last_cons, last_nil]
    exact chain_append.2 ⟨hl.modifyAt_of_notMem hp f,
      chain_singleton.2 ⟨f c, by rw [modifyAt_self, hc]; rfl, hR', hprev'.trans hprev, hnext'⟩⟩

/-- The first cell of a chain is made to point back elsewhere. -/
theorem Chain.relinkFirst (h : Chain m b l e) (hnd : (addrs l).Nodup)
    (hg : ∀ c (x : β), Rep c x → Rep (g c) x ∧ prev (g c) = b' ∧ next (g c) = next c) :
    Chain (modifyAt m (first l none) g) b' l e := by
  cases l with
  | nil => trivial
  | cons p l =>
    obtain ⟨⟨c, hc, hR, -, hnext⟩, hl⟩ := h
    obtain ⟨hR', hprev', hnext'⟩ := hg c p.2 hR
    have hp : ∀ q ∈ addrs l, some p.1 ≠ some q := fun q hq he ↦
      (List.nodup_cons.1 hnd).1 (Option.some.inj he ▸ hq)
    exact ⟨⟨g c, by rw [first_cons, modifyAt_self, hc]; rfl, hR', hprev', hnext'.trans hnext⟩,
      hl.modifyAt_of_notMem hp g⟩

/-- A cell put at the end. -/
theorem Chain.concat (h : Chain m b l none) (hnd : (addrs l).Nodup) (ha : a ∉ addrs l) {c : α}
    (hc : m a = some c) (hR : Rep c x) (hprev : prev c = last b l) (hnext : next c = none)
    (hf : ∀ c (x : β), Rep c x → Rep (f c) x ∧ prev (f c) = prev c ∧ next (f c) = some a) :
    Chain (modifyAt m (last none l) f) b (l ++ [(a, x)]) none :=
  chain_append.2 ⟨h.relinkLast hnd hf, chain_singleton.2
    ⟨c, (modifyAt_of_ne (last_ne ha) f).trans hc, hR, hprev, hnext⟩⟩

/-- A cell put at the front. -/
theorem Chain.push (h : Chain m b l none) (hnd : (addrs l).Nodup) (ha : a ∉ addrs l) {c : α}
    (hc : m a = some c) (hR : Rep c x) (hprev : prev c = b') (hnext : next c = first l none)
    (hg : ∀ c (x : β), Rep c x → Rep (g c) x ∧ prev (g c) = some a ∧ next (g c) = next c) :
    Chain (modifyAt m (first l none) g) b' ((a, x) :: l) none :=
  ⟨⟨c, (modifyAt_of_ne (first_ne ha) g).trans hc, hR, hprev, hnext⟩, h.relinkFirst hnd hg⟩

/-- A cell taken out: its neighbours are linked to each other. -/
theorem Chain.remove (h : Chain m b (l₁ ++ (a, x) :: l₂) e)
    (hnd : (addrs (l₁ ++ (a, x) :: l₂)).Nodup)
    (hf : ∀ c (x : β), Rep c x → Rep (f c) x ∧ prev (f c) = prev c ∧ next (f c) = first l₂ e)
    (hg : ∀ c (x : β), Rep c x → Rep (g c) x ∧ prev (g c) = last b l₁ ∧ next (g c) = next c) :
    Chain (modifyAt (modifyAt m (last none l₁) f) (first l₂ none) g) b (l₁ ++ l₂) e := by
  rw [addrs_append, addrs_cons, List.nodup_append, List.nodup_cons] at hnd
  obtain ⟨hnd₁, ⟨-, hnd₂⟩, hdisj⟩ := hnd
  have hoff₁ : ∀ q ∈ addrs l₁, first l₂ none ≠ some q := fun q hq ↦
    first_ne fun hq' ↦ hdisj q hq q (List.mem_cons_of_mem _ hq') rfl
  have hoff₂ : ∀ q ∈ addrs l₂, last none l₁ ≠ some q := fun q hq ↦
    last_ne fun hq' ↦ hdisj q hq' q (List.mem_cons_of_mem _ hq) rfl
  exact chain_append.2 ⟨(h.left.relinkLast hnd₁ hf).modifyAt_of_notMem hoff₁ g,
    (h.right.2.modifyAt_of_notMem hoff₂ f).relinkFirst hnd₂ hg⟩

end Linked
