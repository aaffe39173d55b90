import Mathlib.Data.Nat.Notation

/-!
# Runs of partial steps

A step takes an input in a state and has either no result or a next state and an output.  `run`
takes a list of inputs one after the other and has a result if every step has one; `Meets P` says
that every step of a run meets the condition `P` in the state it finds.  `outputs` are those up to
the first step without a result.

What one step preserves a run preserves (`run_invariant`), and a run goes through if every step does
in the states the invariant allows (`run_total`).
-/

set_option autoImplicit false

namespace PartialRun

variable {σ α β : Type*} (step : α → σ → Option (σ × β))

/-- Take the inputs one after the other: the last state, and the outputs. -/
def run : σ → List α → Option (σ × List β)
  | s, [] => some (s, [])
  | s, a :: l => do
    let (s, b) ← step a s
    let (s, bs) ← run s l
    some (s, b :: bs)

/-- The outputs of the inputs before the first one whose step has no result. -/
def outputs : σ → List α → List β
  | _, [] => []
  | s, a :: l =>
    match step a s with
    | none => []
    | some (s, b) => b :: outputs s l

/-- Every step of the run meets `P` in the state it finds. -/
def Meets (P : σ → α → Prop) : σ → List α → Prop
  | _, [] => True
  | s, a :: l => P s a ∧ ∀ s' b, step a s = some (s', b) → Meets P s' l

variable {step} {P Q : σ → α → Prop} {s s' s₁ : σ} {a : α} {b : β} {l l₁ l₂ : List α} {bs : List β}

@[simp] theorem run_nil : run step s [] = some (s, []) := rfl

theorem run_cons_eq_some : run step s (a :: l) = some (s', bs) ↔
    ∃ s₁ b bs', step a s = some (s₁, b) ∧ run step s₁ l = some (s', bs') ∧ bs = b :: bs' := by
  simp only [run, Option.bind_eq_bind, Option.bind_eq_some_iff, Option.some.injEq, Prod.mk.injEq,
    Prod.exists]
  constructor
  · rintro ⟨s₁, b, h, s₂, bs', h', rfl, rfl⟩
    exact ⟨s₁, b, bs', h, h', rfl⟩
  · rintro ⟨s₁, b, bs', h, h', rfl⟩
    exact ⟨s₁, b, h, s', bs', h', rfl, rfl⟩

/-- **A run in two parts.** -/
theorem run_append_eq_some : run step s (l₁ ++ l₂) = some (s', bs) ↔
    ∃ s₁ bs₁ bs₂, run step s l₁ = some (s₁, bs₁) ∧ run step s₁ l₂ = some (s', bs₂) ∧
      bs = bs₁ ++ bs₂ := by
  induction l₁ generalizing s bs with
  | nil =>
    simp only [List.nil_append, run_nil, Option.some.injEq, Prod.mk.injEq]
    constructor
    · intro h
      exact ⟨s, [], bs, ⟨rfl, rfl⟩, h, rfl⟩
    · rintro ⟨_, _, bs₂, ⟨rfl, rfl⟩, h, rfl⟩
      exact h
  | cons a l₁ ih =>
    simp only [List.cons_append, run_cons_eq_some, ih]
    constructor
    · rintro ⟨s₁, b, _, hstep, ⟨s₂, bs₁, bs₂, h₁, h₂, rfl⟩, rfl⟩
      exact ⟨s₂, b :: bs₁, bs₂, ⟨s₁, b, bs₁, hstep, h₁, rfl⟩, h₂, rfl⟩
    · rintro ⟨s₂, _, bs₂, ⟨s₁, b, bs₁, hstep, h₁, rfl⟩, h₂, rfl⟩
      exact ⟨s₁, b, bs₁ ++ bs₂, hstep, ⟨s₂, bs₁, bs₂, h₁, h₂, rfl⟩, rfl⟩

/-- A run that goes through has an output for every input. -/
theorem outputs_of_run (h : run step s l = some (s', bs)) :
    outputs step s l = bs ∧ bs.length = l.length := by
  induction l generalizing s bs with
  | nil =>
    obtain ⟨-, rfl⟩ : s = s' ∧ [] = bs := by simpa using h
    exact ⟨rfl, rfl⟩
  | cons a l ih =>
    obtain ⟨s₁, b, bs, hstep, hrest, rfl⟩ := run_cons_eq_some.1 h
    obtain ⟨hbs, hlen⟩ := ih hrest
    exact ⟨by rw [outputs, hstep, ← hbs], by rw [List.length_cons, List.length_cons, hlen]⟩

theorem run_singleton_eq_some :
    run step s [a] = some (s', bs) ↔ ∃ b, step a s = some (s', b) ∧ bs = [b] := by
  simp only [run_cons_eq_some, run_nil, Option.some.injEq, Prod.mk.injEq]
  constructor
  · rintro ⟨s₁, b, _, h, ⟨rfl, rfl⟩, rfl⟩
    exact ⟨b, h, rfl⟩
  · rintro ⟨b, h, rfl⟩
    exact ⟨s', b, [], h, ⟨rfl, rfl⟩, rfl⟩

/-- The condition on a run is a condition on its two parts. -/
theorem meets_append : Meets step P s (l₁ ++ l₂) ↔
    Meets step P s l₁ ∧ ∀ s₁ bs₁, run step s l₁ = some (s₁, bs₁) → Meets step P s₁ l₂ := by
  induction l₁ generalizing s with
  | nil =>
    simp only [List.nil_append, Meets, true_and, run_nil, Option.some.injEq, Prod.mk.injEq]
    exact ⟨fun h _ _ ⟨hs, _⟩ ↦ hs ▸ h, fun h ↦ h s [] ⟨rfl, rfl⟩⟩
  | cons a l₁ ih =>
    simp only [List.cons_append, Meets, ih, and_assoc, run_cons_eq_some]
    constructor
    · rintro ⟨hP, h⟩
      refine ⟨hP, fun s' b hs ↦ (h s' b hs).1, ?_⟩
      rintro s₁ _ ⟨s', b, bs, hs, hr, rfl⟩
      exact (h s' b hs).2 s₁ bs hr
    · rintro ⟨hP, h₁, h₂⟩
      exact ⟨hP, fun s' b hs ↦ ⟨h₁ s' b hs, fun s₁ bs hr ↦ h₂ s₁ _ ⟨s', b, bs, hs, hr, rfl⟩⟩⟩

/-- A weaker condition. -/
theorem Meets.imp (h : Meets step P s l) (hPQ : ∀ s, ∀ a ∈ l, P s a → Q s a) :
    Meets step Q s l := by
  induction l generalizing s with
  | nil => trivial
  | cons a l ih =>
    exact ⟨hPQ s a (by simp) h.1, fun s' b hs ↦
      ih (h.2 s' b hs) fun s a ha ↦ hPQ s a (by simp [ha])⟩

/-- A condition that can be decided on a step can be decided on a run. -/
instance Meets.decidable [∀ s a, Decidable (P s a)] : ∀ s l, Decidable (Meets step P s l)
  | _, [] => isTrue trivial
  | s, a :: l =>
    match h : step a s with
    | none => decidable_of_iff (P s a)
        ⟨fun hP ↦ ⟨hP, fun _ _ h' ↦ absurd (h.symm.trans h') (by simp)⟩, And.left⟩
    | some (s₁, b₁) =>
      have := Meets.decidable s₁ l
      decidable_of_iff (P s a ∧ Meets step P s₁ l)
        ⟨fun ⟨hP, hl⟩ ↦ ⟨hP, fun _ _ h' ↦ by
          obtain ⟨rfl, -⟩ := Prod.mk.inj (Option.some.inj (h.symm.trans h'))
          exact hl⟩,
          fun ⟨hP, hl⟩ ↦ ⟨hP, hl s₁ b₁ h⟩⟩

/-- **What holds at the end of a run** has held from the start, or since some step of the run. -/
theorem exists_switch {I : σ → Prop} (h : run step s l = some (s', bs)) (hI : I s') :
    Meets step (fun s _ ↦ I s) s l ∧ I s ∨ ∃ l₁ a l₂ s₁ bs₁ s₂ b, l = l₁ ++ a :: l₂ ∧
      run step s l₁ = some (s₁, bs₁) ∧ ¬I s₁ ∧ step a s₁ = some (s₂, b) ∧ I s₂ ∧
      Meets step (fun s _ ↦ I s) s₂ l₂ := by
  induction l generalizing s bs with
  | nil =>
    obtain ⟨rfl, -⟩ : s = s' ∧ [] = bs := by simpa using h
    exact .inl ⟨trivial, hI⟩
  | cons a l ih =>
    obtain ⟨s₁, b, bs, hstep, hrest, rfl⟩ := run_cons_eq_some.1 h
    rcases ih hrest with ⟨hmeets, hs₁⟩ | ⟨l₁, a', l₂, s₂, bs₂, s₃, b', rfl, hrun, hnot, hstep', hs₃,
      hmeets⟩
    · by_cases hs : I s
      · refine .inl ⟨⟨hs, fun s₂ b₂ hstep₂ ↦ ?_⟩, hs⟩
        obtain ⟨rfl, -⟩ := Prod.mk.inj (Option.some.inj (hstep.symm.trans hstep₂))
        exact hmeets
      · exact .inr ⟨[], a, l, s, [], s₁, b, rfl, rfl, hs, hstep, hs₁, hmeets⟩
    · exact .inr ⟨a :: l₁, a', l₂, s₂, b :: bs₂, s₃, b', rfl,
        run_cons_eq_some.2 ⟨s₁, b, bs₂, hstep, hrun, rfl⟩, hnot, hstep', hs₃, hmeets⟩

/-- **What every step preserves, every run preserves.** -/
theorem run_invariant {I : σ → Prop}
    (hstep : ∀ s, ∀ a ∈ l, ∀ s' b, I s → P s a → step a s = some (s', b) → I s') (hs : I s)
    (hP : Meets step P s l) (h : run step s l = some (s', bs)) : I s' := by
  induction l generalizing s bs with
  | nil =>
    obtain ⟨rfl, -⟩ : s = s' ∧ _ := by simpa using h
    exact hs
  | cons a l ih =>
    obtain ⟨s₁, b, bs, hs₁, h, -⟩ := run_cons_eq_some.1 h
    exact ih (fun s a ha ↦ hstep s a (by simp [ha])) (hstep s a (by simp) s₁ b hs hP.1 hs₁)
      (hP.2 s₁ b hs₁) h

/-- **A run goes through** if every step does in the states the invariant allows. -/
theorem run_total {I : σ → Prop}
    (hstep : ∀ s, ∀ a ∈ l, I s → P s a → ∃ s' b, step a s = some (s', b) ∧ I s') (hs : I s)
    (hP : Meets step P s l) : ∃ s' bs, run step s l = some (s', bs) ∧ I s' := by
  induction l generalizing s with
  | nil => exact ⟨s, [], rfl, hs⟩
  | cons a l ih =>
    obtain ⟨s₁, b, hs₁, hI⟩ := hstep s a (by simp) hs hP.1
    obtain ⟨s', bs, h, hI'⟩ := ih (fun s a ha ↦ hstep s a (by simp [ha])) hI (hP.2 s₁ b hs₁)
    exact ⟨s', b :: bs, run_cons_eq_some.2 ⟨s₁, b, bs, hs₁, h, rfl⟩, hI'⟩

end PartialRun
