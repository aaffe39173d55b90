import Mathlib.Data.Nat.Notation
import Mathlib.Tactic.Common

/-!
# Domain names on the wire

A domain name is a list of labels.  In a message every label follows a byte with its length, and a
`0` ends the name (`wire`); as text the labels are joined by dots (`text`).  `LabelByte ls i j` says
that position `j` belongs to a label of a name that starts at position `i`, and not to one of the
bytes between the labels.

A name in a message may also end with a pointer to another.  What comes before that, or before the
`0`, are the labels alone (`labelBytes`), and `SuffixAt ls i j` says that position `j` is where one
of them starts or where the last one ends.
-/

set_option autoImplicit false

namespace DomainName

/-- A name in a message. -/
def wire : List (List UInt8) → List UInt8
  | [] => [0]
  | l :: ls => UInt8.ofNat l.length :: (l ++ wire ls)

/-- A name as text. -/
def text : List (List UInt8) → List UInt8
  | [] => []
  | [l] => l
  | l :: l' :: ls => l ++ 46 :: text (l' :: ls)

/-- The labels have the lengths that labels can have. -/
def Valid (ls : List (List UInt8)) : Prop := ∀ l ∈ ls, 0 < l.length ∧ l.length ≤ 63

instance (ls : List (List UInt8)) : Decidable (Valid ls) := inferInstanceAs (Decidable (∀ _ ∈ _, _))

/-- The lengths of the labels are small as numbers with a sign. -/
def Short (ls : List (List UInt8)) : Prop := ∀ l ∈ ls, 0 < l.length ∧ l.length < 128

instance (ls : List (List UInt8)) : Decidable (Short ls) := inferInstanceAs (Decidable (∀ _ ∈ _, _))

/-- Position `j` belongs to a label of a name that starts at position `i`. -/
def LabelByte : List (List UInt8) → ℕ → ℕ → Prop
  | [], _, _ => False
  | l :: ls, i, j => i + 1 ≤ j ∧ j < i + 1 + l.length ∨ LabelByte ls (i + 1 + l.length) j

instance : ∀ ls i j, Decidable (LabelByte ls i j)
  | [], _, _ => isFalse id
  | l :: ls, i, j =>
    have := instDecidableLabelByte ls (i + 1 + l.length) j
    inferInstanceAs (Decidable (_ ∧ _ ∨ _))

variable {l : List UInt8} {ls : List (List UInt8)} {i j : ℕ}

@[simp] theorem wire_nil : wire [] = [0] := rfl

theorem wire_cons (l : List UInt8) (ls : List (List UInt8)) :
    wire (l :: ls) = UInt8.ofNat l.length :: (l ++ wire ls) := rfl

@[simp] theorem text_nil : text [] = [] := rfl

@[simp] theorem text_singleton (l : List UInt8) : text [l] = l := rfl

theorem text_cons (l : List UInt8) (h : ls ≠ []) : text (l :: ls) = l ++ 46 :: text ls := by
  cases ls with
  | nil => exact absurd rfl h
  | cons l' ls => rfl

@[simp] theorem valid_nil : Valid [] := by simp [Valid]

theorem valid_cons : Valid (l :: ls) ↔ (0 < l.length ∧ l.length ≤ 63) ∧ Valid ls := by
  simp [Valid]

theorem Valid.short (h : Valid ls) :
    Short ls := fun l hl ↦ ⟨(h l hl).1, by have := (h l hl).2; omega⟩

@[simp] theorem short_nil : Short [] := by simp [Short]

theorem short_cons : Short (l :: ls) ↔ (0 < l.length ∧ l.length < 128) ∧ Short ls := by
  simp [Short]

theorem length_wire_pos (ls : List (List UInt8)) : 0 < (wire ls).length := by
  cases ls <;> simp [wire]

@[simp] theorem length_wire_cons (l : List UInt8) (ls : List (List UInt8)) :
    (wire (l :: ls)).length = l.length + (wire ls).length + 1 := by
  simp [wire_cons]

/-- A name takes two bytes more in a message than as text. -/
theorem length_wire (h : ls ≠ []) : (wire ls).length = (text ls).length + 2 := by
  induction ls with
  | nil => exact absurd rfl h
  | cons l ls ih =>
    cases ls with
    | nil => simp
    | cons l' ls =>
      rw [length_wire_cons, ih (by simp), text_cons l (by simp)]
      simp
      omega

/-- There are fewer labels than bytes. -/
theorem length_lt_length_wire (ls : List (List UInt8)) : ls.length < (wire ls).length := by
  induction ls with
  | nil => simp
  | cons l ls ih =>
    rw [length_wire_cons, List.length_cons]
    omega

/-- **A name in a message is read in one way**, whatever stands behind it. -/
theorem wire_append_inj {ls' : List (List UInt8)} {r r' : List UInt8} (h : Short ls)
    (h' : Short ls') (heq : wire ls ++ r = wire ls' ++ r') : ls = ls' := by
  induction ls generalizing ls' with
  | nil =>
    cases ls' with
    | nil => rfl
    | cons l' ls' =>
      have hne : l'.length % 2 ^ 8 ≠ 0 := by have := (short_cons.1 h').1; omega
      have hbyte := congrArg UInt8.toNat (List.cons.inj heq).1
      rw [UInt8.toNat_ofNat', UInt8.toNat_zero] at hbyte
      exact absurd hbyte.symm hne
  | cons l ls ih =>
    obtain ⟨⟨hpos, hlt⟩, hls⟩ := short_cons.1 h
    cases ls' with
    | nil =>
      have hbyte := congrArg UInt8.toNat (List.cons.inj heq).1
      rw [UInt8.toNat_ofNat', UInt8.toNat_zero] at hbyte
      omega
    | cons l' ls' =>
      obtain ⟨⟨hpos', hlt'⟩, hls'⟩ := short_cons.1 h'
      obtain ⟨hbyte, hrest⟩ := List.cons.inj heq
      rw [List.append_eq, List.append_eq, List.append_assoc, List.append_assoc] at hrest
      have hlength := congrArg UInt8.toNat hbyte
      rw [UInt8.toNat_ofNat', UInt8.toNat_ofNat'] at hlength
      obtain ⟨rfl, htail⟩ := List.append_inj hrest (by omega)
      rw [ih hls hls' htail]

/-- A label byte is between the first byte of the name and the last. -/
theorem LabelByte.bounds (h : LabelByte ls i j) : i < j ∧ j + 1 < i + (wire ls).length := by
  induction ls generalizing i with
  | nil => exact h.elim
  | cons l ls ih =>
    rw [length_wire_cons]
    have := length_wire_pos ls
    rcases h with h | h
    · omega
    · have := ih h
      omega

/-- The text of a name with labels is not empty. -/
theorem text_ne_nil (hv : Valid ls) (h : ls ≠ []) : text ls ≠ [] := by
  cases ls with
  | nil => exact absurd rfl h
  | cons l ls =>
    have hl := (valid_cons.1 hv).1
    cases ls with
    | nil =>
      rintro rfl
      simp at hl
    | cons l' ls => simp [text_cons]

/-- No byte of the text is `0` if no byte of a label is. -/
theorem zero_notMem_text (h : ∀ l ∈ ls, 0 ∉ l) : 0 ∉ text ls := by
  induction ls with
  | nil => simp
  | cons l ls ih =>
    cases ls with
    | nil => simpa using h
    | cons l' ls =>
      rw [text_cons l (by simp)]
      simp only [List.mem_append, List.mem_cons, not_or]
      exact ⟨h l (by simp), by decide, ih fun l hl ↦ h l (List.mem_cons_of_mem _ hl)⟩

/-! ## Names without their end -/

/-- The labels of a name in a message. -/
def labelBytes : List (List UInt8) → List UInt8
  | [] => []
  | l :: ls => UInt8.ofNat l.length :: (l ++ labelBytes ls)

/-- A suffix of the labels of a name at position `i` starts at position `j`. -/
def SuffixAt : List (List UInt8) → ℕ → ℕ → Prop
  | [], i, j => j = i
  | l :: ls, i, j => j = i ∨ SuffixAt ls (i + 1 + l.length) j

@[simp] theorem labelBytes_nil : labelBytes [] = [] := rfl

theorem labelBytes_cons (l : List UInt8) (ls : List (List UInt8)) :
    labelBytes (l :: ls) = UInt8.ofNat l.length :: (l ++ labelBytes ls) := rfl

@[simp] theorem length_labelBytes_cons (l : List UInt8) (ls : List (List UInt8)) :
    (labelBytes (l :: ls)).length = 1 + l.length + (labelBytes ls).length := by
  simp only [labelBytes_cons, List.length_cons, List.length_append]
  omega

theorem wire_eq (ls : List (List UInt8)) : wire ls = labelBytes ls ++ [0] := by
  induction ls with
  | nil => rfl
  | cons l ls ih => rw [wire_cons, ih, labelBytes_cons, List.cons_append, List.append_assoc]

theorem LabelByte.lt (h : LabelByte ls i j) : i < j ∧ j < i + (labelBytes ls).length := by
  have hbounds := h.bounds
  rw [wire_eq, List.length_append, List.length_singleton] at hbounds
  omega

end DomainName
