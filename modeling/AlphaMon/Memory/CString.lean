import Mathlib.Algebra.Group.Int.Defs
import Mathlib.Algebra.Group.Nat.Defs
import Mathlib.Data.List.GetD
import Mathlib.Data.Nat.Notation

/-!
# Bytes in memory and C strings

Memory is a list of bytes, and what lies past its end reads as `0`.  `Reads d i l` says that the
bytes `l` stand in `d` from position `i` on; a message laid out in memory is taken apart with
`reads_append` and `reads_cons`.  The C string at a position ends before the first `0`, and
`cstr_eq_iff` says which memory makes it a given string.

`strcasestr` is the function of the C library: the position of the first match of a needle, upper
and lower case letters being the same.
-/

set_option autoImplicit false

namespace CString

/-- The byte at a position. -/
def byteAt (d : List UInt8) (i : ℕ) : UInt8 := d.getD i 0

theorem byteAt_of_lt {d : List UInt8} {i : ℕ} (h : i < d.length) : byteAt d i = d[i] :=
  List.getD_eq_getElem _ _ h

theorem byteAt_of_le {d : List UInt8} {i : ℕ} (h : d.length ≤ i) : byteAt d i = 0 :=
  List.getD_eq_default _ _ h

theorem byteAt_set (d : List UInt8) (i j : ℕ) (b : UInt8) :
    byteAt (d.set i b) j = if i = j ∧ i < d.length then b else byteAt d j := by
  simp only [byteAt, List.getD_eq_getElem?_getD, List.getElem?_set]
  by_cases hij : i = j
  · subst hij
    by_cases hi : i < d.length
    · simp [hi]
    · simp [hi]
  · simp [hij]

/-- The bytes `l` stand in `d` from position `i` on. -/
def Reads (d : List UInt8) (i : ℕ) (l : List UInt8) : Prop :=
  ∀ j, (h : j < l.length) → byteAt d (i + j) = l[j]

@[simp] theorem reads_nil (d : List UInt8) (i : ℕ) : Reads d i [] := by
  intro j h
  simp at h

theorem reads_cons {d : List UInt8} {i : ℕ} {b : UInt8} {l : List UInt8} :
    Reads d i (b :: l) ↔ byteAt d i = b ∧ Reads d (i + 1) l := by
  constructor
  · intro h
    refine ⟨h 0 (by simp), fun j hj ↦ ?_⟩
    rw [Nat.add_assoc, Nat.add_comm 1]
    exact h (j + 1) (by simpa using hj)
  · rintro ⟨hb, h⟩ (_ | j) hj
    · exact hb
    · rw [← Nat.add_assoc, Nat.add_right_comm]
      exact h j (by simpa using hj)

theorem reads_append {d : List UInt8} {i : ℕ} {l l' : List UInt8} :
    Reads d i (l ++ l') ↔ Reads d i l ∧ Reads d (i + l.length) l' := by
  induction l generalizing i with
  | nil => simp
  | cons b l ih => simp [reads_cons, ih, and_assoc, Nat.add_assoc, Nat.add_comm 1]

/-- Text stands where the bytes are the same. -/
theorem Reads.congr {d d' : List UInt8} {i : ℕ} {l : List UInt8} (h : Reads d i l)
    (heq : ∀ j, i ≤ j → j < i + l.length → byteAt d' j = byteAt d j) : Reads d' i l :=
  fun j hj ↦ (heq _ (Nat.le_add_right ..) (by omega)).trans (h j hj)

/-- A byte of memory that a text covers. -/
theorem Reads.getElem {d : List UInt8} {i : ℕ} {l : List UInt8} (h : Reads d i l) {j : ℕ}
    (hi : i ≤ j) (hj : j < i + l.length) : byteAt d j = l[j - i] := by
  have := h (j - i) (by omega)
  rwa [Nat.add_sub_cancel' hi] at this

/-- Text without a `0` ends before the memory does. -/
theorem Reads.add_length_le {d : List UInt8} {i : ℕ} {l : List UInt8} (h : Reads d i l)
    (h0 : 0 ∉ l) :
    l = [] ∨ i + l.length ≤ d.length := by
  rcases List.eq_nil_or_concat l with rfl | ⟨l, b, rfl⟩
  · exact .inl rfl
  · refine .inr (Nat.not_lt.1 fun hlt ↦ ?_)
    have hb : byteAt d (i + l.length) = b := by simpa using h l.length (by simp)
    rw [byteAt_of_le (by simp at hlt; omega)] at hb
    exact h0 (by simp [hb])

theorem Reads.takeWhile {d : List UInt8} {i : ℕ} {l : List UInt8} (h : Reads d i l)
    (f : UInt8 → Bool) : Reads d i (l.takeWhile f) := by
  have happ : l = l.takeWhile f ++ l.dropWhile f := List.takeWhile_append_dropWhile.symm
  rw [happ, reads_append] at h
  exact h.1

/-- Bytes laid out in memory can be read there. -/
theorem reads_of_append (l l' l'' : List UInt8) : Reads (l ++ (l' ++ l'')) l.length l' := by
  intro j hj
  rw [byteAt, List.getD_append_right _ _ _ _ (Nat.le_add_right ..), Nat.add_sub_cancel_left,
    List.getD_append _ _ _ _ hj]
  exact List.getD_eq_getElem _ _ hj

/-! ## Numbers in network byte order -/

/-- Two bytes, the most significant first. -/
def be16 (n : ℕ) : List UInt8 := [UInt8.ofNat (n / 256), UInt8.ofNat n]

@[simp] theorem be16_length (n : ℕ) : (be16 n).length = 2 := rfl

/-- The number two bytes of memory spell. -/
theorem reads_be16 {d : List UInt8} {i n : ℕ} (h : Reads d i (be16 n)) (hn : n < 2 ^ 16) :
    (byteAt d i).toNat * 256 + (byteAt d (i + 1)).toNat = n := by
  obtain ⟨h₁, h₂⟩ := reads_cons.1 h
  rw [reads_cons] at h₂
  rw [h₁, h₂.1, UInt8.toNat_ofNat', UInt8.toNat_ofNat']
  omega

/-- A byte that spells a small number. -/
theorem reads_byte {d : List UInt8} {i n : ℕ} (h : Reads d i [UInt8.ofNat n]) (hn : n < 2 ^ 8) :
    (byteAt d i).toNat = n := by
  rw [(reads_cons.1 h).1, UInt8.toNat_ofNat']
  exact Nat.mod_eq_of_lt hn

/-! ## C strings -/

/-- The C string at a position. -/
def cstr (d : List UInt8) (i : ℕ) : List UInt8 := (d.drop i).takeWhile (· ≠ 0)

theorem cstr_zero {d : List UInt8} {i : ℕ} (h : byteAt d i = 0) : cstr d i = [] := by
  rw [cstr]
  rcases Nat.lt_or_ge i d.length with hi | hi
  · rw [byteAt_of_lt hi] at h
    rw [List.drop_eq_getElem_cons hi, List.takeWhile_cons_of_neg (by simpa using h)]
  · rw [List.drop_eq_nil_of_le hi, List.takeWhile_nil]

theorem cstr_cons {d : List UInt8} {i : ℕ} (h : byteAt d i ≠ 0) :
    cstr d i = byteAt d i :: cstr d (i + 1) := by
  have hi : i < d.length := Nat.not_le.1 fun hi ↦ h (byteAt_of_le hi)
  rw [byteAt_of_lt hi] at h ⊢
  rw [cstr, List.drop_eq_getElem_cons hi, List.takeWhile_cons_of_pos (by simpa using h), cstr]

/-- **The memory of a string**: its bytes, none of them `0`, and a `0`. -/
theorem cstr_eq_iff {d : List UInt8} {i : ℕ} {l : List UInt8} :
    cstr d i = l ↔ Reads d i l ∧ 0 ∉ l ∧ byteAt d (i + l.length) = 0 := by
  induction l generalizing i with
  | nil =>
    by_cases h : byteAt d i = 0
    · simp [cstr_zero h, h]
    · simp [cstr_cons h, h]
  | cons b l ih =>
    have hend : i + (b :: l).length = i + 1 + l.length := by
      rw [List.length_cons]
      omega
    rw [reads_cons, hend, List.mem_cons, not_or]
    by_cases h : byteAt d i = 0
    · rw [cstr_zero h]
      constructor
      · rintro ⟨⟩
      · rintro ⟨⟨hb, -⟩, ⟨h0, -⟩, -⟩
        exact absurd (hb ▸ h).symm h0
    · rw [cstr_cons h, List.cons.injEq, ih]
      constructor
      · rintro ⟨rfl, hl, h0, hz⟩
        exact ⟨⟨rfl, hl⟩, ⟨Ne.symm h, h0⟩, hz⟩
      · rintro ⟨⟨rfl, hl⟩, ⟨-, h0⟩, hz⟩
        exact ⟨rfl, hl, h0, hz⟩

/-- What stands in memory before a string ends is the beginning of the string. -/
theorem cstr_append {d : List UInt8} {i : ℕ} {l : List UInt8} (h : Reads d i l) (h0 : 0 ∉ l) :
    cstr d i = l ++ cstr d (i + l.length) := by
  induction l generalizing i with
  | nil => rfl
  | cons b l ih =>
    obtain ⟨rfl, hl⟩ := reads_cons.1 h
    rw [List.mem_cons, not_or] at h0
    rw [cstr_cons (Ne.symm h0.1), ih hl h0.2, List.cons_append, List.length_cons, Nat.add_assoc,
      Nat.add_comm 1]

/-- A string of a given length that the bytes spell is these bytes. -/
theorem cstr_eq_of_length {d : List UInt8} {i : ℕ} {l : List UInt8} (h : Reads d i l)
    (hlen : (cstr d i).length = l.length) : cstr d i = l := by
  obtain ⟨hs, -, -⟩ := cstr_eq_iff.1 (rfl : cstr d i = cstr d i)
  refine List.ext_getElem hlen fun j h₁ h₂ ↦ ?_
  rw [← hs j h₁, h j h₂]

/-! ## Searching -/

/-- `tolower`. -/
def toLower (b : UInt8) : UInt8 := if 65 ≤ b ∧ b ≤ 90 then b + 32 else b

/-- The needle matches at a position, in any case. -/
def MatchesAt (needle s : List UInt8) (i : ℕ) : Prop :=
  needle.map toLower <+: (s.drop i).map toLower

instance (needle s : List UInt8) (i : ℕ) : Decidable (MatchesAt needle s i) :=
  inferInstanceAs (Decidable (_ <+: _))

/-- `strcasestr`: the first match. -/
def strcasestr (needle s : List UInt8) : Option ℕ :=
  (List.range (s.length + 1)).find? fun i ↦ decide (MatchesAt needle s i)

theorem strcasestr_eq_some {needle s : List UInt8} {i : ℕ} :
    strcasestr needle s = some i ↔
      MatchesAt needle s i ∧ i ≤ s.length ∧ ∀ j < i, ¬MatchesAt needle s j := by
  simp only [strcasestr, List.find?_range_eq_some, decide_eq_true_eq, List.mem_range,
    Nat.lt_add_one_iff,
    Bool.not_eq_true', decide_eq_false_iff_not]

/-- Whether a needle matches within the beginning of a text depends on the beginning alone. -/
theorem matchesAt_append {needle l : List UInt8} {i : ℕ} (h : i + needle.length ≤ l.length)
    (s : List UInt8) : MatchesAt needle (l ++ s) i ↔ MatchesAt needle l i := by
  rw [MatchesAt, MatchesAt, List.drop_append_of_le_length (by omega), List.map_append]
  exact ⟨fun hp ↦ List.prefix_of_prefix_length_le hp (List.prefix_append ..) (by simp; omega),
    fun hp ↦ hp.trans (List.prefix_append ..)⟩

/-- A first match within the beginning of a text is there whatever comes after it. -/
theorem strcasestr_append {needle l s : List UInt8} {i : ℕ}
    (h : i + needle.length ≤ l.length) (s' : List UInt8)
    (hs : strcasestr needle (l ++ s) = some i) : strcasestr needle (l ++ s') = some i := by
  obtain ⟨hi, -, hj⟩ := strcasestr_eq_some.1 hs
  refine strcasestr_eq_some.2 ⟨?_, by simp; omega, fun j hji ↦ ?_⟩
  · rwa [matchesAt_append h] at hi ⊢
  · have := hj j hji
    rwa [matchesAt_append (by omega)] at this ⊢

/-- A text that starts with the needle. -/
theorem strcasestr_self (needle s : List UInt8) : strcasestr needle (needle ++ s) = some 0 :=
  strcasestr_eq_some.2 ⟨by simp [MatchesAt], Nat.zero_le _, by simp⟩

/-- A needle that stands in memory behind other characters is a match in the string. -/
theorem matchesAt_of_reads {needle d : List UInt8} {i k : ℕ} (h : Reads d (i + k) needle)
    (h0 : 0 ∉ needle) (hne : ∀ j < k, byteAt d (i + j) ≠ 0) : MatchesAt needle (cstr d i) k := by
  induction k generalizing i with
  | zero =>
    rw [Nat.add_zero] at h
    rw [MatchesAt, cstr_append h h0, List.drop_zero, List.map_append]
    exact List.prefix_append ..
  | succ k ih =>
    have hfirst : byteAt d i ≠ 0 := hne 0 (Nat.succ_pos k)
    rw [cstr_cons hfirst]
    refine ih (by rwa [Nat.add_assoc, Nat.add_comm 1]) fun j hj ↦ ?_
    rw [Nat.add_assoc, Nat.add_comm 1]
    exact hne (j + 1) (Nat.succ_lt_succ hj)

/-- The characters of a match. -/
theorem MatchesAt.toLower_byteAt {needle d : List UInt8} {i k j : ℕ}
    (h : MatchesAt needle (cstr d i) k) (hj : j < needle.length) :
    toLower (byteAt d (i + k + j)) = toLower needle[j] := by
  obtain ⟨hreads, -, -⟩ := cstr_eq_iff.1 (rfl : cstr d i = cstr d i)
  have hlen := h.length_le
  rw [List.length_map, List.length_map, List.length_drop] at hlen
  have hget := List.IsPrefix.getElem h (i := j) (by simpa using hj)
  rw [List.getElem_map, List.getElem_map, List.getElem_drop] at hget
  rw [Nat.add_assoc, hreads (k + j) (by omega), hget]

end CString
