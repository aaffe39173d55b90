import AlphaMon.Memory.CString
import Mathlib.Data.List.TakeWhile

/-!
# Numbers and tokens in C strings

A C string is a list of bytes without `0`.  `decimal` is what `%d` prints of a natural number;
`strtok` and `strtol` are the functions of the C library, with a single delimiter and to the base
10.  Both give what they leave of the string: `strtok` in its hidden state, `strtol` through its
second argument.
-/

set_option autoImplicit false

namespace CString

/-- The decimal digits of a number. -/
def decimal (n : ℕ) : List UInt8 := (Nat.toDigits 10 n).map fun c ↦ UInt8.ofNat c.toNat

/-- A digit. -/
def isDigit (c : UInt8) : Bool := 48 ≤ c ∧ c ≤ 57

/-- White space. -/
def isSpace (c : UInt8) : Bool := c = 32 ∨ 9 ≤ c ∧ c ≤ 13

/-- The number a digit string stands for. -/
def digitsVal (l : List UInt8) : ℕ := l.foldl (fun v c ↦ 10 * v + (c.toNat - 48)) 0

/-- The next token of a string, and what is left after it. -/
def strtok (delim : UInt8) (s : List UInt8) : Option (List UInt8 × List UInt8) :=
  let s := s.dropWhile (· = delim)
  if s = [] then none else some (s.takeWhile (· ≠ delim), (s.dropWhile (· ≠ delim)).tail)

/-- The number at the start of a string, which saturates as a `long` of 64 bits, and what is left
after it.  Without a number all is left. -/
def strtol (s : List UInt8) : ℤ × List UInt8 :=
  let t := s.dropWhile isSpace
  let digits := if t.head? = some 43 ∨ t.head? = some 45 then t.tail else t
  let n := digitsVal (digits.takeWhile isDigit)
  if digits.takeWhile isDigit = [] then (0, s)
  else if t.head? = some 45 then
    (if n ≤ 2 ^ 63 then -n else -2 ^ 63, digits.dropWhile isDigit)
  else (if n < 2 ^ 63 then n else 2 ^ 63 - 1, digits.dropWhile isDigit)

theorem digit_bounds {n : ℕ} {c : Char} (h : c ∈ Nat.toDigits 10 n) :
    48 ≤ c.toNat ∧ c.toNat ≤ 57 := by
  have hd := Nat.isDigit_of_mem_toDigits (by decide) (by decide) h
  simp only [Char.isDigit, Bool.and_eq_true, decide_eq_true_eq, ge_iff_le,
    UInt32.le_iff_toNat_le] at hd
  exact hd

theorem decimal_ne_nil (n : ℕ) : decimal n ≠ [] := by
  simp [decimal, Nat.toDigits_ne_nil]

theorem isDigit_of_mem_decimal {n : ℕ} {c : UInt8} (h : c ∈ decimal n) : isDigit c = true := by
  obtain ⟨d, hd, rfl⟩ := List.mem_map.1 h
  obtain ⟨h₁, h₂⟩ := digit_bounds hd
  simp only [isDigit, decide_eq_true_eq, UInt8.le_iff_toNat_le, UInt8.toNat_ofNat']
  exact ⟨h₁.trans_eq (Nat.mod_eq_of_lt (by omega)).symm, (Nat.mod_le ..).trans h₂⟩

/-- A character that is no digit does not occur in a number. -/
theorem notMem_decimal {c : UInt8} (h : isDigit c = false) (n : ℕ) : c ∉ decimal n :=
  fun hc ↦ by simp [isDigit_of_mem_decimal hc] at h

theorem digitsVal_decimal (n : ℕ) : digitsVal (decimal n) = n := by
  have hval : ∀ (l : List Char) (v : ℕ), (∀ c ∈ l, c.toNat < 256) →
      (l.map fun c ↦ UInt8.ofNat c.toNat).foldl (fun v c ↦ 10 * v + (c.toNat - 48)) v =
        Nat.ofDigitChars 10 l v := by
    intro l
    induction l with
    | nil => simp
    | cons c l ih =>
      intro v h
      rw [List.map_cons, List.foldl_cons, ih _ fun c hc ↦ h c (List.mem_cons_of_mem _ hc),
        Nat.ofDigitChars_cons, UInt8.toNat_ofNat', Nat.mod_eq_of_lt (h c List.mem_cons_self)]
      rfl
  rw [digitsVal, decimal, hval, Nat.ofDigitChars_toDigits (by decide) (by decide)]
  intro c hc
  have h := digit_bounds hc
  omega

/-- A number is read back. -/
theorem strtol_decimal {n : ℕ} (hn : n < 2 ^ 63) : strtol (decimal n) = ((n : ℤ), []) := by
  have hdigit : ∀ c ∈ decimal n, isDigit c = true := fun c hc ↦ isDigit_of_mem_decimal hc
  have hval := digitsVal_decimal n
  cases hd : decimal n with
  | nil => exact absurd hd (decimal_ne_nil n)
  | cons c l =>
    rw [hd] at hdigit hval
    obtain ⟨h₁, h₂⟩ : 48 ≤ c ∧ c ≤ 57 := by simpa [isDigit] using hdigit c List.mem_cons_self
    have hspace : isSpace c = false := by
      simp only [isSpace, decide_eq_false_iff_not]
      grind
    have h43 : c ≠ 43 := by grind
    have h45 : c ≠ 45 := by grind
    have htake : (c :: l).takeWhile isDigit = c :: l := List.takeWhile_eq_self_iff.2 hdigit
    have hdrop : (c :: l).dropWhile isDigit = [] := List.dropWhile_eq_nil_iff.2 hdigit
    simp only [strtol, List.dropWhile_cons, hspace, List.head?_cons, Option.some.injEq, h43, h45,
      false_or,
      if_false, Bool.false_eq_true]
    rw [htake, if_neg (List.cons_ne_nil c l), hval, ← List.dropWhile_cons, hdrop,
      if_pos hn]

/-- The first of several tokens. -/
theorem strtok_append {delim : UInt8} {tok : List UInt8} (htok : tok ≠ []) (h : delim ∉ tok)
    (s : List UInt8) : strtok delim (tok ++ delim :: s) = some (tok, s) := by
  obtain ⟨c, l, rfl⟩ := List.exists_cons_of_ne_nil htok
  have hne : ∀ x ∈ c :: l, decide (x ≠ delim) = true := fun x hx ↦ by
    simpa using fun hxd : x = delim ↦ h (hxd ▸ hx)
  have hc : c ≠ delim := by simpa using hne c List.mem_cons_self
  have hdrop : ((c :: l) ++ delim :: s).dropWhile (· = delim) = (c :: l) ++ delim :: s := by
    simp [hc]
  rw [strtok, hdrop, if_neg (by simp), List.takeWhile_append_of_pos hne,
    List.dropWhile_append_of_pos hne]
  simp

/-- The last token. -/
theorem strtok_last {delim : UInt8} {tok : List UInt8} (htok : tok ≠ []) (h : delim ∉ tok) :
    strtok delim tok = some (tok, []) := by
  obtain ⟨c, l, rfl⟩ := List.exists_cons_of_ne_nil htok
  have hne : ∀ x ∈ c :: l, decide (x ≠ delim) = true := fun x hx ↦ by
    simpa using fun hxd : x = delim ↦ h (hxd ▸ hx)
  have hc : c ≠ delim := by simpa using hne c List.mem_cons_self
  have hdrop : (c :: l).dropWhile (· = delim) = c :: l := by
    simp [hc]
  rw [strtok, hdrop, if_neg (List.cons_ne_nil c l), List.takeWhile_eq_self_iff.2 hne,
    List.dropWhile_eq_nil_iff.2 hne]
  rfl

end CString
