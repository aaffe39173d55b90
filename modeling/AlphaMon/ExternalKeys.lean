import AlphaMon.EngineRun

/-!
# The keys of external addresses

`external_ip` counts an address in the same table as the names, under a C string made of its four
octets, the last octet first.  A `0` among them ends the string, so that addresses that differ only
behind it are one key; and octets that are printable characters make the string a host name.
`address_keys_apart_iff` says which addresses and names are told apart.
-/

set_option autoImplicit false

namespace AlphaMon

section Cut

variable {l l' : List UInt8}

/-- Two C strings in as many bytes are different if and only if the bytes are at a position before
which there is no `0`. -/
theorem cut_ne_iff (h : l.length = l'.length) : l.takeWhile (· ≠ 0) ≠ l'.takeWhile (· ≠ 0) ↔
    ∃ n < l.length, l.getD n 0 ≠ l'.getD n 0 ∧ ∀ m < n, l.getD m 0 ≠ 0 := by
  induction l generalizing l' with
  | nil =>
    obtain rfl : l' = [] := List.length_eq_zero_iff.1 h.symm
    simp
  | cons x l ih =>
    obtain ⟨y, l', rfl⟩ := List.exists_cons_of_length_pos (l := l') (by simp at h; omega)
    have ih := ih (by simpa using h)
    by_cases hxy : x = y
    swap
    · -- the first bytes are different
      refine iff_of_true ?_ ⟨0, by simp, by simpa using hxy, by simp⟩
      by_cases hx : x = 0
      · have hy : y ≠ 0 := fun hy ↦ hxy (hx.trans hy.symm)
        simp [hx, hy]
      · by_cases hy : y = 0 <;> simp [hx, hy, hxy]
    subst hxy
    by_cases hx : x = 0
    · -- both strings end here
      subst hx
      refine iff_of_false (by simp) ?_
      rintro ⟨_ | n, -, hne, hall⟩
      · simp at hne
      · simpa using hall 0 (by omega)
    · have hcons : ∀ s s' : List UInt8, x :: s ≠ x :: s' ↔ s ≠ s' := by simp
      rw [List.takeWhile_cons_of_pos (by simpa using hx),
        List.takeWhile_cons_of_pos (by simpa using hx), hcons, ih]
      constructor
      · rintro ⟨n, hn, hne, hall⟩
        refine ⟨n + 1, by simpa using hn, by simpa using hne, fun m hm ↦ ?_⟩
        cases m with
        | zero => simpa using hx
        | succ m => simpa using hall m (by omega)
      · rintro ⟨_ | n, hn, hne, hall⟩
        · simp at hne
        · exact ⟨n, by
            simpa using hn, by simpa using hne, fun m hm ↦ by simpa using hall (m + 1) (by omega)⟩

/-- The bytes of a C string are those before which, and at which, there is no `0`. -/
theorem mem_cut_iff {c : UInt8} : c ∈ l.takeWhile (· ≠ 0) ↔
    ∃ n < l.length, l.getD n 0 = c ∧ ∀ m ≤ n, l.getD m 0 ≠ 0 := by
  induction l with
  | nil => simp
  | cons x l ih =>
    by_cases hx : x = 0
    · subst hx
      refine iff_of_false (by simp) ?_
      rintro ⟨n, -, -, hall⟩
      simpa using hall 0 (by omega)
    · rw [List.takeWhile_cons_of_pos (by simpa using hx), List.mem_cons, ih]
      constructor
      · rintro (rfl | ⟨n, hn, hc, hall⟩)
        · exact ⟨0, by simp, by simp, fun m hm ↦ by simpa [Nat.le_zero.1 hm] using hx⟩
        · refine ⟨n + 1, by simpa using hn, by simpa using hc, fun m hm ↦ ?_⟩
          cases m with
          | zero => simpa using hx
          | succ m => simpa using hall m (by omega)
      · rintro ⟨_ | n, hn, hc, hall⟩
        · exact .inl (by simpa using hc.symm)
        · exact .inr ⟨n, by
            simpa using hn, by simpa using hc, fun m hm ↦ by simpa using hall (m + 1) (by omega)⟩

end Cut

/-- A letter, a digit, `-` or `.`. -/
def IsHostChar (c : UInt8) : Prop :=
  97 ≤ c ∧ c ≤ 122 ∨ 65 ≤ c ∧ c ≤ 90 ∨ 48 ≤ c ∧ c ≤ 57 ∨ c = 45 ∨ c = 46

instance (c : UInt8) : Decidable (IsHostChar c) := inferInstanceAs (Decidable (_ ∨ _))

/-- A name as the name modules register it, made of characters of host names. -/
def IsHostName (name : List UInt8) : Prop := name ≠ [] ∧ ∀ c ∈ name, IsHostChar c

instance (name : List UInt8) : Decidable (IsHostName name) := inferInstanceAs (Decidable (_ ∧ _))

/-- An octet of the address at a position, counted from the last. -/
def Packet.octet (p : Packet) (i n : ℕ) : UInt8 := p.byte (i + 3 - n)

variable {p q : Packet} {i j : ℕ}

theorem addressName_eq_cut (p : Packet) (i : ℕ) :
    addressName p i = (List.map (p.octet i) [0, 1, 2, 3]).takeWhile (· ≠ 0) := rfl

theorem getD_octets {n : ℕ} (hn : n < 4) :
    (List.map (p.octet i) [0, 1, 2, 3]).getD n 0 = p.octet i n := by
  obtain rfl | rfl | rfl | rfl : n = 0 ∨ n = 1 ∨ n = 2 ∨ n = 3 := by omega
  all_goals rfl

/-- The characters of a key. -/
theorem mem_addressName {c : UInt8} :
    c ∈ addressName p i ↔ ∃ n < 4, p.octet i n = c ∧ ∀ m ≤ n, p.octet i m ≠ 0 := by
  rw [addressName_eq_cut, mem_cut_iff]
  refine exists_congr fun n ↦ and_congr_right fun hn ↦ ?_
  have hn : n < 4 := hn
  rw [getD_octets hn]
  exact and_congr_right fun _ ↦ forall₂_congr fun m hm ↦ by rw [getD_octets (by omega)]

/-- **Which keys are apart.**  Two addresses have different keys if and only if they differ in an
octet before which, from the last octet on, there is no `0`.  The key of an address is different
from all host names if and only if its last octet is `0` or some octet before the first `0` is no
character of a host name. -/
theorem address_keys_apart_iff (p q : Packet) (i j : ℕ) :
    (addressName p i ≠ addressName q j ↔
      ∃ n < 4, p.octet i n ≠ q.octet j n ∧ ∀ m < n, p.octet i m ≠ 0) ∧
    ((∀ name, IsHostName name → addressName p i ≠ name) ↔
      p.octet i 0 = 0 ∨ ∃ n < 4, ¬IsHostChar (p.octet i n) ∧ ∀ m ≤ n, p.octet i m ≠ 0) := by
  constructor
  · rw [addressName_eq_cut, addressName_eq_cut, cut_ne_iff (by simp)]
    refine exists_congr fun n ↦ and_congr_right fun hn ↦ ?_
    have hn : n < 4 := hn
    rw [getD_octets hn, getD_octets hn]
    exact and_congr_right fun _ ↦ forall₂_congr fun m hm ↦ by rw [getD_octets (by omega)]
  constructor
  · intro hall
    refine or_iff_not_imp_left.2 fun h0 ↦ ?_
    have hne : addressName p i ≠ [] :=
      List.ne_nil_of_mem (mem_addressName.2 ⟨0, by decide, rfl, fun m hm ↦ (Nat.le_zero.1 hm) ▸ h0⟩)
    have hnot : ¬IsHostName (addressName p i) := fun h ↦ hall _ h rfl
    have hnot' : ¬∀ c ∈ addressName p i, IsHostChar c := fun h ↦ hnot ⟨hne, h⟩
    push Not at hnot'
    obtain ⟨c, hc, hhost⟩ := hnot'
    obtain ⟨n, hn, rfl, hnz⟩ := mem_addressName.1 hc
    exact ⟨n, hn, hhost, hnz⟩
  · rintro (h0 | ⟨n, hn, hhost, hnz⟩) name hname rfl
    · obtain ⟨c, hc⟩ := List.exists_mem_of_ne_nil _ hname.1
      obtain ⟨n, -, -, hnz⟩ := mem_addressName.1 hc
      exact hnz 0 (Nat.zero_le n) h0
    · exact hhost (hname.2 _ (mem_addressName.2 ⟨n, hn, rfl, hnz⟩))

/-- A packet from an external address to an internal host. -/
def externalFrame (src : List UInt8) : Packet := tcpFrame src [10, 0, 0, 9] 40000 80 []

/-- All addresses that end in `.0` have the same key, and 97.98.99.100 has the key of the host
`dcba`. -/
theorem address_keys_apart_fails :
    (¬∀ p q : Packet, p.word 26 ≠ q.word 26 → addressName p 26 ≠ addressName q 26) ∧
    ¬∀ (p : Packet) (name : List UInt8), IsHostName name → addressName p 26 ≠ name := by
  constructor
  · intro h
    exact h (externalFrame [52, 1, 2, 0]) (externalFrame [52, 3, 4, 0]) (by decide +kernel)
      (by decide +kernel)
  · intro h
    exact h (externalFrame [97, 98, 99, 100]) [100, 99, 98, 97] (by decide +kernel)
      (by decide +kernel)

end AlphaMon
