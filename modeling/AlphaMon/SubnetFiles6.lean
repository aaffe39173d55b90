import AlphaMon.SubnetFiles

/-!
# What a subnet file of IPv6 networks means

`match_ipv6_net` compares an address with a network in two steps, the full bytes of the mask and the
bits left in the next byte.  Together this is agreement on the first bits (`inNetv6_iff`), for every
length of a mask.

So a file of entries `addr/m`, with comments and empty lines anywhere, covers the addresses that
agree with one of its networks on the bits of its mask (`subnet_file6`).
-/

set_option autoImplicit false

namespace AlphaMon

open CString Prefix

/-! ## Matching -/

/-- The bits of a word in network order are those of its bytes in memory. -/
theorem getMsbD_htonl (w : BitVec 32) {r j : ℕ} (hr : r < 4) (hj : j < 8) :
    (htonl w).getMsbD (8 * r + j) = ((w >>> (8 * r)).setWidth 8).getMsbD j := by
  rw [BitVec.getMsbD_eq_getLsbD, BitVec.getMsbD_eq_getLsbD, getLsbD_htonl _ (by omega),
    BitVec.getLsbD_setWidth,
    BitVec.getLsbD_ushiftRight, decide_eq_true (by omega), decide_eq_true (by omega),
      decide_eq_true (by omega),
    Bool.true_and, Bool.true_and, Bool.true_and]
  congr 1
  omega

/-- The bits of an address in network order are those of its bytes. -/
theorem In6Addr.getMsbD_network (a : In6Addr) {k j : ℕ} (hk : k < 16) (hj : j < 8) :
    a.network.getMsbD (8 * k + j) = (a.byte k).toBitVec.getMsbD j := by
  have hword (w : BitVec 32) : (htonl w).getMsbD (8 * (k % 4) + j) =
    ((w >>> (8 * (k % 4))).setWidth 8).getMsbD j :=
    getMsbD_htonl w (Nat.mod_lt k (by decide)) hj
  rw [network, byte]
  simp only [BitVec.getMsbD_append]
  have hcases : k / 4 = 0 ∨ k / 4 = 1 ∨ k / 4 = 2 ∨ k / 4 = 3 := by omega
  rcases hcases with h | h | h | h
  · rw [if_neg (by omega), if_neg (by omega), if_neg (by omega), if_pos h,
      show 8 * k + j = 8 * (k % 4) + j by omega,
      hword]
  · rw [if_neg (by omega), if_neg (by omega), if_pos (by omega), if_neg (by omega), if_pos h,
      show 8 * k + j - 32 = 8 * (k % 4) + j by omega, hword]
  · rw [if_neg (by omega), if_pos (by omega), if_neg (by omega), if_neg (by omega), if_pos h,
      show 8 * k + j - (32 + 32) = 8 * (k % 4) + j by omega, hword]
  · rw [if_pos (by omega), if_neg (by omega), if_neg (by omega), if_neg (by omega),
      show 8 * k + j - (32 + 32 + 32) = 8 * (k % 4) + j by omega, hword]

/-- The entries of `masks` are leading ones. -/
theorem masks_toBitVec {p : ℕ} (hp : 0 < p) (hp8 : p < 8) :
    (masks.getD (p - 1) 0).toBitVec = BitVec.allOnes 8 <<< (8 - p) := by
  have hall : ∀ p < 8, 0 < p → (masks.getD (p - 1) 0).toBitVec = BitVec.allOnes 8 <<< (8 - p) := by
    decide
  exact hall p hp8 hp

/-- **An address matches a network** exactly when they agree on the bits of the mask. -/
theorem inNetv6_iff (x a : In6Addr) {m : ℕ} (hm : m ≤ 128) : inNetv6 x a m = true ↔
    Agree m x.network a.network := by
  have hbits (a : In6Addr) : ∀ k < 16, ∀ j < 8, a.network.getMsbD (8 * k + j) =
    (a.byte k).toBitVec.getMsbD j :=
    fun k hk j hj ↦ a.getMsbD_network hk hj
  have hdiv : ((m : ℤ) / 8).toNat = m / 8 := by omega
  have hmod : ((m : ℤ) % 8).toNat = m % 8 := by omega
  have hrest : (m % 8 ≠ 0 → x.byte (m / 8) &&& masks.getD (m % 8 - 1) 0 = a.byte
    (m / 8) &&& masks.getD (m % 8 - 1) 0) ↔
      Agree (m % 8) (x.byte (m / 8)).toBitVec (a.byte (m / 8)).toBitVec := by
    rcases Nat.eq_zero_or_pos (m % 8) with h0 | hpos
    · simp [h0]
    · have hmask := masks_toBitVec hpos (Nat.mod_lt m (by decide))
      rw [agree_iff_and (by omega), ← hmask, ← UInt8.toBitVec_and, ← UInt8.toBitVec_and,
        UInt8.toBitVec_inj]
      exact forall_prop_of_true (by omega)
  rw [inNetv6, agree_chunks hm (hbits x) (hbits a), ← hrest, decide_eq_true_eq]
  simp only [hdiv, hmod, UInt8.toBitVec_inj]
  refine or_iff_right_of_imp fun h0 ↦ ?_
  obtain rfl : m = 0 := by exact_mod_cast h0
  simp

/-! ## Entries -/

/-- The characters of IPv6 addresses: hexadecimal digits, `:` and `.`. -/
def IsIpv6Char (c : UInt8) : Prop :=
  48 ≤ c ∧ c ≤ 57 ∨ 65 ≤ c ∧ c ≤ 70 ∨ 97 ≤ c ∧ c ≤ 102 ∨ c = 58 ∨ c = 46

instance : DecidablePred IsIpv6Char := fun _ ↦ inferInstanceAs (Decidable (_ ∨ _))

/-- An entry `addr/m` of a subnet file, with the address that its text stands for. -/
structure Net6Entry where
  text : List UInt8
  address : In6Addr
  m : ℕ
  hm : m ≤ 128
  chars : ∀ c ∈ text, IsIpv6Char c
  colon : 58 ∈ text

namespace Net6Entry

/-- The line of an entry. -/
def line (e : Net6Entry) : List UInt8 := e.text ++ 47 :: decimal e.m

/-- The entry covers an address: they agree on the first `m` bits. -/
def Covers (x : In6Addr) (e : Net6Entry) : Prop := Agree e.m x.network e.address.network

variable (e : Net6Entry)

theorem notMem_text {c : UInt8} (hc : ¬IsIpv6Char c) : c ∉ e.text := fun hmem ↦ hc (e.chars c hmem)

theorem text_ne_nil : e.text ≠ [] := List.ne_nil_of_mem e.colon

/-- The line of an entry has no character that ends a line or a string. -/
theorem notMem_line {c : UInt8} (hc : ¬IsIpv6Char c) (hdigit : isDigit c = false)
    (hslash : c ≠ 47) : c ∉ e.line := by
  simp [line, e.notMem_text hc, notMem_decimal hdigit, hslash]

/-- **An entry is stored** with its address and the length of its mask. -/
theorem parseSingle_line {inet : Inet} {e : Net6Entry} (h : inet.pton6 e.text = some e.address)
    (entry : ℕ) (tab : NetTable) :
    parseSingle inet entry e.line tab = ((tab.setNetv6 e.address).addMaskv6 e.m, none) := by
  have hm := e.hm
  rw [parseSingle, line, strtok_append e.text_ne_nil (e.notMem_text (by decide))]
  simp only [strtok_last (decimal_ne_nil e.m) (notMem_decimal (c := 47) (by decide) e.m)]
  rw [if_pos e.colon, h]
  simp only [parseMaskv6]
  rw [if_pos (notMem_decimal (by decide) e.m), strtol_decimal (by omega)]
  simp only
  rw [if_neg (by simp; omega)]

end Net6Entry

/-- The file consists of the entries, with comments and empty lines anywhere. -/
def IsNet6File (file : List UInt8) (entries : List Net6Entry) : Prop :=
  contentLines file = entries.map Net6Entry.line

/-! ## Filling a table -/

/-- The IPv6 networks in a table are those of the entries. -/
structure NetTable.Holds6 (tab : NetTable) (entries : List Net6Entry) : Prop where
  tot : tab.totNetsv6 = entries.length
  net : ∀ i, (h : i < entries.length) → tab.netListv6 i = entries[i].address ∧
    tab.netMaskv6 i = entries[i].m

/-- An entry is appended. -/
theorem NetTable.Holds6.add {tab : NetTable} {entries : List Net6Entry} (h : tab.Holds6 entries)
    (e : Net6Entry) :
    ((tab.setNetv6 e.address).addMaskv6 e.m).Holds6 (entries ++ [e]) where
  tot := by simp [addMaskv6, setNetv6, h.tot]
  net := by
    intro i hi
    rw [List.length_append, List.length_singleton] at hi
    simp only [addMaskv6, setNetv6, Function.update_apply, h.tot]
    rcases Nat.lt_succ_iff_lt_or_eq.1 hi with hlt | rfl
    · rw [if_neg (by omega), if_neg (by omega), List.getElem_append_left hlt]
      exact h.net i hlt
    · simp

/-- The matcher finds an address in one of the networks. -/
theorem matchIpv6Net_iff {tab : NetTable} {entries : List Net6Entry} (h : tab.Holds6 entries)
    (x : In6Addr) :
    matchIpv6Net x tab = 1 ↔ ∃ e ∈ entries, e.Covers x := by
  have hloop : ((List.range tab.totNetsv6).any fun i ↦
    inNetv6 x (tab.netListv6 i) (tab.netMaskv6 i)) = true ↔
      ∃ e ∈ entries, e.Covers x := by
    simp only [List.any_eq_true, List.mem_range, h.tot]
    constructor
    · rintro ⟨i, hi, hmatch⟩
      obtain ⟨haddr, hmask⟩ := h.net i hi
      rw [haddr, hmask, inNetv6_iff _ _ entries[i].hm] at hmatch
      exact ⟨entries[i], List.getElem_mem hi, hmatch⟩
    · rintro ⟨e, he, hcov⟩
      obtain ⟨i, hi, rfl⟩ := List.getElem_of_mem he
      obtain ⟨haddr, hmask⟩ := h.net i hi
      refine ⟨i, hi, ?_⟩
      rw [haddr, hmask, inNetv6_iff _ _ entries[i].hm]
      exact hcov
  rw [matchIpv6Net, ← hloop]
  split <;> simp_all

/-- **The loop of `ParseNetFile`** reads every entry. -/
theorem parseLoop_spec6 {inet : Inet} {maxEntries : ℕ} {entries : List Net6Entry} {fuel i : ℕ}
    {file : List UInt8} {tab : NetTable} {read : List Net6Entry}
    (h : ∀ e ∈ entries, inet.pton6 e.text = some e.address) (hfile : IsNet6File file entries)
    (hfuel : file.length < fuel) (hread : tab.Holds6 read) (hv4 : tab.totNets = 0)
    (hlen : read.length + entries.length ≤ maxEntries) :
    ∃ tab', parseLoop inet maxEntries fuel i file tab = (tab', none) ∧
      tab'.Holds6 (read ++ entries) := by
  induction entries generalizing fuel i file tab read with
  | nil =>
    obtain ⟨fuel, rfl⟩ := Nat.exists_eq_succ_of_ne_zero (by omega : fuel ≠ 0)
    refine ⟨tab, ?_, by simpa using hread⟩
    have hend := readline_end hfile
    rw [parseLoop]
    generalize readline file true true = r at hend
    obtain ⟨line, rest⟩ := r
    obtain rfl : line = none := hend
    rfl
  | cons e entries ih =>
    obtain ⟨fuel, rfl⟩ := Nat.exists_eq_succ_of_ne_zero (by omega : fuel ≠ 0)
    simp only [List.length_cons] at hlen
    obtain ⟨l, rest, hline, hchomp, hrest, hless⟩ := readline_spec hfile
      (e.notMem_line (by decide) (by decide) (by decide))
        (e.notMem_line (by decide) (by decide) (by decide))
    have hparse : (if 47 ∈ chomp l then (parseSingle inet (i + 1) (chomp l) tab, rest)
        else parseOld inet (i + 1) (chomp l) rest tab) =
          (((tab.setNetv6 e.address).addMaskv6 e.m, none), rest) := by
      rw [hchomp, if_pos (by simp [Net6Entry.line]),
        Net6Entry.parseSingle_line (h e List.mem_cons_self)]
    rw [parseLoop_step hline (by omega) (by rw [hread.tot]; omega) hparse]
    obtain ⟨tab', hloop, hholds⟩ :=
      ih (i := i + 1) (fun e he ↦ h e (List.mem_cons_of_mem _ he)) hrest
      (show rest.length < fuel by omega) (hread.add e) hv4
      (by simp only [List.length_append, List.length_cons, List.length_nil]; omega)
    exact ⟨tab', hloop, by simpa using hholds⟩

/-! ## The meaning of a file -/

/-- **A subnet file of IPv6 networks means what it says**: it is read without an error, and an
address matches exactly when it agrees with the address of an entry on the bits of its mask. -/
theorem subnet_file6 {inet : Inet} {file : List UInt8} {entries : List Net6Entry}
    (hfile : IsNet6File file entries) (hlen : entries.length ≤ maxSubnets)
    (hpton : ∀ e ∈ entries, inet.pton6 e.text = some e.address) (tab : NetTable) :
    netRet (parseNetFile inet file maxSubnets tab) = 1 ∧
      ∀ x, matchIpv6Net x (parseNetFile inet file maxSubnets tab).1 = 1 ↔
        ∃ e ∈ entries, Agree e.m x.network e.address.network := by
  have hempty : NetTable.Holds6 { tab with totNets := 0, totNetsv6 := 0 } [] := ⟨rfl, by simp⟩
  obtain ⟨tab', hloop, hholds⟩ :=
    parseLoop_spec6 (i := 0) hpton hfile (Nat.lt_succ_self _) hempty rfl (by simpa using hlen)
  have hparse : parseNetFile inet file maxSubnets tab = (tab', none) := hloop
  rw [hparse]
  exact ⟨rfl, matchIpv6Net_iff hholds⟩

/-- The entries `2001:db8::1/33` and `::1/128`. -/
def sampleEntries6 : List Net6Entry :=
  [⟨[50, 48, 48, 49, 58, 100, 98, 56, 58, 58, 49], ⟨0xb80d0120, 0, 0, 0x01000000⟩,
    33, by decide +kernel,
      by decide +kernel, by decide +kernel⟩,
    ⟨[58, 58, 49], ⟨0, 0, 0, 0x01000000⟩,
      128, by decide +kernel, by decide +kernel, by decide +kernel⟩]

/-- The entries, a comment and an empty line. -/
def sampleFile6 : List UInt8 :=
  [50, 48, 48, 49, 58, 100, 98, 56, 58, 58, 49, 47, 51, 51, 10, 35, 97, 10, 10, 58, 58, 49, 47, 49,
    50, 56, 35, 98, 10]

/-- Reads the addresses of the entries. -/
def Inet.sample6 : Inet :=
  { Inet.quads with pton6 := fun s ↦ (sampleEntries6.find? (·.text = s)).map Net6Entry.address }

theorem sampleFile6_isNet6File : IsNet6File sampleFile6 sampleEntries6 := by
  unfold IsNet6File
  decide +kernel

theorem subnet_file6_sample : netRet (parseNetFile Inet.sample6 sampleFile6 maxSubnets .zero) = 1 ∧
    ∀ x, matchIpv6Net x (parseNetFile Inet.sample6 sampleFile6 maxSubnets .zero).1 = 1 ↔
      ∃ e ∈ sampleEntries6, Agree e.m x.network e.address.network :=
  subnet_file6 sampleFile6_isNet6File (by decide) (by decide +kernel) .zero

end AlphaMon
