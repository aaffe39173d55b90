import AlphaMon.Cryptopan
import AlphaMon.IpUtils

/-!
# What a subnet file means

A subnet file lists networks, and an address belongs to it when one of them covers it: when it
agrees with the network's address on the bits of the mask, or on the first `m` bits for an entry
`a.b.c.d/m`.

`parseNetFile` reads every file of such entries, with comments and empty lines anywhere.  But it
gives every network with the address 0.0.0.0 the mask 0, so that an entry such as 0.0.0.0/8 covers
every address.  `subnet_file_iff` says that this is all that goes wrong.
-/

set_option autoImplicit false

namespace AlphaMon

open CString Prefix

/-! ## The lines of a file -/

/-- What `readline` keeps of a line. -/
def lineText (line : List UInt8) : List UInt8 := line.takeWhile (· ≠ 35)

/-- The lines of a file, without comments and without the lines that are then empty. -/
def contentLines (file : List UInt8) : List (List UInt8) :=
  ((file.splitOn 10).map lineText).filter (· ≠ [])

/-- The lines still to come, when some characters of the first line have been read: `buf` is what
has been kept of it, and `started` says that a comment has begun. -/
def pendingLines (buf : List UInt8) (started : Bool) (file : List UInt8) : List (List UInt8) :=
  match file.splitOn 10 with
  | [] => []
  | line :: lines =>
    ((buf ++ if started then [] else lineText line) :: lines.map lineText).filter (· ≠ [])

theorem pendingLines_init (file : List UInt8) : pendingLines [] false file = contentLines file := by
  rw [pendingLines, contentLines]
  cases file.splitOn 10 with
  | nil => rfl
  | cons line lines => simp

theorem pendingLines_newline (buf : List UInt8) (started : Bool) (file : List UInt8) :
    pendingLines buf started (10 :: file) =
      if buf = [] then contentLines file else buf :: contentLines file := by
  rw [pendingLines, List.splitOn_cons_eq_if_modifyHead, if_pos (by decide), contentLines]
  by_cases h : buf = [] <;> simp [lineText, h]

theorem pendingLines_cons {c : UInt8} (hc : c ≠ 10) (buf : List UInt8) (started : Bool)
    (file : List UInt8) :
    pendingLines buf started (c :: file) =
      pendingLines (if started || c = 35 then buf else buf ++ [c]) (started || c = 35) file := by
  rw [pendingLines, List.splitOn_cons_eq_if_modifyHead, if_neg (by simpa using hc), pendingLines]
  cases file.splitOn 10 with
  | nil => rfl
  | cons line lines =>
    by_cases h : c = 35
    · simp [h, lineText]
    · cases started <;> simp [h, lineText]

/-- The loop of `readline` reads a line that is not empty. -/
theorem readlineLoop_spec {file buf : List UInt8} {started : Bool} (hbuf : 10 ∉ buf) :
    match pendingLines buf started file with
    | [] => (readlineLoop true true file buf started).1 = []
    | line :: lines => ∃ nl rest, readlineLoop true true file buf started = (line ++ nl, rest) ∧
        (nl = [] ∨ nl = [10]) ∧ contentLines rest = lines ∧ rest.length ≤ file.length - 1 := by
  induction file generalizing buf started with
  | nil =>
    cases started <;> cases buf <;> simp [pendingLines, readlineLoop, lineText, contentLines]
  | cons c file ih =>
    by_cases hc : c = 10
    · subst hc
      rw [pendingLines_newline, readlineLoop]
      cases buf with
      | nil =>
        have h := @ih [] false (by simp)
        rw [pendingLines_init] at h
        simp only [if_true, decide_true, Bool.or_true, List.nil_append, List.head?_cons, true_and]
        cases hl : contentLines file with
        | nil => simpa [hl] using h
        | cons line lines =>
          rw [hl] at h
          obtain ⟨nl, rest, h₁, h₂, h₃, h₄⟩ := h
          exact ⟨nl, rest, h₁, h₂, h₃, by simp only [List.length_cons]; omega⟩
      | cons b buf =>
        have hb : b ≠ 10 := fun h ↦ hbuf (h ▸ List.mem_cons_self)
        refine ⟨[10], file, ?_, .inr rfl, rfl, by simp⟩
        simp [hb]
    · have hkeep : 10 ∉ (if started || c = 35 then buf else buf ++ [c]) := by
        split_ifs
        · exact hbuf
        · simpa using ⟨hbuf, Ne.symm hc⟩
      have h := @ih _ (started || c = 35) hkeep
      rw [pendingLines_cons hc, readlineLoop]
      have hbuf' : (if !(started || c = 35) || c = 10 then buf ++ [c] else buf) =
          if started || c = 35 then buf else buf ++ [c] := by
        cases started <;> by_cases h35 : c = 35 <;> simp [h35, hc]
      simp only [if_neg hc, Bool.true_and, hbuf']
      revert h
      cases pendingLines (if started || c = 35 then buf else buf ++ [c]) (started || c = 35)
        file with
      | nil => exact id
      | cons line lines =>
        rintro ⟨nl, rest, h₁, h₂, h₃, h₄⟩
        exact ⟨nl, rest, h₁, h₂, h₃, by simp only [List.length_cons]; omega⟩

/-- **Reading a line.** -/
theorem readline_spec {file line : List UInt8} {lines : List (List UInt8)}
    (h : contentLines file = line :: lines) (h0 : 0 ∉ line) (h10 : 10 ∉ line) :
    ∃ l rest, readline file true true = (some l, rest) ∧ chomp l = line ∧
      contentLines rest = lines ∧ rest.length < file.length := by
  have hspec := @readlineLoop_spec file [] false (by simp)
  rw [pendingLines_init, h] at hspec
  obtain ⟨nl, rest, hread, hnl, hrest, hlen⟩ := hspec
  have hline : line ≠ [] := by
    have hmem : line ∈ contentLines file := h ▸ List.mem_cons_self
    simpa using (List.mem_filter.1 hmem).2
  have hfile : file ≠ [] := by
    rintro rfl
    simp [contentLines, lineText] at h
  have htake : (line ++ nl).takeWhile (· ≠ 0) = line ++ nl := by
    refine List.takeWhile_eq_self_iff.2 fun c hc ↦ ?_
    rcases List.mem_append.1 hc with hc | hc
    · simpa using fun hc0 : c = 0 ↦ h0 (hc0 ▸ hc)
    · rcases hnl with rfl | rfl <;> simp_all
  refine ⟨line ++ nl, rest, ?_, ?_, hrest, ?_⟩
  · rw [readline, hread]
    simp only [htake, List.append_eq_nil_iff, hline, false_and, if_false]
  · rcases hnl with rfl | rfl
    · rw [List.append_nil, chomp, if_neg]
      exact fun hlast ↦ h10 (List.mem_of_getLast? hlast)
    · simp [chomp]
  · have := List.length_pos_iff.2 hfile
    omega

/-- The end of a file. -/
theorem readline_end {file : List UInt8} (h : contentLines file = []) :
    (readline file true true).1 = none := by
  have hspec := @readlineLoop_spec file [] false (by simp)
  rw [pendingLines_init, h] at hspec
  simp [readline, show (readlineLoop true true file [] false).1 = [] from hspec]

/-! ## Entries -/

/-- An address by its four numbers. -/
structure Quad where
  a : UInt8
  b : UInt8
  c : UInt8
  d : UInt8
  deriving DecidableEq

/-- The text of an address. -/
def Quad.text (q : Quad) : List UInt8 := dottedQuad q.a q.b q.c q.d

/-- The address as the code keeps it. -/
def Quad.sAddr (q : Quad) : BitVec 32 := inAddr q.a q.b q.c q.d

/-- An entry of a subnet file. -/
inductive NetEntry
  /-- `a.b.c.d/m`. -/
  | bits (address : Quad) (m : ℕ) (hm : m ≤ 32)
  /-- `a.b.c.d/w.x.y.z`. -/
  | dotted (address mask : Quad)
  /-- The address and the mask in two lines. -/
  | old (address mask : Quad)

namespace NetEntry

/-- The lines of an entry. -/
def lines : NetEntry → List (List UInt8)
  | bits q m _ => [q.text ++ 47 :: decimal m]
  | dotted q k => [q.text ++ 47 :: k.text]
  | old q k => [q.text, k.text]

/-- The entry covers an address: they agree on the first `m` bits, or on the bits of the mask. -/
def Covers (x : BitVec 32) : NetEntry → Prop
  | bits q m _ => Agree m (htonl x) (htonl q.sAddr)
  | dotted q k => ∀ i < 32, k.sAddr.getLsbD i = true → x.getLsbD i = q.sAddr.getLsbD i
  | old q k => ∀ i < 32, k.sAddr.getLsbD i = true → x.getLsbD i = q.sAddr.getLsbD i

/-- The entry is `0.0.0.0/m`, but not `0.0.0.0/0`. -/
def IsWidened : NetEntry → Prop
  | bits q m _ => q = ⟨0, 0, 0, 0⟩ ∧ 0 < m
  | dotted _ _ => False
  | old _ _ => False

/-- The mask that the code gives an entry. -/
def mask : NetEntry → BitVec 32
  | bits q m _ => if q.sAddr = 0 ∨ m = 0 then 0 else htonl (0xffffffff#32 <<< (32 - m))
  | dotted _ k => k.sAddr
  | old _ k => k.sAddr

/-- The address of an entry. -/
def sAddr : NetEntry → BitVec 32
  | bits q _ _ => q.sAddr
  | dotted q _ => q.sAddr
  | old q _ => q.sAddr

end NetEntry

/-- The file consists of the entries, with comments and empty lines anywhere. -/
def IsNetFile (file : List UInt8) (entries : List NetEntry) : Prop :=
  contentLines file = entries.flatMap NetEntry.lines

theorem Quad.sAddr_eq_zero {q : Quad} : q.sAddr = 0 ↔ q = ⟨0, 0, 0, 0⟩ := by
  obtain ⟨a, b, c, d⟩ := q
  constructor
  · intro h
    have h' : inAddr a b c d = inAddr 0 0 0 0 := h.trans (by decide)
    obtain ⟨habc, ha⟩ := append_inj.1 h'
    obtain ⟨hab, hb⟩ := append_inj.1 habc
    obtain ⟨hd, hc⟩ := append_inj.1 hab
    rw [UInt8.toBitVec_inj] at *
    rw [ha, hb, hc, hd]
  · rintro h
    obtain ⟨rfl, rfl, rfl, rfl⟩ := Quad.mk.inj h
    decide

theorem htonl_and (a b : BitVec 32) : htonl (a &&& b) = htonl a &&& htonl b := by
  refine BitVec.eq_of_getLsbD_eq fun i hi ↦ ?_
  rw [BitVec.getLsbD_and, getLsbD_htonl _ hi, getLsbD_htonl _ hi, getLsbD_htonl _ hi,
    BitVec.getLsbD_and]

/-- The octets of a word, the highest first, make the word in network byte order. -/
theorem inAddr_octets (w : BitVec 32) :
    inAddr ⟨(w >>> 24).setWidth 8⟩ ⟨((w >>> 16) &&& 0x00ff).setWidth 8⟩
      ⟨((w >>> 8) &&& 0x0000ff).setWidth 8⟩ ⟨(w &&& 0xff).setWidth 8⟩ = htonl w := by
  have hbyte : ∀ v : BitVec 32, (v &&& 0xff).setWidth 8 = v.setWidth 8 := fun v ↦ by
    rw [BitVec.setWidth_and, show (0xff : BitVec 32).setWidth 8 = BitVec.allOnes 8 by decide,
      BitVec.and_allOnes]
  have hextract : ∀ k, (w >>> k).setWidth 8 = w.extractLsb' k 8 := fun k ↦ rfl
  have h0 : w.setWidth 8 = w.extractLsb' 0 8 := BitVec.setWidth_eq_extractLsb' (by decide)
  rw [inAddr, htonl, hbyte, hbyte, hbyte, hextract, hextract, hextract, h0]

@[simp] theorem htonl_zero : htonl 0#32 = 0#32 := by decide

section Inet

variable {inet : Inet} (h : inet.Converts)

include h

theorem Inet.Converts.pton_text (q : Quad) : inet.pton q.text = some q.sAddr := h.pton ..

theorem Inet.Converts.aton_text (q : Quad) : inet.aton q.text = some q.sAddr := h.aton ..

theorem Inet.Converts.addr_text (q : Quad) : inet.addr q.text = q.sAddr := h.addr ..

theorem Inet.Converts.maskText (sAddr : BitVec 32) (m : ℤ) :
    inet.addr (maskText sAddr m) =
      htonl (if sAddr = 0 then 0 else 0xffffffff#32 <<< (32 - m).toNat) := by
  rw [AlphaMon.maskText, h.addr, inAddr_octets]

end Inet

/-- What the mask of an entry means. -/
theorem NetEntry.covers_iff {e : NetEntry} (he : ¬e.IsWidened) (x : BitVec 32) :
    x &&& e.mask = e.sAddr &&& e.mask ↔ e.Covers x := by
  cases e with
  | bits q m hm =>
    by_cases h : q.sAddr = 0 ∨ m = 0
    · have hm0 : m = 0 := by
        rcases h with h | h
        · by_contra hm0
          exact he ⟨Quad.sAddr_eq_zero.1 h, Nat.pos_of_ne_zero hm0⟩
        · exact h
      subst hm0
      simp [mask, Covers]
    · rw [mask, if_neg h, Covers, agree_iff_and hm, sAddr]
      refine ⟨fun heq ↦ ?_, fun heq ↦ ?_⟩
      · have := congrArg htonl heq
        rwa [htonl_and, htonl_and, htonl_htonl] at this
      · have := congrArg htonl heq
        rwa [htonl_and, htonl_and, htonl_htonl, htonl_htonl] at this
  | dotted q k => exact and_eq_and_iff
  | old q k => exact and_eq_and_iff

/-- A widened entry covers every address. -/
theorem NetEntry.IsWidened.mask {e : NetEntry} (he : e.IsWidened) : e.mask = 0 := by
  cases e with
  | bits q m hm => exact if_pos (.inl (Quad.sAddr_eq_zero.2 he.1))
  | dotted q k => exact he.elim
  | old q k => exact he.elim

/-! ## Filling a table -/

section Table

variable (tab : NetTable) (a b : BitVec 32)

@[simp] theorem NetTable.setNet_totNets : (tab.setNet a).totNets = tab.totNets := rfl

@[simp] theorem NetTable.setNet_netList : (tab.setNet a).netList tab.totNets = a :=
  Function.update_self ..

@[simp] theorem NetTable.setNet_setNet : (tab.setNet a).setNet b = tab.setNet b := by
  simp [setNet]

end Table

/-- The networks in a table, each with its mask. -/
structure NetTable.Holds (tab : NetTable) (nets : List (BitVec 32 × BitVec 32)) : Prop where
  tot : tab.totNets = nets.length
  net : ∀ i, (h : i < nets.length) → (tab.netList i, tab.netMask i) = nets[i]

/-- An address and a mask are appended. -/
theorem NetTable.Holds.add {tab : NetTable} {nets : List (BitVec 32 × BitVec 32)}
    (h : tab.Holds nets) (a m : BitVec 32) :
    ((tab.setNet a).addMask m).Holds (nets ++ [(a &&& m, m)]) where
  tot := by simp [addMask, setNet, h.tot]
  net := by
    intro i hi
    rw [List.length_append, List.length_singleton] at hi
    simp only [addMask, setNet, Function.update_self, Function.update_apply, h.tot]
    rcases Nat.lt_succ_iff_lt_or_eq.1 hi with hlt | rfl
    · rw [if_neg (by omega), if_neg (by omega), if_neg (by omega), List.getElem_append_left hlt]
      exact h.net i hlt
    · simp

/-- The loop finds an address in one of the networks. -/
theorem ipCheck_iff {tab : NetTable} {nets : List (BitVec 32 × BitVec 32)} (h : tab.Holds nets)
    (x : BitVec 32) : ipCheck tab x = 1 ↔ ∃ n ∈ nets, x &&& n.2 = n.1 := by
  have hloop : ((List.range tab.totNets).any fun i ↦ x &&& tab.netMask i = tab.netList i) = true ↔
      ∃ n ∈ nets, x &&& n.2 = n.1 := by
    simp only [List.any_eq_true, List.mem_range, decide_eq_true_eq, h.tot]
    constructor
    · rintro ⟨i, hi, heq⟩
      have hnet := h.net i hi
      exact ⟨nets[i], List.getElem_mem hi, by rw [← hnet]; exact heq⟩
    · rintro ⟨n, hn, heq⟩
      obtain ⟨i, hi, rfl⟩ := List.getElem_of_mem hn
      refine ⟨i, hi, ?_⟩
      rw [← h.net i hi] at heq
      exact heq
  rw [ipCheck, ← hloop]
  split <;> simp_all

namespace NetEntry

variable {inet : Inet} {e : NetEntry} {tab : NetTable}

/-- What the code stores for an entry. -/
def net (e : NetEntry) : BitVec 32 × BitVec 32 := (e.sAddr &&& e.mask, e.mask)

/-- A character that is no digit and no dot. -/
theorem notMem_text {c : UInt8} (h : isDigit c = false) (hdot : c ≠ 46) (q : Quad) :
    c ∉ q.text := by
  simp [Quad.text, dottedQuad, notMem_decimal h, hdot]

theorem text_ne_nil (q : Quad) : q.text ≠ [] := by
  simp [Quad.text, dottedQuad]

theorem dot_mem_text (q : Quad) : 46 ∈ q.text := by
  simp [Quad.text, dottedQuad]

/-- The lines of an entry have no character that ends a line or a string. -/
theorem notMem_lines {c : UInt8} (h : isDigit c = false) (hdot : c ≠ 46) (hslash : c ≠ 47)
    {line : List UInt8} (hline : line ∈ e.lines) : c ∉ line := by
  cases e with
  | bits q m hm =>
    obtain rfl := List.mem_singleton.1 hline
    simp [notMem_text h hdot, notMem_decimal h, hslash]
  | dotted q k =>
    obtain rfl := List.mem_singleton.1 hline
    simp [notMem_text h hdot, hslash]
  | old q k =>
    rcases List.mem_pair.1 hline with rfl | rfl
    · exact notMem_text h hdot q
    · exact notMem_text h hdot k

/-- An entry with a length. -/
theorem parseSingle_bits (h : inet.Converts) {q : Quad} {m : ℕ} (hm : m ≤ 32) (entry : ℕ)
    (tab : NetTable) :
    parseSingle inet entry (q.text ++ 47 :: decimal m) tab =
      ((tab.setNet (if m = 0 then 0 else q.sAddr)).addMask (bits q m hm).mask, none) := by
  rw [parseSingle, strtok_append (text_ne_nil q) (notMem_text (by decide) (by decide) q)]
  simp only [strtok_last (decimal_ne_nil m) (notMem_decimal (c := 47) (by decide) m)]
  rw [if_neg (notMem_text (by decide) (by decide) q), h.pton_text]
  simp only [parseMask]
  rw [if_pos (notMem_decimal (by decide) m), strtol_decimal (by omega)]
  simp only
  rw [if_neg (by simp; omega), h.maskText]
  by_cases h0 : m = 0
  · subst h0
    simp [mask]
  · have hcast : (32 - (m : ℤ)).toNat = 32 - m := by omega
    rw [if_neg (by omega), if_neg h0, hcast]
    by_cases hq : q.sAddr = 0
    · simp [mask, hq]
    · rw [NetTable.setNet_totNets, NetTable.setNet_netList, if_neg hq, mask,
        if_neg (not_or.2 ⟨hq, h0⟩)]

/-- An entry with a mask. -/
theorem parseSingle_dotted (h : inet.Converts) (q k : Quad) (entry : ℕ) (tab : NetTable) :
    parseSingle inet entry (q.text ++ 47 :: k.text) tab = ((tab.setNet q.sAddr).addMask k.sAddr,
      none) := by
  rw [parseSingle, strtok_append (text_ne_nil q) (notMem_text (by decide) (by decide) q)]
  simp only [strtok_last (text_ne_nil k) (notMem_text (c := 47) (by decide) (by decide) k)]
  rw [if_neg (notMem_text (by decide) (by decide) q), h.pton_text]
  simp only [parseMask]
  rw [if_neg (not_not_intro (dot_mem_text k)), h.aton_text, h.addr_text]

/-- An entry in two lines. -/
theorem parseOld_old (h : inet.Converts) {q k : Quad} {file : List UInt8}
    {lines : List (List UInt8)} (hfile : contentLines file = k.text :: lines) (entry : ℕ)
    (tab : NetTable) :
    ∃ rest, parseOld inet entry q.text file tab = (((tab.setNet q.sAddr).addMask k.sAddr, none),
      rest) ∧
      contentLines rest = lines ∧ rest.length < file.length := by
  obtain ⟨l, rest, hread, hchomp, hrest, hlen⟩ := readline_spec hfile
    (notMem_text (by decide) (by decide) k) (notMem_text (by decide) (by decide) k)
  refine ⟨rest, ?_, hrest, hlen⟩
  rw [parseOld, h.aton_text]
  simp only [hread, hchomp, h.aton_text, h.addr_text]

/-- What the code stores for an entry is in the table after it. -/
theorem holds_add {nets : List (BitVec 32 × BitVec 32)} (hnets : tab.Holds nets) (a : BitVec 32)
    (ha : a &&& e.mask = e.sAddr &&& e.mask) :
    ((tab.setNet a).addMask e.mask).Holds (nets ++ [e.net]) := by
  rw [net, ← ha]
  exact hnets.add a e.mask

end NetEntry

/-- An entry of the file: the loop goes on after it. -/
theorem parseLoop_step {inet : Inet} {maxEntries fuel i : ℕ} {file l rest rest' : List UInt8}
    {tab tab' : NetTable} (hread : readline file true true = (some l, rest))
    (hnets : tab.totNets ≠ maxEntries) (hv6 : tab.totNetsv6 ≠ maxEntries)
    (hentry : (if 47 ∈ chomp l then (parseSingle inet (i + 1) (chomp l) tab, rest)
      else parseOld inet (i + 1) (chomp l) rest tab) = ((tab', none), rest')) :
    parseLoop inet maxEntries (fuel + 1) i file tab = parseLoop inet maxEntries fuel
      (i + 1) rest' tab' := by
  rw [parseLoop, hread]
  simp only [if_neg hnets, if_neg hv6, hentry, if_true]

/-- **The loop of `ParseNetFile`** reads every entry. -/
theorem parseLoop_spec {inet : Inet} (h : inet.Converts) {maxEntries : ℕ} {entries : List NetEntry}
    {fuel i : ℕ} {file : List UInt8} {tab : NetTable} {nets : List (BitVec 32 × BitVec 32)}
    (hfile : IsNetFile file entries) (hfuel : file.length < fuel) (hnets : tab.Holds nets)
    (hv6 : tab.totNetsv6 = 0) (hlen : nets.length + entries.length ≤ maxEntries) :
    ∃ tab', parseLoop inet maxEntries fuel i file tab = (tab', none) ∧
      tab'.Holds (nets ++ entries.map NetEntry.net) := by
  induction entries generalizing fuel i file tab nets with
  | nil =>
    obtain ⟨fuel, rfl⟩ := Nat.exists_eq_succ_of_ne_zero (by omega : fuel ≠ 0)
    refine ⟨tab, ?_, by simpa using hnets⟩
    have hend := readline_end hfile
    rw [parseLoop]
    generalize readline file true true = r at hend
    obtain ⟨line, rest⟩ := r
    obtain rfl : line = none := hend
    rfl
  | cons e entries ih =>
    obtain ⟨fuel, rfl⟩ := Nat.exists_eq_succ_of_ne_zero (by omega : fuel ≠ 0)
    have htot : tab.totNets ≠ maxEntries := by
      rw [hnets.tot]
      simp only [List.length_cons] at hlen
      omega
    have htotv6 : tab.totNetsv6 ≠ maxEntries := by
      simp only [List.length_cons] at hlen
      omega
    suffices hentry : ∃ l rest rest' a, readline file true true = (some l, rest) ∧
        (if 47 ∈ chomp l then (parseSingle inet (i + 1) (chomp l) tab, rest)
          else parseOld inet (i + 1) (chomp l) rest tab) =
            (((tab.setNet a).addMask e.mask, none), rest') ∧
        a &&& e.mask = e.sAddr &&& e.mask ∧ IsNetFile rest' entries ∧ rest'.length < file.length by
      obtain ⟨l, rest, rest', a, hread, hparse, ha, hrest, hless⟩ := hentry
      rw [parseLoop_step hread htot htotv6 hparse]
      obtain ⟨tab', hloop, hholds⟩ := ih (i := i + 1) hrest (show rest'.length < fuel by omega)
        (NetEntry.holds_add hnets a ha) hv6
        (by simp only [List.length_append, List.length_cons, List.length_nil] at hlen ⊢; omega)
      exact ⟨tab', hloop, by simpa using hholds⟩
    have hchar : ∀ {line}, line ∈ e.lines → (0 : UInt8) ∉ line ∧ (10 : UInt8) ∉ line := fun hline ↦
      ⟨NetEntry.notMem_lines (by decide) (by decide) (by decide) hline,
        NetEntry.notMem_lines (by decide) (by decide) (by decide) hline⟩
    cases e with
    | bits q m hm =>
      obtain ⟨l, rest, hread, hchomp, hrest, hless⟩ := readline_spec
        hfile (hchar List.mem_cons_self).1 (hchar List.mem_cons_self).2
      refine ⟨l, rest, rest, if m = 0 then 0 else q.sAddr, hread, ?_, ?_, hrest, hless⟩
      · rw [hchomp, if_pos (by simp), NetEntry.parseSingle_bits h hm]
      · split_ifs with h0 <;> simp [NetEntry.mask, NetEntry.sAddr, h0]
    | dotted q k =>
      obtain ⟨l, rest, hread, hchomp, hrest, hless⟩ := readline_spec
        hfile (hchar List.mem_cons_self).1 (hchar List.mem_cons_self).2
      refine ⟨l, rest, rest, q.sAddr, hread, ?_, rfl, hrest, hless⟩
      rw [hchomp, if_pos (by simp), NetEntry.parseSingle_dotted h]
      rfl
    | old q k =>
      obtain ⟨l, rest, hread, hchomp, hrest, hless⟩ := readline_spec
        hfile (hchar List.mem_cons_self).1 (hchar List.mem_cons_self).2
      obtain ⟨rest', hparse, hrest', hless'⟩ := NetEntry.parseOld_old (q := q) h hrest (i + 1) tab
      refine ⟨l, rest, rest', q.sAddr, hread, ?_, rfl, hrest', by omega⟩
      rw [hchomp, if_neg (NetEntry.notMem_text (by decide) (by decide) q), hparse]
      rfl

/-! ## The meaning of a file -/

/-- An entry of a list covers an address. -/
def Listed (entries : List NetEntry) (x : BitVec 32) : Prop := ∃ e ∈ entries, e.Covers x

/-- What `ParseNetFile` is for: it succeeds, and whichever of the global tables was filled, its
check finds the addresses that an entry covers and no others. -/
def MeansWhatItSays (inet : Inet) (file : List UInt8) (entries : List NetEntry) (tab : NetTable) :
    Prop :=
  let res := parseNetFile inet file maxSubnets tab
  netRet res = 1 ∧ ∀ other x, (anonIpCheck ⟨res.1, other⟩ x = 1 ↔ Listed entries x) ∧
    (noAnonIpCheck ⟨other, res.1⟩ x = 1 ↔ Listed entries x)

variable {inet : Inet} {file : List UInt8} {entries : List NetEntry} {tab : NetTable}

/-- The table after parsing. -/
theorem parseNetFile_spec (h : inet.Converts) (hfile : IsNetFile file entries)
    (hlen : entries.length ≤ maxSubnets) (tab : NetTable) :
    ∃ tab', parseNetFile inet file maxSubnets tab = (tab', none) ∧
      ∀ x, ipCheck tab' x = 1 ↔ ∃ e ∈ entries, x &&& e.mask = e.sAddr &&& e.mask := by
  have hempty : NetTable.Holds { tab with totNets := 0, totNetsv6 := 0 } [] := ⟨rfl, by simp⟩
  obtain ⟨tab', hloop, hholds⟩ :=
    parseLoop_spec (i := 0) h hfile (Nat.lt_succ_self _) hempty rfl (by simpa using hlen)
  refine ⟨tab', hloop, fun x ↦ ?_⟩
  rw [ipCheck_iff hholds]
  simp [NetEntry.net]

/-- **A subnet file means what it says** exactly when it has no entry `0.0.0.0/m` with `0 < m`, or
when its entries cover every address anyway. -/
theorem subnet_file_iff (h : inet.Converts) (hfile : IsNetFile file entries)
    (hlen : entries.length ≤ maxSubnets) (tab : NetTable) :
    MeansWhatItSays inet file entries tab ↔
      (∀ e ∈ entries, ¬e.IsWidened) ∨ ∀ x, Listed entries x := by
  obtain ⟨tab', hparse, hcheck⟩ := parseNetFile_spec h hfile hlen tab
  have hmeans : MeansWhatItSays inet file entries tab ↔
      ∀ x, (∃ e ∈ entries, x &&& e.mask = e.sAddr &&& e.mask) ↔ Listed entries x := by
    rw [MeansWhatItSays, hparse]
    simp only [anonIpCheck, noAnonIpCheck, hcheck, and_self, netRet, if_true, true_and]
    exact ⟨fun hall ↦ hall tab, fun hall _ ↦ hall⟩
  rw [hmeans]
  constructor
  · intro hall
    by_cases hw : ∀ e ∈ entries, ¬e.IsWidened
    · exact .inl hw
    · push Not at hw
      obtain ⟨e, he, hwide⟩ := hw
      exact .inr fun x ↦ (hall x).1 ⟨e, he, by simp [hwide.mask]⟩
  · rintro (hw | hall) x
    · constructor
      · rintro ⟨e, he, heq⟩
        exact ⟨e, he, (NetEntry.covers_iff (hw e he) x).1 heq⟩
      · rintro ⟨e, he, hcov⟩
        exact ⟨e, he, (NetEntry.covers_iff (hw e he) x).2 hcov⟩
    · refine ⟨fun _ ↦ hall x, fun hx ↦ ?_⟩
      obtain ⟨e, he, hcov⟩ := hx
      by_cases hwide : e.IsWidened
      · exact ⟨e, he, by simp [hwide.mask]⟩
      · exact ⟨e, he, (NetEntry.covers_iff hwide x).2 hcov⟩

/-! ## A reader of addresses -/

/-- A number below 256, without leading zeros. -/
def readOctet (s : List UInt8) : Option UInt8 :=
  if decimal (digitsVal s) = s ∧ digitsVal s < 256 then some (UInt8.ofNat (digitsVal s)) else none

/-- Four numbers between dots. -/
def readQuad (s : List UInt8) : Option (BitVec 32) :=
  match s.splitOn 46 with
  | [a, b, c, d] => do some (inAddr (← readOctet a) (← readOctet b) (← readOctet c) (← readOctet d))
  | _ => none

theorem readOctet_decimal (a : UInt8) : readOctet (decimal a.toNat) = some a := by
  rw [readOctet, digitsVal_decimal, if_pos ⟨rfl, a.toNat_lt⟩, UInt8.ofNat_toNat]

theorem readQuad_dottedQuad (a b c d : UInt8) :
    readQuad (dottedQuad a b c d) = some (inAddr a b c d) := by
  have hdot : ∀ n, (46 : UInt8) ∉ decimal n := notMem_decimal (by decide)
  rw [readQuad, dottedQuad, List.splitOn_append_cons_self_of_not_mem (hdot _),
    List.splitOn_append_cons_self_of_not_mem (hdot _), List.splitOn_append_cons_self_of_not_mem
      (hdot _),
    List.splitOn_eq_singleton (hdot _)]
  simp [readOctet_decimal]

/-- Reads dotted quads, and no IPv6 address. -/
def Inet.quads : Inet := ⟨readQuad, fun _ ↦ none, readQuad, fun s ↦ (readQuad s).getD 0xffffffff⟩

theorem Inet.converts_quads : Inet.quads.Converts :=
  ⟨readQuad_dottedQuad, readQuad_dottedQuad, fun a b c d ↦ by simp [quads, readQuad_dottedQuad]⟩

/-- `10.0.0.0/8`, a comment, an empty line, and `172.16.0.0` in the old format. -/
def sampleFile : List UInt8 :=
  (Quad.text ⟨10, 0, 0, 0⟩ ++ 47 :: decimal 8) ++ [10, 35, 32, 97, 10, 10] ++ Quad.text
    ⟨172, 16, 0, 0⟩ ++
    [10] ++ Quad.text ⟨255, 240, 0, 0⟩ ++ [10]

/-- The entries of the file. -/
def sampleEntries : List NetEntry :=
  [.bits ⟨10, 0, 0, 0⟩ 8 (by decide), .old ⟨172, 16, 0, 0⟩ ⟨255, 240, 0, 0⟩]

theorem sampleFile_isNetFile : IsNetFile sampleFile sampleEntries := by
  unfold IsNetFile
  decide +kernel

theorem subnet_file_iff_sample : MeansWhatItSays Inet.quads sampleFile sampleEntries .zero :=
  (subnet_file_iff Inet.converts_quads sampleFile_isNetFile (by decide) .zero).2
    (.inl (by simp [sampleEntries, NetEntry.IsWidened]))

/-- The file `0.0.0.0/8` covers every address, such as 1.0.0.0. -/
theorem subnet_file_fails : ¬∀ (inet : Inet) (file : List UInt8) (entries : List NetEntry)
    (tab : NetTable),
    inet.Converts → IsNetFile file entries → entries.length ≤ maxSubnets →
      MeansWhatItSays inet file entries tab := by
  intro hall
  let file := Quad.text ⟨0, 0, 0, 0⟩ ++ 47 :: decimal 8
  have hfile : IsNetFile file [.bits ⟨0, 0, 0, 0⟩ 8 (by decide)] := by
    unfold IsNetFile
    decide +kernel
  obtain ⟨-, hmeans⟩ := hall Inet.quads file _ .zero Inet.converts_quads hfile (by decide)
  have hcheck : anonIpCheck ⟨(parseNetFile Inet.quads file maxSubnets .zero).1, .zero⟩
    (inAddr 1 0 0 0) = 1 := by
    decide +kernel
  obtain ⟨e, he, hcov⟩ := (hmeans .zero _).1.1 hcheck
  obtain rfl := List.mem_singleton.1 he
  exact absurd (hcov 7 (by decide)) (by decide +kernel)

end AlphaMon
