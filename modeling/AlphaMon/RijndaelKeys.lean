import AlphaMon.RijndaelCipher

/-!
# Keys of the cipher

The key schedule of `rijndael.c` is the key expansion of the standard, for each of the three lengths
of a key, and `keyEncToDec` makes of its keys the ones the inverse cipher by tables needs.

The invariant of the schedule is that before pass `m` of its loop `tempKey` holds the `nk` words of
the expansion from `m * nk` on (`Window`), and all words before the current place have been written.
-/

set_option autoImplicit false

namespace AlphaMon

open Aes (Word)

namespace Rijndael

/-- The expansion of a key, given by its columns. -/
def expanded (nk : ℕ) (key : List Word) (i : ℕ) : Word :=
  Aes.expandKey (byteOf s) nk (fun j ↦ key.getD j zeroWord) i

theorem getD_set {l : List Word} {i : ℕ} (hi : i < l.length) (j : ℕ) (w d : Word) :
    (l.set i w).getD j d = if j = i then w else l.getD j d := by
  rw [List.getD_eq_getElem?_getD, List.getElem?_set, List.getD_eq_getElem?_getD]
  split_ifs with h1 h2 h2 <;> first | rfl | omega

theorem keyWord_set {e : ExpandedKey} {i : ℕ} (hi : i < 60) (j : ℕ) (w : Word) :
    keyWord (e.setIfInBounds i w) j = if j = i then w else keyWord e j := by
  rw [keyWord, Vector.getElem?_setIfInBounds, keyWord]
  split_ifs with h1 h2 h2 <;> first | rfl | omega

/-! ## One pass -/

theorem addPrevious_spec (n : ℕ) {j : ℕ} {l : List Word} (hj : 1 ≤ j) (hn : j + n ≤ l.length) :
    (addPrevious n j l).length = l.length ∧
    (∀ i, i < j ∨ j + n ≤ i → (addPrevious n j l).getD i zeroWord = l.getD i zeroWord) ∧
    ∀ i, j ≤ i → i < j + n → (addPrevious n j l).getD i zeroWord =
      l.getD i zeroWord ^^^ (addPrevious n j l).getD (i - 1) zeroWord := by
  induction n generalizing j l with
  | zero => exact ⟨rfl, fun _ _ ↦ rfl, fun i h1 h2 ↦ by omega⟩
  | succ n ih =>
    have hset := getD_set (l := l) (i := j) (by omega)
    obtain ⟨hl, hout, hin⟩ := ih (j := j + 1)
      (l := l.set j (l.getD j zeroWord ^^^ l.getD (j - 1) zeroWord)) (by omega)
      (by rw [List.length_set]; omega)
    refine ⟨by rw [addPrevious, hl, List.length_set], fun i hi ↦ ?_, fun i h1 h2 ↦ ?_⟩
    · rw [addPrevious, hout i (by omega), hset, if_neg (by omega)]
    · rw [addPrevious]
      rcases Nat.eq_or_lt_of_le h1 with rfl | h1
      · rw [hout j (by omega), hout (j - 1) (by omega), hset, hset, if_pos rfl, if_neg (by omega)]
      · rw [hin i (by omega) (by omega), hset, if_neg (by omega)]

/-- `tempKey` before pass `m`. -/
def Window (nk : ℕ) (key : List Word) (m : ℕ) (tempKey : List Word) : Prop :=
  tempKey.length = nk ∧ ∀ j < nk, tempKey.getD j zeroWord = expanded nk key (m * nk + j)

theorem rcon_eq : ∀ m < 30, UInt8.ofNat (rcon.getD m 0) = Aes.rcon m := by decide

/-- The three lengths of a key, in columns. -/
def IsKeyColumns (nk : ℕ) : Prop := nk = 4 ∨ nk = 6 ∨ nk = 8

/-- The recurrence, by pass and column. -/
theorem expanded_next {nk : ℕ} (h0 : 0 < nk) (key : List Word) (m j : ℕ) :
    expanded nk key ((m + 1) * nk + j) = expanded nk key (m * nk + j) ^^^
      Aes.expandWord (byteOf s) nk ((m + 1) * nk + j) (expanded nk key ((m + 1) * nk + j - 1)) := by
  have hm : (m + 1) * nk = m * nk + nk := Nat.succ_mul m nk
  rw [expanded, Aes.expandKey_of_le h0 (by omega), ← expanded, ← expanded]
  congr 2
  omega

/-- The word added to the first column. -/
theorem expanded_first {nk : ℕ} (h0 : 0 < nk) (key : List Word) {m : ℕ} (hm : m < 30) :
    expanded nk key ((m + 1) * nk) = expanded nk key (m * nk) ^^^
      ((expanded nk key (m * nk + (nk - 1))).rot.map (byteOf s) ^^^
        ⟨.ofNat (rcon.getD m 0), 0, 0, 0⟩) := by
  have h := expanded_next h0 key m 0
  have hlast : (m + 1) * nk - 1 = m * nk + (nk - 1) := by
    rw [Nat.succ_mul]
    omega
  rw [Nat.add_zero, hlast] at h
  rw [h, Aes.expandWord, if_pos (Nat.mul_mod_left _ _), Nat.mul_div_cancel _ h0,
    Nat.add_sub_cancel, rcon_eq m hm, Nat.add_zero]

/-- The word added to another column. -/
theorem expanded_column {nk j : ℕ} (key : List Word) (m : ℕ) (h0 : j ≠ 0) (hj : j < nk) :
    expanded nk key ((m + 1) * nk + j) = expanded nk key (m * nk + j) ^^^
      if 6 < nk ∧ j = 4 then (expanded nk key ((m + 1) * nk + (j - 1))).map (byteOf s)
      else expanded nk key ((m + 1) * nk + (j - 1)) := by
  have hmod : ((m + 1) * nk + j) % nk = j := by
    rw [Nat.mul_add_mod_self_right, Nat.mod_eq_of_lt hj]
  rw [expanded_next (by omega), Aes.expandWord, hmod, if_neg h0, Nat.add_sub_assoc (by omega)]

/-- The columns of a pass are known one after the other. -/
theorem window_of_columns {nk : ℕ} (h0 : 0 < nk) {key : List Word} {m : ℕ} (hm : m < 30)
    {t t' : List Word} (h : Window nk key m t) (hl : t'.length = nk)
    (hfirst : t'.getD 0 zeroWord = t.getD 0 zeroWord ^^^
      ((t.getD (nk - 1) zeroWord).rot.map (byteOf s) ^^^ ⟨.ofNat (rcon.getD m 0), 0, 0, 0⟩))
    (hnext : ∀ j, j ≠ 0 → j < nk → t'.getD j zeroWord = t.getD j zeroWord ^^^
      if 6 < nk ∧ j = 4 then (t'.getD (j - 1) zeroWord).map (byteOf s)
      else t'.getD (j - 1) zeroWord) : Window nk key (m + 1) t' := by
  refine ⟨hl, fun j hj ↦ ?_⟩
  induction j with
  | zero =>
    rw [hfirst, h.2 0 h0, h.2 (nk - 1) (by omega), Nat.add_zero, Nat.add_zero,
      expanded_first h0 key hm]
  | succ j ih =>
    rw [hnext (j + 1) (by omega) hj, h.2 _ hj, expanded_column key m (by omega) hj,
      Nat.add_sub_cancel, ih (by omega)]

theorem xor_first (s : List ℕ) (w last : Word) (c : UInt8) :
    ({ (w ^^^ ⟨byteOf s last.b1, byteOf s last.b2, byteOf s last.b3, byteOf s last.b0⟩) with
        b0 := (w ^^^ ⟨byteOf s last.b1, byteOf s last.b2, byteOf s last.b3, byteOf s last.b0⟩).b0
          ^^^ c } : Word) = w ^^^ (last.rot.map (byteOf s) ^^^ ⟨c, 0, 0, 0⟩) := by
  ext <;> simp [Word.rot, Word.map, UInt8.xor_assoc]

theorem nextTempKey_spec {nk : ℕ} (hnk : IsKeyColumns nk) {key : List Word} {m : ℕ} (hm : m < 30)
    {t : List Word} (h : Window nk key m t) : Window nk key (m + 1) (nextTempKey .op nk m t) := by
  have h0 : 0 < nk := by rcases hnk with rfl | rfl | rfl <;> decide
  have hl := h.1
  have hset := getD_set (l := t) (i := 0) (by omega)
  rw [nextTempKey, xor_first]
  simp only [Tables.op]
  set first := t.getD 0 zeroWord ^^^ ((t.getD (nk - 1) zeroWord).rot.map (byteOf s) ^^^
    ⟨.ofNat (rcon.getD m 0), 0, 0, 0⟩) with hfirst
  split_ifs with h8
  · -- one loop over the columns
    obtain ⟨hl', hout, hin⟩ := addPrevious_spec (nk - 1) (j := 1) (l := t.set 0 first) le_rfl
      (by rw [List.length_set]; omega)
    refine window_of_columns h0 hm h (by rw [hl', List.length_set, hl]) ?_ fun j hj0 hj ↦ ?_
    · rw [hout 0 (by omega), hset, if_pos rfl]
    · rw [hin j (by omega) (by omega), hset, if_neg hj0, if_neg]
      rcases hnk with rfl | rfl | rfl <;> omega
  · -- two loops, with the substitution of column 4 between them
    obtain rfl : nk = 8 := by omega
    obtain ⟨hl1, hout1, hin1⟩ := addPrevious_spec 3 (j := 1) (l := t.set 0 first) le_rfl
      (by rw [List.length_set]; omega)
    set lower := addPrevious 3 1 (t.set 0 first)
    rw [List.length_set, hl] at hl1
    have hset4 := getD_set (l := lower) (i := 4) (by omega)
    set l4 := lower.set 4 (lower.getD 4 zeroWord ^^^ (lower.getD 3 zeroWord).map
      (byteOf s)) with hl4
    obtain ⟨hl2, hout2, hin2⟩ := addPrevious_spec 3 (j := 5) (l := l4) (by omega)
      (by rw [List.length_set]; omega)
    rw [List.length_set, hl1] at hl2
    refine window_of_columns h0 hm h hl2 ?_ fun j hj0 hj ↦ ?_
    · show (addPrevious 3 5 l4).getD 0 zeroWord = first
      rw [hout2 0 (by omega), hset4, if_neg (by omega), hout1 0 (by omega), hset, if_pos rfl]
    · show (addPrevious 3 5 l4).getD j zeroWord = _ ^^^
        if 6 < 8 ∧ j = 4 then ((addPrevious 3 5 l4).getD (j - 1) zeroWord).map (byteOf s)
        else (addPrevious 3 5 l4).getD (j - 1) zeroWord
      rcases lt_trichotomy j 4 with h4 | h4 | h4
      · rw [hout2 j (by omega), hout2 (j - 1) (by omega), hset4, hset4, if_neg (by omega),
          if_neg (by omega), if_neg (by omega), hin1 j (by omega) (by omega), hset, if_neg hj0]
      · rw [hout2 j (by omega), hout2 (j - 1) (by omega), hset4, hset4, if_pos h4,
          if_pos (⟨by omega, h4⟩ : 6 < 8 ∧ j = 4), if_neg (by omega : ¬j - 1 = 4),
            hout1 4 (by omega), hset, if_neg (by omega), h4]
      · rw [hin2 j (by omega) (by omega), hset4, if_neg (by omega), if_neg (by omega),
          hout1 j (by omega), hset, if_neg hj0]

/-! ## The schedule -/

/-- The place of the copy moves over the columns it copies, up to the end of the last round. -/
theorem copyColumns_spec (uRounds : ℕ) (tempKey : List Word) (n j : ℕ) {r t : ℕ} {e : ExpandedKey}
    (ht : t < 4) (hp : 4 * r + t ≤ 4 * (uRounds + 1)) (he : 4 * (uRounds + 1) ≤ 60) :
    ∃ r' t' e', copyColumns uRounds tempKey n j r t e = (r', t', e') ∧ t' < 4 ∧
      4 * r' + t' = min (4 * r + t + n) (4 * (uRounds + 1)) ∧ ∀ i, keyWord e' i =
        if 4 * r + t ≤ i ∧ i < 4 * r' + t' then tempKey.getD (j + (i - (4 * r + t))) zeroWord
        else keyWord e i := by
  induction n generalizing j r t e with
  | zero => exact ⟨r, t, e, rfl, ht, by omega, fun i ↦ by rw [if_neg (by omega)]⟩
  | succ n ih =>
    rw [copyColumns]
    by_cases hr : r ≤ uRounds
    · have hset := keyWord_set (e := e) (i := 4 * r + t) (by omega)
      rw [if_pos hr]
      -- the next place, whether it is in this round or the next
      have hnext : ∃ r₁ t₁, t₁ < 4 ∧ 4 * r₁ + t₁ = 4 * r + t + 1 ∧
          (if t + 1 = 4 then copyColumns uRounds tempKey n (j + 1) (r + 1) 0
              (e.setIfInBounds (4 * r + t) (tempKey.getD j zeroWord))
            else copyColumns uRounds tempKey n (j + 1) r (t + 1)
              (e.setIfInBounds (4 * r + t) (tempKey.getD j zeroWord))) =
          copyColumns uRounds tempKey n (j + 1) r₁ t₁
            (e.setIfInBounds (4 * r + t) (tempKey.getD j zeroWord)) := by
        split_ifs with h4
        · exact ⟨r + 1, 0, by omega, by omega, rfl⟩
        · exact ⟨r, t + 1, by omega, by omega, rfl⟩
      obtain ⟨r₁, t₁, ht₁, hp₁, heq⟩ := hnext
      obtain ⟨r', t', e', h, ht', hp', hget⟩ := ih (j := j + 1) (r := r₁) (t := t₁)
        (e := e.setIfInBounds (4 * r + t) (tempKey.getD j zeroWord)) ht₁ (by omega)
      refine ⟨r', t', e', by rw [heq, h], ht', by omega, fun i ↦ ?_⟩
      rw [hget, hset]
      rcases lt_trichotomy i (4 * r + t) with hi | hi | hi
      · rw [if_neg (by omega), if_neg (by omega), if_neg (by omega)]
      · rw [if_neg (by omega), if_pos hi, if_pos (by omega), hi, Nat.sub_self, Nat.add_zero]
      · by_cases hi' : i < 4 * r' + t'
        · rw [if_pos (by omega), if_pos (by omega)]
          congr 1
          omega
        · rw [if_neg (by omega), if_neg (by omega), if_neg (by omega)]
    · rw [if_neg hr]
      exact ⟨r, t, e, rfl, ht, by omega, fun i ↦ by rw [if_neg (by omega)]⟩

/-- The round keys with the first `p` words of the schedule written over the old ones. -/
def Written (nk : ℕ) (key : List Word) (old : ExpandedKey) (p : ℕ) (e : ExpandedKey) : Prop :=
  ∀ i, keyWord e i = if i < p then expanded nk key i else keyWord old i

/-- A pass writes the window. -/
theorem Written.copy {nk : ℕ} {key tempKey : List Word} {old e : ExpandedKey} (uRounds : ℕ)
    {m r t : ℕ} (hw : Window nk key m tempKey) (ht : t < 4)
    (hp : 4 * r + t = min (m * nk) (4 * (uRounds + 1))) (hold : 4 * (uRounds + 1) ≤ 60)
    (h : Written nk key old (4 * r + t) e) :
    ∃ r' t' e', copyColumns uRounds tempKey nk 0 r t e = (r', t', e') ∧ t' < 4 ∧
      4 * r' + t' = min ((m + 1) * nk) (4 * (uRounds + 1)) ∧
      Written nk key old (4 * r' + t') e' := by
  have hm : (m + 1) * nk = m * nk + nk := Nat.succ_mul m nk
  obtain ⟨r', t', e', heq, ht', hp', hget⟩ :=
    copyColumns_spec uRounds tempKey nk 0 (r := r) (e := e) ht (by omega) hold
  refine ⟨r', t', e', heq, ht', by omega, fun i ↦ ?_⟩
  rw [hget, h]
  by_cases h1 : i < 4 * r + t
  · rw [if_neg (by omega), if_pos h1, if_pos (by omega)]
  · by_cases h2 : i < 4 * r' + t'
    · rw [if_pos (by omega), if_pos h2, Nat.zero_add, hw.2 _ (by omega)]
      congr 1
      omega
    · rw [if_neg (by omega), if_neg h1, if_neg h2]

/-- The loop writes all words, if it may make enough passes. -/
theorem keySchedLoop_spec {nk : ℕ} (hnk : IsKeyColumns nk) {key : List Word} {old : ExpandedKey}
    (n : ℕ) {m r t : ℕ} {tempKey : List Word} {e : ExpandedKey}
    (hn : 4 * (nk + 7) ≤ (m + 1 + n) * nk) (hw : Window nk key m tempKey) (ht : t < 4)
    (hp : 4 * r + t = min ((m + 1) * nk) (4 * (nk + 7))) (h : Written nk key old (4 * r + t) e) :
    Written nk key old (4 * (nk + 7)) (keySchedLoop .op (nk + 6) nk n tempKey m r t e) := by
  induction n generalizing m r t tempKey e with
  | zero =>
    have hend : 4 * r + t = 4 * (nk + 7) := by
      simp only [Nat.add_zero] at hn
      omega
    rwa [keySchedLoop, ← hend]
  | succ n ih =>
    rw [keySchedLoop]
    by_cases hr : r ≤ nk + 6
    · have hm : m < 30 := by rcases hnk with rfl | rfl | rfl <;> omega
      have hold : 4 * (nk + 7) ≤ 60 := by rcases hnk with rfl | rfl | rfl <;> decide
      have hw' := nextTempKey_spec hnk hm hw
      obtain ⟨r', t', e', heq, ht', hp', h'⟩ := h.copy (nk + 6) hw' ht hp hold
      rw [if_pos hr]
      simp only [heq]
      refine ih ?_ hw' ht' hp' h'
      rwa [Nat.add_right_comm (m + 1) 1 n]
    · have hend : 4 * r + t = 4 * (nk + 7) := by omega
      rw [if_neg hr, ← hend]
      exact h

/-- **The key schedule is the key expansion.** -/
theorem keySched_spec {self : Rijndael} (htables : self.tables = .op) {nk : ℕ}
    (hnk : IsKeyColumns nk) (hr : self.mURounds = nk + 6) (key : List Word)
    (hkey : key.length = nk) :
    Written nk key self.mExpandedKey (4 * (nk + 7)) (keySched self key).mExpandedKey := by
  have hold : 4 * (nk + 7) ≤ 60 := by rcases hnk with rfl | rfl | rfl <;> decide
  have h0 : Window nk key 0 key :=
    ⟨hkey, fun j hj ↦ by rw [expanded, Nat.zero_mul, Nat.zero_add, Aes.expandKey_of_lt hj]⟩
  obtain ⟨r, t, e, heq, ht, hp, h⟩ :=
    Written.copy (nk + 6) (r := 0) (t := 0) (e := self.mExpandedKey)
    h0 (by decide) (by omega) hold fun i ↦ rfl
  have hk : key.take nk = key := by rw [← hkey, List.take_length]
  rw [keySched, hr, htables]
  simp only [Nat.add_sub_cancel, hk, heq]
  refine keySchedLoop_spec hnk _ ?_ h0 ht hp h
  rcases hnk with rfl | rfl | rfl <;> decide

/-! ## The keys of a direction -/

/-- The words a key has. -/
def KeyLength.columns : KeyLength → ℕ
  | .key16Bytes => 4
  | .key24Bytes => 6
  | .key32Bytes => 8

theorem KeyLength.isKeyColumns (keyLen : KeyLength) : IsKeyColumns keyLen.columns := by
  cases keyLen
  · exact Or.inl rfl
  · exact Or.inr (Or.inl rfl)
  · exact Or.inr (Or.inr rfl)

theorem KeyLength.rounds_eq (keyLen : KeyLength) : keyLen.rounds = keyLen.columns + 6 := by
  cases keyLen <;> rfl

/-- The words of a key of bytes. -/
def keyColumns (key : List UInt8) (j : ℕ) : Word := readWord key (4 * j)

/-- A structure ready for a direction: the round keys of the middle of the cipher are unmixed for
the inverse cipher. -/
structure Ready (op : Rijndael) (dir : Direction) (nk : ℕ) (key : ℕ → Word) : Prop where
  tables : op.tables = .op
  state : op.mState = .valid
  direction : op.mDirection = dir
  rounds : op.mURounds = nk + 6
  keys : ∀ r, r ≤ nk + 6 → op.roundKey r =
    if dir = .decrypt ∧ 1 ≤ r ∧ r < nk + 6 then
      Aes.mixColumns.symm (Aes.roundKey (Aes.expandKey (byteOf s) nk key) r)
    else Aes.roundKey (Aes.expandKey (byteOf s) nk key) r

theorem expandKey_congr {nk : ℕ} {key key' : ℕ → Word} (h0 : 0 < nk)
    (h : ∀ j < nk, key j = key' j) (i : ℕ) :
    Aes.expandKey (byteOf s) nk key i = Aes.expandKey (byteOf s) nk key' i := by
  induction i using Nat.strong_induction_on with
  | _ i ih =>
    rcases Nat.lt_or_ge i nk with hi | hi
    · rw [Aes.expandKey_of_lt hi, Aes.expandKey_of_lt hi, h i hi]
    · rw [Aes.expandKey_of_le h0 hi, Aes.expandKey_of_le h0 hi, ih (i - nk) (by omega),
        ih (i - 1) (by omega)]

/-- A word that `keyEncToDec` replaces is unmixed. -/
theorem unmixed_word (w : Word) :
    wordOf u1 w.b0 ^^^ wordOf u2 w.b1 ^^^ wordOf u3 w.b2 ^^^ wordOf u4 w.b3 =
      Word.invMixColumn w := by
  rw [isRows_u1.wordOf_eq isBytes_range, isRows_u2.wordOf_eq isBytes_range,
    isRows_u3.wordOf_eq isBytes_range, isRows_u4.wordOf_eq isBytes_range, byteOf_range,
      byteOf_range,
    byteOf_range, byteOf_range, Word.invMixColumn, Word.circulant_eq]

theorem keyWord_keyEncToDec {self : Rijndael} (htables : self.tables = .op) {i : ℕ} (hi : i < 60) :
    keyWord (keyEncToDec self).mExpandedKey i =
      if 4 ≤ i ∧ i < 4 * self.mURounds then Word.invMixColumn (keyWord self.mExpandedKey i)
      else keyWord self.mExpandedKey i := by
  rw [keyWord, keyEncToDec, Vector.getElem?_mapIdx, keyWord, Vector.getElem?_eq_getElem hi]
  simp only [Option.map_some, Option.getD_some, htables, Tables.op, unmixed_word]

theorem roundKey_keyEncToDec {self : Rijndael} (htables : self.tables = .op) {r : ℕ} (hr : r < 15) :
    (keyEncToDec self).roundKey r =
      if 1 ≤ r ∧ r < self.mURounds then Aes.mixColumns.symm (self.roundKey r)
      else self.roundKey r := by
  have h (c : ℕ) (hc : c < 4) := keyWord_keyEncToDec htables (i := 4 * r + c) (by omega)
  have h0 := h 0 (by decide)
  rw [Nat.add_zero] at h0
  rw [roundKey, Aes.roundKey, h0, h 1 (by decide), h 2 (by decide), h 3 (by decide)]
  by_cases hr' : 1 ≤ r ∧ r < self.mURounds
  · rw [if_pos hr', if_pos (by omega), if_pos (by omega), if_pos (by omega), if_pos (by omega)]
    rfl
  · rw [if_neg hr', if_neg (by omega), if_neg (by omega), if_neg (by omega), if_neg (by omega)]
    rfl

/-- The columns that `rijndael_init` hands over. -/
theorem getD_columns (key : List UInt8) {nk j : ℕ} (hj : j < nk) :
    ((List.range nk).map fun j ↦ readWord key (4 * j)).getD j zeroWord = keyColumns key j := by
  rw [List.getD_eq_getElem?_getD, List.getElem?_map, List.getElem?_range hj]
  rfl

theorem roundKey_keySched {self : Rijndael} (htables : self.tables = .op) {nk : ℕ}
    (hnk : IsKeyColumns nk) (hr : self.mURounds = nk + 6) (key : List UInt8) {r : ℕ}
    (hr' : r ≤ nk + 6) :
    (keySched self ((List.range nk).map fun j ↦ readWord key (4 * j))).roundKey r =
      Aes.roundKey (Aes.expandKey (byteOf s) nk (keyColumns key)) r := by
  have h0 : 0 < nk := by rcases hnk with rfl | rfl | rfl <;> decide
  have h := keySched_spec htables hnk hr ((List.range nk).map fun j ↦ readWord key (4 * j))
    (by rw [List.length_map, List.length_range])
  have hword (i : ℕ) (hi : i < 4 * (nk + 7)) :
      keyWord (keySched self ((List.range nk).map fun j ↦ readWord key (4 * j))).mExpandedKey i =
        Aes.expandKey (byteOf s) nk (keyColumns key) i := by
    rw [h i, if_pos hi, expanded]
    exact expandKey_congr h0 (fun j hj ↦ getD_columns key hj) i
  rw [roundKey, Aes.roundKey, hword _ (by omega), hword _ (by omega), hword _ (by omega),
    hword _ (by omega), Aes.roundKey]

/-- **What `rijndael_init` leaves** of a structure with the tables, whatever else it held before. -/
theorem rijndaelInit_ready {self : Rijndael} (htables : self.tables = .op) (mode : Mode)
    (dir : Direction) (key : List UInt8) (keyLen : KeyLength) (iv : Option Aes.State) :
    Ready (rijndaelInit self mode dir (some key) keyLen iv).2 dir keyLen.columns
      (keyColumns key) := by
  have hnk := keyLen.isKeyColumns
  -- the structure before the key schedule
  obtain ⟨self₀, hself₀, htables₀, hdir, hrounds⟩ : ∃ self₀ : Rijndael, self₀ = { self with
        mState := .invalid, mMode := mode, mDirection := dir,
        mInitVector := iv.getD ⟨zeroWord, zeroWord, zeroWord, zeroWord⟩,
        mURounds := keyLen.rounds } ∧ self₀.tables = .op ∧ self₀.mDirection = dir ∧
      self₀.mURounds = keyLen.columns + 6 := ⟨_, rfl, htables, rfl, keyLen.rounds_eq⟩
  have hinit : (rijndaelInit self mode dir (some key) keyLen iv).2 =
      let sched := keySched self₀ ((List.range keyLen.columns).map fun j ↦ readWord key (4 * j))
      { (if dir = .decrypt then keyEncToDec sched else sched) with mState := .valid } := by
    have hdir' (cols : List Word) : (keySched self₀ cols).mDirection = dir := hdir
    rw [rijndaelInit, ← hself₀, hrounds, Nat.add_sub_cancel, hdir']
  rw [hinit]
  set sched := keySched self₀ ((List.range keyLen.columns).map fun j ↦ readWord key (4 * j))
  have hkeys (r : ℕ) (hr : r ≤ keyLen.columns + 6) := roundKey_keySched htables₀ hnk hrounds key hr
  have hr15 (r : ℕ) (hr : r ≤ keyLen.columns + 6) : r < 15 := by
    rcases hnk with h | h | h <;> omega
  cases dir with
  | encrypt =>
    refine ⟨htables₀, rfl, hdir, hrounds, fun r hr ↦ ?_⟩
    rw [if_neg (by simp)]
    exact hkeys r hr
  | decrypt =>
    refine ⟨htables₀, rfl, hdir, hrounds, fun r hr ↦ ?_⟩
    show (keyEncToDec sched).roundKey r = _
    have hsched : sched.tables = .op := htables₀
    rw [roundKey_keyEncToDec hsched (hr15 r hr), show sched.mURounds = _ from hrounds, ← hkeys r hr]
    simp only [true_and]
    rfl

/-! ## The cipher -/

/-- A structure ready to encrypt computes the standard's cipher. -/
theorem Ready.rEncrypt_eq {self : Rijndael} {nk : ℕ} {key : ℕ → Word}
    (h : Ready self .encrypt nk key) (a : Aes.State) :
    rEncrypt self a = Aes.cipher sbox nk key a := by
  rw [Rijndael.rEncrypt_eq h.tables (n := nk + 4) h.rounds, Aes.cipher]
  refine Cipher.Rounds.encrypt_congr _ (fun r hr ↦ ?_) a
  rw [h.keys r (by omega), if_neg (by simp)]
  rfl

/-- A structure ready to decrypt computes the standard's inverse cipher. -/
theorem Ready.rDecrypt_eq {self : Rijndael} {nk : ℕ} {key : ℕ → Word}
    (h : Ready self .decrypt nk key) (a : Aes.State) :
    rDecrypt self a = Aes.invCipher sbox nk key a := by
  rw [Rijndael.rDecrypt_eq h.tables (n := nk + 4) h.rounds, Aes.invCipher]
  have hmix (r : ℕ) (h1 : 1 ≤ r) (hr : r ≤ nk + 5) := (h.keys r (by omega)).trans
    (if_pos ⟨rfl, h1, by omega⟩)
  have hlast := (h.keys (nk + 6) le_rfl).trans (if_neg (by omega))
  have hfirst := (h.keys 0 (by omega)).trans (if_neg (by omega))
  rw [hfirst]
  exact (Cipher.Rounds.decrypt_eq_before _ _ (nk + 5) hmix hlast a).symm

/-- **The cipher of the source is the standard's**, in both directions, for every key of each of the
three lengths and whatever a structure with the tables was used for before. -/
theorem rijndael_standard (self : Rijndael) (htables : self.tables = .op) (mode : Mode)
    (key : List UInt8) (keyLen : KeyLength) (iv : Option Aes.State) (a : Aes.State) :
    rEncrypt (rijndaelInit self mode .encrypt (some key) keyLen iv).2 a =
      Aes.cipher sbox keyLen.columns (keyColumns key) a ∧
    rDecrypt (rijndaelInit self mode .decrypt (some key) keyLen iv).2 a =
      Aes.invCipher sbox keyLen.columns (keyColumns key) a :=
  ⟨(rijndaelInit_ready htables mode .encrypt key keyLen iv).rEncrypt_eq a,
    (rijndaelInit_ready htables mode .decrypt key keyLen iv).rDecrypt_eq a⟩

/-- A structure that has decrypted under one key, with another. -/
theorem rijndael_standard_rekeyed :
    let op := (rijndaelInit (initRijndaelOP zero) .ecb .decrypt (some (List.replicate 16 1))
      .key16Bytes none).2
    let key : List UInt8 := List.range 32 |>.map UInt8.ofNat
    let a : Aes.State := readBlock (List.replicate 16 0x11) 0
    rEncrypt (rijndaelInit op .ecb .encrypt (some key) .key32Bytes none).2 a =
      Aes.cipher sbox 8 (keyColumns key) a :=
  (rijndael_standard _ rfl .ecb (List.range 32 |>.map UInt8.ofNat) .key32Bytes none
    (readBlock (List.replicate 16 0x11) 0)).1

end Rijndael

end AlphaMon
