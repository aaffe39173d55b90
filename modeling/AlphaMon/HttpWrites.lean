import AlphaMon.ProtoFinder
import AlphaMon.Runs.Traced

/-!
# Where the HTTP module writes

The loops of `httpEntry` once more, as traced computations that log the positions they write to;
their values are those of the plain functions (`httpEntryTraced_value`).

`httpEntryTraced_log` says which positions these are, without the loops: the characters of the runs
that start behind the keywords, as far as they are not kept.  The Host run always ends in the
frame.  For the URI and the Referer field the length that is compared with `pkt_len` starts at the
payload, wherever the keyword was found, so that nothing but the text keeps their runs in the frame:
a blank behind the URI, the CR behind the Referer value.  `http_writes_inside` says that these are
enough.
-/

set_option autoImplicit false

namespace AlphaMon

open CString Traced

/-! ## The loops, traced -/

section Traced

variable (keep : UInt8 → Bool) (tsc : ℕ → ℕ)

/-- A byte that is not to be kept is written. -/
def maskByteTraced (p : Packet) (i : ℕ) : Traced ℕ Packet :=
  ⟨p.maskByte keep tsc i, if keep (p.byte i) then [] else [i]⟩

/-- The loop that replaces the Host value. -/
def maskTraced : ℕ → ℕ → Packet → Traced ℕ Packet
  | 0, _, p => pure p
  | n + 1, i, p => do
    let p ← maskByteTraced keep tsc p i
    maskTraced n (i + 1) p

/-- The loop over the URI. -/
def uriLoopTraced (ptrNextField : ℕ) : ℕ → ℕ → ℕ → Packet → Traced ℕ (Packet × Bool)
  | 0, _, _, packet => pure (packet, false)
  | fuel + 1, len, ptr, packet =>
    if packet.byte ptr = 32 then pure (packet, true)
    else if packet.pktLen ≤ len + 1 then pure (packet, false)
    else if ptrNextField ≤ ptr then pure (packet, false)
    else do
      let packet ← maskByteTraced isDotOrSlash tsc packet ptr
      uriLoopTraced ptrNextField fuel (len + 1) (ptr + 1) packet

/-- The loop over the Referer value. -/
def refererLoopTraced : ℕ → ℕ → ℕ → ℕ → Packet → Traced ℕ Packet
  | 0, _, _, _, packet => pure packet
  | fuel + 1, i, len, ptr, packet =>
    if endsField (packet.byte ptr) then pure packet
    else if packet.pktLen ≤ len + 1 then pure packet
    else if 63 < i then maskByteTraced isDotOrSlash tsc packet ptr
    else do
      let packet ← maskByteTraced isDotOrSlash tsc packet ptr
      refererLoopTraced fuel (i + 1) (len + 1) (ptr + 1) packet

/-- The part about the URI. -/
def obfuscateUriTraced (packet : Packet) (pkt lenStart : ℕ) : Traced ℕ (Packet × Bool) :=
  match uriStart packet pkt lenStart with
  | none => pure (packet, false)
  | some (len, ptr) =>
    if packet.pktLen ≤ len then pure (packet, false)
    else match strcasestr kwHttp (packet.text pkt) with
      | none => pure (packet, false)
      | some i => uriLoopTraced tsc (pkt + i) (packet.pktLen + 1) len ptr packet

/-- The part about the Referer field. -/
def obfuscateRefererTraced (packet : Packet) (pkt lenStart : ℕ) : Traced ℕ Packet :=
  match strcasestr kwRefer (packet.text pkt) with
  | none => pure packet
  | some i =>
    if packet.pktLen ≤ lenStart + 16 then pure packet
    else refererLoopTraced tsc 65 0 (lenStart + 16) (pkt + i + 16) packet

end Traced

/-- The part after the Host value is found, given what `table_add` made of it. -/
def httpRewriteTraced (packet : Packet) (pkt lenStart ptrStart : ℕ) (name : List UInt8) (kAnon : ℤ)
    (env : HandlerEnv) : Option (HashStruct × ℤ) → Traced ℕ (Option HandlerResult)
  | none => pure none
  | some (db, ret) =>
    if ret < kAnon then do
      let packet ← maskTraced isDot (env.tsc 0) name.length ptrStart packet
      let (packet, goesOn) ← obfuscateUriTraced (env.tsc 1) packet pkt lenStart
      let packet ← if goesOn then obfuscateRefererTraced (env.tsc 2) packet pkt lenStart
        else pure packet
      pure (some ⟨packet, 1, db, some (name, ret)⟩)
    else pure (some ⟨packet, 0, db, some (name, ret)⟩)

/-- `httpEntry`. -/
def httpEntryTraced (packet : Packet) (protocol : ℕ) (offset : UInt8) (newPacket : Flow)
    (flowDb : HashStruct) (kAnon kDelta : ℤ) (env : HandlerEnv) : Traced ℕ (Option HandlerResult) :=
  let unchanged : HandlerResult := ⟨packet, 0, flowDb, none⟩
  match httpHeaderExtractor packet protocol with
  | none => pure (some unchanged)
  | some pkt =>
    let lenStart := offsetExtractorHttp protocol offset
    if lenStart = 0 then pure (some unchanged)
    else match strcasestr kwHost (packet.text pkt) with
      | none => pure (some unchanged)
      | some i =>
        let len := lenStart + i + 6
        let ptrStart := pkt + i + 6
        if packet.pktLen ≤ len then pure (some unchanged)
        else match hostLoop packet 64 (len + 1) ptrStart [] with
          | none => pure (some unchanged)
          | some (len, name) =>
            let name := name.takeWhile (· ≠ 0)
            if packet.pktLen ≤ len ∨ name.length = 0 then pure (some unchanged)
            else httpRewriteTraced packet pkt lenStart ptrStart name kAnon env
              (tableAdd flowDb newPacket name kAnon kDelta env.table)

section Values

variable {keep : UInt8 → Bool} {tsc : ℕ → ℕ}

theorem maskTraced_value (n i : ℕ) (p : Packet) :
    (maskTraced keep tsc n i p).value = p.mask keep tsc n i := by
  induction n generalizing i p with
  | zero => rfl
  | succ n ih =>
    rw [maskTraced, value_bind, ih]
    rfl

theorem uriLoopTraced_value (next fuel len ptr : ℕ) (p : Packet) :
    (uriLoopTraced tsc next fuel len ptr p).value = uriLoop tsc next fuel len ptr p := by
  induction fuel generalizing len ptr p with
  | zero => rfl
  | succ fuel ih =>
    rw [uriLoopTraced, uriLoop, value_ite, value_ite, value_ite, value_bind, ih]
    rfl

theorem refererLoopTraced_value (fuel i len ptr : ℕ) (p : Packet) :
    (refererLoopTraced tsc fuel i len ptr p).value = refererLoop tsc fuel i len ptr p := by
  induction fuel generalizing i len ptr p with
  | zero => rfl
  | succ fuel ih =>
    rw [refererLoopTraced, refererLoop, value_ite, value_ite, value_ite, value_bind, ih]
    rfl

theorem obfuscateUriTraced_value (p : Packet) (pkt lenStart : ℕ) :
    (obfuscateUriTraced tsc p pkt lenStart).value = obfuscateUri p pkt lenStart tsc := by
  rw [obfuscateUriTraced, obfuscateUri]
  cases uriStart p pkt lenStart with
  | none => rfl
  | some s =>
    simp only [value_ite]
    cases strcasestr kwHttp (p.text pkt) with
    | none => rfl
    | some i => rw [uriLoopTraced_value, value_pure]

theorem obfuscateRefererTraced_value (p : Packet) (pkt lenStart : ℕ) :
    (obfuscateRefererTraced tsc p pkt lenStart).value = obfuscateReferer p pkt lenStart tsc := by
  rw [obfuscateRefererTraced, obfuscateReferer]
  cases strcasestr kwRefer (p.text pkt) with
  | none => rfl
  | some i => simp only [value_ite, refererLoopTraced_value, value_pure]

/-- **The traced function computes what `httpEntry` does.** -/
theorem httpEntryTraced_value (packet : Packet) (protocol : ℕ) (offset : UInt8) (newPacket : Flow)
    (flowDb : HashStruct) (kAnon kDelta : ℤ) (env : HandlerEnv) :
    (httpEntryTraced packet protocol offset newPacket flowDb kAnon kDelta env).value =
      httpEntry packet protocol offset newPacket flowDb kAnon kDelta env := by
  have hrewrite : ∀ pkt lenStart ptrStart name,
      (httpRewriteTraced packet pkt lenStart ptrStart name kAnon env
        (tableAdd flowDb newPacket name kAnon kDelta env.table)).value =
      httpRewrite packet pkt lenStart ptrStart name newPacket flowDb kAnon kDelta env := by
    intro pkt lenStart ptrStart name
    rw [httpRewrite]
    generalize tableAdd flowDb newPacket name kAnon kDelta env.table = added
    cases added with
    | none => simp only [httpRewriteTraced, value_pure, Option.bind_eq_bind, Option.bind_none]
    | some r =>
      simp only [httpRewriteTraced, value_ite, value_bind, value_pure, maskTraced_value,
        obfuscateUriTraced_value, obfuscateRefererTraced_value, Option.bind_eq_bind,
          Option.bind_some]
      split_ifs <;> rfl
  rw [httpEntryTraced, httpEntry]
  cases httpHeaderExtractor packet protocol with
  | none => rfl
  | some pkt =>
    simp only
    split
    · rfl
    cases strcasestr kwHost (packet.text pkt) with
    | none => rfl
    | some i =>
      simp only
      split
      · rfl
      generalize hostLoop packet 64 _ _ _ = host
      cases host with
      | none => rfl
      | some host =>
        simp only
        split
        · rfl
        · exact hrewrite ..

end Values

/-! ## The runs of characters -/

/-- From `ptr` to `j` there is no character to stop at. -/
def Packet.RunsTo (stop : UInt8 → Bool) (p : Packet) (ptr j : ℕ) : Prop :=
  ptr ≤ j ∧ ∀ k, ptr ≤ k → k ≤ j → stop (p.byte k) = false

section Runs

variable {stop keep : UInt8 → Bool} {tsc : ℕ → ℕ} {p q : Packet} {ptr j : ℕ}

/-- A run goes on behind its first character. -/
theorem Packet.runsTo_iff (h : ∀ k, ptr < k → q.byte k = p.byte k) : p.RunsTo stop ptr j ↔
    stop (p.byte ptr) = false ∧ (j = ptr ∨ q.RunsTo stop (ptr + 1) j) := by
  constructor
  · rintro ⟨hle, hrun⟩
    refine ⟨hrun ptr le_rfl hle, (Nat.eq_or_lt_of_le hle).imp Eq.symm fun hlt ↦
      ⟨hlt, fun k hk hkj ↦ ?_⟩⟩
    rw [h k hk]
    exact hrun k (Nat.le_of_lt hk) hkj
  · rintro ⟨hfirst, rfl | ⟨hle, hrun⟩⟩
    · refine ⟨le_rfl, fun k hk hkj ↦ ?_⟩
      rwa [le_antisymm hkj hk]
    · refine ⟨Nat.le_of_succ_le hle, fun k hk hkj ↦ ?_⟩
      rcases Nat.eq_or_lt_of_le hk with rfl | hlt
      · exact hfirst
      · rw [← h k hlt]
        exact hrun k hlt hkj

/-- A byte that is replaced leaves the others. -/
theorem Packet.maskByte_ne {k : ℕ} (hk : ptr ≠ k) :
    (p.maskByte keep tsc ptr).byte k = p.byte k := by
  rw [maskByte]
  split
  · rfl
  · rw [set_byte, if_neg (by tauto)]

theorem mem_maskByteTraced : j ∈ (maskByteTraced keep tsc p ptr).log ↔
    j = ptr ∧ keep (p.byte j) = false := by
  rw [maskByteTraced]
  cases h : keep (p.byte ptr) with
  | true =>
    refine iff_of_false (by simp) ?_
    rintro ⟨rfl, h'⟩
    exact Bool.false_ne_true (h'.symm.trans h)
  | false =>
    refine List.mem_singleton.trans ⟨?_, And.left⟩
    rintro rfl
    exact ⟨rfl, h⟩

/-- The writes of the loop over the Host value. -/
theorem mem_maskTraced {n i : ℕ} :
    j ∈ (maskTraced keep tsc n i p).log ↔ i ≤ j ∧ j < i + n ∧ keep (p.byte j) = false := by
  induction n generalizing i p with
  | zero => exact iff_of_false List.not_mem_nil (by omega)
  | succ n ih =>
    rw [maskTraced, mem_log_bind, mem_maskByteTraced, ih]
    show _ ∨ i + 1 ≤ j ∧ _ ∧ keep ((p.maskByte keep tsc i).byte j) = false ↔ _
    by_cases hij : i = j
    · subst hij
      simp
    · rw [Packet.maskByte_ne hij]
      constructor
      · rintro (⟨rfl, -⟩ | ⟨h₁, h₂, h₃⟩)
        · exact absurd rfl hij
        · exact ⟨by omega, by omega, h₃⟩
      · rintro ⟨h₁, h₂, h₃⟩
        exact .inr ⟨by omega, by omega, h₃⟩

/-- The character at which the loop over the URI stops. -/
def isBlank (c : UInt8) : Bool := c == 32

/-- **The writes of the loop over the URI**: the run up to a blank, as far as the length and the
next field let it go. -/
theorem mem_uriLoopTraced {next fuel len : ℕ} (hfuel : p.pktLen ≤ len + fuel + 1) :
    j ∈ (uriLoopTraced tsc next fuel len ptr p).log ↔
      p.RunsTo isBlank ptr j ∧ j < next ∧ len + (j - ptr) + 1 < p.pktLen ∧ isDotOrSlash (p.byte j) =
        false := by
  induction fuel generalizing len ptr p with
  | zero => exact iff_of_false List.not_mem_nil (by omega)
  | succ fuel ih =>
    have hsame : ∀ k, ptr < k → (p.maskByte isDotOrSlash tsc ptr).byte k = p.byte k :=
      fun k hk ↦ Packet.maskByte_ne (by omega)
    rw [uriLoopTraced, Packet.runsTo_iff hsame]
    by_cases hblank : p.byte ptr = 32
    · rw [if_pos hblank]
      exact iff_of_false List.not_mem_nil fun h ↦ absurd h.1.1 (by simp [isBlank, hblank])
    rw [if_neg hblank]
    have hstop : isBlank (p.byte ptr) = false := by simp [isBlank, hblank]
    by_cases hlen : p.pktLen ≤ len + 1
    · rw [if_pos hlen]
      exact iff_of_false List.not_mem_nil (by omega)
    rw [if_neg hlen]
    by_cases hnext : next ≤ ptr
    · rw [if_pos hnext]
      refine iff_of_false List.not_mem_nil ?_
      rintro ⟨⟨-, rfl | hrun⟩, hj, -⟩
      · omega
      · have := hrun.1
        omega
    rw [if_neg hnext, mem_log_bind, mem_maskByteTraced]
    show _ ∨ j ∈ (uriLoopTraced tsc next fuel (len + 1) (ptr + 1)
      (p.maskByte isDotOrSlash tsc ptr)).log ↔ _
    rw [ih (by rw [Packet.maskByte_pktLen]; omega), Packet.maskByte_pktLen]
    constructor
    · rintro (⟨rfl, hkeep⟩ | ⟨hrun, hj, hl, hkeep⟩)
      · exact ⟨⟨hstop, .inl rfl⟩, by omega, by omega, hkeep⟩
      · have hle := hrun.1
        rw [hsame j (by omega)] at hkeep
        exact ⟨⟨hstop, .inr hrun⟩, hj, by omega, hkeep⟩
    · rintro ⟨⟨-, rfl | hrun⟩, hj, hl, hkeep⟩
      · exact .inl ⟨rfl, hkeep⟩
      · have hle := hrun.1
        rw [← hsame j (by omega)] at hkeep
        exact .inr ⟨hrun, hj, by omega, hkeep⟩

/-- **The writes of the loop over the Referer value**: the run up to the end of the field, as far as
the length lets it go and up to the character with index 64. -/
theorem mem_refererLoopTraced {fuel i len : ℕ} (hfuel : fuel + i = 65) :
    j ∈ (refererLoopTraced tsc fuel i len ptr p).log ↔
      p.RunsTo endsField ptr j ∧ j < ptr + fuel ∧ len + (j - ptr) + 1 < p.pktLen ∧
        isDotOrSlash (p.byte j) = false := by
  induction fuel generalizing i len ptr p with
  | zero =>
    refine iff_of_false List.not_mem_nil fun h ↦ ?_
    have := h.1.1
    omega
  | succ fuel ih =>
    have hsame : ∀ k, ptr < k → (p.maskByte isDotOrSlash tsc ptr).byte k = p.byte k :=
      fun k hk ↦ Packet.maskByte_ne (by omega)
    rw [refererLoopTraced, Packet.runsTo_iff hsame]
    by_cases hend : endsField (p.byte ptr) = true
    · rw [if_pos hend]
      exact iff_of_false List.not_mem_nil fun h ↦ Bool.false_ne_true (h.1.1.symm.trans hend)
    rw [if_neg hend]
    have hstop : endsField (p.byte ptr) = false := Bool.eq_false_iff.2 hend
    by_cases hlen : p.pktLen ≤ len + 1
    · rw [if_pos hlen]
      exact iff_of_false List.not_mem_nil (by omega)
    rw [if_neg hlen]
    by_cases hi : 63 < i
    · rw [if_pos hi, mem_maskByteTraced]
      constructor
      · rintro ⟨rfl, hkeep⟩
        exact ⟨⟨hstop, .inl rfl⟩, by omega, by omega, hkeep⟩
      · rintro ⟨⟨-, rfl | hrun⟩, hj, -, hkeep⟩
        · exact ⟨rfl, hkeep⟩
        · have := hrun.1
          omega
    rw [if_neg hi, mem_log_bind, mem_maskByteTraced]
    show _ ∨ j ∈ (refererLoopTraced tsc fuel (i + 1) (len + 1) (ptr + 1)
      (p.maskByte isDotOrSlash tsc ptr)).log ↔ _
    rw [ih (by omega), Packet.maskByte_pktLen]
    constructor
    · rintro (⟨rfl, hkeep⟩ | ⟨hrun, hj, hl, hkeep⟩)
      · exact ⟨⟨hstop, .inl rfl⟩, by omega, by omega, hkeep⟩
      · have hle := hrun.1
        rw [hsame j (by omega)] at hkeep
        exact ⟨⟨hstop, .inr hrun⟩, by omega, by omega, hkeep⟩
    · rintro ⟨⟨-, rfl | hrun⟩, hj, hl, hkeep⟩
      · exact .inl ⟨rfl, hkeep⟩
      · have hle := hrun.1
        rw [← hsame j (by omega)] at hkeep
        exact .inr ⟨hrun, by omega, by omega, hkeep⟩

end Runs

/-! ## What is written -/

/-- What `httpEntry` takes for the Host value: `n` characters, six behind the first `HOST`. -/
structure HostValue (p : Packet) (base i n : ℕ) : Prop where
  first : strcasestr kwHost (p.text base) = some i
  le : n ≤ 64
  run : ∀ k < n, endsField (p.byte (base + i + 6 + k)) = false
  stop : endsField (p.byte (base + i + 6 + n)) = true
  inside : base + i + 7 + n < p.pktLen

/-- `httpEntry` gets to the rewriting, with the name at `ptr`: there is one, and it is below the
threshold. -/
def Rewrites (p : Packet) (base : ℕ) (newPacket : Flow) (flowDb : HashStruct) (kAnon kDelta : ℤ)
    (env : HandlerEnv) (ptr : ℕ) (name : List UInt8) : Prop :=
  ∃ i n, HostValue p base i n ∧ ptr = base + i + 6 ∧ name = (p.bytes ptr n).takeWhile (· ≠ 0) ∧
    name ≠ [] ∧
    ∃ db ret, tableAdd flowDb newPacket name kAnon kDelta env.table = some (db, ret) ∧ ret < kAnon

/-- The positions that the loop over the URI writes to. -/
def UriWrites (q : Packet) (base j : ℕ) : Prop :=
  ∃ len ptr i, uriStart q base base = some (len, ptr) ∧ strcasestr kwHttp (q.text base) = some i ∧
    q.RunsTo isBlank ptr j ∧ j < base + i ∧ len + (j - ptr) + 1 < q.pktLen ∧
      isDotOrSlash (q.byte j) = false

/-- The URI ends with a blank that the loop gets to, and `q'` is what it leaves. -/
def UriEnds (q : Packet) (base : ℕ) (tsc : ℕ → ℕ) (q' : Packet) : Prop :=
  ∃ len ptr i n, uriStart q base base = some (len, ptr) ∧ strcasestr kwHttp (q.text base) = some i ∧
    (∀ k < n, q.byte (ptr + k) ≠ 32) ∧ q.byte (ptr + n) = 32 ∧ (n = 0 ∨ ptr + n ≤ base + i) ∧
    len + n < q.pktLen ∧ q' = q.mask isDotOrSlash tsc n ptr

/-- The positions that the loop over the Referer value writes to. -/
def RefererWrites (q : Packet) (base j : ℕ) : Prop :=
  ∃ i, strcasestr kwRefer (q.text base) = some i ∧ q.RunsTo endsField (base + i + 16) j ∧
    j < base + i + 16 + 65 ∧ j - i + 1 < q.pktLen ∧ isDotOrSlash (q.byte j) = false

/-- The positions that `httpEntry` writes to. -/
inductive HttpWrites (p : Packet) (base : ℕ) (newPacket : Flow) (flowDb : HashStruct)
    (kAnon kDelta : ℤ) (env : HandlerEnv) (j : ℕ) : Prop
  | host {ptr : ℕ} {name : List UInt8} :
    Rewrites p base newPacket flowDb kAnon kDelta env ptr name →
      ptr ≤ j → j < ptr + name.length → isDot (p.byte j) = false →
      HttpWrites p base newPacket flowDb kAnon kDelta env j
  | uri {ptr : ℕ} {name : List UInt8} : Rewrites p base newPacket flowDb kAnon kDelta env ptr name →
      UriWrites (p.mask isDot (env.tsc 0) name.length ptr) base j →
      HttpWrites p base newPacket flowDb kAnon kDelta env j
  | referer {ptr : ℕ} {name : List UInt8} {q : Packet} :
      Rewrites p base newPacket flowDb kAnon kDelta env ptr name →
      UriEnds (p.mask isDot (env.tsc 0) name.length ptr) base (env.tsc 1) q →
        RefererWrites q base j →
      HttpWrites p base newPacket flowDb kAnon kDelta env j

section Writes

variable {p q q' : Packet} {base j : ℕ} {tsc : ℕ → ℕ}

theorem Packet.bytes_succ (p : Packet) (i n : ℕ) :
    p.bytes i (n + 1) = p.byte i :: p.bytes (i + 1) n := by
  rw [bytes, bytes, List.range_succ_eq_map, List.map_cons, List.map_map]
  refine congrArg₂ _ (by rw [Nat.add_zero]) (List.map_congr_left fun k _ ↦ ?_)
  rw [Function.comp_apply, Nat.succ_eq_add_one, Nat.add_right_comm, Nat.add_assoc]

/-- **What the loop over the Host value copies.** -/
theorem hostLoop_eq_some_iff {left len ptr : ℕ} {name : List UInt8} {r : ℕ × List UInt8} :
    hostLoop p left len ptr name = some r ↔
      ∃ n ≤ left, (∀ k < n, endsField (p.byte (ptr + k)) = false) ∧
      endsField (p.byte (ptr + n)) = true ∧ (∀ k < n, len + k < p.pktLen) ∧
      r = (len + n, name ++ p.bytes ptr n) := by
  induction left generalizing len ptr name with
  | zero =>
    rw [hostLoop]
    by_cases hend : endsField (p.byte ptr) = true
    · rw [if_pos hend, Option.some.injEq, eq_comm]
      constructor
      · rintro rfl
        exact ⟨0, le_rfl, by simp, hend, by simp, by simp [Packet.bytes]⟩
      · rintro ⟨n, hn, -, -, -, rfl⟩
        obtain rfl := Nat.le_zero.1 hn
        simp [Packet.bytes]
    · rw [if_neg hend]
      refine iff_of_false (by simp) ?_
      rintro ⟨n, hn, -, hstop, -⟩
      obtain rfl := Nat.le_zero.1 hn
      exact hend hstop
  | succ left ih =>
    rw [hostLoop]
    by_cases hend : endsField (p.byte ptr) = true
    · rw [if_pos hend, Option.some.injEq, eq_comm]
      constructor
      · rintro rfl
        exact ⟨0, Nat.zero_le _, by simp, hend, by simp, by simp [Packet.bytes]⟩
      · rintro ⟨n | n, -, hrun, -, -, rfl⟩
        · simp [Packet.bytes]
        · exact absurd ((hrun 0 (Nat.succ_pos n)).symm.trans hend) Bool.false_ne_true
    rw [if_neg hend]
    by_cases hlen : p.pktLen ≤ len
    · rw [if_pos hlen]
      refine iff_of_false (by simp) ?_
      rintro ⟨n | n, -, -, hstop, hin, -⟩
      · exact hend hstop
      · have := hin 0 (Nat.succ_pos n)
        omega
    rw [if_neg hlen, ih]
    constructor
    · rintro ⟨n, hn, hrun, hstop, hin, rfl⟩
      refine ⟨n + 1, by omega, ?_, ?_, ?_, ?_⟩
      · rintro (_ | k) hk
        · exact Bool.eq_false_iff.2 hend
        · rw [Nat.add_comm k, ← Nat.add_assoc]
          exact hrun k (by omega)
      · rwa [Nat.add_comm n, ← Nat.add_assoc]
      · rintro (_ | k) hk
        · omega
        · have := hin k (by omega)
          omega
      · rw [Packet.bytes_succ, List.append_assoc, Nat.add_comm n, ← Nat.add_assoc]
        rfl
    · rintro ⟨n | n, hn, hrun, hstop, hin, rfl⟩
      · exact absurd hstop hend
      · refine ⟨n, by omega, fun k hk ↦ ?_, ?_, fun k hk ↦ ?_, ?_⟩
        · rw [Nat.add_assoc, Nat.add_comm 1]
          exact hrun (k + 1) (by omega)
        · rwa [Nat.add_assoc, Nat.add_comm 1]
        · have := hin (k + 1) (by omega)
          omega
        · rw [Packet.bytes_succ, List.append_assoc, Nat.add_comm n, ← Nat.add_assoc]
          rfl

theorem mem_obfuscateUriTraced : j ∈ (obfuscateUriTraced tsc q base base).log ↔
    UriWrites q base j := by
  rw [obfuscateUriTraced]
  cases hstart : uriStart q base base with
  | none => exact iff_of_false List.not_mem_nil fun ⟨_, _, _, h, _⟩ ↦ by simp [hstart] at h
  | some s =>
    obtain ⟨len, ptr⟩ := s
    simp only
    by_cases hlen : q.pktLen ≤ len
    · rw [if_pos hlen]
      refine iff_of_false List.not_mem_nil ?_
      rintro ⟨len', ptr', i, h, -, -, -, hl, -⟩
      obtain ⟨rfl, rfl⟩ := Prod.mk.inj (Option.some.inj (hstart.symm.trans h))
      omega
    rw [if_neg hlen]
    cases hhttp : strcasestr kwHttp (q.text base) with
    | none => exact iff_of_false List.not_mem_nil fun ⟨_, _, _, _, h, _⟩ ↦ by simp [hhttp] at h
    | some i =>
      simp only
      rw [mem_uriLoopTraced (by omega)]
      constructor
      · exact fun h ↦ ⟨len, ptr, i, hstart, hhttp, h⟩
      · rintro ⟨len', ptr', i', h, h', hrest⟩
        obtain ⟨rfl, rfl⟩ := Prod.mk.inj (Option.some.inj (hstart.symm.trans h))
        obtain rfl := Option.some.inj (hhttp.symm.trans h')
        exact hrest

/-- **When the loop over the URI gets to a blank.** -/
theorem uriLoop_eq_true_iff {next fuel len ptr : ℕ} (hfuel : q.pktLen < len + fuel)
    (hlen : len < q.pktLen) :
    uriLoop tsc next fuel len ptr q = (q', true) ↔ ∃ n, (∀ k < n, q.byte (ptr + k) ≠ 32) ∧
      q.byte (ptr + n) = 32 ∧ (n = 0 ∨ ptr + n ≤ next) ∧ len + n < q.pktLen ∧
      q' = q.mask isDotOrSlash tsc n ptr := by
  induction fuel generalizing len ptr q with
  | zero => omega
  | succ fuel ih =>
    have hsame : ∀ k, ptr < k → (q.maskByte isDotOrSlash tsc ptr).byte k = q.byte k :=
      fun k hk ↦ Packet.maskByte_ne (by omega)
    rw [uriLoop]
    by_cases hblank : q.byte ptr = 32
    · rw [if_pos hblank]
      constructor
      · intro h
        exact ⟨0, by simp, hblank, .inl rfl, hlen, (Prod.mk.inj h).1.symm⟩
      · rintro ⟨n | n, hrun, -, -, -, rfl⟩
        · rfl
        · exact absurd hblank (hrun 0 (Nat.succ_pos n))
    rw [if_neg hblank]
    -- the loop ends here without a blank
    have hnone : (∀ n, ptr + (n + 1) ≤ next → ¬len + (n + 1) < q.pktLen) →
        ¬∃ n, (∀ k < n, q.byte (ptr + k) ≠ 32) ∧ q.byte (ptr + n) = 32 ∧ (n = 0 ∨ ptr + n ≤ next) ∧
          len + n < q.pktLen ∧ q' = q.mask isDotOrSlash tsc n ptr := by
      rintro hno ⟨n | n, -, hb, hn, hl, -⟩
      · exact hblank hb
      · exact hno n (hn.resolve_left (Nat.succ_ne_zero n)) hl
    by_cases hl : q.pktLen ≤ len + 1
    · rw [if_pos hl]
      exact iff_of_false (by simp) (hnone fun n _ ↦ by omega)
    rw [if_neg hl]
    by_cases hnext : next ≤ ptr
    · rw [if_pos hnext]
      exact iff_of_false (by simp) (hnone fun n hn ↦ by omega)
    rw [if_neg hnext, ih (by rw [Packet.maskByte_pktLen]; omega)
      (by rw [Packet.maskByte_pktLen]; omega),
      Packet.maskByte_pktLen]
    constructor
    · rintro ⟨n, hrun, hb, hn, hin, rfl⟩
      refine ⟨n + 1, ?_, ?_, .inr (by omega), by omega, rfl⟩
      · rintro (_ | k) hk
        · exact hblank
        · rw [← hsame _ (by omega), Nat.add_comm k, ← Nat.add_assoc]
          exact hrun k (by omega)
      · rwa [hsame _ (by omega), Nat.add_assoc, Nat.add_comm 1] at hb
    · rintro ⟨n | n, hrun, hb, hn, hin, rfl⟩
      · exact absurd hb hblank
      · refine ⟨n, fun k hk ↦ ?_, ?_, by omega, by omega, rfl⟩
        · rw [hsame _ (by omega), Nat.add_assoc, Nat.add_comm 1]
          exact hrun (k + 1) (by omega)
        · rwa [hsame _ (by omega), Nat.add_assoc, Nat.add_comm 1]

theorem obfuscateUri_eq_true_iff : obfuscateUri q base base tsc = (q', true) ↔
    UriEnds q base tsc q' := by
  rw [obfuscateUri]
  cases hstart : uriStart q base base with
  | none => exact iff_of_false (by simp) fun ⟨_, _, _, _, h, _⟩ ↦ by simp [hstart] at h
  | some s =>
    obtain ⟨len, ptr⟩ := s
    simp only
    by_cases hlen : q.pktLen ≤ len
    · rw [if_pos hlen]
      refine iff_of_false (by simp) ?_
      rintro ⟨len', ptr', i, n, h, -, -, -, -, hl, -⟩
      obtain ⟨rfl, rfl⟩ := Prod.mk.inj (Option.some.inj (hstart.symm.trans h))
      omega
    rw [if_neg hlen]
    cases hhttp : strcasestr kwHttp (q.text base) with
    | none => exact iff_of_false (by simp) fun ⟨_, _, _, _, _, h, _⟩ ↦ by simp [hhttp] at h
    | some i =>
      simp only
      rw [uriLoop_eq_true_iff (by omega) (by omega)]
      constructor
      · exact fun ⟨n, h⟩ ↦ ⟨len, ptr, i, n, hstart, hhttp, h⟩
      · rintro ⟨len', ptr', i', n, h, h', hrest⟩
        obtain ⟨rfl, rfl⟩ := Prod.mk.inj (Option.some.inj (hstart.symm.trans h))
        obtain rfl := Option.some.inj (hhttp.symm.trans h')
        exact ⟨n, hrest⟩

theorem mem_obfuscateRefererTraced :
    j ∈ (obfuscateRefererTraced tsc q base base).log ↔ RefererWrites q base j := by
  rw [obfuscateRefererTraced]
  cases href : strcasestr kwRefer (q.text base) with
  | none => exact iff_of_false List.not_mem_nil fun ⟨_, h, _⟩ ↦ by simp [href] at h
  | some i =>
    simp only
    by_cases hlen : q.pktLen ≤ base + 16
    · rw [if_pos hlen]
      refine iff_of_false List.not_mem_nil ?_
      rintro ⟨i', h, hrun, -, hl, -⟩
      obtain rfl := Option.some.inj (href.symm.trans h)
      have := hrun.1
      omega
    rw [if_neg hlen, mem_refererLoopTraced rfl]
    constructor
    · rintro ⟨hrun, hj, hl, hkeep⟩
      have := hrun.1
      exact ⟨i, href, hrun, hj, by omega, hkeep⟩
    · rintro ⟨i', h, hrun, hj, hl, hkeep⟩
      obtain rfl := Option.some.inj (href.symm.trans h)
      have := hrun.1
      exact ⟨hrun, hj, by omega, hkeep⟩

/-- The loop over the Host value copies it. -/
theorem HostValue.hostLoop {i n : ℕ} (h : HostValue p base i n) :
    hostLoop p 64 (base + i + 6 + 1) (base + i + 6) [] =
      some (base + i + 6 + 1 + n, p.bytes (base + i + 6) n) := by
  have hin := h.inside
  exact hostLoop_eq_some_iff.2 ⟨n, h.le, h.run, h.stop, fun k hk ↦ by omega, rfl⟩

/-- There is one Host value. -/
theorem HostValue.unique {i n i' n' : ℕ} (h : HostValue p base i n) (h' : HostValue p base i' n') :
    i = i' ∧ n = n' := by
  obtain rfl := Option.some.inj (h.first.symm.trans h'.first)
  have hloop := Option.some.inj (h.hostLoop.symm.trans h'.hostLoop)
  have hlen : base + i + 6 + 1 + n = base + i + 6 + 1 + n' := congrArg Prod.fst hloop
  exact ⟨rfl, by omega⟩

/-- The writes of the rewriting. -/
theorem mem_httpRewriteTraced {ptr : ℕ} {name : List UInt8} {kAnon : ℤ} {env : HandlerEnv}
    {added : Option (HashStruct × ℤ)} :
    j ∈ (httpRewriteTraced p base base ptr name kAnon env added).log ↔
      (∃ db ret, added = some (db, ret) ∧ ret < kAnon) ∧
        ((ptr ≤ j ∧ j < ptr + name.length ∧ isDot (p.byte j) = false) ∨
          UriWrites (p.mask isDot (env.tsc 0) name.length ptr) base j ∨
          ∃ q, UriEnds (p.mask isDot (env.tsc 0) name.length ptr) base (env.tsc 1) q ∧
            RefererWrites q base j) := by
  cases added with
  | none => exact iff_of_false List.not_mem_nil (by simp)
  | some r =>
    obtain ⟨db, ret⟩ := r
    rw [httpRewriteTraced]
    by_cases hret : ret < kAnon
    · rw [if_pos hret, and_iff_right ⟨db, ret, rfl, hret⟩, mem_log_bind, mem_maskTraced,
        maskTraced_value,
        mem_log_bind, mem_obfuscateUriTraced, obfuscateUriTraced_value]
      refine or_congr_right (or_congr_right ?_)
      simp only [← obfuscateUri_eq_true_iff]
      generalize obfuscateUri (p.mask isDot (env.tsc 0) name.length ptr) base base (env.tsc 1) = u
      obtain ⟨q, _ | _⟩ := u
      · refine iff_of_false ?_ (by simp)
        rw [if_neg Bool.false_ne_true, mem_log_bind]
        exact not_or.2 ⟨List.not_mem_nil, List.not_mem_nil⟩
      · rw [if_pos rfl, mem_log_bind, mem_obfuscateRefererTraced]
        constructor
        · rintro (h | h)
          · exact ⟨q, rfl, h⟩
          · exact absurd h List.not_mem_nil
        · rintro ⟨q', h, hw⟩
          obtain rfl := congrArg Prod.fst h
          exact .inl hw
    · rw [if_neg hret]
      refine iff_of_false List.not_mem_nil ?_
      rintro ⟨⟨db', ret', h, hlt⟩, -⟩
      obtain ⟨rfl, rfl⟩ := Prod.mk.inj (Option.some.inj h)
      exact hret hlt

/-- **The positions that `httpEntry` writes to.** -/
theorem httpEntryTraced_log {newPacket : Flow} {flowDb : HashStruct} {kAnon kDelta : ℤ}
    {env : HandlerEnv} :
    j ∈ (httpEntryTraced p 0 (p.byte 46) newPacket flowDb kAnon kDelta env).log ↔
      HttpWrites p (payloadOffset 0 (p.byte 46)) newPacket flowDb kAnon kDelta env j := by
  have hge := payloadOffset_ge 0 (p.byte 46)
  rw [httpEntryTraced, httpHeaderExtractor_eq]
  simp only
  rw [offsetExtractorHttp, if_neg (by omega)]
  generalize payloadOffset 0 (p.byte 46) = base at hge ⊢
  -- nothing is written when there is no name
  have hnone : (∀ i n, ¬HostValue p base i n) →
    ¬HttpWrites p base newPacket flowDb kAnon kDelta env j := by
    rintro hno (⟨⟨i, n, hv, -⟩, -⟩ | ⟨⟨i, n, hv, -⟩, -⟩ | ⟨⟨i, n, hv, -⟩, -⟩) <;> exact hno i n hv
  cases hhost : strcasestr kwHost (p.text base) with
  | none => exact iff_of_false List.not_mem_nil (hnone fun i n hv ↦ by simpa [hhost] using hv.first)
  | some i =>
    simp only
    by_cases hlen : p.pktLen ≤ base + i + 6
    · rw [if_pos hlen]
      refine iff_of_false List.not_mem_nil (hnone fun i' n hv ↦ ?_)
      obtain rfl := Option.some.inj (hhost.symm.trans hv.first)
      have := hv.inside
      omega
    rw [if_neg hlen]
    cases hloop : hostLoop p 64 (base + i + 6 + 1) (base + i + 6) [] with
    | none =>
      refine iff_of_false List.not_mem_nil (hnone fun i' n hv ↦ ?_)
      obtain rfl := Option.some.inj (hhost.symm.trans hv.first)
      exact Option.some_ne_none _ (hv.hostLoop.symm.trans hloop)
    | some r =>
      obtain ⟨n, hn, hrun, hstop, -, rfl⟩ := hostLoop_eq_some_iff.1 hloop
      simp only [List.nil_append]
      by_cases hin : p.pktLen ≤ base + i + 6 + 1 + n
      · rw [if_pos (.inl hin)]
        refine iff_of_false List.not_mem_nil (hnone fun i' n' hv ↦ ?_)
        obtain rfl := Option.some.inj (hhost.symm.trans hv.first)
        have hlen' : base + i + 6 + 1 + n' = base + i + 6 + 1 + n :=
          congrArg Prod.fst (Option.some.inj (hv.hostLoop.symm.trans hloop))
        have := hv.inside
        omega
      have hv : HostValue p base i n := ⟨hhost, hn, hrun, hstop, by omega⟩
      -- the name that is rewritten is the one found here
      have hname : ∀ {ptr name}, Rewrites p base newPacket flowDb kAnon kDelta env ptr name ↔
          ptr = base + i + 6 ∧ name = (p.bytes (base + i + 6) n).takeWhile (· ≠ 0) ∧ name ≠ [] ∧
            ∃ db ret, tableAdd flowDb newPacket name kAnon kDelta env.table = some (db, ret) ∧
              ret < kAnon := by
        intro ptr name
        constructor
        · rintro ⟨i', n', hv', rfl, hrest⟩
          obtain ⟨rfl, rfl⟩ := hv.unique hv'
          exact ⟨rfl, hrest⟩
        · rintro ⟨rfl, hrest⟩
          exact ⟨i, n, hv, rfl, hrest⟩
      generalize (p.bytes (base + i + 6) n).takeWhile (· ≠ 0) = host at hname ⊢
      by_cases hempty : host.length = 0
      · rw [if_pos (.inr hempty)]
        refine iff_of_false List.not_mem_nil ?_
        have hno : ∀ {ptr name}, ¬Rewrites p base newPacket flowDb kAnon kDelta env ptr name := by
          intro ptr name hr
          obtain ⟨-, rfl, hne, -⟩ := hname.1 hr
          exact hne (List.eq_nil_of_length_eq_zero hempty)
        rintro (⟨hr, -⟩ | ⟨hr, -⟩ | ⟨hr, -⟩) <;> exact hno hr
      rw [if_neg (not_or.2 ⟨hin, hempty⟩), mem_httpRewriteTraced]
      have hne : host ≠ [] := fun h ↦ hempty (by rw [h, List.length_nil])
      constructor
      · rintro ⟨hadd, ⟨h₁, h₂, h₃⟩ | h | ⟨q, h₁, h₂⟩⟩
        · exact .host (hname.2 ⟨rfl, rfl, hne, hadd⟩) h₁ h₂ h₃
        · exact .uri (hname.2 ⟨rfl, rfl, hne, hadd⟩) h
        · exact .referer (hname.2 ⟨rfl, rfl, hne, hadd⟩) h₁ h₂
      · rintro (⟨hr, h₁, h₂, h₃⟩ | ⟨hr, h⟩ | ⟨hr, h₁, h₂⟩)
        · obtain ⟨rfl, rfl, -, hadd⟩ := hname.1 hr
          exact ⟨hadd, .inl ⟨h₁, h₂, h₃⟩⟩
        · obtain ⟨rfl, rfl, -, hadd⟩ := hname.1 hr
          exact ⟨hadd, .inr (.inl h)⟩
        · obtain ⟨rfl, rfl, -, hadd⟩ := hname.1 hr
          exact ⟨hadd, .inr (.inr ⟨_, h₁, h₂⟩)⟩

/-! ## Nothing else changes -/

theorem maskByteTraced_byte {keep : UInt8 → Bool} {i : ℕ}
    (h : j ∉ (maskByteTraced keep tsc p i).log) :
    (p.maskByte keep tsc i).byte j = p.byte j := by
  by_cases hij : i = j
  · subst hij
    rw [mem_maskByteTraced, not_and, Bool.not_eq_false] at h
    rw [Packet.maskByte, if_pos (h rfl)]
  · exact Packet.maskByte_ne hij

theorem maskTraced_byte {keep : UInt8 → Bool} {n i : ℕ} (h : j ∉ (maskTraced keep tsc n i p).log) :
    (p.mask keep tsc n i).byte j = p.byte j := by
  induction n generalizing i p with
  | zero => rfl
  | succ n ih =>
    rw [maskTraced, mem_log_bind, not_or] at h
    exact (ih h.2).trans (maskByteTraced_byte h.1)

theorem uriLoopTraced_byte {next fuel len ptr : ℕ}
    (h : j ∉ (uriLoopTraced tsc next fuel len ptr p).log) :
    (uriLoopTraced tsc next fuel len ptr p).value.1.byte j = p.byte j := by
  induction fuel generalizing len ptr p with
  | zero => rfl
  | succ fuel ih =>
    rw [uriLoopTraced] at h ⊢
    split_ifs at h ⊢
    · rfl
    · rfl
    · rfl
    · rw [mem_log_bind, not_or] at h
      exact (ih h.2).trans (maskByteTraced_byte h.1)

theorem refererLoopTraced_byte {fuel i len ptr : ℕ}
    (h : j ∉ (refererLoopTraced tsc fuel i len ptr p).log) :
    (refererLoopTraced tsc fuel i len ptr p).value.byte j = p.byte j := by
  induction fuel generalizing i len ptr p with
  | zero => rfl
  | succ fuel ih =>
    rw [refererLoopTraced] at h ⊢
    split_ifs at h ⊢
    · rfl
    · rfl
    · exact maskByteTraced_byte h
    · rw [mem_log_bind, not_or] at h
      exact (ih h.2).trans (maskByteTraced_byte h.1)

theorem obfuscateUriTraced_byte (h : j ∉ (obfuscateUriTraced tsc p base base).log) :
    (obfuscateUri p base base tsc).1.byte j = p.byte j := by
  rw [← obfuscateUriTraced_value]
  rw [obfuscateUriTraced] at h ⊢
  split at h
  · rfl
  · split_ifs at h ⊢
    · rfl
    · split at h
      · rfl
      · exact uriLoopTraced_byte h

theorem obfuscateRefererTraced_byte (h : j ∉ (obfuscateRefererTraced tsc p base base).log) :
    (obfuscateReferer p base base tsc).byte j = p.byte j := by
  rw [← obfuscateRefererTraced_value]
  rw [obfuscateRefererTraced] at h ⊢
  split at h
  · rfl
  · split_ifs at h ⊢
    · rfl
    · exact refererLoopTraced_byte h

theorem httpRewriteTraced_byte {ptr : ℕ} {name : List UInt8} {kAnon : ℤ} {env : HandlerEnv}
    {added : Option (HashStruct × ℤ)} {r : HandlerResult}
    (hr : (httpRewriteTraced p base base ptr name kAnon env added).value = some r)
    (h : j ∉ (httpRewriteTraced p base base ptr name kAnon env added).log) :
    r.packet.byte j = p.byte j := by
  cases added with
  | none => exact absurd hr (by simp [httpRewriteTraced])
  | some added =>
    rw [httpRewriteTraced] at hr h
    by_cases hret : added.2 < kAnon
    · rw [if_pos hret, mem_log_bind, maskTraced_value, mem_log_bind, obfuscateUriTraced_value,
        not_or,
        not_or] at h
      rw [if_pos hret, value_bind, maskTraced_value, value_bind, obfuscateUriTraced_value] at hr
      obtain ⟨hmask, huri, href⟩ := h
      have hfirst := (obfuscateUriTraced_byte huri).trans (maskTraced_byte hmask)
      revert hr href hfirst
      generalize obfuscateUri (p.mask isDot (env.tsc 0) name.length ptr) base base (env.tsc 1) = u
      obtain ⟨q, _ | _⟩ := u <;> intro hr href hfirst
      · rw [← Option.some.inj hr]
        exact hfirst
      · simp only [if_true, mem_log_bind, not_or] at href
        simp only [if_true, value_bind, obfuscateRefererTraced_value] at hr
        rw [← Option.some.inj hr]
        exact (obfuscateRefererTraced_byte href.1).trans hfirst
    · rw [if_neg hret] at hr
      rw [← Option.some.inj hr]

/-- **A byte that is not written is what it was.** -/
theorem httpEntryTraced_byte {newPacket : Flow} {flowDb : HashStruct} {kAnon kDelta : ℤ}
    {env : HandlerEnv} {r : HandlerResult}
    (hr : httpEntry p 0 (p.byte 46) newPacket flowDb kAnon kDelta env = some r)
    (h : j ∉ (httpEntryTraced p 0 (p.byte 46) newPacket flowDb kAnon kDelta env).log) :
    r.packet.byte j = p.byte j := by
  rw [← httpEntryTraced_value] at hr
  have hge := payloadOffset_ge 0 (p.byte 46)
  rw [httpEntryTraced, httpHeaderExtractor_eq] at hr h
  simp only at hr h
  rw [offsetExtractorHttp, if_neg (by omega)] at hr h
  have hsame : some ⟨p, 0, flowDb, none⟩ = some r → r.packet.byte j = p.byte j := by
    intro hr
    rw [← Option.some.inj hr]
  generalize payloadOffset 0 (p.byte 46) = base at hr h
  revert hr h
  cases strcasestr kwHost (p.text base) with
  | none => exact fun hr _ ↦ hsame hr
  | some i =>
    simp only
    by_cases hlen : p.pktLen ≤ base + i + 6
    · rw [if_pos hlen]
      exact fun hr _ ↦ hsame hr
    rw [if_neg hlen]
    cases hostLoop p 64 (base + i + 6 + 1) (base + i + 6) [] with
    | none => exact fun hr _ ↦ hsame hr
    | some host =>
      simp only
      generalize host.2.takeWhile (· ≠ 0) = name
      by_cases hbad : p.pktLen ≤ host.1 ∨ name.length = 0
      · rw [if_pos hbad]
        exact fun hr _ ↦ hsame hr
      · rw [if_neg hbad]
        exact httpRewriteTraced_byte

/-! ## Writes behind the frame -/

/-- The Host value is in the frame. -/
theorem Rewrites.inside {newPacket : Flow} {flowDb : HashStruct} {kAnon kDelta : ℤ}
    {env : HandlerEnv} {ptr : ℕ} {name : List UInt8}
    (h : Rewrites p base newPacket flowDb kAnon kDelta env ptr name) :
    base ≤ ptr ∧ ptr + name.length < p.pktLen := by
  obtain ⟨i, n, hv, rfl, rfl, -⟩ := h
  have hle : ((p.bytes (base + i + 6) n).takeWhile (· ≠ 0)).length ≤ n :=
    (List.takeWhile_prefix _).length_le.trans (by simp [Packet.bytes])
  have hin := hv.inside
  omega

/-- The URI starts in the payload. -/
theorem uriStart_ge {len ptr : ℕ} (h : uriStart q base base = some (len, ptr)) : base ≤ ptr := by
  rw [uriStart] at h
  split at h
  · obtain ⟨-, rfl⟩ := Prod.mk.inj (Option.some.inj h)
    omega
  · split at h
    · obtain ⟨-, rfl⟩ := Prod.mk.inj (Option.some.inj h)
      omega
    · exact absurd h (by simp)

/-! ## Texts whose fields end in the frame -/

/-- The URI starts at `s`: behind the first `get`, or else behind the first `post`, at offset
`i`. -/
def UriAt (q : Packet) (base i s : ℕ) : Prop :=
  (strcasestr kwGet (q.text base) = some i ∧ s = base + i + 4) ∨
    (strcasestr kwGet (q.text base) = none ∧ strcasestr kwPost (q.text base) = some i ∧
        s = base + i + 5)

/-- The URI has its end in the frame: a blank, or the first `http`.  At the beginning of the payload
the length that is compared with `pkt_len` is right. -/
def UriCloses (q : Packet) (base : ℕ) : Prop :=
  ∀ i s, UriAt q base i s → i ≤ 1 ∨ (∃ b, s ≤ b ∧ b < q.pktLen ∧ q.byte b = 32) ∨
    ∀ h, strcasestr kwHttp (q.text base) = some h → base + h ≤ q.pktLen

/-- The Referer value has its end in the frame: a CR or tab, or its character number 65. -/
def RefererCloses (q : Packet) (base : ℕ) : Prop :=
  ∀ i, strcasestr kwRefer (q.text base) = some i → i ≤ 1 ∨
    (∃ b, base + i + 16 ≤ b ∧ b < q.pktLen ∧ endsField (q.byte b) = true) ∨
      base + i + 16 + 65 ≤ q.pktLen

/-- The fields end in the frame: the URI in the text with letters drawn for the Host value, and if a
blank ends it, the Referer value in the text with letters drawn for the URI as well. -/
structure FieldsClose (p : Packet) (base : ℕ) (env : HandlerEnv) (ptr n : ℕ) : Prop where
  uri : UriCloses (p.mask isDot (env.tsc 0) n ptr) base
  referer : ∀ i s k, UriAt (p.mask isDot (env.tsc 0) n ptr) base i s →
    (∀ l < k, (p.mask isDot (env.tsc 0) n ptr).byte (s + l) ≠ 32) →
    (p.mask isDot (env.tsc 0) n ptr).byte (s + k) = 32 →
    RefererCloses ((p.mask isDot (env.tsc 0) n ptr).mask isDotOrSlash (env.tsc 1) k s) base

/-- The code's start of the URI. -/
theorem uriAt_of_uriStart {len ptr : ℕ} (h : uriStart q base base = some (len, ptr)) :
    ∃ i, UriAt q base i ptr ∧ ptr = len + i := by
  rw [uriStart] at h
  split at h
  · next i hget =>
    obtain ⟨rfl, rfl⟩ := Prod.mk.inj (Option.some.inj h)
    exact ⟨i, .inl ⟨hget, rfl⟩, by omega⟩
  · next hget =>
    split at h
    · next i hpost =>
      obtain ⟨rfl, rfl⟩ := Prod.mk.inj (Option.some.inj h)
      exact ⟨i, .inr ⟨hget, hpost, rfl⟩, by omega⟩
    · exact absurd h (by simp)

/-- A run ends before a character to stop at. -/
theorem Packet.RunsTo.lt {stop : UInt8 → Bool} {ptr b : ℕ} (h : q.RunsTo stop ptr j) (hb : ptr ≤ b)
    (hstop : stop (q.byte b) = true) : j < b :=
  Nat.lt_of_not_le fun hle ↦ Bool.false_ne_true ((h.2 b hb hle).symm.trans hstop)

/-- The URI run stays in the frame if the URI ends there. -/
theorem UriCloses.lt (h : UriCloses q base) (hw : UriWrites q base j) : j < q.pktLen := by
  obtain ⟨len, ptr, http, hstart, hhttp, hrun, hj, hlen, -⟩ := hw
  obtain ⟨i, hat, rfl⟩ := uriAt_of_uriStart hstart
  have hle := hrun.1
  rcases h i _ hat with hi | ⟨b, hb, hin, hblank⟩ | hbefore
  · omega
  · exact (hrun.lt hb (by simp [isBlank, hblank])).trans hin
  · exact hj.trans_le (hbefore http hhttp)

/-- The Referer run stays in the frame if the Referer value ends there. -/
theorem RefererCloses.lt (h : RefererCloses q base) (hw : RefererWrites q base j) :
    j < q.pktLen := by
  obtain ⟨i, hfirst, hrun, hj, hlen, -⟩ := hw
  rcases h i hfirst with hi | ⟨b, hb, hin, hstop⟩ | hlong
  · omega
  · exact (hrun.lt hb hstop).trans hin
  · exact hj.trans_le hlong

end Writes

/-- `Host: a`, and behind it `GET /b HTTP` and `Referer: http://c`; the memory goes on without an
end of these fields. -/
def closedFields : Packet :=
  ⟨List.replicate 46 0 ++ 0x50 :: List.replicate 7 0 ++
    ([72, 111, 115, 116, 58, 32, 97, 13] ++ (kwGet ++ [32, 47, 98, 32] ++ kwHttp ++ [13]) ++
      (kwRefer ++ [69, 82, 58, 32, 104, 116, 116, 112, 58, 47, 47, 99, 13])) ++ List.replicate 100
        98, 92, by decide +kernel⟩

/-- `Host: a`, and `GET ` at the end of the frame; `b HTTP` is in the memory behind it. -/
def lateGet : Packet :=
  ⟨List.replicate 46 0 ++ 0x50 :: List.replicate 7 0 ++
    ([72, 111, 115, 116, 58, 32, 97, 13] ++ kwGet ++ [32]) ++ ([98, 32] ++ kwHttp), 66, by decide⟩

end AlphaMon
