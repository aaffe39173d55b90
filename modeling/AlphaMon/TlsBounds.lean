import AlphaMon.FrameBytes
import AlphaMon.ProtoFinder
import AlphaMon.Runs.Traced
import AlphaMon.SniObfuscation

/-!
# Where the TLS module reads and writes

The functions of `tls_mng.c` and `isTls` once more, as traced computations: with every access to the
packet, and every name that is handed to `table_add`.  Their values are those of the plain functions
(`isTlsTraced_value`, `tlsHelloEntryTraced_value`).

The parser only moves forward, so that it stays in the packet exactly when the last thing it looks
at ends there (`Looks`).  What that asks of the message is a matter of its format: `HelloIn` says
that a frame holds the parts of a ClientHello up to its first server name, each as long as its
length says, and `tls_inside_iff` that the parser stays in the packet of just these messages.
-/

set_option autoImplicit false

namespace AlphaMon

open CString Traced

/-- An access to memory. -/
inductive MemEvent where
  /-- A byte of the packet is read or written. -/
  | packet (i : ℕ)
  /-- A name is handed to `table_add`, which copies it. -/
  | tableAdd (name : List UInt8)

/-- The access is to a byte of the frame, and a name that is copied fits. -/
def MemEvent.Inside (pktLen : ℕ) : MemEvent → Prop
  | .packet i => i < pktLen
  | .tableAdd name => name.length < nameDns

instance (pktLen : ℕ) (e : MemEvent) : Decidable (e.Inside pktLen) := by
  cases e <;> exact inferInstanceAs (Decidable (_ < _))

/-- The accesses to `n` bytes from a position on. -/
def accesses (i n : ℕ) : List MemEvent := (List.range' i n).map .packet

/-- A value for which `n` bytes from a position on are accessed. -/
abbrev reading {α : Type} (a : α) (i n : ℕ) : Traced MemEvent α := ⟨a, accesses i n⟩

namespace Packet

/-- Read a byte. -/
abbrev readByte (p : Packet) (i : ℕ) : Traced MemEvent UInt8 := reading (p.byte i) i 1

/-- Read two bytes. -/
abbrev readNtohs (p : Packet) (i : ℕ) : Traced MemEvent ℕ := reading (p.ntohs i) i 2

/-- Read a C string, with the `0` behind it. -/
abbrev readText (p : Packet) (i : ℕ) : Traced MemEvent (List UInt8) :=
  reading (p.text i) i ((p.text i).length + 1)

end Packet

theorem stays_reading {α : Type} {a : α} {i n m : ℕ} :
    (reading a i n).Stays (MemEvent.Inside m) ↔ n = 0 ∨ i + n ≤ m := by
  rw [stays_mk, accesses, List.forall_mem_map]
  constructor
  · intro h
    rcases Nat.eq_zero_or_pos n with h0 | hpos
    · exact .inl h0
    · have hlast : i + n - 1 < m := h (i + n - 1) (List.mem_range'_1.2 (by omega))
      exact .inr (by omega)
  · intro h j hj
    have hj' := List.mem_range'_1.1 hj
    show j < m
    omega

/-! ## The functions, traced -/

/-- `isTls`.  The addresses are copied first; the minor version is only read when the major is not
3. -/
def isTlsTraced (packet : Packet) (protocol : ℕ) : Traced MemEvent ℕ := do
  reading () 26 8
  let offset ← packet.readByte 46
  let tlsH := offsetExtractorTls protocol offset
  if tlsH = 0 then pure 1
  else do
    let rt ← packet.readByte tlsH
    if rt ≠ 22 then pure 1
    else do
      let protv1 ← packet.readByte (tlsH + 1)
      let wrong ←
        if protv1 ≠ 3 then do
          let protv2 ← packet.readByte (tlsH + 2)
          pure (decide (protv2 ≠ 1 ∨ protv2 ≠ 3))
        else pure false
      if wrong then pure 1
      else do
        let ht ← packet.readByte (tlsH + 5)
        if ht ≠ 1 then pure 1 else pure 0

/-- The loop over the extensions. -/
def extLoopTraced (packet : Packet) (maxchar : ℕ) : ℕ → ℕ → Traced MemEvent (ℕ ⊕ ℕ)
  | 0, curr => pure (.inr curr)
  | fuel + 1, curr =>
    if curr < maxchar then do
      let extType ← packet.readNtohs curr
      let extLen ← packet.readNtohs (curr + 2)
      if extType = 0 then pure (.inl (curr + 4))
      else extLoopTraced packet maxchar fuel (curr + 4 + extLen)
    else pure (.inr curr)

/-- What is done with a name of the right length, and what `table_add` made of it. -/
def nameEntryTraced (packet : Packet) (curr : ℕ) (kAnon : ℤ) (env : HandlerEnv)
    (name : List UInt8) :
    Option (HashStruct × ℤ) → Traced MemEvent (Option HandlerResult)
  | none => ⟨none, [.tableAdd name]⟩
  | some (db, ret) => do
    (⟨(), [.tableAdd name]⟩ : Traced MemEvent Unit)
    if ret < kAnon then do
      reading () curr name.length
      pure (some ⟨packet.mask (· == 46) (env.tsc 0) name.length curr, 1, db, some (name, ret)⟩)
    else pure (some ⟨packet, 0, db, some (name, ret)⟩)

/-- The body of the server name extension. -/
def sniEntryTraced (packet : Packet) (curr : ℕ) (newPacket : Flow) (flowDb : HashStruct)
    (kAnon kDelta : ℤ) (env : HandlerEnv) : Traced MemEvent (Option HandlerResult) := do
  let namelen ← packet.readNtohs (curr + 3)
  let curr := curr + 5
  if namelen = 0 then pure (some ⟨packet, 0, flowDb, none⟩)
  else do
    let name ← packet.readText curr
    if namelen ≠ name.length then pure (some ⟨packet, 0, flowDb, none⟩)
    else do
      let added := tableAdd flowDb newPacket name kAnon kDelta env.table
      nameEntryTraced packet curr kAnon env name added

/-- `tlsHelloEntry`. -/
def tlsHelloEntryTraced (packet : Packet) (protocol : ℕ) (offset : UInt8) (newPacket : Flow)
    (flowDb : HashStruct) (kAnon kDelta : ℤ) (env : HandlerEnv) :
    Traced MemEvent (Option HandlerResult) := do
  let bytes := offsetExtractorTls protocol offset
  let sidlen ← packet.readByte (bytes + 43)
  let curr := bytes + 1 + 43 + sidlen.toNat
  let cslen ← packet.readNtohs curr
  let curr := curr + (2 + cslen)
  let cmplen ← packet.readByte curr
  let curr := curr + (1 + cmplen.toNat)
  let extlen ← packet.readNtohs curr
  let maxchar := curr + 2 + extlen
  let curr := curr + 2
  match ← extLoopTraced packet maxchar (maxchar - curr) curr with
  | .inl curr => sniEntryTraced packet curr newPacket flowDb kAnon kDelta env
  | .inr curr => pure (some ⟨packet, if curr ≠ maxchar then 0 else env.noReturn, flowDb, none⟩)

section Values

variable {packet : Packet}

theorem isTlsTraced_value (packet : Packet) (protocol : ℕ) :
    (isTlsTraced packet protocol).value = isTls packet protocol := by
  rw [isTlsTraced, isTls, tlsHeaderExtractor]
  simp only [value_bind, value_ite, value_pure]
  split
  · rfl
  · simp only
    generalize packet.byte (offsetExtractorTls protocol (packet.byte 46) + 1) = major
    by_cases hmajor : major = 3
    · simp [hmajor]
    · simp [hmajor]

theorem extLoopTraced_value (maxchar fuel curr : ℕ) :
    (extLoopTraced packet maxchar fuel curr).value = extLoop packet maxchar fuel curr := by
  induction fuel generalizing curr with
  | zero => rfl
  | succ fuel ih =>
    rw [extLoopTraced, extLoop]
    split
    · simp only [value_bind, value_ite, ih, value_pure]
    · rfl

theorem sniEntryTraced_value (curr : ℕ) (newPacket : Flow) (flowDb : HashStruct) (kAnon kDelta : ℤ)
    (env : HandlerEnv) : (sniEntryTraced packet curr newPacket flowDb kAnon kDelta env).value =
      sniEntry packet curr newPacket flowDb kAnon kDelta env := by
  rw [sniEntryTraced, sniEntry]
  simp only [value_bind, value_ite, value_pure]
  by_cases hzero : packet.ntohs (curr + 3) = 0
  · rw [if_pos hzero, if_pos (.inl hzero)]
  by_cases hlen : packet.ntohs (curr + 3) ≠ (packet.text (curr + 5)).length
  · rw [if_neg hzero, if_pos hlen, if_pos (.inr hlen)]
  rw [if_neg hzero, if_neg hlen, if_neg (not_or.2 ⟨hzero, hlen⟩)]
  generalize tableAdd flowDb newPacket (packet.text (curr + 5)) kAnon kDelta env.table = added
  rw [not_not.1 hlen]
  cases added with
  | none => simp only [nameEntryTraced, Option.bind_eq_bind, Option.bind_none]
  | some r =>
    simp only [nameEntryTraced, value_bind, value_ite, value_pure, Option.bind_eq_bind,
      Option.bind_some]

/-- **The traced function computes what `tlsHelloEntry` does.** -/
theorem tlsHelloEntryTraced_value (packet : Packet) (protocol : ℕ) (offset : UInt8)
    (newPacket : Flow) (flowDb : HashStruct) (kAnon kDelta : ℤ) (env : HandlerEnv) :
    (tlsHelloEntryTraced packet protocol offset newPacket flowDb kAnon kDelta env).value =
      tlsHelloEntry packet protocol offset newPacket flowDb kAnon kDelta env := by
  rw [tlsHelloEntryTraced, tlsHelloEntry]
  simp only [value_bind, extLoopTraced_value]
  generalize extLoop packet _ _ _ = stop
  cases stop with
  | inl curr => exact sniEntryTraced_value ..
  | inr curr => simp only [value_pure]

end Values

/-! ## How far the parser looks -/

/-- Where the parser stops looking: `Looks p maxchar r c e host` says that from the extension at
`c`, everything before `r` having been looked at, it goes on until it has looked at everything
before `e`, and hands the name `host` to `table_add`, if any. -/
inductive Looks (p : Packet) (maxchar : ℕ) : ℕ → ℕ → ℕ → Option (List UInt8) → Prop
  /-- There is no further extension. -/
  | stop {r c : ℕ} : maxchar ≤ c → Looks p maxchar r c r none
  /-- An extension before the server name: its header is read. -/
  | skip {r c e : ℕ} {host : Option (List UInt8)} : c < maxchar → p.ntohs c ≠ 0 →
      Looks p maxchar (c + 4) (c + 4 + p.ntohs (c + 2)) e host → Looks p maxchar r c e host
  /-- A host name of length 0: its length is read. -/
  | noName {r c : ℕ} : c < maxchar → p.ntohs c = 0 → p.ntohs (c + 7) = 0 →
    Looks p maxchar r c (c + 9) none
  /-- A host name whose length is not that of the C string at its first byte: the string is read. -/
  | wrongName {r c : ℕ} : c < maxchar → p.ntohs c = 0 → p.ntohs (c + 7) ≠ 0 →
      p.ntohs (c + 7) ≠ (p.text (c + 9)).length →
      Looks p maxchar r c (c + 9 + ((p.text (c + 9)).length + 1)) none
  /-- A host name. -/
  | name {r c : ℕ} : c < maxchar → p.ntohs c = 0 → p.ntohs (c + 7) ≠ 0 →
      p.ntohs (c + 7) = (p.text (c + 9)).length →
      Looks p maxchar r c (c + 9 + ((p.text (c + 9)).length + 1)) (some (p.text (c + 9)))

/-- The parser of a ClientHello at `base` looks at everything before `e`, and hands over `host`. -/
def HelloLooks (p : Packet) (base e : ℕ) (host : Option (List UInt8)) : Prop :=
  let ciphers := base + 1 + 43 + (p.byte (base + 43)).toNat
  let compression := ciphers + (2 + p.ntohs ciphers)
  let extensions := compression + (1 + (p.byte compression).toNat)
  Looks p (extensions + 2 + p.ntohs extensions) (extensions + 2) (extensions + 2) e host

/-- The walk with its four positions given. -/
theorem helloLooks_iff {p : Packet} {base ciphers compression extensions e : ℕ}
    {host : Option (List UInt8)} (h₁ : ciphers = base + 44 + (p.byte (base + 43)).toNat)
    (h₂ : compression = ciphers + 2 + p.ntohs ciphers)
    (h₃ : extensions = compression + 1 + (p.byte compression).toNat) : HelloLooks p base e host ↔
      Looks p (extensions + 2 + p.ntohs extensions) (extensions + 2) (extensions + 2) e host := by
  obtain rfl : ciphers = base + 1 + 43 + (p.byte (base + 43)).toNat := h₁
  obtain rfl : compression = _ := h₂.trans (Nat.add_assoc ..)
  obtain rfl : extensions = _ := h₃.trans (Nat.add_assoc ..)
  rfl

section Bounds

variable {packet : Packet} {newPacket : Flow} {flowDb : HashStruct} {kAnon kDelta : ℤ}
  {env : HandlerEnv}

/-- What the parser has looked at only grows. -/
theorem Looks.le {maxchar r c e : ℕ} {host : Option (List UInt8)}
    (h : Looks packet maxchar r c e host) (hrc : r ≤ c) : r ≤ e := by
  induction h with
  | stop => exact le_rfl
  | skip _ _ _ ih => exact le_trans (by omega) (ih (by omega))
  | noName => omega
  | wrongName => omega
  | name => omega

/-- The parser looks at one thing last. -/
theorem Looks.unique {maxchar r c e e' : ℕ} {host host' : Option (List UInt8)}
    (h : Looks packet maxchar r c e host) (h' : Looks packet maxchar r c e' host') :
    e = e' ∧ host = host' := by
  induction h with
  | stop hc =>
    cases h' with
    | stop => exact ⟨rfl, rfl⟩
    | skip hc' | noName hc' | wrongName hc' | name hc' => exact absurd hc' (Nat.not_lt.2 hc)
  | skip hc htype _ ih =>
    cases h' with
    | stop hc' => exact absurd hc (Nat.not_lt.2 hc')
    | skip _ _ h' => exact ih h'
    | noName _ htype' | wrongName _ htype' | name _ htype' => exact absurd htype' htype
  | noName hc htype hzero =>
    cases h' with
    | stop hc' => exact absurd hc (Nat.not_lt.2 hc')
    | skip _ htype' => exact absurd htype htype'
    | noName => exact ⟨rfl, rfl⟩
    | wrongName _ _ hzero' | name _ _ hzero' => exact absurd hzero hzero'
  | wrongName hc htype hzero hlen =>
    cases h' with
    | stop hc' => exact absurd hc (Nat.not_lt.2 hc')
    | skip _ htype' => exact absurd htype htype'
    | noName _ _ hzero' => exact absurd hzero' hzero
    | wrongName => exact ⟨rfl, rfl⟩
    | name _ _ _ hlen' => exact absurd hlen' hlen
  | name hc htype hzero hlen =>
    cases h' with
    | stop hc' => exact absurd hc (Nat.not_lt.2 hc')
    | skip _ htype' => exact absurd htype htype'
    | noName _ _ hzero' => exact absurd hzero' hzero
    | wrongName _ _ _ hlen' => exact absurd hlen hlen'
    | name => exact ⟨rfl, rfl⟩

/-- A name that is handed to `table_add`. -/
theorem nameEntryTraced_stays {curr m : ℕ} {name : List UInt8} (h : curr + name.length ≤ m)
    (added : Option (HashStruct × ℤ)) :
    (nameEntryTraced packet curr kAnon env name added).Stays (MemEvent.Inside m) ↔
      name.length < nameDns := by
  have hname : (∀ e ∈ [MemEvent.tableAdd name], e.Inside m) ↔ name.length < nameDns :=
    List.forall_mem_singleton
  cases added with
  | none => exact hname
  | some r =>
    rw [nameEntryTraced, stays_bind, stays_mk, hname]
    by_cases hret : r.2 < kAnon
    · rw [if_pos hret, stays_bind, stays_reading]
      exact and_iff_left ⟨.inr h, stays_pure _⟩
    · rw [if_neg hret]
      exact and_iff_left (stays_pure _)

/-- **The body of the server name extension** stays inside if all that is looked at is inside. -/
theorem sniEntryTraced_stays {maxchar r c m : ℕ} (hc : c < maxchar) (htype : packet.ntohs c = 0) :
    ∃ e host, Looks packet maxchar r c e host ∧ c + 9 ≤ e ∧
      ((sniEntryTraced packet (c + 4) newPacket flowDb kAnon kDelta env).Stays (MemEvent.Inside m) ↔
        e ≤ m ∧ ∀ name ∈ host, name.length < nameDns) := by
  rw [sniEntryTraced, stays_bind, stays_reading]
  by_cases hzero : packet.ntohs (c + 7) = 0
  · refine ⟨_, _, .noName hc htype hzero, le_rfl, ?_⟩
    rw [if_pos hzero, iff_true_intro (stays_pure _)]
    simp
  rw [if_neg hzero, stays_bind, stays_reading]
  by_cases hlen : packet.ntohs (c + 7) ≠ (packet.text (c + 9)).length
  · refine ⟨_, _, .wrongName hc htype hzero hlen, by omega, ?_⟩
    rw [if_pos hlen, iff_true_intro (stays_pure _)]
    simp
    omega
  · refine ⟨_, _, .name hc htype hzero (not_not.1 hlen), by omega, ?_⟩
    rw [if_neg hlen, show c + 4 + 5 = c + 9 from rfl]
    constructor
    · rintro ⟨-, htext, hname⟩
      have hle : c + 9 + (packet.text (c + 9)).length ≤ m := by omega
      exact ⟨by omega, fun name h ↦ Option.mem_some.1 h ▸ (nameEntryTraced_stays hle _).1 hname⟩
    · rintro ⟨he, hname⟩
      have hle : c + 9 + (packet.text (c + 9)).length ≤ m := by omega
      exact ⟨by omega, by omega, (nameEntryTraced_stays hle _).2 (hname _ rfl)⟩

/-- **The loop over the extensions** stays inside, with what follows, if all that is looked at is
inside. -/
theorem extLoopTraced_stays {maxchar m : ℕ} {f : ℕ ⊕ ℕ → Traced MemEvent (Option HandlerResult)}
    (hsni : ∀ r c, c < maxchar → packet.ntohs c = 0 → ∃ e host, Looks packet maxchar r c e host ∧
      c + 9 ≤ e ∧
      ((f (.inl (c + 4))).Stays (MemEvent.Inside m) ↔ e ≤ m ∧ ∀ name ∈ host, name.length < nameDns))
    (hend : ∀ c, (f (.inr c)).Stays (MemEvent.Inside m)) {fuel r c : ℕ} (hrc : r ≤ c)
    (hfuel : maxchar - c ≤ fuel) :
    ∃ e host, Looks packet maxchar r c e host ∧
      (r ≤ m ∧ (extLoopTraced packet maxchar fuel c >>= f).Stays (MemEvent.Inside m) ↔
        e ≤ m ∧ ∀ name ∈ host, name.length < nameDns) := by
  induction fuel generalizing r c with
  | zero =>
    refine ⟨_, _, .stop (by omega), and_congr_right fun _ ↦ iff_of_true ?_ (by simp)⟩
    exact stays_bind.2 ⟨stays_pure _, hend c⟩
  | succ fuel ih =>
    by_cases hc : c < maxchar
    · rw [extLoopTraced, if_pos hc]
      by_cases htype : packet.ntohs c = 0
      · obtain ⟨e, host, hlooks, hle, hiff⟩ := hsni r c hc htype
        refine ⟨e, host, hlooks, ?_⟩
        rw [stays_bind, stays_bind, stays_bind, stays_reading, stays_reading, value_bind,
          value_bind,
          if_pos htype, value_pure]
        constructor
        · exact fun h ↦ hiff.1 h.2.2
        · exact fun h ↦ ⟨by omega, ⟨by omega, by omega, stays_pure _⟩, hiff.2 h⟩
      · obtain ⟨e, host, hlooks, hiff⟩ := ih (r := c + 4) (c := c + 4 + packet.ntohs (c + 2))
          (by omega) (by omega)
        have hle := hlooks.le (by omega)
        refine ⟨e, host, .skip hc htype hlooks, ?_⟩
        rw [stays_bind, stays_bind, stays_bind, stays_reading, stays_reading, value_bind,
          value_bind,
          if_neg htype]
        rw [stays_bind] at hiff
        constructor
        · exact fun h ↦ hiff.1 ⟨by omega, h.2.1.2.2, h.2.2⟩
        · intro h
          obtain ⟨-, hloop, hrest⟩ := hiff.2 h
          exact ⟨by omega, ⟨by omega, by omega, hloop⟩, hrest⟩
    · rw [extLoopTraced, if_neg hc]
      refine ⟨_, _, .stop (by omega), and_congr_right fun _ ↦ iff_of_true ?_ (by simp)⟩
      exact stays_bind.2 ⟨stays_pure _, hend c⟩

/-- **`tlsHelloEntry` stays inside** exactly when all that it looks at is inside. -/
theorem tlsHelloEntryTraced_stays (packet : Packet) (protocol : ℕ) (offset : UInt8) (m : ℕ) :
    ∃ e host, HelloLooks packet (offsetExtractorTls protocol offset) e host ∧
      offsetExtractorTls protocol offset + 44 ≤ e ∧
      ((tlsHelloEntryTraced packet protocol offset newPacket flowDb kAnon kDelta env).Stays
          (MemEvent.Inside m) ↔
        e ≤ m ∧ ∀ name ∈ host, name.length < nameDns) := by
  unfold HelloLooks
  rw [tlsHelloEntryTraced]
  generalize offsetExtractorTls protocol offset = base
  simp only
  rw [stays_bind, stays_reading, stays_bind, stays_reading, stays_bind, stays_reading, stays_bind,
    stays_reading]
  have hciphers : base + 44 ≤ base + 1 + 43 + (packet.byte (base + 43)).toNat := by omega
  generalize base + 1 + 43 + (packet.byte (base + 43)).toNat = ciphers at hciphers ⊢
  generalize hcomp : ciphers + (2 + packet.ntohs ciphers) = compression
  generalize hexts : compression + (1 + (packet.byte compression).toNat) = extensions
  generalize hmax : extensions + 2 + packet.ntohs extensions = maxchar
  obtain ⟨e, host, hlooks, hiff⟩ := extLoopTraced_stays (m := m)
    (f := fun x ↦ match x with
      | .inl curr => sniEntryTraced packet curr newPacket flowDb kAnon kDelta env
      | .inr curr => pure (some ⟨packet, if curr ≠ maxchar then 0 else env.noReturn, flowDb, none⟩))
    (fun r c hc htype ↦ sniEntryTraced_stays hc htype) (fun c ↦ stays_pure _)
    (le_refl (extensions + 2)) (le_refl (maxchar - (extensions + 2)))
  have hle := hlooks.le le_rfl
  refine ⟨e, host, hlooks, by omega, ?_⟩
  constructor
  · rintro ⟨-, -, -, hlen, hloop⟩
    exact hiff.1 ⟨by omega, hloop⟩
  · intro h
    exact ⟨by omega, by omega, by omega, by omega, (hiff.2 h).2⟩

/-- **What `isTls` reads of a packet that it accepts** is before the end of the ClientHello. -/
theorem isTlsTraced_stays {m : ℕ} (h : isTls packet 0 = 0)
    (hm : offsetExtractorTls 0 (packet.byte 46) + 44 ≤ m) :
    (isTlsTraced packet 0).Stays (MemEvent.Inside m) := by
  obtain ⟨hrt, hmajor, hht⟩ : packet.StartsHello (offsetExtractorTls 0 (packet.byte 46)) :=
    isTls_eq_zero_iff.1 h
  have hge : 34 ≤ offsetExtractorTls 0 (packet.byte 46) := payloadOffset_ge 0 (packet.byte 46)
  have hnot : ¬offsetExtractorTls 0 (packet.byte 46) = 0 := by omega
  rw [isTlsTraced]
  simp only
  rw [stays_bind, stays_reading, stays_bind, stays_reading, if_neg hnot, stays_bind, stays_reading,
    if_neg (not_not.2 hrt), stays_bind, stays_reading, if_neg (not_not.2 hmajor), stays_bind,
    value_pure, if_neg Bool.false_ne_true, stays_bind, stays_reading, if_neg (not_not.2 hht)]
  have hread : ∀ k < 44, offsetExtractorTls 0 (packet.byte 46) + k + 1 ≤ m := fun k hk ↦ by omega
  exact ⟨by omega, by omega, .inr (hread 0 (by decide)), .inr (hread 1 (by decide)), stays_pure _,
    .inr (hread 5 (by decide)), stays_pure _⟩

/-- The TLS module stays inside: what `isTls` and `tlsHelloEntry` read and write is in the frame,
and the name that is copied fits. -/
def TlsInside (packet : Packet) (newPacket : Flow) (flowDb : HashStruct) (kAnon kDelta : ℤ)
    (env : HandlerEnv) : Prop :=
  (isTlsTraced packet 0).Stays (MemEvent.Inside packet.pktLen) ∧
    (tlsHelloEntryTraced packet 0 (packet.byte 46) newPacket flowDb kAnon kDelta env).Stays
      (MemEvent.Inside packet.pktLen)

/-- The TLS module stays inside exactly when all that the parser looks at is in the frame. -/
theorem tlsInside_iff_looks (h : isTls packet 0 = 0) :
    TlsInside packet newPacket flowDb kAnon kDelta env ↔
      ∃ e host, HelloLooks packet (payloadOffset 0 (packet.byte 46)) e host ∧ e ≤ packet.pktLen ∧
        ∀ name ∈ host, name.length < nameDns := by
  obtain ⟨e, host, hlooks, hle, hiff⟩ :=
    tlsHelloEntryTraced_stays packet 0 (packet.byte 46) packet.pktLen
  constructor
  · intro hin
    exact ⟨e, host, hlooks, hiff.1 hin.2⟩
  · rintro ⟨e', host', hlooks', hin⟩
    obtain ⟨rfl, rfl⟩ := hlooks.unique hlooks'
    exact ⟨isTlsTraced_stays h (hle.trans hin.1), hiff.2 hin⟩

end Bounds

/-! ## Messages that are complete down to the server name -/

/-- A host name in the bytes from its length on: there is none, or it is text that ends with a `0`,
and if it is as long as it is said to be, it is short. -/
inductive HostNameIn : List UInt8 → Prop
  | none (rest : List UInt8) : HostNameIn (be16 0 ++ rest)
  | text {n : ℕ} {host rest : List UInt8} : 0 < n → n < 2 ^ 16 → 0 ∉ host →
      (n = host.length → n < nameDns) → HostNameIn (be16 n ++ (host ++ 0 :: rest))

/-- The first `n` bytes are extensions, up to the first server name.  The body of an extension needs
to be there only as far as something follows it. -/
inductive ExtensionsIn : ℕ → List UInt8 → Prop
  | done (rest : List UInt8) : ExtensionsIn 0 rest
  | other {n type len : ℕ} {rest : List UInt8} : 0 < n → 0 < type → type < 2 ^ 16 → len < 2 ^ 16 →
      ExtensionsIn (n - (4 + len)) (rest.drop len) →
        ExtensionsIn n (be16 type ++ (be16 len ++ rest))
  | serverName {n len : ℕ} {list rest : List UInt8} : 0 < n → len < 2 ^ 16 → list.length = 3 →
      HostNameIn rest → ExtensionsIn n (be16 0 ++ (be16 len ++ (list ++ rest)))

/-- A record with a ClientHello: its headers, version and random, and then the session id, the
cipher suites, the compression methods and the extensions, each behind its length. -/
inductive HelloIn : List UInt8 → Prop
  | mk {head sessionId cipherSuites compression extensions : List UInt8} {n : ℕ} :
    head.length = 43 →
      sessionId.length < 2 ^ 8 → cipherSuites.length < 2 ^ 16 → compression.length < 2 ^ 8 →
        n < 2 ^ 16 →
      ExtensionsIn n extensions →
      HelloIn (head ++ (UInt8.ofNat sessionId.length :: (sessionId ++ (be16 cipherSuites.length ++
        (cipherSuites ++ (UInt8.ofNat compression.length ::
          (compression ++ (be16 n ++ extensions))))))))

section Format

variable {packet : Packet} {maxchar : ℕ}

/-- A host name in the frame, as the parser looks at it. -/
theorem hostNameIn_iff {c : ℕ} : HostNameIn (packet.frameFrom c) ↔
    (packet.ntohs c = 0 ∧ c + 2 ≤ packet.pktLen) ∨
      (packet.ntohs c ≠ 0 ∧ c + 2 + ((packet.text (c + 2)).length + 1) ≤ packet.pktLen ∧
        (packet.ntohs c = (packet.text (c + 2)).length →
          (packet.text (c + 2)).length < nameDns)) := by
  constructor
  · intro h
    generalize hl : packet.frameFrom c = l at h
    cases h with
    | none rest =>
      obtain ⟨hle, hzero, -⟩ := (Packet.frameFrom_eq_be16 (by decide)).1 hl
      exact .inl ⟨hzero, hle⟩
    | @text n host rest hpos hn h0 hshort =>
      obtain ⟨hle, rfl, hl₂⟩ := (Packet.frameFrom_eq_be16 hn).1 hl
      rw [List.append_cons, Packet.frameFrom_eq_append (by simp), reads_append, List.length_append,
        List.length_singleton] at hl₂
      obtain ⟨hend, ⟨hhost, hzero⟩, -⟩ := hl₂
      have htext : packet.text (c + 2) = host := cstr_eq_iff.2 ⟨hhost, h0, (reads_cons.1 hzero).1⟩
      rw [htext]
      exact .inr ⟨hpos.ne', hend, fun heq ↦ heq ▸ hshort heq⟩
  · rintro (⟨hzero, hle⟩ | ⟨hpos, hend, hshort⟩)
    · rw [(Packet.frameFrom_eq_be16 (by decide)).2 ⟨hle, hzero, rfl⟩]
      exact .none _
    · obtain ⟨hhost, h0, hzero⟩ := cstr_eq_iff.1 (rfl : packet.text (c + 2) = _)
      have hl : packet.frameFrom (c + 2) =
          packet.text (c + 2) ++ 0 :: packet.frameFrom
            (c + 2 + ((packet.text (c + 2)).length + 1)) := by
        rw [List.append_cons, Packet.frameFrom_eq_append (by simp), reads_append,
          List.length_append,
          List.length_singleton]
        exact ⟨hend, ⟨hhost, reads_cons.2 ⟨hzero, reads_nil _ _⟩⟩, rfl⟩
      rw [(Packet.frameFrom_eq_be16 (packet.ntohs_lt c)).2 ⟨by omega, rfl, hl⟩]
      exact .text (Nat.pos_of_ne_zero hpos) (packet.ntohs_lt c) h0 fun heq ↦ heq ▸ hshort heq

/-- What the parser looks at in complete extensions is in the frame. -/
theorem ExtensionsIn.looks {n : ℕ} {l : List UInt8} (h : ExtensionsIn n l) {r c : ℕ}
    (hn : n = maxchar - c) (hl : packet.frameFrom c = l) (hr : r ≤ packet.pktLen) :
    ∃ e host, Looks packet maxchar r c e host ∧ e ≤ packet.pktLen ∧ ∀ name ∈ host,
      name.length < nameDns := by
  induction h generalizing r c with
  | done rest => exact ⟨_, _, .stop (by omega), hr, by simp⟩
  | other hpos htype htype' hlen _ ih =>
    obtain ⟨-, rfl, hl₂⟩ := (Packet.frameFrom_eq_be16 htype').1 hl
    obtain ⟨hle, rfl, rfl⟩ := (Packet.frameFrom_eq_be16 hlen).1 hl₂
    obtain ⟨e, host, hlooks, hin⟩ := ih (c := c + 2 + 2 + packet.ntohs (c + 2)) (by omega)
      (Packet.frameFrom_drop ..).symm hle
    exact ⟨e, host, .skip (by omega) htype.ne' hlooks, hin⟩
  | serverName hpos hlen hlist hname =>
    obtain ⟨-, htype, hl₂⟩ := (Packet.frameFrom_eq_be16 (by decide)).1 hl
    obtain ⟨-, -, hl₄⟩ := (Packet.frameFrom_eq_be16 hlen).1 hl₂
    obtain ⟨-, -, rfl⟩ := (Packet.frameFrom_eq_append (by rintro rfl; simp at hlist)).1 hl₄
    rw [hlist] at hname
    have hc : c < maxchar := by omega
    rcases hostNameIn_iff.1 hname with ⟨hzero, hle⟩ | ⟨hne, hle, hshort⟩
    · exact ⟨_, _, .noName hc htype hzero, hle, by simp⟩
    · by_cases heq : packet.ntohs (c + 7) = (packet.text (c + 9)).length
      · exact ⟨_, _, .name hc htype hne heq, hle, fun name h ↦ Option.mem_some.1 h ▸ hshort heq⟩
      · exact ⟨_, _, .wrongName hc htype hne heq, hle, by simp⟩

/-- Extensions are complete if what the parser looks at is in the frame. -/
theorem Looks.extensionsIn {r c e : ℕ} {host : Option (List UInt8)}
    (h : Looks packet maxchar r c e host) (he : e ≤ packet.pktLen)
    (hhost : ∀ name ∈ host, name.length < nameDns) :
    ExtensionsIn (maxchar - c) (packet.frameFrom c) := by
  -- the server name extension, of which the name is what it has to be
  have hsni : ∀ {c}, c < maxchar → packet.ntohs c = 0 → c + 9 ≤ packet.pktLen →
      HostNameIn (packet.frameFrom (c + 7)) → ExtensionsIn (maxchar - c) (packet.frameFrom c) := by
    intro c hc htype hle hname
    obtain ⟨list, hlist, hl⟩ := Packet.frameFrom_eq_bytes (show c + 4 + 3 ≤ packet.pktLen by omega)
    rw [(Packet.frameFrom_eq_be16 (by decide)).2 ⟨by omega, htype, rfl⟩,
      (Packet.frameFrom_eq_be16 (packet.ntohs_lt (c + 2))).2 ⟨by omega, rfl, hl⟩]
    exact .serverName (by omega) (packet.ntohs_lt _) hlist hname
  induction h with
  | @stop r c hc =>
    rw [Nat.sub_eq_zero_of_le hc]
    exact .done _
  | @skip r c e host hc htype hlooks ih =>
    have hle := hlooks.le (by omega)
    rw [(Packet.frameFrom_eq_be16 (packet.ntohs_lt c)).2 ⟨by omega, rfl, rfl⟩,
      (Packet.frameFrom_eq_be16 (packet.ntohs_lt (c + 2))).2 ⟨by omega, rfl, rfl⟩]
    refine .other (by omega) (Nat.pos_of_ne_zero htype) (packet.ntohs_lt _) (packet.ntohs_lt _) ?_
    rw [Packet.frameFrom_drop, Nat.sub_sub, ← Nat.add_assoc c 4]
    exact ih he hhost
  | noName hc htype hzero => exact hsni hc htype he (hostNameIn_iff.2 (.inl ⟨hzero, he⟩))
  | wrongName hc htype hne hlen =>
    exact hsni hc htype (by omega) (hostNameIn_iff.2 (.inr ⟨hne, he, fun heq ↦ absurd heq hlen⟩))
  | name hc htype hne hlen =>
    exact hsni hc htype (by omega) (hostNameIn_iff.2 (.inr ⟨hne, he, fun _ ↦ hhost _ rfl⟩))

/-- **A ClientHello is complete** exactly when all that the parser looks at is in the frame. -/
theorem helloIn_iff {base : ℕ} : HelloIn (packet.frameFrom base) ↔
    ∃ e host, HelloLooks packet base e host ∧ e ≤ packet.pktLen ∧ ∀ name ∈ host,
      name.length < nameDns := by
  constructor
  · intro h
    generalize hl : packet.frameFrom base = l at h
    obtain ⟨hhead, hsid, hciphers, hcomp, hn, hexts⟩ := h
    obtain ⟨-, -, hl₁⟩ := (Packet.frameFrom_eq_append (by rintro rfl; simp at hhead)).1 hl
    rw [hhead] at hl₁
    obtain ⟨hle₁, hsid', hl₂⟩ := (Packet.frameFrom_eq_byte hsid).1 hl₁
    obtain ⟨-, hl₃⟩ := Packet.frameFrom_eq_part hle₁ hl₂
    rw [← hsid'] at hl₃
    generalize h₁ : base + 43 + 1 + (packet.byte (base + 43)).toNat = ciphers at hl₃
    obtain ⟨hle₃, hciphers', hl₄⟩ := (Packet.frameFrom_eq_be16 hciphers).1 hl₃
    obtain ⟨-, hl₅⟩ := Packet.frameFrom_eq_part hle₃ hl₄
    rw [← hciphers'] at hl₅
    generalize h₂ : ciphers + 2 + packet.ntohs ciphers = compression at hl₅
    obtain ⟨hle₅, hcomp', hl₆⟩ := (Packet.frameFrom_eq_byte hcomp).1 hl₅
    obtain ⟨-, hl₇⟩ := Packet.frameFrom_eq_part hle₅ hl₆
    rw [← hcomp'] at hl₇
    generalize h₃ : compression + 1 + (packet.byte compression).toNat = extensions at hl₇
    obtain ⟨hle₇, rfl, hl₈⟩ := (Packet.frameFrom_eq_be16 hn).1 hl₇
    obtain ⟨e, host, hlooks, hin⟩ := hexts.looks (Nat.add_sub_cancel_left ..).symm hl₈ hle₇
    exact ⟨e, host, (helloLooks_iff h₁.symm h₂.symm h₃.symm).2 hlooks, hin⟩
  · rintro ⟨e, host, hlooks, he, hhost⟩
    generalize h₁ : base + 44 + (packet.byte (base + 43)).toNat = ciphers
    generalize h₂ : ciphers + 2 + packet.ntohs ciphers = compression
    generalize h₃ : compression + 1 + (packet.byte compression).toNat = extensions
    have hlooks := (helloLooks_iff h₁.symm h₂.symm h₃.symm).1 hlooks
    have hle := hlooks.le le_rfl
    have hexts := hlooks.extensionsIn he hhost
    rw [Nat.add_sub_cancel_left] at hexts
    -- the parts, from the last one on
    have hlt := fun i ↦ (packet.byte i).toNat_lt
    obtain ⟨head, hhead, hl₀⟩ := Packet.frameFrom_eq_bytes (p := packet) (i := base) (n := 43)
      (by omega)
    obtain ⟨sid, hsid, hl₁⟩ := Packet.frameFrom_eq_bytes (p := packet) (i := base + 43 + 1)
      (n := (packet.byte (base + 43)).toNat) (by omega)
    obtain ⟨suites, hsuites, hl₂⟩ := Packet.frameFrom_eq_bytes (p := packet) (i := ciphers + 2)
      (n := packet.ntohs ciphers) (by omega)
    obtain ⟨comp, hcomp, hl₃⟩ := Packet.frameFrom_eq_bytes (p := packet) (i := compression + 1)
      (n := (packet.byte compression).toNat) (by omega)
    rw [show base + 43 + 1 = base + 44 from rfl, h₁] at hl₁
    rw [h₂] at hl₂
    rw [h₃] at hl₃
    rw [hl₀, (Packet.frameFrom_eq_byte (hsid ▸ hlt _)).2 ⟨by omega, hsid.symm, hl₁⟩,
      (Packet.frameFrom_eq_be16 (hsuites ▸ packet.ntohs_lt _)).2 ⟨by omega, hsuites.symm, hl₂⟩,
      (Packet.frameFrom_eq_byte (hcomp ▸ hlt _)).2 ⟨by omega, hcomp.symm, hl₃⟩,
      (Packet.frameFrom_eq_be16 (packet.ntohs_lt extensions)).2 ⟨by omega, rfl, rfl⟩]
    exact .mk hhead (hsid ▸ hlt _) (hsuites ▸ packet.ntohs_lt _) (hcomp ▸ hlt _)
      (packet.ntohs_lt _) hexts

end Format

/-- **TLS parsing stays inside the packet** exactly when the frame holds the ClientHello complete
down to its server name. -/
theorem tls_inside_iff {packet : Packet} (h : isTls packet 0 = 0) (newPacket : Flow)
    (flowDb : HashStruct) (kAnon kDelta : ℤ) (env : HandlerEnv) :
    TlsInside packet newPacket flowDb kAnon kDelta env ↔
      HelloIn (packet.frameFrom (payloadOffset 0 (packet.byte 46))) :=
  (tlsInside_iff_looks h).trans helloIn_iff.symm

/-- A ClientHello with the name `a.b`, and a `0` behind it that is in the frame. -/
theorem tls_inside_short :
    let h := ClientHello.short [⟨1, [], by decide, by decide⟩] (by decide)
    let p := h.frame.set 46 0x50
    TlsInside p tlsFlow tableInit 2 60 ⟨⟨0, true, true⟩, fun _ _ ↦ 0, fun _ ↦ true, 0⟩ := by
  intro h p
  let head : List UInt8 := [22, 3, 1, 0, 63, 1, 0, 0, 59] ++ List.replicate 34 7
  let session : List UInt8 := []
  let suites : List UInt8 := [19, 1]
  let methods : List UInt8 := [0]
  let extensions := be16 0 ++
    (be16 8 ++ ([0, 6, 0] ++ (be16 3 ++ ([97, 46, 98] ++ 0 :: [1, 0, 0]))))
  have hhello : p.frameFrom (payloadOffset 0 (p.byte 46)) =
      head ++ (UInt8.ofNat session.length :: (session ++ (be16 suites.length ++ (suites ++
        (UInt8.ofNat methods.length :: (methods ++ (be16 16 ++ extensions))))))) := by
          decide +kernel
  refine (tls_inside_iff (by decide +kernel) _ _ _ _ _).2 (hhello ▸ .mk rfl ?_ ?_ ?_ ?_ ?_)
  any_goals decide
  exact .serverName (by decide) (by decide) rfl (.text (by decide) (by decide) (by decide)
    fun _ ↦ by decide)

/-- The first six bytes of a ClientHello record. -/
def helloStart : Packet :=
  ⟨List.replicate 46 0 ++ 0x50 :: List.replicate 7 0 ++ [22, 3, 1, 0, 0, 1], 60, by decide⟩

/-- A record that ends behind the handshake type is read beyond its end. -/
theorem tls_inside_fails : ¬∀ (packet : Packet) (newPacket : Flow) (flowDb : HashStruct)
    (kAnon kDelta : ℤ) (env : HandlerEnv), isTls packet 0 = 0 →
    TlsInside packet newPacket flowDb kAnon kDelta env := by
  intro hall
  obtain ⟨-, hentry⟩ := hall helloStart tlsFlow tableInit 2 60
    ⟨⟨0, true, true⟩, fun _ _ ↦ 0, fun _ ↦ true, 0⟩ (by decide +kernel)
  rw [tlsHelloEntryTraced] at hentry
  have hread := stays_reading.1 (stays_bind.1 hentry).1
  exact absurd hread (by decide +kernel)

end AlphaMon
