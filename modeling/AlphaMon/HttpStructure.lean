import AlphaMon.HttpObfuscation
import AlphaMon.HttpWrites

/-!
# The structure of requests

An `HttpMessage` is a request given by its request line, its header fields with name and value, and
its body.  What `httpEntry` may change is the URI and the values of the Host and the Referer field
(`HttpMessage.InFields`).

`structure_kept` says when it keeps to that: when the keywords it searches for are in their places
(`HttpMessage.InPlace`), the first `host` the name of the Host field and the first `refer` that of a
Referer field, with the values as far behind them as the code takes them to be.  A value ends before
the CR behind it, and so do the runs from there.  Of `get` and `http` nothing need be asked.  The
URI run starts behind the method and ends before the first `http`, so that as long as the Host run
has left the request line alone, the blank behind the URI stops it.
-/

set_option autoImplicit false

namespace AlphaMon

open CString Traced

/-! ## The text of a request -/

/-- A header field: the text up to the value is the name, a colon and blanks. -/
structure HeaderField where
  name : List UInt8
  blanks : List UInt8
  value : List UInt8
  name_valid : ∀ c ∈ name, IsVisible c ∧ c ≠ 58
  blanks_valid : ∀ c ∈ blanks, c = 32 ∨ c = 9
  value_valid : ∀ c ∈ value, c ≠ 0 ∧ c ≠ 10 ∧ c ≠ 13

namespace HeaderField

/-- The text up to the value. -/
def head (f : HeaderField) : List UInt8 := f.name ++ 58 :: f.blanks

/-- The text. -/
def encode (f : HeaderField) : List UInt8 := f.head ++ f.value ++ crlf

/-- The field has this name, in any case. -/
def IsNamed (name : List UInt8) (f : HeaderField) : Prop := f.name.map toLower = name.map toLower

instance (name : List UInt8) (f : HeaderField) : Decidable (f.IsNamed name) :=
  inferInstanceAs (Decidable (_ = _))

/-- The Host or the Referer field, whose values are to be replaced. -/
def IsPrivate (f : HeaderField) : Prop := f.IsNamed kwHost ∨ f.IsNamed (kwRefer ++ [69, 82])

instance (f : HeaderField) : Decidable f.IsPrivate := inferInstanceAs (Decidable (_ ∨ _))

/-- With fields from position `s` on, the position `j` is in a value that is to be replaced. -/
def InValues : List HeaderField → ℕ → ℕ → Prop
  | [], _, _ => False
  | f :: fs, s, j =>
    (f.IsPrivate ∧ s + f.head.length ≤ j ∧ j < s + f.head.length + f.value.length) ∨
      InValues fs (s + f.encode.length) j

instance InValues.decidable : (fs : List HeaderField) → (s j : ℕ) → Decidable (InValues fs s j)
  | [], _, _ => inferInstanceAs (Decidable False)
  | f :: fs, s, j =>
    have := InValues.decidable fs (s + f.encode.length) j
    inferInstanceAs (Decidable (_ ∨ _))

theorem InValues.le {fs : List HeaderField} {s j : ℕ} (h : InValues fs s j) : s ≤ j := by
  induction fs generalizing s with
  | nil => exact h.elim
  | cons f fs ih =>
    rcases h with ⟨-, h, -⟩ | h
    · omega
    · have := ih h
      omega

theorem length_encode (f : HeaderField) : f.encode.length = f.head.length + f.value.length + 2 := by
  simp [encode, crlf, Nat.add_assoc]

theorem InValues.lt {fs : List HeaderField} {s j : ℕ} (h : InValues fs s j) :
    j < s + (fs.flatMap encode).length := by
  induction fs generalizing s with
  | nil => exact h.elim
  | cons f fs ih =>
    have hlen := f.length_encode
    rw [List.flatMap_cons, List.length_append]
    rcases h with ⟨-, -, h⟩ | h
    · omega
    · have := ih h
      omega

theorem inValues_append {fs gs : List HeaderField} {s j : ℕ} :
    InValues (fs ++ gs) s j ↔ InValues fs s j ∨ InValues gs (s + (fs.flatMap encode).length) j := by
  induction fs generalizing s with
  | nil => simp [InValues]
  | cons f fs ih =>
    rw [List.cons_append, InValues, InValues, ih, or_assoc, List.flatMap_cons, List.length_append,
      ← Nat.add_assoc s f.encode.length]

/-- The position `k` behind the start of the field is in its value, or at its end. -/
def Reaches (k : ℕ) (f : HeaderField) :
    Prop := f.head.length ≤ k ∧ k ≤ f.head.length + f.value.length

/-- What is found in the value six characters behind the start of the field, up to a tab. -/
def hostName (f : HeaderField) : List UInt8 := (f.value.drop (6 - f.head.length)).takeWhile (· ≠ 9)

end HeaderField

/-- A request with one Host field. -/
structure HttpMessage where
  /-- POST rather than GET. -/
  post : Bool
  uri : List UInt8
  /-- The digit after `HTTP/1.`. -/
  minor : UInt8
  fields : List HeaderField
  body : List UInt8
  uri_visible : ∀ c ∈ uri, IsVisible c
  minor_visible : IsVisible minor
  one_host : (fields.filter fun f ↦ f.IsNamed kwHost).length = 1

namespace HttpMessage

/-- The method. -/
def method (m : HttpMessage) : List UInt8 := if m.post then kwPost else kwGet

/-- The request line up to the version. -/
def line (m : HttpMessage) : List UInt8 := m.method ++ [32] ++ m.uri ++ [32]

/-- `HTTP/1.x` and the end of the line. -/
def version (m : HttpMessage) : List UInt8 := kwHttp ++ [47, 49, 46, m.minor] ++ crlf

/-- The text. -/
def encode (m : HttpMessage) : List UInt8 :=
  m.line ++ m.version ++ m.fields.flatMap HeaderField.encode ++ crlf ++ m.body

/-- The position of the URI. -/
def uriOffset (m : HttpMessage) : ℕ := m.method.length + 1

/-- The position of the version. -/
def versionOffset (m : HttpMessage) : ℕ := m.line.length

/-- The request stands in the packet at position `base`. -/
structure InPacket (m : HttpMessage) (p : Packet) (base : ℕ) : Prop where
  reads : Reads p.data base m.encode
  fits : base + m.encode.length ≤ p.pktLen

/-- The position is in the URI, the Host value or a Referer value. -/
def InFields (m : HttpMessage) (base j : ℕ) : Prop :=
  (base + m.uriOffset ≤ j ∧ j < base + m.uriOffset + m.uri.length) ∨
    HeaderField.InValues m.fields (base + (m.line ++ m.version).length) j

instance (m : HttpMessage) (base j : ℕ) : Decidable (m.InFields base j) :=
  inferInstanceAs (Decidable (_ ∨ _))

/-- The field `f` stands at the offset `i` of the text. -/
def FieldAt (m : HttpMessage) (i : ℕ) (f : HeaderField) : Prop :=
  ∃ before after, m.fields = before ++ f :: after ∧
    i = (m.line ++ m.version).length + (before.flatMap HeaderField.encode).length

/-- The position is in the URI. -/
def InUri (m : HttpMessage) (base j : ℕ) : Prop :=
  base + m.uriOffset ≤ j ∧ j < base + m.uriOffset + m.uri.length

/-- The position is in the Host value. -/
def InHost (m : HttpMessage) (base j : ℕ) : Prop :=
  ∃ i f, m.FieldAt i f ∧ f.IsNamed kwHost ∧ base + i + f.head.length ≤ j ∧
    j < base + i + f.head.length + f.value.length

/-- Some of the characters of the URI and of the Host value are the letters drawn for them. -/
def Drawn (m : HttpMessage) (p : Packet) (base : ℕ) (env : HandlerEnv) (q : Packet) : Prop :=
  ∀ j, q.byte j = p.byte j ∨ (m.InHost base j ∧ q.byte j = randChar (env.tsc 0 j)) ∨
    (m.InUri base j ∧ q.byte j = randChar (env.tsc 1 j))

/-- The Host value is not replaced: it is too long, or empty, or has its users. -/
def Skipped (m : HttpMessage) (newPacket : Flow) (flowDb : HashStruct) (kAnon kDelta : ℤ)
    (env : HandlerEnv) :
    Prop :=
  ∀ f ∈ m.fields, f.IsNamed kwHost →
    64 < f.hostName.length ∨ f.hostName = [] ∨
      Popular flowDb newPacket f.hostName kAnon kDelta env.table

/-- The keywords are in their places.  `host` is searched for in the text as it is received, `refer`
when letters have been drawn. -/
structure InPlace (m : HttpMessage) (p : Packet) (base : ℕ) (newPacket : Flow) (flowDb : HashStruct)
    (kAnon kDelta : ℤ) (env : HandlerEnv) : Prop where
  host : ∀ i, strcasestr kwHost (p.text base) = some i → ∃ f, m.FieldAt i f ∧ f.IsNamed kwHost ∧
    f.Reaches 6
  referer : m.Skipped newPacket flowDb kAnon kDelta env ∨ ∀ q, m.Drawn p base env q →
    ∀ i, strcasestr kwRefer (q.text base) = some i →
      ∃ f, m.FieldAt i f ∧ f.IsNamed (kwRefer ++ [69, 82]) ∧ f.Reaches 16

/-- Only the URI and the two values are written to, and every other byte is what it was. -/
structure Kept (m : HttpMessage) (p : Packet) (newPacket : Flow) (flowDb : HashStruct)
    (kAnon kDelta : ℤ) (env : HandlerEnv) : Prop where
  writes : (httpEntryTraced p 0 (p.byte 46) newPacket flowDb kAnon kDelta env).Stays
    (m.InFields (payloadOffset 0 (p.byte 46)))
  bytes : ∀ r, httpEntry p 0 (p.byte 46) newPacket flowDb kAnon kDelta env = some r →
    ∀ j, ¬m.InFields (payloadOffset 0 (p.byte 46)) j → r.packet.byte j = p.byte j

/-- The characters that the Host run and the Referer run replace are in the URI or in the values. -/
structure RunsInFields (m : HttpMessage) (p : Packet) (base : ℕ) (newPacket : Flow)
    (flowDb : HashStruct) (kAnon kDelta : ℤ) (env : HandlerEnv) : Prop where
  host : ∀ ptr name, Rewrites p base newPacket flowDb kAnon kDelta env ptr name →
    ∀ j, ptr ≤ j → j < ptr + name.length → isDot (p.byte j) = false → m.InFields base j
  referer : ∀ ptr name q, Rewrites p base newPacket flowDb kAnon kDelta env ptr name →
    UriEnds (p.mask isDot (env.tsc 0) name.length ptr) base (env.tsc 1) q →
    ∀ j, RefererWrites q base j → m.InFields base j

/-! ## The request line -/

section Line

variable {m : HttpMessage} {p q : Packet} {base : ℕ}

theorem versionOffset_eq (m : HttpMessage) : m.versionOffset = m.uriOffset + m.uri.length + 1 := by
  simp [versionOffset, line, uriOffset]
  omega

/-- A position in the request line that is not in the URI is in no field. -/
theorem not_inFields {k : ℕ} (hk : k < m.versionOffset + 4)
    (huri : ¬(m.uriOffset ≤ k ∧ k < m.uriOffset + m.uri.length)) :
    ¬m.InFields base (base + k) := by
  rintro (h | h)
  · omega
  · have hle := h.le
    have hver : 4 ≤ m.version.length := by simp [version, kwHttp]
    rw [List.length_append, ← versionOffset] at hle
    omega

/-- The parts of the request line. -/
theorem reads_line (h : Reads p.data base m.encode) :
    Reads p.data base (m.method ++ [32]) ∧ Reads p.data (base + m.uriOffset) m.uri ∧
      p.byte (base + m.uriOffset + m.uri.length) = 32 ∧
        Reads p.data (base + m.versionOffset) kwHttp := by
  rw [encode, reads_append, reads_append, reads_append, reads_append] at h
  obtain ⟨⟨⟨⟨hline, hver⟩, -⟩, -⟩, -⟩ := h
  rw [version, reads_append, reads_append] at hver
  refine ⟨?_, ?_, ?_, hver.1.1⟩
  all_goals rw [line, reads_append, reads_append] at hline
  · exact hline.1.1
  · simpa [uriOffset] using hline.1.2
  · rw [Packet.byte, ← (reads_cons.1 hline.2).1]
    congr 1
    simp [uriOffset]
    omega

/-- The packet differs from the original in the fields only, and there by letters. -/
structure LetteredIn (m : HttpMessage) (base : ℕ) (p q : Packet) : Prop where
  frame : ∀ j, ¬m.InFields base j → q.byte j = p.byte j
  letter : ∀ j, q.byte j = p.byte j ∨ IsCapital (q.byte j)

/-- **The URI run starts behind the method.**  If that is POST, the first `get` is not at the
beginning of the text. -/
theorem uriStart_behind (hmethod : Reads q.data base (m.method ++ [32])) {len ptr : ℕ}
    (h : uriStart q base base = some (len, ptr)) : base + m.uriOffset ≤ ptr := by
  rw [uriStart] at h
  rw [uriOffset, method] at *
  cases hpost : m.post with
  | false =>
    rw [hpost] at hmethod
    have h4 : (if false = true then kwPost else kwGet).length + 1 = 4 := rfl
    rw [h4]
    split at h
    · obtain ⟨-, rfl⟩ := Prod.mk.inj (Option.some.inj h)
      omega
    · split at h
      · obtain ⟨-, rfl⟩ := Prod.mk.inj (Option.some.inj h)
        omega
      · exact absurd h (by simp)
  | true =>
    rw [hpost] at hmethod
    have h5 : (if true = true then kwPost else kwGet).length + 1 = 5 := rfl
    rw [h5]
    split at h
    · next i hget =>
      obtain ⟨-, rfl⟩ := Prod.mk.inj (Option.some.inj h)
      rcases Nat.eq_zero_or_pos i with rfl | hpos
      · have hp : byteAt q.data base = 80 := (reads_cons.1 hmethod).1
        have hlow := (strcasestr_eq_some.1 hget).1.toLower_byteAt (show 0 < kwGet.length by decide)
        rw [Nat.add_zero, hp] at hlow
        exact absurd hlow (by decide)
      · omega
    · split at h
      · obtain ⟨-, rfl⟩ := Prod.mk.inj (Option.some.inj h)
        omega
      · exact absurd h (by simp)

/-- The request line when the fields have become letters. -/
theorem reads_lettered (hp : m.InPacket p base) (hq : m.LetteredIn base p q) :
    Reads q.data base (m.method ++ [32]) ∧ (∀ k < m.versionOffset, q.byte (base + k) ≠ 0) ∧
      q.byte (base + m.uriOffset + m.uri.length) = 32 ∧
        Reads q.data (base + m.versionOffset) kwHttp := by
  obtain ⟨hmethod, huri, hblank, hver⟩ := reads_line hp.reads
  have hlen := m.versionOffset_eq
  have hstart : m.uriOffset = (m.method ++ [32]).length := by simp [uriOffset]
  have h4 : kwHttp.length = 4 := rfl
  -- what is not in the URI is what it was
  have hsame : ∀ k < m.versionOffset + 4, ¬(m.uriOffset ≤ k ∧ k < m.uriOffset + m.uri.length) →
      q.byte (base + k) = p.byte (base + k) := fun k hk huri ↦ hq.frame _ (not_inFields hk huri)
  refine ⟨?_, fun k hk ↦ ?_, ?_, ?_⟩
  · refine hmethod.congr fun j hj hj' ↦ ?_
    obtain ⟨k, rfl⟩ := Nat.exists_eq_add_of_le hj
    exact hsame k (by omega) (by omega)
  · have hp0 : p.byte (base + k) ≠ 0 := by
      by_cases hk₁ : k < m.uriOffset
      · have h0 : (0 : UInt8) ∉ m.method ++ [32] := by
          rw [method]
          split <;> decide
        intro hzero
        rw [Packet.byte, hmethod.getElem (Nat.le_add_right ..) (by omega)] at hzero
        exact h0 (hzero ▸ List.getElem_mem _)
      by_cases hk₂ : k < m.uriOffset + m.uri.length
      · exact isVisible_ne (visible_of_reads huri m.uri_visible (by omega) (by omega)) (by decide)
      · obtain rfl : k = m.uriOffset + m.uri.length := by omega
        rw [← Nat.add_assoc, hblank]
        decide
    rcases hq.letter (base + k) with h | h
    · rwa [h]
    · exact isVisible_ne (isVisible_of_isCapital h) (by decide)
  · rw [Nat.add_assoc, hsame _ (by omega) (by omega), ← Nat.add_assoc]
    exact hblank
  · refine hver.congr fun j hj hj' ↦ ?_
    obtain ⟨k, rfl⟩ := Nat.exists_eq_add_of_le hj
    rw [Nat.add_assoc]
    exact hsame _ (by omega) (by omega)

/-- The Host run leaves letters in the fields. -/
theorem letteredIn_mask {newPacket : Flow} {flowDb : HashStruct} {kAnon kDelta : ℤ}
    {env : HandlerEnv} {ptr : ℕ} {name : List UInt8}
    (h : m.RunsInFields p base newPacket flowDb kAnon kDelta env)
    (hr : Rewrites p base newPacket flowDb kAnon kDelta env ptr name) :
    m.LetteredIn base p (p.mask isDot (env.tsc 0) name.length ptr) := by
  have hin := hr.inside
  have hle := p.pktLen_le
  refine ⟨fun k hk ↦ ?_, fun k ↦ ?_⟩
  · rw [Packet.mask_byte (by omega), if_neg fun hw ↦ hk (h.host _ _ hr k hw.1 hw.2.1 hw.2.2)]
  · rw [Packet.mask_byte (by omega)]
    split
    · exact .inr (isCapital_randChar _)
    · exact .inl rfl

/-- **The URI run stays in the URI**, as long as the rest of the request line is what it was. -/
theorem uriWrites_inUri (hp : m.InPacket p base) (hq : m.LetteredIn base p q) {j : ℕ}
    (h : UriWrites q base j) : m.InUri base j := by
  obtain ⟨hmethod, hne, hblank, hver⟩ := reads_lettered hp hq
  have hlen := m.versionOffset_eq
  obtain ⟨len, ptr, i, hstart, hhttp, hrun, hj, -⟩ := h
  -- the first `http` is not behind the version
  have hi : i ≤ m.versionOffset := by
    refine Nat.le_of_not_lt fun hlt ↦ (strcasestr_eq_some.1 hhttp).2.2 _ hlt ?_
    exact matchesAt_of_reads hver (by decide) hne
  have hptr := uriStart_behind hmethod hstart
  have hle := hrun.1
  refine ⟨hptr.trans hle, Nat.lt_of_not_le fun hge ↦ ?_⟩
  obtain rfl : j = base + m.uriOffset + m.uri.length := by omega
  have hstop := hrun.2 _ hle le_rfl
  simp [isBlank, hblank] at hstop

end Line

/-- The structure of a request is kept if the characters that the Host run and the Referer run
replace are in the URI or in the values. -/
theorem RunsInFields.kept {m : HttpMessage} {p : Packet} {newPacket : Flow} {flowDb : HashStruct}
    {kAnon kDelta : ℤ} {env : HandlerEnv} (hp : m.InPacket p (payloadOffset 0 (p.byte 46)))
    (h : m.RunsInFields p (payloadOffset 0 (p.byte 46)) newPacket flowDb kAnon kDelta env) :
    m.Kept p newPacket flowDb kAnon kDelta env := by
  have hwrites : (httpEntryTraced p 0 (p.byte 46) newPacket flowDb kAnon kDelta env).Stays
      (m.InFields (payloadOffset 0 (p.byte 46))) := by
    intro j hj
    rcases httpEntryTraced_log.1 hj with ⟨hr, h₁, h₂, h₃⟩ | ⟨hr, huri⟩ | ⟨hr, hends, href⟩
    · exact h.host _ _ hr j h₁ h₂ h₃
    · exact .inl (uriWrites_inUri hp (letteredIn_mask h hr) huri)
    · exact h.referer _ _ _ hr hends j href
  exact ⟨hwrites, fun r hr j hj ↦ httpEntryTraced_byte hr fun hlog ↦ hj (hwrites j hlog)⟩

/-! ## Keywords in their places -/

section Places

variable {m : HttpMessage} {p q : Packet} {base i j k : ℕ} {f : HeaderField} {newPacket : Flow}
  {flowDb : HashStruct} {kAnon kDelta : ℤ} {env : HandlerEnv}

/-- The text of a field in the packet. -/
theorem FieldAt.reads (h : m.FieldAt i f) (hp : Reads p.data base m.encode) :
    Reads p.data (base + i) f.encode := by
  obtain ⟨before, after, hfields, rfl⟩ := h
  rw [encode, hfields, List.flatMap_append, List.flatMap_cons, reads_append, reads_append,
    reads_append,
    reads_append, reads_append] at hp
  rw [← Nat.add_assoc]
  exact (reads_append.1 hp.1.1.2.2).1

/-- The value of a private field is a field of the message, and the CR behind it is not. -/
theorem FieldAt.inFields (h : m.FieldAt i f) (hpriv : f.IsPrivate) :
    (∀ j, base + i + f.head.length ≤ j → j < base + i + f.head.length + f.value.length →
        m.InFields base j) ∧
      ¬m.InFields base (base + i + f.head.length + f.value.length) := by
  obtain ⟨before, after, hfields, rfl⟩ := h
  rw [← Nat.add_assoc]
  constructor
  · intro j h₁ h₂
    refine .inr ?_
    rw [hfields, HeaderField.inValues_append]
    exact .inr (.inl ⟨hpriv, h₁, h₂⟩)
  · rintro (huri | hval)
    · have hlen := m.versionOffset_eq
      rw [versionOffset] at hlen
      rw [List.length_append] at huri
      omega
    · rw [hfields, HeaderField.inValues_append] at hval
      have hlen := f.length_encode
      rcases hval with hval | ⟨-, -, hval⟩ | hval
      · have := hval.lt
        omega
      · omega
      · have := hval.le
        omega

/-- **A run from within a value** stays in it, as long as the CR behind it is there. -/
theorem FieldAt.run (h : m.FieldAt i f) (hpriv : f.IsPrivate) (hk : f.Reaches k)
    (hp : m.InPacket p base) (hq : ∀ j, ¬m.InFields base j → q.byte j = p.byte j)
    (hrun : q.RunsTo endsField (base + i + k) j) :
    base + i + f.head.length ≤ j ∧ j < base + i + f.head.length + f.value.length := by
  have hcr : q.byte (base + i + f.head.length + f.value.length) = 13 := by
    rw [hq _ (h.inFields hpriv).2]
    have hreads := h.reads hp.reads
    rw [HeaderField.encode, reads_append, List.length_append, ← Nat.add_assoc] at hreads
    exact (reads_cons.1 hreads.2).1
  have hle := hrun.1
  obtain ⟨hk₁, hk₂⟩ := hk
  refine ⟨by omega, Nat.lt_of_not_le fun hge ↦ ?_⟩
  have hstop := hrun.2 _ (by omega) hge
  rw [hcr] at hstop
  exact absurd hstop (by decide)

/-- What the Host run finds in a field. -/
theorem FieldAt.hostName_eq (h : m.FieldAt i f) (hp : m.InPacket p base) (hreach : f.Reaches 6)
    {n : ℕ} (hrun : ∀ k < n, endsField (p.byte (base + i + 6 + k)) = false)
    (hstop : endsField (p.byte (base + i + 6 + n)) = true) :
    (p.bytes (base + i + 6) n).takeWhile (· ≠ 0) = f.hostName := by
  obtain ⟨h₁, h₂⟩ := hreach
  -- the rest of the value, and the CR behind it
  have hreads : Reads p.data (base + i + 6) (f.value.drop (6 - f.head.length) ++ crlf) := by
    have hall := h.reads hp.reads
    rw [HeaderField.encode, List.append_assoc, reads_append] at hall
    have hrest := hall.2
    rw [← List.take_append_drop (6 - f.head.length) f.value, List.append_assoc, reads_append,
      List.length_take,
      Nat.min_eq_left (by omega)] at hrest
    convert hrest.2 using 1
    omega
  rw [HeaderField.hostName]
  have hvalid : ∀ c ∈ f.value.drop (6 - f.head.length), c ≠ 0 ∧ c ≠ 13 := fun c hc ↦
    ⟨(f.value_valid c (List.mem_of_mem_drop hc)).1, (f.value_valid c (List.mem_of_mem_drop hc)).2.2⟩
  generalize f.value.drop (6 - f.head.length) = w at hreads hvalid
  rw [reads_append] at hreads
  obtain ⟨hw, hcr⟩ := hreads
  have hn : n ≤ w.length := by
    refine Nat.le_of_not_lt fun hlt ↦ ?_
    have hfalse := hrun _ hlt
    rw [show p.byte (base + i + 6 + w.length) = 13 from (reads_cons.1 hcr).1] at hfalse
    exact absurd hfalse (by decide)
  have hbyte : ∀ k (hk : k < w.length), p.byte (base + i + 6 + k) = w[k] := fun k hk ↦ hw k hk
  have htake : p.bytes (base + i + 6) n = w.take n := by
    have htaken : Reads p.data (base + i + 6) (w.take n) := by
      rw [← List.take_append_drop n w, reads_append] at hw
      exact hw.1
    have hbytes := Packet.bytes_eq htaken
    rwa [List.length_take, Nat.min_eq_left hn] at hbytes
  rw [htake, List.takeWhile_eq_self_iff.2]
  swap
  · intro c hc
    simpa using (hvalid c (List.mem_of_mem_take hc)).1
  conv_rhs => rw [← List.take_append_drop n w]
  rw [List.takeWhile_append_of_pos]
  · rcases Nat.eq_or_lt_of_le hn with rfl | hlt
    · simp
    · -- the character at which the run stops is a tab
      rw [hbyte n hlt] at hstop
      have h9 : w[n] = 9 := by
        have h13 := (hvalid _ (List.getElem_mem hlt)).2
        simpa [endsField, h13] using hstop
      rw [List.drop_eq_getElem_cons hlt, List.takeWhile_cons_of_neg (by simp [h9]), List.append_nil]
  · intro c hc
    obtain ⟨k, hk, rfl⟩ := List.mem_take_iff_getElem.1 hc
    have hfalse := hrun k (by omega)
    rw [hbyte k (by omega)] at hfalse
    simp only [endsField, Bool.or_eq_false_iff, beq_eq_false_iff_ne] at hfalse
    simpa using hfalse.2

/-- The Host run is in the Host value, and what it has is the name. -/
theorem InPlace.hostRun (h : m.InPlace p base newPacket flowDb kAnon kDelta env)
    (hp : m.InPacket p base) {ptr : ℕ} {name : List UInt8}
    (hr : Rewrites p base newPacket flowDb kAnon kDelta env ptr name) :
    (∀ j, ptr ≤ j → j < ptr + name.length → m.InHost base j) ∧
      ∃ f ∈ m.fields, f.IsNamed kwHost ∧ name = f.hostName := by
  obtain ⟨i, n, hv, rfl, rfl, -⟩ := hr
  obtain ⟨f, hf, hnamed, hreach⟩ := h.host i hv.first
  constructor
  · intro j h₁ h₂
    have hle : ((p.bytes (base + i + 6) n).takeWhile (· ≠ 0)).length ≤ n :=
      (List.takeWhile_prefix _).length_le.trans (by simp [Packet.bytes])
    have hrun : p.RunsTo endsField (base + i + 6) j := by
      refine ⟨h₁, fun k hk hkj ↦ ?_⟩
      have := hv.run (k - (base + i + 6)) (by omega)
      rwa [Nat.add_sub_cancel' hk] at this
    exact ⟨i, f, hf, hnamed, hf.run (.inl hnamed) hreach hp (fun _ _ ↦ rfl) hrun⟩
  · obtain ⟨before, after, hfields, -⟩ := id hf
    refine ⟨f, by simp [hfields], hnamed, ?_⟩
    exact hf.hostName_eq hp hreach hv.run hv.stop

theorem InHost.inFields (h : m.InHost base j) : m.InFields base j := by
  obtain ⟨i, f, hf, hnamed, h₁, h₂⟩ := h
  exact (hf.inFields (.inl hnamed)).1 j h₁ h₂

/-- Outside of the fields nothing is drawn. -/
theorem Drawn.byte_eq (h : m.Drawn p base env q) (hj : ¬m.InFields base j) :
    q.byte j = p.byte j := by
  rcases h j with heq | ⟨hin, -⟩ | ⟨hin, -⟩
  · exact heq
  · exact absurd hin.inFields hj
  · exact absurd (.inl hin) hj

theorem Skipped.not_rewrites (h : m.Skipped newPacket flowDb kAnon kDelta env) (hf : f ∈ m.fields)
    (hnamed : f.IsNamed kwHost) {ptr : ℕ} :
    ¬Rewrites p base newPacket flowDb kAnon kDelta env ptr f.hostName := by
  rintro ⟨i, n, hv, -, hname, hne, db, ret, hadd, hret⟩
  rcases h f hf hnamed with hlong | hempty | hmany
  · have hle : f.hostName.length ≤ n := by
      rw [hname]
      exact (List.takeWhile_prefix _).length_le.trans (by simp [Packet.bytes])
    have := hv.le
    omega
  · exact hne hempty
  · exact absurd hret (Int.not_lt.2 (hmany db ret hadd))

/-- **What the searches for the Referer field find** when the two loops before have drawn their
letters. -/
theorem drawn_of_uriEnds (hp : m.InPacket p base) {ptr : ℕ} {name : List UInt8}
    (hr : Rewrites p base newPacket flowDb kAnon kDelta env ptr name)
    (hin : ∀ j, ptr ≤ j → j < ptr + name.length → m.InHost base j)
    (hends : UriEnds (p.mask isDot (env.tsc 0) name.length ptr) base (env.tsc 1) q) :
    m.Drawn p base env q := by
  have hinside := hr.inside
  have hle := p.pktLen_le
  have hmask : ∀ j, (p.mask isDot (env.tsc 0) name.length ptr).byte j = p.byte j ∨
      (m.InHost base j ∧ (p.mask isDot (env.tsc 0) name.length ptr).byte j = randChar
        (env.tsc 0 j)) := by
    intro j
    rw [Packet.mask_byte (by omega)]
    split
    · next hw => exact .inr ⟨hin j hw.1 hw.2.1, rfl⟩
    · exact .inl rfl
  have hlettered : m.LetteredIn base p (p.mask isDot (env.tsc 0) name.length ptr) := by
    refine ⟨fun k hk ↦ ?_, fun k ↦ ?_⟩
    · exact (hmask k).resolve_right fun h ↦ hk h.1.inFields
    · rcases hmask k with heq | ⟨-, heq⟩
      · exact .inl heq
      · exact .inr (heq ▸ isCapital_randChar _)
  generalize p.mask isDot (env.tsc 0) name.length ptr = p₁ at hends hmask hlettered
  obtain ⟨len, uri, i, n, hstart, hhttp, hrun, hblank, hn, hlen, rfl⟩ := hends
  have hdata : uri + n < p₁.data.length := by
    refine Nat.lt_of_not_le fun hge ↦ ?_
    rw [Packet.byte, byteAt_of_le hge] at hblank
    exact absurd hblank (by decide)
  intro j
  rw [Packet.mask_byte (by omega)]
  split
  · next hw =>
    -- a character of the URI run that is replaced
    refine .inr (.inr ⟨uriWrites_inUri hp hlettered ⟨len, uri, i, hstart, hhttp,
      ⟨hw.1, fun k hk hkj ↦ ?_⟩,
      by omega, by omega, hw.2.2⟩, rfl⟩)
    have := hrun (k - uri) (by omega)
    rw [Nat.add_sub_cancel' hk] at this
    simpa [isBlank] using this
  · rcases hmask j with heq | hdrawn
    · exact .inl heq
    · exact .inr (.inl hdrawn)

end Places

/-- A GET request for `/b`. -/
def sample (fields : List HeaderField) (h : (fields.filter fun f ↦ f.IsNamed kwHost).length = 1) :
    HttpMessage where
  post := false
  uri := [47, 98]
  minor := 49
  fields := fields
  body := []
  uri_visible := by simp [IsVisible]
  minor_visible := isVisible_one
  one_host := h

/-- A frame with a request after the headers. -/
def frame (m : HttpMessage) :
    Packet := ⟨tcpHead ++ (m.encode ++ []), (tcpHead ++ (m.encode ++ [])).length, le_rfl⟩

/-- A field with one blank. -/
def field (name value : List UInt8) (hname : ∀ c ∈ name, IsVisible c ∧ c ≠ 58)
    (hvalue : ∀ c ∈ value, c ≠ 0 ∧ c ≠ 10 ∧ c ≠ 13) : HeaderField :=
  ⟨name, [32], value, hname, by simp, hvalue⟩

/-- `Host: a`. -/
def hostField : HeaderField := field [72, 111, 115, 116] [97] (by decide +kernel)
    (by decide +kernel)

/-- `X-Host: abcdef`. -/
def otherField : HeaderField :=
  field [88, 45, 72, 111, 115, 116] [97, 98, 99, 100, 101, 102] (by decide +kernel)
    (by decide +kernel)

theorem frame_base (m : HttpMessage) : payloadOffset 0 (m.frame.byte 46) = 54 := by
  have h : m.frame.byte 46 = 0x50 := by
    rw [frame, Packet.byte, byteAt, List.getD_append _ _ _ _ (by decide)]
    decide
  rw [h]
  decide

theorem inPacket_frame (m : HttpMessage) :
    m.InPacket m.frame (payloadOffset 0 (m.frame.byte 46)) := by
  have h54 : tcpHead.length = 54 := by decide
  rw [frame_base]
  refine ⟨reads_of_append tcpHead m.encode [], ?_⟩
  rw [frame]
  simp only [List.length_append, List.length_nil, h54]
  omega

/-- `Referer: http://a.b`. -/
def refererField : HeaderField :=
  field [82, 101, 102, 101, 114, 101, 114] [104, 116, 116, 112, 58, 47, 47, 97, 46, 98]
    (by decide +kernel)
    (by decide +kernel)

end HttpMessage

end AlphaMon
