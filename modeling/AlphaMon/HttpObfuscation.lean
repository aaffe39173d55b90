import AlphaMon.HttpMng
import AlphaMon.TableRun

/-!
# Requests

An `HttpRequest` is a GET or POST request given by its parts: the URI, the header fields with the
Host field among them, the body.  `HttpRequest.encode` is its text.

The HTTP module looks for a request's fields by keywords, so that it finds the right ones only if no
keyword occurs before the field it stands for; and its loops have limits of their own.
`HttpRequest.Plain` collects what it takes.  Two of its conditions are about the text in which the
Host value, and then the URI, has already been replaced by the letters drawn: the module searches
that text, and the letters may spell a keyword.

`http_obfuscated` says that for a plain request, in a state in which no name has reached the
threshold, the Host value, the URI and the Referer value are random letters when the module is done.
-/

set_option autoImplicit false

namespace AlphaMon

open CString

/-! ## The text of a request -/

/-- A character that is neither a control character nor a blank. -/
def IsVisible (c : UInt8) : Prop := 32 < c

instance (c : UInt8) : Decidable (IsVisible c) := inferInstanceAs (Decidable (_ < _))

/-- A header field other than Host. -/
inductive HttpField
  /-- `Referer: http://` and the rest of the value. -/
  | referer (value : List UInt8)
  /-- Any other line. -/
  | line (text : List UInt8)

/-- `Referer: http://`. -/
def refererHead : List UInt8 :=
  [82, 101, 102, 101, 114, 101, 114, 58, 32, 104, 116, 116, 112, 58, 47, 47]

/-- `Host: `. -/
def hostHead : List UInt8 := [72, 111, 115, 116, 58, 32]

/-- The end of a line. -/
def crlf : List UInt8 := [13, 10]

/-- The text of a field. -/
def HttpField.encode : HttpField → List UInt8
  | referer value => refererHead ++ value ++ crlf
  | line text => text ++ crlf

/-- The characters a field may have: visible ones in a URL, anything but line ends and `0`
elsewhere. -/
def HttpField.Valid : HttpField → Prop
  | referer value => ∀ c ∈ value, IsVisible c
  | line text => ∀ c ∈ text, c ≠ 0 ∧ c ≠ 10 ∧ c ≠ 13

/-- The text of a list of fields. -/
def encodeFields (fs : List HttpField) : List UInt8 := fs.flatMap HttpField.encode

/-- A request with one Host field. -/
structure HttpRequest where
  /-- POST rather than GET. -/
  post : Bool
  uri : List UInt8
  /-- The digit after `HTTP/1.`. -/
  minor : UInt8
  /-- The fields before the Host field. -/
  before : List HttpField
  host : List UInt8
  /-- The fields after the Host field. -/
  after : List HttpField
  body : List UInt8
  uri_visible : ∀ c ∈ uri, IsVisible c
  minor_visible : IsVisible minor
  before_valid : ∀ f ∈ before, f.Valid
  host_pos : 1 ≤ host.length
  host_le : host.length ≤ 253
  host_visible : ∀ c ∈ host, IsVisible c
  after_valid : ∀ f ∈ after, f.Valid

namespace HttpRequest

/-- The method. -/
def method (r : HttpRequest) : List UInt8 := if r.post then kwPost else kwGet

/-- The request line up to the version. -/
def line (r : HttpRequest) : List UInt8 := r.method ++ [32] ++ r.uri ++ [32]

/-- ` HTTP/1.x` and the end of the line. -/
def version (r : HttpRequest) : List UInt8 := kwHttp ++ [47, 49, 46, r.minor] ++ crlf

/-- The text up to the Host value. -/
def head (r : HttpRequest) : List UInt8 := r.line ++ r.version ++ encodeFields r.before ++ hostHead

/-- The text from the end of the Host value on. -/
def rest (r : HttpRequest) : List UInt8 := crlf ++ encodeFields r.after ++ crlf ++ r.body

/-- The text. -/
def encode (r : HttpRequest) : List UInt8 := r.head ++ r.host ++ r.rest

/-- The position of the URI. -/
def uriOffset (r : HttpRequest) : ℕ := r.method.length + 1

/-- The position of `HTTP`. -/
def versionOffset (r : HttpRequest) : ℕ := r.line.length

/-- The position of the Host value. -/
def hostOffset (r : HttpRequest) : ℕ := r.head.length

/-- The text has a Referer field with this value at this position. -/
inductive HasReferer (r : HttpRequest) (value : List UInt8) : ℕ → Prop
  | before (pre post : List HttpField) : r.before = pre ++ .referer value :: post →
      HasReferer r value (r.line ++ r.version ++ encodeFields pre).length
  | after (pre post : List HttpField) : r.after = pre ++ .referer value :: post →
      HasReferer r value (r.head ++ r.host ++ crlf ++ encodeFields pre).length

/-- The request stands in the packet at position `base`. -/
structure InPacket (r : HttpRequest) (p : Packet) (base : ℕ) : Prop where
  reads : Reads p.data base r.encode
  fits : base + r.encode.length ≤ p.pktLen

/-- The packet once the Host value is replaced by the letters drawn. -/
def hostDrawn (r : HttpRequest) (p : Packet) (base : ℕ) (env : HandlerEnv) : Packet :=
  p.mask isDot (env.tsc 0) r.host.length (base + r.hostOffset)

/-- The packet once the Host value and the URI are. -/
def uriDrawn (r : HttpRequest) (p : Packet) (base : ℕ) (env : HandlerEnv) : Packet :=
  (r.hostDrawn p base env).mask isDotOrSlash (env.tsc 1) r.uri.length (base + r.uriOffset)

/-- A request in which the HTTP module finds its way. -/
structure Plain (r : HttpRequest) (p : Packet) (base : ℕ) (env : HandlerEnv) : Prop where
  /-- The first `host` is the name of the Host field. -/
  host_first : strcasestr kwHost (p.text base) = some (r.hostOffset - 6)
  /-- The Host value is no longer than the loop over it. -/
  host_le : r.host.length ≤ 64
  /-- A POST request has no `get`, nor do the letters drawn spell it. -/
  get_none : r.post = true → strcasestr kwGet ((r.hostDrawn p base env).text base) = none
  /-- The first `http` is that of the version. -/
  http_first : strcasestr kwHttp (p.text base) = some r.versionOffset
  /-- The first `refer`, the letters drawn included, is the name of the Referer field. -/
  refer_first : ∀ value i, r.HasReferer value i →
    strcasestr kwRefer ((r.uriDrawn p base env).text base) = some i
  /-- The Referer value is no longer than the loop over it. -/
  referer_le : ∀ value i, r.HasReferer value i → value.length ≤ 65

/-- A byte is a letter drawn by one of the three loops. -/
def Fresh (env : HandlerEnv) (q : Packet) (j : ℕ) :
    Prop := ∃ l < 3, q.byte j = randChar (env.tsc l j)

/-- The Host value, the URI and the Referer value have become letters drawn at random. -/
structure Obfuscated (r : HttpRequest) (p : Packet) (base : ℕ) (env : HandlerEnv) (q : Packet) :
    Prop where
  host : ∀ j, base + r.hostOffset ≤ j → j < base + r.hostOffset + r.host.length →
    isDot (p.byte j) = false → Fresh env q j
  uri : ∀ j, base + r.uriOffset ≤ j → j < base + r.uriOffset + r.uri.length →
    isDotOrSlash (p.byte j) = false → Fresh env q j
  referer : ∀ value i, r.HasReferer value i → ∀ j, base + i + 16 ≤ j →
    j < base + i + 16 + value.length → isDotOrSlash (p.byte j) = false → Fresh env q j

end HttpRequest

/-! ## The loops -/

theorem isVisible_ne {c b : UInt8} (h : IsVisible c) (hb : b ≤ 32) : c ≠ b := by
  rintro rfl
  exact UInt8.lt_irrefl _ (UInt8.lt_of_lt_of_le h hb)

theorem endsField_of_visible {c : UInt8} (h : IsVisible c) : endsField c = false := by
  simp [endsField, isVisible_ne h (b := 13) (by decide), isVisible_ne h (b := 9) (by decide)]

theorem isVisible_of_isCapital {c : UInt8} (h : IsCapital c) : IsVisible c :=
  UInt8.lt_of_lt_of_le (by decide : (32 : UInt8) < 65) h.1

/-- **The loop over the Host value** copies it. -/
theorem hostLoop_spec {p : Packet} {host : List UInt8} (hvis : ∀ c ∈ host, IsVisible c)
    {left len ptr : ℕ} (hr : Reads p.data ptr host)
    (hend : endsField (p.byte (ptr + host.length)) = true) (hleft : host.length ≤ left)
    (hlen : len + host.length ≤ p.pktLen) (name : List UInt8) :
    hostLoop p left len ptr name = some (len + host.length, name ++ host) := by
  induction host generalizing left len ptr name with
  | nil =>
    rw [List.length_nil, Nat.add_zero] at hend
    cases left <;> rw [hostLoop, if_pos hend] <;> simp
  | cons c host ih =>
    simp only [List.length_cons] at hend hleft hlen
    obtain ⟨left, rfl⟩ : ∃ l, left = l + 1 := ⟨left - 1, by omega⟩
    obtain ⟨hc, hr⟩ := reads_cons.1 hr
    have hc : p.byte ptr = c := hc
    rw [hostLoop, hc, endsField_of_visible (hvis c (by simp)), if_neg (by simp), if_neg (by omega)]
    rw [ih (fun c hc ↦ hvis c (by simp [hc])) hr (by rwa [Nat.add_assoc, Nat.add_comm 1]) (by omega)
      (by omega)]
    simp [Nat.add_comm, Nat.add_left_comm]

/-- **The loop over the URI** replaces it and goes on. -/
theorem uriLoop_spec {tsc : ℕ → ℕ} {next n fuel len ptr : ℕ} {p : Packet}
    (hvis : ∀ j, ptr ≤ j → j < ptr + n → p.byte j ≠ 32) (hend : p.byte (ptr + n) = 32)
    (hnext : ptr + n ≤ next) (hfuel : n < fuel) (hlen : len + n < p.pktLen)
    (hdata : ptr + n ≤ p.data.length) :
    uriLoop tsc next fuel len ptr p = (p.mask isDotOrSlash tsc n ptr, true) := by
  induction n generalizing fuel len ptr p with
  | zero =>
    obtain ⟨fuel, rfl⟩ : ∃ f, fuel = f + 1 := ⟨fuel - 1, by omega⟩
    rw [Nat.add_zero] at hend
    rw [uriLoop, if_pos hend]
    rfl
  | succ n ih =>
    obtain ⟨fuel, rfl⟩ : ∃ f, fuel = f + 1 := ⟨fuel - 1, by omega⟩
    have hsame : ∀ j, ptr < j → (p.maskByte isDotOrSlash tsc ptr).byte j = p.byte j := by
      intro j hj
      rw [Packet.maskByte_byte (by omega), if_neg (by omega)]
    rw [uriLoop, if_neg (hvis ptr le_rfl (by omega)), if_neg (by omega), if_neg (by omega), ih]
    · rfl
    · intro j h₁ h₂
      rw [hsame j (by omega)]
      exact hvis j (by omega) (by omega)
    · rw [hsame _ (by omega), Nat.add_assoc, Nat.add_comm 1]
      exact hend
    · omega
    · omega
    · rw [Packet.maskByte_pktLen]
      omega
    · rw [Packet.maskByte_length]
      omega

/-- **The loop over the Referer value** replaces up to 65 characters. -/
theorem refererLoop_spec {tsc : ℕ → ℕ} {n i len ptr : ℕ} {p : Packet}
    (hvis : ∀ j, ptr ≤ j → j < ptr + n → endsField (p.byte j) = false)
    (hend : endsField (p.byte (ptr + n)) = true) (hi : i + n ≤ 65) (hlen : len + n < p.pktLen)
    (hdata : ptr + n ≤ p.data.length) :
    refererLoop tsc (65 - i) i len ptr p = p.mask isDotOrSlash tsc n ptr := by
  induction n generalizing i len ptr p with
  | zero =>
    rcases Nat.eq_zero_or_pos (65 - i) with h0 | hpos
    · rw [h0]
      rfl
    · obtain ⟨fuel, hfuel⟩ : ∃ f, 65 - i = f + 1 := ⟨65 - i - 1, by omega⟩
      rw [Nat.add_zero] at hend
      rw [hfuel, refererLoop, if_pos hend]
      rfl
  | succ n ih =>
    obtain ⟨fuel, hfuel⟩ : ∃ f, 65 - i = f + 1 := ⟨65 - i - 1, by omega⟩
    have hsame : ∀ j, ptr < j → (p.maskByte isDotOrSlash tsc ptr).byte j = p.byte j := by
      intro j hj
      rw [Packet.maskByte_byte (by omega), if_neg (by omega)]
    rw [hfuel, refererLoop, hvis ptr le_rfl (by omega), if_neg (by simp), if_neg (by omega)]
    split
    · -- index 64: this character is the last
      obtain rfl : n = 0 := by omega
      rfl
    · rw [show fuel = 65 - (i + 1) by omega, ih]
      · rfl
      · intro j h₁ h₂
        rw [hsame j (by omega)]
        exact hvis j (by omega) (by omega)
      · rw [hsame _ (by omega), Nat.add_assoc, Nat.add_comm 1]
        exact hend
      · omega
      · rw [Packet.maskByte_pktLen]
        omega
      · rw [Packet.maskByte_length]
        omega

/-- Whatever the loop over the Referer value meets, it changes bytes to letters drawn only. -/
theorem refererLoop_byte (tsc : ℕ → ℕ) (fuel i len ptr : ℕ) (p : Packet) (j : ℕ) :
    (refererLoop tsc fuel i len ptr p).byte j = p.byte j ∨
      (refererLoop tsc fuel i len ptr p).byte j = randChar (tsc j) := by
  have hstep : ∀ (p : Packet) ptr, (p.maskByte isDotOrSlash tsc ptr).byte j = p.byte j ∨
      (p.maskByte isDotOrSlash tsc ptr).byte j = randChar (tsc j) := by
    intro p ptr
    rw [Packet.maskByte]
    split
    · exact .inl rfl
    · rw [Packet.set_byte]
      split
      · next h => exact .inr (by rw [h.1])
      · exact .inl rfl
  induction fuel generalizing i len ptr p with
  | zero => exact .inl rfl
  | succ fuel ih =>
    rw [refererLoop]
    split
    · exact .inl rfl
    split
    · exact .inl rfl
    split
    · exact hstep p ptr
    · rcases ih (i + 1) (len + 1) (ptr + 1) (p.maskByte isDotOrSlash tsc ptr) with h | h
      · rw [h]
        exact hstep p ptr
      · exact .inr h

/-- Bytes have changed from visible characters to letters only. -/
structure Lettered (p q : Packet) : Prop where
  pktLen : q.pktLen = p.pktLen
  length : q.data.length = p.data.length
  byte : ∀ j, q.byte j = p.byte j ∨ (IsVisible (p.byte j) ∧ IsCapital (q.byte j))

/-- Replacing visible characters. -/
theorem lettered_mask {keep : UInt8 → Bool} {tsc : ℕ → ℕ} {n i : ℕ} {p : Packet}
    (hvis : ∀ j, i ≤ j → j < i + n → IsVisible (p.byte j)) (h : i + n ≤ p.data.length) :
    Lettered p (p.mask keep tsc n i) where
  pktLen := Packet.mask_pktLen ..
  length := Packet.mask_length ..
  byte j := by
    rw [Packet.mask_byte h]
    split
    · next hj => exact .inr ⟨hvis j hj.1 hj.2.1, isCapital_randChar _⟩
    · exact .inl rfl

theorem Lettered.trans {p q r : Packet} (hpq : Lettered p q) (hqr : Lettered q r) :
    Lettered p r where
  pktLen := hqr.pktLen.trans hpq.pktLen
  length := hqr.length.trans hpq.length
  byte j := by
    rcases hqr.byte j with h | ⟨h, hcap⟩
    · rw [h]
      exact hpq.byte j
    · rcases hpq.byte j with h' | ⟨h', -⟩
      · exact .inr ⟨h' ▸ h, hcap⟩
      · exact .inr ⟨h', hcap⟩

theorem Lettered.visible {p q : Packet} (h : Lettered p q) {j : ℕ} (hj : IsVisible (p.byte j)) :
    IsVisible (q.byte j) := by
  rcases h.byte j with h | ⟨-, h⟩
  · rwa [h]
  · exact isVisible_of_isCapital h

theorem Lettered.not_visible {p q : Packet} (h : Lettered p q) {j : ℕ}
    (hj : ¬IsVisible (p.byte j)) :
    q.byte j = p.byte j :=
  (h.byte j).resolve_right fun h ↦ hj h.1

/-- A character that is not kept is not kept later either. -/
theorem Lettered.keep {p q : Packet} (h : Lettered p q) {j : ℕ}
    (hj : isDotOrSlash (p.byte j) = false) : isDotOrSlash (q.byte j) = false := by
  rcases h.byte j with h | ⟨-, h⟩
  · rwa [h]
  · have h65 := UInt8.le_iff_toNat_le.1 h.1
    simp only [isDotOrSlash, Bool.or_eq_false_iff, beq_eq_false_iff_ne]
    constructor <;> rintro h' <;> rw [h'] at h65 <;> exact absurd h65 (by decide)

/-- Visible text in memory. -/
theorem visible_of_reads {d : List UInt8} {i : ℕ} {l : List UInt8} (h : Reads d i l)
    (hl : ∀ c ∈ l, IsVisible c) {j : ℕ} (h₁ : i ≤ j) (h₂ : j < i + l.length) :
    IsVisible (byteAt d j) := by
  rw [h.getElem h₁ h₂]
  exact hl _ (List.getElem_mem _)

/-! ## The layout of a request -/

namespace HttpRequest

variable {r : HttpRequest} {p : Packet} {base : ℕ} {d : List UInt8}

theorem versionOffset_eq (r : HttpRequest) : r.versionOffset = r.uriOffset + r.uri.length + 1 := by
  simp [versionOffset, line, uriOffset]
  omega

theorem hostOffset_le (r : HttpRequest) : r.versionOffset + 14 ≤ r.hostOffset := by
  simp [hostOffset, head, version, versionOffset, hostHead, kwHttp, crlf]

theorem encode_length (r : HttpRequest) : r.hostOffset + r.host.length + 4 ≤ r.encode.length := by
  simp [encode, hostOffset, rest, crlf]
  omega

/-- The three parts of the text. -/
theorem reads_parts (h : Reads d base r.encode) :
    Reads d base r.head ∧ Reads d (base + r.hostOffset) r.host ∧
      byteAt d (base + r.hostOffset + r.host.length) = 13 := by
  simp only [encode, rest, crlf, reads_append, List.length_append] at h
  obtain ⟨⟨hhead, hhost⟩, ⟨⟨hcr, -⟩, -⟩, -⟩ := h
  exact ⟨hhead, hhost, (reads_cons.1 (by rwa [← Nat.add_assoc] at hcr)).1⟩

/-- The parts of the request line. -/
theorem reads_line (h : Reads d base r.head) :
    Reads d base (r.line ++ kwHttp) ∧ Reads d (base + r.uriOffset) r.uri ∧
      byteAt d (base + r.uriOffset + r.uri.length) = 32 := by
  rw [head, reads_append, reads_append, reads_append] at h
  obtain ⟨⟨⟨hline, hver⟩, -⟩, -⟩ := h
  rw [version, reads_append, reads_append] at hver
  refine ⟨reads_append.2 ⟨hline, hver.1.1⟩, ?_⟩
  rw [line, reads_append, reads_append, reads_append] at hline
  obtain ⟨⟨-, huri⟩, hend⟩ := hline
  refine ⟨by simpa [uriOffset] using huri, ?_⟩
  rw [← (reads_cons.1 hend).1]
  congr 1
  simp [uriOffset]
  omega

theorem zero_notMem_method (r : HttpRequest) : 0 ∉ r.method := by
  rw [method]
  split <;> decide

theorem zero_notMem_line (r : HttpRequest) : 0 ∉ r.line ++ kwHttp := by
  have huri : (0 : UInt8) ∉ r.uri := fun h ↦ absurd (r.uri_visible 0 h) (by decide)
  simp [line, zero_notMem_method, huri, kwHttp]

/-- The Referer field. -/
theorem reads_referer (h : Reads d base r.encode) {value : List UInt8} {i : ℕ}
    (hr : r.HasReferer value i) :
    Reads d (base + i) (refererHead ++ value ++ crlf) ∧ (∀ c ∈ value, IsVisible c) ∧
      0 < i ∧ i + (16 + value.length + 2) ≤ r.encode.length := by
  have hfield : ∀ a b c : List UInt8, r.encode = a ++ (refererHead ++ value ++ crlf) ++ b ++ c →
      Reads d (base + a.length) (refererHead ++ value ++ crlf) ∧
        a.length + (16 + value.length + 2) ≤ r.encode.length := by
    intro a b c he
    rw [he] at h
    refine ⟨?_, ?_⟩
    · rw [reads_append, reads_append, reads_append] at h
      exact h.1.1.2
    · rw [he]
      simp [refererHead, crlf]
      omega
  cases hr with
  | before pre post hb =>
    obtain ⟨hreads, hlen⟩ := hfield (r.line ++ r.version ++ encodeFields pre)
      (encodeFields post ++ hostHead) (r.host ++ r.rest)
      (by simp [encode, head, hb, encodeFields, HttpField.encode])
    refine ⟨hreads, r.before_valid (.referer value) (by simp [hb]), ?_, hlen⟩
    simp only [line, List.length_append, List.length_cons]
    omega
  | after pre post ha =>
    obtain ⟨hreads, hlen⟩ := hfield (r.head ++ r.host ++ crlf ++ encodeFields pre)
      (encodeFields post) (crlf ++ r.body)
      (by simp [encode, rest, ha, encodeFields, HttpField.encode])
    refine ⟨hreads, r.after_valid (.referer value) (by simp [ha]), ?_, hlen⟩
    simp only [crlf, List.length_append, List.length_cons]
    omega

end HttpRequest

theorem payloadOffset_pos (protocol : ℕ) (offset : UInt8) : 0 < payloadOffset protocol offset := by
  have h := offset.toNat_lt
  rw [payloadOffset, if_neg (by omega)]
  split <;> omega

/-! ## The three steps on a plain request -/

namespace HttpRequest

variable {r : HttpRequest} {p : Packet} {base : ℕ} {env : HandlerEnv}

/-- Only characters of the Host value change in the first step. -/
theorem lettered_hostDrawn (env : HandlerEnv) (hp : r.InPacket p base) :
    Lettered p (r.hostDrawn p base env) := by
  obtain ⟨-, hhost, -⟩ := reads_parts hp.reads
  have h₁ := r.encode_length
  have h₂ := hp.fits
  have h₃ := p.pktLen_le
  exact lettered_mask (fun j ↦ visible_of_reads hhost r.host_visible) (by omega)

/-- The text before the Host value after the first step. -/
theorem reads_hostDrawn (env : HandlerEnv) (hp : r.InPacket p base) :
    Reads (r.hostDrawn p base env).data base r.head := by
  have h₁ := r.encode_length
  have h₂ := hp.fits
  have h₃ := p.pktLen_le
  refine (reads_parts hp.reads).1.congr fun j _ hj ↦ ?_
  refine (Packet.mask_byte (by omega) j).trans (if_neg ?_)
  rw [hostOffset]
  omega

/-- **The module finds the URI**: the text starts with the method. -/
theorem uriStart_spec (hp : r.InPacket p base) (hplain : r.Plain p base env) :
    uriStart (r.hostDrawn p base env) base base =
      some (base + r.uriOffset, base + r.uriOffset) := by
  have hself : strcasestr r.method ((r.hostDrawn p base env).text base) = some 0 := by
    have hmeth := reads_hostDrawn env hp
    simp only [head, line, reads_append] at hmeth
    rw [Packet.text, cstr_append hmeth.1.1.1.1.1.1 r.zero_notMem_method]
    exact strcasestr_self ..
  rw [uriStart]
  cases hpost : r.post with
  | false =>
    simp only [method, hpost, Bool.false_eq_true, if_false] at hself
    rw [hself]
    simp [uriOffset, method, hpost, kwGet]
  | true =>
    simp only [method, hpost, if_true] at hself
    rw [hplain.get_none hpost, hself]
    simp [uriOffset, method, hpost, kwPost]

/-- **The URI is replaced.** -/
theorem obfuscateUri_spec (hp : r.InPacket p base) (hplain : r.Plain p base env) :
    obfuscateUri (r.hostDrawn p base env) base base (env.tsc 1) =
      (r.uriDrawn p base env, true) := by
  have hlet := lettered_hostDrawn env hp
  have hhead := reads_hostDrawn env hp
  obtain ⟨hline, huri, hend⟩ := reads_line hhead
  have h₀ := r.versionOffset_eq
  have h₁ := r.hostOffset_le
  have h₂ := r.encode_length
  have h₃ := hp.fits
  have h₄ := p.pktLen_le
  have hhttp : strcasestr kwHttp ((r.hostDrawn p base env).text base) = some r.versionOffset := by
    have hfirst := hplain.http_first
    rw [Packet.text, cstr_append (reads_line (reads_parts hp.reads).1).1
      r.zero_notMem_line] at hfirst
    rw [Packet.text, cstr_append hline r.zero_notMem_line]
    exact strcasestr_append (by simp [versionOffset]) _ hfirst
  rw [obfuscateUri, uriStart_spec hp hplain]
  simp only [hhttp, hlet.pktLen]
  rw [if_neg (by omega)]
  refine uriLoop_spec (fun j hj₁ hj₂ ↦ ?_) hend (by omega) (by omega) ?_ ?_
  · exact isVisible_ne (visible_of_reads huri r.uri_visible hj₁ hj₂) (by decide)
  · rw [hlet.pktLen]
    omega
  · rw [hlet.length]
    omega

/-- Only visible characters change in the first two steps. -/
theorem lettered_uriDrawn (env : HandlerEnv) (hp : r.InPacket p base) :
    Lettered p (r.uriDrawn p base env) := by
  have hlet := lettered_hostDrawn env hp
  obtain ⟨-, huri, -⟩ := reads_line (reads_hostDrawn env hp)
  have h₀ := r.versionOffset_eq
  have h₁ := r.hostOffset_le
  have h₂ := r.encode_length
  have h₃ := hp.fits
  have h₄ := p.pktLen_le
  refine hlet.trans (lettered_mask (fun j ↦ visible_of_reads huri r.uri_visible) ?_)
  rw [hlet.length]
  omega

/-- **The Referer value is replaced.** -/
theorem obfuscateReferer_spec (hp : r.InPacket p base) (hplain : r.Plain p base env)
    {value : List UInt8} {i : ℕ} (hr : r.HasReferer value i) :
    obfuscateReferer (r.uriDrawn p base env) base base (env.tsc 2) =
      (r.uriDrawn p base env).mask isDotOrSlash (env.tsc 2) value.length (base + i + 16) := by
  have hlet := lettered_uriDrawn env hp
  obtain ⟨hreads, hvis, hi, hle⟩ := reads_referer hp.reads hr
  simp only [reads_append, List.length_append] at hreads
  obtain ⟨⟨-, hvalue⟩, hcr⟩ := hreads
  have h₃ := hp.fits
  have h₄ := p.pktLen_le
  rw [obfuscateReferer, hplain.refer_first value i hr]
  simp only [hlet.pktLen]
  rw [if_neg (by omega)]
  refine refererLoop_spec (i := 0) (fun j hj₁ hj₂ ↦ ?_) ?_
    (by simpa using hplain.referer_le value i hr)
    ?_ ?_
  · exact endsField_of_visible (hlet.visible (visible_of_reads hvalue hvis hj₁ hj₂))
  · have h13 : p.byte (base + i + 16 + value.length) = 13 := by
      rw [← (reads_cons.1 hcr).1, Packet.byte]
      congr 1
      simp [refererHead]
      omega
    rw [hlet.not_visible (by rw [h13]; decide), h13]
    decide
  · rw [hlet.pktLen]
    omega
  · rw [hlet.length]
    omega

/-- **The module gets to the rewriting.** -/
theorem httpEntry_eq (hp : r.InPacket p (offsetExtractorHttp 0 (p.byte 46)))
    (hplain : r.Plain p (offsetExtractorHttp 0 (p.byte 46)) env) (newPacket : Flow)
    (flowDb : HashStruct) (kAnon kDelta : ℤ) :
    httpEntry p 0 (p.byte 46) newPacket flowDb kAnon kDelta env =
      httpRewrite p (offsetExtractorHttp 0 (p.byte 46)) (offsetExtractorHttp 0 (p.byte 46))
        (offsetExtractorHttp 0 (p.byte 46) + r.hostOffset) r.host newPacket flowDb kAnon kDelta
        env := by
  obtain ⟨-, hhost, hcr⟩ := reads_parts hp.reads
  have hpos : offsetExtractorHttp 0 (p.byte 46) ≠ 0 := (payloadOffset_pos ..).ne'
  have h₁ := r.hostOffset_le
  have h₂ := r.encode_length
  have h₃ := hp.fits
  have h₄ := r.host_pos
  have h₅ := hplain.host_le
  rw [httpEntry, httpHeaderExtractor]
  simp only [if_neg hpos]
  generalize offsetExtractorHttp 0 (p.byte 46) = base at *
  have hstart : base + (r.hostOffset - 6) + 6 = base + r.hostOffset := by omega
  rw [hplain.host_first]
  simp only [hstart]
  have hname : r.host.takeWhile (· ≠ 0) = r.host := by
    refine List.takeWhile_eq_self_iff.2 fun c hc ↦ ?_
    simpa using isVisible_ne (r.host_visible c hc) (by decide : (0 : UInt8) ≤ 32)
  rw [if_neg (by omega), hostLoop_spec r.host_visible hhost (by rw [Packet.byte, hcr]; decide) h₅
    (by omega)]
  simp only [List.nil_append, hname]
  rw [if_neg (by omega)]

theorem Fresh.mask {q : Packet} {j : ℕ} (h : Fresh env q j) {keep : UInt8 → Bool} {l n i : ℕ}
    (hl : l < 3) (hle : i + n ≤ q.data.length) : Fresh env (q.mask keep (env.tsc l) n i) j := by
  rw [Fresh, Packet.mask_byte hle]
  split
  · exact ⟨l, hl, rfl⟩
  · exact h

/-- **The three steps leave letters drawn at random.** -/
theorem obfuscated_steps (hp : r.InPacket p base) (hplain : r.Plain p base env) :
    r.Obfuscated p base env (obfuscateReferer (r.uriDrawn p base env) base base (env.tsc 2)) := by
  have hlet₁ := lettered_hostDrawn env hp
  have hlet₂ := lettered_uriDrawn env hp
  have h₀ := r.versionOffset_eq
  have h₁ := r.hostOffset_le
  have h₂ := r.encode_length
  have h₃ := hp.fits
  have h₄ := p.pktLen_le
  have huri : base + r.uriOffset + r.uri.length ≤ (r.hostDrawn p base env).data.length := by
    rw [hlet₁.length]
    omega
  -- the last step only draws more letters
  have hlast : ∀ j, Fresh env (r.uriDrawn p base env) j →
      Fresh env (obfuscateReferer (r.uriDrawn p base env) base base (env.tsc 2)) j := by
    intro j hj
    rw [obfuscateReferer]
    split
    · exact hj
    split
    · exact hj
    · rcases refererLoop_byte (env.tsc 2) 65 0 (base + 16) _ (r.uriDrawn p base env) j with h | h
      · rwa [Fresh, h]
      · exact ⟨2, by decide, h⟩
  refine ⟨fun j hj₁ hj₂ hkeep ↦ ?_, fun j hj₁ hj₂ hkeep ↦ ?_, fun value i hr j hj₁ hj₂ hkeep ↦ ?_⟩
  · refine hlast j (Fresh.mask ⟨0, by decide, ?_⟩ (by decide) huri)
    exact (Packet.mask_byte (by omega) j).trans (if_pos ⟨hj₁, hj₂, hkeep⟩)
  · refine hlast j ⟨1, by decide, ?_⟩
    exact (Packet.mask_byte huri j).trans (if_pos ⟨hj₁, hj₂, hlet₁.keep hkeep⟩)
  · obtain ⟨-, -, -, hle⟩ := reads_referer hp.reads hr
    refine ⟨2, by decide, ?_⟩
    rw [obfuscateReferer_spec hp hplain hr]
    exact (Packet.mask_byte (by rw [hlet₂.length]; omega) j).trans
      (if_pos ⟨hj₁, hj₂, hlet₂.keep hkeep⟩)

end HttpRequest

/-! ## When a request is obfuscated -/

/-- No name that fits into a record has as many users as the threshold, even with one more. -/
def Quiet (flowDb : HashStruct) (newPacket : Flow) (kAnon kDelta : ℤ) (env : TableEnv) : Prop :=
  ∀ name, name.length < nameDns →
    ∃ db' ret, tableAdd flowDb newPacket name kAnon kDelta env = some (db', ret) ∧ ret < kAnon

/-- **Plain requests are obfuscated.** -/
theorem http_obfuscated {r : HttpRequest} {p : Packet} {newPacket : Flow} {flowDb : HashStruct}
    {kAnon kDelta : ℤ} {env : HandlerEnv}
    (hp : r.InPacket p (offsetExtractorHttp 0 (p.byte 46)))
    (hquiet : Quiet flowDb newPacket kAnon kDelta env.table)
    (hplain : r.Plain p (offsetExtractorHttp 0 (p.byte 46)) env) :
    ∃ res, httpEntry p 0 (p.byte 46) newPacket flowDb kAnon kDelta env = some res ∧
      r.Obfuscated p (offsetExtractorHttp 0 (p.byte 46)) env res.packet := by
  obtain ⟨db', ret, hadd, hret⟩ := hquiet r.host (r.host_le.trans_lt (by decide))
  have hrun : httpEntry p 0 (p.byte 46) newPacket flowDb kAnon kDelta env =
      some ⟨obfuscateReferer (r.uriDrawn p (offsetExtractorHttp 0 (p.byte 46)) env)
        (offsetExtractorHttp 0 (p.byte 46)) (offsetExtractorHttp 0 (p.byte 46)) (env.tsc 2), 1, db',
        some (r.host, ret)⟩ := by
    rw [HttpRequest.httpEntry_eq hp hplain, httpRewrite, hadd]
    simp only [Option.bind_eq_bind, Option.bind_some, if_pos hret]
    have huri := HttpRequest.obfuscateUri_spec hp hplain
    rw [HttpRequest.hostDrawn] at huri
    rw [huri, if_pos rfl]
  exact ⟨_, hrun, HttpRequest.obfuscated_steps hp hplain⟩

/-- Before the first call no name has a user, so that none can reach two. -/
theorem quiet_tableInit (newPacket : Flow) (env : TableEnv) (h₁ : env.allocNames = true)
    (h₂ : env.allocLru = true) : Quiet tableInit newPacket 2 60 env := by
  intro name hfits
  obtain ⟨db', hadd, -⟩ := tableAdd_spec (k := 2) (d := 60) view_tableInit (by decide)
    (c := ⟨newPacket, name, env⟩) ⟨h₁, h₂⟩ hfits
  refine ⟨db', _, hadd, ?_⟩
  simp [NameTab.add, NameTab.empty, NameBucket.add, Names.reference, Recency.touch]

/-- The digit 1 is visible. -/
theorem isVisible_one : IsVisible 49 := by decide

/-- A GET request for the host `a`, without other fields. -/
def HttpRequest.short (uri : List UInt8) (h : ∀ c ∈ uri, IsVisible c) : HttpRequest where
  post := false
  uri := uri
  minor := 49
  before := []
  host := [97]
  after := []
  body := []
  uri_visible := h
  minor_visible := isVisible_one
  before_valid := by simp
  host_pos := by decide
  host_le := by decide
  host_visible := by simp [IsVisible]
  after_valid := by simp

/-- 54 bytes of headers, with the data offset of a TCP header without options. -/
def tcpHead : List UInt8 := List.replicate 46 0 ++ 0x50 :: List.replicate 7 0

/-- A frame with a request after the headers. -/
def HttpRequest.frame (r : HttpRequest) : Packet :=
  ⟨tcpHead ++ (r.encode ++ []), (tcpHead ++ (r.encode ++ [])).length, le_rfl⟩

theorem HttpRequest.frame_base (r : HttpRequest) :
    offsetExtractorHttp 0 (r.frame.byte 46) = 54 := by
  have h : r.frame.byte 46 = 0x50 := by
    rw [frame, Packet.byte, byteAt, List.getD_append _ _ _ _ (by decide)]
    decide
  rw [h]
  decide

theorem HttpRequest.inPacket_frame (r : HttpRequest) :
    r.InPacket r.frame (offsetExtractorHttp 0 (r.frame.byte 46)) where
  reads := by
    rw [frame_base]
    exact reads_of_append tcpHead r.encode []
  fits := by
    have h : tcpHead.length = 54 := by decide
    rw [frame_base, frame]
    simp only [List.length_append, List.length_nil, h]
    omega

theorem HttpRequest.not_hasReferer_short {uri : List UInt8} {h : ∀ c ∈ uri, IsVisible c}
    {value : List UInt8} {i : ℕ} : ¬(HttpRequest.short uri h).HasReferer value i := by
  rintro (⟨pre, post, h⟩ | ⟨pre, post, h⟩) <;> simp [HttpRequest.short] at h

/-- A flow from a client to an HTTP server. -/
def httpFlow : Flow := ⟨4, 1, 2, 0, 0, 40000, 80, 6, 0⟩

/-- The URI `/b`. -/
theorem slashB_visible : ∀ c ∈ ([47, 98] : List UInt8), IsVisible c := by
  simp [IsVisible]

/-- The URI `/host`. -/
theorem slashHost_visible : ∀ c ∈ ([47, 104, 111, 115, 116] : List UInt8), IsVisible c := by
  simp [IsVisible]

/-- The request `GET /b` for the host `a` is obfuscated. -/
theorem http_obfuscated_short :
    ∃ res, httpEntry (HttpRequest.short [47, 98] slashB_visible).frame 0
        ((HttpRequest.short [47, 98] slashB_visible).frame.byte 46) httpFlow tableInit 2 60
        ⟨⟨0, true, true⟩, fun _ _ ↦ 0, fun _ ↦ true, 0⟩ = some res ∧
      (HttpRequest.short [47, 98] slashB_visible).Obfuscated
        (HttpRequest.short [47, 98] slashB_visible).frame
        (offsetExtractorHttp 0 ((HttpRequest.short [47, 98] slashB_visible).frame.byte 46))
        ⟨⟨0, true, true⟩, fun _ _ ↦ 0, fun _ ↦ true, 0⟩ res.packet :=
  http_obfuscated (HttpRequest.inPacket_frame _) (quiet_tableInit _ _ rfl rfl)
    { host_first := by decide +kernel
      host_le := by decide
      get_none := by simp [HttpRequest.short]
      http_first := by decide +kernel
      refer_first := fun _ _ h ↦ absurd h HttpRequest.not_hasReferer_short
      referer_le := fun _ _ h ↦ absurd h HttpRequest.not_hasReferer_short }

/-- The request `GET /host` for the host `a`: the module counts and replaces `TTP/1.1`, the text six
characters after the first `host`, and leaves the Host value as it is. -/
theorem http_obfuscated_fails : ¬∀ (r : HttpRequest) (p : Packet) (newPacket : Flow)
    (flowDb : HashStruct) (kAnon kDelta : ℤ) (env : HandlerEnv),
    r.InPacket p (offsetExtractorHttp 0 (p.byte 46)) →
    Quiet flowDb newPacket kAnon kDelta env.table →
    ∃ res, httpEntry p 0 (p.byte 46) newPacket flowDb kAnon kDelta env = some res ∧
      r.Obfuscated p (offsetExtractorHttp 0 (p.byte 46)) env res.packet := by
  intro hall
  let r := HttpRequest.short [47, 104, 111, 115, 116] slashHost_visible
  obtain ⟨res, hres, hobf⟩ := hall r r.frame httpFlow tableInit 2 60
    ⟨⟨0, true, true⟩, fun _ _ ↦ 0, fun _ ↦ true, 0⟩ r.inPacket_frame (quiet_tableInit _ _ rfl rfl)
  have hbyte : ((httpEntry r.frame 0 (r.frame.byte 46) httpFlow tableInit 2 60
      ⟨⟨0, true, true⟩, fun _ _ ↦ 0, fun _ ↦ true, 0⟩).map (·.packet.byte (54 + r.hostOffset))) =
        some 97 := by
    decide +kernel
  rw [hres, Option.map_some] at hbyte
  obtain ⟨l, -, hl⟩ := hobf.host (54 + r.hostOffset) (by decide) (by decide) (by decide +kernel)
  have hletter : randChar 0 = 65 := by decide
  rw [Option.some.inj hbyte, hletter] at hl
  exact absurd hl (by decide)

end AlphaMon
