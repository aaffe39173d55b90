import AlphaMon.TableRun
import AlphaMon.TlsMng

/-!
# Server names in ClientHellos

A `ClientHello` is a ClientHello record with a server name in it, given by its parts, and
`ClientHello.encode` is its wire format.  The lengths in the record are those of its parts, and the
bounds that let them fit their fields are part of the structure.

For every packet that holds such a record, `sni_obfuscated_iff` says exactly when the TLS module
does its work: it counts the host name and, below the threshold, replaces it, if and only if the
byte in memory right after the host name is `0`.  That byte belongs to the next extension, to the
next record, or to the memory after the packet; the module depends on it because it compares the
length of the name with that of the C string at its first byte.
-/

set_option autoImplicit false

namespace AlphaMon

open CString

/-- An extension of a ClientHello. -/
structure Extension where
  type : ℕ
  body : List UInt8
  type_lt : type < 2 ^ 16
  body_lt : body.length < 2 ^ 16

/-- The wire format of an extension. -/
def Extension.encode (e : Extension) : List UInt8 := be16 e.type ++ be16 e.body.length ++ e.body

/-- The wire format of a list of extensions. -/
def encodeExtensions (es : List Extension) : List UInt8 := es.flatMap Extension.encode

/-- A ClientHello record with one host name in a server name extension. -/
structure ClientHello where
  /-- The minor version of the record. -/
  minor : UInt8
  /-- `client_version` and `random`. -/
  random : List UInt8
  sessionId : List UInt8
  cipherSuites : List UInt8
  compression : List UInt8
  /-- The extensions before the server name. -/
  before : List Extension
  host : List UInt8
  /-- The extensions after the server name. -/
  after : List Extension
  random_length : random.length = 34
  sessionId_lt : sessionId.length < 2 ^ 8
  cipherSuites_lt : cipherSuites.length < 2 ^ 16
  compression_lt : compression.length < 2 ^ 8
  /-- There is one server name extension. -/
  before_type : ∀ e ∈ before, e.type ≠ 0
  host_pos : 1 ≤ host.length
  host_lt : host.length < nameDns
  host_text : 0 ∉ host
  extensions_lt :
    (encodeExtensions before).length + (9 + host.length) + (encodeExtensions after).length < 2 ^ 16

namespace ClientHello

/-- The server name extension up to the host name: type, length, length of the list, name type and
length of the name. -/
def sniHead (h : ClientHello) : List UInt8 :=
  be16 0 ++ be16 (h.host.length + 5) ++ be16 (h.host.length + 3) ++ [0] ++ be16 h.host.length

/-- The extensions. -/
def extensions (h : ClientHello) : List UInt8 :=
  encodeExtensions h.before ++ (h.sniHead ++ h.host ++ encodeExtensions h.after)

/-- The body of the ClientHello message. -/
def body (h : ClientHello) : List UInt8 :=
  h.random ++ ([UInt8.ofNat h.sessionId.length] ++ h.sessionId ++ (be16 h.cipherSuites.length ++
    h.cipherSuites ++ ([UInt8.ofNat h.compression.length] ++ h.compression ++
      (be16 h.extensions.length ++ h.extensions))))

/-- The wire format: the header of the record, the header of the message, the message. -/
def encode (h : ClientHello) : List UInt8 :=
  [22, 3, h.minor] ++ be16 (h.body.length + 4) ++
    [1, UInt8.ofNat (h.body.length / 2 ^ 16)] ++ be16 (h.body.length % 2 ^ 16) ++ h.body

/-- The position of the extensions in the wire format. -/
def extOffset (h : ClientHello) : ℕ :=
  49 + h.sessionId.length + h.cipherSuites.length + h.compression.length

/-- The position of the host name in the wire format. -/
def hostOffset (h : ClientHello) : ℕ := h.extOffset + (encodeExtensions h.before).length + 9

/-- The record stands in the packet at position `base`. -/
structure InPacket (h : ClientHello) (p : Packet) (base : ℕ) : Prop where
  reads : Reads p.data base h.encode
  fits : base + h.encode.length ≤ p.pktLen

theorem extensions_length (h : ClientHello) : h.extensions.length =
    (encodeExtensions h.before).length + (9 + h.host.length) +
      (encodeExtensions h.after).length := by
  simp [extensions, sniHead]
  omega

/-- The position of the byte after the host name in the wire format. -/
theorem hostOffset_le (h : ClientHello) : h.hostOffset + h.host.length ≤ h.encode.length := by
  simp [encode, body, hostOffset, extOffset, extensions_length, h.random_length]
  omega

/-- **The layout of the record**, field by field. -/
theorem reads_fields {h : ClientHello} {d : List UInt8} {i : ℕ} (hd : Reads d i h.encode) :
    Reads d (i + 43) [UInt8.ofNat h.sessionId.length] ∧
    Reads d (i + 44 + h.sessionId.length) (be16 h.cipherSuites.length) ∧
    Reads d (i + 46 + h.sessionId.length + h.cipherSuites.length)
      [UInt8.ofNat h.compression.length] ∧
    Reads d (i + 47 + h.sessionId.length + h.cipherSuites.length + h.compression.length)
      (be16 h.extensions.length) ∧
    Reads d (i + h.extOffset) h.extensions := by
  simp only [encode, body, reads_append, List.length_append, List.length_cons, List.length_nil,
    be16_length, h.random_length] at hd
  obtain ⟨-, -, ⟨hsid, -⟩, ⟨hcs, -⟩, ⟨hcmp, -⟩, hlen, hext⟩ := hd
  refine ⟨?_, ?_, ?_, ?_, ?_⟩
  · convert hsid using 1
  · convert hcs using 1
    omega
  · convert hcmp using 1
    omega
  · convert hlen using 1
    omega
  · convert hext using 1
    rw [extOffset]
    omega

/-- The layout of the server name extension. -/
theorem reads_sni {h : ClientHello} {d : List UInt8} {i : ℕ} (hd : Reads d i h.encode) :
    Reads d (i + h.extOffset) (encodeExtensions h.before) ∧
    Reads d (i + h.extOffset + (encodeExtensions h.before).length) (be16 0) ∧
    Reads d (i + h.hostOffset - 2) (be16 h.host.length) ∧
    Reads d (i + h.hostOffset) h.host := by
  obtain ⟨-, -, -, -, hext⟩ := reads_fields hd
  simp only [extensions, sniHead, reads_append, List.length_append, List.length_cons,
    List.length_nil, be16_length] at hext
  obtain ⟨hbefore, ⟨⟨⟨⟨⟨hty, -⟩, -⟩, -⟩, hlen⟩, hhost⟩, -⟩ := hext
  refine ⟨hbefore, hty, ?_, ?_⟩
  · convert hlen using 1
    rw [hostOffset]
    omega
  · convert hhost using 1
    rw [hostOffset]
    omega

end ClientHello

/-! ## The walk to the server name -/

theorem Packet.ntohs_eq {p : Packet} {i n : ℕ} (h : Reads p.data i (be16 n)) (hn : n < 2 ^ 16) :
    p.ntohs i = n :=
  reads_be16 h hn

/-- **The loop stops at the server name**: it steps over the extensions before it. -/
theorem extLoop_spec {p : Packet} {maxchar : ℕ} {before : List Extension}
    (htype : ∀ e ∈ before, e.type ≠ 0) {fuel curr : ℕ}
    (hbefore : Reads p.data curr (encodeExtensions before))
    (hsni : Reads p.data (curr + (encodeExtensions before).length) (be16 0))
    (hmax : curr + (encodeExtensions before).length < maxchar) (hfuel : maxchar - curr ≤ fuel) :
    extLoop p maxchar fuel curr = .inl (curr + (encodeExtensions before).length + 4) := by
  induction before generalizing fuel curr with
  | nil =>
    simp only [encodeExtensions, List.flatMap_nil, List.length_nil, Nat.add_zero] at hmax hsni ⊢
    obtain ⟨fuel, rfl⟩ : ∃ f, fuel = f + 1 := ⟨fuel - 1, by omega⟩
    rw [extLoop, if_pos hmax, if_pos (Packet.ntohs_eq hsni (by decide))]
  | cons e before ih =>
    have hcons : encodeExtensions (e :: before) = e.encode ++ encodeExtensions before := rfl
    have hlen : e.encode.length = 4 + e.body.length := by simp [Extension.encode]; omega
    rw [hcons, List.length_append, hlen] at hmax hsni ⊢
    rw [hcons, reads_append, hlen] at hbefore
    obtain ⟨he, hbefore⟩ := hbefore
    obtain ⟨⟨hty, hbody⟩, -⟩ := by simpa only [Extension.encode, reads_append] using he
    obtain ⟨fuel, rfl⟩ : ∃ f, fuel = f + 1 := ⟨fuel - 1, by omega⟩
    have h₁ : p.ntohs curr = e.type := Packet.ntohs_eq hty e.type_lt
    have h₂ : p.ntohs (curr + 2) = e.body.length := Packet.ntohs_eq hbody e.body_lt
    rw [extLoop, if_pos (by omega), h₁, if_neg (htype e (by simp)), h₂]
    rw [Nat.add_assoc curr]
    rw [ih (fun e' he' ↦ htype e' (by simp [he'])) hbefore (by rwa [Nat.add_assoc]) (by omega)
      (by omega)]
    congr 1
    omega

/-- **The walk over a ClientHello** ends at its host name. -/
theorem tlsHelloEntry_eq {h : ClientHello} {p : Packet} {offset : UInt8}
    (hp : h.InPacket p (offsetExtractorTls 0 offset)) (newPacket : Flow) (flowDb : HashStruct)
    (kAnon kDelta : ℤ) (env : HandlerEnv) :
    tlsHelloEntry p 0 offset newPacket flowDb kAnon kDelta env =
      sniEntry p (offsetExtractorTls 0 offset + h.hostOffset - 5) newPacket flowDb kAnon kDelta
        env := by
  obtain ⟨hsid, hcs, hcmp, hlen, -⟩ := ClientHello.reads_fields hp.reads
  obtain ⟨hbefore, hty, -, -⟩ := ClientHello.reads_sni hp.reads
  have hlt := h.extensions_lt
  rw [← h.extensions_length] at hlt
  rw [tlsHelloEntry]
  generalize offsetExtractorTls 0 offset = base at *
  -- the four lengths, at the positions at which the code reads them
  have h₁ : (p.byte (base + 43)).toNat = h.sessionId.length := reads_byte hsid h.sessionId_lt
  have h₂ : p.ntohs (base + 1 + 43 + h.sessionId.length) = h.cipherSuites.length := by
    rw [Nat.add_assoc base]
    exact Packet.ntohs_eq hcs h.cipherSuites_lt
  have h₃ : (p.byte (base + 1 + 43 + h.sessionId.length + (2 + h.cipherSuites.length))).toNat =
      h.compression.length := by
    rw [← reads_byte hcmp h.compression_lt, Packet.byte]
    congr 2
    omega
  have h₄ : p.ntohs (base + 1 + 43 + h.sessionId.length + (2 + h.cipherSuites.length) +
      (1 + h.compression.length)) = h.extensions.length := by
    rw [← Packet.ntohs_eq hlen hlt]
    congr 1
    omega
  have hext : base + 1 + 43 + h.sessionId.length + (2 + h.cipherSuites.length) +
      (1 + h.compression.length) + 2 = base + h.extOffset := by
    rw [ClientHello.extOffset]
    omega
  simp only [h₁, h₂, h₃, h₄, hext]
  rw [extLoop_spec h.before_type hbefore hty (by rw [h.extensions_length]; omega) (by omega)]
  simp only [ClientHello.hostOffset]
  congr 1
  omega

/-! ## When the name is found -/

namespace ClientHello

variable {h : ClientHello} {p : Packet} {base : ℕ}

/-- What the TLS module should do with a ClientHello: count its host name and, below the threshold,
replace it. -/
structure Handled (h : ClientHello) (p : Packet) (base : ℕ) (kAnon ret : ℤ) (db : HashStruct)
    (r : HandlerResult) : Prop where
  counted : r.counted = some (h.host, ret)
  db : r.db = db
  /-- Below the threshold the name is replaced. -/
  below : ret < kAnon → r.flag ≠ 0 ∧
    p.Obfuscated (· == 46) (base + h.hostOffset) h.host.length r.packet
  /-- From the threshold on nothing changes. -/
  above : kAnon ≤ ret → r.flag = 0 ∧ r.packet = p

/-- The host name is in memory. -/
theorem InPacket.host_le (hp : h.InPacket p base) :
    base + h.hostOffset + h.host.length ≤ p.data.length := by
  have h₁ := h.hostOffset_le
  have h₂ := hp.fits
  have h₃ := p.pktLen_le
  omega

/-- **The string at the host name** has its length only if it ends with it. -/
theorem InPacket.text_length_iff (hp : h.InPacket p base) :
    (p.text (base + h.hostOffset)).length = h.host.length ↔
      p.byte (base + h.hostOffset + h.host.length) = 0 := by
  obtain ⟨-, -, -, hhost⟩ := reads_sni hp.reads
  constructor
  · intro hlen
    exact (cstr_eq_iff.1 (cstr_eq_of_length hhost hlen)).2.2
  · intro h0
    rw [Packet.text, cstr_eq_iff.2 ⟨hhost, h.host_text, h0⟩]

/-- The string at the host name, when it ends with it. -/
theorem InPacket.text_eq (hp : h.InPacket p base)
    (h0 : p.byte (base + h.hostOffset + h.host.length) = 0) :
    p.text (base + h.hostOffset) = h.host :=
  cstr_eq_iff.2 ⟨(reads_sni hp.reads).2.2.2, h.host_text, h0⟩

end ClientHello

/-- **Server names are obfuscated exactly when a `0` follows them in memory.** -/
theorem sni_obfuscated_iff {h : ClientHello} {p : Packet} {offset : UInt8}
    (hp : h.InPacket p (offsetExtractorTls 0 offset)) {newPacket : Flow} {flowDb db' : HashStruct}
    {kAnon kDelta ret : ℤ} {env : HandlerEnv}
    (htab : tableAdd flowDb newPacket h.host kAnon kDelta env.table = some (db', ret)) :
    (∃ r, tlsHelloEntry p 0 offset newPacket flowDb kAnon kDelta env = some r ∧
        h.Handled p (offsetExtractorTls 0 offset) kAnon ret db' r) ↔
      p.byte (offsetExtractorTls 0 offset + h.hostOffset + h.host.length) = 0 := by
  rw [tlsHelloEntry_eq hp, ← hp.text_length_iff]
  have hlen : p.ntohs (offsetExtractorTls 0 offset + h.hostOffset - 5 + 3) = h.host.length := by
    rw [← Packet.ntohs_eq (ClientHello.reads_sni hp.reads).2.2.1 (h.host_lt.trans (by decide))]
    congr 1
  have hcurr : offsetExtractorTls 0 offset + h.hostOffset - 5 + 5 =
      offsetExtractorTls 0 offset + h.hostOffset := by
    rw [ClientHello.hostOffset]
    omega
  have hle := hp.host_le
  simp only [sniEntry, hlen, hcurr]
  constructor
  · rintro ⟨r, hr, hh⟩
    split at hr
    · -- the module has given up, so it has not counted the name
      obtain rfl := Option.some.inj hr
      exact absurd hh.counted (by simp)
    · next hname => exact (not_not.1 fun hne ↦ hname (.inr hne)).symm
  · intro htext
    have hname := hp.text_eq (hp.text_length_iff.1 htext)
    have hpos := h.host_pos
    rw [if_neg (by omega), hname, htab]
    simp only [Option.bind_eq_bind, Option.bind_some]
    split
    · next hlt =>
      exact ⟨_, rfl, rfl, rfl, fun _ ↦ ⟨by simp, Packet.mask_obfuscated hle⟩, fun hge ↦ by omega⟩
    · next hge => exact ⟨_, rfl, rfl, rfl, fun hlt ↦ absurd hlt hge, fun _ ↦ ⟨rfl, rfl⟩⟩

/-- A short ClientHello for the host `a.b`. -/
def ClientHello.short (after : List Extension)
    (h : 12 + (encodeExtensions after).length < 2 ^ 16) : ClientHello where
  minor := 1
  random := List.replicate 34 7
  sessionId := []
  cipherSuites := [19, 1]
  compression := [0]
  before := []
  host := [97, 46, 98]
  after := after
  random_length := rfl
  sessionId_lt := by decide
  cipherSuites_lt := by decide
  compression_lt := by decide
  before_type := by simp
  host_pos := by decide
  host_lt := by decide
  host_text := by decide
  extensions_lt := by simpa [encodeExtensions] using h

/-- A frame with a ClientHello after 54 bytes of headers. -/
def ClientHello.frame (h : ClientHello) : Packet :=
  ⟨List.replicate 54 0 ++ (h.encode ++ []), (List.replicate 54 0 ++ (h.encode ++ [])).length,
    le_rfl⟩

theorem ClientHello.inPacket_frame (h : ClientHello) : h.InPacket h.frame 54 where
  reads := reads_of_append (List.replicate 54 0) h.encode []
  fits := by
    simp only [frame, List.length_append, List.length_replicate, List.length_nil]
    omega

/-- A flow from a client to a TLS server. -/
def tlsFlow : Flow := ⟨4, 1, 2, 0, 0, 40000, 443, 6, 0⟩

/-- In zeroed memory the name of the last extension is found and replaced. -/
theorem sni_obfuscated_last : ∃ db' ret,
    tableAdd tableInit tlsFlow [97, 46, 98] 2 60 ⟨0, true, true⟩ = some (db', ret) ∧
    ((∃ r, tlsHelloEntry (ClientHello.short [] (by decide)).frame 0 0x50 tlsFlow tableInit 2 60
        ⟨⟨0, true, true⟩, fun _ _ ↦ 0, fun _ ↦ true, 0⟩ = some r ∧
      (ClientHello.short [] (by decide)).Handled (ClientHello.short [] (by decide)).frame 54 2 ret
        db' r) ↔
      (ClientHello.short [] (by decide)).frame.byte
        (54 + (ClientHello.short [] (by decide)).hostOffset + 3) = 0) := by
  obtain ⟨db', hadd, -⟩ := tableAdd_spec (k := 2) (d := 60) view_tableInit (by decide)
    (c := ⟨tlsFlow, [97, 46, 98], ⟨0, true, true⟩⟩) ⟨rfl, rfl⟩ (by decide)
  exact ⟨db', _, hadd, sni_obfuscated_iff
    (ClientHello.short [] (by decide)).inPacket_frame hadd⟩

/-- An extension after the server name, of a type whose first byte is not `0`, hides the name. -/
theorem sni_obfuscated_fails : ¬∀ (h : ClientHello) (p : Packet) (offset : UInt8) (newPacket : Flow)
    (flowDb db' : HashStruct) (kAnon kDelta ret : ℤ) (env : HandlerEnv),
    h.InPacket p (offsetExtractorTls 0 offset) →
    tableAdd flowDb newPacket h.host kAnon kDelta env.table = some (db', ret) →
    ∃ r, tlsHelloEntry p 0 offset newPacket flowDb kAnon kDelta env = some r ∧
      h.Handled p (offsetExtractorTls 0 offset) kAnon ret db' r := by
  intro hall
  let h := ClientHello.short [⟨0x1234, [], by decide, by decide⟩] (by decide)
  obtain ⟨db', hadd, -⟩ := tableAdd_spec (k := 2) (d := 60) view_tableInit (by decide)
    (c := ⟨tlsFlow, [97, 46, 98], ⟨0, true, true⟩⟩) ⟨rfl, rfl⟩ (by decide)
  obtain ⟨r, hr, hh⟩ := hall h h.frame 0x50 tlsFlow tableInit db' 2 60 _
    ⟨⟨0, true, true⟩, fun _ _ ↦ 0, fun _ ↦ true, 0⟩ h.inPacket_frame hadd
  have hnone : ((tlsHelloEntry h.frame 0 0x50 tlsFlow tableInit 2 60
      ⟨⟨0, true, true⟩, fun _ _ ↦ 0, fun _ ↦ true, 0⟩).map (·.counted)) = some none := by
    decide +kernel
  rw [hr, Option.map_some, hh.counted] at hnone
  simp at hnone

end AlphaMon
