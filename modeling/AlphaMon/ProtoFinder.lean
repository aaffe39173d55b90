import AlphaMon.DnsMng
import AlphaMon.HttpMng
import AlphaMon.TlsMng

/-!
# The protocol detectors

`proto_finder.c`.  `protoDetector` asks in order whether a packet looks like DNS, like a TLS
ClientHello or like an HTTP request.  DNS is recognised by the port and a few bits of the header,
TLS by three bytes of the payload, HTTP by a keyword anywhere in the text of the payload.

The detectors return `0` for a packet they accept, as in the C.  A result of `none` is a null
pointer followed.
-/

set_option autoImplicit false

namespace AlphaMon

open CString

/-- `ntohs` of a number: its two bytes change places. -/
def ntohs16 (n : ℕ) : ℕ := n % 256 * 256 + n / 256

/-- `isDns`.  The header is not looked at unless one of the ports is 53. -/
def isDns (packet : Packet) (protocol inport outport : ℕ) : Option ℕ :=
  if inport = 53 ∨ outport = 53 then do
    let dns ← (dnsHeaderExtractor packet protocol).map packet.dnsHeader
    if outport = 53 ∧ dns.qr ≠ 0 then some 1
    else if inport = 53 ∧ dns.qr ≠ 1 then some 1
    else if dns.z ≠ 0 then some 1
    else if ntohs16 dns.opcode ≠ 0 ∧ ntohs16 dns.opcode ≠ 1 ∧ ntohs16 dns.opcode ≠ 2 ∧
        ntohs16 dns.opcode ≠ 4 ∧ ntohs16 dns.opcode ≠ 5 then some 1
    else if dns.aa ≠ 0 ∧ dns.aa ≠ 1 then some 1
    else if dns.tc ≠ 0 ∧ dns.tc ≠ 1 then some 1
    else if dns.rd ≠ 0 ∧ dns.rd ≠ 1 then some 1
    else if dns.ra ≠ 0 ∧ dns.ra ≠ 1 then some 1
    else some 0
  else some 1

/-- `tls_header_extractor`. -/
def tlsHeaderExtractor (packet : Packet) (protocol : ℕ) : Option ℕ :=
  let len := offsetExtractorTls protocol (packet.byte 46)
  if len = 0 then none else some len

/-- `isTls`.  The test of the version is what the operators of the C make of it. -/
def isTls (packet : Packet) (protocol : ℕ) : ℕ :=
  match tlsHeaderExtractor packet protocol with
  | none => 1
  | some tlsH =>
    let rt := packet.byte tlsH
    let protv1 := packet.byte (tlsH + 1)
    let protv2 := packet.byte (tlsH + 2)
    let ht := packet.byte (tlsH + 5)
    if rt ≠ 22 then 1
    else if protv1 ≠ 3 ∧ protv2 ≠ 1 ∨ protv1 ≠ 3 ∧ protv2 ≠ 3 then 1
    else if ht ≠ 1 then 1
    else 0

/-- `isHttp`. -/
def isHttp (packet : Packet) (protocol : ℕ) : Option ℕ := do
  let pkt ← httpHeaderExtractor packet protocol
  if strcasestr kwGet (packet.text pkt) = none ∧ strcasestr kwPost (packet.text pkt) = none then
    some 1
  else some 0

/-- `proto_detector`. -/
def protoDetector (packet : Packet) (protocol inport outport : ℕ) : Option ℕ := do
  if (← isDns packet protocol inport outport) = 0 then some 53
  else if isTls packet protocol = 0 then some 443
  else if (← isHttp packet protocol) = 0 then some 80
  else some 0

/-! ## What the detectors accept -/

variable {packet : Packet} {protocol inport outport : ℕ}

/-- The three bytes by which `isTls` recognises a ClientHello. -/
def Packet.StartsHello (p : Packet) (i : ℕ) : Prop :=
  p.byte i = 22 ∧ p.byte (i + 1) = 3 ∧ p.byte (i + 5) = 1

instance (p : Packet) (i : ℕ) : Decidable (p.StartsHello i) := inferInstanceAs (Decidable (_ ∧ _))

/-- The text from a position on contains `GET` or `POST`, in any case. -/
def Packet.MentionsMethod (p : Packet) (i : ℕ) : Prop :=
  strcasestr kwGet (p.text i) ≠ none ∨ strcasestr kwPost (p.text i) ≠ none

instance (p : Packet) (i : ℕ) : Decidable (p.MentionsMethod i) :=
  inferInstanceAs (Decidable (_ ∨ _))

/-- The payload is never taken to start at the beginning of the frame. -/
theorem payloadOffset_ge (protocol : ℕ) (offset : UInt8) : 34 ≤ payloadOffset protocol offset := by
  have hlt := offset.toNat_lt
  rw [payloadOffset, if_neg (by omega)]
  split <;> omega

theorem tlsHeaderExtractor_eq (packet : Packet) (protocol : ℕ) :
    tlsHeaderExtractor packet protocol = some (payloadOffset protocol (packet.byte 46)) := by
  have := payloadOffset_ge protocol (packet.byte 46)
  exact if_neg (by rw [offsetExtractorTls]; omega)

theorem httpHeaderExtractor_eq (packet : Packet) (protocol : ℕ) :
    httpHeaderExtractor packet protocol = some (payloadOffset protocol (packet.byte 46)) := by
  have := payloadOffset_ge protocol (packet.byte 46)
  exact if_neg (by rw [offsetExtractorHttp]; omega)

/-- **What `isTls` accepts.**  The minor version plays no part. -/
theorem isTls_eq_zero_iff :
    isTls packet protocol = 0 ↔ packet.StartsHello (payloadOffset protocol (packet.byte 46)) := by
  rw [isTls, tlsHeaderExtractor_eq, Packet.StartsHello]
  simp only
  generalize payloadOffset protocol (packet.byte 46) = i
  have h31 : (3 : UInt8) ≠ 1 := by decide
  grind

/-- **What `isHttp` accepts.** -/
theorem isHttp_eq (packet : Packet) (protocol : ℕ) : isHttp packet protocol =
    some (if packet.MentionsMethod (payloadOffset protocol (packet.byte 46)) then 0 else 1) := by
  simp only [isHttp, httpHeaderExtractor_eq, Option.bind_eq_bind, Option.bind_some,
    Packet.MentionsMethod, ne_eq, ← not_and_or, ite_not]
  split <;> rfl

/-- **What `isDns` accepts**: the direction the ports say, no reserved bit, and a standard query.
(The `ntohs` turns every other code into none of those listed.) -/
theorem isDns_eq_zero_iff : isDns packet protocol inport outport = some 0 ↔
    (inport = 53 ∨ outport = 53) ∧ offsetExtractor protocol < packet.pktLen ∧
      (outport = 53 → (packet.dnsHeader (offsetExtractor protocol)).qr = 0) ∧
      (inport = 53 → (packet.dnsHeader (offsetExtractor protocol)).qr = 1) ∧
      (packet.dnsHeader (offsetExtractor protocol)).z = 0 ∧
      (packet.dnsHeader (offsetExtractor protocol)).opcode = 0 := by
  by_cases hport : inport = 53 ∨ outport = 53
  swap
  · simp [isDns, hport]
  by_cases hlen : packet.pktLen ≤ offsetExtractor protocol
  · simp [isDns, dnsHeaderExtractor, hport, hlen, Nat.not_lt.2 hlen]
  have hlt := Nat.not_le.1 hlen
  simp only [isDns, dnsHeaderExtractor, hport, hlen, if_true, if_false, Option.map_some,
    Option.bind_eq_bind, Option.bind_some, hlt, true_and]
  have hop : (packet.dnsHeader (offsetExtractor protocol)).opcode < 16 := Nat.mod_lt _ (by decide)
  have haa : (packet.dnsHeader (offsetExtractor protocol)).aa < 2 := Nat.mod_lt _ (by decide)
  have htc : (packet.dnsHeader (offsetExtractor protocol)).tc < 2 := Nat.mod_lt _ (by decide)
  have hrd : (packet.dnsHeader (offsetExtractor protocol)).rd < 2 := Nat.mod_lt _ (by decide)
  have hra : (packet.dnsHeader (offsetExtractor protocol)).ra < 2 := by
    have := (packet.byte (offsetExtractor protocol + 3)).toNat_lt
    show _ / 128 < 2
    omega
  generalize packet.dnsHeader (offsetExtractor protocol) = dns at *
  have hntohs : ntohs16 dns.opcode = dns.opcode * 256 := by
    rw [ntohs16]
    omega
  -- the tests of single bits never fail
  rw [hntohs, if_neg (c := dns.aa ≠ 0 ∧ dns.aa ≠ 1) (by omega),
    if_neg (c := dns.tc ≠ 0 ∧ dns.tc ≠ 1) (by omega), if_neg (c := dns.rd ≠ 0 ∧ dns.rd ≠ 1)
      (by omega),
    if_neg (c := dns.ra ≠ 0 ∧ dns.ra ≠ 1) (by omega)]
  split_ifs <;> simp <;> omega

/-- What the detector says, from what the three say. -/
theorem protoDetector_eq (packet : Packet) (protocol inport outport : ℕ) :
    protoDetector packet protocol inport outport = (isDns packet protocol inport outport).map
      fun dns ↦ if dns = 0 then 53
        else if packet.StartsHello (payloadOffset protocol (packet.byte 46)) then 443
        else if packet.MentionsMethod (payloadOffset protocol (packet.byte 46)) then 80 else 0 := by
  rw [protoDetector]
  cases isDns packet protocol inport outport with
  | none => rfl
  | some dns =>
    simp only [Option.bind_eq_bind, Option.bind_some, isHttp_eq, isTls_eq_zero_iff, Option.map_some]
    split_ifs <;> simp_all

/-- Each detector answers for the packets it accepts. -/
theorem protoDetector_inv {d : ℕ} (h : protoDetector packet protocol inport outport = some d) :
    (d = 53 → isDns packet protocol inport outport = some 0) ∧
    (d = 443 → packet.StartsHello (payloadOffset protocol (packet.byte 46))) ∧
    (d = 80 → packet.MentionsMethod (payloadOffset protocol (packet.byte 46))) := by
  rw [protoDetector_eq, Option.map_eq_some_iff] at h
  obtain ⟨dns, hdns, rfl⟩ := h
  rw [hdns]
  split_ifs with h₁ h₂ h₃
  · simp [h₁]
  · simp [h₂]
  · simp [h₃]
  · simp

end AlphaMon
