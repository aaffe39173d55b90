import AlphaMon.Packet

/-!
# The HTTP module

`http_mng.c`.  `httpEntry` finds a request's fields by searching its text for keywords, in any case:
`HOST` for the name to count, then `GET` or `POST` for the URI, `HTTP` for its end, and `REFER` for
the Referer field.  Every search starts at the first byte of the payload and reads the text as the
earlier steps have left it.

Next to the pointer into the text the C keeps a length that it compares with that of the packet.
The two start together at the Host field; at the Referer field the length starts afresh from the
beginning of the payload.
-/

set_option autoImplicit false

namespace AlphaMon

open CString

/-- `offset_extractor_http`. -/
def offsetExtractorHttp (protocol : ℕ) (offset : UInt8) : ℕ := payloadOffset protocol offset

/-- `http_header_extractor`: the payload of a packet, by the data offset in its TCP header. -/
def httpHeaderExtractor (packet : Packet) (protocol : ℕ) : Option ℕ :=
  let len := offsetExtractorHttp protocol (packet.byte 46)
  if len = 0 then none else some len

/-- The characters of `HOST`. -/
def kwHost : List UInt8 := [72, 79, 83, 84]

/-- The characters of `GET`. -/
def kwGet : List UInt8 := [71, 69, 84]

/-- The characters of `POST`. -/
def kwPost : List UInt8 := [80, 79, 83, 84]

/-- The characters of `HTTP`. -/
def kwHttp : List UInt8 := [72, 84, 84, 80]

/-- The characters of `REFER`. -/
def kwRefer : List UInt8 := [82, 69, 70, 69, 82]

/-- The character `.`, which is kept in a host name. -/
def isDot (c : UInt8) : Bool := c == 46

/-- The characters `.` and `/`, which are kept in a URI. -/
def isDotOrSlash (c : UInt8) : Bool := c == 46 || c == 47

/-- Does a field's value end at this character?  The C compares `*ptr + 1` with `'\n'`, not
`*(ptr + 1)`, so that the second character is the tab. -/
def endsField (c : UInt8) : Bool := c == 13 || c == 9

/-- The loop that copies the Host value, with `left` more characters allowed; the result is the
length and the name when the loop comes to its end, `none` when the function returns from it. -/
def hostLoop (packet : Packet) : ℕ → ℕ → ℕ → List UInt8 → Option (ℕ × List UInt8)
  | 0, len, ptr, name => if endsField (packet.byte ptr) then some (len, name) else none
  | left + 1, len, ptr, name =>
    if endsField (packet.byte ptr) then some (len, name)
    else if packet.pktLen ≤ len then none
    else hostLoop packet left (len + 1) (ptr + 1) (name ++ [packet.byte ptr])

/-- The loop over the URI, and whether the function goes on after it.  The length bounds the number
of iterations. -/
def uriLoop (tsc : ℕ → ℕ) (ptrNextField : ℕ) : ℕ → ℕ → ℕ → Packet → Packet × Bool
  | 0, _, _, packet => (packet, false)
  | fuel + 1, len, ptr, packet =>
    if packet.byte ptr = 32 then (packet, true)
    else if packet.pktLen ≤ len + 1 then (packet, false)
    else if ptrNextField ≤ ptr then (packet, false)
    else uriLoop tsc ptrNextField fuel (len + 1) (ptr + 1) (packet.maskByte isDotOrSlash tsc ptr)

/-- The loop over the Referer value.  It returns after the character with index 64. -/
def refererLoop (tsc : ℕ → ℕ) : ℕ → ℕ → ℕ → ℕ → Packet → Packet
  | 0, _, _, _, packet => packet
  | fuel + 1, i, len, ptr, packet =>
    if endsField (packet.byte ptr) then packet
    else if packet.pktLen ≤ len + 1 then packet
    else if 63 < i then packet.maskByte isDotOrSlash tsc ptr
    else refererLoop tsc fuel (i + 1) (len + 1) (ptr + 1) (packet.maskByte isDotOrSlash tsc ptr)

/-- Where `httpEntry` takes the URI to start, with the length there. -/
def uriStart (packet : Packet) (pkt lenStart : ℕ) : Option (ℕ × ℕ) :=
  match strcasestr kwGet (packet.text pkt) with
  | some i => some (lenStart + 4, pkt + i + 4)
  | none =>
    match strcasestr kwPost (packet.text pkt) with
    | some i => some (lenStart + 5, pkt + i + 5)
    | none => none

/-- The part of `httpEntry` about the URI, and whether the function goes on after it. -/
def obfuscateUri (packet : Packet) (pkt lenStart : ℕ) (tsc : ℕ → ℕ) : Packet × Bool :=
  match uriStart packet pkt lenStart with
  | none => (packet, false)
  | some (len, ptr) =>
    if packet.pktLen ≤ len then (packet, false)
    else match strcasestr kwHttp (packet.text pkt) with
      | none => (packet, false)
      | some i => uriLoop tsc (pkt + i) (packet.pktLen + 1) len ptr packet

/-- The part of `httpEntry` about the Referer field. -/
def obfuscateReferer (packet : Packet) (pkt lenStart : ℕ) (tsc : ℕ → ℕ) : Packet :=
  match strcasestr kwRefer (packet.text pkt) with
  | none => packet
  | some i =>
    if packet.pktLen ≤ lenStart + 16 then packet
    else refererLoop tsc 65 0 (lenStart + 16) (pkt + i + 16) packet

/-- The part of `httpEntry` after the Host value is found: count it, and below the threshold rewrite
it, the URI and the Referer field. -/
def httpRewrite (packet : Packet) (pkt lenStart ptrStart : ℕ) (name : List UInt8) (newPacket : Flow)
    (flowDb : HashStruct) (kAnon kDelta : ℤ) (env : HandlerEnv) : Option HandlerResult := do
  let (db, ret) ← tableAdd flowDb newPacket name kAnon kDelta env.table
  if ret < kAnon then
    let packet := packet.mask isDot (env.tsc 0) name.length ptrStart
    let (packet, goesOn) := obfuscateUri packet pkt lenStart (env.tsc 1)
    let packet := if goesOn then obfuscateReferer packet pkt lenStart (env.tsc 2) else packet
    some ⟨packet, 1, db, some (name, ret)⟩
  else some ⟨packet, 0, db, some (name, ret)⟩

/-- `httpEntry`. -/
def httpEntry (packet : Packet) (protocol : ℕ) (offset : UInt8) (newPacket : Flow)
    (flowDb : HashStruct) (kAnon kDelta : ℤ) (env : HandlerEnv) : Option HandlerResult :=
  let unchanged : HandlerResult := ⟨packet, 0, flowDb, none⟩
  match httpHeaderExtractor packet protocol with
  | none => some unchanged
  | some pkt =>
    let lenStart := offsetExtractorHttp protocol offset
    if lenStart = 0 then some unchanged
    else match strcasestr kwHost (packet.text pkt) with
      | none => some unchanged
      | some i =>
        let len := lenStart + i + 6
        let ptrStart := pkt + i + 6
        if packet.pktLen ≤ len then some unchanged
        else match hostLoop packet 64 (len + 1) ptrStart [] with
          | none => some unchanged
          | some (len, name) =>
            -- `name` as a C string ends at the first `0` copied
            let name := name.takeWhile (· ≠ 0)
            if packet.pktLen ≤ len ∨ name.length = 0 then some unchanged
            else httpRewrite packet pkt lenStart ptrStart name newPacket flowDb kAnon kDelta env

end AlphaMon
