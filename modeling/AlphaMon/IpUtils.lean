import AlphaMon.CryptoIp
import AlphaMon.Memory.Decimal

/-!
# Subnet files

`ip_utils.c`.  A subnet file lists networks, for addresses of either kind; `ParseNetFile` fills a
table from it, and `anon_ip_check` and its siblings look an address up.

An entry stands in one line, `a.b.c.d/m` or `a.b.c.d/w.x.y.z`, or in two, the address and the mask.
A length `m` is turned into a mask by way of the text of the mask.  A network whose address is 0
gets the mask 0, whatever its length: the test meant for the length 0 looks at the address.

Addresses are kept as the code keeps them, in network byte order.
-/

set_option autoImplicit false

namespace AlphaMon

open CString

/-- `MAX_SUBNETS`: the networks of either kind in a table. -/
def maxSubnets : ℕ := 256

/-! ## Addresses -/

/-- An address as a dotted quad. -/
def dottedQuad (a b c d : UInt8) : List UInt8 :=
  decimal a.toNat ++ 46 :: (decimal b.toNat ++ 46 :: (decimal c.toNat ++ 46 :: decimal d.toNat))

/-- The word in memory whose bytes are given, on a little-endian machine. -/
def inAddr (a b c d : UInt8) : BitVec 32 := d.toBitVec ++ c.toBitVec ++ b.toBitVec ++ a.toBitVec

/-- The functions of the C library that read addresses. -/
structure Inet where
  /-- `inet_pton` for `AF_INET`. -/
  pton : List UInt8 → Option (BitVec 32)
  /-- `inet_pton` for `AF_INET6`. -/
  pton6 : List UInt8 → Option In6Addr
  /-- `inet_aton`. -/
  aton : List UInt8 → Option (BitVec 32)
  /-- `inet_addr`. -/
  addr : List UInt8 → BitVec 32

/-- Dotted quads are converted as documented. -/
structure Inet.Converts (inet : Inet) : Prop where
  pton : ∀ a b c d, inet.pton (dottedQuad a b c d) = some (inAddr a b c d)
  aton : ∀ a b c d, inet.aton (dottedQuad a b c d) = some (inAddr a b c d)
  addr : ∀ a b c d, inet.addr (dottedQuad a b c d) = inAddr a b c d

/-- The byte of an IPv6 address at a position. -/
def In6Addr.byte (a : In6Addr) (k : ℕ) : UInt8 :=
  let w := if k / 4 = 0 then a.w0 else if k / 4 = 1 then a.w1 else if k / 4 = 2 then a.w2 else a.w3
  ⟨(w >>> (8 * (k % 4))).setWidth 8⟩

/-! ## Reading lines -/

/-- The loop of `readline`, from a position in the file on: the line and the rest of the file.
Nothing of a comment is kept but the end of its line. -/
def readlineLoop (skipComment skipVoidLines : Bool) :
    List UInt8 → List UInt8 → Bool → List UInt8 × List UInt8
  | [], buf, _ => (buf, [])
  | c :: file, buf, commentStarted =>
    let commentStarted := commentStarted || (skipComment && c = 35)
    let buf := if !commentStarted || c = 10 then buf ++ [c] else buf
    if c = 10 then
      if buf.head? = some 10 ∧ skipVoidLines then readlineLoop skipComment skipVoidLines file
        [] false
      else (buf, file)
    else readlineLoop skipComment skipVoidLines file buf commentStarted

/-- `readline`. -/
def readline (file : List UInt8) (skipComment skipVoidLines : Bool) :
    Option (List UInt8) × List UInt8 :=
  let (buf, file) := readlineLoop skipComment skipVoidLines file [] false
  let line := buf.takeWhile (· ≠ 0)
  (if line = [] then none else some line, file)

/-- A line without the newline at its end. -/
def chomp (line : List UInt8) : List UInt8 :=
  if line.getLast? = some 10 then line.dropLast else line

/-! ## Parsing -/

/-- A table of networks: the lists, masks and counters that `ParseNetFile` fills. -/
structure NetTable where
  netList : ℕ → BitVec 32
  netListv6 : ℕ → In6Addr
  netMask : ℕ → BitVec 32
  netMaskv6 : ℕ → ℤ
  totNets : ℕ
  totNetsv6 : ℕ

/-- The messages of `ParseNetFile`, with the number of the entry. -/
inductive NetError
  | tooManyIpv4
  | tooManyIpv6
  | missingMask (entry : ℕ)
  | invalidIp (entry : ℕ)
  | invalidMask (entry : ℕ)
  | invalidIpv4Address (entry : ℕ)
  | missingIpv4Mask (entry : ℕ)
  | invalidIpv4Mask (entry : ℕ)
  | invalidIpv6Mask (entry : ℕ)
  deriving DecidableEq

namespace NetTable

variable (tab : NetTable)

/-- Zeroed memory. -/
def zero : NetTable := ⟨fun _ ↦ 0, fun _ ↦ ⟨0, 0, 0, 0⟩, fun _ ↦ 0, fun _ ↦ 0, 0, 0⟩

/-- The address of the next IPv4 network. -/
def setNet (a : BitVec 32) : NetTable :=
  { tab with netList := Function.update tab.netList tab.totNets a }

/-- The address of the next IPv6 network. -/
def setNetv6 (a : In6Addr) : NetTable :=
  { tab with netListv6 := Function.update tab.netListv6 tab.totNetsv6 a }

/-- The mask of the next IPv4 network, which is complete with it. -/
def addMask (m : BitVec 32) : NetTable :=
  { tab with
    netMask := Function.update tab.netMask tab.totNets m
    netList := Function.update tab.netList tab.totNets (tab.netList tab.totNets &&& m)
    totNets := tab.totNets + 1 }

/-- The mask of the next IPv6 network, which is complete with it. -/
def addMaskv6 (m : ℤ) : NetTable :=
  { tab with
    netMaskv6 := Function.update tab.netMaskv6 tab.totNetsv6 m
    totNetsv6 := tab.totNetsv6 + 1 }

end NetTable

section Parse

variable (inet : Inet)

/-- The text of a mask of `maskBits` bits, for the network with address `sAddr`. -/
def maskText (sAddr : BitVec 32) (maskBits : ℤ) : List UInt8 :=
  let fullLocalMask := if sAddr = 0 then 0 else 0xffffffff#32 <<< (32 - maskBits).toNat
  dottedQuad ⟨(fullLocalMask >>> 24).setWidth 8⟩ ⟨((fullLocalMask >>> 16) &&& 0x00ff).setWidth 8⟩
    ⟨((fullLocalMask >>> 8) &&& 0x0000ff).setWidth 8⟩ ⟨(fullLocalMask &&& 0xff).setWidth 8⟩

/-- The mask of an IPv4 network, after the `/`. -/
def parseMask (entry : ℕ) (maskString : List UInt8) (tab : NetTable) : NetTable × Option NetError :=
  if 46 ∉ maskString then
    let (maskBits, err) := strtol maskString
    if err ≠ [] ∨ maskBits < 0 ∨ 32 < maskBits then (tab, some (.invalidMask entry))
    else
      let tab := if maskBits = 0 then tab.setNet 0 else tab
      (tab.addMask (inet.addr (maskText (tab.netList tab.totNets) maskBits)), none)
  else
    match inet.aton maskString with
    | none => (tab, some (.invalidIpv4Mask entry))
    | some _ => (tab.addMask (inet.addr maskString), none)

/-- The mask of an IPv6 network, after the `/`. -/
def parseMaskv6 (entry : ℕ) (maskString : List UInt8) (tab : NetTable) :
    NetTable × Option NetError :=
  if 46 ∉ maskString then
    let (maskBits, err) := strtol maskString
    if err ≠ [] ∨ maskBits < 0 ∨ 128 < maskBits then (tab, some (.invalidMask entry))
    else (tab.addMaskv6 maskBits, none)
  else (tab, some (.invalidIpv6Mask entry))

/-- The single line format. -/
def parseSingle (entry : ℕ) (line : List UInt8) (tab : NetTable) : NetTable × Option NetError :=
  match strtok 47 line with
  | none => (tab, some (.missingMask entry))
  | some (ipString, rest) =>
    match strtok 47 rest with
    | none => (tab, some (.missingMask entry))
    | some (maskString, _) =>
      if 58 ∈ ipString then
        match inet.pton6 ipString with
        | none => (tab, some (.invalidIp entry))
        | some a => parseMaskv6 entry maskString (tab.setNetv6 a)
      else
        match inet.pton ipString with
        | none => (tab, some (.invalidIp entry))
        | some a => parseMask inet entry maskString (tab.setNet a)

/-- The old format: the mask is in the next line.  Also gives the rest of the file. -/
def parseOld (entry : ℕ) (line file : List UInt8) (tab : NetTable) :
    (NetTable × Option NetError) × List UInt8 :=
  match inet.aton line with
  | none => ((tab, some (.invalidIpv4Address entry)), file)
  | some a =>
    match readline file true true with
    | (none, file) => ((tab.setNet a, some (.missingIpv4Mask entry)), file)
    | (some maskString, file) =>
      match inet.aton (chomp maskString) with
      | none => ((tab.setNet a, some (.invalidIpv4Mask entry)), file)
      | some _ => (((tab.setNet a).addMask (inet.addr (chomp maskString)), none), file)

/-- The loop of `ParseNetFile`, with `i` entries read.  An error ends it. -/
def parseLoop (maxEntries : ℕ) : ℕ → ℕ → List UInt8 → NetTable → NetTable × Option NetError
  | 0, _, _, tab => (tab, none)
  | fuel + 1, i, file, tab =>
    match readline file true true with
    | (none, _) => (tab, none)
    | (some line, file) =>
      if tab.totNets = maxEntries then (tab, some .tooManyIpv4)
      else if tab.totNetsv6 = maxEntries then (tab, some .tooManyIpv6)
      else
        let (res, file) :=
          if 47 ∈ chomp line then (parseSingle inet (i + 1) (chomp line) tab, file)
          else parseOld inet (i + 1) (chomp line) file tab
        if res.2 = none then parseLoop maxEntries fuel (i + 1) file res.1 else res

/-- `ParseNetFile`: the table, and the message it ends with if it fails.  Every line that is read
has a character, so that the fuel suffices. -/
def parseNetFile (file : List UInt8) (maxEntries : ℕ) (tab : NetTable) :
    NetTable × Option NetError :=
  parseLoop inet maxEntries (file.length + 1) 0 file { tab with totNets := 0, totNetsv6 := 0 }

end Parse

/-- The value `ParseNetFile` returns. -/
def netRet (res : NetTable × Option NetError) : ℤ := if res.2 = none then 1 else 0

/-! ## Matching -/

/-- The loop of `anon_ip_check` and `no_anon_ip_check`. -/
def ipCheck (tab : NetTable) (adx : BitVec 32) : ℤ :=
  if (List.range tab.totNets).any fun i ↦ adx &&& tab.netMask i = tab.netList i then 1 else 0

/-- The table `masks` of `match_ipv6_net`. -/
def masks : List UInt8 := [0x80, 0xc0, 0xe0, 0xf0, 0xf8, 0xfc, 0xfe, 0xff]

/-- An IPv6 address is in a network. -/
def inNetv6 (adx : In6Addr) (internal : In6Addr) (bits : ℤ) : Bool :=
  let full := (bits / 8).toNat
  let partialBits := (bits % 8).toNat
  let mask := masks.getD (partialBits - 1) 0
  bits = 0 ∨ (∀ k < full, adx.byte k = internal.byte k) ∧
    (partialBits ≠ 0 → adx.byte full &&& mask = internal.byte full &&& mask)

/-- `match_ipv6_net`. -/
def matchIpv6Net (adx : In6Addr) (tab : NetTable) : ℤ :=
  if (List.range tab.totNetsv6).any fun i ↦ inNetv6 adx (tab.netListv6 i) (tab.netMaskv6 i) then 1
  else 0

/-- The global tables of `process_packet.c`. -/
structure Nets where
  anon : NetTable
  noAnon : NetTable

/-- `anon_ip_check`. -/
def anonIpCheck (nets : Nets) (adx : BitVec 32) : ℤ := ipCheck nets.anon adx

/-- `no_anon_ip_check`. -/
def noAnonIpCheck (nets : Nets) (adx : BitVec 32) : ℤ := ipCheck nets.noAnon adx

/-- `anon_ip_checkv6`. -/
def anonIpCheckv6 (nets : Nets) (adx : In6Addr) : ℤ := matchIpv6Net adx nets.anon

/-- `no_anon_ip_checkv6`, which nothing calls. -/
def noAnonIpCheckv6 (nets : Nets) (adx : In6Addr) : ℤ := matchIpv6Net adx nets.noAnon

end AlphaMon
