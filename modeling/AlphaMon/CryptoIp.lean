import Mathlib.Data.List.Basic
import Mathlib.Data.UInt
import Mathlib.Tactic.IntervalCases
import AlphaMon.Bits.Prefix

/-!
# Address pseudonyms

`crypto_ip.c`: CryptoPAn on 32-bit addresses, the three caches in front of it, and its application
word by word to IPv6 addresses.

`ppAnonymize` is the plain algorithm: 32 calls of the block cipher, each giving one bit of a pad
that is added to the address.  `cppAnonymize` is the one in use.  It first looks into `fullcache`,
the last two addresses, then takes the first 20 bits of the pad from `enc_cache`, where 0 stands for
"not computed", and computes the other 12.  `retrieveCryptoIp` and its three siblings put a hash of
at most 130000 addresses in front of that.

The cipher under the key is an argument, any function on blocks of 16 bytes.  `uthash` is a list in
the order of insertion, and the allocation of an entry is taken to succeed.  Addresses of the packet
are words of a little-endian machine, so that `htonl` swaps their bytes.
-/

set_option autoImplicit false

namespace AlphaMon

/-- A block of the cipher. -/
abbrev Block := Fin 16 → UInt8

instance neZeroBlock : NeZero 16 := ⟨by decide⟩

/-- `CACHEBITS`: the bits of an address the big cache is indexed by. -/
def cacheBits : ℕ := 20

/-- `MAX_CRYPTIO_CACHE_SIZE`: the most entries of an address hash. -/
def maxCryptioCacheSize : ℕ := 130000

/-- `htonl`. -/
def htonl (a : BitVec 32) : BitVec 32 :=
  a.extractLsb' 0 8 ++ a.extractLsb' 8 8 ++ a.extractLsb' 16 8 ++ a.extractLsb' 24 8

/-- `struct in6_addr`, by its four words. -/
structure In6Addr where
  w0 : BitVec 32
  w1 : BitVec 32
  w2 : BitVec 32
  w3 : BitVec 32
  deriving DecidableEq, Repr

/-- The state of the anonymiser of a core.  The hashes are in the order of insertion. -/
structure CryptoIp where
  addressHash : List (BitVec 32 × BitVec 32)
  address6Hash : List (In6Addr × In6Addr)
  cryptoTotalHit : ℕ
  cryptoTotalInsert : ℕ
  cryptoTotalMiss : ℕ
  cryptoTotalHitIpv6 : ℕ
  cryptoTotalInsertIpv6 : ℕ
  cryptoTotalMissIpv6 : ℕ
  mPad : Block
  encCache : BitVec 32 → BitVec 32
  fullcache0 : BitVec 32 × BitVec 32
  fullcache1 : BitVec 32 × BitVec 32

/-! ## The algorithm -/

section Code

variable (blockEncrypt : Block → Block)

/-- The first four bytes of the pad as a word. -/
def first4bytesPad (mPad : Block) : BitVec 32 :=
  ((mPad 0).toBitVec.setWidth 32 <<< 24) + ((mPad 1).toBitVec.setWidth 32 <<< 16) +
    ((mPad 2).toBitVec.setWidth 32 <<< 8) + (mPad 3).toBitVec.setWidth 32

/-- The block to encrypt: the pad with its first four bytes replaced. -/
def rinInput (mPad : Block) (first4bytesInput : BitVec 32) : Block := fun i ↦
  if i = 0 then .ofBitVec ((first4bytesInput >>> 24).setWidth 8)
  else if i = 1 then .ofBitVec (((first4bytesInput <<< 8) >>> 24).setWidth 8)
  else if i = 2 then .ofBitVec (((first4bytesInput <<< 16) >>> 24).setWidth 8)
  else if i = 3 then .ofBitVec (((first4bytesInput <<< 24) >>> 24).setWidth 8)
  else mPad i

/-- The word in which the top `pos` bits are the address's and the others the pad's. -/
def first4bytesInput (mPad : Block) (origAddr : BitVec 32) (pos : ℕ) : BitVec 32 :=
  if pos = 0 then first4bytesPad mPad
  else ((origAddr >>> (32 - pos)) <<< (32 - pos)) ||| ((first4bytesPad mPad <<< pos) >>> pos)

/-- The bit of round `pos`, in its place. -/
def padBit (mPad : Block) (origAddr : BitVec 32) (pos : ℕ) : BitVec 32 :=
  (blockEncrypt (rinInput mPad (first4bytesInput mPad origAddr pos)) 0 >>> 7).toBitVec.setWidth 32
    <<< (31 - pos)

/-- `n` rounds from round `pos`: the loop of `pp_anonymize`, `cpp_anonymize` and `cache_update`. -/
def padLoop (mPad : Block) (origAddr : BitVec 32) : ℕ → ℕ → BitVec 32 → BitVec 32
  | 0, _, result => result
  | n + 1, pos, result =>
    padLoop mPad origAddr n (pos + 1) (result ||| padBit blockEncrypt mPad origAddr pos)

/-- `pp_anonymize`. -/
def ppAnonymize (mPad : Block) (origAddr : BitVec 32) : BitVec 32 :=
  padLoop blockEncrypt mPad origAddr 32 0 0 ^^^ origAddr

/-- `cache_update`. -/
def cacheUpdate (self : CryptoIp) (scan : BitVec 32) : CryptoIp :=
  let result := padLoop blockEncrypt self.mPad (scan <<< (32 - cacheBits)) cacheBits 0 0
  { self with encCache := Function.update self.encCache scan (result >>> (32 - cacheBits)) }

/-- `lookup_cache`. -/
def lookupCache (self : CryptoIp) (origAddr : BitVec 32) : BitVec 32 × CryptoIp :=
  let lookupAddr := origAddr >>> (32 - cacheBits)
  let self :=
    if self.encCache lookupAddr = 0 then cacheUpdate blockEncrypt self lookupAddr else self
  (self.encCache lookupAddr, self)

/-- `cpp_anonymize`. -/
def cppAnonymize (self : CryptoIp) (origAddr : BitVec 32) : BitVec 32 × CryptoIp :=
  if self.fullcache0.1 = origAddr then (self.fullcache0.2, self)
  else if self.fullcache1.1 = origAddr then
    (self.fullcache1.2, { self with
      fullcache1 := self.fullcache0, fullcache0 := (origAddr, self.fullcache1.2) })
  else
    let (cached, self) := lookupCache blockEncrypt self origAddr
    let result := padLoop blockEncrypt self.mPad origAddr (32 - cacheBits) cacheBits
      (cached <<< (32 - cacheBits))
    (result ^^^ origAddr, { self with
      fullcache1 := self.fullcache0, fullcache0 := (origAddr, result ^^^ origAddr) })

/-- `encrypt_ip`. -/
def encryptIp (self : CryptoIp) (origAddr : BitVec 32) : BitVec 32 × CryptoIp :=
  cppAnonymize blockEncrypt self origAddr

/-- `encrypt_ipv6`: a word at a time, each under its own mask. -/
def encryptIpv6 (self : CryptoIp) (origAddr : In6Addr) : In6Addr × CryptoIp :=
  let (e0, self) := encryptIp blockEncrypt self (htonl (origAddr.w0 ^^^ 0xffffffff#32))
  let (e1, self) := encryptIp blockEncrypt self (htonl (origAddr.w1 ^^^ 0xf0f0f0f0#32))
  let (e2, self) := encryptIp blockEncrypt self (htonl (origAddr.w2 ^^^ 0x0f0f0f0f#32))
  let (e3, self) := encryptIp blockEncrypt self (htonl (origAddr.w3 ^^^ 0x00000000#32))
  (⟨htonl e0, htonl e1, htonl e2, htonl e3⟩, self)

/-! ## The address hashes -/

section Hash

variable {κ : Type}

/-- The body of `add_address` and `add_address6`: append, and drop the first entry of a hash that is
over its size. -/
def hashAdd (hash : List (κ × κ)) (src cpanAddr : κ) : List (κ × κ) :=
  if maxCryptioCacheSize < (hash ++ [(src, cpanAddr)]).length then (hash ++ [(src, cpanAddr)]).tail
  else hash ++ [(src, cpanAddr)]

/-- The body of `find_address` and `find_address6`: an entry that is found goes to the end. -/
def hashFind [DecidableEq κ] (hash : List (κ × κ)) (src : κ) : Option κ × List (κ × κ) :=
  match hash.find? (·.1 = src) with
  | some s => (some s.2, hash.eraseP (·.1 = src) ++ [s])
  | none => (none, hash)

end Hash

/-- `add_address`. -/
def addAddress (self : CryptoIp) (src cpanAddr : BitVec 32) : CryptoIp :=
  { self with addressHash := hashAdd self.addressHash src cpanAddr }

/-- `add_address6`. -/
def addAddress6 (self : CryptoIp) (src cpanAddr : In6Addr) : CryptoIp :=
  { self with address6Hash := hashAdd self.address6Hash src cpanAddr }

/-- `find_address`. -/
def findAddress (self : CryptoIp) (src : BitVec 32) : Option (BitVec 32) × CryptoIp :=
  let (entry, hash) := hashFind self.addressHash src
  (entry, { self with addressHash := hash })

/-- `find_address6`. -/
def findAddress6 (self : CryptoIp) (src : In6Addr) : Option In6Addr × CryptoIp :=
  let (entry, hash) := hashFind self.address6Hash src
  (entry, { self with address6Hash := hash })

/-- `store_crypto_ip`. -/
def storeCryptoIp (self : CryptoIp) (address : BitVec 32) : CryptoIp :=
  match findAddress self address with
  | (none, self) =>
    let (e, self) := encryptIp blockEncrypt self (htonl address)
    let self := addAddress self address (htonl e)
    { self with cryptoTotalInsert := self.cryptoTotalInsert + 1 }
  | (some _, self) => { self with cryptoTotalHit := self.cryptoTotalHit + 1 }

/-- `retrieve_crypto_ip`. -/
def retrieveCryptoIp (self : CryptoIp) (address : BitVec 32) : BitVec 32 × CryptoIp :=
  match findAddress self address with
  | (none, self) =>
    let (e, self) := encryptIp blockEncrypt self (htonl address)
    let self := addAddress self address (htonl e)
    (htonl e, { self with
      cryptoTotalInsert := self.cryptoTotalInsert + 1, cryptoTotalMiss :=
        self.cryptoTotalMiss + 1 })
  | (some cpanAddr, self) => (cpanAddr, self)

/-- `store_crypto_ipv6`. -/
def storeCryptoIpv6 (self : CryptoIp) (address : In6Addr) : CryptoIp :=
  match findAddress6 self address with
  | (none, self) =>
    let (e, self) := encryptIpv6 blockEncrypt self address
    let self := addAddress6 self address e
    { self with cryptoTotalInsertIpv6 := self.cryptoTotalInsertIpv6 + 1 }
  | (some _, self) => { self with cryptoTotalHitIpv6 := self.cryptoTotalHitIpv6 + 1 }

/-- `retrieve_crypto_ipv6`. -/
def retrieveCryptoIpv6 (self : CryptoIp) (address : In6Addr) : In6Addr × CryptoIp :=
  match findAddress6 self address with
  | (none, self) =>
    let (e, self) := encryptIpv6 blockEncrypt self address
    let self := addAddress6 self address e
    (e, { self with
      cryptoTotalInsertIpv6 := self.cryptoTotalInsertIpv6 + 1
      cryptoTotalMissIpv6 := self.cryptoTotalMissIpv6 + 1 })
  | (some cpanAddr, self) => (cpanAddr, self)

/-! ## Initialisation -/

/-- `panon_init`, on zeroed memory: the pad is the second half of the key, encrypted under the
first, and the caches are cleared. -/
def panonInit (padKey : Block) : CryptoIp where
  addressHash := []
  address6Hash := []
  cryptoTotalHit := 0
  cryptoTotalInsert := 0
  cryptoTotalMiss := 0
  cryptoTotalHitIpv6 := 0
  cryptoTotalInsertIpv6 := 0
  cryptoTotalMissIpv6 := 0
  mPad := blockEncrypt padKey
  encCache := fun _ ↦ 0
  fullcache0 := (0, 0)
  fullcache1 := (0, 0)

/-- Zeroed memory. -/
def CryptoIp.zero : CryptoIp := panonInit (fun b ↦ b) 0

/-- `initialize_crypto`.  The two first encryptions push the cleared entries out of `fullcache`, in
which an entry for the address 0 would look like a hit. -/
def initializeCrypto (padKey : Block) : CryptoIp :=
  let self := panonInit blockEncrypt padKey
  let (_, self) := encryptIp blockEncrypt self 1
  let (_, self) := encryptIp blockEncrypt self 2
  let (e, self) := encryptIp blockEncrypt self (htonl 0)
  let self := addAddress self 0 (htonl e)
  let self := { self with cryptoTotalHit := 0, cryptoTotalInsert := 1, cryptoTotalMiss := 0 }
  let (e6, self) := encryptIpv6 blockEncrypt self ⟨0, 0, 0, 0⟩
  let self := addAddress6 self ⟨0, 0, 0, 0⟩ e6
  { self with cryptoTotalHitIpv6 := 0, cryptoTotalInsertIpv6 := 1, cryptoTotalMissIpv6 := 0 }

/-- The calls an anonymiser serves. -/
inductive CryptoCall where
  | retrieveCryptoIp (address : BitVec 32)
  | storeCryptoIp (address : BitVec 32)
  | retrieveCryptoIpv6 (address : In6Addr)
  | storeCryptoIpv6 (address : In6Addr)

/-- The state after a call. -/
def CryptoCall.run (self : CryptoIp) : CryptoCall → CryptoIp
  | .retrieveCryptoIp a => (AlphaMon.retrieveCryptoIp blockEncrypt self a).2
  | .storeCryptoIp a => AlphaMon.storeCryptoIp blockEncrypt self a
  | .retrieveCryptoIpv6 a => (AlphaMon.retrieveCryptoIpv6 blockEncrypt self a).2
  | .storeCryptoIpv6 a => AlphaMon.storeCryptoIpv6 blockEncrypt self a

/-- The state of an anonymiser after initialisation and some calls. -/
def runCrypto (padKey : Block) (calls : List CryptoCall) : CryptoIp :=
  calls.foldl (CryptoCall.run blockEncrypt) (initializeCrypto blockEncrypt padKey)

end Code

end AlphaMon
