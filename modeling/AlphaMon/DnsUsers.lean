import AlphaMon.AlphaGuarantee
import AlphaMon.DnsQuestion
import AlphaMon.HeaderFrame
import AlphaMon.ReadName

/-!
# The users of a DNS name

The users of a name should be the clients that ask for it: the source of a query, the destination of
a response.  But `dnsEntry` passes the same flow to `table_add` in both directions, and `table_add`
counts the source, so that a response counts the resolver.  One client that asks one resolver is two
users.

In a run in which every counted packet comes from the slot of a client of its name all is well
(`users_are_clients`): every user is a client, and a name leaves in clear only when enough of them
have asked for it.  To leave in clear is to stand in the packet afterwards whatever letters are
drawn (`DnsCall.InClear`), so that a name that is replaced by itself by chance is not in clear.
-/

set_option autoImplicit false

namespace AlphaMon

open CString DomainName Recency

/-- A message handed to `dnsEntry`: the packet, its time, what the call gets from outside, and the
name the message asks for. -/
structure DnsCall where
  packet : Packet
  tvSec : ℤ
  env : DnsEnv
  labels : List (List UInt8)
  asks : packet.Asks labels
  short : (text labels).length < nameDns
  /-- The message is a query to a resolver or a response of one. -/
  direction : packet.ntohs 36 = 53 ∧ (packet.dnsHeader 42).qr = 0 ∨
    packet.ntohs 34 = 53 ∧ (packet.dnsHeader 42).qr = 1

namespace DnsCall

/-- The flow of the packet. -/
def flow (c : DnsCall) : Flow := newPacket c.packet c.tvSec

/-- The header of the message. -/
def header (c : DnsCall) : DnsHeader := c.packet.dnsHeader 42

/-- The name asked for, as text. -/
def name (c : DnsCall) : List UInt8 := text c.labels

/-- The address of the client: the source of a query, the destination of a response. -/
def client (c : DnsCall) :
    BitVec 32 := if c.header.qr = 0 then c.packet.word 26 else c.packet.word 30

/-- The same message while other letters are drawn. -/
def draw (c : DnsCall) (tsc : ℕ → ℕ → ℕ) : DnsCall := { c with env := { c.env with tsc := tsc } }

/-- The name is passed to `table_add`. -/
def Counted (c : DnsCall) : Prop := c.labels ≠ [] ∧ ¬c.header.Empty

instance (c : DnsCall) : Decidable c.Counted := inferInstanceAs (Decidable (_ ∧ _))

end DnsCall

/-- The slot of an IPv4 address. -/
def clientSlot (a : BitVec 32) : ℕ := getHashClient (a.setWidth 128) maxClient

/-- The clients of the messages that ask for a name. -/
def clientsOf (calls : List DnsCall) (name : List UInt8) : Finset (BitVec 32) :=
  ((calls.filter fun c ↦ c.name = name).map DnsCall.client).toFinset

/-- The table of names and the anonymiser. -/
abbrev DnsState := HashStruct × CryptoIp

section Run

variable (blockEncrypt : Block → Block) (k d : ℤ)

/-- `dnsEntry` on a message. -/
def DnsCall.run (c : DnsCall) (s : DnsState) : Option DnsResult :=
  dnsEntry blockEncrypt c.packet 1 c.flow s.1 k d s.2 c.env

/-- A step of a run. -/
def dnsStep (c : DnsCall) (s : DnsState) : Option (DnsState × DnsResult) :=
  (c.run blockEncrypt k d s).map fun r ↦ ((r.db, r.self), r)

/-- A run of `dnsEntry`. -/
abbrev runDns (s : DnsState) (calls : List DnsCall) : Option (DnsState × List DnsResult) :=
  PartialRun.run (dnsStep blockEncrypt k d) s calls

/-- Whatever letters are drawn, the name stands in the packet afterwards. -/
def DnsCall.InClear (c : DnsCall) (s : DnsState) : Prop :=
  ∀ tsc, ∃ r, (c.draw tsc).run blockEncrypt k d s = some r ∧ Reads r.packet.data 54 (wire c.labels)

/-- Every user in the table is the slot of a client of the messages so far. -/
def UsersAreClients (calls : List DnsCall) (db : HashStruct) : Prop :=
  ∀ h, ∀ r ∈ (db h).records, ∀ u ∈ r.users, ∃ a ∈ clientsOf calls r.name, u.1 = clientSlot a

/-- At every step of a run a name leaves in clear only when at least `k` clients have asked for it,
and the users in the table are clients. -/
def CountsClients (self : CryptoIp) (calls : List DnsCall) : Prop :=
  ∀ pre c post s rs, calls = pre ++ c :: post → runDns blockEncrypt k d (tableInit, self) pre =
    some (s, rs) →
    (c.labels ≠ [] → c.InClear blockEncrypt k d s → k ≤ (clientsOf (pre ++ [c]) c.name).card) ∧
    ∀ s' r, dnsStep blockEncrypt k d c s = some (s', r) → UsersAreClients (pre ++ [c]) s'.1

end Run

/-- The message is one that `dnsEntry` counts rightly after those before: if it is counted at all,
no label holds a `0`, and the packet comes from the slot of a client of the name. -/
def DnsCall.FromClient (pre : List DnsCall) (c : DnsCall) : Prop :=
  c.Counted → (∀ l ∈ c.labels, 0 ∉ l) ∧
    ∃ a ∈ clientsOf (pre ++ [c]) c.name, clientSlot (c.packet.word 26) = clientSlot a

instance (pre : List DnsCall) (c : DnsCall) : Decidable (c.FromClient pre) :=
  inferInstanceAs (Decidable (_ → _))

variable {blockEncrypt : Block → Block} {k d : ℤ} {c : DnsCall} {calls pre : List DnsCall}
  {s s' : DnsState}
  {r : DnsResult}

theorem mem_clientsOf {name : List UInt8} {a : BitVec 32} :
    a ∈ clientsOf calls name ↔ ∃ c ∈ calls, c.name = name ∧ c.client = a := by
  simp [clientsOf, and_assoc]

theorem clientsOf_mono {calls' : List DnsCall} (h : calls ⊆ calls') (name : List UInt8) :
    clientsOf calls name ⊆ clientsOf calls' name := by
  intro a ha
  obtain ⟨c, hc, hrest⟩ := mem_clientsOf.1 ha
  exact mem_clientsOf.2 ⟨c, h hc, hrest⟩

/-- A query comes from its client. -/
theorem DnsCall.fromClient_of_query (hquery : c.header.qr = 0) (h0 : ∀ l ∈ c.labels, 0 ∉ l)
    (pre : List DnsCall) : c.FromClient pre := fun _ ↦
  ⟨h0, c.packet.word 26, mem_clientsOf.2 ⟨c, by simp, rfl, if_pos hquery⟩, rfl⟩

/-! ## What a message does to the table -/

/-- The call of `table_add` for a message. -/
def DnsCall.call (c : DnsCall) : Option Call :=
  if c.Counted then some ⟨c.flow, c.name, c.env.table⟩ else none

theorem DnsCall.call_eq_some {e : Call} :
    c.call = some e ↔ c.Counted ∧ e = ⟨c.flow, c.name, c.env.table⟩ := by
  rw [call]
  split
  · next h => simp [h, eq_comm]
  · next h => simp [h]

/-- **A message leaves the table alone or makes its call of `table_add`.** -/
theorem DnsCall.run_db (h0 : c.Counted → ∀ l ∈ c.labels, 0 ∉ l)
    (h : c.run blockEncrypt k d s = some r) :
    c.call = none ∧ r.db = s.1 ∨ ∃ e ret, c.call = some e ∧
      tableAdd s.1 e.flow e.name k d e.env = some (r.db, ret) ∧ r.counted = some (e.name, ret) := by
  have hlen := c.asks.lt_pktLen
  have hname := questionName_wire c.asks c.short
  rw [run, dnsEntry_eq (by omega)] at h
  split at h
  · next hempty =>
    obtain ⟨q, -, rfl⟩ := Option.map_eq_some_iff.1 h
    exact .inl ⟨if_neg fun hc ↦ hc.2 hempty, rfl⟩
  next hfull =>
  by_cases hls : c.labels = []
  · rw [hls] at hname
    obtain ⟨rfl, -⟩ | ⟨name, ret, hname', hne, -⟩ := dnsMessage_cases h
    · exact .inl ⟨if_neg fun hc ↦ hc.1 hls, rfl⟩
    · rw [hname, Option.some.injEq, Option.some.injEq] at hname'
      exact absurd rfl (hname' ▸ hne)
  have hcounted : c.Counted := ⟨hls, hfull⟩
  have hstr := takeWhile_text (h0 hcounted)
  obtain ⟨-, hempty⟩ | ⟨name, ret, hname', -, hret, hadd⟩ := dnsMessage_cases h
  · have := hempty _ hname
    rw [hstr] at this
    exact absurd (List.length_eq_zero_iff.1 this) (text_ne_nil c.asks.valid hls)
  · rw [hname, Option.some.injEq, Option.some.injEq] at hname'
    rw [← hname', hstr] at hret hadd
    exact .inr ⟨_, ret, if_pos hcounted, hadd, hret⟩

/-! ## Names that are replaced -/

/-- The walk is behind the first byte of the name of the question, which is a given letter or
gone. -/
structure DnsWalk.Covers (b : UInt8) (w : DnsWalk) : Prop where
  byte : w.packet.byte 55 = b ∨ w.packet.byte 55 = 0
  buff : 55 < w.buff

/-- When all letters drawn are the same, the first byte of the name stays as it is once it is
replaced. -/
theorem DnsWalk.stable_covers {env : DnsEnv} {t : ℕ} (htsc : env.tsc = fun _ _ ↦ t) (buffer : ℕ) :
    DnsWalk.Stable blockEncrypt env buffer (·.Covers (randChar t)) where
  count _ _ h := ⟨h.byte, h.buff⟩
  skip _ _ h := ⟨h.byte, Nat.lt_add_right _ h.buff⟩
  readName w x h hx := by
    rw [DnsWalk.readName] at hx
    split at hx
    · obtain ⟨⟨q, stop⟩, hq, hx⟩ := Option.bind_eq_some_iff.1 hx
      obtain rfl := Option.some.inj hx
      refine ⟨?_, h.buff⟩
      rcases readName_byte hq 55 with hbyte | ⟨n, hbyte⟩
      · simp only [hbyte]
        exact h.byte
      · exact .inl (by simp only [hbyte, htsc])
    · obtain rfl := Option.some.inj hx
      exact h
  address w w' dataLen stack h hw := by
    rw [DnsWalk.address] at hw
    split at hw
    · exact absurd hw (by simp)
    · obtain rfl := Option.some.inj hw
      refine ⟨?_, Nat.lt_add_right _ h.buff⟩
      have hsame l : (w.packet.write w.buff l).byte 55 = w.packet.byte 55 :=
        (Packet.SameBefore.write (n := 56) h.buff l w.packet).byte 55 (by omega)
      exact h.byte.imp (hsame _).trans (hsame _).trans
  drop w r h hr := by
    obtain ⟨q, hq, hr⟩ := Option.bind_eq_some_iff.1 hr
    obtain rfl := Option.some.inj hr
    obtain ⟨-, hsame, hzero⟩ := Packet.removePayload_spec hq
    refine ⟨?_, h.buff⟩
    by_cases hj : 55 < w.packet.pktLen
    · exact .inr (hzero 55 (by omega) hj)
    · simp only [hsame.byte 55 (by omega)]
      exact h.byte

/-- A byte of the first label. -/
theorem labelByte_first {ls : List (List UInt8)} (hv : Valid ls) (hne : ls ≠ []) (i : ℕ) :
    LabelByte ls i (i + 1) := by
  cases ls with
  | nil => exact absurd rfl hne
  | cons l ls =>
    have := (valid_cons.1 hv).1
    exact .inl ⟨le_rfl, by omega⟩

/-- A message whose name is not counted loses it. -/
theorem DnsCall.byte_of_not_counted (hls : c.labels ≠ []) (hnot : ¬c.Counted)
    (h : c.run blockEncrypt k d s = some r) : r.packet.byte 54 = 0 := by
  have hlen := c.asks.lt_pktLen
  have hempty : (c.packet.dnsHeader 42).Empty := not_not.1 fun hfull ↦ hnot ⟨hls, hfull⟩
  rw [run, dnsEntry_eq (by omega), if_pos hempty] at h
  obtain ⟨q, hq, rfl⟩ := Option.map_eq_some_iff.1 h
  exact (Packet.removePayload_spec hq).2.2 54 (by omega) hlen

/-- **Below the threshold the first byte of the name is replaced.** -/
theorem DnsCall.covered_of_lt {t : ℕ} {ret : ℤ} (htsc : c.env.tsc = fun _ _ ↦ t)
    (hcounted : c.Counted) (h0 : ∀ l ∈ c.labels, 0 ∉ l) (h : c.run blockEncrypt k d s = some r)
    (hadd : tableAdd s.1 c.flow c.name k d c.env.table = some (r.db, ret)) (hlt : ret < k) :
    r.packet.byte 55 = randChar t ∨ r.packet.byte 55 = 0 := by
  have hlen := c.asks.lt_pktLen
  have hmem := c.packet.pktLen_le
  have hfits := c.asks.fits
  have hfew := length_lt_length_wire c.labels
  rw [run, dnsEntry_asks c.asks hcounted.1 h0 c.short hcounted.2] at h
  obtain ⟨⟨db, ret'⟩, hadd', h⟩ := Option.bind_eq_some_iff.1 h
  obtain ⟨-, rfl⟩ : _ ∧ ret' = ret := by
    have := hadd'.symm.trans hadd
    simpa using this
  have hfuel : c.labels.length < c.packet.data.length + 1 := by omega
  obtain ⟨hend, -, hletters⟩ :=
    @questionRewrite_wire _ _ _ (c.env.tsc 0) c.asks.valid.short _ hfuel c.asks.reads (by omega)
  have hbyte := hletters 55 (labelByte_first c.asks.valid hcounted.1 54)
  simp only [if_pos hlt, dnsRewrite] at h
  generalize questionRewrite (c.env.tsc 0) _ 54 c.packet = x at h hbyte hend
  rw [htsc] at hbyte
  split at h
  · obtain rfl := Option.some.inj h
    exact .inl hbyte
  split at h
  · obtain rfl := Option.some.inj h
    exact .inl hbyte
  · obtain ⟨r', hr', rfl⟩ := Option.map_eq_some_iff.1 h
    exact (dnsRecords_keeps (DnsWalk.stable_covers htsc 42) _ _ _ ⟨.inl hbyte, by simp only; omega⟩
      hr').byte

/-- For every byte there is another letter. -/
theorem exists_randChar_ne (b : UInt8) : ∃ t, randChar t ≠ b := by
  by_cases hb : randChar 0 = b
  · exact ⟨1, fun h ↦ absurd (hb.trans h.symm) (by decide)⟩
  · exact ⟨0, hb⟩

/-- **A name that leaves in clear was counted**, and enough users were found. -/
theorem DnsCall.InClear.counted (hclear : c.InClear blockEncrypt k d s) (hls : c.labels ≠ [])
    (h0 : c.Counted → ∀ l ∈ c.labels, 0 ∉ l) : c.Counted ∧ ∃ db ret,
      tableAdd s.1 c.flow c.name k d c.env.table = some (db, ret) ∧ k ≤ ret := by
  obtain ⟨t, ht⟩ := exists_randChar_ne (c.packet.byte 55)
  obtain ⟨r, hr, hreads⟩ := hclear fun _ _ ↦ t
  obtain ⟨l, ls, hc⟩ := List.exists_cons_of_ne_nil hls
  have hv := (valid_cons.1 (hc ▸ c.asks.valid)).1
  have hasks := c.asks.reads
  rw [hc, wire_cons, reads_cons] at hreads hasks
  have hcounted : c.Counted := by
    refine not_not.1 fun hnot ↦ ?_
    have hzero := byte_of_not_counted (c := c.draw fun _ _ ↦ t) hls hnot hr
    have := hreads.1.symm.trans hzero
    have hlen : (UInt8.ofNat l.length).toNat = l.length := by
      rw [UInt8.toNat_ofNat', Nat.mod_eq_of_lt (by omega)]
    rw [this] at hlen
    simp at hlen
    omega
  refine ⟨hcounted, ?_⟩
  obtain ⟨hnone, -⟩ | ⟨e, ret, he, hadd, -⟩ := run_db (c := c.draw fun _ _ ↦ t) h0 hr
  · have hsome : c.call = some ⟨c.flow, c.name, c.env.table⟩ := call_eq_some.2 ⟨hcounted, rfl⟩
    exact absurd (hsome.symm.trans hnone) (by simp)
  obtain ⟨-, rfl⟩ := call_eq_some.1 he
  refine ⟨r.db, ret, hadd, not_lt.1 fun hlt ↦ ?_⟩
  obtain ⟨b, l, rfl⟩ := List.exists_cons_of_length_pos hv.1
  have hb : r.packet.byte 55 = b := (reads_cons.1 hreads.2).1
  have hb' : c.packet.byte 55 = b := (reads_cons.1 hasks.2).1
  rcases covered_of_lt (c := c.draw fun _ _ ↦ t) rfl hcounted (h0 hcounted) hr hadd hlt with h | h
  · exact ht (h.symm.trans (hb.trans hb'.symm))
  · refine h0 hcounted (b :: l) (by simp [hc]) ?_
    rw [← h, hb]
    simp

/-! ## Runs -/

/-- The users of the record are distinct, and were entered with its name by the calls so far. -/
structure NameRec.Entered (calls : List Call) (r : NameRec) : Prop where
  nodup : (keys r.users).Nodup
  entered : ∀ u ∈ r.users, ∃ e ∈ calls, e.name = r.name ∧ e.user = u.1

namespace NameRec.Entered

variable {es es' : List Call} {e : Call} {x : NameRec} {us : List (ℕ × ℤ)}

theorem mono (h : x.Entered es) (hsub : es ⊆ es') : x.Entered es' :=
  ⟨h.nodup, fun u hu ↦ (h.entered u hu).imp fun _ ⟨he, hrest⟩ ↦ ⟨hsub he, hrest⟩⟩

theorem expire {name : List UInt8} (h : Entered es ⟨name, us⟩) (t : ℤ) :
    Entered es ⟨name, Recency.expire t us⟩ :=
  ⟨nodup_keys_expire h.nodup t, fun u hu ↦ h.entered u ((expire_isPrefix t us).subset hu)⟩

theorem reference (h : Entered es ⟨e.name, us⟩) (k d : ℤ) :
    Entered (es ++ [e]) ⟨e.name, Names.reference k e.time d e.user us⟩ := by
  have htouch : Entered (es ++ [e]) ⟨e.name, touch e.user e.time us⟩ := by
    refine ⟨nodup_keys_touch h.nodup _ _, fun u hu ↦ ?_⟩
    rcases mem_touch.1 hu with rfl | ⟨hu, -⟩
    · exact ⟨e, by simp, rfl, rfl⟩
    · obtain ⟨e', he', hrest⟩ := h.entered u hu
      exact ⟨e', by simp [he'], hrest⟩
  rw [Names.reference]
  split
  · exact htouch.expire _
  · exact htouch

theorem nil (name : List UInt8) : Entered es ⟨name, []⟩ := ⟨by simp, by simp⟩

end NameRec.Entered

/-- **In every run the users of all records were entered by the calls**, whatever the times are. -/
theorem NameTab.run_entered (k d : ℤ) (es : List Call) (h : ℕ) :
    ∀ r ∈ (NameTab.empty.run k d es h).recs, r.Entered es := by
  induction es using List.reverseRecOn with
  | nil => simp [empty]
  | append_singleton es e ih =>
    by_cases he : h = nameHash e.name
    · subst he
      rw [run_concat_same]
      exact NameBucket.add_forall ih (fun r hr ↦ hr.expire _) (fun r hr ↦ hr.mono (by simp))
        (fun us hus ↦ hus.reference k d) ((NameRec.Entered.nil e.name).reference k d)
    · rw [run_concat_of_ne he]
      exact fun r hr ↦ (ih r hr).mono (by simp)

/-- The calls of `table_add` in a run. -/
def tableCalls (calls : List DnsCall) : List Call := calls.filterMap DnsCall.call

/-- **A run of `dnsEntry` is a run of `table_add`.** -/
theorem runTable_of_runDns {rs : List DnsResult}
    (h0 : ∀ c ∈ calls, c.Counted → ∀ l ∈ c.labels, 0 ∉ l)
    (h : runDns blockEncrypt k d s calls = some (s', rs)) :
    runTable k d s.1 (tableCalls calls) = some s'.1 := by
  induction calls generalizing s rs with
  | nil =>
    obtain ⟨rfl, -⟩ : s = s' ∧ _ := by simpa using h
    rfl
  | cons c calls ih =>
    obtain ⟨s₁, r, rs, hstep, h, -⟩ := PartialRun.run_cons_eq_some.1 h
    have ih := ih (fun c hc ↦ h0 c (by simp [hc])) h
    obtain ⟨r', hr', hs₁⟩ := Option.map_eq_some_iff.1 hstep
    obtain ⟨rfl, rfl⟩ : (r'.db, r'.self) = s₁ ∧ r' = r := by simpa using hs₁
    rcases c.run_db (h0 c (by simp)) hr' with ⟨hnone, hdb⟩ | ⟨e, ret, he, hadd, -⟩
    · rw [hdb] at ih
      rwa [tableCalls, List.filterMap_cons, hnone]
    · rw [tableCalls, List.filterMap_cons, he]
      simp only [runTable, hadd, Option.bind_eq_bind, Option.bind_some]
      exact ih

/-- Every call of `table_add` comes from the slot of a client. -/
theorem exists_client (hcond : ∀ pre c post, calls = pre ++ c :: post → DnsCall.FromClient pre c)
    {e : Call} (he : e ∈ tableCalls calls) :
    ∃ a ∈ clientsOf calls e.name, e.user = clientSlot a := by
  obtain ⟨c, hc, he⟩ := List.mem_filterMap.1 he
  obtain ⟨hcounted, rfl⟩ := DnsCall.call_eq_some.1 he
  obtain ⟨pre, post, rfl⟩ := List.append_of_mem hc
  obtain ⟨-, a, ha, hslot⟩ := hcond pre c post rfl hcounted
  refine ⟨a, clientsOf_mono ?_ _ ha, hslot⟩
  simp

/-- There are at least as many clients as users of a record all of whose users are clients. -/
theorem NameRec.Entered.length_le_card {es : List Call} {x : NameRec} (h : x.Entered es)
    (hclient : ∀ e ∈ es, ∃ a ∈ clientsOf calls e.name, e.user = clientSlot a) :
    x.users.length ≤ (clientsOf calls x.name).card := by
  have hsub : (keys x.users).toFinset ⊆ (clientsOf calls x.name).image clientSlot := by
    intro u hu
    obtain ⟨t, hu⟩ := mem_keys.1 (List.mem_toFinset.1 hu)
    obtain ⟨e, he, hname, huser⟩ := h.entered _ hu
    obtain ⟨a, ha, hslot⟩ := hclient e he
    exact Finset.mem_image.2 ⟨a, hname ▸ ha, hslot.symm.trans huser⟩
  calc x.users.length = (keys x.users).toFinset.card := by
        rw [List.toFinset_card_of_nodup h.nodup, keys, List.length_map]
    _ ≤ ((clientsOf calls x.name).image clientSlot).card := Finset.card_le_card hsub
    _ ≤ (clientsOf calls x.name).card := Finset.card_image_le

/-- Both allocations of `table_add` succeed. -/
def DnsCall.AllocOk (c : DnsCall) :
    Prop := c.env.table.allocNames = true ∧ c.env.table.allocLru = true

instance (c : DnsCall) : Decidable c.AllocOk := inferInstanceAs (Decidable (_ ∧ _))

/-- The table after a run, without pointers. -/
theorem view_of_runDns (hd : 0 ≤ d) {self : CryptoIp} {rs : List DnsResult}
    (hok : ∀ c ∈ calls, c.AllocOk) (h0 : ∀ c ∈ calls, c.Counted → ∀ l ∈ c.labels, 0 ∉ l)
    (h : runDns blockEncrypt k d (tableInit, self) calls = some (s, rs)) :
    s.1.View (NameTab.empty.run k d (tableCalls calls)) := by
  have hcalls : ∀ e ∈ tableCalls calls, e.AllocOk ∧ e.Fits := by
    intro e he
    obtain ⟨c, hc, he⟩ := List.mem_filterMap.1 he
    obtain ⟨-, rfl⟩ := DnsCall.call_eq_some.1 he
    exact ⟨hok c hc, c.short⟩
  obtain ⟨db, hrun, hview⟩ := runTable_spec (k := k) view_tableInit hd (fun e he ↦ (hcalls e he).1)
    fun e he ↦ (hcalls e he).2
  obtain rfl : db = s.1 := Option.some.inj (hrun.symm.trans (runTable_of_runDns h0 h))
  exact hview

/-- **Users are clients**: in every run in which each counted packet comes from the slot of a client
of its name, a name leaves in clear only when enough clients have asked for it, and no other address
ever counts. -/
theorem users_are_clients (hd : 0 ≤ d) (hok : ∀ c ∈ calls, c.AllocOk)
    (hcond : ∀ pre c post, calls = pre ++ c :: post → DnsCall.FromClient pre c) (self : CryptoIp) :
    CountsClients blockEncrypt k d self calls := by
  rintro pre c post s rs rfl hrun
  have hcond' : ∀ pre' c' post', pre ++ [c] = pre' ++ c' :: post' → DnsCall.FromClient pre' c' := by
    intro pre' c' post' he
    refine hcond pre' c' (post' ++ post) ?_
    calc pre ++ c :: post = (pre ++ [c]) ++ post := by simp
      _ = pre' ++ c' :: (post' ++ post) := by rw [he]; simp
  have h0 : ∀ c' ∈ pre ++ [c], c'.Counted → ∀ l ∈ c'.labels, 0 ∉ l := by
    intro c' hc' hcounted
    obtain ⟨pre', post', he⟩ := List.append_of_mem hc'
    exact (hcond' pre' c' post' he hcounted).1
  have hok' : ∀ c' ∈ pre ++ [c], c'.AllocOk := fun c' hc' ↦ hok c' (by
    rcases List.mem_append.1 hc' with h | h
    · simp [h]
    · simp [List.mem_singleton.1 h])
  refine ⟨fun hls hclear ↦ ?_, fun s' r hstep ↦ ?_⟩
  · obtain ⟨hcounted, db, ret, hadd, hk⟩ := hclear.counted hls (h0 c (by simp))
    have hview := view_of_runDns hd (fun c' hc' ↦ hok' c' (by simp [hc']))
      (fun c' hc' ↦ h0 c' (by simp [hc'])) hrun
    have hentered := NameTab.run_entered k d (tableCalls pre) (nameHash c.name)
    generalize NameTab.empty.run k d (tableCalls pre) = T at hview hentered
    have hret' := (tableAdd_of_some hview hd (c := ⟨c.flow, c.name, c.env.table⟩)
      (hok' c (by simp)) hadd).1
    obtain ⟨us, hret, hus⟩ :=
      NameBucket.add_ret (T (nameHash c.name)) k d c.flow.timestamp c.flow.userHash c.name
      (probability c.env.table.tsc)
    have hus' : NameRec.Entered (tableCalls pre) ⟨c.name, us⟩ := by
      rcases hus with rfl | rfl
      · rw [NameBucket.usersOf]
        split
        · next x hx =>
          have hname : x.name = c.name := by simpa using List.find?_some hx
          exact hname ▸ hentered x (List.mem_of_find?_eq_some hx)
        · exact .nil _
      · exact .nil _
    have hcalls : tableCalls (pre ++ [c]) = tableCalls pre ++ [⟨c.flow, c.name, c.env.table⟩] := by
      rw [tableCalls, List.filterMap_append, List.filterMap_cons,
        DnsCall.call_eq_some.2 ⟨hcounted, rfl⟩]
      rfl
    have hcard := (hus'.reference (e := ⟨c.flow, c.name, c.env.table⟩) k d).length_le_card
      fun e he ↦ exists_client hcond' (hcalls ▸ he)
    calc k ≤ ret := hk
      _ = (Names.reference k c.flow.timestamp d c.flow.userHash us).length := hret'.trans hret
      _ ≤ (clientsOf (pre ++ [c]) c.name).card := by exact_mod_cast hcard
  · have hrun' : runDns blockEncrypt k d (tableInit, self) (pre ++ [c]) = some (s', rs ++ [r]) :=
      PartialRun.run_append_eq_some.2 ⟨s, rs, [r], hrun,
        PartialRun.run_singleton_eq_some.2 ⟨r, hstep, rfl⟩, rfl⟩
    have hview := view_of_runDns hd hok' h0 hrun'
    intro h x hx u hu
    rw [(hview h).records_eq] at hx
    obtain ⟨e, he, hname, huser⟩ := (NameTab.run_entered k d _ h x hx).entered u hu
    obtain ⟨a, ha, hslot⟩ := exists_client hcond' he
    exact ⟨a, hname ▸ ha, huser.symm.trans hslot⟩

/-- A client asks a resolver for the name `a`. -/
def sampleQuery : DnsCall where
  packet := dnsFrame 1 2 40000 53 0x0100 0 (wire [[97]] ++ [0, 1, 0, 1])
  tvSec := 0
  env := .plain
  labels := [[97]]
  asks := asks_dnsFrame (by decide) 1 2 40000 53 0x0100 0 (by decide) (by decide)
  short := by decide
  direction := by decide +kernel

/-- The resolver answers. -/
def sampleResponse : DnsCall where
  packet := dnsFrame 2 1 53 40000 0x8180 1
    (wire [[97]] ++ ([0, 1, 0, 1] ++ [0xC0, 12, 0, 1, 0, 1, 0, 0, 0, 60, 0, 4, 10, 0, 0, 7]))
  tvSec := 1
  env := .plain
  labels := [[97]]
  asks := asks_dnsFrame (by decide) 2 1 53 40000 0x8180 1 (by decide) (by decide)
  short := by decide
  direction := by decide +kernel

/-- The resolver asks another resolver for the same name. -/
def forwardedQuery : DnsCall where
  packet := dnsFrame 2 3 40000 53 0x0100 0 (wire [[97]] ++ [0, 1, 0, 1])
  tvSec := 1
  env := .plain
  labels := [[97]]
  asks := asks_dnsFrame (by decide) 2 3 40000 53 0x0100 0 (by decide) (by decide)
  short := by decide
  direction := by decide +kernel

/-- A client asks a resolver, the resolver asks another one, and answers.  The resolver is a client
of the name too, so that the last two messages leave in clear, as they should. -/
theorem users_are_clients_forwarded :
    CountsClients id 2 60 .zero [sampleQuery, forwardedQuery, sampleResponse] := by
  refine users_are_clients (by decide) (by decide) (fun pre c post he ↦ ?_) .zero
  rcases pre with _ | ⟨_, _ | ⟨_, _ | ⟨_, pre⟩⟩⟩ <;>
    simp only [List.cons_append, List.nil_append, List.cons.injEq, List.nil_eq,
      List.append_eq_nil_iff,
      reduceCtorEq, and_false] at he
  · obtain ⟨rfl, -⟩ := he
    exact DnsCall.fromClient_of_query (by decide +kernel) (by decide) _
  · obtain ⟨rfl, rfl, -⟩ := he
    exact DnsCall.fromClient_of_query (by decide +kernel) (by decide) _
  · obtain ⟨rfl, rfl, rfl, -⟩ := he
    have hclient : forwardedQuery.client = sampleResponse.packet.word 26 := by decide +kernel
    exact fun _ ↦ ⟨by decide, _, mem_clientsOf.2 ⟨forwardedQuery, by simp, rfl, hclient⟩, rfl⟩

/-- One client asks one resolver, which answers: the answer leaves in clear under the threshold
2. -/
theorem users_are_clients_fails : ¬∀ (blockEncrypt : Block → Block) (k d : ℤ) (self : CryptoIp)
    (calls : List DnsCall), 0 ≤ d → (∀ c ∈ calls, c.AllocOk) →
    (∀ c ∈ calls, ∀ c' ∈ calls, c'.tvSec - c.tvSec ≤ d) →
      CountsClients blockEncrypt k d self calls := by
  intro h
  have hcounts := h id 2 60 .zero [sampleQuery, sampleResponse] (by decide) (by decide) (by decide)
  have hrun : (runDns id 2 60 (tableInit, .zero) [sampleQuery]).bind (fun x ↦
      (tableAdd x.1.1 sampleResponse.flow [97] 2 60 sampleResponse.env.table).map Prod.snd) =
        some 2 := by
    decide +kernel
  obtain ⟨⟨s, rs⟩, hrun, hret⟩ := Option.bind_eq_some_iff.1 hrun
  obtain ⟨⟨db, ret⟩, hadd, rfl⟩ := Option.map_eq_some_iff.1 hret
  have hclear : sampleResponse.InClear id 2 60 s := by
    intro tsc
    have hfull : ¬(sampleResponse.packet.dnsHeader 42).Empty := by decide +kernel
    refine ⟨⟨sampleResponse.packet, db, s.2, some (text [[97]], 2)⟩, ?_, sampleResponse.asks.reads⟩
    rw [DnsCall.run, DnsCall.draw, dnsEntry_asks sampleResponse.asks (by decide) (by decide)
      (by decide) hfull]
    exact Option.bind_eq_some_iff.2 ⟨(db, 2), hadd, rfl⟩
  have hcard : (clientsOf ([sampleQuery] ++ [sampleResponse]) [97]).card = 1 := by decide +kernel
  have hle := (hcounts [sampleQuery] sampleResponse [] s rs rfl hrun).1 (by decide) hclear
  exact absurd (hcard ▸ hle) (by decide)

end AlphaMon
