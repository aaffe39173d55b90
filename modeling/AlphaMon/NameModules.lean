import AlphaMon.HttpObfuscation
import AlphaMon.SniObfuscation

/-!
# What the name modules report

The TLS and the HTTP module have many ways to return, and one value for most of them.  What matters
to the engine is said here once for both: which name a module finds in a packet, if any (`tlsName`,
`httpName`), which is a function of the packet alone, and what the module does then (`Reported`).
It counts the name it found; below the threshold it hides it and returns `1`; from the threshold on
it changes nothing and returns `0`.  When it finds none it counts nothing and changes nothing, but
what it returns is `0` just as well, or whatever was in the register.
-/

set_option autoImplicit false

namespace AlphaMon

open CString

/-! ## Changes to letters -/

/-- Bytes have changed to letters only. -/
structure Scrambled (p q : Packet) : Prop where
  pktLen : q.pktLen = p.pktLen
  length : q.data.length = p.data.length
  byte : ∀ j, q.byte j = p.byte j ∨ IsCapital (q.byte j)

namespace Scrambled

variable {p q r : Packet}

theorem refl (p : Packet) : Scrambled p p := ⟨rfl, rfl, fun _ ↦ .inl rfl⟩

theorem trans (hpq : Scrambled p q) (hqr : Scrambled q r) : Scrambled p r where
  pktLen := hqr.pktLen.trans hpq.pktLen
  length := hqr.length.trans hpq.length
  byte j := by
    rcases hqr.byte j with h | h
    · rw [h]
      exact hpq.byte j
    · exact .inr h

theorem maskByte (keep : UInt8 → Bool) (tsc : ℕ → ℕ) (p : Packet) (i : ℕ) :
    Scrambled p (p.maskByte keep tsc i) where
  pktLen := Packet.maskByte_pktLen ..
  length := Packet.maskByte_length ..
  byte j := by
    rw [Packet.maskByte]
    split
    · exact .inl rfl
    · rw [Packet.set_byte]
      split
      · exact .inr (isCapital_randChar _)
      · exact .inl rfl

theorem mask (keep : UInt8 → Bool) (tsc : ℕ → ℕ) (n i : ℕ) (p : Packet) :
    Scrambled p (p.mask keep tsc n i) := by
  induction n generalizing i p with
  | zero => exact refl p
  | succ n ih => exact (maskByte keep tsc p i).trans (ih _ _)

theorem uriLoop (tsc : ℕ → ℕ) (next fuel len ptr : ℕ) (p : Packet) :
    Scrambled p (AlphaMon.uriLoop tsc next fuel len ptr p).1 := by
  induction fuel generalizing len ptr p with
  | zero => exact refl p
  | succ fuel ih =>
    rw [AlphaMon.uriLoop]
    split_ifs
    · exact refl p
    · exact refl p
    · exact refl p
    · exact (maskByte _ _ p ptr).trans (ih _ _ _)

theorem refererLoop (tsc : ℕ → ℕ) (fuel i len ptr : ℕ) (p : Packet) :
    Scrambled p (AlphaMon.refererLoop tsc fuel i len ptr p) := by
  induction fuel generalizing i len ptr p with
  | zero => exact refl p
  | succ fuel ih =>
    rw [AlphaMon.refererLoop]
    split_ifs
    · exact refl p
    · exact refl p
    · exact maskByte _ _ p ptr
    · exact (maskByte _ _ p ptr).trans (ih _ _ _ _)

theorem obfuscateUri (p : Packet) (pkt lenStart : ℕ) (tsc : ℕ → ℕ) :
    Scrambled p (AlphaMon.obfuscateUri p pkt lenStart tsc).1 := by
  rw [AlphaMon.obfuscateUri]
  split
  · exact refl p
  split
  · exact refl p
  split
  · exact refl p
  · exact uriLoop ..

theorem obfuscateReferer (p : Packet) (pkt lenStart : ℕ) (tsc : ℕ → ℕ) :
    Scrambled p (AlphaMon.obfuscateReferer p pkt lenStart tsc) := by
  rw [AlphaMon.obfuscateReferer]
  split
  · exact refl p
  split
  · exact refl p
  · exact refererLoop ..

/-- A byte that is `0` afterwards was `0` before. -/
theorem eq_zero (h : Scrambled p q) {j : ℕ} (hj : q.byte j = 0) : p.byte j = 0 := by
  rcases h.byte j with h | h
  · rw [← h, hj]
  · rw [hj] at h
    exact absurd h (by decide)

end Scrambled

/-- A dot or a letter stands at every position of a name. -/
def Packet.Hides (q : Packet) (pos n : ℕ) : Prop :=
  ∀ j, pos ≤ j → j < pos + n → q.byte j = 46 ∨ IsCapital (q.byte j)

/-- A hidden name stays hidden. -/
theorem Packet.Hides.scrambled {p q : Packet} {pos n : ℕ} (h : p.Hides pos n) (hs : Scrambled p q) :
    q.Hides pos n := by
  intro j h₁ h₂
  rcases hs.byte j with h' | h'
  · rw [h']
    exact h j h₁ h₂
  · exact .inr h'

/-- Replacing all of a name but its dots hides it. -/
theorem Packet.hides_mask {p : Packet} {pos n : ℕ} (h : pos + n ≤ p.data.length) (tsc : ℕ → ℕ) :
    (p.mask isDot tsc n pos).Hides pos n := by
  intro j h₁ h₂
  rw [Packet.mask_byte h]
  by_cases hdot : p.byte j = 46
  · rw [if_neg (by simp [isDot, hdot])]
    exact .inl hdot
  · rw [if_pos ⟨h₁, h₂, by simp [isDot, hdot]⟩]
    exact .inr (isCapital_randChar _)

/-! ## Names found -/

/-- A name of a packet: where it stands, and its bytes. -/
structure FoundName where
  pos : ℕ
  name : List UInt8
  deriving DecidableEq

/-- The loop of `tlsHelloEntry` over the extensions, and the position at which the extensions should
end. -/
def tlsWalk (packet : Packet) (offset : UInt8) : (ℕ ⊕ ℕ) × ℕ :=
  let bytes := offsetExtractorTls 0 offset
  let curr := bytes + 1 + 43 + (packet.byte (bytes + 43)).toNat
  let curr := curr + (2 + packet.ntohs curr)
  let curr := curr + (1 + (packet.byte curr).toNat)
  let maxchar := curr + 2 + packet.ntohs curr
  (extLoop packet maxchar (maxchar - (curr + 2)) (curr + 2), maxchar)

/-- The name that `tlsHelloEntry` counts. -/
def tlsName (packet : Packet) (offset : UInt8) : Option FoundName :=
  match (tlsWalk packet offset).1 with
  | .inl curr =>
    let namelen := packet.ntohs (curr + 3)
    let name := packet.text (curr + 5)
    if namelen = 0 ∨ namelen ≠ name.length then none else some ⟨curr + 5, name⟩
  | .inr _ => none

/-- `tlsHelloEntry` ends without returning a value: there is no server name, and the extensions end
where they should. -/
def tlsFallsThrough (packet : Packet) (offset : UInt8) : Prop :=
  (tlsWalk packet offset).1 = .inr (tlsWalk packet offset).2

instance (packet : Packet) (offset : UInt8) : Decidable (tlsFallsThrough packet offset) :=
  inferInstanceAs (Decidable (_ = _))

/-- The name that `httpEntry` counts. -/
def httpName (packet : Packet) (offset : UInt8) : Option FoundName :=
  let pkt := offsetExtractorHttp 0 (packet.byte 46)
  let lenStart := offsetExtractorHttp 0 offset
  match strcasestr kwHost (packet.text pkt) with
  | none => none
  | some i =>
    if packet.pktLen ≤ lenStart + i + 6 then none
    else match hostLoop packet 64 (lenStart + i + 6 + 1) (pkt + i + 6) [] with
      | none => none
      | some (len, name) =>
        let name := name.takeWhile (· ≠ 0)
        if packet.pktLen ≤ len ∨ name.length = 0 then none else some ⟨pkt + i + 6, name⟩

/-! ## The two modules -/

/-- The modules `multiplexer_proto` hands a TCP packet to. -/
inductive ModuleKind
  | tls
  | http
  deriving DecidableEq

/-- The name a module finds. -/
def ModuleKind.find : ModuleKind → Packet → UInt8 → Option FoundName
  | tls => tlsName
  | http => httpName

/-- What a module returns when it finds no name. -/
def ModuleKind.giveUp (m : ModuleKind) (packet : Packet) (offset : UInt8) (noReturn : ℤ) : ℤ :=
  match m with
  | tls => if tlsFallsThrough packet offset then noReturn else 0
  | http => 0

/-- What a module did to a packet in which it found `found`. -/
inductive Reported (packet : Packet) (flow : Flow) (flowDb : HashStruct) (kAnon kDelta : ℤ)
    (env : HandlerEnv) (giveUp : ℤ) : Option FoundName → HandlerResult → Prop
  /-- No name: nothing counted and nothing changed. -/
  | none : Reported packet flow flowDb kAnon kDelta env giveUp none ⟨packet, giveUp, flowDb, none⟩
  /-- Few users: the name is hidden. -/
  | below {f : FoundName} {db' : HashStruct} {ret : ℤ} {q : Packet}
      (hadd : tableAdd flowDb flow f.name kAnon kDelta env.table = some (db', ret))
        (hlt : ret < kAnon)
      (hq : Scrambled packet q) (hhides : q.Hides f.pos f.name.length) :
      Reported packet flow flowDb kAnon kDelta env giveUp (some f) ⟨q, 1, db', some (f.name, ret)⟩
  /-- Enough users: nothing is changed. -/
  | above {f : FoundName} {db' : HashStruct} {ret : ℤ}
      (hadd : tableAdd flowDb flow f.name kAnon kDelta env.table = some (db', ret))
        (hle : kAnon ≤ ret) :
      Reported packet flow flowDb kAnon kDelta env giveUp (some f)
        ⟨packet, 0, db', some (f.name, ret)⟩

/-- The modules are called alike. -/
abbrev NameModule := Packet → ℕ → UInt8 → Flow → HashStruct → ℤ → ℤ → HandlerEnv →
    Option HandlerResult

/-- The code of a module. -/
def ModuleKind.entry : ModuleKind → NameModule
  | tls => tlsHelloEntry
  | http => httpEntry

variable {packet : Packet} {offset : UInt8} {flow : Flow} {flowDb : HashStruct} {kAnon kDelta : ℤ}
  {env : HandlerEnv} {r : HandlerResult}

theorem Packet.reads_text (p : Packet) (i : ℕ) : Reads p.data i (p.text i) ∧ 0 ∉ p.text i :=
  ⟨(cstr_eq_iff.1 (rfl : cstr p.data i = _)).1, (cstr_eq_iff.1 (rfl : cstr p.data i = _)).2.1⟩

/-- **What the TLS module reports.** -/
theorem tlsHelloEntry_reported
    (h : tlsHelloEntry packet 0 offset flow flowDb kAnon kDelta env = some r) :
    Reported packet flow flowDb kAnon kDelta env (ModuleKind.tls.giveUp packet offset env.noReturn)
      (tlsName packet offset) r := by
  have hrun : tlsHelloEntry packet 0 offset flow flowDb kAnon kDelta env =
      match (tlsWalk packet offset).1 with
      | .inl curr => sniEntry packet curr flow flowDb kAnon kDelta env
      | .inr curr =>
        some ⟨packet, if curr ≠ (tlsWalk packet offset).2 then 0 else env.noReturn, flowDb,
          none⟩ := rfl
  rw [hrun] at h
  rw [tlsName]
  rcases hw : (tlsWalk packet offset).1 with curr | curr <;> rw [hw] at h
  · simp only [sniEntry] at h
    simp only
    split
    · next hnone =>
      rw [if_pos hnone] at h
      obtain rfl := Option.some.inj h
      have hgive : ModuleKind.tls.giveUp packet offset env.noReturn = 0 :=
        if_neg (by simp [tlsFallsThrough, hw])
      rw [hgive]
      exact .none
    · next hsome =>
      rw [if_neg hsome] at h
      simp only [Option.bind_eq_bind] at h
      obtain ⟨⟨db', ret⟩, hadd, h⟩ := Option.bind_eq_some_iff.1 h
      obtain ⟨hpos, hlen⟩ := not_or.1 hsome
      rw [not_not.1 hlen] at h hpos
      split at h
      · next hlt =>
        obtain rfl := Option.some.inj h
        obtain ⟨hreads, h0⟩ := packet.reads_text (curr + 5)
        have hle := (hreads.add_length_le h0).resolve_left fun he ↦ hpos (by rw [he]; rfl)
        exact .below hadd hlt (.mask ..) (Packet.hides_mask hle _)
      · next hge =>
        obtain rfl := Option.some.inj h
        exact .above hadd (not_lt.1 hge)
  · obtain rfl := Option.some.inj h
    have hgive : ModuleKind.tls.giveUp packet offset env.noReturn =
        if curr ≠ (tlsWalk packet offset).2 then 0 else env.noReturn := by
      simp only [ModuleKind.giveUp, tlsFallsThrough, hw, Sum.inr.injEq, ite_not]
    rw [← hgive]
    exact .none

/-- The loop over the Host value copies what is there. -/
theorem hostLoop_reads {left len ptr len' : ℕ} {name name' : List UInt8}
    (h : hostLoop packet left len ptr name = some (len', name')) :
    ∃ l, name' = name ++ l ∧ Reads packet.data ptr l := by
  induction left generalizing len ptr name with
  | zero =>
    rw [hostLoop] at h
    split at h
    · obtain ⟨-, rfl⟩ : _ ∧ name = name' := by simpa using h
      exact ⟨[], by simp, by simp⟩
    · exact absurd h (by simp)
  | succ left ih =>
    rw [hostLoop] at h
    split at h
    · obtain ⟨-, rfl⟩ : _ ∧ name = name' := by simpa using h
      exact ⟨[], by simp, by simp⟩
    split at h
    · exact absurd h (by simp)
    · obtain ⟨l, rfl, hl⟩ := ih h
      exact ⟨packet.byte ptr :: l, by simp, reads_cons.2 ⟨rfl, hl⟩⟩

/-- A name found by the HTTP module stands in memory. -/
theorem httpName_reads {f : FoundName} (h : httpName packet offset = some f) :
    Reads packet.data f.pos f.name ∧ 0 ∉ f.name ∧ f.name ≠ [] := by
  simp only [httpName] at h
  split at h
  · exact absurd h (by simp)
  split at h
  · exact absurd h (by simp)
  split at h
  · exact absurd h (by simp)
  next len name hloop =>
  split at h
  · exact absurd h (by simp)
  next hne =>
  obtain rfl := Option.some.inj h
  obtain ⟨l, rfl, hl⟩ := hostLoop_reads hloop
  refine ⟨hl.takeWhile _, fun h0 ↦ ?_, fun he ↦ hne (.inr (by simp only at he; rw [he]; rfl))⟩
  simpa using List.mem_takeWhile_imp h0

/-- `httpEntry` is `httpName` and then `httpRewrite`. -/
theorem httpEntry_eq_name (packet : Packet) (offset : UInt8) (flow : Flow) (flowDb : HashStruct)
    (kAnon kDelta : ℤ) (env : HandlerEnv) :
    httpEntry packet 0 offset flow flowDb kAnon kDelta env =
      match httpName packet offset with
      | none => some ⟨packet, 0, flowDb, none⟩
      | some f => httpRewrite packet (offsetExtractorHttp 0 (packet.byte 46))
          (offsetExtractorHttp 0 offset) f.pos f.name flow flowDb kAnon kDelta env := by
  have hpkt : offsetExtractorHttp 0 (packet.byte 46) ≠ 0 := (payloadOffset_pos ..).ne'
  have hlen : offsetExtractorHttp 0 offset ≠ 0 := (payloadOffset_pos ..).ne'
  simp only [httpEntry, httpHeaderExtractor, if_neg hpkt, if_neg hlen, httpName]
  cases strcasestr kwHost (packet.text (offsetExtractorHttp 0 (packet.byte 46))) with
  | none => rfl
  | some i =>
    simp only
    split
    · rfl
    cases hostLoop packet 64 (offsetExtractorHttp 0 offset + i + 6 + 1)
        (offsetExtractorHttp 0 (packet.byte 46) + i + 6) [] with
    | none => rfl
    | some q =>
      simp only
      split <;> rfl

/-- **What the HTTP module reports.** -/
theorem httpEntry_reported
    (h : httpEntry packet 0 offset flow flowDb kAnon kDelta env = some r) :
    Reported packet flow flowDb kAnon kDelta env (ModuleKind.http.giveUp packet offset env.noReturn)
      (httpName packet offset) r := by
  rw [httpEntry_eq_name] at h
  cases hname : httpName packet offset with
  | none =>
    rw [hname] at h
    obtain rfl := Option.some.inj h
    exact .none
  | some f =>
    rw [hname] at h
    obtain ⟨hreads, h0, hne⟩ := httpName_reads hname
    have hle := (hreads.add_length_le h0).resolve_left hne
    simp only [httpRewrite, Option.bind_eq_bind] at h
    obtain ⟨⟨db', ret⟩, hadd, h⟩ := Option.bind_eq_some_iff.1 h
    split at h
    · next hlt =>
      obtain rfl := Option.some.inj h
      have hhides := Packet.hides_mask hle (env.tsc 0)
      generalize hq : packet.mask isDot (env.tsc 0) f.name.length f.pos = q at *
      have hmask : Scrambled packet q := hq ▸ .mask ..
      have huri := Scrambled.obfuscateUri q (offsetExtractorHttp 0 (packet.byte 46))
        (offsetExtractorHttp 0 offset) (env.tsc 1)
      generalize obfuscateUri q (offsetExtractorHttp 0 (packet.byte 46))
        (offsetExtractorHttp 0 offset) (env.tsc 1) = u at *
      have hlast : Scrambled q (if u.2 then obfuscateReferer u.1
        (offsetExtractorHttp 0 (packet.byte 46))
          (offsetExtractorHttp 0 offset) (env.tsc 2) else u.1) := by
        split
        · exact huri.trans (.obfuscateReferer ..)
        · exact huri
      exact .below hadd hlt (hmask.trans hlast) (hhides.scrambled hlast)
    · next hge =>
      obtain rfl := Option.some.inj h
      exact .above hadd (not_lt.1 hge)

/-- **What a module reports.** -/
theorem ModuleKind.reported {m : ModuleKind}
    (h : m.entry packet 0 offset flow flowDb kAnon kDelta env = some r) :
    Reported packet flow flowDb kAnon kDelta env (m.giveUp packet offset env.noReturn)
      (m.find packet offset) r := by
  cases m with
  | tls => exact tlsHelloEntry_reported h
  | http => exact httpEntry_reported h

/-- **A module returns** unless its call of `table_add` for the name it has found fails. -/
theorem ModuleKind.entry_total {m : ModuleKind} (packet : Packet) (offset : UInt8) (flow : Flow)
    {flowDb : HashStruct} {kAnon kDelta : ℤ} {env : HandlerEnv}
    (hadd : ∀ f, m.find packet offset = some f →
      ∃ x, tableAdd flowDb flow f.name kAnon kDelta env.table = some x) :
    ∃ r, m.entry packet 0 offset flow flowDb kAnon kDelta env = some r := by
  cases m with
  | tls =>
    simp only [find, tlsName, tlsWalk] at hadd
    simp only [entry, tlsHelloEntry]
    split
    · next curr hwalk =>
      rw [hwalk] at hadd
      rw [sniEntry]
      split
      · exact ⟨_, rfl⟩
      · next hname =>
        obtain ⟨x, hx⟩ := hadd _ (if_neg hname)
        simp only [hx, Option.bind_eq_bind, Option.bind_some]
        split <;> exact ⟨_, rfl⟩
    · exact ⟨_, rfl⟩
  | http =>
    rw [entry, httpEntry_eq_name]
    split
    · exact ⟨_, rfl⟩
    · next f hf =>
      obtain ⟨x, hx⟩ := hadd f hf
      simp only [httpRewrite, hx, Option.bind_eq_bind, Option.bind_some]
      split <;> exact ⟨_, rfl⟩

end AlphaMon
