import AlphaMon.IpUtils
import AlphaMon.Runs.Partial
import AlphaMon.Struct

/-!
# The buffer of `readline`

`readline` keeps its buffer and the size of it from one call to the next, and makes the buffer
larger in the middle of a line when it is full.  `readlineBuf` is the function with this memory: a
write has to be below `buf_size`, and the size is an `int`.

As long as no line is too long for that, whatever earlier calls have left, it does what `readline`
does without a buffer (`readlineBuf_spec`), and successive calls give the lines of a file without
their comments, those left out that are then empty (`readline_delivers`).
-/

set_option autoImplicit false

namespace AlphaMon

/-! ## Lines -/

/-- The lines of a file, each with the newline that ends it. -/
def fileLines : List UInt8 → List (List UInt8)
  | [] => []
  | c :: file =>
    if c = 10 then [10] :: fileLines file
    else match fileLines file with
      | [] => [[c]]
      | line :: lines => (c :: line) :: lines

/-- The newline at the end of a line, if there is one. -/
def lineEnd (line : List UInt8) : List UInt8 := if line.getLast? = some 10 then [10] else []

/-- A line without everything from its first `#` up to the newline. -/
def stripComment (line : List UInt8) : List UInt8 := (chomp line).takeWhile (· ≠ 35) ++ lineEnd line

/-- The lines of a file without comments, those left out that are then empty. -/
def significantLines (file : List UInt8) : List (List UInt8) :=
  ((fileLines file).map stripComment).filter (chomp · ≠ [])

/-- The lines still to come, when some characters of the first line have been read: `buf` is what
has been kept of it, and `started` says that a comment has begun. -/
def linesToCome (buf : List UInt8) (started : Bool) (file : List UInt8) : List (List UInt8) :=
  match fileLines file with
  | [] => [buf].filter (chomp · ≠ [])
  | line :: lines =>
    ((buf ++ if started then lineEnd line else stripComment line) :: lines.map stripComment).filter
      (chomp · ≠ [])

theorem fileLines_ne_nil {file line : List UInt8} (h : line ∈ fileLines file) : line ≠ [] := by
  induction file generalizing line with
  | nil => simp [fileLines] at h
  | cons c file ih =>
    rw [fileLines] at h
    split at h
    · rcases List.mem_cons.1 h with rfl | h
      · simp
      · exact ih h
    · split at h
      · simp_all
      · next line' lines heq =>
        rcases List.mem_cons.1 h with rfl | h
        · simp
        · exact ih (heq ▸ List.mem_cons_of_mem _ h)

@[simp] theorem chomp_nil : chomp [] = [] := rfl

@[simp] theorem chomp_concat (buf : List UInt8) : chomp (buf ++ [10]) = buf := by
  simp [chomp]

theorem chomp_of_notMem {buf : List UInt8} (h : 10 ∉ buf) : chomp buf = buf :=
  if_neg fun hlast ↦ h (List.mem_of_getLast? hlast)

theorem linesToCome_init (file : List UInt8) :
    linesToCome [] false file = significantLines file := by
  rw [linesToCome, significantLines]
  cases fileLines file with
  | nil => simp
  | cons line lines => simp

theorem linesToCome_newline (buf : List UInt8) (started : Bool) (file : List UInt8) :
    linesToCome buf started (10 :: file) =
      if buf = [] then significantLines file else (buf ++ [10]) :: significantLines file := by
  have hend : (if started then lineEnd [10] else stripComment [10]) = [10] := by
    cases started <;> decide
  rw [linesToCome, fileLines, if_pos rfl]
  simp only [hend, List.filter_cons, chomp_concat, significantLines]
  by_cases h : buf = [] <;> simp [h]

theorem linesToCome_cons {c : UInt8} (hc : c ≠ 10) (buf : List UInt8) (started : Bool)
    (file : List UInt8) :
    linesToCome buf started (c :: file) =
      linesToCome (if started || c = 35 then buf else buf ++ [c]) (started || c = 35) file := by
  rw [linesToCome, fileLines, if_neg hc, linesToCome]
  cases hlines : fileLines file with
  | nil =>
    have hend : lineEnd [c] = [] := if_neg (by simpa using hc)
    by_cases h : c = 35
    · subst h
      cases started <;> simp [stripComment, hend, chomp]
    · cases started <;> simp [stripComment, hend, h, chomp_of_notMem, Ne.symm hc]
  | cons line lines =>
    have hline : line ≠ [] := fileLines_ne_nil (hlines ▸ List.mem_cons_self)
    have hend : lineEnd (c :: line) = lineEnd line := by
      rw [lineEnd, lineEnd, List.getLast?_cons_of_ne_nil hline]
    have hchomp : chomp (c :: line) = c :: chomp line := by
      rw [chomp, chomp, List.getLast?_cons_of_ne_nil hline, List.dropLast_cons_of_ne_nil hline]
      split <;> rfl
    by_cases h : c = 35
    · subst h
      cases started <;> simp [stripComment, hend, hchomp]
    · cases started <;> simp [stripComment, hend, hchomp, h]

/-- **The loop of `readline` reads a line.** -/
theorem readlineLoop_lines {file buf : List UInt8} {started : Bool} (hbuf : 10 ∉ buf) :
    match linesToCome buf started file with
    | [] => (readlineLoop true true file buf started).1 = []
    | line :: lines => ∃ rest, readlineLoop true true file buf started = (line, rest) ∧
        significantLines rest = lines ∧ ∀ c ∈ rest, c ∈ file := by
  induction file generalizing buf started with
  | nil =>
    cases buf with
    | nil => rfl
    | cons b buf =>
      have hne : chomp (b :: buf) ≠ [] := by simp [chomp_of_notMem hbuf]
      simp only [linesToCome, fileLines, List.filter_cons, hne, ne_eq, not_false_eq_true,
        decide_true, if_true,
        List.filter_nil]
      exact ⟨[], rfl, rfl, by simp⟩
  | cons c file ih =>
    by_cases hc : c = 10
    · subst hc
      rw [linesToCome_newline, readlineLoop]
      cases buf with
      | nil =>
        have h := @ih [] false (by simp)
        rw [linesToCome_init] at h
        simp only [if_true, decide_true, Bool.or_true, List.nil_append, List.head?_cons, true_and]
        cases hl : significantLines file with
        | nil => simpa [hl] using h
        | cons line lines =>
          rw [hl] at h
          obtain ⟨rest, h₁, h₂, h₃⟩ := h
          exact ⟨rest, h₁, h₂, fun c hc ↦ List.mem_cons_of_mem _ (h₃ c hc)⟩
      | cons b buf =>
        have hb : b ≠ 10 := fun h ↦ hbuf (h ▸ List.mem_cons_self)
        refine ⟨file, ?_, rfl, fun c hc ↦ List.mem_cons_of_mem _ hc⟩
        simp [hb]
    · have hkeep : 10 ∉ (if started || c = 35 then buf else buf ++ [c]) := by
        split_ifs
        · exact hbuf
        · simpa using ⟨hbuf, Ne.symm hc⟩
      have h := @ih _ (started || c = 35) hkeep
      rw [linesToCome_cons hc, readlineLoop]
      have hbuf' : (if !(started || c = 35) || c = 10 then buf ++ [c] else buf) =
          if started || c = 35 then buf else buf ++ [c] := by
        cases started <;> by_cases h35 : c = 35 <;> simp [h35, hc]
      simp only [if_neg hc, Bool.true_and, hbuf']
      revert h
      cases linesToCome (if started || c = 35 then buf else buf ++ [c])
        (started || c = 35) file with
      | nil => exact id
      | cons line lines =>
        rintro ⟨rest, h₁, h₂, h₃⟩
        exact ⟨rest, h₁, h₂, fun c hc ↦ List.mem_cons_of_mem _ (h₃ c hc)⟩

/-! ## The buffer -/

/-- `BUF_SIZE`. -/
def bufSize : ℕ := 160

/-- `buf` and `buf_size`, the size of the memory that `buf` points to. -/
structure LineBuf where
  mem : List UInt8
  size : ℕ
  length_mem : mem.length = size

namespace LineBuf

/-- `malloc`, which leaves whatever was in the memory before. -/
def malloc (fresh : ℕ → ℕ → UInt8) (n : ℕ) : LineBuf := ⟨(List.range n).map (fresh n), n, by simp⟩

/-- The memory after a write. -/
def set (i : ℕ) (c : UInt8) (b : LineBuf) : LineBuf :=
  ⟨b.mem.set i c, b.size, by rw [List.length_set, b.length_mem]⟩

/-- A write, which has to be below `buf_size`. -/
def write (i : ℕ) (c : UInt8) (b : LineBuf) :
    Option LineBuf := if i < b.size then some (b.set i c) else none

/-- `strcpy`, which has to find the end of the string in the one memory and room for it in the
other. -/
def strcpy (tmp buf : LineBuf) : Option LineBuf :=
  let s := buf.mem.takeWhile (· ≠ 0)
  if h : s.length < buf.size ∧ s.length < tmp.size then
    some ⟨s ++ 0 :: tmp.mem.drop (s.length + 1), tmp.size, by simp [tmp.length_mem]; omega⟩
  else none

/-- The buffer grows when there is no room for another character.  `buf_size` must not overflow. -/
def grow (fresh : ℕ → ℕ → UInt8) (nextPos : ℕ) (b : LineBuf) : Option LineBuf :=
  if nextPos + 1 = b.size then
    if b.size + bufSize ≤ intMax then (malloc fresh (b.size + bufSize)).strcpy b else none
  else some b

/-- Nothing of a comment is kept but the end of its line. -/
def keep (kept : Bool) (nextPos : ℕ) (c : UInt8) (b : LineBuf) : Option (LineBuf × ℕ) :=
  if kept then do
    let b ← b.write nextPos c
    let b ← b.write (nextPos + 1) 0
    some (b, nextPos + 1)
  else some (b, nextPos)

end LineBuf

section Readline

variable (fresh : ℕ → ℕ → UInt8)

/-- The loop of `readline`. -/
def readlineBufLoop (skipComment skipVoidLines : Bool) :
    List UInt8 → LineBuf → ℕ → Bool → Option (LineBuf × List UInt8)
  | [], b, nextPos, _ => do
    let b ← b.grow fresh nextPos
    let b ← b.write nextPos 0
    some (b, [])
  | c :: file, b, nextPos, commentStarted => do
    let b ← b.grow fresh nextPos
    let commentStarted := commentStarted || (skipComment && c = 35)
    let (b, nextPos) ← b.keep (!commentStarted || c = 10) nextPos c
    if c = 10 then
      if b.mem.head? = some 10 ∧ skipVoidLines then do
        let b ← b.write 0 0
        readlineBufLoop skipComment skipVoidLines file b 0 false
      else some (b, file)
    else readlineBufLoop skipComment skipVoidLines file b nextPos commentStarted

/-- `readline`, with what earlier calls have left of its buffer: the line, the rest of the file, and
the buffer. -/
def readlineBuf (file : List UInt8) (skipComment skipVoidLines : Bool) (buf : Option LineBuf) :
    Option (Option (List UInt8) × List UInt8 × LineBuf) := do
  let b := buf.getD (.malloc fresh bufSize)
  let b ← b.write 0 0
  let (b, file) ← readlineBufLoop fresh skipComment skipVoidLines file b 0 false
  some (if b.mem.head? = some 0 then none else some (b.mem.takeWhile (· ≠ 0)), file, b)

end Readline

/-! ## What is in the buffer -/

/-- The largest size the buffer can have. -/
def maxBufSize : ℕ := intMax / bufSize * bufSize

/-- The sizes the buffer comes to. -/
structure LineBuf.Ok (b : LineBuf) : Prop where
  pos : 0 < b.size
  dvd : bufSize ∣ b.size
  le : b.size ≤ intMax

/-- The string in the buffer. -/
structure LineBuf.Holds (b : LineBuf) (s : List UInt8) : Prop where
  ok : b.Ok
  mem : ∃ junk, b.mem = s ++ 0 :: junk
  zero : 0 ∉ s

namespace LineBuf

variable {fresh : ℕ → ℕ → UInt8} {b b' : LineBuf} {s : List UInt8} {c : UInt8} {i : ℕ}

theorem Ok.le_max (h : b.Ok) : b.size ≤ maxBufSize := by
  obtain ⟨k, hk⟩ := h.dvd
  have := h.le
  unfold maxBufSize intMax bufSize at *
  omega

theorem Holds.length_lt (h : b.Holds s) : s.length < b.size := by
  obtain ⟨junk, hmem⟩ := h.mem
  rw [← b.length_mem, hmem]
  simp

theorem Holds.takeWhile (h : b.Holds s) : b.mem.takeWhile (· ≠ 0) = s := by
  obtain ⟨junk, hmem⟩ := h.mem
  have hall : ∀ c ∈ s, decide (c ≠ 0) = true :=
    fun c hc ↦ by simpa using fun h0 : c = 0 ↦ h.zero (h0 ▸ hc)
  rw [hmem, List.takeWhile_append_of_pos hall]
  simp

theorem Holds.head? (h : b.Holds s) : b.mem.head? = some (s.head?.getD 0) := by
  obtain ⟨junk, hmem⟩ := h.mem
  rw [hmem]
  cases s <;> rfl

/-- The end of the string written to the start of the buffer. -/
theorem Ok.write_zero (h : b.Ok) : ∃ b', b.write 0 0 = some b' ∧ b'.Holds [] := by
  refine ⟨_, if_pos h.pos, ⟨h.pos, h.dvd, h.le⟩, ?_, by simp⟩
  obtain ⟨mem, size, hlen⟩ := b
  cases mem with
  | nil =>
    obtain rfl : 0 = size := hlen
    exact absurd h.pos (Nat.lt_irrefl 0)
  | cons x mem => exact ⟨mem, rfl⟩

theorem ok_malloc : (malloc fresh bufSize).Ok :=
  ⟨show 0 < bufSize by decide, Nat.dvd_refl _, show bufSize ≤ intMax by decide⟩

/-- A character written behind the string, and the end of the string behind it. -/
theorem Holds.keep (h : b.Holds s) (hroom : s.length + 1 < b.size) (hc : c ≠ 0) :
    ∃ b', b.keep true s.length c = some (b', s.length + 1) ∧ b'.Holds (s ++ [c]) := by
  have hwrite₁ : b.write s.length c = some (b.set s.length c) := if_pos (by omega)
  have hwrite₂ : (b.set s.length c).write (s.length + 1) 0 =
    some ((b.set s.length c).set (s.length + 1) 0) :=
    if_pos hroom
  refine ⟨(b.set s.length c).set (s.length + 1) 0, ?_, ⟨h.ok.pos, h.ok.dvd, h.ok.le⟩, ?_,
    by simp [h.zero, Ne.symm hc]⟩
  · simp [LineBuf.keep, hwrite₁, hwrite₂]
  obtain ⟨junk, hmem⟩ := h.mem
  have hlen := b.length_mem
  cases junk with
  | nil =>
    rw [hmem, List.length_append, List.length_singleton] at hlen
    omega
  | cons x junk =>
    exact ⟨junk, by simp [set, hmem]⟩

/-- **The buffer grows** with the string in it, if it still can. -/
theorem Holds.grow (h : b.Holds s) (hmax : s.length + 1 < maxBufSize) :
    ∃ b', b.grow fresh s.length = some b' ∧ b'.Holds s ∧ s.length + 1 < b'.size := by
  have hlt := h.length_lt
  rw [LineBuf.grow]
  split
  · next hfull =>
    have hle : b.size + bufSize ≤ intMax := by
      obtain ⟨k, hk⟩ := h.ok.dvd
      unfold maxBufSize intMax bufSize at *
      omega
    have hsize : (malloc fresh (b.size + bufSize)).size = b.size + bufSize := rfl
    rw [if_pos hle, strcpy]
    simp only [h.takeWhile, hsize]
    rw [dif_pos ⟨hlt, by omega⟩]
    refine ⟨_, rfl, ⟨⟨by simp; omega, ?_, hle⟩, ⟨_, rfl⟩, h.zero⟩, ?_⟩
    · exact (Nat.dvd_add_right h.ok.dvd).2 (Nat.dvd_refl _)
    · show s.length + 1 < b.size + bufSize
      unfold bufSize
      omega
  · next hroom => exact ⟨b, rfl, h, by omega⟩

/-- A buffer of the largest size does not grow. -/
theorem Holds.grow_eq_none (h : b.Holds s) (hmax : ¬s.length + 1 < maxBufSize) :
    b.grow fresh s.length = none := by
  have hlt := h.length_lt
  have hle := h.ok.le_max
  rw [LineBuf.grow, if_pos (by omega), if_neg]
  unfold maxBufSize intMax bufSize at *
  omega

/-- The end of the string written again. -/
theorem Holds.write_end (h : b.Holds s) : ∃ b', b.write s.length 0 = some b' ∧ b'.Holds s := by
  refine ⟨_, if_pos h.length_lt, ⟨h.ok.pos, h.ok.dvd, h.ok.le⟩, ?_, h.zero⟩
  obtain ⟨junk, hmem⟩ := h.mem
  exact ⟨junk, by simp [set, hmem]⟩

end LineBuf

/-! ## Reading lines -/

variable {fresh : ℕ → ℕ → UInt8}

/-- What has been kept of a line stays in it. -/
theorem prefix_readlineLoop {file s : List UInt8} {started : Bool} (h10 : 10 ∉ s) :
    s <+: chomp (readlineLoop true true file s started).1 := by
  induction file generalizing s started with
  | nil => exact (chomp_of_notMem h10).symm ▸ List.prefix_refl s
  | cons c file ih =>
    rw [readlineLoop]
    by_cases hc : c = 10
    · subst hc
      cases s with
      | nil => exact List.nil_prefix
      | cons x s =>
        have hx : x ≠ 10 := fun h ↦ h10 (h ▸ List.mem_cons_self)
        simp only [Bool.or_true, decide_true, if_true, List.cons_append, List.head?_cons,
          Option.some.injEq, hx, false_and,
          if_false]
        rw [← List.cons_append, chomp_concat]
    · simp only [if_neg hc]
      split
      · exact (List.prefix_append ..).trans (ih (by simpa using ⟨h10, Ne.symm hc⟩))
      · exact ih h10

/-- **The loop of `readline` with its buffer** does what the loop does without, if the line is not
too long. -/
theorem readlineBufLoop_spec {file s : List UInt8} {started : Bool} {b : LineBuf} (hb : b.Holds s)
    (h10 : 10 ∉ s) (h0 : 0 ∉ file) :
    if (chomp (readlineLoop true true file s started).1).length + 1 < maxBufSize then
      ∃ b', readlineBufLoop fresh true true file b s.length started =
        some (b', (readlineLoop true true file s started).2) ∧
          b'.Holds (readlineLoop true true file s started).1
    else readlineBufLoop fresh true true file b s.length started = none := by
  induction file generalizing s started b with
  | nil =>
    rw [readlineBufLoop, readlineLoop, chomp_of_notMem h10]
    split
    · next hmax =>
      obtain ⟨b₁, hgrow, hb₁, -⟩ := @LineBuf.Holds.grow fresh b s hb hmax
      obtain ⟨b₂, hwrite, hb₂⟩ := hb₁.write_end
      exact ⟨b₂, by simp [hgrow, hwrite], hb₂⟩
    · next hmax => simp [hb.grow_eq_none hmax]
  | cons c file ih =>
    by_cases hmax : s.length + 1 < maxBufSize
    swap
    · -- the buffer can not grow, and the line does not get shorter
      have hle := (@prefix_readlineLoop (c :: file) s started h10).length_le
      rw [if_neg (by omega), readlineBufLoop, hb.grow_eq_none hmax]
      rfl
    obtain ⟨b₁, hgrow, hb₁, hroom⟩ := @LineBuf.Holds.grow fresh b s hb hmax
    have hc0 : c ≠ 0 := fun h ↦ h0 (h ▸ List.mem_cons_self)
    have hfile0 : 0 ∉ file := fun h ↦ h0 (List.mem_cons_of_mem _ h)
    obtain ⟨b₂, hkeep, hb₂⟩ := hb₁.keep hroom hc0
    rw [readlineBufLoop, readlineLoop]
    simp only [hgrow, Option.bind_eq_bind, Option.bind_some, Bool.true_and]
    by_cases hc : c = 10
    · subst hc
      simp only [decide_true, Bool.or_true, if_true, hkeep, Option.bind_some, hb₂.head?]
      cases s with
      | nil =>
        obtain ⟨b₃, hwrite, hb₃⟩ := hb₂.ok.write_zero
        simpa [hwrite] using @ih [] false b₃ hb₃ (by simp) hfile0
      | cons x s =>
        have hx : x ≠ 10 := fun h ↦ h10 (h ▸ List.mem_cons_self)
        simp only [List.cons_append, List.head?_cons, Option.getD_some, Option.some.injEq, hx,
          false_and, if_false]
        rw [← List.cons_append, chomp_concat, if_pos hmax]
        exact ⟨b₂, rfl, hb₂⟩
    · simp only [hc, decide_false, Bool.or_false]
      by_cases hkept : (!(started || decide (c = 35))) = true
      · simp only [hkept, if_true, hkeep, Option.bind_some]
        have h10' : 10 ∉ s ++ [c] := by simpa using ⟨h10, Ne.symm hc⟩
        simpa using @ih _ (started || decide (c = 35)) b₂ hb₂ h10' hfile0
      · have hskip : b₁.keep (!(started || decide (c = 35))) s.length c = some (b₁, s.length) :=
          if_neg hkept
        simp only [hskip, if_neg hkept, Option.bind_some]
        exact ih hb₁ h10 hfile0

/-- **`readline` with its buffer** does what it does without, if the line is not too long. -/
theorem readlineBuf_spec {file : List UInt8} {buf : Option LineBuf} (hbuf : ∀ b ∈ buf, b.Ok)
    (h0 : 0 ∉ file) :
    if (chomp (readlineLoop true true file [] false).1).length + 1 < maxBufSize then
      ∃ b', readlineBuf fresh file true true buf =
        some ((readline file true true).1, (readline file true true).2, b') ∧ b'.Ok ∧
        0 ∉ (readlineLoop true true file [] false).1
    else readlineBuf fresh file true true buf = none := by
  have hok : (buf.getD (.malloc fresh bufSize)).Ok := by
    cases buf with
    | none => exact LineBuf.ok_malloc
    | some b => exact hbuf b rfl
  obtain ⟨b₁, hwrite, hb₁⟩ := hok.write_zero
  have hloop := @readlineBufLoop_spec fresh file [] false b₁ hb₁ (by simp) h0
  rw [readlineBuf, hwrite]
  split
  · next hmax =>
    rw [if_pos hmax] at hloop
    obtain ⟨b', hrun, hb'⟩ := hloop
    refine ⟨b', ?_, hb'.ok, hb'.zero⟩
    have htake : (readlineLoop true true file [] false).1.takeWhile (· ≠ 0) =
      (readlineLoop true true file [] false).1 :=
      List.takeWhile_eq_self_iff.2 fun c hc ↦ by simpa using fun h : c = 0 ↦ hb'.zero (h ▸ hc)
    simp only [List.length_nil] at hrun
    simp only [Option.bind_eq_bind, Option.bind_some, hrun, readline, hb'.head?, hb'.takeWhile,
      htake]
    have hzero := hb'.zero
    generalize (readlineLoop true true file [] false).1 = line at hzero
    cases line with
    | nil => rfl
    | cons x line =>
      have hx : x ≠ 0 := fun h ↦ hzero (h ▸ List.mem_cons_self)
      simp [hx]
  · next hmax =>
    rw [if_neg hmax] at hloop
    simp only [List.length_nil] at hloop
    simp [hloop]

/-! ## Successive calls -/

/-- What earlier calls can have left of the buffer. -/
inductive LeftByCalls (fresh : ℕ → ℕ → UInt8) : Option LineBuf → Prop
  | init : LeftByCalls fresh none
  | call {buf : Option LineBuf} {file rest : List UInt8} {skipComment skipVoidLines : Bool}
      {line : Option (List UInt8)} {b : LineBuf} (hbuf : LeftByCalls fresh buf)
      (hcall : readlineBuf fresh file skipComment skipVoidLines buf = some (line, rest, b)) :
        LeftByCalls fresh (some b)

theorem LineBuf.Ok.grow {b b' : LineBuf} {i : ℕ} (h : b.Ok) (hgrow : b.grow fresh i = some b') :
    b'.Ok := by
  rw [LineBuf.grow] at hgrow
  split at hgrow
  swap
  · exact Option.some.inj hgrow ▸ h
  split at hgrow
  swap
  · exact absurd hgrow (by simp)
  next hle =>
  rw [LineBuf.strcpy] at hgrow
  split at hgrow
  · obtain rfl := Option.some.inj hgrow
    exact ⟨Nat.add_pos_left h.pos _, (Nat.dvd_add_right h.dvd).2 (Nat.dvd_refl _), hle⟩
  · exact absurd hgrow (by simp)

theorem LineBuf.Ok.write {b b' : LineBuf} {i : ℕ} {c : UInt8} (h : b.Ok)
    (hwrite : b.write i c = some b') : b'.Ok := by
  rw [LineBuf.write] at hwrite
  split at hwrite
  · obtain rfl := Option.some.inj hwrite
    exact ⟨h.pos, h.dvd, h.le⟩
  · exact absurd hwrite (by simp)

theorem LineBuf.Ok.keep {b b' : LineBuf} {kept : Bool} {i j : ℕ} {c : UInt8} (h : b.Ok)
    (hkeep : b.keep kept i c = some (b', j)) : b'.Ok := by
  rw [LineBuf.keep] at hkeep
  split at hkeep
  · obtain ⟨b₁, hwrite₁, hkeep⟩ := Option.bind_eq_some_iff.1 hkeep
    obtain ⟨b₂, hwrite₂, hkeep⟩ := Option.bind_eq_some_iff.1 hkeep
    obtain ⟨rfl, -⟩ := Prod.mk.inj (Option.some.inj hkeep)
    exact (h.write hwrite₁).write hwrite₂
  · obtain ⟨rfl, -⟩ := Prod.mk.inj (Option.some.inj hkeep)
    exact h

/-- The loop leaves a buffer of a size the buffer comes to. -/
theorem readlineBufLoop_ok {skipComment skipVoidLines started : Bool} {file rest : List UInt8}
    {b b' : LineBuf} {i : ℕ} (hb : b.Ok)
    (h : readlineBufLoop fresh skipComment skipVoidLines file b i started = some (b', rest)) :
    b'.Ok := by
  induction file generalizing b i started with
  | nil =>
    obtain ⟨b₁, hgrow, h⟩ := Option.bind_eq_some_iff.1 h
    obtain ⟨b₂, hwrite, h⟩ := Option.bind_eq_some_iff.1 h
    obtain ⟨rfl, -⟩ := Prod.mk.inj (Option.some.inj h)
    exact (hb.grow hgrow).write hwrite
  | cons c file ih =>
    rw [readlineBufLoop] at h
    obtain ⟨b₁, hgrow, h⟩ := Option.bind_eq_some_iff.1 h
    obtain ⟨⟨b₂, j⟩, hkeep, h⟩ := Option.bind_eq_some_iff.1 h
    have hb₂ : b₂.Ok := (hb.grow hgrow).keep hkeep
    simp only at h
    split at h
    · split at h
      · obtain ⟨b₃, hwrite, h⟩ := Option.bind_eq_some_iff.1 h
        exact ih (hb₂.write hwrite) h
      · obtain ⟨rfl, -⟩ := Prod.mk.inj (Option.some.inj h)
        exact hb₂
    · exact ih hb₂ h

theorem LeftByCalls.ok {buf : Option LineBuf} (h : LeftByCalls fresh buf) : ∀ b ∈ buf, b.Ok := by
  induction h with
  | init => simp
  | @call buf file rest skipComment skipVoidLines line b hbuf hcall ih =>
    rintro b' hb'
    obtain rfl : b = b' := Option.some.inj hb'
    have hok : (buf.getD (.malloc fresh bufSize)).Ok := by
      cases buf with
      | none => exact LineBuf.ok_malloc
      | some b => exact ih b rfl
    obtain ⟨b₁, hwrite, h⟩ := Option.bind_eq_some_iff.1 hcall
    obtain ⟨⟨b₂, rest'⟩, hloop, h⟩ := Option.bind_eq_some_iff.1 h
    simp only [Option.some.injEq, Prod.mk.injEq] at h
    obtain ⟨-, -, rfl⟩ := h
    exact readlineBufLoop_ok (hok.write hwrite) hloop

/-- A call as a step of a run, over what is left of the file and of the buffer. -/
def readlineStep (fresh : ℕ → ℕ → UInt8) (_ : Unit) (s : List UInt8 × Option LineBuf) :
    Option ((List UInt8 × Option LineBuf) × Option (List UInt8)) :=
  (readlineBuf fresh s.1 true true s.2).map fun r ↦ ((r.2.1, some r.2.2), r.1)

/-- Successive calls return the given lines, and then NULL. -/
def Delivers (fresh : ℕ → ℕ → UInt8) (file : List UInt8) (buf : Option LineBuf)
    (lines : List (List UInt8)) : Prop :=
  ∃ s', PartialRun.run (readlineStep fresh) (file, buf) (List.replicate (lines.length + 1) ()) =
    some (s', lines.map some ++ [none])

theorem delivers_nil {file : List UInt8} {buf : Option LineBuf} :
    Delivers fresh file buf [] ↔ ∃ rest b, readlineBuf fresh file true true buf =
      some (none, rest, b) := by
  constructor
  · rintro ⟨s', hrun⟩
    obtain ⟨line, hstep, hline⟩ := PartialRun.run_singleton_eq_some.1 hrun
    obtain rfl : none = line := by simpa using hline
    obtain ⟨⟨line, rest, b⟩, hcall, heq⟩ := Option.map_eq_some_iff.1 hstep
    obtain ⟨-, rfl⟩ := Prod.mk.inj heq
    exact ⟨rest, b, hcall⟩
  · rintro ⟨rest, b, hcall⟩
    exact ⟨_, PartialRun.run_singleton_eq_some.2 ⟨none, by rw [readlineStep, hcall]; rfl, rfl⟩⟩

theorem delivers_cons {file line : List UInt8} {lines : List (List UInt8)} {buf : Option LineBuf} :
    Delivers fresh file buf (line :: lines) ↔
      ∃ rest b, readlineBuf fresh file true true buf = some (some line, rest, b) ∧
        Delivers fresh rest (some b) lines := by
  constructor
  · rintro ⟨s', hrun⟩
    obtain ⟨s₁, out, outs, hstep, hrun, heq⟩ := PartialRun.run_cons_eq_some.1 hrun
    obtain ⟨⟨out', rest, b⟩, hcall, hpair⟩ := Option.map_eq_some_iff.1 hstep
    obtain ⟨rfl, rfl⟩ := Prod.mk.inj hpair
    obtain ⟨rfl, rfl⟩ := List.cons.inj heq
    exact ⟨rest, b, hcall, s', hrun⟩
  · rintro ⟨rest, b, hcall, s', hrun⟩
    exact ⟨s', PartialRun.run_cons_eq_some.2
      ⟨_, some line, _, by rw [readlineStep, hcall]; rfl, hrun, rfl⟩⟩

/-- Successive calls, on a buffer of a size the buffer comes to. -/
theorem delivers_iff {lines : List (List UInt8)} {file : List UInt8} {buf : Option LineBuf}
    (hlines : significantLines file = lines) (hbuf : ∀ b ∈ buf, b.Ok) (h0 : 0 ∉ file) :
    Delivers fresh file buf lines ↔ ∀ line ∈ lines, (chomp line).length + 1 < maxBufSize := by
  induction lines generalizing file buf with
  | nil =>
    have hline := @readlineLoop_lines file [] false (by simp)
    rw [linesToCome_init, hlines] at hline
    have hspec := @readlineBuf_spec fresh file buf hbuf h0
    simp only at hline
    rw [hline, if_pos (by decide)] at hspec
    obtain ⟨b', hcall, -, -⟩ := hspec
    have hnone : (readline file true true).1 = none := by simp [readline, hline]
    rw [hnone] at hcall
    exact ⟨fun _ ↦ by simp, fun _ ↦ delivers_nil.2 ⟨_, b', hcall⟩⟩
  | cons line lines ih =>
    have hloop := @readlineLoop_lines file [] false (by simp)
    rw [linesToCome_init, hlines] at hloop
    obtain ⟨rest, hread, hrest, hsub⟩ := hloop
    have hspec := @readlineBuf_spec fresh file buf hbuf h0
    rw [hread] at hspec
    rw [List.forall_mem_cons, delivers_cons]
    split at hspec
    · next hmax =>
      obtain ⟨b', hcall, hok, hzero⟩ := hspec
      have hne : line ≠ [] := by
        have hmem : line ∈ significantLines file := hlines ▸ List.mem_cons_self
        rintro rfl
        simpa using (List.mem_filter.1 hmem).2
      have htake : line.takeWhile (· ≠ 0) = line :=
        List.takeWhile_eq_self_iff.2 fun c hc ↦ by simpa using fun h : c = 0 ↦ hzero (h ▸ hc)
      have hreadline : readline file true true = (some line, rest) := by
        simp only [readline, hread, htake, if_neg hne]
      rw [hreadline] at hcall
      rw [← @ih rest (some b') hrest (fun b hb ↦ Option.some.inj hb ▸ hok) fun h ↦ h0 (hsub 0 h),
        and_iff_right hmax]
      constructor
      · rintro ⟨rest', b, hcall', hdel⟩
        rw [hcall] at hcall'
        simp only [Option.some.injEq, Prod.mk.injEq, true_and] at hcall'
        obtain ⟨rfl, rfl⟩ := hcall'
        exact hdel
      · exact fun hdel ↦ ⟨rest, b', hcall, hdel⟩
    · next hmax =>
      refine iff_of_false ?_ fun h ↦ hmax h.1
      rintro ⟨rest', b', hcall, -⟩
      rw [hspec] at hcall
      exact absurd hcall (by simp)

/-- **`readline` delivers the lines of a file** without comments and without those that are then
empty, and then NULL, from whatever earlier calls have left, exactly when no line is too long for a
buffer whose size is an `int`. -/
theorem readline_delivers {file : List UInt8} {buf : Option LineBuf} (hbuf : LeftByCalls fresh buf)
    (h0 : 0 ∉ file) :
    Delivers fresh file buf (significantLines file) ↔
      ∀ line ∈ significantLines file, (chomp line).length + 1 < maxBufSize :=
  delivers_iff rfl hbuf.ok h0

/-- Three lines with a comment or nothing else, and one without a newline. -/
def sampleLines : List UInt8 := [97, 35, 98, 10, 10, 35, 99, 10, 100, 101]

theorem readline_delivers_sample : Delivers (fun _ _ ↦ 1) sampleLines none [[97, 10], [100, 101]] :=
  (readline_delivers .init (by decide)).2 (by decide)

/-- A file of one line is one line. -/
theorem significantLines_of_plain {line : List UInt8} (hne : line ≠ []) (h10 : 10 ∉ line)
    (h35 : 35 ∉ line) :
    significantLines line = [line] := by
  have hlines : fileLines line = [line] := by
    induction line with
    | nil => exact absurd rfl hne
    | cons c line ih =>
      rw [List.mem_cons, not_or] at h10 h35
      rw [fileLines, if_neg (Ne.symm h10.1)]
      cases line with
      | nil => rfl
      | cons c' line => rw [ih (by simp) h10.2 h35.2]
  have hend : lineEnd line = [] := if_neg fun hlast ↦ h10 (List.mem_of_getLast? hlast)
  have htake : line.takeWhile (· ≠ 35) = line :=
    List.takeWhile_eq_self_iff.2 fun c hc ↦ by simpa using fun h : c = 35 ↦ h35 (h ▸ hc)
  have hstrip : stripComment line = line := by
    rw [stripComment, chomp_of_notMem h10, htake, hend, List.append_nil]
  rw [significantLines, hlines, List.map_singleton, hstrip]
  simp [chomp_of_notMem h10, hne]

/-- A line of more than two gigabytes is not delivered. -/
theorem readline_delivers_fails :
    ¬∀ (fresh : ℕ → ℕ → UInt8) (file : List UInt8) (buf : Option LineBuf),
    LeftByCalls fresh buf → 0 ∉ file → Delivers fresh file buf (significantLines file) := by
  have hlong : ∀ n, maxBufSize ≤ n →
      ¬Delivers (fun _ _ ↦ 0) (List.replicate n 97) none
        (significantLines (List.replicate n 97)) := by
    intro n hn hdel
    have hpos : 0 < maxBufSize := by decide
    have hne : List.replicate n (97 : UInt8) ≠ [] := by
      rw [ne_eq, List.replicate_eq_nil_iff]
      omega
    have hnot : ∀ c : UInt8, c ≠ 97 → c ∉ List.replicate n (97 : UInt8) := fun c hc hmem ↦
      hc (List.eq_of_mem_replicate hmem)
    have hlines := significantLines_of_plain hne (hnot 10 (by decide)) (hnot 35 (by decide))
    have hshort := (delivers_iff hlines (by simp) (hnot 0 (by decide))).1
      (hlines ▸ hdel) _ List.mem_cons_self
    rw [chomp_of_notMem (hnot 10 (by decide)), List.length_replicate] at hshort
    omega
  exact fun h ↦ hlong _ le_rfl (h _ _ _ .init fun hmem ↦ absurd (List.eq_of_mem_replicate hmem)
    (by decide))

end AlphaMon
