import AlphaMon.Memory.Decimal
import Mathlib.Data.List.Chain
import Mathlib.Data.List.DropRight

/-!
# The configuration parser

`ini.c`: the file is read line by line, a line at most of the size of the buffer, and the handler is
called for every line `name = value` with the section that was opened last.  A line that is indented
goes on with the name of the line before it.

`iniParseFile` is the parser over any handler, which may also have no defined behaviour.  A document
is a list of lines of the four kinds the parser knows (`IniLine`), and `ini_document` says that
parsing the text of a document makes the calls of the handler that the lines stand for, in their
order.
-/

set_option autoImplicit false

namespace AlphaMon

open CString

/-! ## The parser -/

/-- `MAX_SECTION`. -/
def maxSection : ℕ := 50

/-- `MAX_NAME`. -/
def maxName : ℕ := 50

/-- `INI_MAX_LINE`. -/
def iniMaxLine : ℕ := 200

/-- `fgets`, with room for `n` characters: what is read, and the rest of the file. -/
def fgets : ℕ → List UInt8 → List UInt8 × List UInt8
  | 0, file => ([], file)
  | _ + 1, [] => ([], [])
  | n + 1, c :: file => if c = 10 then ([c], file) else (c :: (fgets n file).1, (fgets n file).2)

/-- `rstrip`. -/
def rstrip (s : List UInt8) : List UInt8 := s.rdropWhile isSpace

/-- `lskip`. -/
def lskip (s : List UInt8) : List UInt8 := s.dropWhile isSpace

/-- `find_chars_or_comment`: the string up to the character found, and from there on. -/
def findCharsOrComment (chars : List UInt8) : Bool → List UInt8 → List UInt8 × List UInt8
  | _, [] => ([], [])
  | wasSpace, c :: s =>
    if c ∈ chars ∨ wasSpace = true ∧ c = 59 then ([], c :: s)
    else
      let (before, found) := findCharsOrComment chars (isSpace c) s
      (c :: before, found)

/-- `strncpy0`. -/
def strncpy0 (src : List UInt8) (size : ℕ) : List UInt8 := src.take (size - 1)

/-- A handler: what it is called with is the user's data, a section, a name and a value, and it says
whether it accepts. -/
abbrev IniHandler (σ : Type) := σ → List UInt8 → List UInt8 → List UInt8 → Option (Bool × σ)

/-- The local variables of `ini_parse_stream`, and the user's data.  `lineno` and `error` are
numbers of lines: an `int` holds them in files of fewer than `2 ^ 31` lines. -/
structure IniState (σ : Type) where
  sectionName : List UInt8
  prevName : List UInt8
  lineno : ℕ
  error : ℕ
  user : σ

/-- The three bytes that may come first in a file. -/
def iniBom : List UInt8 := [0xEF, 0xBB, 0xBF]

section Parser

variable {σ : Type} (handler : IniHandler σ)

/-- Only the first error is kept. -/
def IniState.fail (st : IniState σ) : IniState σ :=
  { st with error := if st.error = 0 then st.lineno else st.error }

/-- A call of the handler. -/
def IniState.call (st : IniState σ) (name value : List UInt8) : Option (IniState σ) := do
  let (ok, user) ← handler st.user st.sectionName name value
  let st := { st with user := user }
  some (if ok then st else st.fail)

/-- The branches of `ini_parse_stream`, for the text from `start` on.  `indented` says that
`start > line`. -/
def iniStart (indented : Bool) (start : List UInt8) (st : IniState σ) : Option (IniState σ) :=
  match start with
  | [] => some st
  | c :: rest =>
    if c = 59 ∨ c = 35 then some st
    else if st.prevName ≠ [] ∧ indented = true then st.call handler st.prevName start
    else if c = 91 then
      let (name, found) := findCharsOrComment [93] false rest
      if found.head? = some 93 then
        some { st with sectionName := strncpy0 name maxSection, prevName := [] }
      else some st.fail
    else
      let (name, found) := findCharsOrComment [61] false start
      if found.head? = some 61 ∨ found.head? = some 58 then
        let name := rstrip name
        let value := rstrip (lskip (findCharsOrComment [] false found.tail).1)
        { st with prevName := strncpy0 name maxName }.call handler name value
      else some st.fail

/-- The body of the loop of `ini_parse_stream`, for what `reader` has left in `line`. -/
def iniLine (line : List UInt8) (st : IniState σ) : Option (IniState σ) :=
  let line := line.takeWhile (· ≠ 0)
  let st := { st with lineno := st.lineno + 1 }
  let bom := st.lineno = 1 ∧ iniBom <+: line
  let text := rstrip (if bom then line.drop 3 else line)
  let start := lskip text
  iniStart handler (decide (bom ∨ start.length < text.length)) start st

/-- The loop of `ini_parse_stream`, for at most `n` lines. -/
def iniLoop : ℕ → List UInt8 → IniState σ → Option (IniState σ)
  | 0, _, st => some st
  | _ + 1, [], st => some st
  | n + 1, c :: file, st => do
    let (line, rest) := fgets (iniMaxLine - 1) (c :: file)
    let st ← iniLine handler line st
    iniLoop n rest st

/-- `ini_parse_file`: the error and the user's data.  Every line has a character. -/
def iniParseFile (user : σ) (file : List UInt8) : Option (ℕ × σ) := do
  let st ← iniLoop handler file.length file ⟨[], [], 0, 0, user⟩
  some (st.error, st.user)

/-- `ini_parse`. -/
def iniParse (user : σ) (file : Option (List UInt8)) : Option (ℤ × σ) :=
  match file with
  | none => some (-1, user)
  | some file => (iniParseFile handler user file).map fun r ↦ ((r.1 : ℤ), r.2)

end Parser

/-! ## Trimming -/

/-- White space only. -/
def IsBlank (s : List UInt8) : Prop := ∀ c ∈ s, isSpace c = true

instance (s : List UInt8) : Decidable (IsBlank s) := List.decidableBAll (fun c ↦ isSpace c = true) s

/-- No white space at either end. -/
def Trimmed (s : List UInt8) : Prop :=
  (∀ c ∈ s.head?, isSpace c = false) ∧ ∀ c ∈ s.getLast?, isSpace c = false

instance (s : List UInt8) : Decidable (Trimmed s) :=
  haveI := s.head?.decidableForallMem (p := fun c ↦ isSpace c = false)
  haveI := s.getLast?.decidableForallMem (p := fun c ↦ isSpace c = false)
  instDecidableAnd

theorem IsBlank.append {s t : List UInt8} (hs : IsBlank s) (ht : IsBlank t) : IsBlank (s ++ t) :=
  fun c hc ↦ (List.mem_append.1 hc).elim (hs c) (ht c)

theorem isBlank_newline : IsBlank [10] := by decide

theorem lskip_blank_append {s : List UInt8} (hs : IsBlank s) (t : List UInt8) :
    lskip (s ++ t) = lskip t :=
  List.dropWhile_append_of_pos hs

theorem rstrip_append_blank (t : List UInt8) {s : List UInt8} (hs : IsBlank s) :
    rstrip (t ++ s) = rstrip t := by
  rw [rstrip, List.rdropWhile, List.reverse_append,
    List.dropWhile_append_of_pos fun c hc ↦ hs c (List.mem_reverse.1 hc)]
  rfl

theorem rstrip_of_last {s : List UInt8} (h : ∀ c ∈ s.getLast?, isSpace c = false) :
    rstrip s = s := by
  rw [rstrip, List.rdropWhile_eq_self_iff]
  intro hne
  simpa using h _ (List.getLast?_eq_getLast_of_ne_nil hne)

theorem lskip_of_head {s : List UInt8} (h : ∀ c ∈ s.head?, isSpace c = false) : lskip s = s := by
  rcases s with _ | ⟨c, s⟩
  · rfl
  · exact List.dropWhile_cons_of_neg (by simp [h c rfl])

/-- What follows a character that stays is stripped by itself. -/
theorem rstrip_append (s t : List UInt8) {c : UInt8} (hc : isSpace c = false) :
    rstrip (s ++ c :: t) = s ++ c :: rstrip t := by
  induction t using List.reverseRecOn with
  | nil =>
    rw [rstrip_of_last (by simpa using hc)]
    rfl
  | append_singleton t d ih =>
    by_cases hd : isSpace d = true
    · have hblank : IsBlank [d] := by simpa [IsBlank] using hd
      rw [← List.cons_append, ← List.append_assoc, rstrip_append_blank _ hblank, ih,
        rstrip_append_blank _ hblank]
    · have hd : isSpace d = false := by simpa using hd
      have hlast (u : List UInt8) : rstrip (u ++ [d]) = u ++ [d] :=
        List.rdropWhile_concat_neg _ _ _ (by simp [hd])
      rw [hlast t, ← List.cons_append, ← List.append_assoc, hlast]

/-- **Trimming takes the white space around a text away.** -/
theorem rstrip_lskip {s t v : List UInt8} (hs : IsBlank s) (hv : Trimmed v) (ht : IsBlank t) :
    rstrip (lskip (s ++ (v ++ t))) = v := by
  rw [lskip_blank_append hs]
  rcases v with _ | ⟨c, v⟩
  · rw [List.nil_append]
    have hnil : lskip t = [] := by rw [← List.append_nil t, lskip_blank_append ht]; rfl
    rw [hnil]
    rfl
  · rw [lskip_of_head (by simpa using hv.1), rstrip_append_blank _ ht, rstrip_of_last hv.2]

/-! ## Searching -/

/-- No character in here starts a comment. -/
def NoComment (s : List UInt8) : Prop := s.IsChain fun c d ↦ ¬(isSpace c = true ∧ d = 59)

instance (s : List UInt8) : Decidable (NoComment s) :=
  inferInstanceAs (Decidable (s.IsChain fun c d ↦ ¬(isSpace c = true ∧ d = 59)))

/-- The search stops at the end of the string, at a character it looks for, or at a comment. -/
theorem findCharsOrComment_append {chars s found : List UInt8} {wasSpace : Bool}
    (hchars : ∀ c ∈ s, c ∉ chars) (hs : NoComment s) (hfirst : wasSpace = true → s.head? ≠ some 59)
    (hfound : ∀ c ∈ found.head?, c ∈ chars ∨ (s.getLast?.elim wasSpace isSpace) = true ∧ c = 59) :
    findCharsOrComment chars wasSpace (s ++ found) = (s, found) := by
  induction s generalizing wasSpace with
  | nil =>
    rcases found with _ | ⟨c, found⟩
    · rfl
    · rw [List.nil_append, findCharsOrComment, if_pos]
      simpa using hfound c rfl
  | cons c s ih =>
    obtain ⟨hnext, hs⟩ := List.isChain_cons.1 hs
    have hstop : ¬(c ∈ chars ∨ wasSpace = true ∧ c = 59) := by
      rintro (hc | ⟨hspace, rfl⟩)
      · exact hchars c List.mem_cons_self hc
      · exact hfirst hspace rfl
    rw [List.cons_append, findCharsOrComment, if_neg hstop,
      ih (fun d hd ↦ hchars d (List.mem_cons_of_mem _ hd)) hs
        (fun hspace h59 ↦ hnext 59 h59 ⟨hspace, rfl⟩)]
    intro d hd
    rcases s with _ | ⟨e, s⟩
    · simpa using hfound d hd
    · rw [List.getLast?_cons_cons] at hfound
      simpa [List.getLast?_cons] using hfound d hd

theorem IsBlank.noComment {s : List UInt8} (h : IsBlank s) : NoComment s := by
  refine List.isChain_iff_forall_rel_of_append_cons_cons.2 fun c d s₁ s₂ heq ↦ ?_
  rintro ⟨-, rfl⟩
  exact absurd (h 59 (by simp [heq])) (by decide)

/-! ## Lines -/

/-- A line of a configuration, without the newline. -/
inductive IniLine where
  /-- A blank line, or one with a comment: white space, and what follows the first character of a
  comment. -/
  | skip (indent : List UInt8) (comment : Option (UInt8 × List UInt8))
  /-- `[name]`, and what follows. -/
  | header (name rest : List UInt8)
  /-- `name = value`, with the white space around the sign, and what follows the value: white space,
  and a comment that may be there. -/
  | entry (name before after value trail : List UInt8) (comment : Option (List UInt8))
  /-- An indented line, with the white space after it. -/
  | more (indent value trail : List UInt8)

namespace IniLine

/-- A comment at the end of a line. -/
def commentText : Option (List UInt8) → List UInt8
  | none => []
  | some comment => 59 :: comment

/-- The line in the file. -/
def text : IniLine → List UInt8
  | skip indent none => indent
  | skip indent (some (c, comment)) => indent ++ c :: comment
  | header name rest => 91 :: (name ++ 93 :: rest)
  | entry name before after value trail comment =>
    name ++ (before ++ 61 :: (after ++ (value ++ (trail ++ commentText comment))))
  | more indent value trail => indent ++ (value ++ trail)

/-- The line is one of its kind, when `prevName` is the name of the entry before. -/
def Ok (prevName : List UInt8) : IniLine → Prop
  | skip indent comment => IsBlank indent ∧ ∀ c ∈ comment, c.1 = 59 ∨ c.1 = 35
  | header name _ => 93 ∉ name ∧ NoComment name
  | entry name before after value trail comment =>
    (name ≠ [] ∧ Trimmed name ∧ 61 ∉ name ∧ NoComment name ∧ ∀ c ∈ name.head?, c ≠ 59 ∧ c ≠ 35 ∧
        c ≠ 91) ∧
      IsBlank before ∧ IsBlank after ∧ Trimmed value ∧ NoComment (after ++ value) ∧ IsBlank trail ∧
      (comment.isSome → ((after ++ (value ++ trail)).getLast?.elim false isSpace) = true)
  | more indent value trail =>
    prevName ≠ [] ∧ IsBlank indent ∧ indent ≠ [] ∧ Trimmed value ∧ value ≠ [] ∧
      (∀ c ∈ value.head?, c ≠ 59 ∧ c ≠ 35) ∧ IsBlank trail

instance (prevName : List UInt8) : (l : IniLine) → Decidable (l.Ok prevName)
  | skip indent comment =>
    inferInstanceAs (Decidable (IsBlank indent ∧ ∀ c ∈ comment, c.1 = 59 ∨ c.1 = 35))
  | header name _ => inferInstanceAs (Decidable (93 ∉ name ∧ NoComment name))
  | entry name before after value trail comment =>
    haveI := name.head?.decidableForallMem (p := fun c ↦ c ≠ 59 ∧ c ≠ 35 ∧ c ≠ 91)
    inferInstanceAs (Decidable ((name ≠ [] ∧ Trimmed name ∧ 61 ∉ name ∧ NoComment name ∧
        ∀ c ∈ name.head?, c ≠ 59 ∧ c ≠ 35 ∧ c ≠ 91) ∧
      IsBlank before ∧ IsBlank after ∧ Trimmed value ∧ NoComment (after ++ value) ∧ IsBlank trail ∧
      (comment.isSome → ((after ++ (value ++ trail)).getLast?.elim false isSpace) = true)))
  | more indent value trail =>
    haveI := value.head?.decidableForallMem (p := fun c ↦ c ≠ 59 ∧ c ≠ 35)
    inferInstanceAs (Decidable (prevName ≠ [] ∧ IsBlank indent ∧ indent ≠ [] ∧ Trimmed value ∧
      value ≠ [] ∧
      (∀ c ∈ value.head?, c ≠ 59 ∧ c ≠ 35) ∧ IsBlank trail))

/-- The section and the name that are open after the line. -/
def opens (sectionName prevName : List UInt8) : IniLine → List UInt8 × List UInt8
  | skip _ _ => (sectionName, prevName)
  | header name _ => (strncpy0 name maxSection, [])
  | entry name .. => (sectionName, strncpy0 name maxName)
  | more .. => (sectionName, prevName)

/-- The name and the value that the handler gets. -/
def calls (prevName : List UInt8) : IniLine → Option (List UInt8 × List UInt8)
  | skip _ _ => none
  | header _ _ => none
  | entry name _ _ value _ _ => some (name, value)
  | more _ value _ => some (prevName, value)

end IniLine

section Line

variable {σ : Type} {handler : IniHandler σ} {st : IniState σ}

/-- What a line does to the state of the parser. -/
def IniState.after (handler : IniHandler σ) (st : IniState σ) (l : IniLine) : Option (IniState σ) :=
  let st' : IniState σ :=
    { st with
      sectionName := (l.opens st.sectionName st.prevName).1
      prevName := (l.opens st.sectionName st.prevName).2
      lineno := st.lineno + 1 }
  match l.calls st.prevName with
  | none => some st'
  | some (name, value) => st'.call handler name value

theorem iniStart_entry {name before value rest : List UInt8} (hne : name ≠ [])
    (htrim : Trimmed name) (h61 : 61 ∉ name) (hno : NoComment name)
    (hhead : ∀ c ∈ name.head?, c ≠ 59 ∧ c ≠ 35 ∧ c ≠ 91) (hbefore : IsBlank before)
    (hvalue : rstrip (lskip (findCharsOrComment [] false rest).1) = value) :
    iniStart handler false (name ++ (before ++ 61 :: rest)) st =
      { st with prevName := strncpy0 name maxName }.call handler name value := by
  have hfind : findCharsOrComment [61] false (name ++ (before ++ 61 :: rest)) =
      (name ++ before, 61 :: rest) := by
    rw [← List.append_assoc]
    refine findCharsOrComment_append (fun c hc h ↦ ?_) ?_ (by simp) (by simp)
    · obtain rfl := List.mem_singleton.1 h
      exact (List.mem_append.1 hc).elim h61 fun hc ↦ absurd (hbefore _ hc) (by decide)
    · refine List.isChain_append.2 ⟨hno, hbefore.noComment, fun c hc d hd ↦ ?_⟩
      rintro ⟨-, rfl⟩
      exact absurd (hbefore _ (List.mem_of_mem_head? hd)) (by decide)
  obtain ⟨c, name, rfl⟩ := List.exists_cons_of_ne_nil hne
  obtain ⟨hc₁, hc₂, hc₃⟩ := hhead c rfl
  rw [List.cons_append] at hfind ⊢
  rw [iniStart, if_neg (by simp [hc₁, hc₂]), if_neg (by simp), if_neg hc₃, hfind]
  simp only [List.head?_cons, true_or, if_true, List.tail_cons, hvalue]
  rw [rstrip_append_blank _ hbefore, rstrip_of_last htrim.2]

theorem iniStart_header {name rest : List UInt8} (h93 : 93 ∉ name) (hno : NoComment name) :
    iniStart handler false (91 :: (name ++ 93 :: rest)) st =
      some { st with sectionName := strncpy0 name maxSection, prevName := [] } := by
  have hfind : findCharsOrComment [93] false (name ++ 93 :: rest) = (name, 93 :: rest) :=
    findCharsOrComment_append (fun c hc h ↦ h93 (List.mem_singleton.1 h ▸ hc)) hno (by simp)
      (by simp)
  rw [iniStart, if_neg (by decide), if_neg (by simp), if_pos rfl, hfind]
  rfl

theorem iniStart_more {value : List UInt8} (hprev : st.prevName ≠ []) (hne : value ≠ [])
    (hhead : ∀ c ∈ value.head?, c ≠ 59 ∧ c ≠ 35) :
    iniStart handler true value st = st.call handler st.prevName value := by
  obtain ⟨c, value, rfl⟩ := List.exists_cons_of_ne_nil hne
  obtain ⟨hc₁, hc₂⟩ := hhead c rfl
  rw [iniStart, if_neg (by simp [hc₁, hc₂]), if_pos ⟨hprev, rfl⟩]

/-- The value of an entry, up to the comment and without the white space around it. -/
theorem entry_value {after value trail : List UInt8} {comment : Option (List UInt8)}
    (hafter : IsBlank after) (hvalue : Trimmed value) (hno : NoComment (after ++ value))
    (htrail : IsBlank trail) (hcomment : comment.isSome →
      ((after ++ (value ++ trail)).getLast?.elim false isSpace) = true) :
    rstrip (lskip (findCharsOrComment [] false
      (rstrip (after ++ (value ++ (trail ++ IniLine.commentText comment))))).1) = value := by
  rcases comment with _ | comment
  · have hstrip : NoComment (rstrip (after ++ value)) :=
      List.IsChain.prefix hno (List.rdropWhile_prefix _ _)
    have hfind : findCharsOrComment [] false (rstrip (after ++ value) ++ []) =
      (rstrip (after ++ value), []) :=
      findCharsOrComment_append (by simp) hstrip (by simp) (by simp)
    rw [List.append_nil] at hfind
    rw [IniLine.commentText, List.append_nil, ← List.append_assoc, rstrip_append_blank _ htrail,
      hfind]
    rcases value with _ | ⟨c, value⟩
    · rw [List.append_nil, ← List.nil_append after, rstrip_append_blank _ hafter]
      rfl
    · have hlast : ∀ d ∈ (after ++ c :: value).getLast?, isSpace d = false := by
        rw [List.getLast?_append_of_ne_nil _ (by simp)]
        exact hvalue.2
      have htrim := rstrip_lskip hafter hvalue (List.forall_mem_nil _)
      rw [List.append_nil] at htrim
      rw [rstrip_of_last hlast, htrim]
  · have hfind : findCharsOrComment [] false ((after ++ (value ++ trail)) ++ 59 :: rstrip comment) =
        (after ++ (value ++ trail), 59 :: rstrip comment) := by
      refine findCharsOrComment_append (by simp) ?_ (by simp) (by simpa using hcomment rfl)
      rw [← List.append_assoc]
      refine List.isChain_append.2 ⟨hno, htrail.noComment, fun c hc d hd ↦ ?_⟩
      rintro ⟨-, rfl⟩
      exact absurd (htrail _ (List.mem_of_mem_head? hd)) (by decide)
    have hstrip : rstrip (after ++ (value ++ (trail ++ IniLine.commentText (some comment)))) =
        (after ++ (value ++ trail)) ++ 59 :: rstrip comment := by
      rw [IniLine.commentText, ← List.append_assoc value, ← List.append_assoc after]
      exact rstrip_append _ _ (by decide)
    rw [hstrip, hfind]
    exact rstrip_lskip hafter hvalue htrail

/-- Before its kind is known, a line loses the white space at its ends. -/
theorem iniLine_eq {text : List UInt8} (h0 : 0 ∉ text)
    (hbom : ¬(st.lineno = 0 ∧ iniBom <+: text ++ [10])) :
    iniLine handler (text ++ [10]) st =
      iniStart handler (decide ((lskip (rstrip text)).length < (rstrip text).length))
        (lskip (rstrip text))
        { st with lineno := st.lineno + 1 } := by
  have hline : (text ++ [10]).takeWhile (· ≠ 0) = text ++ [10] := by
    rw [List.takeWhile_eq_self_iff]
    intro c hc
    rcases List.mem_append.1 hc with hc | hc
    · exact decide_eq_true fun he ↦ h0 (he ▸ hc)
    · rw [List.mem_singleton.1 hc]
      rfl
  have hbom' : ¬(st.lineno + 1 = 1 ∧ iniBom <+: text ++ [10]) := by simpa using hbom
  simp only [iniLine, hline, hbom', if_false, false_or, rstrip_append_blank text isBlank_newline]

/-- **A line does what it stands for.** -/
theorem iniLine_text {l : IniLine} (hok : l.Ok st.prevName) (h0 : 0 ∉ l.text)
    (hbom : ¬(st.lineno = 0 ∧ iniBom <+: l.text ++ [10])) :
    iniLine handler (l.text ++ [10]) st = st.after handler l := by
  rw [iniLine_eq h0 hbom]
  cases l with
  | skip indent comment =>
    obtain ⟨hblank, hcomment⟩ := hok
    rcases comment with _ | ⟨c, comment⟩
    · have hnil : rstrip indent = [] := by
        rw [← List.nil_append indent, rstrip_append_blank _ hblank]
        rfl
      rw [IniLine.text, hnil]
      rfl
    · have hc : c = 59 ∨ c = 35 := hcomment _ rfl
      have hspace : isSpace c = false := by rcases hc with rfl | rfl <;> decide
      rw [IniLine.text, rstrip_append _ _ hspace, lskip_blank_append hblank,
        lskip_of_head (by simpa using hspace),
        iniStart, if_pos hc]
      rfl
  | header name rest =>
    obtain ⟨h93, hno⟩ := hok
    have hstrip : rstrip (91 :: (name ++ 93 :: rest)) = 91 :: (name ++ 93 :: rstrip rest) :=
      rstrip_append (91 :: name) rest (by decide)
    have hskip : lskip (91 :: (name ++ 93 :: rstrip rest)) = 91 :: (name ++ 93 :: rstrip rest) :=
      lskip_of_head (by simp; decide)
    rw [IniLine.text, hstrip, hskip, decide_eq_false (lt_irrefl _), iniStart_header h93 hno]
    rfl
  | entry name before after value trail comment =>
    obtain ⟨⟨hne, htrim, h61, hno, hhead⟩, hbefore, hafter, hvalue, hnov, htrail, hcomment⟩ := hok
    set rest := after ++ (value ++ (trail ++ IniLine.commentText comment)) with hrest
    have hstrip : rstrip (name ++ (before ++ 61 :: rest)) =
      name ++ (before ++ 61 :: rstrip rest) := by
      rw [← List.append_assoc, rstrip_append _ _ (by decide), List.append_assoc]
    have hskip : lskip (name ++ (before ++ 61 :: rstrip rest)) =
      name ++ (before ++ 61 :: rstrip rest) := by
      refine lskip_of_head ?_
      rw [List.head?_append_of_ne_nil _ hne]
      exact htrim.1
    rw [IniLine.text, ← hrest, hstrip, hskip, decide_eq_false (lt_irrefl _),
      iniStart_entry hne htrim h61 hno hhead hbefore
        (entry_value hafter hvalue hnov htrail hcomment)]
    rfl
  | more indent value trail =>
    obtain ⟨hprev, hindent, hine, hvalue, hne, hhead, htrail⟩ := hok
    have hlast : ∀ d ∈ (indent ++ value).getLast?, isSpace d = false := by
      rw [List.getLast?_append_of_ne_nil _ hne]
      exact hvalue.2
    have hstrip : rstrip (indent ++ (value ++ trail)) = indent ++ value := by
      rw [← List.append_assoc, rstrip_append_blank _ htrail, rstrip_of_last hlast]
    have hskip : lskip (indent ++ value) = value := by
      rw [lskip_blank_append hindent, lskip_of_head hvalue.1]
    have hlen : value.length < (indent ++ value).length := by
      have := List.length_pos_of_ne_nil hine
      simp
      omega
    have hmore : iniStart handler true value { st with lineno := st.lineno + 1 } = _ :=
      iniStart_more hprev hne hhead
    rw [IniLine.text, hstrip, hskip, decide_eq_true hlen, hmore]
    rfl

end Line

/-! ## Documents -/

/-- The text of a document. -/
def iniText (lines : List IniLine) : List UInt8 := lines.flatMap fun l ↦ l.text ++ [10]

/-- Every line is one of its kind where it stands. -/
def IniLine.AllOk : List UInt8 → List IniLine → Prop
  | _, [] => True
  | prevName, l :: lines => l.Ok prevName ∧ AllOk (l.opens [] prevName).2 lines

/-- Whether every line is one of its kind can be decided from the first line on. -/
instance IniLine.decidableAllOk : (prevName : List UInt8) → (lines : List IniLine) →
    Decidable (AllOk prevName lines)
  | _, [] => isTrue trivial
  | prevName, l :: lines =>
    haveI := decidableAllOk (l.opens [] prevName).2 lines
    inferInstanceAs (Decidable (l.Ok prevName ∧ AllOk (l.opens [] prevName).2 lines))

/-- What the handler is called with, line by line. -/
def iniCalls : List UInt8 → List UInt8 → List IniLine →
    List (Option (List UInt8 × List UInt8 × List UInt8))
  | _, _, [] => []
  | sectionName, prevName, l :: lines =>
    (l.calls prevName).map (sectionName, ·) ::
      iniCalls (l.opens sectionName prevName).1 (l.opens sectionName prevName).2 lines

/-- The calls of the handler for the lines from number `lineno` on.  The first line it does not
accept is the error. -/
def serve {σ : Type} (handler : IniHandler σ) :
    ℕ → List (Option (List UInt8 × List UInt8 × List UInt8)) → ℕ → σ → Option (ℕ × σ)
  | _, [], error, user => some (error, user)
  | lineno, none :: calls, error, user => serve handler (lineno + 1) calls error user
  | lineno, some (sectionName, name, value) :: calls, error, user => do
    let (ok, user) ← handler user sectionName name value
    serve handler (lineno + 1) calls (if ok = true ∨ error ≠ 0 then error else lineno) user

/-- A line and the newline behind it fit into the buffer, and the string does not end in between. -/
def IniLine.Fits (l : IniLine) : Prop := 0 ∉ l.text ∧ 10 ∉ l.text ∧ l.text.length + 2 ≤ iniMaxLine

instance (l : IniLine) : Decidable l.Fits :=
  inferInstanceAs (Decidable (0 ∉ l.text ∧ 10 ∉ l.text ∧ l.text.length + 2 ≤ iniMaxLine))

section Document

variable {σ : Type}

theorem fgets_line {text : List UInt8} (h10 : 10 ∉ text) {n : ℕ} (hn : text.length < n)
    (file : List UInt8) :
    fgets n (text ++ 10 :: file) = (text ++ [10], file) := by
  induction text generalizing n with
  | nil =>
    obtain ⟨n, rfl⟩ := Nat.exists_eq_succ_of_ne_zero (by simpa using hn.ne' : n ≠ 0)
    rfl
  | cons c text ih =>
    obtain ⟨n, rfl⟩ := Nat.exists_eq_succ_of_ne_zero (by omega : n ≠ 0)
    have hc : c ≠ 10 := fun he ↦ h10 (he ▸ List.mem_cons_self)
    rw [List.cons_append, fgets, if_neg hc,
      ih (fun h ↦ h10 (List.mem_cons_of_mem _ h)) (by simpa using hn)]
    rfl

theorem IniLine.opens_snd (l : IniLine) (sectionName sectionName' prevName : List UInt8) :
    (l.opens sectionName prevName).2 = (l.opens sectionName' prevName).2 := by
  cases l <;> rfl

theorem IniLine.opens_fst_of_calls {l : IniLine} {prevName : List UInt8}
    {call : List UInt8 × List UInt8} (h : l.calls prevName = some call) (sectionName : List UInt8) :
    (l.opens sectionName prevName).1 = sectionName := by
  cases l with
  | skip => cases h
  | header => cases h
  | entry => rfl
  | more => rfl

/-- **Line by line, the loop makes the calls that the lines stand for.** -/
theorem iniLoop_text (handler : IniHandler σ) {lines : List IniLine} {st : IniState σ} {n : ℕ}
    (hok : IniLine.AllOk st.prevName lines) (hfits : ∀ l ∈ lines, l.Fits) (hn : lines.length ≤ n)
    (hbom : ¬(st.lineno = 0 ∧ iniBom <+: iniText lines)) :
    ((iniLoop handler n (iniText lines) st).map fun st ↦ (st.error, st.user)) =
      serve handler (st.lineno + 1) (iniCalls st.sectionName st.prevName lines) st.error
        st.user := by
  induction lines generalizing st n with
  | nil => cases n <;> rfl
  | cons l lines ih =>
    obtain ⟨n, rfl⟩ := Nat.exists_eq_succ_of_ne_zero (by simp at hn; omega : n ≠ 0)
    obtain ⟨h0, h10, hlen⟩ := hfits l List.mem_cons_self
    obtain ⟨hl, hlines⟩ := hok
    have htext : iniText (l :: lines) = l.text ++ 10 :: iniText lines := by
      simp [iniText]
    have hread : fgets (iniMaxLine - 1) (l.text ++ 10 :: iniText lines) =
      (l.text ++ [10], iniText lines) :=
      fgets_line h10 (by rw [iniMaxLine] at hlen ⊢; omega) _
    have hline : iniLine handler (l.text ++ [10]) st = st.after handler l := by
      refine iniLine_text hl h0 fun ⟨hno, hpre⟩ ↦ hbom ⟨hno, hpre.trans ?_⟩
      rw [htext]
      exact ⟨iniText lines, by simp⟩
    have hloop : iniLoop handler (n + 1) (iniText (l :: lines)) st =
        (st.after handler l).bind fun st ↦ iniLoop handler n (iniText lines) st := by
      obtain ⟨c, file, hfile⟩ := List.exists_cons_of_ne_nil
        (show l.text ++ 10 :: iniText lines ≠ [] by simp)
      rw [htext, ← hline, hfile, iniLoop, ← hfile, hread]
      rfl
    rw [hloop]
    have hn' : lines.length ≤ n := by simpa using hn
    rw [IniLine.opens_snd l [] st.sectionName] at hlines
    rcases hcalls : l.calls st.prevName with _ | ⟨name, value⟩
    · simp only [IniState.after, hcalls, Option.bind_some, iniCalls, Option.map_none, serve]
      exact ih hlines (fun l hl ↦ hfits l (List.mem_cons_of_mem _ hl)) hn' (by simp)
    · simp only [IniState.after, hcalls, iniCalls, Option.map_some, serve, IniState.call,
        IniLine.opens_fst_of_calls hcalls]
      rcases handler st.user st.sectionName name value with _ | ⟨ok, user⟩
      · rfl
      · have hfits' : ∀ l ∈ lines, l.Fits := fun l hl ↦ hfits l (List.mem_cons_of_mem _ hl)
        simp only [Option.bind_eq_bind, Option.bind_some]
        cases ok with
        | true => exact ih hlines hfits' hn' (by simp)
        | false =>
          refine (ih hlines hfits' hn' (by simp [IniState.fail])).trans ?_
          by_cases herror : st.error = 0 <;> simp [IniState.fail, herror]

theorem length_le_iniText (lines : List IniLine) : lines.length ≤ (iniText lines).length := by
  induction lines with
  | nil => exact le_rfl
  | cons l lines ih =>
    have htext : iniText (l :: lines) = l.text ++ [10] ++ iniText lines := rfl
    rw [htext, List.length_append, List.length_append, List.length_cons, List.length_singleton]
    omega

/-- The parser on the text of a document. -/
theorem iniParseFile_text (handler : IniHandler σ) (user : σ) {lines : List IniLine}
    (hok : IniLine.AllOk [] lines) (hfits : ∀ l ∈ lines, l.Fits)
    (hbom : ¬iniBom <+: iniText lines) :
    iniParseFile handler user (iniText lines) = serve handler 1 (iniCalls [] [] lines) 0 user := by
  have hloop := @iniLoop_text σ handler lines ⟨[], [], 0, 0, user⟩ _ hok hfits
    (length_le_iniText lines)
    fun h ↦ hbom h.2
  rw [iniParseFile, ← hloop]
  cases iniLoop handler (iniText lines).length (iniText lines) ⟨[], [], 0, 0, user⟩ <;> rfl

/-- **Parsing the text of a document** makes the calls its lines stand for, one after the other, and
returns the number of the first line that the handler does not accept. -/
theorem ini_document (handler : IniHandler σ) (user : σ) {lines : List IniLine}
    (hok : IniLine.AllOk [] lines) (hfits : ∀ l ∈ lines, l.Fits)
    (hbom : ¬iniBom <+: iniText lines) :
    iniParse handler user (some (iniText lines)) =
      (serve handler 1 (iniCalls [] [] lines) 0 user).map fun r ↦ ((r.1 : ℤ), r.2) := by
  rw [iniParse, iniParseFile_text handler user hok hfits hbom]

/-- A document with a line of every kind. -/
def sampleIni : List IniLine :=
  [.skip [] (some (35, [120])), .header [97] [], .entry [107] [32] [32] [118] [32] (some [120]),
    .more [32] [119] [13], .skip [9] none]

/-- A handler that takes notes. -/
def noteHandler : IniHandler (List (List UInt8 × List UInt8 × List UInt8)) :=
  fun notes sectionName name value ↦ some (true, notes ++ [(sectionName, name, value)])

theorem ini_document_sample :
    iniParse noteHandler [] (some (iniText sampleIni)) =
        (serve noteHandler 1 (iniCalls [] [] sampleIni) 0 []).map (fun r ↦ ((r.1 : ℤ), r.2)) ∧
      serve noteHandler 1 (iniCalls [] [] sampleIni) 0 [] =
        some (0, [([97], [107], [118]), ([97], [107], [119])]) :=
  ⟨ini_document noteHandler [] (by decide) (by decide) (by decide), by decide⟩

end Document

end AlphaMon
