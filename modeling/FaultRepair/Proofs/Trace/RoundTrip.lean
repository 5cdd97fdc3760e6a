/-
# Traces are read as they were written

Both formats of traces are written here, line by line, from entries and from calls. Reading
such a text gives the entries back, in order and complete, however misleading their symbols
and paths are: a path may look like a path with a line and a column after it, a symbol may
look like a call with arguments.

What is asked of an entry is only that its parts stay on one line, that a symbol does not end
in white space, that a path starts at the root, and that numbers fit.
-/

import FaultRepair.Proofs.Text.Digits
import FaultRepair.Proofs.Trace.Exclusion
import FaultRepair.Proofs.Trace.Lines

namespace FaultRepair.Trace

open List
open Text (isDigit isHexDigit ofNat ofString)

/-! ## Lines of a text -/

/-- The text consists of these lines. Each of them is ended; the end of the last may be
missing. -/
def Spells (t : Text) (lines : List Text) : Prop :=
  t = lines.flatMap (· ++ [10]) ∨ t ++ [10] = lines.flatMap (· ++ [10])

/-- A line that is read as it is. -/
structure Legible (line : Text) : Prop where
  oneLine : 10 ∉ line
  endsInk : EndsInk line

section Spelling

variable {t : Text} {lines : List Text}

theorem linesOf_of_spells (ht : Spells t lines) (hlines : ∀ l ∈ lines, Legible l) :
    linesOf t = lines := by
  have hpieces := Text.splitAt_ended fun l hl => (hlines l hl).oneLine
  rw [linesOf]
  rcases ht with rfl | hended
  · rw [hpieces]
    simp
  · rw [← hended, Text.splitAt_append_sep] at hpieces
    have hwhole : Text.splitAt 10 t = lines := append_cancel_right hpieces
    rw [hwhole, if_neg]
    intro hlast
    -- A line without ink would have been taken for the end of the text.
    exact (hlines [] (mem_of_getLast? (beq_iff_eq.mp hlast))).endsInk.ne_nil rfl

theorem withoutReturn_of_legible {line : Text} (hline : Legible line) :
    withoutReturn line = line := by
  obtain ⟨b, hlast, hink⟩ := hline.endsInk
  rw [withoutReturn, if_neg]
  intro hreturn
  rw [hlast, beq_iff_eq, Option.some.injEq] at hreturn
  rw [hreturn] at hink
  cases hink

theorem readLines_of_spells (ht : Spells t lines) (hlines : ∀ l ∈ lines, Legible l)
    (hshort : ∀ l ∈ lines, l.length < lineLimit) : readLines t = .ok lines := by
  have hlong : lines.any (fun l => l.length ≥ lineLimit) = false := by
    rw [any_eq_false]
    intro l hl
    simpa using hshort l hl
  have hsame : lines.map withoutReturn = lines :=
    (map_congr_left fun l hl => withoutReturn_of_legible (hlines l hl)).trans (map_id _)
  simp [readLines, linesOf_of_spells ht hlines, hlong, hsame]

end Spelling

/-! ## Numbers -/

theorem run_ofNat (n : Nat) : Run isDigit (ofNat n) where
  ne_nil := Text.ofNat_ne_nil n
  all _ := Text.isDigit_of_mem_ofNat

theorem number?_ofNat {n : Nat} (hn : n < 0x8000000000000000) :
    number? (ofNat n) = some (n : Int) := by
  rw [number?, Text.toNat?_ofNat, Option.bind_some, if_pos hn]

theorem newline_not_mem_run {t : Text} (ht : Run isHexDigit t) : 10 ∉ t := by
  intro hmem
  cases ht.all 10 hmem

theorem newline_not_mem_ofNat (n : Nat) : 10 ∉ ofNat n :=
  newline_not_mem_run (run_ofNat n).hexadecimal

/-! ## Backtraces -/

structure Entry where
  depth : Nat
  address : Text
  symbol : Text
  path : Text
  line : Nat
  col : Nat
  depth_fits : depth < 0x8000000000000000
  line_fits : line < 0x8000000000000000
  col_fits : col < 0x8000000000000000
  address_hex : Run isHexDigit address
  symbol_oneLine : 10 ∉ symbol
  symbol_endsInk : EndsInk symbol
  path_oneLine : 10 ∉ path
  path_rooted : Rooted path

namespace Entry

variable (e : Entry)

def header : Text := ofNat e.depth ++ ": 0x" ++ e.address ++ " - " ++ e.symbol

def location : Text :=
  "   at " ++ e.path ++ ":" ++ ofNat e.line ++ ":" ++ ofNat e.col

def frame (c : Convention) (e : Entry) : Frame :=
  ⟨identOf c e.symbol, e.path, e.line, e.col, e.depth⟩

theorem legible_header : Legible e.header where
  oneLine := by
    have hcolon : 10 ∉ ofString ": 0x" := by decide
    have hdash : 10 ∉ ofString " - " := by decide
    simp only [header, mem_append, not_or]
    exact ⟨⟨⟨⟨newline_not_mem_ofNat _, hcolon⟩, newline_not_mem_run e.address_hex⟩, hdash⟩,
      e.symbol_oneLine⟩
  endsInk := e.symbol_endsInk.append _

theorem legible_location : Legible e.location where
  oneLine := by
    have hat : 10 ∉ ofString "   at " := by decide
    have hcolon : 10 ∉ ofString ":" := by decide
    simp only [location, mem_append, not_or]
    exact ⟨⟨⟨⟨⟨hat, e.path_oneLine⟩, hcolon⟩, newline_not_mem_ofNat _⟩, hcolon⟩,
      newline_not_mem_ofNat _⟩
  endsInk := (run_ofNat e.col).hexadecimal.endsInk.append _

theorem header?_header : header? e.header = some (ofNat e.depth, e.symbol) :=
  header?_eq (run_ofNat e.depth) e.address_hex e.symbol_endsInk e.symbol_oneLine

theorem location?_location :
    location? e.location = some (e.path, ofNat e.line, ofNat e.col) :=
  location?_eq e.path_rooted e.path_oneLine (run_ofNat e.line) (run_ofNat e.col)

theorem headerFrame?_header (c : Convention) (e : Entry) :
    headerFrame? c e.header = some (identOf c e.symbol, (e.depth : Int)) := by
  simp [headerFrame?, header?_header, number?_ofNat e.depth_fits]

theorem isGoroutine_header : isGoroutine e.header = false := by
  have hlead : Text.dropLead? "goroutine " e.header = none := by
    rw [← Option.not_isSome_iff_eq_none, Text.dropLead?_isSome_iff]
    rintro ⟨rest, hrest⟩
    obtain ⟨b, digits, hdigits⟩ := exists_cons_of_ne_nil (Text.ofNat_ne_nil e.depth)
    have hdigit : isDigit b = true := (run_ofNat e.depth).all b (by simp [hdigits])
    simp only [header, hdigits, cons_append] at hrest
    obtain ⟨rfl, -⟩ := cons.inj hrest
    cases hdigit
  rw [isGoroutine, e.legible_header.endsInk.trimEnd, hlead]
  rfl

theorem backtraceFrom_entry (o : Options) (e : Entry) (rest : List Text) :
    backtraceFrom o none (e.header :: e.location :: rest) =
      o.kept [e.frame o.convention] ++ backtraceFrom o none rest := by
  rw [backtraceFrom_other (.inl rfl), headerFrame?_header,
    backtraceFrom_location e.location?_location, located?,
    number?_ofNat e.line_fits, number?_ofNat e.col_fits]
  rfl

end Entry

def backtraceLines (entries : List Entry) : List Text :=
  entries.flatMap fun e => [e.header, e.location]

theorem legible_backtraceLines (entries : List Entry) :
    ∀ l ∈ backtraceLines entries, Legible l := by
  intro l hl
  obtain ⟨e, -, hline⟩ := mem_flatMap.mp hl
  rcases mem_cons.mp hline with rfl | hlast
  · exact e.legible_header
  · rw [mem_singleton.mp hlast]
    exact e.legible_location

theorem detectFormat_backtraceLines (entries : List Entry) :
    detectFormat (backtraceLines entries) = .backtrace := by
  cases entries with
  | nil => rfl
  | cons e rest =>
    have hlines : backtraceLines (e :: rest) = e.header :: e.location :: backtraceLines rest := rfl
    rw [hlines, detectFormat, e.isGoroutine_header, e.header?_header]
    rfl

theorem backtraceFrom_backtraceLines {o : Options} (ho : ∀ path, o.excludes path = false)
    (entries : List Entry) :
    backtraceFrom o none (backtraceLines entries) = entries.map (·.frame o.convention) := by
  induction entries with
  | nil => rfl
  | cons e rest ih =>
    have hlines : backtraceLines (e :: rest) = e.header :: e.location :: backtraceLines rest := rfl
    rw [hlines, e.backtraceFrom_entry, ih]
    simp [Options.kept, ho]

/-! ## Stacks of goroutines -/

/-- A call in the stack of a goroutine. The symbol may have parentheses, the arguments have
none. -/
structure Call where
  symbol : Text
  args : Text
  path : Text
  line : Nat
  offset : Text
  line_fits : line < 0x8000000000000000
  symbol_oneLine : 10 ∉ symbol
  symbol_startsInk : startsInk symbol = true
  symbol_called : ¬ ofString "created by " <+: symbol
  args_oneLine : 10 ∉ args
  args_plain : ∀ b ∈ args, isParen b = false
  path_oneLine : 10 ∉ path
  path_rooted : Rooted path
  offset_hex : Run isHexDigit offset

namespace Call

def function (c : Call) : Text := c.symbol ++ ofString "(" ++ c.args ++ ofString ")"

def location (c : Call) : Text :=
  "\t" ++ c.path ++ ":" ++ ofNat c.line ++ " +0x" ++ c.offset

def frame (convention : Convention) (c : Call) (depth : Nat) : Frame :=
  ⟨identOf convention c.symbol, c.path, c.line, 0, depth⟩

theorem getLast?_function (c : Call) : c.function.getLast? = some 41 := getLast?_concat

theorem legible_function (c : Call) : Legible c.function where
  oneLine := by
    have hopen : 10 ∉ ofString "(" := by decide
    have hclose : 10 ∉ ofString ")" := by decide
    simp only [function, mem_append, not_or]
    exact ⟨⟨⟨c.symbol_oneLine, hopen⟩, c.args_oneLine⟩, hclose⟩
  endsInk := ⟨41, c.getLast?_function, rfl⟩

theorem legible_location (c : Call) : Legible c.location where
  oneLine := by
    have htab : 10 ∉ ofString "\t" := by decide
    have hcolon : 10 ∉ ofString ":" := by decide
    have hplus : 10 ∉ ofString " +0x" := by decide
    simp only [location, mem_append, not_or]
    exact ⟨⟨⟨⟨⟨htab, c.path_oneLine⟩, hcolon⟩, newline_not_mem_ofNat _⟩, hplus⟩,
      newline_not_mem_run c.offset_hex⟩
  endsInk := c.offset_hex.endsInk.append _

/-- The line of a function does not end a stack. -/
theorem function_goes_on (c : Call) :
    ¬ ((Text.trimSpace c.function).isEmpty || isGoroutine c.function) = true := by
  have hparen : 41 ∈ c.function := mem_of_getLast? c.getLast?_function
  have hink := Text.trimSpace_ne_nil hparen (by decide) rfl
  simp [isGoroutine_of_paren c.getLast?_function, hink]

theorem stackFrom_call (o : Options) (c : Call) (depth : Nat) (rest : List Text) :
    stackFrom o depth (c.function :: c.location :: rest) =
      o.kept [c.frame o.convention depth] ++ stackFrom o (depth + 1) rest :=
  Trace.stackFrom_call c.function_goes_on
    (function?_eq c.symbol_startsInk c.symbol_oneLine c.symbol_called c.args_plain)
    (stackLocation?_eq c.path_rooted c.path_oneLine (run_ofNat c.line) c.offset_hex)
    (number?_ofNat c.line_fits)
    o depth rest

end Call

def stackHeader (number : Nat) (state : Text) : Text :=
  "goroutine " ++ ofNat number ++ " [" ++ state ++ "]:"

def stackLines (number : Nat) (state : Text) (calls : List Call) : List Text :=
  stackHeader number state :: calls.flatMap fun c => [c.function, c.location]

theorem legible_stackLines {state : Text} (hstate : 10 ∉ state) (number : Nat) (calls : List Call) :
    ∀ l ∈ stackLines number state calls, Legible l := by
  intro l hl
  rcases mem_cons.mp hl with rfl | hcall
  · refine ⟨?_, EndsInk.append (t := ofString "]:") ⟨58, rfl, rfl⟩ _⟩
    have hlead : 10 ∉ ofString "goroutine " := by decide
    have hopen : 10 ∉ ofString " [" := by decide
    have hclose : 10 ∉ ofString "]:" := by decide
    simp only [stackHeader, mem_append, not_or]
    exact ⟨⟨⟨⟨hlead, newline_not_mem_ofNat number⟩, hopen⟩, hstate⟩, hclose⟩
  · obtain ⟨c, -, hline⟩ := mem_flatMap.mp hcall
    rcases mem_cons.mp hline with rfl | hlast
    · exact c.legible_function
    · rw [mem_singleton.mp hlast]
      exact c.legible_location

theorem stackFrom_calls {o : Options} (ho : ∀ path, o.excludes path = false) (depth : Nat)
    (calls : List Call) :
    stackFrom o depth (calls.flatMap fun c => [c.function, c.location]) =
      (calls.zipIdx depth).map fun level => level.1.frame o.convention level.2 := by
  induction calls generalizing depth with
  | nil => rw [flatMap_nil, stackFrom.eq_2 _ _ _ (by simp), zipIdx_nil, map_nil]
  | cons c rest ih =>
    rw [flatMap_cons, cons_append, singleton_append, c.stackFrom_call, ih]
    simp [Options.kept, ho]

/-! ## Reading what was written -/

theorem parse_backtrace {t : Text} {entries : List Entry} (ht : Spells t (backtraceLines entries))
    (hshort : ∀ l ∈ backtraceLines entries, l.length < lineLimit) (c : Convention) :
    parse { convention := c } t = .ok (entries.map (·.frame c)) := by
  have hlines := readLines_of_spells ht (legible_backtraceLines entries) hshort
  have hframes := backtraceFrom_backtraceLines (o := { convention := c }) (fun _ => rfl) entries
  simp [parse, hlines, detectFormat_backtraceLines, parseBacktrace, hframes, bind,
    Except.bind, pure, Except.pure]

theorem parse_stack {t state : Text} {number : Nat} {calls : List Call} (hstate : 10 ∉ state)
    (ht : Spells t (stackLines number state calls))
    (hshort : ∀ l ∈ stackLines number state calls, l.length < lineLimit) (c : Convention) :
    parse { convention := c } t =
      .ok (calls.zipIdx.map fun level => level.1.frame c level.2) := by
  have hlines := readLines_of_spells ht (legible_stackLines hstate number calls) hshort
  have hheader : isGoroutine (stackHeader number state) = true :=
    isGoroutine_header (run_ofNat number) hstate
  have hformat : detectFormat (stackLines number state calls) = .goroutine := by
    rw [stackLines, detectFormat, if_pos hheader]
  have hframes : parseGoroutine { convention := c } (stackLines number state calls) =
      calls.zipIdx.map fun level => level.1.frame c level.2 := by
    rw [parseGoroutine, stackLines, dropWhile_cons_of_neg (by simp [hheader]), drop_one,
      tail_cons]
    exact stackFrom_calls (fun _ => rfl) 0 calls
  simp [parse, hlines, hformat, hframes, bind, Except.bind, pure, Except.pure]

/-- **Parsing undoes rendering.**  A text that spells a backtrace is read as the entries it
was written from, and a text that spells a stack as its calls, level by level; the format is
recognised. -/
theorem parse_reads_written :
    (∀ (c : Convention) (entries : List Entry) (t : Text), Spells t (backtraceLines entries) →
      (∀ l ∈ backtraceLines entries, l.length < lineLimit) →
      parse { convention := c } t = .ok (entries.map (·.frame c))) ∧
    (∀ (c : Convention) (number : Nat) (state : Text) (calls : List Call) (t : Text), 10 ∉ state →
      Spells t (stackLines number state calls) →
      (∀ l ∈ stackLines number state calls, l.length < lineLimit) →
      parse { convention := c } t = .ok (calls.zipIdx.map fun level => level.1.frame c level.2)) :=
  ⟨fun c _ _ ht hshort => parse_backtrace ht hshort c,
    fun c _ _ _ _ hstate ht hshort => parse_stack hstate ht hshort c⟩

/-- The path looks like a location itself, and the symbol has colons, blanks and parentheses. -/
def misleadingEntry : Entry where
  depth := 9223372036854775807
  address := "0fA9"
  symbol := "a::b at (/c:1:2)"
  path := "/x y:12:3/z.go:7"
  line := 0
  col := 10
  depth_fits := by decide
  line_fits := by decide
  col_fits := by decide
  address_hex := ⟨by decide, by decide +kernel⟩
  symbol_oneLine := by decide
  symbol_endsInk := ⟨41, rfl, rfl⟩
  path_oneLine := by decide
  path_rooted := ⟨_, _, rfl⟩

/-- The symbol looks like a call, and the path like a location with an offset. -/
def misleadingCall : Call where
  symbol := "p.(*T).f(x) in goroutine 1"
  args := "0x1, \x7b...\x7d"
  path := "/y:3 +0x2"
  line := 41
  offset := "b"
  line_fits := by decide
  symbol_oneLine := by decide
  symbol_startsInk := rfl
  symbol_called := by decide
  args_oneLine := by decide
  args_plain := by decide +kernel
  path_oneLine := by decide
  path_rooted := ⟨_, _, rfl⟩
  offset_hex := ⟨by decide, by decide +kernel⟩

/-- The text of a stack lacks the end of its last line. -/
theorem misleading_traces_read :
    parse { convention := .first } (ofString
        "9223372036854775807: 0x0fA9 - a::b at (/c:1:2)\n   at /x y:12:3/z.go:7:0:10\n") =
      .ok [⟨"a", "/x y:12:3/z.go:7", 0, 10, 9223372036854775807⟩] ∧
    parse { convention := .last } (ofString
        ("goroutine 7 [running]:\n" ++
          "p.(*T).f(x) in goroutine 1(0x1, \x7b...\x7d)\n\t/y:3 +0x2:41 +0xb")) =
      .ok [⟨"f(x) in goroutine 1", "/y:3 +0x2", 41, 0, 0⟩] :=
  ⟨parse_reads_written.1 .first [misleadingEntry] _ (.inl rfl) (by decide),
    parse_reads_written.2 .last 7 "running" [misleadingCall] _ (by decide) (.inr rfl) (by decide)⟩

end FaultRepair.Trace
