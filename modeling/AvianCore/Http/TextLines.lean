import AvianCore.Http.Request
import AvianCore.Http.Response

/-!
A head as lines of text. This says what the fields of a head are without the parsers: the lines behind
the first one up to the first empty line, each cut at its first colon. The fields that the parsers
accept are those.
-/

namespace AvianCore.Http
open List Line

def withoutCR (line : Bytes) : Bytes := if line.getLast? = some cCR then line.dropLast else line

/-- The lines of a text, each with the place where it starts. Every line ends with LF; `line` is what
there is of the first one so far. -/
def textLines : Nat → Bytes → Bytes → List (Nat × Bytes)
  | _, _, [] => []
  | start, line, c :: rest =>
    if c = cLF then (start, withoutCR line) :: textLines (start + line.length + 1) [] rest
    else textLines start (line ++ [c]) rest

/-- The header lines: those between the first line and the first empty one. -/
def headLines (b : Bytes) : List (Nat × Bytes) :=
  (textLines (b.takeWhile isBreak).length [] (b.dropWhile isBreak)).tail.takeWhile (·.2 ≠ [])

/-- The field in a header line: a name up to the colon, and a value without the whitespace around
it. -/
def lineField (line : Nat × Bytes) : Field :=
  let name := line.2.takeWhile (· ≠ cColon)
  let value := line.2.drop (name.length + 1)
  ⟨line.1, name, line.1 + name.length + 1 + (value.takeWhile isBlank).length, trim value⟩

def headFields (b : Bytes) : List Field := (headLines b).map lineField

def Line.text (line : Line) : Bytes := line.name ++ cColon :: (line.space ++ line.run)

variable (start : Nat)

theorem textLines_more {line more rest : Bytes} (clear : cLF ∉ more) :
    textLines start line (more ++ rest) = textLines start (line ++ more) rest := by
  induction more generalizing line with
  | nil => simp
  | cons c more ih =>
    rw [mem_cons, not_or] at clear
    rw [cons_append, textLines, if_neg (Ne.symm clear.1), ih clear.2, append_assoc]
    rfl

variable {ending : Bytes}

theorem textLines_line {line : Bytes} (lf : cLF ∉ line) (cr : cCR ∉ line) (ended : IsLineEnd ending) (rest : Bytes) :
    textLines start [] (line ++ (ending ++ rest)) =
      (start, line) :: textLines (start + (line ++ ending).length) [] rest := by
  rw [textLines_more start lf, nil_append]
  have uncut : withoutCR line = line := by
    unfold withoutCR
    rw [if_neg]
    intro last
    exact cr (mem_of_getLast? last)
  rcases ended with rfl | rfl
  · have cut : withoutCR (line ++ [cCR]) = line := by
      unfold withoutCR
      rw [if_pos (by simp), dropLast_concat]
    show textLines start line (cCR :: (cLF :: rest)) = _
    rw [textLines, if_neg (by decide), textLines, if_pos rfl, cut]
    simp [crlf, Nat.add_assoc]
  · show textLines start line (cLF :: rest) = _
    rw [textLines, if_pos rfl, uncut]
    simp [Nat.add_assoc]

theorem textLines_empty (ended : IsLineEnd ending) (rest : Bytes) :
    ∃ more, textLines start [] (ending ++ rest) = (start, []) :: more := by
  have line := textLines_line start (not_mem_nil) (not_mem_nil) ended rest
  rw [nil_append] at line
  exact ⟨_, line⟩

theorem isFieldValueChar_ne {c d : UInt8} (proper : isFieldValueChar c = true)
    (other : isFieldValueChar d = false) : c ≠ d := by
  rintro rfl
  cases proper.symm.trans other

theorem isBlank_ne {c d : UInt8} (blank : isBlank c = true) (other : isBlank d = false) : c ≠ d := by
  rintro rfl
  cases blank.symm.trans other

variable (line : Line)

theorem Line.not_mem_text {d : UInt8} (token : isTokenChar d = false)
    (colon : d ≠ cColon) (blank : isBlank d = false) (proper : isFieldValueChar d = false) :
    d ∉ line.text := by
  unfold text
  simp only [mem_append, mem_cons, not_or]
  refine ⟨?_, colon, ?_, ?_⟩
  · intro member
    exact isTokenChar_ne (line.token d member) token rfl
  · intro member
    exact isBlank_ne (line.blank d member) blank rfl
  · intro member
    exact isFieldValueChar_ne (line.proper d member) proper rfl

theorem Line.bytes_eq : line.bytes = line.text ++ line.ending := by
  simp [bytes, text]

theorem Line.text_ne_nil : line.text ≠ [] := by
  simp [text]

theorem dropWhile_blank {space run : Bytes} (blank : ∀ c ∈ space, isBlank c = true)
    (solid : ∀ c ∈ run.head?, isBlank c = false) :
    (space ++ run).dropWhile isBlank = run ∧ (space ++ run).takeWhile isBlank = space := by
  rw [dropWhile_append_of_pos blank, takeWhile_append_of_pos blank]
  cases run with
  | nil => simp
  | cons x xs => simp [solid x rfl]

theorem Line.lineField_text (start : Nat) : lineField (start, line.text) = line.field start := by
  obtain ⟨name, space, run, ending, named, token, blank, solid, proper, ended⟩ := line
  have plain : ∀ c ∈ name, (decide (c ≠ cColon)) = true := by
    intro c member
    exact decide_eq_true (isTokenChar_ne (token c member) (by decide : isTokenChar cColon = false))
  obtain ⟨taken, -⟩ := Lib.Scanner.takeWhile_append_stop plain
    (by decide : (decide (cColon ≠ cColon)) = false) (space ++ run)
  obtain ⟨dropped, spaces⟩ := dropWhile_blank blank solid
  have after : (name ++ cColon :: (space ++ run)).drop (name.length + 1) = space ++ run := by simp [drop_append]
  simp only [lineField, text, taken, after, spaces, trim, dropped, field, value]

theorem textLines_lines (lines : List Line) (ended : IsLineEnd ending) (rest : Bytes) :
    ((textLines start [] (linesBytes lines ++ (ending ++ rest))).takeWhile (·.2 ≠ [])).map lineField =
        located start lines ∧
      ∀ text ∈ (textLines start [] (linesBytes lines ++ (ending ++ rest))).takeWhile (·.2 ≠ []),
        ∃ line ∈ lines, text.2 = line.text := by
  induction lines generalizing start with
  | nil =>
    obtain ⟨more, empty⟩ := textLines_empty start ended rest
    rw [linesBytes_nil, nil_append, empty]
    simp [located]
  | cons line lines ih =>
    have lf := line.not_mem_text (by decide : isTokenChar cLF = false) (by decide) (by decide) (by decide)
    have cr := line.not_mem_text (by decide : isTokenChar cCR = false) (by decide) (by decide) (by decide)
    obtain ⟨fields, texts⟩ := ih (start + line.bytes.length)
    rw [linesBytes_cons, append_assoc, line.bytes_eq, append_assoc,
      textLines_line start lf cr line.ended, ← line.bytes_eq, takeWhile_cons,
      if_pos (by simpa using line.text_ne_nil)]
    constructor
    · rw [map_cons, fields, line.lineField_text, located]
    · intro text member
      rcases mem_cons.mp member with rfl | later
      · exact ⟨line, mem_cons_self, rfl⟩
      · obtain ⟨line', member', same⟩ := texts text later
        exact ⟨line', mem_cons_of_mem _ member', same⟩

variable {lines : List Line}

theorem headFields_eq {b blanks first ending' rest : Bytes}
    (whole : b = (blanks ++ (first ++ ending)) ++ (linesBytes lines ++ (ending' ++ rest)))
    (breaks : ∀ c ∈ blanks, isBreak c = true) (starts : ∃ x xs, first = x :: xs ∧ isBreak x = false)
    (lf : cLF ∉ first) (cr : cCR ∉ first) (ended : IsLineEnd ending) (ended' : IsLineEnd ending') :
    headFields b = located (blanks ++ (first ++ ending)).length lines ∧
      ∀ text ∈ headLines b, ∃ line ∈ lines, text.2 = line.text := by
  obtain ⟨x, xs, rfl, stop⟩ := starts
  have split : b = blanks ++ x :: (xs ++ (ending ++ (linesBytes lines ++ (ending' ++ rest)))) := by
    rw [whole]
    simp
  obtain ⟨taken, dropped⟩ := Lib.Scanner.takeWhile_append_stop breaks stop
    (xs ++ (ending ++ (linesBytes lines ++ (ending' ++ rest))))
  have lines' := textLines_line blanks.length lf cr ended (linesBytes lines ++ (ending' ++ rest))
  rw [cons_append] at lines'
  have total : (blanks ++ (x :: xs ++ ending)).length = blanks.length + (x :: xs ++ ending).length := length_append
  unfold headFields headLines
  rw [split, taken, dropped, lines', tail_cons, total]
  exact textLines_lines _ lines ended' rest

theorem RequestLine.headFields {b rest : Bytes} (line : RequestLine)
    (whole : b = line.bytes ++ (linesBytes lines ++ (ending ++ rest))) (ended : IsLineEnd ending) :
    headFields b = located line.bytes.length lines ∧ ∀ text ∈ headLines b, ∃ line ∈ lines, text.2 = line.text := by
  obtain ⟨⟨blanks, method, target, breaks, named, token, aimed, visible⟩, minor, ending', version, ended'⟩ := line
  obtain ⟨m, ms, rfl⟩ := exists_cons_of_ne_nil named
  have clear : ∀ d, isTokenChar d = false → d ≠ cSP → isTargetByte d = false → d ∉ ascii "HTTP/1." → d ≠ 48 → d ≠ 49 →
      d ∉ (m :: ms) ++ cSP :: (target ++ cSP :: (ascii "HTTP/1." ++ [minor])) := by
    intro d notToken space notTarget letters zero one member
    simp only [mem_append, mem_cons, not_mem_nil, or_false] at member
    rcases member with inMethod | same | inTarget | same | inVersion | digit
    · exact isTokenChar_ne (token d (mem_cons.mpr inMethod)) notToken rfl
    · exact space same
    · rw [visible d inTarget] at notTarget
      cases notTarget
    · exact space same
    · exact letters inVersion
    rcases version with rfl | rfl
    · exact zero digit
    · exact one digit
  have bytes : RequestLine.bytes ⟨⟨blanks, m :: ms, target, breaks, named, token, aimed, visible⟩, minor,
      ending', version, ended'⟩ =
      blanks ++ (((m :: ms) ++ cSP :: (target ++ cSP :: (ascii "HTTP/1." ++ [minor]))) ++ ending') := by
    simp [RequestLine.bytes, RequestStart.front]
  rw [bytes] at whole ⊢
  refine headFields_eq whole breaks ⟨m, _, rfl, ?_⟩ ?_ ?_ ended' ended
  · exact (isTokenChar_not_break (token m mem_cons_self)).1
  · exact clear cLF (by decide) (by decide) (by decide) (by decide +kernel) (by decide) (by decide)
  · exact clear cCR (by decide) (by decide) (by decide) (by decide +kernel) (by decide) (by decide)

theorem StatusText.not_mem_bytes (text : StatusText) {d : UInt8} (digit : isDigit d = false)
    (space : d ≠ cSP) (reason : isReasonByte d = false) : d ∉ text.bytes := by
  obtain ⟨code, gap, phrase, three, digits, spaced, printable⟩ := text
  unfold StatusText.bytes
  simp only [mem_append, not_or]
  refine ⟨?_, ?_, ?_⟩
  · intro member
    exact isDigit_ne (digits d member) digit rfl
  · rcases spaced with rfl | ⟨rfl, -⟩
    · simpa using space
    · exact not_mem_nil
  · intro member
    rw [printable d member] at reason
    cases reason

theorem StatusLine.headFields {b rest : Bytes} (line : StatusLine)
    (whole : b = line.bytes ++ (linesBytes lines ++ (ending ++ rest))) (ended : IsLineEnd ending) :
    headFields b = located line.bytes.length lines ∧ ∀ text ∈ headLines b, ∃ line ∈ lines, text.2 = line.text := by
  obtain ⟨⟨blanks, minor, breaks, digit⟩, text, ending', ended'⟩ := line
  have clear : ∀ d, isDigit d = false → d ≠ cSP → isReasonByte d = false → d ∉ ascii "HTTP/1." →
      d ∉ ascii "HTTP/1." ++ minor :: cSP :: text.bytes := by
    intro d notDigit space notReason letters member
    simp only [mem_append, mem_cons] at member
    rcases member with inVersion | same | same | inText
    · exact letters inVersion
    · exact isDigit_ne digit notDigit same.symm
    · exact space same
    · exact text.not_mem_bytes notDigit space notReason inText
  have bytes : StatusLine.bytes ⟨⟨blanks, minor, breaks, digit⟩, text, ending', ended'⟩ =
      blanks ++ ((ascii "HTTP/1." ++ minor :: cSP :: text.bytes) ++ ending') := by
    simp [StatusLine.bytes, StatusStart.front]
  rw [bytes] at whole ⊢
  refine headFields_eq whole breaks ⟨72, _, rfl, by decide⟩ ?_ ?_ ended' ended
  · exact clear cLF (by decide) (by decide) (by decide) (by decide +kernel)
  · exact clear cCR (by decide) (by decide) (by decide) (by decide +kernel)

end AvianCore.Http
