import AvianCore.Http.Writer

/-!
Responses as the server writes them, read by the parser of a client. Header fields can neither add a
line nor end the head, but the status text is written unchecked: what follows a line end in it is read
as header fields, and an empty line in it ends the head.
-/

namespace AvianCore.Http
open AvianCore.Lib List Scanner HTTPResponseWriter
open Scanner (bind_starved refuseIf_starved pure_apply)
open HTTPResponseParser (parse)

def Terminated (piece : Bytes) : Prop := ∃ body, piece = body ++ [cLF] ∧ cLF ∉ body

theorem append_lf_inj {body body' rest rest' : Bytes} (clean : cLF ∉ body) (clean' : cLF ∉ body')
    (same : body ++ cLF :: rest = body' ++ cLF :: rest') : body = body' ∧ rest = rest' := by
  induction body generalizing body' with
  | nil =>
    cases body' with
    | nil =>
      cases same
      exact ⟨rfl, rfl⟩
    | cons c body' =>
      cases same
      exact absurd mem_cons_self clean'
  | cons c body ih =>
    cases body' with
    | nil =>
      cases same
      exact absurd mem_cons_self clean
    | cons c' body' =>
      rw [cons_append, cons_append, List.cons.injEq] at same
      obtain ⟨rfl, same⟩ := same
      obtain ⟨rfl, rfl⟩ := ih (fun inside => clean (mem_cons_of_mem _ inside))
        (fun inside => clean' (mem_cons_of_mem _ inside)) same
      exact ⟨rfl, rfl⟩

theorem Terminated.eq {piece piece' rest rest' : Bytes} (ends : Terminated piece)
    (ends' : Terminated piece') (same : piece ++ rest = piece' ++ rest') :
    piece = piece' ∧ rest = rest' := by
  obtain ⟨body, rfl, clean⟩ := ends
  obtain ⟨body', rfl, clean'⟩ := ends'
  rw [append_assoc, append_assoc, singleton_append, singleton_append] at same
  obtain ⟨rfl, rfl⟩ := append_lf_inj clean clean' same
  exact ⟨rfl, rfl⟩

variable {text : Bytes}

theorem Terminated.within {piece rest more : Bytes} (ends : Terminated piece)
    (same : piece ++ rest = text ++ more) (some : cLF ∈ text) :
    ∃ between, text = piece ++ between ∧ rest = between ++ more := by
  obtain ⟨front, back, rfl, clean⟩ := eq_append_cons_of_mem some
  have split : front ++ cLF :: back = (front ++ [cLF]) ++ back := by simp
  rw [split, append_assoc] at same
  obtain ⟨rfl, rfl⟩ := ends.eq ⟨front, rfl, clean⟩ same
  exact ⟨back, split, rfl⟩

theorem IsLineEnd.terminated {ending : Bytes} (ended : IsLineEnd ending) (clean : cLF ∉ text) :
    Terminated (text ++ ending) := by
  rcases ended with rfl | rfl
  · refine ⟨text ++ [cCR], by simp [crlf], ?_⟩
    intro inside
    rcases mem_append.mp inside with early | last
    · exact clean early
    · exact absurd (mem_singleton.mp last) (by decide)
  · exact ⟨text, rfl, clean⟩

theorem clean_of {P : UInt8 → Bool} (all : ∀ c ∈ text, P c = true) (stop : P cLF = false) : cLF ∉ text := by
  intro inside
  rw [all cLF inside] at stop
  cases stop

theorem clean_append {text' : Bytes} (clean : cLF ∉ text) (clean' : cLF ∉ text') : cLF ∉ text ++ text' := by
  rw [mem_append]
  exact not_or.mpr ⟨clean, clean'⟩

theorem clean_cons {c : UInt8} (other : c ≠ cLF) (clean : cLF ∉ text) : cLF ∉ c :: text := by
  rw [mem_cons]
  exact not_or.mpr ⟨Ne.symm other, clean⟩

theorem Line.terminated (line : Line) : Terminated line.bytes := by
  have clean : cLF ∉ line.name ++ cColon :: (line.space ++ line.run) :=
    clean_append (clean_of line.token (by decide)) (clean_cons (by decide)
      (clean_append (clean_of line.blank (by decide)) (clean_of line.proper (by decide))))
  have split : line.bytes = (line.name ++ cColon :: (line.space ++ line.run)) ++ line.ending := by simp [Line.bytes]
  rw [split]
  exact line.ended.terminated clean

theorem Writable.terminated {field : Bytes × Bytes} (writable : Writable field) : Terminated (headerBytes field) := by
  have clean : cLF ∉ field.1 ++ cColon :: cSP :: field.2 :=
    clean_append (clean_of writable.token (by decide)) (clean_cons (by decide)
      (clean_cons (by decide) (clean_of writable.proper (by decide))))
  have split : headerBytes field = (field.1 ++ cColon :: cSP :: field.2) ++ crlf := by simp [headerBytes]
  rw [split]
  exact IsLineEnd.terminated (Or.inl rfl) clean

theorem StatusText.clean (text : StatusText) : cLF ∉ text.bytes := by
  have gap : cLF ∉ text.gap := by
    rcases text.spaced with space | ⟨none, -⟩
    · rw [space]
      decide
    · rw [none]
      exact not_mem_nil
  exact clean_append (clean_of text.digits (by decide)) (clean_append gap (clean_of text.printable (by decide)))

section Starved
variable {c : Cursor UInt8} {limit : Option ParseError}

theorem lineEnd_starved_clean {e : ParseError} (waits : lineEnd e c = .starved limit) : cLF ∉ c.ahead := by
  obtain ⟨empty | only, -⟩ := lineEnd_starved.mp waits
  · rw [empty]
    exact not_mem_nil
  · rw [only]
    decide

theorem fieldLine_starved_clean {start : Nat} (waits : fieldLine start c = .starved limit) : cLF ∉ c.ahead := by
  unfold fieldLine at waits
  simp only [bind_starved, span_starved, span_got, refuseIf_starved,
    refuseIf_got, symbol_starved, symbol_got, position_apply,
    pure_apply, Outcome.got.injEq, reduceCtorEq, false_or, and_false, exists_false,
    or_false] at waits
  rcases waits with ⟨all, -⟩ | ⟨name, _, ⟨s, after, ahead, token, -, rfl⟩, _, _, ⟨-, rfl⟩,
    ⟨none, -⟩ | ⟨_, _, ⟨rest, colon, rfl⟩, further⟩⟩
  · exact clean_of all (by decide)
  · cases none
  dsimp only at colon
  rw [ahead, colon]
  apply clean_append (clean_of token (by decide))
  apply clean_cons (by decide)
  rcases further with ⟨blank, -⟩ | ⟨space, _, ⟨first, tail, spaced, blank, -, rfl⟩, _, _, ⟨-, rfl⟩,
    ⟨proper, -⟩ | ⟨run, _, ⟨last, tail', ran, proper, -, rfl⟩, waits⟩⟩
  · exact clean_of blank (by decide)
  · dsimp only at spaced proper
    rw [spaced]
    exact clean_append (clean_of blank (by decide)) (clean_of proper (by decide))
  · dsimp only at spaced ran
    rw [spaced, ran]
    exact clean_append (clean_of blank (by decide)) (clean_append (clean_of proper (by decide))
      (lineEnd_starved_clean waits))

theorem headerLine_starved_clean {maxHeadSize : Int} (waits : headerLine maxHeadSize c = .starved limit) :
    cLF ∉ c.ahead := by
  unfold headerLine at waits
  simp only [bind_starved, position_apply, peek_starved, peek_got,
    refuseIf_starved, refuseIf_got, Outcome.got.injEq, reduceCtorEq, false_or] at waits
  obtain ⟨_, _, ⟨-, rfl⟩, ⟨empty, -⟩ | ⟨first, _, ⟨-, rfl⟩, _, _, ⟨-, rfl⟩, further⟩⟩ := waits
  · rw [empty]
    exact not_mem_nil
  split at further
  · simp only [bind_starved, pure_apply, reduceCtorEq, and_false, exists_false, or_false] at further
    exact lineEnd_starved_clean further
  simp only [bind_starved, refuseIf_starved, refuseIf_got,
    pure_apply, reduceCtorEq, and_false, exists_false, or_false, false_or] at further
  obtain ⟨_, _, ⟨-, rfl⟩, waits⟩ := further
  exact fieldLine_starved_clean waits

theorem fields_starved_clean {τ : Type} {maxHeadSize maxHeaders : Int}
    {frame : τ → Field → Except ParseError τ} {fuel : Nat} (enough : c.ahead.length < fuel)
    {seen : τ × List HeaderRef}
    (waits : Scanner.loop (fieldTurn maxHeadSize maxHeaders frame) fuel seen c = .starved limit) :
    ∃ lines part, c.ahead = linesBytes lines ++ part ∧ cLF ∉ part := by
  induction fuel generalizing seen c with
  | zero => exact absurd enough (Nat.not_lt_zero _)
  | succ fuel ih =>
    rw [loop_succ, bind_starved] at waits
    rcases waits with now | ⟨x, c₁, turned, further⟩
    · refine ⟨[], c.ahead, rfl, ?_⟩
      unfold fieldTurn at now
      rcases bind_starved.mp now with waits | ⟨found, c₁, -, further⟩
      · exact headerLine_starved_clean waits
      cases found with
      | none => cases further
      | some field =>
        simp only [bind_starved, refuseIf_starved, lift_starved,
          pure_apply, reduceCtorEq, and_false, exists_false, or_false] at further
    · cases x with
      | inr answer => cases further
      | inl next =>
        have shorter := fieldTurn_moves turned
        obtain ⟨-, line, rest, ahead, rfl, -⟩ := fieldTurn_inl.mp turned
        obtain ⟨lines, part, ahead', clean⟩ := ih (by omega) further
        dsimp only at ahead'
        refine ⟨line :: lines, part, ?_, clean⟩
        rw [ahead, ahead', linesBytes_cons, append_assoc]

theorem reasonPhrase_starved_clean (waits : reasonPhrase c = .starved limit) : cLF ∉ c.ahead := by
  unfold reasonPhrase at waits
  simp only [bind_starved, position_apply, span_starved, span_got,
    pure_apply, Outcome.got.injEq, reduceCtorEq, and_false, exists_false, false_or,
    or_false] at waits
  obtain ⟨_, _, ⟨-, rfl⟩, ⟨all, -⟩ | ⟨text, _, ⟨s, tail, ahead, all, -, rfl⟩, waits⟩⟩ := waits
  · exact clean_of all (by decide)
  · rw [ahead]
    exact clean_append (clean_of all (by decide)) (lineEnd_starved_clean waits)

theorem statusText_starved_clean (waits : statusText c = .starved limit) : c.ahead.length < 3 ∨ cLF ∉ c.ahead := by
  unfold statusText at waits
  simp only [bind_starved, exactly_starved, exactly_got,
    refuseIf_starved, refuseIf_got, pure_apply, reduceCtorEq, and_false,
    exists_false, false_or, or_false] at waits
  rcases waits with ⟨short, -⟩ | ⟨code, _, ⟨-, rest, ahead, rfl⟩, _, _, ⟨digits, rfl⟩, waits⟩
  · exact .inl short
  right
  rw [ahead]
  have all : ∀ x ∈ code, isDigit x = true := by simpa using digits
  apply clean_append (clean_of all (by decide))
  rcases reasonLine_cases ⟨c.behind ++ code, rest⟩ with ⟨empty, -⟩ | ⟨refused, -⟩ | ⟨gap, more, spaced, ahead', same⟩
  · dsimp only at empty
    rw [empty]
    exact not_mem_nil
  · cases refused.symm.trans waits
  rw [same] at waits
  dsimp only at ahead'
  rw [ahead']
  have clean : cLF ∉ gap := by
    rcases spaced with rfl | ⟨rfl, -⟩
    · decide
    · exact not_mem_nil
  exact clean_append clean (reasonPhrase_starved_clean waits)

end Starved

theorem statusLine_starved_text {limit : Option ParseError} {head : ResponseHead} {t : Bytes}
    (waits : statusLine head ⟨[], ascii "HTTP/1.1 " ++ t⟩ = .starved limit) :
    statusText ⟨ascii "HTTP/1.1 ", t⟩ = .starved limit := by
  have blanks : Scanner.span isBreak (none : Option ParseError) ⟨[], ascii "HTTP/1.1 " ++ t⟩ =
      .got [] ⟨[], ascii "HTTP/1.1 " ++ t⟩ := by
    rw [span_got]
    exact ⟨72, ascii "TTP/1.1 " ++ t, rfl, fun _ member => absurd member not_mem_nil,
      by decide, rfl⟩
  have version : statusVersion ⟨[], ascii "HTTP/1.1 " ++ t⟩ = .got (1, 1) ⟨ascii "HTTP/1.1 ", t⟩ :=
    statusVersion_got.mpr ⟨49, t, by decide, rfl, by decide, rfl⟩
  unfold statusLine at waits
  rcases bind_starved.mp waits with now | ⟨_, c₁, got, waits⟩
  · cases blanks.symm.trans now
  cases blanks.symm.trans got
  rcases bind_starved.mp waits with now | ⟨_, c₂, got, waits⟩
  · cases version.symm.trans now
  cases version.symm.trans got
  rcases bind_starved.mp waits with now | ⟨_, c₃, -, never⟩
  · exact now
  · cases never

theorem append_terminated_ne {front piece : Bytes} (ends : Terminated piece)
    (long : 3 ≤ piece.length) : front ++ piece ≠ text ++ [cLF, cCR, cLF] := by
  obtain ⟨body, rfl, clean⟩ := ends
  rw [length_append] at long
  intro same
  have shorter : front ++ body = text ++ [cLF, cCR] := by
    have split : text ++ [cLF, cCR, cLF] = (text ++ [cLF, cCR]) ++ [cLF] := by simp
    rw [split, ← append_assoc] at same
    exact append_cancel_right same
  rcases append_eq_append_iff.mp shorter with ⟨between, -, inside⟩ | ⟨between, -, inside⟩
  · apply clean
    rw [inside]
    simp
  have count := congrArg List.length inside
  rw [length_append] at count
  change 2 = between.length + body.length at count
  have none : between = [] := length_eq_zero_iff.mp (by change 3 ≤ body.length + 1 at long; omega)
  rw [none, nil_append] at inside
  apply clean
  rw [← inside]
  decide

theorem Line.length_bytes_ge (line : Line) : 3 ≤ line.bytes.length := by
  have named := length_pos_iff.mpr line.named
  obtain ⟨x, more, ended, -⟩ := line.ended.head
  rw [Line.bytes, ended]
  simp only [length_append, length_cons]
  omega

theorem StatusText.terminated (text : StatusText) {ending : Bytes} (ended : IsLineEnd ending) :
    Terminated (text.bytes ++ ending) ∧ 3 ≤ (text.bytes ++ ending).length := by
  refine ⟨ended.terminated text.clean, ?_⟩
  rw [StatusText.bytes, length_append, length_append, text.three]
  omega

theorem HTTPResponseParser.parse_ne_incomplete {t : Bytes} {maxHeadSize maxHeaders : Int}
    {head : ResponseHead} (long : 3 ≤ t.length) (ends : t = text ++ [cLF, cCR, cLF]) :
    parse (ascii "HTTP/1.1 " ++ t) maxHeadSize maxHeaders head ≠ .incomplete := by
  intro incomplete
  unfold parse at incomplete
  obtain ⟨limit, waits⟩ : ∃ limit, responseHead maxHeadSize maxHeaders
      ((ascii "HTTP/1.1 " ++ t).length + 1) head ⟨[], ascii "HTTP/1.1 " ++ t⟩ = .starved limit := by
    rcases conclude_incomplete.mp incomplete with none | ⟨e, some, -⟩
    · exact ⟨_, none⟩
    · exact ⟨_, some⟩
  unfold responseHead at waits
  rcases bind_starved.mp waits with first | ⟨head', c₁, got, waits⟩
  · rcases statusText_starved_clean (statusLine_starved_text first) with short | clean
    · change t.length < 3 at short
      omega
    apply clean
    change cLF ∈ t
    rw [ends]
    simp
  obtain ⟨line, rest, ahead, rfl, rfl⟩ := statusLine_got.mp got
  dsimp only at ahead
  rcases bind_starved.mp waits with second | ⟨last, c₂, -, never⟩
  · have enough : rest.length < (ascii "HTTP/1.1 " ++ t).length + 1 := by
      rw [ahead, length_append]
      omega
    obtain ⟨lines, part, ahead', clean⟩ := fields_starved_clean enough second
    dsimp only at ahead'
    have whole : line.bytes ++ (linesBytes lines ++ part) = (ascii "HTTP/1.1 " ++ text) ++ [cLF, cCR, cLF] := by
      rw [← ahead', ← ahead, ends, append_assoc]
    -- the part has no LF, so the lines go up to the end
    have none : part = [] := by
      rcases eq_nil_or_concat part with none | ⟨before, x, rfl⟩
      · exact none
      have last := congrArg List.getLast? whole
      simp only [concat_eq_append, List.getLast?_append, List.getLast?_singleton,
        List.getLast?_cons_cons, Option.some_or, Option.some.injEq] at last
      rw [last] at clean
      simp at clean
    subst none
    rw [append_nil] at whole
    rcases eq_nil_or_concat lines with rfl | ⟨before, last, rfl⟩
    · rw [linesBytes_nil, append_nil, StatusLine.bytes] at whole
      obtain ⟨ends, long⟩ := line.text.terminated line.ended
      exact append_terminated_ne ends long whole
    · rw [concat_eq_append, linesBytes_append, linesBytes_cons, linesBytes_nil, append_nil, ← append_assoc] at whole
      exact append_terminated_ne last.terminated last.length_bytes_ge whole
  · simp only [bind_starved, refuseIf_starved, position_apply,
      pure_apply, reduceCtorEq, and_false, exists_false, or_false] at never

theorem located_append (start : Nat) (lines lines' : List Line) : located start (lines ++ lines') =
    located start lines ++ located (start + (linesBytes lines).length) lines' := by
  induction lines generalizing start with
  | nil => rfl
  | cons line rest ih =>
    rw [cons_append, located, ih, located, cons_append, linesBytes_cons, length_append, Nat.add_assoc]

theorem foldlM_frameResponse (start : Nat) (lines : List Line) (seen : ResponseFraming) :
    (located start lines).foldlM frameResponse seen = (lines.map fun line => (line.name, line.value)).foldlM
        (fun seen text => frameResponse seen ⟨0, text.1, 0, text.2⟩) seen := by
  rw [← map_located start, foldlM_map]
  rfl

theorem frameResponse_mono {seen next : ResponseFraming} {field : Field}
    (framed : frameResponse seen field = .ok next) : (seen.isChunked = true → next.isChunked = true) ∧
      (seen.sawContentLength = true → next.sawContentLength = true) := by
  unfold frameResponse at framed
  split at framed
  · split at framed
    · cases framed
      exact ⟨id, id⟩
    split at framed
    · cases framed
      exact ⟨id, id⟩
    · cases framed
      exact ⟨id, id⟩
  split at framed
  · split at framed
    · cases framed
    split at framed
    · cases framed
    · cases framed
      exact ⟨id, fun _ => rfl⟩
  split at framed
  · split at framed
    · cases framed
    split at framed
    · cases framed
    · cases framed
      exact ⟨fun _ => rfl, id⟩
  · cases framed
    exact ⟨id, id⟩

theorem foldlM_frameResponse_mono {fields : List Field} {seen last : ResponseFraming}
    (framed : fields.foldlM frameResponse seen = .ok last) : (seen.isChunked = true → last.isChunked = true) ∧
      (seen.sawContentLength = true → last.sawContentLength = true) := by
  induction fields generalizing seen with
  | nil =>
    cases framed
    exact ⟨id, id⟩
  | cons field rest ih =>
    obtain ⟨next, step, run⟩ := foldlM_cons_ok.mp framed
    obtain ⟨chunked, length⟩ := frameResponse_mono step
    obtain ⟨chunked', length'⟩ := ih run
    exact ⟨chunked' ∘ chunked, length' ∘ length⟩

variable {lines : List Line} {ending rest : Bytes}

theorem exists_shorter {more tail : Bytes} (ended : IsLineEnd ending)
    (same : more ++ (crlf ++ tail) = linesBytes lines ++ (ending ++ rest)) :
    ∃ before after ending' rest', lines = before ++ after ∧ IsLineEnd ending' ∧
      more ++ (crlf ++ crlf) = linesBytes before ++ (ending' ++ rest') := by
  induction lines generalizing more with
  | nil =>
    rw [linesBytes_nil, nil_append, ← append_assoc] at same
    have short : ending.length ≤ (more ++ crlf).length := by
      rw [length_append]
      rcases ended with rfl | rfl
      · exact Nat.le_add_left _ _
      · exact Nat.le_trans (by decide : [cLF].length ≤ crlf.length) (Nat.le_add_left _ _)
    obtain ⟨rest', split⟩ := prefix_of_prefix_length_le ⟨rest, rfl⟩
      (⟨tail, same⟩ : more ++ crlf <+: ending ++ rest) short
    refine ⟨[], [], ending, rest' ++ crlf, rfl, ended, ?_⟩
    rw [linesBytes_nil, nil_append, ← append_assoc, ← split, append_assoc]
  | cons line lines ih =>
    rw [linesBytes_cons, append_assoc] at same
    by_cases some : cLF ∈ more
    · obtain ⟨between, rfl, further⟩ := line.terminated.within same.symm some
      obtain ⟨before, after, ending', rest', split, ended', whole⟩ := ih further.symm
      refine ⟨line :: before, after, ending', rest', by rw [split]; rfl, ended', ?_⟩
      rw [append_assoc, whole, linesBytes_cons, append_assoc]
    have ends : Terminated (more ++ crlf) := IsLineEnd.terminated (Or.inl rfl) some
    rw [← append_assoc] at same
    obtain ⟨first, -⟩ := ends.eq line.terminated same
    refine ⟨[line], lines, crlf, [], rfl, Or.inl rfl, ?_⟩
    rw [linesBytes_cons, linesBytes_nil, append_nil, append_nil, ← append_assoc, first]

theorem headerBytes_head (field : Bytes × Bytes) (writable : Writable field) :
    ∃ c rest, headerBytes field = c :: rest ∧ isBreak c = false := by
  unfold headerBytes
  cases named : field.1 with
  | nil => exact ⟨cColon, _, rfl, by decide⟩
  | cons c rest =>
    refine ⟨c, _, rfl, (isTokenChar_not_break (writable.token c ?_)).1⟩
    rw [named]
    exact mem_cons_self

variable {headers : List (Bytes × Bytes)}

theorem lines_of_headers (writable : ∀ header ∈ headers, Writable header) (ended : IsLineEnd ending)
    (same : headers.flatMap headerBytes ++ crlf = linesBytes lines ++ (ending ++ rest)) :
    lines.length = headers.length ∧ rest = [] := by
  induction headers generalizing lines with
  | nil =>
    cases lines with
    | nil =>
      rcases ended with rfl | rfl
      · exact ⟨rfl, self_eq_append_right.mp same⟩
      · cases same
    | cons line lines =>
      obtain ⟨x, more, bytes, token⟩ := line.head_bytes
      have first := congrArg List.head? same
      rw [linesBytes_cons, bytes] at first
      change some cCR = some x at first
      rw [← Option.some.inj first] at token
      exact absurd token (by decide)
  | cons header headers ih =>
    have good := writable header mem_cons_self
    rw [flatMap_cons, append_assoc] at same
    cases lines with
    | nil =>
      obtain ⟨c, more, first, unbroken⟩ := headerBytes_head header good
      obtain ⟨x, other, breaks, broken, -⟩ := ended.head
      have start := congrArg List.head? same
      rw [first, breaks] at start
      change some c = some x at start
      rw [← Option.some.inj start, unbroken] at broken
      cases broken
    | cons line lines =>
      rw [linesBytes_cons, append_assoc] at same
      obtain ⟨-, further⟩ := good.terminated.eq line.terminated same
      obtain ⟨count, none⟩ := ih (fun other member => writable other (mem_cons_of_mem _ member)) further
      exact ⟨by rw [length_cons, length_cons, count], none⟩

def writeResponse (raw : Bytes) (headers : List (Bytes × Bytes)) : Bool × Bytes :=
  andThen (writeEach (fun buf header => writeHeader buf header.1 header.2)
    (writeStatusLine [] raw) headers) fun buf =>
      (true, endHead buf)

/-- A reading of a head as one head: refused, or read up to its end with all of its fields. -/
def OneHead (out : Bytes) (count : Nat) : ParseResult ResponseHead → Prop
  | .incomplete => False
  | .failure _ => True
  | .complete head _ => head.headEnd = out.length ∧ head.headerCount = count

/-- A status text that goes on behind a line end, with lines that are taken for header fields and an
empty one. -/
def Splits (raw : Bytes) : Prop :=
  ∃ (text : StatusText) (ending more : Bytes) (lines : List Line) (ending' rest : Bytes)
    (last : ResponseFraming),
    raw = text.bytes ++ (ending ++ more) ∧ IsLineEnd ending ∧
      more ++ (crlf ++ crlf) = linesBytes lines ++ (ending' ++ rest) ∧ IsLineEnd ending' ∧
      (located 0 lines).foldlM frameResponse ({} : ResponseHead).framing = .ok last ∧
      (last.isChunked && last.sawContentLength) = false

variable {raw : Bytes}

theorem Splits.mem_lf (splits : Splits raw) : cLF ∈ raw := by
  obtain ⟨text, ending, more, -, -, -, -, rfl, ended, -⟩ := splits
  rcases ended with rfl | rfl
  · simp [crlf]
  · simp

theorem writeResponse_true {out : Bytes} (written : writeResponse raw headers = (true, out)) :
    (∀ header ∈ headers, Writable header) ∧
      out = ascii "HTTP/1.1 " ++ (raw ++ (crlf ++ (headers.flatMap headerBytes ++ crlf))) := by
  obtain ⟨buf, each, last⟩ := andThen_true written
  obtain ⟨writable, rfl⟩ := writeEach_writeHeader.mp each
  refine ⟨writable, ?_⟩
  rw [Prod.mk.injEq] at last
  rw [← last.2, endHead, writeStatusLine]
  simp

theorem written_ends (raw : Bytes) (headers : List (Bytes × Bytes)) :
    ∃ text, raw ++ (crlf ++ (headers.flatMap headerBytes ++ crlf)) = text ++ [cLF, cCR, cLF] := by
  rcases eq_nil_or_concat headers with rfl | ⟨before, header, rfl⟩
  · exact ⟨raw ++ [cCR], by simp [crlf]⟩
  · refine ⟨raw ++ (crlf ++ (before.flatMap headerBytes ++ (header.1 ++ cColon :: cSP :: (header.2 ++ [cCR])))), ?_⟩
    simp [headerBytes, crlf]

variable {line : StatusLine}

theorem StatusLine.of_written {t rest : Bytes} (same : ascii "HTTP/1.1 " ++ t = line.bytes ++ rest) :
    line.front = ascii "HTTP/1.1 " ∧ line.minor = 49 ∧ t = line.text.bytes ++ (line.ending ++ rest) := by
  have none : line.blanks = [] := by
    cases blanks : line.blanks with
    | nil => rfl
    | cons c more =>
      have first := congrArg List.head? same
      rw [StatusLine.bytes, StatusStart.front, blanks] at first
      change some (72 : UInt8) = some c at first
      have broken := line.breaks c (by rw [blanks]; exact mem_cons_self)
      rw [← Option.some.inj first] at broken
      exact absurd broken (by decide)
  rw [StatusLine.bytes, StatusStart.front, none, nil_append] at same
  have letters : ascii "HTTP/1.1 " ++ t = ascii "HTTP/1." ++ (49 :: cSP :: t) := rfl
  rw [letters, append_assoc, append_assoc, append_assoc] at same
  have tails := append_cancel_left same
  rw [cons_append, cons_append, nil_append, List.cons.injEq, List.cons.injEq] at tails
  obtain ⟨minor, -, rest⟩ := tails
  refine ⟨?_, minor.symm, rest⟩
  rw [StatusStart.front, none, ← minor]
  rfl

theorem StatusLine.framing_written (minor : line.minor = 49) :
    (line.head {} 0).framing = ({} : ResponseHead).framing := by
  have newest : decide (1 ≤ line.minor - cZero) = true := by
    rw [minor]
    decide
  show ({ keepAlive := decide (1 ≤ line.minor - cZero), contentLength := -1, isChunked := false } : ResponseFraming) = _
  rw [newest]
  rfl

theorem oneHead_of_clean (clean : cLF ∉ raw) (writable : ∀ header ∈ headers, Writable header) (ended : IsLineEnd ending)
    (same : raw ++ (crlf ++ (headers.flatMap headerBytes ++ crlf)) =
      line.text.bytes ++ (line.ending ++ (linesBytes lines ++ (ending ++ rest)))) :
    lines.length = headers.length ∧ rest = [] := by
  have ends : Terminated (raw ++ crlf) := IsLineEnd.terminated (Or.inl rfl) clean
  rw [← append_assoc, ← append_assoc line.text.bytes] at same
  obtain ⟨-, further⟩ := ends.eq (line.text.terminated line.ended).1 same
  exact lines_of_headers writable ended further

theorem splits_of_accepted {tail : Bytes} {start : Nat} {last : ResponseFraming} (some : cLF ∈ raw)
    (ended : IsLineEnd ending)
    (same : raw ++ (crlf ++ tail) = line.text.bytes ++ (line.ending ++ (linesBytes lines ++ (ending ++ rest))))
    (framed : (located start lines).foldlM frameResponse ({} : ResponseHead).framing = .ok last)
    (consistent : (last.isChunked && last.sawContentLength) = false) : Splits raw := by
  rw [← append_assoc line.text.bytes] at same
  obtain ⟨more, rfl, further⟩ := (line.text.terminated line.ended).1.within same.symm some
  obtain ⟨before, after, ending', rest', rfl, ended', whole⟩ := exists_shorter ended further.symm
  rw [located_append, foldlM_append] at framed
  cases run : (located start before).foldlM frameResponse ({} : ResponseHead).framing with
  | error e =>
    rw [run] at framed
    cases framed
  | ok mid =>
    rw [run] at framed
    obtain ⟨chunked, length⟩ := foldlM_frameResponse_mono framed
    rw [foldlM_frameResponse, ← foldlM_frameResponse 0] at run
    refine ⟨line.text, line.ending, more, before, ending', rest', mid, append_assoc _ _ _,
      line.ended, whole, ended', run, ?_⟩
    cases both : mid.isChunked && mid.sawContentLength with
    | false => rfl
    | true =>
      rw [Bool.and_eq_true] at both
      rw [chunked both.1, length both.2] at consistent
      cases consistent

theorem Splits.not_oneHead (splits : Splits raw) : ∃ out maxHeadSize maxHeaders, writeResponse raw [] = (true, out) ∧
      ¬ OneHead out 0 (parse out maxHeadSize maxHeaders {}) := by
  obtain ⟨text, ending, more, lines, ending', rest, last, rfl, ended, whole, ended', framed, consistent⟩ := splits
  set line : StatusLine := ⟨⟨[], 49, fun _ member => absurd member not_mem_nil, by decide⟩, text,
    ending, ended⟩ with defined
  have written : writeResponse (text.bytes ++ (ending ++ more)) [] =
      (true, line.bytes ++ (linesBytes lines ++ (ending' ++ rest))) := by
    rw [← whole]
    show (true, ([] ++ (ascii "HTTP/1.1 " ++ (text.bytes ++ (ending ++ more) ++ crlf))) ++ crlf) =
      (true, (ascii "HTTP/1.1 " ++ (text.bytes ++ ending)) ++ (more ++ (crlf ++ crlf)))
    simp
  refine ⟨_, (line.bytes ++ linesBytes lines).length, lines.length, written, ?_⟩
  have accepted : AcceptedResponse ((line.bytes ++ linesBytes lines).length : Nat) (lines.length : Nat) {}
      (line.bytes ++ (linesBytes lines ++ (ending' ++ rest))) line lines ending' rest last := by
    refine ⟨rfl, ended', ⟨?_, Room.of_le (le_refl _), ?_⟩, consistent⟩
    · rw [length_append]
    · rw [StatusLine.framing_written rfl, foldlM_frameResponse, ← foldlM_frameResponse 0]
      exact framed
  rw [HTTPResponseParser.parse_complete.mpr ⟨line, lines, ending', rest, last, accepted, rfl, rfl⟩]
  rintro ⟨ends, count⟩
  change (line.bytes ++ (linesBytes lines ++ ending')).length =
    (line.bytes ++ (linesBytes lines ++ (ending' ++ rest))).length at ends
  have none : lines = [] := length_eq_zero_iff.mp count
  subst none
  have long := congrArg List.length whole
  have short : ending'.length ≤ 2 := by
    rcases ended' with rfl | rfl
    · exact le_refl _
    · decide
  simp only [length_append, linesBytes_nil, length_nil] at ends long
  change more.length + (2 + 2) = 0 + (ending'.length + rest.length) at long
  omega

/-- Whatever is written with a status text is read as one head, unless the text itself holds more. -/
theorem response_whole_iff (raw : Bytes) :
    (∀ headers out, writeResponse raw headers = (true, out) → ∀ maxHeadSize maxHeaders : Int,
      OneHead out headers.length (parse out maxHeadSize maxHeaders {})) ↔
      ¬ Splits raw := by
  constructor
  · intro whole splits
    obtain ⟨out, maxHeadSize, maxHeaders, written, more⟩ := splits.not_oneHead
    exact more (whole [] out written maxHeadSize maxHeaders)
  · intro single headers out written maxHeadSize maxHeaders
    obtain ⟨writable, rfl⟩ := writeResponse_true written
    obtain ⟨text, ends⟩ := written_ends raw headers
    have long : 3 ≤ (raw ++ (crlf ++ (headers.flatMap headerBytes ++ crlf))).length := by
      rw [ends, List.length_append]
      exact Nat.le_add_left _ _
    cases result : parse _ maxHeadSize maxHeaders {} with
    | incomplete => exact HTTPResponseParser.parse_ne_incomplete long ends result
    | failure e => exact trivial
    | complete head refs =>
      obtain ⟨line, lines, ending, rest, last, ⟨whole, ended, accepted, consistent⟩, rfl, -⟩ :=
        HTTPResponseParser.parse_complete.mp result
      obtain ⟨-, minor, same⟩ := StatusLine.of_written whole
      have framed := accepted.framed
      rw [StatusLine.framing_written minor] at framed
      by_cases some : cLF ∈ raw
      · exact absurd (splits_of_accepted some ended same framed consistent) single
      obtain ⟨count, rfl⟩ := oneHead_of_clean some writable ended same
      refine ⟨?_, count⟩
      rw [whole, List.append_nil]
      rfl

/-- An ordinary status text does not split, whatever headers go with it. -/
theorem response_whole_iff_ok : cLF ∉ ascii "200 OK" ∧
    ∀ headers out, writeResponse (ascii "200 OK") headers = (true, out) →
      ∀ maxHeadSize maxHeaders : Int, OneHead out headers.length (parse out maxHeadSize maxHeaders {}) := by
  have clean : cLF ∉ ascii "200 OK" := by decide
  exact ⟨clean, (response_whole_iff (ascii "200 OK")).mpr fun splits => clean splits.mem_lf⟩

/-- A status text with a line end adds a field, and one with an empty line ends the head. -/
theorem status_text_splits :
    writeResponse (ascii "200 OK\r\nA: b") [] = (true, ascii "HTTP/1.1 200 OK\r\nA: b\r\n\r\n") ∧
      parse (ascii "HTTP/1.1 200 OK\r\nA: b\r\n\r\n") 8192 100 {} =
        .complete { status := 200, reason := .of 13 2, headerCount := 1, headEnd := 25 }
          [⟨.of 17 1, .of 20 1, nameHash (ascii "A")⟩] ∧
      writeResponse (ascii "200 OK\r\n\r\nbody") [] = (true, ascii "HTTP/1.1 200 OK\r\n\r\nbody\r\n\r\n") ∧
      parse (ascii "HTTP/1.1 200 OK\r\n\r\nbody\r\n\r\n") 8192 100 {} =
        .complete { status := 200, reason := .of 13 2, headEnd := 19 } [] := by
  refine ⟨?_, ?_, ?_, ?_⟩ <;> decide +kernel

end AvianCore.Http
