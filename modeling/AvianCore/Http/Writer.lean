import AvianCore.Http.Framing

/-!
The writers of heads (`HTTPRequestWriter.swift`, `HTTPResponse.swift`). A call appends to a buffer and
says whether it did. Whatever is written as a field is a line of the grammar of the parsers, but for
its name, which may be empty.
-/

namespace AvianCore.Http
open List

/-- What `writeHeader` appends. -/
def headerBytes (field : Bytes × Bytes) : Bytes := field.1 ++ cColon :: cSP :: (field.2 ++ crlf)

namespace HTTPResponseWriter

/-- `writeStatusLine` with the text of the application. -/
def writeStatusLine (buf raw : Bytes) : Bytes := buf ++ (ascii "HTTP/1.1 " ++ (raw ++ crlf))

def writeHeader (buf name value : Bytes) : Bool × Bytes :=
  if name.all isTokenChar = false then (false, buf)
  else if value.all isFieldValueChar = false then (false, buf)
  else (true, buf ++ headerBytes (name, value))

def endHead (buf : Bytes) : Bytes := buf ++ crlf

end HTTPResponseWriter

/-- The check that `writeHeader` makes. -/
structure Writable (field : Bytes × Bytes) : Prop where
  token : ∀ c ∈ field.1, isTokenChar c = true
  proper : ∀ c ∈ field.2, isFieldValueChar c = true

theorem HTTPResponseWriter.writeHeader_eq (buf name value : Bytes) :
    (Writable (name, value) ∧ writeHeader buf name value = (true, buf ++ headerBytes (name, value))) ∨
      (¬ Writable (name, value) ∧ writeHeader buf name value = (false, buf)) := by
  unfold writeHeader
  by_cases token : name.all isTokenChar = false
  · right
    rw [if_pos token]
    refine ⟨fun writable => ?_, rfl⟩
    rw [all_eq_true.mpr writable.token] at token
    cases token
  rw [if_neg token]
  by_cases proper : value.all isFieldValueChar = false
  · right
    rw [if_pos proper]
    refine ⟨fun writable => ?_, rfl⟩
    rw [all_eq_true.mpr writable.proper] at proper
    cases proper
  rw [if_neg proper]
  rw [Bool.not_eq_false] at token proper
  exact .inl ⟨⟨all_eq_true.mp token, all_eq_true.mp proper⟩, rfl⟩

theorem isLineEnd_crlf : IsLineEnd crlf := Or.inl rfl

def Writable.line {field : Bytes × Bytes} (writable : Writable field) (named : field.1 ≠ []) : Line where
  name := field.1
  space := cSP :: field.2.takeWhile isBlank
  run := field.2.dropWhile isBlank
  ending := crlf
  named := named
  token := writable.token
  blank := by
    intro c member
    rcases List.mem_cons.mp member with rfl | inside
    · decide
    · exact List.mem_takeWhile_imp inside
  solid := by
    intro c first
    have stop := List.head?_dropWhile_not isBlank field.2
    rw [first] at stop
    simpa using stop
  proper := fun c member => writable.proper c ((List.dropWhile_sublist _).subset member)
  ended := isLineEnd_crlf

theorem Writable.bytes_line {field : Bytes × Bytes} (writable : Writable field) (named : field.1 ≠ []) :
    (writable.line named).bytes = headerBytes field := by
  show field.1 ++ cColon :: (cSP :: field.2.takeWhile isBlank ++ (field.2.dropWhile isBlank ++ crlf)) =
    headerBytes field
  rw [cons_append, ← append_assoc, takeWhile_append_dropWhile]
  rfl

theorem exists_lines {fields : List (Bytes × Bytes)} (writable : ∀ field ∈ fields, Writable field ∧ field.1 ≠ []) :
    ∃ lines : List Line, linesBytes lines = fields.flatMap headerBytes ∧
      (lines.map fun line => (line.name, line.value)) = fields.map fun field => (field.1, trim field.2) := by
  induction fields with
  | nil => exact ⟨[], rfl, rfl⟩
  | cons field rest ih =>
    obtain ⟨good, named⟩ := writable field mem_cons_self
    obtain ⟨lines, bytes, texts⟩ := ih fun other member => writable other (mem_cons_of_mem _ member)
    refine ⟨good.line named :: lines, ?_, ?_⟩
    · rw [linesBytes_cons, good.bytes_line, bytes]
      rfl
    · rw [map_cons, texts]
      rfl

def andThen (done : Bool × Bytes) (call : Bytes → Bool × Bytes) : Bool × Bytes :=
  if done.1 then call done.2 else done

def writeEach (call : Bytes → Bytes × Bytes → Bool × Bytes) (buf : Bytes)
    (headers : List (Bytes × Bytes)) : Bool × Bytes :=
  headers.foldl (fun done header => andThen done fun buf => call buf header) (true, buf)

theorem andThen_true {done : Bool × Bytes} {call : Bytes → Bool × Bytes} {out : Bytes}
    (written : andThen done call = (true, out)) :
    ∃ buf, done = (true, buf) ∧ call buf = (true, out) := by
  unfold andThen at written
  obtain ⟨ok, buf⟩ := done
  cases ok with
  | true => exact ⟨buf, rfl, written⟩
  | false => cases written

section WriteEach
variable {call : Bytes → Bytes × Bytes → Bool × Bytes} {P : Bytes × Bytes → Prop} {buf out : Bytes}
  {headers : List (Bytes × Bytes)}

theorem foldl_refused : headers.foldl (fun done header => andThen done fun buf => call buf header)
    (false, buf) = (false, buf) := by
  induction headers with
  | nil => rfl
  | cons header rest ih => exact ih

theorem writeEach_true (cases : ∀ buf header, call buf header = (false, buf) ∨
    (P header ∧ call buf header = (true, buf ++ headerBytes header)))
    (written : writeEach call buf headers = (true, out)) :
    (∀ header ∈ headers, P header) ∧ out = buf ++ headers.flatMap headerBytes := by
  unfold writeEach at written
  induction headers generalizing buf with
  | nil =>
    cases written
    exact ⟨fun header member => absurd member not_mem_nil, (append_nil _).symm⟩
  | cons header rest ih =>
    rw [foldl_cons] at written
    change rest.foldl _ (call buf header) = (true, out) at written
    rcases cases buf header with refused | ⟨given, done⟩
    · rw [refused, foldl_refused] at written
      cases written
    rw [done] at written
    obtain ⟨all, bytes⟩ := ih written
    refine ⟨?_, ?_⟩
    · intro other member
      rcases mem_cons.mp member with rfl | later
      · exact given
      · exact all other later
    · rw [bytes, flatMap_cons, append_assoc]

theorem writeEach_writeHeader :
    writeEach (fun buf field => HTTPResponseWriter.writeHeader buf field.1 field.2) buf headers = (true, out) ↔
      (∀ field ∈ headers, Writable field) ∧ out = buf ++ headers.flatMap headerBytes := by
  constructor
  · refine writeEach_true fun buf field => ?_
    rcases HTTPResponseWriter.writeHeader_eq buf field.1 field.2 with good | ⟨-, refused⟩
    · exact .inr good
    · exact .inl refused
  · rintro ⟨writable, rfl⟩
    induction headers generalizing buf with
    | nil => simp [writeEach]
    | cons field rest ih =>
      rw [forall_mem_cons] at writable
      rcases HTTPResponseWriter.writeHeader_eq buf field.1 field.2 with ⟨-, done⟩ | ⟨bad, -⟩
      · rw [flatMap_cons, ← append_assoc, ← ih writable.2, writeEach, foldl_cons, andThen, if_pos rfl, done]
        rfl
      · exact absurd writable.1 bad

end WriteEach

/-- The sets of kinds in which a name is recognised. -/
structure RequestHeaderKind where
  rawValue : UInt8
deriving DecidableEq, Repr

namespace RequestHeaderKind

def none : RequestHeaderKind := ⟨0⟩
def host : RequestHeaderKind := ⟨(1 : UInt8) <<< 0⟩
def contentLength : RequestHeaderKind := ⟨(1 : UInt8) <<< 1⟩
def transferEncoding : RequestHeaderKind := ⟨(1 : UInt8) <<< 2⟩
def connection : RequestHeaderKind := ⟨(1 : UInt8) <<< 3⟩
def userAgent : RequestHeaderKind := ⟨(1 : UInt8) <<< 4⟩
def acceptEncoding : RequestHeaderKind := ⟨(1 : UInt8) <<< 5⟩
def expect : RequestHeaderKind := ⟨(1 : UInt8) <<< 6⟩

def managed : RequestHeaderKind :=
  ⟨host.rawValue ||| contentLength.rawValue ||| transferEncoding.rawValue ||| connection.rawValue⟩

def isDisjoint (kind other : RequestHeaderKind) : Bool := kind.rawValue &&& other.rawValue = 0

end RequestHeaderKind

def Method.token : Method → Option Bytes
  | .get => some (ascii "GET")
  | .head => some (ascii "HEAD")
  | .post => some (ascii "POST")
  | .put => some (ascii "PUT")
  | .delete => some (ascii "DELETE")
  | .patch => some (ascii "PATCH")
  | .options => some (ascii "OPTIONS")
  | .connect => some (ascii "CONNECT")
  | .trace => some (ascii "TRACE")
  | .other => none

theorem Method.classifyMethod_token {method : Method} {token : Bytes}
    (named : method.token = some token) : classifyMethod token = method := by
  cases method <;> cases named <;> decide

def isRequestTargetChar (c : UInt8) : Bool := 0x20 < c && c < 0x7f

namespace HTTPRequestWriter

def writeRequestLine (buf method target : Bytes) : Bool × Bytes :=
  if method = [] ∨ target = [] then (false, buf)
  else if method.all isTokenChar = false then (false, buf)
  else if target.all isRequestTargetChar = false then (false, buf)
  else (true, buf ++ (method ++ cSP :: (target ++ ascii " HTTP/1.1\r\n")))

/-- `writeRequestLine` for a method that has a name. -/
def writeKnownRequestLine (buf : Bytes) (method : Method) (target : Bytes) : Bool × Bytes :=
  match method.token with
  | none => (false, buf)
  | some token => writeRequestLine buf token target

def writeHost (buf authority : Bytes) : Bool × Bytes :=
  if authority = [] then (false, buf)
  else if authority.all isRequestTargetChar = false then (false, buf)
  else (true, buf ++ (ascii "Host: " ++ (authority ++ crlf)))

def classify (name : Bytes) : RequestHeaderKind :=
  match name.length with
  | 4 => if equalsLowercased name (ascii "host") then .host else .none
  | 6 => if equalsLowercased name (ascii "expect") then .expect else .none
  | 10 =>
    if equalsLowercased name (ascii "connection") then .connection
    else if equalsLowercased name (ascii "user-agent") then .userAgent
    else .none
  | 14 => if equalsLowercased name (ascii "content-length") then .contentLength else .none
  | 15 => if equalsLowercased name (ascii "accept-encoding") then .acceptEncoding else .none
  | 17 => if equalsLowercased name (ascii "transfer-encoding") then .transferEncoding else .none
  | _ => .none

def writeHeader (buf name value : Bytes) : Bool × Bytes := HTTPResponseWriter.writeHeader buf name value

def writeUserHeader (buf name value : Bytes) : Bool × Bytes :=
  if (classify name).isDisjoint .managed = false then (false, buf)
  else writeHeader buf name value

def writeContentLength (buf : Bytes) (n : Nat) : Bytes := buf ++ (ascii "Content-Length: " ++ (writeDecimal n ++ crlf))

def writeChunkedEncoding (buf : Bytes) : Bytes := buf ++ ascii "Transfer-Encoding: chunked\r\n"

def writeConnection (buf : Bytes) (keepAlive : Bool) : Bytes :=
  buf ++ if keepAlive then ascii "Connection: keep-alive\r\n" else ascii "Connection: close\r\n"

def endHead (buf : Bytes) : Bytes := buf ++ crlf

end HTTPRequestWriter

end AvianCore.Http
