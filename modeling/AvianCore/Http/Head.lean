import AvianCore.Http.Bytes

/-!
Message heads (`HTTPRequest.swift`, `HTTPResponseParser.swift`), character classes, and the helpers that
both parsers read fields with (`Bytes.swift`, `HTTPParser.swift`).
-/

namespace AvianCore.Http

/-- A range in the buffer, in 32 bits. -/
structure Slice where
  offset : UInt32 := 0
  length : UInt32 := 0
deriving DecidableEq, Repr

def Slice.of (offset length : Nat) : Slice := ⟨UInt32.ofNat offset, UInt32.ofNat length⟩

/-- `span(in:)`. -/
def Slice.text (slice : Slice) (base : Bytes) : Bytes := (base.drop slice.offset.toNat).take slice.length.toNat

structure HeaderRef where
  name : Slice
  value : Slice
  nameHash : UInt32
deriving DecidableEq, Repr

inductive Method
  | get | head | post | put | delete | patch | options | connect | trace | other
deriving DecidableEq, Repr

structure RequestFlags where
  keepAlive : Bool := false
  chunked : Bool := false
  expectContinue : Bool := false
  hasHost : Bool := false
  upgrade : Bool := false
  hasContentLength : Bool := false
  escapedPath : Bool := false
deriving DecidableEq, Repr

structure RequestHead where
  method : Method := .other
  methodSlice : Slice := {}
  target : Slice := {}
  path : Slice := {}
  query : Slice := {}
  httpMinor : UInt8 := 1
  httpMajor : UInt8 := 1
  headerCount : Nat := 0
  contentLength : Int := -1
  flags : RequestFlags := {}
  headEnd : Nat := 0
deriving DecidableEq, Repr

structure ResponseHead where
  status : Nat := 0
  reason : Slice := {}
  httpMajor : UInt8 := 1
  httpMinor : UInt8 := 1
  headerCount : Nat := 0
  contentLength : Int := -1
  isChunked : Bool := false
  keepAlive : Bool := true
  headEnd : Nat := 0
deriving DecidableEq, Repr

/-- What a parser returns, with the head and the field table it has filled in when that is all. -/
inductive ParseResult (Head : Type)
  | incomplete
  | complete (head : Head) (headers : List HeaderRef)
  | failure (e : ParseError)
deriving DecidableEq, Repr

def isTokenChar (c : UInt8) : Bool :=
  if c < 64 then Nat.testBit 0x03FF6CFA00000000 c.toNat
  else if c < 128 then Nat.testBit 0x57FFFFFFC7FFFFFE (c - 64).toNat
  else false

def isFieldValueChar (c : UInt8) : Bool := if 0x20 ≤ c then c ≠ 0x7F else c = cHT

def isBlank (c : UInt8) : Bool := c = cSP || c = cHT

def isBreak (c : UInt8) : Bool := c = cCR || c = cLF

def isDigit (c : UInt8) : Bool := cZero ≤ c && c ≤ cNine

def asciiLower (c : UInt8) : UInt8 := if c - 65 < 26 then c ||| 0x20 else c

def equalsLowercased (p literal : Bytes) : Bool := p.map asciiLower = literal

def trim (p : Bytes) : Bytes := (p.dropWhile isBlank).rdropWhile isBlank

def endsToken (c : UInt8) : Bool := c = cComma || c = cSP || c = cHT

/-- `containsTokenLowercased`. -/
def containsTokenLowercased (p needle : Bytes) : Bool :=
  if needle.length = 0 ∨ p.length < needle.length then false
  else
    (List.range (p.length - needle.length + 1)).any fun i =>
      equalsLowercased ((p.drop i).take needle.length) needle &&
        (i = 0 || (p[i - 1]?).any endsToken) &&
        (i + needle.length = p.length ||
          (p[i + needle.length]?).any fun c => endsToken c || c = cSemicolon)

/-- The loop of `containsToken` in the response parser. -/
def tokenLoop (token : Bytes) : Nat → Bytes → Bool
  | 0, _ => false
  | fuel + 1, p =>
    if p = [] then false
    else
      let element := p.dropWhile endsToken
      if equalsLowercased ((element.takeWhile (· ≠ cComma)).rdropWhile isBlank) token then true
      else tokenLoop token fuel (element.dropWhile (· ≠ cComma))

/-- `containsToken` in the response parser; every turn of the loop moves on. -/
def containsToken (p token : Bytes) : Bool := tokenLoop token p.length p

/-- `parseDecimal` of `Bytes.swift`, with arithmetic that wraps. -/
def decimalLoop : Int → Bytes → Int
  | v, [] => v
  | v, d :: rest =>
    if d < cZero ∨ cNine < d then -1
    else
      let v := ((v * 10).bmod (2 ^ 64) + (d - cZero).toNat).bmod (2 ^ 64)
      if v < 0 then -1 else decimalLoop v rest

def parseDecimal (p : Bytes) : Int := if p.length = 0 ∨ 19 < p.length then -1 else decimalLoop 0 p

/-- `parseDecimal` of the response parser. -/
def parseLength (p : Bytes) : Option Nat :=
  if p.length = 0 ∨ 18 < p.length then none
  else
    p.foldlM (fun v d => if isDigit d then some (v * 10 + (d - cZero).toNat) else none) 0

/-- `checkTransferEncoding`: the elements between commas are looked at in turn. -/
def checkTransferEncoding (p : Bytes) : Option ParseError :=
  let (codings, lastIsChunked) := (p.splitOn cComma).foldl (fun (seen : Nat × Bool) element =>
    if trim element ≠ [] then (seen.1 + 1, equalsLowercased (trim element) (ascii "chunked"))
    else seen) (0, false)
  if codings = 0 ∨ lastIsChunked = false then some .conflictingFraming
  else if codings = 1 then none
  else some .unsupportedTransferEncoding

/-- `endsWithChunked` in the response parser. -/
def endsWithChunked (p : Bytes) : Bool :=
  equalsLowercased (((p.rdropWhile isBlank).rtakeWhile (· ≠ cComma)).dropWhile isBlank)
    (ascii "chunked")

def hasPercent (p : Bytes) : Bool := p.contains cPercent

def classifyMethod (p : Bytes) : Method :=
  if p = ascii "GET" then .get
  else if p = ascii "PUT" then .put
  else if p = ascii "POST" then .post
  else if p = ascii "HEAD" then .head
  else if p = ascii "PATCH" then .patch
  else if p = ascii "TRACE" then .trace
  else if p = ascii "DELETE" then .delete
  else if p = ascii "OPTIONS" then .options
  else if p = ascii "CONNECT" then .connect
  else .other

end AvianCore.Http
