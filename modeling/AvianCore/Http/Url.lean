import AvianCore.Http.ReadBack

/-!
Absolute URLs (`HTTPURL.swift`). The URLs that are accepted are described by their parts; an accepted
one can be written as a request, and read again from what is written it names the same place.
-/

namespace AvianCore.Http
open List

def cSlash : UInt8 := 47
def cHash : UInt8 := 35
def cAt : UInt8 := 64

inductive HTTPURLScheme
  | http | https
deriving DecidableEq, Repr

def HTTPURLScheme.defaultPort : HTTPURLScheme → UInt16
  | .http => 80
  | .https => 443

inductive HTTPURLError
  | scheme | authority | port | brackets | userinfo | illegalByte
deriving DecidableEq, Repr

structure HTTPURL where
  scheme : HTTPURLScheme := .http
  host : Slice := {}
  hostForField : Slice := {}
  port : UInt16 := 80
  hasExplicitPort : Bool := false
  target : Slice := {}
  needsLeadingSlash : Bool := false
deriving DecidableEq, Repr

def isIllegalByte (c : UInt8) : Bool := c ≤ 0x20 || 0x7f ≤ c

def readScheme (base : Bytes) : Except HTTPURLError (HTTPURLScheme × Nat) :=
  let colon := (base.takeWhile (· ≠ cColon)).length
  if base.length ≤ colon then .error .scheme
  else
    match colon with
    | 4 => if equalsLowercased (base.take 4) (ascii "http") then .ok (.http, 4) else .error .scheme
    | 5 => if equalsLowercased (base.take 5) (ascii "https") then .ok (.https, 5) else .error .scheme
    | _ => .error .scheme

def isAuthorityByte (c : UInt8) : Bool := c ≠ cSlash && c ≠ cQuestion && c ≠ cHash

/-- Places in an authority. -/
structure HostPlaces where
  hostStart : Nat
  hostEnd : Nat
  fieldEnd : Nat
  portStart : Option Nat
deriving DecidableEq, Repr

/-- The host of an authority that starts with a bracket, which closes at a place. -/
def readBracketed (authority : Bytes) (close : Nat) : Except HTTPURLError HostPlaces :=
  if authority.length ≤ close then .error .brackets
  else if close = 1 then .error .authority
  else if close + 1 < authority.length then
    if authority[close + 1]? = some cColon then .ok ⟨1, close, close + 1, some (close + 2)⟩
    else .error .port
  else .ok ⟨1, close, close + 1, none⟩

def readPlain (authority : Bytes) (colon : Nat) : Except HTTPURLError HostPlaces :=
  if colon = 0 then .error .authority
  else .ok ⟨0, colon, colon, if colon < authority.length then some (colon + 1) else none⟩

def readHost (authority : Bytes) : Except HTTPURLError HostPlaces :=
  if authority.head? = some cLeftBracket then
    readBracketed authority (1 + ((authority.drop 1).takeWhile (· ≠ cRightBracket)).length)
  else readPlain authority (authority.takeWhile (· ≠ cColon)).length

def portDigit (value : Nat) (c : UInt8) : Except HTTPURLError Nat :=
  if cZero ≤ c ∧ c ≤ cNine then
    if 65535 < value * 10 + (c - cZero).toNat then .error .port
    else .ok (value * 10 + (c - cZero).toNat)
  else .error .port

def readPort (digits : Bytes) : Except HTTPURLError Nat :=
  if digits = [] then .error .port else digits.foldlM portDigit 0

def HTTPURL.withPort (url : HTTPURL) (start : Nat) (authority : Bytes) (portStart : Option Nat) :
    Except HTTPURLError HTTPURL :=
  match portStart with
  | none => .ok url
  | some place => do
    let value ← readPort (authority.drop place)
    return { url with
      port := UInt16.ofNat value
      hasExplicitPort := true
      hostForField := if value ≠ url.scheme.defaultPort.toNat then .of start authority.length
        else url.hostForField }

def HTTPURL.withTarget (url : HTTPURL) (start : Nat) (rest : Bytes) : HTTPURL :=
  let target := rest.takeWhile (· ≠ cHash)
  if target = [] then { url with needsLeadingSlash := true, target := {} }
  else if target.head? = some cQuestion then
    { url with needsLeadingSlash := true, target := .of start target.length }
  else { url with target := .of start target.length }

def HTTPURL.readAuthority (scheme : HTTPURLScheme) (start : Nat) (rest : Bytes) :
    Except HTTPURLError HTTPURL :=
  let authority := rest.takeWhile isAuthorityByte
  if authority = [] then .error .authority
  else if authority.contains cAt then .error .userinfo
  else do
    let places ← readHost authority
    let url : HTTPURL := {
      scheme := scheme
      host := .of (start + places.hostStart) (places.hostEnd - places.hostStart)
      hostForField := .of start places.fieldEnd
      port := scheme.defaultPort }
    let url ← url.withPort start authority places.portStart
    return url.withTarget (start + authority.length) (rest.drop authority.length)

def HTTPURL.parse (base : Bytes) : Except HTTPURLError HTTPURL :=
  if base.any isIllegalByte then .error .illegalByte
  else do
    let (scheme, colon) ← readScheme base
    if (base.drop (colon + 1)).take 2 ≠ [cSlash, cSlash] then .error .authority
    else HTTPURL.readAuthority scheme (colon + 3) (base.drop (colon + 3))

/-- A host, in brackets or not, with the digits of a port if one follows. -/
structure Authority where
  bracketed : Bool
  host : Bytes
  digits : Option Bytes
  hosted : host ≠ []
  inside : bracketed = true → cRightBracket ∉ host
  plain : bracketed = false → cColon ∉ host ∧ host.head? ≠ some cLeftBracket

namespace Authority
variable (authority : Authority)

/-- The host as it stands in a `Host` field. -/
def name : Bytes :=
  if authority.bracketed then cLeftBracket :: (authority.host ++ [cRightBracket]) else authority.host

def bytes : Bytes := authority.name ++ authority.digits.elim [] (cColon :: ·)

def offset : Nat := if authority.bracketed then 1 else 0

def places : HostPlaces where
  hostStart := authority.offset
  hostEnd := authority.offset + authority.host.length
  fieldEnd := authority.name.length
  portStart := authority.digits.map fun _ => authority.name.length + 1

end Authority

theorem exists_cut (P : UInt8 → Bool) (text : Bytes) : ∃ front back, text = front ++ back ∧
    (∀ c ∈ front, P c = true) ∧ (∀ c ∈ back.head?, P c = false) := by
  refine ⟨text.takeWhile P, text.dropWhile P, takeWhile_append_dropWhile.symm,
    fun c member => mem_takeWhile_imp member, ?_⟩
  intro c first
  have stop := List.head?_dropWhile_not P text
  rw [first] at stop
  simpa using stop

theorem head_of_stop {d : UInt8} {back : Bytes} (stop : ∀ c ∈ back.head?, decide (c ≠ d) = false) :
    back = [] ∨ ∃ rest, back = d :: rest := by
  cases back with
  | nil => exact .inl rfl
  | cons c rest =>
    right
    have same := stop c rfl
    simp only [ne_eq, decide_not, Bool.not_eq_false', decide_eq_true_eq] at same
    exact ⟨rest, by rw [same]⟩

variable {text : Bytes}

theorem notMem_of_all {d : UInt8} (all : ∀ c ∈ text, decide (c ≠ d) = true) : d ∉ text := by
  intro inside
  simpa using all d inside

theorem all_of_notMem {d : UInt8} (absent : d ∉ text) : ∀ c ∈ text, decide (c ≠ d) = true := by
  intro c member
  simp only [ne_eq, decide_eq_true_eq]
  rintro rfl
  exact absent member

theorem readHost_bytes (authority : Authority) : readHost authority.bytes = .ok authority.places := by
  obtain ⟨bracketed, host, digits, hosted, inside, plain⟩ := authority
  have positive := length_pos_iff.mpr hosted
  cases bracketed with
  | true =>
    have close : (host ++ (cRightBracket :: digits.elim [] (cColon :: ·))).takeWhile (· ≠ cRightBracket) = host :=
      takeWhile_cut (all_of_notMem (inside rfl)) (by simp)
    have text : (Authority.mk true host digits hosted inside plain).bytes =
        cLeftBracket :: (host ++ (cRightBracket :: digits.elim [] (cColon :: ·))) := by
      simp [Authority.bytes, Authority.name]
    rw [text, readHost, List.head?_cons, if_pos rfl, drop_succ_cons, drop_zero, close, readBracketed,
      if_neg (by simp only [length_cons, length_append]; omega), if_neg (by omega)]
    cases digits with
    | none =>
      rw [if_neg (by simp)]
      simp [Authority.places, Authority.offset, Authority.name]
      omega
    | some digits =>
      have colon : (cLeftBracket :: (host ++ (cRightBracket :: cColon :: digits)))[1 + host.length + 1]? =
          some cColon := by
        rw [show 1 + host.length + 1 = (host.length + 1) + 1 by omega, List.getElem?_cons_succ,
          List.getElem?_append_right (by omega)]
        simp
      rw [if_pos (by simp; omega), Option.elim_some, if_pos colon]
      simp [Authority.places, Authority.offset, Authority.name]
      omega
  | false =>
    obtain ⟨clean, open'⟩ := plain rfl
    have colon : (host ++ digits.elim [] (cColon :: ·)).takeWhile (· ≠ cColon) = host := by
      apply takeWhile_cut (all_of_notMem clean)
      intro c first
      cases digits with
      | none => cases first
      | some digits =>
        cases first
        decide
    have text : (Authority.mk false host digits hosted inside plain).bytes = host ++ digits.elim [] (cColon :: ·) := rfl
    have first : (host ++ digits.elim [] (cColon :: ·)).head? ≠ some cLeftBracket := by
      rw [List.head?_append_of_ne_nil _ hosted]
      exact open'
    rw [text, readHost, if_neg first, colon, readPlain, if_neg (by omega)]
    cases digits with
    | none | some digits => simp [Authority.places, Authority.offset, Authority.name]

theorem readHost_ok {places : HostPlaces} (read : readHost text = .ok places) :
    ∃ authority : Authority, text = authority.bytes := by
  unfold readHost at read
  by_cases bracket : text.head? = some cLeftBracket
  · rw [if_pos bracket] at read
    obtain ⟨rest, rfl⟩ : ∃ rest, text = cLeftBracket :: rest := by
      cases text with
      | nil => cases bracket
      | cons c rest =>
        cases bracket
        exact ⟨rest, rfl⟩
    obtain ⟨host, back, rfl, all, stop⟩ := exists_cut (· ≠ cRightBracket) rest
    rw [drop_succ_cons, drop_zero, takeWhile_cut all stop, readBracketed] at read
    rcases head_of_stop stop with rfl | ⟨rest, rfl⟩
    · rw [if_pos (by simp)] at read
      cases read
    rw [if_neg (by simp only [length_cons, length_append]; omega)] at read
    by_cases empty : 1 + host.length = 1
    · rw [if_pos empty] at read
      cases read
    rw [if_neg empty] at read
    have hosted : host ≠ [] := by
      rintro rfl
      exact empty rfl
    cases rest with
    | nil =>
      exact ⟨⟨true, host, none, hosted, fun _ => notMem_of_all all, fun plain => by cases plain⟩,
        by simp [Authority.bytes, Authority.name]⟩
    | cons c digits =>
      rw [if_pos (by simp; omega)] at read
      have here : (cLeftBracket :: (host ++ (cRightBracket :: c :: digits)))[1 + host.length + 1]? = some c := by
        rw [show 1 + host.length + 1 = (host.length + 1) + 1 by omega, List.getElem?_cons_succ,
          List.getElem?_append_right (by omega)]
        simp
      rw [here] at read
      by_cases colon : some c = some cColon
      · cases colon
        exact ⟨⟨true, host, some digits, hosted, fun _ => notMem_of_all all,
          fun plain => by cases plain⟩, by simp [Authority.bytes, Authority.name]⟩
      · rw [if_neg colon] at read
        cases read
  · rw [if_neg bracket] at read
    obtain ⟨host, back, rfl, all, stop⟩ := exists_cut (· ≠ cColon) text
    rw [takeWhile_cut all stop, readPlain] at read
    by_cases empty : host.length = 0
    · rw [if_pos empty] at read
      cases read
    have hosted : host ≠ [] := by
      rintro rfl
      exact empty rfl
    rw [List.head?_append_of_ne_nil _ hosted] at bracket
    rcases head_of_stop stop with rfl | ⟨digits, rfl⟩
    · exact ⟨⟨false, host, none, hosted, fun brackets => absurd brackets Bool.false_ne_true,
        fun _ => ⟨notMem_of_all all, bracket⟩⟩, rfl⟩
    · exact ⟨⟨false, host, some digits, hosted, fun brackets => absurd brackets Bool.false_ne_true,
        fun _ => ⟨notMem_of_all all, bracket⟩⟩, rfl⟩

variable {digits : Bytes}

theorem foldlM_portDigit {v w : Nat} (small : v ≤ 65535) : digits.foldlM portDigit v = .ok w ↔
    (∀ d ∈ digits, isDigit d = true) ∧ w = digitsFrom v digits ∧ w ≤ 65535 := by
  induction digits generalizing v with
  | nil =>
    constructor
    · intro read
      cases read
      exact ⟨fun d member => absurd member not_mem_nil, rfl, small⟩
    · rintro ⟨-, rfl, -⟩
      rfl
  | cons d rest ih =>
    rw [foldlM_cons, digitsFrom_cons, forall_mem_cons]
    by_cases digit : cZero ≤ d ∧ d ≤ cNine
    · have good : isDigit d = true := by simpa [isDigit] using digit
      by_cases large : 65535 < v * 10 + (d - cZero).toNat
      · rw [portDigit, if_pos digit, if_pos large]
        constructor
        · intro read
          cases read
        · rintro ⟨-, rfl, bound⟩
          have grown := le_digitsFrom rest (v * 10 + (d - cZero).toNat)
          omega
      · rw [portDigit, if_pos digit, if_neg large]
        show rest.foldlM portDigit (v * 10 + (d - cZero).toNat) = .ok w ↔ _
        rw [ih (by omega)]
        simp only [good, true_and]
    · have bad : isDigit d = false := by
        rw [← Bool.not_eq_true]
        intro good
        exact digit (by simpa [isDigit] using good)
      rw [portDigit, if_neg digit]
      constructor
      · intro read
        cases read
      · rintro ⟨⟨good, -⟩, -⟩
        cases bad.symm.trans good

theorem readPort_ok {w : Nat} : readPort digits = .ok w ↔
    digits ≠ [] ∧ (∀ d ∈ digits, isDigit d = true) ∧ w = decimalValue digits ∧ w ≤ 65535 := by
  unfold readPort
  by_cases empty : digits = []
  · rw [if_pos empty]
    constructor
    · intro read
      cases read
    · rintro ⟨some, -⟩
      exact absurd empty some
  · rw [if_neg empty, foldlM_portDigit (by decide)]
    simp only [ne_eq, empty, not_false_iff, true_and]
    rfl

def HTTPURLScheme.name : HTTPURLScheme → Bytes
  | .http => ascii "http"
  | .https => ascii "https"

/-- The parts of a URL that is accepted. -/
structure UrlParts where
  scheme : HTTPURLScheme
  text : Bytes
  authority : Authority
  target : Bytes
  fragment : Option Bytes
  named : equalsLowercased text scheme.name = true
  delimited : ∀ c ∈ authority.bytes, isAuthorityByte c = true ∧ c ≠ cAt
  ported : ∀ digits ∈ authority.digits,
    digits ≠ [] ∧ (∀ d ∈ digits, isDigit d = true) ∧ decimalValue digits ≤ 65535
  aimed : ∀ c ∈ target.head?, c = cSlash ∨ c = cQuestion
  closed : cHash ∉ target
  visible : ∀ c ∈ text ++ (ascii "://" ++ (authority.bytes ++ (target ++
    fragment.elim [] (cHash :: ·)))), isIllegalByte c = false

namespace UrlParts
variable (parts : UrlParts)

def tail : Bytes := parts.target ++ parts.fragment.elim [] (cHash :: ·)

def bytes : Bytes := parts.text ++ (ascii "://" ++ (parts.authority.bytes ++ parts.tail))

def start : Nat := parts.text.length + 3

def port : UInt16 :=
  match parts.authority.digits with
  | none => parts.scheme.defaultPort
  | some digits => UInt16.ofNat (decimalValue digits)

/-- The host and the port as they stand in a `Host` field: a default port is left out. -/
def field : Bytes :=
  if parts.port = parts.scheme.defaultPort then parts.authority.name else parts.authority.bytes

def requestTarget : Bytes := if parts.target.head? = some cSlash then parts.target else cSlash :: parts.target

def url : HTTPURL where
  scheme := parts.scheme
  host := .of (parts.start + parts.authority.offset) parts.authority.host.length
  hostForField := .of parts.start parts.field.length
  port := parts.port
  hasExplicitPort := parts.authority.digits.isSome
  target := if parts.target = [] then {} else
    .of (parts.start + parts.authority.bytes.length) parts.target.length
  needsLeadingSlash := decide (parts.target.head? ≠ some cSlash)

theorem takeWhile_tail : parts.tail.takeWhile (· ≠ cHash) = parts.target := by
  apply takeWhile_cut (all_of_notMem parts.closed)
  intro c first
  cases fragment : parts.fragment with
  | none =>
    rw [fragment] at first
    cases first
  | some text =>
    rw [fragment] at first
    cases first
    decide

theorem head_tail {c : UInt8} (first : c ∈ parts.tail.head?) : isAuthorityByte c = false := by
  unfold tail at first
  cases target : parts.target with
  | nil =>
    rw [target] at first
    cases fragment : parts.fragment with
    | none =>
      rw [fragment] at first
      cases first
    | some text =>
      rw [fragment] at first
      cases first
      decide
  | cons d rest =>
    rw [target] at first
    cases first
    rcases parts.aimed c (by rw [target]; rfl) with rfl | rfl <;> decide

theorem text_clean : cColon ∉ parts.text ∧ parts.text.length = parts.scheme.name.length := by
  have same := parts.named
  rw [equalsLowercased, decide_eq_true_eq] at same
  constructor
  · intro inside
    have lower : asciiLower cColon ∈ parts.scheme.name := by
      rw [← same]
      exact mem_map_of_mem inside
    cases scheme : parts.scheme with
    | http =>
      rw [scheme] at lower
      exact absurd lower (by decide)
    | https =>
      rw [scheme] at lower
      exact absurd lower (by decide)
  · rw [← same, length_map]

theorem readScheme_bytes : readScheme parts.bytes = .ok (parts.scheme, parts.text.length) := by
  obtain ⟨clean, length⟩ := parts.text_clean
  have colon : parts.bytes.takeWhile (· ≠ cColon) = parts.text := takeWhile_cut (all_of_notMem clean) (by
      intro c first
      cases first
      decide)
  have front : parts.bytes.take parts.text.length = parts.text := take_left
  have named := parts.named
  have short : ¬ parts.bytes.length ≤ parts.text.length := by
    unfold bytes
    rw [length_append, length_append]
    have three : (ascii "://").length = 3 := by decide
    omega
  unfold readScheme
  dsimp only
  rw [colon, if_neg short]
  cases scheme : parts.scheme with
  | http =>
    rw [scheme] at length named
    have four : parts.text.length = 4 := length
    rw [four] at front ⊢
    rw [front]
    exact if_pos named
  | https =>
    rw [scheme] at length named
    have five : parts.text.length = 5 := length
    rw [five] at front ⊢
    rw [front]
    exact if_pos named

theorem toNat_port (explicit : parts.authority.digits = some digits) : parts.port.toNat = decimalValue digits := by
  obtain ⟨-, -, small⟩ := parts.ported digits (by rw [explicit]; rfl)
  unfold port
  rw [explicit]
  show (UInt16.ofNat (decimalValue digits)).toNat = _
  rw [UInt16.toNat_ofNat', Nat.mod_eq_of_lt (by omega)]

theorem withPort_bytes (url : HTTPURL) (scheme : url.scheme = parts.scheme)
    (port : url.port = parts.scheme.defaultPort) (implicit : url.hasExplicitPort = false)
    (field : url.hostForField = .of parts.start parts.authority.name.length) :
    url.withPort parts.start parts.authority.bytes parts.authority.places.portStart = .ok { url with
      port := parts.port
      hasExplicitPort := parts.authority.digits.isSome
      hostForField := .of parts.start parts.field.length } := by
  unfold HTTPURL.withPort Authority.places
  cases explicit : parts.authority.digits with
  | none =>
    have default : parts.port = parts.scheme.defaultPort := by
      unfold UrlParts.port
      rw [explicit]
    have name : parts.field = parts.authority.name := if_pos default
    rw [name, default, ← field, ← port, Option.isSome_none, ← implicit]
    rfl
  | some digits =>
    obtain ⟨some, all, small⟩ := parts.ported digits (by rw [explicit]; rfl)
    have value := parts.toNat_port explicit
    have text : parts.authority.bytes.drop (parts.authority.name.length + 1) = digits := by
      unfold Authority.bytes
      rw [explicit, Option.elim_some, drop_append, drop_of_length_le (by omega), Nat.add_sub_cancel_left]
      rfl
    have read : readPort digits = .ok parts.port.toNat := readPort_ok.mpr ⟨some, all, value, by omega⟩
    have same : UInt16.ofNat parts.port.toNat = parts.port := UInt16.ofNat_toNat
    show (readPort (parts.authority.bytes.drop (parts.authority.name.length + 1)) >>= _) = _
    rw [text, read]
    show Except.ok _ = Except.ok _
    rw [same, scheme]
    unfold UrlParts.field
    by_cases default : parts.port = parts.scheme.defaultPort
    · rw [if_pos default, if_neg (by rw [default]; simp), field]
      rfl
    · rw [if_neg default, if_pos (by rwa [ne_eq, UInt16.toNat_inj])]
      rfl

theorem withTarget_tail (url : HTTPURL) (bare : url.needsLeadingSlash = false) (start : Nat) :
    url.withTarget start parts.tail = { url with
      target := if parts.target = [] then {} else .of start parts.target.length
      needsLeadingSlash := decide (parts.target.head? ≠ some cSlash) } := by
  unfold HTTPURL.withTarget
  rw [parts.takeWhile_tail]
  dsimp only
  by_cases empty : parts.target = []
  · rw [if_pos empty, if_pos empty, empty]
    rfl
  rw [if_neg empty, if_neg empty]
  by_cases query : parts.target.head? = some cQuestion
  · rw [if_pos query, query]
    rfl
  rw [if_neg query]
  have slash : parts.target.head? = some cSlash := by
    obtain ⟨c, rest, split⟩ := exists_cons_of_ne_nil empty
    rw [split] at query ⊢
    rcases parts.aimed c (by rw [split]; rfl) with rfl | rfl
    · rfl
    · exact absurd rfl query
  rw [slash, bare]
  simp

theorem readAuthority_bytes :
    HTTPURL.readAuthority parts.scheme parts.start (parts.authority.bytes ++ parts.tail) = .ok parts.url := by
  have cut : (parts.authority.bytes ++ parts.tail).takeWhile isAuthorityByte = parts.authority.bytes :=
    takeWhile_cut (fun c member => (parts.delimited c member).1) (fun c first => parts.head_tail first)
  have some : parts.authority.bytes ≠ [] := by
    unfold Authority.bytes Authority.name
    split
    · simp
    · simp [parts.authority.hosted]
  have anonymous : parts.authority.bytes.contains cAt = false := by
    by_contra named
    rw [Bool.not_eq_false, contains_iff_mem] at named
    exact (parts.delimited cAt named).2 rfl
  unfold HTTPURL.readAuthority
  rw [cut]
  dsimp only
  rw [if_neg some, anonymous, if_neg (by simp), readHost_bytes, drop_left]
  show (HTTPURL.withPort _ _ _ _ >>= _) = _
  rw [parts.withPort_bytes _ rfl rfl rfl rfl]
  show Except.ok (HTTPURL.withTarget _ _ _) = _
  rw [parts.withTarget_tail _ rfl]
  unfold url Authority.places
  rw [Nat.add_sub_cancel_left]

theorem parse_bytes : HTTPURL.parse parts.bytes = .ok parts.url := by
  have legal : parts.bytes.any isIllegalByte = false := by
    rw [any_eq_false]
    intro c member
    rw [parts.visible c member]
    simp
  have slashes : (parts.bytes.drop (parts.text.length + 1)).take 2 = [cSlash, cSlash] := by
    unfold bytes
    rw [drop_append, drop_of_length_le (by omega), Nat.add_sub_cancel_left]
    rfl
  have rest : parts.bytes.drop (parts.text.length + 3) = parts.authority.bytes ++ parts.tail := by
    unfold bytes
    rw [drop_append, drop_of_length_le (by omega), Nat.add_sub_cancel_left]
    rfl
  unfold HTTPURL.parse
  rw [legal, if_neg (by simp), parts.readScheme_bytes]
  show (if _ then _ else _) = _
  rw [if_neg (by rw [slashes]; simp), rest]
  exact parts.readAuthority_bytes

end UrlParts

variable {scheme : HTTPURLScheme}

theorem readScheme_ok {base : Bytes} {colon : Nat} (read : readScheme base = .ok (scheme, colon)) :
    ∃ text rest, base = text ++ cColon :: rest ∧ colon = text.length ∧ equalsLowercased text scheme.name = true := by
  obtain ⟨text, back, rfl, all, stop⟩ := exists_cut (· ≠ cColon) base
  unfold readScheme at read
  rw [takeWhile_cut all stop] at read
  dsimp only at read
  rcases head_of_stop stop with rfl | ⟨rest, rfl⟩
  · rw [append_nil, if_pos (le_refl _)] at read
    cases read
  rw [if_neg (by simp)] at read
  have front : (text ++ cColon :: rest).take text.length = text := take_left
  refine ⟨text, rest, rfl, ?_⟩
  split at read
  case h_1 four =>
    rw [← four, front] at read
    split at read
    case isTrue named =>
      cases read
      exact ⟨rfl, named⟩
    case isFalse => cases read
  case h_2 five =>
    rw [← five, front] at read
    split at read
    case isTrue named =>
      cases read
      exact ⟨rfl, named⟩
    case isFalse => cases read
  case h_3 => cases read

theorem Except.bind_ok {ε α β : Type} {x : Except ε α} {f : α → Except ε β} {b : β}
    (done : (x >>= f) = .ok b) : ∃ a, x = .ok a ∧ f a = .ok b := by
  cases x with
  | error e => cases done
  | ok a => exact ⟨a, rfl, done⟩

theorem exists_tail {rest : Bytes} (first : ∀ c ∈ rest.head?, isAuthorityByte c = false) :
    ∃ (target : Bytes) (fragment : Option Bytes), rest = target ++ fragment.elim [] (cHash :: ·) ∧
      cHash ∉ target ∧ ∀ c ∈ target.head?, c = cSlash ∨ c = cQuestion := by
  obtain ⟨target, back, rfl, all, stop⟩ := exists_cut (· ≠ cHash) rest
  have clean := notMem_of_all all
  have aimed : ∀ c ∈ target.head?, c = cSlash ∨ c = cQuestion := by
    intro c starts
    have inside := mem_of_mem_head? starts
    have outside := first c (by rw [List.head?_append, starts]; rfl)
    have other : c ≠ cHash := by
      rintro rfl
      exact clean inside
    simp only [isAuthorityByte, ne_eq, decide_not, Bool.and_eq_false_iff, Bool.not_eq_false',
      decide_eq_true_eq] at outside
    rcases outside with (slash | question) | hash
    · exact .inl slash
    · exact .inr question
    · exact absurd hash other
  rcases head_of_stop stop with rfl | ⟨fragment, rfl⟩
  · exact ⟨target, none, rfl, clean, aimed⟩
  · exact ⟨target, some fragment, rfl, clean, aimed⟩

theorem HTTPURL.readAuthority_ok {start : Nat} {rest : Bytes} {url : HTTPURL}
    (read : HTTPURL.readAuthority scheme start rest = .ok url) :
    ∃ (authority : Authority) (tail : Bytes), rest = authority.bytes ++ tail ∧
      (∀ c ∈ authority.bytes, isAuthorityByte c = true ∧ c ≠ cAt) ∧
      (∀ digits ∈ authority.digits, digits ≠ [] ∧ (∀ d ∈ digits, isDigit d = true) ∧ decimalValue digits ≤ 65535) ∧
      ∀ c ∈ tail.head?, isAuthorityByte c = false := by
  obtain ⟨text, tail, rfl, all, stop⟩ := exists_cut isAuthorityByte rest
  unfold HTTPURL.readAuthority at read
  rw [takeWhile_cut all stop] at read
  dsimp only at read
  split at read
  case isTrue => cases read
  case isFalse =>
    split at read
    case isTrue => cases read
    case isFalse anonymous =>
      obtain ⟨places, host, read⟩ := Except.bind_ok read
      obtain ⟨authority, rfl⟩ := readHost_ok host
      rw [readHost_bytes] at host
      cases host
      obtain ⟨placed, port, -⟩ := Except.bind_ok read
      refine ⟨authority, tail, rfl, ?_, ?_, stop⟩
      · intro c member
        refine ⟨all c member, ?_⟩
        rintro rfl
        exact anonymous (contains_iff_mem.mpr member)
      · intro digits explicit
        have given : authority.digits = some digits := explicit
        unfold HTTPURL.withPort Authority.places at port
        rw [given] at port
        obtain ⟨value, number, -⟩ := Except.bind_ok port
        have here : authority.bytes.drop (authority.name.length + 1) = digits := by
          unfold Authority.bytes
          rw [given, Option.elim_some, drop_append, drop_of_length_le (by omega), Nat.add_sub_cancel_left]
          rfl
        rw [here] at number
        obtain ⟨nonempty, digit, rfl, small⟩ := readPort_ok.mp number
        exact ⟨nonempty, digit, small⟩

theorem HTTPURL.parse_ok {base : Bytes} {url : HTTPURL} (parsed : HTTPURL.parse base = .ok url) :
    ∃ parts : UrlParts, base = parts.bytes ∧ url = parts.url := by
  have sufficient : (∃ parts : UrlParts, base = parts.bytes) →
      ∃ parts : UrlParts, base = parts.bytes ∧ url = parts.url := by
    rintro ⟨parts, rfl⟩
    cases parts.parse_bytes.symm.trans parsed
    exact ⟨parts, rfl, rfl⟩
  apply sufficient
  unfold HTTPURL.parse at parsed
  split at parsed
  case isTrue => cases parsed
  case isFalse legal =>
  obtain ⟨⟨scheme, colon⟩, first, parsed⟩ := Except.bind_ok parsed
  obtain ⟨text, rest, rfl, rfl, named⟩ := readScheme_ok first
  dsimp only at parsed
  split at parsed
  case isTrue => cases parsed
  case isFalse slashes =>
  have drops : ∀ n, (text ++ cColon :: rest).drop (text.length + (n + 1)) = rest.drop n := by
    intro n
    rw [drop_append, drop_of_length_le (by omega), Nat.add_sub_cancel_left]
    rfl
  rw [drops 0, not_not, drop_zero] at slashes
  obtain ⟨after, rfl⟩ : ∃ after, rest = cSlash :: cSlash :: after :=
    ⟨rest.drop 2, by rw [← take_append_drop 2 rest, slashes]; rfl⟩
  rw [drops 2] at parsed
  obtain ⟨authority, tail, split, delimited, ported, first⟩ := HTTPURL.readAuthority_ok parsed
  obtain ⟨target, fragment, rfl, closed, aimed⟩ := exists_tail first
  change after = authority.bytes ++ (target ++ fragment.elim [] (cHash :: ·)) at split
  subst split
  refine ⟨⟨scheme, text, authority, target, fragment, named, delimited, ported, aimed, closed, ?_⟩, rfl⟩
  intro c member
  rw [Bool.not_eq_true, any_eq_false] at legal
  exact Bool.eq_false_iff.mpr (legal c member)

def HTTPURL.requestTarget (url : HTTPURL) (base : Bytes) : Bytes :=
  if url.needsLeadingSlash then cSlash :: url.target.text base else url.target.text base

namespace UrlParts
variable (parts : UrlParts)

theorem length_start : (parts.text ++ ascii "://").length = parts.start := by
  rw [length_append]
  rfl

theorem host_place : ∃ before after, parts.bytes = before ++ (parts.authority.host ++ after) ∧
    before.length = parts.start + parts.authority.offset := by
  unfold bytes Authority.bytes Authority.name Authority.offset
  cases parts.authority.bracketed with
  | true =>
    refine ⟨parts.text ++ ascii "://" ++ [cLeftBracket],
      cRightBracket :: (parts.authority.digits.elim [] (cColon :: ·) ++ parts.tail), ?_, ?_⟩
    · simp
    · rw [length_append, parts.length_start]
      rfl
  | false =>
    refine ⟨parts.text ++ ascii "://", parts.authority.digits.elim [] (cColon :: ·) ++ parts.tail, ?_, ?_⟩
    · simp
    · rw [parts.length_start]
      rfl

theorem host_text (small : parts.bytes.length < 2 ^ 32) : parts.url.host.text parts.bytes = parts.authority.host := by
  obtain ⟨before, after, whole, start⟩ := parts.host_place
  have text := text_of whole small
  rw [start] at text
  exact text

theorem field_prefix : ∃ after, parts.authority.bytes = parts.field ++ after := by
  unfold field
  split
  · exact ⟨_, rfl⟩
  · exact ⟨[], (append_nil _).symm⟩

theorem field_text (small : parts.bytes.length < 2 ^ 32) : parts.url.hostForField.text parts.bytes = parts.field := by
  obtain ⟨after, split⟩ := parts.field_prefix
  have whole : parts.bytes = (parts.text ++ ascii "://") ++ (parts.field ++ (after ++ parts.tail)) := by
    unfold bytes
    rw [split]
    simp
  have text := text_of whole small
  rw [parts.length_start] at text
  exact text

theorem target_text_fits (front : parts.start + parts.authority.bytes.length < 2 ^ 32)
    (size : parts.target.length < 2 ^ 32) : parts.url.target.text parts.bytes = parts.target := by
  by_cases empty : parts.target = []
  · have none : parts.url.target = {} := if_pos empty
    rw [none, empty]
    rfl
  have whole : parts.bytes = (parts.text ++ ascii "://" ++ parts.authority.bytes) ++
      (parts.target ++ parts.fragment.elim [] (cHash :: ·)) := by
    unfold bytes tail
    simp
  have start : (parts.text ++ ascii "://" ++ parts.authority.bytes).length =
      parts.start + parts.authority.bytes.length := by
    rw [length_append, parts.length_start]
  have text := text_of_fits whole (by rw [start]; exact front) size
  rw [start] at text
  have some : parts.url.target = .of (parts.start + parts.authority.bytes.length) parts.target.length := if_neg empty
  rw [some]
  exact text

theorem length_bytes : parts.bytes.length = parts.start + (parts.authority.bytes.length +
    (parts.target.length + (parts.fragment.elim [] (cHash :: ·)).length)) := by
  rw [← parts.length_start]
  simp only [bytes, tail, length_append]
  omega

theorem target_text (small : parts.bytes.length < 2 ^ 32) : parts.url.target.text parts.bytes = parts.target := by
  have total := parts.length_bytes
  exact parts.target_text_fits (by omega) (by omega)

theorem requestTarget_eq (text : parts.url.target.text parts.bytes = parts.target) :
    parts.url.requestTarget parts.bytes = parts.requestTarget := by
  unfold HTTPURL.requestTarget requestTarget
  rw [text]
  show (if decide (parts.target.head? ≠ some cSlash) = true then _ else _) = _
  by_cases slash : parts.target.head? = some cSlash
  · rw [if_pos slash, if_neg (by simp [slash])]
  · rw [if_neg slash, if_pos (by simp [slash])]

theorem visible_of {c : UInt8} (member : c ∈ parts.bytes) : isRequestTargetChar c = true := by
  have legal := parts.visible c member
  simp only [isIllegalByte, Bool.or_eq_false_iff, decide_eq_false_iff_not] at legal
  simp only [isRequestTargetChar, Bool.and_eq_true, decide_eq_true_eq]
  exact ⟨UInt8.not_le.mp legal.1, UInt8.not_le.mp legal.2⟩

theorem field_visible : ∀ c ∈ parts.field, isRequestTargetChar c = true := by
  intro c member
  obtain ⟨after, split⟩ := parts.field_prefix
  apply parts.visible_of
  unfold bytes
  rw [split]
  simp [member]

theorem field_ne_nil : parts.field ≠ [] := by
  have name : parts.authority.name ≠ [] := by
    unfold Authority.name
    split
    · simp
    · exact parts.authority.hosted
  unfold field
  split
  · exact name
  · unfold Authority.bytes
    simp [name]

theorem requestTarget_visible : ∀ c ∈ parts.requestTarget, isRequestTargetChar c = true := by
  have target : ∀ c ∈ parts.target, isRequestTargetChar c = true := by
    intro c member
    apply parts.visible_of
    unfold bytes tail
    simp [member]
  intro c member
  unfold requestTarget at member
  split at member
  · exact target c member
  rcases mem_cons.mp member with rfl | inside
  · decide
  · exact target c inside

theorem length_requestTarget_le : parts.requestTarget.length ≤ parts.target.length + 1 := by
  unfold requestTarget
  split
  · exact Nat.le_succ _
  · exact le_refl _

theorem head_requestTarget : parts.requestTarget.head? = some cSlash := by
  unfold requestTarget
  split
  case isTrue slash => exact slash
  case isFalse => rfl

/-- The authority as it stands in a `Host` field. -/
def written : Authority :=
  if parts.port = parts.scheme.defaultPort then { parts.authority with digits := none }
  else parts.authority

theorem bytes_written : parts.written.bytes = parts.field := by
  unfold written field
  split
  · exact append_nil _
  · rfl

theorem host_written : parts.written.host = parts.authority.host := by
  unfold written
  split <;> rfl

theorem legal_of_lower : ∀ c : UInt8, 97 ≤ asciiLower c → asciiLower c ≤ 122 → isIllegalByte c = false := by
  decide +kernel

theorem scheme_legal (named : equalsLowercased text scheme.name = true) : ∀ c ∈ text, isIllegalByte c = false := by
  rw [equalsLowercased, decide_eq_true_eq] at named
  intro c member
  have lower : asciiLower c ∈ scheme.name := by
    rw [← named]
    exact mem_map_of_mem member
  have letters : scheme.name.all (fun x => 97 ≤ x && x ≤ 122) = true := by
    cases scheme <;> decide
  have letter := all_eq_true.mp letters _ lower
  rw [Bool.and_eq_true, decide_eq_true_eq, decide_eq_true_eq] at letter
  exact legal_of_lower c letter.1 letter.2

def again (text : Bytes) (named : equalsLowercased text parts.scheme.name = true) : UrlParts where
  scheme := parts.scheme
  text := text
  authority := parts.written
  target := parts.requestTarget
  fragment := none
  named := named
  delimited := by
    intro c member
    rw [parts.bytes_written] at member
    obtain ⟨after, split⟩ := parts.field_prefix
    apply parts.delimited
    rw [split]
    exact List.mem_append_left _ member
  ported := by
    intro digits explicit
    unfold written at explicit
    split at explicit
    · cases explicit
    · exact parts.ported digits explicit
  aimed := by
    intro c first
    rw [parts.head_requestTarget] at first
    exact .inl (Option.some.inj first).symm
  closed := by
    unfold requestTarget
    split
    · exact parts.closed
    · rw [List.mem_cons, not_or]
      exact ⟨by decide, parts.closed⟩
  visible := by
    have legal : ∀ c, isRequestTargetChar c = true → isIllegalByte c = false := by
      intro c visible
      simp only [isRequestTargetChar, Bool.and_eq_true, decide_eq_true_eq] at visible
      simp only [isIllegalByte, Bool.or_eq_false_iff, decide_eq_false_iff_not]
      exact ⟨UInt8.not_le.mpr visible.1, UInt8.not_le.mpr visible.2⟩
    intro c member
    rw [parts.bytes_written, Option.elim_none, List.append_nil] at member
    simp only [List.mem_append] at member
    rcases member with scheme | slashes | field | target
    · exact scheme_legal named c scheme
    · have colon : (ascii "://").all (fun c => !isIllegalByte c) = true := by decide
      simpa using List.all_eq_true.mp colon c slashes
    · exact legal c (parts.field_visible c field)
    · exact legal c (parts.requestTarget_visible c target)

theorem port_again (text : Bytes) (named : equalsLowercased text parts.scheme.name = true) :
    (parts.again text named).port = parts.port := by
  show (match parts.written.digits with
    | none => parts.scheme.defaultPort
    | some digits => UInt16.ofNat (decimalValue digits)) = parts.port
  unfold written
  by_cases default : parts.port = parts.scheme.defaultPort
  · rw [if_pos default]
    exact default.symm
  · rw [if_neg default]
    rfl

end UrlParts

/-- How the bytes of a URL are read: which part is which, where the slices are, what is written for
it, and what is read again from that. -/
structure UrlReading (base : Bytes) (url : HTTPURL) (text authority target : Bytes)
    (fragment : Option Bytes) (host name : Bytes) : Prop where
  whole : base = text ++ (ascii "://" ++ (authority ++ (target ++ fragment.elim [] (cHash :: ·))))
  schemeText : equalsLowercased text url.scheme.name = true
  delimited : cAt ∉ authority ∧ cSlash ∉ authority ∧ cQuestion ∉ authority ∧ cHash ∉ authority
  hosted : host ≠ []
  hostPlace : (name = cLeftBracket :: (host ++ [cRightBracket]) ∧ cRightBracket ∉ host ∧
      url.host = .of (text.length + 4) host.length) ∨
    (name = host ∧ host.head? ≠ some cLeftBracket ∧ cColon ∉ host ∧
      url.host = .of (text.length + 3) host.length)
  portValue : (authority = name ∧ url.port = url.scheme.defaultPort ∧ url.hasExplicitPort = false) ∨
    ∃ digits, authority = name ++ cColon :: digits ∧ digits ≠ [] ∧ (∀ d ∈ digits, isDigit d = true) ∧
      decimalValue digits ≤ 65535 ∧ url.port.toNat = decimalValue digits ∧ url.hasExplicitPort = true
  fieldPlace : url.hostForField = .of (text.length + 3)
    (if url.port = url.scheme.defaultPort then name else authority).length
  closed : cHash ∉ target
  targetPlace : url.target = if target = [] then {} else
    .of (text.length + 3 + authority.length) target.length
  slash : url.needsLeadingSlash = true ↔ target.head? ≠ some cSlash
  hostText : url.host.text base = host
  fieldText : url.hostForField.text base =
    if url.port = url.scheme.defaultPort then name else authority
  targetText : url.target.text base = target
  hostWritten : ∀ buf, (HTTPRequestWriter.writeHost buf (url.hostForField.text base)).1 = true
  lineWritten : ∀ buf method, method ≠ [] → (∀ c ∈ method, isTokenChar c = true) →
    (HTTPRequestWriter.writeRequestLine buf method (url.requestTarget base)).1 = true
  again : ∀ text', equalsLowercased text' url.scheme.name = true →
    ∃ url', HTTPURL.parse (text' ++ (ascii "://" ++ (url.hostForField.text base ++
        url.requestTarget base))) = .ok url' ∧
      url'.scheme = url.scheme ∧ url'.port = url.port ∧
      url'.host.text (text' ++ (ascii "://" ++ (url.hostForField.text base ++
        url.requestTarget base))) = url.host.text base ∧
      url'.requestTarget (text' ++ (ascii "://" ++ (url.hostForField.text base ++
        url.requestTarget base))) = url.requestTarget base

/-- A URL that is accepted is read in one way, by this parser and by whoever gets the request. -/
theorem url_consistent {base : Bytes} {url : HTTPURL} (small : base.length < 2 ^ 31)
    (parsed : HTTPURL.parse base = .ok url) :
    ∃ text authority target fragment host name, UrlReading base url text authority target fragment host name := by
  obtain ⟨parts, rfl, rfl⟩ := HTTPURL.parse_ok parsed
  refine ⟨parts.text, parts.authority.bytes, parts.target, parts.fragment, parts.authority.host,
    parts.authority.name, ?_⟩
  have fits : parts.bytes.length < 2 ^ 32 := by omega
  have fieldText := parts.field_text fits
  have requestTarget := parts.requestTarget_eq (parts.target_text fits)
  constructor
  · rfl
  · exact parts.named
  · refine ⟨?_, ?_, ?_, ?_⟩
    · intro inside
      exact (parts.delimited _ inside).2 rfl
    · intro inside
      exact absurd (parts.delimited _ inside).1 (by decide)
    · intro inside
      exact absurd (parts.delimited _ inside).1 (by decide)
    · intro inside
      exact absurd (parts.delimited _ inside).1 (by decide)
  · exact parts.authority.hosted
  · unfold Authority.name UrlParts.url Authority.offset UrlParts.start
    cases bracketed : parts.authority.bracketed with
    | true => exact .inl ⟨rfl, parts.authority.inside bracketed, rfl⟩
    | false =>
      obtain ⟨clean, open'⟩ := parts.authority.plain bracketed
      exact .inr ⟨rfl, open', clean, rfl⟩
  · unfold Authority.bytes
    cases explicit : parts.authority.digits with
    | none =>
      refine .inl ⟨List.append_nil _, ?_, ?_⟩
      · show parts.port = _
        unfold UrlParts.port
        rw [explicit]
        rfl
      · show parts.authority.digits.isSome = false
        rw [explicit]
        rfl
    | some digits =>
      obtain ⟨nonempty, all, bound⟩ := parts.ported digits explicit
      refine .inr ⟨digits, rfl, nonempty, all, bound, parts.toNat_port explicit, ?_⟩
      show parts.authority.digits.isSome = true
      rw [explicit]
      rfl
  · rfl
  · exact parts.closed
  · rfl
  · exact decide_eq_true_iff
  · exact parts.host_text fits
  · exact fieldText
  · exact parts.target_text fits
  · intro buf
    rw [fieldText]
    unfold HTTPRequestWriter.writeHost
    rw [if_neg parts.field_ne_nil, List.all_eq_true.mpr parts.field_visible, if_neg (by simp)]
  · intro buf method named token
    have aimed : parts.requestTarget ≠ [] := by
      intro empty
      have first := parts.head_requestTarget
      rw [empty] at first
      cases first
    rw [requestTarget]
    unfold HTTPRequestWriter.writeRequestLine
    rw [if_neg (not_or.mpr ⟨named, aimed⟩), List.all_eq_true.mpr token, if_neg (by simp),
      List.all_eq_true.mpr parts.requestTarget_visible, if_neg (by simp)]
  · intro text' named
    rw [fieldText, requestTarget]
    set reread := parts.again text' named with defined
    have bytes : reread.bytes = text' ++ (ascii "://" ++ (parts.field ++ parts.requestTarget)) := by
      show text' ++ (ascii "://" ++ (parts.written.bytes ++ (parts.requestTarget ++ []))) = _
      rw [parts.bytes_written, List.append_nil]
    have size : reread.bytes.length < 2 ^ 32 := by
      have same : text'.length = parts.text.length := by
        rw [parts.text_clean.2]
        exact reread.text_clean.2
      obtain ⟨after, split⟩ := parts.field_prefix
      have longer := parts.length_requestTarget_le
      have total := parts.length_bytes
      rw [split, List.length_append, ← parts.length_start, List.length_append] at total
      rw [bytes]
      simp only [List.length_append]
      omega
    refine ⟨reread.url, ?_, rfl, parts.port_again text' named, ?_, ?_⟩
    · rw [← bytes]
      exact reread.parse_bytes
    · rw [← bytes, reread.host_text size, parts.host_text fits]
      exact parts.host_written
    · rw [← bytes, reread.requestTarget_eq (reread.target_text size)]
      exact if_pos parts.head_requestTarget

/-- An address in brackets, with a port, a query and a fragment. -/
theorem url_consistent_literal : ∃ url, HTTPURL.parse (ascii "HTTPS://[::1]:8443?q=1#f") = .ok url ∧ url.port = 8443 ∧
      ∃ text authority target fragment host name,
        UrlReading (ascii "HTTPS://[::1]:8443?q=1#f") url text authority target fragment host name := by
  have parsed : HTTPURL.parse (ascii "HTTPS://[::1]:8443?q=1#f") = .ok {
      scheme := .https, host := .of 9 3, hostForField := .of 8 10, port := 8443,
      hasExplicitPort := true, target := .of 18 4, needsLeadingSlash := true } := by
    decide +kernel
  exact ⟨_, parsed, rfl, url_consistent (by decide) parsed⟩

end AvianCore.Http
