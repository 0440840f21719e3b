import AvianCore.Http.Url

/-!
Where a plain request should have gone (`HTTPSRedirect.swift`). The location that is written names the
host that the client asked for, as the URL parser reads it.
-/

namespace AvianCore.Http
open List HTTPURLScheme

/-- Part of an IPv6 address. -/
def isAddressChar (c : UInt8) : Bool :=
  (0x30 ≤ c && c ≤ 0x39) || (0x61 ≤ c ||| 0x20 && c ||| 0x20 ≤ 0x66) || c = cColon || c = 0x2E

def isHostChar (c : UInt8) : Bool :=
  (0x30 ≤ c && c ≤ 0x39) || (0x61 ≤ c ||| 0x20 && c ||| 0x20 ≤ 0x7A) || c = 0x2E || c = 0x2D

namespace HTTPSRedirect

/-- The length of `http://` or `https://` at the front. -/
def schemeLength (t : Bytes) : Option Nat :=
  match t with
  | p0 :: p1 :: p2 :: p3 :: p4 :: p5 :: p6 :: rest =>
    if p0 ||| 0x20 = 0x68 ∧ p1 ||| 0x20 = 0x74 ∧ p2 ||| 0x20 = 0x74 ∧ p3 ||| 0x20 = 0x70 then
      if p4 = cColon ∧ p5 = cSlash ∧ p6 = cSlash then some 7
      else if p4 ||| 0x20 = 0x73 ∧ p5 = cColon ∧ p6 = cSlash ∧ rest.head? = some cSlash then some 8
      else none
    else none
  | _ => none

def hostBefore (a : Bytes) (ends : Nat) : Option Nat :=
  if ends < a.length then
    if a[ends]? ≠ some cColon then none
    else if (a.drop (ends + 1)).all isDigit then some ends else none
  else some ends

def hostLength (a : Bytes) : Option Nat :=
  if a.length = 0 ∨ 255 < a.length then none
  else if a.head? = some cLeftBracket then
    let address := (a.drop 1).takeWhile (· ≠ cRightBracket)
    if address.all isAddressChar = false then none
    else if 1 + address.length = a.length ∨ address.length = 0 then none
    else hostBefore a (1 + address.length + 1)
  else
    let name := a.takeWhile (· ≠ cColon)
    if name.all isHostChar = false then none
    else if name.length = 0 then none
    else hostBefore a name.length

def split (host : Option Bytes) (target : Bytes) : Option (Option Bytes × Bytes) :=
  match schemeLength target with
  | some scheme =>
    let authority := (target.drop scheme).takeWhile fun c => c ≠ cSlash && c ≠ cQuestion
    some (some authority, target.drop (scheme + authority.length))
  | none => if target.length = 0 ∨ target.head? ≠ some cSlash then none else some (host, target)

/-- `https://HOST[:PORT]TARGET`, appended to the buffer. -/
def location (host : Option Bytes) (target : Bytes) (httpsPort : UInt16) (out : Bytes) : Bool × Bytes :=
  match split host target with
  | some (some authority, path) =>
    match hostLength authority with
    | none => (false, out)
    | some length =>
      if path.any (fun c => c ≤ 0x20 || 0x7F ≤ c) then (false, out)
      else (true, out ++ (ascii "https://" ++ (authority.take length ++
        ((if httpsPort ≠ 443 then cColon :: writeDecimal httpsPort.toNat else []) ++
        ((if path.length = 0 ∨ path.head? ≠ some cSlash then [cSlash] else []) ++ path)))))
  | _ => (false, out)

end HTTPSRedirect

/-- The host of an authority: between the brackets, or up to a colon. -/
def hostPart (authority : Bytes) : Bytes :=
  if authority.head? = some cLeftBracket then (authority.drop 1).takeWhile (· ≠ cRightBracket)
  else authority.takeWhile (· ≠ cColon)

/-- An absolute target: its scheme, authority and the rest. -/
structure IsAbsolute (target authority path : Bytes) : Prop where
  split : ∃ (scheme : HTTPURLScheme) (text : Bytes), equalsLowercased text scheme.name = true ∧
    target = text ++ (ascii "://" ++ (authority ++ path))
  delimited : ∀ c ∈ authority, isAuthorityByte c = true
  ends : ∀ c ∈ path.head?, isAuthorityByte c = false

def AsksFor (host : Option Bytes) (target authority path : Bytes) : Prop :=
  IsAbsolute target authority path ∨
    ((¬ ∃ authority path, IsAbsolute target authority path) ∧ host = some authority ∧ target = path ∧
      path.head? = some cSlash)

/-- The path and the query, up to a fragment, with a slash before them. -/
def rooted (path : Bytes) : Bytes :=
  if path.head? = some cSlash then path.takeWhile (· ≠ cHash)
  else cSlash :: path.takeWhile (· ≠ cHash)

theorem or_lower : ∀ c : UInt8, (c ||| 0x20 = 0x68 ↔ asciiLower c = 0x68) ∧
    (c ||| 0x20 = 0x74 ↔ asciiLower c = 0x74) ∧ (c ||| 0x20 = 0x70 ↔ asciiLower c = 0x70) ∧
    (c ||| 0x20 = 0x73 ↔ asciiLower c = 0x73) := by
  decide +kernel

theorem schemeLength_eq {target : Bytes} {n : Nat} : HTTPSRedirect.schemeLength target = some n ↔
    ∃ (scheme : HTTPURLScheme) (text rest : Bytes), equalsLowercased text scheme.name = true ∧
      target = text ++ (ascii "://" ++ rest) ∧ n = text.length + 3 := by
  constructor
  · intro found
    unfold HTTPSRedirect.schemeLength at found
    split at found
    case h_2 => cases found
    case h_1 p0 p1 p2 p3 p4 p5 p6 rest =>
      split at found
      case isFalse => cases found
      case isTrue http =>
        rw [(or_lower p0).1, (or_lower p1).2.1, (or_lower p2).2.1, (or_lower p3).2.2.1] at http
        obtain ⟨h0, h1, h2, h3⟩ := http
        split at found
        case isTrue colon =>
          cases found
          obtain ⟨rfl, rfl, rfl⟩ := colon
          refine ⟨.http, [p0, p1, p2, p3], rest, ?_, rfl, rfl⟩
          simp only [equalsLowercased, map_cons, map_nil, h0, h1, h2, h3]
          decide
        case isFalse =>
          split at found
          case isFalse => cases found
          case isTrue secure =>
            cases found
            obtain ⟨s, rfl, rfl, slash⟩ := secure
            rw [(or_lower p4).2.2.2] at s
            obtain ⟨after, rfl⟩ : ∃ after, rest = cSlash :: after := by
              cases rest with
              | nil => cases slash
              | cons c after =>
                cases slash
                exact ⟨after, rfl⟩
            refine ⟨.https, [p0, p1, p2, p3, p4], after, ?_, rfl, rfl⟩
            simp only [equalsLowercased, map_cons, map_nil, h0, h1, h2, h3, s]
            decide
  · rintro ⟨scheme, text, rest, named, rfl, rfl⟩
    rw [equalsLowercased, decide_eq_true_eq] at named
    unfold HTTPSRedirect.schemeLength
    cases scheme with
    | http =>
      have letters : http.name = [0x68, 0x74, 0x74, 0x70] := by decide
      rw [letters, map_eq_cons_iff] at named
      obtain ⟨a, _, rfl, ha, named⟩ := named
      obtain ⟨b, _, rfl, hb, named⟩ := map_eq_cons_iff.mp named
      obtain ⟨c, _, rfl, hc, named⟩ := map_eq_cons_iff.mp named
      obtain ⟨d, _, rfl, hd, named⟩ := map_eq_cons_iff.mp named
      obtain rfl := map_eq_nil_iff.mp named
      show (if _ then (if _ then _ else _) else _) = _
      rw [if_pos ⟨(or_lower a).1.mpr ha, (or_lower b).2.1.mpr hb, (or_lower c).2.1.mpr hc,
        (or_lower d).2.2.1.mpr hd⟩, if_pos (by decide)]
      rfl
    | https =>
      have letters : https.name = [0x68, 0x74, 0x74, 0x70, 0x73] := by decide
      rw [letters, map_eq_cons_iff] at named
      obtain ⟨a, _, rfl, ha, named⟩ := named
      obtain ⟨b, _, rfl, hb, named⟩ := map_eq_cons_iff.mp named
      obtain ⟨c, _, rfl, hc, named⟩ := map_eq_cons_iff.mp named
      obtain ⟨d, _, rfl, hd, named⟩ := map_eq_cons_iff.mp named
      obtain ⟨e, _, rfl, he, named⟩ := map_eq_cons_iff.mp named
      obtain rfl := map_eq_nil_iff.mp named
      show (if _ then (if _ then _ else if _ then _ else _) else _) = _
      have other : e ≠ cColon := by
        rintro rfl
        exact absurd he (by decide)
      rw [if_pos ⟨(or_lower a).1.mpr ha, (or_lower b).2.1.mpr hb, (or_lower c).2.1.mpr hc,
        (or_lower d).2.2.1.mpr hd⟩, if_neg (fun colon => other colon.1),
        if_pos ⟨(or_lower e).2.2.2.mpr he, by decide, by decide, rfl⟩]
      rfl

theorem hostChar_clear : ∀ c : UInt8, (isHostChar c = true → isAuthorityByte c = true ∧ c ≠ cAt ∧
      c ≠ cLeftBracket ∧ isIllegalByte c = false) ∧
    (isAddressChar c = true → isAuthorityByte c = true ∧ c ≠ cAt ∧ isIllegalByte c = false) := by
  decide +kernel

theorem digit_clear : ∀ c : UInt8, isDigit c = true → isAuthorityByte c = true ∧ c ≠ cAt ∧ isIllegalByte c = false := by
  decide +kernel

/-- A host that is found, in brackets or not. -/
structure FoundHost (authority : Bytes) (length : Nat) (bracketed : Bool) (host : Bytes) : Prop where
  hosted : host ≠ []
  inside : bracketed = true → cRightBracket ∉ host
  plain : bracketed = false → cColon ∉ host ∧ host.head? ≠ some cLeftBracket
  name : authority.take length =
    if bracketed then cLeftBracket :: (host ++ [cRightBracket]) else host
  part : hostPart authority = host
  clear : ∀ c ∈ authority.take length, isAuthorityByte c = true ∧ c ≠ cAt ∧ isIllegalByte c = false
  whole : ∀ c ∈ authority, isAuthorityByte c = true
  short : authority.length ≤ 255

theorem hostBefore_some {a : Bytes} {ends n : Nat} (found : HTTPSRedirect.hostBefore a ends = some n) :
    n = ends ∧ ∀ c ∈ a.drop ends, isAuthorityByte c = true := by
  unfold HTTPSRedirect.hostBefore at found
  split at found
  case isFalse beyond =>
    cases found
    refine ⟨rfl, fun c member => ?_⟩
    rw [drop_of_length_le (by omega)] at member
    cases member
  case isTrue less =>
    split at found
    case isTrue => cases found
    case isFalse colon =>
      split at found
      case isFalse => cases found
      case isTrue digits =>
        cases found
        refine ⟨rfl, ?_⟩
        rw [not_not] at colon
        rw [drop_eq_getElem_cons less]
        intro c member
        rcases mem_cons.mp member with rfl | later
        · rw [List.getElem?_eq_getElem less] at colon
          rw [Option.some.inj colon]
          decide
        · have digit := all_eq_true.mp digits c later
          exact (digit_clear c digit).1

variable {length : Nat}

theorem hostLength_some {authority : Bytes} (found : HTTPSRedirect.hostLength authority = some length) :
    ∃ bracketed host, FoundHost authority length bracketed host := by
  unfold HTTPSRedirect.hostLength at found
  split at found
  case isTrue => cases found
  case isFalse size =>
  have short : authority.length ≤ 255 := by omega
  split at found
  case isTrue bracket =>
    obtain ⟨rest, rfl⟩ : ∃ rest, authority = cLeftBracket :: rest := by
      cases authority with
      | nil => cases bracket
      | cons c rest =>
        cases bracket
        exact ⟨rest, rfl⟩
    have part : hostPart (cLeftBracket :: rest) = rest.takeWhile (· ≠ cRightBracket) := rfl
    obtain ⟨host, back, rfl, all, stop⟩ := exists_cut (· ≠ cRightBracket) rest
    rw [takeWhile_cut all stop] at part
    change (let address := (host ++ back).takeWhile (· ≠ cRightBracket)
      if address.all isAddressChar = false then none
      else if 1 + address.length = (cLeftBracket :: (host ++ back)).length ∨ address.length = 0 then none
      else HTTPSRedirect.hostBefore (cLeftBracket :: (host ++ back)) (1 + address.length + 1)) = some length at found
    rw [takeWhile_cut all stop] at found
    dsimp only at found
    split at found
    case isTrue => cases found
    case isFalse address =>
    rw [Bool.not_eq_false, all_eq_true] at address
    split at found
    case isTrue => cases found
    case isFalse closed =>
    rw [not_or] at closed
    rcases head_of_stop stop with rfl | ⟨rest, rfl⟩
    · exact absurd (by rw [append_nil, length_cons]; omega) closed.1
    obtain ⟨rfl, after⟩ := hostBefore_some found
    have name : (cLeftBracket :: (host ++ cRightBracket :: rest)).take (1 + host.length + 1) =
        cLeftBracket :: (host ++ [cRightBracket]) := by
      rw [show 1 + host.length + 1 = (host.length + 1) + 1 by omega, take_succ_cons,
        take_append, take_of_length_le (by omega), Nat.add_sub_cancel_left]
      rfl
    have clear : ∀ c ∈ cLeftBracket :: (host ++ [cRightBracket]),
        isAuthorityByte c = true ∧ c ≠ cAt ∧ isIllegalByte c = false := by
      intro c member
      rcases mem_cons.mp member with rfl | member
      · decide
      rcases mem_append.mp member with inside | last
      · exact (hostChar_clear c).2 (address c inside)
      · rw [mem_singleton.mp last]
        decide
    refine ⟨true, host, ?_, fun _ => notMem_of_all all, fun plain => absurd plain (by decide), name,
      part, ?_, ?_, short⟩
    · rintro rfl
      exact closed.2 rfl
    · rw [name]
      exact clear
    · intro c member
      rw [← take_append_drop (1 + host.length + 1) (cLeftBracket :: _), mem_append] at member
      rcases member with early | late
      · rw [name] at early
        exact (clear c early).1
      · exact after c late
  case isFalse bracket =>
    change ¬ authority.head? = some cLeftBracket at bracket
    obtain ⟨host, back, rfl, all, stop⟩ := exists_cut (· ≠ cColon) authority
    have part : hostPart (host ++ back) = host := by
      unfold hostPart
      rw [if_neg bracket, takeWhile_cut all stop]
    change (let name := (host ++ back).takeWhile (· ≠ cColon)
      if name.all isHostChar = false then none
      else if name.length = 0 then none
      else HTTPSRedirect.hostBefore (host ++ back) name.length) = some length at found
    rw [takeWhile_cut all stop] at found
    dsimp only at found
    split at found
    case isTrue => cases found
    case isFalse letters =>
    rw [Bool.not_eq_false, all_eq_true] at letters
    split at found
    case isTrue => cases found
    case isFalse nonempty =>
    obtain ⟨rfl, after⟩ := hostBefore_some found
    have name : (host ++ back).take host.length = host := take_left
    have hosted : host ≠ [] := by
      rintro rfl
      exact nonempty rfl
    refine ⟨false, host, hosted, fun brackets => absurd brackets (by decide),
      fun _ => ⟨notMem_of_all all, ?_⟩, name, part, ?_, ?_, short⟩
    · rw [List.head?_append_of_ne_nil _ hosted] at bracket
      exact bracket
    · rw [name]
      intro c member
      obtain ⟨delimiter, userinfo, -, legal⟩ := (hostChar_clear c).1 (letters c member)
      exact ⟨delimiter, userinfo, legal⟩
    · intro c member
      rw [← take_append_drop host.length (host ++ back), mem_append] at member
      rcases member with early | late
      · rw [name] at early
        exact ((hostChar_clear c).1 (letters c early)).1
      · exact after c late

variable {host : Option Bytes} {target authority path : Bytes}

theorem asksFor_of_split (found : HTTPSRedirect.split host target = some (some authority, path))
    (clean : ∀ c ∈ authority, isAuthorityByte c = true) : AsksFor host target authority path := by
  unfold HTTPSRedirect.split at found
  cases scheme : HTTPSRedirect.schemeLength target with
  | some n =>
    obtain ⟨kind, text, rest, named, rfl, rfl⟩ := schemeLength_eq.mp scheme
    rw [scheme] at found
    have behind : ∀ k, (text ++ (ascii "://" ++ rest)).drop (text.length + 3 + k) = rest.drop k := by
      intro k
      rw [Nat.add_assoc, drop_append, drop_of_length_le (by omega), Nat.add_sub_cancel_left, Nat.add_comm]
      rfl
    have front := behind 0
    rw [Nat.add_zero, drop_zero] at front
    dsimp only at found
    rw [front, behind] at found
    obtain ⟨name, back, rfl, all, stop⟩ := exists_cut (fun c => c ≠ cSlash && c ≠ cQuestion) rest
    rw [takeWhile_cut all stop, drop_left] at found
    cases found
    refine .inl ⟨⟨kind, text, named, rfl⟩, clean, ?_⟩
    intro c first
    have delimiter := stop c first
    simp only [ne_eq, decide_not, Bool.and_eq_false_iff, Bool.not_eq_false', decide_eq_true_eq] at delimiter
    rcases delimiter with rfl | rfl <;> decide
  | none =>
    rw [scheme] at found
    dsimp only at found
    split at found
    case isTrue => cases found
    case isFalse rooted =>
      cases found
      rw [not_or, not_not] at rooted
      refine .inr ⟨?_, rfl, rfl, rooted.2⟩
      rintro ⟨authority, path, ⟨kind, text, named, rfl⟩, -⟩
      rw [schemeLength_eq.mpr ⟨kind, text, _, named, rfl, rfl⟩] at scheme
      cases scheme

theorem AsksFor.length_le (asks : AsksFor host target authority path) : path.length + 1 ≤ target.length + 1 ∧
      (path.head? ≠ some cSlash → path.length + 1 ≤ target.length) := by
  rcases asks with ⟨⟨kind, text, -, rfl⟩, -⟩ | ⟨-, -, rfl, rooted⟩
  · have three : (ascii "://").length = 3 := by decide
    simp only [length_append]
    omega
  · exact ⟨le_refl _, fun other => absurd rooted other⟩

theorem rooted_fragment (path : Bytes) : ∃ fragment : Option Bytes,
    (if path.length = 0 ∨ path.head? ≠ some cSlash then [cSlash] else []) ++ path =
      rooted path ++ fragment.elim [] (cHash :: ·) := by
  obtain ⟨kept, back, rfl, all, stop⟩ := exists_cut (· ≠ cHash) path
  have cut := takeWhile_cut all stop
  have fragment : ∃ fragment : Option Bytes, back = fragment.elim [] (cHash :: ·) := by
    rcases head_of_stop stop with rfl | ⟨rest, rfl⟩
    · exact ⟨none, rfl⟩
    · exact ⟨some rest, rfl⟩
  obtain ⟨fragment, same⟩ := fragment
  refine ⟨fragment, ?_⟩
  unfold rooted
  rw [cut, ← same]
  by_cases slash : (kept ++ back).head? = some cSlash
  · have nonempty : (kept ++ back).length ≠ 0 := by
      intro empty
      rw [length_eq_zero_iff.mp empty] at slash
      cases slash
    rw [if_pos slash, if_neg (not_or.mpr ⟨nonempty, not_not.mpr slash⟩), nil_append]
  · rw [if_neg slash, if_pos (Or.inr slash)]
    rfl

theorem head_rooted (path : Bytes) : (rooted path).head? = some cSlash := by
  unfold rooted
  split
  case isTrue slash =>
    cases path with
    | nil => cases slash
    | cons c rest =>
      cases slash
      rw [takeWhile_cons_of_pos (by decide)]
      rfl
  case isFalse => rfl

theorem mem_rooted {path : Bytes} {c : UInt8} (member : c ∈ rooted path) : c ≠ cHash ∧ (c = cSlash ∨ c ∈ path) := by
  have kept : ∀ c ∈ path.takeWhile (· ≠ cHash), c ≠ cHash ∧ (c = cSlash ∨ c ∈ path) := by
    intro c member
    exact ⟨by simpa using mem_takeWhile_imp member, Or.inr ((List.takeWhile_prefix _).subset member)⟩
  unfold rooted at member
  split at member
  · exact kept c member
  rcases mem_cons.mp member with rfl | later
  · exact ⟨by decide, Or.inl rfl⟩
  · exact kept c later

theorem length_rooted_le (asks : AsksFor host target authority path) : (rooted path).length ≤ target.length := by
  have shorter : (path.takeWhile (· ≠ cHash)).length ≤ path.length := (List.takeWhile_prefix _).length_le
  obtain ⟨general, without⟩ := asks.length_le
  unfold rooted
  split
  case isTrue => omega
  case isFalse other =>
    have less := without other
    rw [length_cons]
    omega

def writtenPort (httpsPort : UInt16) : Option Bytes :=
  if httpsPort ≠ 443 then some (writeDecimal httpsPort.toNat) else none

theorem elim_writtenPort (httpsPort : UInt16) : (writtenPort httpsPort).elim [] (cColon :: ·) =
    if httpsPort ≠ 443 then cColon :: writeDecimal httpsPort.toNat else [] := by
  unfold writtenPort
  split <;> rfl

theorem writeDecimal_ne_nil (v : Nat) : writeDecimal v ≠ [] := by
  obtain ⟨digits, same, -, some, -⟩ := writeDecimal_eq v
  rw [same]
  intro empty
  rw [map_eq_nil_iff] at empty
  rw [empty] at some
  cases some

theorem FoundHost.port_clear {authority : Bytes} {bracketed : Bool} {host : Bytes}
    (found : FoundHost authority length bracketed host) (httpsPort : UInt16) :
    ∀ c ∈ authority.take length ++ (writtenPort httpsPort).elim [] (cColon :: ·),
      isAuthorityByte c = true ∧ c ≠ cAt ∧ isIllegalByte c = false := by
  intro c member
  rcases mem_append.mp member with name | port
  · exact found.clear c name
  rw [elim_writtenPort] at port
  split at port
  · rcases mem_cons.mp port with rfl | digit
    · decide
    · exact digit_clear c (writeDecimal_digits _ c digit)
  · cases port

def FoundHost.parts {authority : Bytes} {length : Nat} {bracketed : Bool} {host path : Bytes}
    (found : FoundHost authority length bracketed host) (httpsPort : UInt16)
    (visible : ∀ c ∈ path, isIllegalByte c = false) (fragment : Option Bytes)
    (whole : (if path.length = 0 ∨ path.head? ≠ some cSlash then [cSlash] else []) ++ path =
      rooted path ++ fragment.elim [] (cHash :: ·)) : UrlParts where
  scheme := .https
  text := ascii "https"
  authority := {
    bracketed := bracketed
    host := host
    digits := writtenPort httpsPort
    hosted := found.hosted
    inside := found.inside
    plain := found.plain }
  target := rooted path
  fragment := fragment
  named := by decide
  delimited := by
    intro c member
    obtain ⟨delimiter, userinfo, -⟩ := found.port_clear httpsPort c (by rw [found.name]; exact member)
    exact ⟨delimiter, userinfo⟩
  ported := by
    intro digits explicit
    change writtenPort httpsPort = some digits at explicit
    unfold writtenPort at explicit
    split at explicit
    case isTrue =>
      cases explicit
      refine ⟨writeDecimal_ne_nil _, writeDecimal_digits _, ?_⟩
      have bound := httpsPort.toNat_lt
      rw [decimalValue_writeDecimal (by omega)]
      omega
    case isFalse => cases explicit
  aimed := by
    intro c first
    rw [head_rooted] at first
    exact .inl (Option.some.inj first).symm
  closed := fun inside => (mem_rooted inside).1 rfl
  visible := by
    intro c member
    rw [List.mem_append, List.mem_append, List.mem_append] at member
    rcases member with scheme | slashes | name | rest
    · have named : equalsLowercased (ascii "https") https.name = true := by decide
      exact UrlParts.scheme_legal named c scheme
    · have colon : (ascii "://").all (fun c => !isIllegalByte c) = true := by decide
      simpa using List.all_eq_true.mp colon c slashes
    · exact (found.port_clear httpsPort c (by rw [found.name]; exact name)).2.2
    rw [← whole] at rest
    rcases List.mem_append.mp rest with slash | inside
    · split at slash
      · rw [List.mem_singleton.mp slash]
        decide
      · cases slash
    · exact visible c inside

/-- What a location is read as: the host that was asked for, on the secure port. -/
structure NamesHost (host : Option Bytes) (target : Bytes) (httpsPort : UInt16) (value : Bytes)
    (url : HTTPURL) (authority path : Bytes) : Prop where
  asked : AsksFor host target authority path
  parsed : HTTPURL.parse value = .ok url
  scheme : url.scheme = .https
  port : url.port = httpsPort
  hostText : url.host.text value = hostPart authority
  targetPlace : ∃ front after, value = front ++ (rooted path ++ after) ∧ cHash ∉ front ∧
    (∀ c ∈ after.head?, c = cHash) ∧ url.target = .of front.length (rooted path).length
  targetText : target.length < 2 ^ 32 → url.requestTarget value = rooted path

theorem FoundHost.namesHost {bracketed : Bool} {name : Bytes}
    (found : FoundHost authority length bracketed name) (asks : AsksFor host target authority path)
    (httpsPort : UInt16) (visible : ∀ c ∈ path, isIllegalByte c = false) :
    ∃ url, NamesHost host target httpsPort (ascii "https://" ++ (authority.take length ++
        ((if httpsPort ≠ 443 then cColon :: writeDecimal httpsPort.toNat else []) ++
        ((if path.length = 0 ∨ path.head? ≠ some cSlash then [cSlash] else []) ++ path)))) url
      authority path := by
  obtain ⟨fragment, whole⟩ := rooted_fragment path
  set parts := found.parts httpsPort visible fragment whole with defined
  have named : parts.authority.name = authority.take length := found.name.symm
  have bytes : parts.bytes = ascii "https://" ++ (authority.take length ++
      ((if httpsPort ≠ 443 then cColon :: writeDecimal httpsPort.toNat else []) ++
      ((if path.length = 0 ∨ path.head? ≠ some cSlash then [cSlash] else []) ++ path))) := by
    rw [whole, ← elim_writtenPort, ← named]
    show ascii "https" ++ (ascii "://" ++ ((parts.authority.name ++ _) ++ _)) = _
    rw [append_assoc parts.authority.name]
    rfl
  have nameSize : parts.authority.name.length ≤ 255 := by
    have short := found.short
    rw [named, length_take]
    omega
  have hostSize : parts.authority.host.length ≤ parts.authority.name.length := by
    unfold Authority.name
    split
    · simp only [length_cons, length_append]
      omega
    · exact le_refl _
  have portSize : ((writtenPort httpsPort).elim [] (cColon :: ·)).length ≤ 20 := by
    have bound := httpsPort.toNat_lt
    obtain ⟨digits, same, -, -, few, -⟩ := writeDecimal_eq httpsPort.toNat
    rw [elim_writtenPort, same]
    split
    · rw [length_cons, length_map]
      exact Nat.succ_le_succ (few (by omega))
    · exact Nat.zero_le _
  have authoritySize : parts.authority.bytes.length ≤ 275 := by
    show (parts.authority.name ++ (writtenPort httpsPort).elim [] (cColon :: ·)).length ≤ 275
    rw [length_append]
    omega
  have start : parts.start = 8 := rfl
  rw [← bytes]
  refine ⟨parts.url, asks, parts.parse_bytes, rfl, ?_, ?_, ?_, ?_⟩
  · show parts.port = httpsPort
    have bound := httpsPort.toNat_lt
    have digits : parts.authority.digits = writtenPort httpsPort := rfl
    unfold UrlParts.port
    rw [digits]
    unfold writtenPort
    by_cases default : httpsPort = 443
    · rw [if_neg (not_not.mpr default), default]
      rfl
    rw [if_pos default]
    show UInt16.ofNat (decimalValue (writeDecimal httpsPort.toNat)) = httpsPort
    rw [decimalValue_writeDecimal (by omega), UInt16.ofNat_toNat]
  · obtain ⟨before, after, split, place⟩ := parts.host_place
    have offset : parts.authority.offset ≤ 1 := by
      unfold Authority.offset
      split
      · exact le_refl _
      · exact Nat.zero_le _
    have text := text_of_fits split (by omega) (by omega)
    rw [place] at text
    exact text.trans found.part.symm
  · refine ⟨parts.text ++ (ascii "://" ++ parts.authority.bytes), fragment.elim [] (cHash :: ·), ?_, ?_,
      ?_, ?_⟩
    · show parts.text ++ (ascii "://" ++ (parts.authority.bytes ++ (rooted path ++
        fragment.elim [] (cHash :: ·)))) = _
      simp only [append_assoc]
    · intro inside
      rcases mem_append.mp inside with letters | inside
      · change cHash ∈ ascii "https" at letters
        exact absurd letters (by decide)
      rcases mem_append.mp inside with slashes | inside
      · exact absurd slashes (by decide)
      · exact absurd (parts.delimited cHash inside).1 (by decide)
    · intro c first
      cases fragment with
      | none => cases first
      | some rest =>
        cases first
        rfl
    · have nonempty : rooted path ≠ [] := by
        intro empty
        have slash := head_rooted path
        rw [empty] at slash
        cases slash
      have length : (parts.text ++ (ascii "://" ++ parts.authority.bytes)).length =
          parts.start + parts.authority.bytes.length := by
        rw [← append_assoc, length_append, parts.length_start]
      rw [length]
      exact if_neg nonempty
  · intro small
    have size := length_rooted_le asks
    have text := parts.target_text_fits (by omega) (show (rooted path).length < 2 ^ 32 by omega)
    rw [parts.requestTarget_eq text]
    exact if_pos (head_rooted path)

/-- A location is refused, or names the host that was asked for. -/
theorem location_names_host (host : Option Bytes) (target : Bytes) (httpsPort : UInt16) (out : Bytes) :
    HTTPSRedirect.location host target httpsPort out = (false, out) ∨ ∃ value url authority path,
        HTTPSRedirect.location host target httpsPort out = (true, out ++ value) ∧
        NamesHost host target httpsPort value url authority path := by
  unfold HTTPSRedirect.location
  split
  case h_2 => exact .inl rfl
  case h_1 authority path found =>
    cases length : HTTPSRedirect.hostLength authority with
    | none => exact .inl rfl
    | some n =>
      dsimp only
      split
      case isTrue => exact .inl rfl
      case isFalse visible =>
        right
        obtain ⟨bracketed, name, named⟩ := hostLength_some length
        have asks := asksFor_of_split found named.whole
        have legal : ∀ c ∈ path, isIllegalByte c = false := by
          rw [Bool.not_eq_true, List.any_eq_false] at visible
          intro c member
          exact Bool.eq_false_iff.mpr (visible c member)
        obtain ⟨url, names⟩ := named.namesHost asks httpsPort legal
        exact ⟨_, url, authority, path, rfl, names⟩

/-- A location for an address that came with a plain port. -/
example : HTTPSRedirect.location (some (ascii "[::1]:8080")) (ascii "/a?b") 8443 [] =
    (true, ascii "https://[::1]:8443/a?b") := by
  decide +kernel

end AvianCore.Http
