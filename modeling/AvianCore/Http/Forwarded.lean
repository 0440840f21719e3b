import AvianCore.Http.Values

/-!
Who the client is behind trusted proxies (`ForwardedTrust.swift`): the lines of `X-Forwarded-For`, read from
the right past every trusted hop, and the parameters of `Forwarded`, of which the last ones count.
`av_parse_ip` is outside of this model and stands as a parameter.
-/

namespace AvianCore.Http
open List Nat

def cQuote : UInt8 := 34
def cDot : UInt8 := 46
def cEquals : UInt8 := 61

inductive IPFamily
  | v4
  | v6
deriving DecidableEq, Repr

/-- What `av_parse_ip` gives; an IPv4 address is the first four bytes. -/
structure Address where
  family : IPFamily
  bytes : Bytes
  sixteen : bytes.length = 16
deriving DecidableEq, Repr

/-- A trusted address or network. -/
structure TrustedNet where
  address : Address
  bits : Nat
  bits_le : bits ≤ 128
deriving DecidableEq, Repr

/-- `ForwardedTrust.matches`, from the bytes that have not been compared yet. -/
def matchBits : Nat → Bytes → Bytes → Bool
  | bits, n :: net, r :: raw =>
    if 8 ≤ bits then
      if n ≠ r then false else matchBits (bits - 8) net raw
    else if 0 < bits then
      let mask := UInt8.ofNat (0xFF * 2 ^ (8 - bits))
      n &&& mask = r &&& mask
    else true
  | _, _, _ => true

def TrustedNet.covers (net : TrustedNet) (address : Address) : Bool :=
  net.address.family = address.family && matchBits net.bits net.address.bytes address.bytes

structure ForwardedTrust where
  trustAll : Bool
  trustUnix : Bool
  nets : List TrustedNet
deriving DecidableEq, Repr

def ForwardedTrust.isEmpty (trust : ForwardedTrust) : Bool := !trust.trustAll && !trust.trustUnix && trust.nets.isEmpty

/-- Whether an address may be believed. It is handed over as a C string, which ends at a zero byte. -/
def ForwardedTrust.trusts (parseIP : Bytes → Option Address) (trust : ForwardedTrust) (addr : Bytes) : Bool :=
  if trust.trustAll then true
  else if addr = ascii "unix" then trust.trustUnix
  else if trust.nets = [] then false
  else
    match parseIP (addr.takeWhile (· ≠ 0)) with
    | none => false
    | some address => trust.nets.any fun net => net.covers address

def unquote (s : Bytes) : Bytes :=
  if 2 ≤ s.length ∧ s.head? = some cQuote ∧ s.getLast? = some cQuote then (s.drop 1).dropLast else s

/-- Takes off quotes, the brackets of an IPv6 address, and a port that follows the only colon. -/
def normalize (v : Bytes) : Bytes :=
  let s := unquote v
  if 2 ≤ s.length ∧ s.head? = some cLeftBracket then (s.drop 1).takeWhile (· ≠ cRightBracket)
  else if s.count cColon = 1 ∧ s.head? ≠ some cColon then s.takeWhile (· ≠ cColon)
  else s

def lastElement (v : Bytes) : Bytes := trim (v.rtakeWhile (· ≠ cComma))

/-- One line's walk from the right: the first untrusted element, and the last element that was seen. -/
def walkLine (trusts : Bytes → Bool) : Nat → Bytes → Option Bytes → Option Bytes × Option Bytes
  | 0, _, leftmost => (none, leftmost)
  | fuel + 1, list, leftmost =>
    if list = [] then (none, leftmost)
    else
      let element := normalize (trim (list.rtakeWhile (· ≠ cComma)))
      let before := list.rdropWhile (· ≠ cComma)
      let leftmost := if element ≠ [] then some element else leftmost
      if element ≠ [] ∧ trusts element = false then (some element, leftmost)
      else if before = [] then (none, leftmost)
      else walkLine trusts fuel before.dropLast leftmost

def rightmostUntrusted (trusts : Bytes → Bool) : List Bytes → Option Bytes → Option Bytes
  | [], leftmost => leftmost
  | line :: earlier, leftmost =>
    match walkLine trusts line.length line leftmost with
    | (some found, _) => some found
    | (none, leftmost) => rightmostUntrusted trusts earlier leftmost

def endsParameterName (c : UInt8) : Bool := c = cEquals || c = cSemicolon || c = cComma

def endsParameter (c : UInt8) : Bool := c = cSemicolon || c = cComma

/-- The value of a parameter and what follows it. A quoted value goes to the next quote. -/
def parameterValue : Bytes → Bytes × Bytes
  | [] => ([], [])
  | c :: rest =>
    if c = cQuote then
      let after := rest.dropWhile (· ≠ cQuote)
      (c :: rest.takeWhile (· ≠ cQuote) ++ after.take 1, after.drop 1)
    else ((c :: rest).takeWhile (! endsParameter ·), (c :: rest).dropWhile (! endsParameter ·))

/-- The parameters of a value: name and value as they stand. The byte behind a parameter is skipped. -/
def parameters : Nat → Bytes → List (Bytes × Bytes)
  | 0, _ => []
  | fuel + 1, p =>
    if p = [] then []
    else
      let name := p.takeWhile (! endsParameterName ·)
      match p.dropWhile (! endsParameterName ·) with
      | [] => []
      | c :: rest =>
        if c = cEquals then
          let value := parameterValue rest
          (name, value.1) :: parameters fuel (value.2.drop 1)
        else parameters fuel rest

structure ForwardedInfo where
  client : Option Bytes
  https : Option Bool
deriving DecidableEq, Repr

def ForwardedInfo.none : ForwardedInfo := ⟨Option.none, Option.none⟩

def schemeOf (p : Bytes) : Option Bool :=
  if equalsLowercased p (ascii "https") then some true
  else if equalsLowercased p (ascii "http") then some false
  else Option.none

def applyParameter (info : ForwardedInfo) (parameter : Bytes × Bytes) : ForwardedInfo :=
  let name := trim parameter.1
  let element := normalize (trim parameter.2)
  if equalsLowercased name (ascii "for") then
    if element ≠ [] then { info with client := some element } else info
  else if equalsLowercased name (ascii "proto") then { info with https := (schemeOf element).or info.https }
  else info

/-- `Forwarded.readRFC7239`. Every turn takes a byte, so that as many turns as bytes are enough. -/
def readRFC7239 (value : Bytes) (info : ForwardedInfo) : ForwardedInfo :=
  (parameters value.length value).foldl applyParameter info

def namedValues (headers : List (Bytes × Bytes)) (name : Bytes) : List Bytes :=
  (headers.filter fun header => equalsLowercased header.1 name).map Prod.snd

/-- `Forwarded.read`, from the names and values of the fields. -/
def readForwarded (parseIP : Bytes → Option Address) (trust : ForwardedTrust)
    (headers : List (Bytes × Bytes)) : ForwardedInfo :=
  if trust.isEmpty then .none
  else
    let forwardedFor := namedValues headers (ascii "x-forwarded-for")
    let client :=
      if forwardedFor = [] then none
      else rightmostUntrusted (trust.trusts parseIP) forwardedFor.reverse none
    let https := (namedValues headers (ascii "x-forwarded-proto")).getLast?.bind (schemeOf ∘ lastElement)
    if client = none ∧ https = none then
      match (namedValues headers (ascii "forwarded")).getLast? with
      | some value => readRFC7239 value ⟨client, https⟩
      | none => ⟨client, https⟩
    else ⟨client, https⟩

def bitAt (p : Bytes) (i : Nat) : Bool := (p.getD (i / 8) 0).toNat.testBit (7 - i % 8)

theorem bitAt_cons_lt (c : UInt8) (p : Bytes) {i : Nat} (first : i < 8) :
    bitAt (c :: p) i = c.toNat.testBit (7 - i) := by
  rw [bitAt, div_eq_of_lt first, mod_eq_of_lt first]
  rfl

theorem bitAt_cons_add (c : UInt8) (p : Bytes) (i : Nat) : bitAt (c :: p) (i + 8) = bitAt p i := by
  rw [bitAt, add_div_right i (by decide), add_mod_right]
  rfl

theorem testBit_ge_eight (c : UInt8) {i : Nat} (high : 8 ≤ i) : c.toNat.testBit i = false := by
  apply testBit_lt_two_pow
  calc c.toNat < 2 ^ 8 := c.toNat_lt
    _ ≤ 2 ^ i := Nat.pow_le_pow_right (by decide) high

theorem eq_of_bits {n r : UInt8} (same : ∀ i < 8, n.toNat.testBit (7 - i) = r.toNat.testBit (7 - i)) : n = r := by
  apply UInt8.toNat_inj.mp
  apply eq_of_testBit_eq
  intro i
  by_cases low : i < 8
  · have bit := same (7 - i) (by omega)
    rwa [show 7 - (7 - i) = i by omega] at bit
  · rw [testBit_ge_eight n (by omega), testBit_ge_eight r (by omega)]

theorem testBit_mask {bits j : Nat} (some : 0 < bits) (few : bits < 8) (low : j < 8) :
    (UInt8.ofNat (0xFF * 2 ^ (8 - bits))).toNat.testBit j = decide (8 - bits ≤ j) := by
  have all : ∀ b : Fin 8, ∀ k : Fin 8, 0 < b.val →
      (UInt8.ofNat (0xFF * 2 ^ (8 - b.val))).toNat.testBit k.val = decide (8 - b.val ≤ k.val) := by decide
  exact all ⟨bits, few⟩ ⟨j, low⟩ some

theorem masked_eq_iff {bits : Nat} (some : 0 < bits) (few : bits < 8) (n r : UInt8) :
    (n &&& UInt8.ofNat (0xFF * 2 ^ (8 - bits)) = r &&& UInt8.ofNat (0xFF * 2 ^ (8 - bits))) ↔
      ∀ i < bits, n.toNat.testBit (7 - i) = r.toNat.testBit (7 - i) := by
  constructor
  · intro same i below
    have bit := congrArg (fun c : UInt8 => c.toNat.testBit (7 - i)) same
    rw [UInt8.toNat_and, UInt8.toNat_and, testBit_and, testBit_and,
      testBit_mask some few (by omega), decide_eq_true (by omega), Bool.and_true, Bool.and_true] at bit
    exact bit
  · intro same
    apply eq_of_bits
    intro i below
    rw [UInt8.toNat_and, UInt8.toNat_and, testBit_and, testBit_and, testBit_mask some few (by omega)]
    by_cases inside : i < bits
    · rw [same i inside]
    · rw [decide_eq_false (by omega), Bool.and_false, Bool.and_false]

theorem matchBits_iff {net raw : Bytes} {bits : Nat} (lengths : net.length = raw.length) (few : bits ≤ 8 * net.length) :
    matchBits bits net raw = true ↔ ∀ i < bits, bitAt net i = bitAt raw i := by
  induction net generalizing raw bits with
  | nil =>
    rw [length_nil] at few
    rw [matchBits]
    constructor
    · intro _ i below
      omega
    · intro _
      rfl
    · intro n net r raw impossible
      cases impossible
  | cons n net ih =>
    cases raw with
    | nil => cases lengths
    | cons r raw =>
      rw [length_cons] at few
      rw [matchBits]
      by_cases whole : 8 ≤ bits
      · rw [if_pos whole]
        by_cases same : n = r
        · rw [if_neg (not_not.mpr same), ih (Nat.succ.inj lengths) (by omega), same]
          constructor
          · intro later i below
            by_cases first : i < 8
            · rw [bitAt_cons_lt r net first, bitAt_cons_lt r raw first]
            obtain ⟨k, rfl⟩ : ∃ k, i = k + 8 := ⟨i - 8, by omega⟩
            rw [bitAt_cons_add, bitAt_cons_add]
            exact later k (by omega)
          · intro all i below
            have bit := all (i + 8) (by omega)
            rwa [bitAt_cons_add, bitAt_cons_add] at bit
        · rw [if_pos same]
          constructor
          · intro impossible
            cases impossible
          · intro all
            apply absurd _ same
            apply eq_of_bits
            intro i below
            have bit := all i (by omega)
            rwa [bitAt_cons_lt n net below, bitAt_cons_lt r raw below] at bit
      · rw [if_neg whole]
        by_cases some : 0 < bits
        · rw [if_pos some, decide_eq_true_eq, masked_eq_iff some (by omega)]
          constructor
          · intro all i below
            rw [bitAt_cons_lt n net (by omega), bitAt_cons_lt r raw (by omega)]
            exact all i below
          · intro all i below
            have bit := all i below
            rwa [bitAt_cons_lt n net (by omega), bitAt_cons_lt r raw (by omega)] at bit
        · rw [if_neg some]
          constructor
          · intro _ i below
            omega
          · intro _
            rfl

theorem covers_iff (net : TrustedNet) (address : Address) :
    net.covers address = true ↔ net.address.family = address.family ∧
      ∀ i < net.bits, bitAt net.address.bytes i = bitAt address.bytes i := by
  have bits := net.bits_le
  rw [TrustedNet.covers, Bool.and_eq_true, decide_eq_true_eq, matchBits_iff]
  · rw [net.address.sixteen, address.sixteen]
  · rw [net.address.sixteen]
    omega

def elementsOf (value : Bytes) : List Bytes :=
  ((value.splitOn cComma).map fun element => normalize (trim element)).filter (· ≠ [])

def lastUntrusted (trusts : Bytes → Bool) (elements : List Bytes) : Option Bytes :=
  (elements.reverse.find? fun element => ! trusts element).or elements.head?

theorem elementsOf_append (p q : Bytes) : elementsOf (p ++ cComma :: q) = elementsOf p ++ elementsOf q := by
  rw [elementsOf, splitOn_append_cons_self, map_append, filter_append]
  rfl

theorem elementsOf_single {p : Bytes} (single : cComma ∉ p) :
    elementsOf p = if normalize (trim p) ≠ [] then [normalize (trim p)] else [] := by
  rw [elementsOf, splitOn_eq_singleton single, map_singleton]
  by_cases empty : normalize (trim p) = []
  · rw [empty]
    rfl
  · rw [if_pos empty, filter_cons_of_pos (by simpa using empty)]
    rfl

theorem elementsOf_nil : elementsOf [] = [] := by decide

theorem elementsOf_joined (lines : List Bytes) :
    elementsOf ([cComma].intercalate lines) = lines.flatMap elementsOf := by
  induction lines with
  | nil => exact elementsOf_nil
  | cons line lines ih =>
    cases lines with
    | nil => rw [flatMap_cons, flatMap_nil, append_nil, intercalate_singleton]
    | cons next lines =>
      rw [flatMap_cons, ← ih, ← elementsOf_append, intercalate_cons_cons]
      congr 1
      simp

theorem exists_last_element (list : Bytes) : cComma ∉ list.rtakeWhile (· ≠ cComma) ∧
    (list.rdropWhile (· ≠ cComma) = [] ∧ list = list.rtakeWhile (· ≠ cComma) ∨ list.rdropWhile (· ≠ cComma) ≠ [] ∧
      list = (list.rdropWhile (· ≠ cComma)).dropLast ++ cComma :: list.rtakeWhile (· ≠ cComma)) := by
  have whole : list.rdropWhile (· ≠ cComma) ++ list.rtakeWhile (· ≠ cComma) = list := by
    rw [List.rdropWhile, List.rtakeWhile, ← reverse_append, takeWhile_append_dropWhile, reverse_reverse]
  have single : cComma ∉ list.rtakeWhile (· ≠ cComma) := by
    intro member
    have inside := mem_takeWhile_imp (mem_reverse.mp member)
    simp at inside
  refine ⟨single, ?_⟩
  by_cases first : list.rdropWhile (· ≠ cComma) = []
  · left
    refine ⟨first, ?_⟩
    rw [first, nil_append] at whole
    exact whole.symm
  right
  refine ⟨first, ?_⟩
  have last : (list.rdropWhile (· ≠ cComma)).getLast first = cComma := by
    have stop := rdropWhile_last_not (fun c : UInt8 => decide (c ≠ cComma)) list first
    simpa using stop
  have ending := dropLast_append_getLast first
  rw [last] at ending
  conv_lhs => rw [← whole, ← ending, append_assoc]
  rfl

variable (trusts : Bytes → Bool)

theorem walkLine_eq {fuel : Nat} {list : Bytes} (enough : list.length ≤ fuel) (leftmost : Option Bytes) :
    walkLine trusts fuel list leftmost =
      match (elementsOf list).reverse.find? (fun element => ! trusts element) with
      | some found => (some found, some found)
      | none => (none, (elementsOf list).head?.or leftmost) := by
  induction fuel generalizing list leftmost with
  | zero =>
    rw [length_eq_zero_iff.mp (le_zero.mp enough), elementsOf_nil]
    rfl
  | succ fuel ih =>
    rw [walkLine]
    by_cases bare : list = []
    · rw [if_pos bare, bare, elementsOf_nil]
      rfl
    rw [if_neg bare]
    obtain ⟨single, split⟩ := exists_last_element list
    generalize list.rtakeWhile (· ≠ cComma) = last at single split ⊢
    generalize list.rdropWhile (· ≠ cComma) = before at split ⊢
    have here := elementsOf_single single
    rcases split with first | later
    · -- the element is the whole list
      dsimp only
      rw [first.1, first.2, here]
      generalize normalize (trim last) = element
      by_cases empty : element = []
      · simp [empty]
      by_cases trusted : trusts element = true <;> simp [empty, trusted]
    · have elements : elementsOf list = elementsOf before.dropLast ++ elementsOf last := by
        rw [later.2, elementsOf_append]
      have shorter : before.dropLast.length ≤ fuel := by
        have total := congrArg List.length later.2
        rw [length_append, length_cons] at total
        omega
      dsimp only
      rw [elements, here, if_neg later.1, ih shorter]
      generalize normalize (trim last) = element
      by_cases empty : element = []
      · simp [empty]
      by_cases trusted : trusts element = true <;> simp [empty, trusted]

theorem rightmostUntrusted_eq (lines : List Bytes) (leftmost : Option Bytes) :
    rightmostUntrusted trusts lines.reverse leftmost =
      (lastUntrusted trusts (lines.flatMap elementsOf)).or leftmost := by
  induction lines using List.reverseRecOn generalizing leftmost with
  | nil => rfl
  | append_singleton lines line ih =>
    rw [reverse_append, reverse_singleton, singleton_append, rightmostUntrusted,
      walkLine_eq trusts (le_refl _), flatMap_append, flatMap_singleton, lastUntrusted,
      reverse_append, List.find?_append]
    cases (elementsOf line).reverse.find? fun element => ! trusts element with
    | some found => rfl
    | none =>
      dsimp only
      rw [ih, lastUntrusted, Option.none_or, List.head?_append, Option.or_assoc, Option.or_assoc, Option.or_assoc]

/-- The lines of `X-Forwarded-For` as one list. -/
def forwardedFor (headers : List (Bytes × Bytes)) : Bytes :=
  [cComma].intercalate (namedValues headers (ascii "x-forwarded-for"))

/-- Nothing but `X-Forwarded-For` speaks of the client. -/
def OnlyForwardedFor (headers : List (Bytes × Bytes)) : Prop :=
  namedValues headers (ascii "x-forwarded-proto") = [] ∧ namedValues headers (ascii "forwarded") = []

def EndsWith (list appended : Bytes) : Prop := list = appended ∨ ∃ before, list = before ++ cComma :: appended

theorem readForwarded_client {parseIP : Bytes → Option Address} {trust : ForwardedTrust}
    (believed : trust.isEmpty = false) {headers : List (Bytes × Bytes)} (only : OnlyForwardedFor headers) :
    (readForwarded parseIP trust headers).client =
      lastUntrusted (trust.trusts parseIP) (elementsOf (forwardedFor headers)) := by
  have walk := rightmostUntrusted_eq (trust.trusts parseIP) (namedValues headers (ascii "x-forwarded-for")) none
  rw [Option.or_none, ← elementsOf_joined] at walk
  unfold readForwarded forwardedFor
  dsimp only
  rw [only.1, only.2, walk]
  by_cases bare : namedValues headers (ascii "x-forwarded-for") = []
  · simp [believed, bare, elementsOf_nil, lastUntrusted]
  · simp [believed, bare]

theorem lastUntrusted_append (before : List Bytes) {after : List Bytes}
    (found : ∃ element ∈ after, trusts element = false) :
    lastUntrusted trusts (before ++ after) = lastUntrusted trusts after := by
  obtain ⟨element, member, untrusted⟩ := found
  have isSome : (after.reverse.find? fun element => ! trusts element).isSome := by
    rw [List.find?_isSome]
    exact ⟨element, mem_reverse.mpr member, by rw [untrusted]; rfl⟩
  obtain ⟨client, is⟩ := Option.isSome_iff_exists.mp isSome
  rw [lastUntrusted, lastUntrusted, reverse_append, List.find?_append, is]
  rfl

theorem lastUntrusted_endsWith {list appended : Bytes} (ends : EndsWith list appended)
    (found : ∃ element ∈ elementsOf appended, trusts element = false) :
    lastUntrusted trusts (elementsOf list) = lastUntrusted trusts (elementsOf appended) := by
  rcases ends with same | ⟨before, split⟩
  · rw [same]
  · rw [split, elementsOf_append, lastUntrusted_append trusts _ found]

/-- The client is the last element that is not trusted, and else the first one. So what stands before
appended elements, one of which is untrusted, cannot change it. A net matches by family and leading bits. -/
theorem forwarded_for_client (parseIP : Bytes → Option Address) (trust : ForwardedTrust)
    (believed : trust.isEmpty = false) :
    (∀ headers, OnlyForwardedFor headers → (readForwarded parseIP trust headers).client =
        lastUntrusted (trust.trusts parseIP) (elementsOf (forwardedFor headers))) ∧
    (∀ headers headers' appended, OnlyForwardedFor headers → OnlyForwardedFor headers' →
      EndsWith (forwardedFor headers) appended → EndsWith (forwardedFor headers') appended →
      (∃ element ∈ elementsOf appended, trust.trusts parseIP element = false) →
      (readForwarded parseIP trust headers).client = (readForwarded parseIP trust headers').client) ∧
    ∀ (net : TrustedNet) (address : Address), net.covers address = true ↔ net.address.family = address.family ∧
        ∀ i < net.bits, bitAt net.address.bytes i = bitAt address.bytes i := by
  refine ⟨fun headers => readForwarded_client believed, ?_, covers_iff⟩
  intro headers headers' appended only only' ends ends' found
  rw [readForwarded_client believed only, readForwarded_client believed only',
    lastUntrusted_endsWith _ ends found, lastUntrusted_endsWith _ ends' found]

/-- Reads two addresses. -/
def parseTen (p : Bytes) : Option Address :=
  if p = ascii "10.0.0.1" then some ⟨.v4, [10, 0, 0, 1, 0, 0, 0, 0, 0, 0, 0, 0, 0, 0, 0, 0], rfl⟩
  else if p = ascii "203.0.113.7" then some ⟨.v4, [203, 0, 113, 7, 0, 0, 0, 0, 0, 0, 0, 0, 0, 0, 0, 0], rfl⟩
  else none

/-- Trusts 10.0.0.0/8. -/
def trustTen : ForwardedTrust :=
  ⟨false, false, [⟨⟨.v4, [10, 0, 0, 0, 0, 0, 0, 0, 0, 0, 0, 0, 0, 0, 0, 0], rfl⟩, 8, by decide⟩]⟩

theorem forwarded_for_client_ten : (readForwarded parseTen trustTen
      [(ascii "X-Forwarded-For", ascii "evil, 203.0.113.7, 10.0.0.1")]).client =
      some (ascii "203.0.113.7") := by
  have believed : trustTen.isEmpty = false := by decide
  rw [(forwarded_for_client parseTen trustTen believed).1 _ ⟨by decide, by decide⟩]
  decide +kernel

end AvianCore.Http
