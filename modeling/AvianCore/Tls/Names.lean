import AvianCore.Http.Bytes

/-! Which certificate a client is served, over TCP (`collect_names` and `sni_select` in avian_tls.c) and
over QUIC (`choose` in TLS13.swift over `av_certkey_matches` in avian_crypto.c). Both put a name to a
host with `av_host_matches`; they read the names out of a certificate each on its own. -/

namespace AvianCore.Tls
open AvianCore.Http (Bytes)
open List

section Choice
variable {α : Type*}

def firstOf (accepts : α → Bool) (l : List α) : Nat := (l.findIdx? accepts).getD 0

theorem forall_split_cons {P : List α → α → Prop} {a : α} {l : List α} :
    (∀ front b back, a :: l = front ++ b :: back → P front b) ↔
      P [] a ∧ ∀ front b back, l = front ++ b :: back → P (a :: front) b := by
  constructor
  · intro all
    exact ⟨all [] a l rfl, fun front b back split => all (a :: front) b back (congrArg (a :: ·) split)⟩
  · rintro ⟨first, later⟩ front b back split
    cases front with
    | nil =>
      cases split
      exact first
    | cons c front =>
      cases split
      exact later front b back rfl

/-- Two tests find the same element first if, wherever only one of them accepts, both accept one before it. -/
theorem findIdx?_eq_iff (p q : α → Bool) (l : List α) : l.findIdx? p = l.findIdx? q ↔
    ∀ front a back, l = front ++ a :: back → p a ≠ q a → ∃ b ∈ front, p b ∧ q b := by
  induction l with
  | nil => simp
  | cons a l ih =>
    rw [forall_split_cons (P := fun front a => p a ≠ q a → ∃ b ∈ front, p b ∧ q b), findIdx?_cons, findIdx?_cons]
    have shift := (Option.map_injective Nat.succ_injective).eq_iff (a := l.findIdx? p) (b := l.findIdx? q)
    rw [ih] at shift
    cases one : p a <;> cases two : q a <;> simp [one, two, shift]

theorem findIdx?_zero_iff (p : α → Bool) (a : α) (rest : List α) : (a :: rest).findIdx? p = some 0 ↔ p a := by
  rw [findIdx?_cons]
  cases p a <;> simp

/-- So do they with the first element by default, unless one of them accepts that and the other none. -/
theorem firstOf_eq_iff (p q : α → Bool) (l : List α) : firstOf p l = firstOf q l ↔
    (∀ front a back, l = front ++ a :: back → p a ≠ q a → ∃ b ∈ front, p b ∧ q b) ∨
      ∃ a rest, l = a :: rest ∧ (p a ∧ (∀ b ∈ l, ¬q b) ∨ q a ∧ ∀ b ∈ l, ¬p b) := by
  rw [← findIdx?_eq_iff]
  cases l with
  | nil => simp [firstOf]
  | cons a rest =>
    have none (r : α → Bool) : (∀ b ∈ a :: rest, ¬r b) ↔ (a :: rest).findIdx? r = .none := by simp
    simp only [none, ← findIdx?_zero_iff _ a rest, firstOf, cons.injEq, exists_eq_left', exists_and_left, and_assoc]
    cases (a :: rest).findIdx? p <;> cases (a :: rest).findIdx? q <;> simp [eq_comm]

theorem firstOf_short (accepts : α → Bool) {l : List α} (short : l.length ≤ 1) : firstOf accepts l = 0 := by
  unfold firstOf
  cases first : l.findIdx? accepts with
  | none => rfl
  | some i =>
    obtain ⟨bound, -⟩ := List.findIdx?_eq_some_iff_getElem.mp first
    show i = 0
    omega

end Choice

def cDot : UInt8 := 0x2E
def cStar : UInt8 := 0x2A

def cString (bytes : Bytes) : Bytes := bytes.takeWhile (· ≠ 0)

def toLower (c : UInt8) : UInt8 := if 0x41 ≤ c ∧ c ≤ 0x5A then c + 0x20 else c

/-- Whether `strcasecmp` returns 0. -/
def equalFold (a b : Bytes) : Bool := a.map toLower = b.map toLower

/-- `av_host_matches`, of two C strings. -/
def hostMatches (pattern host : Bytes) : Bool :=
  if pattern = [] ∨ host = [] then false
  else if pattern.take 2 = [cStar, cDot] then
    if pattern.drop 2 = [] then false
    else
      match host.dropWhile (· ≠ cDot) with
      | [] => false
      | _ :: suffix => equalFold suffix (pattern.drop 2)
  else equalFold pattern host

/-- The names of a certificate: those of its subject alternative names that are DNS names, and its
common name in UTF-8. -/
structure Certificate where
  dnsNames : List Bytes
  commonName : Option Bytes
deriving DecidableEq, Repr

/-- What is known of `X509_NAME_get_text_by_NID`, for the common name and a buffer of 256 bytes, in the system's library:
a name that fits and has no NUL is read as it is. What becomes of others is open. -/
structure CommonText where
  read : Certificate → Option Bytes
  absent : ∀ cert : Certificate, cert.commonName = none → read cert = none
  plain : ∀ (cert : Certificate) text, cert.commonName = some text → text.length < 256 → 0 ∉ text → read cert = some text

/-- The same call in the vendored library, which avian_tls.c is built with. -/
def Certificate.commonText (cert : Certificate) : Option Bytes :=
  match cert.commonName with
  | none => none
  | some text => if 0 ∈ text ∨ 256 ≤ text.length then none else some text

def addName (names : List Bytes) (name : Bytes) : List Bytes :=
  if name.length = 0 ∨ 255 < name.length then names
  else if 0 ∈ name then names
  else names ++ [name]

def collectNames (cert : Certificate) : List Bytes :=
  let names := cert.dnsNames.foldl addName []
  if names.length = 0 then
    match cert.commonText with
    | none => names
    | some common => if 0 < common.length then addName names common else names
  else names

/-- `sni_select`: the index of the context that answers. -/
def sniSelect (certs : List Certificate) (asked : Bytes) : Nat :=
  if asked = [] then 0
  else firstOf (fun cert => (collectNames cert).any fun name => hostMatches name asked) certs

/-- The loop of `av_certkey_matches` over the alternative names: whether one matched, and how many
were looked at. -/
def matchNames (host : Bytes) : List Bytes → Bool → Nat → Bool × Nat
  | [], matched, count => (matched, count)
  | name :: rest, matched, count =>
    if matched then (matched, count)
    else if name.length = 0 ∨ 256 ≤ name.length ∨ 0 ∈ name then
      matchNames host rest matched (count + 1)
    else matchNames host rest (hostMatches name host) (count + 1)

def certkeyMatches (text : CommonText) (cert : Certificate) (host : Bytes) : Bool :=
  if host.length = 0 ∨ 256 ≤ host.length ∨ 0 ∈ host then false
  else
    let (matched, dnsNames) := matchNames host cert.dnsNames false 0
    if 0 < dnsNames then matched
    else
      match text.read cert with
      | none => false
      | some common => if common.length = 0 then false else hostMatches (cString common) host

def choose (text : CommonText) (certs : List Certificate) (name : Bytes) : Nat :=
  if certs.length ≤ 1 ∨ name = [] then 0
  else firstOf (fun cert => certkeyMatches text cert name) certs

def Usable (name : Bytes) : Prop := 0 < name.length ∧ name.length < 256 ∧ 0 ∉ name

instance (name : Bytes) : Decidable (Usable name) := inferInstanceAs (Decidable (_ ∧ _ ∧ _))

def Certificate.Listed (cert : Certificate) (host : Bytes) : Prop :=
  ∃ name ∈ cert.dnsNames, Usable name ∧ hostMatches name host

def Certificate.Called (cert : Certificate) (host : Bytes) : Prop :=
  ∃ name ∈ cert.commonName, Usable name ∧ hostMatches name host

theorem commonText_eq_some {cert : Certificate} {text : Bytes} :
    cert.commonText = some text ↔ cert.commonName = some text ∧ text.length < 256 ∧ 0 ∉ text := by
  unfold Certificate.commonText
  cases cert.commonName with
  | none => simp
  | some name =>
    dsimp only
    split_ifs with refused
    · rw [Option.some.injEq]
      refine iff_of_false nofun ?_
      rintro ⟨rfl, short, clean⟩
      exact refused.elim clean (not_le.mpr short)
    push Not at refused
    rw [Option.some.injEq]
    refine (and_iff_left_of_imp ?_).symm
    rintro rfl
    exact ⟨refused.2, refused.1⟩

theorem not_usable {name : Bytes} : ¬ Usable name ↔ name.length = 0 ∨ 256 ≤ name.length ∨ 0 ∈ name := by
  unfold Usable
  rw [not_and_or, not_and_or, not_lt, not_lt, not_not, Nat.le_zero]

theorem addName_eq (names : List Bytes) (name : Bytes) :
    addName names name = if Usable name then names ++ [name] else names := by
  unfold addName
  by_cases usable : Usable name
  · obtain ⟨positive, short, clean⟩ := usable
    rw [if_neg (by omega), if_neg clean, if_pos ⟨positive, short, clean⟩]
  rw [if_neg usable]
  rcases not_usable.mp usable with empty | long | within
  · rw [if_pos (.inl empty)]
  · rw [if_pos (.inr long)]
  · rw [if_pos within, ite_self]

theorem foldl_addName (dnsNames names : List Bytes) :
    dnsNames.foldl addName names = names ++ dnsNames.filter fun name => decide (Usable name) := by
  induction dnsNames generalizing names with
  | nil => simp
  | cons name rest ih =>
    rw [foldl_cons, ih, addName_eq, filter_cons]
    by_cases usable : Usable name <;> simp [usable]

variable (cert : Certificate)

theorem any_collectNames (host : Bytes) : ((collectNames cert).any fun name => hostMatches name host) = true ↔
    cert.Listed host ∨ (∀ name ∈ cert.dnsNames, ¬ Usable name) ∧ cert.Called host := by
  have listed : ((cert.dnsNames.filter fun name => decide (Usable name)).any
      fun name => hostMatches name host) = true ↔ cert.Listed host := by
    simp only [any_eq_true, mem_filter, decide_eq_true_eq, Certificate.Listed, and_assoc]
  unfold collectNames
  rw [foldl_addName, nil_append]
  by_cases none : ∀ name ∈ cert.dnsNames, ¬ Usable name
  · have empty : (cert.dnsNames.filter fun name => decide (Usable name)) = [] := by
      rw [filter_eq_nil_iff]
      simpa using none
    have unlisted : ¬ cert.Listed host := by
      rintro ⟨name, member, usable, -⟩
      exact none name member usable
    rw [empty, if_pos length_nil, or_iff_right unlisted, and_iff_right none]
    cases text : cert.commonText with
    | none =>
      simp only [any_nil, Bool.false_eq_true, false_iff]
      rintro ⟨name, called, usable, -⟩
      rw [commonText_eq_some.mpr ⟨called, usable.2.1, usable.2.2⟩] at text
      cases text
    | some common =>
      obtain ⟨called, short, clean⟩ := commonText_eq_some.mp text
      dsimp only
      by_cases positive : 0 < common.length
      · have usable : Usable common := ⟨positive, short, clean⟩
        rw [if_pos positive, addName_eq, if_pos usable, nil_append, any_cons, any_nil, Bool.or_false]
        constructor
        · intro found
          exact ⟨common, called, usable, found⟩
        · rintro ⟨name, same, -, found⟩
          cases called.symm.trans same
          exact found
      · rw [if_neg positive]
        simp only [any_nil, Bool.false_eq_true, false_iff]
        rintro ⟨name, same, usable, -⟩
        cases called.symm.trans same
        exact positive usable.1
  · have some : (cert.dnsNames.filter fun name => decide (Usable name)).length ≠ 0 := by
      rw [ne_eq, length_eq_zero_iff, filter_eq_nil_iff]
      simpa using none
    rw [if_neg some, listed]
    constructor
    · exact .inl
    · rintro (found | ⟨all, -⟩)
      · exact found
      · exact absurd all none

theorem matchNames_count (host : Bytes) (names : List Bytes) (matched : Bool) (count : Nat) :
    count ≤ (matchNames host names matched count).2 := by
  induction names generalizing matched count with
  | nil => exact le_refl _
  | cons name rest ih =>
    unfold matchNames
    split
    · exact le_refl _
    split <;> exact (Nat.le_succ count).trans (ih _ _)

theorem matchNames_matched (host : Bytes) (names : List Bytes) (matched : Bool) (count : Nat) :
    (matchNames host names matched count).1 = true ↔
      matched = true ∨ ∃ name ∈ names, Usable name ∧ hostMatches name host := by
  induction names generalizing matched count with
  | nil => simp [matchNames]
  | cons name rest ih =>
    unfold matchNames
    cases matched with
    | true => simp
    | false =>
      rw [if_neg Bool.false_ne_true]
      simp only [← not_usable]
      by_cases usable : Usable name
      · rw [if_neg (not_not.mpr usable), ih]
        simp [usable]
      · rw [if_pos usable, ih]
        simp [usable]

def Certificate.Claims (cert : Certificate) (host : Bytes) : Prop :=
  cert.Listed host ∨ cert.dnsNames = [] ∧ cert.Called host

/-- The certificate has alternative names, none of which is usable, and a common name that covers the
host. -/
def Certificate.FallsBack (cert : Certificate) (host : Bytes) : Prop :=
  cert.dnsNames ≠ [] ∧ (∀ name ∈ cert.dnsNames, ¬ Usable name) ∧ cert.Called host

/-- The certificate has only a common name, which is too long or has a NUL, and what is read of it covers the host. -/
def Certificate.Misread (text : CommonText) (cert : Certificate) (host : Bytes) : Prop :=
  cert.dnsNames = [] ∧ (∃ name ∈ cert.commonName, 256 ≤ name.length ∨ 0 ∈ name) ∧
    ∃ read ∈ text.read cert, read ≠ [] ∧ hostMatches (cString read) host

theorem cString_plain {name : Bytes} (clean : 0 ∉ name) : cString name = name :=
  takeWhile_eq_self_iff.mpr fun _ member => decide_eq_true fun zero => clean (zero ▸ member)

theorem called_or_misread (text : CommonText) (host : Bytes) (bare : cert.dnsNames = []) :
    (∃ read ∈ text.read cert, read ≠ [] ∧ hostMatches (cString read) host) ↔
      cert.Called host ∨ cert.Misread text host := by
  unfold Certificate.Called Certificate.Misread
  cases common : cert.commonName with
  | none => simp [text.absent cert common]
  | some name =>
    by_cases plain : name.length < 256 ∧ 0 ∉ name
    · rw [text.plain cert name common plain.1 plain.2]
      simp [Usable, plain, cString_plain plain.2, length_pos_iff]
    have odd : 256 ≤ name.length ∨ 0 ∈ name := by
      by_contra neither
      push Not at neither
      exact plain neither
    have unusable : ¬ Usable name := fun usable => plain usable.2
    simp [unusable, odd, bare]

theorem certkeyMatches_iff (text : CommonText) {host : Bytes} (usable : Usable host) :
    certkeyMatches text cert host = true ↔ cert.Claims host ∨ cert.Misread text host := by
  unfold certkeyMatches Certificate.Claims
  rw [if_neg fun odd => not_usable.mpr odd usable]
  dsimp only
  cases names : cert.dnsNames with
  | cons name rest =>
    have counted : 0 < (matchNames host (name :: rest) false 0).2 := by
      unfold matchNames
      rw [if_neg Bool.false_ne_true]
      split <;> exact matchNames_count _ _ _ 1
    rw [if_pos counted, matchNames_matched]
    simp [Certificate.Listed, Certificate.Misread, names]
  | nil =>
    have unlisted : ¬ cert.Listed host := by
      rintro ⟨name, member, -⟩
      rw [names] at member
      cases member
    rw [or_iff_right unlisted, and_iff_right rfl, ← called_or_misread cert text host names, matchNames,
      if_neg (lt_irrefl 0)]
    cases text.read cert with
    | none => simp
    | some common => by_cases zero : common = [] <;> simp [zero]

theorem any_collectNames_iff (host : Bytes) : ((collectNames cert).any fun name => hostMatches name host) = true ↔
    cert.Claims host ∨ cert.FallsBack host := by
  rw [any_collectNames]
  unfold Certificate.Claims Certificate.FallsBack
  by_cases empty : cert.dnsNames = [] <;> simp [empty]

theorem Certificate.FallsBack.apart {cert : Certificate} {text : CommonText} {host : Bytes}
    (falls : cert.FallsBack host) : ¬ cert.Claims host ∧ ¬ cert.Misread text host := by
  obtain ⟨some, unusable, -⟩ := falls
  refine ⟨?_, fun misread => some misread.1⟩
  rintro (⟨name, member, usable, -⟩ | ⟨empty, -⟩)
  · exact unusable name member usable
  · exact some empty

theorem Certificate.Misread.not_claims {cert : Certificate} {text : CommonText} {host : Bytes}
    (misread : cert.Misread text host) : ¬ cert.Claims host := by
  obtain ⟨bare, ⟨name, common, odd⟩, -⟩ := misread
  rintro (⟨other, member, -⟩ | ⟨-, other, common', usable, -⟩)
  · rw [bare] at member
    cases member
  · cases common.symm.trans common'
    rcases odd with long | zero
    · exact absurd usable.2.1 (not_lt.mpr long)
    · exact usable.2.2 zero

open AvianCore.Http (ascii)

/-- A library that reads as much of a common name as fits. -/
def cutText : CommonText where
  read cert := cert.commonName.map (take 255)
  absent cert none := by rw [none]; rfl
  plain cert text common short _ := by rw [common, Option.map_some, take_of_length_le (by omega)]

def twoCertificates : List Certificate :=
  [⟨[ascii "example.com", ascii "*.example.com"], none⟩, ⟨[], some (ascii "Internal")⟩]

def forgedCertificates : List Certificate :=
  [⟨[ascii "example.com"], none⟩, ⟨[ascii "internal" ++ 0 :: ascii ".net"], some (ascii "internal")⟩]

-- a common name that is cut at its NUL
example : sniSelect [⟨[ascii "a"], none⟩, ⟨[], some [0x62, 0]⟩] [0x62] = 0 ∧
    choose cutText [⟨[ascii "a"], none⟩, ⟨[], some [0x62, 0]⟩] [0x62] = 1 := by decide

/-- A name covers itself up to case, and behind `*.` every name with one label more, which is not empty. -/
def Covers (pattern host : Bytes) : Prop :=
  pattern ≠ [] ∧ host ≠ [] ∧
    (pattern.take 2 ≠ [cStar, cDot] ∧ equalFold pattern host = true ∨
      ∃ suffix label suffix', pattern = cStar :: cDot :: suffix ∧ suffix ≠ [] ∧ host = label ++ cDot :: suffix' ∧
        equalFold suffix' suffix = true ∧ label ≠ [] ∧ cDot ∉ label)

theorem equalFold_symm (a b : Bytes) : equalFold a b = equalFold b a := by
  unfold equalFold
  rw [decide_eq_decide]
  exact eq_comm

theorem toLower_mark : ∀ c : UInt8, (toLower c = toLower cStar → c = cStar) ∧ (toLower c = toLower cDot → c = cDot) := by
  decide +kernel

theorem hostMatches_wildcard {suffix host : Bytes} : hostMatches (cStar :: cDot :: suffix) host = true ↔
    suffix ≠ [] ∧ ∃ label suffix', host = label ++ cDot :: suffix' ∧ cDot ∉ label ∧ equalFold suffix' suffix = true := by
  have cut : host.takeWhile (· ≠ cDot) ++ host.dropWhile (· ≠ cDot) = host := takeWhile_append_dropWhile
  unfold hostMatches
  rw [if_pos (show (cStar :: cDot :: suffix).take 2 = [cStar, cDot] from rfl)]
  rw [drop_succ_cons, drop_succ_cons, drop_zero]
  constructor
  · intro matched
    by_cases empty : cStar :: cDot :: suffix = [] ∨ host = []
    · rw [if_pos empty] at matched
      cases matched
    by_cases bare : suffix = []
    · rw [if_neg empty, if_pos bare] at matched
      cases matched
    rw [if_neg empty, if_neg bare] at matched
    refine ⟨bare, ?_⟩
    cases behind : host.dropWhile (· ≠ cDot) with
    | nil =>
      rw [behind] at matched
      cases matched
    | cons c suffix' =>
      rw [behind] at matched cut
      have dot : c = cDot := by
        have stopped := List.head?_dropWhile_not (· ≠ cDot) host
        rw [behind] at stopped
        simpa using stopped
      refine ⟨_, suffix', by rw [← dot]; exact cut.symm, ?_, matched⟩
      intro member
      simpa using mem_takeWhile_imp member
  · rintro ⟨bare, label, suffix', rfl, without, same⟩
    have rest : (label ++ cDot :: suffix').dropWhile (· ≠ cDot) = cDot :: suffix' := by
      rw [dropWhile_append_of_pos]
      · exact dropWhile_cons_of_neg (by simp)
      · intro c member
        exact decide_eq_true (fun dot => without (dot ▸ member))
    rw [if_neg (by simp), if_neg bare, rest]
    exact same

theorem label_of_dot {label tail suffix : Bytes} (split : cDot :: tail = label ++ cDot :: suffix) (full : label ≠ [])
    (without : cDot ∉ label) : False := by
  obtain ⟨c, rest, rfl⟩ := exists_cons_of_ne_nil full
  rw [cons_append, List.cons.injEq] at split
  exact without (by rw [← split.1]; exact mem_cons_self)

theorem covers_wildcard (suffix host : Bytes) : Covers (cStar :: cDot :: suffix) host ↔ suffix ≠ [] ∧
    ∃ label suffix', host = label ++ cDot :: suffix' ∧ equalFold suffix' suffix = true ∧ label ≠ [] ∧ cDot ∉ label := by
  constructor
  · rintro ⟨-, -, ⟨plain, -⟩ | ⟨own, label, suffix', named, bare, split, same, full, without⟩⟩
    · exact absurd rfl plain
    · cases named
      exact ⟨bare, label, suffix', split, same, full, without⟩
  · rintro ⟨bare, label, suffix', split, same, full, without⟩
    exact ⟨by simp, by simp [split], Or.inr ⟨suffix, label, suffix', rfl, bare, split, same, full, without⟩⟩

theorem label_before_dot (suffix tail : Bytes) : (∃ label suffix', cDot :: tail = label ++ cDot :: suffix' ∧
    cDot ∉ label ∧ equalFold suffix' suffix = true) ↔ equalFold tail suffix = true := by
  constructor
  · rintro ⟨label, suffix', split, without, same⟩
    cases label with
    | nil =>
      cases split
      exact same
    | cons c rest =>
      rw [cons_append, List.cons.injEq] at split
      exact absurd mem_cons_self (split.1 ▸ without)
  · intro same
    exact ⟨[], tail, rfl, by simp, same⟩

section
variable {pattern : Bytes} (plain : pattern.take 2 ≠ [cStar, cDot])
include plain

theorem hostMatches_plain (host : Bytes) : hostMatches pattern host = true ↔ Covers pattern host := by
  unfold hostMatches Covers
  constructor
  · intro matched
    by_cases empty : pattern = [] ∨ host = []
    · rw [if_pos empty] at matched
      cases matched
    rw [if_neg empty, if_neg plain] at matched
    push Not at empty
    exact ⟨empty.1, empty.2, Or.inl ⟨plain, matched⟩⟩
  · rintro ⟨named, asked, ⟨-, same⟩ | ⟨suffix, -, -, rfl, -⟩⟩
    · rw [if_neg (not_or.mpr ⟨named, asked⟩), if_neg plain]
      exact same
    · exact absurd rfl plain

theorem equalFold_plain (tail : Bytes) : equalFold pattern (cStar :: cDot :: tail) = false := by
  rw [Bool.eq_false_iff]
  intro same
  have mapped : pattern.map toLower = toLower cStar :: toLower cDot :: tail.map toLower := of_decide_eq_true same
  obtain ⟨c, rest, rfl, first, others⟩ := map_eq_cons_iff.mp mapped
  obtain ⟨d, rest', rfl, second, -⟩ := map_eq_cons_iff.mp others
  rw [(toLower_mark c).1 first, (toLower_mark d).2 second] at plain
  exact plain rfl

end

/-- `av_host_matches` covers what it should except for a host with an empty first label: one that begins with a
dot is covered by the pattern that has a star before that dot. -/
theorem hostMatches_covers_iff (pattern host : Bytes) : (hostMatches pattern host = true ↔ Covers pattern host) ↔
    (host.head? = some cDot → host = [cDot] ∨ equalFold pattern (cStar :: host) = false) := by
  by_cases wild : pattern.take 2 = [cStar, cDot]
  · obtain ⟨suffix, rfl⟩ : ∃ suffix, pattern = cStar :: cDot :: suffix := by
      refine ⟨pattern.drop 2, ?_⟩
      have parts := List.take_append_drop 2 pattern
      rw [wild] at parts
      exact parts.symm
    rw [hostMatches_wildcard, covers_wildcard]
    by_cases dotted : host.head? = some cDot
    · -- the first label is empty, which the definition of a wildcard does not allow
      obtain ⟨tail, rfl⟩ : ∃ tail, host = cDot :: tail := List.head?_eq_some_iff.mp dotted
      have never : ¬ ∃ label suffix', cDot :: tail = label ++ cDot :: suffix' ∧ equalFold suffix' suffix = true ∧
          label ≠ [] ∧ cDot ∉ label := by
        rintro ⟨label, suffix', split, -, full, without⟩
        exact label_of_dot split full without
      have fold : equalFold (cStar :: cDot :: suffix) (cStar :: cDot :: tail) = equalFold tail suffix := by
        rw [equalFold_symm tail]
        simp [equalFold]
      have lengths : equalFold tail suffix = true → (tail = [] ↔ suffix = []) := by
        intro same
        have mapped : tail.map toLower = suffix.map toLower := of_decide_eq_true same
        rw [← List.map_eq_nil_iff (f := toLower), mapped, List.map_eq_nil_iff]
      rw [label_before_dot, fold, Bool.eq_false_iff]
      simp only [List.head?_cons, forall_const, List.cons.injEq, true_and]
      rw [iff_false_intro never, and_false, iff_false, not_and_or, not_not]
      by_cases same : equalFold tail suffix = true
      · rw [lengths same]
      · exact iff_of_true (Or.inr same) (Or.inr same)
    · have full : ∀ label suffix', host = label ++ cDot :: suffix' → label ≠ [] := by
        rintro label suffix' rfl rfl
        exact dotted rfl
      refine iff_of_true ⟨?_, ?_⟩ (fun first => absurd first dotted)
      · rintro ⟨bare, label, suffix', split, without, same⟩
        exact ⟨bare, label, suffix', split, same, full label suffix' split, without⟩
      · rintro ⟨bare, label, suffix', split, same, -, without⟩
        exact ⟨bare, label, suffix', split, without, same⟩
  · refine iff_of_true (hostMatches_plain wild host) fun dotted => Or.inr ?_
    obtain ⟨tail, rfl⟩ : ∃ tail, host = cDot :: tail := List.head?_eq_some_iff.mp dotted
    exact equalFold_plain wild tail

/-- A pattern with a star covers a host of two labels. -/
theorem hostMatches_covers_label : (hostMatches [cStar, cDot, 0x61] [0x62, cDot, 0x41] = true ↔
    Covers [cStar, cDot, 0x61] [0x62, cDot, 0x41]) :=
  (hostMatches_covers_iff [cStar, cDot, 0x61] [0x62, cDot, 0x41]).mpr (by decide)

/-- `*.a` is taken to cover `.a`, whose first label is empty. -/
theorem hostMatches_empty_label : hostMatches [cStar, cDot, 0x61] [cDot, 0x61] = true ∧
    ¬ Covers [cStar, cDot, 0x61] [cDot, 0x61] := by
  refine ⟨by decide, ?_⟩
  rintro ⟨-, -, ⟨plain, -⟩ | ⟨suffix, label, suffix', -, -, split, -, full, without⟩⟩
  · exact plain rfl
  · exact label_of_dot split full without

end AvianCore.Tls
