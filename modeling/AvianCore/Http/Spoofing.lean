import AvianCore.Http.Forwarded

/-!
What a client can do to the `Forwarded` value that a proxy appends to. The loop that reads parameters is an
automaton over the bytes: where the client's bytes leave it inside a quoted value, it swallows what the
proxy has appended. And it never asks whether a hop is trusted.
-/

namespace AvianCore.Http
open List

/-- Where the reader is in a parameter, with the name and the value so far. -/
inductive Place
  | name (n : Bytes)
  /-- Right behind the equals sign. -/
  | start (n : Bytes)
  /-- Inside quotes; `text` follows the opening one. -/
  | quoted (n text : Bytes)
  /-- Right behind the closing quote. -/
  | closed (n v : Bytes)
  | value (n v : Bytes)
deriving DecidableEq, Repr

structure Scan where
  done : List (Bytes × Bytes)
  place : Place
deriving DecidableEq, Repr

namespace Scan

def ended (s : Scan) (n v : Bytes) : Scan := ⟨s.done ++ [(n, v)], .name []⟩

def next (s : Scan) (c : UInt8) : Scan :=
  match s.place with
  | .name n =>
    if c = cEquals then ⟨s.done, .start n⟩
    else if endsParameter c then ⟨s.done, .name []⟩
    else ⟨s.done, .name (n ++ [c])⟩
  | .start n =>
    if c = cQuote then ⟨s.done, .quoted n []⟩
    else if endsParameter c then s.ended n []
    else ⟨s.done, .value n [c]⟩
  | .quoted n text =>
    if c = cQuote then ⟨s.done, .closed n (cQuote :: text ++ [cQuote])⟩
    else ⟨s.done, .quoted n (text ++ [c])⟩
  | .closed n v => s.ended n v
  | .value n v => if endsParameter c then s.ended n v else ⟨s.done, .value n (v ++ [c])⟩

def finish (s : Scan) : List (Bytes × Bytes) :=
  match s.place with
  | .name _ => s.done
  | .start n => s.done ++ [(n, [])]
  | .quoted n text => s.done ++ [(n, cQuote :: text)]
  | .closed n v => s.done ++ [(n, v)]
  | .value n v => s.done ++ [(n, v)]

def run (s : Scan) (p : Bytes) : Scan := p.foldl next s

theorem run_append (s : Scan) (p q : Bytes) : s.run (p ++ q) = (s.run p).run q := foldl_append

theorem run_cons (s : Scan) (c : UInt8) (p : Bytes) : s.run (c :: p) = (s.next c).run p := rfl

variable (done : List (Bytes × Bytes))

theorem run_name (n : Bytes) {text : Bytes} (plain : ∀ c ∈ text, endsParameterName c = false) :
    run ⟨done, .name n⟩ text = ⟨done, .name (n ++ text)⟩ := by
  induction text generalizing n with
  | nil => rw [append_nil]; rfl
  | cons c text ih =>
    have here := plain c mem_cons_self
    unfold endsParameterName at here
    have step : next ⟨done, .name n⟩ c = ⟨done, .name (n ++ [c])⟩ := by
      simp only [next, endsParameter]
      simp_all
    rw [run_cons, step, ih _ fun d member => plain d (mem_cons_of_mem _ member), append_assoc]
    rfl

theorem run_quoted (n text : Bytes) {more : Bytes} (plain : cQuote ∉ more) :
    run ⟨done, .quoted n text⟩ more = ⟨done, .quoted n (text ++ more)⟩ := by
  induction more generalizing text with
  | nil => rw [append_nil]; rfl
  | cons c more ih =>
    have here : c ≠ cQuote := fun same => plain (same ▸ mem_cons_self)
    have step : next ⟨done, .quoted n text⟩ c = ⟨done, .quoted n (text ++ [c])⟩ := by simp only [next, if_neg here]
    rw [run_cons, step, ih _ fun member => plain (mem_cons_of_mem _ member), append_assoc]
    rfl

theorem run_value (n v : Bytes) {more : Bytes} (plain : ∀ c ∈ more, endsParameter c = false) :
    run ⟨done, .value n v⟩ more = ⟨done, .value n (v ++ more)⟩ := by
  induction more generalizing v with
  | nil => rw [append_nil]; rfl
  | cons c more ih =>
    have here := plain c mem_cons_self
    have step : next ⟨done, .value n v⟩ c = ⟨done, .value n (v ++ [c])⟩ := by
      simp only [next, here]
      rfl
    rw [run_cons, step, ih _ fun d member => plain d (mem_cons_of_mem _ member), append_assoc]
    rfl

end Scan
open Scan

variable (done : List (Bytes × Bytes))

theorem finish_start (n rest : Bytes) : (Scan.run ⟨done, .start n⟩ rest).finish =
    (Scan.run ⟨done ++ [(n, (parameterValue rest).1)], .name []⟩ ((parameterValue rest).2.drop 1)).finish := by
  cases rest with
  | nil => rfl
  | cons c rest =>
    unfold parameterValue
    dsimp only
    rw [run_cons]
    by_cases quote : c = cQuote
    · rw [if_pos quote, quote]
      have plain : cQuote ∉ rest.takeWhile (· ≠ cQuote) := by
        intro member
        have inside := mem_takeWhile_imp member
        simp at inside
      have step : Scan.next ⟨done, .start n⟩ cQuote = ⟨done, .quoted n []⟩ := rfl
      rw [step]
      conv_lhs => rw [← takeWhile_append_dropWhile (p := (· ≠ cQuote)) (l := rest)]
      rw [run_append, run_quoted _ _ _ plain, nil_append]
      have stop := List.head?_dropWhile_not (fun c : UInt8 => decide (c ≠ cQuote)) rest
      generalize rest.dropWhile (· ≠ cQuote) = after at stop ⊢
      cases after with
      | nil =>
        rw [take_nil, append_nil, drop_nil, drop_nil]
        rfl
      | cons d after =>
        have closing : d = cQuote := by simpa using stop
        rw [closing]
        cases after with
        | nil | cons e after => rfl
    · rw [if_neg quote]
      by_cases ends : endsParameter c = true
      · have step : Scan.next ⟨done, .start n⟩ c = ⟨done ++ [(n, [])], .name []⟩ := by
          simp only [Scan.next, if_neg quote, if_pos ends, Scan.ended]
        rw [step, takeWhile_cons_of_neg (by simpa using ends), dropWhile_cons_of_neg (by simpa using ends)]
        rfl
      have step : Scan.next ⟨done, .start n⟩ c = ⟨done, .value n [c]⟩ := by
        simp only [Scan.next, if_neg quote, if_neg ends]
      have plain : ∀ d ∈ rest.takeWhile (! endsParameter ·), endsParameter d = false := by
        intro d member
        have inside := mem_takeWhile_imp member
        simpa using inside
      rw [step, takeWhile_cons_of_pos (by simpa using ends), dropWhile_cons_of_pos (by simpa using ends)]
      conv_lhs => rw [← takeWhile_append_dropWhile (p := (! endsParameter ·)) (l := rest)]
      rw [run_append, run_value _ _ _ plain, singleton_append]
      have stop := List.head?_dropWhile_not (! endsParameter ·) rest
      generalize rest.dropWhile (! endsParameter ·) = after at stop ⊢
      cases after with
      | nil => rfl
      | cons d after =>
        have separator : endsParameter d = true := by simpa using stop
        have next : Scan.next ⟨done, .value n (c :: rest.takeWhile (! endsParameter ·))⟩ d =
            ⟨done ++ [(n, c :: rest.takeWhile (! endsParameter ·))], .name []⟩ := by
          simp only [Scan.next, if_pos separator, Scan.ended]
        rw [run_cons, next]
        rfl

theorem length_parameterValue (rest : Bytes) : (parameterValue rest).2.length ≤ rest.length := by
  cases rest with
  | nil => exact Nat.le_refl _
  | cons c rest =>
    unfold parameterValue
    dsimp only
    by_cases quote : c = cQuote
    · rw [if_pos quote, length_drop, length_cons]
      have less := (dropWhile_sublist (l := rest) (fun c : UInt8 => decide (c ≠ cQuote))).length_le
      omega
    · rw [if_neg quote]
      exact (dropWhile_sublist _).length_le

theorem parameters_eq {fuel : Nat} {p : Bytes} (enough : p.length ≤ fuel) (done : List (Bytes × Bytes)) :
    done ++ parameters fuel p = (Scan.run ⟨done, .name []⟩ p).finish := by
  induction fuel generalizing p done with
  | zero =>
    rw [length_eq_zero_iff.mp (Nat.le_zero.mp enough), parameters, append_nil]
    rfl
  | succ fuel ih =>
    rw [parameters]
    by_cases bare : p = []
    · rw [if_pos bare, bare, append_nil]
      rfl
    rw [if_neg bare]
    have plain : ∀ c ∈ p.takeWhile (! endsParameterName ·), endsParameterName c = false := by
      intro c member
      have inside := mem_takeWhile_imp member
      simpa using inside
    have whole := takeWhile_append_dropWhile (p := (! endsParameterName ·)) (l := p)
    have stop := List.head?_dropWhile_not (! endsParameterName ·) p
    have lengths := congrArg List.length whole
    rw [length_append] at lengths
    conv_rhs => rw [← whole]
    rw [run_append, run_name _ _ plain, nil_append]
    generalize p.takeWhile (! endsParameterName ·) = name at lengths ⊢
    generalize p.dropWhile (! endsParameterName ·) = rest at lengths stop ⊢
    cases rest with
    | nil => exact append_nil _
    | cons c rest =>
      have ends : endsParameterName c = true := by simpa using stop
      rw [length_cons] at lengths
      rw [run_cons]
      dsimp only
      by_cases equals : c = cEquals
      · have step : Scan.next ⟨done, .name name⟩ c = ⟨done, .start name⟩ := by simp only [Scan.next, if_pos equals]
        have shorter : ((parameterValue rest).2.drop 1).length ≤ fuel := by
          have less := length_parameterValue rest
          rw [length_drop]
          omega
        rw [if_pos equals, step, finish_start, ← ih shorter, append_assoc]
        rfl
      · have separator : endsParameter c = true := by
          unfold endsParameterName at ends
          unfold endsParameter
          simpa [equals] using ends
        have step : Scan.next ⟨done, .name name⟩ c = ⟨done, .name []⟩ := by
          simp only [Scan.next, if_neg equals, if_pos separator]
        rw [if_neg equals, step, ih (by omega)]

def parametersOf (p : Bytes) : List (Bytes × Bytes) := parameters p.length p

theorem parametersOf_eq (p : Bytes) : parametersOf p = (Scan.run ⟨[], .name []⟩ p).finish :=
  parameters_eq (Nat.le_refl _) []

theorem run_finish (p : Bytes) : (Scan.run ⟨done, .name []⟩ p).finish = done ++ parametersOf p :=
  (parameters_eq (Nat.le_refl _) done).symm

def EndsQuoted (p : Bytes) : Prop := ∃ n text, (Scan.run ⟨[], .name []⟩ p).place = .quoted n text

theorem parametersOf_comma {p : Bytes} (closed : ¬EndsQuoted p) (q : Bytes) :
    parametersOf (p ++ cComma :: q) = parametersOf p ++ parametersOf q := by
  have step : (Scan.run ⟨[], .name []⟩ p).next cComma = ⟨(Scan.run ⟨[], .name []⟩ p).finish, .name []⟩ := by
    unfold EndsQuoted at closed
    generalize Scan.run ⟨[], .name []⟩ p = s at closed ⊢
    obtain ⟨done, place⟩ := s
    cases place with
    | name n | start n => rfl
    | quoted n text => exact absurd ⟨n, text, rfl⟩ closed
    | closed n v | value n v => rfl
  rw [parametersOf_eq, run_append, run_cons, step, run_finish, ← parametersOf_eq]

theorem parametersOf_quoted {p q n text : Bytes} {done : List (Bytes × Bytes)}
    (inside : Scan.run ⟨[], .name []⟩ p = ⟨done, .quoted n text⟩) (plain : cQuote ∉ q) :
    parametersOf (p ++ q) = done ++ [(n, cQuote :: (text ++ q))] := by
  rw [parametersOf_eq, run_append, inside, run_quoted _ _ _ plain]
  rfl

def isIPChar (c : UInt8) : Bool := decide (0 ≤ hexValue c) || c = cDot || c = cColon

/-- A text with the characters of an IPv4 address. -/
structure IsIPv4Text (a : Bytes) : Prop where
  nonempty : a ≠ []
  plain : ∀ c ∈ a, isDigit c = true ∨ c = cDot

/-- A text with the characters of an IPv6 address, which has two colons at least. -/
structure IsIPv6Text (a : Bytes) : Prop where
  plain : ∀ c ∈ a, isIPChar c = true
  colons : 2 ≤ a.count cColon

theorem isIPChar_plain {c : UInt8} (address : isIPChar c = true) :
    isBlank c = false ∧ endsParameterName c = false ∧ c ≠ cQuote ∧ c ≠ cLeftBracket ∧ c ≠ cRightBracket := by
  have all : ∀ c : UInt8, isIPChar c = true →
      isBlank c = false ∧ endsParameterName c = false ∧ c ≠ cQuote ∧ c ≠ cLeftBracket ∧
        c ≠ cRightBracket := by decide +kernel
  exact all c address

theorem endsParameter_of_name {c : UInt8} (plain : endsParameterName c = false) : endsParameter c = false := by
  unfold endsParameterName at plain
  unfold endsParameter
  rw [Bool.or_eq_false_iff, Bool.or_eq_false_iff] at plain
  rw [Bool.or_eq_false_iff]
  exact ⟨plain.1.2, plain.2⟩

/-- The text of an address is left as it is. -/
structure PlainAddress (a : Bytes) : Prop where
  nonempty : a ≠ []
  chars : ∀ c ∈ a, isIPChar c = true
  colons : a.count cColon ≠ 1

variable {a : Bytes}

theorem IsIPv4Text.plainText (text : IsIPv4Text a) : PlainAddress a := by
  have noColon : ∀ c ∈ a, isIPChar c = true ∧ c ≠ cColon := by
    have all : ∀ c : UInt8, isDigit c = true ∨ c = cDot → isIPChar c = true ∧ c ≠ cColon := by decide +kernel
    intro c member
    exact all c (text.plain c member)
  refine ⟨text.nonempty, fun c member => (noColon c member).1, ?_⟩
  rw [count_eq_zero.mpr fun member => (noColon cColon member).2 rfl]
  decide

theorem IsIPv6Text.plainText (text : IsIPv6Text a) : PlainAddress a := by
  have colons := text.colons
  refine ⟨?_, text.plain, by omega⟩
  rintro rfl
  rw [count_nil] at colons
  omega

namespace PlainAddress
variable {a : Bytes} (plain : PlainAddress a)
include plain

theorem trim_eq : trim a = a := by
  have front : a.dropWhile isBlank = a := by
    apply dropWhile_eq_self_iff.mpr
    intro long
    have := (isIPChar_plain (plain.chars _ (getElem_mem long))).1
    rw [this]
    decide
  rw [trim, front]
  apply rdropWhile_eq_self_iff.mpr
  intro some
  have := (isIPChar_plain (plain.chars _ (getLast_mem some))).1
  rw [this]
  decide

theorem normalize_eq : normalize a = a := by
  have head : ∀ c, a.head? = some c → c ≠ cQuote ∧ c ≠ cLeftBracket := by
    intro c first
    have here := isIPChar_plain (plain.chars c (mem_of_head? first))
    exact ⟨here.2.2.1, here.2.2.2.1⟩
  have bare : unquote a = a := by
    unfold unquote
    rw [if_neg]
    intro quoted
    exact (head cQuote quoted.2.1).1 rfl
  unfold normalize
  dsimp only
  rw [bare, if_neg, if_neg]
  · intro colon
    exact plain.colons colon.1
  · intro bracket
    exact (head cLeftBracket bracket.2).2 rfl

theorem noQuote : cQuote ∉ a := fun member => (isIPChar_plain (plain.chars _ member)).2.2.1 rfl

theorem noComma : cComma ∉ a := by
  intro member
  have here := (isIPChar_plain (plain.chars _ member)).2.1
  exact absurd here (by decide)

theorem run_start (n : Bytes) : Scan.run ⟨done, .start n⟩ a = ⟨done, .value n a⟩ := by
  have ends : ∀ c ∈ a, endsParameter c = false := fun c member =>
    endsParameter_of_name (isIPChar_plain (plain.chars c member)).2.1
  have chars := plain.chars
  cases a with
  | nil => exact absurd rfl plain.nonempty
  | cons c a =>
    have step : Scan.next ⟨done, .start n⟩ c = ⟨done, .value n [c]⟩ := by
      simp only [Scan.next, if_neg (isIPChar_plain (chars c mem_cons_self)).2.2.1, ends c mem_cons_self]
      rfl
    rw [run_cons, step, run_value _ _ _ fun d member => ends d (mem_cons_of_mem _ member)]
    rfl

end PlainAddress

def schemeText (secure : Bool) : Bytes := if secure then ascii "https" else ascii "http"

def NamesScheme (parameter : Bytes × Bytes) : Prop :=
  equalsLowercased (trim parameter.1) (ascii "proto") = true ∧ schemeOf (normalize (trim parameter.2)) ≠ none

theorem applyParameter_for {n a : Bytes} (named : equalsLowercased (trim n) (ascii "for") = true)
    (plain : PlainAddress a) (info : ForwardedInfo) :
    applyParameter info (n, a) = { info with client := some a } := by
  unfold applyParameter
  dsimp only
  rw [if_pos named, plain.trim_eq, plain.normalize_eq, if_pos plain.nonempty]

theorem applyParameter_proto (info : ForwardedInfo) (secure : Bool) :
    applyParameter info (ascii "proto", schemeText secure) = { info with https := some secure } := by
  cases secure with
  | false | true => rfl

theorem applyParameter_https (info : ForwardedInfo) (parameter : Bytes × Bytes) :
    (applyParameter info parameter).https = none ↔ info.https = none ∧ ¬NamesScheme parameter := by
  unfold applyParameter NamesScheme
  dsimp only
  by_cases isFor : equalsLowercased (trim parameter.1) (ascii "for") = true
  · have other : equalsLowercased (trim parameter.1) (ascii "proto") = false := by
      unfold equalsLowercased at isFor ⊢
      rw [decide_eq_true_eq.mp isFor]
      decide
    rw [if_pos isFor, other]
    split <;> simp
  rw [if_neg isFor]
  by_cases isProto : equalsLowercased (trim parameter.1) (ascii "proto") = true
  · rw [if_pos isProto, isProto]
    dsimp only
    rw [Option.or_eq_none_iff]
    simp [and_comm]
  · rw [if_neg isProto]
    simp [isProto]

theorem foldl_applyParameter_https (parameters : List (Bytes × Bytes)) (info : ForwardedInfo) :
    (parameters.foldl applyParameter info).https = none ↔
      info.https = none ∧ ∀ parameter ∈ parameters, ¬NamesScheme parameter := by
  induction parameters generalizing info with
  | nil => simp
  | cons parameter parameters ih => rw [foldl_cons, ih, applyParameter_https, forall_mem_cons, and_assoc]

theorem readRFC7239_eq (value : Bytes) (info : ForwardedInfo) :
    readRFC7239 value info = (parametersOf value).foldl applyParameter info := rfl

theorem parametersOf_for (plain : PlainAddress a) : parametersOf (ascii " for=" ++ a) = [(ascii " for", a)] := by
  have before : Scan.run ⟨[], .name []⟩ (ascii " for=") = ⟨[], .start (ascii " for")⟩ := by decide
  rw [parametersOf_eq, run_append, before, plain.run_start]
  rfl

theorem parametersOf_for_proto (plain : PlainAddress a) (secure : Bool) :
    parametersOf (ascii " for=" ++ a ++ ascii ";proto=" ++ schemeText secure) =
      [(ascii " for", a), (ascii "proto", schemeText secure)] := by
  have before : Scan.run ⟨[], .name []⟩ (ascii " for=") = ⟨[], .start (ascii " for")⟩ := by decide
  rw [parametersOf_eq, run_append, run_append, run_append, before, plain.run_start]
  cases secure with
  | false | true => rfl

theorem schemeOf_unclosed {v : Bytes} (last : (cQuote :: v).getLast? ≠ some cQuote)
    (trimmed : trim (cQuote :: v) = cQuote :: v) :
    schemeOf (normalize (trim (cQuote :: v))) = none := by
  have bare : unquote (cQuote :: v) = cQuote :: v := by
    unfold unquote
    rw [if_neg]
    intro quoted
    exact last quoted.2.2
  have head : ∃ rest, normalize (cQuote :: v) = cQuote :: rest := by
    unfold normalize
    dsimp only
    rw [bare, if_neg (by intro bracket; exact absurd (Option.some.inj bracket.2) (by decide))]
    by_cases colon : (cQuote :: v).count cColon = 1 ∧ (cQuote :: v).head? ≠ some cColon
    · rw [if_pos colon]
      exact ⟨v.takeWhile (· ≠ cColon), rfl⟩
    · rw [if_neg colon]
      exact ⟨v, rfl⟩
  obtain ⟨rest, same⟩ := head
  have differs : ∀ c literal, asciiLower cQuote ≠ c → equalsLowercased (cQuote :: rest) (c :: literal) = false := by
    intro c literal other
    unfold equalsLowercased
    rw [decide_eq_false_iff_not, map_cons]
    intro equal
    exact other (List.cons.inj equal).1
  have https : equalsLowercased (cQuote :: rest) (ascii "https") = false := differs _ _ (by decide)
  have http : equalsLowercased (cQuote :: rest) (ascii "http") = false := differs _ _ (by decide)
  rw [trimmed, same, schemeOf, https, http]
  rfl

theorem trim_unclosed {v : Bytes} (last : ∀ c ∈ (cQuote :: v).getLast?, isBlank c = false) :
    trim (cQuote :: v) = cQuote :: v := by
  have front : (cQuote :: v).dropWhile isBlank = cQuote :: v := dropWhile_cons_of_neg (by decide)
  rw [trim, front]
  apply rdropWhile_eq_self_iff.mpr
  intro nonempty
  rw [last _ (getLast_mem_getLast? nonempty)]
  decide

theorem https_quoted {p q : Bytes} (inside : EndsQuoted p) (plain : cQuote ∉ q) {c : UInt8}
    (ending : q.getLast? = some c) (visible : isBlank c = false) : (readRFC7239 (p ++ q) .none).https =
      ((Scan.run ⟨[], .name []⟩ p).done.foldl applyParameter .none).https := by
  obtain ⟨n, text, place⟩ := inside
  have whole : Scan.run ⟨[], .name []⟩ p = ⟨(Scan.run ⟨[], .name []⟩ p).done, .quoted n text⟩ := by rw [← place]
  have last : (cQuote :: (text ++ q)).getLast? = some c := by
    rw [← cons_append, List.getLast?_append, ending]
    rfl
  have notQuote : c ≠ cQuote := fun same => plain (same ▸ mem_of_getLast? ending)
  have silent := schemeOf_unclosed (v := text ++ q) (by rw [last]; exact fun same => notQuote (Option.some.inj same))
    (trim_unclosed fun d member => by
      rw [last] at member
      rw [← Option.some.inj member]
      exact visible)
  rw [readRFC7239_eq, parametersOf_quoted whole plain, foldl_append]
  generalize (Scan.run ⟨[], .name []⟩ p).done.foldl applyParameter .none = info
  change (applyParameter info (n, cQuote :: (text ++ q))).https = info.https
  unfold applyParameter
  dsimp only
  rw [silent]
  split
  · split <;> rfl
  · split <;> rfl

/-- A proxy that appends an address and a scheme is believed just if the client's bytes leave no quotes
open, and the scheme of one that appends an address only is not the client's just if the client has named
none. -/
theorem forwarded_unspoofed_iff (P A : Bytes) (address : IsIPv4Text A) :
    ((∀ secure, readRFC7239 (P ++ ascii ", for=" ++ A ++ ascii ";proto=" ++ schemeText secure) .none =
        ⟨some A, some secure⟩) ∧
      (readRFC7239 (P ++ ascii ", for=" ++ A) .none).https = (readRFC7239 (ascii ", for=" ++ A) .none).https) ↔
    ¬EndsQuoted P ∧ ∀ parameter ∈ parametersOf P, ¬NamesScheme parameter := by
  have plain := address.plainText
  have isFor : equalsLowercased (trim (ascii " for")) (ascii "for") = true := by decide
  have withScheme : ∀ secure, P ++ ascii ", for=" ++ A ++ ascii ";proto=" ++ schemeText secure =
      P ++ cComma :: (ascii " for=" ++ A ++ ascii ";proto=" ++ schemeText secure) := by
    intro secure
    simp only [List.append_assoc]
    rfl
  have without : P ++ ascii ", for=" ++ A = P ++ cComma :: (ascii " for=" ++ A) := by
    rw [List.append_assoc]
    rfl
  have alone : (readRFC7239 (ascii ", for=" ++ A) .none).https = none := by
    change (readRFC7239 ([] ++ cComma :: (ascii " for=" ++ A)) .none).https = none
    rw [readRFC7239_eq, parametersOf_comma (by rintro ⟨n, text, quoted⟩; cases quoted), parametersOf_for plain]
    change (applyParameter .none (ascii " for", A)).https = none
    rw [applyParameter_for isFor plain]
    rfl
  have unsaid : ¬EndsQuoted P → ((readRFC7239 (P ++ ascii ", for=" ++ A) .none).https = none ↔
      ∀ parameter ∈ parametersOf P, ¬NamesScheme parameter) := by
    intro closed
    rw [without, readRFC7239_eq, parametersOf_comma closed, parametersOf_for plain, List.foldl_append]
    change (applyParameter _ (ascii " for", A)).https = none ↔ _
    rw [applyParameter_for isFor plain]
    change ((parametersOf P).foldl applyParameter .none).https = none ↔ _
    rw [foldl_applyParameter_https]
    exact and_iff_right rfl
  constructor
  · rintro ⟨believed, same⟩
    have closed : ¬EndsQuoted P := by
      intro inside
      -- inside quotes, both schemes would give the same
      have each : ∀ secure, ((Scan.run ⟨[], .name []⟩ P).done.foldl applyParameter .none).https = some secure := by
        intro secure
        have ending : ∃ c, (cComma :: (ascii " for=" ++ A ++ ascii ";proto=" ++ schemeText secure)).getLast? =
            some c ∧ isBlank c = false := by
          rw [← List.cons_append, List.getLast?_append]
          cases secure with
          | false => exact ⟨112, rfl, by decide⟩
          | true => exact ⟨115, rfl, by decide⟩
        obtain ⟨c, last, visible⟩ := ending
        have noQuote : cQuote ∉ cComma :: (ascii " for=" ++ A ++ ascii ";proto=" ++ schemeText secure) := by
          have scheme : cQuote ∉ schemeText secure := by
            cases secure with
            | false | true => decide
          have front : cQuote ∉ ascii " for=" := by decide
          have middle : cQuote ∉ ascii ";proto=" := by decide
          have comma : cQuote ≠ cComma := by decide
          simp only [List.mem_cons, List.mem_append, not_or]
          exact ⟨comma, ⟨⟨front, plain.noQuote⟩, middle⟩, scheme⟩
        rw [← https_quoted inside noQuote last visible, ← withScheme, believed secure]
      have impossible := (each true).symm.trans (each false)
      cases impossible
    refine ⟨closed, (unsaid closed).mp ?_⟩
    rw [same, alone]
  · rintro ⟨closed, silent⟩
    refine ⟨?_, ?_⟩
    · intro secure
      rw [withScheme, readRFC7239_eq, parametersOf_comma closed, parametersOf_for_proto plain, List.foldl_append]
      change applyParameter (applyParameter _ (ascii " for", A)) (ascii "proto", schemeText secure) = _
      rw [applyParameter_for isFor plain, applyParameter_proto]
    · rw [alone]
      exact (unsaid closed).mpr silent

theorem forwarded_unspoofed_iff_spoken :
    readRFC7239 (ascii "for=203.0.113.9" ++ ascii ", for=" ++ ascii "192.0.2.1" ++ ascii ";proto=" ++
      schemeText true) .none = ⟨some (ascii "192.0.2.1"), some true⟩ := by
  have address : IsIPv4Text (ascii "192.0.2.1") := ⟨by decide, by decide +kernel⟩
  have read := (forwarded_unspoofed_iff (ascii "for=203.0.113.9") (ascii "192.0.2.1") address).mpr
  refine (read ⟨?_, ?_⟩).1 true
  · rintro ⟨n, text, quoted⟩
    revert quoted
    rw [show (Scan.run ⟨[], .name []⟩ (ascii "for=203.0.113.9")).place =
      .value (ascii "for") (ascii "203.0.113.9") by decide +kernel]
    intro quoted
    cases quoted
  · intro parameter member named
    rw [show parametersOf (ascii "for=203.0.113.9") = [(ascii "for", ascii "203.0.113.9")] by decide +kernel,
      List.mem_singleton] at member
    rw [member] at named
    exact absurd named.1 (by decide)

/-- Open quotes swallow what the proxy appends, and a scheme of the client stays. -/
theorem forwarded_spoofed : (readRFC7239 (ascii "for=\"" ++ ascii ", for=" ++ ascii "192.0.2.1" ++ ascii ";proto=" ++
      schemeText true) .none).client ≠ some (ascii "192.0.2.1") ∧
    (readRFC7239 (ascii "proto=https" ++ ascii ", for=" ++ ascii "192.0.2.1") .none).https ≠
      (readRFC7239 (ascii ", for=" ++ ascii "192.0.2.1") .none).https := by
  decide +kernel

/-- The text of an address. -/
structure IPText where
  family : IPFamily
  text : Bytes
  valid : match family with
    | .v4 => IsIPv4Text text
    | .v6 => IsIPv6Text text

variable (a : IPText)

theorem IPText.plain : PlainAddress a.text := by
  obtain ⟨family, text, valid⟩ := a
  cases family with
  | v4 => exact IsIPv4Text.plainText valid
  | v6 => exact IsIPv6Text.plainText valid

/-- The value of a `for` parameter: IPv6 addresses stand in quotes and brackets. -/
def IPText.node (a : IPText) : Bytes :=
  match a.family with
  | .v4 => a.text
  | .v6 => ascii "\"[" ++ a.text ++ ascii "]\""

def listed (elements : List Bytes) : Bytes := (ascii ", ").intercalate elements

theorem listed_cons (element : Bytes) (elements : List Bytes) :
    listed (element :: elements) = [cComma].intercalate (element :: elements.map (cSP :: ·)) := by
  unfold listed
  induction elements generalizing element with
  | nil => rfl
  | cons next elements ih =>
    rw [intercalate_cons_cons, ih, map_cons, intercalate_cons_cons]
    cases elements with
    | nil =>
      simp only [map_nil, intercalate_singleton, append_assoc]
      rfl
    | cons other elements =>
      simp only [map_cons, intercalate_cons_cons, append_assoc]
      rfl

theorem parametersOf_joined {pieces : List Bytes} (closed : ∀ piece ∈ pieces, ¬EndsQuoted piece) :
    parametersOf ([cComma].intercalate pieces) = pieces.flatMap parametersOf := by
  induction pieces with
  | nil => rfl
  | cons piece pieces ih =>
    cases pieces with
    | nil => rw [flatMap_cons, flatMap_nil, append_nil, intercalate_singleton]
    | cons next pieces =>
      rw [flatMap_cons, ← ih fun other member => closed other (mem_cons_of_mem _ member),
        ← parametersOf_comma (closed piece mem_cons_self), intercalate_cons_cons]
      simp

theorem Scan.run_node (n : Bytes) :
    (∃ place, Scan.run ⟨[], .start n⟩ a.node = ⟨[], place⟩ ∧ ∀ m text, place ≠ .quoted m text) ∧
      (Scan.run ⟨[], .start n⟩ a.node).finish = [(n, a.node)] := by
  have plain := a.plain
  obtain ⟨family, text, valid⟩ := a
  unfold IPText.node
  cases family with
  | v4 =>
    dsimp only
    rw [plain.run_start]
    refine ⟨⟨_, rfl, ?_⟩, rfl⟩
    intro m other same
    cases same
  | v6 =>
    dsimp only
    have opened : Scan.run ⟨[], .start n⟩ (ascii "\"[") = ⟨[], .quoted n (ascii "[")⟩ := rfl
    have closing : Scan.run ⟨[], .quoted n (ascii "[" ++ text)⟩ (ascii "]\"") =
        ⟨[], .closed n (cQuote :: (ascii "[" ++ text ++ ascii "]") ++ [cQuote])⟩ := rfl
    rw [run_append, run_append, opened, run_quoted _ _ _ plain.noQuote, closing]
    refine ⟨⟨_, rfl, ?_⟩, ?_⟩
    · intro m other same
      cases same
    · change [(n, cQuote :: (ascii "[" ++ text ++ ascii "]") ++ [cQuote])] = _
      simp only [append_assoc, cons_append]
      rfl

theorem for_piece (piece n : Bytes) (named : Scan.run ⟨[], .name []⟩ piece = ⟨[], .start n⟩) :
    ¬EndsQuoted (piece ++ a.node) ∧ parametersOf (piece ++ a.node) = [(n, a.node)] := by
  obtain ⟨⟨place, whole, unquoted⟩, final⟩ := run_node a n
  constructor
  · rintro ⟨m, text, quoted⟩
    rw [run_append, named, whole] at quoted
    exact unquoted m text quoted
  · rw [parametersOf_eq, run_append, named, final]

theorem normalize_node : normalize (trim a.node) = a.text := by
  have plain := a.plain
  obtain ⟨family, text, valid⟩ := a
  unfold IPText.node
  cases family with
  | v4 =>
    dsimp only at plain ⊢
    rw [plain.trim_eq, plain.normalize_eq]
  | v6 =>
    dsimp only at plain ⊢
    have shape : ascii "\"[" ++ text ++ ascii "]\"" =
        cQuote :: ((cLeftBracket :: (text ++ [cRightBracket])) ++ [cQuote]) := by
      simp only [append_assoc, cons_append]
      rfl
    have last : (cQuote :: ((cLeftBracket :: (text ++ [cRightBracket])) ++ [cQuote])).getLast? = some cQuote := by
      rw [← cons_append, List.getLast?_append]
      rfl
    have trimmed := trim_unclosed (v := (cLeftBracket :: (text ++ [cRightBracket])) ++ [cQuote]) (by
      intro c member
      rw [last] at member
      rw [← Option.some.inj member]
      decide)
    have unquoted : unquote (cQuote :: ((cLeftBracket :: (text ++ [cRightBracket])) ++ [cQuote])) =
        cLeftBracket :: (text ++ [cRightBracket]) := by
      unfold unquote
      rw [if_pos ⟨by simp, rfl, last⟩, drop_one, tail_cons, dropLast_concat]
    have inner : (text ++ [cRightBracket]).takeWhile (· ≠ cRightBracket) = text := by
      rw [takeWhile_append_of_pos]
      · simp
      · intro c member
        have here := (isIPChar_plain (plain.chars c member)).2.2.2.2
        simpa using here
    unfold normalize
    dsimp only
    rw [shape, trimmed, unquoted, if_pos ⟨by simp, rfl⟩, drop_one, tail_cons, inner]

theorem applyParameter_node {n : Bytes} (named : equalsLowercased (trim n) (ascii "for") = true)
    (info : ForwardedInfo) : applyParameter info (n, a.node) = { info with client := some a.text } := by
  unfold applyParameter
  dsimp only
  rw [if_pos named, normalize_node, if_pos a.plain.nonempty]

theorem readRFC7239_listed (addresses : List IPText) :
    readRFC7239 (listed ((a :: addresses).map fun a => ascii "for=" ++ a.node)) .none =
      ⟨some ((a :: addresses).getLast (cons_ne_nil _ _)).text, none⟩ := by
  have first := for_piece a (ascii "for=") (ascii "for") (by decide)
  have later : ∀ b : IPText, ¬EndsQuoted (cSP :: (ascii "for=" ++ b.node)) ∧
      parametersOf (cSP :: (ascii "for=" ++ b.node)) = [(ascii " for", b.node)] := fun b =>
    for_piece b (ascii " for=") (ascii " for") (by decide)
  have pieces : parametersOf (listed ((a :: addresses).map fun a => ascii "for=" ++ a.node)) =
      (ascii "for", a.node) :: addresses.map fun b => (ascii " for", b.node) := by
    rw [map_cons, listed_cons, parametersOf_joined, flatMap_cons, first.2, map_map]
    · rw [flatMap_map]
      change _ :: addresses.flatMap (fun b => parametersOf (cSP :: (ascii "for=" ++ b.node))) = _
      rw [show (fun b : IPText => parametersOf (cSP :: (ascii "for=" ++ b.node))) =
        fun b => [(ascii " for", b.node)] from funext fun b => (later b).2, ← map_eq_flatMap]
    · intro piece member
      rcases mem_cons.mp member with same | other
      · rw [same]
        exact first.1
      obtain ⟨_, inner, same⟩ := mem_map.mp other
      obtain ⟨b, _, rfl⟩ := mem_map.mp inner
      rw [← same]
      exact (later b).1
  have fold : ∀ info : ForwardedInfo,
      (addresses.map fun b => (ascii " for", b.node)).foldl applyParameter { info with client := some a.text } =
        { info with client := some ((a :: addresses).getLast (cons_ne_nil _ _)).text } := by
    intro info
    clear pieces first later
    induction addresses generalizing a with
    | nil => rfl
    | cons b addresses ih =>
      rw [map_cons, foldl_cons, applyParameter_node b (by decide), getLast_cons_cons]
      exact ih b
  rw [readRFC7239_eq, pieces, foldl_cons, applyParameter_node a (by decide)]
  exact fold .none

theorem elementsOf_listed (addresses : List IPText) :
    elementsOf (listed (addresses.map IPText.text)) = addresses.map IPText.text := by
  have first : ∀ a : IPText, elementsOf a.text = [a.text] := by
    intro a
    rw [elementsOf_single a.plain.noComma, a.plain.trim_eq, a.plain.normalize_eq, if_pos a.plain.nonempty]
  have later : ∀ a : IPText, elementsOf (cSP :: a.text) = [a.text] := by
    intro a
    have single : cComma ∉ cSP :: a.text := by
      intro member
      rcases mem_cons.mp member with same | inside
      · exact absurd same (by decide)
      · exact a.plain.noComma inside
    have trimmed : trim (cSP :: a.text) = a.text := by
      rw [trim, dropWhile_cons_of_pos (by decide)]
      exact a.plain.trim_eq
    rw [elementsOf_single single, trimmed, a.plain.normalize_eq, if_pos a.plain.nonempty]
  cases addresses with
  | nil => decide
  | cons a addresses =>
    rw [map_cons, listed_cons, elementsOf_joined, flatMap_cons, first, map_map, flatMap_map]
    change _ :: addresses.flatMap (fun b => elementsOf (cSP :: b.text)) = _
    rw [show (fun b : IPText => elementsOf (cSP :: b.text)) = fun b => [b.text] from funext later, ← map_eq_flatMap]

/-- The walk from the right ends at the last element just if it is untrusted, or all are trusted and the
first is the same. -/
theorem lastUntrusted_eq_last (trusts : Bytes → Bool) {elements : List Bytes} (some : elements ≠ []) :
    lastUntrusted trusts elements = Option.some (elements.getLast some) ↔ trusts (elements.getLast some) = false ∨
        (∀ element ∈ elements, trusts element = true) ∧ elements.head some = elements.getLast some := by
  have back : elements.reverse = elements.getLast some :: elements.dropLast.reverse := by
    conv_lhs => rw [← dropLast_append_getLast some, reverse_append]
    rfl
  unfold lastUntrusted
  by_cases untrusted : trusts (elements.getLast some) = false
  · rw [back, List.find?_cons_of_pos (by rw [untrusted]; rfl)]
    exact ⟨fun _ => Or.inl untrusted, fun _ => rfl⟩
  have trusted : trusts (elements.getLast some) = true := by simpa using untrusted
  cases found : elements.reverse.find? (fun element => ! trusts element) with
  | none =>
    have all : ∀ element ∈ elements, trusts element = true := by
      intro element member
      have here := List.find?_eq_none.mp found element (mem_reverse.mpr member)
      simpa using here
    rw [Option.none_or, List.head?_eq_some_head some, Option.some.injEq]
    constructor
    · intro same
      exact .inr ⟨all, same⟩
    · intro either
      rcases either with refuted | same
      · exact absurd refuted untrusted
      · exact same.2
  | some client =>
    have suspect : trusts client = false := by
      have here := List.find?_some found
      simpa using here
    have member : client ∈ elements := mem_reverse.mp (mem_of_find?_eq_some found)
    rw [Option.some_or, Option.some.injEq]
    constructor
    · intro same
      rw [same] at suspect
      exact absurd suspect untrusted
    · intro either
      rcases either with refuted | all
      · exact absurd refuted untrusted
      · rw [all.1 client member] at suspect
        cases suspect

/-- A chain of addresses in either syntax names the same client just if the last one is untrusted, or all
are trusted and the first is the same as the last. -/
theorem forwarded_syntaxes_agree_iff (parseIP : Bytes → Option Address) (trust : ForwardedTrust)
    (believed : trust.isEmpty = false) (addresses : List IPText) (some : addresses ≠ [])
    (headers headers' : List (Bytes × Bytes))
    (onlyForwarded : namedValues headers (ascii "forwarded") =
        [listed (addresses.map fun a => ascii "for=" ++ a.node)] ∧
      namedValues headers (ascii "x-forwarded-for") = [] ∧ namedValues headers (ascii "x-forwarded-proto") = [])
    (onlyForwardedFor : namedValues headers' (ascii "x-forwarded-for") =
        [listed (addresses.map IPText.text)] ∧ OnlyForwardedFor headers') :
    (readForwarded parseIP trust headers).client = (readForwarded parseIP trust headers').client ↔
      trust.trusts parseIP (addresses.getLast some).text = false ∨
        (∀ a ∈ addresses, trust.trusts parseIP a.text = true) ∧
          (addresses.head some).text = (addresses.getLast some).text := by
  have left : (readForwarded parseIP trust headers).client = Option.some (addresses.getLast some).text := by
    unfold readForwarded
    dsimp only
    rw [onlyForwarded.1, onlyForwarded.2.1, onlyForwarded.2.2, believed]
    cases addresses with
    | nil => exact absurd rfl some
    | cons a addresses => exact congrArg ForwardedInfo.client (readRFC7239_listed a addresses)
  have texts : addresses.map IPText.text ≠ [] := by simpa using some
  have walk := lastUntrusted_eq_last (trust.trusts parseIP) texts
  rw [List.getLast_map, List.head_map] at walk
  rw [left, readForwarded_client believed onlyForwardedFor.2, forwardedFor, onlyForwardedFor.1,
    List.intercalate_singleton, elementsOf_listed, eq_comm, walk]
  simp only [List.mem_map, forall_exists_index, and_imp, forall_apply_eq_imp_iff₂]

/-- The address 203.0.113.7 as a text. -/
def addressOut : IPText := ⟨.v4, ascii "203.0.113.7", ⟨by decide, by decide +kernel⟩⟩

/-- The trusted address 10.0.0.1 as a text. -/
def addressTen : IPText := ⟨.v4, ascii "10.0.0.1", ⟨by decide, by decide +kernel⟩⟩

theorem forwarded_syntaxes_agree_iff_out :
    (readForwarded parseTen trustTen [(ascii "Forwarded", ascii "for=10.0.0.1, for=203.0.113.7")]).client =
      (readForwarded parseTen trustTen [(ascii "X-Forwarded-For", ascii "10.0.0.1, 203.0.113.7")]).client := by
  have believed : trustTen.isEmpty = false := by decide
  apply (forwarded_syntaxes_agree_iff parseTen trustTen believed [addressTen, addressOut]
    (List.cons_ne_nil _ _) _ _ (by decide +kernel)
    ⟨by decide +kernel, by decide +kernel, by decide +kernel⟩).mpr
  left
  decide +kernel

/-- Behind a trusted last hop, the one syntax gives the hop and the other the client. -/
theorem forwarded_syntaxes_differ :
    (readForwarded parseTen trustTen [(ascii "Forwarded", ascii "for=203.0.113.7, for=10.0.0.1")]).client =
      some (ascii "10.0.0.1") ∧
    (readForwarded parseTen trustTen [(ascii "X-Forwarded-For", ascii "203.0.113.7, 10.0.0.1")]).client =
      some (ascii "203.0.113.7") := by
  decide +kernel

end AvianCore.Http
