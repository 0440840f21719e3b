import AvianCore.Http.Head

/-!
What field values mean: decimal numbers and comma-separated lists, and that the parsers' scans over
them find it.
-/

namespace AvianCore.Http
open List

def digitsFrom (v : Nat) (p : Bytes) : Nat := p.foldl (fun v d => v * 10 + (d - cZero).toNat) v

def decimalValue (p : Bytes) : Nat := digitsFrom 0 p

def IsDecimal (p : Bytes) : Prop := 1 ≤ p.length ∧ p.length ≤ 19 ∧ ∀ d ∈ p, isDigit d = true

theorem isDigit_iff {d : UInt8} : isDigit d = true ↔ ¬ (d < cZero ∨ cNine < d) := by
  simp [isDigit]

theorem digit_le {d : UInt8} (digit : isDigit d = true) : (d - cZero).toNat ≤ 9 := by
  rw [isDigit, Bool.and_eq_true, decide_eq_true_eq, decide_eq_true_eq] at digit
  have low : (48 : UInt8) ≤ d := digit.1
  have high : d ≤ 57 := digit.2
  rw [cZero, UInt8.toNat_sub_of_le _ _ low]
  rw [UInt8.le_iff_toNat_le] at low high
  change 48 ≤ d.toNat at low
  change d.toNat ≤ 57 at high
  change d.toNat - 48 ≤ 9
  omega

theorem digitsFrom_cons (v : Nat) (d : UInt8) (rest : Bytes) :
    digitsFrom v (d :: rest) = digitsFrom (v * 10 + (d - cZero).toNat) rest := rfl

theorem le_digitsFrom (p : Bytes) (v : Nat) : v ≤ digitsFrom v p := by
  induction p generalizing v with
  | nil => exact le_refl _
  | cons d rest ih =>
    rw [digitsFrom_cons]
    have more := ih (v * 10 + (d - cZero).toNat)
    omega

variable {p : Bytes}

theorem decimalLoop_eq {v j : Nat} (few : j + p.length ≤ 19) (small : v < 10 ^ j) (fits : v < 2 ^ 63) :
    decimalLoop v p = if (∀ d ∈ p, isDigit d = true) ∧ digitsFrom v p < 2 ^ 63 then (digitsFrom v p : Int) else -1 := by
  induction p generalizing v j with
  | nil =>
    rw [decimalLoop, if_pos ⟨fun d member => absurd member not_mem_nil, fits⟩]
    rfl
  | cons d rest ih =>
    rw [length_cons] at few
    rw [decimalLoop, digitsFrom_cons]
    by_cases digit : isDigit d = true
    · rw [if_neg (isDigit_iff.mp digit)]
      have nine := digit_le digit
      have below : v * 10 + (d - cZero).toNat < 10 ^ (j + 1) := by
        rw [Nat.pow_succ]
        omega
      have bound : (10 : Nat) ^ (j + 1) ≤ 10 ^ 19 := Nat.pow_le_pow_right (by decide) (by omega)
      have step : (((v : Int) * 10).bmod (2 ^ 64) + ((d - cZero).toNat : Int)).bmod (2 ^ 64) =
          if v * 10 + (d - cZero).toNat < 2 ^ 63 then ((v * 10 + (d - cZero).toNat : Nat) : Int)
          else ((v * 10 + (d - cZero).toNat : Nat) : Int) - 2 ^ 64 := by
        rw [Int.bmod_add_bmod, Int.bmod_def]
        split <;> split <;> omega
      simp only [step]
      by_cases next : v * 10 + (d - cZero).toNat < 2 ^ 63
      · rw [if_pos next, if_neg (by omega), ih (by omega) below next]
        simp only [forall_mem_cons, digit, true_and]
      rw [if_neg next, if_pos (by omega), if_neg]
      rintro ⟨-, whole⟩
      have grown := le_digitsFrom rest (v * 10 + (d - cZero).toNat)
      omega
    · rw [if_pos, if_neg]
      · rintro ⟨all, -⟩
        exact digit (all d mem_cons_self)
      · by_contra inside
        exact digit (isDigit_iff.mpr inside)

theorem parseDecimal_eq (p : Bytes) : parseDecimal p = if (1 ≤ p.length ∧ p.length ≤ 19 ∧ ∀ d ∈ p, isDigit d = true) ∧
    decimalValue p < 2 ^ 63 then (decimalValue p : Int) else -1 := by
  unfold parseDecimal
  by_cases length : p.length = 0 ∨ 19 < p.length
  · rw [if_pos length, if_neg]
    rintro ⟨⟨some, few, -⟩, -⟩
    omega
  rw [if_neg length]
  have loop := decimalLoop_eq (p := p) (v := 0) (j := 0) (by omega) (by decide) (by decide)
  rw [Nat.cast_zero] at loop
  rw [loop]
  have some : 1 ≤ p.length := by omega
  have few : p.length ≤ 19 := by omega
  simp only [some, few, true_and, decimalValue]

theorem parseDecimal_nonneg (positive : 0 ≤ parseDecimal p) :
    IsDecimal p ∧ decimalValue p < 2 ^ 63 ∧ parseDecimal p = decimalValue p := by
  rw [parseDecimal_eq] at positive ⊢
  by_cases decimal : (1 ≤ p.length ∧ p.length ≤ 19 ∧ ∀ d ∈ p, isDigit d = true) ∧ decimalValue p < 2 ^ 63
  · rw [if_pos decimal]
    exact ⟨decimal.1, decimal.2, rfl⟩
  · rw [if_neg decimal] at positive
    omega

/-- A comma-separated list has an element, whatever its case and the whitespace around it. -/
def Lists (value token : Bytes) : Prop :=
  ∃ before element after, value = before ++ (element ++ after) ∧
    (before = [] ∨ before.getLast? = some cComma) ∧ (after = [] ∨ after.head? = some cComma) ∧
    cComma ∉ element ∧ (trim element).map asciiLower = token

def codingsOf (elements : List Bytes) : List Bytes :=
  (elements.map fun element => (trim element).map asciiLower).filter (· ≠ [])

/-- The codings in a Transfer-Encoding value; empty elements are ignored, and so is the case. -/
def codings (value : Bytes) : List Bytes := codingsOf (value.splitOn cComma)

variable (P : UInt8 → Bool)

theorem dropWhile_prefix (p : Bytes) : ∃ before, p = before ++ p.dropWhile P ∧
    (∀ c ∈ before, P c = true) ∧ ∀ c ∈ (p.dropWhile P).head?, P c = false := by
  refine ⟨p.takeWhile P, takeWhile_append_dropWhile.symm, fun c => mem_takeWhile_imp, ?_⟩
  intro c first
  have stop := List.head?_dropWhile_not P p
  rw [first] at stop
  simpa using stop

theorem rdropWhile_suffix (p : Bytes) : ∃ after, p = p.rdropWhile P ++ after ∧
    (∀ c ∈ after, P c = true) ∧ ∀ c ∈ (p.rdropWhile P).getLast?, P c = false := by
  obtain ⟨before, whole, all, first⟩ := dropWhile_prefix P p.reverse
  refine ⟨before.reverse, ?_, ?_, ?_⟩
  · rw [List.rdropWhile, ← reverse_append, ← whole, reverse_reverse]
  · intro c member
    exact all c (mem_reverse.mp member)
  · intro c last
    rw [List.rdropWhile, List.getLast?_reverse] at last
    exact first c last

theorem rdropWhile_append {p after : Bytes} (all : ∀ c ∈ after, P c = true)
    (last : ∀ c ∈ p.getLast?, P c = false) : (p ++ after).rdropWhile P = p := by
  rw [List.rdropWhile, reverse_append, dropWhile_append_of_pos (fun c member => all c (mem_reverse.mp member))]
  have stays : p.reverse.dropWhile P = p.reverse := by
    cases reversed : p.reverse with
    | nil => rfl
    | cons x xs =>
      have stop := last x (by rw [← List.head?_reverse, reversed]; rfl)
      rw [dropWhile_cons, if_neg (by simp [stop])]
  rw [stays, reverse_reverse]

theorem trim_eq (p : Bytes) : ∃ before after, p = before ++ (trim p ++ after) ∧
    (∀ c ∈ before, isBlank c = true) ∧ (∀ c ∈ after, isBlank c = true) ∧
    (∀ c ∈ (trim p).head?, isBlank c = false) ∧ ∀ c ∈ (trim p).getLast?, isBlank c = false := by
  obtain ⟨before, whole, all, first⟩ := dropWhile_prefix isBlank p
  obtain ⟨after, whole', all', last⟩ := rdropWhile_suffix isBlank (p.dropWhile isBlank)
  refine ⟨before, after, ?_, all, all', ?_, last⟩
  · rw [trim, ← whole', ← whole]
  · intro c head
    apply first c
    rw [whole', ← trim]
    cases core : trim p with
    | nil =>
      rw [core] at head
      cases head
    | cons x xs =>
      rw [core] at head
      exact head

theorem foldl_codings (elements : List Bytes) (n : Nat) (last : Bool) :
    elements.foldl (fun (seen : Nat × Bool) element =>
        if trim element ≠ [] then (seen.1 + 1, equalsLowercased (trim element) (ascii "chunked"))
        else seen) (n, last) =
      (n + (codingsOf elements).length,
        ((codingsOf elements).getLast?.map fun coding => decide (coding = ascii "chunked")).getD
          last) := by
  induction elements generalizing n last with
  | nil => rfl
  | cons element rest ih =>
    rw [foldl_cons]
    by_cases empty : trim element = []
    · have same : codingsOf (element :: rest) = codingsOf rest := by simp [codingsOf, empty]
      rw [if_neg (by simp [empty]), ih, same]
    have more : codingsOf (element :: rest) = (trim element).map asciiLower :: codingsOf rest := by
      simp [codingsOf, empty]
    rw [if_pos empty, ih, more, length_cons, List.getLast?_cons]
    refine Prod.ext (by dsimp only; omega) ?_
    cases (codingsOf rest).getLast? with
    | none | some coding => rfl

theorem checkTransferEncoding_none : checkTransferEncoding p = none ↔ codings p = [ascii "chunked"] := by
  unfold checkTransferEncoding codings
  rw [foldl_codings]
  dsimp only
  cases found : codingsOf (p.splitOn cComma) with
  | nil => simp
  | cons first more =>
    cases more with
    | nil =>
      by_cases chunked : first = ascii "chunked" <;> simp [chunked]
    | cons second more =>
      have many : ¬ 0 + (first :: second :: more).length = 1 := by simp
      rw [if_neg many]
      split <;> simp

variable {value token : Bytes}

theorem Lists.core (lists : Lists value token) :
    ∃ before core after, value = before ++ (core ++ after) ∧ core.map asciiLower = token ∧
      (∀ c ∈ before.getLast?, endsToken c = true) ∧ (∀ c ∈ after.head?, endsToken c = true) := by
  obtain ⟨before, element, after, whole, left, right, -, named⟩ := lists
  obtain ⟨lead, trail, split, blank, blank', -, -⟩ := trim_eq element
  have ends : ∀ c, isBlank c = true → endsToken c = true := by
    intro c blank
    simp only [isBlank, Bool.or_eq_true, decide_eq_true_eq] at blank
    simp only [endsToken, Bool.or_eq_true, decide_eq_true_eq]
    tauto
  refine ⟨before ++ lead, trim element, trail ++ after, ?_, named, ?_, ?_⟩
  · rw [whole]
    nth_rewrite 1 [split]
    simp
  · intro c last
    by_cases none : lead = []
    · rw [none, append_nil] at last
      rcases left with rfl | comma
      · cases last
      cases comma.symm.trans last
      decide
    · rw [List.getLast?_append_of_ne_nil _ none] at last
      exact ends c (blank c (mem_of_getLast? last))
  · intro c first
    cases trail with
    | nil =>
      rw [nil_append] at first
      rcases right with rfl | comma
      · cases first
      cases comma.symm.trans first
      decide
    | cons x xs =>
      cases first
      exact ends _ (blank' _ mem_cons_self)

theorem containsTokenLowercased_of_lists (some : token ≠ []) (lists : Lists value token) :
    containsTokenLowercased value token = true := by
  obtain ⟨before, core, after, whole, named, left, right⟩ := lists.core
  have length : core.length = token.length := by rw [← named, length_map]
  have total : value.length = before.length + (token.length + after.length) := by
    rw [whole, length_append, length_append, length]
  have positive := length_pos_iff.mpr some
  unfold containsTokenLowercased
  rw [if_neg (by omega), any_eq_true]
  refine ⟨before.length, ?_, ?_⟩
  · rw [mem_range]
    omega
  · have here : (value.drop before.length).take token.length = core := by rw [whole, drop_left, ← length, take_left]
    have behind : value[before.length + token.length]? = after.head? := by
      rw [whole, ← length, ← append_assoc, List.getElem?_append_right (by simp),
        length_append, Nat.sub_self, List.head?_eq_getElem?]
    have front : before.length ≠ 0 → value[before.length - 1]? = before.getLast? := by
      intro long
      rw [whole, List.getElem?_append_left (by omega), List.getLast?_eq_getElem?]
    rw [Bool.and_eq_true, Bool.and_eq_true, here, behind]
    refine ⟨⟨?_, ?_⟩, ?_⟩
    · rw [equalsLowercased, named]
      exact decide_eq_true rfl
    · by_cases zero : before.length = 0
      · simp [zero]
      rw [Bool.or_eq_true]
      right
      rw [front zero]
      cases last : before.getLast? with
      | none =>
        rw [List.getLast?_eq_none_iff] at last
        exact absurd (by rw [last]; rfl) zero
      | some c => exact left c last
    · cases first : after.head? with
      | none =>
        rw [List.head?_eq_none_iff] at first
        rw [Bool.or_eq_true]
        left
        rw [decide_eq_true_eq, total, first]
        simp
      | some c =>
        rw [Bool.or_eq_true]
        right
        show (endsToken c || _) = true
        rw [right c first]
        rfl

theorem getLast?_dropWhile {P : UInt8 → Bool} (some : p.dropWhile P ≠ []) : (p.dropWhile P).getLast? = p.getLast? := by
  nth_rewrite 2 [← takeWhile_append_dropWhile (p := P) (l := p)]
  rw [List.getLast?_append_of_ne_nil _ some]

theorem tokenLoop_of_lists {token : Bytes} (named : token ≠ []) {fuel : Nat} (enough : p.length ≤ fuel)
    (lists : Lists p token) : tokenLoop token fuel p = true := by
  induction fuel generalizing p with
  | zero =>
    obtain ⟨before, core, after, whole, lower, -⟩ := lists.core
    rw [length_eq_zero_iff.mp (Nat.le_zero.mp enough)] at whole
    simp only [nil_eq, append_eq_nil_iff] at whole
    rw [whole.2.1] at lower
    exact absurd lower.symm named
  | succ fuel ih =>
    obtain ⟨before, element, after, rfl, left, right, single, lower⟩ := lists
    obtain ⟨lead, trail, split, blank, blank', first, last⟩ := trim_eq element
    obtain ⟨x, xs, core⟩ : ∃ x xs, trim element = x :: xs := by
      apply exists_cons_of_ne_nil
      intro empty
      rw [empty] at lower
      exact named lower.symm
    have elsewhere : cComma ∉ lead ++ (trim element ++ trail) := by
      rw [← split]
      exact single
    have word : endsToken x = false := by
      have solid := first x (by rw [core]; rfl)
      have comma : x ≠ cComma := by
        rintro rfl
        exact elsewhere (by rw [core]; simp)
      simp only [isBlank, Bool.or_eq_false_iff, decide_eq_false_iff_not] at solid
      simp [endsToken, comma, solid]
    have filled : before ++ (element ++ after) ≠ [] := by
      rw [split, core]
      simp
    unfold tokenLoop
    rw [if_neg filled]
    dsimp only
    rw [dropWhile_append]
    by_cases skipped : (before.dropWhile endsToken).isEmpty = true
    · -- Nothing but separators before it.
      have spaces : ∀ c ∈ lead, endsToken c = true := by
        intro c member
        have solid := blank c member
        simp only [isBlank, Bool.or_eq_true, decide_eq_true_eq] at solid
        simp only [endsToken, Bool.or_eq_true, decide_eq_true_eq]
        tauto
      have reached : (element ++ after).dropWhile endsToken = trim element ++ (trail ++ after) := by
        nth_rewrite 1 [split]
        rw [append_assoc, dropWhile_append_of_pos spaces, core]
        simp [word]
      have plain : ∀ c ∈ trim element ++ trail, (decide (c ≠ cComma)) = true := by
        intro c member
        apply decide_eq_true
        rintro rfl
        exact elsewhere (mem_append_right _ member)
      have taken : (trim element ++ (trail ++ after)).takeWhile (fun c => decide (c ≠ cComma)) =
          trim element ++ trail := by
        rw [← append_assoc, takeWhile_append_of_pos plain]
        rcases right with rfl | comma
        · simp
        cases after with
        | nil => simp
        | cons y ys =>
          cases comma
          simp
      rw [if_pos skipped, reached, taken, rdropWhile_append isBlank blank' last, if_pos]
      rw [equalsLowercased, lower]
      exact decide_eq_true rfl
    · -- Some other element before it: the next one starts behind a comma.
      rw [if_neg skipped]
      have other : before.dropWhile endsToken ≠ [] := by simpa using skipped
      have ends : (before.dropWhile endsToken).getLast? = some cComma := by
        rw [getLast?_dropWhile other]
        rcases left with rfl | comma
        · simp at other
        · exact comma
      generalize before' : before.dropWhile endsToken = rest at other ends
      have stops : rest.dropWhile (fun c => decide (c ≠ cComma)) ≠ [] := by
        rw [ne_eq, dropWhile_eq_nil_iff]
        intro all
        exact absurd (all cComma (mem_of_getLast? ends)) (by decide)
      have shorter : (rest.dropWhile (fun c => decide (c ≠ cComma))).length < rest.length := by
        obtain ⟨-, -, -, start⟩ := dropWhile_prefix endsToken before
        cases rest with
        | nil => exact absurd rfl other
        | cons y ys =>
          have word' := start y (by rw [before']; rfl)
          have comma : y ≠ cComma := by
            rintro rfl
            cases word'
          rw [dropWhile_cons, if_pos (decide_eq_true comma)]
          exact Nat.lt_succ_of_le (dropWhile_sublist _).length_le
      have short : rest.length ≤ before.length := by
        rw [← before']
        exact (dropWhile_sublist _).length_le
      split
      · rfl
      rw [dropWhile_append, if_neg (by simpa using stops)]
      apply ih
      · simp only [length_append] at enough ⊢
        omega
      · refine ⟨_, element, after, rfl, Or.inr ?_, right, single, lower⟩
        rw [getLast?_dropWhile stops]
        exact ends

theorem containsToken_of_lists (named : token ≠ []) (lists : Lists value token) :
    containsToken value token = true := tokenLoop_of_lists named (le_refl _) lists

end AvianCore.Http
