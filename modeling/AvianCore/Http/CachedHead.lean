import AvianCore.Http.Date

/-!
The headers of a cached response as one block of bytes (`CachedHead`), what keeps a response out of the cache
(`ResponseCacheability`), and the requests that the stored validators answer (`CacheValidation`), all in
`ResponseCachePolicy.swift`.
-/

namespace AvianCore.Http
open List Nat

namespace CachedHead

def twoBytes (n : Nat) : Bytes := [UInt8.ofNat (n >>> 8), UInt8.ofNat n]

def record (header : Bytes × Bytes) : Bytes :=
  twoBytes header.1.length ++ (twoBytes header.2.length ++ (header.1.map asciiLower ++ header.2))

def append (out : Bytes) (header : Bytes × Bytes) : Bytes × Bool :=
  if 0 < header.1.length ∧ header.1.length ≤ 0xFFFF ∧ header.2.length ≤ 0xFFFF then (out ++ record header, true)
  else (out, false)

def eightBytes (n : UInt64) : Bytes := [56, 48, 40, 32, 24, 16, 8, 0].map fun shift => UInt8.ofNat (n.toNat >>> shift)

def appendEncodingVariant (out : Bytes) (variant : UInt64) : Bytes := out ++ (0 :: 1 :: 0 :: 8 :: 0 :: eightBytes variant)

def number (p : Bytes) : Nat := p.foldl (fun v b => v * 256 + b.toNat) 0

def encodingVariant (p : Bytes) : Option Nat :=
  if 13 ≤ p.length ∧ p.take 5 = [0, 1, 0, 8, 0] then some (number ((p.drop 5).take 8)) else none

def forEach (p : Bytes) : List (Bytes × Bytes) :=
  let nameLength := number (p.take 2)
  let valueLength := number ((p.drop 2).take 2)
  if 4 ≤ p.length ∧ 0 < nameLength ∧ 4 + nameLength + valueLength ≤ p.length then
    ((p.drop 4).take nameLength, (p.drop (4 + nameLength)).take valueLength) ::
      forEach (p.drop (4 + nameLength + valueLength))
  else []
termination_by p.length
decreasing_by
  rw [List.length_drop]
  omega

theorem number_twoBytes {n : Nat} (fits : n ≤ 0xFFFF) : number (twoBytes n) = n := by
  simp only [number, twoBytes, foldl_cons, foldl_nil, UInt8.toNat_ofNat', shiftRight_eq_div_pow]
  omega

variable {header : Bytes × Bytes}

theorem append_true {out : Bytes} (kept : (append out header).2 = true) :
    (append out header).1 = out ++ record header ∧ 0 < header.1.length ∧ header.1.length ≤ 0xFFFF ∧
      header.2.length ≤ 0xFFFF := by
  unfold append at kept ⊢
  split_ifs at kept ⊢ with fits
  exact ⟨rfl, fits⟩

theorem forEach_record (name : 0 < header.1.length) (short : header.1.length ≤ 0xFFFF)
    (short' : header.2.length ≤ 0xFFFF) (rest : Bytes) :
    forEach (record header ++ rest) = (header.1.map asciiLower, header.2) :: forEach rest := by
  have first : (record header ++ rest).take 2 = twoBytes header.1.length := rfl
  have second : ((record header ++ rest).drop 2).take 2 = twoBytes header.2.length := rfl
  have behind : (record header ++ rest).drop 4 = header.1.map asciiLower ++ (header.2 ++ rest) := by
    rw [record, append_assoc, append_assoc, append_assoc]
    rfl
  have length : (record header ++ rest).length = 4 + header.1.length + header.2.length + rest.length := by
    simp only [record, twoBytes, length_append, length_map, length_cons, length_nil]
    omega
  have lower : (header.1.map asciiLower).length = header.1.length := length_map _
  rw [forEach, first, second, number_twoBytes short, number_twoBytes short']
  have after : (record header ++ rest).drop (4 + header.1.length) = header.2 ++ rest := by
    rw [← drop_drop, behind, ← lower, drop_left]
  have rests : (record header ++ rest).drop (4 + header.1.length + header.2.length) = rest := by
    rw [← drop_drop, after, drop_left]
  rw [if_pos (by omega), rests, after, take_left, behind, ← lower, take_left]

theorem forEach_take (p : Bytes) (k : Nat) : ∃ rest, forEach p = forEach (p.take k) ++ rest := by
  induction p using forEach.induct generalizing k with
  | case1 p nameLength valueLength fits ih =>
    by_cases four : 4 ≤ k
    · have first : (p.take k).take 2 = p.take 2 := by rw [take_take, min_eq_left (by omega)]
      have second : ((p.take k).drop 2).take 2 = (p.drop 2).take 2 := by
        rw [drop_take, take_take, min_eq_left (by omega)]
      obtain ⟨rest, split⟩ := ih (k - (4 + nameLength + valueLength))
      rw [forEach, if_pos fits]
      nth_rewrite 2 [forEach]
      rw [first, second, length_take]
      by_cases whole : 4 + nameLength + valueLength ≤ k
      · refine ⟨rest, ?_⟩
        rw [if_pos (by omega), split, drop_take, drop_take, drop_take, take_take, take_take,
          min_eq_left (by omega), min_eq_left (by omega)]
        rfl
      · rw [if_neg (by omega)]
        exact ⟨_, rfl⟩
    · refine ⟨forEach p, ?_⟩
      nth_rewrite 2 [forEach]
      rw [if_neg]
      · rfl
      · rw [length_take]
        omega
  | case2 p nameLength valueLength cut =>
    refine ⟨[], ?_⟩
    rw [forEach, if_neg cut, forEach, if_neg]
    · rfl
    rintro ⟨long, positive, fits⟩
    rw [length_take] at long fits
    rw [drop_take, take_take, take_take, min_eq_left (by omega), min_eq_left (by omega)] at fits
    rw [take_take, min_eq_left (by omega)] at positive
    exact cut ⟨by omega, positive, by omega⟩

/-- The headers that a block holds beside its mark, in the order they were put in. -/
def block (variant : Option UInt64) (headers : List (Bytes × Bytes)) : Bytes :=
  headers.foldl (fun out header => (append out header).1) (variant.elim [] (appendEncodingVariant []))

def mark (variant : Option UInt64) : List (Bytes × Bytes) := variant.toList.map fun variant => ([0], eightBytes variant)

theorem record_mark (variant : UInt64) :
    record ([0], eightBytes variant) = 0 :: 1 :: 0 :: 8 :: 0 :: eightBytes variant := by
  have one : twoBytes 1 = [0, 1] := by decide
  have eight : twoBytes 8 = [0, 8] := by decide
  have nul : [(0 : UInt8)].map asciiLower = [0] := by decide
  show twoBytes 1 ++ (twoBytes 8 ++ ([(0 : UInt8)].map asciiLower ++ eightBytes variant)) = _
  rw [one, eight, nul]
  rfl

theorem number_eightBytes (n : UInt64) : number (eightBytes n) = n.toNat := by
  have small := n.toNat_lt
  simp only [number, eightBytes, map_cons, map_nil, foldl_cons, foldl_nil, UInt8.toNat_ofNat', shiftRight_eq_div_pow]
  omega

theorem block_eq (variant : Option UInt64) {headers : List (Bytes × Bytes)}
    (accepted : ∀ header ∈ headers, (append [] header).2 = true) :
    block variant headers = (mark variant ++ headers).flatMap record := by
  have more : ∀ out, headers.foldl (fun out header => (append out header).1) out = out ++ headers.flatMap record := by
    induction headers with
    | nil => simp
    | cons header rest ih =>
      intro out
      rw [forall_mem_cons] at accepted
      obtain ⟨-, fits⟩ := append_true accepted.1
      rw [foldl_cons, append, if_pos fits, ih accepted.2, flatMap_cons, append_assoc]
  rw [block, more, flatMap_append]
  cases variant with
  | none => rfl
  | some variant => simp [mark, record_mark, appendEncodingVariant]

end CachedHead

/-- Without `control`, `ageSeconds` and `dateSeconds`. -/
structure ResponseCacheability where
  excluded : Bool := false
  variesOnEncoding : Bool := false

namespace ResponseCacheability

def variesOnlyOnEncoding (p : Bytes) : Bool :=
  (p.splitOnP endsToken).all fun name => name.isEmpty || equalsLowercased name (ascii "accept-encoding")

def observe (r : ResponseCacheability) (header : Bytes × Bytes) : ResponseCacheability :=
  if header.1 = [0] then { r with excluded := true }
  else if equalsLowercased header.1 (ascii "vary") then
    if ¬variesOnlyOnEncoding header.2 then { r with excluded := true }
    else { r with
      variesOnEncoding := r.variesOnEncoding || containsTokenLowercased header.2 (ascii "accept-encoding") }
  else if equalsLowercased header.1 (ascii "set-cookie") ∨ equalsLowercased header.1 (ascii "content-encoding") then
    { r with excluded := true }
  else r

theorem name_of_observe {headers : List (Bytes × Bytes)} {r : ResponseCacheability}
    (passes : (headers.foldl observe r).excluded = false) : r.excluded = false ∧ ∀ header ∈ headers, header.1 ≠ [0] := by
  induction headers generalizing r with
  | nil => exact ⟨passes, by simp⟩
  | cons header rest ih =>
    obtain ⟨first, others⟩ := ih passes
    unfold observe at first
    split_ifs at first with nul
    all_goals exact ⟨first, forall_mem_cons.mpr ⟨nul, others⟩⟩

end ResponseCacheability

namespace CachedHead

theorem forEach_flatMap {headers : List (Bytes × Bytes)} (fits : ∀ header ∈ headers, (append [] header).2 = true) :
    forEach (headers.flatMap record) = headers.map fun header => (header.1.map asciiLower, header.2) := by
  induction headers with
  | nil =>
    rw [flatMap_nil, forEach]
    rfl
  | cons header rest ih =>
    rw [forall_mem_cons] at fits
    obtain ⟨-, name, short, short'⟩ := append_true fits.1
    rw [flatMap_cons, forEach_record name short short', ih fits.2, map_cons]

theorem forEach_block (variant : Option UInt64) {headers : List (Bytes × Bytes)}
    (accepted : ∀ header ∈ headers, (append [] header).2 = true) : forEach (block variant headers) =
      mark variant ++ headers.map fun header => (header.1.map asciiLower, header.2) := by
  have all : ∀ header ∈ mark variant ++ headers, (append [] header).2 = true := by
    intro header member
    rcases mem_append.mp member with marked | given
    · cases variant with
      | none => cases marked
      | some variant =>
        rw [mem_singleton.mp marked]
        rfl
    · exact accepted header given
  have whole := forEach_flatMap all
  rw [← block_eq variant accepted, map_append] at whole
  have same : (mark variant).map (fun header => (header.1.map asciiLower, header.2)) = mark variant := by
    cases variant <;> rfl
  rwa [same] at whole

theorem encodingVariant_record (fits : (append [] header).2 = true) (named : header.1 ≠ [0])
    (rest : Bytes) : encodingVariant (record header ++ rest) = none := by
  obtain ⟨-, -, short, -⟩ := append_true fits
  apply if_neg
  rintro ⟨-, marked⟩
  have length : twoBytes header.1.length = [0, 1] := by
    have first : (record header ++ rest).take 2 = twoBytes header.1.length := rfl
    rw [← first, show 2 = min 2 5 from rfl, ← take_take, marked]
    rfl
  have one := number_twoBytes short
  rw [length] at one
  obtain ⟨c, name⟩ := length_eq_one_iff.mp one.symm
  have lower : asciiLower c = 0 := by
    have fifth := congrArg (·.getD 4 1) marked
    simpa [record, name, twoBytes] using fifth
  have zero : ∀ n < 256, asciiLower (UInt8.ofNat n) = 0 → UInt8.ofNat n = 0 := by decide +kernel
  have nul := zero c.toNat c.toNat_lt
  rw [UInt8.ofNat_toNat] at nul
  exact named (by rw [name, nul lower])

/-- A block of accepted headers, with a mark in front or without one, is read back as the mark and the headers in order
with their names in lowercase; cut anywhere, as the first of these. The variant is that of the mark, if there is one,
unless a header of the application rules the response out. -/
theorem cached_head_exact (variant : Option UInt64) (headers : List (Bytes × Bytes))
    (accepted : ∀ header ∈ headers, (append [] header).2 = true) :
    ∃ read, read = mark variant ++ headers.map (fun header => (header.1.map asciiLower, header.2)) ∧
      forEach (block variant headers) = read ∧
      (∀ k, ∃ rest, read = forEach ((block variant headers).take k) ++ rest) ∧
      ((headers.foldl ResponseCacheability.observe { }).excluded = false →
        encodingVariant (block variant headers) = variant.map UInt64.toNat) := by
  have whole := forEach_block variant accepted
  refine ⟨_, rfl, whole, fun k => ?_, fun passes => ?_⟩
  · rw [← whole]
    exact forEach_take _ k
  rw [block_eq variant accepted]
  cases variant with
  | some variant =>
    have split : (mark (some variant) ++ headers).flatMap record =
        0 :: 1 :: 0 :: 8 :: 0 :: (eightBytes variant ++ headers.flatMap record) := by
      simp [mark, record_mark]
    rw [split, encodingVariant, if_pos ⟨by simp [eightBytes], rfl⟩]
    exact congrArg some (number_eightBytes variant)
  | none =>
    cases headers with
    | nil => rfl
    | cons header rest =>
      have named := (ResponseCacheability.name_of_observe passes).2 header List.mem_cons_self
      exact encodingVariant_record (accepted header List.mem_cons_self) named _

theorem cached_head_exact_tag : let head := block (some 7) [(ascii "ETag", ascii "x"), (ascii "Age", [])]
    forEach head = [([0], eightBytes 7), (ascii "etag", ascii "x"), (ascii "age", [])] ∧
      encodingVariant head = some 7 := by
  obtain ⟨read, same, whole, -, variant⟩ := cached_head_exact (some 7) [(ascii "ETag", ascii "x"), (ascii "Age", [])]
    (by decide)
  exact ⟨whole.trans same, variant (by decide +kernel)⟩

end CachedHead

def cStar : UInt8 := 42

namespace CacheValidation

def isWeak (p : Bytes) : Bool := p.take 2 = [0x57, 0x2F]

/-- The quoted part of an entity-tag, without `W/`. -/
def opaqueTag (p : Bytes) : Option Bytes :=
  let p := trim p
  let p := if isWeak p then p.drop 2 else p
  if 2 ≤ p.length ∧ p.head? = some cQuote ∧ p.getLast? = some cQuote then some p else none

/-- The loop of `listsTag`; every pass takes two quotes. -/
def listsLoop (want : Bytes) : Nat → Bytes → Bool
  | 0, _ => false
  | fuel + 1, p =>
    let p := p.dropWhile endsToken
    match if isWeak p then p.drop 2 else p with
    | [] => false
    | c :: rest =>
      if c = cQuote then
        match rest.dropWhile (· ≠ cQuote) with
        | [] => false
        | _ :: after =>
          if cQuote :: (rest.takeWhile (· ≠ cQuote) ++ [cQuote]) = want then true else listsLoop want fuel after
      else false

def listsTag (list : Bytes) (stored : Option Bytes) : Bool :=
  let p := list.dropWhile isBlank
  if p.head? = some cStar then true
  else
    match stored.bind opaqueTag with
    | none => false
    | some want => listsLoop want list.length p

def firstOf (name : String) (head : List (Bytes × Bytes)) : Option Bytes :=
  (head.find? fun header => equalsLowercased header.1 (ascii name)).map (·.2)

def notModified (ifNoneMatch ifModifiedSince : Option Bytes) (storedHead : Bytes) : Bool :=
  let etag := firstOf "etag" (CachedHead.forEach storedHead)
  let lastModified := firstOf "last-modified" (CachedHead.forEach storedHead)
  match ifNoneMatch with
  | some list => listsTag list etag
  | none =>
    ((do
      let since ← parseDate (← ifModifiedSince)
      let modified ← parseDate (← lastModified)
      some (decide (modified ≤ since))) : Option Bool).getD false

/-- Anything but a quote may stand between the quotes. -/
structure EntityTag where
  weak : Bool
  body : Bytes
  unquoted : cQuote ∉ body

namespace EntityTag

def quoted (tag : EntityTag) : Bytes := cQuote :: (tag.body ++ [cQuote])

def bytes (tag : EntityTag) : Bytes := (if tag.weak then [0x57, 0x2F] else []) ++ tag.quoted

end EntityTag

/-- A member of a list with the whitespace around it, or only whitespace. -/
structure Member where
  before : Bytes
  tag : Option EntityTag
  after : Bytes
  before_blank : ∀ c ∈ before, isBlank c = true
  after_blank : ∀ c ∈ after, isBlank c = true

def Member.bytes (member : Member) : Bytes := member.before ++ (member.tag.elim [] EntityTag.bytes ++ member.after)

def listBytes : List Member → Bytes
  | [] => []
  | [member] => member.bytes
  | member :: rest => member.bytes ++ cComma :: listBytes rest

theorem isWeak_quoted (tag : EntityTag) (rest : Bytes) :
    (if isWeak (tag.bytes ++ rest) then (tag.bytes ++ rest).drop 2 else tag.bytes ++ rest) = tag.quoted ++ rest := by
  unfold EntityTag.bytes
  cases tag.weak with
  | true => rfl
  | false =>
    rw [if_neg]
    · rfl
    · simp [isWeak, EntityTag.quoted, cQuote]

theorem opaqueTag_bytes (tag : EntityTag) : opaqueTag tag.bytes = some tag.quoted := by
  have whole : trim tag.bytes = tag.bytes := by
    unfold EntityTag.bytes EntityTag.quoted
    cases tag.weak with
    | true => exact @trim_bounded 0x57 cQuote (0x2F :: cQuote :: tag.body) (by decide) (by decide)
    | false => exact trim_bounded (by decide) (by decide)
  have unweak := isWeak_quoted tag []
  rw [append_nil, append_nil] at unweak
  unfold opaqueTag
  rw [whole]
  simp only [unweak]
  rw [if_pos]
  simp [EntityTag.quoted, List.getLast?_cons]

variable (want : Bytes)

theorem listsLoop_gap (fuel : Nat) {gap : Bytes} (skipped : ∀ c ∈ gap, endsToken c = true) (p : Bytes) :
    listsLoop want fuel (gap ++ p) = listsLoop want fuel p := by
  cases fuel with
  | zero => rfl
  | succ fuel => rw [listsLoop, listsLoop, dropWhile_append_of_pos skipped]

theorem listsLoop_tag (fuel : Nat) (tag : EntityTag) (rest : Bytes) :
    listsLoop want (fuel + 1) (tag.bytes ++ rest) = (decide (tag.quoted = want) || listsLoop want fuel rest) := by
  have starts : (tag.bytes ++ rest).dropWhile endsToken = tag.bytes ++ rest := by
    unfold EntityTag.bytes
    cases tag.weak <;> rfl
  have body : ∀ c ∈ tag.body, decide (c ≠ cQuote) = true := by
    intro c member
    exact decide_eq_true fun same => tag.unquoted (same ▸ member)
  have split : tag.quoted ++ rest = cQuote :: (tag.body ++ cQuote :: rest) := by simp [EntityTag.quoted]
  rw [listsLoop, starts]
  simp only [isWeak_quoted]
  rw [split]
  simp only [if_true, dropWhile_append_of_pos body, takeWhile_append_of_pos body]
  rw [dropWhile_cons_of_neg (by simp), takeWhile_cons_of_neg (by simp), append_nil]
  by_cases same : tag.quoted = want
  · simp [show cQuote :: (tag.body ++ [cQuote]) = want from same, same]
  · simp [show ¬cQuote :: (tag.body ++ [cQuote]) = want from same, same]

theorem listBytes_cons (member : Member) (rest : List Member) : ∃ sep, (sep = [cComma] ∨ (sep = [] ∧ rest = [])) ∧
    listBytes (member :: rest) = member.before ++ (member.tag.elim [] EntityTag.bytes ++
      (member.after ++ sep ++ listBytes rest)) := by
  cases rest with
  | nil => exact ⟨[], .inr ⟨rfl, rfl⟩, by simp [listBytes, Member.bytes]⟩
  | cons next rest => exact ⟨[cComma], .inl rfl, by simp [listBytes, Member.bytes]⟩

theorem endsToken_of_blank {c : UInt8} (blank : isBlank c = true) : endsToken c = true := by
  unfold isBlank at blank
  unfold endsToken
  rw [Bool.or_assoc, blank, Bool.or_true]

theorem listsLoop_members (members : List Member) (fuel : Nat)
    (enough : (members.filterMap Member.tag).length ≤ fuel) : listsLoop want fuel (listBytes members) =
      members.any fun member => member.tag.any fun tag => tag.quoted = want := by
  induction members generalizing fuel with
  | nil => cases fuel <;> rfl
  | cons member rest ih =>
    obtain ⟨sep, separates, split⟩ := listBytes_cons member rest
    have gap : ∀ c ∈ member.after ++ sep, endsToken c = true := by
      intro c there
      rcases mem_append.mp there with blank | comma
      · exact endsToken_of_blank (member.after_blank c blank)
      rcases separates with rfl | ⟨rfl, -⟩
      · rw [mem_singleton.mp comma]
        rfl
      · cases comma
    rw [split, listsLoop_gap want fuel fun c there => endsToken_of_blank (member.before_blank c there), any_cons]
    cases tag : member.tag with
    | none =>
      rw [filterMap_cons_none tag] at enough
      rw [Option.elim_none, nil_append, listsLoop_gap want fuel gap, ih fuel enough]
      rfl
    | some tag' =>
      rw [filterMap_cons_some tag, length_cons] at enough
      obtain ⟨fuel, rfl⟩ := exists_eq_add_one.mpr (show 0 < fuel by omega)
      rw [Option.elim_some, listsLoop_tag, listsLoop_gap want fuel gap, ih fuel (by omega)]
      rfl

variable (members : List Member)

theorem length_listBytes : (members.filterMap Member.tag).length ≤ (listBytes members).length := by
  induction members with
  | nil => exact zero_le _
  | cons member rest ih =>
    obtain ⟨sep, -, split⟩ := listBytes_cons member rest
    rw [split]
    cases tag : member.tag with
    | none =>
      rw [filterMap_cons_none tag]
      simp
      omega
    | some tag' =>
      rw [filterMap_cons_some tag]
      simp [EntityTag.bytes, EntityTag.quoted]
      omega

theorem listBytes_star : ((listBytes members).dropWhile isBlank).head? ≠ some cStar := by
  have starts : ∀ c p, isBlank c = false → c ≠ cStar → ((c :: p).dropWhile isBlank).head? ≠ some cStar := by
    intro c p solid other
    rw [dropWhile_cons_of_neg (by simp [solid])]
    simpa using other
  cases members with
  | nil => simp [listBytes]
  | cons member rest =>
    obtain ⟨sep, separates, split⟩ := listBytes_cons member rest
    rw [split, dropWhile_append_of_pos member.before_blank]
    cases member.tag with
    | none =>
      rw [Option.elim_none, nil_append, append_assoc, dropWhile_append_of_pos member.after_blank]
      rcases separates with rfl | ⟨rfl, rfl⟩
      · exact starts cComma _ (by decide) (by decide)
      · decide
    | some tag =>
      rw [Option.elim_some]
      unfold EntityTag.bytes EntityTag.quoted
      cases tag.weak with
      | true => exact starts 0x57 _ (by decide) (by decide)
      | false => exact starts cQuote _ (by decide) (by decide)

theorem quoted_inj {tag other : EntityTag} (same : tag.quoted = other.quoted) : tag.body = other.body :=
  append_cancel_right (List.cons.inj same).2

theorem listsTag_members (stored : EntityTag) : listsTag (listBytes members) (some stored.bytes) = true ↔
      ∃ member ∈ members, ∃ tag ∈ member.tag, tag.body = stored.body := by
  have gap : ∀ c ∈ (listBytes members).takeWhile isBlank, endsToken c = true :=
    fun c there => endsToken_of_blank (mem_takeWhile_imp there)
  unfold listsTag
  simp only [if_neg (listBytes_star members), Option.bind_some, opaqueTag_bytes]
  rw [← listsLoop_gap _ _ gap, takeWhile_append_dropWhile, listsLoop_members _ _ _ (length_listBytes members)]
  simp only [any_eq_true, Option.any_eq_true, decide_eq_true_eq, Option.mem_def]
  constructor
  · rintro ⟨member, there, tag, has, same⟩
    exact ⟨member, there, tag, has, quoted_inj same⟩
  · rintro ⟨member, there, tag, has, same⟩
    exact ⟨member, there, tag, has, by rw [EntityTag.quoted, same]; rfl⟩

theorem firstOf_lower (name : String) (headers : List (Bytes × Bytes)) :
    firstOf name (headers.map fun header => (header.1.map asciiLower, header.2)) = firstOf name headers := by
  have again : ∀ n < 256, asciiLower (asciiLower (UInt8.ofNat n)) = asciiLower (UInt8.ofNat n) := by decide +kernel
  have same : ∀ c, asciiLower (asciiLower c) = asciiLower c := by
    intro c
    have here := again c.toNat c.toNat_lt
    rwa [UInt8.ofNat_toNat] at here
  unfold firstOf
  rw [List.find?_map, Option.map_map]
  have test : ∀ header : Bytes × Bytes, equalsLowercased (header.1.map asciiLower) (ascii name) =
      equalsLowercased header.1 (ascii name) := by
    intro header
    unfold equalsLowercased
    rw [map_map, show asciiLower ∘ asciiLower = asciiLower from funext same]
  simp only [Function.comp_def, test]

/-- A list of entity-tags matches a stored one exactly if it has a tag with the same quoted part, and `*` matches
whatever is stored. Of a block, `If-None-Match` is held against the first `ETag` that was put in, without regard to
`If-Modified-Since`. -/
theorem if_none_match_exact : (∀ members stored, listsTag (listBytes members) (some (EntityTag.bytes stored)) = true ↔
      ∃ member ∈ members, ∃ tag ∈ member.tag, tag.body = stored.body) ∧
    (∀ before after stored, (∀ c ∈ before, isBlank c = true) → listsTag (before ++ cStar :: after) stored = true) ∧
    ∀ variant headers, (∀ header ∈ headers, (CachedHead.append [] header).2 = true) → ∀ list since,
      notModified (some list) since (CachedHead.block variant headers) = listsTag list (firstOf "etag" headers) := by
  refine ⟨listsTag_members, ?_, ?_⟩
  · intro before after stored blank
    unfold listsTag
    rw [List.dropWhile_append_of_pos blank]
    rfl
  · intro variant headers accepted list since
    have head : firstOf "etag" (CachedHead.forEach (CachedHead.block variant headers)) = firstOf "etag" headers := by
      rw [CachedHead.forEach_block variant accepted, ← firstOf_lower "etag" headers]
      cases variant <;> rfl
    simp only [notModified, head]

/-- The comma of `"a,b"` does not end the tag. -/
theorem if_none_match_exact_comma : listsTag (ascii "W/\"a,b\" , \"c\"") (some (ascii "\"a,b\"")) = true :=
  (if_none_match_exact.1 [⟨[], some ⟨true, ascii "a,b", by decide⟩, [cSP], nofun, by decide +kernel⟩,
    ⟨[cSP], some ⟨false, ascii "c", by decide⟩, [], by decide +kernel, nofun⟩] ⟨false, ascii "a,b", by decide⟩).mpr
    ⟨_, List.mem_cons_self, _, rfl, rfl⟩

end CacheValidation
end AvianCore.Http
