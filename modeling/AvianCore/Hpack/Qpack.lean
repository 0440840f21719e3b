import AvianCore.Hpack.Huffman

/-!
The field section decoder of HTTP/3 (`QPACK.swift`). It keeps no table, but its scratch buffer from section to
section: the memory of it is what a later section may find there or not. The static table is any.
-/

namespace AvianCore.Hpack.Qpack
open AvianCore.Lib AvianCore.Http

inductive QPACKError
  | truncated | badIndex | badPrefix | badHuffman | dynamicTableReference | tooLarge
deriving DecidableEq, Repr

/-- The fifth byte behind the prefix is refused, so that five turns are enough. -/
def readContinuation (p : Bytes) : Nat → Nat → Nat → Nat → Except HPACKError (Nat × Nat)
  | 0, _, _, _ => .error .integerOverflow
  | fuel + 1, cursor, value, shift =>
    match p[cursor]? with
    | none => .error .truncated
    | some byte =>
      let value := value + (byte &&& 0x7F).toNat * 2 ^ shift
      if 21 < shift then .error .integerOverflow
      else if 2 ^ 30 < value then .error .integerOverflow
      else if byte &&& 0x80 = 0 then .ok (value, cursor + 1)
      else readContinuation p fuel (cursor + 1) value (shift + 7)

def hpackReadInteger (p : Bytes) (cursor prefixBits : Nat) : Except HPACKError (Nat × Nat) :=
  match p[cursor]? with
  | none => .error .truncated
  | some byte =>
    let mask := 2 ^ prefixBits - 1
    let value := byte.toNat &&& mask
    if value < mask then .ok (value, cursor + 1) else readContinuation p 5 (cursor + 1) value 0

/-- Whether the buffer has memory, and what has been written since it was cleared. -/
structure Scratch where
  allocated : Bool := false
  bytes : Bytes := []
deriving DecidableEq, Repr

def Scratch.clear (scratch : Scratch) : Scratch := ⟨scratch.allocated, []⟩

def Scratch.write (scratch : Scratch) (p : Bytes) : Scratch :=
  if p = [] then scratch else ⟨true, scratch.bytes ++ p⟩

/-- What reads a section also writes to the scratch buffer, which stays when an error is thrown. -/
def Reading (α : Type) : Type := Scratch → Except QPACKError α × Scratch

instance : Monad Reading where
  pure a := fun scratch => (.ok a, scratch)
  bind m f := fun scratch =>
    match m scratch with
    | (.ok a, scratch) => f a scratch
    | (.error e, scratch) => (.error e, scratch)

def throws {α : Type} (e : QPACKError) : Reading α := fun scratch => (.error e, scratch)

def readInteger (p : Bytes) (cursor prefixBits : Nat) : Reading (Nat × Nat) :=
  match hpackReadInteger p cursor prefixBits with
  | .ok read => pure read
  | .error .truncated => throws .truncated
  | .error _ => throws .badIndex

/-- The offset and the length in the scratch buffer, and the cursor. The Huffman decoder reserves room also for a
string of no bytes. -/
def readRaw (p : Bytes) (cursor length : Nat) (huffman : Bool) : Reading (Nat × Nat × Nat) := fun scratch =>
  let coded := (p.drop cursor).take length
  if p.length - cursor < length then (.error .truncated, scratch)
  else if huffman then
    match huffmanDecode coded with
    | .ok text => (.ok (scratch.bytes.length, text.length, cursor + length), ⟨true, scratch.bytes ++ text⟩)
    | .error _ => (.error .badHuffman, { scratch with allocated := true })
  else (.ok (scratch.bytes.length, length, cursor + length), scratch.write coded)

def readString (p : Bytes) (cursor : Nat) : Reading (Nat × Nat × Nat) :=
  match p[cursor]? with
  | none => throws .truncated
  | some first => do
    let (length, cursor) ← readInteger p cursor 7
    readRaw p cursor length (first &&& 0x80 != 0)

/-- A field as it is gathered: a name of the static table has a negative offset, a field of it an index. -/
structure Line where
  nameOffset : Int
  nameLength : Nat
  valueOffset : Nat
  valueLength : Nat
  staticIndex : Int

section
variable (table : List (Bytes × Bytes))

def entry (index : Int) : Option (Bytes × Bytes) := if index < 0 then none else table[index.toNat]?

def readLine (p : Bytes) (cursor : Nat) (first : UInt8) : Reading (Line × Nat × Nat) :=
  if first &&& 0x80 ≠ 0 then
    if first &&& 0x40 = 0 then throws .dynamicTableReference
    else do
      let (index, cursor) ← readInteger p cursor 6
      match entry table index with
      | none => throws .badIndex
      | some e => pure (⟨0, 0, 0, 0, index⟩, e.1.length + e.2.length + 32, cursor)
  else if first &&& 0xC0 = 0x40 then
    if first &&& 0x10 = 0 then throws .dynamicTableReference
    else do
      let (index, cursor) ← readInteger p cursor 4
      match entry table index with
      | none => throws .badIndex
      | some e => do
        let (offset, length, cursor) ← readString p cursor
        pure (⟨-1 - index, 0, offset, length, -1⟩, e.1.length + length + 32, cursor)
  else if first &&& 0xE0 = 0x20 then do
    let (nameLength, cursor) ← readInteger p cursor 3
    let (nameOffset, nameLength, cursor) ← readRaw p cursor nameLength (first &&& 0x08 != 0)
    let (offset, length, cursor) ← readString p cursor
    pure (⟨nameOffset, nameLength, offset, length, -1⟩, nameLength + length + 32, cursor)
  else throws .dynamicTableReference

/-- Every turn takes a byte at least, so that the length is fuel enough. -/
def gatherLoop (maximumFieldSectionSize : Int) (p : Bytes) : Nat → Nat → Nat → Reading (List Line)
  | 0, _, _ => pure []
  | fuel + 1, cursor, total =>
    match p[cursor]? with
    | none => pure []
    | some first => do
      let (line, size, cursor) ← readLine table p cursor first
      if maximumFieldSectionSize < total + size then throws .tooLarge
      else do
        let lines ← gatherLoop maximumFieldSectionSize p fuel cursor (total + size)
        pure (line :: lines)

/-- The first pass of `decode`. -/
def gather (maximumFieldSectionSize : Int) (p : Bytes) : Reading (List Line) := do
  let (requiredInsertCount, cursor) ← readInteger p 0 8
  if requiredInsertCount ≠ 0 then throws .dynamicTableReference
  else if p.length ≤ cursor then throws .truncated
  else do
    let (deltaBase, cursor) ← readInteger p cursor 7
    if deltaBase ≠ 0 then throws .badPrefix
    else gatherLoop table maximumFieldSectionSize p p.length cursor 0

/-- A literal of no bytes points to anything; others need the memory of the buffer. -/
def emitLine (scratch : Scratch) (line : Line) : Except QPACKError (Bytes × Bytes) :=
  let text (offset length : Nat) := (scratch.bytes.drop offset).take length
  if 0 ≤ line.staticIndex then
    match entry table line.staticIndex with
    | none => .error .badIndex
    | some e => .ok e
  else if 0 < line.valueLength ∧ scratch.allocated = false then .error .truncated
  else if line.nameOffset < 0 then
    match entry table (-1 - line.nameOffset) with
    | none => .error .badIndex
    | some e => .ok (e.1, text line.valueOffset line.valueLength)
  else if scratch.allocated = false then .error .truncated
  else .ok (text line.nameOffset.toNat line.nameLength, text line.valueOffset line.valueLength)

/-- The fields given to the callback, and the error that is thrown after them. -/
def emitLines (scratch : Scratch) : List Line → List (Bytes × Bytes) × Option QPACKError
  | [] => ([], none)
  | line :: lines =>
    match emitLine table scratch line with
    | .error e => ([], some e)
    | .ok field => (field :: (emitLines scratch lines).1, (emitLines scratch lines).2)

structure QPACKDecoder where
  scratch : Scratch := {}
  maximumFieldSectionSize : Int := 64 * 1024

def QPACKDecoder.decode (d : QPACKDecoder) (p : Bytes) :
    (List (Bytes × Bytes) × Option QPACKError) × QPACKDecoder :=
  match gather table d.maximumFieldSectionSize p d.scratch.clear with
  | (.error e, scratch) => (([], some e), { d with scratch := scratch })
  | (.ok lines, scratch) => (emitLines table scratch lines, { d with scratch := scratch })

def warm (scratch : Scratch) : Scratch := { scratch with allocated := true }

/-- Reads the same whether the buffer has memory or not, and what it reads meets `Q`. -/
def Steady {α : Type} (m : Reading α) (Q : α → Prop) : Prop :=
  ∀ scratch, m (warm scratch) = ((m scratch).1, warm (m scratch).2) ∧ ∀ a, (m scratch).1 = .ok a → Q a

def Line.Known (line : Line) : Prop :=
  (0 ≤ line.staticIndex → entry table line.staticIndex ≠ none) ∧
    (line.staticIndex < 0 → line.nameOffset < 0 → entry table (-1 - line.nameOffset) ≠ none)

variable {table} {α β : Type}

theorem Steady.pure {a : α} {Q : α → Prop} (holds : Q a) : Steady (Pure.pure a) Q := by
  refine fun _ => ⟨rfl, fun b same => ?_⟩
  cases same
  exact holds

theorem Steady.throws {e : QPACKError} {Q : α → Prop} : Steady (throws e) Q := fun _ => ⟨rfl, nofun⟩

theorem Steady.bind {m : Reading α} {f : α → Reading β} {P : α → Prop} {Q : β → Prop} (first : Steady m P)
    (second : ∀ a, P a → Steady (f a) Q) : Steady (m >>= f) Q := by
  intro scratch
  obtain ⟨same, meets⟩ := first scratch
  have runs (start : Scratch) : (m >>= f) start =
      match m start with
      | (.ok a, later) => f a later
      | (.error e, later) => (.error e, later) := rfl
  rw [runs, runs, same]
  rcases ran : m scratch with ⟨result, later⟩
  rw [ran] at meets
  cases result with
  | error e => exact ⟨rfl, nofun⟩
  | ok a => exact second a (meets a rfl) later

variable (p : Bytes)

theorem steady_readInteger (cursor prefixBits : Nat) : Steady (readInteger p cursor prefixBits) fun _ => True := by
  unfold readInteger
  split
  · exact .pure trivial
  · exact .throws
  · exact .throws

theorem steady_readRaw (cursor length : Nat) (huffman : Bool) :
    Steady (readRaw p cursor length huffman) fun _ => True := by
  refine fun scratch => ⟨?_, fun _ _ => trivial⟩
  unfold readRaw
  dsimp only
  split_ifs
  · rfl
  · split <;> rfl
  · unfold Scratch.write
    split_ifs <;> rfl

theorem steady_readString (cursor : Nat) : Steady (readString p cursor) fun _ => True := by
  unfold readString
  split
  · exact .throws
  · exact .bind (steady_readInteger _ _ _) fun _ _ => steady_readRaw _ _ _ _

theorem steady_readLine (cursor : Nat) (first : UInt8) :
    Steady (readLine table p cursor first) fun read => read.1.Known table := by
  unfold readLine
  split_ifs
  · exact .throws
  · refine .bind (steady_readInteger _ _ _) fun read _ => ?_
    dsimp only
    split
    · exact .throws
    next e found =>
      refine .pure ⟨fun _ => ?_, fun negative => absurd negative (by simp)⟩
      rw [found]
      exact nofun
  · exact .throws
  · refine .bind (steady_readInteger _ _ _) fun read _ => ?_
    dsimp only
    split
    · exact .throws
    next e found =>
      refine .bind (steady_readString _ _) fun value _ => .pure ⟨fun negative => absurd negative (by simp), fun _ _ => ?_⟩
      rw [show (-1 - (-1 - (read.1 : Int))) = read.1 by omega, found]
      exact nofun
  · refine .bind (steady_readInteger _ _ _) fun _ _ => .bind (steady_readRaw _ _ _ _) fun _ _ => ?_
    refine .bind (steady_readString _ _) fun _ _ => .pure ⟨?_, ?_⟩
    · exact fun negative => absurd negative (by simp)
    · exact fun _ negative => absurd negative (by simp)
  · exact .throws

theorem steady_gatherLoop (maximum : Int) (p : Bytes) (fuel cursor total : Nat) :
    Steady (gatherLoop table maximum p fuel cursor total) fun lines => ∀ line ∈ lines, line.Known table := by
  induction fuel generalizing cursor total with
  | zero => exact .pure (by simp)
  | succ fuel ih =>
    unfold gatherLoop
    split
    · exact .pure (by simp)
    refine .bind (steady_readLine _ _ _) fun read known => ?_
    dsimp only
    split_ifs
    · exact .throws
    · exact .bind (ih _ _) fun lines rest => .pure (List.forall_mem_cons.mpr ⟨known, rest⟩)

theorem steady_gather (maximum : Int) (p : Bytes) :
    Steady (gather table maximum p) fun lines => ∀ line ∈ lines, line.Known table := by
  refine .bind (steady_readInteger _ _ _) fun read _ => ?_
  dsimp only
  split_ifs
  · exact .throws
  · exact .throws
  refine .bind (steady_readInteger _ _ _) fun read _ => ?_
  split_ifs
  · exact .throws
  · exact steady_gatherLoop _ _ _ _ _

/-- The line has a literal that is taken from the scratch buffer: any literal name, and a value with bytes. -/
def Line.Literal (line : Line) : Prop := line.staticIndex < 0 ∧ (0 ≤ line.nameOffset ∨ 0 < line.valueLength)

section
variable {scratch : Scratch} {line : Line}

theorem emitLine_cold (cold : scratch.allocated = false) (literal : line.Literal) :
    emitLine table scratch line = .error .truncated := by
  unfold emitLine
  have dynamic := literal.1
  rw [if_neg (by omega)]
  split_ifs with value named
  · rfl
  · have either := literal.2
    exact absurd ⟨by omega, cold⟩ value
  · rfl

theorem emitLine_warm (known : line.Known table) : ∃ field, emitLine table (warm scratch) line = .ok field := by
  unfold emitLine
  split_ifs with indexed value named
  · obtain ⟨e, found⟩ := Option.ne_none_iff_exists'.mp (known.1 indexed)
    exact ⟨e, by rw [found]⟩
  · cases value.2
  · obtain ⟨e, found⟩ := Option.ne_none_iff_exists'.mp (known.2 (by omega) named)
    exact ⟨_, by rw [found]⟩
  · next impossible => cases impossible
  · exact ⟨_, rfl⟩

theorem emitLine_same (plain : ¬line.Literal) : emitLine table (warm scratch) line = emitLine table scratch line := by
  unfold emitLine
  by_cases indexed : 0 ≤ line.staticIndex
  · rw [if_pos indexed, if_pos indexed]
  have named : line.nameOffset < 0 := not_le.mp fun offset => plain ⟨by omega, .inl offset⟩
  have empty : ¬0 < line.valueLength := fun value => plain ⟨by omega, .inr value⟩
  simp only [indexed, named, empty, false_and, if_true, if_false]
  rfl

theorem emitLines_warm (cold : scratch.allocated = false) {lines : List Line} (known : ∀ line ∈ lines, line.Known table) :
    emitLines table (warm scratch) lines = emitLines table scratch lines ↔ ∀ line ∈ lines, ¬line.Literal := by
  induction lines with
  | nil => simp [emitLines]
  | cons line lines ih =>
    obtain ⟨here, rest⟩ := List.forall_mem_cons.mp known
    obtain ⟨field, emitted⟩ := @emitLine_warm table scratch line here
    rw [List.forall_mem_cons, emitLines, emitLines, emitted]
    by_cases literal : line.Literal
    · rw [emitLine_cold cold literal]
      simp [literal]
    · rw [← emitLine_same literal, emitted]
      simp only [literal, not_false_eq_true, true_and, ← ih rest, Prod.ext_iff, List.cons.injEq]

end

end

/-- The section has a literal name, and no literal that the buffer needs memory for: each is empty and not coded. -/
def Bare (table : List (Bytes × Bytes)) (maximumFieldSectionSize : Int) (p : Bytes) : Prop :=
  ∃ lines scratch, gather table maximumFieldSectionSize p {} = (.ok lines, scratch) ∧ scratch.allocated = false ∧
    ∃ line ∈ lines, line.Literal

theorem decode_eq_iff (table : List (Bytes × Bytes)) (d : QPACKDecoder) (p : Bytes) : (d.decode table p).1 =
    (({ maximumFieldSectionSize := d.maximumFieldSectionSize } : QPACKDecoder).decode table p).1 ↔
      (d.scratch.allocated = true → ¬Bare table d.maximumFieldSectionSize p) := by
  unfold QPACKDecoder.decode Bare
  generalize d.maximumFieldSectionSize = maximum
  cases memory : d.scratch.allocated with
  | false =>
    rw [show d.scratch.clear = {} by rw [Scratch.clear, memory]]
    exact iff_of_true rfl nofun
  | true =>
    have steady := @steady_gather table maximum p {}
    rw [show d.scratch.clear = warm {} by rw [Scratch.clear, memory]; rfl, steady.1]
    rw [show ({ maximumFieldSectionSize := maximum } : QPACKDecoder).scratch.clear = {} from rfl]
    rcases read : gather table maximum p {} with ⟨result, scratch⟩
    rw [read] at steady
    cases result with
    | error e => simp
    | ok lines =>
      have known := steady.2 lines rfl
      simp only [Prod.mk.injEq, Except.ok.injEq, forall_const, not_exists, not_and]
      cases cold : scratch.allocated with
      | false =>
        rw [emitLines_warm cold known]
        constructor
        · rintro plain _ _ ⟨rfl, rfl⟩ -
          exact plain
        · intro none
          exact none lines scratch ⟨rfl, rfl⟩ cold
      | true =>
        refine iff_of_true ?_ ?_
        · rw [show warm scratch = scratch by rw [warm, ← cold]]
        · rintro _ _ ⟨rfl, rfl⟩ other
          cases cold.symm.trans other

/-- A decoder that has seen other sections does as a new one does, but for a section that is bare when they have left
it memory. -/
theorem decode_forgets_iff (table : List (Bytes × Bytes)) (maximumFieldSectionSize : Int) (history : List Bytes)
    (p : Bytes) :
    let fresh : QPACKDecoder := { maximumFieldSectionSize := maximumFieldSectionSize }
    let used := history.foldl (fun d q => (d.decode table q).2) fresh
    (used.decode table p).1 = (fresh.decode table p).1 ↔
      (used.scratch.allocated = true → ¬Bare table maximumFieldSectionSize p) := by
  intro fresh used
  have limit : used.maximumFieldSectionSize = maximumFieldSectionSize := by
    refine List.foldlRecOn (motive := fun d : QPACKDecoder => d.maximumFieldSectionSize = maximumFieldSectionSize)
      history _ rfl fun d same q _ => ?_
    unfold QPACKDecoder.decode
    split <;> exact same
  have each := decode_eq_iff table used p
  rw [limit] at each
  exact each

/-- A field with an empty name and an empty value: a new decoder refuses it, and one that has read a field with a
name takes it. -/
theorem decode_remembers : let fresh : QPACKDecoder := {}
    let p : Bytes := [0, 0, 0x20, 0]
    (∀ table, (fresh.decode table p).1 = ([], some .truncated)) ∧
      ∀ table, ((fresh.decode table [0, 0, 0x21, 0x61, 0]).2.decode table p).1 = ([([], [])], none) :=
  ⟨fun _ => rfl, fun _ => rfl⟩

end AvianCore.Hpack.Qpack
