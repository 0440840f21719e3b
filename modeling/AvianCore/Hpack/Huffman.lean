import AvianCore.Lib.Bits
import AvianCore.Http.Url

/-!
The Huffman coding of header strings (`HPACK.swift`, `HPACKTables.swift`). The encoder packs code words
through an accumulator of 64 bits; the decoder walks over the bits with tables that it derives from the
lengths of the code words. A string has one coding, and nothing else is accepted.
-/

namespace AvianCore.Hpack
open AvianCore.Lib AvianCore.Http List Nat

inductive HPACKError
  | truncated | badIndex | integerOverflow | badHuffman | badTableSize | tooLarge
deriving DecidableEq, Repr

/-- The code word of every symbol, right-aligned; symbol 256 ends a string. -/
def huffmanCodes : List Nat := [
  0x1ff8, 0x7fffd8, 0xfffffe2, 0xfffffe3, 0xfffffe4, 0xfffffe5, 0xfffffe6, 0xfffffe7, 0xfffffe8,
  0xffffea, 0x3ffffffc, 0xfffffe9, 0xfffffea, 0x3ffffffd, 0xfffffeb, 0xfffffec, 0xfffffed,
  0xfffffee, 0xfffffef, 0xffffff0, 0xffffff1, 0xffffff2, 0x3ffffffe, 0xffffff3, 0xffffff4,
  0xffffff5, 0xffffff6, 0xffffff7, 0xffffff8, 0xffffff9, 0xffffffa, 0xffffffb, 0x14, 0x3f8, 0x3f9,
  0xffa, 0x1ff9, 0x15, 0xf8, 0x7fa, 0x3fa, 0x3fb, 0xf9, 0x7fb, 0xfa, 0x16, 0x17, 0x18, 0x0, 0x1,
  0x2, 0x19, 0x1a, 0x1b, 0x1c, 0x1d, 0x1e, 0x1f, 0x5c, 0xfb, 0x7ffc, 0x20, 0xffb, 0x3fc, 0x1ffa,
  0x21, 0x5d, 0x5e, 0x5f, 0x60, 0x61, 0x62, 0x63, 0x64, 0x65, 0x66, 0x67, 0x68, 0x69, 0x6a, 0x6b,
  0x6c, 0x6d, 0x6e, 0x6f, 0x70, 0x71, 0x72, 0xfc, 0x73, 0xfd, 0x1ffb, 0x7fff0, 0x1ffc, 0x3ffc,
  0x22, 0x7ffd, 0x3, 0x23, 0x4, 0x24, 0x5, 0x25, 0x26, 0x27, 0x6, 0x74, 0x75, 0x28, 0x29, 0x2a,
  0x7, 0x2b, 0x76, 0x2c, 0x8, 0x9, 0x2d, 0x77, 0x78, 0x79, 0x7a, 0x7b, 0x7ffe, 0x7fc, 0x3ffd,
  0x1ffd, 0xffffffc, 0xfffe6, 0x3fffd2, 0xfffe7, 0xfffe8, 0x3fffd3, 0x3fffd4, 0x3fffd5, 0x7fffd9,
  0x3fffd6, 0x7fffda, 0x7fffdb, 0x7fffdc, 0x7fffdd, 0x7fffde, 0xffffeb, 0x7fffdf, 0xffffec,
  0xffffed, 0x3fffd7, 0x7fffe0, 0xffffee, 0x7fffe1, 0x7fffe2, 0x7fffe3, 0x7fffe4, 0x1fffdc,
  0x3fffd8, 0x7fffe5, 0x3fffd9, 0x7fffe6, 0x7fffe7, 0xffffef, 0x3fffda, 0x1fffdd, 0xfffe9,
  0x3fffdb, 0x3fffdc, 0x7fffe8, 0x7fffe9, 0x1fffde, 0x7fffea, 0x3fffdd, 0x3fffde, 0xfffff0,
  0x1fffdf, 0x3fffdf, 0x7fffeb, 0x7fffec, 0x1fffe0, 0x1fffe1, 0x3fffe0, 0x1fffe2, 0x7fffed,
  0x3fffe1, 0x7fffee, 0x7fffef, 0xfffea, 0x3fffe2, 0x3fffe3, 0x3fffe4, 0x7ffff0, 0x3fffe5,
  0x3fffe6, 0x7ffff1, 0x3ffffe0, 0x3ffffe1, 0xfffeb, 0x7fff1, 0x3fffe7, 0x7ffff2, 0x3fffe8,
  0x1ffffec, 0x3ffffe2, 0x3ffffe3, 0x3ffffe4, 0x7ffffde, 0x7ffffdf, 0x3ffffe5, 0xfffff1,
  0x1ffffed, 0x7fff2, 0x1fffe3, 0x3ffffe6, 0x7ffffe0, 0x7ffffe1, 0x3ffffe7, 0x7ffffe2, 0xfffff2,
  0x1fffe4, 0x1fffe5, 0x3ffffe8, 0x3ffffe9, 0xffffffd, 0x7ffffe3, 0x7ffffe4, 0x7ffffe5, 0xfffec,
  0xfffff3, 0xfffed, 0x1fffe6, 0x3fffe9, 0x1fffe7, 0x1fffe8, 0x7ffff3, 0x3fffea, 0x3fffeb,
  0x1ffffee, 0x1ffffef, 0xfffff4, 0xfffff5, 0x3ffffea, 0x7ffff4, 0x3ffffeb, 0x7ffffe6, 0x3ffffec,
  0x3ffffed, 0x7ffffe7, 0x7ffffe8, 0x7ffffe9, 0x7ffffea, 0x7ffffeb, 0xffffffe, 0x7ffffec,
  0x7ffffed, 0x7ffffee, 0x7ffffef, 0x7fffff0, 0x3ffffee, 0x3fffffff]

def huffmanLengths : List Nat := [
  13, 23, 28, 28, 28, 28, 28, 28, 28, 24, 30, 28, 28, 30, 28, 28, 28, 28, 28, 28, 28, 28, 30, 28,
  28, 28, 28, 28, 28, 28, 28, 28, 6, 10, 10, 12, 13, 6, 8, 11, 10, 10, 8, 11, 8, 6, 6, 6, 5, 5, 5,
  6, 6, 6, 6, 6, 6, 6, 7, 8, 15, 6, 12, 10, 13, 6, 7, 7, 7, 7, 7, 7, 7, 7, 7, 7, 7, 7, 7, 7, 7, 7,
  7, 7, 7, 7, 7, 7, 8, 7, 8, 13, 19, 13, 14, 6, 15, 5, 6, 5, 6, 5, 6, 6, 6, 5, 7, 7, 6, 6, 6, 5,
  6, 7, 6, 5, 5, 6, 7, 7, 7, 7, 7, 15, 11, 14, 13, 28, 20, 22, 20, 20, 22, 22, 22, 23, 22, 23, 23,
  23, 23, 23, 24, 23, 24, 24, 22, 23, 24, 23, 23, 23, 23, 21, 22, 23, 22, 23, 23, 24, 22, 21, 20,
  22, 22, 23, 23, 21, 23, 22, 22, 24, 21, 22, 23, 23, 21, 21, 22, 21, 23, 22, 23, 23, 20, 22, 22,
  22, 23, 22, 22, 23, 26, 26, 20, 19, 22, 23, 22, 25, 26, 26, 26, 27, 27, 26, 24, 25, 19, 21, 26,
  27, 27, 26, 27, 24, 21, 21, 26, 26, 28, 27, 27, 27, 20, 24, 20, 21, 22, 21, 21, 23, 22, 22, 25,
  25, 24, 24, 26, 23, 26, 27, 26, 26, 27, 27, 27, 27, 27, 28, 27, 27, 27, 27, 27, 26, 30]

/-- What the decoder derives from the lengths. -/
structure Tables where
  symbols : List Nat
  firstCode : List Nat
  firstIndex : List Nat
  count : List Nat
deriving DecidableEq, Repr

def lengthCounts (lengths : List Nat) : List Nat :=
  lengths.foldl (fun count l => count.set l (count.getD l 0 + 1)) (List.replicate 31 0)

/-- The first code word of each length and the place of its symbol, for `fuel` lengths from `len` on. -/
def firstCodes (count : List Nat) : Nat → Nat → Nat → Nat → List Nat × List Nat → List Nat × List Nat
  | 0, _, _, _, firsts => firsts
  | fuel + 1, len, code, index, firsts =>
    firstCodes count fuel (len + 1) ((code + count.getD len 0) * 2 % 2 ^ 32) (index + count.getD len 0)
      (firsts.1.set len code, firsts.2.set len index)

def sortSymbols (lengths firstIndex : List Nat) : List Nat :=
  (lengths.zipIdx.foldl (fun (sorted : List Nat × List Nat) symbol =>
    (sorted.1.set (sorted.2.getD symbol.1 0) symbol.2, sorted.2.set symbol.1 (sorted.2.getD symbol.1 0 + 1)))
    (List.replicate lengths.length 0, firstIndex)).1

def tables : Tables :=
  let count := lengthCounts huffmanLengths
  let firsts := firstCodes count 30 1 0 0 (List.replicate 31 0, List.replicate 31 0)
  { symbols := sortSymbols huffmanLengths firsts.2
    firstCode := firsts.1
    firstIndex := firsts.2
    count := count }

theorem tables_eq : tables =
    { symbols := [48, 49, 50, 97, 99, 101, 105, 111, 115, 116, 32, 37, 45, 46, 47, 51, 52, 53, 54,
      55, 56, 57, 61, 65, 95, 98, 100, 102, 103, 104, 108, 109, 110, 112, 114, 117, 58, 66, 67,
      68, 69, 70, 71, 72, 73, 74, 75, 76, 77, 78, 79, 80, 81, 82, 83, 84, 85, 86, 87, 89, 106,
      107, 113, 118, 119, 120, 121, 122, 38, 42, 44, 59, 88, 90, 33, 34, 40, 41, 63, 39, 43, 124,
      35, 62, 0, 36, 64, 91, 93, 126, 94, 125, 60, 96, 123, 92, 195, 208, 128, 130, 131, 162, 184,
      194, 224, 226, 153, 161, 167, 172, 176, 177, 179, 209, 216, 217, 227, 229, 230, 129, 132,
      133, 134, 136, 146, 154, 156, 160, 163, 164, 169, 170, 173, 178, 181, 185, 186, 187, 189,
      190, 196, 198, 228, 232, 233, 1, 135, 137, 138, 139, 140, 141, 143, 147, 149, 150, 151, 152,
      155, 157, 158, 165, 166, 168, 174, 175, 180, 182, 183, 188, 191, 197, 231, 239, 9, 142, 144,
      145, 148, 159, 171, 206, 215, 225, 236, 237, 199, 207, 234, 235, 192, 193, 200, 201, 202,
      205, 210, 213, 218, 219, 238, 240, 242, 243, 255, 203, 204, 211, 212, 214, 221, 222, 223,
      241, 244, 245, 246, 247, 248, 250, 251, 252, 253, 254, 2, 3, 4, 5, 6, 7, 8, 11, 12, 14, 15,
      16, 17, 18, 19, 20, 21, 23, 24, 25, 26, 27, 28, 29, 30, 31, 127, 220, 249, 10, 13, 22, 256]
      firstCode := [0, 0, 0, 0, 0, 0, 20, 92, 248, 508, 1016, 2042, 4090, 8184, 16380, 32764,
      65534, 131068, 262136, 524272, 1048550, 2097116, 4194258, 8388568, 16777194, 33554412,
      67108832, 134217694, 268435426, 536870910, 1073741820]
      firstIndex := [0, 0, 0, 0, 0, 0, 10, 36, 68, 74, 74, 79, 82, 84, 90, 92, 95, 95, 95, 95, 98,
      106, 119, 145, 174, 186, 190, 205, 224, 253, 253]
      count := [0, 0, 0, 0, 0, 10, 26, 32, 6, 0, 5, 3, 2, 6, 2, 3, 0, 0, 0, 3, 8, 13, 26, 29, 12,
      4, 15, 19, 29, 0, 4] } := by
  decide +kernel

def Tables.symbolOf (t : Tables) (code len : Nat) : Option Nat :=
  if len < 5 then none
  else if t.count.getD len 0 = 0 then none
  else
    let offset := (code + 2 ^ 32 - t.firstCode.getD len 0) % 2 ^ 32
    if t.count.getD len 0 ≤ offset then none
    else some (t.symbols.getD (t.firstIndex.getD len 0 + offset) 0)

/-- The bits read since the last symbol, and what has been written. -/
structure HuffmanState where
  code : Nat
  len : Nat
  out : Bytes
deriving DecidableEq, Repr

def decodeBit (state : HuffmanState) (bit : Bool) : Except HPACKError HuffmanState :=
  let code := (state.code * 2 + bit.toNat) % 2 ^ 32
  let len := state.len + 1
  if 30 < len then .error .badHuffman
  else
    match tables.symbolOf code len with
    | none => .ok { state with code := code, len := len }
    | some symbol =>
      if 255 < symbol then .error .badHuffman
      else .ok { code := 0, len := 0, out := state.out ++ [UInt8.ofNat symbol] }

def bitsOfBytes (p : Bytes) : List Bool := p.flatMap fun byte => bitsOf 8 byte.toNat

/-- What is left behind the last symbol has to begin the code word of symbol 256. -/
def checkPadding (state : HuffmanState) : Except HPACKError Bytes :=
  if 8 ≤ state.len then .error .badHuffman
  else if 0 < state.len ∧ state.code ≠ 2 ^ state.len - 1 then .error .badHuffman
  else .ok state.out

/-- `HPACKHuffman.decode`: the bytes that it writes. -/
def huffmanDecode (p : Bytes) : Except HPACKError Bytes := (bitsOfBytes p).foldlM decodeBit ⟨0, 0, []⟩ >>= checkPadding

/-- `encodedLength`. -/
def huffmanEncodedLength (p : Bytes) : Nat :=
  (p.foldl (fun bits byte => bits + huffmanLengths.getD byte.toNat 0) 0 + 7) / 8

/-- The accumulator, how many of its bits are still to be written, and what has been written. -/
structure HuffmanWriter where
  accumulator : Nat
  bits : Nat
  out : Bytes
deriving DecidableEq, Repr

def drainBits (accumulator : Nat) : Nat → Nat → Bytes → Nat × Bytes
  | 0, bits, out => (bits, out)
  | fuel + 1, bits, out =>
    if 8 ≤ bits then
      drainBits accumulator fuel (bits - 8) (out ++ [UInt8.ofNat (accumulator / 2 ^ (bits - 8))])
    else (bits, out)

def encodeByte (writer : HuffmanWriter) (byte : UInt8) : HuffmanWriter :=
  let len := huffmanLengths.getD byte.toNat 0
  let accumulator := (writer.accumulator * 2 ^ len % 2 ^ 64) ||| huffmanCodes.getD byte.toNat 0
  -- every turn takes eight bits, so that as many turns as bits are enough
  let drained := drainBits accumulator (writer.bits + len) (writer.bits + len) writer.out
  { accumulator := accumulator, bits := drained.1, out := drained.2 }

/-- `HPACKHuffman.encode`: the bytes that it writes. -/
def huffmanEncode (p : Bytes) : Bytes :=
  let writer := p.foldl encodeByte ⟨0, 0, []⟩
  if 0 < writer.bits then
    let pad := 8 - writer.bits
    writer.out ++ [UInt8.ofNat ((writer.accumulator * 2 ^ pad % 2 ^ 64) ||| (2 ^ pad - 1))]
  else writer.out

def word (symbol : Nat) : List Bool := bitsOf (huffmanLengths.getD symbol 0) (huffmanCodes.getD symbol 0)

variable {symbol : Nat}

theorem forall_symbols {P : Nat → Nat → Nat → Bool}
    (checked : ((huffmanCodes.zip huffmanLengths).zipIdx.all fun line => P line.2 line.1.1 line.1.2) = true)
    (known : symbol < 257) :
    P symbol (huffmanCodes.getD symbol 0) (huffmanLengths.getD symbol 0) = true := by
  have codes : symbol < huffmanCodes.length := lt_of_lt_of_eq known (by decide +kernel)
  have lengths : symbol < huffmanLengths.length := lt_of_lt_of_eq known (by decide +kernel)
  obtain ⟨code, codeAt⟩ : ∃ code, huffmanCodes[symbol]? = some code := ⟨_, List.getElem?_eq_getElem codes⟩
  obtain ⟨len, lenAt⟩ : ∃ len, huffmanLengths[symbol]? = some len := ⟨_, List.getElem?_eq_getElem lengths⟩
  have line : ((code, len), symbol) ∈ (huffmanCodes.zip huffmanLengths).zipIdx := by
    rw [mem_zipIdx_iff_getElem?, List.getElem?_zip_eq_some]
    exact ⟨codeAt, lenAt⟩
  rw [getD_eq_getElem?_getD, getD_eq_getElem?_getD, codeAt, lenAt]
  exact all_eq_true.mp checked _ line

theorem word_bounds (known : symbol < 257) : 5 ≤ huffmanLengths.getD symbol 0 ∧ huffmanLengths.getD symbol 0 ≤ 30 ∧
    huffmanCodes.getD symbol 0 < 2 ^ huffmanLengths.getD symbol 0 := by
  apply of_decide_eq_true
  apply forall_symbols (P := fun _ code len => decide (5 ≤ len ∧ len ≤ 30 ∧ code < 2 ^ len)) _ known
  decide +kernel

theorem symbolOf_word (known : symbol < 257) :
    tables.symbolOf (huffmanCodes.getD symbol 0) (huffmanLengths.getD symbol 0) = some symbol := by
  apply of_decide_eq_true
  apply forall_symbols (P := fun s code len => decide (tables.symbolOf code len = some s)) _ known
  rw [tables_eq]
  decide +kernel

theorem symbolOf_begun {symbol k : Nat} (known : symbol < 257) (begun : k < huffmanLengths.getD symbol 0) :
    tables.symbolOf (huffmanCodes.getD symbol 0 / 2 ^ (huffmanLengths.getD symbol 0 - k)) k = none := by
  have checked := forall_symbols (P := fun _ code len => (List.range len).all fun j =>
    decide (tables.symbolOf (code / 2 ^ (len - j)) j = none)) (by
      rw [tables_eq]
      decide +kernel) known
  exact of_decide_eq_true (all_eq_true.mp checked k (mem_range.mpr begun))

theorem tables_place {len offset : Nat} (short : len < 31) (inside : offset < tables.count.getD len 0) :
    tables.firstCode.getD len 0 + offset < 2 ^ 32 ∧
    huffmanLengths.getD (tables.symbols.getD (tables.firstIndex.getD len 0 + offset) 0) 0 = len ∧
    huffmanCodes.getD (tables.symbols.getD (tables.firstIndex.getD len 0 + offset) 0) 0 =
      tables.firstCode.getD len 0 + offset := by
  have checked : (List.range 31).all (fun l => (List.range (tables.count.getD l 0)).all fun k =>
      decide (tables.firstCode.getD l 0 + k < 2 ^ 32 ∧
        huffmanLengths.getD (tables.symbols.getD (tables.firstIndex.getD l 0 + k) 0) 0 = l ∧
        huffmanCodes.getD (tables.symbols.getD (tables.firstIndex.getD l 0 + k) 0) 0 =
          tables.firstCode.getD l 0 + k)) = true := by
    rw [tables_eq]
    decide +kernel
  have each := all_eq_true.mp checked len (mem_range.mpr short)
  exact of_decide_eq_true (all_eq_true.mp each offset (mem_range.mpr inside))

theorem word_of_symbolOf {code len symbol : Nat} (short : len < 31) (fits : code < 2 ^ 32)
    (found : tables.symbolOf code len = some symbol) :
    huffmanLengths.getD symbol 0 = len ∧ huffmanCodes.getD symbol 0 = code := by
  unfold Tables.symbolOf at found
  by_cases small : len < 5
  · rw [if_pos small] at found
    cases found
  rw [if_neg small] at found
  by_cases empty : tables.count.getD len 0 = 0
  · rw [if_pos empty] at found
    cases found
  rw [if_neg empty] at found
  dsimp only at found
  by_cases past : tables.count.getD len 0 ≤ (code + 2 ^ 32 - tables.firstCode.getD len 0) % 2 ^ 32
  · rw [if_pos past] at found
    cases found
  rw [if_neg past] at found
  obtain ⟨bound, length, codes⟩ := tables_place short (Nat.lt_of_not_le past)
  rw [← Option.some.inj found]
  refine ⟨length, ?_⟩
  rw [codes]
  omega

/-- The decoder when the bits `read` wait for the rest of their code word. -/
def waiting (read : List Bool) (out : Bytes) : HuffmanState := ⟨valueOf read, read.length, out⟩

theorem decodeBit_waiting {read : List Bool} (short : read.length < 30) (out : Bytes) (bit : Bool) :
    decodeBit (waiting read out) bit =
      match tables.symbolOf (valueOf (read ++ [bit])) (read.length + 1) with
      | none => .ok (waiting (read ++ [bit]) out)
      | some symbol =>
        if 255 < symbol then .error .badHuffman
        else .ok (waiting [] (out ++ [UInt8.ofNat symbol])) := by
  have bound := valueOf_lt (read ++ [bit])
  have grown : (read ++ [bit]).length = read.length + 1 := by rw [length_append, length_singleton]
  have fits : valueOf (read ++ [bit]) < 2 ^ 32 := by
    apply lt_of_lt_of_le bound
    apply Nat.pow_le_pow_right (by omega)
    omega
  have code : (valueOf read * 2 + bit.toNat) % 2 ^ 32 = valueOf (read ++ [bit]) := by
    rw [Nat.mul_comm, ← valueOf_concat, mod_eq_of_lt fits]
  unfold decodeBit
  dsimp only [waiting]
  rw [code, if_neg (by omega), ← grown]
  rfl

theorem decodeBit_long {read : List Bool} (long : 30 ≤ read.length) (out : Bytes) (bit : Bool) :
    decodeBit (waiting read out) bit = .error .badHuffman := by
  unfold decodeBit
  dsimp only [waiting]
  rw [if_pos (by omega)]

theorem foldlM_begun (known : symbol < 257) (out : Bytes) {k : Nat} (begun : k < huffmanLengths.getD symbol 0) :
    ((word symbol).take k).foldlM decodeBit (waiting [] out) = .ok (waiting ((word symbol).take k) out) := by
  obtain ⟨_, short, fits⟩ := word_bounds known
  have whole : (word symbol).length = huffmanLengths.getD symbol 0 := length_bitsOf _ _
  induction k with
  | zero => rfl
  | succ k ih =>
    have inside : k < (word symbol).length := by omega
    have next : (word symbol).take (k + 1) = (word symbol).take k ++ [(word symbol)[k]] := by
      rw [take_add_one, List.getElem?_eq_getElem inside]
      rfl
    have length : ((word symbol).take k).length = k := length_take_of_le (by omega)
    have unknown : tables.symbolOf (valueOf ((word symbol).take (k + 1))) (k + 1) = none := by
      rw [word, valueOf_take fits (by omega)]
      exact symbolOf_begun known begun
    rw [next, foldlM_append, ih (by omega)]
    change decodeBit _ _ >>= pure = _
    rw [decodeBit_waiting (by omega), ← next, length, unknown]
    rfl

theorem foldlM_word (byte : UInt8) (out : Bytes) (rest : List Bool) :
    (word byte.toNat ++ rest).foldlM decodeBit (waiting [] out) =
      rest.foldlM decodeBit (waiting [] (out ++ [byte])) := by
  have known : byte.toNat < 257 := by
    have := byte.toNat_lt
    omega
  obtain ⟨long, short, fits⟩ := word_bounds known
  have whole : (word byte.toNat).length = huffmanLengths.getD byte.toNat 0 := length_bitsOf _ _
  obtain ⟨k, last⟩ : ∃ k, huffmanLengths.getD byte.toNat 0 = k + 1 := ⟨huffmanLengths.getD byte.toNat 0 - 1, by omega⟩
  have inside : k < (word byte.toNat).length := by omega
  have split : word byte.toNat = (word byte.toNat).take k ++ [(word byte.toNat)[k]] := by
    conv_lhs => rw [← take_length (l := word byte.toNat), whole, last, take_add_one, List.getElem?_eq_getElem inside]
    rfl
  have length : ((word byte.toNat).take k).length = k := length_take_of_le (by omega)
  have found : tables.symbolOf (valueOf (word byte.toNat)) (k + 1) = some byte.toNat := by
    rw [word, valueOf_bitsOf fits, ← last]
    exact symbolOf_word known
  have read : decodeBit (waiting ((word byte.toNat).take k) out) (word byte.toNat)[k] =
      .ok (waiting [] (out ++ [byte])) := by
    rw [decodeBit_waiting (by omega), ← split, length, found]
    dsimp only
    rw [if_neg (by have := byte.toNat_lt; omega), UInt8.ofNat_toNat]
  rw [split, append_assoc, foldlM_append, foldlM_begun known out (by omega)]
  change (decodeBit _ _ >>= fun state => rest.foldlM decodeBit state) = _
  rw [read]
  rfl

def words (s : Bytes) : List Bool := s.flatMap fun byte => word byte.toNat

theorem foldlM_words (s out : Bytes) (rest : List Bool) :
    (words s ++ rest).foldlM decodeBit (waiting [] out) = rest.foldlM decodeBit (waiting [] (out ++ s)) := by
  induction s generalizing out with
  | nil => rw [append_nil]; rfl
  | cons byte s ih =>
    rw [words, flatMap_cons, append_assoc, foldlM_word, ← words, ih, append_assoc]
    rfl

theorem words_of_foldlM {bits read : List Bool} {out : Bytes} {state : HuffmanState}
    (ran : bits.foldlM decodeBit (waiting read out) = .ok state) :
    ∃ s rest, state = waiting rest (out ++ s) ∧ read ++ bits = words s ++ rest := by
  induction bits generalizing read out with
  | nil =>
    cases ran
    refine ⟨[], read, ?_, ?_⟩
    · rw [append_nil]
    · rw [append_nil]; rfl
  | cons bit bits ih =>
    rw [foldlM_cons] at ran
    by_cases short : read.length < 30
    · rw [decodeBit_waiting short] at ran
      have grown : (read ++ [bit]).length = read.length + 1 := by rw [length_append, length_singleton]
      cases found : tables.symbolOf (valueOf (read ++ [bit])) (read.length + 1) with
      | none =>
        rw [found] at ran
        obtain ⟨s, rest, final, same⟩ := ih ran
        refine ⟨s, rest, final, ?_⟩
        rw [← same, append_assoc]
        rfl
      | some symbol =>
        rw [found] at ran
        dsimp only at ran
        by_cases ends : 255 < symbol
        · rw [if_pos ends] at ran
          cases ran
        rw [if_neg ends] at ran
        obtain ⟨s, rest, final, same⟩ := ih ran
        have bound := valueOf_lt (read ++ [bit])
        have fits : valueOf (read ++ [bit]) < 2 ^ 32 := by
          apply lt_of_lt_of_le bound
          apply Nat.pow_le_pow_right (by omega)
          omega
        obtain ⟨length, code⟩ := word_of_symbolOf (by omega) fits found
        have byte : (UInt8.ofNat symbol).toNat = symbol := by
          rw [UInt8.toNat_ofNat']
          omega
        have begun : word (UInt8.ofNat symbol).toNat = read ++ [bit] := by
          rw [byte, word, length, code, ← grown, bitsOf_valueOf]
        refine ⟨UInt8.ofNat symbol :: s, rest, ?_, ?_⟩
        · rw [final, append_assoc]
          rfl
        · rw [words, flatMap_cons, begun, append_assoc, ← words, ← same, append_assoc]
          rfl
    · rw [decodeBit_long (by omega)] at ran
      cases ran

theorem bitsOf_shiftIn {b l c : Nat} (accumulator : Nat) (fits : c < 2 ^ l) (room : b + l ≤ 64) :
    bitsOf (b + l) ((accumulator * 2 ^ l % 2 ^ 64) ||| c) = bitsOf b accumulator ++ bitsOf l c := by
  have kept : accumulator * 2 ^ l % 2 ^ 64 = 2 ^ l * (accumulator % 2 ^ (64 - l)) := by
    rw [show 64 = l + (64 - l) by omega, Nat.pow_add, Nat.mul_comm, Nat.mul_mod_mul_left, Nat.add_sub_cancel_left]
  have sum : (accumulator * 2 ^ l % 2 ^ 64) ||| c = 2 ^ l * (accumulator % 2 ^ (64 - l)) + c := by
    rw [kept, two_pow_add_eq_or_of_lt fits]
  have high : (2 ^ l * (accumulator % 2 ^ (64 - l)) + c) / 2 ^ l = accumulator % 2 ^ (64 - l) := by
    rw [Nat.mul_add_div (Nat.two_pow_pos l), Nat.div_eq_of_lt fits, Nat.add_zero]
  have low : (2 ^ l * (accumulator % 2 ^ (64 - l)) + c) % 2 ^ l = c := by rw [mul_add_mod, mod_eq_of_lt fits]
  rw [sum, bitsOf_add, high, bitsOf_mod (by omega), ← bitsOf_mod (le_refl l), low]

theorem bitsOfBytes_append (p q : Bytes) : bitsOfBytes (p ++ q) = bitsOfBytes p ++ bitsOfBytes q := by
  rw [bitsOfBytes, flatMap_append]
  rfl

theorem bitsOfBytes_ofNat (n : Nat) : bitsOfBytes [UInt8.ofNat n] = bitsOf 8 n := by
  rw [bitsOfBytes, flatMap_singleton, UInt8.toNat_ofNat', bitsOf_mod (le_refl 8)]

theorem length_bitsOfBytes (p : Bytes) : (bitsOfBytes p).length = 8 * p.length := by
  induction p with
  | nil => rfl
  | cons byte p ih =>
    rw [← singleton_append, bitsOfBytes_append, length_append, ih, length_append]
    rw [bitsOfBytes, flatMap_singleton, length_bitsOf, length_singleton]
    omega

theorem bitsOfBytes_inj {p q : Bytes} (same : bitsOfBytes p = bitsOfBytes q) : p = q := by
  have lengths := congrArg List.length same
  rw [length_bitsOfBytes, length_bitsOfBytes] at lengths
  induction p generalizing q with
  | nil =>
    rw [length_nil] at lengths
    exact (length_eq_zero_iff.mp (by omega)).symm
  | cons x p ih =>
    cases q with
    | nil => rw [length_cons, length_nil] at lengths; omega
    | cons y q =>
      obtain ⟨first, others⟩ := append_inj same (by rw [length_bitsOf, length_bitsOf])
      rw [length_cons, length_cons] at lengths
      rw [ih others (by omega), UInt8.toNat_inj.mp (bitsOf_inj x.toNat_lt y.toNat_lt first)]

theorem drainBits_bits (accumulator : Nat) {fuel bits : Nat} (enough : bits ≤ fuel) (out : Bytes) :
    (drainBits accumulator fuel bits out).1 < 8 ∧
    bitsOfBytes (drainBits accumulator fuel bits out).2 ++ bitsOf (drainBits accumulator fuel bits out).1 accumulator =
      bitsOfBytes out ++ bitsOf bits accumulator := by
  induction fuel generalizing bits out with
  | zero =>
    rw [drainBits]
    exact ⟨by omega, rfl⟩
  | succ fuel ih =>
    rw [drainBits]
    by_cases more : 8 ≤ bits
    · rw [if_pos more]
      have less : bits - 8 ≤ fuel := by omega
      obtain ⟨few, moved⟩ := ih less (out ++ [UInt8.ofNat (accumulator / 2 ^ (bits - 8))])
      refine ⟨few, ?_⟩
      have cut : bitsOf bits accumulator =
          bitsOf 8 (accumulator / 2 ^ (bits - 8)) ++ bitsOf (bits - 8) accumulator := by
        rw [← bitsOf_add, Nat.add_sub_cancel' more]
      rw [moved, bitsOfBytes_append, bitsOfBytes_ofNat, append_assoc, cut]
    · rw [if_neg more]
      exact ⟨by omega, rfl⟩

/-- What has been written and the bits that wait are the code words so far. -/
structure HuffmanWriter.Holds (writer : HuffmanWriter) (s : Bytes) : Prop where
  few : writer.bits < 8
  bits : bitsOfBytes writer.out ++ bitsOf writer.bits writer.accumulator = words s

theorem encodeByte_holds {writer : HuffmanWriter} {s : Bytes} (holds : writer.Holds s) (byte : UInt8) :
    (encodeByte writer byte).Holds (s ++ [byte]) := by
  have known : byte.toNat < 257 := by
    have := byte.toNat_lt
    omega
  obtain ⟨_, short, fits⟩ := word_bounds known
  obtain ⟨few, moved⟩ := drainBits_bits ((writer.accumulator * 2 ^ huffmanLengths.getD byte.toNat 0 % 2 ^ 64) |||
      huffmanCodes.getD byte.toNat 0)
    (le_refl (writer.bits + huffmanLengths.getD byte.toNat 0)) writer.out
  have waits := holds.few
  constructor
  · exact few
  · apply moved.trans
    rw [bitsOf_shiftIn _ fits (by omega), ← append_assoc, holds.bits, words, words,
      flatMap_append, flatMap_singleton, word]

theorem foldl_encodeByte_holds {writer : HuffmanWriter} {s : Bytes} (holds : writer.Holds s) (p : Bytes) :
    (p.foldl encodeByte writer).Holds (s ++ p) := by
  induction p generalizing writer s with
  | nil => rwa [append_nil]
  | cons byte p ih =>
    have rest := ih (encodeByte_holds holds byte)
    rwa [append_assoc] at rest

theorem huffmanEncode_bits (s : Bytes) :
    ∃ pad < 8, bitsOfBytes (huffmanEncode s) = words s ++ List.replicate pad true := by
  have start : HuffmanWriter.Holds ⟨0, 0, []⟩ [] := ⟨by decide, rfl⟩
  have holds := foldl_encodeByte_holds start s
  rw [nil_append] at holds
  have few := holds.few
  unfold huffmanEncode
  dsimp only
  by_cases waits : 0 < (s.foldl encodeByte ⟨0, 0, []⟩).bits
  · rw [if_pos waits]
    refine ⟨8 - (s.foldl encodeByte ⟨0, 0, []⟩).bits, by omega, ?_⟩
    have ones : 2 ^ (8 - (s.foldl encodeByte ⟨0, 0, []⟩).bits) - 1 < 2 ^ (8 - (s.foldl encodeByte ⟨0, 0, []⟩).bits) :=
      Nat.sub_lt (Nat.two_pow_pos _) Nat.one_pos
    have last := bitsOf_shiftIn (b := (s.foldl encodeByte ⟨0, 0, []⟩).bits)
      (s.foldl encodeByte ⟨0, 0, []⟩).accumulator ones (by omega)
    rw [Nat.add_sub_cancel' (Nat.le_of_lt few), bitsOf_ones] at last
    rw [bitsOfBytes_append, bitsOfBytes_ofNat, last, ← append_assoc, holds.bits]
  · rw [if_neg waits]
    refine ⟨0, by decide, ?_⟩
    have all := holds.bits
    rw [Nat.eq_zero_of_not_pos waits, bitsOf, append_nil] at all
    rw [all, replicate_zero, append_nil]

theorem length_words (s : Bytes) :
    (words s).length = s.foldl (fun bits byte => bits + huffmanLengths.getD byte.toNat 0) 0 := by
  induction s using List.reverseRecOn with
  | nil => rfl
  | append_singleton s byte ih =>
    rw [words, flatMap_append, length_append, ← words, ih, flatMap_singleton, word, length_bitsOf, foldl_append]
    rfl

theorem length_huffmanEncode (s : Bytes) : (huffmanEncode s).length = huffmanEncodedLength s := by
  obtain ⟨pad, few, bits⟩ := huffmanEncode_bits s
  have lengths := congrArg List.length bits
  rw [length_bitsOfBytes, length_append, length_replicate, length_words] at lengths
  rw [huffmanEncodedLength]
  omega

theorem foldlM_ones {pad : Nat} (few : pad < 8) (out : Bytes) :
    (List.replicate pad true).foldlM decodeBit (waiting [] out) = .ok (waiting (List.replicate pad true) out) := by
  have eos : word 256 = List.replicate 30 true := by decide
  have long : huffmanLengths.getD 256 0 = 30 := by decide
  have known : 256 < 257 := by decide
  have begun := foldlM_begun known out (k := pad) (by omega)
  rwa [eos, take_replicate, min_eq_left (by omega)] at begun

theorem checkPadding_waiting (rest : List Bool) (out s : Bytes) : checkPadding (waiting rest out) = .ok s ↔
    out = s ∧ rest.length < 8 ∧ rest = List.replicate rest.length true := by
  change (if 8 ≤ rest.length then Except.error HPACKError.badHuffman
    else if 0 < rest.length ∧ valueOf rest ≠ 2 ^ rest.length - 1 then .error .badHuffman
    else .ok out) = .ok s ↔ _
  by_cases long : 8 ≤ rest.length
  · rw [if_pos long]
    constructor
    · intro ok
      cases ok
    · intro padded
      omega
  rw [if_neg long]
  by_cases wrong : 0 < rest.length ∧ valueOf rest ≠ 2 ^ rest.length - 1
  · rw [if_pos wrong]
    constructor
    · intro ok
      cases ok
    · intro padded
      apply absurd _ wrong.2
      rw [padded.2.2, valueOf_replicate, length_replicate]
  · rw [if_neg wrong]
    constructor
    · intro ok
      refine ⟨Except.ok.inj ok, by omega, ?_⟩
      apply eq_replicate_of_valueOf
      by_contra other
      apply wrong
      refine ⟨?_, other⟩
      apply pos_of_ne_zero
      intro empty
      apply other
      rw [length_eq_zero_iff.mp empty]
      rfl
    · intro padded
      rw [padded.1]

theorem huffmanDecode_ok_iff (x s : Bytes) :
    huffmanDecode x = .ok s ↔ ∃ pad < 8, bitsOfBytes x = words s ++ List.replicate pad true := by
  unfold huffmanDecode
  change ((bitsOfBytes x).foldlM decodeBit (waiting [] []) >>= _) = _ ↔ _
  constructor
  · intro decoded
    obtain ⟨state, ran, padded⟩ := Except.bind_ok decoded
    obtain ⟨written, rest, rfl, same⟩ := words_of_foldlM ran
    obtain ⟨rfl, few, ones⟩ := (checkPadding_waiting _ _ _).mp padded
    refine ⟨rest.length, few, ?_⟩
    rw [← ones]
    exact same
  · intro coded
    obtain ⟨pad, few, bits⟩ := coded
    rw [bits, foldlM_words, nil_append, foldlM_ones few]
    apply (checkPadding_waiting _ _ _).mpr
    rw [length_replicate]
    exact ⟨rfl, few, rfl⟩

/-- The Huffman coding of a string is read back as the string, it has the announced length, and no other
bytes are read as the string. -/
theorem huffman_coding_unique (s : Bytes) : huffmanDecode (huffmanEncode s) = .ok s ∧
    (huffmanEncode s).length = huffmanEncodedLength s ∧
    ∀ x, huffmanDecode x = .ok s → huffmanEncode s = x := by
  refine ⟨(huffmanDecode_ok_iff _ _).mpr (huffmanEncode_bits s), length_huffmanEncode s, ?_⟩
  intro x decoded
  obtain ⟨pad, few, bits⟩ := (huffmanDecode_ok_iff x s).mp decoded
  obtain ⟨pad', few', bits'⟩ := huffmanEncode_bits s
  have lengths := congrArg List.length bits
  have lengths' := congrArg List.length bits'
  rw [length_bitsOfBytes, List.length_append, List.length_replicate] at lengths lengths'
  -- both are whole bytes, so that the same number of ones fills the last one
  have same : pad' = pad := by omega
  apply bitsOfBytes_inj
  rw [bits', bits, same]

theorem huffman_coding_unique_a :
    huffmanDecode [0x18, 0xFF] = .ok [0x61, 0x61] ∧ huffmanEncode [0x61, 0x61] = [0x18, 0xFF] := by
  have decoded : huffmanDecode [0x18, 0xFF] = .ok [0x61, 0x61] := by
    apply (huffmanDecode_ok_iff _ _).mpr
    exact ⟨6, by decide, by decide⟩
  exact ⟨decoded, (huffman_coding_unique _).2.2 _ decoded⟩

end AvianCore.Hpack
