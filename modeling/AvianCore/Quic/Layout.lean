import AvianCore.Quic.Send

/-!
How much a datagram holds. Every frame writer reserves at least what it writes, so that no
packet is laid out past its limit, and the datagram stays within its budget.
-/

namespace AvianCore.Quic

namespace QUICFrameWriter

/-- The writer moved forward and stayed within its limit. Limits are datagram sizes, which is what
lets two bytes be reserved for a length. -/
structure Extends (before after : QUICFrameWriter) : Prop where
  limit : after.limit = before.limit
  forward : before.offset ≤ after.offset
  within : before.limit < 0x4000 → before.offset ≤ before.limit → after.offset ≤ after.limit

variable (w : QUICFrameWriter)

theorem Extends.refl : Extends w w := ⟨rfl, le_rfl, fun _ fits => fits⟩

theorem Extends.trans {a b c : QUICFrameWriter} (first : Extends a b) (second : Extends b c) : Extends a c where
  limit := second.limit.trans first.limit
  forward := first.forward.trans second.forward
  within small fits := second.within (first.limit ▸ small) (first.within small fits)

theorem Extends.by {before after : QUICFrameWriter} (n : Nat) (limit : after.limit = before.limit)
    (moved : after.offset = before.offset + n)
    (room : before.limit < 0x4000 → (n : Int) ≤ before.room) : Extends before after := by
  refine ⟨limit, by omega, fun small _ => ?_⟩
  have enough := room small
  unfold QUICFrameWriter.room at enough
  omega

@[simp] theorem varint_limit (value : Nat) : (w.varint value).limit = w.limit := rfl

@[simp] theorem varint_offset (value : Nat) : (w.varint value).offset = w.offset + quicVarintLength value := rfl

@[simp] theorem bytes_limit (p : Bytes) (n : Nat) : (w.bytes p n).limit = w.limit := rfl

@[simp] theorem bytes_offset (p : Bytes) (n : Nat) : (w.bytes p n).offset = w.offset + n := rfl

@[simp] theorem type_limit (type : FrameType) : (w.type type).limit = w.limit := rfl

theorem type_offset (type : FrameType) (small : type.code < 0x40) : (w.type type).offset = w.offset + 1 := by
  simp [QUICFrameWriter.type, quicVarintLength, small]

end QUICFrameWriter

open QUICFrameWriter List Nat

namespace Turn

variable (turn : Turn) (id : Nat)

theorem writeStopSending_extends : Extends turn.draft.writer (turn.writeStopSending id).draft.writer := by
  unfold writeStopSending
  split
  · exact .refl _
  next code _ =>
    split_ifs with sent short
    · exact .refl _
    · exact .refl _
    refine Extends.by (1 + quicVarintLength id + quicVarintLength code) rfl ?_ fun _ => ?_
    · simp only [varint_offset, type_offset _ .stopSending (by decide)]
      omega
    · have room := not_lt.mp short
      unfold Turn.room at room
      omega

theorem writeReset_extends (id code : Nat) : Extends turn.draft.writer (turn.writeReset id code).draft.writer := by
  unfold writeReset
  extract_lets final
  split_ifs with short
  · exact .refl _
  refine Extends.by (1 + quicVarintLength id + quicVarintLength code + quicVarintLength final) rfl ?_ fun _ => ?_
  · simp only [varint_offset, type_offset _ .resetStream (by decide)]
    omega
  · have room := not_lt.mp short
    unfold Turn.room at room
    omega

theorem writeMaxStreamData_extends : Extends turn.draft.writer (turn.writeMaxStreamData id).draft.writer := by
  unfold writeMaxStreamData
  extract_lets limit
  split_ifs with known short
  · exact .refl _
  · exact .refl _
  refine Extends.by (1 + quicVarintLength id + quicVarintLength limit) rfl ?_ fun _ => ?_
  · simp only [varint_offset, type_offset _ .maxStreamData (by decide)]
    omega
  · have room := not_lt.mp short
    unfold Turn.room at room
    omega

theorem writeStreamHeader_spec (w : QUICFrameWriter) (id offset length : Nat) (fin : Bool) :
    (writeStreamHeader w id offset length fin).limit = w.limit ∧
      w.offset ≤ (writeStreamHeader w id offset length fin).offset ∧
      (writeStreamHeader w id offset length fin).offset ≤
        w.offset + 1 + quicVarintLength id + quicVarintLength offset + quicVarintLength length := by
  unfold writeStreamHeader
  extract_lets bits typed based
  have first : typed.offset = w.offset + 1 + quicVarintLength id := by
    have small : (FrameType.stream bits).code < 0x40 := by
      simp only [FrameType.code, bits, FrameType.streamLength, FrameType.streamOffset, FrameType.streamFin]
      split_ifs <;> omega
    simp only [typed, varint_offset, type_offset _ _ small]
  have second : based.limit = w.limit ∧ typed.offset ≤ based.offset ∧
      based.offset ≤ typed.offset + quicVarintLength offset := by
    simp only [based]
    split_ifs
    · exact ⟨rfl, by simp, by simp⟩
    · exact ⟨rfl, le_rfl, by omega⟩
  refine ⟨second.1, ?_, ?_⟩ <;> simp only [varint_offset] <;> omega

/-- A frame of `length` bytes that flow control and the room in the packet allow. -/
structure Chosen (turn : Turn) (id available length : Nat) (fin : Bool) : Prop where
  allowed : allowed turn.stream.send (turn.draft.conn.sendLimit - turn.draft.conn.sentBytes)
    (nextStretch turn.stream.send) = some available
  room : ((1 + quicVarintLength id + quicVarintLength (nextStretch turn.stream.send).offset + 2 : Nat)
    : Int) + length ≤ turn.room
  length : length ≤ available
  fin : fin = true → (nextStretch turn.stream.send).isRetransmit = false

/-- What `writeOneStream` can come to: nothing, a header whose bytes are not there, or a frame. -/
inductive OneStream (turn : Turn) (id : Nat) : Turn × Bool → Prop where
  | nothing : OneStream turn id (turn, false)
  | broken (available length : Nat) (fin : Bool) (chosen : Chosen turn id available length fin) :
      OneStream turn id ({ turn with draft := { turn.draft with
        writer := writeStreamHeader turn.draft.writer id (nextStretch turn.stream.send).offset
          length fin } }, false)
  | frame (available length : Nat) (fin : Bool) (data : Bytes)
      (chosen : Chosen turn id available length fin) :
      OneStream turn id (({ turn with draft := { turn.draft with
        writer := (writeStreamHeader turn.draft.writer id (nextStretch turn.stream.send).offset
          length fin).bytes data length } } : Turn).recordStream id
          (nextStretch turn.stream.send).offset length fin
          (nextStretch turn.stream.send).isRetransmit, true)

theorem writeOneStream_cases : OneStream turn id (turn.writeOneStream id) := by
  unfold writeOneStream
  extract_lets send stretch offset overhead draft
  split
  · exact .nothing
  next available may =>
    extract_lets length fin writer
    split
    · exact .nothing
    next full =>
      have chosen : Chosen turn id available length fin := by
        refine ⟨may, ?_, min_le_left _ _, fun ends => ?_⟩
        · have least : length ≤ (turn.room - overhead).toNat := min_le_right _ _
          have total : overhead = 1 + quicVarintLength id + quicVarintLength offset + 2 := rfl
          change ((1 + quicVarintLength id + quicVarintLength offset + 2 : Nat) : Int) + length ≤ _
          omega
        · simp only [fin, Bool.and_eq_true, Bool.not_eq_true'] at ends
          exact ends.1.1
      split
      next empty =>
        have whole := OneStream.frame available length fin [] chosen
        have none : ∀ w : QUICFrameWriter, w.bytes [] length = w := fun w => by simp [QUICFrameWriter.bytes, empty]
        rw [none] at whole
        exact whole
      · split
        · exact .broken available length fin chosen
        next data _ => exact .frame available length fin data chosen

theorem Chosen.extends {turn : Turn} {id available length : Nat} {fin : Bool}
    (chosen : Chosen turn id available length fin) (header after : QUICFrameWriter)
    (begun : header = writeStreamHeader turn.draft.writer id (nextStretch turn.stream.send).offset length fin)
    (same : after.limit = header.limit) (later : header.offset ≤ after.offset)
    (most : after.offset ≤ header.offset + length) : Extends turn.draft.writer after := by
  obtain ⟨limit, forward, bounded⟩ := writeStreamHeader_spec turn.draft.writer id
    (nextStretch turn.stream.send).offset length fin
  rw [← begun] at limit forward bounded
  refine ⟨same.trans limit, forward.trans later, fun small fits => ?_⟩
  have room := chosen.room
  unfold Turn.room QUICFrameWriter.room at room
  -- two bytes are set aside for the length, which is less than the datagram
  have short : quicVarintLength length ≤ 2 := quicVarintLength_le_two length (by omega)
  rw [same, limit]
  omega

theorem writeOneStream_extends : Extends turn.draft.writer (turn.writeOneStream id).1.draft.writer := by
  have outcome := writeOneStream_cases turn id
  generalize turn.writeOneStream id = result at outcome
  cases outcome with
  | nothing => exact .refl _
  | broken available length fin chosen => exact chosen.extends _ _ rfl rfl le_rfl (le_add_right _ _)
  | frame available length fin data chosen => exact chosen.extends _ _ rfl rfl (le_add_right _ _) le_rfl

end Turn

namespace Draft

theorem streamWalk_extends (ids : List Nat) (d : Draft) (deferred : List Nat) :
    Extends d.writer (streamWalk ids d deferred).1.writer := by
  induction ids generalizing d deferred with
  | nil => exact .refl _
  | cons id rest ih =>
    unfold streamWalk
    split
    · exact .refl _
    split
    · exact ih (d.unmark id) deferred
    next s _ =>
      extract_lets d1 turn
      have stops : Extends d.writer turn.draft.writer := Turn.writeStopSending_extends ⟨d1, s⟩ id
      split
      next code _ =>
        exact (stops.trans (Turn.writeReset_extends turn id code)).trans
          (ih (((turn.writeReset id code).commit id).unmark id) deferred)
      · have limits := stops.trans (Turn.writeMaxStreamData_extends turn id)
        have data := limits.trans (Turn.writeOneStream_extends (turn.writeMaxStreamData id) id)
        split
        next turn' wrote done =>
          rw [done] at data
          extract_lets d2 d3
          split_ifs
          · exact data
          · exact data.trans (ih d2 (deferred ++ [id]))
          · exact data
          · exact data.trans (ih d3 deferred)

variable (d : Draft)

theorem writeStreamFrames_extends : Extends d.writer d.writeStreamFrames.writer := by
  have walked := streamWalk_extends d.conn.writable d []
  unfold writeStreamFrames
  split
  next d1 unreached deferred done =>
    rw [done] at walked
    exact walked

theorem writeHandshakeDone_extends : Extends d.writer d.writeHandshakeDone.writer := by
  unfold writeHandshakeDone
  split_ifs with due
  · exact Extends.by 1 rfl (type_offset _ _ (by decide)) fun _ => due.2
  · exact .refl _

theorem writePathResponses_extends (responses : List Bytes) (d : Draft) :
    Extends d.writer (writePathResponses responses d).writer := by
  induction responses generalizing d with
  | nil => exact .refl _
  | cons response rest ih =>
    unfold writePathResponses
    split_ifs with room
    · refine Extends.trans ?_ (ih _)
      refine Extends.by 9 rfl ?_ fun _ => room
      simp only [bytes_offset, type_offset _ .pathResponse (by decide)]
    · exact .refl _

theorem writeLimit_extends (pending : Bool) (type : FrameType) (limit : Nat) (done : QUICConnection → QUICConnection)
    (note : QUICSentFrames → QUICSentFrames) (small : type.code < 0x40) :
    Extends d.writer (d.writeLimit pending type limit done note).writer := by
  unfold writeLimit
  split_ifs with due
  · refine Extends.by (1 + quicVarintLength limit) rfl ?_ fun _ => by exact_mod_cast due.2
    simp only [varint_offset, type_offset _ _ small]
    omega
  · exact .refl _

theorem writeDatagrams_extends (payloads : List Bytes) (d : Draft) :
    Extends d.writer (writeDatagrams payloads d).writer := by
  induction payloads generalizing d with
  | nil => exact .refl _
  | cons payload rest ih =>
    unfold writeDatagrams
    split_ifs with short
    · exact .refl _
    refine Extends.trans ?_ (ih _)
    refine Extends.by (1 + quicVarintLength payload.length + payload.length) rfl ?_ fun _ => ?_
    · simp only [bytes_offset, varint_offset, type_offset _ .datagramWithLength (by decide)]
      omega
    · have room := not_lt.mp short
      omega

theorem writeApplicationFrames_extends : Extends d.writer d.writeApplicationFrames.writer := by
  unfold writeApplicationFrames
  extract_lets d1 d2 d3 d4 d5 d6
  have done : Extends d.writer d1.writer := writeHandshakeDone_extends d
  have paths : Extends d1.writer d2.writer := writePathResponses_extends _ d1
  have data : Extends d2.writer d3.writer := writeLimit_extends _ _ _ _ _ _ (by decide)
  have bidi : Extends d3.writer d4.writer := writeLimit_extends _ _ _ _ _ _ (by decide)
  have uni : Extends d4.writer d5.writer := writeLimit_extends _ _ _ _ _ _ (by decide)
  have datagrams : Extends d5.writer d6.writer := writeDatagrams_extends _ d5
  exact (((((done.trans paths).trans data).trans bidi).trans uni).trans datagrams).trans (writeStreamFrames_extends d6)

variable (level : QUICLevel)

theorem writeCrypto_extends : Extends d.writer (d.writeCrypto level).writer := by
  unfold writeCrypto
  extract_lets stream stretch offset owed overhead length conn frames
  split
  · exact .refl _
  split
  · exact .refl _
  next full =>
    split
    · exact .refl _
    have least : length ≤ (d.writer.room - overhead).toNat := min_le_right _ _
    have total : overhead = 1 + quicVarintLength offset + 4 := rfl
    refine Extends.by (1 + quicVarintLength offset + quicVarintLength length + length) rfl ?_ fun small => ?_
    · simp only [bytes_offset, varint_offset, type_offset _ .crypto (by decide)]
      omega
    · have room : d.writer.room ≤ d.writer.limit := by
        unfold QUICFrameWriter.room
        omega
      have four : quicVarintLength length ≤ 4 := quicVarintLength_le_four length (by omega)
      omega

theorem writePing_extends : Extends d.writer d.writePing.writer := by
  unfold writePing
  split_ifs with due
  · exact Extends.by 1 rfl (type_offset _ _ (by decide)) fun _ => due.2
  · exact .refl _

theorem writeAck_extends (nowMs : Nat) : Extends d.writer (d.writeAck level nowMs).1.writer := by
  unfold writeAck
  extract_lets space scratch
  split_ifs with due room
  · exact Extends.by scratch.length rfl rfl fun _ => room
  · exact .refl _
  · exact .refl _

theorem fill_extends (ackOnly : Bool) : Extends d.writer (d.fill level ackOnly).writer := by
  unfold fill
  extract_lets d1
  split_ifs
  · exact .refl _
  have application : Extends d.writer d1.writer := by
    simp only [d1]
    split_ifs
    · exact writeApplicationFrames_extends d
    · exact .refl _
  exact (application.trans (writeCrypto_extends d1 level)).trans (writePing_extends _)

end Draft
namespace QUICProtect

theorem length_xorAt (bytes : Bytes) (start : Nat) (mask : Bytes) : (xorAt bytes start mask).length = bytes.length := by
  simp only [xorAt, length_append, length_take, length_zipWith, length_drop]
  omega

theorem length_seal (P : Primitives) {packet sealed : Bytes}
    {pnOffset pnLength payloadLength packetNumber : Nat} {keys : QUICKeys} {header : QUICHeaderKey}
    (done : «seal» P packet pnOffset pnLength payloadLength packetNumber keys header = some sealed) :
    quicAEADTagLength ≤ sealed.length ∧ sealed.length ≤ pnOffset + pnLength + payloadLength + quicAEADTagLength := by
  simp only [«seal», Option.bind_eq_bind, Option.bind_eq_some_iff] at done
  obtain ⟨aead, _, ciphertext, encrypted, rest⟩ := done
  split_ifs at rest
  obtain ⟨mask, _, rest⟩ := Option.bind_eq_some_iff.mp rest
  simp only [Option.some.injEq] at rest
  subst rest
  have tagged := P.aeadSeal_length _ _ _ _ _ encrypted
  rw [length_xorAt, length_xorAt, length_append, tagged]
  simp only [length_take, quicAEADTagLength]
  omega

end QUICProtect

namespace QUICConnection

/-- Where the offsets of a planned packet stand to one another. -/
structure Planned (packet : PlannedPacket) (budget : Nat) : Prop where
  number : packet.start ≤ packet.pnOffset
  «end» : packet.pnOffset + packet.pnLength + packet.payloadLength + quicAEADTagLength = packet.end
  within : packet.end ≤ budget

variable {packet : PlannedPacket} {limit : Nat}

theorem buildPacket_planned {c : QUICConnection} {level : QUICLevel} {start : Nat}
    {ackOnly : Bool} {nowMs : Nat} (small : limit < 0x4000)
    (built : (c.buildPacket level start limit ackOnly nowMs).2 = some packet) :
    Planned packet limit := by
  unfold buildPacket at built
  extract_lets bodyLimit pnLength header pnOffset writer at built
  split at built
  · simp at built
  split at built
  · simp at built
  next room begun =>
    split at built
    next d largestAcked acked =>
      have acks := Draft.writeAck_extends ⟨c, writer, {}, false⟩ level nowMs
      rw [acked] at acks
      have filled := acks.trans (Draft.fill_extends d level ackOnly)
      have limit' : (d.fill level ackOnly).writer.limit = bodyLimit := filled.limit
      have body : bodyLimit = limit - quicAEADTagLength := rfl
      have tag : quicAEADTagLength = 16 := rfl
      have within := filled.within (show bodyLimit < 0x4000 by omega) (show pnOffset + pnLength ≤ bodyLimit by omega)
      have forward : pnOffset + pnLength ≤ (d.fill level ackOnly).writer.offset := filled.forward
      extract_lets d1 payloadLength at built
      split at built
      · simp at built
      simp only [Option.some.injEq] at built
      subst built
      refine ⟨le_add_right _ _, ?_, ?_⟩
      · simp only [payloadLength]
        have same : d1 = d.fill level ackOnly := rfl
        rw [same]
        omega
      · have same : d1 = d.fill level ackOnly := rfl
        simp only [same]
        omega

theorem planPackets_planned (small : limit < 0x4000) (ackOnly : Bool) (nowMs : Nat)
    (levels : List QUICLevel) (c : QUICConnection) (offset : Nat) :
    ∀ packet ∈ (planPackets limit ackOnly nowMs levels c offset).2, Planned packet limit := by
  induction levels generalizing c offset with
  | nil => exact fun packet member => absurd member not_mem_nil
  | cons level rest ih =>
    rw [planPackets_cons]
    split_ifs
    · exact ih c offset
    split
    · exact ih _ _
    next c1 packet built =>
      have first : Planned packet limit := buildPacket_planned small (congrArg Prod.snd built)
      intro other member
      rcases mem_cons.mp member with rfl | later
      · exact first
      · exact ih _ _ other later

theorem padLast_planned (planned : List PlannedPacket) (budget : Nat)
    (each : ∀ packet ∈ planned, Planned packet budget) :
    ∀ packet ∈ padLast planned budget, Planned packet budget := by
  unfold padLast
  split
  · exact each
  next last found =>
    extract_lets carriesInitial target minimumPayload short padding
    have lastPlanned := each last (mem_of_getLast? found)
    split_ifs with room
    · intro packet member
      rcases mem_append.mp member with earlier | final
      · exact each packet (dropLast_subset _ earlier)
      rw [mem_singleton] at final
      subst final
      refine ⟨lastPlanned.number, ?_, room.2⟩
      have «end» := lastPlanned.end
      simp only
      omega
    · exact each

section
variable (P : Primitives)

variable {budget : Nat}

theorem length_sealPacket_le {c : QUICConnection} {sealed : Bytes}
    (planned : Planned packet budget) (done : c.sealPacket P packet = some sealed) :
    packet.start + sealed.length ≤ packet.end := by
  unfold sealPacket at done
  extract_lets length bytes send at done
  have most := (QUICProtect.length_seal P done).2
  have number := planned.number
  have «end» := planned.end
  omega

theorem sealAll_count_le (nowMs : Nat) (planned : List PlannedPacket) (c : QUICConnection) (out : Datagram)
    (each : ∀ packet ∈ planned, Planned packet budget) (start : out.count ≤ budget) {result : Datagram}
    (done : (sealAll P nowMs planned c out).2 = some result) : result.count ≤ budget := by
  induction planned generalizing c out with
  | nil =>
    simp only [sealAll, Option.some.injEq] at done
    exact done ▸ start
  | cons packet rest ih =>
    unfold sealAll at done
    split at done
    · simp at done
    next sealed sealing =>
      have first := each packet mem_cons_self
      have length := length_sealPacket_le P first sealing
      exact ih _ _ (fun other later => each other (mem_cons_of_mem _ later)) (length.trans first.within) done

variable (c : QUICConnection)

theorem buildDatagram_count_le (small : budget < 0x4000) (nowMs : Nat) :
    (c.buildDatagram P budget nowMs).2.count ≤ budget := by
  unfold buildDatagram
  extract_lets windowFull ackOnly
  have planned := planPackets_planned small ackOnly nowMs [.initial, .handshake, .application] c 0
  split
  · exact zero_le _
  next c1 packets _ plan =>
    rw [plan] at planned
    extract_lets padded
    have each := padLast_planned packets budget planned
    have count : ∀ result, (sealAll P nowMs padded c1 {}).2 = some result → result.count ≤ budget :=
      fun result => sealAll_count_le P nowMs padded c1 {} each (zero_le _)
    split
    · exact zero_le _
    next c2 out done => exact count out (congrArg Prod.snd done)

theorem writeClose_extends (level : QUICLevel) (writer : QUICFrameWriter) (room : 16 ≤ writer.room) :
    Extends writer (c.writeClose level writer) := by
  unfold writeClose
  extract_lets useApplication typed coded named reasonLength
  have first : typed.offset = writer.offset + 1 := by
    simp only [typed]
    split_ifs <;> exact type_offset _ _ (by decide)
  have typedLimit : typed.limit = writer.limit := rfl
  have second : coded.limit = writer.limit ∧ typed.offset ≤ coded.offset ∧ coded.offset ≤ typed.offset + 8 := by
    refine ⟨rfl, ?_, ?_⟩ <;> simp only [coded, varint_offset]
    · omega
    · exact Nat.add_le_add_left (quicVarintLength_le _) _
  have third : named.limit = writer.limit ∧ coded.offset ≤ named.offset ∧ named.offset ≤ coded.offset + 1 := by
    simp only [named]
    split_ifs
    · exact ⟨rfl, le_rfl, le_succ _⟩
    · refine ⟨rfl, ?_, ?_⟩ <;> simp [quicVarintLength]
  refine ⟨third.1, ?_, fun small _ => ?_⟩
  · simp only [bytes_offset, varint_offset]
    omega
  · have cut : reasonLength ≤ (max 0 (named.room - 8)).toNat := min_le_right _ _
    unfold QUICFrameWriter.room at room cut
    rw [third.1] at cut
    have short : quicVarintLength reasonLength ≤ 2 := quicVarintLength_le_two reasonLength (by omega)
    have one : reasonLength = 0 → quicVarintLength reasonLength = 1 := fun zero => by simp [quicVarintLength, zero]
    simp only [bytes_offset, varint_offset, bytes_limit, varint_limit, third.1]
    omega

theorem writeClose_offset (level : QUICLevel) (writer : QUICFrameWriter) :
    writer.offset + 3 ≤ (c.writeClose level writer).offset := by
  unfold writeClose
  extract_lets useApplication typed coded named reasonLength
  have first : writer.offset + 1 ≤ typed.offset := Nat.add_le_add_left (quicVarintLength_pos _) _
  have second : typed.offset + 1 ≤ coded.offset := Nat.add_le_add_left (quicVarintLength_pos _) _
  have third : coded.offset ≤ named.offset := by
    simp only [named]
    split_ifs
    · exact le_rfl
    · exact le_add_right _ _
  have last := quicVarintLength_pos reasonLength
  simp only [bytes_offset, varint_offset]
  omega

theorem buildCloseFrame_layout {c : QUICConnection} {level : QUICLevel} (small : limit < 0x4000) (large : 64 ≤ limit)
    (built : c.buildCloseFrame level limit = some packet) :
    packet.start = 0 ∧ packet.pnOffset + packet.pnLength + packet.payloadLength + quicAEADTagLength ≤ limit := by
  unfold buildCloseFrame at built
  extract_lets pnLength header pnOffset writer closed payloadLength padding at built
  have short : ¬ writer.room < 16 := by
    intro tight
    rw [if_pos tight] at built
    cases built
  rw [if_neg short, Option.some.injEq] at built
  subst built
  refine ⟨rfl, ?_⟩
  have tag : quicAEADTagLength = 16 := rfl
  have one : pnLength = 1 := rfl
  have room := not_lt.mp short
  have written := writeClose_extends c level writer room
  have enough : writer.offset ≤ writer.limit := by
    unfold QUICFrameWriter.room at room
    omega
  have limit' : writer.limit = limit - quicAEADTagLength := rfl
  have within : closed.offset ≤ writer.limit := by
    have inside := written.within (by omega) enough
    rw [written.limit] at inside
    exact inside
  have longer : writer.offset + 3 ≤ closed.offset := writeClose_offset c level writer
  have begun : writer.offset = pnOffset + pnLength := rfl
  have payload : payloadLength = closed.offset - (pnOffset + pnLength) := rfl
  have none : padding = 4 - pnLength - payloadLength := rfl
  simp only
  omega

theorem buildClose_count_le (small : budget < 0x4000) (large : 64 ≤ budget) (nowMs : Nat) :
    (c.buildClose P budget nowMs).2.count ≤ budget := by
  unfold buildClose
  extract_lets level
  split_ifs
  · exact zero_le _
  split
  · exact zero_le _
  next packet built =>
    obtain ⟨start, most⟩ := buildCloseFrame_layout small large built
    split
    · exact zero_le _
    next sealed sealing =>
      unfold sealPacket at sealing
      extract_lets length bytes send at sealing
      have length := (QUICProtect.length_seal P sealing).2
      rw [start] at length
      exact length.trans most

theorem sendBudget_small (capacity : Nat) : c.sendBudget capacity < 0x4000 := by
  have default : QUICRecovery.maxDatagramSize c.recovery = 1200 := rfl
  unfold sendBudget
  extract_lets budget
  have most : budget ≤ 1200 := (min_le_right _ _).trans default.le
  split_ifs <;> omega

theorem nextDatagram_count_le (capacity nowMs : Nat) :
    (c.nextDatagram P capacity nowMs).2.count ≤ c.sendBudget capacity := by
  have small := sendBudget_small c capacity
  unfold nextDatagram
  extract_lets budget
  split_ifs with drained tight closing
  · exact zero_le _
  · exact zero_le _
  · exact buildClose_count_le P c small (not_lt.mp tight) nowMs
  · exact buildDatagram_count_le P c small nowMs

end
end QUICConnection
end AvianCore.Quic
