import AvianCore.Quic.Frames
import AvianCore.Quic.LostPackets

/-!
MAX_STREAM_DATA and STREAM frames in either order. A STREAM frame opens the stream it names; a
MAX_STREAM_DATA frame for a stream that is not open yet is dropped.
-/

namespace AvianCore.Quic
open AvianCore.Lib Option
open QUICStreamKind (id_index index isUnidirectional isServerInitiated)

namespace QUICConnection

def sendLimitOf (c : QUICConnection) (id : Nat) : Option Nat := (c.streams.lookup id).map fun s => s.send.limit

/-- The stream was opened by the client, whether or not it is still live. -/
def wasOpened (c : QUICConnection) (id : Nat) : Bool :=
  (c.streams.lookup id).isSome ||
    decide ((QUICStreamKind.index id : Int) ≤ (c.highestIncoming (isUnidirectional id)).val)

/-- The limit that a stream of the client has once a frame has named it. -/
def limitWhenNamed (c : QUICConnection) (id : Nat) : Option Nat :=
  if c.wasOpened id then c.sendLimitOf id
  else some (c.incomingStream (isUnidirectional id)).send.limit

variable (c : QUICConnection) (unidirectional : Bool)

theorem setHighestIncoming_streams (last : Highest) :
    (c.setHighestIncoming unidirectional last).streams = c.streams := by
  cases unidirectional <;> rfl

theorem openOrFind_sendLimitOf {id : Nat} (client : isServerInitiated id = false) :
    (c.openOrFind id).1.sendLimitOf id = c.limitWhenNamed id := by
  unfold limitWhenNamed wasOpened
  cases found : c.streams.lookup id with
  | some s =>
    rw [isSome_some, Bool.true_or, if_pos rfl]
    unfold openOrFind
    rw [found]
  | none =>
    rw [isSome_none, Bool.false_or]
    by_cases past : (index id : Int) ≤ (c.highestIncoming (isUnidirectional id)).val
    · rw [if_pos (decide_eq_true past), openOrFind_missing ⟨found, .inr past⟩]
    have named := id_index id client
    have there := openIncoming_lookup (isUnidirectional id) (index id)
      (index id - (c.highestIncoming (isUnidirectional id)).val).toNat
      ((c.highestIncoming (isUnidirectional id)).val + 1).toNat c none
      (.inl (by omega))
    rw [named] at there
    rw [if_neg (by simpa using past)]
    unfold openOrFind
    rw [found]
    dsimp only
    rw [if_neg (by rw [client]; decide), if_neg past]
    show ((((openIncoming _ _ _ c none).1.setHighestIncoming _ _).streams.lookup id).map _ : Option Nat) = _
    rw [setHighestIncoming_streams, there]
    rfl

/-- What decides whether a stream of the client may be named, and the limit it then gets. -/
structure NamesAlike (c c' : QUICConnection) : Prop where
  limits : c'.toStreamLimits = c.toStreamLimits
  parameters : c'.peerParameters = c.peerParameters
  uni : c'.highestIncomingUni = c.highestIncomingUni
  bidi : c'.highestIncomingBidi = c.highestIncomingBidi

theorem openIncoming_limits (count i : Nat) (c : QUICConnection) (created : Option QUICStream) :
    (openIncoming unidirectional count i c created).1.toStreamLimits = c.toStreamLimits := by
  induction count generalizing i c created with
  | zero => rfl
  | succ count ih => exact ih (i + 1) _ _

theorem setHighestIncoming_limits (last : Highest) :
    (c.setHighestIncoming unidirectional last).toStreamLimits = c.toStreamLimits := by
  cases unidirectional <;> rfl

theorem openOrFind_limits (id : Nat) : (c.openOrFind id).1.toStreamLimits = c.toStreamLimits := by
  unfold openOrFind
  split
  · rfl
  split
  · rfl
  extract_lets unidirectional index highest
  split
  · rfl
  · apply (setHighestIncoming_limits _ _ _).trans
    exact openIncoming_limits unidirectional _ _ c none

theorem fail_limits (error : QUICError) :
    (c.fail error).toStreamLimits = c.toStreamLimits ∧ (c.fail error).streams = c.streams := by
  unfold fail close
  split <;> exact ⟨rfl, rfl⟩

theorem announceData_limits (id : Nat) (receive : QUICReceiveStream) :
    (c.announceData id receive).toStreamLimits = c.toStreamLimits ∧
      (c.announceData id receive).streams = c.streams := by
  unfold announceData
  dsimp only
  split <;> split <;> exact ⟨rfl, rfl⟩

theorem countGrowth_limits {c c' : QUICConnection} {s : QUICStream} {«end» : Nat}
    (counted : c.countGrowth s «end» = some c') :
    c'.toStreamLimits = c.toStreamLimits ∧ c'.streams = c.streams := by
  rcases countGrowth_some counted with ⟨-, rfl⟩ | ⟨-, -, rfl⟩ <;> exact ⟨rfl, rfl⟩

theorem sendLimitOf_congr {c c' : QUICConnection} (same : c'.streams = c.streams) (id : Nat) :
    c'.sendLimitOf id = c.sendLimitOf id := by
  unfold sendLimitOf
  rw [same]

theorem acceptStream_limits (s : QUICStream) (id offset : Nat) (data : Bytes) (fin : Bool) (r : QUICReader) :
    (c.acceptStream s id offset data fin r).1.toStreamLimits = c.toStreamLimits ∧
      (c.acceptStream s id offset data fin r).1.sendLimitOf id = c.sendLimitOf id := by
  have stops : ∀ (c1 : QUICConnection) error, c1.toStreamLimits = c.toStreamLimits →
      c1.streams = c.streams → (c1.stop error).1.toStreamLimits = c.toStreamLimits ∧
        (c1.stop error).1.sendLimitOf id = c.sendLimitOf id := by
    intro c1 error limits streams
    exact ⟨(fail_limits c1 error).1.trans limits, sendLimitOf_congr ((fail_limits c1 error).2.trans streams) id⟩
  unfold acceptStream
  split
  · exact stops c _ rfl rfl
  next c1 counted =>
    obtain ⟨limits, streams⟩ := countGrowth_limits counted
    split
    · exact stops c1 _ limits streams
    · exact stops c1 _ limits streams
    next receive accepted =>
      extract_lets c2
      obtain ⟨limits', streams'⟩ := announceData_limits c2 id receive
      refine ⟨limits'.trans limits, ?_⟩
      rw [sendLimitOf_congr streams' id]
      show ((c1.streams.modify id _).lookup id).map _ = _
      rw [Table.lookup_modify_self, map_map, streams]
      rfl

theorem streamIDError_granted {c : QUICConnection} {id : Nat} (encodable : id ≤ quicVarintMax)
    (client : isServerInitiated id = false) (both : isUnidirectional id = false)
    (granted : index id < c.localMaxStreamsBidi) : c.streamIDError id = none := by
  unfold streamIDError
  rw [if_neg (not_lt.mpr encodable), client, both]
  simpa using granted

section
variable {c : QUICConnection} {id : Nat}
  (client : isServerInitiated id = false)
  (both : isUnidirectional id = false)
  (granted : QUICStreamKind.index id < c.localMaxStreamsBidi)
include client both granted

theorem handleStream_limits {bits offset : Nat} {data : Bytes} {r later : QUICReader}
    (read : readStreamFrame bits r = some (id, offset, data, later)) (encodable : id ≤ quicVarintMax) :
    (c.handleStream bits r).1.toStreamLimits = c.toStreamLimits ∧
      (c.handleStream bits r).1.sendLimitOf id = c.limitWhenNamed id := by
  have open' : isSendOnly id = false := by rw [isSendOnly, client, Bool.false_and]
  unfold handleStream decoded
  rw [read]
  simp only [checkStreamID, streamIDError_granted encodable client both granted, guarded, open',
    Bool.false_eq_true, if_false]
  have limits := openOrFind_limits c id
  have limit := openOrFind_sendLimitOf c client
  unfold withStream
  split
  next c1 found =>
    rw [found] at limits limit
    exact ⟨limits, limit⟩
  next c1 s found =>
    rw [found] at limits limit
    obtain ⟨limits', limit'⟩ := acceptStream_limits c1 s id offset data
      (FrameType.hasBit bits FrameType.streamFin) later
    exact ⟨limits'.trans limits, limit'.trans limit⟩

theorem handleMaxStreamData_eq {limit : Nat} {r later : QUICReader}
    (read : readPair r = some (id, limit, later)) (encodable : id ≤ quicVarintMax) :
    (c.handleMaxStreamData r).1 = (c.mark (.maxStreamData id limit)).raiseStreamLimit id limit := by
  unfold handleMaxStreamData decoded
  rw [read]
  simp only [checkStreamID, streamIDError_granted encodable client both granted, guarded]

end

theorem NamesAlike.refl : NamesAlike c c := ⟨rfl, rfl, rfl, rfl⟩

theorem namesAlike_raiseStreamLimit (id limit : Nat) : NamesAlike c (c.raiseStreamLimit id limit) := by
  unfold raiseStreamLimit
  split
  · exact .refl c
  split
  · unfold noteWritable markWritable
    dsimp only
    split <;> split <;> exact ⟨rfl, rfl, rfl, rfl⟩
  · exact .refl c

theorem noteWritable_streams (id : Nat) : (c.noteWritable id).streams = c.streams := by
  unfold noteWritable
  dsimp only
  split <;> rfl

theorem raiseStreamLimit_sendLimitOf (id limit : Nat) :
    (c.raiseStreamLimit id limit).sendLimitOf id = (c.sendLimitOf id).map (max · limit) := by
  unfold raiseStreamLimit
  split
  next absent =>
    unfold sendLimitOf
    rw [absent]
    rfl
  next s live =>
    have here : c.sendLimitOf id = some s.send.limit := by
      unfold sendLimitOf
      rw [live]
      rfl
    rw [here]
    by_cases below : s.send.limit < limit
    · rw [if_pos below, sendLimitOf_congr (noteWritable_streams _ id), sendLimitOf_congr (markWritable_streams _ id)]
      show ((c.streams.modify id _).lookup id).map _ = _
      rw [Table.lookup_modify_self, live, map_some, map_some, map_some, max_eq_right below.le]
    · rw [if_neg below, here, map_some, max_eq_left (not_lt.mp below)]

theorem raiseStreamLimit_limitWhenNamed {id : Nat} (both : isUnidirectional id = false) (limit : Nat) :
    (c.raiseStreamLimit id limit).limitWhenNamed id = if c.wasOpened id then (c.sendLimitOf id).map (max · limit)
      else some c.peerParameters.initialMaxStreamDataBidiLocal := by
  have alike := namesAlike_raiseStreamLimit c id limit
  have raised := raiseStreamLimit_sendLimitOf c id limit
  have live : ((c.raiseStreamLimit id limit).streams.lookup id).isSome = (c.streams.lookup id).isSome := by
    have sizes := congrArg Option.isSome raised
    simpa only [sendLimitOf, isSome_map] using sizes
  have opened : (c.raiseStreamLimit id limit).wasOpened id = c.wasOpened id := by
    unfold wasOpened highestIncoming
    rw [live, alike.uni, alike.bidi]
  unfold limitWhenNamed
  rw [opened, raised]
  show (if c.wasOpened id then _ else some (if _ then 0 else
    (c.raiseStreamLimit id limit).peerParameters.initialMaxStreamDataBidiLocal)) = _
  rw [alike.parameters, both]
  rfl

section
variable (P : Primitives)

theorem readPair_fst_le {r later : QUICReader} {first second : Nat}
    (read : readPair r = some (first, second, later)) : first ≤ quicVarintMax := by
  unfold readPair at read
  cases varint : r.varint with
  | none => simp [varint] at read
  | some pair =>
    obtain ⟨value, r'⟩ := pair
    have below := QUICReader.varint_lt varint
    have same : value = first := by
      simp only [varint, bind_eq_bind, bind_some, bind_eq_some_iff, Option.some.injEq, Prod.mk.injEq] at read
      obtain ⟨_, -, same, -⟩ := read
      exact same
    have most : quicVarintMax = 2 ^ 62 - 1 := by decide
    omega

/-- The two orders in which a MAX_STREAM_DATA and a STREAM frame of one client stream can be processed
leave it with the same limit exactly if the stream was opened before, or the limit is not above the one
that it gets when it is opened. -/
theorem orders_agree_iff (c : QUICConnection) {id limit offset bits : Nat} {data : Bytes}
    {r later s rest : QUICReader} (client : isServerInitiated id = false)
    (both : isUnidirectional id = false) (granted : index id < c.localMaxStreamsBidi)
    (raise : readPair r = some (id, limit, later))
    (stream : readStreamFrame bits s = some (id, offset, data, rest)) (nowMs : Nat) :
    (((c.processFrame P .maxStreamData .application nowMs r).1.processFrame P (.stream bits)
        .application nowMs s).1.sendLimitOf id =
      ((c.processFrame P (.stream bits) .application nowMs s).1.processFrame P .maxStreamData
        .application nowMs r).1.sendLimitOf id) ↔
      c.wasOpened id = true ∨ limit ≤ c.peerParameters.initialMaxStreamDataBidiLocal := by
  have encodable := readPair_fst_le raise
  -- the raise comes first
  have raised : ((c.processFrame P .maxStreamData .application nowMs r).1.processFrame P (.stream bits)
      .application nowMs s).1.sendLimitOf id = if c.wasOpened id then (c.sendLimitOf id).map (max · limit)
        else some c.peerParameters.initialMaxStreamDataBidiLocal := by
    show ((c.handleMaxStreamData r).1.handleStream bits s).1.sendLimitOf id = _
    rw [handleMaxStreamData_eq client both granted raise encodable]
    have alike := namesAlike_raiseStreamLimit (c.mark (.maxStreamData id limit)) id limit
    have still : index id < ((c.mark (.maxStreamData id limit)).raiseStreamLimit id limit).localMaxStreamsBidi := by
      rw [alike.limits]
      exact granted
    rw [(handleStream_limits client both still stream encodable).2]
    exact raiseStreamLimit_limitWhenNamed (c.mark (.maxStreamData id limit)) both limit
  -- the stream is opened first
  have opened : ((c.processFrame P (.stream bits) .application nowMs s).1.processFrame P .maxStreamData
      .application nowMs r).1.sendLimitOf id = (c.limitWhenNamed id).map (max · limit) := by
    show ((c.handleStream bits s).1.handleMaxStreamData r).1.sendLimitOf id = _
    obtain ⟨limits, named⟩ := handleStream_limits client both granted stream encodable
    have still : index id < (c.handleStream bits s).1.localMaxStreamsBidi := by
      rw [limits]
      exact granted
    rw [handleMaxStreamData_eq client both still raise encodable, raiseStreamLimit_sendLimitOf]
    show ((c.handleStream bits s).1.sendLimitOf id).map _ = _
    rw [named]
  rw [raised, opened]
  unfold limitWhenNamed
  by_cases before : c.wasOpened id = true
  · rw [if_pos before, if_pos before]
    exact ⟨fun _ => .inl before, fun _ => rfl⟩
  rw [if_neg before, if_neg before, both]
  show some _ = some (max c.peerParameters.initialMaxStreamDataBidiLocal limit) ↔ _
  rw [Option.some.injEq]
  constructor
  · intro same
    exact .inr (by omega)
  · intro either
    have low := either.resolve_left before
    omega

end

end QUICConnection

namespace World

def shakenHands : QUICConnection := (start.run .transparent [Client.hello, .nextDatagram 1200 1, Client.finished]).conn

/-- A raise to 200 bytes is below the 256 that the client granted to every stream. -/
theorem orders_agree_low : ((shakenHands.processFrame .transparent .maxStreamData .application 3
        ⟨[0, 0x40, 200], 0⟩).1.processFrame .transparent (.stream 0) .application 3 ⟨[0, 7], 0⟩).1.sendLimitOf 0 =
      ((shakenHands.processFrame .transparent (.stream 0) .application 3
        ⟨[0, 7], 0⟩).1.processFrame .transparent .maxStreamData .application 3
          ⟨[0, 0x40, 200], 0⟩).1.sendLimitOf 0 := by
  have raise : QUICConnection.readPair ⟨[0, 0x40, 200], 0⟩ = some (0, 200, ⟨[], 3⟩) := by decide +kernel
  have stream : QUICConnection.readStreamFrame 0 ⟨[0, 7], 0⟩ = some (0, 0, [7], ⟨[], 2⟩) := by decide +kernel
  exact (QUICConnection.orders_agree_iff .transparent shakenHands (by decide) (by decide)
    (by decide +kernel) raise stream 3).mpr (.inr (by decide +kernel))

/-- A raise to 1000 bytes that overtakes the stream's first frame is lost. -/
theorem raise_overtaking_lost : Reachable .transparent (start.run .transparent
        [Client.hello, .nextDatagram 1200 1, Client.finished]) ∧
      shakenHands.status = .connected ∧ QUICStreamKind.index 0 < shakenHands.localMaxStreamsBidi ∧
      ((shakenHands.processFrame .transparent .maxStreamData .application 3
        ⟨[0, 0x43, 0xE8], 0⟩).1.processFrame .transparent (.stream 0) .application 3
          ⟨[0, 7], 0⟩).1.sendLimitOf 0 = some 256 ∧ ((shakenHands.processFrame .transparent (.stream 0) .application 3
        ⟨[0, 7], 0⟩).1.processFrame .transparent .maxStreamData .application 3
          ⟨[0, 0x43, 0xE8], 0⟩).1.sendLimitOf 0 = some 1000 :=
  ⟨start_reaches _, by decide +kernel, by decide +kernel, by decide +kernel, by decide +kernel⟩

end World
end AvianCore.Quic
