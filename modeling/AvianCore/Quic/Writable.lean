import AvianCore.Quic.Refine.Run
import AvianCore.Quic.Sound

/-!
The list of writable streams holds every stream that owes its peer something.
-/

namespace AvianCore.Quic
open AvianCore.Lib Finset Quic.Flow Bool
open QUICStream (owesStop owesReset owesLimit)
open Client (hello finished shortPacket)

def Mark.TurnFits : Mark → Prop
  | .turn id s room => Quic.TurnFits id s room
  | _ => True

instance : DecidablePred Mark.TurnFits := fun mark => by
  apply Mark.casesOn (motive := fun mark => Decidable mark.TurnFits) mark <;>
    intros <;> dsimp only [Mark.TurnFits] <;> infer_instance

namespace QUICSendStream

theorem acknowledge_owes {s : QUICSendStream} (sound : s.Sound) {low high : Nat}
    (fits : high ≤ s.sent) (owes : (s.acknowledge low high).owes = true) : s.owes = true := by
  have fin : (s.acknowledge low high).finQueued = s.finQueued ∧ (s.acknowledge low high).finSent = s.finSent := by
    unfold acknowledge
    extract_lets acked lost contiguous
    split_ifs <;> exact ⟨rfl, rfl⟩
  unfold QUICSendStream.owes pending at owes ⊢
  rw [acknowledge_written sound fits, acknowledge_sent, acknowledge_lost, fin.1, fin.2] at owes
  cases empty : s.lost.isEmpty with
  | false => simp
  | true =>
    rw [QUICByteRanges.subtract_isEmpty empty] at owes
    simpa using owes

theorem acknowledge_reset (s : QUICSendStream) (low high : Nat) :
    (s.acknowledge low high).resetCode = s.resetCode ∧ (s.acknowledge low high).resetSent = s.resetSent := by
  unfold acknowledge
  extract_lets acked lost contiguous
  split_ifs <;> exact ⟨rfl, rfl⟩

end QUICSendStream

variable {s s' : QUICStream} {id : Nat}

theorem StreamStep.owesData {history : List Mark} (step : StreamStep history id false s s') (sound : s.send.Sound)
    (carried : ∀ level packet, .acked level packet ∈ history ∨ .lost level packet ∈ history →
      ∀ frame ∈ packet.frames.streams, frame.id = id → frame.high ≤ s.send.sent) (owes : s'.owesData = true) :
    s.owesData = true := by
  unfold QUICStream.owesData at owes ⊢
  cases step with
  | quiet s s' send =>
    rw [send] at owes
    exact owes
  | acked s level packet frame settled member named =>
    have fits := carried level packet (Or.inl settled) frame member named
    have reset := QUICSendStream.acknowledge_reset s.send frame.low frame.high
    have less : (s.send.acknowledge frame.low frame.high).owes = true → s.send.owes = true :=
      QUICSendStream.acknowledge_owes sound fits
    rw [and_eq_true] at owes ⊢
    simp only at owes
    split_ifs at owes <;> exact ⟨reset.1 ▸ owes.1, less owes.2⟩

theorem StreamStep.owesControl {history : List Mark} (step : StreamStep history id false s s') :
    s'.owesControl = s.owesControl := by
  unfold QUICStream.owesControl owesStop owesReset owesLimit
  cases step with
  | quiet s s' send highWater limit announced queued stopSent => rw [send, limit, announced, queued, stopSent]
  | acked s level packet frame =>
    obtain ⟨code, sent⟩ := QUICSendStream.acknowledge_reset s.send frame.low frame.high
    simp only
    split_ifs <;> simp only [code, sent]

theorem Carried.owesData {f : Flow} {sentBytes : Nat} (carried : Carried f s.send s'.send sentBytes)
    (owes : s'.owesData = true) :
    s.owesData = true := by
  unfold QUICStream.owesData QUICSendStream.owes QUICSendStream.pending QUICSendStream.written at owes ⊢
  generalize s'.send = send' at carried owes
  cases carried with
  | nothing => exact owes
  | again range rest length first proper fits =>
    have lost : s.send.lost.isEmpty = false := by simp [QUICByteRanges.isEmpty, first]
    simp only [and_eq_true] at owes ⊢
    exact ⟨owes.1, by simp [lost]⟩
  | fresh length fin queued streamRoom connectionRoom =>
    simp only [and_eq_true, or_eq_true, decide_eq_true_eq, not_eq_true', or_eq_false_iff] at owes ⊢
    obtain ⟨reset, (more | lost) | ends⟩ := owes
    · exact ⟨reset, Or.inl (Or.inl (by omega))⟩
    · exact ⟨reset, Or.inl (Or.inr lost)⟩
    · exact ⟨reset, Or.inr ⟨ends.1, ends.2.1⟩⟩

namespace Ledger

def Listed (a : Ledger) : Prop := ∀ id ∈ a.flow.writableSet, id ∈ a.flow.writable

def Marked (owes : QUICStream → Bool) (a : Ledger) : Prop :=
  Table.Each a.flow.streams fun id s => owes s = true → id ∈ a.flow.writableSet

variable {a b : Ledger} {owes : QUICStream → Bool}

theorem Effect.listed (effect : Effect a b) (listed : a.Listed) : b.Listed := by
  have marked : ∀ (f : Flow) (id : Nat), (∀ id ∈ f.writableSet, id ∈ f.writable) →
      ∀ other ∈ (f.markWritable id).writableSet, other ∈ (f.markWritable id).writable := by
    intro f id before other member
    unfold Flow.markWritable at member ⊢
    split_ifs at member ⊢
    · exact before other member
    rcases mem_insert.mp member with same | old
    · exact List.mem_append_right _ (by simp [same])
    · exact List.mem_append_left _ (before other old)
  cases effect
  case openIncoming unidirectional | openLocal unidirectional => cases unidirectional <;> exact listed
  case retire id s live => exact fun other member => listed other (mem_of_mem_erase member)
  case stream id s s' marks live step =>
    cases marks
    · exact listed
    · exact marked (a.flow.put id s') id listed
  case markWritable id => exact marked a.flow id listed
  case data | resetReceived | overcharge =>
    unfold charge
    split_ifs <;> exact listed
  case unmark id dead => exact fun other member => listed other (mem_of_mem_erase member)
  case turn stays _ _ _ _ _ =>
    cases stays
    · exact fun other member => listed other (mem_of_mem_erase member)
    · exact listed
  case requeue writable kept => exact fun other member => kept other member (listed other member)
  all_goals exact listed

theorem Marked.quiet (marked : a.Marked owes) (streams : b.flow.streams = a.flow.streams)
    (set : b.flow.writableSet = a.flow.writableSet) : b.Marked owes := by
  unfold Marked
  rw [streams, set]
  exact marked

theorem Marked.put {s : QUICStream} (marked : a.Marked owes)
    (live : a.flow.streams.lookup id = some s) (s' : QUICStream)
    (streams : b.flow.streams = a.flow.streams.modify id fun _ => s')
    (set : a.flow.writableSet ⊆ b.flow.writableSet)
    (less : owes s' = true → owes s = true ∨ id ∈ b.flow.writableSet) : b.Marked owes := by
  unfold Marked
  rw [streams]
  refine Table.Each.modify (marked.mono fun other t old owed => set (old owed)) fun _ _ owed => ?_
  rcases less owed with before | already
  · exact set (marked id s live before)
  · exact already

theorem Marked.opens {s : QUICStream} (marked : a.Marked owes) (opens : a.flow.Opens b.flow id s) (new : owes s = false) :
    b.Marked owes := by
  obtain ⟨_, _, _, _, same⟩ := opens.flow
  unfold Marked
  rw [same]
  exact Table.Each.insert marked fun owed => by simp [new] at owed

/-- What makes a kind of debt one that the list keeps track of: it arises only in steps that mark
the stream, and a turn that takes the stream off the list has paid it. -/
structure Tracked (owes : QUICStream → Bool) (fits : Nat → QUICStream → Int → Prop) : Prop where
  incoming : ∀ f unidirectional, owes (incoming f unidirectional) = false
  outgoing : ∀ f unidirectional, owes (outgoing f unidirectional) = false
  limit : ∀ (s : QUICStream) limit, owes { s with send := { s.send with limit := limit } } = owes s
  receive : ∀ (s : QUICStream) receive, receive.limit = s.receive.limit →
    receive.announced = s.receive.announced → owes { s with receive := receive } = owes s
  step : ∀ history id s s', StreamStep history id false s s' → s.send.Sound →
    (∀ level packet, .acked level packet ∈ history ∨ .lost level packet ∈ history →
      ∀ frame ∈ packet.frames.streams, frame.id = id → frame.high ≤ s.send.sent) →
    owes s' = true → owes s = true
  turn : ∀ f id s s' room sentBytes stays, Turned f id s s' room sentBytes stays → fits id s room →
    owes s' = true → stays = true ∧ owes s = true

theorem Effect.marked {fits : Nat → QUICStream → Int → Prop} (tracked : Tracked owes fits)
    (effect : Effect a b) (clean : ∀ id s room, .turn id s room ∈ b.history → fits id s room)
    (sound : a.Sound) (marked : a.Marked owes) : b.Marked owes := by
  have onto : ∀ (f : Flow) (id : Nat), id ∈ (f.markWritable id).writableSet ∧
      f.writableSet ⊆ (f.markWritable id).writableSet ∧
      (f.markWritable id).streams = f.streams := by
    intro f id
    unfold Flow.markWritable
    split_ifs with already
    · exact ⟨already, Finset.Subset.refl _, rfl⟩
    · exact ⟨mem_insert_self _ _, subset_insert _ _, rfl⟩
  cases effect
  case completed =>
    apply Table.Each.mapValues marked
    intro id s old
    split_ifs
    · rw [tracked.limit]
      exact old
    · exact old
  case openIncoming kind => exact marked.opens (openIncoming_opens a.flow kind) (tracked.incoming _ _)
  case openLocal kind => exact marked.opens (openLocal_opens a.flow kind) (tracked.outgoing _ _)
  case retire id s live =>
    intro other t found owed
    have differs : other ≠ id := by
      rintro rfl
      have gone : (a.flow.streams.erase other).lookup other = none := AList.lookup_erase _ _
      exact absurd (gone.symm.trans found) (by simp)
    have kept : a.flow.streams.lookup other = some t := by
      rw [← AList.lookup_erase_ne differs]
      exact found
    exact mem_erase.mpr ⟨differs, marked other t kept owed⟩
  case stream id s s' marks live step =>
    cases marks
    · exact marked.put live s' rfl (Finset.Subset.refl _) fun owed =>
        Or.inl (tracked.step a.history id s s' step (sound.sends id s live) (sound.carried live) owed)
    · obtain ⟨already, more, streams⟩ := onto (a.flow.put id s') id
      exact marked.put live s' streams more fun _ => Or.inr already
  case markWritable id =>
    obtain ⟨_, more, streams⟩ := onto a.flow id
    unfold Marked
    rw [show (a.flow.markWritable id).streams = a.flow.streams from streams]
    exact Table.Each.mono marked fun other t old owed => more (old owed)
  case data id s s' growth live _ _ _ limit announced rest =>
    obtain ⟨_, _, same, -⟩ := charge_eq a growth
    rw [same]
    refine marked.put live s' rfl (Finset.Subset.refl _) ?_
    rw [rest, tracked.receive s _ limit announced]
    exact .inl
  case resetReceived id s s' finalSize live _ _ _ limit announced rest =>
    obtain ⟨_, _, same, -⟩ := charge_eq a (finalSize - s.receive.highWater)
    rw [same]
    refine marked.put live s' rfl (Finset.Subset.refl _) ?_
    rw [rest, tracked.receive s _ limit announced]
    exact .inl
  case overcharge growth _ =>
    obtain ⟨_, _, same, -⟩ := charge_eq a growth
    rw [same]
    exact marked
  case unmark id dead =>
    intro other t found owed
    have differs : other ≠ id := by
      rintro rfl
      exact absurd (dead.symm.trans found) (by simp)
    exact mem_erase.mpr ⟨differs, marked other t found owed⟩
  case turn id s s' room sentBytes stays reset live _ turned _ =>
    have paid := tracked.turn _ _ _ _ _ _ _ turned (clean id s room (List.mem_append_right _ List.mem_cons_self))
    cases stays
    · -- the stream is taken off the list, and owes nothing any more
      intro other t found owed
      by_cases same : other = id
      · subst same
        have now : (a.flow.streams.modify other fun _ => s').lookup other = some s' := by
          rw [Table.lookup_modify_self, live]
          rfl
        cases now.symm.trans found
        exact absurd (paid owed).1 (by simp)
      have kept : a.flow.streams.lookup other = some t := by
        rw [← Table.lookup_modify_ne a.flow.streams same fun _ => s']
        exact found
      exact mem_erase.mpr ⟨same, marked other t kept owed⟩
    · exact marked.put live s' rfl (Finset.Subset.refl _) fun owed => Or.inl (paid owed).2
  all_goals exact marked.quiet rfl rfl

theorem machine_marked {fits : Nat → QUICStream → Int → Prop} (tracked : Tracked owes fits)
    (run : machine.Chain a b) (clean : ∀ id s room, .turn id s room ∈ b.history → fits id s room)
    (sound : a.Sound) (start : a.Marked owes) : b.Marked owes := by
  have fitting : machine.Clean (fun mark => ∀ id s room, mark = .turn id s room → fits id s room) b := by
    rintro mark member id s room rfl
    exact clean id s room member
  refine machine_keeps_sound run (fun s t effect clean sound => ?_) ?_ ?_ fitting sound start
  · exact effect.marked tracked (fun id s room member => clean _ member id s room rfl) sound
  · rintro key s t ⟨⟩ marked
    exact marked
  · rintro key s t ⟨⟩ marked <;> exact marked

theorem machine_listed (run : machine.Chain a b) (start : a.Listed) : b.Listed := by
  refine machine_keeps run (fun _ _ effect _ => effect.listed) ?_ ?_ (fun _ _ => trivial) start
  · rintro key s t ⟨⟩ listed
    exact listed
  · rintro key s t ⟨⟩ listed <;> exact listed

theorem tracked_data : Tracked QUICStream.owesData fun _ _ _ => True where
  incoming _ _ := rfl
  outgoing _ _ := rfl
  limit _ _ := rfl
  receive _ _ _ _ := rfl
  step _ _ _ _ step sound carried owed := step.owesData sound carried owed
  turn f id s s' room sentBytes stays turned _ owed := by
    refine ⟨?_, turned.carried.owesData owed⟩
    cases stays with
    | true => rfl
    | false => exact absurd owed (by simp [turned.sentData rfl])

theorem tracked_control : Tracked QUICStream.owesControl TurnFits where
  incoming f unidirectional := by simp [QUICStream.owesControl, owesStop, owesReset, owesLimit, incoming]
  outgoing f unidirectional := by simp [QUICStream.owesControl, owesStop, owesReset, owesLimit, outgoing]
  limit _ _ := rfl
  receive s receive limit announced := by
    simp only [QUICStream.owesControl, owesStop, owesReset, owesLimit, limit, announced]
  step _ _ _ _ step _ _ owed := step.owesControl ▸ owed
  turn f id s s' room sentBytes stays turned fits owed := by
    rw [turned.sentControl fits] at owed
    cases owed

end Ledger

namespace World
variable (P : Primitives)

/-- In every reachable state, a stream that was not reset and has bytes or a FIN to send is on the
list. A stream with a control frame to send is on it if every turn so far had room for the
control frames that were due. -/
theorem owing_is_writable (w : World) (reachable : Reachable P w) (id : Nat) (s : QUICStream)
    (live : w.conn.streams.lookup id = some s) :
    (s.owesData = true → id ∈ w.conn.writable ∧ id ∈ w.conn.writableSet) ∧
      ((∀ mark ∈ w.conn.history, mark.TurnFits) → s.owesControl = true →
        id ∈ w.conn.writable ∧ id ∈ w.conn.writableSet) := by
  obtain ⟨start, initial, chain⟩ := reachable.chain
  have listed : w.ledger.Listed := Ledger.machine_listed chain (by
    unfold Ledger.Listed
    simp [initial.writableSet])
  have none : ∀ owes, start.Marked owes := by
    intro owes
    unfold Ledger.Marked
    rw [initial.streams]
    exact Table.Each.empty
  constructor
  · intro owed
    have marked := Ledger.machine_marked Ledger.tracked_data chain (fun _ _ _ _ => trivial)
      initial.sound (none _) id s live owed
    exact ⟨listed id marked, marked⟩
  · intro fits owed
    have marked := Ledger.machine_marked Ledger.tracked_control chain
      (fun id s room member => fits (.turn id s room) member) initial.sound (none _) id s live owed
    exact ⟨listed id marked, marked⟩

/-- A stream with 300 bytes to send, of which its peer allows 256, and one with a STOP_SENDING to send. -/
theorem owing_is_writable_blocked : let w := start.run .transparent [hello, finished,
      .receive (shortPacket 0 [0x0a, 0, 1, 7, 0x0a, 4, 1, 7]) 3, .send 0 (zeros 300) false,
      .nextDatagram 1200 4, .stopSending 4 9]
    0 ∈ w.conn.writable ∧ 4 ∈ w.conn.writable := by
  intro w
  have data : (w.conn.streams.lookup 0).map QUICStream.owesData = some true := by decide +kernel
  have control : (w.conn.streams.lookup 4).map QUICStream.owesControl = some true := by decide +kernel
  have fits : ∀ mark ∈ w.conn.history, mark.TurnFits := by decide +kernel
  obtain ⟨s, found, owed⟩ := Option.map_eq_some_iff.mp data
  obtain ⟨t, found', owed'⟩ := Option.map_eq_some_iff.mp control
  have reached : Reachable .transparent w := start_reaches _
  exact ⟨((owing_is_writable _ w reached 0 s found).1 owed).1, ((owing_is_writable _ w reached 4 t found').2 fits owed').1⟩

/-- Room for nine bytes, where STOP_SENDING needs ten: the stream is taken off the list with the
frame unsent. -/
example : ((start.run .transparent [hello, finished, .nextDatagram 1200 3,
    .receive (shortPacket 0 [0x0a, 0, 1, 7, 0x0a, 4, 1, 7]) 3, .nextDatagram 1200 4,
    .send 0 (zeros 34) false, .stopSending 4 (2 ^ 40), .nextDatagram 64 5]).conn.streams.lookup 4).map
      owesStop = some true ∧
    (start.run .transparent [hello, finished, .nextDatagram 1200 3,
    .receive (shortPacket 0 [0x0a, 0, 1, 7, 0x0a, 4, 1, 7]) 3, .nextDatagram 1200 4,
    .send 0 (zeros 34) false, .stopSending 4 (2 ^ 40), .nextDatagram 64 5]).conn.writable = [] := by
  decide +kernel

/-- A stream that is reset with 300 bytes unsent is off the list, by design. -/
theorem reset_is_not_writable : (start.run .transparent [hello, finished,
        .receive (shortPacket 0 [0x08, 0, 7, 7]) 3, .send 0 (zeros 300) false,
        .resetStream 0 9, .nextDatagram 1200 4]).conn.status = .connected ∧
      ((start.run .transparent [hello, finished,
        .receive (shortPacket 0 [0x08, 0, 7, 7]) 3, .send 0 (zeros 300) false,
        .resetStream 0 9, .nextDatagram 1200 4]).conn.streams.lookup 0).map (fun s => s.send.pending) = some 300 ∧
      0 ∉ (start.run .transparent [hello, finished,
        .receive (shortPacket 0 [0x08, 0, 7, 7]) 3, .send 0 (zeros 300) false,
        .resetStream 0 9, .nextDatagram 1200 4]).conn.writable := by
  decide +kernel

end World
end AvianCore.Quic
