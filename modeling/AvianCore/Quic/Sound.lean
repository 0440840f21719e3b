import AvianCore.Quic.Ledger

/-!
What holds of the ledger in every run: streams are numbered in order, and whatever is
acknowledged or declared lost was sent.
-/

namespace AvianCore.Quic
open AvianCore.Lib List QUICStreamKind QUICSendStream List.Subset Mark

namespace Flow

/-- The identifier and the state of the next client stream of a kind. -/
def nextIncoming (f : Flow) (unidirectional : Bool) : Nat :=
  id
    ((if unidirectional then f.highestIncomingUni else f.highestIncomingBidi).val + 1).toNat false
    unidirectional

def incoming (f : Flow) (unidirectional : Bool) : QUICStream :=
  let limit := if unidirectional then f.localParameters.initialMaxStreamDataUni
    else f.localParameters.initialMaxStreamDataBidiRemote
  { receive := { limit := limit, announced := limit }
    send := { limit := if unidirectional then 0 else f.peerParameters.initialMaxStreamDataBidiLocal } }

def nextLocal (f : Flow) (unidirectional : Bool) : Nat :=
  id (if unidirectional then f.nextLocalStreamUni else f.nextLocalStreamBidi) true
    unidirectional

def outgoing (f : Flow) (unidirectional : Bool) : QUICStream :=
  let limit := if unidirectional then 0 else f.localParameters.initialMaxStreamDataBidiLocal
  { send := { limit := if unidirectional then f.peerParameters.initialMaxStreamDataUni
      else f.peerParameters.initialMaxStreamDataBidiRemote }
    receive := { limit := limit, announced := limit } }

def Opened (f : Flow) (id : Nat) : Prop :=
  if isServerInitiated id then
    index id <
      if isUnidirectional id then f.nextLocalStreamUni else f.nextLocalStreamBidi
  else
    (index id : Int) ≤
      (if isUnidirectional id then f.highestIncomingUni
        else f.highestIncomingBidi).val

/-- How many streams of a kind were opened. -/
def count (f : Flow) (server unidirectional : Bool) : Int :=
  if server then ((if unidirectional then f.nextLocalStreamUni else f.nextLocalStreamBidi : Nat) : Int)
  else (if unidirectional then f.highestIncomingUni else f.highestIncomingBidi).val + 1

theorem opened_iff {f : Flow} {id : Nat} :
    f.Opened id ↔ (index id : Int) < f.count (isServerInitiated id) (isUnidirectional id) := by
  unfold Opened count
  split_ifs <;> omega

/-- `g` is `f` with a stream that was not opened before. -/
structure Opens (f g : Flow) (id : Nat) (s : QUICStream) : Prop where
  flow : ∃ highestUni highestBidi nextUni nextBidi, g = { f with
    streams := f.streams.insert id s
    highestIncomingUni := highestUni, highestIncomingBidi := highestBidi
    nextLocalStreamUni := nextUni, nextLocalStreamBidi := nextBidi }
  fresh : ¬f.Opened id
  opened : ∀ other, g.Opened other ↔ other = id ∨ f.Opened other

theorem Opens.streams {f g : Flow} {id : Nat} {s : QUICStream} (opens : f.Opens g id s) :
    g.streams = f.streams.insert id s := by
  obtain ⟨_, _, _, _, same⟩ := opens.flow
  rw [same]

/-- The stream has the next number of its kind. -/
theorem Opens.next {f g : Flow} {s : QUICStream} (server kind : Bool) {id : Nat}
    (numbered : id = QUICStreamKind.id (f.count server kind).toNat server kind) (counted : 0 ≤ f.count server kind)
    (flow : ∃ highestUni highestBidi nextUni nextBidi, g = { f with
      streams := f.streams.insert id s
      highestIncomingUni := highestUni, highestIncomingBidi := highestBidi
      nextLocalStreamUni := nextUni, nextLocalStreamBidi := nextBidi })
    (counts : ∀ s k, g.count s k = f.count s k + if s = server ∧ k = kind then 1 else 0) : f.Opens g id s where
  flow := flow
  fresh := by
    rw [opened_iff, numbered, index_id, isServerInitiated_id, isUnidirectional_id]
    omega
  opened other := by
    rw [opened_iff, opened_iff, counts]
    constructor
    · intro below
      split_ifs at below with same
      · obtain ⟨rfl, rfl⟩ := same
        refine or_iff_not_imp_right.mpr fun above => ?_
        rw [numbered, ← show index other = (f.count (isServerInitiated other) (isUnidirectional other)).toNat by omega,
          id_parts]
      · exact .inr (by omega)
    · rintro (rfl | below)
      · rw [numbered, index_id, isServerInitiated_id, isUnidirectional_id, if_pos ⟨rfl, rfl⟩]
        omega
      · split_ifs <;> omega

theorem openIncoming_opens (f : Flow) (unidirectional : Bool) :
    f.Opens (f.openIncoming unidirectional) (f.nextIncoming unidirectional) (f.incoming unidirectional) := by
  have uni := f.highestIncomingUni.property
  have bidi := f.highestIncomingBidi.property
  refine .next false unidirectional rfl ?_ ?_ fun s k => ?_
  · cases unidirectional <;> simp [count] <;> omega
  · cases unidirectional <;> exact ⟨_, _, _, _, rfl⟩
  · cases unidirectional <;> cases s <;> cases k <;> simp [count, openIncoming]

theorem openLocal_opens (f : Flow) (unidirectional : Bool) :
    f.Opens (f.openLocal unidirectional) (f.nextLocal unidirectional) (f.outgoing unidirectional) := by
  refine .next true unidirectional rfl ?_ ?_ fun s k => ?_
  · cases unidirectional <;> simp [count]
  · cases unidirectional <;> exact ⟨_, _, _, _, rfl⟩
  · cases unidirectional <;> cases s <;> cases k <;> simp [count, openLocal]

variable (f : Flow) {id : Nat}

theorem markWritable_eq (id : Nat) : ∃ writable writableSet,
    f.markWritable id = { f with writable := writable, writableSet := writableSet } := by
  unfold markWritable
  split_ifs
  · exact ⟨f.writable, f.writableSet, rfl⟩
  · exact ⟨_, _, rfl⟩

theorem markIf_eq (marks : Bool) (id : Nat) : ∃ writable writableSet,
    f.markIf marks id = { f with writable := writable, writableSet := writableSet } := by
  unfold markIf
  split_ifs
  · exact markWritable_eq f id
  · exact ⟨f.writable, f.writableSet, rfl⟩

def Carries (f : Flow) (frames : QUICSentFrames) : Prop :=
  ∀ frame ∈ frames.streams, f.Opened frame.id ∧
    ∀ s, f.streams.lookup frame.id = some s → frame.high ≤ s.send.sent

end Flow

variable {history : List Mark} {id : Nat} {marks : Bool} {s s' : QUICStream}

theorem StreamStep.sent (step : StreamStep history id marks s s') : s'.send.sent = s.send.sent := by
  cases step with
  | quiet s s' send => rw [send]
  | acked s level packet frame =>
    simp only
    split_ifs <;> exact acknowledge_sent _ _ _
  | lost s level packet frame =>
    simp only
    split_ifs <;> exact declareLost_sent _ _ _
  | _ => rfl

theorem StreamStep.highWater (step : StreamStep history id marks s s') :
    s'.receive.highWater = s.receive.highWater := by
  cases step with
  | quiet s s' send highWater => exact highWater
  | _ => rfl

theorem StreamStep.limit_le (step : StreamStep history id marks s s') : s.receive.limit ≤ s'.receive.limit := by
  cases step with
  | quiet s s' send highWater limit => exact limit.ge
  | extend s limit raises => exact raises
  | _ => exact le_rfl

theorem StreamStep.sendLimit (step : StreamStep history id marks s s') : s'.send.limit = s.send.limit ∨
      (s.send.limit ≤ s'.send.limit ∧ .maxStreamData id s'.send.limit ∈ history) := by
  cases step with
  | quiet s s' send => exact .inl (by rw [send])
  | raise s limit raises granted => exact .inr ⟨raises, granted⟩
  | acked s level packet frame =>
    apply Or.inl
    simp only
    split_ifs <;> exact acknowledge_limit _ _ _
  | lost s level packet frame =>
    apply Or.inl
    simp only
    split_ifs <;> exact declareLost_limit _ _ _
  | _ => exact .inl rfl

theorem StreamStep.sound (step : StreamStep history id marks s s') (sound : s.send.Sound)
    (carried : ∀ level packet, .acked level packet ∈ history ∨ .lost level packet ∈ history →
      ∀ frame ∈ packet.frames.streams, frame.id = id → frame.high ≤ s.send.sent) :
    s'.send.Sound := by
  cases step with
  | quiet s s' send =>
    rw [send]
    exact sound
  | write s p fin =>
    refine ⟨sound.acked, sound.lost, sound.sent.trans ?_⟩
    simp [written, QUICSendStream.write]
  | acked s level packet frame settled member named =>
    have fits := carried level packet (Or.inl settled) frame member named
    simp only
    split_ifs
    · exact ⟨(sound.acknowledge fits).acked, (sound.acknowledge fits).lost, (sound.acknowledge fits).sent⟩
    · exact sound.acknowledge fits
  | lost s level packet frame settled member named =>
    have fits := carried level packet (Or.inr settled) frame member named
    simp only
    split_ifs
    · exact ⟨(sound.declareLost fits).acked, (sound.declareLost fits).lost, (sound.declareLost fits).sent⟩
    · exact sound.declareLost fits
  | _ => exact ⟨sound.acked, sound.lost, sound.sent⟩

namespace Carried
variable {f : Flow} {send send' : QUICSendStream} {sentBytes : Nat}

theorem sent_le (carried : Carried f send send' sentBytes) : send.sent ≤ send'.sent := by
  cases carried with
  | nothing => exact le_rfl
  | again | fresh => exact le_max_left _ _

theorem again_le (sound : send.Sound) {range : ByteRange} {rest : List ByteRange} {length : Nat}
    (first : send.lost.ranges = range :: rest) (proper : range.low < range.high)
    (fits : length ≤ range.high - range.low) : range.low + length ≤ send.sent := by
  have below : range.high ≤ send.sent := sound.lost range (by rw [first]; exact mem_cons_self)
  omega

theorem sound (carried : Carried f send send' sentBytes) (sound : send.Sound) : send'.Sound := by
  cases carried with
  | nothing => exact ⟨sound.acked, sound.lost, sound.sent⟩
  | again range rest length first proper fits =>
    have within := again_le sound first proper fits
    have same := max_eq_left within
    refine ⟨?_, ?_, ?_⟩ <;> simp only [same]
    · exact sound.acked
    · exact sound.lost.subtract within
    · exact sound.sent
  | fresh length fin queued streamRoom connectionRoom =>
    have more := le_max_left send.sent (send.sent + length)
    refine ⟨sound.acked.mono more, sound.lost.mono more, ?_⟩
    have enough := sound.sent
    simp only [written] at enough queued ⊢
    omega

end Carried
def Mark.isPacket : Mark → Bool
  | .sent _ _ => true
  | .acked _ _ => true
  | .lost _ _ => true
  | _ => false

namespace Ledger

structure Sound (a : Ledger) : Prop where
  opened : Table.Each a.flow.streams fun id _ => a.flow.Opened id
  sends : Table.Each a.flow.streams fun _ s => s.send.Sound
  sent : ∀ level packet, .sent level packet ∈ a.history → a.flow.Carries packet.frames
  outstanding : ∀ level, ∀ packet ∈ a.outstanding.get level, .sent level packet ∈ a.history
  settled : ∀ level packet, .acked level packet ∈ a.history ∨ .lost level packet ∈ a.history →
    .sent level packet ∈ a.history

theorem Initial.sound {a : Ledger} (initial : a.Initial) : a.Sound where
  opened := by
    rw [initial.streams]
    exact Table.Each.empty
  sends := by
    rw [initial.streams]
    exact Table.Each.empty
  sent := by simp [initial.history]
  outstanding := by simp [initial.outstanding]
  settled := by simp [initial.history]

/-- A stream of the next ledger: it was there and has sent no less, or it is new. -/
def Succeeds (a b : Ledger) (id : Nat) (s' : QUICStream) : Prop :=
  s'.send.Sound ∧ ((∃ s, a.flow.streams.lookup id = some s ∧ s.send.sent ≤ s'.send.sent) ∨
    (b.flow.Opened id ∧ ¬a.flow.Opened id))

namespace Sound
variable {a b : Ledger}

theorem succeeds (sound : a.Sound) (b : Ledger) : Table.Each a.flow.streams (a.Succeeds b) :=
  fun id s live => ⟨sound.sends id s live, Or.inl ⟨s, live, le_rfl⟩⟩

theorem carried (sound : a.Sound) {s : QUICStream}
    (live : a.flow.streams.lookup id = some s) (level : QUICLevel) (packet : QUICSentPacket)
    (settled : .acked level packet ∈ a.history ∨ .lost level packet ∈ a.history) :
    ∀ frame ∈ packet.frames.streams, frame.id = id → frame.high ≤ s.send.sent := by
  intro frame member named
  have sent := sound.sent level packet (sound.settled level packet settled)
  exact (sent frame member).2 s (by rw [named, live])

theorem carries (opened : ∀ id, a.flow.Opened id → b.flow.Opened id)
    (streams : Table.Each b.flow.streams (a.Succeeds b)) {frames : QUICSentFrames}
    (carries : a.flow.Carries frames) : b.flow.Carries frames := by
  intro frame member
  obtain ⟨known, most⟩ := carries frame member
  refine ⟨opened _ known, fun s' live => ?_⟩
  rcases (streams frame.id s' live).2 with ⟨s, live', more⟩ | ⟨_, new⟩
  · exact (most s live').trans more
  · exact absurd known new

theorem step (sound : a.Sound) (marks : b.history.filter isPacket = a.history.filter isPacket)
    (outstanding : ∀ level, b.outstanding.get level ⊆ a.outstanding.get level)
    (opened : ∀ id, a.flow.Opened id → b.flow.Opened id)
    (streams : Table.Each b.flow.streams (a.Succeeds b)) : b.Sound := by
  have same : ∀ mark : Mark, mark.isPacket = true → (mark ∈ b.history ↔ mark ∈ a.history) := by
    intro mark packet
    have filtered := congrArg (mark ∈ ·) marks
    simpa [mem_filter, packet] using filtered
  refine ⟨fun id s' live => ?_, fun id s' live => (streams id s' live).1, ?_, ?_, ?_⟩
  · rcases (streams id s' live).2 with ⟨s, live', _⟩ | ⟨new, _⟩
    · exact opened id (sound.opened id s live')
    · exact new
  · intro level packet member
    exact Sound.carries opened streams (sound.sent level packet ((same _ rfl).mp member))
  · intro level packet member
    exact (same _ rfl).mpr (sound.outstanding level packet (outstanding level member))
  · intro level packet member
    refine (same _ rfl).mpr (sound.settled level packet ?_)
    rcases member with acked | lost
    · exact .inl ((same _ rfl).mp acked)
    · exact .inr ((same _ rfl).mp lost)

theorem quiet (sound : a.Sound) (marks : b.history.filter isPacket = a.history.filter isPacket)
    (outstanding : ∀ level, b.outstanding.get level ⊆ a.outstanding.get level)
    (flow : ∃ receiveLimit receivedBytes sendLimit writable writableSet, b.flow = { a.flow with
      receiveLimit := receiveLimit, receivedBytes := receivedBytes, sendLimit := sendLimit
      writable := writable, writableSet := writableSet }) : b.Sound := by
  obtain ⟨receiveLimit, receivedBytes, sendLimit, writable, writableSet, same⟩ := flow
  refine sound.step marks outstanding (fun id opened => ?_) ?_
  · rw [same]
    exact opened
  · rw [same]
    exact sound.succeeds b

theorem put (sound : a.Sound) {s s' : QUICStream} (live : a.flow.streams.lookup id = some s)
    (marks : b.history.filter isPacket = a.history.filter isPacket)
    (outstanding : b.outstanding = a.outstanding)
    (flow : ∃ receivedBytes sentBytes writable writableSet, b.flow = { a.flow.put id s' with
      receivedBytes := receivedBytes, sentBytes := sentBytes
      writable := writable, writableSet := writableSet })
    (sends : s'.send.Sound) (grows : s.send.sent ≤ s'.send.sent) : b.Sound := by
  obtain ⟨receivedBytes, sentBytes, writable, writableSet, same⟩ := flow
  refine sound.step marks (fun level => by rw [outstanding]; exact refl _) (fun id opened => ?_) ?_
  · rw [same]
    exact opened
  · rw [same]
    exact (sound.succeeds b).modify fun t _ => ⟨sends, Or.inl ⟨s, live, grows⟩⟩

theorem opens (sound : a.Sound) {s : QUICStream} (opens : a.flow.Opens b.flow id s)
    (marks : b.history = a.history) (outstanding : b.outstanding = a.outstanding) (sends : s.send.Sound) : b.Sound := by
  refine sound.step (by rw [marks]) (fun level => by rw [outstanding]; exact refl _)
    (fun other known => (opens.opened other).mpr (.inr known)) ?_
  rw [opens.streams]
  exact (sound.succeeds b).insert ⟨sends, Or.inr ⟨(opens.opened id).mpr (.inl rfl), opens.fresh⟩⟩

end Sound

theorem newSend_sound (limit : Nat) : ({ limit := limit } : QUICSendStream).Sound :=
  ⟨fun _ => nofun, fun _ => nofun, Nat.zero_le _⟩

theorem charge_eq (a : Ledger) (growth : Nat) : ∃ receivedBytes history, a.charge growth = { a with
      flow := { a.flow with receivedBytes := receivedBytes }
      history := history } ∧
    history.filter isPacket = a.history.filter isPacket := by
  unfold charge
  split_ifs <;> exact ⟨_, _, rfl, rfl⟩

variable {a b : Ledger}

theorem Effect.sound (effect : Effect a b) (sound : a.Sound) : b.Sound := by
  have all : ∀ level, a.outstanding.get level ⊆ a.outstanding.get level := fun _ => refl _
  cases effect
  case close | drain | idle | install | handshake | received | validated | sentBytes =>
    exact sound.quiet rfl all ⟨_, _, _, _, _, rfl⟩
  case peerClose | maxStreamData => exact sound.quiet rfl all ⟨_, _, _, _, _, rfl⟩
  case raiseCredit | requeue | unmark => exact sound.quiet rfl all ⟨_, _, _, _, _, rfl⟩
  case maxData => exact sound.quiet rfl all ⟨_, _, _, _, _, rfl⟩
  case markWritable id =>
    obtain ⟨writable, writableSet, same⟩ := Flow.markWritable_eq a.flow id
    exact sound.quiet rfl all ⟨_, _, _, writable, writableSet, same⟩
  case overcharge growth _ =>
    obtain ⟨receivedBytes, history, same, marks⟩ := charge_eq a growth
    rw [same]
    exact sound.quiet marks all ⟨_, receivedBytes, _, _, _, rfl⟩
  case completed =>
    refine sound.step rfl all (fun _ opened => opened) ?_
    apply (sound.succeeds _).mapValues
    intro id s old
    split_ifs
    · exact ⟨⟨old.1.acked, old.1.lost, old.1.sent⟩, old.2⟩
    · exact old
  case discard level space past =>
    refine sound.quiet rfl (fun other => ?_) ⟨_, _, _, _, _, rfl⟩
    simp only [PerLevel.get_set]
    split_ifs
    · exact nil_subset _
    · exact refl _
  case openIncoming kind => exact sound.opens (a.flow.openIncoming_opens kind) rfl rfl (newSend_sound _)
  case openLocal kind => exact sound.opens (a.flow.openLocal_opens kind) rfl rfl (newSend_sound _)
  case retire id s live =>
    refine sound.step rfl all (fun _ opened => opened) ?_
    exact (sound.succeeds _).erase
  case stream id s s' marks live step =>
    obtain ⟨writable, writableSet, same⟩ := Flow.markIf_eq (a.flow.put id s') marks id
    exact sound.put live rfl rfl ⟨_, _, writable, writableSet, same⟩
      (step.sound (sound.sends id s live) (sound.carried live)) step.sent.ge
  case data id s s' growth live _ _ _ _ _ rest =>
    obtain ⟨receivedBytes, history, same, marks⟩ := charge_eq a growth
    rw [same]
    refine sound.put live marks rfl ⟨receivedBytes, _, _, _, rfl⟩ ?_ ?_ <;> rw [rest]
    exact sound.sends id s live
  case resetReceived id s s' finalSize live _ _ _ _ _ rest =>
    obtain ⟨receivedBytes, history, same, marks⟩ := charge_eq a (finalSize - s.receive.highWater)
    rw [same]
    refine sound.put live marks rfl ⟨receivedBytes, _, _, _, rfl⟩ ?_ ?_ <;> rw [rest]
    exact sound.sends id s live
  case turn id s s' room sentBytes stays reset live _ turned _ =>
    refine sound.put live ?_ rfl ?_ (turned.carried.sound (sound.sends id s live)) turned.carried.sent_le
    · cases reset <;> rfl
    · cases stays <;> exact ⟨_, _, _, _, rfl⟩
  case send level packet rest covered restSent =>
    refine ⟨sound.opened, sound.sends, fun other old member => ?_, fun other old member => ?_,
      fun other old member => ?_⟩
    · rcases mem_cons.mp member with same | before
      · cases same
        intro frame carried
        obtain ⟨s, live, most⟩ := covered frame carried
        refine ⟨sound.opened frame.id s live, fun t live' => ?_⟩
        cases live.symm.trans live'
        exact most
      · exact sound.sent other old before
    · simp only [PerLevel.get_set] at member
      split_ifs at member with same
      · subst same
        rcases mem_append.mp (restSent member) with before | new
        · exact mem_cons_of_mem _ (sound.outstanding other old before)
        · rw [mem_singleton.mp new]
          exact mem_cons_self
      · exact mem_cons_of_mem _ (sound.outstanding other old member)
    · refine mem_cons_of_mem _ (sound.settled other old ?_)
      simpa using member
  case settle level acked lost rest ackedSent lostSent restSent =>
    have marks : ∀ other old, .sent other old ∈ a.history →
        .sent other old ∈ acked.map (Mark.acked level) ++ lost.map (Mark.lost level) ++ a.history :=
      fun _ _ member => mem_append_right _ member
    refine ⟨sound.opened, sound.sends, fun other old member => ?_, fun other old member => ?_,
      fun other old member => marks other old ?_⟩
    · apply sound.sent other old
      simpa using member
    · apply marks other old
      simp only [PerLevel.get_set] at member
      split_ifs at member with same
      · subst same
        exact sound.outstanding other old (restSent member)
      · exact sound.outstanding other old member
    · simp only [mem_append, mem_map, reduceCtorEq, Mark.acked.injEq, Mark.lost.injEq,
        and_false, exists_false, or_false, false_or] at member
      rcases member with (⟨packet, listed, rfl, rfl⟩ | before) | (⟨packet, listed, rfl, rfl⟩ | before)
      · exact sound.outstanding _ _ (ackedSent listed)
      · exact sound.settled other old (Or.inl before)
      · exact sound.outstanding _ _ (lostSent listed)
      · exact sound.settled other old (Or.inr before)

theorem Begins.sound {key : QUICLevel × Nat} (begins : Begins key a b) (sound : a.Sound) : b.Sound := by
  cases begins
  exact sound.quiet rfl (fun _ => refl _) ⟨_, _, _, _, _, rfl⟩

theorem Ends.sound {key : QUICLevel × Nat} (ends : Ends key a b) (sound : a.Sound) : b.Sound := by
  cases ends <;> exact sound.quiet rfl (fun _ => refl _) ⟨_, _, _, _, _, rfl⟩

theorem machine_keeps_sound {good : Mark → Prop} {I : Ledger → Prop} (run : machine.Chain a b)
    (effect : ∀ s t, Effect s t → effects.Clean good t → s.Sound → I s → I t)
    (begins : ∀ key s t, Begins key s t → I s → I t) (ends : ∀ key s t, Ends key s t → I s → I t)
    (clean : machine.Clean good b) (sound : a.Sound) (start : I a) : I b := by
  have both : b.Sound ∧ I b := machine_keeps (I := fun s => s.Sound ∧ I s) run
    (fun s t step clean ⟨sound, holds⟩ => ⟨step.sound sound, effect s t step clean sound holds⟩)
    (fun key s t step ⟨sound, holds⟩ => ⟨step.sound sound, begins key s t step holds⟩)
    (fun key s t step ⟨sound, holds⟩ => ⟨step.sound sound, ends key s t step holds⟩)
    clean ⟨sound, start⟩
  exact both.2

end Ledger
end AvianCore.Quic
