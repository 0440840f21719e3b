import AvianCore.Quic.Ledger

/-!
The two handlers for a lost packet: the one that an acknowledgement calls and the one that the
timer calls.
-/

namespace AvianCore.Quic
open AvianCore.Lib Option

namespace QUICConnection

def receiveOf (c : QUICConnection) (id : Nat) : Option QUICReceiveStream := (c.streams.lookup id).map QUICStream.receive

variable (c : QUICConnection)

@[simp] theorem markWritable_streams (id : Nat) : (c.markWritable id).streams = c.streams := by
  unfold markWritable
  split_ifs <;> rfl

@[simp] theorem receiveOf_markWritable (id other : Nat) : (c.markWritable id).receiveOf other = c.receiveOf other := by
  simp [receiveOf]

theorem receiveOf_modifyStream (id other : Nat) (change : QUICStream → QUICStream)
    (same : ∀ s, (change s).receive = s.receive) :
    (c.modifyStream id change).receiveOf other = c.receiveOf other := by
  unfold receiveOf modifyStream
  by_cases here : other = id
  · subst here
    simp [Table.lookup_modify_self, map_map, Function.comp_def, same]
  · simp [Table.lookup_modify_ne _ here]

theorem receiveOf_foldl {α : Type} (act : QUICConnection → α → QUICConnection)
    (same : ∀ c item other, (act c item).receiveOf other = c.receiveOf other) (items : List α)
    (c : QUICConnection) (other : Nat) : (items.foldl act c).receiveOf other = c.receiveOf other := by
  induction items generalizing c with
  | nil => rfl
  | cons item rest ih => exact (ih (act c item)).trans (same c item other)

theorem receiveOf_onStreamFrameLost (frame : SentStreamFrame) (other : Nat) :
    (c.onStreamFrameLost frame).receiveOf other = c.receiveOf other := by
  unfold onStreamFrameLost
  split
  · rfl
  · rw [receiveOf_markWritable]
    exact receiveOf_modifyStream c _ _ _ fun _ => rfl

variable (frames : QUICSentFrames)

theorem receiveOf_onFramesLost (level : QUICLevel) (other : Nat) :
    (c.onFramesLost frames level).receiveOf other = c.receiveOf other := by
  unfold onFramesLost
  extract_lets c1 c2
  have crypto : c1.streams = c.streams := by
    simp only [c1]
    split <;> rfl
  have streams : c2.receiveOf other = c1.receiveOf other :=
    receiveOf_foldl onStreamFrameLost receiveOf_onStreamFrameLost frames.streams c1 other
  change c2.receiveOf other = c.receiveOf other
  rw [streams, receiveOf, crypto]
  rfl

theorem receiveOf_onTailLost (other : Nat) : (c.onTailLost frames).receiveOf other = c.receiveOf other := by
  unfold onTailLost
  extract_lets c1 c2
  have resets : c1.receiveOf other = c.receiveOf other := by
    refine receiveOf_foldl onResetLost (fun c id other => ?_) frames.resetStream c other
    exact (receiveOf_markWritable _ _ _).trans (receiveOf_modifyStream c _ _ _ fun _ => rfl)
  have stops : c2.receiveOf other = c1.receiveOf other := by
    refine receiveOf_foldl onStopSendingLost (fun c id other => ?_) frames.stopSending c1 other
    exact (receiveOf_markWritable _ _ _).trans (receiveOf_modifyStream c _ _ _ fun _ => rfl)
  rw [← resets, ← stops]
  split <;> rfl

theorem receiveOf_onMaxStreamDataLost (id other : Nat) : (c.onMaxStreamDataLost id).receiveOf other =
    if other = id then (c.receiveOf other).map fun receive => { receive with announced := 0 }
      else c.receiveOf other := by
  unfold onMaxStreamDataLost
  rw [receiveOf_markWritable]
  unfold receiveOf modifyStream
  by_cases here : other = id
  · subst here
    simp [Table.lookup_modify_self, map_map, Function.comp_def]
  · simp [Table.lookup_modify_ne _ here, here]

variable (ids : List Nat) (c : QUICConnection)

theorem receiveOf_foldl_onMaxStreamDataLost (other : Nat) : (ids.foldl onMaxStreamDataLost c).receiveOf other =
      if other ∈ ids then (c.receiveOf other).map fun receive => { receive with announced := 0 }
      else c.receiveOf other := by
  induction ids generalizing c with
  | nil => rfl
  | cons id rest ih =>
    rw [List.foldl_cons, ih, receiveOf_onMaxStreamDataLost]
    by_cases here : other = id
    · by_cases again : other ∈ rest <;> simp [here, map_map, Function.comp_def]
    · by_cases again : other ∈ rest <;> simp [here, again]

theorem foldl_onMaxStreamDataLost_eq
    (unannounced : ∀ id ∈ ids, ∀ s, c.streams.lookup id = some s → s.receive.announced = 0) :
    ids.foldl onMaxStreamDataLost c = ids.foldl markWritable c := by
  induction ids generalizing c with
  | nil => rfl
  | cons id rest ih =>
    have same : c.onMaxStreamDataLost id = c.markWritable id := by
      unfold onMaxStreamDataLost modifyStream
      rw [Table.modify_eq_self c.streams id _ fun s live => ?_]
      have zero := unannounced id List.mem_cons_self s live
      cases s with
      | mk receive => cases receive; simp_all
    rw [List.foldl_cons, List.foldl_cons, same]
    apply ih _
    intro other member s live
    rw [markWritable_streams] at live
    exact unannounced other (List.mem_cons_of_mem _ member) s live

variable (packet : QUICSentPacket)

theorem receiveOf_onPacketLost (level : QUICLevel) (other : Nat) :
    (c.onPacketLost packet level).receiveOf other = c.receiveOf other := by
  have marked := receiveOf_foldl markWritable (fun c id other => receiveOf_markWritable c id other)
    packet.frames.maxStreamData (c.onFramesLost packet.frames level) other
  exact (receiveOf_onTailLost _ _ _).trans (marked.trans (receiveOf_onFramesLost c _ _ _))

theorem receiveOf_onPacketLostPublic (level : QUICLevel) (other : Nat) (named : other ∈ packet.frames.maxStreamData) :
    (c.onPacketLostPublic packet level).receiveOf other =
      (c.receiveOf other).map fun receive => { receive with announced := 0 } := by
  unfold onPacketLostPublic
  rw [receiveOf_onTailLost, receiveOf_foldl_onMaxStreamDataLost, if_pos named, receiveOf_onFramesLost]

theorem mem_markWritable (id : Nat) : id ∈ (c.markWritable id).writableSet := by
  unfold markWritable
  split_ifs with member
  · exact member
  · exact Finset.mem_insert_self id c.writableSet

variable {id : Nat}

theorem mem_markWritable_of_mem (other : Nat) (member : id ∈ c.writableSet) :
    id ∈ (c.markWritable other).writableSet := by
  unfold markWritable
  split_ifs
  · exact member
  · exact Finset.mem_insert_of_mem member

theorem mem_foldl_markWritable (change : QUICStream → QUICStream) (ids : List Nat) (c : QUICConnection)
    (member : id ∈ c.writableSet) :
    id ∈ (ids.foldl (fun c other => (c.modifyStream other change).markWritable other) c).writableSet := by
  induction ids generalizing c with
  | nil => exact member
  | cons other rest ih => exact ih _ (mem_markWritable_of_mem (c.modifyStream other change) other member)

theorem mem_foldl_onMaxStreamDataLost (named : id ∈ ids) : id ∈ (ids.foldl onMaxStreamDataLost c).writableSet := by
  induction ids generalizing c with
  | nil => cases named
  | cons other rest ih =>
    rcases List.mem_cons.mp named with here | later
    · subst here
      exact mem_foldl_markWritable _ rest _ (mem_markWritable _ id)
    · exact ih _ later

theorem mem_onTailLost (member : id ∈ c.writableSet) : id ∈ (c.onTailLost frames).writableSet := by
  unfold onTailLost
  extract_lets c1 c2
  have resets : id ∈ c1.writableSet := mem_foldl_markWritable _ frames.resetStream c member
  have stops : id ∈ c2.writableSet := mem_foldl_markWritable _ frames.stopSending c1 resets
  split <;> exact stops

/-- Every live stream whose limit the packet carried owes its peer the current one, and waits for a
turn to send it. -/
def Reannounces (c : QUICConnection) (packet : QUICSentPacket) : Prop :=
  ∀ id ∈ packet.frames.maxStreamData, ∀ s, c.streams.lookup id = some s → 0 < s.receive.limit →
    s.owesLimit = true ∧ id ∈ c.writableSet

theorem onPacketLostPublic_reannounces (level : QUICLevel) :
    (c.onPacketLostPublic packet level).Reannounces packet := by
  intro id named s live positive
  have forgot := receiveOf_onPacketLostPublic c packet level id named
  rw [receiveOf, live, map_some] at forgot
  obtain ⟨receive, -, zeroed⟩ := map_eq_some_iff.mp forgot.symm
  refine ⟨?_, mem_onTailLost _ _ (mem_foldl_onMaxStreamDataLost _ _ named)⟩
  have announced : s.receive.announced = 0 := by rw [← zeroed]
  simpa [QUICStream.owesLimit, announced] using positive

/-- The acknowledgement's handler does what the timer's handler does for exactly the packets that
carried no limit of a stream that has announced one. -/
theorem onPacketLost_agrees_iff (c : QUICConnection) (packet : QUICSentPacket) (level : QUICLevel) :
    (c.onPacketLost packet level = c.onPacketLostPublic packet level ∧
        (c.onPacketLost packet level).Reannounces packet ∧
        (c.onPacketLostPublic packet level).Reannounces packet) ↔
      ∀ id ∈ packet.frames.maxStreamData, ∀ s, c.streams.lookup id = some s → s.receive.announced = 0 := by
  constructor
  · rintro ⟨agree, -, -⟩ id named s live
    have forgot := receiveOf_onPacketLostPublic c packet level id named
    rw [← agree, receiveOf_onPacketLost, receiveOf, live, Option.map_some, Option.map_some, Option.some.injEq] at forgot
    rw [forgot]
  · intro unannounced
    have agree : c.onPacketLost packet level = c.onPacketLostPublic packet level := by
      refine congrArg (onTailLost · packet.frames) (Eq.symm (foldl_onMaxStreamDataLost_eq _ _ ?_))
      intro id named s live
      have kept := receiveOf_onFramesLost c packet.frames level id
      rw [receiveOf, live, Option.map_some, receiveOf] at kept
      obtain ⟨before, found, same⟩ := Option.map_eq_some_iff.mp kept.symm
      rw [← same]
      exact unannounced id named before found
    have again := onPacketLostPublic_reannounces c packet level
    exact ⟨agree, agree ▸ again, again⟩

end QUICConnection

namespace World

/-- A packet that raised the limit of stream 0 from 262144 to 462144. The acknowledgement's handler
leaves the stream with nothing to announce. -/
theorem raised_limit_stays_lost :
    let c := (start.run .transparent [Client.hello, Client.finished,
      .receive (Client.shortPacket 0 [0x08, 0, 1]) 3, .extendStreamWindow 0 200000,
      .nextDatagram 1200 4, .nextDatagram 1200 5, .nextDatagram 1200 6]).conn
    ∃ packet ∈ c.spaces.application.unsettled, packet.frames.maxStreamData = [0] ∧
      (c.onPacketLost packet .application).streams.lookup 0 ≠
        (c.onPacketLostPublic packet .application).streams.lookup 0 ∧
      ((c.onPacketLost packet .application).streams.lookup 0).map (·.owesLimit) = some false ∧
      ((c.onPacketLostPublic packet .application).streams.lookup 0).map (·.owesLimit) = some true := by
  decide +kernel

end World
end AvianCore.Quic
