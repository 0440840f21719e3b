import AvianCore.Quic.Accounts

/-!
Flow control on the sending side: what was sent, and the limits that the peer granted.
-/

namespace AvianCore.Quic
open AvianCore.Lib List QUICTransportParameters Quic.Flow QUICStream Nat
open Client (hello finished shortPacket)

def QUICTransportParameters.grant (peer : QUICTransportParameters) (id : Nat) : Nat :=
  if QUICStreamKind.isServerInitiated id then
    if QUICStreamKind.isUnidirectional id then peer.initialMaxStreamDataUni
    else peer.initialMaxStreamDataBidiRemote
  else if QUICStreamKind.isUnidirectional id then 0
  else peer.initialMaxStreamDataBidiLocal

def Mark.dataGrant : Mark → Option Nat
  | .maxData limit => some limit
  | _ => none

def Mark.streamGrant (id : Nat) : Mark → Option Nat
  | .maxStreamData named limit => if named = id then some limit else none
  | _ => none

/-- The largest limit for the connection that the parameters or a MAX_DATA frame granted. -/
def dataGrant (peer : QUICTransportParameters) (history : List Mark) : Nat :=
  (history.filterMap Mark.dataGrant).foldr max peer.initialMaxData

/-- The largest limit for a stream that the parameters or a MAX_STREAM_DATA frame granted. -/
def streamGrant (peer : QUICTransportParameters) (history : List Mark) (id : Nat) : Nat :=
  (history.filterMap (Mark.streamGrant id)).foldr max (peer.grant id)

theorem le_foldr_max (limits : List Nat) (first : Nat) :
    first ≤ limits.foldr max first ∧ ∀ limit ∈ limits, limit ≤ limits.foldr max first := by
  induction limits with
  | nil => exact ⟨le_rfl, fun _ => nofun⟩
  | cons limit rest ih =>
    refine ⟨ih.1.trans (le_max_right _ _), fun other member => ?_⟩
    rcases mem_cons.mp member with same | later
    · rw [same]
      exact le_max_left _ _
    · exact (ih.2 other later).trans (le_max_right _ _)

theorem foldr_max_mono {limits limits' : List Nat} (more : limits ⊆ limits') (first : Nat) :
    limits.foldr max first ≤ limits'.foldr max first := by
  induction limits with
  | nil => exact (le_foldr_max limits' first).1
  | cons limit rest ih =>
    exact max_le ((le_foldr_max limits' first).2 limit (more mem_cons_self))
      (ih fun other member => more (mem_cons_of_mem _ member))

theorem foldr_max_base_mono (limits : List Nat) {first first' : Nat} (more : first ≤ first') :
    limits.foldr max first ≤ limits.foldr max first' := by
  induction limits with
  | nil => exact more
  | cons limit rest ih => exact max_le_max le_rfl ih

variable (peer : QUICTransportParameters) {history : List Mark}

theorem dataGrant_mono {history' : List Mark} (grows : history <:+ history') :
    dataGrant peer history ≤ dataGrant peer history' :=
  foldr_max_mono (grows.filterMap _).subset _

theorem streamGrant_mono {history' : List Mark} (grows : history <:+ history') (id : Nat) :
    streamGrant peer history id ≤ streamGrant peer history' id :=
  foldr_max_mono (grows.filterMap _).subset _

theorem grant_le_streamGrant (history : List Mark) (id : Nat) :
    peer.grant id ≤ streamGrant peer history id := (le_foldr_max _ _).1

theorem limit_le_streamGrant {id limit : Nat} (granted : Mark.maxStreamData id limit ∈ history) :
    limit ≤ streamGrant peer history id :=
  (le_foldr_max _ _).2 limit (mem_filterMap.mpr ⟨_, granted, by simp [Mark.streamGrant]⟩)

variable {earlier : List Mark}

theorem suffix_of_append {mark : Mark} {newer : List Mark}
    (suffix : mark :: earlier <:+ newer ++ history) (absent : mark ∉ newer) :
    mark :: earlier <:+ history := by
  induction newer with
  | nil => exact suffix
  | cons first rest ih =>
    rw [mem_cons, not_or] at absent
    refine ih ((suffix_cons_iff.mp suffix).resolve_left ?_) absent.2
    exact fun same => absent.1 (List.cons.inj same).1

def QUICStream.sentOffset (s : QUICStream) : Nat := s.send.sent

theorem Carried.counts {f : Flow} {send send' : QUICSendStream} {sentBytes : Nat}
    (carried : Carried f send send' sentBytes) (sound : send.Sound)
    (within : f.sentBytes ≤ f.sendLimit) (small : f.sendLimit < 2 ^ 62) :
    sentBytes + send.sent = f.sentBytes + send'.sent ∧ sentBytes ≤ f.sendLimit ∧
      send'.limit = send.limit ∧ (send.sent ≤ send.limit → send'.sent ≤ send.limit) := by
  cases carried with
  | nothing => exact ⟨rfl, within, rfl, id⟩
  | again range rest length first proper fits =>
    have same := max_eq_left (Carried.again_le sound first proper fits)
    exact ⟨by simp only [same], within, rfl, fun below => by simpa only [same] using below⟩
  | fresh length fin queued streamRoom connectionRoom =>
    have sum : addWrapping f.sentBytes length = f.sentBytes + length := mod_eq_of_lt (by omega)
    have more : max send.sent (send.sent + length) = send.sent + length := max_eq_right (le_add_right _ _)
    unfold QUICSendStream.window at streamRoom
    refine ⟨?_, ?_, rfl, fun _ => ?_⟩ <;> simp only [sum, more] <;> omega

namespace Ledger

/-- Flow control on the sending side. -/
structure SendGranted (a : Ledger) : Prop where
  counted : a.flow.sentBytes = a.tally sentOffset
  within : a.flow.sentBytes ≤ a.flow.sendLimit
  granted : a.flow.sendLimit ≤ dataGrant a.flow.peerParameters a.history
  small : a.flow.sendLimit < 2 ^ 62
  offered : a.offered.initialMaxData < 2 ^ 62
  early : a.complete = false → a.flow.sentBytes = 0 ∧ a.flow.peerParameters = {}
  streams : Table.Each a.flow.streams fun id s => s.send.sent ≤ s.send.limit ∧
    s.send.limit ≤ streamGrant a.flow.peerParameters a.history id

variable {a b : Ledger}

theorem Initial.sendGranted (initial : a.Initial) : a.SendGranted where
  counted := by rw [initial.sentBytes, initial.tally]
  within := by rw [initial.sentBytes]; exact zero_le _
  granted := by rw [initial.sendLimit]; exact zero_le _
  small := by rw [initial.sendLimit]; decide
  offered := by rw [initial.offered]; decide
  early := fun _ => ⟨initial.sentBytes, initial.peerParameters⟩
  streams := by
    rw [initial.streams]
    exact Table.Each.empty

namespace SendGranted

theorem kept (g : a.SendGranted) (grows : a.history <:+ history) :
    Table.Each a.flow.streams fun id s => s.send.sent ≤ s.send.limit ∧
      s.send.limit ≤ streamGrant a.flow.peerParameters history id :=
  g.streams.mono fun id _ old => ⟨old.1, old.2.trans (streamGrant_mono _ grows id)⟩

theorem step (g : a.SendGranted) (grows : a.history <:+ b.history)
    (peer : b.flow.peerParameters = a.flow.peerParameters)
    (limit : b.flow.sendLimit = a.flow.sendLimit) (sent : b.flow.sentBytes = a.flow.sentBytes)
    (offered : b.offered = a.offered) (complete : b.complete = a.complete)
    (tally : b.tally sentOffset = a.tally sentOffset)
    (streams : Table.Each b.flow.streams fun id s => s.send.sent ≤ s.send.limit ∧
      s.send.limit ≤ streamGrant a.flow.peerParameters b.history id) : b.SendGranted where
  counted := by rw [sent, tally, g.counted]
  within := by rw [sent, limit]; exact g.within
  granted := by rw [limit, peer]; exact g.granted.trans (dataGrant_mono _ grows)
  small := by rw [limit]; exact g.small
  offered := by rw [offered]; exact g.offered
  early := by rw [sent, peer, complete]; exact g.early
  streams := by rw [peer]; exact streams

theorem quiet (g : a.SendGranted) (grows : a.history <:+ b.history)
    (retired : retiredStreams b.history = retiredStreams a.history)
    (flow : ∃ receiveLimit receivedBytes writable writableSet, b.flow = { a.flow with
      receiveLimit := receiveLimit, receivedBytes := receivedBytes
      writable := writable, writableSet := writableSet })
    (offered : b.offered = a.offered) (complete : b.complete = a.complete) : b.SendGranted := by
  obtain ⟨receiveLimit, receivedBytes, writable, writableSet, same⟩ := flow
  refine g.step grows (by rw [same]) (by rw [same]) (by rw [same]) offered complete
    (tally_same (by rw [same]) retired) ?_
  rw [same]
  exact g.kept grows

theorem receiving (g : a.SendGranted) {id : Nat} {s s' : QUICStream}
    (live : a.flow.streams.lookup id = some s) (send : s'.send = s.send) (grows : a.history <:+ b.history)
    (retired : retiredStreams b.history = retiredStreams a.history)
    (flow : ∃ receivedBytes, b.flow = { a.flow.put id s' with receivedBytes := receivedBytes })
    (offered : b.offered = a.offered) (complete : b.complete = a.complete) : b.SendGranted := by
  obtain ⟨receivedBytes, same⟩ := flow
  have streams : b.flow.streams = a.flow.streams.modify id fun _ => s' := by
    rw [same]
    rfl
  have moved := tally_put sentOffset live streams retired
  have weight : s'.sentOffset = s.sentOffset := congrArg QUICSendStream.sent send
  refine g.step grows ?_ ?_ ?_ offered complete (by omega) ?_
  · rw [same]
    rfl
  · rw [same]
    rfl
  · rw [same]
    rfl
  · rw [streams]
    apply (g.kept grows).modify
    intro t _
    rw [send]
    exact g.kept grows id s live

theorem opens (g : a.SendGranted) (sound : a.Sound) {id : Nat} {s : QUICStream} (opens : a.flow.Opens b.flow id s)
    (new : s.send = { limit := a.flow.peerParameters.grant id }) (history : b.history = a.history)
    (offered : b.offered = a.offered) (complete : b.complete = a.complete) : b.SendGranted := by
  have grows : a.history <:+ b.history := history ▸ suffix_rfl
  have tally : b.tally QUICStream.sentOffset = a.tally QUICStream.sentOffset :=
    tally_opens sound opens (congrArg QUICSendStream.sent new) (by rw [history])
  obtain ⟨_, _, _, _, same⟩ := opens.flow
  refine g.step grows (by rw [same]) (by rw [same]) (by rw [same]) offered complete tally ?_
  rw [same]
  refine (g.kept grows).insert ?_
  rw [new]
  exact ⟨Nat.zero_le _, grant_le_streamGrant _ _ _⟩

end SendGranted

theorem Effect.sendGranted (effect : Effect a b) (sound : a.Sound) (g : a.SendGranted) : b.SendGranted := by
  have grows := effect.grows
  cases effect
  case handshake awaiting pending offered _ _ _ bounded =>
    refine ⟨g.counted, g.within, g.granted, g.small, ?_, g.early, g.streams⟩
    rcases bounded with same | small
    · exact same ▸ g.offered
    · exact small.initialMaxData
  case completed first answered installed =>
    obtain ⟨none, blank⟩ := g.early first
    refine ⟨?_, ?_, (le_foldr_max _ _).1, g.offered, g.offered, nofun, ?_⟩
    · refine g.counted.trans (Eq.symm (tally_adopt (a := a) a.offered ?_ ?_ ?_))
      · exact fun _ _ => rfl
      · rfl
      · rfl
    · exact none.le.trans (zero_le _)
    · -- what the streams had before came from frames, as the parameters were blank
      have raised : ∀ id, streamGrant a.flow.peerParameters a.history id ≤
          streamGrant a.offered (.completed a.status :: a.history) id := by
        intro id
        refine le_trans ?_ (streamGrant_mono a.offered grows id)
        have zero : a.flow.peerParameters.grant id = 0 := by
          rw [blank]
          unfold grant
          split_ifs <;> rfl
        unfold streamGrant
        rw [zero]
        exact foldr_max_base_mono _ (zero_le _)
      refine Table.Each.mapValues (g.streams.mono fun id s old => ⟨old.1, old.2.trans (raised id)⟩) fun id s old => ?_
      split_ifs with client
      · refine ⟨old.1.trans (le_max_left _ _), max_le old.2 ?_⟩
        refine le_trans (le_of_eq ?_) (grant_le_streamGrant a.offered _ id)
        have server : QUICStreamKind.isServerInitiated id = false := by
          rw [Bool.eq_false_iff, Ne, QUICStreamKind.isServerInitiated_iff]
          have even := (QUICStreamKind.isClientInitiated_iff id).mp client.1
          omega
        have uni : QUICStreamKind.isUnidirectional id = false := by
          rw [Bool.eq_false_iff, Ne, QUICStreamKind.isUnidirectional_iff]
          have even := (QUICStreamKind.isBidirectional_iff id).mp client.2
          omega
        simp [grant, server, uni]
      · exact old
  case openIncoming kind =>
    refine g.opens sound (openIncoming_opens a.flow kind) ?_ rfl rfl rfl
    cases kind <;> simp [incoming, nextIncoming, grant]
  case openLocal kind =>
    refine g.opens sound (openLocal_opens a.flow kind) ?_ rfl rfl rfl
    cases kind <;> simp [outgoing, nextLocal, grant]
  case retire id s live => exact g.step grows rfl rfl rfl rfl rfl (tally_retire live rfl rfl) (g.kept grows).erase
  case stream id s s' marks live step =>
    obtain ⟨writable, writableSet, same⟩ := markIf_eq (a.flow.put id s') marks id
    have streams : ((a.flow.put id s').markIf marks id).streams = a.flow.streams.modify id fun _ => s' := by
      rw [same]
      rfl
    have moved := tally_put sentOffset (b := { a with flow := (a.flow.put id s').markIf marks id }) live streams rfl
    have weight : s'.sentOffset = s.sentOffset := step.sent
    refine g.step grows ?_ ?_ ?_ rfl rfl (by omega) ?_
    · rw [same]
      rfl
    · rw [same]
      rfl
    · rw [same]
      rfl
    · rw [streams]
      apply g.streams.modify
      intro t _
      obtain ⟨below, limited⟩ := g.streams id s live
      rw [step.sent]
      rcases step.sendLimit with kept | ⟨raises, granted⟩
      · rw [kept]
        exact ⟨below, limited⟩
      · exact ⟨below.trans raises, limit_le_streamGrant _ granted⟩
  case markWritable id =>
    obtain ⟨writable, writableSet, same⟩ := markWritable_eq a.flow id
    exact g.quiet grows rfl ⟨_, _, writable, writableSet, same⟩ rfl rfl
  case data id s s' growth live _ _ _ _ _ rest =>
    obtain ⟨receivedBytes, _, same, -⟩ := charge_eq a growth
    exact g.receiving live (show s'.send = s.send by rw [rest]) grows (retired_charge a _)
      ⟨receivedBytes, by rw [same]; rfl⟩ (by rw [same]) (by rw [same])
  case resetReceived id s s' finalSize live _ _ _ _ _ rest =>
    obtain ⟨receivedBytes, _, same, -⟩ := charge_eq a (finalSize - s.receive.highWater)
    exact g.receiving live (show s'.send = s.send by rw [rest]) grows (retired_charge a _)
      ⟨receivedBytes, by rw [same]; rfl⟩ (by rw [same]; rfl) (by rw [same]; rfl)
  case overcharge growth _ =>
    obtain ⟨receivedBytes, _, same, -⟩ := charge_eq a growth
    exact g.quiet grows (retired_charge a growth) ⟨_, receivedBytes, _, _, by rw [same]⟩ (by rw [same]) (by rw [same])
  case maxData limit small =>
    refine ⟨g.counted, g.within.trans (le_max_left _ _), max_le ?_ ?_, max_lt g.small small,
      g.offered, g.early, g.kept grows⟩
    · exact g.granted.trans (dataGrant_mono _ grows)
    · exact (le_foldr_max _ _).2 limit (mem_filterMap.mpr ⟨_, mem_cons_self, rfl⟩)
  case turn id s s' room sentBytes stays reset live complete turned _ =>
    obtain ⟨sum, within, limit, below⟩ := turned.carried.counts (sound.sends id s live) g.within g.small
    have flow : ∃ writableSet, (let f := { a.flow.put id s' with sentBytes := sentBytes }
        if stays then f else f.unmark id) =
        { a.flow.put id s' with sentBytes := sentBytes, writableSet := writableSet } := by
      cases stays <;> exact ⟨_, rfl⟩
    obtain ⟨writableSet, same⟩ := flow
    rw [same] at grows ⊢
    have moved := tally_put sentOffset (b := { a with
      history := (reset.map fun t => Mark.resetWritten id t t.send.written).toList ++ .turn id s room :: a.history
      flow := { a.flow.put id s' with sentBytes := sentBytes, writableSet := writableSet } }) live rfl
      (by cases reset <;> rfl)
    have weight : s.sentOffset = s.send.sent ∧ s'.sentOffset = s'.send.sent := ⟨rfl, rfl⟩
    have before := g.counted
    refine ⟨?_, within, g.granted.trans (dataGrant_mono _ grows), g.small, g.offered, ?_, ?_⟩
    · change sentBytes = _
      omega
    · intro early
      rw [show a.complete = false from early] at complete
      cases complete
    · apply (g.kept grows).modify
      intro t _
      obtain ⟨old, limited⟩ := g.kept grows id s live
      rw [limit]
      exact ⟨below old, limited⟩
  case settle level acked lost rest _ _ _ =>
    refine g.quiet grows ?_ ⟨_, _, _, _, rfl⟩ rfl rfl
    simp [retiredStreams, filterMap_append, filterMap_map, Function.comp_def, Mark.retiredStream]
  all_goals exact g.quiet grows rfl ⟨_, _, _, _, rfl⟩ rfl rfl

theorem machine_sendGranted (run : machine.Chain a b) (sound : a.Sound) (start : a.SendGranted) : b.SendGranted := by
  refine machine_keeps_sound run
    (fun _ _ effect _ sound => effect.sendGranted sound) ?_ ?_ (fun _ _ => trivial) sound start
  · rintro key s t ⟨⟩ g
    exact g.quiet (suffix_cons _ _) rfl ⟨_, _, _, _, rfl⟩ rfl rfl
  · rintro key s t ⟨⟩ g <;> exact g.quiet (suffix_cons _ _) rfl ⟨_, _, _, _, rfl⟩ rfl rfl

theorem Effect.resetWritten (effect : Effect a b) {id : Nat} {s : QUICStream} {finalSize : Nat}
    (suffix : .resetWritten id s finalSize :: earlier <:+ b.history) :
    .resetWritten id s finalSize :: earlier <:+ a.history ∨
      (a.complete = true ∧ finalSize = s.send.written ∧ a.history <:+ earlier ∧
        ∃ t, a.flow.streams.lookup id = some t ∧ s.send = t.send) := by
  cases effect
  case peerClose | completed | retire | maxData | maxStreamData | send | discard =>
    exact .inl ((suffix_cons_iff.mp suffix).resolve_left (by simp))
  case data | overcharge =>
    unfold charge at suffix
    split_ifs at suffix
    · exact .inl suffix
    · exact .inl ((suffix_cons_iff.mp suffix).resolve_left (by simp))
  case resetReceived =>
    unfold charge at suffix
    have rest := (suffix_cons_iff.mp suffix).resolve_left (by simp)
    split_ifs at rest
    · exact .inl rest
    · exact .inl ((suffix_cons_iff.mp rest).resolve_left (by simp))
  case turn named t t' room sentBytes stays reset live complete turned same =>
    cases reset with
    | none => exact .inl ((suffix_cons_iff.mp suffix).resolve_left (by simp))
    | some written =>
      rcases suffix_cons_iff.mp suffix with new | old
      · simp only [List.cons.injEq, Mark.resetWritten.injEq] at new
        obtain ⟨⟨rfl, rfl, rfl⟩, rfl⟩ := new
        exact .inr ⟨complete, rfl, suffix_cons _ _, t, live, same s rfl⟩
      · exact .inl ((suffix_cons_iff.mp old).resolve_left (by simp))
  case settle level acked lost rest _ _ _ =>
    refine .inl (suffix_of_append suffix ?_)
    simp
  all_goals exact .inl suffix

theorem Effect.peerParameters (effect : Effect a b) (complete : a.complete = true) :
    b.flow.peerParameters = a.flow.peerParameters ∧ b.complete = true := by
  cases effect
  case completed first _ _ =>
    cases first.symm.trans complete
  case openIncoming unidirectional | openLocal unidirectional => cases unidirectional <;> exact ⟨rfl, complete⟩
  case stream id s s' marks _ _ =>
    obtain ⟨writable, writableSet, same⟩ := markIf_eq (a.flow.put id s') marks id
    rw [same]
    exact ⟨rfl, complete⟩
  case markWritable id =>
    obtain ⟨writable, writableSet, same⟩ := markWritable_eq a.flow id
    rw [same]
    exact ⟨rfl, complete⟩
  case data | resetReceived | overcharge =>
    unfold charge
    split_ifs <;> exact ⟨rfl, complete⟩
  case turn stays _ _ _ _ _ => cases stays <;> exact ⟨rfl, complete⟩
  all_goals exact ⟨rfl, complete⟩

/-- Every RESET_STREAM names a size no less than what was sent, and no more than was granted if what
was not sent fits the stream's window. -/
structure ResetsGranted (a : Ledger) : Prop where
  complete : ∀ id s finalSize earlier, .resetWritten id s finalSize :: earlier <:+ a.history →
    a.complete = true
  resets : ∀ id s finalSize earlier, .resetWritten id s finalSize :: earlier <:+ a.history →
    s.send.sent ≤ finalSize ∧ (s.send.pending ≤ s.send.window →
      finalSize ≤ streamGrant a.flow.peerParameters earlier id)

theorem Initial.resetsGranted (initial : a.Initial) : a.ResetsGranted := by
  constructor <;> intro id s finalSize earlier suffix <;> rw [initial.history] at suffix <;> simp at suffix

theorem Effect.resetsGranted (effect : Effect a b) (sound : a.Sound) (g : a.SendGranted)
    (before : a.ResetsGranted) : b.ResetsGranted := by
  refine ⟨fun id s finalSize earlier suffix => ?_, fun id s finalSize earlier suffix => ?_⟩
  · rcases effect.resetWritten suffix with old | ⟨complete, _⟩
    · exact (effect.peerParameters (before.complete id s finalSize earlier old)).2
    · exact (effect.peerParameters complete).2
  · rcases effect.resetWritten suffix with old | ⟨complete, written, grows, t, live, send⟩
    · rw [(effect.peerParameters (before.complete id s finalSize earlier old)).1]
      exact before.resets id s finalSize earlier old
    rw [(effect.peerParameters complete).1, written, send]
    obtain ⟨below, limited⟩ := g.kept grows id t live
    have sent := (sound.sends id t live).sent
    refine ⟨sent, fun fits => le_trans ?_ limited⟩
    unfold QUICSendStream.pending QUICSendStream.window at fits
    omega

theorem machine_resetsGranted (run : machine.Chain a b) (sound : a.Sound) (g : a.SendGranted)
    (start : a.ResetsGranted) : b.ResetsGranted := by
  have both : b.SendGranted ∧ b.ResetsGranted := by
    refine machine_keeps_sound (I := fun s => s.SendGranted ∧ s.ResetsGranted) run
      (fun _ _ effect _ sound ⟨g, before⟩ =>
        ⟨effect.sendGranted sound g, effect.resetsGranted sound g before⟩)
      ?_ ?_ (fun _ _ => trivial) sound ⟨g, start⟩
    · rintro key s t ⟨⟩ ⟨g, before⟩
      refine ⟨g.quiet (suffix_cons _ _) rfl ⟨_, _, _, _, rfl⟩ rfl rfl, ?_, ?_⟩
      all_goals intro id s finalSize earlier suffix
      all_goals have old := (suffix_cons_iff.mp suffix).resolve_left (by simp)
      · exact before.complete id s finalSize earlier old
      · exact before.resets id s finalSize earlier old
    · rintro key s t ⟨⟩ ⟨g, before⟩
      all_goals refine ⟨g.quiet (suffix_cons _ _) rfl ⟨_, _, _, _, rfl⟩ rfl rfl, ?_, ?_⟩
      all_goals intro id s finalSize earlier suffix
      all_goals have old := (suffix_cons_iff.mp suffix).resolve_left (by simp)
      all_goals first
        | exact before.complete id s finalSize earlier old
        | exact before.resets id s finalSize earlier old
  exact both.2

end Ledger

/-- When a RESET_STREAM is written, what was queued and not sent fits the stream's window. -/
def Mark.ResetFits : Mark → Prop
  | .resetWritten _ s _ => s.send.pending ≤ s.send.window
  | _ => True

instance : DecidablePred Mark.ResetFits := fun mark => by
  apply Mark.casesOn (motive := fun mark => Decidable mark.ResetFits) mark <;>
    intros <;> dsimp only [Mark.ResetFits] <;> infer_instance

/-- The last RESET_STREAM that was written: its stream, its final size and the history before. -/
def lastReset : List Mark → Option (Nat × QUICStream × Nat × List Mark)
  | [] => none
  | .resetWritten id s finalSize :: earlier => some (id, s, finalSize, earlier)
  | _ :: earlier => lastReset earlier

theorem lastReset_suffix {id : Nat} {s : QUICStream} {finalSize : Nat}
    (found : lastReset history = some (id, s, finalSize, earlier)) :
    .resetWritten id s finalSize :: earlier <:+ history := by
  induction history with
  | nil => cases found
  | cons mark rest ih =>
    cases mark
    case resetWritten named t size =>
      simp only [lastReset, Option.some.injEq, Prod.mk.injEq] at found
      obtain ⟨rfl, rfl, rfl, rfl⟩ := found
      exact suffix_rfl
    all_goals exact (ih found).trans (suffix_cons _ _)

theorem Turn.writeOneStream_again (turn : Turn) (id : Nat) (owed : turn.stream.send.lost.isEmpty = false) :
    (turn.writeOneStream id).1.draft.conn.sentBytes = turn.draft.conn.sentBytes := by
  have again : (nextStretch turn.stream.send).isRetransmit = true := by
    unfold nextStretch
    cases ranges : turn.stream.send.lost.ranges with
    | nil => simp [QUICByteRanges.isEmpty, ranges] at owed
    | cons range rest => rfl
  have outcome := writeOneStream_cases turn id
  generalize turn.writeOneStream id = result at outcome
  cases outcome with
  | nothing | broken => rfl
  | frame => simp [recordStream, again]

namespace World
variable (P : Primitives)

/-- In every reachable state, every stream has sent what its peer allowed at most, and the connection's
count is the sum over its streams and within the connection's limit. -/
theorem sent_within_grants (w : World) (reachable : Reachable P w) : (∀ id s, w.conn.streams.lookup id = some s →
        s.send.sent ≤ streamGrant w.conn.peerParameters w.conn.history id) ∧
      w.conn.sentBytes = w.conn.tally QUICStream.sentOffset ∧
      w.conn.sentBytes ≤ dataGrant w.conn.peerParameters w.conn.history ∧
      (∀ (turn : Turn) (id : Nat), turn.stream.send.lost.isEmpty = false →
        (turn.writeOneStream id).1.draft.conn.sentBytes = turn.draft.conn.sentBytes) := by
  obtain ⟨start, initial, chain⟩ := reachable.chain
  have g := Ledger.machine_sendGranted chain initial.sound initial.sendGranted
  refine ⟨fun id s live => ?_, g.counted, g.within.trans g.granted, Turn.writeOneStream_again⟩
  obtain ⟨below, limited⟩ := g.streams id s live
  exact below.trans limited

/-- A response of 300 bytes to a client that allows 256. -/
theorem sent_within_grants_blocked : (start.run .transparent [hello, finished,
        .receive (shortPacket 0 [0x08, 0, 7, 7]) 3, .send 0 (zeros 300) false,
        .nextDatagram 1200 4]).conn.sentBytes = 256 ∧ (start.run .transparent [hello, finished,
        .receive (shortPacket 0 [0x08, 0, 7, 7]) 3, .send 0 (zeros 300) false,
        .nextDatagram 1200 4]).conn.tally QUICStream.sentOffset = 256 := by
  have count : (start.run .transparent [hello, finished,
      .receive (shortPacket 0 [0x08, 0, 7, 7]) 3, .send 0 (zeros 300) false,
      .nextDatagram 1200 4]).conn.sentBytes = 256 := by
    decide +kernel
  have grants := sent_within_grants .transparent (start.run .transparent [hello,
    finished, .receive (shortPacket 0 [0x08, 0, 7, 7]) 3, .send 0 (zeros 300) false,
    .nextDatagram 1200 4]) (start_reaches _)
  exact ⟨count, grants.2.1.symm.trans count⟩

/-- In every run in which streams are reset with no more queued than their window holds, every
RESET_STREAM names a final size between what was sent and what was granted until then. -/
theorem reset_within_grant (w : World) (reachable : Reachable P w)
    (fits : ∀ mark ∈ w.conn.history, mark.ResetFits) (id : Nat) (s : QUICStream) (finalSize : Nat)
    (earlier : List Mark) (written : .resetWritten id s finalSize :: earlier <:+ w.conn.history) :
    s.send.sent ≤ finalSize ∧ finalSize ≤ streamGrant w.conn.peerParameters earlier id := by
  obtain ⟨start, initial, chain⟩ := reachable.chain
  have resets := Ledger.machine_resetsGranted chain initial.sound initial.sendGranted initial.resetsGranted
  obtain ⟨sent, granted⟩ := resets.resets id s finalSize earlier written
  exact ⟨sent, granted (fits _ (written.subset List.mem_cons_self))⟩

/-- A stream that is reset with 100 bytes queued. -/
theorem reset_within_grant_queued : ∃ s earlier, .resetWritten 0 s 100 :: earlier <:+ (start.run .transparent [hello,
        finished, .receive (shortPacket 0 [0x08, 0, 7, 7]) 3,
        .send 0 (zeros 100) false, .resetStream 0 9, .nextDatagram 1200 4]).conn.history ∧
      s.send.sent ≤ 100 := by
  have found : (lastReset (start.run .transparent [hello, finished,
      .receive (shortPacket 0 [0x08, 0, 7, 7]) 3, .send 0 (zeros 100) false,
      .resetStream 0 9, .nextDatagram 1200 4]).conn.history).map (fun entry => (entry.1, entry.2.2.1)) =
      some (0, 100) := by
    decide +kernel
  obtain ⟨⟨id, s, finalSize, earlier⟩, last, same⟩ := Option.map_eq_some_iff.mp found
  simp only [Prod.mk.injEq] at same
  obtain ⟨rfl, rfl⟩ := same
  have suffix := lastReset_suffix last
  exact ⟨s, earlier, suffix, (reset_within_grant .transparent _ (start_reaches _)
    (by decide +kernel) 0 s 100 earlier suffix).1⟩

/-- A stream that is reset with 300 bytes queued, of which its peer allows 256. -/
theorem reset_exceeds_grant : (lastReset (start.run .transparent [hello, finished,
        .receive (shortPacket 0 [0x08, 0, 7, 7]) 3, .send 0 (zeros 300) false,
        .resetStream 0 9, .nextDatagram 1200 4]).conn.history).map
      (fun entry => (entry.1, entry.2.2.1, streamGrant (start.run .transparent [hello,
        finished, .receive (shortPacket 0 [0x08, 0, 7, 7]) 3, .send 0 (zeros 300) false,
        .resetStream 0 9, .nextDatagram 1200 4]).conn.peerParameters entry.2.2.2 0)) =
      some (0, 300, 256) := by
  decide +kernel

end World
end AvianCore.Quic
