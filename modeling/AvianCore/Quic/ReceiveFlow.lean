import AvianCore.Quic.Accounts

/-!
Flow control on the receiving side: what a peer has used, and what it was allowed.
-/

namespace AvianCore.Quic
open AvianCore.Lib QUICStream Quic.Flow List
open Client (hello finished shortPacket)

/-- The handshake does not end after a close has begun, and the count of received bytes fits a
64-bit word. -/
def Mark.Countable : Mark → Prop
  | .completed before => before.isClosing = false
  | .credit receivedBytes growth => receivedBytes + growth < 2 ^ 64
  | _ => True

instance : DecidablePred Mark.Countable := fun mark => by
  apply Mark.casesOn (motive := fun mark => Decidable mark.Countable) mark <;>
    intros <;> dsimp only [Mark.Countable] <;> infer_instance

/-- A RESET_STREAM frame names a final size within the stream's limit. -/
def Mark.ResetInLimit : Mark → Prop
  | .resetReceived s finalSize => finalSize ≤ s.receive.limit
  | _ => True

instance : DecidablePred Mark.ResetInLimit := fun mark => by
  apply Mark.casesOn (motive := fun mark => Decidable mark.ResetInLimit) mark <;>
    intros <;> dsimp only [Mark.ResetInLimit] <;> infer_instance

def QUICStream.highWater (s : QUICStream) : Nat := s.receive.highWater

namespace Ledger

/-- The count is the sum of what was used of each stream, and within the credit. -/
def Credited (a : Ledger) : Prop :=
  a.status.isClosing = false → a.flow.receivedBytes = a.tally highWater ∧
    a.flow.receivedBytes ≤ a.flow.receiveLimit

variable {a b : Ledger}

theorem Credited.quiet (credited : a.Credited) (status : b.status = a.status)
    (received : b.flow.receivedBytes = a.flow.receivedBytes) (limit : a.flow.receiveLimit ≤ b.flow.receiveLimit)
    (tally : b.tally highWater = a.tally highWater) : b.Credited := by
  intro alive
  rw [status] at alive
  obtain ⟨same, most⟩ := credited alive
  exact ⟨by rw [received, tally, same], by rw [received]; exact most.trans limit⟩

theorem Credited.opens (credited : a.Credited) (sound : a.Sound) {id : Nat} {s : QUICStream}
    (opens : a.flow.Opens b.flow id s) (new : s.highWater = 0) (status : b.status = a.status)
    (history : b.history = a.history) : b.Credited := by
  have tally : b.tally highWater = a.tally highWater := tally_opens sound opens new (by rw [history])
  obtain ⟨_, _, _, _, same⟩ := opens.flow
  exact credited.quiet status (by rw [same]) (by rw [same]) tally

theorem status_charge (a : Ledger) (growth : Nat) : (a.charge growth).status = a.status := by
  unfold charge
  split_ifs <;> rfl

theorem Credited.charge {id : Nat} {s s' : QUICStream} {growth : Nat} (credited : a.Credited)
    (live : a.flow.streams.lookup id = some s) (affords : a.Affords growth)
    (grows : s'.receive.highWater = s.receive.highWater + growth) (status : b.status = a.status)
    (flow : b.flow = (a.charge growth).flow.put id s') (retired : retiredStreams b.history = retiredStreams a.history)
    (countable : ∀ mark ∈ (a.charge growth).history, mark.Countable) : b.Credited := by
  intro alive
  rw [status] at alive
  obtain ⟨same, most⟩ := credited alive
  have streams : b.flow.streams = a.flow.streams.modify id fun _ => s' := by
    rw [flow]
    unfold Ledger.charge
    split_ifs <;> rfl
  have moved := tally_put highWater live streams retired
  have shown : s'.highWater = s.highWater + growth := grows
  unfold Ledger.charge at flow countable
  by_cases zero : growth = 0
  · simp only [if_pos zero] at flow
    have received : b.flow.receivedBytes = a.flow.receivedBytes := by rw [flow]; rfl
    have limit : b.flow.receiveLimit = a.flow.receiveLimit := by rw [flow]; rfl
    rw [received, limit]
    exact ⟨by omega, most⟩
  simp only [if_neg zero] at flow countable
  have small : a.flow.receivedBytes + growth < 2 ^ 64 := countable _ mem_cons_self
  have sum : addWrapping a.flow.receivedBytes growth = a.flow.receivedBytes + growth := Nat.mod_eq_of_lt small
  have received : b.flow.receivedBytes = a.flow.receivedBytes + growth := by
    rw [flow, ← sum]
    rfl
  have limit : b.flow.receiveLimit = a.flow.receiveLimit := by rw [flow]; rfl
  have enough := affords.resolve_left zero
  rw [sum] at enough
  rw [received, limit]
  exact ⟨by omega, enough⟩

theorem Effect.credited (effect : Effect a b) (countable : effects.Clean Mark.Countable b)
    (sound : a.Sound) (credited : a.Credited) : b.Credited := by
  cases effect
  case close | peerClose | drain | idle => exact nofun
  case completed =>
    have early : a.status.isClosing = false := countable _ mem_cons_self
    obtain ⟨same, most⟩ := credited early
    intro _
    refine ⟨same.trans (Eq.symm (tally_adopt (a := a) a.offered ?_ ?_ ?_)), most⟩
    · exact fun _ _ => rfl
    · rfl
    · rfl
  case openIncoming kind => exact credited.opens sound (openIncoming_opens a.flow kind) rfl rfl rfl
  case openLocal kind => exact credited.opens sound (openLocal_opens a.flow kind) rfl rfl rfl
  case retire id s live => exact credited.quiet rfl rfl le_rfl (tally_retire live rfl rfl)
  case stream id s s' marks live step =>
    obtain ⟨writable, writableSet, same⟩ := markIf_eq (a.flow.put id s') marks id
    have kept : s'.highWater = s.highWater := step.highWater
    have moved : ({ a with flow := (a.flow.put id s').markIf marks id } : Ledger).tally
        highWater = a.tally highWater := by
      have change := tally_put highWater
        (b := { a with flow := (a.flow.put id s').markIf marks id }) live (by rw [same]; rfl) rfl
      omega
    refine credited.quiet rfl ?_ ?_ moved
    · rw [same]
      rfl
    · rw [same]
      exact le_rfl
  case markWritable id =>
    obtain ⟨writable, writableSet, same⟩ := markWritable_eq a.flow id
    rw [same]
    exact credited.quiet rfl rfl le_rfl rfl
  case raiseCredit limit raises => exact credited.quiet rfl rfl raises rfl
  case data id s s' growth live affords grows _ _ _ _ =>
    exact credited.charge live affords grows (status_charge a growth) rfl (retired_charge a growth) countable
  case resetReceived id s s' finalSize live enough affords grows _ _ _ =>
    exact credited.charge live affords (by omega) (status_charge a _) rfl (retired_charge a _)
      fun mark member => countable mark (mem_cons_of_mem _ member)
  case overcharge growth closing =>
    intro alive
    rw [status_charge, closing] at alive
    cases alive
  case turn id s s' room sentBytes stays reset live _ turned _ =>
    have kept : s'.highWater = s.highWater := by
      unfold highWater
      rw [turned.receive]
    refine credited.quiet rfl ?_ ?_ ?_
    · cases stays <;> rfl
    · cases stays <;> exact le_rfl
    have change := tally_put highWater (b := { a with
      history := (reset.map fun t => Mark.resetWritten id t t.send.written).toList ++ .turn id s room :: a.history
      flow := let f := { a.flow.put id s' with sentBytes := sentBytes }
        if stays then f else f.unmark id }) live (by cases stays <;> rfl) (by cases reset <;> rfl)
    omega
  case settle level acked lost rest _ _ _ =>
    refine credited.quiet rfl rfl le_rfl (tally_same rfl ?_)
    simp [retiredStreams, filterMap_append, filterMap_map, Function.comp_def, Mark.retiredStream]
  all_goals exact credited.quiet rfl rfl le_rfl rfl

theorem machine_credited (run : machine.Chain a b) (countable : machine.Clean Mark.Countable b)
    (sound : a.Sound) (start : a.Credited) : b.Credited := by
  refine machine_keeps_sound run (fun _ _ effect countable sound => effect.credited countable sound)
    ?_ ?_ countable sound start
  · rintro key s t ⟨⟩ credited
    exact credited.quiet rfl rfl le_rfl rfl
  · rintro key s t ⟨⟩ credited <;> exact credited.quiet rfl rfl le_rfl rfl

def InLimits (a : Ledger) : Prop := Table.Each a.flow.streams fun _ s => s.receive.highWater ≤ s.receive.limit

theorem InLimits.put (inLimits : a.InLimits) (id : Nat) (s' : QUICStream)
    (streams : b.flow.streams = a.flow.streams.modify id fun _ => s')
    (within : s'.receive.highWater ≤ s'.receive.limit) : b.InLimits := by
  unfold InLimits
  rw [streams]
  exact Table.Each.modify inLimits fun _ _ => within

theorem InLimits.insert {id : Nat} {s : QUICStream} (inLimits : a.InLimits)
    (streams : b.flow.streams = a.flow.streams.insert id s)
    (within : s.receive.highWater ≤ s.receive.limit) : b.InLimits := by
  unfold InLimits
  rw [streams]
  exact Table.Each.insert inLimits within

theorem Effect.inLimits (effect : Effect a b) (resets : effects.Clean Mark.ResetInLimit b)
    (inLimits : a.InLimits) : b.InLimits := by
  have charged : ∀ growth, (a.charge growth).flow.streams = a.flow.streams := by
    intro growth
    unfold charge
    split_ifs <;> rfl
  cases effect
  case completed =>
    apply Table.Each.mapValues inLimits
    intro id s within
    split_ifs <;> exact within
  case openIncoming kind => exact inLimits.insert (openIncoming_opens _ kind).streams (Nat.zero_le _)
  case openLocal kind => exact inLimits.insert (openLocal_opens _ kind).streams (Nat.zero_le _)
  case retire id s live => exact Table.Each.erase inLimits
  case stream id s s' marks live step =>
    obtain ⟨writable, writableSet, same⟩ := markIf_eq (a.flow.put id s') marks id
    apply inLimits.put id s' (by rw [same]; rfl)
    rw [step.highWater]
    exact (inLimits id s live).trans step.limit_le
  case markWritable id =>
    obtain ⟨writable, writableSet, same⟩ := markWritable_eq a.flow id
    rw [same]
    exact inLimits
  case data id s s' growth live _ _ within limit _ _ =>
    apply inLimits.put id s' (by simp [put, charged])
    rw [limit]
    exact within.trans (max_le (inLimits id s live) le_rfl)
  case resetReceived id s s' finalSize live _ _ grows limit _ _ =>
    apply inLimits.put id s' (by simp [put, charged])
    rw [grows, limit]
    exact resets (.resetReceived s finalSize) mem_cons_self
  case overcharge growth _ =>
    unfold InLimits
    rw [charged]
    exact inLimits
  case turn id s s' room sentBytes stays reset live _ turned _ =>
    apply inLimits.put id s' (by cases stays <;> rfl)
    rw [turned.receive]
    exact inLimits id s live
  all_goals exact inLimits

theorem machine_inLimits (run : machine.Chain a b) (resets : machine.Clean Mark.ResetInLimit b)
    (start : a.InLimits) : b.InLimits := by
  refine machine_keeps run (fun _ _ effect resets => effect.inLimits resets) ?_ ?_ resets start
  · rintro key s t ⟨⟩ inLimits
    exact inLimits
  · rintro key s t ⟨⟩ inLimits <;> exact inLimits

end Ledger

namespace World
variable (P : Primitives)

/-- In every run in which the handshake does not end after a close has begun, and in which the count
fits its word, a connection that is not closing has counted just what its streams have used. -/
theorem received_counted (w : World) (reachable : Reachable P w)
    (countable : ∀ mark ∈ w.conn.history, mark.Countable) (alive : w.conn.status.isClosing = false) :
    w.conn.receivedBytes = w.conn.tally QUICStream.highWater ∧ w.conn.receivedBytes ≤ w.conn.receiveLimit := by
  obtain ⟨start, initial, chain⟩ := reachable.chain
  have none : start.Credited := fun _ => by
    simp [initial.receivedBytes, initial.tally]
  exact Ledger.machine_credited chain countable initial.sound none alive

/-- Two overlapping fragments of one stream, of three bytes in all. -/
theorem received_counted_overlap : (start.run .transparent [hello, finished,
      .receive (shortPacket 0 [0x0a, 0, 2, 7, 7]) 3,
      .receive (shortPacket 1 [0x0e, 0, 1, 2, 7, 7]) 4]).conn.tally QUICStream.highWater = 3 := by
  have counted := received_counted .transparent (start.run .transparent [hello,
    finished, .receive (shortPacket 0 [0x0a, 0, 2, 7, 7]) 3,
    .receive (shortPacket 1 [0x0e, 0, 1, 2, 7, 7]) 4]) (start_reaches _)
    (by decide +kernel) (by decide +kernel)
  rw [← counted.1]
  decide +kernel

/-- A fragment past the stream's limit, before the handshake ends, is counted and not stored. The
end of the handshake then brings the closing connection back. -/
theorem received_miscounted : (start.run .transparent [hello,
        .receive (shortPacket 0 ([0x0c, 0] ++ quicWriteVarint 300000 ++ [7])) 2,
        finished]).conn.status.isClosing = false ∧ (start.run .transparent [hello,
        .receive (shortPacket 0 ([0x0c, 0] ++ quicWriteVarint 300000 ++ [7])) 2,
        finished]).conn.receivedBytes = 300001 ∧ (start.run .transparent [hello,
        .receive (shortPacket 0 ([0x0c, 0] ++ quicWriteVarint 300000 ++ [7])) 2,
        finished]).conn.tally QUICStream.highWater = 0 := by
  decide +kernel

/-- In every run in which RESET_STREAM frames name final sizes within the limit of their stream, no
stream is used past its limit. -/
theorem highWater_within_limit (w : World) (reachable : Reachable P w)
    (resets : ∀ mark ∈ w.conn.history, mark.ResetInLimit) (id : Nat) (s : QUICStream)
    (live : w.conn.streams.lookup id = some s) : s.receive.highWater ≤ s.receive.limit := by
  obtain ⟨start, initial, chain⟩ := reachable.chain
  have none : start.InLimits := by
    unfold Ledger.InLimits
    rw [initial.streams]
    exact Table.Each.empty
  exact Ledger.machine_inLimits chain resets none id s live

/-- A fragment and then a reset of the stream. -/
theorem highWater_within_limit_reset : ∃ s, (start.run .transparent [hello, finished,
        .receive (shortPacket 0 [0x0a, 0, 1, 7]) 3,
        .receive (shortPacket 1 [4, 0, 0, 9]) 4]).conn.streams.lookup 0 = some s ∧
      s.receive.highWater ≤ s.receive.limit := by
  have live : ((start.run .transparent [hello, finished, .receive (shortPacket 0 [0x0a, 0, 1, 7]) 3,
        .receive (shortPacket 1 [4, 0, 0, 9]) 4]).conn.streams.lookup 0).isSome = true := by
    decide +kernel
  obtain ⟨s, found⟩ := Option.isSome_iff_exists.mp live
  exact ⟨s, found, highWater_within_limit .transparent _ (start_reaches _) (by decide +kernel) 0 s found⟩

/-- A RESET_STREAM with a final size past the stream's limit is accepted. -/
theorem reset_exceeds_limit : (start.run .transparent [hello, finished,
        .receive (shortPacket 0 ([4, 0, 0] ++ quicWriteVarint 300000)) 3]).conn.status = .connected ∧
      ((start.run .transparent [hello, finished,
        .receive (shortPacket 0 ([4, 0, 0] ++ quicWriteVarint 300000)) 3]).conn.streams.lookup
          0).map (fun s => (s.receive.highWater, s.receive.limit)) = some (300000, 262144) := by
  decide +kernel

end World
end AvianCore.Quic
