import AvianCore.Quic.Refine.Run
import AvianCore.Quic.Sound

/-!
Sums over the streams a connection has and had. A stream that is retired goes from the table to
the history with what it came to, so its share of the sum stays.
-/

namespace AvianCore.Quic
open AvianCore.Lib

def Mark.retiredStream : Mark → Option QUICStream
  | .retired _ s => some s
  | _ => none

def retiredStreams (history : List Mark) : List QUICStream := history.filterMap Mark.retiredStream

def QUICConnection.tally (weight : QUICStream → Nat) (c : QUICConnection) : Nat :=
  c.streams.total (fun _ s => weight s) + ((retiredStreams c.history).map weight).sum

namespace Ledger

def tally (weight : QUICStream → Nat) (a : Ledger) : Nat :=
  a.flow.streams.total (fun _ s => weight s) + ((retiredStreams a.history).map weight).sum

variable {weight : QUICStream → Nat} {a b : Ledger}

theorem Initial.tally (initial : a.Initial) : a.tally weight = 0 := by
  rw [Ledger.tally, initial.streams, initial.history]
  rfl

theorem retired_charge (a : Ledger) (growth : Nat) :
    retiredStreams (a.charge growth).history = retiredStreams a.history := by
  unfold charge
  split_ifs <;> rfl

theorem tally_same (streams : b.flow.streams = a.flow.streams)
    (retired : retiredStreams b.history = retiredStreams a.history) :
    b.tally weight = a.tally weight := by
  unfold tally
  rw [streams, retired]

theorem tally_put (weight : QUICStream → Nat) {id : Nat} {s s' : QUICStream} (live : a.flow.streams.lookup id = some s)
    (streams : b.flow.streams = a.flow.streams.modify id fun _ => s')
    (retired : retiredStreams b.history = retiredStreams a.history) :
    b.tally weight + weight s = a.tally weight + weight s' := by
  have moved := Table.total_modify a.flow.streams (fun _ s => weight s) id (fun _ => s') s live
  unfold tally
  rw [streams, retired]
  omega

theorem tally_opens (sound : a.Sound) {id : Nat} {s : QUICStream} (opens : a.flow.Opens b.flow id s) (empty : weight s = 0)
    (retired : retiredStreams b.history = retiredStreams a.history) :
    b.tally weight = a.tally weight := by
  have absent : a.flow.streams.lookup id = none := by
    cases live : a.flow.streams.lookup id with
    | none => rfl
    | some t => exact absurd (sound.opened id t live) opens.fresh
  unfold tally
  rw [opens.streams, retired, Table.total_insert_fresh _ _ _ _ absent, empty, Nat.zero_add]

theorem tally_retire {id : Nat} {s : QUICStream} (live : a.flow.streams.lookup id = some s)
    (streams : b.flow.streams = a.flow.streams.erase id)
    (retired : b.history = .retired id s :: a.history) : b.tally weight = a.tally weight := by
  have split := Table.total_erase a.flow.streams (fun _ s => weight s) id s live
  have kept : retiredStreams b.history = s :: retiredStreams a.history := by
    rw [retired]
    rfl
  unfold tally
  rw [streams, kept, List.map_cons, List.sum_cons]
  omega

theorem tally_adopt (peer : QUICTransportParameters)
    (blind : ∀ s : QUICStream, ∀ limit, weight { s with send := { s.send with limit := limit } } = weight s)
    (streams : b.flow.streams = (a.flow.adopt peer).streams)
    (retired : retiredStreams b.history = retiredStreams a.history) :
    b.tally weight = a.tally weight := by
  have kept : (a.flow.adopt peer).streams.total (fun _ s => weight s) = a.flow.streams.total fun _ s => weight s := by
    apply Table.total_mapValues_same _ _ fun _ s => weight s
    intro id s
    split_ifs
    · exact blind s _
    · rfl
  unfold tally
  rw [streams, retired, kept]

end Ledger
end AvianCore.Quic
