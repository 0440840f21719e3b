import AvianCore.Quic.Acknowledged
import AvianCore.Quic.Lifecycle
import AvianCore.Quic.Refine.Upkeep

/-!
How many streams a client can have. Every stream of a kind up to the highest index used is live or
retired, and each retirement grants one more, so the live ones stay within the initial limit.
-/

namespace AvianCore.Quic
open AvianCore.Lib List

def QUICStreamKind.ofClient (unidirectional : Bool) (id : Nat) : Bool :=
  isClientInitiated id && isUnidirectional id == unidirectional

open QUICStreamKind

theorem QUICStreamKind.isClientInitiated_id (index : Nat) (server unidirectional : Bool) :
    isClientInitiated (QUICStreamKind.id index server unidirectional) = !server := by
  have odd := isServerInitiated_iff (QUICStreamKind.id index server unidirectional)
  have even := isClientInitiated_iff (QUICStreamKind.id index server unidirectional)
  rw [isServerInitiated_id] at odd
  rw [Bool.eq_iff_iff, even]
  cases server <;> simp at odd ⊢ <;> omega

namespace Standing

def liveCount (a : Standing) (unidirectional : Bool) : Nat := a.live.countP (ofClient unidirectional)

def retiredCount (a : Standing) (unidirectional : Bool) : Nat := a.retired.countP (ofClient unidirectional)

/-- The books of the client's streams, for the limits that it was given at first. -/
structure Counted (initial : Bool → Nat) (a : Standing) : Prop where
  known : ∀ id ∈ a.live, QUICStreamKind.isClientInitiated id = true →
    (QUICStreamKind.index id : Int) ≤ (a.highest (QUICStreamKind.isUnidirectional id)).val
  total : ∀ unidirectional, (a.liveCount unidirectional + a.retiredCount unidirectional : Int) =
    (a.highest unidirectional).val + 1
  granted : ∀ unidirectional,
    a.localMax unidirectional = initial unidirectional + a.retiredCount unidirectional
  within : ∀ unidirectional, (a.highest unidirectional).val < a.localMax unidirectional

variable {P : Primitives} {initial : Bool → Nat} {a b : Standing}

theorem Counted.same (counted : Counted initial a) (live : b.live = a.live)
    (retired : b.retired = a.retired) (highest : ∀ u, b.highest u = a.highest u)
    (localMax : ∀ u, b.localMax u = a.localMax u) : Counted initial b where
  known := by
    intro id member client
    rw [highest]
    exact counted.known id (live ▸ member) client
  total u := by
    unfold liveCount retiredCount
    rw [live, retired, highest]
    exact counted.total u
  granted u := by
    unfold retiredCount
    rw [localMax, retired]
    exact counted.granted u
  within u := by
    rw [localMax, highest]
    exact counted.within u

theorem Counted.fresh (counted : Counted initial a) (u : Bool) : a.nextIncoming u ∉ a.live := by
  intro member
  have below := counted.known _ member (by
    rw [nextIncoming, isClientInitiated_id]
    rfl)
  rw [nextIncoming, index_id, isUnidirectional_id] at below
  have property := (a.highest u).property
  omega

theorem highest_name (a : Standing) (u v : Bool) :
    ((a.apply P (.name u)).highest v).val = (a.highest v).val + if u = v then 1 else 0 := by
  cases u <;> cases v <;> simp [apply, highest]

theorem live_name (a : Standing) (u : Bool) :
    (a.apply P (.name u)).live = a.nextIncoming u :: a.live.erase (a.nextIncoming u) := by
  cases u <;> rfl

theorem Counted.name (counted : Counted initial a) (u : Bool) (enabled : a.Enabled (.name u)) :
    Counted initial (a.apply P (.name u)) := by
  have live : (a.apply P (.name u)).live = a.nextIncoming u :: a.live := by
    rw [live_name, erase_of_not_mem (counted.fresh u)]
  have retired : (a.apply P (.name u)).retired = a.retired := by cases u <;> rfl
  have localMax : ∀ v, (a.apply P (.name u)).localMax v = a.localMax v := by
    intro v
    cases u <;> rfl
  have property := (a.highest u).property
  constructor
  · intro id member client
    rw [live] at member
    rw [highest_name]
    rcases mem_cons.mp member with rfl | older
    · rw [nextIncoming, index_id, isUnidirectional_id, if_pos rfl]
      omega
    · have before := counted.known id older client
      split <;> omega
  · intro v
    have before := counted.total v
    unfold liveCount retiredCount at before ⊢
    rw [live, retired, highest_name, countP_cons]
    have kind : ofClient v (a.nextIncoming u) = (u == v) := by
      rw [ofClient, nextIncoming, isClientInitiated_id, isUnidirectional_id]
      rfl
    rw [kind]
    by_cases same : u = v
    · rw [if_pos same, if_pos (beq_iff_eq.mpr same)]
      omega
    · rw [if_neg same, if_neg (by simpa using same)]
      omega
  · intro v
    unfold retiredCount
    rw [localMax, retired]
    exact counted.granted v
  · intro v
    rw [localMax, highest_name]
    have before := counted.within v
    split
    next same =>
      subst same
      exact enabled
    · omega

theorem Counted.openLocal (counted : Counted initial a) (u : Bool) : Counted initial (a.apply P (.openLocal u)) := by
  have live : ∃ id, isClientInitiated id = false ∧ (a.apply P (.openLocal u)).live = id :: a.live.erase id := by
    cases u <;> exact ⟨_, isClientInitiated_id _ true _, rfl⟩
  obtain ⟨id, server, live⟩ := live
  have retired : (a.apply P (.openLocal u)).retired = a.retired := by cases u <;> rfl
  have highest : ∀ v, (a.apply P (.openLocal u)).highest v = a.highest v := by
    intro v
    cases u <;> rfl
  have localMax : ∀ v, (a.apply P (.openLocal u)).localMax v = a.localMax v := by
    intro v
    cases u <;> rfl
  constructor
  · intro other member client
    rw [live] at member
    rw [highest]
    rcases mem_cons.mp member with rfl | older
    · cases server.symm.trans client
    · exact counted.known other (mem_of_mem_erase older) client
  · intro v
    have before := counted.total v
    have other : ofClient v id = false := by rw [ofClient, server, Bool.false_and]
    unfold liveCount retiredCount at before ⊢
    rw [live, retired, highest, countP_cons, other, countP_erase, other]
    simpa using before
  · intro v
    unfold retiredCount
    rw [localMax, retired]
    exact counted.granted v
  · intro v
    rw [localMax, highest]
    exact counted.within v

theorem localMax_retire (a : Standing) (id : Nat) (v : Bool) :
    (a.apply P (.retire id)).localMax v = a.localMax v + if ofClient v id then 1 else 0 := by
  unfold ofClient
  simp only [apply, localMax]
  cases client : isClientInitiated id <;>
    cases kind : isUnidirectional id <;> cases v <;> simp

theorem Counted.retire (counted : Counted initial a) (id : Nat) (live : id ∈ a.live) :
    Counted initial (a.apply P (.retire id)) := by
  have gone : ∀ v, (a.apply P (.retire id)).retiredCount v =
      a.retiredCount v + if ofClient v id then 1 else 0 := fun v => countP_cons
  have left : ∀ v, a.liveCount v = (a.apply P (.retire id)).liveCount v + if ofClient v id then 1 else 0 := by
    intro v
    unfold liveCount
    rw [(perm_cons_erase live).countP_eq, countP_cons]
    rfl
  have highest : ∀ v, (a.apply P (.retire id)).highest v = a.highest v := fun v => rfl
  constructor
  · intro other member client
    exact counted.known other (mem_of_mem_erase member) client
  · intro v
    have before := counted.total v
    have count := left v
    rw [gone, highest]
    omega
  · intro v
    have before := counted.granted v
    rw [localMax_retire, gone]
    omega
  · intro v
    have before := counted.within v
    rw [localMax_retire, highest]
    omega

theorem Counted.apply (counted : Counted initial a) (act : Act) (enabled : a.Enabled act) :
    Counted initial (a.apply P act) := by
  cases act with
  | name u => exact counted.name u enabled
  | openLocal u => exact counted.openLocal u
  | retire id => exact counted.retire id enabled
  | grantStreams u limit => cases u <;> exact counted.same rfl rfl (fun v => rfl) fun v => by cases v <;> rfl
  | _ => exact counted.same rfl rfl (fun _ => rfl) fun _ => rfl

theorem Counted.bounded (counted : Counted initial a) (u : Bool) : a.liveCount u ≤ initial u := by
  have total := counted.total u
  have granted := counted.granted u
  have within := counted.within u
  omega

end Standing

def QUICServerConfig.initialMaxStreams (config : QUICServerConfig) (unidirectional : Bool) : Nat :=
  if unidirectional then config.initialMaxStreamsUni else config.initialMaxStreamsBidi

namespace QUICConnection

def liveOfClient (c : QUICConnection) (unidirectional : Bool) : Nat := c.streams.keys.countP (ofClient unidirectional)

def retiredOfClient (c : QUICConnection) (unidirectional : Bool) : Nat :=
  (c.history.filterMap Mark.retiredID).countP (ofClient unidirectional)

end QUICConnection

namespace World
variable {P : Primitives}

theorem Fresh.counted {start : World} (fresh : Fresh P start) :
    start.standing.Counted start.conn.config.initialMaxStreams := by
  obtain ⟨none, config, version, clientDCID, clientSCID, localCID, nowMs, made⟩ := fresh
  unfold QUICConnection.init at made
  obtain ⟨keys, _, built⟩ := Option.bind_eq_some_iff.mp made
  cases start with
  | mk conn handed =>
    cases built
    constructor
    · intro id member
      cases member
    · intro u
      cases u <;> rfl
    · intro u
      cases u <;> rfl
    · intro u
      cases u
      · show (-1 : Int) < (config.initialMaxStreamsBidi : Nat)
        omega
      · show (-1 : Int) < (config.initialMaxStreamsUni : Nat)
        omega

/-- In every run, the live client streams of each kind are within the configured limit, the limit granted
is that one and one more for each stream retired so far, and a retired stream does not come back. -/
theorem client_streams_bounded {start : World} (fresh : Fresh P start) (ops : List Op) : (∀ unidirectional,
      (start.run P ops).conn.liveOfClient unidirectional ≤ start.conn.config.initialMaxStreams unidirectional ∧
        (start.run P ops).conn.localMaxStreams unidirectional = start.conn.config.initialMaxStreams unidirectional +
            (start.run P ops).conn.retiredOfClient unidirectional) ∧
      ∀ id s, .retired id s ∈ (start.run P ops).conn.history →
        ∀ more, ((start.run P ops).run P more).conn.streams.lookup id = none := by
  constructor
  · intro unidirectional
    have chain : (Standing.machine P fun _ _ => True).Chain start.standing (start.run P ops).standing :=
      run_standing P start ops fun _ _ _ _ => trivial
    have counted : (start.run P ops).standing.Counted start.conn.config.initialMaxStreams :=
      Standing.machine_keeps P (fun a act enabled _ counted => counted.apply act enabled) chain fresh.counted
    exact ⟨counted.bounded unidirectional, counted.granted unidirectional⟩
  · intro id s retired more
    have grown : Ledger.machine.Chain (start.run P ops).ledger ((start.run P ops).run P more).ledger :=
      run_chain P _ more
    have still : .retired id s ∈ ((start.run P ops).run P more).conn.history := grown.grows.subset retired
    have valid : ((start.run P ops).run P more).ledger.Valid := by
      rw [← run_append]
      exact Ledger.machine_valid (run_chain P start (ops ++ more)) (fresh.initial P).valid
    exact (valid.gone id s still).2

/-- The client's stream 2 is received to its end, released and so retired. -/
def oneRetired : List Op :=
  [Client.hello, Client.finished, .receive (Client.shortPacket 0 [0x0b, 2, 1, 7]) 3, .releaseStream 2]

theorem client_streams_bounded_retired : (start.run .transparent oneRetired).conn.localMaxStreams true = 129 ∧
      (start.run .transparent oneRetired).conn.retiredOfClient true = 1 ∧
      (start.run .transparent oneRetired).conn.liveOfClient true ≤ 128 := by
  obtain ⟨bounds, -⟩ := client_streams_bounded start_fresh oneRetired
  have configured : start.conn.config.initialMaxStreams true = 128 := by decide +kernel
  have one : (start.run .transparent oneRetired).conn.retiredOfClient true = 1 := by decide +kernel
  obtain ⟨live, granted⟩ := bounds true
  rw [configured] at live
  rw [configured, one] at granted
  exact ⟨granted, one, live⟩

/-- In every reachable state: what is in flight, acknowledged or given up was sent before, with no byte that its stream
had not sent; and a stream that was opened is live or retired, and never both. -/
theorem books_balance {w : World} (reachable : Reachable P w) : w.ledger.Sound ∧ w.ledger.Traced := by
  obtain ⟨start, initial, chain⟩ := reachable.chain
  refine ⟨?_, (Ledger.machine_valid chain initial.valid).toTraced⟩
  exact Ledger.machine_keeps chain (fun _ _ effect _ => effect.sound) (fun _ _ _ begins => begins.sound)
    (fun _ _ _ ends => ends.sound) (fun _ _ => trivial) initial.sound

theorem books_balance_retired : (start.run .transparent oneRetired).ledger.Sound ∧
    (start.run .transparent oneRetired).ledger.Traced := books_balance (start_reaches _)

end World

end AvianCore.Quic
