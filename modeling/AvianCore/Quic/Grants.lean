import AvianCore.Quic.Lifecycle
import AvianCore.Quic.Acknowledged
import AvianCore.Quic.Messages
import AvianCore.Quic.Refine.Upkeep

/-!
The limits that the peer grants. Frames only raise them; completing the handshake replaces the limits of
the connection by those of the transport parameters, which lowers them if a frame has granted more.
-/

namespace AvianCore.Quic
open AvianCore.Lib Quic.Flow Option QUICConnection AList

namespace Ledger

/-- What becomes of the streams of a ledger: none comes back, and none has its limit lowered. -/
structure Raised (a b : Ledger) : Prop where
  opened : ∀ id, a.flow.Opened id → b.flow.Opened id
  stays : ∀ id, a.flow.Opened id → b.flow.streams.lookup id ≠ none → a.flow.streams.lookup id ≠ none
  limits : ∀ id s s', a.flow.streams.lookup id = some s → b.flow.streams.lookup id = some s' →
    s.send.limit ≤ s'.send.limit

theorem Raised.trans {a b c : Ledger} (traced : a.Traced) (first : Raised a b) (second : Raised b c) : Raised a c where
  opened id opened := second.opened id (first.opened id opened)
  stays id opened there := first.stays id opened (second.stays id (first.opened id opened) there)
  limits := by
    intro id s s' before after
    have opened := traced.live id (by rw [before]; exact nofun)
    have there := second.stays id (first.opened id opened) (by rw [after]; exact nofun)
    obtain ⟨middle, between⟩ := ne_none_iff_exists'.mp there
    exact (first.limits id s middle before between).trans (second.limits id middle s' between after)

variable {a b : Ledger}

theorem Raised.same (opened : ∀ id, b.flow.Opened id ↔ a.flow.Opened id) (streams : b.flow.streams = a.flow.streams) :
    Raised a b where
  opened id := (opened id).mpr
  stays id _ there := streams ▸ there
  limits id s s' before after := by
    rw [streams, before, Option.some.injEq] at after
    rw [after]

theorem Raised.put {id : Nat} {s s' : QUICStream} (opened : ∀ id, b.flow.Opened id ↔ a.flow.Opened id)
    (streams : b.flow.streams = (a.flow.put id s').streams) (live : a.flow.streams.lookup id = some s)
    (raises : s.send.limit ≤ s'.send.limit) : Raised a b where
  opened id := (opened id).mpr
  stays other _ there := by
    rw [streams] at there
    exact mt (put_lookup_none a.flow id other s').mpr there
  limits other t t' before after := by
    rw [streams, Flow.put, Table.lookup_modify] at after
    by_cases same : other = id
    · subst same
      rw [if_pos rfl, live, map_some, Option.some.injEq] at after
      rw [live, Option.some.injEq] at before
      rw [← before, ← after]
      exact raises
    · rw [if_neg same, before, Option.some.injEq] at after
      rw [after]

theorem Raised.opens {new : Nat} {s : QUICStream} (opens : a.flow.Opens b.flow new s) (traced : a.Traced) :
    Raised a b where
  opened id known := (opens.opened id).mpr (.inr known)
  stays id known there := by
    have differs : id ≠ new := fun same => opens.fresh (same ▸ known)
    rw [opens.streams, lookup_insert_ne differs] at there
    exact there
  limits id t t' before after := by
    have differs : id ≠ new := by
      rintro rfl
      exact opens.fresh (traced.live id (by simp [before]))
    rw [opens.streams, lookup_insert_ne differs, before, Option.some.injEq] at after
    rw [after]

theorem Carried.limit {f : Flow} {send send' : QUICSendStream} {sentBytes : Nat}
    (carried : Carried f send send' sentBytes) : send'.limit = send.limit := by
  cases carried <;> rfl

theorem Effect.raised (effect : Effect a b) (traced : a.Traced) : Raised a b := by
  cases effect
  case completed =>
    constructor
    · exact fun _ opened => opened
    · intro id _ there
      simpa [adopt, Table.lookup_mapValues] using there
    · intro id s s' before after
      simp only [adopt, Table.lookup_mapValues, before, map_some, Option.some.injEq] at after
      rw [← after]
      split
      · exact le_max_left _ _
      · exact le_rfl
  case openIncoming kind => exact .opens (openIncoming_opens a.flow kind) traced
  case openLocal kind => exact .opens (openLocal_opens a.flow kind) traced
  case retire old s live =>
    constructor
    · exact fun _ opened => opened
    · intro id _ there absent
      apply there
      show (a.flow.streams.erase old).lookup id = none
      by_cases same : id = old
      · rw [same]
        exact lookup_erase _ _
      · rw [lookup_erase_ne same]
        exact absent
    · intro id t t' before after
      have after : (a.flow.streams.erase old).lookup id = some t' := after
      by_cases same : id = old
      · rw [same, lookup_erase] at after
        cases after
      · rw [lookup_erase_ne same, before, Option.some.injEq] at after
        rw [after]
  case stream id s s' marks live step =>
    obtain ⟨writable, writableSet, same⟩ := markIf_eq (a.flow.put id s') marks id
    rw [same]
    have raises : s.send.limit ≤ s'.send.limit := by
      rcases step.sendLimit with equal | ⟨raised, -⟩
      · exact equal.ge
      · exact raised
    exact Raised.put (fun _ => Iff.rfl) rfl live raises
  case markWritable id =>
    obtain ⟨writable, writableSet, same⟩ := markWritable_eq a.flow id
    rw [same]
    exact Raised.same (fun _ => Iff.rfl) rfl
  case data id s s' growth live affords grows within limit announced rest =>
    have raises : s.send.limit ≤ s'.send.limit := by rw [rest]
    unfold charge
    split <;> exact Raised.put (fun _ => Iff.rfl) rfl live raises
  case resetReceived id s s' finalSize live enough affords grows limit announced rest =>
    have raises : s.send.limit ≤ s'.send.limit := by rw [rest]
    unfold charge
    split <;> exact Raised.put (fun _ => Iff.rfl) rfl live raises
  case overcharge growth closing =>
    unfold charge
    split <;> exact Raised.same (fun _ => Iff.rfl) rfl
  case turn id s s' room sentBytes stays reset live connected turned same =>
    have raises : s.send.limit ≤ s'.send.limit := (Carried.limit turned.carried).ge
    cases stays <;> exact Raised.put (fun _ => Iff.rfl) rfl live raises
  all_goals exact Raised.same (fun _ => Iff.rfl) rfl

theorem machine_raised (run : machine.Chain a b) (valid : a.Valid) : Raised a b := by
  have both : b.Valid ∧ Raised a b := by
    apply machine_keeps (I := fun b => b.Valid ∧ Raised a b) run
    · intro s t effect _ holds
      exact ⟨⟨effect.sane holds.1.toSane, effect.traced holds.1.toTraced⟩,
        holds.2.trans valid.toTraced (effect.raised holds.1.toTraced)⟩
    · intro key s t begins holds
      have step : Raised s t := by
        cases begins
        exact Raised.same (fun _ => Iff.rfl) rfl
      exact ⟨begins.valid holds.1, holds.2.trans valid.toTraced step⟩
    · intro key s t ends holds
      have step : Raised s t := by cases ends <;> exact Raised.same (fun _ => Iff.rfl) rfl
      exact ⟨⟨ends.sane holds.1.toSane, ends.traced holds.1.toTraced⟩, holds.2.trans valid.toTraced step⟩
    · exact fun _ _ => (trivial : True)
    · exact ⟨valid, Raised.same (fun _ => Iff.rfl) rfl⟩
  exact both.2

end Ledger

namespace Standing

/-- No limit of the connection is lower than before. -/
structure Higher (a b : Standing) : Prop where
  data : a.sendLimit ≤ b.sendLimit
  streams : ∀ unidirectional, a.peerMax unidirectional ≤ b.peerMax unidirectional

theorem Higher.refl (a : Standing) : Higher a a := ⟨le_rfl, fun _ => le_rfl⟩

theorem Higher.trans {a b c : Standing} (first : Higher a b) (second : Higher b c) : Higher a c where
  data := first.data.trans second.data
  streams u := (first.streams u).trans (second.streams u)

def offeredStreams (parameters : QUICTransportParameters) (unidirectional : Bool) : Nat :=
  if unidirectional then parameters.initialMaxStreamsUni else parameters.initialMaxStreamsBidi

/-- The limits of the connection are within what the transport parameters offer. -/
structure Within (a : Standing) (parameters : QUICTransportParameters) : Prop where
  data : a.sendLimit ≤ parameters.initialMaxData
  streams : ∀ unidirectional, a.peerMax unidirectional ≤ offeredStreams parameters unidirectional

/-- Until the handshake is complete, a frame grants no more than the client's parameters do. -/
def modestly (stage : Stage) : Act → Prop
  | .grantData limit => stage.complete = false → limit ≤ stage.tls.peerParameters.initialMaxData
  | .grantStreams unidirectional limit => stage.complete = false →
      limit ≤ offeredStreams stage.tls.peerParameters unidirectional
  | _ => True

/-- Before the handshake is complete, or has failed, the limits are within what is offered; before the
ClientHello nothing is. -/
structure Modest (a : Standing) : Prop where
  within : a.complete = false → a.tls.state ≠ .failed → Within a a.tls.peerParameters
  unheard : a.tls.state = .waitingClientHello → a.tls.peerParameters = {}

variable {a : Standing}

theorem Within.widen (within : Within a {}) (parameters : QUICTransportParameters) : Within a parameters where
  data := within.data.trans (Nat.zero_le _)
  streams u := by
    have none : offeredStreams {} u = 0 := by cases u <;> rfl
    exact ((within.streams u).trans_eq none).trans (Nat.zero_le _)

theorem Modest.same {a b : Standing} (modest : Modest a) (complete : b.complete = a.complete)
    (state : b.tls.state = a.tls.state) (parameters : b.tls.peerParameters = a.tls.peerParameters)
    (data : b.sendLimit = a.sendLimit) (streams : ∀ u, b.peerMax u = a.peerMax u) :
    Modest b ∧ Higher a b := by
  refine ⟨⟨fun open' going => ?_, fun waiting => ?_⟩, ⟨data.ge, fun u => (streams u).ge⟩⟩
  · rw [complete] at open'
    rw [state] at going
    rw [parameters]
    have within := modest.within open' going
    exact ⟨data ▸ within.data, fun u => streams u ▸ within.streams u⟩
  · rw [state] at waiting
    rw [parameters]
    exact modest.unheard waiting

variable {P : Primitives}

theorem Modest.feed (modest : Modest a) (level : QUICLevel) (p : Bytes) : Modest (a.apply P (.feed level p)) := by
  have heard := TLSServerHandshake.hears_receive P a.tls p level
  constructor
  · intro open' going
    have going : (a.tls.receive P p level).state ≠ .failed := going
    by_cases failed : a.tls.state = .failed
    · rw [TLSServerHandshake.receive_failed P failed] at going
      exact absurd failed going
    have within := modest.within open' failed
    by_cases waiting : a.tls.state = .waitingClientHello
    · rw [modest.unheard waiting] at within
      have wider := within.widen (a.tls.receive P p level).peerParameters
      exact ⟨wider.data, wider.streams⟩
    · rw [← heard.parameters waiting] at within
      exact ⟨within.data, within.streams⟩
  · intro waiting
    obtain ⟨before, same⟩ := heard.waiting waiting
    exact same.trans (modest.unheard before)

theorem Modest.grantData (modest : Modest a) (limit : Nat)
    (allowed : a.complete = false → limit ≤ a.tls.peerParameters.initialMaxData) :
    Modest (a.apply P (.grantData limit)) ∧ Higher a (a.apply P (.grantData limit)) := by
  refine ⟨⟨fun open' going => ?_, modest.unheard⟩, ⟨le_max_left _ _, fun u => le_rfl⟩⟩
  have within := modest.within open' going
  exact ⟨max_le within.data (allowed open'), within.streams⟩

theorem peerMax_grantStreams (a : Standing) (u v : Bool) (limit : Nat) : (a.apply P (.grantStreams u limit)).peerMax v =
    if u = v then max (a.peerMax v) limit else a.peerMax v := by
  cases u <;> cases v <;> rfl

theorem Modest.grantStreams (modest : Modest a) (u : Bool) (limit : Nat)
    (allowed : a.complete = false → limit ≤ offeredStreams a.tls.peerParameters u) :
    Modest (a.apply P (.grantStreams u limit)) ∧ Higher a (a.apply P (.grantStreams u limit)) := by
  have stage : (a.apply P (.grantStreams u limit)).toStage = a.toStage := by cases u <;> rfl
  have data : (a.apply P (.grantStreams u limit)).sendLimit = a.sendLimit := by cases u <;> rfl
  refine ⟨⟨fun open' going => ?_, fun waiting => ?_⟩, ⟨data.ge, fun v => ?_⟩⟩
  · rw [stage] at open' going ⊢
    have within := modest.within open' going
    refine ⟨data ▸ within.data, fun v => ?_⟩
    rw [peerMax_grantStreams]
    split
    next same =>
      subst same
      exact max_le (within.streams u) (allowed open')
    · exact within.streams v
  · rw [stage] at waiting ⊢
    exact modest.unheard waiting
  · rw [peerMax_grantStreams]
    split
    · exact le_max_left _ _
    · exact le_rfl

theorem Modest.completed (modest : Modest a) (enabled : a.Enabled .completed) :
    Modest (a.apply P .completed) ∧ Higher a (a.apply P .completed) := by
  obtain ⟨state, open'⟩ := enabled
  have within := modest.within open' (by rw [state]; exact nofun)
  refine ⟨⟨fun impossible => (nomatch impossible), modest.unheard⟩, ⟨within.data, fun u => ?_⟩⟩
  cases u
  · exact within.streams false
  · exact within.streams true

theorem Modest.apply (modest : Modest a) (act : Act) (enabled : a.Enabled act)
    (allowed : act.Brought → modestly a.toStage act) :
    Modest (a.apply P act) ∧ Higher a (a.apply P act) := by
  cases act with
  | feed level p => exact ⟨modest.feed level p, ⟨le_rfl, fun _ => le_rfl⟩⟩
  | handOut => exact modest.same rfl rfl rfl rfl fun _ => rfl
  | completed => exact modest.completed enabled
  | validate => exact modest.same rfl rfl rfl rfl fun _ => rfl
  | grantData limit => exact modest.grantData limit (allowed trivial)
  | grantStreams u limit => exact modest.grantStreams u limit (allowed trivial)
  | name u | openLocal u => cases u <;> exact modest.same rfl rfl rfl rfl fun _ => rfl
  | retire id =>
    refine modest.same rfl rfl rfl rfl fun u => ?_
    simp only [Standing.apply, peerMax]
    split_ifs <;> rfl
  | announce event carried => exact modest.same rfl rfl rfl rfl fun _ => rfl

theorem machine_higher {a b : Standing} (chain : (machine P modestly).Chain a b) (modest : Modest a) :
    Modest b ∧ Higher a b :=
  machine_keeps P (I := fun b => Modest b ∧ Higher a b) (fun _ act enabled allowed holds =>
      have next := holds.1.apply act enabled allowed
      ⟨next.1, holds.2.trans next.2⟩)
    chain ⟨modest, Higher.refl a⟩

end Standing

/-- A frame that grants no more than the client's transport parameters, if the handshake is not complete. -/
def Meeting.Modest (m : Meeting) : Prop :=
  m.conn.handshakeComplete = false →
    (m.type = .maxData → ∀ limit, m.reader.varint.map Prod.fst = some limit →
      limit ≤ m.conn.tls.peerParameters.initialMaxData) ∧
    ∀ unidirectional, m.type = (if unidirectional then .maxStreamsUni else .maxStreamsBidi) →
      ∀ limit, (readStreamLimit m.reader).map Prod.fst = some limit →
        limit ≤ Standing.offeredStreams m.conn.tls.peerParameters unidirectional

theorem Meeting.Modest.allowed {m : Meeting} (modest : m.Modest) {act : Act} (brings : m.Brings act) :
    Standing.modestly m.conn.stage act := by
  cases act with
  | grantData limit => exact fun open' => (modest open').1 brings.1 limit brings.2
  | grantStreams u limit => exact fun open' => (modest open').2 u brings.1 limit brings.2
  | _ => trivial

namespace World
variable {P : Primitives}

theorem Fresh.modest {start : World} (fresh : Fresh P start) : start.standing.Modest := by
  obtain ⟨none, config, version, clientDCID, clientSCID, localCID, nowMs, made⟩ := fresh
  unfold init at made
  obtain ⟨keys, _, built⟩ := bind_eq_some_iff.mp made
  cases start with
  | mk conn handed =>
    cases built
    exact ⟨fun _ _ => ⟨le_rfl, fun u => by cases u <;> exact le_rfl⟩, fun _ => rfl⟩

theorem runMeetings_append (w : World) (ops more : List Op) :
    w.runMeetings P (ops ++ more) = w.runMeetings P ops ++ (w.run P ops).runMeetings P more := by
  induction ops generalizing w with
  | nil => rfl
  | cons op rest ih =>
    show w.meetings P op ++ (w.step P op).runMeetings P (rest ++ more) = _
    rw [ih, ← List.append_assoc]
    rfl

/-- In a run whose frames grant no more than the client's transport parameters before the handshake is
complete, no limit that the peer granted is ever lowered. -/
theorem limits_never_fall {start : World} (fresh : Fresh P start) (ops more : List Op)
    (modest : ∀ m ∈ start.runMeetings P (ops ++ more), m.Modest) :
    let before := (start.run P ops).conn
    let after := (start.run P (ops ++ more)).conn
    before.sendLimit ≤ after.sendLimit ∧ before.peerMaxStreamsBidi ≤ after.peerMaxStreamsBidi ∧
      before.peerMaxStreamsUni ≤ after.peerMaxStreamsUni ∧
      ∀ id s s', before.streams.lookup id = some s → after.streams.lookup id = some s' →
        s.send.limit ≤ s'.send.limit := by
  rw [runMeetings_append] at modest
  rw [run_append]
  have early : (Standing.machine P Standing.modestly).Chain start.standing
      (start.run P ops).standing := run_standing P start ops
    fun m met act brings => (modest m (List.mem_append_left _ met)).allowed brings
  have late : (Standing.machine P Standing.modestly).Chain (start.run P ops).standing
      ((start.run P ops).run P more).standing := run_standing P (start.run P ops) more
    fun m met act brings => (modest m (List.mem_append_right _ met)).allowed brings
  have higher := (Standing.machine_higher late (Standing.machine_higher early fresh.modest).1).2
  have valid := Ledger.machine_valid (run_chain P start ops) (fresh.initial P).valid
  have raised := Ledger.machine_raised (run_chain P (start.run P ops) more) valid
  exact ⟨higher.data, higher.streams false, higher.streams true, raised.limits⟩

def allModest (meetings : List Meeting) : Bool :=
  meetings.all fun m => m.conn.handshakeComplete ||
    ((m.type != .maxData || m.reader.varint.all fun read =>
        decide (read.1 ≤ m.conn.tls.peerParameters.initialMaxData)) &&
      [false, true].all fun unidirectional =>
        m.type != (if unidirectional then .maxStreamsUni else .maxStreamsBidi) ||
          (readStreamLimit m.reader).all fun read =>
            decide (read.1 ≤ Standing.offeredStreams m.conn.tls.peerParameters unidirectional))

theorem modest_of_allModest {meetings : List Meeting} (all : allModest meetings = true) : ∀ m ∈ meetings, m.Modest := by
  intro m member open'
  have one := List.all_eq_true.mp all m member
  rw [open', Bool.false_or, Bool.and_eq_true] at one
  obtain ⟨data, streams⟩ := one
  constructor
  · intro type limit read
    obtain ⟨pair, found, rfl⟩ := map_eq_some_iff.mp read
    rw [type, found] at data
    simpa using data
  · intro unidirectional type limit read
    obtain ⟨pair, found, rfl⟩ := map_eq_some_iff.mp read
    have kind := List.all_eq_true.mp streams unidirectional (by cases unidirectional <;> decide)
    rw [type, found] at kind
    simpa using kind

/-- A client that grants 200 bytes before its Finished, and 1000 after it. -/
def earlyGrant : List Op := [Client.hello, .nextDatagram 1200 1, .receive (Client.shortPacket 0 [0x10, 0x40, 200]) 2]

def lateGrant : List Op := [Client.finished, .receive (Client.shortPacket 1 [0x10, 0x43, 0xE8]) 3]

theorem limits_never_fall_early : (start.run .transparent earlyGrant).conn.sendLimit = 200 ∧
      200 ≤ (start.run .transparent (earlyGrant ++ lateGrant)).conn.sendLimit := by
  have all : allModest (start.runMeetings .transparent (earlyGrant ++ lateGrant)) = true := by decide +kernel
  have limit : (start.run .transparent earlyGrant).conn.sendLimit = 200 := by decide +kernel
  obtain ⟨data, -, -, -⟩ := limits_never_fall start_fresh earlyGrant lateGrant (modest_of_allModest all)
  rw [limit] at data
  exact ⟨limit, data⟩

/-- A client whose parameters grant 256 bytes and ten streams of each kind, and that grants 1000 bytes and
twenty streams of each kind in a packet which comes before its Finished: the Finished lowers all three
limits. -/
theorem completion_lowers_limits :
    let before := (start.run .transparent [Client.hello, .nextDatagram 1200 1,
      .receive (Client.shortPacket 0 [0x10, 0x43, 0xE8, 0x12, 20, 0x13, 20]) 2]).conn
    let after := (start.run .transparent [Client.hello, .nextDatagram 1200 1,
      .receive (Client.shortPacket 0 [0x10, 0x43, 0xE8, 0x12, 20, 0x13, 20]) 2, Client.finished]).conn
    before.sendLimit = 1000 ∧ before.peerMaxStreamsBidi = 20 ∧ before.peerMaxStreamsUni = 20 ∧
      after.handshakeComplete = true ∧ after.sendLimit = 256 ∧ after.peerMaxStreamsBidi = 10 ∧
      after.peerMaxStreamsUni = 10 := by
  decide +kernel

end World

end AvianCore.Quic
