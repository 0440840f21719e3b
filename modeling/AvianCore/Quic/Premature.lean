import AvianCore.Quic.Answered
import AvianCore.Quic.Refine.Upkeep

/-!
1-RTT packets that come before the handshake is complete. Their keys are there as soon as the ClientHello
has been answered, and with keys a packet is read; nothing else holds it back.
-/

namespace AvianCore.Quic
open AvianCore.Lib List

namespace Standing

/-- What the frames of 1-RTT packets bring, they bring to a complete handshake. -/
def afterwards (stage : Stage) : Act → Prop
  | .feed .. => True
  | _ => stage.complete = true

/-- Until the handshake is complete there are no streams, none may be opened, and nothing but the end of the
connection has been announced. The handshake is announced before anything else. -/
structure Quiet (a : Standing) : Prop where
  live : a.complete = false → a.live = []
  peerMax : a.complete = false → ∀ unidirectional, a.peerMax unidirectional = 0
  announced : a.complete = false → ∀ event ∈ a.announced, event.kind = .closed
  noted : a.complete = true → ∃ event ∈ a.announced, event.kind = .handshakeComplete
  first : ∀ event ∈ a.announced.takeWhile (·.kind != .handshakeComplete), event.kind = .closed

variable {P : Primitives} {a b : Standing}

theorem Quiet.later (quiet : Quiet a) (before : a.complete = true) (after : b.complete = true)
    (announced : a.announced <+: b.announced) : Quiet b := by
  have open' : b.complete = false → False := by
    intro none
    cases after.symm.trans none
  obtain ⟨event, member, kind⟩ := quiet.noted before
  refine ⟨fun none => (open' none).elim, fun none => (open' none).elim, fun none => (open' none).elim,
    fun _ => ⟨event, announced.subset member, kind⟩, ?_⟩
  obtain ⟨more, same⟩ := announced
  have stops : ¬∀ event ∈ a.announced, (event.kind != .handshakeComplete) = true := by
    intro all
    have other := all event member
    rw [kind] at other
    cases other
  rw [← same, takeWhile_append, if_neg]
  · exact quiet.first
  · intro whole
    exact stops (takeWhile_eq_self_iff.mp ((List.takeWhile_prefix _).eq_of_length whole))

theorem Quiet.same (quiet : Quiet a) (complete : b.complete = a.complete)
    (live : b.live = a.live) (peerMax : ∀ u, b.peerMax u = a.peerMax u)
    (announced : b.announced = a.announced) : Quiet b where
  live none := live.trans (quiet.live (complete ▸ none))
  peerMax none u := (peerMax u).trans (quiet.peerMax (complete ▸ none) u)
  announced none := announced ▸ quiet.announced (complete ▸ none)
  noted done := announced ▸ quiet.noted (complete ▸ done)
  first := announced ▸ quiet.first

theorem complete_apply (act : Act) (complete : a.complete = true) : (a.apply P act).complete = true := by
  cases act with
  | completed => rfl
  | grantStreams u limit | name u | openLocal u => cases u <;> exact complete
  | _ => exact complete

theorem announced_apply (act : Act) : a.announced <+: (a.apply P act).announced := by
  cases act with
  | completed | announce event carried => exact prefix_append _ _
  | grantStreams u limit | name u | openLocal u => cases u <;> exact prefix_rfl
  | _ => exact prefix_rfl

theorem Quiet.completed (quiet : Quiet a) (open' : a.complete = false) : Quiet (a.apply P .completed) where
  live none := by cases none
  peerMax none := by cases none
  announced none := by cases none
  noted _ := ⟨_, mem_append_right _ (mem_singleton.mpr rfl), rfl⟩
  first := by
    intro event member
    have kind := mem_takeWhile_imp member
    rcases mem_append.mp ((List.takeWhile_prefix _).subset member) with older | new
    · exact quiet.announced open' event older
    · rw [mem_singleton.mp new] at kind
      cases kind

theorem Quiet.closed (quiet : Quiet a) (open' : a.complete = false) {event : QUICEvent}
    (kind : event.kind = .closed) (carried : Bool) : Quiet (a.apply P (.announce event carried)) := by
  have all : ∀ other ∈ a.announced ++ [event], other.kind = .closed := by
    intro other member
    rcases mem_append.mp member with older | new
    · exact quiet.announced open' other older
    · rw [mem_singleton.mp new]
      exact kind
  refine ⟨quiet.live, quiet.peerMax, fun _ => all, fun done => ?_, fun other member => ?_⟩
  · have done : a.complete = true := done
    cases open'.symm.trans done
  · exact all other ((List.takeWhile_prefix _).subset member)

theorem Quiet.apply (quiet : Quiet a) (act : Act) (enabled : a.Enabled act)
    (allowed : act.Brought → afterwards a.toStage act) : Quiet (a.apply P act) := by
  by_cases complete : a.complete = true
  · exact quiet.later complete (complete_apply act complete) (announced_apply act)
  have open' : a.complete = false := by simpa using complete
  cases act with
  | feed level p | handOut | validate => exact quiet.same rfl rfl (fun _ => rfl) rfl
  | completed => exact quiet.completed open'
  | grantData limit | grantStreams u limit | name u => exact absurd (allowed trivial) complete
  | openLocal u =>
    have below : a.next u < a.peerMax u := enabled
    rw [quiet.peerMax open' u] at below
    exact absurd below (Nat.not_lt_zero _)
  | retire id =>
    have member : id ∈ a.live := enabled
    rw [quiet.live open'] at member
    cases member
  | announce event carried =>
    rcases enabled with closed | brought | live
    · exact quiet.closed open' closed carried
    · exact absurd (allowed brought) complete
    · exact absurd (quiet.live open') live

end Standing

theorem FrameType.inHandshake_of_allowed {code : Nat} {type : FrameType} (found : FrameType.ofCode code = some type)
    (allowed : FrameType.allowedDuringHandshake code = true) : type.inHandshake = true := by
  unfold FrameType.allowedDuringHandshake at allowed
  rw [found] at allowed
  cases type <;> first | rfl | cases allowed

namespace QUICConnection
variable {P : Primitives}

theorem readFrameType_level {level : QUICLevel} {r r' : QUICReader} {type : FrameType}
    {eliciting : Bool} (read : readFrameType level r = .ok (type, eliciting, r'))
    (later : type.inHandshake = false) : level = .application := by
  by_contra other
  unfold readFrameType at read
  split at read
  · cases read
  next code rest _ =>
    split at read
    · cases read
    next permitted =>
      split at read
      · cases read
      next found =>
        cases read
        have allowed : FrameType.allowedDuringHandshake code = true := by simpa [other] using permitted
        rw [FrameType.inHandshake_of_allowed found allowed] at later
        cases later

theorem Proceeds.complete {ok : Stage → Act → Prop} {c c' : QUICConnection}
    (proceeds : Proceeds P ok c c') (complete : c.handshakeComplete = true) :
    c'.handshakeComplete = true :=
  Standing.machine_keeps P (I := fun a => a.complete = true)
    (fun _ act _ _ complete => Standing.complete_apply act complete) (proceeds []) complete

end QUICConnection

def Arriving.accepted (P : Primitives) (q : Arriving) : Bool := q.conn.accepts P q.p q.header q.level q.nowMs

/-- A 1-RTT packet that comes before the handshake is complete is not accepted. -/
def Arriving.Waits (P : Primitives) (q : Arriving) : Prop :=
  q.level = .application → q.conn.handshakeComplete = false → q.accepted P = false

namespace QUICConnection
variable {P : Primitives} {m : Meeting}

theorem accepts_of_meeting {c : QUICConnection} {p : Bytes} {header : QUICPacketHeader}
    {level : QUICLevel} {nowMs : Nat} (met : m ∈ c.packetMeetings P p header level nowMs) :
    c.accepts P p header level nowMs = true := by
  unfold packetMeetings at met
  unfold accepts
  split at met
  · cases met
  next version =>
    split at met
    · cases met
    next keyed =>
      have same : (!header.isLong || header.version == c.version) = true := by
        by_cases long : header.isLong = true
        · have equal : header.version = c.version := by
            by_contra differs
            exact version ⟨long, differs⟩
          simp [equal]
        · simp [Bool.not_eq_true _ ▸ long]
      have valid : (c.keys.get level).receive.isValid = true := by simpa using keyed
      rw [same, valid]
      split at met
      · cases met
      next c1 packet opened =>
        have spaces : c1.spaces = c.spaces := by
          have still := still_openPacket P c p header level nowMs valid
          rw [opened] at still
          exact congrArg Transit.spaces still
        dsimp only at met
        split at met
        · cases met
        next fresh =>
          rw [opened]
          rw [validateAddress_space, spaces] at fresh
          simpa using fresh

theorem receiveMeetings_complete {c : QUICConnection} {datagram : Bytes} {nowMs : Nat}
    (waits : ∀ q ∈ c.receiveArrivals P datagram nowMs, q.Waits P)
    (met : m ∈ c.receiveMeetings P datagram nowMs) (application : m.level = .application) :
    m.conn.handshakeComplete = true := by
  obtain ⟨q, arrived, inside⟩ := mem_flatMap.mp met
  have accepted : q.accepted P = true := accepts_of_meeting inside
  obtain ⟨packet, -, member⟩ := packetMeetings_payload inside
  have level : q.level = .application := (frameMeetings_level member).1.symm.trans application
  have complete : q.conn.handshakeComplete = true := by
    by_contra open'
    have refused := waits q arrived level (by simpa using open')
    cases accepted.symm.trans refused
  have opened := (stands_openPacket (P := P) q.conn q.p q.header q.level q.nowMs).stage
  have still : (q.conn.openPacket P q.p q.header q.level q.nowMs).1.handshakeComplete = true :=
    (congrArg Stage.complete opened).trans complete
  have validated : Proceeds P (fun _ _ => True) _ _ := proceeds_validateAddress
    (q.conn.openPacket P q.p q.header q.level q.nowMs).1 q.level
  have before : Proceeds P (fun _ _ => True) _ m.conn := proceeds_spans.before_frame q.level q.nowMs _ _ _
      (fun m _ => proceeds_processFrame m fun _ _ => trivial) member
  exact before.complete (validated.complete still)

end QUICConnection

namespace World
variable (P : Primitives)

def arrivals (w : World) : Op → List Arriving
  | .receive datagram nowMs => w.conn.receiveArrivals P datagram nowMs
  | _ => []

def runArrivals : World → List Op → List Arriving
  | _, [] => []
  | w, op :: rest => w.arrivals P op ++ runArrivals (w.step P op) rest

theorem meetings_complete {w : World} {ops : List Op} (waits : ∀ q ∈ w.runArrivals P ops, q.Waits P)
    (met : m ∈ w.runMeetings P ops) (application : m.level = .application) :
    m.conn.handshakeComplete = true := by
  induction ops generalizing w with
  | nil => cases met
  | cons op rest ih =>
    rcases mem_append.mp met with first | later
    · cases op with
      | receive datagram nowMs =>
        apply QUICConnection.receiveMeetings_complete _ first application
        exact fun q arrived => waits q (mem_append_left _ arrived)
      | _ => cases first
    · exact ih (fun q arrived => waits q (mem_append_right _ arrived)) later

theorem meetings_application {w : World} {ops : List Op}
    (met : m ∈ w.runMeetings P ops) (later : m.type.inHandshake = false) : m.level = .application := by
  induction ops generalizing w with
  | nil => cases met
  | cons op rest ih =>
    rcases mem_append.mp met with first | others
    · cases op with
      | receive datagram nowMs =>
        obtain ⟨q, -, inside⟩ := mem_flatMap.mp first
        obtain ⟨packet, -, member⟩ := QUICConnection.packetMeetings_payload inside
        obtain ⟨level, r, eliciting, behind, read⟩ := QUICConnection.frameMeetings_level member
        exact level.trans (QUICConnection.readFrameType_level read later)
      | _ => cases first
    · exact ih others

theorem Fresh.quiet {start : World} (fresh : Fresh P start) : start.standing.Quiet := by
  obtain ⟨none, config, version, clientDCID, clientSCID, localCID, nowMs, made⟩ := fresh
  unfold QUICConnection.init at made
  obtain ⟨keys, _, built⟩ := Option.bind_eq_some_iff.mp made
  cases start with
  | mk conn handed =>
    subst none
    cases built
    constructor
    · exact fun _ => rfl
    · intro _ u
      cases u <;> rfl
    · intro _ event member
      cases member
    · intro done
      cases done
    · intro event member
      cases member

/-- In a run in which no 1-RTT packet is accepted before the handshake is complete, no frame of one is
processed before that, and no event of a stream or a datagram comes before the one that announces the
handshake. -/
theorem one_rtt_waits {start : World} (fresh : Fresh P start) (ops : List Op)
    (waits : ∀ q ∈ start.runArrivals P ops, q.Waits P) :
    (∀ m ∈ start.runMeetings P ops, m.level = .application → m.conn.handshakeComplete = true) ∧
      ((start.run P ops).conn.handshakeComplete = false →
        ∀ event ∈ (start.run P ops).handed ++ (start.run P ops).conn.events, event.kind = .closed) ∧
      ∀ event ∈ ((start.run P ops).handed ++ (start.run P ops).conn.events).takeWhile
        (·.kind != .handshakeComplete), event.kind = .closed := by
  have complete : ∀ m ∈ start.runMeetings P ops, m.level = .application →
      m.conn.handshakeComplete = true := fun m met => meetings_complete P waits met
  have allowed : ∀ m ∈ start.runMeetings P ops, ∀ act, m.Brings act → Standing.afterwards m.conn.stage act := by
    intro m met act brings
    have done : m.type.inHandshake = false → m.conn.handshakeComplete = true :=
      fun later => complete m met (meetings_application P met later)
    cases act with
    | feed level p => trivial
    | grantData limit => exact done (by rw [brings.1]; rfl)
    | grantStreams u limit => exact done (by rw [brings.1]; cases u <;> rfl)
    | name u | announce event carried => exact done brings
    | _ => cases brings
  have quiet : (start.run P ops).standing.Quiet :=
    Standing.machine_keeps P (fun a act enabled allowed quiet => quiet.apply act enabled allowed)
      (run_standing P start ops allowed) (fresh.quiet P)
  exact ⟨complete, quiet.announced, quiet.first⟩

def allWait (arrivals : List Arriving) : Bool :=
  arrivals.all fun q => q.level != .application || q.conn.handshakeComplete ||
    !q.accepted .transparent

theorem waits_of_allWait {arrivals : List Arriving} (all : allWait arrivals = true) :
    ∀ q ∈ arrivals, q.Waits .transparent := by
  intro q member application open'
  have one := all_eq_true.mp all q member
  rw [application, open'] at one
  simpa using one

/-- Data on stream 0 that comes before the ClientHello, when there are no keys, and again after the
Finished. -/
def patient : List Op :=
  [.receive (Client.shortPacket 0 [0x08, 0, 7]) 0, Client.hello, .nextDatagram 1200 1, Client.finished,
    .receive (Client.shortPacket 0 [0x08, 0, 7]) 3]

theorem one_rtt_waits_patient : (start.run .transparent patient).conn.events =
        [{ kind := .handshakeComplete }, { kind := .streamReadable, streamID := 0 }] ∧
      ∀ m ∈ start.runMeetings .transparent patient, m.level = .application → m.conn.handshakeComplete = true := by
  have all : allWait (start.runArrivals .transparent patient) = true := by decide +kernel
  have events : (start.run .transparent patient).conn.events =
      [{ kind := .handshakeComplete }, { kind := .streamReadable, streamID := 0 }] := by decide +kernel
  obtain ⟨complete, -, -⟩ := one_rtt_waits .transparent start_fresh patient (waits_of_allWait all)
  exact ⟨events, complete⟩

/-- Data on stream 0, its reset and a DATAGRAM that come in a 1-RTT packet after the ClientHello and before
the Finished are all announced. -/
theorem announced_before_finished :
    let w := start.run .transparent [Client.hello, .nextDatagram 1200 1,
      .receive (Client.shortPacket 0 [0x0A, 0, 1, 7, 0x04, 0, 5, 1, 0x30, 9]) 2]
    w.conn.handshakeComplete = false ∧ w.conn.events = [{ kind := .streamReadable, streamID := 0 },
        { kind := .streamReset, streamID := 0, code := 5 }, { kind := .datagram }] := by
  decide +kernel

end World
end AvianCore.Quic
