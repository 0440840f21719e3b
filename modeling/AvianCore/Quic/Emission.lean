import AvianCore.Quic.Refine.Departure

/-!
The packets that a call of `nextDatagram` emits. They are the packets it laid out, if all of them can be
sealed, and the bytes it leaves are these packets sealed under the keys of their levels.
-/

namespace AvianCore.Quic
open AvianCore.Lib List PlannedPacket Logged.Chain

namespace QUICConnection

/-- The packets laid out for an ordinary datagram, padded, with the connection after it. -/
def layout (c : QUICConnection) (budget nowMs : Nat) : QUICConnection × List PlannedPacket :=
  let ackOnly := !c.recovery.canSend && c.recovery.probeAllowance == 0
  let (c, planned) := planPackets budget ackOnly nowMs [.initial, .handshake, .application] c 0
  (c, padLast planned budget)

section
variable (P : Primitives)

def sealable (c : QUICConnection) (planned : List PlannedPacket) : Bool :=
  planned.all fun packet => (c.sealPacket P packet).isSome

def closePackets (c : QUICConnection) (budget nowMs : Nat) : List PlannedPacket :=
  if !c.closeDue nowMs || !(c.keys.get c.closeLevel).send.isValid then []
  else
    match c.buildCloseFrame c.closeLevel budget with
    | none => []
    | some packet => if c.sealable P [packet] then [packet] else []

/-- The packets of the datagram that `nextDatagram` leaves. -/
def emitted (c : QUICConnection) (capacity nowMs : Nat) : List PlannedPacket :=
  let budget := c.sendBudget capacity
  if c.status = .drained ∨ budget < 64 then []
  else if c.status = .closing then c.closePackets P budget nowMs
  else if c.sealable P (c.layout budget nowMs).2 then (c.layout budget nowMs).2 else []

def sealedBytes (c : QUICConnection) (planned : List PlannedPacket) : Bytes :=
  (planned.map fun packet => (c.sealPacket P packet).getD []).flatten

variable {c c' : QUICConnection}

theorem sealPacket_keys (keys : c'.keys = c.keys) (packet : PlannedPacket) :
    c'.sealPacket P packet = c.sealPacket P packet := by
  unfold sealPacket
  rw [keys]

theorem sealable_keys (keys : c'.keys = c.keys) (planned : List PlannedPacket) :
    c'.sealable P planned = c.sealable P planned := by
  unfold sealable
  simp only [sealPacket_keys P keys]

theorem sealedBytes_keys (keys : c'.keys = c.keys) (planned : List PlannedPacket) :
    c'.sealedBytes P planned = c.sealedBytes P planned := by
  unfold sealedBytes
  simp only [sealPacket_keys P keys]

variable (c : QUICConnection)

theorem recordSent_transit (packet : PlannedPacket) (size nowMs : Nat) :
    ∃ sent : QUICSentPacket, sent.packetNumber = packet.packetNumber ∧
      (c.recordSent packet size nowMs).transit = c.transit.send packet.level sent :=
  ⟨{ packetNumber := packet.packetNumber, sentAtMs := nowMs, size := size,
     ackEliciting := packet.ackEliciting, inFlight := packet.ackEliciting || packet.padded,
     frames := packet.frames, largestAcked := packet.largestAcked }, rfl, rfl⟩

/-- What sealing comes to: the packets depart as far as they can be sealed. -/
structure Seals (c : QUICConnection) (planned : List PlannedPacket) (before : Bytes)
    (result : QUICConnection × Option Datagram) : Prop where
  departs : ∃ levels, Transit.Departs levels c.transit result.1.transit ∧
    levels ⊆ planned.map level ∧
    (c.sealable P planned = true → levels = planned.map level)
  bytes : result.2.map Datagram.bytes =
    if c.sealable P planned then some (before ++ c.sealedBytes P planned) else none

theorem sealAll_seals (nowMs : Nat) (planned : List PlannedPacket) (c : QUICConnection)
    (out : Datagram) (distinct : (planned.map level).Nodup)
    (numbered : ∀ packet ∈ planned, c.Numbered packet) :
    Seals P c planned out.bytes (sealAll P nowMs planned c out) := by
  induction planned generalizing c out with
  | nil =>
    refine ⟨⟨[], .nothing _, nil_subset _, fun _ => rfl⟩, ?_⟩
    simp [sealAll, sealable, sealedBytes]
  | cons packet rest ih =>
    rw [map_cons, nodup_cons] at distinct
    unfold sealAll
    split
    next failed =>
      have not : c.sealable P (packet :: rest) = false := by simp [sealable, failed]
      refine ⟨⟨[], .nothing _, nil_subset _, fun all => ?_⟩, ?_⟩
      · cases not.symm.trans all
      · rw [not]
        rfl
    next sealed done =>
      obtain ⟨sent, number, after⟩ := recordSent_transit c packet sealed.length nowMs
      have keys : (c.recordSent packet sealed.length nowMs).keys = c.keys := rfl
      have here := numbered packet mem_cons_self
      have later : ∀ other ∈ rest, (c.recordSent packet sealed.length nowMs).Numbered other := by
        intro other member
        have apart : other.level ≠ packet.level := by
          intro same
          exact distinct.1 (same ▸ mem_map_of_mem member)
        have old := numbered other (mem_cons_of_mem _ member)
        refine ⟨?_, old.keys⟩
        have space : (c.recordSent packet sealed.length nowMs).spaces.get other.level =
            c.spaces.get other.level := PerLevel.get_set_ne _ apart _
        rw [space]
        exact old.number
      obtain ⟨⟨levels, departs, among, whole⟩, bytes⟩ := ih (c.recordSent packet sealed.length nowMs)
        ⟨packet.start + sealed.length, out.bytes ++ sealed⟩ distinct.2 later
      have same : c.sealable P (packet :: rest) = c.sealable P rest := by simp [sealable, done]
      rw [sealable_keys P keys] at whole bytes
      rw [sealedBytes_keys P keys] at bytes
      rw [after] at departs
      have keyed : c.transit.keyed.get packet.level = true := by
        rw [transit_keyed, QUICKeyPair.isKeyed, here.keys, Bool.true_or]
      refine ⟨⟨packet.level :: levels, ?_, ?_, fun all => ?_⟩, ?_⟩
      · exact .packet packet.level sent (number.trans here.number) keyed
          (fun member => distinct.1 (among member)) departs
      · exact cons_subset_cons _ among
      · rw [whole (same ▸ all), map_cons]
      · rw [bytes, same]
        simp [sealedBytes, done]

theorem padLast_numbers (planned : List PlannedPacket) (budget : Nat) :
    (padLast planned budget).map (fun packet => (packet.level, packet.packetNumber, packet.pnLength)) =
      planned.map fun packet => (packet.level, packet.packetNumber, packet.pnLength) := by
  unfold padLast
  split
  · rfl
  next last found =>
    extract_lets carriesInitial target minimumPayload padding
    split
    · have whole : planned = planned.dropLast ++ [last] := (dropLast_append_getLast? last found).symm
      conv_rhs => rw [whole]
      simp
    · rfl

theorem layout_spec (budget nowMs : Nat) : c.LaysOut (c.layout budget nowMs).1 ∧
    ((c.layout budget nowMs).2.map level).Nodup ∧
    ∀ packet ∈ (c.layout budget nowMs).2, c.Numbered packet ∧ packet.pnLength = c.packetNumberLength packet.level := by
  unfold layout
  extract_lets ackOnly
  obtain ⟨laid, order, each⟩ := planPackets_drafts budget ackOnly nowMs [.initial, .handshake, .application] c 0
  generalize planPackets budget ackOnly nowMs [.initial, .handshake, .application] c 0 = result at laid order each
  obtain ⟨c1, planned⟩ := result
  have numbers := padLast_numbers planned budget
  have levels : (padLast planned budget).map level = planned.map level := by
    have firsts := congrArg (List.map Prod.fst) numbers
    rw [map_map, map_map] at firsts
    exact firsts
  refine ⟨laid.toLaysOut, ?_, fun packet member => ?_⟩
  · show ((padLast planned budget).map level).Nodup
    rw [levels]
    exact order.nodup (by decide)
  · have there : (packet.level, packet.packetNumber, packet.pnLength) ∈
        planned.map fun packet => (packet.level, packet.packetNumber, packet.pnLength) := by
      rw [← numbers]
      exact mem_map_of_mem member
    obtain ⟨old, among, same⟩ := mem_map.mp there
    simp only [Prod.mk.injEq] at same
    obtain ⟨level, number, pnLength⟩ := same
    obtain ⟨numbered, length⟩ := each old among
    rw [← level, ← pnLength]
    exact ⟨⟨level ▸ number ▸ numbered.number, level ▸ numbered.keys⟩, length⟩

/-- What a call does to packets in transit, and what it emits: at most one packet per level, each with
the next number of its level, which departs. -/
structure Emits (c c' : QUICConnection) (datagram : Datagram) (packets : List PlannedPacket) :
    Prop where
  departs : ∃ levels m n, Transit.machine.Chain c.transit m ∧ Transit.Departs levels m n ∧
    Transit.machine.Chain n c'.transit ∧ packets.map level ⊆ levels
  distinct : (packets.map level).Nodup
  numbered : ∀ packet ∈ packets, c.Numbered packet
  bytes : datagram.bytes = c.sealedBytes P packets

theorem Emits.nothing {c : QUICConnection} (drifts : Drifts c c') : Emits P c c' {} [] where
  departs := ⟨[], c.transit, c.transit, refl _, .nothing _, drifts, nil_subset _⟩
  distinct := nodup_nil
  numbered packet member := by cases member
  bytes := rfl

def afterDatagram (c : QUICConnection) (spent : Bool) (count : Nat) : QUICConnection :=
  { c with
    recovery := if spent then { c.recovery with probeAllowance := c.recovery.probeAllowance - 1 }
      else c.recovery
    bytesSent := c.bytesSent + count }

theorem buildDatagram_eq (budget nowMs : Nat) : c.buildDatagram P budget nowMs =
    match sealAll P nowMs (c.layout budget nowMs).2 (c.layout budget nowMs).1 {} with
    | (c1, none) => (c1, {})
    | (c1, some out) => (c1.afterDatagram (!c.recovery.canSend && c.recovery.probeAllowance != 0 &&
        (c.layout budget nowMs).2.any ackEliciting) out.count, out) := by
  unfold buildDatagram layout
  extract_lets windowFull ackOnly ackOnly'
  have spending : (windowFull && !ackOnly) = (!c.recovery.canSend && c.recovery.probeAllowance != 0) := by
    show (!c.recovery.canSend && !(!c.recovery.canSend && c.recovery.probeAllowance == 0)) = _
    rw [bne]
    cases c.recovery.canSend <;> cases c.recovery.probeAllowance == 0 <;> rfl
  rw [show ackOnly' = ackOnly from rfl]
  generalize planPackets budget ackOnly nowMs [.initial, .handshake, .application] c 0 = result
  obtain ⟨c1, planned⟩ := result
  cases planned with
  | nil => simp [padLast, sealAll, afterDatagram]
  | cons packet rest =>
    rw [← spending]
    rfl

theorem drifts_afterDatagram (spent : Bool) (count : Nat) : Drifts c (c.afterDatagram spent count) := by
  cases spent with
  | false => exact Still.drifts rfl
  | true => exact Drifts.effect (.recover c.transit _ rfl rfl)

theorem buildDatagram_emits (budget nowMs : Nat) :
    Emits P c (c.buildDatagram P budget nowMs).1 (c.buildDatagram P budget nowMs).2
      (if c.sealable P (c.layout budget nowMs).2 then (c.layout budget nowMs).2 else []) := by
  obtain ⟨laid, distinct, each⟩ := layout_spec c budget nowMs
  rw [buildDatagram_eq]
  generalize (c.layout budget nowMs).1 = c1 at laid
  generalize (c.layout budget nowMs).2 = planned at distinct each
  obtain ⟨⟨levels, departs, among, whole⟩, bytes⟩ := sealAll_seals P nowMs planned c1 {} distinct
    fun packet member => (each packet member).1.forth laid
  rw [sealable_keys P laid.keys] at whole bytes
  rw [sealedBytes_keys P laid.keys] at bytes
  split
  next c2 failed =>
    rw [failed] at departs bytes
    have not : c.sealable P planned = false := by
      by_contra all
      simp [Bool.not_eq_false _ ▸ all] at bytes
    rw [not]
    refine ⟨⟨levels, _, _, laid.drifts, departs, refl _, nil_subset _⟩, nodup_nil, ?_, rfl⟩
    intro packet member
    cases member
  next c2 out done =>
    rw [done] at departs bytes
    have all : c.sealable P planned = true := by
      by_contra not
      simp [not] at bytes
    rw [all]
    simp only [all, if_true, Option.map_some, Option.some.injEq] at bytes
    exact ⟨⟨levels, _, _, laid.drifts, departs, drifts_afterDatagram c2 _ _,
      (whole all) ▸ List.Subset.refl _⟩, distinct, (fun packet member => (each packet member).1), bytes⟩

theorem buildCloseFrame_named {c : QUICConnection} {level : QUICLevel} {limit : Nat}
    {packet : PlannedPacket} (built : c.buildCloseFrame level limit = some packet) :
    packet.level = level ∧ packet.packetNumber = (c.spaces.get level).nextPacketNumber ∧ packet.pnLength = 1 := by
  unfold buildCloseFrame at built
  extract_lets pnLength header pnOffset writer writer' payloadLength padding at built
  split at built
  · cases built
  simp only [Option.some.injEq] at built
  subst built
  exact ⟨rfl, rfl, rfl⟩

theorem buildClose_emits (budget nowMs : Nat) :
    Emits P c (c.buildClose P budget nowMs).1 (c.buildClose P budget nowMs).2 (c.closePackets P budget nowMs) := by
  unfold buildClose closePackets
  extract_lets level
  split
  · exact Emits.nothing P (Drifts.refl c)
  next due =>
    have valid : (c.keys.get level).send.isValid = true := by
      simp only [Bool.or_eq_true, Bool.not_eq_true', not_or, Bool.not_eq_false] at due
      exact due.2
    split
    next none =>
      rw [none]
      exact Emits.nothing P (Drifts.refl c)
    next packet built =>
      obtain ⟨named, number, -⟩ := buildCloseFrame_named built
      rw [built]
      show Emits P c _ _ (if c.sealable P [packet] then [packet] else [])
      split
      next failed =>
        have not : c.sealable P [packet] = false := by simp [sealable, failed]
        rw [not]
        exact Emits.nothing P (Drifts.refl c)
      next sealed done =>
        have all : c.sealable P [packet] = true := by simp [sealable, done]
        have keyed : c.transit.keyed.get level = true := by rw [transit_keyed, QUICKeyPair.isKeyed, valid, Bool.true_or]
        rw [all]
        refine ⟨⟨[level], _, _, refl _, .close c.transit level keyed,
          refl _, ?_⟩, nodup_singleton _, fun other member => ?_, ?_⟩
        · simp [named]
        · rw [mem_singleton.mp member]
          exact ⟨named ▸ number, named ▸ valid⟩
        · simp [sealedBytes, done]

theorem nextDatagram_emits (capacity nowMs : Nat) :
    Emits P c (c.nextDatagram P capacity nowMs).1 (c.nextDatagram P capacity nowMs).2 (c.emitted P capacity nowMs) := by
  unfold nextDatagram emitted
  extract_lets budget
  by_cases drained : c.status = .drained
  · simp only [drained, true_or, if_true]
    exact Emits.nothing P (Drifts.refl c)
  by_cases small : budget < 64
  · simp only [drained, small, or_true, if_true, if_false]
    exact Emits.nothing P (Drifts.refl c)
  simp only [drained, small, or_self, if_false]
  by_cases closing : c.status = .closing
  · simp only [closing, if_true]
    exact buildClose_emits P c budget nowMs
  · simp only [closing, if_false]
    exact buildDatagram_emits P c budget nowMs

end
end QUICConnection

namespace World
open QUICConnection
variable (P : Primitives)

theorem step_call (w : World) (op : Op) : Transit.Call w.conn.transit (w.step P op).conn.transit := by
  cases op with
  | receive datagram nowMs => exact .silent (drifts_receive P w.conn datagram nowMs)
  | nextDatagram capacity nowMs =>
    obtain ⟨levels, m, n, first, departs, last, -⟩ := (nextDatagram_emits P w.conn capacity nowMs).departs
    exact ⟨levels, m, n, first, departs, last⟩
  | onTimeout nowMs => exact .silent ((drifts_expires nowMs).onTimeout w.conn)
  | close code application reason => exact .silent (still_close w.conn code application reason).drifts
  | openStream unidirectional => exact .silent (still_openStream w.conn unidirectional).drifts
  | releaseStream id =>
    have released : Still w.conn (w.conn.releaseStream id) := still_retireIfFinished _ id
    exact .silent released.drifts
  | send id p fin => exact .silent (still_overlooks.send w.conn id p fin).drifts
  | resetStream id code => exact .silent (still_overlooks.resetStream w.conn id code).drifts
  | stopSending id code => exact .silent (still_overlooks.stopSending w.conn id code).drifts
  | sendDatagram p => exact .silent (still_overlooks.sendDatagram w.conn p).drifts
  | extendStreamWindow id consumed => exact .silent (still_overlooks.extendStreamWindow w.conn id consumed).drifts
  | consumeReady id n | setDelivered id | takeDatagrams | takeEvents => exact .silent (Drifts.refl w.conn)

/-- The packets in transit of a new connection: there are none. -/
structure Blank (a : Transit) : Prop where
  spaces : a.spaces = PerLevel.repeating {}
  recovery : a.recovery = {}
  log : a.log = []

variable {w : World}

theorem Fresh.blank (fresh : Fresh P w) : Blank w.conn.transit := by
  obtain ⟨_, config, version, clientDCID, clientSCID, localCID, nowMs, made⟩ := fresh
  unfold QUICConnection.init at made
  obtain ⟨keys, _, built⟩ := Option.bind_eq_some_iff.mp made
  cases w with
  | mk conn handed =>
    cases built
    exact ⟨rfl, rfl, rfl⟩

theorem Blank.get {a : Transit} (blank : Blank a) (level : QUICLevel) : a.spaces.get level = {} := by
  rw [blank.spaces]
  cases level <;> rfl

theorem Blank.accounted {a : Transit} (blank : Blank a) : a.Accounted where
  counted level := by
    rw [blank.get level]
    exact ⟨le_rfl, rfl⟩
  flight := by
    rw [blank.recovery, blank.spaces]
    rfl
  window := by
    rw [blank.recovery]
    decide

theorem run_accounted (w : World) (ops : List Op) (sound : w.conn.transit.Accounted) :
    (w.run P ops).conn.transit.Accounted := by
  induction ops generalizing w with
  | nil => exact sound
  | cons op rest ih => exact ih (w.step P op) (sound.call (step_call P w op))

/-- The state of the packet numbers after `calls` calls. -/
structure Counts (w : World) (calls : Nat) : Prop where
  sound : w.conn.transit.Accounted
  bounded : ∀ level, (w.conn.spaces.get level).nextPacketNumber ≤ calls
  numbered : ∀ level, (w.conn.spaces.get level).Numbered

theorem Fresh.counts (fresh : Fresh P w) : Counts w 0 := by
  have blank := fresh.blank P
  refine ⟨blank.accounted, fun level => ?_, fun level => ?_⟩
  · rw [show w.conn.spaces.get level = {} from blank.get level]
  · rw [show w.conn.spaces.get level = {} from blank.get level]
    refine ⟨List.Pairwise.nil, fun packet member => ?_⟩
    cases member

theorem Counts.step {calls : Nat} (counts : Counts w calls) (op : Op) (few : calls + 1 < 2 ^ 64) :
    Counts (w.step P op) (calls + 1) := by
  have call := step_call P w op
  refine ⟨counts.sound.call call, fun level => ?_, fun level => ?_⟩
  · have next := (call.numbers counts.sound level).1
    have before := counts.bounded level
    exact next.trans (Nat.succ_le_succ before)
  · have before := counts.bounded level
    have small : (w.conn.spaces.get level).nextPacketNumber + 1 < 2 ^ 64 := by omega
    exact (call.numbers counts.sound level).2 small (counts.numbered level)

theorem Counts.run {calls : Nat} (counts : Counts w calls) (ops : List Op) (few : calls + ops.length < 2 ^ 64) :
    Counts (w.run P ops) (calls + ops.length) := by
  induction ops generalizing w calls with
  | nil => exact counts
  | cons op rest ih =>
    rw [length_cons] at few ⊢
    have later := ih (counts.step P op (by omega)) (by omega)
    rw [show calls + (rest.length + 1) = calls + 1 + rest.length by omega]
    exact later

end World

end AvianCore.Quic
