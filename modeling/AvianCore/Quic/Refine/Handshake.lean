import AvianCore.Quic.Refine.Streams

/-!
The handshake in the ledger: secrets are derived once, from the ClientHello, and never for
the Initial level, so that a level whose keys were dropped stays closed.
-/

namespace AvianCore.Quic
open AvianCore.Lib Ledger.Effect Option

namespace HelloExtensions

theorem noted_ok {α : Type} {value : Option α} {note : α → HelloExtensions} {e : HelloExtensions}
    (done : noted value note = .ok e) : ∃ v, e = note v := by
  cases value with
  | none => simp [noted] at done
  | some v =>
    simp only [noted, Except.ok.injEq] at done
    exact ⟨v, done.symm⟩

theorem read_parameters {e e' : HelloExtensions} {extType : Nat} {body : Bytes} (done : e.read extType body = .ok e') :
    e'.peerParameters = e.peerParameters ∨ e'.peerParameters.Bounded := by
  unfold read at done
  extract_lets b offered found list names at done
  split_ifs at done
  any_goals
    obtain ⟨v, rfl⟩ := noted_ok done
    exact .inl rfl
  case pos =>
    split at done
    · simp at done
    next parsed decoded =>
      simp only [Except.ok.injEq] at done
      subst done
      exact .inr (QUICTransportParameters.decode_bounded decoded)
  case neg =>
    simp only [Except.ok.injEq] at done
    exact .inl (congrArg peerParameters done.symm)

theorem readAll_parameters (fuel : Nat) (e : HelloExtensions) (r : QUICReader) :
    (e.readAll fuel r).1.peerParameters = e.peerParameters ∨ (e.readAll fuel r).1.peerParameters.Bounded := by
  induction fuel generalizing e r with
  | zero => exact .inl rfl
  | succ fuel ih =>
    unfold readAll
    extract_lets next
    clear_value next
    split_ifs
    · exact .inl rfl
    split
    · exact .inl rfl
    next extType body r' =>
      split
      · exact .inl rfl
      next e' done =>
        rcases ih e' r' with same | bounded
        · rw [same]
          exact read_parameters done
        · exact .inr bounded

end HelloExtensions

namespace TLSServerHandshake

/-- No change but to the messages, and secrets of later levels than Initial. -/
structure Extends (old new : TLSServerHandshake) : Prop where
  parameters : new.peerParameters = old.peerParameters
  levels : ∀ level ∈ new.pendingSecrets.map Secrets.level,
    level ∈ old.pendingSecrets.map Secrets.level ∨ level ≠ .initial

theorem Extends.trans {a b c : TLSServerHandshake} (first : Extends a b) (second : Extends b c) : Extends a c where
  parameters := second.parameters.trans first.parameters
  levels level member := (second.levels level member).elim (first.levels level) .inr

theorem Extends.same {old new : TLSServerHandshake} (parameters : new.peerParameters = old.peerParameters)
    (secrets : new.pendingSecrets = old.pendingSecrets) : Extends old new :=
  ⟨parameters, fun _ member => .inl (secrets ▸ member)⟩

theorem extends_fail (tls : TLSServerHandshake) (code : Nat) : Extends tls (tls.fail code) := .same rfl rfl

theorem extends_emit (tls : TLSServerHandshake) (message : Bytes) (level : QUICLevel) :
    Extends tls (tls.emit message level) := by
  unfold emit
  extract_lets extended
  split_ifs <;> exact .same rfl rfl

section
variable (P : Primitives)

variable (tls : TLSServerHandshake)

theorem extends_writeServerHello (sessionID : Bytes) (group : Nat) :
    Extends tls (tls.writeServerHello P sessionID group) := by
  unfold writeServerHello
  split
  · exact extends_emit tls _ _
  · exact extends_fail tls _

theorem Extends.derived {old new : TLSServerHandshake} (secrets : Secrets)
    (parameters : new.peerParameters = old.peerParameters)
    (added : new.pendingSecrets = old.pendingSecrets ++ [secrets])
    (later : secrets.level ≠ .initial) : Extends old new := by
  refine ⟨parameters, fun level member => ?_⟩
  rw [added, List.map_append, List.mem_append] at member
  apply member.imp_right
  intro last
  rw [List.map_singleton, List.mem_singleton] at last
  exact last ▸ later

theorem extends_deriveHandshakeSecrets {tls tls' : TLSServerHandshake} {shared : Bytes}
    (done : tls.deriveHandshakeSecrets P shared = some tls') : Extends tls tls' := by
  simp only [deriveHandshakeSecrets, bind_eq_bind, bind_eq_some_iff, Option.some.injEq] at done
  obtain ⟨_, _, _, _, _, _, _, _, _, _, client, _, server, _, rfl⟩ := done
  exact .derived ⟨.handshake, client, server, tls.cipher⟩ rfl rfl (by simp)

theorem extends_deriveApplicationSecrets {tls tls' : TLSServerHandshake}
    (done : tls.deriveApplicationSecrets P = some tls') : Extends tls tls' := by
  simp only [deriveApplicationSecrets, bind_eq_bind, bind_eq_some_iff, Option.some.injEq] at done
  obtain ⟨_, _, _, _, _, _, _, _, client, _, server, _, rfl⟩ := done
  exact .derived ⟨.application, client, server, tls.cipher⟩ rfl rfl (by simp)

theorem extends_writeServerFlight (scheme : Nat) : Extends tls (tls.writeServerFlight P scheme).1 := by
  unfold writeServerFlight
  extract_lets t1 chain t2 signature
  have extensions : Extends tls t1 := extends_emit _ _ _
  have certificate : Extends tls t2 := extensions.trans (extends_emit _ _ _)
  clear_value signature
  split_ifs
  · exact extensions.trans (extends_fail _ _)
  split
  · exact certificate.trans (extends_fail _ _)
  extract_lets t3
  have verify : Extends tls t3 := certificate.trans (extends_emit _ _ _)
  split
  · exact verify.trans (extends_fail _ _)
  next finished _ =>
    exact verify.trans (extends_emit t3 (HandshakeType.finished :: lengthPrefixed 3 finished) .handshake)

theorem extends_answerHello (sessionID : Bytes) (group scheme : Nat) (shared : Bytes) :
    Extends tls (tls.answerHello P sessionID group scheme shared) := by
  unfold answerHello
  extract_lets t1
  have hello : Extends tls t1 := extends_writeServerHello P tls sessionID group
  split_ifs
  · exact hello
  split
  · exact hello.trans (extends_fail _ _)
  next t2 derived =>
    have secrets := hello.trans (extends_deriveHandshakeSecrets P derived)
    have flight := secrets.trans (extends_writeServerFlight P t2 scheme)
    split
    next t3 sent => simpa [sent] using flight
    next t3 sent =>
      have flight : Extends tls t3 := by simpa [sent] using flight
      split
      · exact flight.trans (extends_fail _ _)
      next t4 derived => exact flight.trans ((extends_deriveApplicationSecrets P derived).trans (.same rfl rfl))

theorem extends_negotiate (hello : ClientHello) (e : HelloExtensions) (message : Bytes) :
    Extends tls (tls.negotiate P hello e message) := by
  unfold negotiate
  split
  · exact extends_fail tls _
  split
  · exact extends_fail tls _
  extract_lets t1
  split
  · exact .same rfl rfl
  extract_lets t2 chosen t3
  split
  · exact .same rfl rfl
  split
  · exact .same rfl rfl
  extract_lets t4
  split
  · exact .same rfl rfl
  have prepared : Extends tls t4 := by
    simp only [t4, t3]
    split_ifs <;> exact .same rfl rfl
  split
  · exact prepared.trans (extends_fail _ _)
  · exact prepared.trans (extends_answerHello P _ _ _ _ _)

/-- What messages from the client can do to the handshake. -/
structure Follows (old new : TLSServerHandshake) : Prop where
  once : new.state = .waitingClientHello → old.state = .waitingClientHello
  answered : old.state ≠ .waitingClientHello → new.pendingSecrets = old.pendingSecrets
  levels : ∀ level ∈ new.pendingSecrets.map Secrets.level,
    level ∈ old.pendingSecrets.map Secrets.level ∨ level ≠ .initial
  bounded : new.peerParameters = old.peerParameters ∨ new.peerParameters.Bounded

theorem Follows.refl : Follows tls tls := ⟨id, fun _ => rfl, fun _ => .inl, .inl rfl⟩

theorem Follows.trans {a b c : TLSServerHandshake} (first : Follows a b) (second : Follows b c) : Follows a c where
  once waiting := first.once (second.once waiting)
  answered past := (second.answered fun waiting => past (first.once waiting)).trans (first.answered past)
  levels level member := (second.levels level member).elim (first.levels level) .inr
  bounded := second.bounded.elim (fun same => same ▸ first.bounded) .inr

theorem Follows.same {old new : TLSServerHandshake}
    (once : new.state = .waitingClientHello → old.state = .waitingClientHello)
    (secrets : new.pendingSecrets = old.pendingSecrets)
    (parameters : new.peerParameters = old.peerParameters) : Follows old new :=
  ⟨once, fun _ => secrets, fun _ member => .inl (secrets ▸ member), .inl parameters⟩

theorem follows_fail (code : Nat) : Follows tls (tls.fail code) :=
  .same (fun waiting => by simp [fail] at waiting) rfl rfl

theorem follows_handleClientHello (message : Bytes) (waiting : tls.state = .waitingClientHello) :
    Follows tls (tls.handleClientHello P message) := by
  unfold handleClientHello
  split
  · exact follows_fail tls _
  next hello _ =>
    extract_lets begin
    have parameters := HelloExtensions.readAll_parameters (hello.extensions.length + 1) begin ⟨hello.extensions, 0⟩
    split
    next e alert read =>
      rw [read] at parameters
      extract_lets t1
      have noted : Follows tls t1 := ⟨fun _ => waiting, fun past => absurd waiting past, fun _ => .inl, parameters⟩
      split
      · exact noted.trans (follows_fail _ _)
      have negotiated := extends_negotiate P t1 hello e message
      exact noted.trans ⟨fun _ => waiting, fun past => absurd waiting past, negotiated.levels,
        .inl negotiated.parameters⟩

theorem follows_handleFinished (message : Bytes) : Follows tls (tls.handleFinished P message) := by
  unfold handleFinished
  split_ifs
  · exact follows_fail tls _
  split
  · exact follows_fail tls _
  split_ifs
  · exact follows_fail tls _
  · exact .same (fun complete => by simp [scrubSecrets] at complete) rfl rfl

theorem follows_handleMessage (type : UInt8) (message : Bytes) : Follows tls (tls.handleMessage P type message).1 := by
  unfold handleMessage
  split_ifs with _ past
  · exact follows_fail tls _
  · exact follows_handleClientHello P tls message (not_not.mp past)
  · exact follows_fail tls _
  · exact follows_handleFinished P tls message
  · exact follows_fail tls _

theorem follows_processMessages (fuel : Nat) (tls : TLSServerHandshake) (level : QUICLevel) :
    Follows tls (processMessages P fuel tls level) := by
  induction fuel generalizing tls with
  | zero => exact Follows.refl tls
  | succ fuel ih =>
    unfold processMessages
    split_ifs
    · exact Follows.refl tls
    split
    · exact Follows.refl tls
    next type message _ =>
      have handled := follows_handleMessage P tls type message
      split
      next stopped => simpa [stopped] using handled
      next t1 went =>
        have handled : Follows tls t1 := by simpa [went] using handled
        refine handled.trans (Follows.trans ?_ (ih _))
        exact .same id rfl rfl

theorem follows_receive (p : Bytes) (level : QUICLevel) : Follows tls (tls.receive P p level) := by
  unfold receive
  extract_lets t1
  split_ifs
  · exact Follows.refl tls
  · have buffered : Follows tls t1 := .same id rfl rfl
    exact buffered.trans (follows_processMessages P _ t1 level)

end
end TLSServerHandshake

namespace QUICConnection

theorem moves_discardSpace (c : QUICConnection) (level : QUICLevel)
    (past : level = .initial ∨ (level = .handshake ∧ c.handshakeComplete = true)) :
    Moves c (c.discardSpace level) := by
  unfold discardSpace
  extract_lets pair
  split_ifs
  · exact .refl c
  apply Moves.effect
  intro handed
  have effect := discard (c.ledger handed) level (c.spaces.get level) past
  cases level <;> exact effect

section
variable (P : Primitives)

variable (c : QUICConnection)

theorem moves_tls (tls : TLSServerHandshake) (follows : c.tls.Follows tls) : Moves c { c with tls := tls } := by
  apply Moves.effect
  intro handed
  refine handshake (c.ledger handed) (tls.state == .waitingClientHello)
    (tls.pendingSecrets.map Secrets.level) tls.peerParameters ?_ ?_ follows.levels follows.bounded
  · intro waiting
    exact beq_iff_eq.mpr (follows.once (beq_iff_eq.mp waiting))
  · intro past
    have past : c.tls.state ≠ .waitingClientHello := by simpa [ledger] using past
    exact congrArg (List.map Secrets.level) (follows.answered past)

theorem moves_feedTLS (level : QUICLevel) : Moves c (c.feedTLS P level) := by
  unfold feedTLS
  extract_lets ready
  split_ifs
  · exact .refl c
  · have received := moves_tls c _ (TLSServerHandshake.follows_receive P c.tls ready level)
    exact received.trans (Moves.silent fun _ => rfl)

theorem installKeys_ledger {c c' : QUICConnection} {secrets : Secrets}
    (done : c.installKeys P secrets = some c') (handed : Nat) :
    c'.ledger handed = { c.ledger handed with receivable := (c'.ledger handed).receivable } ∧
      c'.tls = c.tls ∧ ∀ level, level ≠ secrets.level →
        (c'.ledger handed).receivable.get level = (c.ledger handed).receivable.get level := by
  simp only [installKeys, bind_eq_bind, bind_eq_some_iff] at done
  obtain ⟨send, _, receive, _, result⟩ := done
  split_ifs at result <;> simp only [Option.some.injEq] at result <;> subst result
  all_goals
    refine ⟨rfl, rfl, fun level other => ?_⟩
    simp [ledger, PerLevel.get_set_ne _ other]

theorem installAll_ledger (secrets : List Secrets) (handed : Nat) : (c.installAll P secrets).1.ledger handed =
    { c.ledger handed with receivable := ((c.installAll P secrets).1.ledger handed).receivable } ∧
      (c.installAll P secrets).1.tls = c.tls ∧
      ∀ level, ((c.installAll P secrets).1.ledger handed).receivable.get level = true →
        (c.ledger handed).receivable.get level = true ∨ level ∈ secrets.map Secrets.level := by
  induction secrets generalizing c with
  | nil => exact ⟨rfl, rfl, fun _ => .inl⟩
  | cons first rest ih =>
    unfold installAll
    split
    · exact ⟨rfl, rfl, fun _ => .inl⟩
    next c1 installed =>
      obtain ⟨same, tls, others⟩ := installKeys_ledger P installed handed
      obtain ⟨sameRest, tlsRest, known⟩ := ih c1
      refine ⟨?_, tlsRest.trans tls, fun level open_ => ?_⟩
      · rw [sameRest, same]
      · rcases known level open_ with before | later
        · by_cases named : level = first.level
          · exact .inr (by simp [named])
          · exact .inl (others level named ▸ before)
        · exact .inr (List.mem_cons_of_mem _ later)

theorem moves_installAll : Moves c (({ c with tls := c.tls.takePendingSecrets.2 } : QUICConnection).installAll P
      c.tls.takePendingSecrets.1).1 := by
  apply Moves.effect
  intro handed
  obtain ⟨same, -, known⟩ := installAll_ledger P { c with tls := c.tls.takePendingSecrets.2 }
    c.tls.takePendingSecrets.1 handed
  rw [same]
  exact install (c.ledger handed) _ known

theorem moves_completeHandshake (first : c.handshakeComplete = false) (complete : c.tls.state = .complete)
    (installed : c.tls.pendingSecrets = []) :
    Moves c c.completeHandshake := by
  unfold completeHandshake
  extract_lets c1 c2 c3 c4 c5
  have completed : Moves c c4 := by
    apply Moves.effect
    intro handed
    refine completed (c.ledger handed) first ?_ ?_
    · simp [ledger, complete]
    · simp [ledger, installed]
  have event : Moves c4 c5 := moves_append c4 _ rfl
  exact (completed.trans event).trans (moves_discardSpace c5 .handshake (.inr ⟨rfl, rfl⟩))

theorem moves_applyTLSProgress : Moves c (c.applyTLSProgress P).1 := by
  unfold applyTLSProgress
  split
  · exact moves_close c _ _ _
  extract_lets tls c1
  have written : Moves c c1 := Moves.silent fun _ => rfl
  have installed := moves_installAll P c1
  have noSecrets : (({ c1 with tls := c1.tls.takePendingSecrets.2 } : QUICConnection).installAll P
      c1.tls.takePendingSecrets.1).1.tls.pendingSecrets = [] := by
    rw [(installAll_ledger P _ _ 0).2.1]
    rfl
  split
  next secrets tls taken =>
    rw [taken] at installed noSecrets
    extract_lets c2
    split
    next c3 failed =>
      rw [failed] at installed
      exact (written.trans installed).trans (moves_fail c3 _)
    next c3 went =>
      rw [went] at installed noSecrets
      have progress := written.trans installed
      split_ifs with finished
      · have first : c3.handshakeComplete = false := by simpa using finished.2
        exact progress.trans (moves_completeHandshake c3 first finished.1 noSecrets)
      · exact progress

theorem commitKeyUpdate_ledger (nowMs packetNumber : Nat) (next : c.nextReceiveKeys.isValid)
    (current : c.keys.application.receive.isValid) (handed : Nat) :
    (c.commitKeyUpdate P nowMs packetNumber).ledger handed = c.ledger handed := by
  have parts : c.keys.application.receive.keys.isValid = true ∧ c.keys.application.receive.header.isValid = true := by
    simpa [QUICDirection.isValid] using current
  have valid : ({ c.keys.application.receive with keys := c.nextReceiveKeys } : QUICDirection).isValid =
      c.keys.application.receive.isValid := by
    simp [QUICDirection.isValid, next, parts]
  simp [ledger, commitKeyUpdate, PerLevel.map, valid]

end
end QUICConnection
end AvianCore.Quic
