import AvianCore.Quic.Tls13

/-!
The client's messages. TLS buffers handshake bytes by level but tells messages apart by their type and
the state of the handshake alone. What a call can do is said in terms of the types of the messages that
the level's buffer holds.
-/

namespace AvianCore.Quic
namespace TLSServerHandshake

/-- The first message of a buffer, if it is all there, with its type. -/
def messageOf : Bytes → Option (UInt8 × Bytes)
  | type :: a :: b :: c :: rest =>
    let length := a.toNat * 65536 + b.toNat * 256 + c.toNat
    if rest.length < length then none
    else some (type, type :: a :: b :: c :: rest.take length)
  | _ => none

variable (tls : TLSServerHandshake)

theorem nextMessage_eq (level : QUICLevel) : tls.nextMessage level = messageOf (tls.incoming.get level) := by
  unfold nextMessage messageOf
  rfl

def messageTypes : Nat → Bytes → List UInt8
  | 0, _ => []
  | fuel + 1, buffer =>
    match messageOf buffer with
    | none => []
    | some (type, message) => type :: messageTypes fuel (buffer.drop message.length)

/-- Work on the answer: nothing is read, and the handshake is where it was or has failed. -/
structure Writes (old new : TLSServerHandshake) : Prop where
  incoming : new.incoming = old.incoming
  state : new.state = old.state ∨ new.state = .failed

theorem Writes.trans {a b c : TLSServerHandshake} (first : Writes a b) (second : Writes b c) : Writes a c where
  incoming := second.incoming.trans first.incoming
  state := by
    rcases second.state with same | failed
    · rw [same]
      exact first.state
    · exact .inr failed

theorem writes_fail (code : Nat) : Writes tls (tls.fail code) := ⟨rfl, .inr rfl⟩

theorem writes_emit (message : Bytes) (level : QUICLevel) : Writes tls (tls.emit message level) := by
  unfold emit
  dsimp only
  split <;> exact ⟨rfl, .inl rfl⟩

section
variable (P : Primitives)

variable (tls : TLSServerHandshake)

theorem writes_writeServerHello (sessionID : Bytes) (group : Nat) :
    Writes tls (tls.writeServerHello P sessionID group) := by
  unfold writeServerHello
  split
  · exact writes_emit tls _ _
  · exact writes_fail tls _

theorem writes_deriveHandshakeSecrets {tls tls' : TLSServerHandshake} {shared : Bytes}
    (done : tls.deriveHandshakeSecrets P shared = some tls') : Writes tls tls' := by
  simp only [deriveHandshakeSecrets, Option.bind_eq_bind, Option.bind_eq_some_iff, Option.some.injEq] at done
  obtain ⟨_, _, _, _, _, _, _, _, _, _, client, _, server, _, rfl⟩ := done
  exact ⟨rfl, .inl rfl⟩

theorem deriveApplicationSecrets_incoming {tls tls' : TLSServerHandshake}
    (done : tls.deriveApplicationSecrets P = some tls') : tls'.incoming = tls.incoming := by
  simp only [deriveApplicationSecrets, Option.bind_eq_bind, Option.bind_eq_some_iff, Option.some.injEq] at done
  obtain ⟨_, _, _, _, _, _, _, _, client, _, server, _, rfl⟩ := done
  rfl

theorem writes_writeServerFlight (scheme : Nat) : Writes tls (tls.writeServerFlight P scheme).1 ∧
    ((tls.writeServerFlight P scheme).2 = false → (tls.writeServerFlight P scheme).1.state = .failed) := by
  unfold writeServerFlight
  extract_lets t1 chain t2 signature
  have extensions : Writes tls t1 := writes_emit _ _ _
  have certificate : Writes tls t2 := extensions.trans (writes_emit _ _ _)
  clear_value signature
  split
  · exact ⟨extensions.trans (writes_fail _ _), fun _ => rfl⟩
  split
  · exact ⟨certificate.trans (writes_fail _ _), fun _ => rfl⟩
  extract_lets t3
  have verify : Writes tls t3 := certificate.trans (writes_emit _ _ _)
  split
  · exact ⟨verify.trans (writes_fail _ _), fun _ => rfl⟩
  next finished _ =>
    have last := writes_emit t3 (HandshakeType.finished :: lengthPrefixed 3 finished) .handshake
    exact ⟨verify.trans last, fun impossible => by cases impossible⟩

/-- A ClientHello that was handled: the handshake waits for the Finished, or has failed. -/
structure Replies (old new : TLSServerHandshake) : Prop where
  incoming : new.incoming = old.incoming
  state : new.state = .waitingFinished ∨ new.state = .failed

theorem Writes.replies {a b c : TLSServerHandshake} (first : Writes a b) (second : Replies b c) :
    Replies a c := ⟨second.incoming.trans first.incoming, second.state⟩

theorem replies_fail (code : Nat) : Replies tls (tls.fail code) := ⟨rfl, .inr rfl⟩

theorem replies_answerHello (sessionID : Bytes) (group scheme : Nat) (shared : Bytes) :
    Replies tls (tls.answerHello P sessionID group scheme shared) := by
  unfold answerHello
  extract_lets t1
  have hello : Writes tls t1 := writes_writeServerHello P tls sessionID group
  split
  next failed => exact ⟨hello.incoming, .inr failed⟩
  · split
    · exact hello.replies (replies_fail t1 _)
    next t2 derived =>
      have secrets := hello.trans (writes_deriveHandshakeSecrets P derived)
      obtain ⟨flight, broken⟩ := writes_writeServerFlight P t2 scheme
      split
      next t3 stopped =>
        rw [stopped] at flight broken
        exact ⟨(secrets.trans flight).incoming, .inr (broken rfl)⟩
      next t3 sent =>
        rw [sent] at flight
        split
        · exact (secrets.trans flight).replies (replies_fail t3 _)
        next t4 derived =>
          have kept := deriveApplicationSecrets_incoming P derived
          exact ⟨kept.trans (secrets.trans flight).incoming, .inl rfl⟩

theorem replies_negotiate (hello : ClientHello) (e : HelloExtensions) (message : Bytes) :
    Replies tls (tls.negotiate P hello e message) := by
  unfold negotiate
  split
  · exact replies_fail tls _
  split
  · exact replies_fail tls _
  extract_lets t1
  split
  · exact ⟨rfl, .inr rfl⟩
  extract_lets t2 chosen t3
  split
  · exact ⟨rfl, .inr rfl⟩
  split
  · exact ⟨rfl, .inr rfl⟩
  extract_lets t4
  split
  · exact ⟨rfl, .inr rfl⟩
  have prepared : Writes tls t4 := by
    simp only [t4, t3]
    split <;> exact ⟨rfl, .inl rfl⟩
  split
  · exact prepared.replies (replies_fail t4 _)
  · exact prepared.replies (replies_answerHello P _ _ _ _ _)

theorem replies_handleClientHello (message : Bytes) : Replies tls (tls.handleClientHello P message) := by
  unfold handleClientHello
  split
  · exact replies_fail tls _
  extract_lets begin
  split
  extract_lets t1
  have noted : Writes tls t1 := ⟨rfl, .inl rfl⟩
  split
  · exact noted.replies (replies_fail t1 _)
  · exact noted.replies (replies_negotiate P t1 _ _ message)

/-- What a message can do. -/
inductive Reacts (tls : TLSServerHandshake) (type : UInt8) : TLSServerHandshake × Bool → Prop where
  | refused (code : Nat) : Reacts tls type (tls.fail code, false)
  | hello (new : TLSServerHandshake) (is : type = HandshakeType.clientHello)
      (state : tls.state = .waitingClientHello) (replies : Replies tls new) :
      Reacts tls type (new, true)
  | finished (new : TLSServerHandshake) (is : type = HandshakeType.finished)
      (state : tls.state = .waitingFinished) (incoming : new.incoming = tls.incoming)
      (parameters : new.peerParameters = tls.peerParameters)
      (done : new.state = .complete ∨ new.state = .failed) : Reacts tls type (new, true)

theorem reacts_handleMessage (type : UInt8) (message : Bytes) : Reacts tls type (tls.handleMessage P type message) := by
  unfold handleMessage
  split
  next hello =>
    split
    · exact .refused _
    next waiting => exact .hello _ hello (not_not.mp waiting) (replies_handleClientHello P tls message)
  · split
    next finished =>
      split
      · exact .refused _
      next waiting =>
        have state := not_not.mp waiting
        unfold handleFinished
        split
        · exact .finished _ finished state rfl rfl (.inr rfl)
        split
        · exact .finished _ finished state rfl rfl (.inr rfl)
        split
        · exact .finished _ finished state rfl rfl (.inr rfl)
        · exact .finished _ finished state rfl rfl (.inl rfl)
    · exact .refused _

/-- What messages of these types explain: how far the handshake went, and whether the parameters of the
peer were replaced. -/
structure Hears (old new : TLSServerHandshake) (types : List UInt8) : Prop where
  finished : old.state ≠ .complete → new.state = .complete → HandshakeType.finished ∈ types
  hello : old.state = .waitingClientHello → new.state = .waitingFinished ∨ new.state = .complete →
    HandshakeType.clientHello ∈ types
  parameters : old.state ≠ .waitingClientHello → new.peerParameters = old.peerParameters
  waiting : new.state = .waitingClientHello →
    old.state = .waitingClientHello ∧ new.peerParameters = old.peerParameters

theorem Hears.refl (types : List UInt8) : Hears tls tls types where
  finished other same := absurd same other
  hello waiting either := by rcases either with other | other <;> rw [waiting] at other <;> cases other
  parameters _ := rfl
  waiting state := ⟨state, rfl⟩

theorem Hears.failed {old new : TLSServerHandshake} (types : List UInt8) (state : new.state = .failed)
    (parameters : old.state ≠ .waitingClientHello → new.peerParameters = old.peerParameters) :
    Hears old new types where
  finished _ complete := by
    cases state.symm.trans complete
  hello _ either := by rcases either with other | other <;> rw [state] at other <;> cases other
  parameters := parameters
  waiting other := by
    cases state.symm.trans other

theorem Hears.cons {old middle new : TLSServerHandshake} {type : UInt8} {types : List UInt8}
    (reacts : Reacts old type (middle, true)) (rest : Hears middle new types) :
    Hears old new (type :: types) := by
  cases reacts with
  | hello _ is state replies =>
    have answered : middle.state ≠ .waitingClientHello ∧ middle.state ≠ .complete := by
      rcases replies.state with state | state <;> rw [state] <;> exact ⟨nofun, nofun⟩
    constructor
    · intro _ complete
      exact List.mem_cons_of_mem _ (rest.finished answered.2 complete)
    · intro _ _
      rw [is]
      exact List.mem_cons_self
    · intro past
      exact absurd state past
    · intro waiting
      exact absurd (rest.waiting waiting).1 answered.1
  | finished _ is state incoming parameters done =>
    have past : middle.state ≠ .waitingClientHello := by rcases done with state | state <;> rw [state] <;> exact nofun
    constructor
    · intro _ _
      rw [is]
      exact List.mem_cons_self
    · intro waiting
      cases state.symm.trans waiting
    · intro _
      exact (rest.parameters past).trans parameters
    · intro waiting
      exact absurd (rest.waiting waiting).1 past

theorem reacts_incoming {tls new : TLSServerHandshake} {type : UInt8}
    (reacts : Reacts tls type (new, true)) : new.incoming = tls.incoming := by
  cases reacts with
  | hello _ _ _ replies => exact replies.incoming
  | finished _ _ _ incoming => exact incoming

theorem hears_processMessages (fuel : Nat) (tls : TLSServerHandshake) (level : QUICLevel) :
    Hears tls (processMessages P fuel tls level) (messageTypes fuel (tls.incoming.get level)) := by
  induction fuel generalizing tls with
  | zero => exact Hears.refl tls _
  | succ fuel ih =>
    unfold processMessages messageTypes
    rw [nextMessage_eq]
    split
    · exact Hears.refl tls _
    cases found : messageOf (tls.incoming.get level) with
    | none => exact Hears.refl tls _
    | some pair =>
      obtain ⟨type, message⟩ := pair
      dsimp only
      have reacts := reacts_handleMessage P tls type message
      cases handled : tls.handleMessage P type message with
      | mk middle goes =>
        rw [handled] at reacts
        cases goes with
        | false =>
          cases reacts
          exact Hears.failed _ rfl fun _ => rfl
        | true =>
          have dropped : (middle.incoming.modify level (List.drop message.length)).get level =
              (tls.incoming.get level).drop message.length := by
            rw [← reacts_incoming reacts]
            exact PerLevel.get_set_self _ _ _
          have rest := ih { middle with
            incoming := middle.incoming.modify level (List.drop message.length) }
          rw [dropped] at rest
          apply Hears.cons reacts
          exact ⟨rest.finished, rest.hello, rest.parameters, rest.waiting⟩

def completes (tls : TLSServerHandshake) (level : QUICLevel) (p : Bytes) : List UInt8 :=
  messageTypes (tls.incoming.get level ++ p).length (tls.incoming.get level ++ p)

theorem hears_receive (p : Bytes) (level : QUICLevel) : Hears tls (tls.receive P p level) (tls.completes level p) := by
  unfold receive completes
  split
  · exact Hears.refl tls _
  extract_lets buffered
  have buffer : buffered.incoming.get level = tls.incoming.get level ++ p := PerLevel.get_set_self _ _ _
  have heard := hears_processMessages P (buffered.incoming.get level).length buffered level
  rw [buffer] at heard ⊢
  exact ⟨heard.finished, heard.hello, heard.parameters, heard.waiting⟩

theorem receive_failed {tls : TLSServerHandshake} (failed : tls.state = .failed) (p : Bytes)
    (level : QUICLevel) : tls.receive P p level = tls := by
  unfold receive
  rw [if_pos (.inl failed)]

end
end TLSServerHandshake
end AvianCore.Quic
