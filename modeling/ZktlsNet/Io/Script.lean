import Mathlib.Data.List.Induction
import Mathlib.Data.List.Infix
import ZktlsNet.Io.SessionProgress

/-!
# Parties that follow a script

The users of two channels agree on who sends what, in which order, and where they
synchronise; each makes the calls that are its part of this, and a flush at the end. A
receive hands over what was sent before it waits, so nobody waits for a party that waits
itself.

- `ScriptStep`, `Script.program`: scripts, and the calls of each side.
- `sentBy`: what calls send, as a function of what they receive.
- `Stage`: where in a call a party is; `Booked`: what its calls have sent and received.
- `WaitsAt`: where a party waits for the other one; `WaitsAt.not_both`: not both wait.
- `script_completes`: from every state of a run that follows a script both parties come to
  its end, and each receive has returned the bytes that the script has there.
- `receive_follows_send`: no receive, and no `sync`, returns before the other party has made
  the call that sends to it.
-/

namespace ZktlsNet

open NetLib

/-! ## Scripts -/

/-- The calls that need nothing of the other party. -/
def Call.alone : Call → Bool
  | .flush | .startAsyncFlush | .stopAsyncFlush => true
  | _ => false

/-- One party sends bytes that the other receives, both synchronise, or one makes a call
that does neither. -/
inductive ScriptStep
  | send (sender : Side) (data : Bytes) (nonempty : data ≠ [])
  | sync
  | own (side : Side) (c : Call) (alone : c.alone = true)

namespace ScriptStep

/-- The part of a side. -/
def calls (side : Side) : ScriptStep → List Call
  | send sender data _ => [if side = sender then .sendData data else .recvData data.length]
  | sync => [.sync]
  | own side' c _ => if side = side' then [c] else []

/-- What a side sends. -/
def chunks (side : Side) : ScriptStep → List Bytes
  | send sender data _ => if side = sender then [data] else []
  | sync => [[0]]
  | own .. => []

end ScriptStep

abbrev Script := List ScriptStep

namespace Script

/-- The part of a side in all steps. -/
def calls (script : Script) (side : Side) : List Call := script.flatMap (·.calls side)

/-- The calls of a side. -/
def program (script : Script) (side : Side) : List Call := script.calls side ++ [.flush]

/-- All that a side sends. -/
def chunks (script : Script) (side : Side) : List Bytes := script.flatMap (·.chunks side)

/-- A script does not wear out the 64-bit numbers. -/
structure Small (script : Script) : Prop where
  count : 3 * (script.length + 1) < 2 ^ 63
  sizes : ∀ side, ∀ data ∈ script.chunks side, data.length + headSize < 2 ^ 63

end Script

def Side.isServer (side : Side) : Bool := side = .server

/-- The call that a side makes. -/
def SessionEvent.call? (side : Side) : SessionEvent → Option Call
  | .own side' (.call c) => if side' = side then some c else none
  | _ => none

/-- The calls that a side has made. -/
def Session.calls (side : Side) (es : List SessionEvent) : List Call :=
  es.filterMap (SessionEvent.call? side)

theorem Session.calls_concat (side : Side) (es : List SessionEvent) (e : SessionEvent) :
    Session.calls side (es ++ [e]) = Session.calls side es ++ (e.call? side).toList := by
  rw [Session.calls, List.filterMap_append, ← Session.calls]
  cases h : e.call? side <;> simp [h]

/-! ## Where in a call a party is -/

/-- What pieces of calls pass to `send_data_internal`, given the byte in `tmp` and the bytes
that they receive. -/
def sentBy (tmp : UInt8) : List Op → Bytes → Bytes
  | [], _ => []
  | .sendDataInternal data :: ops, incoming => data ++ sentBy tmp ops incoming
  | .sendTmp :: ops, incoming => tmp :: sentBy tmp ops incoming
  | .recvDataInternal len :: ops, incoming | .recvMessage len :: ops, incoming =>
    sentBy ((incoming.take len).headD tmp) ops (incoming.drop len)
  | .clearHasSent :: ops, incoming | .startAsyncFlush :: ops, incoming
  | .stopAsyncFlush :: ops, incoming | .join :: ops, incoming => sentBy tmp ops incoming

/-- How much they send does not depend on what they receive. -/
theorem length_sentBy (tmp : UInt8) (ops : List Op) (incoming : Bytes) :
    (sentBy tmp ops incoming).length = (ops.flatMap Op.sending).sum := by
  induction ops generalizing tmp incoming with
  | nil => rfl
  | cons op ops ih => cases op <;> simp [sentBy, Op.sending, ih, Nat.add_comm]

/-- The lengths a piece receives. -/
def Op.wanted : Op → List Nat
  | .recvDataInternal len | .recvMessage len => [len]
  | _ => []

/-- The pieces of calls. -/
def ops (isServer : Bool) (calls : List Call) : List Op := calls.flatMap (·.body isServer)

/-- What is left of the pieces of a call: some of them, or also the rest of a receive, or of
`stop_async_flush`. -/
inductive Stage (body : List Op) : List Op → Prop
  | between {rest : List Op} (h : rest <:+ body) : Stage body rest
  | receiving {before rest : List Op} {len : Nat} (h : .recvDataInternal len :: rest <:+ body)
    (hbefore : before <:+ [.sendDataInternal [], .clearHasSent]) :
    Stage body (before ++ .recvMessage len :: rest)
  | joining {rest : List Op} (h : .stopAsyncFlush :: rest <:+ body) : Stage body (.join :: rest)

/-- One piece, with a byte in `tmp`: what becomes of the running call, and what is passed to
`send_data_internal`. -/
inductive OpMove (tmp : UInt8) : List Op → List Op → List Bytes → Prop
  | send (data : Bytes) (todo : List Op) : OpMove tmp (.sendDataInternal data :: todo) todo [data]
  | sendTmp (todo : List Op) : OpMove tmp (.sendTmp :: todo) todo [[tmp]]
  | receive (len : Nat) (todo : List Op) {before : List Op}
    (h : before = [] ∨ before = [.sendDataInternal [], .clearHasSent]) :
    OpMove tmp (.recvDataInternal len :: todo) (before ++ .recvMessage len :: todo) []
  | clear (todo : List Op) : OpMove tmp (.clearHasSent :: todo) todo []
  | start (todo : List Op) {sends : List Bytes} (h : sends = [] ∨ sends = [[]]) :
    OpMove tmp (.startAsyncFlush :: todo) todo sends
  | stop (todo : List Op) {before : List Op} (h : before = [] ∨ before = [.join]) :
    OpMove tmp (.stopAsyncFlush :: todo) (before ++ todo) []
  | join (todo : List Op) : OpMove tmp (.join :: todo) todo [[]]

/-- A step of the caller is one piece, or goes on with the last one. -/
theorem WebSocketIo.callerStep_cases {σ : Type} [ChannelStream σ] {io io' : WebSocketIo σ}
    (hstep : io.callerStep = some io') :
    io'.isServer = io.isServer ∧ io'.tmp = io.tmp ∧
      (io'.todo = io.todo ∧ io'.sends = io.sends ∨
        ∃ sends, OpMove io.tmp io.todo io'.todo sends ∧ io'.sends = io.sends ++ sends) := by
  unfold callerStep at hstep
  split at hstep
  · unfold opStep at hstep
    split at hstep
    · cases hstep
    all_goals rename_i htodo; rw [htodo]
    · cases hstep
      exact ⟨by simp, by simp, .inr ⟨_, by simpa using .send _ _, by simp⟩⟩
    · cases hstep
      exact ⟨by simp, by simp, .inr ⟨_, by simpa using .sendTmp _, by simp⟩⟩
    · split at hstep <;> cases hstep
      · exact ⟨rfl, rfl, .inr ⟨[], .receive _ _ (.inr rfl), by simp⟩⟩
      · exact ⟨rfl, rfl, .inr ⟨[], .receive _ _ (.inl rfl), by simp⟩⟩
    · cases hstep
      exact ⟨rfl, rfl, .inr ⟨[], .clear _, by simp⟩⟩
    · cases hstep
    · split at hstep <;> cases hstep
      · exact ⟨rfl, rfl, .inr ⟨[], .start _ (.inl rfl), by simp⟩⟩
      · exact ⟨by simp, by simp, .inr ⟨[[]], by simpa using .start _ (.inr rfl), by simp⟩⟩
    · split at hstep
      · split at hstep
        · cases hstep
        · cases hstep
          exact ⟨rfl, rfl, .inr ⟨[], .stop _ (.inr rfl), by simp⟩⟩
      · cases hstep
        exact ⟨rfl, rfl, .inr ⟨[], .stop _ (.inl rfl), by simp⟩⟩
    · split at hstep
      · cases hstep
        exact ⟨by simp, by simp, .inr ⟨[[]], by simpa using .join _, by simp⟩⟩
      · cases hstep
  · split at hstep
    · cases hstep
    · cases hstep
      exact ⟨rfl, rfl, .inl ⟨rfl, rfl⟩⟩

namespace OpMove

variable {tmp : UInt8} {todo todo' : List Op} {sends : List Bytes}

theorem ne_nil (h : OpMove tmp todo todo' sends) : todo ≠ [] := by
  cases h <;> simp

theorem last {data : Bytes} (h : OpMove tmp [.sendDataInternal data] todo' sends) :
    todo' = [] ∧ sends = [data] := by
  cases h
  exact ⟨rfl, rfl⟩

/-- What is sent is what the pieces send, whatever they receive and whatever comes after
them. -/
theorem sent (h : OpMove tmp todo todo' sends) (more : List Op) (incoming : Bytes) :
    sends.flatten ++ sentBy tmp (todo' ++ more) incoming = sentBy tmp (todo ++ more) incoming := by
  cases h with
  | receive _ _ h | stop _ h => rcases h with rfl | rfl <;> simp [sentBy]
  | start _ h => rcases h with rfl | rfl <;> simp [sentBy]
  | send | sendTmp | clear | join => simp [sentBy]

theorem wanted (h : OpMove tmp todo todo' sends) :
    todo'.flatMap Op.wanted = todo.flatMap Op.wanted := by
  cases h with
  | receive _ _ h | stop _ h => rcases h with rfl | rfl <;> simp [Op.wanted]
  | send | sendTmp | clear | start | join => simp [Op.wanted]

end OpMove

namespace Stage

variable {body todo todo' : List Op} {tmp : UInt8} {sends : List Bytes}

theorem tail {op : Op} {rest : List Op} (h : op :: rest <:+ body) : rest <:+ body :=
  (List.suffix_cons op rest).trans h

/-- A piece leads to the next stage. -/
theorem move (h : Stage body todo) (hmove : OpMove tmp todo todo' sends) : Stage body todo' := by
  cases h with
  | between h =>
    cases hmove with
    | send | sendTmp | clear | start | join => exact .between (tail h)
    | receive len todo hbefore =>
      rcases hbefore with rfl | rfl
      · exact .receiving h (List.nil_suffix)
      · exact .receiving h (List.suffix_refl _)
    | stop todo hbefore =>
      rcases hbefore with rfl | rfl
      · exact .between (tail h)
      · exact .joining h
  | @receiving before rest len h hbefore =>
    cases before with
    | nil => cases hmove
    | cons op before =>
      have hbefore' := tail hbefore
      have hop : op = .sendDataInternal [] ∨ op = .clearHasSent := by
        simpa using hbefore.subset (List.mem_cons_self ..)
      rcases hop with rfl | rfl
      · cases hmove
        exact .receiving h hbefore'
      · cases hmove
        exact .receiving h hbefore'
  | joining h =>
    cases hmove
    exact .between (tail h)

/-- A party that waits for bytes is in a receive. -/
theorem of_recvMessage {len : Nat} (h : Stage body (.recvMessage len :: todo)) :
    .recvMessage len :: todo <:+ body ∨ .recvDataInternal len :: todo <:+ body := by
  generalize hall : Op.recvMessage len :: todo = all at h
  cases h with
  | between h => exact .inl (hall ▸ h)
  | @receiving before rest _ h hbefore =>
    cases before with
    | nil =>
      cases hall
      exact .inr h
    | cons op before =>
      obtain ⟨rfl, -⟩ := List.cons.inj hall
      have hop := hbefore.subset (List.mem_cons_self ..)
      simp at hop
  | joining => cases hall

/-- The end of a receive leads to the next stage, too. -/
theorem received {len : Nat} (h : Stage body (.recvMessage len :: todo)) : Stage body todo :=
  .between (h.of_recvMessage.elim tail tail)

/-- A party that waits for bytes is in a receive of its own, or in a `sync`. -/
theorem waiting {c : Call} {isServer : Bool} {len : Nat}
    (h : Stage (c.body isServer) (.recvMessage len :: todo)) :
    c = .recvData len ∧ todo = [] ∨ c = .sync ∧ len = 1 ∧
      todo = if isServer then [] else [.sendTmp, .sendDataInternal []] := by
  rcases h.of_recvMessage with h | h
  · have hmem := h.subset (List.mem_cons_self ..)
    cases c <;> cases isServer <;> simp [Call.body] at hmem
  · cases c with
    | recvData n =>
      obtain ⟨rfl, rfl⟩ : len = n ∧ todo = [] := by
        simpa [Call.body, List.suffix_cons_iff] using h
      exact .inl ⟨rfl, rfl⟩
    | sync =>
      refine .inr ⟨rfl, ?_⟩
      cases isServer <;> simpa [Call.body, List.suffix_cons_iff] using h
    | sendData | flush | startAsyncFlush | stopAsyncFlush =>
      have hmem := h.subset (List.mem_cons_self ..)
      simp [Call.body] at hmem

end Stage

/-! ## What the calls have done so far -/

/-- A step that is no call: none of the pieces of the running call, one of them, or the end
of a receive. -/
theorem Peer.step_moves {peer peer' : Peer} {e : Event} (hstep : peer.step e = some peer')
    (he : ∀ c, e ≠ .call c) :
    peer'.io.isServer = peer.io.isServer ∧
      (peer'.received = peer.received ∧ peer'.io.tmp = peer.io.tmp ∧
          (peer'.io.todo = peer.io.todo ∧ peer'.io.sends = peer.io.sends ∨
            ∃ sends, OpMove peer.io.tmp peer.io.todo peer'.io.todo sends ∧
              peer'.io.sends = peer.io.sends ++ sends) ∨
        ∃ len todo res, peer.io.todo = .recvMessage len :: todo ∧
          peer'.received = peer.received ++ [(len, res)] ∧ peer'.io.sends = peer.io.sends ∧
          peer'.io.tmp = (res.toOption.getD []).headD peer.io.tmp ∧
          peer'.io.todo = if res.isOk then todo else []) := by
  obtain ⟨hio, -, hreceived⟩ := step_cases hstep
  cases e with
  | call c => exact absurd rfl (he c)
  | caller =>
    obtain ⟨hrole, htmp, hmove⟩ := WebSocketIo.callerStep_cases hio
    exact ⟨hrole, .inl ⟨by simpa [returned] using hreceived, htmp, hmove⟩⟩
  | flusher =>
    obtain ⟨hrole, -, -, htodo, htmp, hsends, -⟩ := WebSocketIo.flusherStep_caller hio
    exact ⟨hrole, .inl ⟨by simpa [returned] using hreceived, htmp, .inl ⟨htodo, hsends⟩⟩⟩
  | recvReturn fuel =>
    obtain ⟨len, todo, res, ctx, stream, -, htodo, hcall, -, hio'⟩ :=
      WebSocketIo.recvReturn_cases hio
    rw [hio']
    refine ⟨rfl, .inr ⟨len, todo, res, htodo, ?_, rfl, rfl, rfl⟩⟩
    rw [hreceived, returned, htodo]
    simp only [hcall]

/-- How far a party is with the calls it has made: where in the last one, and what they
have sent and received as long as no receive has failed. -/
structure Booked (isServer : Bool) (calls : List Call) (peer : Peer) : Prop where
  role : peer.io.isServer = isServer
  idle : calls = [] → peer.io.todo = []
  stage {before : List Call} {c : Call} : calls = before ++ [c] →
    Stage (c.body isServer) peer.io.todo
  sending : peer.sending.Sublist ((ops isServer calls).flatMap Op.sending)
  flushed {before : List Call} : calls = before ++ [.flush] →
    peer.io.todo = [.sendDataInternal []] ∨
      peer.io.todo = [] ∧ ∃ sends, peer.io.sends = sends ++ [[]]
  sent : peer.Served → ∀ more incoming,
    peer.io.sends.flatten ++ sentBy peer.io.tmp (peer.io.todo ++ more) incoming =
      sentBy 0 (ops isServer calls ++ more) (peer.bytes ++ incoming)
  wanted : peer.Served → peer.received.map Prod.fst ++ peer.io.todo.flatMap Op.wanted =
    (ops isServer calls).flatMap Op.wanted

namespace Booked

variable {isServer : Bool} {calls : List Call} {peer peer' : Peer}

/-- Only these fields matter. -/
theorem same (h : Booked isServer calls peer) (hrole : peer'.io.isServer = peer.io.isServer)
    (htodo : peer'.io.todo = peer.io.todo) (htmp : peer'.io.tmp = peer.io.tmp)
    (hsends : peer'.io.sends = peer.io.sends) (hreceived : peer'.received = peer.received) :
    Booked isServer calls peer' where
  role := hrole.trans h.role
  idle hcalls := htodo.trans (h.idle hcalls)
  stage hcalls := by
    rw [htodo]
    exact h.stage hcalls
  sending := by
    rw [Peer.sending, htodo, hsends]
    exact h.sending
  flushed hcalls := by
    rw [htodo, hsends]
    exact h.flushed hcalls
  sent hall more incoming := by
    rw [htodo, htmp, hsends, Peer.bytes, hreceived]
    exact h.sent (by rwa [Peer.Served, ← hreceived]) more incoming
  wanted hall := by
    rw [htodo, hreceived]
    exact h.wanted (by rwa [Peer.Served, ← hreceived])

/-- A further call. -/
theorem call {c : Call} (h : Booked isServer calls peer)
    (hstep : peer.step (.call c) = some peer') : Booked isServer (calls ++ [c]) peer' := by
  obtain ⟨hio, -, hreceived⟩ := Peer.step_cases hstep
  simp only [WebSocketIo.step] at hio
  split at hio
  · rename_i hfree
    have hio' := (Option.some.inj hio).symm
    have hrole : peer'.io.isServer = isServer := by rw [hio']; exact h.role
    have htodo : peer'.io.todo = c.body isServer := by rw [hio', ← h.role]
    have htmp : peer'.io.tmp = peer.io.tmp := by rw [hio']
    have hsends : peer'.io.sends = peer.io.sends := by rw [hio']
    have hreceived : peer'.received = peer.received := by simpa [Peer.returned] using hreceived
    have hserved : peer'.Served → peer.Served := by simp [Peer.Served, hreceived]
    have hops : ops isServer (calls ++ [c]) = ops isServer calls ++ c.body isServer := by
      simp [ops]
    constructor
    case role => exact hrole
    case idle => simp
    case stage =>
      intro before c' hcalls
      obtain rfl : c = c' := by simpa using (List.append_inj' hcalls rfl).2
      rw [htodo]
      exact .between (List.suffix_refl _)
    case sending =>
      have hsending := h.sending
      rw [Peer.sending, hfree.2, List.flatMap_nil, List.append_nil] at hsending
      rw [Peer.sending, htodo, hsends, hops, List.flatMap_append]
      exact hsending.append_right _
    case flushed =>
      intro before hcalls
      obtain rfl : c = .flush := by simpa using (List.append_inj' hcalls rfl).2
      exact .inl htodo
    case sent =>
      -- the pieces of the call are the next ones
      intro hall more incoming
      have hsent := h.sent (hserved hall) (c.body isServer ++ more) incoming
      rw [hfree.2, List.nil_append, ← List.append_assoc] at hsent
      rw [htodo, htmp, hsends, hops, Peer.bytes, hreceived]
      exact hsent
    case wanted =>
      intro hall
      have hwanted := h.wanted (hserved hall)
      rw [hfree.2, List.flatMap_nil, List.append_nil] at hwanted
      rw [htodo, hreceived, hops, List.flatMap_append, hwanted]
  · cases hio

/-- A step of the running call. -/
theorem step {e : Event} (h : Booked isServer calls peer) (hstep : peer.step e = some peer')
    (he : ∀ c, e ≠ .call c) : Booked isServer calls peer' := by
  have hsending := (Peer.sending_step hstep he).trans h.sending
  obtain ⟨hrole, hmove⟩ := Peer.step_moves hstep he
  have hrole := hrole.trans h.role
  rcases hmove with ⟨hreceived, htmp, hmove⟩ |
    ⟨len, todo, res, htodo, hreceived, hsends, htmp, htodo'⟩
  · have hserved : peer'.Served → peer.Served := by simp [Peer.Served, hreceived]
    rcases hmove with ⟨htodo, hsends⟩ | ⟨sends, hmove, hsends⟩
    · exact h.same (hrole.trans h.role.symm) htodo htmp hsends hreceived
    · constructor
      case role => exact hrole
      case sending => exact hsending
      case idle => exact fun hcalls => absurd (h.idle hcalls) hmove.ne_nil
      case stage => exact fun hcalls => (h.stage hcalls).move hmove
      case flushed =>
        intro before hcalls
        have htodo := (h.flushed hcalls).resolve_right fun hdone => hmove.ne_nil hdone.1
        rw [htodo] at hmove
        obtain ⟨htodo', rfl⟩ := hmove.last
        exact .inr ⟨htodo', peer.io.sends, hsends⟩
      case sent =>
        intro hall more incoming
        rw [hsends, List.flatten_append, List.append_assoc, htmp, hmove.sent,
          h.sent (hserved hall), Peer.bytes, Peer.bytes, hreceived]
      case wanted =>
        intro hall
        rw [hreceived, hmove.wanted, h.wanted (hserved hall)]
  · -- a receive has returned; if it has failed nothing is left of its call
    have hserved : peer'.Served → peer.Served ∧ peer'.io.todo = todo := by
      intro hall
      refine ⟨fun n r hr => hall n r (by rw [hreceived]; exact List.mem_append_left _ hr), ?_⟩
      obtain ⟨buf, rfl, -⟩ := hall len res (by rw [hreceived]; simp)
      exact htodo'
    constructor
    case role => exact hrole
    case sending => exact hsending
    case idle => exact fun hcalls => absurd (htodo.symm.trans (h.idle hcalls)) (by simp)
    case stage =>
      intro before c hcalls
      have hstage := (htodo ▸ h.stage hcalls).received
      rw [htodo']
      split
      · exact hstage
      · exact .between (List.nil_suffix)
    case flushed =>
      intro before hcalls
      rcases h.flushed hcalls with hlast | ⟨hlast, -⟩
      · simp [hlast] at htodo
      · simp [hlast] at htodo
    case sent =>
      -- its bytes are the next ones that the calls receive
      intro hall more incoming
      obtain ⟨buf, rfl, rfl⟩ := hall len res (by rw [hreceived]; simp)
      obtain ⟨hall, hrest⟩ := hserved hall
      have hbytes : peer'.bytes = peer.bytes ++ buf := by
        rw [Peer.bytes, hreceived, List.flatMap_append, List.flatMap_singleton]
        rfl
      have hsent := h.sent hall more (buf ++ incoming)
      rw [htodo, List.cons_append, sentBy, List.take_left, List.drop_left, ← List.append_assoc,
        ← hbytes] at hsent
      rw [hrest, hsends, htmp]
      exact hsent
    case wanted =>
      intro hall
      obtain ⟨hall, hrest⟩ := hserved hall
      rw [hrest, hreceived, ← h.wanted hall, htodo]
      simp [Op.wanted]

/-- How much is sent is known beforehand. -/
theorem length_sent (h : Booked isServer calls peer) (hserved : peer.Served) :
    peer.io.sends.flatten.length + (peer.io.todo.flatMap Op.sending).sum =
      ((ops isServer calls).flatMap Op.sending).sum := by
  have hsent := congrArg List.length (h.sent hserved [] [])
  simpa [length_sentBy] using hsent

end Booked

namespace Session

/-- A step of a session, as one side sees it: a step of its own, or none of its calls. -/
theorem step_side {s s' : Session} {e : SessionEvent} (hstep : s.step e = some s') (side : Side) :
    (∃ own, e = .own side own ∧ (s side).step own = some (s' side)) ∨
      e.call? side = none ∧ (s' side).io.isServer = (s side).io.isServer ∧
        (s' side).io.todo = (s side).io.todo ∧ (s' side).io.tmp = (s side).io.tmp ∧
        (s' side).io.sends = (s side).io.sends ∧ (s' side).received = (s side).received := by
  cases e with
  | own side' own =>
    obtain ⟨peer', hpeer, rfl⟩ := Option.map_eq_some_iff.mp hstep
    by_cases hside : side' = side
    · subst hside
      exact .inl ⟨own, rfl, by rw [Function.update_self, hpeer]⟩
    · rw [Function.update_of_ne (Ne.symm hside)]
      refine .inr ⟨?_, rfl, rfl, rfl, rfl, rfl⟩
      cases own <;> simp [SessionEvent.call?, hside]
  | deliver side' n =>
    cases hstep
    refine .inr ⟨rfl, ?_⟩
    by_cases hside : side = side'
    · subst hside
      rw [Function.update_self]
      exact ⟨rfl, rfl, rfl, rfl, rfl⟩
    · rw [Function.update_of_ne hside, Side.eq_other_of_ne hside, Function.update_self]
      exact ⟨rfl, rfl, rfl, rfl, rfl⟩
  | wake side' =>
    cases hstep
    refine .inr ⟨rfl, ?_⟩
    by_cases hside : side = side'
    · subst hside
      rw [Function.update_self]
      exact ⟨rfl, rfl, rfl, rfl, rfl⟩
    · rw [Function.update_of_ne hside]
      exact ⟨rfl, rfl, rfl, rfl, rfl⟩

/-- **Every run**: what each party has done is its calls. -/
theorem booked_run {es : List SessionEvent} {s : Session} (hrun : machine.run es = some s)
    (side : Side) : Booked side.isServer (calls side es) (s side) := by
  induction es using List.reverseRecOn generalizing s with
  | nil =>
    cases hrun
    have hcalls : calls side [] = [] := rfl
    rw [hcalls]
    refine ⟨?_, fun _ => rfl, by simp, ?_, by simp, fun _ _ _ => rfl, fun _ => rfl⟩
    · cases side <;> rfl
    · exact List.Sublist.refl _
  | append_singleton es e ih =>
    obtain ⟨s', hrun', hstep⟩ := Machine.runFrom_concat hrun
    have h := ih hrun'
    rw [calls_concat]
    rcases step_side hstep side with
      ⟨own, rfl, hpeer⟩ | ⟨hnone, hrole, htodo, htmp, hsends, hreceived⟩
    · cases own with
      | call c => simpa [SessionEvent.call?] using h.call hpeer
      | caller | recvReturn | flusher => simpa [SessionEvent.call?] using h.step hpeer (by simp)
    · rw [hnone, Option.toList_none, List.append_nil]
      exact h.same hrole htodo htmp hsends hreceived

end Session

/-! ## The calls of a script -/

theorem ops_append (isServer : Bool) (calls calls' : List Call) :
    ops isServer (calls ++ calls') = ops isServer calls ++ ops isServer calls' :=
  List.flatMap_append

namespace ScriptStep

/-- The part of a side in a call that needs nothing of the other party. -/
theorem calls_own (side side' : Side) (c : Call) (alone : c.alone = true) :
    (own side' c alone).calls side = [] ∨ (own side' c alone).calls side = [.flush] ∨
      (own side' c alone).calls side = [.startAsyncFlush] ∨
      (own side' c alone).calls side = [.stopAsyncFlush] := by
  by_cases h : side = side'
  · cases c <;> simp [calls, h, Call.alone] at alone ⊢
  · simp [calls, h]

variable (side : Side) (step : ScriptStep)

theorem calls_length_le : (step.calls side).length ≤ 1 := by
  cases step with
  | send | sync => exact Nat.le_refl _
  | own side' => by_cases h : side = side' <;> simp [calls, h]

/-- A step has a side send its bytes, the client if it receives those of the server. -/
theorem sent (tmp : UInt8) (more : List Op) {incoming : Bytes}
    (hclient : side = .client → (step.chunks .server).flatten <+: incoming) :
    ∃ tmp', sentBy tmp (ops side.isServer (step.calls side) ++ more) incoming =
      (step.chunks side).flatten ++
        sentBy tmp' more (incoming.drop (step.chunks side.other).flatten.length) := by
  cases step with
  | send sender data =>
    by_cases h : side = sender
    · subst h
      exact ⟨tmp, by simp [ops, calls, chunks, Call.body, sentBy]⟩
    · obtain rfl := Side.eq_other_of_ne (Ne.symm h)
      exact ⟨_, by simp [ops, calls, chunks, h, Call.body, sentBy]; rfl⟩
  | sync =>
    cases side with
    | server => exact ⟨_, rfl⟩
    | client =>
      -- it sends back the byte of the server
      obtain ⟨rest, rfl⟩ := hclient rfl
      exact ⟨_, rfl⟩
  | own side' c alone =>
    refine ⟨tmp, ?_⟩
    rcases calls_own side side' c alone with h | h | h | h <;> rw [h] <;>
      simp [ops, chunks, Call.body, sentBy]

theorem wanted :
    (ops side.isServer (step.calls side)).flatMap Op.wanted =
      (step.chunks side.other).map List.length := by
  cases step with
  | send sender =>
    by_cases h : side = sender
    · subst h
      simp [ops, calls, chunks, Call.body, Op.wanted]
    · obtain rfl := Side.eq_other_of_ne (Ne.symm h)
      simp [ops, calls, chunks, h, Call.body, Op.wanted]
  | sync => cases side <;> rfl
  | own side' c alone =>
    rcases calls_own side side' c alone with h | h | h | h <;> rw [h] <;> rfl

theorem sending_length_le :
    ((ops side.isServer (step.calls side)).flatMap Op.sending).length ≤ 3 := by
  cases step with
  | send sender => by_cases h : side = sender <;> simp [ops, calls, h, Call.body, Op.sending]
  | sync => cases side <;> decide
  | own side' c alone =>
    rcases calls_own side side' c alone with h | h | h | h <;> rw [h] <;>
      simp [ops, Call.body, Op.sending]

variable {side step} in
theorem mem_sending {size : Nat}
    (h : size ∈ (ops side.isServer (step.calls side)).flatMap Op.sending) :
    size = 0 ∨ size ∈ (step.chunks side).map List.length := by
  cases step with
  | send sender data =>
    by_cases hside : side = sender
    · simp [ops, calls, hside, Call.body, Op.sending] at h
      simp [chunks, hside, h]
    · simp [ops, calls, hside, Call.body, Op.sending] at h
      exact .inl h
  | sync =>
    have hsize : size = 0 ∨ size = 1 := by
      cases side <;> simp [ops, calls, Call.body, Op.sending, Side.isServer] at h <;> tauto
    simpa [chunks] using hsize
  | own side' c alone =>
    refine .inl ?_
    rcases calls_own side side' c alone with hcalls | hcalls | hcalls | hcalls <;>
      rw [hcalls] at h
    · cases h
    all_goals exact List.mem_singleton.mp h

end ScriptStep

namespace Script

variable (script : Script) (side : Side)

theorem calls_append (done rest : Script) :
    Script.calls (done ++ rest) side = done.calls side ++ rest.calls side :=
  List.flatMap_append

theorem chunks_append (done rest : Script) :
    Script.chunks (done ++ rest) side = done.chunks side ++ rest.chunks side :=
  List.flatMap_append

/-- The calls of a side send its bytes, those of the client if it receives those of the
server. -/
theorem sent (tmp : UInt8) (more : List Op) {incoming : Bytes}
    (hclient : side = .client → (script.chunks .server).flatten <+: incoming) :
    ∃ tmp', sentBy tmp (ops side.isServer (script.calls side) ++ more) incoming =
      (script.chunks side).flatten ++
        sentBy tmp' more (incoming.drop (script.chunks side.other).flatten.length) := by
  induction script generalizing tmp incoming with
  | nil => exact ⟨tmp, rfl⟩
  | cons step rest ih =>
    have hchunks (side : Side) : (Script.chunks (step :: rest) side).flatten =
        (step.chunks side).flatten ++ (Script.chunks rest side).flatten := by
      rw [chunks, chunks, List.flatMap_cons, List.flatten_append]
    have hcalls : ops side.isServer (Script.calls (step :: rest) side) ++ more =
        ops side.isServer (step.calls side) ++
          (ops side.isServer (Script.calls rest side) ++ more) := by
      rw [calls, calls, List.flatMap_cons, ops_append, List.append_assoc]
    rw [hchunks] at hclient
    obtain ⟨tmp₁, hstep⟩ := step.sent side tmp (ops side.isServer (Script.calls rest side) ++ more)
      fun hside => (List.prefix_append _ _).trans (hclient hside)
    have hlater : side = .client → (Script.chunks rest .server).flatten <+:
        incoming.drop (step.chunks side.other).flatten.length := by
      rintro rfl
      obtain ⟨later, rfl⟩ := hclient rfl
      refine ⟨later, ?_⟩
      rw [List.append_assoc]
      exact (List.drop_left ..).symm
    obtain ⟨tmp₂, hrest⟩ := ih tmp₁ hlater
    refine ⟨tmp₂, ?_⟩
    rw [hcalls, hstep, hrest, hchunks, hchunks, List.append_assoc, List.drop_drop,
      List.length_append]

theorem length_sent : ((ops side.isServer (script.calls side)).flatMap Op.sending).sum =
    (script.chunks side).flatten.length := by
  obtain ⟨tmp', hsent⟩ := script.sent side 0 [] (fun _ => List.prefix_refl _)
  rw [List.append_nil, sentBy, List.append_nil] at hsent
  rw [← length_sentBy, hsent]

theorem wanted : (ops side.isServer (script.calls side)).flatMap Op.wanted =
    (script.chunks side.other).map List.length := by
  induction script with
  | nil => rfl
  | cons step rest ih =>
    rw [calls, List.flatMap_cons, ops_append, List.flatMap_append, ScriptStep.wanted]
    rw [calls] at ih
    rw [ih, chunks, chunks, List.flatMap_cons, List.map_append]

theorem sending_length_le :
    ((ops side.isServer (script.calls side)).flatMap Op.sending).length ≤ 3 * script.length := by
  induction script with
  | nil => exact Nat.zero_le _
  | cons step rest ih =>
    rw [calls, List.flatMap_cons, ops_append, List.flatMap_append, List.length_append,
      List.length_cons]
    have hstep := step.sending_length_le side
    rw [calls] at ih
    omega

variable {script side} in
theorem mem_sending {size : Nat}
    (h : size ∈ (ops side.isServer (script.calls side)).flatMap Op.sending) :
    size = 0 ∨ size ∈ (script.chunks side).map List.length := by
  induction script with
  | nil => cases h
  | cons step rest ih =>
    rw [calls, List.flatMap_cons, ops_append, List.flatMap_append, List.mem_append] at h
    rw [chunks, List.flatMap_cons, List.map_append, List.mem_append]
    rcases h with h | h
    · exact (ScriptStep.mem_sending h).imp_right .inl
    · exact (ih h).imp_right .inr

end Script

/-- As long as a party follows a small script its calls do not wear out the numbers. -/
theorem Booked.roomy {script : Script} {side : Side} {calls : List Call} {peer : Peer}
    (h : Booked side.isServer calls peer) (hsmall : script.Small)
    (hcalls : calls <+: script.program side) : peer.Roomy := by
  have hsub : peer.sending.Sublist
      ((ops side.isServer (script.program side)).flatMap Op.sending) := by
    obtain ⟨rest, hrest⟩ := hcalls
    rw [← hrest, ops_append, List.flatMap_append]
    exact h.sending.trans (List.sublist_append_left _ _)
  have hprogram : (ops side.isServer (script.program side)).flatMap Op.sending =
      (ops side.isServer (script.calls side)).flatMap Op.sending ++ [0] := by
    rw [Script.program, ops_append, List.flatMap_append]
    rfl
  rw [hprogram] at hsub
  constructor
  · have hle := hsub.length_le
    have hsteps := script.sending_length_le side
    have hcount := hsmall.count
    rw [List.length_append, List.length_singleton] at hle
    omega
  · intro size hsize
    have hmem : size = 0 ∨ size ∈ (script.chunks side).map List.length := by
      rcases List.mem_append.mp (hsub.subset hsize) with hsize | hsize
      · exact Script.mem_sending hsize
      · exact .inl (List.mem_singleton.mp hsize)
    rcases hmem with rfl | hmem
    · decide
    · obtain ⟨data, hdata, rfl⟩ := List.mem_map.mp hmem
      exact hsmall.sizes side data hdata

/-! ## Where a party waits -/

/-- A receive among the calls of a party belongs to a step of the script. -/
theorem Script.calls_split {script : Script} {side : Side} {before : List Call} {c : Call}
    (h : before ++ [c] <+: script.program side) (hc : c ≠ .flush) :
    ∃ (done : Script) (step : ScriptStep), done ++ [step] <+: script ∧ step.calls side = [c] ∧
      before = done.calls side := by
  induction script generalizing before with
  | nil =>
    have hmem : c ∈ Script.program [] side := h.subset (by simp)
    exact absurd (List.mem_singleton.mp hmem) hc
  | cons step script ih =>
    have hprogram : Script.program (step :: script) side =
        step.calls side ++ Script.program script side := by
      simp [program, calls]
    have hlength := step.calls_length_le side
    rw [hprogram] at h
    cases hcalls : step.calls side with
    | nil =>
      rw [hcalls, List.nil_append] at h
      obtain ⟨done, step', hdone, hstep', rfl⟩ := ih h
      refine ⟨step :: done, step', by simpa using hdone, hstep', ?_⟩
      simp [calls, hcalls]
    | cons d more =>
      obtain rfl : more = [] := by simpa [hcalls] using hlength
      rw [hcalls, List.singleton_append] at h
      cases before with
      | nil =>
        obtain ⟨rfl, -⟩ := List.cons_prefix_cons.mp h
        exact ⟨[], step, by simp, hcalls, rfl⟩
      | cons d' before =>
        obtain ⟨rfl, htail⟩ := List.cons_prefix_cons.mp h
        obtain ⟨done, step', hdone, hstep', rfl⟩ := ih htail
        refine ⟨step :: done, step', by simpa using hdone, hstep', ?_⟩
        simp [calls, hcalls]

theorem ScriptStep.of_recvData {side : Side} {step : ScriptStep} {len : Nat}
    (h : step.calls side = [.recvData len]) :
    ∃ data nonempty, step = .send side.other data nonempty ∧ data.length = len := by
  cases step with
  | send sender data nonempty =>
    by_cases hside : side = sender
    · simp [calls, hside] at h
    · obtain rfl := Side.eq_other_of_ne (Ne.symm hside)
      simp [calls, hside] at h
      exact ⟨data, nonempty, rfl, h⟩
  | sync => simp [calls] at h
  | own side' c alone =>
    rcases calls_own side side' c alone with hcalls | hcalls | hcalls | hcalls <;>
      simp [hcalls] at h

theorem ScriptStep.of_sync {side : Side} {step : ScriptStep} (h : step.calls side = [.sync]) :
    step = .sync := by
  cases step with
  | send sender data nonempty => by_cases hside : side = sender <;> simp [calls, hside] at h
  | sync => rfl
  | own side' c alone =>
    rcases calls_own side side' c alone with hcalls | hcalls | hcalls | hcalls <;>
      simp [hcalls] at h

/-- All that a receive returned. -/
theorem Peer.Served.bytes_length {peer : Peer} (h : peer.Served) :
    peer.bytes.length = (peer.received.map Prod.fst).sum := by
  unfold Served at h
  unfold bytes
  generalize peer.received = received at h ⊢
  induction received with
  | nil => rfl
  | cons r rest ih =>
    obtain ⟨len, res⟩ := r
    obtain ⟨buf, rfl, rfl⟩ := h len res (List.mem_cons_self ..)
    rw [List.flatMap_cons, List.length_append,
      ih fun len res hmem => h len res (List.mem_cons_of_mem _ hmem)]
    rfl

/-- The party has passed a part of the script and handed over its bytes, but waits for those
of the next step, which the other one has not handed over. In a `sync` the server waits after
it has sent. -/
structure WaitsAt (script : Script) (side : Side) (peer other : Peer) (done : Script)
    (step : ScriptStep) : Prop where
  position : done ++ [step] <+: script
  receives : step = .sync ∨ ∃ data nonempty, step = .send side.other data nonempty
  handed : (done.chunks side).flatten.length ≤ peer.handedOver.length
  first : step = .sync → side = .server →
    ((Script.chunks (done ++ [step]) side).flatten.length ≤ peer.handedOver.length)
  lacks : other.handedOver.length < (Script.chunks (done ++ [step]) side.other).flatten.length

/-- A party that follows a script waits at a step of it. -/
theorem Booked.waitsAt {script : Script} {side : Side} {calls : List Call} {peer other : Peer}
    (h : Booked side.isServer calls peer) (hcalls : calls <+: script.program side)
    (hserved : peer.Served) (hhanded : peer.handedOver = peer.io.sends.flatten)
    (hwaits : peer.Waits other) : ∃ done step, WaitsAt script side peer other done step := by
  obtain ⟨len, todo, htodo, hlacks⟩ := hwaits
  obtain rfl | ⟨before, c, rfl⟩ := List.eq_nil_or_concat' calls
  · rw [h.idle rfl] at htodo
    cases htodo
  · have hsent := h.length_sent hserved
    have hwanted := h.wanted hserved
    have hwhere := (htodo ▸ h.stage rfl).waiting
    have hc : c ≠ .flush := by
      rcases hwhere with ⟨rfl, -⟩ | ⟨rfl, -⟩ <;> simp
    obtain ⟨done, step, hposition, hstep, rfl⟩ := Script.calls_split hcalls hc
    rw [ops_append, List.flatMap_append, htodo, Script.wanted] at hwanted
    rw [ops_append, List.flatMap_append, htodo, List.sum_append, Script.length_sent] at hsent
    -- it has received all that the script has before this step
    have hbytes : peer.received.map Prod.fst = (done.chunks side.other).map List.length →
        peer.bytes.length = (done.chunks side.other).flatten.length := by
      intro heq
      rw [hserved.bytes_length, heq, List.length_flatten]
    have hchunk := Script.chunks_append side.other done [step]
    rcases hwhere with ⟨rfl, rfl⟩ | ⟨rfl, rfl, rfl⟩
    · obtain ⟨data, nonempty, rfl, rfl⟩ := ScriptStep.of_recvData hstep
      have hbytes := hbytes (by simpa [ops, Call.body, Op.wanted] using hwanted)
      have hsent : peer.io.sends.flatten.length = (done.chunks side).flatten.length := by
        simpa [ops, Call.body, Op.sending] using hsent
      have hpos := List.length_pos_iff.mpr nonempty
      refine ⟨done, _, hposition, .inr ⟨data, nonempty, rfl⟩, ?_, by simp, ?_⟩
      · rw [hhanded, hsent]
      · rw [hchunk, List.flatten_append, List.length_append, ← hbytes]
        simp [Script.chunks, ScriptStep.chunks]
        omega
    · obtain rfl := ScriptStep.of_sync hstep
      have hbytes := hbytes (by
        cases side <;> simpa [ops, Call.body, Op.wanted, Side.isServer] using hwanted)
      refine ⟨done, .sync, hposition, .inl rfl, ?_, ?_, ?_⟩
      · rw [hhanded]
        cases side <;> simp [ops, Call.body, Op.sending, Side.isServer] at hsent ⊢ <;> omega
      · rintro - rfl
        rw [hhanded, Script.chunks_append]
        simp [ops, Call.body, Op.sending, Side.isServer] at hsent
        simp [hsent, Script.chunks, ScriptStep.chunks]
      · rw [hchunk, List.flatten_append, List.length_append, ← hbytes]
        simpa [Script.chunks, ScriptStep.chunks] using hlacks

namespace WaitsAt

variable {script : Script} {side : Side} {peer other : Peer} {done done' : Script}
  {step step' : ScriptStep}

/-- The other party has not passed that step. -/
theorem not_passed (h : WaitsAt script side peer other done step) {all : Script}
    (hpart : done ++ [step] <+: all) :
    other.handedOver.length < (all.chunks side.other).flatten.length := by
  obtain ⟨rest, rfl⟩ := hpart
  rw [Script.chunks_append, List.flatten_append, List.length_append]
  exact Nat.lt_add_right _ h.lacks

theorem not_before (h : WaitsAt script side peer other done step)
    (h' : WaitsAt script side.other other peer done' step') : ¬ done ++ [step] <+: done' :=
  fun hpart => Nat.lt_irrefl _ (Nat.lt_of_lt_of_le (h.not_passed hpart) h'.handed)

/-- **The parties do not wait for each other**: the one that is behind waits for bytes that
the other has handed over, and in a `sync` so does the client. -/
theorem not_both (h : WaitsAt script side peer other done step)
    (h' : WaitsAt script side.other other peer done' step') : False := by
  have hback : ¬ done' ++ [step'] <+: done := h'.not_before (by rwa [Side.other_other])
  have hlacks' := h'.lacks
  rw [Side.other_other] at hlacks'
  by_cases heq : done ++ [step] = done' ++ [step']
  · obtain ⟨rfl, hstep⟩ := List.append_inj' heq rfl
    obtain rfl := (List.cons.inj hstep).1
    rcases h.receives with rfl | ⟨data, nonempty, rfl⟩
    · cases side with
      | server => exact Nat.lt_irrefl _ (Nat.lt_of_lt_of_le hlacks' (h.first rfl rfl))
      | client => exact Nat.lt_irrefl _ (Nat.lt_of_lt_of_le h.lacks (h'.first rfl rfl))
    · rcases h'.receives with hsync | ⟨data', nonempty', hsend⟩
      · cases hsync
      · exact side.other.other_ne (ScriptStep.send.inj hsend).1.symm
  · rcases List.prefix_or_prefix_of_prefix h.position h'.position with hpart | hpart
    · exact h.not_before h' ((List.prefix_concat_iff.mp hpart).resolve_left heq)
    · exact hback ((List.prefix_concat_iff.mp hpart).resolve_left (Ne.symm heq))

end WaitsAt

/-! ## Both come to the end -/

section

variable {script : Script} {side : Side} {peer : Peer}

/-- The flush at the end leaves nothing in the send buffer. -/
theorem Booked.handedOver (h : Booked side.isServer (script.program side) peer)
    (hsound : peer.Sound) (htodo : peer.io.todo = []) :
    peer.handedOver = peer.io.sends.flatten := by
  obtain ⟨sends, hsends⟩ : ∃ sends, peer.io.sends = sends ++ [[]] := by
    rcases h.flushed rfl with hlast | ⟨-, hsends⟩
    · simp [htodo] at hlast
    · exact hsends
  have hbuffer : peer.io.sendCtx.buffer = (packAll newSendCtx.buffer peer.io.sends).2 :=
    hsound.inStep.buffer
  have hempty : peer.io.sendCtx.buffer.payload = [] := by
    rw [hbuffer, hsends, packAll_concat]
    exact payload_asyncSendMessage_nil _
  rw [Peer.handedOver, hempty, List.length_nil, Nat.sub_zero, List.take_length]

/-- A party that has made all its calls has handed over and received as much as the script
has for it. -/
theorem Booked.complete (h : Booked side.isServer (script.program side) peer)
    (hsound : peer.Sound) (htodo : peer.io.todo = []) (hserved : peer.Served) :
    (script.chunks side).flatten.length = peer.handedOver.length ∧
      peer.received.map Prod.fst = (script.chunks side.other).map List.length := by
  have hsent := h.length_sent hserved
  have hwanted := h.wanted hserved
  rw [Script.program, ops_append, List.flatMap_append, htodo] at hsent hwanted
  rw [List.sum_append, Script.length_sent] at hsent
  rw [Script.wanted] at hwanted
  refine ⟨?_, by simpa [ops, Call.body, Op.wanted] using hwanted⟩
  rw [h.handedOver hsound htodo]
  simpa [ops, Call.body, Op.sending] using hsent.symm

/-- These are the bytes of the script, for the client if it has received those of the
server. -/
theorem Booked.complete_bytes (h : Booked side.isServer (script.program side) peer)
    (hsound : peer.Sound) (htodo : peer.io.todo = []) (hserved : peer.Served)
    (hclient : side = .client → (script.chunks .server).flatten <+: peer.bytes) :
    peer.handedOver = (script.chunks side).flatten := by
  have hsent := h.sent hserved [] []
  obtain ⟨tmp', hscript⟩ := script.sent side 0 [.sendDataInternal []] hclient
  have hprogram : ops side.isServer (script.program side) =
      ops side.isServer (script.calls side) ++ [.sendDataInternal []] := by
    rw [Script.program, ops_append]
    rfl
  rw [htodo, List.append_nil, List.append_nil, List.append_nil, hprogram, hscript] at hsent
  rw [h.handedOver hsound htodo]
  simpa [sentBy] using hsent

end

/-- Receives that returned the bytes of `chunks` and as many each as these are. -/
theorem received_eq {chunks : List Bytes} {received : List (Nat × Res Bytes)}
    (hserved : ∀ len res, (len, res) ∈ received → ∃ buf, res = .ok buf ∧ buf.length = len)
    (hlengths : received.map Prod.fst = chunks.map List.length)
    (hbytes : (received.flatMap fun r => r.2.toOption.getD []) = chunks.flatten) :
    received = chunks.map fun data => (data.length, .ok data) := by
  induction chunks generalizing received with
  | nil => simpa using hlengths
  | cons data chunks ih =>
    cases received with
    | nil => cases hlengths
    | cons r received =>
      obtain ⟨len, res⟩ := r
      obtain ⟨buf, rfl, rfl⟩ := hserved len res (List.mem_cons_self ..)
      obtain ⟨hlen, hlens⟩ := List.cons.inj hlengths
      rw [List.flatMap_cons, List.flatten_cons] at hbytes
      obtain ⟨rfl, hrest⟩ := List.append_inj hbytes hlen
      rw [List.map_cons, ← ih (fun len res hmem => hserved len res (List.mem_cons_of_mem _ hmem))
        hlens hrest]
      rfl

namespace Session

/-- Each call that was made is the next one of the script. -/
def Follows (script : Script) (es : List SessionEvent) : Prop :=
  ∀ side, calls side es <+: script.program side

/-- Steps that are no call make none. -/
theorem calls_internal {es more : List SessionEvent} (hmore : ∀ e ∈ more, e.internal)
    (side : Side) : calls side (es ++ more) = calls side es := by
  have hnone : more.filterMap (SessionEvent.call? side) = [] := by
    rw [List.filterMap_eq_nil_iff]
    intro e he
    have hinternal := hmore e he
    cases e with
    | own side' e =>
      cases e with
      | call c => exact hinternal.elim
      | caller | recvReturn | flusher => rfl
    | deliver | wake => rfl
  rw [calls, List.filterMap_append, hnone, List.append_nil, ← calls]

/-- All that holds of a party in a run that follows a small script. -/
structure Following (script : Script) (es : List SessionEvent) (s : Session) (side : Side) :
    Prop where
  booked : Booked side.isServer (calls side es) (s side)
  roomy : (s side).Roomy
  sound : (s side).Sound
  served : (s side).Served
  bytes : (s side).bytes <+: (s side.other).handedOver
  starved : (s side).io.channelStream.starved = false

theorem following {script : Script} (hsmall : script.Small) {es : List SessionEvent} {s : Session}
    (hrun : machine.run es = some s) (hfollows : Follows script es) (side : Side) :
    Following script es s side := by
  have hroomy : ∀ side, (s side).Roomy := fun side =>
    (booked_run hrun side).roomy hsmall (hfollows side)
  have hgood := good_run hrun
  have hflow := hgood.flow side (hroomy side.other).bounded
  exact ⟨booked_run hrun side, hroomy side, hgood.sound side, hflow.served,
    hflow.bytes_prefix (hgood.sound side.other), hflow.starved⟩

/-- A settled session is at the end of the script, or a party can make its next call. -/
theorem Settled.next {script : Script} (hsmall : script.Small) {es : List SessionEvent}
    {s : Session} (hrun : machine.run es = some s) (hfollows : Follows script es)
    (hsettled : s.Settled)
    (hhanded : ∀ side, (s side).io.todo ≠ [] → (s side).handedOver = (s side).io.sends.flatten) :
    (∀ side, calls side es = script.program side ∧ (s side).io.todo = []) ∨
      ∃ side c, (s side).io.todo = [] ∧ calls side es ++ [c] <+: script.program side := by
  have h := following hsmall hrun hfollows
  by_cases hcall : ∃ side, (s side).io.todo = [] ∧ calls side es ≠ script.program side
  · obtain ⟨side, htodo, hne⟩ := hcall
    obtain ⟨rest, hrest⟩ := hfollows side
    cases rest with
    | nil => exact absurd (by simpa using hrest) hne
    | cons c rest => exact .inr ⟨side, c, htodo, rest, by simpa using hrest⟩
  · have hended : ∀ side, (s side).io.todo = [] → calls side es = script.program side := by
      intro side htodo
      by_contra hne
      exact hcall ⟨side, htodo, hne⟩
    have hwaits : ∀ side, (s side).io.todo ≠ [] →
        ∃ done step, WaitsAt script side (s side) (s side.other) done step := by
      intro side hbusy
      exact (h side).booked.waitsAt (hfollows side) (h side).served (hhanded side hbusy)
        ((hsettled side).2.resolve_left hbusy)
    refine .inl fun side => ?_
    have htodo : (s side).io.todo = [] := by
      by_contra hbusy
      obtain ⟨done, step, h₁⟩ := hwaits side hbusy
      by_cases hother : (s side.other).io.todo = []
      · have hbooked := hended side.other hother ▸ (h side.other).booked
        obtain ⟨hall, -⟩ := hbooked.complete (h side.other).sound hother (h side.other).served
        have hlt := h₁.not_passed h₁.position
        rw [hall] at hlt
        exact Nat.lt_irrefl _ hlt
      · obtain ⟨done', step', h₂⟩ := hwaits side.other hother
        rw [Side.other_other] at h₂
        exact h₁.not_both h₂
    exact ⟨hended side htodo, htodo⟩

/-- A party at rest makes its next call. -/
theorem step_call {s : Session} {side : Side} (hout : (s side).io.outbound = [])
    (htodo : (s side).io.todo = []) (hstarved : (s side).io.channelStream.starved = false)
    (c : Call) : ∃ t, s.step (.own side (.call c)) = some t := by
  have hputs : (s side).io.puts = [] := (List.append_eq_nil_iff.mp hout).2
  simp [step, Peer.step, WebSocketIo.step, hputs, htodo, hstarved]

/-- The calls that are still to be made. -/
def left (script : Script) (es : List SessionEvent) : Nat :=
  ((script.program .server).length - (calls .server es).length) +
    ((script.program .client).length - (calls .client es).length)

end Session

namespace Session

theorem left_call {script : Script} {es : List SessionEvent} {side : Side} {c : Call}
    (h : calls side es ++ [c] <+: script.program side) :
    left script (es ++ [.own side (.call c)]) < left script es := by
  have hle := h.length_le
  rw [List.length_append, List.length_singleton] at hle
  cases side <;> simp [left, calls_concat, SessionEvent.call?] <;> omega

theorem follows_call {script : Script} {es : List SessionEvent} {side : Side} {c : Call}
    (hfollows : Follows script es) (h : calls side es ++ [c] <+: script.program side) :
    Follows script (es ++ [.own side (.call c)]) := by
  intro side'
  rw [calls_concat]
  by_cases hside : side = side'
  · subst hside
    simpa [SessionEvent.call?] using h
  · simpa [SessionEvent.call?, hside] using hfollows side'

/-- What has been received stays. -/
theorem received_step {s s' : Session} {e : SessionEvent} (hstep : s.step e = some s')
    (side : Side) : (s side).received <+: (s' side).received := by
  rcases step_side hstep side with ⟨own, -, hpeer⟩ | ⟨-, -, -, -, -, hreceived⟩
  · obtain ⟨-, -, hreceived⟩ := Peer.step_cases hpeer
    rw [hreceived]
    exact List.prefix_append _ _
  · exact hreceived ▸ List.prefix_refl _

/-- The parties can go on until all calls are made and have returned. -/
theorem completes {script : Script} (hsmall : script.Small) {es : List SessionEvent} {s : Session}
    (hrun : machine.run es = some s) (hfollows : Follows script es) :
    ∃ more t, (∀ side, .wake side ∉ more) ∧ machine.run (es ++ more) = some t ∧
      ∀ side, calls side (es ++ more) = script.program side ∧ (t side).io.todo = [] := by
  induction hleft : left script es using Nat.strongRecOn generalizing es s with
  | ind n ih =>
    obtain ⟨more, t, hmore, hrun', hsettled, hhanded⟩ := session_progresses hrun
      fun side => (following hsmall hrun hfollows side).roomy
    have hwake : ∀ side, .wake side ∉ more := fun side hmem => hmore _ hmem
    have hcalls : ∀ side, calls side (es ++ more) = calls side es := calls_internal hmore
    have hfollows' : Follows script (es ++ more) := by
      intro side
      rw [hcalls]
      exact hfollows side
    rcases hsettled.next hsmall hrun' hfollows' hhanded with hdone | ⟨side, c, htodo, hnext⟩
    · exact ⟨more, t, hwake, hrun', hdone⟩
    · obtain ⟨u, hu⟩ := step_call (hsettled side).1 htodo
        (following hsmall hrun' hfollows' side).starved c
      have hcall : machine.run (es ++ more ++ [.own side (.call c)]) = some u := by
        rw [Machine.run, Machine.runFrom_append hrun']
        exact Machine.runFrom_cons.mpr ⟨u, hu, rfl⟩
      have hlt := left_call hnext
      have hsame : left script (es ++ more) = left script es := by
        simp only [left, hcalls]
      obtain ⟨more', v, hwake', hrun'', hdone⟩ :=
        ih _ (by omega) hcall (follows_call hfollows' hnext) rfl
      refine ⟨more ++ [.own side (.call c)] ++ more', v, ?_, ?_, ?_⟩
      · intro side'
        simp [hwake side', hwake' side']
      · simpa using hrun''
      · simpa using hdone

end Session

/-- **A script is carried out.** In every run in which the calls of each party are the next
ones of its part, each receive has returned the bytes that the script has there. From every
state of the run the parties, their threads and the connection can go on, each party with
its next calls, until all are made and have returned. -/
theorem script_completes {script : Script} (hsmall : script.Small) {es : List SessionEvent}
    {s : Session} (hrun : Session.machine.run es = some s) (hfollows : Session.Follows script es) :
    (∀ side, (s side).received <+:
      (script.chunks side.other).map fun data => (data.length, .ok data)) ∧
    ∃ more t, (∀ side, .wake side ∉ more) ∧ Session.machine.run (es ++ more) = some t ∧
      ∀ side, Session.calls side (es ++ more) = script.program side ∧ (t side).io.todo = [] ∧
        (t side).received =
          (script.chunks side.other).map fun data => (data.length, .ok data) := by
  obtain ⟨more, t, hwake, hrun', hdone⟩ := Session.completes hsmall hrun hfollows
  have hfollows' : Session.Follows script (es ++ more) := by
    intro side
    rw [(hdone side).1]
  have h := Session.following hsmall hrun' hfollows'
  have hbooked : ∀ side, Booked side.isServer (script.program side) (t side) := fun side =>
    (hdone side).1 ▸ (h side).booked
  have hcomplete := fun side =>
    (hbooked side).complete (h side).sound (hdone side).2 (h side).served
  -- all that the other party has handed over has been received
  have hbytes : ∀ side, (t side).bytes = (t side.other).handedOver := by
    intro side
    refine (h side).bytes.eq_of_length ?_
    rw [(h side).served.bytes_length, (hcomplete side).2, ← List.length_flatten,
      (hcomplete side.other).1]
  have hall := fun side =>
    (hbooked side).complete_bytes (h side).sound (hdone side).2 (h side).served
  -- first what the server has sent, for the client sends back a part of it
  have hserver := hall .server (by simp)
  have hclient := hall .client fun _ => by
    rw [hbytes, ← hserver]
    exact List.prefix_refl _
  have hreceived : ∀ side, (t side).received =
      (script.chunks side.other).map fun data => (data.length, .ok data) := by
    intro side
    refine received_eq (h side).served (hcomplete side).2 ((hbytes side).trans ?_)
    cases side with
    | server => exact hclient
    | client => exact hserver
  refine ⟨fun side => ?_, more, t, hwake, hrun', fun side => ?_⟩
  · rw [← hreceived side]
    rw [Machine.run, Machine.runFrom_append hrun] at hrun'
    exact Machine.runFrom_invariant (fun u : Session => (s side).received <+: (u side).received)
      (fun _ _ _ hpart hstep => hpart.trans (Session.received_step hstep side))
      (List.prefix_refl _) hrun'
  · exact ⟨(hdone side).1, (hdone side).2, hreceived side⟩

/-- A script with a `sync`, whose parties have made the first call. -/
theorem script_completes_sync :
    let script : Script := [.sync, .send .server [1, 2] (by simp),
      .own .client .startAsyncFlush rfl, .send .client [3] (by simp),
      .own .client .stopAsyncFlush rfl]
    let es : List SessionEvent := [.own .server (.call .sync), .own .client (.call .sync),
      .own .server .caller]
    ∃ more t, Session.machine.run (es ++ more) = some t ∧
      (∀ side, Session.calls side (es ++ more) = script.program side) ∧
      (t .server).received = [(1, .ok [0]), (1, .ok [3])] ∧
      (t .client).received = [(1, .ok [0]), (2, .ok [1, 2])] := by
  intro script es
  have hsmall : script.Small := by
    constructor
    · decide
    · intro side
      cases side <;> decide
  have hfollows : Session.Follows script es := by
    intro side
    cases side with
    | server => exact ⟨[.sendData [1, 2], .recvData 1, .flush], rfl⟩
    | client =>
      exact ⟨[.recvData 2, .startAsyncFlush, .sendData [3], .stopAsyncFlush, .flush], rfl⟩
  obtain ⟨s, hrun⟩ : ∃ s, Session.machine.run es = some s :=
    Option.isSome_iff_exists.mp (by decide +kernel)
  obtain ⟨-, more, t, -, hrun', hdone⟩ := script_completes hsmall hrun hfollows
  exact ⟨more, t, hrun', fun side => (hdone side).1, (hdone .server).2.2, (hdone .client).2.2⟩

/-! ## Who waits for whom -/

/-- What is left to receive is the end of what the call receives. -/
theorem Stage.wanted_suffix {body todo : List Op} (h : Stage body todo) :
    todo.flatMap Op.wanted <:+ body.flatMap Op.wanted := by
  have hsuffix {rest : List Op} (h : rest <:+ body) :
      rest.flatMap Op.wanted <:+ body.flatMap Op.wanted := by
    obtain ⟨front, rfl⟩ := h
    rw [List.flatMap_append]
    exact List.suffix_append _ _
  cases h with
  | between h => exact hsuffix h
  | @receiving before rest len h hbefore =>
    have hnone : before.flatMap Op.wanted = [] := by
      rw [List.flatMap_eq_nil_iff]
      intro op hop
      have hop : op = .sendDataInternal [] ∨ op = .clearHasSent := by
        simpa using hbefore.subset hop
      rcases hop with rfl | rfl <;> rfl
    rw [List.flatMap_append, hnone]
    -- the two pieces of a receive ask for the same bytes
    have hpiece : (Op.recvDataInternal len :: rest).flatMap Op.wanted <:+ _ := hsuffix h
    exact hpiece
  | @joining rest h =>
    have hpiece : (Op.stopAsyncFlush :: rest).flatMap Op.wanted <:+ _ := hsuffix h
    exact hpiece

theorem ScriptStep.sends {side : Side} {step : ScriptStep} (h : step.chunks side ≠ []) :
    ∃ c, step.calls side = [c] ∧ 0 < (step.chunks side).flatten.length := by
  cases step with
  | send sender data nonempty =>
    by_cases hside : side = sender
    · exact ⟨.sendData data, by simp [calls, hside],
        by simpa [chunks, hside] using List.length_pos_iff.mpr nonempty⟩
    · simp [chunks, hside] at h
  | sync => exact ⟨.sync, rfl, Nat.zero_lt_one⟩
  | own => exact absurd rfl h

namespace Session

/-- The calls of a part of a script have returned. -/
def Past (part : Script) (es : List SessionEvent) (s : Session) (side : Side) : Prop :=
  part.calls side <+: calls side es ∧ (calls side es = part.calls side → (s side).io.todo = [])

/-- Where they have, all bytes of that part have been received. -/
theorem Past.received {part : Script} {es : List SessionEvent} {s : Session} {side : Side}
    (h : Past part es s side) (hbooked : Booked side.isServer (calls side es) (s side))
    (hserved : (s side).Served) :
    (part.chunks side.other).flatten.length ≤ (s side).bytes.length := by
  rw [hserved.bytes_length, List.length_flatten, ← Script.wanted]
  have hwanted := hbooked.wanted hserved
  obtain ⟨hmade, htodo⟩ := h
  by_cases heq : calls side es = part.calls side
  · rw [htodo heq, heq, List.flatMap_nil, List.append_nil] at hwanted
    rw [hwanted]
  · obtain hnone | ⟨before, c, hlast⟩ := List.eq_nil_or_concat' (calls side es)
    · rw [hnone, List.prefix_nil] at hmade
      exact absurd (hnone.trans hmade.symm) heq
    · rw [hlast, List.prefix_concat_iff] at hmade
      obtain ⟨more, rfl⟩ := hmade.resolve_left fun h => heq (hlast.trans h.symm)
      -- all but the last call have returned
      obtain ⟨got, hgot⟩ := (hbooked.stage hlast).wanted_suffix
      rw [hlast, ops_append, ops_append, List.flatMap_append, List.flatMap_append,
        show ops side.isServer [c] = c.body side.isServer from List.flatMap_singleton .., ← hgot,
        ← List.append_assoc] at hwanted
      rw [List.append_cancel_right hwanted, List.sum_append, List.sum_append]
      omega

end Session

/-- **A receive follows the send**, in every run in which both parties follow a script: where
the calls of a party up to a step that sends to it have returned, the other party has made
its calls up to that step. So a `sync` returns only when both parties have called it. -/
theorem receive_follows_send {script : Script} (hsmall : script.Small) {es : List SessionEvent}
    {s : Session} (hrun : Session.machine.run es = some s) (hfollows : Session.Follows script es)
    {side : Side} {done : Script} {step : ScriptStep} (hposition : done ++ [step] <+: script)
    (hsends : step.chunks side.other ≠ []) (hpast : Session.Past (done ++ [step]) es s side) :
    Script.calls (done ++ [step]) side.other <+: Session.calls side.other es := by
  have h := Session.following hsmall hrun hfollows
  have hreceived := hpast.received (h side).booked (h side).served
  have hsent := (h side.other).booked.length_sent (h side.other).served
  have hle := (h side).bytes.length_le
  have hhanded : (s side.other).handedOver.length ≤ (s side.other).io.sends.flatten.length :=
    (List.take_prefix _ _).length_le
  obtain ⟨c, hc, hchunk⟩ := ScriptStep.sends hsends
  have hcalls : Script.calls (done ++ [step]) side.other = done.calls side.other ++ [c] := by
    rw [Script.calls_append, ← hc]
    simp [Script.calls]
  have hprogram : Script.calls (done ++ [step]) side.other <+: script.program side.other := by
    obtain ⟨rest, rfl⟩ := hposition
    rw [Script.program, Script.calls_append side.other (done ++ [step]) rest, List.append_assoc]
    exact List.prefix_append _ _
  rcases List.prefix_or_prefix_of_prefix hprogram (hfollows side.other) with hmade | hmade
  · exact hmade
  · rw [hcalls, List.prefix_concat_iff, ← hcalls] at hmade
    rcases hmade with heq | ⟨rest, hrest⟩
    · rw [heq]
    · -- it has not made the call of the step, so it has not sent the bytes of the step
      exfalso
      have hdone := Script.length_sent done side.other
      rw [← hrest, ops_append, List.flatMap_append, List.sum_append] at hdone
      rw [Script.chunks_append, List.flatten_append, List.length_append] at hreceived
      have hone : (Script.chunks [step] side.other) = step.chunks side.other := by
        simp [Script.chunks]
      rw [hone] at hreceived
      omega

/-- The client has come back from a `sync`. -/
theorem receive_follows_send_sync :
    let es : List SessionEvent := [.own .server (.call .sync), .own .server .caller,
      .own .server .caller, .own .server .caller, .own .client (.call .sync), .own .client .caller,
      .deliver .client 100, .own .client (.recvReturn 2), .own .client .caller,
      .own .client .caller]
    ∃ s, Session.machine.run es = some s ∧ Session.Past [.sync] es s .client ∧
      Script.calls [.sync] .server <+: Session.calls .server es := by
  intro es
  have hsteps : (Session.machine.run es).map (fun s => (s .client).io.todo) = some [] := by
    decide +kernel
  obtain ⟨s, hrun, htodo⟩ := Option.map_eq_some_iff.mp hsteps
  have hsmall : Script.Small [.sync] := by
    constructor
    · decide
    · intro side
      cases side <;> decide
  have hfollows : Session.Follows [.sync] es := by
    intro side
    cases side <;> exact ⟨[.flush], rfl⟩
  have hpast : Session.Past [.sync] es s .client := ⟨⟨[], rfl⟩, fun _ => htodo⟩
  have hposition : ([] : Script) ++ [.sync] <+: [.sync] := List.prefix_refl _
  have hsends : ScriptStep.sync.chunks Side.client.other ≠ [] := by simp [ScriptStep.chunks]
  exact ⟨s, hrun, hpast, receive_follows_send hsmall hrun hfollows hposition hsends hpast⟩

end ZktlsNet
