import Mathlib.Data.List.Forall2
import ZktlsNet.Proxy.Answers
import ZktlsNet.Proxy.Requests
import ZktlsNet.Ws.WebSocketStream

/-!
# The calls and their requests on the wire

In the table of calls a request is the id of its call. Here each call has its arguments, and
its request is the message that its function lays out, written as one frame on the
connection. The kernel may fail a write or cut it short; the exception that follows leaves
the call, and the others go on.

- `act`: the steps of the table, where sending is a write.
- `Carries`: a frame is the request of a call.
- `Inv`: the requests of the table are, in their order, the frames whose writes were whole.
- `requests_reach`: the run is a run of the table; the proxy has got exactly the requests if
  no write was cut short; and an answer that a call has got is an answer to the request that
  is read as the call.
-/

namespace ZktlsNet

open NetLib

/-- The table of calls, the arguments of each, and the half of the connection that is
written. -/
structure RequestWire where
  table : CallTable
  made : List SocketCall
  stream : SocketStream
  deriving DecidableEq, Repr

/-- A call is made, its request is written, or the table takes another step. An exception of
`check_network` is the step that leaves a call. -/
inductive WireEvent
  | call (c : SocketCall)
  | sendEx (b : Nat)
  | table (e : CallTable.CallEvent)
  deriving DecidableEq, Repr

/-- Whether a call comes to sending: `connect3` does not when the address is too long. -/
def SocketCall.Sendable : SocketCall → Prop
  | connect3 _ address _ => 16 + address.length < 2 ^ 31
  | _ => True

instance : (c : SocketCall) → Decidable c.Sendable
  | .connect3 _ address _ => inferInstanceAs (Decidable (16 + address.length < 2 ^ 31))
  | .getaddrinfo3 .. | .socket3 .. | .send3 .. | .doRecv .. | .shutdown3 .. =>
    inferInstanceAs (Decidable True)

namespace RequestWire

/-! ## Steps -/

/-- A new context on a connection whose writes end as given. -/
def new (outcomes : List WriteOutcome) : RequestWire where
  table := .new
  made := []
  stream := .ofSocket ⟨[], false, outcomes, []⟩ .clientToTlsServer

/-- When an event can happen. -/
def enabled (s : RequestWire) : WireEvent → Bool
  | .call c => s.table.enabled (.allocate c.expectedBytes)
  | .sendEx b => s.table.enabled (.send b)
  | .table (.allocate _) | .table (.send _) => false
  | .table e => s.table.enabled e

/-- The write of the request of the call `b`. -/
def writeRequest (junk : Bytes) (memdup : Nat → Bool) (s : RequestWire) (b : Nat) :
    Res RequestWire := do
  let r ← s.table.load b
  match s.made[b]? with
  | none => throw (.fault .outOfBounds)
  | some c => do
    let message ← c.message (.ofInt r.callId)
    match WebSocketStream.sendEx s.stream message with
    | (.ok _, stream) => do
      let table ← s.table.act junk memdup (.send b)
      return { s with table := table, stream := stream }
    | (.error (.thrown _), stream) => do
      let table ← s.table.act junk memdup (.abandon b)
      return { s with table := table, stream := stream }
    | (.error e, _) => throw e

/-- What an event does. -/
def act (junk : Bytes) (memdup : Nat → Bool) (s : RequestWire) : WireEvent → Res RequestWire
  | .call c => do
    let table ← s.table.act junk memdup (.allocate c.expectedBytes)
    return { s with table := table, made := s.made ++ [c] }
  | .sendEx b => s.writeRequest junk memdup b
  | .table e => do
    let table ← s.table.act junk memdup e
    return { s with table := table }

/-- The context and its connection under any interleaving. -/
def machine (junk : Bytes) (memdup : Nat → Bool) (outcomes : List WriteOutcome) :
    Machine (Res RequestWire) WireEvent :=
  checked (new outcomes) enabled (act junk memdup)

/-- The calls that are made come to sending, as all calls in this program do. -/
def sendable (_ : RequestWire) : WireEvent → Bool
  | .call c => decide c.Sendable
  | _ => true

end RequestWire

/-! ## What becomes of the requests in the table -/

namespace CallTable

variable {junk : Bytes} {memdup : Nat → Bool} {s s' : CallTable}

/-- What a step does that neither begins a call nor sends a request: the calls that have not
sent theirs are left alone, or leave. -/
structure Quiet (s s' : CallTable) : Prop where
  requests : s'.requests = s.requests
  answers : ∀ a ∈ s'.answers, a ∈ s.answers ∨ a.1 ∈ s.requests.map Prod.fst
  nextId : s'.nextId = s.nextId
  calls : s'.finished = false → s'.calls = s.calls ∨ ∃ b c, s'.calls = s.calls.set b c ∧
    (c.pc ≠ .allocated ∨ s.network.holds = some b ∧ c.pc = s.pcOf b)

theorem Quiet.same (hrequests : s'.requests = s.requests) (hanswers : s'.answers = s.answers)
    (hnext : s'.nextId = s.nextId) (hcalls : s'.calls = s.calls) : Quiet s s' :=
  ⟨hrequests, fun _ ha => .inl (hanswers ▸ ha), hnext, fun _ => .inl hcalls⟩

theorem Quiet.set {b : Nat} {c : ProxiedCall} (hrequests : s'.requests = s.requests)
    (hanswers : s'.answers = s.answers) (hnext : s'.nextId = s.nextId)
    (hcalls : s'.calls = s.calls.set b c)
    (hc : c.pc ≠ .allocated ∨ s.network.holds = some b ∧ c.pc = s.pcOf b) : Quiet s s' :=
  ⟨hrequests, fun _ ha => .inl (hanswers ▸ ha), hnext, fun _ => .inr ⟨b, c, hcalls, hc⟩⟩

theorem networkStep_quiet (h : s.networkStep junk memdup = .ok s') : Quiet s s' := by
  unfold networkStep at h
  cases hnetwork : s.network with
  | start =>
    rw [hnetwork] at h
    cases h
    exact .same rfl rfl rfl rfl
  | take =>
    rw [hnetwork] at h
    cases hids : s.callIdHeader <;> rw [hids] at h <;> cases h <;> exact .same rfl rfl rfl rfl
  | recv id =>
    rw [hnetwork] at h
    obtain ⟨⟨found, ctx⟩, -, h⟩ := bind_eq_ok h
    cases found <;> cases h <;> exact .same rfl rfl rfl rfl
  | read id =>
    rw [hnetwork] at h
    dsimp only at h
    split at h
    · cases h
      exact .same rfl rfl rfl rfl
    · cases h
    · obtain ⟨ctx, -, h⟩ := bind_eq_ok h
      cases h
      exact .same rfl rfl rfl rfl
  | bridge id chunk =>
    rw [hnetwork] at h
    dsimp only at h
    unfold bridgeSocketOnMessage at h
    obtain ⟨numBytes, -, h⟩ := bind_eq_ok h
    by_cases hbig : chunk.payload.length < numBytes
    · simp only [hbig, if_true] at h
      cases h
    · simp only [hbig, if_false] at h
      obtain ⟨⟨found, rest⟩, -, h⟩ := bind_eq_ok h
      cases found <;> cases h <;> exact .same rfl rfl rfl rfl
  | fill b data =>
    have hholds : s.network.holds = some b := by rw [hnetwork]; rfl
    rw [hnetwork] at h
    obtain ⟨r, -, h⟩ := bind_eq_ok h
    split at h
    · cases h
      exact .same rfl rfl rfl rfl
    · split at h <;> cases h <;> exact .set rfl rfl rfl rfl (.inr ⟨hholds, rfl⟩)
  | complete b data =>
    have hholds : s.network.holds = some b := by rw [hnetwork]; rfl
    rw [hnetwork] at h
    obtain ⟨r, -, h⟩ := bind_eq_ok h
    split at h
    · cases h
      exact .set rfl rfl rfl rfl (.inr ⟨hholds, rfl⟩)
    · obtain ⟨t, hfree, h⟩ := bind_eq_ok h
      obtain ⟨-, -, hfree⟩ := bind_eq_ok hfree
      cases h
      cases hfree
      exact .set rfl rfl rfl rfl (.inr ⟨hholds, rfl⟩)
  | exited =>
    rw [hnetwork] at h
    cases h
    exact .same rfl rfl rfl rfl

/-- Freeing the records of a list makes no requests. -/
theorem popAll_requests {list : List Nat} {s t : CallTable} (h : s.popAll list = .ok t) :
    t.requests = s.requests ∧ t.answers = s.answers := by
  induction list generalizing s with
  | nil =>
    cases h
    exact ⟨rfl, rfl⟩
  | cons d ds ih =>
    obtain ⟨u, hfree, h⟩ := bind_eq_ok h
    obtain ⟨r, -, hfree⟩ := bind_eq_ok hfree
    cases hfree
    obtain ⟨hrequests, hanswers⟩ := ih h
    exact ⟨hrequests, hanswers⟩

/-- **Only a call that begins and one that sends make a difference** to the requests that are
made and still to be made. -/
theorem act_quiet {e : CallEvent} (hen : s.enabled e = true) (h : s.act junk memdup e = .ok s')
    (hallocate : ∀ n, e ≠ .allocate n) (hsend : ∀ b, e ≠ .send b) : Quiet s s' := by
  cases e with
  | allocate n => exact absurd rfl (hallocate n)
  | send b => exact absurd rfl (hsend b)
  | putCallId b =>
    obtain ⟨r, -, h⟩ := bind_eq_ok h
    cases h
    exact .set rfl rfl rfl rfl (.inl (by simp))
  | wait b =>
    obtain ⟨r, -, h⟩ := bind_eq_ok h
    split at h
    · cases h
      exact .same rfl rfl rfl rfl
    · split at h <;> cases h <;> exact .set rfl rfl rfl rfl (.inl (by simp))
  | use b =>
    obtain ⟨r, -, h⟩ := bind_eq_ok h
    split at h <;> cases h
    exact .set rfl rfl rfl rfl (.inl (by simp))
  | free b =>
    obtain ⟨t, hfree, h⟩ := bind_eq_ok h
    obtain ⟨r, -, hfree⟩ := bind_eq_ok hfree
    cases hfree
    cases h
    exact .set rfl rfl rfl (List.set_set ..) (.inl (by simp))
  | abandon b =>
    cases h
    exact .set rfl rfl rfl rfl (.inl (by simp))
  | connectionFails | cancel | stop =>
    cases h
    exact .same rfl rfl rfl rfl
  | network => exact networkStep_quiet h
  | answer f =>
    cases h
    refine ⟨rfl, fun a ha => ?_, rfl, fun _ => .inl rfl⟩
    rcases List.mem_append.mp ha with ha | ha
    · exact .inl ha
    · rw [List.mem_singleton] at ha
      simp only [enabled, Bool.and_eq_true, List.any_eq_true, decide_eq_true_eq] at hen
      obtain ⟨-, ⟨q, hq, hid, -⟩, -⟩ := hen
      rw [ha]
      exact .inr (List.mem_map.mpr ⟨q, hq, hid⟩)
  | popAll =>
    obtain ⟨t, hpop, h⟩ := bind_eq_ok h
    cases h
    obtain ⟨hrequests, hanswers⟩ := popAll_requests hpop
    obtain ⟨-, hnext, -, -⟩ := popAll_frame hpop
    exact ⟨hrequests, fun a ha => .inl (hanswers ▸ ha), hnext, fun hlive => by cases hlive⟩

/-- The ids that were asked for. -/
def asked (s : CallTable) : List Int := s.requests.map Prod.fst

/-- The calls that have not sent their requests: the proxy has not seen their ids. -/
structure Unsent (made : List SocketCall) (s : CallTable) : Prop where
  answered : ∀ a ∈ s.answers, a.1 ∈ s.asked
  fresh : s.finished = false → ∀ (b : Nat) r, s.calls[b]? = some ⟨some r, .allocated⟩ →
    (b : Int) + 1 ∉ s.asked ∧ ∃ c, made[b]? = some c ∧ r.bytes = c.expectedBytes

namespace Unsent

variable {made : List SocketCall}

/-- What the network thread holds has been asked for. -/
theorem asked_of_holds (h : Unsent made s) (hinv : s.Inv) {b : Nat}
    (hholds : s.network.holds = some b) : (b : Int) + 1 ∈ s.asked := by
  cases hnetwork : s.network with
  | fill d m =>
    rw [hnetwork] at hholds
    cases hholds
    exact h.answered _ (hinv.fill _ m hnetwork)
  | complete d m =>
    rw [hnetwork] at hholds
    cases hholds
    exact h.answered _ (hinv.complete _ m hnetwork).1
  | _ =>
    rw [hnetwork] at hholds
    cases hholds

theorem quiet (h : Unsent made s) (hinv : s.Inv) (hlive : s.finished = false)
    (hq : Quiet s s') : Unsent made s' := by
  have hasked : s'.asked = s.asked := congrArg (List.map Prod.fst) hq.requests
  constructor
  · intro a ha
    rw [hasked]
    rcases hq.answers a ha with ha | ha
    · exact h.answered a ha
    · exact ha
  · intro hlive' b r hb
    rw [hasked]
    rcases hq.calls hlive' with hcalls | ⟨d, c, hcalls, hc⟩
    · rw [hcalls] at hb
      exact h.fresh hlive b r hb
    · rw [hcalls] at hb
      by_cases heq : d = b
      · -- a record that the network thread holds is one that was asked for
        subst heq
        exfalso
        have hlt : d < s.calls.length := by
          have := (List.getElem?_eq_some_iff.mp hb).1
          rwa [List.length_set] at this
        rw [List.getElem?_set_self hlt, Option.some.injEq] at hb
        subst hb
        rcases hc with hc | ⟨hholds, hpc⟩
        · exact hc rfl
        · obtain ⟨⟨record, pc⟩, hd⟩ := exists_call hlt
          obtain rfl : pc = .allocated := (hpc.trans (pcOf_eq hd)).symm
          obtain ⟨r', rfl⟩ := (hinv.calls d _ hd).alive rfl
          exact (h.fresh hlive d r' hd).1 (h.asked_of_holds hinv hholds)
      · rw [List.getElem?_set_ne heq] at hb
        exact h.fresh hlive b r hb

end Unsent

end CallTable

/-! ## The requests on the wire -/

/-- A request of the table, and the bytes that carry it: the call with the id has the
arguments, and the bytes are the frame of its message. -/
def Carries (made : List SocketCall) (q : Int × Int) (bs : Bytes) : Prop :=
  ∃ (b : Nat) (c : SocketCall) (m : Bytes) (hm : m.length < 2 ^ 63), made[b]? = some c ∧
    q = ((b : Int) + 1, (c.expectedBytes : Int)) ∧ c.message (.ofInt ((b : Int) + 1)) = .ok m ∧
    bs = (binaryFrame m hm).encode

theorem Carries.mono {made more : List SocketCall} {q : Int × Int} {bs : Bytes}
    (h : Carries made q bs) : Carries (made ++ more) q bs := by
  obtain ⟨b, c, m, hm, hc, hrest⟩ := h
  refine ⟨b, c, m, hm, ?_, hrest⟩
  rw [List.getElem?_append_left (List.getElem?_eq_some_iff.mp hc).1, hc]

/-- Of two lists that are related one by one, each member of the first has its partner. -/
theorem exists_partner {α β : Type} {R : α → β → Prop} {as : List α} {bs : List β}
    (h : List.Forall₂ R as bs) : ∀ a ∈ as, ∃ b ∈ bs, R a b := by
  induction h with
  | nil => nofun
  | cons hr _ ih =>
    intro a ha
    rcases List.mem_cons.mp ha with rfl | ha
    · exact ⟨_, List.mem_cons_self .., hr⟩
    · obtain ⟨b, hb, hr⟩ := ih a ha
      exact ⟨b, List.mem_cons_of_mem _ hb, hr⟩

/-- A call that comes to sending has a message, which is the payload of a frame. -/
theorem SocketCall.message_ok {c : SocketCall} (callId : CInt) (h : c.Sendable) :
    ∃ m, c.message callId = .ok m ∧ m.length < 2 ^ 63 := by
  cases c with
  | getaddrinfo3 node service hints =>
    exact ⟨_, rfl, by rw [getaddrinfo3Message_length]; omega⟩
  | socket3 domain type protocol =>
    exact ⟨_, rfl, by rw [socket3Message_length]; omega⟩
  | connect3 socket address _ =>
    have hfits : 16 + address.length < 2 ^ 31 := h
    refine ⟨connect3Message callId socket address, ?_, by rw [connect3Message_length]; omega⟩
    rw [message, connect3Allocate_ok hfits]
    rfl
  | send3 socket message flags hallocated =>
    exact ⟨_, rfl, by rw [send3Message_length]; exact hallocated⟩
  | doRecv socket length flags =>
    exact ⟨_, rfl, by rw [doRecvMessage_length]; omega⟩
  | shutdown3 socket how =>
    exact ⟨_, rfl, by rw [shutdown3Message_length]; omega⟩

namespace RequestWire

variable {junk : Bytes} {memdup : Nat → Bool}

/-- All that holds of a context and its connection. -/
structure Inv (junk : Bytes) (memdup : Nat → Bool) (s : RequestWire) : Prop where
  table : s.table.Inv
  refines : ∃ es, (CallTable.machine junk memdup).run es = some (.ok s.table)
  ids : s.table.nextId ≤ 2 ^ 31
  made : s.made.length = s.table.calls.length
  sendable : ∀ c ∈ s.made, c.Sendable
  unsent : s.table.Unsent s.made
  nodup : s.table.asked.Nodup
  carried : List.Forall₂ (Carries s.made) s.table.requests (wholeWrites s.stream.socket.log)
  log : LogOk s.stream.socket.log

theorem inv_new (outcomes : List WriteOutcome) : Inv junk memdup (new outcomes) where
  table := CallTable.inv_new
  refines := ⟨[], rfl⟩
  ids := by simp [new, CallTable.new]
  made := rfl
  sendable := by simp [new]
  unsent := ⟨by simp [new, CallTable.new], by simp [new, CallTable.new]⟩
  nodup := by simp [new, CallTable.new, CallTable.asked]
  carried := .nil
  log := by simp [new, SocketStream.ofSocket, LogOk]

/-- One more step of the table. -/
theorem refines_step {s t : CallTable} {e : CallTable.CallEvent}
    (h : ∃ es, (CallTable.machine junk memdup).run es = some (.ok s)) (hen : s.enabled e = true)
    (hact : s.act junk memdup e = .ok t) :
    ∃ es, (CallTable.machine junk memdup).run es = some (.ok t) := by
  obtain ⟨es, hrun⟩ := h
  refine ⟨es ++ [e], ?_⟩
  rw [Machine.run, Machine.runFrom_append hrun]
  exact checked_runFrom_of_act hen hact rfl

namespace Inv

variable {s : RequestWire}

/-- The ids that were asked for are those of calls that were made. -/
theorem lt_of_asked (h : Inv junk memdup s) {id : Int} (hid : id ∈ s.table.asked) :
    ∃ b : Nat, b < s.table.calls.length ∧ id = (b : Int) + 1 := by
  obtain ⟨q, hq, rfl⟩ := List.mem_map.mp hid
  obtain ⟨bs, -, b, c, m, hm, hc, rfl, -⟩ := exists_partner h.carried q hq
  exact ⟨b, h.made ▸ (List.getElem?_eq_some_iff.mp hc).1, rfl⟩

/-- A call begins. -/
theorem call (h : Inv junk memdup s) {c : SocketCall} (hc : c.Sendable)
    (hen : s.table.enabled (.allocate c.expectedBytes) = true) :
    ∃ s', s.act junk memdup (.call c) = .ok s' ∧ Inv junk memdup s' := by
  obtain ⟨t, hact, hinv⟩ := CallTable.inv_act junk memdup s.table _ h.table hen
  refine ⟨{ s with table := t, made := s.made ++ [c] },
    by simp only [act, hact, ok_bind, pure_eq_ok], ?_⟩
  have hrefines := refines_step h.refines hen hact
  obtain ⟨-, -, hact⟩ := bind_eq_ok hact
  cases hact
  have hnext : s.table.nextId < 2 ^ 31 := by
    simp only [CallTable.enabled, Bool.and_eq_true, decide_eq_true_eq] at hen
    exact hen.2
  refine ⟨hinv, hrefines, by dsimp only; omega, ?_, ?_, ⟨h.unsent.answered, ?_⟩, h.nodup, ?_, h.log⟩
  · rw [List.length_append, List.length_append, h.made]
    rfl
  · intro p hp
    rcases List.mem_append.mp hp with hp | hp
    · exact h.sendable p hp
    · rw [List.mem_singleton.mp hp]
      exact hc
  · intro hlive b r hb
    by_cases hlt : b < s.table.calls.length
    · rw [List.getElem?_append_left hlt] at hb
      obtain ⟨hnot, p, hp, hbytes⟩ := h.unsent.fresh hlive b r hb
      exact ⟨hnot, p, by rw [List.getElem?_append_left (by rw [h.made]; exact hlt), hp], hbytes⟩
    · obtain rfl : b = s.table.calls.length := by
        have := (List.getElem?_eq_some_iff.mp hb).1
        rw [List.length_append, List.length_singleton] at this
        omega
      rw [List.getElem?_append_right (Nat.le_refl _), Nat.sub_self] at hb
      cases hb
      refine ⟨fun hmem => ?_, c, ?_, rfl⟩
      · -- it is the id of no earlier call
        obtain ⟨b, hb, heq⟩ := h.lt_of_asked hmem
        omega
      · rw [← h.made, List.getElem?_append_right (Nat.le_refl _), Nat.sub_self]
        rfl
  · exact .imp (fun _ _ hcarries => hcarries.mono) h.carried

/-- Another step of the table, with no whole write. -/
theorem quiet (h : Inv junk memdup s) {e : CallTable.CallEvent} (stream : SocketStream)
    (hen : s.table.enabled e = true) (hallocate : ∀ n, e ≠ .allocate n) (hsend : ∀ b, e ≠ .send b)
    (hwhole : wholeWrites stream.socket.log = wholeWrites s.stream.socket.log)
    (hlog : LogOk stream.socket.log) :
    ∃ t, s.table.act junk memdup e = .ok t ∧
      Inv junk memdup { s with table := t, stream := stream } := by
  have hlive : s.table.finished = false := by
    simp only [CallTable.enabled, Bool.and_eq_true, Bool.not_eq_true'] at hen
    exact hen.1
  obtain ⟨t, hact, hinv⟩ := CallTable.inv_act junk memdup s.table e h.table hen
  have hquiet := CallTable.act_quiet hen hact hallocate hsend
  have hasked : t.asked = s.table.asked := congrArg (List.map Prod.fst) hquiet.requests
  refine ⟨t, hact, hinv, refines_step h.refines hen hact, by rw [hquiet.nextId]; exact h.ids, ?_,
    h.sendable, h.unsent.quiet h.table hlive hquiet, by rw [hasked]; exact h.nodup, ?_, hlog⟩
  · have hbefore := h.table.nextId
    have hafter := hinv.nextId
    rw [hquiet.nextId] at hafter
    have := h.made
    dsimp only
    omega
  · rw [hquiet.requests, hwhole]
    exact h.carried

/-- A request is sent. -/
theorem send (h : Inv junk memdup s) {b : Nat} {c : SocketCall} {m : Bytes} {hm : m.length < 2 ^ 63}
    (stream : SocketStream) (hen : s.table.enabled (.send b) = true) (hc : s.made[b]? = some c)
    (hmessage : c.message (.ofInt ((b : Int) + 1)) = .ok m)
    (hwhole : wholeWrites stream.socket.log =
      wholeWrites s.stream.socket.log ++ [(binaryFrame m hm).encode])
    (hlog : LogOk stream.socket.log) :
    ∃ t, s.table.act junk memdup (.send b) = .ok t ∧
      Inv junk memdup { s with table := t, stream := stream } := by
  have hen' := hen
  simp only [CallTable.enabled, Bool.and_eq_true, Bool.not_eq_true', decide_eq_true_eq] at hen'
  obtain ⟨hlive, hpc⟩ := hen'
  obtain ⟨⟨record, pc⟩, r, hb, hcpc, hr, hload, hok⟩ :=
    h.table.running (show (s.table.pcOf b).over = false by rw [hpc]; rfl)
  obtain rfl : pc = .allocated := hcpc.trans hpc
  obtain rfl : record = some r := hr
  have hid := hok.callId r rfl
  obtain ⟨hfresh, c', hc', hbytes⟩ := h.unsent.fresh hlive b r hb
  obtain rfl : c = c' := Option.some.inj (hc.symm.trans hc')
  obtain ⟨t, hact, hinv⟩ := CallTable.inv_act junk memdup s.table _ h.table hen
  refine ⟨t, hact, ?_⟩
  have hrefines := refines_step h.refines hen hact
  rw [CallTable.act, hload] at hact
  cases hact
  have hasked : (s.table.requests ++ [(r.callId, r.bytes)]).map Prod.fst =
      s.table.asked ++ [(b : Int) + 1] := by
    rw [List.map_append, hid]
    rfl
  refine ⟨hinv, hrefines, h.ids, ?_, h.sendable, ⟨?_, ?_⟩, ?_, ?_, hlog⟩
  · exact h.made.trans List.length_set.symm
  · intro a ha
    show a.1 ∈ (s.table.requests ++ [(r.callId, r.bytes)]).map Prod.fst
    rw [hasked]
    exact List.mem_append_left _ (h.unsent.answered a ha)
  · intro _ d r' hd
    have hd : (s.table.calls.set b ⟨some r, .sent⟩)[d]? = some ⟨some r', .allocated⟩ := hd
    have hlt := (List.getElem?_eq_some_iff.mp hb).1
    have hne : b ≠ d := by
      rintro rfl
      rw [List.getElem?_set_self hlt] at hd
      cases hd
    rw [List.getElem?_set_ne hne] at hd
    obtain ⟨hnot, hmade⟩ := h.unsent.fresh hlive d r' hd
    refine ⟨?_, hmade⟩
    show (d : Int) + 1 ∉ (s.table.requests ++ [(r.callId, r.bytes)]).map Prod.fst
    rw [hasked, List.mem_append, List.mem_singleton]
    rintro (hmem | heq)
    · exact hnot hmem
    · omega
  · show ((s.table.requests ++ [(r.callId, r.bytes)]).map Prod.fst).Nodup
    rw [hasked]
    refine List.nodup_append.mpr ⟨h.nodup, List.pairwise_singleton .., ?_⟩
    rintro id hmem _ hone rfl
    rw [List.mem_singleton] at hone
    exact hfresh (hone ▸ hmem)
  · show List.Forall₂ (Carries s.made) (s.table.requests ++ [(r.callId, r.bytes)]) _
    rw [hwhole]
    refine List.rel_append h.carried (.cons ⟨b, c, m, hm, hc, ?_, hmessage, rfl⟩ .nil)
    rw [hid, hbytes]

/-- The write of a request, whatever becomes of it. -/
theorem sendEx (h : Inv junk memdup s) {b : Nat} (hen : s.table.enabled (.send b) = true) :
    ∃ s', s.writeRequest junk memdup b = .ok s' ∧ Inv junk memdup s' := by
  have hen' := hen
  simp only [CallTable.enabled, Bool.and_eq_true, Bool.not_eq_true', decide_eq_true_eq] at hen'
  obtain ⟨hlive, hpc⟩ := hen'
  obtain ⟨p, r, hb, -, hr, hload, hok⟩ :=
    h.table.running (show (s.table.pcOf b).over = false by rw [hpc]; rfl)
  have hid := hok.callId r hr
  have hlt : b < s.made.length := h.made ▸ (List.getElem?_eq_some_iff.mp hb).1
  have hc := List.getElem?_eq_getElem hlt
  obtain ⟨m, hmessage, hm⟩ := SocketCall.message_ok (.ofInt ((b : Int) + 1))
    (h.sendable _ (List.getElem_mem hlt))
  generalize s.made[b] = c at hc hmessage
  have hsend := WebSocketStream.sendEx_eq hm s.stream
  generalize hframe : (binaryFrame m hm).encode = bs at hsend
  have hlog : (s.stream.send bs).2.socket.log =
      s.stream.socket.log ++ [(bs, (s.stream.send bs).1)] := s.stream.socket.send_log bs
  have hlogOk : LogOk (s.stream.send bs).2.socket.log := by
    rw [hlog]
    intro w hw
    rcases List.mem_append.mp hw with hw | hw
    · exact h.log w hw
    · rw [List.mem_singleton.mp hw, ← hframe]
      refine ⟨List.cons_ne_nil _ _, ?_⟩
      rcases s.stream.socket.send_fst_nonneg_or (binaryFrame m hm).encode with hret | ⟨n, hret, hn⟩
      · exact Int.le_trans (Int.le_of_eq hret) (by omega)
      · exact Int.le_trans (Int.le_of_eq hret) (Int.ofNat_le.mpr hn)
  simp only [writeRequest, hload, ok_bind, hc, hid, hmessage, hsend]
  by_cases hwhole : (s.stream.send bs).1 = bs.length
  · obtain ⟨t, hact, hinv⟩ := h.send (s.stream.send bs).2 hen hc hmessage (by
      rw [hlog, wholeWrites_append, wholeWrites_cons_of_whole hwhole, hframe]
      rfl) hlogOk
    exact ⟨_, by simp only [hwhole, if_true, hact, ok_bind, pure_eq_ok], hinv⟩
  · have habandon : s.table.enabled (.abandon b) = true := by
      simp [CallTable.enabled, hlive, hpc]
    obtain ⟨t, hact, hinv⟩ := h.quiet (s.stream.send bs).2 habandon (by simp) (by simp) (by
      rw [hlog, wholeWrites_append, wholeWrites_cons_of_ne hwhole]
      exact List.append_nil _) hlogOk
    exact ⟨_, by simp only [hwhole, if_false, hact, ok_bind, pure_eq_ok], hinv⟩

end Inv

/-- **Every step** ends well and keeps what holds. -/
theorem inv_act (s : RequestWire) (e : WireEvent) (h : Inv junk memdup s) (hen : s.enabled e = true)
    (hok : s.sendable e = true) : ∃ s', s.act junk memdup e = .ok s' ∧ Inv junk memdup s' := by
  cases e with
  | call c => exact h.call (of_decide_eq_true hok) hen
  | sendEx b => exact h.sendEx hen
  | table e =>
    have hquiet (hallocate : ∀ n, e ≠ .allocate n) (hsend : ∀ b, e ≠ .send b)
        (hen : s.table.enabled e = true) :
        ∃ s', s.act junk memdup (.table e) = .ok s' ∧ Inv junk memdup s' := by
      obtain ⟨t, hact, hinv⟩ := h.quiet s.stream hen hallocate hsend rfl h.log
      exact ⟨_, by simp only [act, hact, ok_bind, pure_eq_ok], hinv⟩
    cases e with
    | allocate | send => cases hen
    | _ => exact hquiet (by simp) (by simp) hen

/-! ## What the proxy gets -/

/-- A frame is the request of a call: it is read as the call exactly when the arguments
fit. -/
def IsRequest (made : List SocketCall) (q : Int × Int) (f : Frame) : Prop :=
  ∃ (b : Nat) (c : SocketCall), made[b]? = some c ∧
    q = ((b : Int) + 1, (c.expectedBytes : Int)) ∧ f.fin = true ∧ f.opcode = .binary ∧
    (ProxyRequest.ofMessage f.payload = some ((b : Int) + 1, c.asked) ↔ c.Fits)

theorem Carries.isRequest {made : List SocketCall} {q : Int × Int} {bs : Bytes}
    (h : Carries made q bs) (hlen : made.length < 2 ^ 31) :
    ∃ f : Frame, f.encode = bs ∧ IsRequest made q f := by
  obtain ⟨b, c, m, hm, hc, hq, hmessage, rfl⟩ := h
  have hlt := (List.getElem?_eq_some_iff.mp hc).1
  have hread := ofMessage_message_iff (.ofInt ((b : Int) + 1)) c
  rw [CInt.val_ofInt (by omega) (by omega)] at hread
  refine ⟨binaryFrame m hm, rfl, b, c, hc, hq, rfl, rfl, ?_⟩
  rw [← hread]
  constructor
  · exact fun hof => ⟨m, hmessage, hof⟩
  · rintro ⟨m', hm', hof⟩
    cases hmessage.symm.trans hm'
    exact hof

/-- The whole writes are the frames of the requests. -/
theorem frames_of_carried {made : List SocketCall} {requests : List (Int × Int)}
    {log : List Bytes} (hlen : made.length < 2 ^ 31)
    (h : List.Forall₂ (Carries made) requests log) :
    ∃ fs : List Frame, fs.map Frame.encode = log ∧
      List.Forall₂ (IsRequest made) requests fs := by
  induction h with
  | nil => exact ⟨[], rfl, .nil⟩
  | cons hq _ ih =>
    obtain ⟨f, hf, hrequest⟩ := Carries.isRequest hq hlen
    obtain ⟨fs, hfs, hrequests⟩ := ih
    exact ⟨f :: fs, by rw [List.map_cons, hf, hfs], .cons hrequest hrequests⟩

/-- A call whose wait has returned true has an answer to its id. -/
theorem exists_answer {t : CallTable} (h : t.Inv) {b : Nat} {c : ProxiedCall}
    (hc : t.calls[b]? = some c) (hgot : c.pc.got = true) :
    ∃ m, c.answer = some m ∧ ((b : Int) + 1, m) ∈ t.answers := by
  have hok := h.calls b c hc
  obtain ⟨record, pc⟩ := c
  cases pc with
  | returned =>
    obtain ⟨r, hr⟩ := hok.alive rfl
    obtain ⟨-, m, hm, hanswer⟩ := hok.completed r hr (hok.returned r hr (.inl rfl))
    obtain rfl : record = some r := hr
    exact ⟨m, hm, hanswer⟩
  | used m | done m => exact ⟨m, rfl, hok.saw m rfl⟩
  | _ => cases hgot

/-- **The requests on the wire.** Under any interleaving, whatever becomes of the writes,
while the ids are `int`s, the addresses of `connect3` are not too long, and the proxy
answers only what it was sent, once, with a header and what the call expects: the run is
one of the table of calls. Its requests have different ids and are, in their order,
messages in frames of their own, each of which is read as its call exactly when the
arguments fit. What has reached the proxy is these frames exactly when no write was cut short.
And a call whose wait has returned true has an answer to the one request that was made by it. -/
theorem requests_reach {outcomes : List WriteOutcome} {es : List WireEvent}
    {result : Res RequestWire}
    (hrun : ((machine junk memdup outcomes).restrict (whereOk sendable)).run es = some result) :
    ∃ s, result = .ok s ∧ (∃ es', (CallTable.machine junk memdup).run es' = some (.ok s.table)) ∧
      s.table.asked.Nodup ∧
      ∃ fs : List Frame, messages fs = some (fs.map Frame.payload) ∧
        List.Forall₂ (IsRequest s.made) s.table.requests fs ∧
        (s.stream.socket.reached = wire fs ↔
          ∀ w ∈ s.stream.socket.log, w.2 ≤ 0 ∨ w.2 = w.1.length) ∧
        ∀ (b : Nat) c, s.table.calls[b]? = some c → c.pc.got = true →
          ∃ p m f, s.made[b]? = some p ∧ c.answer = some m ∧
            ((b : Int) + 1, m) ∈ s.table.answers ∧ f ∈ fs ∧
            (ProxyRequest.ofMessage f.payload = some ((b : Int) + 1, p.asked) ↔ p.Fits) := by
  obtain ⟨s, rfl, h⟩ := checked_restrict_run (Inv junk memdup) (inv_new outcomes) inv_act hrun
  have hlen : s.made.length < 2 ^ 31 := by
    have := h.table.nextId
    have := h.made
    have := h.ids
    omega
  obtain ⟨fs, hfs, hrequests⟩ := frames_of_carried hlen h.carried
  refine ⟨s, rfl, h.refines, h.nodup, fs, messages_of_whole ?_, hrequests, ?_, ?_⟩
  · intro f hf
    obtain ⟨q, -, b, c, -, -, hfin, hopcode, -⟩ := exists_partner hrequests.flip f hf
    exact ⟨hfin, hopcode⟩
  · rw [Socket.reached, wire, hfs]
    exact reached_eq_wholeWrites_iff h.log
  · intro b c hc hgot
    obtain ⟨m, hm, hanswer⟩ := exists_answer h.table hc hgot
    obtain ⟨q, hq, hid⟩ := List.mem_map.mp (h.unsent.answered _ hanswer)
    obtain ⟨f, hf, b', p, hp, rfl, -, -, hread⟩ := exists_partner hrequests q hq
    obtain rfl : b' = b := by
      dsimp only at hid
      omega
    exact ⟨p, m, f, hp, hm, hanswer, hf, hread⟩

/-- A call to receive is answered; the request of a call to send is cut short, so that not
only frames of requests have reached the proxy. -/
theorem requests_reach_cut :
    let zero : CInt := ⟨0, by decide⟩
    let recv : SocketCall := .doRecv ⟨3, by decide⟩ 1024 zero
    let send : SocketCall := .send3 ⟨3, by decide⟩ (.bytes [1, 2, 3]) zero (by decide)
    let answer : Frame := ⟨true, .binary, none, 1 :: List.replicate 11 0, by simp⟩
    let es : List WireEvent := List.flatten [
      [.call recv, .sendEx 0, .table (.putCallId 0), .call send, .sendEx 1],
      List.replicate 3 (.table .network), [.table (.answer answer)],
      List.replicate 5 (.table .network), [.table (.wait 0)]]
    ∃ s, ((machine [] (fun _ => true) [.accept 22, .accept 5]).restrict (whereOk sendable)).run es =
        some (.ok s) ∧ s.table.requests = [(1, 12)] ∧
      ∃ fs : List Frame, fs.length = 1 ∧ s.stream.socket.reached ≠ wire fs ∧
        ∃ c m, s.table.calls[0]? = some c ∧ c.answer = some m ∧ (1, m) ∈ s.table.answers := by
  intro zero recv send answer es
  have hend : ((((machine [] (fun _ => true) [.accept 22, .accept 5]).restrict
      (whereOk sendable)).run es).any
      fun result => result.toOption.any fun s => decide (s.table.requests = [(1, 12)] ∧
        (s.table.calls.map fun c => c.pc.got) = [true, false] ∧
        (s.stream.socket.log.map fun w => (w.1.length, w.2)) = [(22, 22), (25, 5)])) = true := by
    decide +kernel
  obtain ⟨result, hrun, hresult⟩ := (Option.any_eq_true _ _).mp hend
  obtain ⟨s, rfl, -, -, fs, -, hfs, hreached, hanswers⟩ := requests_reach hrun
  obtain ⟨hrequests, hgot, hlog⟩ := of_decide_eq_true hresult
  refine ⟨s, hrun, hrequests, fs, ?_, fun hwire => ?_, ?_⟩
  · rw [← hfs.length_eq, hrequests]
    rfl
  · have hcut : ((25 : Nat), (5 : Int)) ∈ s.stream.socket.log.map fun w => (w.1.length, w.2) := by
      rw [hlog]
      decide
    obtain ⟨w, hw, heq⟩ := List.mem_map.mp hcut
    obtain ⟨hlen, hret⟩ := Prod.mk.inj heq
    have := hreached.mp hwire w hw
    omega
  · cases hcalls : s.table.calls with
    | nil =>
      rw [hcalls] at hgot
      cases hgot
    | cons c cs =>
      rw [hcalls, List.map_cons] at hgot
      obtain ⟨p, m, f, -, hm, hanswer, -⟩ := hanswers 0 c (by rw [hcalls]; rfl)
        (List.cons.inj hgot).1
      exact ⟨c, m, rfl, hm, by simpa using hanswer⟩

end RequestWire

end ZktlsNet
