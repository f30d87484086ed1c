import ZktlsNet.Proxy.Threads

/-!
# Careful steps of a proxy client

Three things can go wrong when a context is destroyed. The send thread, which is joined
before waits are cancelled and receiving is stopped, waits for an answer that need not
come. The first statement of `process_network` takes back a stop request that is made
before it. And a network thread that reads from an `SSLStream` cannot be told to stop. A
step of which none of these comes is `careful`, and this is what careful steps keep.

- `Asked`, `Joined`, `Answered`: the invariant, about the flags, the joins, and the
  answers that are waited for.
- `ThreadStep`: what a thread can do to the flags and to the other threads.
- `Inv.step`: every careful step.
-/

namespace ZktlsNet

open NetLib

namespace ProxyClientCtx

/-! ## Careful steps -/

/-- A send waits for its answer, or will. -/
def sendsOutstanding (s : ProxyClientCtx) : Bool :=
  match s.sender with
  | .none | .exited => false
  | .get => !s.sendCtx.list.isEmpty
  | .put _ => true
  | .wait b => s.operationCompleted b = 0 || !s.sendCtx.list.isEmpty

/-- The calls whose answers the network thread is yet to receive. -/
def due (s : ProxyClientCtx) : List Nat :=
  match s.network with
  | .recv b => b :: s.callIdHeader
  | _ => s.callIdHeader

/-- The destructor does not begin while a send is outstanding. It does not make its stop
request before the first statement of the network thread; nor, where the stream cannot be
told to stop, while that thread has an answer to receive. -/
def careful (s : ProxyClientCtx) : ThreadEvent → Bool
  | .destroy => !s.sendsOutstanding
  | .owner => s.owner ≠ .stop || (s.network ≠ .start && (s.protocol = .ws || s.due.isEmpty))
  | _ => true

/-- The destructor has begun. -/
def Destroying (s : ProxyClientCtx) : Prop := 1 ≤ s.owner.stage

/-! ## Records -/

theorem operationCompleted_allocate (s : ProxyClientCtx) (b : Nat) :
    s.allocate.operationCompleted b = s.operationCompleted b := by
  simp only [operationCompleted, allocate]
  by_cases hb : b < s.records.length
  · rw [List.getElem?_append_left hb]
  · rw [List.getElem?_append_right (by omega), List.getElem?_eq_none (by omega : _ ≤ b)]
    cases h : [(⟨0, 0, 0⟩ : CallResult)][b - s.records.length]? with
    | none => rfl
    | some r =>
      have hr := List.mem_of_getElem? h
      rw [List.mem_singleton] at hr
      rw [hr]
      rfl

/-- A record that is completed, or given up, stays so. -/
theorem operationCompleted_modify {s : ProxyClientCtx} {d : Nat} (h : s.operationCompleted d ≠ 0)
    (b : Nat) {f : CallResult → CallResult}
    (hf : ∀ r, r.operationCompleted ≠ 0 → (f r).operationCompleted ≠ 0) :
    operationCompleted { s with records := s.records.modify b f } d ≠ 0 := by
  simp only [operationCompleted, List.getElem?_modify] at h ⊢
  cases hr : s.records[d]? with
  | none =>
    rw [hr] at h
    exact absurd rfl h
  | some r =>
    rw [hr] at h
    have h : r.operationCompleted ≠ 0 := h
    show (if b = d then f r else r).operationCompleted ≠ 0
    split
    · exact hf r h
    · exact h

theorem operationCompleted_complete {s : ProxyClientCtx} {d : Nat}
    (h : s.operationCompleted d ≠ 0) (b : Nat) (ret errno : Int) :
    (s.complete b ret errno).operationCompleted d ≠ 0 :=
  operationCompleted_modify h b fun r hr => by rwa [if_neg hr]

theorem operationCompleted_giveUp {s : ProxyClientCtx} {d : Nat}
    (h : s.operationCompleted d ≠ 0) (b : Nat) : (s.giveUp b).operationCompleted d ≠ 0 :=
  operationCompleted_modify h b fun _ _ => Nat.succ_ne_zero 1

/-! ## The invariant -/

/-- The flags are as the destructor leaves them. -/
structure Asked (s : ProxyClientCtx) : Prop where
  valid : s.owner = .joinSender → s.sendCtx.valid = false
  cancelled : s.owner = .joinReceiver → s.waitOperationCompleted = false
  receiving : 6 ≤ s.owner.stage → s.network ≠ .none → s.recvAgain = false
  stopped : 7 ≤ s.owner.stage → s.network ≠ .none →
    s.waitNextCallId = false ∧ s.network ≠ .start

/-- A thread that has been joined is over, and one that is joined was created. -/
structure Joined (s : ProxyClientCtx) : Prop where
  sender : 3 ≤ s.owner.stage → s.sender.over = true
  receiver : 5 ≤ s.owner.stage → s.receiver.over = true
  network : 8 ≤ s.owner.stage → s.network.over = true
  created : s.sender = .none → s.receiver = .none
  joinSender : s.owner = .joinSender → s.sender ≠ .none
  joinReceiver : s.owner = .joinReceiver → s.receiver ≠ .none
  joinNetwork : s.owner = .stop ∨ s.owner = .joinNetwork → s.network ≠ .none

/-- The send thread has nothing to wait for once the destructor has begun, and the network
thread nothing to receive once it is told to stop, unless its stream is. -/
structure Answered (s : ProxyClientCtx) : Prop where
  sends : Destroying s → s.sendsOutstanding = false
  due : 7 ≤ s.owner.stage → s.network ≠ .none → s.protocol = .wss → s.due = []

/-- All that holds in a run of careful steps. -/
structure Inv (s : ProxyClientCtx) : Prop where
  asked : Asked s
  joined : Joined s
  answered : Answered s

/-- Before the destructor next to nothing is asked of a state. -/
theorem Inv.outside {s : ProxyClientCtx} (howner : s.owner.stage = 0)
    (hcreated : s.sender = .none → s.receiver = .none) : Inv s where
  asked := {
    valid := fun ho => by rw [ho] at howner; cases howner
    cancelled := fun ho => by rw [ho] at howner; cases howner
    receiving := fun ho => by omega
    stopped := fun ho => by omega }
  joined := {
    sender := fun ho => by omega
    receiver := fun ho => by omega
    network := fun ho => by omega
    created := hcreated
    joinSender := fun ho => by rw [ho] at howner; cases howner
    joinReceiver := fun ho => by rw [ho] at howner; cases howner
    joinNetwork := fun ho => by rcases ho with ho | ho <;> (rw [ho] at howner; cases howner) }
  answered := {
    sends := fun ho => by rw [Destroying, howner] at ho; cases ho
    due := fun ho => by omega }

theorem inv_new : Inv new := .outside rfl fun _ => rfl

/-! ## The threads leave the owner's part alone -/

/-- What a step of a thread can do to the flags and to the threads. -/
structure ThreadStep (s s' : ProxyClientCtx) : Prop where
  owner : s'.owner = s.owner
  protocol : s'.protocol = s.protocol
  valid : s'.sendCtx.valid = s.sendCtx.valid
  waiting : s'.waitOperationCompleted = s.waitOperationCompleted
  receiving : s'.recvAgain = s.recvAgain
  going : s'.waitNextCallId = s.waitNextCallId ∨ s.network = .start
  network : s'.network = s.network ∨
    s.network.over = false ∧ s'.network ≠ .start ∧ s'.network ≠ .none
  sender : s'.sender = s.sender ∨ s.sender.over = false ∧ s'.sender ≠ .none
  receiver : s'.receiver = s.receiver ∨ s.receiver.over = false ∧ s'.receiver ≠ .none

/-- All that a step of the network thread, or an end of its `RecvMessage`, can do. -/
structure NetworkMove (s s' : ProxyClientCtx) : Prop where
  rest : s' = { s with
    records := s'.records
    callIdHeader := s'.callIdHeader
    waitNextCallId := s'.waitNextCallId
    network := s'.network }
  running : s.network.over = false
  created : s'.network ≠ .start ∧ s'.network ≠ .none
  going : s'.waitNextCallId = s.waitNextCallId ∨ s.network = .start
  completed : ∀ d, s.operationCompleted d ≠ 0 → s'.operationCompleted d ≠ 0
  due : s.due = [] → s'.due = []

theorem NetworkMove.threadStep {s s' : ProxyClientCtx} (h : NetworkMove s s') :
    ThreadStep s s' := by
  obtain ⟨hrest, hover, hcreated, hgoing, -, -⟩ := h
  rw [hrest] at hcreated hgoing ⊢
  exact ⟨rfl, rfl, rfl, rfl, rfl, hgoing, .inr ⟨hover, hcreated⟩, .inl rfl, .inl rfl⟩

theorem networkStep_move {s s' : ProxyClientCtx} (hstep : s.networkStep = some s') :
    NetworkMove s s' := by
  cases hnet : s.network with
  | start =>
    simp only [networkStep, hnet, Option.some.injEq] at hstep
    subst hstep
    exact ⟨rfl, by rw [hnet]; rfl, by simp, .inr hnet, fun _ h => h,
      fun h => by simpa [due, hnet] using h⟩
  | take =>
    have hover : s.network.over = false := by rw [hnet]; rfl
    cases hids : s.callIdHeader with
    | nil =>
      simp only [networkStep, hnet, hids, Option.ite_none_left_eq_some, Option.some.injEq] at hstep
      obtain ⟨-, rfl⟩ := hstep
      exact ⟨rfl, hover, by simp, .inl rfl, fun _ h => h, fun _ => rfl⟩
    | cons b bs =>
      simp only [networkStep, hnet, hids, Option.some.injEq] at hstep
      subst hstep
      exact ⟨rfl, hover, by simp, .inl rfl, fun _ h => h, fun h => by simp [due, hnet, hids] at h⟩
  | bridge b ret errno =>
    simp only [networkStep, hnet, Option.some.injEq] at hstep
    subst hstep
    refine ⟨rfl, by rw [hnet]; rfl, by simp, .inl rfl,
      fun d h => operationCompleted_complete h b ret errno, fun h => ?_⟩
    show s.callIdHeader = []
    simpa [due, hnet] using h
  | none | recv | exited => simp [networkStep, hnet] at hstep

/-- `RecvMessage` ends in one way or another. -/
theorem move_of_recv {s : ProxyClientCtx} {b : Nat} (hnet : s.network = .recv b)
    {network : NetworkThread} (hcreated : network ≠ .start ∧ network ≠ .none) :
    NetworkMove s { s with network := network } :=
  ⟨rfl, by rw [hnet]; rfl, hcreated, .inl rfl, fun _ h => h, fun h => by simp [due, hnet] at h⟩

theorem senderStep_threadStep {s s' : ProxyClientCtx} (hstep : s.senderStep = some s') :
    ThreadStep s s' := by
  cases hsender : s.sender with
  | get =>
    have hover : s.sender.over = false := by rw [hsender]; rfl
    cases hlist : s.sendCtx.list with
    | nil =>
      simp only [senderStep, hsender, hlist, Option.ite_none_left_eq_some,
        Option.some.injEq] at hstep
      obtain ⟨-, rfl⟩ := hstep
      exact ⟨rfl, rfl, rfl, rfl, rfl, .inl rfl, .inl rfl, .inr ⟨hover, by simp⟩, .inl rfl⟩
    | cons b bs =>
      simp only [senderStep, hsender, hlist, Option.some.injEq] at hstep
      subst hstep
      exact ⟨rfl, rfl, rfl, rfl, rfl, .inl rfl, .inl rfl, .inr ⟨hover, by simp⟩, .inl rfl⟩
  | put b =>
    simp only [senderStep, hsender, Option.some.injEq] at hstep
    subst hstep
    exact ⟨rfl, rfl, rfl, rfl, rfl, .inl rfl, .inl rfl, .inr ⟨by rw [hsender]; rfl, by simp⟩,
      .inl rfl⟩
  | wait b =>
    have hover : s.sender.over = false := by rw [hsender]; rfl
    simp only [senderStep, hsender, Option.ite_none_left_eq_some] at hstep
    obtain ⟨-, hstep⟩ := hstep
    split at hstep <;> cases hstep <;>
      exact ⟨rfl, rfl, rfl, rfl, rfl, .inl rfl, .inl rfl, .inr ⟨hover, by simp⟩, .inl rfl⟩
  | none | exited => simp [senderStep, hsender] at hstep

/-- All that a step of the receive thread can do. -/
structure ReceiverStep (s s' : ProxyClientCtx) : Prop where
  rest : s' = { s with
    records := s'.records
    callIdHeader := s'.callIdHeader
    recvZero := s'.recvZero
    errno := s'.errno
    receiver := s'.receiver }
  running : s.receiver.over = false
  created : s'.receiver ≠ .none
  completed : ∀ d, s.operationCompleted d ≠ 0 → s'.operationCompleted d ≠ 0

/-- The end of a round. -/
theorem ReceiverStep.received {s : ProxyClientCtx} (hover : s.receiver.over = false)
    {records : List CallResult} (hop : ∀ d, s.operationCompleted d ≠ 0 →
      operationCompleted { s with records := records } d ≠ 0) (errno ret : Int) :
    ReceiverStep s ({ s with records := records, errno := errno }.received ret) := by
  unfold ProxyClientCtx.received
  split
  · split <;> exact ⟨rfl, hover, by simp, hop⟩
  · exact ⟨rfl, hover, by simp, hop⟩

theorem receiverStep_spec {s s' : ProxyClientCtx} (hstep : s.receiverStep = some s') :
    ReceiverStep s s' := by
  cases hreceiver : s.receiver with
  | loop =>
    have hover : s.receiver.over = false := by rw [hreceiver]; rfl
    simp only [receiverStep, hreceiver] at hstep
    split at hstep <;> cases hstep
    · exact .received hover (fun _ h => h) s.errno (-1)
    · exact ⟨rfl, hover, by simp, fun d h => (operationCompleted_allocate s d).trans_ne h⟩
  | put b =>
    simp only [receiverStep, hreceiver, Option.some.injEq] at hstep
    subst hstep
    exact ⟨rfl, by rw [hreceiver]; rfl, by simp, fun _ h => h⟩
  | wait b =>
    have hover : s.receiver.over = false := by rw [hreceiver]; rfl
    simp only [receiverStep, hreceiver, Option.ite_none_left_eq_some] at hstep
    obtain ⟨-, hstep⟩ := hstep
    split at hstep <;> cases hstep
    · exact .received hover (fun d h => operationCompleted_giveUp h b) s.errno (-1)
    · exact .received hover (fun _ h => h) _ _
  | none | exited => simp [receiverStep, hreceiver] at hstep

theorem ReceiverStep.threadStep {s s' : ProxyClientCtx} (h : ReceiverStep s s') :
    ThreadStep s s' := by
  obtain ⟨hrest, hover, hne, -⟩ := h
  rw [hrest] at hne ⊢
  exact ⟨rfl, rfl, rfl, rfl, rfl, .inl rfl, .inl rfl, .inl rfl, .inr ⟨hover, hne⟩⟩

/-- A network thread that exists goes on existing. -/
theorem ThreadStep.network_ne_none {s s' : ProxyClientCtx} (hstep : ThreadStep s s')
    (hne : s'.network ≠ .none) : s.network ≠ .none := by
  rcases hstep.network with heq | ⟨hover, -⟩
  · rwa [heq] at hne
  · intro hh
    rw [hh] at hover
    cases hover

theorem Asked.threadStep {s s' : ProxyClientCtx} (h : Asked s) (hstep : ThreadStep s s') :
    Asked s' where
  valid ho := by
    rw [hstep.valid]
    exact h.valid (hstep.owner ▸ ho)
  cancelled ho := by
    rw [hstep.waiting]
    exact h.cancelled (hstep.owner ▸ ho)
  receiving ho hnone := by
    rw [hstep.receiving]
    exact h.receiving (hstep.owner ▸ ho) (hstep.network_ne_none hnone)
  stopped ho hnone := by
    obtain ⟨hgoing, hstart⟩ := h.stopped (hstep.owner ▸ ho) (hstep.network_ne_none hnone)
    constructor
    · rcases hstep.going with heq | hh
      · rw [heq]
        exact hgoing
      · exact absurd hh hstart
    · rcases hstep.network with heq | ⟨-, hne, -⟩
      · rw [heq]
        exact hstart
      · exact hne

/-- A thread that is over stays so. -/
theorem Joined.threadStep {s s' : ProxyClientCtx} (h : Joined s) (hstep : ThreadStep s s') :
    Joined s' := by
  have hsender : s.sender.over = true → s'.sender = s.sender := fun hover =>
    hstep.sender.resolve_right fun hh => by simp [hover] at hh
  have hreceiver : s.receiver.over = true → s'.receiver = s.receiver := fun hover =>
    hstep.receiver.resolve_right fun hh => by simp [hover] at hh
  have hnetwork : s.network.over = true → s'.network = s.network := fun hover =>
    hstep.network.resolve_right fun hh => by simp [hover] at hh
  have howner := hstep.owner
  refine ⟨?_, ?_, ?_, ?_, ?_, ?_, ?_⟩
  · intro ho
    have hover := h.sender (howner ▸ ho)
    rwa [hsender hover]
  · intro ho
    have hover := h.receiver (howner ▸ ho)
    rwa [hreceiver hover]
  · intro ho
    have hover := h.network (howner ▸ ho)
    rwa [hnetwork hover]
  · intro hnone
    rcases hstep.sender with heq | ⟨-, hne⟩
    · have hr := h.created (heq ▸ hnone)
      rw [hreceiver (by rw [hr]; rfl), hr]
    · exact absurd hnone hne
  · intro ho
    rcases hstep.sender with heq | ⟨-, hne⟩
    · rw [heq]
      exact h.joinSender (howner ▸ ho)
    · exact hne
  · intro ho
    rcases hstep.receiver with heq | ⟨-, hne⟩
    · rw [heq]
      exact h.joinReceiver (howner ▸ ho)
    · exact hne
  · intro ho
    rcases hstep.network with heq | ⟨-, -, hne⟩
    · rw [heq]
      exact h.joinNetwork (howner ▸ ho)
    · exact hne

/-! ## The answers that are waited for -/

/-- Answers, and new records, make no send outstanding. -/
theorem sendsOutstanding_mono {s s' : ProxyClientCtx} (h : s.sendsOutstanding = false)
    (hsender : s'.sender = s.sender) (hlist : s'.sendCtx.list = s.sendCtx.list)
    (hop : ∀ d, s.operationCompleted d ≠ 0 → s'.operationCompleted d ≠ 0) :
    s'.sendsOutstanding = false := by
  unfold sendsOutstanding at h ⊢
  rw [hsender, hlist]
  split at h
  · rfl
  · rfl
  · exact h
  · exact h
  · simp only [Bool.or_eq_false_iff, decide_eq_false_iff_not] at h ⊢
    exact ⟨hop _ h.1, h.2⟩

/-- Nor does the send thread. -/
theorem sendsOutstanding_senderStep {s s' : ProxyClientCtx} (h : s.sendsOutstanding = false)
    (hstep : s.senderStep = some s') : s'.sendsOutstanding = false := by
  cases hsender : s.sender with
  | get =>
    have hlist : s.sendCtx.list = [] := by simpa [sendsOutstanding, hsender] using h
    simp only [senderStep, hsender, hlist, Option.ite_none_left_eq_some] at hstep
    obtain ⟨-, hstep⟩ := hstep
    cases hstep
    rfl
  | put b => simp [sendsOutstanding, hsender] at h
  | wait b =>
    simp only [senderStep, hsender, Option.ite_none_left_eq_some] at hstep
    obtain ⟨-, hstep⟩ := hstep
    simp only [sendsOutstanding, hsender, Bool.or_eq_false_iff] at h
    split at hstep <;> cases hstep
    · rfl
    · exact h.2
  | none | exited => simp [senderStep, hsender] at hstep

/-- **A step of the network thread**, or an end of its `RecvMessage`. -/
theorem Inv.networkMove {s s' : ProxyClientCtx} (h : Inv s) (hmove : NetworkMove s s') :
    Inv s' := by
  have hthread := hmove.threadStep
  refine ⟨h.asked.threadStep hthread, h.joined.threadStep hthread,
    ⟨fun hd => ?_, fun ho hne hp => ?_⟩⟩
  · rw [Destroying, hthread.owner] at hd
    exact sendsOutstanding_mono (h.answered.sends hd) (by rw [hmove.rest]) (by rw [hmove.rest])
      hmove.completed
  · exact hmove.due (h.answered.due (hthread.owner ▸ ho) (hthread.network_ne_none hne)
      (hthread.protocol ▸ hp))

/-- **A step of the send thread.** It takes no more sends, and is over when the network
thread is told to stop. -/
theorem Inv.senderStep {s s' : ProxyClientCtx} (h : Inv s) (hstep : s.senderStep = some s') :
    Inv s' := by
  have hthread := senderStep_threadStep hstep
  refine ⟨h.asked.threadStep hthread, h.joined.threadStep hthread, ⟨fun hd => ?_, fun ho _ _ => ?_⟩⟩
  · rw [Destroying, hthread.owner] at hd
    exact sendsOutstanding_senderStep (h.answered.sends hd) hstep
  · rw [hthread.owner] at ho
    have hover := h.joined.sender (by omega)
    unfold ProxyClientCtx.senderStep at hstep
    cases hsender : s.sender <;> simp_all [SendThread.over]

/-- **A step of the receive thread.** -/
theorem Inv.receiverStep {s s' : ProxyClientCtx} (h : Inv s) (hstep : s.receiverStep = some s') :
    Inv s' := by
  have hspec := receiverStep_spec hstep
  have hthread := hspec.threadStep
  refine ⟨h.asked.threadStep hthread, h.joined.threadStep hthread, ⟨fun hd => ?_, fun ho _ _ => ?_⟩⟩
  · rw [Destroying, hthread.owner] at hd
    exact sendsOutstanding_mono (h.answered.sends hd) (by rw [hspec.rest]) (by rw [hspec.rest])
      hspec.completed
  · rw [hthread.owner] at ho
    have hover := h.joined.receiver (by omega)
    rw [hspec.running] at hover
    cases hover

/-! ## The owner -/

/-- The destructor goes on without a store: the threads between here and there need not
be joined, or are over. -/
theorem Inv.moveOn {s : ProxyClientCtx} (h : Inv s) (hdestroying : Destroying s) {o : Owner}
    (ho : o = .cancel ∨ o = .stopRecv ∨ o = .close ∨ o = .finished)
    (hle : s.owner.stage ≤ o.stage) (hsender : s.owner.stage < 3 → s.sender.over = true)
    (hreceiver : s.owner.stage < 5 → 5 ≤ o.stage → s.receiver.over = true)
    (hnetwork : s.owner.stage < 8 → 8 ≤ o.stage → s.network.over = true)
    (hnone : s.owner.stage < 7 → 7 ≤ o.stage → s.network = .none) : Inv { s with owner := o } := by
  have hout : o ≠ .joinSender ∧ o ≠ .joinReceiver ∧ ¬ (o = .stop ∨ o = .joinNetwork) ∧
      (o.stage < 7 → o.stage < 6) := by
    rcases ho with rfl | rfl | rfl | rfl <;> simp [Owner.stage]
  obtain ⟨hjoinSender, hjoinReceiver, hjoinNetwork, hsix⟩ := hout
  refine ⟨?_, ?_, ?_⟩
  · constructor
    · exact fun heq => absurd heq hjoinSender
    · exact fun heq => absurd heq hjoinReceiver
    · intro hstage hne
      have hseven : 7 ≤ o.stage := by
        by_contra hlt
        have := hsix (by omega)
        have : 6 ≤ o.stage := hstage
        omega
      by_cases hpast : 7 ≤ s.owner.stage
      · exact h.asked.receiving (by omega) hne
      · exact absurd (hnone (by omega) hseven) hne
    · intro hstage hne
      by_cases hpast : 7 ≤ s.owner.stage
      · exact h.asked.stopped hpast hne
      · exact absurd (hnone (by omega) hstage) hne
  · constructor
    · intro hstage
      by_cases hpast : 3 ≤ s.owner.stage
      · exact h.joined.sender hpast
      · exact hsender (by omega)
    · intro hstage
      by_cases hpast : 5 ≤ s.owner.stage
      · exact h.joined.receiver hpast
      · exact hreceiver (by omega) hstage
    · intro hstage
      by_cases hpast : 8 ≤ s.owner.stage
      · exact h.joined.network hpast
      · exact hnetwork (by omega) hstage
    · exact h.joined.created
    · exact fun heq => absurd heq hjoinSender
    · exact fun heq => absurd heq hjoinReceiver
    · exact fun heq => absurd heq hjoinNetwork
  · constructor
    · exact fun _ => h.answered.sends hdestroying
    · intro hstage hne hprotocol
      by_cases hpast : 7 ≤ s.owner.stage
      · exact h.answered.due hpast hne hprotocol
      · exact absurd (hnone (by omega) hstage) hne

/-- **A step of the destructor.** Each join is passed when its thread is over. -/
theorem Inv.destructorStep {s s' : ProxyClientCtx} (h : Inv s) (hdestroying : Destroying s)
    (hok : s.careful .owner = true) (hstep : s.ownerStep = some s') : Inv s' := by
  have hjoined := h.joined
  have hsends := h.answered.sends hdestroying
  cases howner : s.owner with
  | idle | put | wait =>
    rw [Destroying, howner] at hdestroying
    cases hdestroying
  | setSend =>
    simp only [ownerStep, howner] at hstep
    split at hstep <;> cases hstep
    · rename_i hnone
      exact h.moveOn hdestroying (by simp) (by simp [howner, Owner.stage])
        (by simp [hnone, SendThread.over]) (by simp [Owner.stage]) (by simp [Owner.stage])
        (by simp [Owner.stage])
    · rename_i hne
      exact ⟨⟨by simp, by simp, by simp [Owner.stage], by simp [Owner.stage]⟩,
        ⟨by simp [Owner.stage], by simp [Owner.stage], by simp [Owner.stage],
          hjoined.created, fun _ => hne, by simp, by simp⟩,
        fun _ => hsends, by simp [Owner.stage]⟩
  | joinSender =>
    simp only [ownerStep, howner] at hstep
    obtain ⟨hexited, hstep⟩ := Option.ite_none_right_eq_some.mp hstep
    cases hstep
    exact h.moveOn hdestroying (by simp) (by simp [howner, Owner.stage])
      (by simp [hexited, SendThread.over]) (by simp [Owner.stage]) (by simp [Owner.stage])
      (by simp [Owner.stage])
  | cancel =>
    have hsender := hjoined.sender (by rw [howner]; decide)
    simp only [ownerStep, howner] at hstep
    split at hstep <;> cases hstep
    · rename_i hnone
      exact h.moveOn hdestroying (by simp) (by simp [howner, Owner.stage]) (fun _ => hsender)
        (by simp [hnone, RecvThread.over]) (by simp [Owner.stage]) (by simp [Owner.stage])
    · rename_i hne
      exact ⟨⟨by simp, fun _ => rfl, by simp [Owner.stage], by simp [Owner.stage]⟩,
        ⟨fun _ => hsender, by simp [Owner.stage], by simp [Owner.stage],
          hjoined.created, by simp, fun _ => hne, by simp⟩,
        fun _ => hsends, by simp [Owner.stage]⟩
  | joinReceiver =>
    have hsender := hjoined.sender (by rw [howner]; decide)
    simp only [ownerStep, howner] at hstep
    obtain ⟨hexited, hstep⟩ := Option.ite_none_right_eq_some.mp hstep
    cases hstep
    exact h.moveOn hdestroying (by simp) (by simp [howner, Owner.stage]) (fun _ => hsender)
      (by simp [hexited, RecvThread.over]) (by simp [Owner.stage]) (by simp [Owner.stage])
  | stopRecv =>
    have hsender := hjoined.sender (by rw [howner]; decide)
    have hreceiver := hjoined.receiver (by rw [howner]; decide)
    simp only [ownerStep, howner] at hstep
    split at hstep <;> cases hstep
    · rename_i hnone
      exact h.moveOn hdestroying (by simp) (by simp [howner, Owner.stage]) (fun _ => hsender)
        (fun _ _ => hreceiver) (by simp [hnone, NetworkThread.over]) (fun _ _ => hnone)
    · rename_i hne
      exact ⟨⟨by simp, by simp, fun _ _ => rfl, by simp [Owner.stage]⟩,
        ⟨fun _ => hsender, fun _ => hreceiver, by simp [Owner.stage],
          hjoined.created, by simp, by simp, fun _ => hne⟩,
        fun _ => hsends, by simp [Owner.stage]⟩
  | stop =>
    have hsender := hjoined.sender (by rw [howner]; decide)
    have hreceiver := hjoined.receiver (by rw [howner]; decide)
    have hne := hjoined.joinNetwork (.inl howner)
    have hreceiving := h.asked.receiving (by rw [howner]; decide) hne
    -- nothing takes the request back, and it is heard
    obtain ⟨hstart, hdue⟩ : s.network ≠ .start ∧ (s.protocol = .ws ∨ s.due = []) := by
      simpa [careful, howner] using hok
    simp only [ownerStep, howner, Option.some.injEq] at hstep
    subst hstep
    refine ⟨⟨by simp, by simp, fun _ _ => hreceiving, fun _ _ => ⟨rfl, hstart⟩⟩,
      ⟨fun _ => hsender, fun _ => hreceiver, by simp [Owner.stage],
        hjoined.created, by simp, by simp, fun _ => hne⟩,
      fun _ => hsends, fun _ _ hprotocol => hdue.resolve_left fun hws => ?_⟩
    rw [show s.protocol = .wss from hprotocol] at hws
    cases hws
  | joinNetwork =>
    simp only [ownerStep, howner] at hstep
    obtain ⟨hexited, hstep⟩ := Option.ite_none_right_eq_some.mp hstep
    cases hstep
    exact h.moveOn hdestroying (by simp) (by simp [howner, Owner.stage])
      (by simp [howner, Owner.stage]) (by simp [howner, Owner.stage])
      (by simp [hexited, NetworkThread.over]) (by simp [howner, Owner.stage])
  | close =>
    simp only [ownerStep, howner, Option.some.injEq] at hstep
    subst hstep
    exact h.moveOn hdestroying (by simp) (by simp [howner, Owner.stage])
      (by simp [howner, Owner.stage]) (by simp [howner, Owner.stage])
      (by simp [howner, Owner.stage]) (by simp [howner, Owner.stage])
  | finished => simp [ownerStep, howner] at hstep

/-- A call of the owner is over. If it has connected, the other threads are created. -/
theorem Inv.callStep {s s' : ProxyClientCtx} (h : Inv s) (houtside : ¬ Destroying s)
    (hstep : s.ownerStep = some s') : Inv s' := by
  have hcreated := h.joined.created
  cases howner : s.owner with
  | put b c =>
    simp only [ownerStep, howner, Option.some.injEq] at hstep
    subst hstep
    exact .outside rfl hcreated
  | wait b c =>
    simp only [ownerStep, howner, Option.ite_none_left_eq_some] at hstep
    obtain ⟨-, hstep⟩ := hstep
    split at hstep
    · cases hstep
      exact .outside rfl hcreated
    · split at hstep <;> cases hstep
      · exact .outside rfl (by simp)
      · exact .outside rfl hcreated
  | idle => simp [ownerStep, howner] at hstep
  | _ => simp [Destroying, howner, Owner.stage] at houtside

/-! ## Every step -/

/-- **Every careful step** keeps what holds. -/
theorem Inv.step {s s' : ProxyClientCtx} {e : ThreadEvent} (h : Inv s) (hok : s.careful e = true)
    (hstep : s.step e = some s') : Inv s' := by
  have hcreated := h.joined.created
  cases e with
  | init protocol =>
    simp only [ProxyClientCtx.step, Option.ite_none_right_eq_some, Option.some.injEq] at hstep
    obtain ⟨⟨hidle, -⟩, rfl⟩ := hstep
    exact .outside (by simp [hidle, Owner.stage]) hcreated
  | call connects =>
    simp only [ProxyClientCtx.step, Option.ite_none_right_eq_some] at hstep
    obtain ⟨⟨hidle, -⟩, hstep⟩ := hstep
    split at hstep <;> cases hstep
    · exact .outside (by simp [allocate, hidle, Owner.stage]) hcreated
    · exact .outside rfl hcreated
  | send =>
    simp only [ProxyClientCtx.step, Option.ite_none_right_eq_some] at hstep
    obtain ⟨hidle, hstep⟩ := hstep
    split at hstep <;> cases hstep <;>
      exact .outside (by simp [allocate, hidle, Owner.stage]) hcreated
  | destroy =>
    simp only [ProxyClientCtx.step, Option.ite_none_right_eq_some, Option.some.injEq] at hstep
    obtain ⟨-, rfl⟩ := hstep
    have hsends : s.sendsOutstanding = false := by simpa [careful] using hok
    exact ⟨⟨by simp, by simp, by simp [Owner.stage], by simp [Owner.stage]⟩,
      ⟨by simp [Owner.stage], by simp [Owner.stage], by simp [Owner.stage], hcreated, by simp,
        by simp, by simp⟩,
      fun _ => hsends, by simp [Owner.stage]⟩
  | owner =>
    by_cases hdestroying : Destroying s
    · exact h.destructorStep hdestroying hok hstep
    · exact h.callStep hdestroying hstep
  | network => exact h.networkMove (networkStep_move hstep)
  | sender => exact h.senderStep hstep
  | receiver => exact h.receiverStep hstep
  | message ret errno =>
    simp only [ProxyClientCtx.step] at hstep
    split at hstep <;> cases hstep
    exact h.networkMove (move_of_recv ‹_› (by simp))
  | connectionFails =>
    simp only [ProxyClientCtx.step] at hstep
    split at hstep <;> cases hstep
    exact h.networkMove (move_of_recv ‹_› (by simp))
  | recvTimeout =>
    simp only [ProxyClientCtx.step] at hstep
    split at hstep
    · obtain ⟨-, hstep⟩ := Option.ite_none_left_eq_some.mp hstep
      cases hstep
      exact h.networkMove (move_of_recv ‹_› (by simp))
    · cases hstep
  | answerLost =>
    simp only [ProxyClientCtx.step] at hstep
    split at hstep <;> cases hstep
    rename_i hnet
    exact h.networkMove ⟨rfl, by rw [hnet]; rfl, by simp, .inl rfl, fun _ hd => hd,
      fun hdue => by simpa [due, hnet] using hdue⟩

end ProxyClientCtx

end ZktlsNet
