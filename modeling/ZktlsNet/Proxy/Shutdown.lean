import ZktlsNet.Proxy.ThreadInvariant

/-!
# When the destructor gets through (`proxy_client.cpp:788-815`)

The destructor stops the threads one after the other: it joins the send thread,
then cancels the waits and joins the receive thread, then stops the network thread.
The proxy need not answer, so only what the threads and the destructor do by themselves
counts as a step here.

- `NeverStuck`: what a state from which the destructor gets on is like.
- `Inv.progress`: a thread, or the destructor, has a step.
- `Inv.released`: a wait for a network thread that has left comes to its end.
- `shutdown_neverStuck`: every run of careful steps; `shutdown_stuck`: runs that are
  not.
-/

namespace ZktlsNet

open NetLib

namespace ProxyClientCtx

/-! ## What is to be shown -/

/-- The destructor has asked the network thread to stop. -/
def StopRequested (s : ProxyClientCtx) : Prop := 7 ≤ s.owner.stage ∧ s.network ≠ .none

/-- Unless all is over a thread, or the destructor, has a step of its own. A stop request
stands. And a thread that is in `wait_for_call_result` when the network thread has left
comes out by such steps. -/
structure NeverStuck (s : ProxyClientCtx) : Prop where
  step : ¬ s.Finished → ∃ e s', e.ofThread = true ∧ s.step e = some s'
  stop : s.StopRequested → s.waitNextCallId = false
  sender : s.network = .exited → ∀ b, s.sender = .wait b →
    ∃ es s', (∀ e ∈ es, e.ofThread = true) ∧ machine.runFrom s es = some s' ∧ s'.sender ≠ .wait b
  receiver : s.network = .exited → ∀ b, s.receiver = .wait b →
    ∃ es s', (∀ e ∈ es, e.ofThread = true) ∧ machine.runFrom s es = some s' ∧
      s'.receiver ≠ .wait b

/-! ## Somebody has a step -/

/-- With no send outstanding the send thread does not wait for an answer. -/
theorem not_blocked_of_sends {s : ProxyClientCtx} (hsends : s.sendsOutstanding = false) {b : Nat}
    (hsender : s.sender = .wait b) : s.blocked b = false := by
  simp only [sendsOutstanding, hsender, Bool.or_eq_false_iff, decide_eq_false_iff_not] at hsends
  simp [blocked, hsends.1]

/-- A send thread that is told to end, with no send outstanding. -/
theorem senderReady {s : ProxyClientCtx} (hover : s.sender.over = false)
    (hvalid : s.sendCtx.valid = false) (hsends : s.sendsOutstanding = false) :
    ∃ s', s.senderStep = some s' := by
  unfold senderStep
  cases hsender : s.sender with
  | get =>
    cases hlist : s.sendCtx.list with
    | nil => exact ⟨{ s with sender := .exited }, by simp [hvalid]⟩
    | cons b bs => exact ⟨_, rfl⟩
  | put b => exact ⟨_, rfl⟩
  | wait b =>
    simp only [not_blocked_of_sends hsends hsender, Bool.false_eq_true, if_false]
    split <;> exact ⟨_, rfl⟩
  | none | exited =>
    rw [hsender] at hover
    cases hover

/-- A receive thread whose waits are cancelled. -/
theorem receiverReady {s : ProxyClientCtx} (hover : s.receiver.over = false)
    (hwaiting : s.waitOperationCompleted = false) : ∃ s', s.receiverStep = some s' := by
  unfold receiverStep
  cases hreceiver : s.receiver with
  | loop => dsimp only; split <;> exact ⟨_, rfl⟩
  | put b => exact ⟨_, rfl⟩
  | wait b =>
    have hblocked : s.blocked b = false := by rw [blocked, hwaiting]; rfl
    simp only [hblocked, Bool.false_eq_true, if_false]
    split <;> exact ⟨_, rfl⟩
  | none | exited =>
    rw [hreceiver] at hover
    cases hover

/-- A network thread that is told to stop. What it has to receive does not hold it up: its
stream is told to stop, or there is nothing. -/
theorem networkReady {s : ProxyClientCtx} (hover : s.network.over = false)
    (hgoing : s.waitNextCallId = false) (hreceiving : s.recvAgain = false)
    (hdue : s.protocol = .wss → s.due = []) :
    ∃ e s', e.ofThread = true ∧ s.step e = some s' := by
  cases hnet : s.network with
  | start => exact ⟨.network, _, rfl, by simp only [ProxyClientCtx.step, networkStep, hnet]; rfl⟩
  | take =>
    cases hids : s.callIdHeader with
    | nil =>
      exact ⟨.network, { s with network := .exited }, rfl,
        by simp [ProxyClientCtx.step, networkStep, hnet, hids, hgoing]⟩
    | cons b bs =>
      exact ⟨.network, { s with callIdHeader := bs, network := .recv b }, rfl,
        by simp [ProxyClientCtx.step, networkStep, hnet, hids]⟩
  | recv b =>
    have hws : s.protocol ≠ .wss := fun hwss => by
      have := hdue hwss
      simp [due, hnet] at this
    exact ⟨.recvTimeout, { s with network := .exited }, rfl,
      by simp [ProxyClientCtx.step, hnet, hreceiving, hws]⟩
  | bridge b ret errno =>
    exact ⟨.network, _, rfl, by simp only [ProxyClientCtx.step, networkStep, hnet]; rfl⟩
  | none | exited =>
    rw [hnet] at hover
    cases hover

/-- **Progress.** While the destructor is not through, a thread can go on, or the
destructor itself, whatever the proxy does. -/
theorem Inv.progress {s : ProxyClientCtx} (h : Inv s) (hdestroying : Destroying s)
    (hnot : ¬ s.Finished) : ∃ e s', e.ofThread = true ∧ s.step e = some s' := by
  have hasked := h.asked
  have hjoined := h.joined
  have hown : (∃ s', s.ownerStep = some s') → ∃ e s', e.ofThread = true ∧ s.step e = some s' :=
    fun ⟨s', hstep⟩ => ⟨.owner, s', rfl, hstep⟩
  cases howner : s.owner with
  | idle | put | wait =>
    rw [Destroying, howner] at hdestroying
    cases hdestroying
  | setSend =>
    refine hown ?_
    simp only [ownerStep, howner]
    split <;> exact ⟨_, rfl⟩
  | joinSender =>
    by_cases hexited : s.sender = .exited
    · exact hown ⟨_, by simp only [ownerStep, howner, hexited]; rfl⟩
    obtain ⟨s', hstep⟩ := senderReady
      (by simp [SendThread.over, hexited, hjoined.joinSender howner]) (hasked.valid howner)
      (h.answered.sends hdestroying)
    exact ⟨.sender, s', rfl, hstep⟩
  | cancel =>
    refine hown ?_
    simp only [ownerStep, howner]
    split <;> exact ⟨_, rfl⟩
  | joinReceiver =>
    by_cases hexited : s.receiver = .exited
    · exact hown ⟨_, by simp only [ownerStep, howner, hexited]; rfl⟩
    obtain ⟨s', hstep⟩ := receiverReady
      (by simp [RecvThread.over, hexited, hjoined.joinReceiver howner]) (hasked.cancelled howner)
    exact ⟨.receiver, s', rfl, hstep⟩
  | stopRecv =>
    refine hown ?_
    simp only [ownerStep, howner]
    split <;> exact ⟨_, rfl⟩
  | stop | close => exact hown ⟨_, by simp only [ownerStep, howner]; rfl⟩
  | joinNetwork =>
    by_cases hexited : s.network = .exited
    · exact hown ⟨_, by simp only [ownerStep, howner, hexited]; rfl⟩
    have hne := hjoined.joinNetwork (.inr howner)
    have hseven : 7 ≤ s.owner.stage := by rw [howner]; decide
    exact networkReady (by simp [NetworkThread.over, hexited, hne]) (hasked.stopped hseven hne).1
      (hasked.receiving (Nat.le_of_succ_le hseven) hne) (h.answered.due hseven hne)
  | finished =>
    exact absurd ⟨howner, hjoined.network (by rw [howner]; decide),
      hjoined.sender (by rw [howner]; decide), hjoined.receiver (by rw [howner]; decide)⟩ hnot

/-! ## Nobody is left waiting -/

/-- How many steps a send thread has left that finds no more to send. -/
def stepsLeft : SendThread → Nat
  | .wait _ => 2
  | .get => 1
  | _ => 0

/-- How far the destructor is from cancelling the waits. -/
def untilCancelled (s : ProxyClientCtx) : Nat := 3 * (4 - s.owner.stage) + stepsLeft s.sender

/-- With no send outstanding the send thread comes to its end. -/
theorem senderStep_ends {s s' : ProxyClientCtx} (hout : s.sendsOutstanding = false)
    (hstep : s.senderStep = some s') :
    s'.owner = s.owner ∧ s'.network = s.network ∧ s'.receiver = s.receiver ∧
      stepsLeft s'.sender < stepsLeft s.sender := by
  cases hsender : s.sender with
  | get =>
    have hlist : s.sendCtx.list = [] := by simpa [sendsOutstanding, hsender] using hout
    simp only [senderStep, hsender, hlist, Option.ite_none_left_eq_some] at hstep
    obtain ⟨-, hstep⟩ := hstep
    cases hstep
    exact ⟨rfl, rfl, rfl, Nat.zero_lt_one⟩
  | put b => simp [sendsOutstanding, hsender] at hout
  | wait b =>
    simp only [senderStep, hsender, Option.ite_none_left_eq_some] at hstep
    obtain ⟨-, hstep⟩ := hstep
    split at hstep <;> cases hstep
    · exact ⟨rfl, rfl, rfl, Nat.zero_lt_two⟩
    · exact ⟨rfl, rfl, rfl, Nat.one_lt_two⟩
  | none | exited => simp [senderStep, hsender] at hstep

/-- Until the waits are cancelled, the destructor and the send thread go on without
the network thread. -/
theorem Inv.towardsCancel {s : ProxyClientCtx} (h : Inv s) (hdestroying : Destroying s)
    (hexited : s.network = .exited) {b : Nat} (hreceiver : s.receiver = .wait b)
    (hblocked : s.blocked b = true) :
    ∃ e s', e.ofThread = true ∧ s.careful e = true ∧ s.step e = some s' ∧ Destroying s' ∧
      s'.network = .exited ∧ s'.receiver = .wait b ∧ s'.untilCancelled < s.untilCancelled := by
  have hjoined := h.joined
  have hnone : s.receiver ≠ .none := by rw [hreceiver]; simp
  have hsender : s.sender ≠ .none := fun hh => hnone (hjoined.created hh)
  have hwaiting : s.waitOperationCompleted = true := by
    simp only [blocked, Bool.and_eq_true] at hblocked
    exact hblocked.1
  cases howner : s.owner with
  | idle | put | wait =>
    rw [Destroying, howner] at hdestroying
    cases hdestroying
  | setSend =>
    refine ⟨.owner, { s with sendCtx := { s.sendCtx with valid := false }, owner := .joinSender },
      rfl, by simp [careful, howner],
      by simp only [ProxyClientCtx.step, ownerStep, howner, hsender, if_false],
      by simp [Destroying, Owner.stage], hexited, hreceiver, ?_⟩
    simp [untilCancelled, howner, Owner.stage]
  | joinSender =>
    by_cases hover : s.sender = .exited
    · refine ⟨.owner, { s with owner := .cancel }, rfl, by simp [careful, howner],
        by simp only [ProxyClientCtx.step, ownerStep, howner, hover, if_true],
        by simp [Destroying, Owner.stage], hexited, hreceiver, ?_⟩
      simp [untilCancelled, howner, Owner.stage]
    · obtain ⟨s', hstep⟩ := senderReady (by simp [SendThread.over, hover, hsender])
        (h.asked.valid howner) (h.answered.sends hdestroying)
      obtain ⟨ho, hn, hr, hlt⟩ := senderStep_ends (h.answered.sends hdestroying) hstep
      refine ⟨.sender, s', rfl, rfl, hstep, by rwa [Destroying, ho], by rw [hn, hexited],
        by rw [hr, hreceiver], ?_⟩
      rw [untilCancelled, untilCancelled, ho]
      omega
  | cancel =>
    refine ⟨.owner, { s with waitOperationCompleted := false, owner := .joinReceiver },
      rfl, by simp [careful, howner],
      by simp only [ProxyClientCtx.step, ownerStep, howner, hnone, if_false],
      by simp [Destroying, Owner.stage], hexited, hreceiver, ?_⟩
    simp [untilCancelled, howner, Owner.stage]
  | joinReceiver =>
    rw [h.asked.cancelled howner] at hwaiting
    cases hwaiting
  | _ =>
    have hover := hjoined.receiver (by rw [howner]; decide)
    rw [hreceiver] at hover
    cases hover

theorem received_receiver (s : ProxyClientCtx) (ret : Int) (b : Nat) :
    (s.received ret).receiver ≠ .wait b := by
  unfold received
  split
  · split <;> simp
  · simp

/-- **Nobody is left waiting**: a receive thread that waits when the network thread has
left comes out once its wait is cancelled. -/
theorem Inv.released {s : ProxyClientCtx} (h : Inv s) (hdestroying : Destroying s)
    (hexited : s.network = .exited) {b : Nat} (hreceiver : s.receiver = .wait b) :
    ∃ es s', (∀ e ∈ es, e.ofThread = true) ∧ machine.runFrom s es = some s' ∧
      s'.receiver ≠ .wait b := by
  -- the distance to `cancel_wait_for_call_result` goes down with every step
  generalize hn : s.untilCancelled = n
  induction n using Nat.strongRecOn generalizing s with
  | ind n ih =>
    cases hblocked : s.blocked b with
    | false =>
      have hstep : ∃ s', s.receiverStep = some s' ∧ s'.receiver ≠ .wait b := by
        simp only [ProxyClientCtx.receiverStep, hreceiver, hblocked, Bool.false_eq_true, if_false]
        split <;> exact ⟨_, rfl, received_receiver _ _ b⟩
      obtain ⟨s', hstep, hout⟩ := hstep
      exact ⟨[.receiver], s', by simp [ThreadEvent.ofThread],
        Machine.runFrom_cons.mpr ⟨s', hstep, rfl⟩, hout⟩
    | true =>
      obtain ⟨e, s₁, he, hok, hstep, hd₁, hx₁, hr₁, hlt⟩ :=
        h.towardsCancel hdestroying hexited hreceiver hblocked
      obtain ⟨es, s', hes, hrun, hout⟩ := ih _ (hn ▸ hlt) (h.step hok hstep) hd₁ hx₁ hr₁ rfl
      exact ⟨e :: es, s', List.forall_mem_cons.mpr ⟨he, hes⟩,
        Machine.runFrom_cons.mpr ⟨s₁, hstep, hrun⟩, hout⟩

/-! ## Every careful run -/

/-- **Shutdown gets through.** In every run of careful steps, once the destructor has
begun nothing is stuck, even if the proxy is silent from then on. -/
theorem shutdown_neverStuck {es : List ThreadEvent} {s : ProxyClientCtx}
    (hrun : (machine.restrict careful).run es = some s) (hdestroying : Destroying s) :
    NeverStuck s := by
  have h : Inv s := Machine.invariant Inv inv_new (fun s e s' hs hstep => by
    obtain ⟨hok, hstep⟩ := Machine.restrict_step.mp hstep
    exact hs.step hok hstep) hrun
  refine ⟨h.progress hdestroying, ?_, ?_, fun hexited b hb => h.released hdestroying hexited hb⟩
  · intro ⟨hstage, hne⟩
    exact (h.asked.stopped hstage hne).1
  · intro _ b hsender
    have hblocked := not_blocked_of_sends (h.answered.sends hdestroying) hsender
    have hstep : ∃ s', s.senderStep = some s' ∧ s'.sender ≠ .wait b := by
      unfold senderStep
      simp only [hsender, hblocked, Bool.false_eq_true, if_false]
      split <;> exact ⟨_, rfl, by simp⟩
    obtain ⟨s', hstep, hout⟩ := hstep
    exact ⟨[.sender], s', by simp [ThreadEvent.ofThread],
      Machine.runFrom_cons.mpr ⟨s', hstep, rfl⟩, hout⟩

/-- The connection fails while the receive thread waits, after a send was answered. -/
theorem shutdown_neverStuck_receiving :
    let es : List ThreadEvent := [.init .ws, .network, .call true, .owner, .network, .message 0 0,
      .network, .owner, .send, .sender, .sender, .network, .message 4 0, .network, .sender,
      .receiver, .receiver, .network, .connectionFails, .destroy]
    ∃ s, (machine.restrict careful).run es = some s ∧ s.network = .exited ∧ s.receiver = .wait 2 ∧
      NeverStuck s := by
  intro es
  have hrun : ((machine.restrict careful).run es).map
      (fun s => (s.network, s.receiver, s.owner)) = some (.exited, .wait 2, .setSend) := by
    decide +kernel
  obtain ⟨s, hrun, hs⟩ := Option.map_eq_some_iff.mp hrun
  obtain ⟨hnetwork, hreceiver, howner⟩ : s.network = .exited ∧ s.receiver = .wait 2 ∧
      s.owner = .setSend := by simpa only [Prod.mk.injEq] using hs
  exact ⟨s, hrun, hnetwork, hreceiver,
    shutdown_neverStuck hrun (by rw [Destroying, howner]; decide)⟩

/-- **Four runs that get stuck.** The destructor comes before the first statement of the
network thread, which then waits for ids that nobody puts. The connection fails while a
send is outstanding; or it stands, and the proxy does not answer the send: the send
thread, which the destructor waits for, waits for ever. And the network thread reads the
answer of the receive thread from an `SSLStream`, which cannot be told to stop. -/
theorem shutdown_stuck :
    let connected (protocol : ProtocolType) : List ThreadEvent :=
      [.init protocol, .network, .call true, .owner, .network, .message 0 0, .network, .owner]
    let early : List ThreadEvent :=
      [.init .ws, .destroy, .owner, .owner, .owner, .owner, .network]
    let failed : List ThreadEvent := connected .ws ++ [.send, .sender, .sender, .network,
      .connectionFails, .receiver, .receiver, .destroy, .owner]
    let silent : List ThreadEvent := connected .ws ++ [.send, .sender, .sender, .network,
      .receiver, .receiver, .destroy, .owner]
    let secure : List ThreadEvent := connected .wss ++ [.receiver, .receiver, .network, .destroy,
      .owner, .sender, .owner, .owner, .receiver, .owner, .owner, .owner]
    (∃ s, machine.run early = some s ∧ Destroying s ∧ ¬ NeverStuck s ∧
      s.StopRequested ∧ s.waitNextCallId = true) ∧
    (∃ s, machine.run failed = some s ∧ Destroying s ∧ ¬ NeverStuck s ∧
      s.network = .exited ∧ s.sender = .wait 1 ∧ s.blocked 1 = true) ∧
    (∃ s, machine.run silent = some s ∧ Destroying s ∧ ¬ NeverStuck s ∧ s.network = .recv 1) ∧
    ∃ s, machine.run secure = some s ∧ Destroying s ∧ ¬ NeverStuck s ∧ s.network = .recv 1 ∧
      s.StopRequested := by
  intro connected early failed silent secure
  have hstuck {s : ProxyClientCtx} (hnot : s.owner ≠ .finished)
      (h : ∀ e, e.ofThread = true → s.step e = none) : ¬ NeverStuck s := by
    intro hns
    obtain ⟨e, s', he, hstep⟩ := hns.step fun hf => hnot hf.1
    rw [h e he] at hstep
    cases hstep
  refine ⟨?_, ?_, ?_, ?_⟩
  · refine ⟨{ new with recvAgain := false, network := .take, owner := .joinNetwork }, rfl,
      Nat.le_add_left 1 6, hstuck (by simp) ?_, ⟨Nat.le_refl 7, by simp⟩, rfl⟩
    intro e _
    cases e <;> rfl
  · refine ⟨{ new with
        records := [⟨1, 0, 0⟩, ⟨0, 0, 0⟩, ⟨0, 0, 0⟩]
        callIdHeader := [2]
        sendCtx := ⟨[], false⟩
        network := .exited
        sender := .wait 1
        receiver := .wait 2
        owner := .joinSender }, rfl, Nat.le_add_left 1 1, hstuck (by simp) ?_, rfl, rfl, rfl⟩
    intro e _
    cases e <;> rfl
  · refine ⟨{ new with
        records := [⟨1, 0, 0⟩, ⟨0, 0, 0⟩, ⟨0, 0, 0⟩]
        callIdHeader := [2]
        sendCtx := ⟨[], false⟩
        network := .recv 1
        sender := .wait 1
        receiver := .wait 2
        owner := .joinSender }, rfl, Nat.le_add_left 1 1, hstuck (by simp) ?_, rfl⟩
    intro e he
    cases e <;> first | rfl | cases he
  · refine ⟨{ new with
        records := [⟨1, 0, 0⟩, ⟨2, 0, 0⟩]
        waitNextCallId := false
        waitOperationCompleted := false
        sendCtx := ⟨[], false⟩
        protocol := .wss
        recvAgain := false
        recvZero := true
        network := .recv 1
        sender := .exited
        receiver := .exited
        owner := .joinNetwork }, rfl, Nat.le_add_left 1 6, hstuck (by simp) ?_, rfl,
      ⟨Nat.le_refl 7, by simp⟩⟩
    intro e he
    cases e <;> first | rfl | cases he

end ProxyClientCtx

end ZktlsNet
