import ZktlsNet.Io.Session
import ZktlsNet.Lib.Progress

/-!
# No call waits for ever

A call can wait for the lock of the flush queue, for the flush thread to end, and for
the bytes of a receive. Only the last depends on the other party. The flush thread waits
for a frame, and nothing here relies on its waking up without a notification.

- `WebSocketIo.work`: what the two threads of an object have left to do without the
  other party; `WebSocketIo.works`: one of them can go on until it is done.
- `flush_thread_alert`: no wakeup of the flush thread is lost.
- `Peer.Waits`: the bytes of a receive have not been handed over.
- `session_progresses`: from every state of a session the threads and the connection can
  go on, without a new call, until each call has returned or waits so.
-/

namespace ZktlsNet

open NetLib

/-! ## The work of one object -/

/-- How many pieces an operation may turn into. -/
def Op.weight : Op → Nat
  | .recvDataInternal _ => 4
  | .stopAsyncFlush => 2
  | .sendDataInternal _ | .sendTmp | .clearHasSent | .recvMessage _ | .startAsyncFlush | .join => 1

/-- The steps the flush thread has to make before it takes a frame, waits or ends. -/
def Flusher.rank (async empty : Bool) : Flusher → Nat
  | .none | .done | .sending _ => 0
  | .test => if !empty then 4 else if async then 0 else 2
  | .testQueue => if !empty then 3 else 1
  | .waiting => if !empty then 3 else if async then 0 else 5
  | .lock => if !empty then 2 else if async then 0 else 4
  | .locked => if !empty then 1 else if async then 1 else 3

theorem Flusher.rank_le (async empty : Bool) (fl : Flusher) : fl.rank async empty ≤ 5 := by
  cases fl <;> cases async <;> cases empty <;> simp [rank]

theorem Flusher.rank_test_le (async empty : Bool) : Flusher.test.rank async empty ≤ 4 := by
  cases async <;> cases empty <;> decide

namespace WebSocketIo

section

variable {σ : Type}

/-- What the caller and the flush thread have left to do. -/
def work (io : WebSocketIo σ) : Nat :=
  30 * (io.todo.map Op.weight).sum + 11 * io.puts.length +
    5 * io.sendCtx.flushCtx.list.length + 5 * io.flushThread.inFlight.length +
    io.flushThread.rank io.sendCtx.async (emptyFlushCtx io.sendCtx.flushCtx)

/-- All is written, and no call is running but one that receives. -/
structure Rested (io : WebSocketIo σ) : Prop where
  outbound : io.outbound = []
  todo : io.todo = [] ∨ ∃ len todo, io.todo = .recvMessage len :: todo

/-- The steps of the object that need nothing from outside. -/
def own : Event → Prop
  | .caller | .flusher => True
  | _ => False

variable [ChannelStream σ]

/-- The flush thread goes on as long as it has a frame or steps to make. -/
theorem flusher_works {io : WebSocketIo σ}
    (h : io.flushThread.inFlight ≠ [] ∨
      0 < io.flushThread.rank io.sendCtx.async (emptyFlushCtx io.sendCtx.flushCtx)) :
    ∃ io', io.step .flusher = some io' ∧ io'.work < io.work := by
  cases hfl : io.flushThread with
  | none => simp [hfl, Flusher.inFlight, Flusher.rank] at h
  | done => simp [hfl, Flusher.inFlight, Flusher.rank] at h
  | sending frame =>
    refine ⟨_, by simp only [step, flusherStep, hfl]; rfl, ?_⟩
    have hrank := Flusher.rank_test_le io.sendCtx.async (emptyFlushCtx io.sendCtx.flushCtx)
    simp only [work, hfl, Flusher.inFlight, List.length_singleton, List.length_nil]
    omega
  | locked =>
    by_cases hempty : emptyFlushCtx io.sendCtx.flushCtx = true
    · have hlist : io.sendCtx.flushCtx.list = [] := by simpa [emptyFlushCtx] using hempty
      cases hasync : io.sendCtx.async with
      | true =>
        refine ⟨{ io with flushThread := .waiting }, ?_, ?_⟩
        · simp only [step, flusherStep, hfl, hasync, hempty, Bool.and_self, if_true]
        · simp [work, hfl, hasync, hempty, Flusher.inFlight, Flusher.rank]
      | false =>
        refine ⟨{ io with flushThread := .test }, ?_, ?_⟩
        · simp [step, flusherStep, hfl, hasync, getFromFlushCtx, hlist]
        · simp [work, hfl, hasync, hempty, Flusher.inFlight, Flusher.rank]
    · obtain ⟨frame, rest, hlist⟩ : ∃ frame rest, io.sendCtx.flushCtx.list = frame :: rest := by
        cases hlist : io.sendCtx.flushCtx.list with
        | nil => simp [emptyFlushCtx, hlist] at hempty
        | cons frame rest => exact ⟨frame, rest, rfl⟩
      rw [Bool.not_eq_true] at hempty
      refine ⟨{ io with
        sendCtx := { io.sendCtx with flushCtx := ⟨rest⟩ }, flushThread := .sending frame }, ?_, ?_⟩
      · simp [step, flusherStep, hfl, hempty, getFromFlushCtx, hlist]
      · simp only [work, hfl, hempty, hlist, Flusher.inFlight, Flusher.rank, List.length_cons,
          List.length_nil]
        simp
        omega
  | test =>
    cases hasync : io.sendCtx.async <;> cases hempty : emptyFlushCtx io.sendCtx.flushCtx <;>
      simp_all [step, flusherStep, work, Flusher.inFlight, Flusher.rank]
  | testQueue =>
    cases hasync : io.sendCtx.async <;> cases hempty : emptyFlushCtx io.sendCtx.flushCtx <;>
      simp_all [step, flusherStep, work, Flusher.inFlight, Flusher.rank]
  | waiting =>
    cases hasync : io.sendCtx.async <;> cases hempty : emptyFlushCtx io.sendCtx.flushCtx <;>
      simp_all [step, flusherStep, work, Flusher.inFlight, Flusher.rank]
  | lock =>
    cases hasync : io.sendCtx.async <;> cases hempty : emptyFlushCtx io.sendCtx.flushCtx <;>
      simp_all [step, flusherStep, work, Flusher.inFlight, Flusher.rank]

/-- A call of `send_data_internal` packs at most two frames. -/
theorem work_sendDataInternal (io : WebSocketIo σ) (hputs : io.puts = []) (data : Bytes) :
    (io.sendDataInternal data).work ≤ io.work + 22 := by
  have hpacked : (io.sendDataInternal data).puts.length ≤ 2 := by
    cases hasync : io.sendCtx.async with
    | false =>
      rw [puts_sendDataInternal hasync, hputs]
      exact Nat.zero_le _
    | true =>
      have hle := asyncSendMessage_length_le io.sendCtx.buffer data
      unfold sendDataInternal
      simp only [hasync, if_true]
      exact hle
  rw [work, work, todo_sendDataInternal, flushCtx_sendDataInternal, flushThread_sendDataInternal,
    async_sendDataInternal]
  omega

omit [ChannelStream σ] in
/-- A flush thread that has nothing to do holds no lock; told to stop it has ended. -/
theorem Threads.idle {io : WebSocketIo σ} (h : Threads io)
    (hflight : io.flushThread.inFlight = [])
    (hrank : io.flushThread.rank io.sendCtx.async (emptyFlushCtx io.sendCtx.flushCtx) = 0) :
    io.sendCtx.flushCtx.list = [] ∧ io.flushThread.holdsLock = false ∧
      (io.sendCtx.async = false → io.flushThread = .none ∨ io.flushThread = .done) := by
  have hempty : io.sendCtx.flushCtx.list = [] ↔ emptyFlushCtx io.sendCtx.flushCtx = true := by
    simp [emptyFlushCtx]
  rw [hempty]
  cases hfl : io.flushThread with
  | none => exact ⟨hempty.mp (h.gone (.inl hfl)), rfl, fun _ => .inl rfl⟩
  | done => exact ⟨hempty.mp (h.gone (.inr hfl)), rfl, fun _ => .inr rfl⟩
  | sending frame => simp [hfl, Flusher.inFlight] at hflight
  | test | waiting | lock =>
    rw [hfl] at hrank
    cases hasync : io.sendCtx.async <;> cases he : emptyFlushCtx io.sendCtx.flushCtx <;>
      simp_all [Flusher.rank, Flusher.holdsLock]
  | testQueue | locked =>
    rw [hfl] at hrank
    cases hasync : io.sendCtx.async <;> cases he : emptyFlushCtx io.sendCtx.flushCtx <;>
      simp_all [Flusher.rank]

/-- The caller goes on with a piece of its call where the flush thread has nothing to do. -/
theorem op_works {io : WebSocketIo σ} (h : Threads io) (hputs : io.puts = [])
    (hflight : io.flushThread.inFlight = [])
    (hrank : io.flushThread.rank io.sendCtx.async (emptyFlushCtx io.sendCtx.flushCtx) = 0)
    {op : Op} {todo : List Op} (htodo : io.todo = op :: todo)
    (hop : ∀ len, op ≠ .recvMessage len) :
    ∃ io', io.step .caller = some io' ∧ io'.work < io.work := by
  obtain ⟨hlist, hlock, hoff⟩ := h.idle hflight hrank
  have hstep : io.step .caller = io.opStep := by simp only [step, callerStep, hputs]
  have hwork : io.work = 30 * (op.weight + (todo.map Op.weight).sum) := by
    simp [work, htodo, hputs, hlist, hflight, hrank]
  rw [hstep, hwork]
  -- the work of the pieces that are left
  have hrest : ({ io with todo := todo } : WebSocketIo σ).work =
      30 * (todo.map Op.weight).sum := by
    simp [work, hputs, hlist, hflight, hrank]
  unfold opStep
  rw [htodo]
  cases op with
  | sendDataInternal data =>
    refine ⟨_, rfl, ?_⟩
    have hsend := work_sendDataInternal { io with todo := todo } hputs data
    rw [Op.weight]
    omega
  | sendTmp =>
    refine ⟨_, rfl, ?_⟩
    have hsend := work_sendDataInternal { io with todo := todo } hputs [io.tmp]
    rw [Op.weight]
    omega
  | recvDataInternal len =>
    simp only
    split
    · refine ⟨_, rfl, ?_⟩
      have hsum : ({ io with todo := .sendDataInternal [] :: .clearHasSent :: .recvMessage len ::
          todo } : WebSocketIo σ).work = 30 * (3 + (todo.map Op.weight).sum) := by
        simp [work, hputs, hlist, hflight, hrank, Op.weight]
        omega
      rw [hsum, Op.weight]
      omega
    · refine ⟨_, rfl, ?_⟩
      have hsum : ({ io with todo := .recvMessage len :: todo } : WebSocketIo σ).work =
          30 * (1 + (todo.map Op.weight).sum) := by
        simp [work, hputs, hlist, hflight, hrank, Op.weight]
      rw [hsum, Op.weight]
      omega
  | clearHasSent =>
    refine ⟨_, rfl, ?_⟩
    show ({ io with todo := todo } : WebSocketIo σ).work < _
    rw [hrest, Op.weight]
    omega
  | recvMessage len => exact absurd rfl (hop len)
  | startAsyncFlush =>
    simp only
    split
    · refine ⟨_, rfl, ?_⟩
      rw [hrest, Op.weight]
      omega
    · rename_i hasync
      rw [Bool.not_eq_true] at hasync
      refine ⟨_, rfl, ?_⟩
      have hoff : ({ io with todo := todo } : WebSocketIo σ).sendCtx.async = false := hasync
      have hfirst : (({ io with todo := todo } : WebSocketIo σ).sendDataInternal []).puts = [] :=
        (puts_sendDataInternal hoff []).trans hputs
      simp only [work, todo_sendDataInternal, hfirst, flushCtx_sendDataInternal, hlist, Op.weight]
      have hrank' := Flusher.rank_le true (emptyFlushCtx io.sendCtx.flushCtx) .test
      simp only [Flusher.inFlight, List.length_nil]
      omega
  | stopAsyncFlush =>
    simp only [hlock]
    split
    · refine ⟨_, rfl, ?_⟩
      have hrank' := Flusher.rank_le false (emptyFlushCtx io.sendCtx.flushCtx) io.flushThread
      simp only [work, hputs, hlist, hflight, Op.weight, List.map_cons, List.sum_cons,
        List.length_nil]
      omega
    · refine ⟨_, rfl, ?_⟩
      rw [hrest, Op.weight]
      omega
  | join =>
    have hjoin := h.join_iff.mp (by rw [htodo]; rfl)
    have hdone : io.flushThread = .done := (hoff hjoin.1).resolve_left hjoin.2
    simp only [hdone, if_true]
    refine ⟨_, rfl, ?_⟩
    have hsend := work_sendDataInternal { io with todo := todo, flushThread := .none } hputs []
    have hnone : ({ io with todo := todo, flushThread := .none } : WebSocketIo σ).work =
        30 * (todo.map Op.weight).sum := by
      simp [work, hputs, hlist, Flusher.inFlight, Flusher.rank]
    rw [Op.weight]
    omega

/-- **An object that is not at rest goes on by itself**: a step of its caller or of its
flush thread leaves less to do, and the flush thread has a reason to go on. -/
theorem works {io : WebSocketIo σ} (h : Threads io) (hrested : ¬ Rested io) :
    ∃ e io', own e ∧ io.step e = some io' ∧ io'.work < io.work ∧
      (e = .flusher → io.flushThread.inFlight ≠ [] ∨
        0 < io.flushThread.rank io.sendCtx.async (emptyFlushCtx io.sendCtx.flushCtx)) := by
  by_cases hfl : io.flushThread.inFlight ≠ [] ∨
      0 < io.flushThread.rank io.sendCtx.async (emptyFlushCtx io.sendCtx.flushCtx)
  · obtain ⟨io', hstep, hlt⟩ := flusher_works hfl
    exact ⟨.flusher, io', trivial, hstep, hlt, fun _ => hfl⟩
  · obtain ⟨hflight, hrank⟩ := not_or.mp hfl
    rw [not_not] at hflight
    have hrank := Nat.eq_zero_of_not_pos hrank
    obtain ⟨hlist, hlock, -⟩ := h.idle hflight hrank
    cases hputs : io.puts with
    | cons buf puts =>
      refine ⟨.caller, { io with
        sendCtx := { io.sendCtx with flushCtx := putToFlushCtx io.sendCtx.flushCtx buf }
        puts := puts }, trivial, ?_, ?_, by simp⟩
      · simp only [step, callerStep, hputs, hlock, Bool.false_eq_true, if_false]
      · have hrank' := Flusher.rank_le io.sendCtx.async
          (emptyFlushCtx (putToFlushCtx io.sendCtx.flushCtx buf)) io.flushThread
        simp only [work, hputs, hflight, hlist, putToFlushCtx, List.length_cons, List.length_nil,
          List.length_append] at hrank' ⊢
        omega
    | nil =>
      have hout : io.outbound = [] := by rw [outbound, hflight, hlist, hputs]; rfl
      cases htodo : io.todo with
      | nil => exact absurd ⟨hout, .inl htodo⟩ hrested
      | cons op todo =>
        have hop : ∀ len, op ≠ .recvMessage len := by
          rintro len rfl
          exact hrested ⟨hout, .inr ⟨len, todo, htodo⟩⟩
        obtain ⟨io', hstep, hlt⟩ := op_works h hputs hflight hrank htodo hop
        exact ⟨.caller, io', trivial, hstep, hlt, by simp⟩

/-- The flush thread begins to wait where there is no frame and it has not been told to
stop. -/
theorem step_sleeps {io io' : WebSocketIo σ} {e : Event} (hstep : io.step e = some io')
    (hbefore : io.flushThread ≠ .waiting) (hafter : io'.flushThread = .waiting) :
    io'.sendCtx.flushCtx.list = [] ∧ io'.sendCtx.async = true := by
  cases e with
  | call c =>
    simp only [step] at hstep
    split at hstep
    · cases hstep
      exact absurd hafter hbefore
    · cases hstep
  | recvReturn fuel =>
    obtain ⟨_, _, _, _, _, -, -, -, -, rfl⟩ := recvReturn_cases hstep
    exact absurd hafter hbefore
  | flusher =>
    simp only [step, flusherStep] at hstep
    split at hstep
    · cases hstep
    · cases hstep
    · cases hstep
      simp only at hafter
      split at hafter <;> cases hafter
    · cases hstep
      simp only at hafter
      split at hafter <;> cases hafter
    · cases hstep
      cases hafter
    · split at hstep
      · rename_i hboth
        rw [Bool.and_eq_true] at hboth
        cases hstep
        exact ⟨by simpa [emptyFlushCtx] using hboth.2, hboth.1⟩
      · split at hstep <;> cases hstep <;> cases hafter
    · cases hstep
      cases hafter
    · cases hstep
      cases hafter
  | caller =>
    simp only [step, callerStep] at hstep
    split at hstep
    · unfold opStep at hstep
      split at hstep
      · cases hstep
      · cases hstep
        exact absurd ((flushThread_sendDataInternal _ _).symm.trans hafter) hbefore
      · cases hstep
        exact absurd ((flushThread_sendDataInternal _ _).symm.trans hafter) hbefore
      · split at hstep <;> cases hstep <;> exact absurd hafter hbefore
      · cases hstep
        exact absurd hafter hbefore
      · cases hstep
      · split at hstep
        · cases hstep
          exact absurd hafter hbefore
        · cases hstep
          cases hafter
      · split at hstep
        · split at hstep
          · cases hstep
          · cases hstep
            exact absurd hafter hbefore
        · cases hstep
          exact absurd hafter hbefore
      · split at hstep
        · cases hstep
          rw [flushThread_sendDataInternal] at hafter
          cases hafter
        · cases hstep
    · split at hstep
      · cases hstep
      · cases hstep
        exact absurd hafter hbefore

/-- A step that notifies nobody puts no frame into the queue and tells nobody to stop. -/
theorem step_asleep {io io' : WebSocketIo σ} {e : Event} (hstep : io.step e = some io')
    (he : e ≠ .flusher) (hquiet : io.notifies e = false)
    (h : io.sendCtx.flushCtx.list = [] ∧ io.sendCtx.async = true) :
    io'.sendCtx.flushCtx.list = [] ∧ io'.sendCtx.async = true := by
  cases e with
  | flusher => exact absurd rfl he
  | call c =>
    simp only [step] at hstep
    split at hstep
    · cases hstep
      exact h
    · cases hstep
  | recvReturn fuel =>
    obtain ⟨_, _, _, _, _, -, -, -, -, rfl⟩ := recvReturn_cases hstep
    exact h
  | caller =>
    rw [notifies, Bool.or_eq_false_iff] at hquiet
    simp only [step, callerStep] at hstep
    split at hstep
    · unfold opStep at hstep
      split at hstep
      · cases hstep
      · cases hstep
        rw [flushCtx_sendDataInternal, async_sendDataInternal]
        exact h
      · cases hstep
        rw [flushCtx_sendDataInternal, async_sendDataInternal]
        exact h
      · split at hstep <;> cases hstep <;> exact h
      · cases hstep
        exact h
      · cases hstep
      · rw [if_pos h.2] at hstep
        cases hstep
        exact h
      · rename_i htodo
        rw [htodo, h.2] at hquiet
        simp at hquiet
      · split at hstep
        · cases hstep
          rw [flushCtx_sendDataInternal, async_sendDataInternal]
          exact h
        · cases hstep
    · rename_i hputs
      rw [hputs] at hquiet
      simp at hquiet

end

end WebSocketIo

/-! ## What the running call may still send -/

/-- How many bytes a piece may still pass to `send_data_internal`, in each of its calls. -/
def Op.sending : Op → List Nat
  | .sendDataInternal data => [data.length]
  | .sendTmp => [1]
  | .recvDataInternal _ | .startAsyncFlush | .stopAsyncFlush | .join => [0]
  | .clearHasSent | .recvMessage _ => []

namespace Peer

/-- The sizes of what was sent and of what the running call may still send. -/
def sending (peer : Peer) : List Nat :=
  peer.io.sends.map List.length ++ peer.io.todo.flatMap Op.sending

/-- Neither of them wears out the 64-bit numbers. -/
structure Roomy (peer : Peer) : Prop where
  count : peer.sending.length < 2 ^ 63
  sizes : ∀ size ∈ peer.sending, size + headSize < 2 ^ 63

theorem Roomy.bounded {peer : Peer} (h : peer.Roomy) : peer.Bounded where
  count := by
    have hcount := h.count
    rw [sending, List.length_append, List.length_map] at hcount
    omega
  sizes m hm := h.sizes m.length (List.mem_append_left _ (List.mem_map_of_mem hm))

/-- A step that is no call makes no more of them. -/
theorem sending_step {peer peer' : Peer} {e : Event} (hstep : peer.step e = some peer')
    (he : ∀ c, e ≠ .call c) : peer'.sending.Sublist peer.sending := by
  obtain ⟨hio, -, -⟩ := step_cases hstep
  unfold sending
  generalize peer'.io = io' at hio ⊢
  generalize peer.io = io at hio ⊢
  cases e with
  | call c => exact absurd rfl (he c)
  | flusher =>
    obtain ⟨-, -, -, htodo, -, hsends, -⟩ := WebSocketIo.flusherStep_caller hio
    rw [htodo, hsends]
  | recvReturn fuel =>
    obtain ⟨len, todo, res, ctx, stream, -, htodo, -, -, rfl⟩ := WebSocketIo.recvReturn_cases hio
    rw [htodo]
    refine List.Sublist.append_left ?_ _
    show (List.flatMap Op.sending (if res.isOk then todo else [])).Sublist
      ([] ++ todo.flatMap Op.sending)
    split
    · exact List.Sublist.refl _
    · exact List.nil_sublist _
  | caller =>
    simp only [WebSocketIo.step, WebSocketIo.callerStep] at hio
    split at hio
    · unfold WebSocketIo.opStep at hio
      split at hio
      · cases hio
      all_goals rename_i htodo; rw [htodo, List.flatMap_cons]
      · cases hio
        simp [Op.sending]
      · cases hio
        simp [Op.sending]
      · split at hio <;> cases hio <;> simp [Op.sending]
      · cases hio
        simp [Op.sending]
      · cases hio
      · split at hio <;> cases hio <;> simp [Op.sending]
      · split at hio
        · split at hio
          · cases hio
          · cases hio
            simp [Op.sending]
        · cases hio
          simp [Op.sending]
      · split at hio
        · cases hio
          simp [Op.sending]
        · cases hio
    · split at hio
      · cases hio
      · cases hio
        exact List.Sublist.refl _

theorem Roomy.step {peer peer' : Peer} {e : Event} (h : peer.Roomy)
    (hstep : peer.step e = some peer') (he : ∀ c, e ≠ .call c) : peer'.Roomy where
  count := Nat.lt_of_le_of_lt (sending_step hstep he).length_le h.count
  sizes size hsize := h.sizes size ((sending_step hstep he).subset hsize)

/-- Where the flush thread waits and has not been notified there is no frame for it, and it
has not been told to stop. -/
def Alert (peer : Peer) : Prop :=
  peer.asleep = true → peer.io.sendCtx.flushCtx.list = [] ∧ peer.io.sendCtx.async = true

theorem Alert.step {peer peer' : Peer} {e : Event} (h : peer.Alert)
    (hstep : peer.step e = some peer') : peer'.Alert := by
  obtain ⟨hio, -, -⟩ := step_cases hstep
  have hnotified : (e = .flusher → peer.asleep = false) ∧ peer'.notified =
      (decide (peer.io.flushThread = .waiting) && (peer.notified || peer.io.notifies e)) := by
    unfold Peer.step at hstep
    split at hstep
    · cases hstep
    · rename_i hawake
      refine ⟨fun he => by simpa [he] using hawake, ?_⟩
      split at hstep
      · cases hstep
      · split at hstep
        · cases hstep
        · cases hstep
          rfl
  obtain ⟨hflusher, hnotified⟩ := hnotified
  intro hasleep
  rw [asleep, hnotified, Bool.and_eq_true, decide_eq_true_eq] at hasleep
  by_cases hwaiting : peer.io.flushThread = .waiting
  · -- it has waited before, and nobody notified it
    have hquiet : peer.notified = false ∧ peer.io.notifies e = false := by
      simpa [hwaiting] using hasleep.2
    have hbefore : peer.asleep = true := by simp [asleep, hwaiting, hquiet.1]
    refine WebSocketIo.step_asleep hio (fun he => ?_) hquiet.2 (h hbefore)
    rw [hflusher he] at hbefore
    cases hbefore
  · exact WebSocketIo.step_sleeps hio hwaiting hasleep.1

/-- The party receives, and the other one has not handed over what it waits for. -/
def Waits (peer other : Peer) : Prop :=
  ∃ len todo, peer.io.todo = .recvMessage len :: todo ∧
    other.handedOver.length < peer.bytes.length + max len 1

/-- `RecvMessage` returns when it has its bytes. -/
theorem step_recvReturn {peer : Peer} {len fuel : Nat} {todo : List Op} {buf : Bytes}
    {ctx : RecvCtx} {stream : BlockingLink} (hputs : peer.io.puts = [])
    (htodo : peer.io.todo = .recvMessage len :: todo)
    (hcall : recvMessage fuel peer.io.recvCtx len peer.io.channelStream = (.ok buf, ctx, stream))
    (hstarved : stream.starved = false) :
    ∃ peer', peer.step (.recvReturn fuel) = some peer' ∧ peer'.io.work < peer.io.work := by
  have hio : peer.io.step (.recvReturn fuel) = some { peer.io with
      recvCtx := ctx
      channelStream := stream
      tmp := buf.headD peer.io.tmp
      todo := todo } := by
    simp only [WebSocketIo.step, WebSocketIo.recvReturn, hputs, htodo, hcall]
  refine ⟨_, by simp only [step, hio, hstarved, reduceCtorEq, false_and, if_false]; rfl, ?_⟩
  simp only [WebSocketIo.work, htodo, List.map_cons, List.sum_cons, Op.weight]
  omega

end Peer

/-- A receive whose bytes have been handed over returns when all that was written has come
in. -/
theorem Flow.returns {sender receiver : Peer} (h : Flow sender receiver) (hsound : sender.Sound)
    (hbounded : sender.Bounded) (hout : sender.io.outbound = [])
    (hall : sender.io.channelStream.delivered = sender.io.channelStream.sent.length)
    (hputs : receiver.io.puts = []) {len : Nat} {todo : List Op}
    (htodo : receiver.io.todo = .recvMessage len :: todo)
    (hhanded : receiver.bytes.length + max len 1 ≤ sender.handedOver.length) :
    ∃ fuel receiver', receiver.step (.recvReturn fuel) = some receiver' ∧
      receiver'.io.work < receiver.io.work := by
  obtain ⟨-, hstarved, -, read, rest, left, hnum, hlink, hread, hbytes⟩ := h
  have hcount := hnum.count
  have hsends := hbounded.count
  rw [List.length_append] at hcount
  have hid : lastId 0 read.length = read.length := by
    rw [lastId_of_lt (by omega), Nat.zero_add]
  have hin := Flow.incoming hsound hnum hlink
  rw [hall, List.drop_length, hout, List.flatten_nil, List.append_nil, hid] at hin
  have hends : CallEnds len (rest.length + 1) read.length [] left rest []
      (recvMessage (rest.length + 1) receiver.io.recvCtx len receiver.io.channelStream) :=
    recvMessageLoop_waits hread hstarved hin
      (fun q hq => hnum.sizes hbounded.sizes q (List.mem_append_right _ hq)) (by omega)
      (Nat.lt_of_lt_of_le Nat.zero_lt_one (Nat.le_max_right _ _))
  have hlen := congrArg List.length hbytes
  rw [List.length_append] at hlen
  rw [hnum.handedOver hsound, List.flatten_append, List.length_append] at hhanded
  refine ⟨rest.length + 1, ?_⟩
  obtain ⟨⟨res, ctx, s'⟩, hcall⟩ : ∃ r, recvMessage (rest.length + 1) receiver.io.recvCtx len
      receiver.io.channelStream = r := ⟨_, rfl⟩
  rw [hcall] at hends
  cases hends with
  | waits _ hshort =>
    have hlt := hshort rfl
    rw [List.length_nil] at hlt
    omega
  | outOfFuel hfuel => omega
  | returns _ _ _ _ _ _ hs => exact Peer.step_recvReturn hputs htodo hcall hs

/-! ## The session -/

/-- The steps that no user makes, but for a wakeup without a notification. -/
def SessionEvent.internal : SessionEvent → Prop
  | .own _ (.call _) | .wake _ => False
  | _ => True

namespace Session

/-- Each party has written all that it has packed, and no call is running but a receive that
waits for bytes the other party has not handed over. -/
def Settled (s : Session) : Prop :=
  ∀ side, (s side).io.outbound = [] ∧
    ((s side).io.todo = [] ∨ (s side).Waits (s side.other))

/-- What both parties have left to do by themselves. -/
def work (s : Session) : Nat := (s .server).io.work + (s .client).io.work

theorem work_update (s : Session) (side : Side) (peer : Peer) :
    work (Function.update s side peer) + (s side).io.work = work s + peer.io.work := by
  cases side <;> simp [work, Function.update] <;> omega

/-- **One step**: no flush thread sleeps through a frame. -/
theorem alert_step {s s' : Session} {e : SessionEvent} (h : ∀ side, (s side).Alert)
    (hstep : s.step e = some s') (side' : Side) : (s' side').Alert := by
  cases e with
  | own side e =>
    obtain ⟨peer', hpeer, rfl⟩ := Option.map_eq_some_iff.mp hstep
    by_cases hside : side' = side
    · subst hside
      rw [Function.update_self]
      exact (h side').step hpeer
    · rw [Function.update_of_ne hside]
      exact h side'
  | deliver side n =>
    cases hstep
    by_cases hside : side' = side
    · subst hside
      rw [Function.update_self]
      exact h side'
    · rw [Function.update_of_ne hside, Side.eq_other_of_ne hside, Function.update_self]
      exact h side.other
  | wake side =>
    cases hstep
    by_cases hside : side' = side
    · subst hside
      rw [Function.update_self]
      intro hasleep
      simp [Peer.asleep] at hasleep
    · rw [Function.update_of_ne hside]
      exact h side'

/-- **No wakeup is lost**, in any run of a session. -/
theorem alert_run {es : List SessionEvent} {s : Session} (hrun : machine.run es = some s) :
    ∀ side, (s side).Alert := by
  refine Machine.invariant (fun s => ∀ side, (s side).Alert) ?_
    (fun _ _ _ h hstep => alert_step h hstep) hrun
  intro side hasleep
  simp [machine, start, Peer.asleep, WebSocketIo.new] at hasleep

end Session

/-- **No frame is left behind.** In every run of a session, a flush thread that waits and
has not been notified has not been told to stop, and all that has been packed has been
written, but for what the running call has yet to put into the queue. -/
theorem flush_thread_alert {es : List SessionEvent} {s : Session}
    (hrun : Session.machine.run es = some s) (side : Side) (hasleep : (s side).asleep = true) :
    (s side).io.sendCtx.async = true ∧
      (s side).io.channelStream.sent ++ (s side).io.puts.flatten =
        (packAll newSendCtx.buffer (s side).io.sends).1.flatten := by
  obtain ⟨hlist, hasync⟩ := Session.alert_run hrun side hasleep
  have hbytes : (s side).io.channelStream.sent ++ (s side).io.outbound.flatten =
      [] ++ (packAll newSendCtx.buffer (s side).io.sends).1.flatten :=
    ((Session.good_run hrun).sound side).inStep.bytes
  have hwaiting : (s side).io.flushThread = .waiting := by
    rw [Peer.asleep, Bool.and_eq_true, decide_eq_true_eq] at hasleep
    exact hasleep.1
  have hout : (s side).io.outbound = (s side).io.puts := by
    rw [WebSocketIo.outbound, hwaiting, hlist]
    rfl
  rw [hout, List.nil_append] at hbytes
  exact ⟨hasync, hbytes⟩

/-- The client flushes a byte and its flush thread writes it. -/
theorem flush_thread_alert_byte :
    let es : List SessionEvent := [.own .client (.call .startAsyncFlush), .own .client .caller,
      .own .client .flusher, .own .client .flusher, .own .client .flusher,
      .own .client (.call (.sendData [7])), .own .client .caller, .own .client (.call .flush),
      .own .client .caller, .own .client .caller, .own .client .flusher, .own .client .flusher,
      .own .client .flusher, .own .client .flusher, .own .client .flusher, .own .client .flusher,
      .own .client .flusher]
    ∃ s, Session.machine.run es = some s ∧ (s .client).io.channelStream.sent.length = 19 ∧
      (s .client).io.channelStream.sent =
        (packAll newSendCtx.buffer (s .client).io.sends).1.flatten := by
  intro es
  have hsteps : (Session.machine.run es).map (fun s => ((s .client).asleep,
      (s .client).io.puts, (s .client).io.channelStream.sent.length)) = some (true, [], 19) := by
    decide +kernel
  obtain ⟨s, hrun, hstate⟩ := Option.map_eq_some_iff.mp hsteps
  obtain ⟨hasleep, hstate⟩ := Prod.mk.inj hstate
  obtain ⟨hputs, hlength⟩ := Prod.mk.inj hstate
  have hbytes := (flush_thread_alert hrun .client hasleep).2
  rw [hputs, List.flatten_nil, List.append_nil] at hbytes
  exact ⟨s, hrun, hlength, hbytes⟩

namespace Session

/-- What holds while no new call is made. -/
structure Going (s : Session) : Prop where
  good : s.Good
  alert (side : Side) : (s side).Alert
  roomy (side : Side) : (s side).Roomy

theorem Going.flow {s : Session} (h : s.Going) (side : Side) : Flow (s side.other) (s side) :=
  h.good.flow side (h.roomy side.other).bounded

theorem Going.step {s s' : Session} {e : SessionEvent} (h : s.Going) (he : e.internal)
    (hstep : s.step e = some s') : s'.Going := by
  refine ⟨h.good.step hstep, alert_step h.alert hstep, ?_⟩
  cases e with
  | own side e =>
    obtain ⟨peer', hpeer, rfl⟩ := Option.map_eq_some_iff.mp hstep
    intro side'
    by_cases hside : side' = side
    · subst hside
      rw [Function.update_self]
      refine (h.roomy side').step hpeer ?_
      rintro c rfl
      exact he
    · rw [Function.update_of_ne hside]
      exact h.roomy side'
  | deliver side n =>
    cases hstep
    intro side'
    by_cases hside : side' = side
    · subst hside
      rw [Function.update_self]
      exact ⟨(h.roomy side').count, (h.roomy side').sizes⟩
    · rw [Function.update_of_ne hside, Side.eq_other_of_ne hside, Function.update_self]
      exact ⟨(h.roomy side.other).count, (h.roomy side.other).sizes⟩
  | wake side => exact he.elim

/-- A step of one party leaves less to do. -/
theorem reaches_own {s : Session} {side : Side} {e : Event} {peer' : Peer}
    (he : ∀ c, e ≠ .call c) (hstep : (s side).step e = some peer')
    (hlt : peer'.io.work < (s side).io.work) :
    ∃ t, machine.Reaches SessionEvent.internal s t ∧ t.work < s.work := by
  have hinternal : (SessionEvent.own side e).internal := by
    cases e with
    | call c => exact he c rfl
    | _ => trivial
  have hsum := work_update s side peer'
  refine ⟨Function.update s side peer', .step hinternal ?_, by omega⟩
  show ((s side).step e).map (Function.update s side) = _
  rw [hstep]
  rfl

/-- A party that is not at rest goes on. -/
theorem Going.works {s : Session} (h : s.Going) {side : Side} (hrested : ¬ (s side).io.Rested) :
    ∃ t, machine.Reaches SessionEvent.internal s t ∧ t.work < s.work := by
  obtain ⟨e, io', hown, hio, hlt, hbusy⟩ :=
    WebSocketIo.works (h.good.sound side).threads hrested
  have he : ∀ fuel, e ≠ .recvReturn fuel := by
    rintro fuel rfl
    exact hown
  obtain ⟨hstarved, -⟩ := WebSocketIo.step_keeps (P := fun s : BlockingLink => s.starved = false)
    (fun s bs hs => hs) hio he (h.flow side).starved
  have hcall : ∀ c, e ≠ .call c := by
    rintro c rfl
    exact hown
  -- a flush thread with something to do does not sleep
  have hawake : ¬ (e = .flusher ∧ (s side).asleep = true) := by
    rintro ⟨he, hasleep⟩
    obtain ⟨hlist, hasync⟩ := h.alert side hasleep
    have hwaiting : (s side).io.flushThread = .waiting := by
      rw [Peer.asleep, Bool.and_eq_true, decide_eq_true_eq] at hasleep
      exact hasleep.1
    have hreason := hbusy he
    simp [hwaiting, hasync, emptyFlushCtx, hlist, Flusher.inFlight, Flusher.rank] at hreason
  have hpeer : ∃ peer', (s side).step e = some peer' ∧ peer'.io = io' := by
    simp [Peer.step, hawake, hio, hstarved]
  obtain ⟨peer', hstep, rfl⟩ := hpeer
  exact reaches_own hcall hstep hlt

/-- A receive whose bytes have been handed over returns when they have come in. -/
theorem Going.receives {s : Session} (h : s.Going) {side : Side} {len : Nat} {todo : List Op}
    (hout : ∀ side, (s side).io.outbound = []) (htodo : (s side).io.todo = .recvMessage len :: todo)
    (hhanded : (s side).bytes.length + max len 1 ≤ (s side.other).handedOver.length) :
    ∃ t, machine.Reaches SessionEvent.internal s t ∧ t.work < s.work := by
  -- the connection brings all that was written
  obtain ⟨n, hn⟩ : ∃ n, n = (s side.other).io.channelStream.sent.length := ⟨_, rfl⟩
  obtain ⟨s₁, hs₁⟩ : ∃ s₁ : Session, s₁ = Function.update
      (Function.update s side.other ((s side.other).taken n)) side
      ((s side).given n (s side.other)) := ⟨_, rfl⟩
  have hdeliver : s.step (.deliver side n) = some s₁ := by
    rw [hs₁]
    rfl
  have hside : s₁ side = (s side).given n (s side.other) := by
    rw [hs₁, Function.update_self]
  have hother : s₁ side.other = (s side.other).taken n := by
    rw [hs₁, Function.update_of_ne side.other_ne, Function.update_self]
  have hwork : s₁.work = s.work := by
    have htaken := work_update s side.other ((s side.other).taken n)
    have hgiven := work_update (Function.update s side.other ((s side.other).taken n)) side
      ((s side).given n (s side.other))
    rw [Function.update_of_ne side.other_ne.symm, ← hs₁] at hgiven
    have htaken' : ((s side.other).taken n).io.work = (s side.other).io.work := rfl
    have hgiven' : ((s side).given n (s side.other)).io.work = (s side).io.work := rfl
    omega
  have hinternal : (SessionEvent.deliver side n).internal := trivial
  have h₁ := h.step hinternal hdeliver
  have hflow := h₁.flow side
  have hsound := h₁.good.sound side.other
  have hbounded := (h₁.roomy side.other).bounded
  rw [hother] at hflow hsound hbounded
  rw [hside] at hflow
  have hall : ((s side.other).taken n).io.channelStream.delivered =
      ((s side.other).taken n).io.channelStream.sent.length := by
    show min ((s side.other).io.channelStream.delivered + n) _ = _
    rw [hn, Nat.min_eq_right (Nat.le_add_left _ _)]
    rfl
  have hputs : (s side).io.puts = [] := (List.append_eq_nil_iff.mp (hout side)).2
  obtain ⟨fuel, peer', hreturn, hlt⟩ := hflow.returns hsound hbounded (hout side.other) hall hputs
    htodo hhanded
  rw [← hside] at hreturn hlt
  obtain ⟨t, hreach, hless⟩ := reaches_own (by simp) hreturn hlt
  exact ⟨t, .trans (.step hinternal hdeliver) hreach, by omega⟩

/-- A session that is not settled goes on. -/
theorem Going.next {s : Session} (h : s.Going) (hsettled : ¬ s.Settled) :
    ∃ t, machine.Reaches SessionEvent.internal s t ∧ t.work < s.work := by
  by_cases hrested : ∀ side, (s side).io.Rested
  · -- both parties are at rest, so one of them receives what has been handed over
    obtain ⟨side, hside⟩ := not_forall.mp hsettled
    obtain ⟨hout, htodo⟩ := hrested side
    have hbusy := not_and.mp hside hout
    rcases htodo with hidle | ⟨len, todo, htodo⟩
    · exact absurd (.inl hidle) hbusy
    · refine h.receives (fun side => (hrested side).outbound) htodo (Nat.not_lt.mp fun hlt => ?_)
      exact hbusy (.inr ⟨len, todo, htodo, hlt⟩)
  · obtain ⟨side, hside⟩ := not_forall.mp hrested
    exact h.works hside

end Session

/-- **No call waits for ever.** From every state of every run of a session in which the
running calls do not wear out the numbers, the threads and the connection can go on, without
a new call of a user, to a state in which each party has written all that it has packed, and
each call has returned but for a receive whose bytes the other party has not handed over; a
party that waits has itself handed over everything. What was sent since the last flush may
stay in the send buffer of a party that does not wait. -/
theorem session_progresses {es : List SessionEvent} {s : Session}
    (hrun : Session.machine.run es = some s) (hroomy : ∀ side, (s side).Roomy) :
    ∃ more t, (∀ e ∈ more, e.internal) ∧ Session.machine.run (es ++ more) = some t ∧ t.Settled ∧
      ∀ side, (t side).io.todo ≠ [] → (t side).handedOver = (t side).io.sends.flatten := by
  obtain ⟨t, ⟨more, hmore, hrest⟩, hgoing, hsettled⟩ := Machine.reaches_done Session.work
    (fun _ _ _ h he hstep => Session.Going.step h he hstep)
    (fun _ h hnot => Session.Going.next h hnot)
    ⟨Session.good_run hrun, Session.alert_run hrun, hroomy⟩
  refine ⟨more, t, hmore, ?_, hsettled, fun side hbusy => ?_⟩
  · rw [Machine.run, Machine.runFrom_append hrun, hrest]
  · obtain ⟨hout, htodo⟩ := hsettled side
    obtain ⟨len, todo, htodo, -⟩ := htodo.resolve_left hbusy
    have hputs : (t side).io.puts = [] := (List.append_eq_nil_iff.mp hout).2
    have hreceiving : (t side).io.receiving = true := by
      rw [WebSocketIo.receiving, hputs, htodo]
    have hbuffer := ((hgoing.good.sound side).handedOver hreceiving).buffer
    rw [Peer.handedOver, hbuffer, List.length_nil, Nat.sub_zero, List.take_length]

/-- Both parties synchronise; the flush thread of the client is on. -/
theorem session_progresses_sync :
    let es : List SessionEvent := [.own .client (.call .startAsyncFlush), .own .client .caller,
      .own .server (.call .sync), .own .client (.call .sync)]
    ∃ s, Session.machine.run es = some s ∧
      ∃ more t, Session.machine.run (es ++ more) = some t ∧ t.Settled := by
  intro es
  have hstart : (Session.machine.run es).map (fun s =>
      ((s .server).sending, (s .client).sending)) =
        some ([1, 0], [0, 0, 1, 0]) := by
    decide +kernel
  obtain ⟨s, hrun, hstate⟩ := Option.map_eq_some_iff.mp hstart
  obtain ⟨hserver, hclient⟩ := Prod.mk.inj hstate
  have hroomy : ∀ side, (s side).Roomy := by
    intro side
    cases side with
    | server =>
      constructor
      · rw [hserver]
        decide
      · rw [hserver]
        decide
    | client =>
      constructor
      · rw [hclient]
        decide
      · rw [hclient]
        decide
  obtain ⟨more, t, -, hmore, hsettled, -⟩ := session_progresses hrun hroomy
  exact ⟨s, hrun, more, t, hmore, hsettled⟩

end ZktlsNet
