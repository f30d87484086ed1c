import ZktlsNet.Proxy.Receive
import ZktlsNet.Ws.Progress

/-!
# The receive stream (`proxy_client.cpp:870-900`)

One thread puts bytes into the receive queue and closes it, another takes them out
with `RecvFromRecvProxyCtx`. That holds the lock for one round of its loop at a time,
and within a round it sleeps while nothing is there and the stream is open. A step is
a section under the lock.

Each put goes with one answer and its call id, an `int`: the counter of
`PutToRecvProxyCtx` stays far away from the id that stands for the leading `int`.

- `recvFromRecvProxyCtx_run`: the rounds under the lock are those of the loop that has the
  lock all the time.
- `Flowing`: the queue has its chunks in order, what has been delivered is what was
  read from it, and a reader that sleeps has nothing to wake for.
- `Flowing.round`: what one round does, in terms of the bytes that are left.
- `recvProxyStream_lossless`: no byte is lost at the end of the stream, wherever the
  reader was when it was closed.
-/

namespace ZktlsNet

open NetLib

/-- Where the reader is: between two calls, before a round of a call for `len` bytes
that has got some of them, or asleep in such a round. -/
inductive Reader
  | idle
  | loop (len : Nat) (got : Bytes)
  | wait (len : Nat) (got : Bytes)
  deriving DecidableEq, Repr

/-- What the call in progress has got. -/
def Reader.got : Reader → Bytes
  | .idle => []
  | .loop _ got => got
  | .wait _ got => got

/-- A reader that sleeps is woken up; the rest take no notice. -/
def Reader.notify : Reader → Reader
  | .wait len got => .loop len got
  | r => r

@[simp] theorem Reader.got_notify (r : Reader) : r.notify.got = r.got := by
  cases r <;> rfl

@[simp] theorem Reader.notify_notify (r : Reader) : r.notify.notify = r.notify := by
  cases r <;> rfl

theorem Reader.notify_ne_wait (r : Reader) (len : Nat) (got : Bytes) :
    r.notify ≠ .wait len got := by
  cases r <;> exact Reader.noConfusion

/-- A call that has returned. -/
structure ReadCall where
  len : Nat
  bytes : Bytes
  deriving DecidableEq, Repr

/-- `RecvProxyCtx` between its two threads; `put` records the bytes that were put. -/
structure RecvStream where
  ctx : RecvProxyCtx
  reader : Reader
  returned : List ReadCall
  put : Bytes
  deriving DecidableEq, Repr

namespace RecvStream

def new : RecvStream := ⟨newRecvProxyCtx, .idle, [], []⟩

/-- Bytes have been read from the queue. -/
def took (s : RecvStream) (inner : RecvCtx) (copied : Bytes) : RecvStream :=
  let c := { s.ctx.innerCtx with ctx := inner, out := s.ctx.innerCtx.out ++ copied }
  { s with ctx := { s.ctx with innerCtx := c } }

/-- The call returns. -/
def ret (s : RecvStream) (len : Nat) (got : Bytes) : RecvStream :=
  { s with reader := .idle, returned := s.returned ++ [⟨len, got⟩] }

/-- The test of the loop, `recv_bytes < len`. -/
def test (s : RecvStream) (len : Nat) (got : Bytes) : RecvStream :=
  if got.length < len then { s with reader := .loop len got } else s.ret len got

/-- One round of the loop of `RecvFromRecvProxyCtx`. -/
def recvFromRecvProxyCtx (s : RecvStream) (len : Nat) (got : Bytes) : Res RecvStream :=
  let c := s.ctx.innerCtx
  if !c.readable && !s.ctx.recvZero then .ok { s with reader := .wait len got }
  else if s.ctx.recvZero && emptyRecvCtx c.ctx then .ok (s.ret len got)
  else do
    let (copied, inner) ← recvFromRecvCtx c.ctx (len - got.length)
    return (s.took inner copied).test len (got ++ copied)

/-- A round in which the reader does not go to sleep is one of `ReadLoop.recvProxyCtx`. -/
theorem recvFromRecvProxyCtx_run {s s' : RecvStream} {len : Nat} {got : Bytes}
    (hgot : got.length < len) (hawake : (s.ctx.innerCtx.readable || s.ctx.recvZero) = true)
    (h : s.recvFromRecvProxyCtx len got = .ok s') :
    (∃ got', s'.reader = .loop len got' ∧ ∀ fuel,
      ReadLoop.recvProxyCtx.run s.ctx.recvZero len (fuel + 1) got s.ctx.innerCtx.ctx =
        ReadLoop.recvProxyCtx.run s.ctx.recvZero len fuel got' s'.ctx.innerCtx.ctx) ∨
    ∃ bs, s'.reader = .idle ∧ s'.returned = s.returned ++ [⟨len, bs⟩] ∧ ∀ fuel,
      ReadLoop.recvProxyCtx.run s.ctx.recvZero len (fuel + 2) got s.ctx.innerCtx.ctx =
        (.ok bs, s'.ctx.innerCtx.ctx) := by
  have hsleep : (!s.ctx.innerCtx.readable && !s.ctx.recvZero) = false := by
    rw [← Bool.not_or, hawake]
    rfl
  have hwait : (!s.ctx.recvZero && !s.ctx.innerCtx.ctx.cursorValid) = false := by
    rw [Bool.and_comm]
    exact hsleep
  simp only [recvFromRecvProxyCtx, hsleep, Bool.false_eq_true, if_false] at h
  by_cases hempty : (s.ctx.recvZero && emptyRecvCtx s.ctx.innerCtx.ctx) = true
  · rw [if_pos hempty] at h
    cases h
    refine .inr ⟨got, rfl, rfl, fun fuel => ?_⟩
    have hleave : ReadLoop.recvProxyCtx.leave s.ctx.recvZero s.ctx.innerCtx.ctx got =
        some (.ok got) := if_pos hempty
    rw [ReadLoop.run, if_pos hgot, hwait, if_neg (by simp), hleave]
    rfl
  · rw [if_neg hempty] at h
    obtain ⟨⟨copied, inner⟩, hread, hrest⟩ := bind_eq_ok h
    have hleave : ReadLoop.recvProxyCtx.leave s.ctx.recvZero s.ctx.innerCtx.ctx got = none :=
      if_neg hempty
    have hround : ∀ fuel, ReadLoop.recvProxyCtx.run s.ctx.recvZero len (fuel + 1) got
        s.ctx.innerCtx.ctx =
          ReadLoop.recvProxyCtx.run s.ctx.recvZero len fuel (got ++ copied) inner := by
      intro fuel
      rw [ReadLoop.run, if_pos hgot, hwait, if_neg (by simp), hleave]
      simp only [hread]
    obtain rfl := Except.ok.inj hrest
    unfold test
    by_cases hmore : (got ++ copied).length < len
    · rw [if_pos hmore]
      exact .inl ⟨got ++ copied, rfl, hround⟩
    · rw [if_neg hmore]
      refine .inr ⟨got ++ copied, rfl, rfl, fun fuel => ?_⟩
      rw [hround, ReadLoop.run_done _ _ (not_lt.mp hmore)]
      rfl

/-! ## Steps -/

/-- What happens next: `PutToRecvProxyCtx`, `SetRecvProxyCtx(false)`, the reader begins a
call, makes a round, or wakes up by itself. -/
inductive StreamEvent
  | put (buf : Bytes) (len : Nat)
  | close
  | call (len : Nat)
  | round
  | wake
  deriving DecidableEq, Repr

def enabled (s : RecvStream) : StreamEvent → Bool
  | .put buf len => decide (0 < len) && decide (len ≤ buf.length) &&
      decide (buf.length < 2 ^ 64) && decide (s.ctx.id + 1 < 2 ^ 64 - 1)
  | .close => true
  | .call _ => s.reader = .idle
  | .round => match s.reader with
    | .loop _ _ => true
    | _ => false
  | .wake => match s.reader with
    | .wait _ _ => true
    | _ => false

/-- What an event does; both calls of the other thread end with `notify_one`. -/
def act (s : RecvStream) : StreamEvent → Res RecvStream
  | .put buf len => do
    let ctx ← putToRecvProxyCtx s.ctx buf len
    return { s with ctx := ctx, reader := s.reader.notify, put := s.put ++ buf.take len }
  | .close => .ok { s with ctx := setRecvProxyCtx s.ctx false, reader := s.reader.notify }
  | .call len => .ok (s.test len [])
  | .round => match s.reader with
    | .loop len got => s.recvFromRecvProxyCtx len got
    | _ => .ok s
  | .wake => .ok { s with reader := s.reader.notify }

/-- The stream under any interleaving. -/
def machine : Machine (Res RecvStream) StreamEvent := checked new enabled act

/-! ## What flows -/

/-- The bytes that the calls have returned, and those that the call in progress has
got. -/
def delivered (s : RecvStream) : Bytes :=
  (s.returned.map ReadCall.bytes).flatten ++ s.reader.got

/-- The bytes that were put and are not delivered yet. -/
def left (s : RecvStream) : Bytes := s.put.drop s.delivered.length

@[simp] theorem put_test (s : RecvStream) (len : Nat) (got : Bytes) :
    (s.test len got).put = s.put := by
  unfold test
  split <;> rfl

@[simp] theorem ctx_test (s : RecvStream) (len : Nat) (got : Bytes) :
    (s.test len got).ctx = s.ctx := by
  unfold test
  split <;> rfl

theorem delivered_ret (s : RecvStream) (len : Nat) (got : Bytes) :
    (s.ret len got).delivered = (s.returned.map ReadCall.bytes).flatten ++ got := by
  simp [delivered, ret, Reader.got]

/-- Whether the call goes on or not, it has delivered what it has got. -/
theorem delivered_test (s : RecvStream) (len : Nat) (got : Bytes) :
    (s.test len got).delivered = (s.returned.map ReadCall.bytes).flatten ++ got := by
  unfold test
  split
  · rfl
  · exact delivered_ret s len got

/-- In `s'` the reader is back from the call it made, or makes, in `s`. -/
structure Back (s s' : RecvStream) (c : ReadCall) : Prop where
  idle : s'.reader = .idle
  put : s'.put = s.put
  returned : s'.returned = s.returned ++ [c]

/-- What a round of a call for `len` bytes that has `got` some may come to: the reader goes
to sleep, it returns what it has at the end of the stream, it needs more, or it has
enough. -/
inductive Round (s : RecvStream) (len : Nat) (got : Bytes) (s' : RecvStream) : Prop
  | asleep : s.left = [] → s.ctx.recvZero = false → s'.reader = .wait len got →
      s'.returned = s.returned → Round s len got s'
  | ended : s.left = [] → s.ctx.recvZero = true → s'.reader = .idle →
      s'.returned = s.returned ++ [⟨len, got⟩] → Round s len got s'
  | more (n : Nat) : 0 < n → n ≤ s.left.length → got.length + n < len →
      s'.left = s.left.drop n → s'.reader = .loop len (got ++ s.left.take n) →
      s'.returned = s.returned → Round s len got s'
  | enough (n : Nat) : n ≤ s.left.length → got.length + n = len → s'.reader = .idle →
      s'.returned = s.returned ++ [⟨len, got ++ s.left.take n⟩] → Round s len got s'

/-- The invariant. -/
structure Flowing (s : RecvStream) : Prop where
  inOrder : s.ctx.innerCtx.InOrder
  ids : s.ctx.innerCtx.arrived.map RecvBuffer.id = List.range' 1 s.ctx.id
  put : (s.ctx.innerCtx.arrived.map RecvBuffer.payload).flatten = s.put
  delivered : s.ctx.innerCtx.out = s.delivered
  missing : ∀ len got, s.reader.notify = .loop len got → got.length < len
  asleep : ∀ len got, s.reader = .wait len got →
    s.ctx.innerCtx.readable = false ∧ s.ctx.recvZero = false

namespace Flowing

theorem start : Flowing new where
  inOrder := RecvQueue.inOrder_init
  ids := rfl
  put := rfl
  delivered := rfl
  missing _ _ h := by cases h
  asleep _ _ h := by cases h

variable {s : RecvStream}

theorem delivered_le (h : Flowing s) : s.delivered <+: s.put := by
  have hout := h.inOrder.out_le
  rwa [h.inOrder.deliverable_of_ids h.ids, h.put, h.delivered] at hout

theorem delivered_append_left (h : Flowing s) : s.delivered ++ s.left = s.put := by
  obtain ⟨rest, hrest⟩ := h.delivered_le
  rw [left, ← hrest, List.drop_left]

/-- With an invalid cursor everything is delivered. -/
theorem delivered_eq (h : Flowing s) (hready : s.ctx.innerCtx.readable = false) :
    s.delivered = s.put := by
  rw [← h.delivered, h.inOrder.out_eq_of_not_readable h.ids hready, h.put]

/-- What has been read from the queue, when the call in progress has `got` some of it. -/
theorem out_eq (h : Flowing s) {got : Bytes} (hgot : s.reader.got = got) :
    s.ctx.innerCtx.out = (s.returned.map ReadCall.bytes).flatten ++ got := by
  rw [h.delivered, RecvStream.delivered, hgot]

theorem left_eq_nil (h : Flowing s) : s.left = [] ↔ s.delivered = s.put := by
  rw [← h.delivered_append_left, List.self_eq_append_right]

/-- A call that returns has delivered what it had got. -/
theorem ret (hin : s.ctx.innerCtx.InOrder)
    (hids : s.ctx.innerCtx.arrived.map RecvBuffer.id = List.range' 1 s.ctx.id)
    (hput : (s.ctx.innerCtx.arrived.map RecvBuffer.payload).flatten = s.put) {len : Nat}
    {got : Bytes} (hout : s.ctx.innerCtx.out = (s.returned.map ReadCall.bytes).flatten ++ got) :
    Flowing (s.ret len got) := by
  refine ⟨hin, hids, hput, ?_, fun _ _ h => (by cases h), fun _ _ h => (by cases h)⟩
  rw [delivered_ret]
  exact hout

/-- So has one that may go on. -/
theorem test (hin : s.ctx.innerCtx.InOrder)
    (hids : s.ctx.innerCtx.arrived.map RecvBuffer.id = List.range' 1 s.ctx.id)
    (hput : (s.ctx.innerCtx.arrived.map RecvBuffer.payload).flatten = s.put) {len : Nat}
    {got : Bytes} (hout : s.ctx.innerCtx.out = (s.returned.map ReadCall.bytes).flatten ++ got) :
    Flowing (s.test len got) := by
  unfold RecvStream.test
  split
  · rename_i hmissing
    refine ⟨hin, hids, hput, hout, ?_, fun _ _ h => (by cases h)⟩
    intro _ _ h
    cases h
    exact hmissing
  · exact ret hin hids hput hout

/-- **One round.** With nothing left the reader goes to sleep, or returns if the stream is
closed; otherwise it takes some of what is left, and returns when it has enough. -/
theorem round (h : Flowing s) {len : Nat} {got : Bytes} (hreader : s.reader = .loop len got) :
    ∃ s', s.recvFromRecvProxyCtx len got = .ok s' ∧ Flowing s' ∧ s'.put = s.put ∧
      s'.ctx.recvZero = s.ctx.recvZero ∧ Round s len got s' := by
  have hmissing := h.missing len got (by rw [hreader]; rfl)
  have hout := h.out_eq (show s.reader.got = got by rw [hreader]; rfl)
  unfold recvFromRecvProxyCtx
  simp only [h.inOrder.emptyRecvCtx_eq]
  cases hready : s.ctx.innerCtx.readable with
  | false =>
    have hleft := h.left_eq_nil.mpr (h.delivered_eq hready)
    cases hzero : s.ctx.recvZero with
    | false =>
      refine ⟨{ s with reader := .wait len got }, rfl, ?_, rfl, hzero,
        .asleep hleft hzero rfl rfl⟩
      refine ⟨h.inOrder, h.ids, h.put, hout, ?_, ?_⟩
      · intro len' got' heq
        cases heq
        exact hmissing
      · intro _ _ _
        exact ⟨hready, hzero⟩
    | true =>
      refine ⟨s.ret len got, rfl, ret h.inOrder h.ids h.put hout, rfl, hzero,
        .ended hleft hzero rfl rfl⟩
  | true =>
    obtain ⟨copied, inner, hrecv, hpos, hle, hin⟩ :=
      h.inOrder.read_some (show 0 < len - got.length by omega) hready
    have hids := h.ids
    -- what is copied comes next
    have hnext : copied <+: s.left := by
      have hout' := hin.out_le
      rw [hin.deliverable_of_ids hids, h.put, ← h.delivered_append_left, h.delivered] at hout'
      exact (List.prefix_append_right_inj _).mp hout'
    have hcopied : s.left.take copied.length = copied := (List.prefix_iff_eq_take.mp hnext).symm
    have hflow : Flowing ((s.took inner copied).test len (got ++ copied)) :=
      test (s := s.took inner copied) hin hids h.put (by
        show s.ctx.innerCtx.out ++ copied = _
        rw [hout, List.append_assoc]
        rfl)
    refine ⟨(s.took inner copied).test len (got ++ copied), ?_, hflow, ?_⟩
    · simp [hrecv]
    have hlen : (got ++ copied).length = got.length + copied.length := List.length_append
    have hleft : ((s.took inner copied).test len (got ++ copied)).left =
        s.left.drop copied.length := by
      rw [left, delivered_test, put_test]
      show s.put.drop ((s.returned.map ReadCall.bytes).flatten ++ (got ++ copied)).length = _
      rw [← List.append_assoc, ← hout, h.delivered, List.length_append, ← List.drop_drop]
      rfl
    refine ⟨put_test .., by rw [ctx_test]; rfl, ?_⟩
    by_cases hmore : (got ++ copied).length < len
    · refine .more copied.length hpos hnext.length_le (by omega) hleft ?_ ?_
      · rw [hcopied, RecvStream.test, if_pos hmore]
      · rw [RecvStream.test, if_pos hmore]
        rfl
    · refine .enough copied.length hnext.length_le (by omega) ?_ ?_
      · rw [RecvStream.test, if_neg hmore]
        rfl
      · rw [hcopied, RecvStream.test, if_neg hmore]
        rfl

/-- A step that reads nothing and wakes the reader. -/
theorem woken (h : Flowing s) {s' : RecvStream} (hreader : s'.reader = s.reader.notify)
    (hreturned : s'.returned = s.returned) (hin : s'.ctx.innerCtx.InOrder)
    (hids : s'.ctx.innerCtx.arrived.map RecvBuffer.id = List.range' 1 s'.ctx.id)
    (hput : (s'.ctx.innerCtx.arrived.map RecvBuffer.payload).flatten = s'.put)
    (hout : s'.ctx.innerCtx.out = s.ctx.innerCtx.out) : Flowing s' := by
  refine ⟨hin, hids, hput, ?_, ?_, ?_⟩
  · rw [hout, h.delivered, RecvStream.delivered, RecvStream.delivered, hreturned, hreader,
      Reader.got_notify]
  · intro len got hmore
    rw [hreader, Reader.notify_notify] at hmore
    exact h.missing len got hmore
  · intro len got hwait
    rw [hreader] at hwait
    exact absurd hwait (Reader.notify_ne_wait _ _ _)

/-- **One step** never leaves the memory of the queue. -/
theorem step (h : Flowing s) {e : StreamEvent} (hen : s.enabled e = true) :
    ∃ s', s.act e = .ok s' ∧ Flowing s' := by
  cases e with
  | put buf len =>
    simp only [enabled, Bool.and_eq_true, decide_eq_true_eq] at hen
    obtain ⟨⟨⟨hpos, hlen⟩, hbuf⟩, hid⟩ := hen
    obtain ⟨c, hput, hin, harrived, hout⟩ :=
      RecvSide.putToRecvProxyCtx_ok h.inOrder h.ids hid hpos hlen hbuf
    refine ⟨_, by rw [act, hput, ok_bind, pure_eq_ok], ?_⟩
    refine h.woken rfl rfl hin ?_ ?_ hout
    · show c.arrived.map RecvBuffer.id = List.range' 1 (s.ctx.id + 1)
      rw [harrived, List.map_append, List.range'_concat, h.ids, List.map_singleton,
        RecvBuffer.id_build (by omega)]
      simp [Nat.add_comm]
    · show (c.arrived.map RecvBuffer.payload).flatten = s.put ++ buf.take len
      rw [harrived, List.map_append, List.flatten_append, h.put]
      simp
  | close => exact ⟨_, rfl, h.woken rfl rfl h.inOrder h.ids h.put rfl⟩
  | call len =>
    have hidle : s.reader = .idle := by simpa [enabled] using hen
    exact ⟨_, rfl, test h.inOrder h.ids h.put (h.out_eq (by rw [hidle]; rfl))⟩
  | round =>
    cases hreader : s.reader with
    | loop len got =>
      obtain ⟨s', hround, hflow, -⟩ := h.round hreader
      exact ⟨s', by simp only [act, hreader, hround], hflow⟩
    | idle => simp [enabled, hreader] at hen
    | wait len got => simp [enabled, hreader] at hen
  | wake => exact ⟨_, rfl, h.woken rfl rfl h.inOrder h.ids h.put rfl⟩

/-- **The reader gets there.** A call that is in its loop returns after some rounds, with
all it asked for or with all that is left, when that is enough or the stream is
closed. -/
theorem returns (h : Flowing s) {len : Nat} {got : Bytes} (hreader : s.reader = .loop len got)
    (hready : s.ctx.recvZero = true ∨ len - got.length ≤ s.left.length) :
    ∃ n s', machine.runFrom (.ok s) (List.replicate n .round) = some (.ok s') ∧
      Back s s' ⟨len, got ++ s.left.take (len - got.length)⟩ := by
  induction hk : len - got.length using Nat.strong_induction_on generalizing s got with
  | _ k ih =>
    subst hk
    have hmissing := h.missing len got (by rw [hreader]; rfl)
    have hen : s.enabled .round = true := by simp only [enabled, hreader]
    obtain ⟨s₁, hround, hflow, hput, hzero, hcase⟩ := h.round hreader
    have hact : s.act .round = .ok s₁ := by simp only [act, hreader, hround]
    cases hcase with
    | asleep hleft hopen =>
      -- there was nothing to wait for
      rw [hopen, hleft, List.length_nil] at hready
      rcases hready with hclosed | hle
      · cases hclosed
      · omega
    | ended hleft _ hidle hret =>
      exact ⟨1, s₁, checked_runFrom_of_act hen hact rfl, hidle, hput, by rw [hret, hleft]; simp⟩
    | more n hpos hn hmore hleft hloop hret =>
      have htake : (s.left.take n).length = n := List.length_take_of_le hn
      obtain ⟨m, s', hrun, hidle, hput', hret'⟩ := ih (len - (got ++ s.left.take n).length)
        (by rw [List.length_append]; omega) hflow hloop (by
          rw [hzero, hleft, List.length_drop, List.length_append]
          exact hready.imp_right fun hle => by omega) rfl
      refine ⟨m + 1, s', checked_runFrom_of_act hen hact hrun, hidle, hput'.trans hput, ?_⟩
      have hsplit : s.left.take (len - got.length) =
          s.left.take n ++ (s.left.drop n).take (len - got.length - n) := by
        rw [← List.take_add]
        congr 1
        omega
      rw [hret', hret, hleft, List.length_append, htake, hsplit, ← List.append_assoc,
        Nat.sub_add_eq]
    | enough n hn henough hidle hret =>
      refine ⟨1, s₁, checked_runFrom_of_act hen hact rfl, hidle, hput, ?_⟩
      rw [hret, show len - got.length = n by omega]

/-- A call that returns with less than it asked for does so on a closed stream, and leaves
nothing. -/
theorem short (h : Flowing s) {e : StreamEvent} {s' : RecvStream} {c : ReadCall}
    (hen : s.enabled e = true) (hact : s.act e = .ok s')
    (hret : s'.returned = s.returned ++ [c]) :
    c.bytes.length ≤ c.len ∧
      (c.bytes.length < c.len → s.ctx.recvZero = true ∧ s'.delivered = s'.put) := by
  have hsame : s'.returned ≠ s.returned := by
    rw [hret]
    simp
  cases e with
  | put buf len =>
    obtain ⟨ctx, -, hrest⟩ := bind_eq_ok hact
    cases hrest
    exact absurd rfl hsame
  | close =>
    cases hact
    exact absurd rfl hsame
  | wake =>
    cases hact
    exact absurd rfl hsame
  | call len =>
    cases hact
    unfold RecvStream.test at hret hsame
    by_cases hpos : 0 < len
    · rw [if_pos (by simpa using hpos)] at hsame
      exact absurd rfl hsame
    · rw [if_neg (by simpa using hpos)] at hret
      obtain rfl := List.singleton_inj.mp (List.append_cancel_left hret)
      exact ⟨Nat.zero_le _, fun hlt => absurd hlt hpos⟩
  | round =>
    cases hreader : s.reader with
    | idle => simp [enabled, hreader] at hen
    | wait len got => simp [enabled, hreader] at hen
    | loop len got =>
      obtain ⟨s₁, hround, hflow, hput, -, hcase⟩ := h.round hreader
      have hmissing := h.missing len got (by rw [hreader]; rfl)
      have hs₁ : s.act .round = .ok s₁ := by simp only [act, hreader, hround]
      obtain rfl := Except.ok.inj (hact.symm.trans hs₁)
      cases hcase with
      | asleep _ _ _ hret' => exact absurd hret' hsame
      | more _ _ _ _ _ _ hret' => exact absurd hret' hsame
      | ended hleft hclosed hidle hret' =>
        obtain rfl := List.singleton_inj.mp (List.append_cancel_left (hret.symm.trans hret'))
        refine ⟨Nat.le_of_lt hmissing, fun _ => ⟨hclosed, ?_⟩⟩
        rw [hput, ← h.left_eq_nil.mp hleft]
        simp [RecvStream.delivered, hidle, hret', hreader, Reader.got]
      | enough n hn henough _ hret' =>
        obtain rfl := List.singleton_inj.mp (List.append_cancel_left (hret.symm.trans hret'))
        have hlen : (got ++ s.left.take n).length = len := by
          rw [List.length_append, List.length_take_of_le hn]
          exact henough
        exact ⟨Nat.le_of_eq hlen, fun hlt => absurd hlen (Nat.ne_of_lt hlt)⟩

/-- So does a call that begins now. -/
theorem returns_call (h : Flowing s) {len : Nat} (hidle : s.reader = .idle)
    (hready : s.ctx.recvZero = true ∨ len ≤ s.left.length) :
    ∃ n s', machine.runFrom (.ok s) (.call len :: List.replicate n .round) = some (.ok s') ∧
      Back s s' ⟨len, s.left.take len⟩ := by
  have hen : s.enabled (.call len) = true := by simp [enabled, hidle]
  obtain ⟨_, hact, hflow⟩ := h.step hen
  cases hact
  have hleft : (s.test len []).left = s.left := by
    rw [left, left, delivered_test, put_test, RecvStream.delivered, hidle]
    rfl
  have hret : (s.test len []).reader = .idle ∧ (s.test len []).returned =
      s.returned ++ [⟨len, []⟩] ∧ len = 0 ∨ (s.test len []).reader = .loop len [] ∧
        (s.test len []).returned = s.returned := by
    unfold RecvStream.test
    split
    · exact .inr ⟨rfl, rfl⟩
    · rename_i hpos
      exact .inl ⟨rfl, rfl, Nat.le_zero.mp (not_lt.mp hpos)⟩
  rcases hret with ⟨hreader, hret, rfl⟩ | ⟨hreader, hret⟩
  · exact ⟨0, _, checked_runFrom_of_act hen rfl rfl, hreader, put_test .., hret⟩
  · obtain ⟨n, s', hrun, hback⟩ := hflow.returns hreader (by rwa [ctx_test, hleft])
    refine ⟨n, s', checked_runFrom_of_act hen rfl hrun, hback.idle,
      hback.put.trans (put_test ..), ?_⟩
    rw [hback.returned, hret, hleft]
    rfl

end Flowing

/-! ## Every run -/

/-- **No loss at the end of the stream.** In every state of every run, what has been
delivered is a prefix of what was put, and no step faults. A call that returns with
less than it asked for does so on a closed stream and when everything that was put
has been delivered. A reader that sleeps has nothing to wake for. A call that is in
its loop, or begins now, gets the bytes that come next: as many as it asked for if so
many are left, and on a closed stream all that are left. -/
theorem recvProxyStream_lossless {es : List StreamEvent} {r : Res RecvStream}
    (hrun : machine.run es = some r) :
    ∃ s, r = .ok s ∧ s.delivered <+: s.put ∧
      (∀ e s' c, s.enabled e = true → s.act e = .ok s' → s'.returned = s.returned ++ [c] →
        c.bytes.length ≤ c.len ∧
          (c.bytes.length < c.len → s.ctx.recvZero = true ∧ s'.delivered = s'.put)) ∧
      (∀ len got, s.reader = .wait len got → s.ctx.recvZero = false ∧ s.delivered = s.put) ∧
      (∀ len got, s.reader = .loop len got →
        s.ctx.recvZero = true ∨ len - got.length ≤ s.left.length →
        ∃ n s', machine.runFrom r (List.replicate n .round) = some (.ok s') ∧
          Back s s' ⟨len, got ++ s.left.take (len - got.length)⟩) ∧
      ∀ len, s.reader = .idle → s.ctx.recvZero = true ∨ len ≤ s.left.length →
        ∃ n s', machine.runFrom r (.call len :: List.replicate n .round) = some (.ok s') ∧
          Back s s' ⟨len, s.left.take len⟩ := by
  obtain ⟨s, rfl, h⟩ := checked_run Flowing Flowing.start (fun s e hs hen => hs.step hen) hrun
  refine ⟨s, rfl, h.delivered_le, ?_, ?_, fun len got hreader hready => h.returns hreader hready,
    fun len hidle hready => h.returns_call hidle hready⟩
  · intro e s' c hen hact hret
    exact h.short hen hact hret
  · intro len got hreader
    obtain ⟨hready, hopen⟩ := h.asleep len got hreader
    exact ⟨hopen, h.delivered_eq hready⟩

/-- A call that slept until the first put; the second one is in the middle of a chunk when
the stream is closed, and still gets the last byte. -/
theorem recvProxyStream_lossless_tail :
    ∃ s, machine.run [.call 2, .round, .put [5, 6, 7] 3, .round, .put [8, 9] 1, .call 3, .round,
        .close] = some (.ok s) ∧ s.delivered <+: s.put ∧ s.put = [5, 6, 7, 8] ∧
      ∃ n s', machine.runFrom (.ok s) (List.replicate n .round) = some (.ok s') ∧
        Back s s' ⟨3, [7, 8]⟩ := by
  obtain ⟨r, hr⟩ := Option.isSome_iff_exists.mp (show (machine.run [.call 2, .round,
    .put [5, 6, 7] 3, .round, .put [8, 9] 1, .call 3, .round, .close]).isSome = true by decide)
  obtain ⟨s, rfl, hpre, -, -, hloop, -⟩ := recvProxyStream_lossless hr
  have hs : s.put = [5, 6, 7, 8] ∧ s.reader = .loop 3 [7] ∧ s.left = [8] ∧
      s.ctx.recvZero = true := by
    cases hr
    decide
  obtain ⟨hput, hreader, hleft, hclosed⟩ := hs
  refine ⟨s, hr, hpre, hput, ?_⟩
  have hback := hloop 3 [7] hreader (.inl hclosed)
  rwa [hleft] at hback

end RecvStream

end ZktlsNet
