import ZktlsNet.Ws.Channel
import ZktlsNet.Ws.Link
import ZktlsNet.Ws.Simulation

/-!
# A reliable connection whose reads wait

A read from a connection that does not fail returns when all it asked for has come
in, and until then it waits. `BlockingLink` notes when a read asked for more, so a
call of the receiving side has returned only if none of its reads did.

- `recvFrame_waits`: a whole frame is read, and a frame that is not there yet is
  waited for.
- `recvMessageLoop_waits`: what a call does on the frames of a native sender, of which
  a part may have come in.
-/

namespace ZktlsNet

open NetLib

/-- One end of a reliable connection; `starved` says that a read asked for bytes that
have not come in. -/
structure BlockingLink extends Link where
  starved : Bool
  deriving DecidableEq, Repr

namespace BlockingLink

def send (s : BlockingLink) (bs : Bytes) : Int × BlockingLink :=
  (bs.length, { s with sent := s.sent ++ bs })

def recv (s : BlockingLink) (n : Nat) : Bytes × BlockingLink :=
  (s.incoming.take n, { s with
    incoming := s.incoming.drop n
    starved := s.starved || decide (s.incoming.length < n) })

instance : ChannelStream BlockingLink where
  connectionType _ := .clientToPado
  send := send
  sendEx := send
  recv s n := (some (s.recv n).1, (s.recv n).2)
  recvEx := recv

theorem duplexLaws : DuplexLaws (fun _ : BlockingLink => True) fun s => s.sent where
  sendEx_fst _ _ _ := rfl
  sent_sendEx _ _ _ := rfl
  ok_sendEx _ _ _ := trivial
  ok_recvEx _ _ _ := trivial
  sent_recvEx _ _ := rfl

theorem recvLaws : RecvLaws fun s : BlockingLink => s.incoming where
  recvEx_fst _ _ := rfl
  pending_recvEx _ _ := rfl

/-- A link that starved stays so. -/
theorem starved_recvEx (s : BlockingLink) (n : Nat) (h : s.starved = true) :
    (ChannelStream.recvEx s n).2.starved = true := by
  show (s.starved || _) = true
  rw [h, Bool.true_or]

/-- A link with what is behind the bytes that have come in agrees with it until it starves. -/
theorem readsAgree_behind (behind : Bytes) :
    ReadsAgree (fun s t : BlockingLink => s.starved = false ∧ t.starved = false ∧
      t.incoming = s.incoming ++ behind) fun s => s.starved = true where
  recvEx := by
    rintro s t n ⟨hs, ht, hin⟩
    by_cases hn : n ≤ s.incoming.length
    · right
      have hlt : ¬ s.incoming.length < n := by omega
      have hlt' : ¬ (s.incoming ++ behind).length < n := by
        rw [List.length_append]
        omega
      refine ⟨?_, ?_, ?_, ?_⟩
      · show s.incoming.take n = t.incoming.take n
        rw [hin, List.take_append_of_le_length hn]
      · show (s.starved || decide (s.incoming.length < n)) = false
        rw [hs, decide_eq_false hlt, Bool.false_or]
      · show (t.starved || decide (t.incoming.length < n)) = false
        rw [ht, hin, decide_eq_false hlt', Bool.false_or]
      · show t.incoming.drop n = s.incoming.drop n ++ behind
        rw [hin, List.drop_append_of_le_length hn]
    · left
      show (s.starved || decide (s.incoming.length < n)) = true
      rw [decide_eq_true (by omega), Bool.or_true]
  dead_recvEx := starved_recvEx
  connectionType _ _ _ := rfl

/-- A link with one more byte agrees with it until that byte is read. -/
theorem readsAgree_more (more : UInt8) :
    ReadsAgree (fun t s : BlockingLink => s.starved = false ∧ t.incoming = s.incoming ++ [more])
      fun t => t.incoming = [] where
  recvEx := by
    rintro t s n ⟨hs, hin⟩
    by_cases hn : n ≤ s.incoming.length
    · right
      have hlt : ¬ s.incoming.length < n := by omega
      refine ⟨?_, ?_, ?_⟩
      · show t.incoming.take n = s.incoming.take n
        rw [hin, List.take_append_of_le_length hn]
      · show (s.starved || decide (s.incoming.length < n)) = false
        rw [hs, decide_eq_false hlt, Bool.false_or]
      · show t.incoming.drop n = s.incoming.drop n ++ [more]
        rw [hin, List.drop_append_of_le_length hn]
    · left
      show t.incoming.drop n = []
      refine List.drop_of_length_le ?_
      rw [hin, List.length_append, List.length_singleton]
      omega
  dead_recvEx s n h := by
    show s.incoming.drop n = []
    rw [h, List.drop_nil]
  connectionType _ _ _ := rfl

end BlockingLink

/-! ## One frame -/

/-- A frame that has come in is read without waiting. -/
theorem recvFrame_whole {s : BlockingLink} {f : Frame} {rest : Bytes} (hs : s.starved = false)
    (hin : s.incoming = f.encode ++ rest) :
    ∃ s', recvFrame s = (.ok ⟨f.payload⟩, s') ∧ s'.incoming = rest ∧ s'.starved = false := by
  -- with one more byte behind it, that byte is left
  obtain ⟨t', hread, hrest⟩ := recvFrame_spec BlockingLink.recvLaws
    (show ({ s with incoming := s.incoming ++ [0] } : BlockingLink).incoming =
      f.encode ++ (rest ++ [0]) by rw [hin, List.append_assoc])
  have hagree := (BlockingLink.readsAgree_more 0).frame
    (s := { s with incoming := s.incoming ++ [0] }) ⟨hs, rfl⟩
  rw [hread] at hagree
  rcases hagree with hnil | ⟨heq, hstarved, hmore⟩
  · rw [hrest] at hnil
    simp at hnil
  · refine ⟨(recvFrame s).2, Prod.ext heq.symm rfl, ?_, hstarved⟩
    rw [hrest] at hmore
    exact (List.append_cancel_right hmore).symm

/-- **A frame** of which a part may have come in is read, or waited for. -/
theorem recvFrame_waits {s : BlockingLink} {f : Frame} {rest behind : Bytes}
    (hs : s.starved = false) (hin : s.incoming ++ behind = f.encode ++ rest) :
    (recvFrame s).2.starved = true ∧ behind ≠ [] ∨
      ∃ s', recvFrame s = (.ok ⟨f.payload⟩, s') ∧ s'.incoming ++ behind = rest ∧
        s'.starved = false := by
  obtain ⟨t', hread, hrest, -⟩ := recvFrame_whole (s := { s with incoming := s.incoming ++ behind })
    hs hin
  have hagree := (BlockingLink.readsAgree_behind behind).frame (s := s)
    (t := { s with incoming := s.incoming ++ behind }) ⟨hs, hs, rfl⟩
  rw [hread] at hagree
  rcases hagree with hstarved | ⟨heq, hs', -, hbehind⟩
  · left
    refine ⟨hstarved, ?_⟩
    rintro rfl
    obtain ⟨s', hwhole, -, hnot⟩ := recvFrame_whole hs (by rwa [List.append_nil] at hin)
    rw [hwhole] at hstarved
    rw [hnot] at hstarved
    cases hstarved
  · right
    exact ⟨(recvFrame s).2, Prod.ext heq rfl, by rw [← hbehind, hrest], hs'⟩

/-- Without a byte the header is waited for. -/
theorem recvFrame_starved {s : BlockingLink} (hin : s.incoming = []) :
    (recvFrame s).2.starved = true := by
  -- the first read asks for two bytes
  have hheader : (recvMessageHeader s).1 = .error (ChannelStream.throwConnectionError
      (ChannelStream.recvEx s 2).2 "recv websocket header error") ∧
      (recvMessageHeader s).2 = (ChannelStream.recvEx s 2).2 := by
    have hdata : (ChannelStream.recvEx s 2).1 = [] := by
      show s.incoming.take 2 = []
      rw [hin, List.take_nil]
    unfold recvMessageHeader
    generalize ChannelStream.recvEx s 2 = read at hdata ⊢
    obtain ⟨data, s₁⟩ := read
    obtain rfl : data = [] := hdata
    exact ⟨rfl, rfl⟩
  have hstarved : (ChannelStream.recvEx s 2).2.starved = true := by
    show (s.starved || decide (s.incoming.length < 2)) = true
    rw [hin, decide_eq_true (by decide), Bool.or_true]
  unfold recvFrame recvPayload
  generalize recvMessageHeader s = read at hheader ⊢
  obtain ⟨res, s₁⟩ := read
  obtain ⟨hres, hs₁⟩ := hheader
  simp only at hres hs₁
  subst hres hs₁
  exact hstarved

/-! ## One call -/

namespace Reading

variable {ctx : RecvCtx} {next : Nat} {left : Bytes}

/-- A copy of no bytes says whether the cursor is in a chunk. -/
theorem drain_nothing (h : Reading ctx next left) :
    ∃ ctx', drainRecvCtx ctx 0 [] = .ok ([], decide (0 < left.length), ctx') ∧
      Reading ctx' next left := by
  rcases h.current with ⟨hlist, -, hleft⟩ | ⟨c, hlist, hnext, hvalid, hleft⟩
  · have hinvalid : (ctx.info.getD RecvInfo.fresh).valid = false := by
      by_contra hv
      obtain ⟨c, tl, hc, -⟩ := h.cursor.valid (by simpa using hv)
      rw [hlist] at hc
      cases hc
    refine ⟨ctx, ?_, h⟩
    unfold drainRecvCtx
    cases hinfo : ctx.info with
    | none => simp [hleft]
    | some info =>
      rw [hinfo, Option.getD_some] at hinvalid
      simp [hinvalid, hleft]
  · obtain ⟨info, hinfo, hv⟩ := info_of_valid hvalid
    have hprev : info.prevId = ctx.prevId := by
      rw [← RecvQueue.prevId_eq, hinfo, Option.getD_some]
    have hcur := h.cursor
    have hok := h.listOk
    rw [hinfo, Option.getD_some] at hcur hleft
    rw [← hprev] at hok hnext
    obtain ⟨b, tl, hl, -, -, hoff, hcase⟩ := recvFromRecvCtx_ok hinfo hv hok hcur 0
    rw [hlist] at hl
    obtain ⟨rfl, rfl⟩ := List.cons.inj hl
    have hpos : 0 < left.length := by
      rw [hleft, List.length_drop]
      omega
    rcases hcase with ⟨-, hrecv, hcur'⟩ | ⟨hfit, -⟩
    · refine ⟨{ ctx with info := some { info with offset := info.offset + 0 } }, ?_, h.notChunk,
        hok, hcur', .inr ⟨c, hlist, hnext, hv, hleft⟩⟩
      have hslice : slice c.payload info.offset 0 = [] := List.take_zero
      simp [drainRecvCtx, hinfo, hv, hrecv, hslice, hpos]
    · omega

/-- Copying ends the call when it has its bytes, and a call for none when there is one. -/
theorem drain_step (h : Reading ctx next left) {len : Nat} {got : Bytes}
    (hgot : got.length < max len 1) :
    ∃ ctx', drainRecvCtx ctx len got = .ok (got ++ left.take (len - got.length),
        decide (max len 1 ≤ got.length + left.length), ctx') ∧
      Reading ctx' next (left.drop (len - got.length)) := by
  cases len with
  | zero =>
    obtain rfl : got = [] := List.length_eq_zero_iff.mp (by omega)
    obtain ⟨ctx', hdrain, hread⟩ := h.drain_nothing
    refine ⟨ctx', ?_, hread⟩
    have hone : (max 0 1 ≤ ([] : Bytes).length + left.length) = (0 < left.length) :=
      propext (by rw [List.length_nil]; omega)
    simp only [hdrain, hone]
    rfl
  | succ len =>
    obtain ⟨ctx', hdrain, hread⟩ := h.drain (show got.length < len + 1 by omega)
    refine ⟨ctx', ?_, hread⟩
    have henough : (max (len + 1) 1 ≤ got.length + left.length) =
        (len + 1 - got.length ≤ left.length) := propext (by omega)
    simp only [hdrain, henough]

end Reading

/-- The chunk after id `n`. -/
theorem chunkFrames_cons {n : Nat} (hn : n + 1 < 2 ^ 64) (p : Bytes) (ps : List Bytes) :
    chunkFrames n (p :: ps) = chunkFrame (n + 1) p :: chunkFrames (n + 1) ps := by
  rw [chunkFrames, Nat.mod_eq_of_lt hn]

/-- Without the bytes it needs a call goes on waiting. -/
theorem recvMessageLoop_starved {len fuel : Nat} {got : Bytes} {ctx : RecvCtx} {s : BlockingLink}
    (hs : s.starved = true) : (recvMessageLoop len fuel got ctx s).2.2.starved = true := by
  induction fuel generalizing got ctx s with
  | zero => exact hs
  | succ fuel ih =>
    have hframe := recvFrame_keeps BlockingLink.starved_recvEx hs
    unfold recvMessageLoop
    split
    · exact hs
    · exact hs
    · generalize recvFrame s = read at hframe ⊢
      obtain ⟨_ | chunk, s₁⟩ := read
      · exact hframe
      · simp only
        split
        · exact hframe
        · exact ih hframe

/-- How a call for `len` bytes ends that has copied `got`, where `left` is left of the
chunk that is being read, and the chunks with the payloads `qs` follow under the ids after
`n`: all of their frames but `behind` have come in. It waits only if its bytes have not
come in; a call for no bytes waits for one. -/
inductive CallEnds (len fuel n : Nat) (got left : Bytes) (qs : List Bytes) (behind : Bytes) :
    Res Bytes × RecvCtx × BlockingLink → Prop
  | waits {res : Res Bytes} {ctx : RecvCtx} {s : BlockingLink} (hstarved : s.starved = true)
    (hshort : behind = [] → got.length + left.length + qs.flatten.length < max len 1) :
    CallEnds len fuel n got left qs behind (res, ctx, s)
  | outOfFuel {ctx : RecvCtx} {s : BlockingLink} (hfuel : fuel ≤ qs.length) :
    CallEnds len fuel n got left qs behind (.error .outOfFuel, ctx, s)
  | returns {ctx : RecvCtx} {s : BlockingLink} (read rest : List Bytes) (hqs : qs = read ++ rest)
    (henough : max len 1 ≤ got.length + left.length + read.flatten.length)
    (hread : Reading ctx (n + read.length + 1)
      ((left ++ read.flatten).drop (len - got.length)))
    (hin : s.incoming ++ behind = (chunkFrames (n + read.length) rest).flatten)
    (hs : s.starved = false) :
    CallEnds len fuel n got left qs behind
      (.ok (got ++ (left ++ read.flatten).take (len - got.length)), ctx, s)

/-- A call that takes the next chunk ends as it does from there. -/
theorem CallEnds.next {len fuel n : Nat} {got left q : Bytes} {qs : List Bytes} {behind : Bytes}
    {r : Res Bytes × RecvCtx × BlockingLink} (hleft : ¬ max len 1 ≤ got.length + left.length)
    (h : CallEnds len fuel (n + 1) (got ++ left) q qs behind r) :
    CallEnds len (fuel + 1) n got left (q :: qs) behind r := by
  have hgot : (got ++ left).length = got.length + left.length := List.length_append
  cases h with
  | waits hstarved hshort =>
    refine .waits hstarved fun hnil => ?_
    have hlt := hshort hnil
    rw [List.flatten_cons, List.length_append]
    omega
  | outOfFuel hfuel =>
    refine .outOfFuel ?_
    rw [List.length_cons]
    omega
  | returns read rest hqs henough hread hin hs =>
    have htake : (left ++ (q :: read).flatten).take (len - got.length) =
        left ++ (q ++ read.flatten).take (len - (got ++ left).length) := by
      rw [List.flatten_cons, List.take_append, List.take_of_length_le (by omega), hgot,
        Nat.sub_add_eq]
    have hdrop : (left ++ (q :: read).flatten).drop (len - got.length) =
        (q ++ read.flatten).drop (len - (got ++ left).length) := by
      rw [List.flatten_cons, List.drop_append, List.drop_of_length_le (by omega), List.nil_append,
        hgot, Nat.sub_add_eq]
    have hids : n + (q :: read).length = n + 1 + read.length := by
      rw [List.length_cons]
      omega
    rw [List.append_assoc, ← htake]
    refine .returns (q :: read) rest (by rw [hqs, List.cons_append]) ?_ ?_ ?_ hs
    · rw [List.flatten_cons, List.length_append]
      omega
    · rw [hdrop, hids]
      exact hread
    · rw [hids]
      exact hin

/-- **One call** on the frames of a native sender. -/
theorem recvMessageLoop_waits {len fuel : Nat} {behind : Bytes} :
    ∀ {n : Nat} {qs : List Bytes} {left got : Bytes} {ctx : RecvCtx} {s : BlockingLink},
      Reading ctx (n + 1) left → s.starved = false →
      s.incoming ++ behind = (chunkFrames n qs).flatten →
      (∀ q ∈ qs, q ≠ [] ∧ q.length + headSize < 2 ^ 63) → n + qs.length < 2 ^ 64 →
      got.length < max len 1 →
      CallEnds len fuel n got left qs behind (recvMessageLoop len fuel got ctx s) := by
  induction fuel with
  | zero =>
    intro n qs left got ctx s _ _ _ _ _ _
    exact .outOfFuel (Nat.zero_le _)
  | succ fuel ih =>
    intro n qs left got ctx s hread hs hin hqs hids hgot
    obtain ⟨ctx₁, hdrain, hread₁⟩ := hread.drain_step hgot
    by_cases hfull : max len 1 ≤ got.length + left.length
    · -- what is left is enough
      rw [recvMessageLoop, hdrain, decide_eq_true hfull]
      have hends : CallEnds len (fuel + 1) n got left qs behind
          (.ok (got ++ (left ++ List.flatten []).take (len - got.length)), _, s) :=
        .returns [] qs rfl (by simpa using hfull) (by simpa using hread₁) hin hs
      simpa using hends
    · have htake : left.take (len - got.length) = left := List.take_of_length_le (by omega)
      have hdrop : left.drop (len - got.length) = [] := List.drop_of_length_le (by omega)
      rw [htake] at hdrain
      rw [hdrop] at hread₁
      -- a frame that has not come in is waited for
      have hwait : (recvFrame s).2.starved = true →
          (behind = [] → got.length + left.length + qs.flatten.length < max len 1) →
          CallEnds len (fuel + 1) n got left qs behind
            (recvMessageLoop len (fuel + 1) got ctx s) := by
        intro hstarved hshort
        rw [recvMessageLoop, hdrain, decide_eq_false hfull]
        generalize recvFrame s = read at hstarved ⊢
        obtain ⟨res, s₁⟩ := read
        cases res with
        | error e => exact .waits hstarved hshort
        | ok chunk =>
          simp only
          cases putToRecvCtx ctx₁ chunk with
          | error e => exact .waits hstarved hshort
          | ok ctx₂ => exact .waits (recvMessageLoop_starved hstarved) hshort
      cases qs with
      | nil =>
        have hnil : s.incoming = [] := (List.append_eq_nil_iff.mp hin).1
        exact hwait (recvFrame_starved hnil) fun _ => by
          rw [List.flatten_nil, List.length_nil]
          omega
      | cons q qs =>
        obtain ⟨hne, hlen⟩ := hqs q (List.mem_cons_self ..)
        rw [List.length_cons] at hids
        have hfits : (RecvBuffer.build (n + 1) q.length q).data.length < 2 ^ 63 := by
          have hsize : headSize = 30 := rfl
          rw [RecvBuffer.data_build_length]
          omega
        rw [chunkFrames_cons (by omega), List.flatten_cons, chunkFrame_eq hfits] at hin
        rcases recvFrame_waits hs hin with ⟨hstarved, hbehind⟩ | ⟨s₁, hframe, hin₁, hs₁⟩
        · exact hwait hstarved fun hnil => absurd hnil hbehind
        · obtain ⟨ctx₂, hput, hread₂⟩ := hread₁.put (c := .build (n + 1) q.length q)
            (RecvBuffer.framed_build (by omega)) (by rwa [RecvBuffer.payload_build])
            (RecvBuffer.id_build (by omega) _ _)
          rw [RecvBuffer.payload_build] at hread₂
          have hrest := ih hread₂ hs₁ hin₁ (fun p hp => hqs p (List.mem_cons_of_mem _ hp))
            (by omega) (show (got ++ left).length < max len 1 by rw [List.length_append]; omega)
          have hloop : recvMessageLoop len (fuel + 1) got ctx s =
              recvMessageLoop len fuel (got ++ left) ctx₂ s₁ := by
            rw [recvMessageLoop, hdrain, decide_eq_false hfull, hframe]
            simp only [hput]
          rw [hloop]
          exact hrest.next hfull

end ZktlsNet
