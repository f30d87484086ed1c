import ZktlsNet.Ws.Stream

/-!
# A reliable connection

The stream of a statement about two parties whose connection does not fail: what
one end writes waits until it is carried over, in order, and a read takes from
what has been carried over.
-/

namespace ZktlsNet

open NetLib

/-- One end of a reliable connection: the bytes written, how many of them the other
end has got, and the bytes that have come in. -/
structure Link where
  sent : Bytes
  delivered : Nat
  incoming : Bytes
  deriving DecidableEq, Repr

namespace Link

def send (s : Link) (bs : Bytes) : Int × Link := (bs.length, { s with sent := s.sent ++ bs })

def recv (s : Link) (n : Nat) : Bytes × Link :=
  (s.incoming.take n, { s with incoming := s.incoming.drop n })

instance : ChannelStream Link where
  connectionType _ := .clientToPado
  send := send
  sendEx := send
  recv s n := (some (s.recv n).1, (s.recv n).2)
  recvEx := recv

theorem duplexLaws : DuplexLaws (fun _ : Link => True) Link.sent where
  sendEx_fst _ _ _ := rfl
  sent_sendEx _ _ _ := rfl
  ok_sendEx _ _ _ := trivial
  ok_recvEx _ _ _ := trivial
  sent_recvEx _ _ := rfl

/-- Reads take what has come in. -/
theorem recvLaws : RecvLaws Link.incoming where
  recvEx_fst _ _ := rfl
  pending_recvEx _ _ := rfl

end Link

end ZktlsNet
