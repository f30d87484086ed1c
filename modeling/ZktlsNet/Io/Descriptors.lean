import ZktlsNet.Lib.Ledger
import ZktlsNet.Lib.Machine
import ZktlsNet.Ws.Url

/-!
# Who closes which descriptor (`websocket_io_channel.cpp:8-145`, `proxy_client.cpp:433-468`)

A `WebSocketIO` keeps its descriptor in a `TCPSocket`, whose destructor closes it; a proxy has
it closed by its stream in `~ProxyClientCtx`; listening sockets stay in `listen_ports`. But a
handshake that fails closes the descriptor through the stream as well. The destructor then
closes the number a second time, whatever it stands for by then.

- `advance`: the constructors, `Init` and the destructors, one system call a step.
- `ledger`: who is to close what.
- `Inv`: the ledger is balanced, what is open has an owner, and an owner whose descriptor is
  not open has lost it to a `close` of another.
- `descriptors_owned`: so it is in every run; and every `close` hits the socket it is meant
  for exactly when none is the second of a channel.
-/

namespace ZktlsNet

open NetLib

/-! ## Channels and the table of descriptors -/

/-- A number in the table of the process, and which of all sockets it stands for. -/
structure Descriptor where
  fd : Nat
  socket : Nat
  deriving DecidableEq, Repr

/-- A `WebSocketIO` made with a port or with a URL, or a `PlainWebSocketProxy`. -/
inductive ChannelKind
  | server (port : Int)
  | client (protocol : ProtocolType)
  | proxy (protocol : ProtocolType)
  deriving DecidableEq, Repr

/-- The stream is a `SocketStream`, whose `Close` closes the descriptor; the one of an
`SSLStream` does not. -/
def ChannelKind.plain : ChannelKind → Bool
  | server _ => true
  | client protocol | proxy protocol => protocol = .ws

/-- Where the constructor and `Init` of a channel stand. -/
inductive ChannelPc
  /-- before the port is checked, or the URL parsed -/
  | started
  /-- in front of `listen_mutex` -/
  | locking (port : Int)
  /-- with `listen_mutex`, and no socket in `listen_ports` -/
  | creating (port : Int)
  | binding (port : Int) (mysocket : Descriptor)
  | listening (port : Int) (mysocket : Descriptor)
  | accepting (listenSocket : Descriptor)
  /-- in the loop in front of `socket`, and behind it, which may have returned `-1` -/
  | retrying
  | dialing (socket : Option Descriptor)
  | connected (d : Descriptor)
  | handshaking (d : Descriptor)
  /-- `Init` is over, and the stream may have closed the descriptor -/
  | inited (d : Descriptor) (closed : Bool)
  /-- `Init` has thrown before there was a stream -/
  | streamless (d : Option Descriptor)
  | gone
  deriving DecidableEq, Repr

structure Channel where
  kind : ChannelKind
  pc : ChannelPc
  deriving DecidableEq, Repr

/-- A `close` of `own`, which may have been closed before, and what had its number. -/
structure CloseRecord where
  own : Descriptor
  again : Bool
  hit : Option Descriptor
  deriving DecidableEq, Repr

/-- The table of descriptors of a process, `listen_ports` and the channels; all sockets that
were made, those that no destructor closes with the channels that had them, and the calls of
`close`. -/
structure Descriptors where
  table : List Descriptor := []
  listenPorts : List (Int × Descriptor) := []
  listenMutex : Option Nat := none
  channels : List Channel := []
  made : List Descriptor := []
  lost : List (Nat × Descriptor) := []
  closes : List CloseRecord := []
  deriving DecidableEq, Repr

/-- What a call returns, or that a destructor is called. -/
inductive ChannelCall
  | check (ok : Bool)
  | lock
  | socket (fd : Option Nat)
  | bind (ok : Bool)
  | listen (ok : Bool)
  | accept (fd : Option Nat)
  | connect (ok : Bool)
  | makeStream (ok : Bool)
  | handshake (ok : Bool)
  | destroy
  deriving DecidableEq, Repr

inductive DescriptorEvent
  | construct (kind : ChannelKind)
  | call (i : Nat) (c : ChannelCall)
  deriving DecidableEq, Repr

namespace Descriptors

def setPc (s : Descriptors) (i : Nat) (kind : ChannelKind) (pc : ChannelPc) : Descriptors :=
  { s with channels := s.channels.set i ⟨kind, pc⟩ }

def unlock (s : Descriptors) : Descriptors := { s with listenMutex := none }

/-- A number that a new socket can be given. -/
def free (s : Descriptors) (fd : Nat) : Bool := fd ∉ s.table.map Descriptor.fd

/-- The next socket, under a number. -/
def fresh (s : Descriptors) (fd : Nat) : Descriptor := ⟨fd, s.made.length⟩

def opened (s : Descriptors) (fd : Nat) : Descriptors :=
  { s with table := s.table ++ [s.fresh fd], made := s.made ++ [s.fresh fd] }

/-- `close`: the number is free again, whatever it stood for. -/
def close (s : Descriptors) (d : Descriptor) (again : Bool) : Descriptors :=
  { s with
    table := s.table.filter (·.fd ≠ d.fd)
    closes := s.closes ++ [⟨d, again, s.table.find? (·.fd = d.fd)⟩] }

def register (s : Descriptors) (port : Int) (d : Descriptor) : Descriptors :=
  { s with listenPorts := s.listenPorts ++ [(port, d)] }

/-- There is nothing any more that would close the descriptor of the channel. -/
def lose (s : Descriptors) (i : Nat) (d : Descriptor) : Descriptors :=
  { s with lost := s.lost ++ [(i, d)] }

/-- The test of the port, and what becomes of an exception of `parse_url`: it leaves a
constructor, but only the `Init` of a proxy. -/
def afterCheck (ok : Bool) : ChannelKind → ChannelPc
  | .server port => if 0 ≤ port ∧ port ≤ 65535 then .locking port else .gone
  | .client _ => if ok then .retrying else .gone
  | .proxy _ => if ok then .retrying else .streamless none

/-- The next step of a channel. A destructor uses the stream, also when there is none. -/
def advance (s : Descriptors) (i : Nat) (kind : ChannelKind) :
    ChannelPc → ChannelCall → Option (Res Descriptors)
  | .started, .check ok => some (.ok (s.setPc i kind (afterCheck ok kind)))
  | .locking port, .lock =>
    if s.listenMutex.isSome then none
    else match s.listenPorts.find? (·.1 = port) with
      | some (_, d) => some (.ok (s.setPc i kind (.accepting d)))
      | none => some (.ok ({ s with listenMutex := some i }.setPc i kind (.creating port)))
  | .creating _, .socket none => some (.ok (s.unlock.setPc i kind .gone))
  | .creating port, .socket (some fd) =>
    if s.free fd then some (.ok ((s.opened fd).setPc i kind (.binding port (s.fresh fd)))) else none
  | .binding port d, .bind ok =>
    if ok then some (.ok (s.setPc i kind (.listening port d)))
    else some (.ok ((s.close d false).unlock.setPc i kind .gone))
  | .listening port d, .listen ok =>
    if ok then some (.ok ((s.register port d).unlock.setPc i kind (.accepting d)))
    else some (.ok ((s.close d false).unlock.setPc i kind .gone))
  | .accepting _, .accept none => some (.ok (s.setPc i kind .gone))
  | .accepting _, .accept (some fd) =>
    if s.free fd then some (.ok ((s.opened fd).setPc i kind (.connected (s.fresh fd)))) else none
  | .retrying, .socket none => some (.ok (s.setPc i kind (.dialing none)))
  | .retrying, .socket (some fd) =>
    if s.free fd then some (.ok ((s.opened fd).setPc i kind (.dialing (some (s.fresh fd)))))
    else none
  | .dialing none, .connect ok => if ok then none else some (.ok (s.setPc i kind .retrying))
  | .dialing (some d), .connect ok =>
    if ok then some (.ok (s.setPc i kind (.connected d)))
    else some (.ok ((s.close d false).setPc i kind .retrying))
  | .connected d, .makeStream ok =>
    if ok then some (.ok (s.setPc i kind (.handshaking d)))
    else match kind with
      | .client .wss => some (.ok (s.setPc i kind (.streamless (some d))))
      | .proxy .wss => some (.ok ((s.lose i d).setPc i kind (.streamless none)))
      | _ => none
  | .handshaking d, .handshake ok =>
    if !ok && kind.plain then some (.ok ((s.close d false).setPc i kind (.inited d true)))
    else some (.ok (s.setPc i kind (.inited d false)))
  | .inited d closed, .destroy =>
    if kind = .proxy .wss then some (.ok ((if closed then s else s.lose i d).setPc i kind .gone))
    else some (.ok ((s.close d closed).setPc i kind .gone))
  | .streamless _, .destroy => some (.error (.fault .nullPointer))
  | .started, .destroy =>
    match kind with
    | .proxy _ => some (.error (.fault .nullPointer))
    | _ => none
  | .connected _, .destroy =>
    match kind with
    | .proxy _ => none
    | _ => some (.error (.fault .nullPointer))
  | _, _ => none

def step (s : Descriptors) : DescriptorEvent → Option (Res Descriptors)
  | .construct kind => some (.ok { s with channels := s.channels ++ [⟨kind, .started⟩] })
  | .call i c => s.channels[i]?.bind fun channel => s.advance i channel.kind channel.pc c

end Descriptors

/-- The channels of a process under any interleaving. -/
def descriptorMachine : Machine (Res Descriptors) DescriptorEvent :=
  fallible {} Descriptors.step

/-! ## Owners -/

/-- What a channel is to close: nothing more once its stream has. -/
def ChannelPc.owns : ChannelPc → List Descriptor
  | .binding _ d | .listening _ d | .dialing (some d) | .connected d | .handshaking d
  | .inited d false | .streamless (some d) => [d]
  | _ => []

/-- The port that a constructor with `listen_mutex` is to listen on. -/
def ChannelPc.port : ChannelPc → Option Int
  | .creating port | .binding port _ | .listening port _ => some port
  | _ => none

/-- The channel has a stream, which its destructor uses. -/
def ChannelPc.hasStream : ChannelPc → Bool
  | .handshaking _ | .inited .. => true
  | _ => false

/-- There is nothing to say of where the channel stands. -/
def ChannelPc.silent : ChannelPc → Bool
  | .creating _ | .binding .. | .listening .. | .accepting _ | .inited _ true => false
  | _ => true

namespace Descriptors

/-- What `listen_ports` and the channels have, and what nobody closes. -/
def owned (s : Descriptors) : List Descriptor :=
  s.listenPorts.map Prod.snd ++ (s.lost.map Prod.snd ++ s.channels.flatMap fun c => c.pc.owns)

/-- **How it should be**, as far as it is in every run, and all of it as long as no channel
has closed its descriptor twice. -/
structure WellOwned (s : Descriptors) : Prop where
  once : s.owned.Nodup
  open_owned : ∀ d ∈ s.table, d ∈ s.owned
  taken : ∀ d ∈ s.owned, d ∉ s.table → ∃ c ∈ s.closes, c.hit = some d ∧ c.own ≠ d
  ports : (s.listenPorts.map Prod.fst).Nodup
  accepting : ∀ c ∈ s.channels, ∀ l, c.pc = .accepting l → l ∈ s.listenPorts.map Prod.snd
  lost : ∀ entry ∈ s.lost, ∃ c, s.channels[entry.1]? = some c ∧ c.kind = .proxy .wss
  closes : (∀ c ∈ s.closes, c.hit = some c.own) ↔ ∀ c ∈ s.closes, c.again = false
  calm : (∀ c ∈ s.closes, c.again = false) → s.table.Perm s.owned
  gone : (∀ c ∈ s.closes, c.again = false) → (∀ c ∈ s.channels, c.pc = .gone) →
    s.table.Perm (s.listenPorts.map Prod.snd ++ s.lost.map Prod.snd)

/-- The listening sockets, what nobody closes, and the channels, as owners. -/
def ledger (s : Descriptors) : Ledger Descriptor where
  holders := some (s.listenPorts.map Prod.snd) :: some (s.lost.map Prod.snd) ::
    s.channels.map fun c => some c.pc.owns
  released := (s.closes.filter fun c => !c.again).map CloseRecord.own
  acquired := s.made

/-- What holds of where a channel stands. -/
structure PcOk (s : Descriptors) (i : Nat) (pc : ChannelPc) : Prop where
  locked : ∀ port, pc.port = some port →
    s.listenMutex = some i ∧ port ∉ s.listenPorts.map Prod.fst
  accepting : ∀ l, pc = .accepting l → l ∈ s.listenPorts.map Prod.snd
  closed : ∀ d, pc = .inited d true → d ∈ s.ledger.released

/-- **The invariant.** -/
structure Inv (s : Descriptors) : Prop where
  balanced : s.ledger.Balanced
  sockets : ∀ d ∈ s.made, d.socket < s.made.length
  fds : (s.table.map Descriptor.fd).Nodup
  open_owned : ∀ d ∈ s.table, d ∈ s.ledger.held
  taken : ∀ d ∈ s.ledger.held, d ∈ s.table ∨ ∃ c ∈ s.closes, c.hit = some d ∧ c.own ≠ d
  ports : (s.listenPorts.map Prod.fst).Nodup
  pcs : ∀ (i : Nat) c, s.channels[i]? = some c → s.PcOk i c.pc
  lost : ∀ entry ∈ s.lost, (s.channels.map Channel.kind)[entry.1]? = some (.proxy .wss)
  again : ∀ c ∈ s.closes, c.again = true → c.hit ≠ some c.own
  calm : (∀ c ∈ s.closes, c.again = false) → ∀ c ∈ s.closes, c.hit = some c.own

theorem held_ledger (s : Descriptors) : s.ledger.held = s.owned := by
  simp only [Ledger.held, ledger, owned, List.flatMap_cons, Option.getD_some, List.flatMap_map]

/-- In a table a number stands for one socket. -/
theorem find?_fd {table : List Descriptor} (h : (table.map Descriptor.fd).Nodup) {d : Descriptor}
    (hd : d ∈ table) : table.find? (·.fd = d.fd) = some d := by
  induction table with
  | nil => cases hd
  | cons x xs ih =>
    rw [List.map_cons, List.nodup_cons] at h
    rw [List.find?_cons]
    by_cases heq : x.fd = d.fd
    · rcases List.mem_cons.mp hd with rfl | hd
      · simp
      · exact absurd (List.mem_map.mpr ⟨d, hd, heq.symm⟩) h.1
    · rcases List.mem_cons.mp hd with rfl | hd
      · exact absurd rfl heq
      · simpa [heq] using ih h.2 hd

namespace Inv

variable {s : Descriptors}

/-- As long as no channel has closed its descriptor twice, what is owned is open. -/
theorem perm_owned (h : Inv s) (hcalm : ∀ c ∈ s.closes, c.again = false) :
    s.table.Perm s.owned := by
  have hsub : ∀ d ∈ s.ledger.held, d ∈ s.table := by
    intro d hd
    refine (h.taken d hd).resolve_right ?_
    rintro ⟨c, hc, hhit, hne⟩
    exact hne (Option.some.inj ((h.calm hcalm c hc).symm.trans hhit))
  rw [← held_ledger]
  exact (List.perm_ext_iff_of_nodup (.of_map _ h.fds) h.balanced.held_nodup).mpr
    fun d => ⟨h.open_owned d, hsub d⟩

/-- What the invariant says. -/
theorem wellOwned (h : Inv s) : s.WellOwned where
  once := held_ledger s ▸ h.balanced.held_nodup
  open_owned := held_ledger s ▸ h.open_owned
  taken d hd hclosed := (h.taken d (held_ledger s ▸ hd)).resolve_left hclosed
  ports := h.ports
  accepting c hc l hl := by
    obtain ⟨i, hi⟩ := List.mem_iff_getElem?.mp hc
    exact (h.pcs i c hi).accepting l hl
  lost entry hentry := by
    have hkind := h.lost entry hentry
    rwa [List.getElem?_map, Option.map_eq_some_iff] at hkind
  closes := by
    constructor
    · intro hall c hc
      by_contra hagain
      exact h.again c hc (Bool.eq_true_of_not_eq_false hagain) (hall c hc)
    · exact h.calm
  calm := h.perm_owned
  gone hcalm hgone := by
    have hnone : s.channels.flatMap (fun c => c.pc.owns) = [] := by
      rw [List.flatMap_eq_nil_iff]
      intro c hc
      rw [hgone c hc]
      rfl
    have hperm := h.perm_owned hcalm
    rwa [owned, hnone, List.append_nil] at hperm

theorem init : Inv {} where
  balanced := ⟨.refl _, List.nodup_nil⟩
  sockets := by simp
  fds := by simp
  open_owned := by simp
  taken := by simp [ledger, Ledger.held]
  ports := by simp
  pcs := by simp
  lost := by simp
  again := by simp
  calm := by simp

end Inv

/-! ## Steps -/

theorem PcOk.mono {s t : Descriptors} {i : Nat} {pc : ChannelPc} (h : s.PcOk i pc)
    (hmutex : t.listenMutex = s.listenMutex) (hports : t.listenPorts = s.listenPorts)
    (hreleased : ∀ d ∈ s.ledger.released, d ∈ t.ledger.released) : t.PcOk i pc where
  locked port hport := by
    rw [hmutex, hports]
    exact h.locked port hport
  accepting l hl := by
    rw [hports]
    exact h.accepting l hl
  closed d hd := hreleased d (h.closed d hd)

section

variable {s : Descriptors} {i : Nat} {pc : ChannelPc}

theorem PcOk.of_silent (h : pc.silent = true) : s.PcOk i pc where
  locked port hport := by cases pc <;> cases hport <;> cases h
  accepting l hl := by subst hl; cases h
  closed d hd := by subst hd; cases h

theorem PcOk.of_port {port : Int} (hpc : pc.port = some port)
    (h : s.listenMutex = some i ∧ port ∉ s.listenPorts.map Prod.fst) : s.PcOk i pc where
  locked port' hport' := by
    cases hpc.symm.trans hport'
    exact h
  accepting l hl := by subst hl; cases hpc
  closed d hd := by subst hd; cases hpc

theorem PcOk.of_accepting {l : Descriptor} (h : l ∈ s.listenPorts.map Prod.snd) :
    s.PcOk i (.accepting l) where
  locked port hport := by cases hport
  accepting l' hl' := by cases hl'; exact h
  closed d hd := by cases hd

theorem PcOk.of_inited {d : Descriptor} (h : d ∈ s.ledger.released) :
    s.PcOk i (.inited d true) where
  locked port hport := by cases hport
  accepting l hl := by cases hl
  closed d' hd' := by cases hd'; exact h

end

/-- Putting what is already there. -/
theorem set_eq_self {α : Type} {l : List α} {i : Nat} {a : α} (h : l[i]? = some a) :
    l.set i a = l := by
  obtain ⟨hlt, rfl⟩ := List.getElem?_eq_some_iff.mp h
  exact List.set_getElem_self hlt

theorem ledger_setPc (s : Descriptors) (i : Nat) (kind : ChannelKind) (pc : ChannelPc) :
    (s.setPc i kind pc).ledger = s.ledger.set (i + 2) (some pc.owns) := by
  simp only [ledger, setPc, Ledger.set, List.set_cons_succ, List.map_set]

section

variable {s : Descriptors} {i : Nat} {kind : ChannelKind} {pc pc' : ChannelPc} {d : Descriptor}
  (hc : s.channels[i]? = some ⟨kind, pc⟩)
include hc

theorem lt_ledger : i + 2 < s.ledger.holders.length := by
  have hlt := (List.getElem?_eq_some_iff.mp hc).1
  simp only [ledger, List.length_cons, List.length_map]
  omega

theorem holding_ledger : s.ledger.holding (i + 2) = pc.owns := by
  refine Ledger.holding_of_get ?_
  simp only [ledger, List.getElem?_cons_succ, List.getElem?_map, hc, Option.map_some]

/-- A channel stays of its kind. -/
theorem kinds_setPc {t : Descriptors} (hchannels : t.channels = (s.setPc i kind pc').channels) :
    t.channels.map Channel.kind = s.channels.map Channel.kind := by
  rw [hchannels, setPc, List.map_set]
  exact set_eq_self (by rw [List.getElem?_map, hc]; rfl)

/-- The channel that takes the step is where it should be, and so are the others. -/
theorem pcs_setPc {t : Descriptors} (hchannels : t.channels = (s.setPc i kind pc').channels)
    (hself : t.PcOk i pc') (hother : ∀ (j : Nat) c, i ≠ j → s.channels[j]? = some c →
      t.PcOk j c.pc) : ∀ (j : Nat) c, t.channels[j]? = some c → t.PcOk j c.pc := by
  intro j c hj
  rw [hchannels, setPc] at hj
  by_cases hij : i = j
  · subst hij
    rw [List.getElem?_set_self (List.getElem?_eq_some_iff.mp hc).1] at hj
    cases hj
    exact hself
  · rw [List.getElem?_set_ne hij] at hj
    exact hother j c hij hj

namespace Inv

variable (h : Inv s)
include h

/-- A step of a channel that opens and closes nothing. -/
theorem pass (howns : pc'.owns = pc.owns) (hpc : s.PcOk i pc') : Inv (s.setPc i kind pc') := by
  have hledger : (s.setPc i kind pc').ledger = s.ledger := by
    rw [ledger_setPc, howns, Ledger.set, set_eq_self]
    simp only [ledger, List.getElem?_cons_succ, List.getElem?_map, hc, Option.map_some]
  refine ⟨hledger ▸ h.balanced, h.sockets, h.fds, hledger ▸ h.open_owned, hledger ▸ h.taken,
    h.ports, pcs_setPc hc rfl ?_ ?_, ?_, h.again, h.calm⟩
  · exact hpc.mono rfl rfl (hledger ▸ fun _ hx => hx)
  · intro j c _ hj
    exact (h.pcs j c hj).mono rfl rfl (hledger ▸ fun _ hx => hx)
  · rw [kinds_setPc hc rfl]
    exact h.lost

/-- A channel gets a descriptor. -/
theorem opens {fd : Nat} (hfree : s.free fd = true) (hnone : pc.owns = [])
    (howns : pc'.owns = [s.fresh fd]) (hpc : s.PcOk i pc') :
    Inv ((s.opened fd).setPc i kind pc') := by
  have hledger : ((s.opened fd).setPc i kind pc').ledger =
      s.ledger.acquire (i + 2) (s.fresh fd) := by
    rw [ledger_setPc, howns, Ledger.acquire, holding_ledger hc, hnone]
    rfl
  have hheld := Ledger.held_acquire s.ledger (lt_ledger hc) (s.fresh fd)
  have hnew : s.fresh fd ∉ s.made := fun hmem => Nat.lt_irrefl _ (h.sockets _ hmem)
  have hnumber : fd ∉ s.table.map Descriptor.fd := of_decide_eq_true hfree
  refine ⟨hledger ▸ h.balanced.acquire (lt_ledger hc) hnew, ?_, ?_, ?_, ?_, h.ports,
    pcs_setPc hc rfl ?_ ?_, ?_, h.again, h.calm⟩
  · intro d hd
    show d.socket < (s.made ++ [s.fresh fd]).length
    rw [List.length_append, List.length_singleton]
    rcases List.mem_append.mp hd with hd | hd
    · exact Nat.lt_succ_of_lt (h.sockets d hd)
    · rw [List.mem_singleton.mp hd]
      exact Nat.lt_succ_self _
  · show ((s.table ++ [s.fresh fd]).map Descriptor.fd).Nodup
    rw [List.map_append]
    refine List.nodup_append.mpr ⟨h.fds, List.nodup_singleton _, ?_⟩
    rintro x hx _ hy rfl
    rw [List.mem_singleton.mp hy] at hx
    exact hnumber hx
  · intro d hd
    rw [hledger, hheld.mem_iff]
    rcases List.mem_append.mp hd with hd | hd
    · exact List.mem_append_left _ (h.open_owned d hd)
    · exact List.mem_append_right _ hd
  · intro d hd
    rw [hledger, hheld.mem_iff] at hd
    rcases List.mem_append.mp hd with hd | hd
    · exact (h.taken d hd).imp_left fun hopen => List.mem_append_left _ hopen
    · exact .inl (List.mem_append_right _ hd)
  · exact hpc.mono rfl rfl fun _ hx => hx
  · intro j c _ hj
    exact (h.pcs j c hj).mono rfl rfl fun _ hx => hx
  · rw [kinds_setPc (t := (s.opened fd).setPc i kind pc') hc rfl]
    exact h.lost

/-- A `close` of what the channel has, or of what its stream has closed already. -/
theorem closesWith {again : Bool}
    (hbalanced : ((s.close d again).setPc i kind pc').ledger.Balanced)
    (hheld : ∀ x, x ∈ ((s.close d again).setPc i kind pc').ledger.held ↔
      x ∈ s.ledger.held ∧ x ≠ d)
    (hreleased : ∀ x ∈ s.ledger.released,
      x ∈ ((s.close d again).setPc i kind pc').ledger.released)
    (hagain : d ∈ s.ledger.held ↔ again = false)
    (hpc : ((s.close d again).setPc i kind pc').PcOk i pc') :
    Inv ((s.close d again).setPc i kind pc') := by
  have hrecord : ∀ c ∈ s.closes ++ [⟨d, again, s.table.find? (·.fd = d.fd)⟩],
      c ∈ s.closes ∨ c = ⟨d, again, s.table.find? (·.fd = d.fd)⟩ := by
    intro c hc
    rcases List.mem_append.mp hc with hc | hc
    · exact .inl hc
    · exact .inr (List.mem_singleton.mp hc)
  refine ⟨hbalanced, h.sockets, ?_, ?_, ?_, h.ports, pcs_setPc hc rfl hpc ?_, ?_, ?_, ?_⟩
  · exact h.fds.sublist (List.filter_sublist.map _)
  · intro x hx
    obtain ⟨hx, hne⟩ := List.mem_filter.mp hx
    refine (hheld x).mpr ⟨h.open_owned x hx, ?_⟩
    rintro rfl
    simp at hne
  · intro x hx
    obtain ⟨hx, hne⟩ := (hheld x).mp hx
    rcases h.taken x hx with hopen | ⟨c, hc, htaken⟩
    · by_cases hfd : x.fd = d.fd
      · -- it has the number that is closed, and was meant for another socket
        exact .inr ⟨_, List.mem_append_right _ (List.mem_singleton_self _),
          hfd ▸ find?_fd h.fds hopen, hne.symm⟩
      · exact .inl (List.mem_filter.mpr ⟨hopen, by simpa using hfd⟩)
    · exact .inr ⟨c, List.mem_append_left _ hc, htaken⟩
  · intro j c _ hj
    exact (h.pcs j c hj).mono rfl rfl hreleased
  · rw [kinds_setPc (t := (s.close d again).setPc i kind pc') hc rfl]
    exact h.lost
  · intro c hc hc'
    rcases hrecord c hc with hc | rfl
    · exact h.again c hc hc'
    · intro hhit
      have hopen : d ∈ s.table := List.mem_of_find?_eq_some hhit
      rw [hagain.mp (h.open_owned d hopen)] at hc'
      cases hc'
  · intro hcalm c hc
    have hbefore := h.calm fun c hc => hcalm c (List.mem_append_left _ hc)
    rcases hrecord c hc with hc | rfl
    · exact hbefore c hc
    · -- nothing was taken from the channel before
      have hheld := hagain.mpr (hcalm _ hc)
      refine find?_fd h.fds ((h.taken d hheld).resolve_right ?_)
      rintro ⟨c, hc, hhit, hne⟩
      exact hne (Option.some.inj ((hbefore c hc).symm.trans hhit))

/-- The channel closes what it has. -/
theorem closes (howns : pc.owns = [d]) (hnone : pc'.owns = [])
    (hpc : ((s.close d false).setPc i kind pc').PcOk i pc') :
    Inv ((s.close d false).setPc i kind pc') := by
  have hledger : ((s.close d false).setPc i kind pc').ledger = s.ledger.release (i + 2) := by
    rw [ledger_setPc, hnone, Ledger.release, holding_ledger hc, howns]
    simp only [ledger, close, Ledger.set, List.filter_append, List.map_append]
    rfl
  have hperm := Ledger.held_release s.ledger (lt_ledger hc)
  rw [holding_ledger hc, howns] at hperm
  have hnodup := hperm.nodup_iff.mpr h.balanced.held_nodup
  refine closesWith hc h ?_ ?_ ?_ ?_ hpc
  · rw [hledger]
    exact h.balanced.release (lt_ledger hc)
  · intro x
    rw [hledger, ← hperm.mem_iff, List.singleton_append, List.mem_cons]
    constructor
    · intro hx
      refine ⟨.inr hx, ?_⟩
      rintro rfl
      exact (List.nodup_cons.mp hnodup).1 hx
    · rintro ⟨rfl | hx, hne⟩
      · exact absurd rfl hne
      · exact hx
  · intro x hx
    rw [hledger]
    exact List.mem_append_left _ hx
  · exact iff_of_true (hperm.mem_iff.mp (List.mem_cons_self ..)) rfl

/-- A destructor closes what the stream has closed already. -/
theorem closesAgain (hpc : pc = .inited d true) :
    Inv ((s.close d true).setPc i kind .gone) := by
  subst hpc
  have hreleased := (h.pcs i _ hc).closed d rfl
  have hledger : ((s.close d true).setPc i kind .gone).ledger = s.ledger := by
    rw [ledger_setPc, Ledger.set, set_eq_self]
    · simp only [ledger, close, List.filter_append, List.map_append]
      simp
    · simp only [ledger, close, List.getElem?_cons_succ, List.getElem?_map, hc, Option.map_some]
      rfl
  have hnot : d ∉ s.ledger.held := fun hheld => h.balanced.not_released hheld hreleased
  refine closesWith hc h (hledger ▸ h.balanced) ?_ (hledger ▸ fun _ hx => hx)
    (iff_of_false hnot Bool.noConfusion) (.of_silent rfl)
  intro x
  rw [hledger, iff_self_and]
  rintro hx rfl
  exact hnot hx

/-- What a channel has goes to `listen_ports`, or to nobody. -/
theorem moves {t : Descriptors} {j : Nat} (hj : j < 2)
    (hledger : t.ledger = s.ledger.move (i + 2) j) (htable : t.table = s.table)
    (hcloses : t.closes = s.closes) (hchannels : t.channels = (s.setPc i kind pc').channels)
    (hports : (t.listenPorts.map Prod.fst).Nodup) (hself : t.PcOk i pc')
    (hother : ∀ (j : Nat) c, i ≠ j → s.channels[j]? = some c → t.PcOk j c.pc)
    (hlost : ∀ entry ∈ t.lost, (s.channels.map Channel.kind)[entry.1]? = some (.proxy .wss)) :
    Inv t := by
  have hlt := lt_ledger hc
  have hheld := Ledger.held_move s.ledger (show i + 2 ≠ j by omega) hlt (by omega)
  have hmade : t.made = s.made := congrArg Ledger.acquired hledger
  refine ⟨?_, hmade ▸ h.sockets, htable ▸ h.fds, ?_, ?_, hports,
    pcs_setPc hc hchannels hself hother, ?_, hcloses ▸ h.again, hcloses ▸ h.calm⟩
  · rw [hledger]
    exact h.balanced.move (by omega) hlt (by omega)
  · intro d hd
    rw [hledger, hheld.mem_iff]
    exact h.open_owned d (htable ▸ hd)
  · intro d hd
    rw [hledger, hheld.mem_iff] at hd
    rw [htable, hcloses]
    exact h.taken d hd
  · rw [kinds_setPc hc hchannels]
    exact hlost

/-- Nothing will close the descriptor of a proxy over TLS. -/
theorem loses (howns : pc.owns = [d]) (hnone : pc'.owns = []) (hkind : kind = .proxy .wss)
    (hpc : s.PcOk i pc') : Inv ((s.lose i d).setPc i kind pc') := by
  refine moves hc h Nat.one_lt_two (?_ : _ = s.ledger.move (i + 2) 1) rfl rfl rfl h.ports
    (hpc.mono rfl rfl fun _ hx => hx)
    (fun j c _ hj => (h.pcs j c hj).mono rfl rfl fun _ hx => hx) ?_
  · rw [ledger_setPc, hnone, Ledger.move, holding_ledger hc, howns]
    simp only [ledger, lose, Ledger.set, Ledger.holding, List.map_append]
    rfl
  · intro entry hentry
    rcases List.mem_append.mp hentry with hentry | hentry
    · exact h.lost entry hentry
    · rw [List.mem_singleton.mp hentry, List.getElem?_map, hc, hkind]
      rfl

/-- Only one channel at a time has `listen_mutex`. -/
theorem eq_of_locked {j : Nat} {c : Channel} {port port' : Int} (hport : pc.port = some port)
    (hj : s.channels[j]? = some c) (hport' : c.pc.port = some port') : i = j := by
  have hi := ((h.pcs i _ hc).locked port hport).1
  rw [((h.pcs j c hj).locked port' hport').1] at hi
  exact (Option.some.inj hi).symm

/-- The listening socket of a port is there for all constructors to come. -/
theorem registers {port : Int} (hpc : pc = .listening port d) :
    Inv ((s.register port d).setPc i kind (.accepting d)) := by
  subst hpc
  obtain ⟨hmutex, hport⟩ := (h.pcs i _ hc).locked port rfl
  refine moves hc h Nat.zero_lt_two (?_ : _ = s.ledger.move (i + 2) 0) rfl rfl rfl ?_ ?_ ?_ h.lost
  · rw [ledger_setPc, Ledger.move, holding_ledger hc]
    simp only [ledger, register, Ledger.set, Ledger.holding, List.map_append]
    rfl
  · simp only [setPc, register, List.map_append]
    refine List.nodup_append.mpr ⟨h.ports, List.nodup_singleton _, ?_⟩
    rintro x hx _ hy rfl
    rw [List.mem_singleton.mp hy] at hx
    exact hport hx
  · exact .of_accepting (by simp [setPc, register])
  · intro j c hij hj
    have hok := h.pcs j c hj
    refine ⟨fun port' hport' => ?_, fun l hl => ?_, hok.closed⟩
    · exact absurd (eq_of_locked hc h rfl hj hport') hij
    · simp only [setPc, register, List.map_append]
      exact List.mem_append_left _ (hok.accepting l hl)

/-- The mutex is free again. -/
theorem unlocks (hmutex : s.listenMutex = some i) (hport : pc.port = none) : Inv s.unlock := by
  refine { h with pcs := fun j c hj => ?_ }
  have hok := h.pcs j c hj
  refine ⟨fun port' hport' => ?_, hok.accepting, hok.closed⟩
  obtain rfl : i = j := Option.some.inj (hmutex.symm.trans (hok.locked port' hport').1)
  cases hc.symm.trans hj
  rw [hport] at hport'
  cases hport'

end Inv

end

namespace Inv

variable {s t : Descriptors}

/-- The mutex is taken. -/
theorem locks (h : Inv s) (hfree : s.listenMutex = none) (i : Nat) :
    Inv { s with listenMutex := some i } := by
  refine { h with pcs := fun j c hj => ?_ }
  have hok := h.pcs j c hj
  refine ⟨fun port hport => ?_, hok.accepting, hok.closed⟩
  have hmutex := (hok.locked port hport).1
  rw [hfree] at hmutex
  cases hmutex

/-- A new channel has nothing. -/
theorem constructs (h : Inv s) (kind : ChannelKind) :
    Inv { s with channels := s.channels ++ [⟨kind, .started⟩] } := by
  have hledger : ledger { s with channels := s.channels ++ [⟨kind, .started⟩] } =
      s.ledger.enter := by
    simp only [ledger, Ledger.enter, List.map_append, List.cons_append]
    rfl
  have hheld := Ledger.held_enter s.ledger
  refine ⟨hledger ▸ h.balanced.enter, h.sockets, h.fds, ?_, ?_, h.ports, ?_, ?_, h.again, h.calm⟩
  · rw [hledger, hheld]
    exact h.open_owned
  · rw [hledger, hheld]
    exact h.taken
  · intro i c hi
    rw [List.getElem?_append] at hi
    split at hi
    · exact (h.pcs i c hi).mono rfl rfl fun _ hx => hx
    · obtain rfl := List.mem_singleton.mp (List.mem_of_getElem? hi)
      exact .of_silent rfl
  · intro entry hentry
    have hkind := h.lost entry hentry
    have hlt := (List.getElem?_eq_some_iff.mp hkind).1
    rwa [List.map_append, List.getElem?_append_left hlt]

/-- A channel whose port or URL was checked has nothing yet. -/
theorem afterCheck_silent (ok : Bool) (kind : ChannelKind) :
    (afterCheck ok kind).owns = [] ∧ (afterCheck ok kind).silent = true := by
  cases kind with
  | server port =>
    rw [afterCheck]
    split <;> exact ⟨rfl, rfl⟩
  | client protocol => cases ok <;> exact ⟨rfl, rfl⟩
  | proxy protocol => cases ok <;> exact ⟨rfl, rfl⟩

/-- **Every step of a channel** keeps the invariant. -/
theorem advance (h : Inv s) {i : Nat} {kind : ChannelKind} {pc : ChannelPc} {c : ChannelCall}
    (hc : s.channels[i]? = some ⟨kind, pc⟩) (hstep : s.advance i kind pc c = some (.ok t)) :
    Inv t := by
  have hok := h.pcs i _ hc
  have hunlock {u : Descriptors} {pc' : ChannelPc} (hinv : Inv (u.setPc i kind pc'))
      (hchannels : u.channels = s.channels) (hmutex : u.listenMutex = some i)
      (hport : pc'.port = none) : Inv (u.unlock.setPc i kind pc') := by
    have hget : (u.setPc i kind pc').channels[i]? = some ⟨kind, pc'⟩ := by
      rw [setPc, hchannels]
      exact List.getElem?_set_self (List.getElem?_eq_some_iff.mp hc).1
    exact hinv.unlocks hget hmutex hport
  unfold Descriptors.advance at hstep
  split at hstep
  · cases hstep
    obtain ⟨howns, hsilent⟩ := afterCheck_silent ‹_› kind
    exact h.pass hc howns (.of_silent hsilent)
  · -- `listen_mutex` is free
    next port =>
    split at hstep
    · cases hstep
    next hmutex =>
    have hfree : s.listenMutex = none := by simpa using hmutex
    split at hstep
    next d hfind =>
      cases hstep
      exact h.pass hc rfl (.of_accepting
        (List.mem_map.mpr ⟨_, List.mem_of_find?_eq_some hfind, rfl⟩))
    next hfind =>
      cases hstep
      refine (h.locks hfree i).pass hc rfl (.of_port rfl ⟨rfl, fun hport => ?_⟩)
      obtain ⟨entry, hentry, rfl⟩ := List.mem_map.mp hport
      exact absurd (List.find?_eq_none.mp hfind entry hentry) (by simp)
  · -- `socket` fails with the mutex
    cases hstep
    obtain ⟨hmutex, -⟩ := hok.locked _ rfl
    exact hunlock (h.pass hc rfl (.of_silent rfl)) rfl hmutex rfl
  · obtain ⟨hfree, hstep⟩ := Option.ite_none_right_eq_some.mp hstep
    cases hstep
    exact h.opens hc hfree rfl rfl (.of_port rfl (hok.locked _ rfl))
  · next port d ok =>
    obtain ⟨hmutex, hport⟩ := hok.locked _ rfl
    cases ok with
    | false =>
      cases hstep
      exact hunlock (h.closes hc rfl rfl (.of_silent rfl)) rfl hmutex rfl
    | true =>
      cases hstep
      exact h.pass hc rfl (.of_port rfl ⟨hmutex, hport⟩)
  · next port d ok =>
    obtain ⟨hmutex, -⟩ := hok.locked _ rfl
    cases ok with
    | false =>
      cases hstep
      exact hunlock (h.closes hc rfl rfl (.of_silent rfl)) rfl hmutex rfl
    | true =>
      cases hstep
      exact hunlock (h.registers hc rfl) rfl hmutex rfl
  · cases hstep
    exact h.pass hc rfl (.of_silent rfl)
  · obtain ⟨hfree, hstep⟩ := Option.ite_none_right_eq_some.mp hstep
    cases hstep
    exact h.opens hc hfree rfl rfl (.of_silent rfl)
  · cases hstep
    exact h.pass hc rfl (.of_silent rfl)
  · obtain ⟨hfree, hstep⟩ := Option.ite_none_right_eq_some.mp hstep
    cases hstep
    exact h.opens hc hfree rfl rfl (.of_silent rfl)
  · -- `connect(-1, ..)` fails, and `close(-1)` closes nothing
    split at hstep
    · cases hstep
    · cases hstep
      exact h.pass hc rfl (.of_silent rfl)
  · next d ok =>
    cases ok with
    | false =>
      cases hstep
      exact h.closes hc rfl rfl (.of_silent rfl)
    | true =>
      cases hstep
      exact h.pass hc rfl (.of_silent rfl)
  · next d ok =>
    cases ok with
    | false =>
      -- only `SSLStream` throws
      simp only [Bool.false_eq_true, if_false] at hstep
      split at hstep
      · cases hstep
        exact h.pass hc rfl (.of_silent rfl)
      · cases hstep
        exact h.loses hc rfl rfl rfl (.of_silent rfl)
      · cases hstep
    | true =>
      cases hstep
      exact h.pass hc rfl (.of_silent rfl)
  · split at hstep
    · cases hstep
      exact h.closes hc rfl rfl (.of_inited (by simp [ledger, setPc, close]))
    · cases hstep
      exact h.pass hc rfl (.of_silent rfl)
  · next d closed =>
    split at hstep
    next hkind =>
      cases closed with
      | false =>
        cases hstep
        exact h.loses hc rfl rfl hkind (.of_silent rfl)
      | true =>
        cases hstep
        exact h.pass hc rfl (.of_silent rfl)
    next =>
      cases closed with
      | false =>
        cases hstep
        exact h.closes hc rfl rfl (.of_silent rfl)
      | true =>
        cases hstep
        exact h.closesAgain hc rfl
  · cases hstep
  · split at hstep <;> cases hstep
  · split at hstep <;> cases hstep
  · cases hstep

/-- And so does every step. -/
theorem step (h : Inv s) {e : DescriptorEvent} (hstep : s.step e = some (.ok t)) : Inv t := by
  cases e with
  | construct kind =>
    cases hstep
    exact h.constructs kind
  | call i c =>
    obtain ⟨⟨kind, pc⟩, hc, hstep⟩ := Option.bind_eq_some_iff.mp hstep
    exact h.advance hc hstep

end Inv

/-- Only a destructor goes wrong, that of a channel without a stream. -/
theorem advance_error {s : Descriptors} {i : Nat} {kind : ChannelKind} {pc : ChannelPc}
    {c : ChannelCall} {f : Failure} (hstep : s.advance i kind pc c = some (.error f)) :
    f = .fault .nullPointer ∧ c = .destroy ∧ pc.hasStream = false := by
  unfold advance at hstep
  repeat' split at hstep
  all_goals cases hstep
  all_goals exact ⟨rfl, rfl, rfl⟩

end Descriptors

/-- **Who has a descriptor**, in every run of the channels of a process. It ends in a null
pointer when a channel is destroyed that has no stream; else each open descriptor has one
owner, and an owner whose descriptor is not open has lost it to a `close` that was meant for
another socket. There are such exactly when a channel has closed its descriptor twice;
otherwise, when all channels are gone, the listening sockets are left, one a port, and the
lost ones, which only proxies over TLS have had. -/
theorem descriptors_owned {es : List DescriptorEvent} {result : Res Descriptors}
    (hrun : descriptorMachine.run es = some result) :
    (∃ s, result = .ok s ∧ s.WellOwned) ∨
      result = .error (.fault .nullPointer) ∧
        ∃ es' i s c, es = es' ++ [.call i .destroy] ∧ descriptorMachine.run es' = some (.ok s) ∧
          s.channels[i]? = some c ∧ c.pc.hasStream = false := by
  have hinv {es : List DescriptorEvent} {s : Descriptors}
      (hrun : descriptorMachine.run es = some (.ok s)) : s.Inv := by
    refine Machine.invariant (fun r : Res Descriptors => ∀ s, r = .ok s → s.Inv) ?_ ?_ hrun s rfl
    · rintro s ⟨⟩
      exact .init
    · rintro (f | s) e r hs hstep t rfl
      · cases hstep
      · exact (hs s rfl).step hstep
  cases result with
  | ok s => exact .inl ⟨s, rfl, (hinv hrun).wellOwned⟩
  | error f =>
    obtain rfl | ⟨es, e, rfl⟩ := List.eq_nil_or_concat' es
    · cases hrun
    · obtain ⟨r, hbefore, hstep⟩ := Machine.runFrom_concat hrun
      cases r with
      | error f => cases hstep
      | ok s =>
        cases e with
        | construct kind => cases hstep
        | call i c =>
          obtain ⟨channel, hchannel, hstep⟩ := Option.bind_eq_some_iff.mp hstep
          obtain ⟨rfl, rfl, hstream⟩ := Descriptors.advance_error hstep
          exact .inr ⟨rfl, es, i, s, channel, rfl, hbefore, hchannel, hstream⟩

/-- The handshake of the first channel fails; the second gets its number, and loses it in the
destructor of the first. -/
theorem descriptors_owned_twice :
    let es : List DescriptorEvent := [.construct (.server 80), .construct (.server 80),
      .call 0 (.check true), .call 0 .lock, .call 0 (.socket (some 3)), .call 0 (.bind true),
      .call 0 (.listen true), .call 0 (.accept (some 4)), .call 0 (.makeStream true),
      .call 0 (.handshake false), .call 1 (.check true), .call 1 .lock,
      .call 1 (.accept (some 4)), .call 1 (.makeStream true), .call 1 (.handshake true),
      .call 0 .destroy]
    ∃ s, descriptorMachine.run es = some (.ok s) ∧ ⟨4, 2⟩ ∈ s.owned ∧ ⟨4, 2⟩ ∉ s.table ∧
      ∃ c ∈ s.closes, c.hit = some ⟨4, 2⟩ ∧ c.own ≠ ⟨4, 2⟩ := by
  intro es
  obtain ⟨s, hrun, howned, htable⟩ : ∃ s, descriptorMachine.run es = some (.ok s) ∧
      ⟨4, 2⟩ ∈ s.owned ∧ ⟨4, 2⟩ ∉ s.table := ⟨_, rfl, by decide, by decide⟩
  refine ⟨s, hrun, howned, htable, ?_⟩
  rcases descriptors_owned hrun with ⟨t, ht, hwell⟩ | ⟨hnull, -⟩
  · cases ht
    exact hwell.taken _ howned htable
  · cases hnull

end ZktlsNet
