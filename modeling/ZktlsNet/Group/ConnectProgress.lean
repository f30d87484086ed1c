import Mathlib.Algebra.BigOperators.Group.Finset.Basic
import Mathlib.Algebra.Order.BigOperators.Group.Finset
import ZktlsNet.Group.Acceptors
import ZktlsNet.Group.Agreement

/-!
# Every client gets its channels

The threads of `connect_pado_io` wait for each other: all but the first for the number
that the first one receives, and `accept` for the channels of all of them. Without failures
and clean-up none of this ends in a deadlock, unless the numbers run out: a client whose
group has not been accepted has one of the 1023, and with one client more
`get_unused_port` searches for ever, with the lock that `accept` needs.

- `Effect`: what each step of clients and server does to their places.
- `Effect.work_lt`: each step leaves less to do for the clients that have begun.
- `Going.crowd`: a search without end means more than 1023 clients.
- `Stuck.settled`: where nothing can go on otherwise, every client has its channels.
- `connect_completes`: whatever the order of the steps, it ends there.
-/

namespace ZktlsNet

open NetLib Server

/-- How many steps a client thread has before it. -/
def ConnectPc.rank : ConnectPc → Nat
  | .absent => 4
  | .start => 3
  | .exchanging => 2
  | .numbered => 1
  | .done _ => 0

/-- A thread that has begun does not go back. -/
theorem ConnectPc.ne_absent_of_rank {pc pc' : ConnectPc} (hpc : pc ≠ .absent)
    (hrank : pc'.rank < pc.rank) : pc' ≠ .absent := by
  rintro rfl
  cases pc with
  | absent => exact hpc rfl
  | _ => simp [rank] at hrank

/-- The same for an `init_pado_io` call; the last step may complete a group. -/
def InitPc.rank : InitPc → Nat
  | .absent => 7
  | .start => 6
  | .hasNumber _ => 5
  | .issued _ => 4
  | .created _ => 3
  | .number _ _ => 2
  | .inserted _ _ | .failed => 0

namespace Peers

/-! ## What a step does to the places -/

/-- The steps of the threads and of the server. -/
inductive Effect (num : Nat) (s s' : Peers) : PeerEvent → Prop
  | connect {c : Nat} (hlt : s.connected c < num) (hserver : s'.server = s.server)
    (hthreads : s'.threads = Function.update s.threads (c, s.connected c) .start)
    (hconnected : s'.connected = Function.update s.connected c (s.connected c + 1)) :
    Effect num s s' (.connect c)
  | thread {e : PeerEvent} {p : ChannelId} {pc : ConnectPc} (he : ∀ c, e ≠ .connect c)
    (hbegun : s.threads p ≠ .absent) (hrank : pc.rank < (s.threads p).rank)
    (hserver : s'.server = s.server) (hthreads : s'.threads = Function.update s.threads p pc)
    (hconnected : s'.connected = s.connected) : Effect num s s' e
  | server {e : PeerEvent} {e' : ServerEvent ChannelId} (he : ∀ c, e ≠ .connect c)
    (hplain : Plain e') (hnum : ∀ m num', e' = .accept m num' → num' = num)
    (hstep : s.server.step num e' = some (.ok s'.server)) (hthreads : s'.threads = s.threads)
    (hconnected : s'.connected = s.connected) : Effect num s s' e

/-- A step of the server alone. -/
theorem effect_serverStep {num : Nat} {s s₀ s' : Peers} {e : PeerEvent}
    {e' : ServerEvent ChannelId} (hstep : s₀.serverStep num e' = some (.ok s'))
    (hserver : s₀.server = s.server) (hthreads : s₀.threads = s.threads)
    (hconnected : s₀.connected = s.connected) (he : ∀ c, e ≠ .connect c) (hplain : Plain e')
    (hnum : ∀ m num', e' = .accept m num' → num' = num) : Effect num s s' e := by
  obtain ⟨r, hr, hs'⟩ := serverStep_eq_some hstep
  cases r with
  | error f => cases hs'
  | ok server =>
    cases hs'
    rw [hserver] at hr
    exact .server he hplain hnum hr hthreads hconnected

/-- **Every successful step** has such an effect. -/
theorem step_effect {num : Nat} {s s' : Peers} {e : PeerEvent}
    (hstep : s.step num e = some (.ok s')) : Effect num s s' e := by
  cases e with
  | connect c =>
    obtain ⟨hlt, hr⟩ := Option.ite_none_right_eq_some.mp hstep
    cases hr
    exact .connect hlt rfl rfl rfl
  | sendHasNumber p | sendNumber p =>
    simp only [Peers.step] at hstep
    split at hstep
    · rename_i hthread
      cases hstep
      exact .thread (by simp) (by simp [hthread]) (by rw [hthread]; simp [ConnectPc.rank]) rfl rfl
        rfl
    · cases hstep
  | wake p | recvNumber p =>
    simp only [Peers.step] at hstep
    split at hstep
    · rename_i hthread
      obtain ⟨-, hr⟩ := Option.ite_none_right_eq_some.mp hstep
      cases hr
      exact .thread (by simp) (by simp [hthread]) (by rw [hthread]; simp [ConnectPc.rank]) rfl rfl
        rfl
    · cases hstep
  | listen p timestamp =>
    simp only [Peers.step] at hstep
    split at hstep
    · cases hstep
    · exact effect_serverStep hstep rfl rfl rfl (by simp) rfl (by simp)
  | serverRecvHasNumber p =>
    simp only [Peers.step] at hstep
    split at hstep
    · cases hstep
    · exact effect_serverStep hstep rfl rfl rfl (by simp) trivial (by simp)
  | serverRecvNumber p =>
    obtain ⟨-, hr⟩ := Option.ite_none_right_eq_some.mp hstep
    exact effect_serverStep hr rfl rfl rfl (by simp) trivial (by simp)
  | serverSendNumber p =>
    simp only [Peers.step] at hstep
    split at hstep
    · exact effect_serverStep hstep rfl rfl rfl (by simp) trivial (by simp)
    · cases hstep
  | issue p | create p | insert p =>
    exact effect_serverStep hstep rfl rfl rfl (by simp) trivial (by simp)
  | accept =>
    refine effect_serverStep hstep rfl rfl rfl (by simp) rfl ?_
    intro m num' heq
    cases heq
    rfl

/-- What the server has to do for no call: to take out complete groups, and to begin a
search without end. -/
def serverWork (num : Nat) (server : Server ChannelId) : Nat :=
  ((server.managers 0).groups num).card + if server.portMtx.isNone then 1 else 0

section

variable {num : Nat} {server server' : Server ChannelId} {e : ServerEvent ChannelId}

/-- A step of the server takes one call further, takes out a group, or does not end. -/
theorem rank_step (h : server.Numbers) (hplain : Plain e)
    (hnum : ∀ m num', e = .accept m num' → num' = num)
    (hstep : server.step num e = some (.ok server')) :
    (server'.calls = server.calls ∧ serverWork num server' < serverWork num server) ∨
    ∃ p, (server'.calls p).pc ≠ .absent ∧
      (∀ q, q ≠ p → (server'.calls q).pc = (server.calls q).pc) ∧
      (server'.calls p).pc.rank + serverWork num server' <
        (server.calls p).pc.rank + serverWork num server := by
  have hcard := card_groups_step h hstep 0
  -- the calls but one stay where they are, and the groups are as many
  have hcall : ∀ (p : ChannelId) (pc : InitPc), pc ≠ .absent →
      (∀ q, (server'.calls q).pc = if q = p then pc else (server.calls q).pc) →
      server'.portMtx = server.portMtx →
      pc.rank + 1 < (server.calls p).pc.rank ∨
        pc.rank < (server.calls p).pc.rank ∧ server.notifies e = none →
      ∃ p, (server'.calls p).pc ≠ .absent ∧
        (∀ q, q ≠ p → (server'.calls q).pc = (server.calls q).pc) ∧
        (server'.calls p).pc.rank + serverWork num server' <
          (server.calls p).pc.rank + serverWork num server := by
    intro p pc hpc hcalls hmtx hrank
    refine ⟨p, by rw [hcalls, if_pos rfl]; exact hpc, fun q hq => by rw [hcalls, if_neg hq], ?_⟩
    rw [hcalls, if_pos rfl, serverWork, serverWork, hmtx]
    rcases hrank with hrank | ⟨hrank, hnone⟩
    · omega
    · have hle := hcard.resolve_right (by rw [hnone]; simp)
      omega
  cases step_moves hstep with
  | @listen m p timestamp hpc =>
    exact .inr (hcall p .start (by simp) (by simp) rfl (.inr ⟨by rw [hpc]; decide, rfl⟩))
  | @recvHasNumber p i hpc hlt =>
    exact .inr (hcall p (.hasNumber i) (by simp) (by simp) rfl
      (.inr ⟨by rw [hpc]; simp [InitPc.rank], rfl⟩))
  | @recvNumber p n i hpc hpos hlt =>
    exact .inr (hcall p (.number n i) (by simp) (by simp) rfl
      (.inr ⟨by rw [hpc]; simp [InitPc.rank], rfl⟩))
  | @issue p n ports hpc hport =>
    exact .inr (hcall p (.issued n) (by simp) (by simp) rfl
      (.inr ⟨by rw [hpc]; simp [InitPc.rank], rfl⟩))
  | @search p hpc hport hmtx =>
    refine .inl ⟨rfl, ?_⟩
    rw [serverWork, serverWork, hmtx]
    exact Nat.lt_succ_self _
  | @create p n hpc =>
    exact .inr (hcall p (.created n) (by simp) (by simp) rfl
      (.inr ⟨by rw [hpc]; simp [InitPc.rank], rfl⟩))
  | @sendNumber p n hpc =>
    exact .inr (hcall p (.number n 0) (by simp) (by simp) rfl
      (.inr ⟨by rw [hpc]; simp [InitPc.rank], rfl⟩))
  | @insert p n i io hpc hput =>
    exact .inr (hcall p (.inserted n i) (by simp) (by simp) rfl
      (.inl (by rw [hpc]; simp [InitPc.rank])))
  | fail => exact hplain.elim
  | @accept m num' n vec ports hfound hport =>
    obtain rfl : m = 0 := hplain
    obtain rfl : num' = num := hnum _ _ rfl
    exact .inl ⟨rfl, Nat.add_lt_add_right (card_groups_accept hstep).1 _⟩
  | clear => exact hplain.elim

/-- The group of a call stays the same. -/
theorem group_step (hplain : Plain e) (hstep : server.step num e = some (.ok server'))
    {q : ChannelId} {n : Nat} (hgroup : (server.calls q).pc.group = some n) :
    (server'.calls q).pc.group = some n := by
  -- a call that moves had no group, or has the same
  have hcall : ∀ (p : ChannelId) (pc : InitPc),
      (∀ q, (server'.calls q).pc = if q = p then pc else (server.calls q).pc) →
      (server.calls p).pc.group = none ∨ (server.calls p).pc.group = pc.group →
      (server'.calls q).pc.group = some n := by
    intro p pc hcalls hpc
    rw [hcalls]
    split
    · rename_i hq
      rw [hq] at hgroup
      rcases hpc with hpc | hpc
      · rw [hpc] at hgroup
        cases hgroup
      · rwa [← hpc]
    · exact hgroup
  cases step_moves hstep with
  | @listen m p timestamp hpc => exact hcall p .start (by simp) (.inl (by rw [hpc]; rfl))
  | @recvHasNumber p i hpc hlt => exact hcall p (.hasNumber i) (by simp) (.inl (by rw [hpc]; rfl))
  | @recvNumber p n i hpc hpos hlt =>
    exact hcall p (.number n i) (by simp) (.inl (by rw [hpc]; rfl))
  | @issue p n ports hpc hport => exact hcall p (.issued n) (by simp) (.inl (by rw [hpc]; rfl))
  | @create p n hpc => exact hcall p (.created n) (by simp) (.inl (by rw [hpc]; rfl))
  | @sendNumber p n hpc => exact hcall p (.number n 0) (by simp) (.inr (by rw [hpc]; rfl))
  | @insert p n i io hpc hput => exact hcall p (.inserted n i) (by simp) (.inr (by rw [hpc]; rfl))
  | search | accept => exact hgroup
  | fail => exact hplain.elim
  | clear => exact hplain.elim

/-- No call is left by an exception. -/
theorem alive_step (hplain : Plain e) (hstep : server.step num e = some (.ok server'))
    (halive : ∀ p, (server.calls p).pc ≠ .failed) (p : ChannelId) :
    (server'.calls p).pc ≠ .failed := by
  cases step_moves hstep with
  | search | accept => exact halive p
  | fail => exact hplain.elim
  | clear => exact hplain.elim
  | _ =>
    simp only [setPc_pc, startCall_pc, setManager_calls]
    split
    · simp
    · exact halive p

end

/-! ## What there is to do -/

section

variable {num : Nat} {s s' : Peers} {e : PeerEvent} {clients : Finset Nat}

/-- The steps that the two ends of a channel have before them. -/
def weight (s : Peers) (p : ChannelId) : Nat := (s.threads p).rank + (s.server.calls p).pc.rank

/-- What some clients and the server have to do. -/
def work (num : Nat) (clients : Finset Nat) (s : Peers) : Nat :=
  (clients ×ˢ Finset.range num).sum s.weight + serverWork num s.server

/-- One channel has less to do. -/
theorem work_lt_of_weight {p : ChannelId} (hc : p.1 ∈ clients) (hi : p.2 < num)
    (hother : ∀ q, q ≠ p → s'.weight q = s.weight q)
    (hlt : s'.weight p + serverWork num s'.server < s.weight p + serverWork num s.server) :
    s'.work num clients < s.work num clients := by
  have hmem : p ∈ clients ×ˢ Finset.range num :=
    Finset.mem_product.mpr ⟨hc, Finset.mem_range.mpr hi⟩
  have hsame : ((clients ×ˢ Finset.range num).erase p).sum s'.weight =
      ((clients ×ˢ Finset.range num).erase p).sum s.weight :=
    Finset.sum_congr rfl fun q hq => hother q (Finset.ne_of_mem_erase hq)
  have hsplit : ∀ s : Peers, s.weight p + ((clients ×ˢ Finset.range num).erase p).sum s.weight =
      (clients ×ˢ Finset.range num).sum s.weight := fun s => Finset.add_sum_erase _ _ hmem
  have hafter := hsplit s'
  have hbefore := hsplit s
  rw [work, work]
  omega

/-- The channels of clients that have begun. -/
theorem Agreement.begun (h : Agreement num s) (hclients : ∀ c, s.connected c ≠ 0 → c ∈ clients)
    {p : ChannelId} (hthread : s.threads p ≠ .absent) : p.1 ∈ clients ∧ p.2 < num := by
  refine ⟨hclients p.1 fun hzero => hthread (h.loop p ?_), (h.line p).exists_lt hthread⟩
  rw [hzero]
  exact Nat.zero_le _

/-- **Each step** leaves less to do. -/
theorem Effect.work_lt (h : Effect num s s' e) (hs : Agreement num s) (hs' : Agreement num s')
    (hclients : ∀ c, s'.connected c ≠ 0 → c ∈ clients) :
    s'.work num clients < s.work num clients := by
  -- a thread takes a step
  have hthread : ∀ (p : ChannelId) (pc : ConnectPc), s'.server = s.server →
      s'.threads = Function.update s.threads p pc → pc.rank < (s.threads p).rank →
      pc ≠ .absent → s'.work num clients < s.work num clients := by
    intro p pc hserver hthreads hrank hpc
    have hthread : s'.threads p = pc := by rw [hthreads, Function.update_self]
    obtain ⟨hc, hi⟩ := hs'.begun hclients (by rw [hthread]; exact hpc)
    refine work_lt_of_weight hc hi (fun q hq => ?_) ?_
    · rw [weight, weight, hthreads, Function.update_of_ne hq, hserver]
    · rw [weight, weight, hthread, hserver]
      omega
  cases h with
  | @connect c hlt hserver hthreads hconnected =>
    refine hthread _ _ hserver hthreads ?_ (by simp)
    rw [hs.loop (c, s.connected c) (Nat.le_refl _)]
    decide
  | @thread e p pc he hbegun hrank hserver hthreads hconnected =>
    exact hthread p pc hserver hthreads hrank (ConnectPc.ne_absent_of_rank hbegun hrank)
  | @server e e' he hplain hnum hstep hthreads hconnected =>
    rcases rank_step hs.slots.numbers hplain hnum hstep with ⟨hcalls, hlt⟩ | ⟨p, hpc, hother, hlt⟩
    · have hsame : s'.weight = s.weight := by
        funext p
        rw [weight, weight, hthreads, hcalls]
      rw [work, work, hsame]
      exact Nat.add_lt_add_left hlt _
    · obtain ⟨hc, hi⟩ := hs'.begun hclients ((hs'.line p).listened hpc)
      refine work_lt_of_weight hc hi (fun q hq => ?_) ?_
      · rw [weight, weight, hthreads, hother q hq]
      · rw [weight, weight, hthreads]
        omega

end

/-! ## Who has made which vector -/

/-- Every vector is that of a client whose group has not been accepted. -/
def Founded (s : Peers) : Prop :=
  ∀ m n vec, (s.server.managers m).vec n = some vec →
    m = 0 ∧ ∃ c, (s.server.calls (c, 0)).pc.group = some n ∧ ¬ s.Accepted (c, 0)

section

variable {num : Nat} {s s' : Peers}

theorem Founded.same (h : s.Founded) (hserver : s'.server = s.server) : s'.Founded := by
  intro m n vec hvec
  rw [hserver] at hvec
  obtain ⟨hm, c, hgroup, hwait⟩ := h m n vec hvec
  refine ⟨hm, c, by rwa [hserver], ?_⟩
  rintro ⟨k, i, ho⟩
  exact hwait ⟨k, i, hserver ▸ ho⟩

/-- Vectors that were there keep their client, as long as none is accepted. -/
theorem Founded.keep (h : s.Founded) {e : ServerEvent ChannelId} (hplain : Plain e)
    (hstep : s.server.step num e = some (.ok s'.server)) {m n : Nat} {vec : List (Option ChannelId)}
    (hvec : (s.server.managers m).vec n = some vec)
    (haccepted : s'.server.accepted = s.server.accepted) :
    m = 0 ∧ ∃ c, (s'.server.calls (c, 0)).pc.group = some n ∧ ¬ s'.Accepted (c, 0) := by
  obtain ⟨hm, c, hgroup, hwait⟩ := h m n vec hvec
  refine ⟨hm, c, group_step hplain hstep hgroup, ?_⟩
  rintro ⟨k, i, ho⟩
  refine hwait ⟨k, i, ?_⟩
  rwa [Owns, haccepted] at ho

/-- A step of the server. -/
theorem Founded.server (h : s.Founded) (hs : Agreement num s) {e : ServerEvent ChannelId}
    (hplain : Plain e) (hnum : ∀ m num', e = .accept m num' → num' = num)
    (hstep : s.server.step num e = some (.ok s'.server)) : s'.Founded := by
  intro m k vec hvec
  obtain ⟨server', hserver⟩ : ∃ server', server' = s'.server := ⟨_, rfl⟩
  have hmove := step_moves hstep
  rw [← hserver] at hvec hmove
  cases hmove with
  | listen | recvHasNumber | recvNumber | issue | sendNumber =>
    exact h.keep hplain hstep hvec (by rw [← hserver]; rfl)
  | search => exact h.keep hplain hstep hvec (by rw [← hserver])
  | @create p n hpc =>
    have hfresh := hs.slots.numbers.vec_of_issued hpc (s.server.calls p).manager
    simp only [setPc_managers, setManager_managers] at hvec
    split at hvec
    · rename_i hm
      rw [IoManager.vec_createGroup] at hvec
      split at hvec
      · -- the vector of the step
        rename_i hk
        subst hk
        have hindex : p.2 = 0 := ((hs.line p).index 0 (by rw [hpc]; rfl)).symm
        have hp : p = (p.1, 0) := Prod.ext rfl hindex
        have ho : s.server.Owns p .call := by rw [Owns, hpc]; rfl
        refine ⟨by rw [hm, hs.placed.manager], p.1, ?_, ?_⟩
        · rw [← hp, ← hserver]
          simp [InitPc.group]
        · rw [← hp]
          rintro ⟨k, i, hacc⟩
          refine hs.not_accepted ho (by simp) ⟨k, i, ?_⟩
          rwa [Owns, ← hserver] at hacc
      · rw [← hm] at hvec
        exact h.keep hplain hstep hvec (by rw [← hserver]; rfl)
    · exact h.keep hplain hstep hvec (by rw [← hserver]; rfl)
  | @insert p n i io hpc hput =>
    obtain ⟨vec', hvec', -, -, hio⟩ := IoManager.put_eq_ok hput
    simp only [setPc_managers, setManager_managers] at hvec
    split at hvec
    · rename_i hm
      rw [hio] at hvec
      split at hvec
      · rename_i hk
        subst hk
        rw [← hm] at hvec'
        exact h.keep hplain hstep hvec' (by rw [← hserver]; rfl)
      · rw [← hm] at hvec
        exact h.keep hplain hstep hvec (by rw [← hserver]; rfl)
    · exact h.keep hplain hstep hvec (by rw [← hserver]; rfl)
  | fail => exact hplain.elim
  | @accept m' num' n vec' ports hfound hport =>
    have hm' : m' = 0 := hplain
    subst hm'
    obtain rfl : num' = num := hnum _ _ rfl
    obtain ⟨hvec', -⟩ := IoManager.complete_eq_some hfound
    have hleft : n ≠ k ∧ (s.server.managers m).vec k = some vec := by
      simp only [setManager_managers] at hvec
      split at hvec
      · rename_i hm
        rw [IoManager.vec_remove] at hvec
        split at hvec
        · cases hvec
        · rename_i hk
          exact ⟨hk, by rwa [hm]⟩
      · rename_i hm
        exact absurd (h m k vec hvec).1 hm
    obtain ⟨hm, c, hgroup, hwait⟩ := h m k vec hleft.2
    refine ⟨hm, c, group_step hplain hstep hgroup, ?_⟩
    rintro ⟨j, i, hacc⟩
    rw [owns_group_append (s := s.server) (g := vec'.take num') (by rw [← hserver])] at hacc
    rcases hacc with hold | ⟨-, hnew⟩
    · exact hwait ⟨j, i, hold⟩
    · -- the channels of the group that is accepted belong to another number
      rw [List.getElem?_take] at hnew
      split at hnew
      · have hslot : (s.server.managers 0).slot n i = some (some (c, 0)) := by
          rw [IoManager.slot_eq hvec', hnew]
        have hgroup' := (hs.in_slot hslot).1
        rw [hgroup] at hgroup'
        exact hleft.1 (Option.some.inj hgroup').symm
      · cases hnew
  | clear => exact hplain.elim

end

/-! ## Where nothing can go on -/

/-- What holds in every state. -/
structure Going (num : Nat) (s : Peers) : Prop where
  agreement : Agreement num s
  numbers : s.server.NumbersAgree
  founded : s.Founded
  searching : s.server.Searching
  alive : ∀ p, (s.server.calls p).pc ≠ .failed
  bound : ∀ c, s.connected c ≤ num
  made : ∀ p, p.2 < s.connected p.1 → s.threads p ≠ .absent

theorem going_start (num : Nat) : Going num {} where
  agreement := agreement_start num
  numbers := agree_start
  founded m n vec h := by simp at h
  searching := searching_start
  alive p h := by cases h
  bound c := Nat.zero_le _
  made p h := (Nat.not_lt_zero _ h).elim

section

variable {num : Nat} {s s' : Peers} {e : PeerEvent}

/-- **One step** keeps it. -/
theorem Going.step (h : Going num s) (hs' : Agreement num s') (heffect : Effect num s s' e) :
    Going num s' := by
  cases heffect with
  | @connect c hlt hserver hthreads hconnected =>
    refine ⟨hs', hserver ▸ h.numbers, h.founded.same hserver, hserver ▸ h.searching,
      hserver ▸ h.alive, fun c' => ?_, fun p hp => ?_⟩
    · rw [hconnected]
      by_cases hc : c' = c
      · subst hc
        rw [Function.update_self]
        exact hlt
      · rw [Function.update_of_ne hc]
        exact h.bound c'
    · rw [hthreads]
      by_cases hp' : p = (c, s.connected c)
      · rw [hp', Function.update_self]
        simp
      · rw [Function.update_of_ne hp']
        refine h.made p ?_
        rw [hconnected] at hp
        by_cases hc : p.1 = c
        · rw [hc, Function.update_self] at hp
          have hne : p.2 ≠ s.connected c := fun heq => hp' (Prod.ext hc heq)
          rw [hc]
          omega
        · rwa [Function.update_of_ne hc] at hp
  | @thread e p pc he hbegun hrank hserver hthreads hconnected =>
    refine ⟨hs', hserver ▸ h.numbers, h.founded.same hserver, hserver ▸ h.searching,
      hserver ▸ h.alive, hconnected ▸ h.bound, fun q hq => ?_⟩
    rw [hthreads]
    by_cases hqp : q = p
    · subst hqp
      rw [Function.update_self]
      exact ConnectPc.ne_absent_of_rank hbegun hrank
    · rw [Function.update_of_ne hqp]
      exact h.made q (by rwa [hconnected] at hq)
  | @server e e' he hplain hnum hstep hthreads hconnected =>
    refine ⟨hs', ?_, h.founded.server h.agreement hplain hnum hstep,
      h.searching.step h.agreement.slots.numbers hstep, alive_step hplain hstep h.alive,
      hconnected ▸ h.bound, fun q hq => ?_⟩
    · have hclears : s.server.clearsNothing e' = true := by
        cases e' with
        | clear m force timestamp => exact hplain.elim
        | _ => rfl
      exact ((h.agreement.slots.numbers.step hstep).2 h.numbers).mpr hclears
    · rw [hthreads]
      exact h.made q (by rwa [hconnected] at hq)

/-- No step is possible, but for a client that begins. -/
def Stuck (num : Nat) (s : Peers) : Prop :=
  ∀ e, (∀ c, e = .connect c → s.connected c ≠ 0) → s.step num e = none

/-- Only a call that may not be made waits in the server. -/
theorem serverStep_none {s₀ : Peers} {e : ServerEvent ChannelId}
    (h : s₀.serverStep num e = none) : s₀.server.step num e = none :=
  Option.map_eq_none_iff.mp h

theorem Stuck.groups (h : s.Stuck num) (hmtx : s.server.portMtx = none) :
    (s.server.managers 0).groups num = ∅ :=
  groups_of_wait hmtx (serverStep_none (h .accept (by simp)))

/-- A thread that has begun waits for its number, or is done. -/
theorem Stuck.thread (h : s.Stuck num) {p : ChannelId} (hthread : s.threads p ≠ .absent) :
    s.threads p = .exchanging ∨ ∃ n, s.threads p = .done n := by
  cases ht : s.threads p with
  | absent => exact absurd ht hthread
  | start =>
    have hsend := h (.sendHasNumber p) (by simp)
    simp [Peers.step, ht] at hsend
  | exchanging => exact .inl rfl
  | numbered =>
    have hsend := h (.sendNumber p) (by simp)
    simp [Peers.step, ht] at hsend
  | done n => exact .inr ⟨n, rfl⟩

/-- A call that has begun waits for its peer or for a number, or is done. -/
theorem Stuck.call (h : s.Stuck num) (hs : Going num s) {p : ChannelId}
    (hthread : s.threads p ≠ .absent) :
    (∃ i, (s.server.calls p).pc = .hasNumber i) ∨
      ∃ n i, (s.server.calls p).pc = .inserted n i := by
  cases hpc : (s.server.calls p).pc with
  | absent =>
    have hlisten := h (.listen p 0) (by simp)
    cases ht : s.threads p with
    | absent => exact absurd ht hthread
    | _ => simp [Peers.step, ht, serverStep, Server.step, hpc] at hlisten
  | start =>
    -- the first byte has come in
    have hbytes : (s.threads p).sent p = s.toServer p := by
      have hline := (hs.agreement.line p).toServer
      rwa [hpc] at hline
    have hsent : ∃ b rest, s.toServer p = b :: rest := by
      rw [← hbytes]
      rcases h.thread hthread with ht | ⟨n, ht⟩
      · exact ⟨_, _, by rw [ht]; rfl⟩
      · rw [ht]
        simp only [ConnectPc.sent]
        split <;> exact ⟨_, _, rfl⟩
    obtain ⟨b, rest, hb⟩ := hsent
    have hrecv := h (.serverRecvHasNumber p) (by simp)
    have hlt : b.toNat < 256 := b.toNat_lt
    simp [Peers.step, hb, serverStep, Server.step, hpc, hlt] at hrecv
  | hasNumber i => exact .inl ⟨i, rfl⟩
  | issued n =>
    have hcreate := serverStep_none (h (.create p) (by simp))
    simp [Server.step, hpc] at hcreate
  | created n =>
    have hsend := h (.serverSendNumber p) (by simp)
    simp [Peers.step, hpc, serverStep, Server.step] at hsend
  | number n i =>
    have hinsert := serverStep_none (h (.insert p) (by simp))
    simp [Server.step, hpc] at hinsert
  | inserted n i => exact .inr ⟨n, i, rfl⟩
  | failed => exact absurd hpc (hs.alive p)

/-- The first thread of a client is done, or its call waits for a number. -/
theorem Stuck.first (h : s.Stuck num) (hs : Going num s) (hnum : num ≤ 256) {c : Nat}
    (hthread : s.threads (c, 0) ≠ .absent) :
    (∃ n, s.threads (c, 0) = .done n) ∨ (s.server.calls (c, 0)).pc = .hasNumber 0 := by
  rcases h.thread hthread with ht | hdone
  · right
    have hline := hs.agreement.line (c, 0)
    have hzero : hasNumber2 (c, 0) = 0 :=
      (Line.hasNumber2_eq_zero (hline.exists_lt hthread) hnum).mpr rfl
    rcases h.call hs hthread with ⟨i, hpc⟩ | ⟨n, i, hpc⟩
    · obtain rfl : i = 0 := hline.index i (by rw [hpc]; rfl)
      exact hpc
    · -- the number is on its way to the thread
      have hbytes : s.toClient (c, 0) = toBE 4 n := by
        have hdown := hline.toClient
        rw [hpc, ht] at hdown
        simpa [InitPc.sent, ConnectPc.received, hzero] using hdown.symm
      have hrecv := h (.recvNumber (c, 0)) (by simp)
      simp [Peers.step, ht, hzero, hbytes] at hrecv
  · exact .inl hdone

/-- With the first thread of a client the others are done. -/
theorem Stuck.done (h : s.Stuck num) (hs : Going num s) (hnum : num ≤ 256) {c n i : Nat}
    (hfirst : s.threads (c, 0) = .done n) (hthread : s.threads (c, i) ≠ .absent) :
    s.threads (c, i) = .done n := by
  obtain ⟨hnumber, hne, -⟩ := (hs.agreement.line (c, 0)).done n hfirst
  rcases h.thread hthread with ht | ⟨n', ht⟩
  · -- a thread that waits for the number finds it
    have hi : i ≠ 0 := by
      rintro rfl
      rw [hfirst] at ht
      cases ht
    have hlt := (hs.agreement.line (c, i)).exists_lt hthread
    have hzero : hasNumber2 (c, i) ≠ 0 := fun hz => hi ((Line.hasNumber2_eq_zero hlt hnum).mp hz)
    have hwake := h (.wake (c, i)) (by simp)
    simp only [Peers.step, ht, if_pos (And.intro hzero (hnumber ▸ hne))] at hwake
    cases hwake
  · obtain ⟨hnumber', -⟩ := (hs.agreement.line (c, i)).done n' ht
    rw [ht, ← hnumber', ← hnumber]

/-- With the thread the call is done. -/
theorem Stuck.inserted (h : s.Stuck num) (hs : Going num s) (hnum : num ≤ 256) {p : ChannelId}
    {n : Nat} (hdone : s.threads p = .done n) : (s.server.calls p).pc = .inserted n p.2 := by
  have hline := hs.agreement.line p
  have hthread : s.threads p ≠ .absent := by simp [hdone]
  have hlt := hline.exists_lt hthread
  rcases h.call hs hthread with ⟨i, hpc⟩ | ⟨k, i, hpc⟩
  · obtain rfl : i = p.2 := hline.index i (by rw [hpc]; rfl)
    by_cases hp : p.2 = 0
    · have hgroup := hline.granted n hdone hp
      rw [hpc] at hgroup
      cases hgroup
    · -- the number is on its way to the call
      have hzero : hasNumber2 p ≠ 0 := fun hz => hp ((Line.hasNumber2_eq_zero hlt hnum).mp hz)
      have hbytes : s.toServer p = toBE 4 n := by
        have hup := hline.toServer
        rw [hpc, hdone] at hup
        simpa [InitPc.received, ConnectPc.sent, hzero] using hup.symm
      have hbound := (hline.done n hdone).2.2
      have hrecv := h (.serverRecvNumber p) (by simp)
      have hvalue : ofBE ((toBE 4 n).take 4) = n := by
        rw [List.take_of_length_le (by simp), ofBE_toBE_of_lt (by simpa using hbound)]
      simp [Peers.step, hbytes, hvalue, serverStep, Server.step, hpc, hp] at hrecv
      omega
  · obtain rfl : i = p.2 := hline.index i (by rw [hpc]; rfl)
    by_cases hp : p.2 = 0
    · have hgroup := hline.granted n hdone hp
      rw [hpc] at hgroup
      cases hgroup
      exact hpc
    · have hquoted := hline.quoted k (by rw [hpc]; rfl) hp
      rw [hdone] at hquoted
      cases hquoted
      exact hpc

/-- Where all calls of a client are done its group has been accepted. -/
theorem Stuck.accepted (h : s.Stuck num) (hs : Going num s) (hmtx : s.server.portMtx = none)
    {c n : Nat} (hpos : 0 < num)
    (hinserted : ∀ i < num, (s.server.calls (c, i)).pc = .inserted n i) : s.Accepted (c, 0) := by
  by_contra hwait
  -- each channel is in its slot
  have hslot : ∀ i < num, (s.server.managers 0).slot n i = some (some (c, i)) := by
    intro i hi
    have hpc := hinserted i hi
    obtain ⟨o, ho, -⟩ := hs.agreement.owners.owner (c, i) (by simp [hpc])
    cases o with
    | call => simp [Owns, hpc, InitPc.ownsIo] at ho
    | slot m n' i' =>
      obtain ⟨hpc', rfl⟩ := hs.agreement.placed.slot m n' i' (c, i) ho
      rw [hpc] at hpc'
      cases hpc'
      exact ho
    | group k j => exact absurd (hs.agreement.accepted_all ⟨k, j, ho⟩ hpos) hwait
    | deleted => simp [Owns, hs.agreement.placed.deleted] at ho
  obtain ⟨vec, hvec, -⟩ := IoManager.vec_of_slot (hslot 0 hpos)
  have hnone : n ∉ (s.server.managers 0).groups num := by
    rw [h.groups hmtx]
    exact Finset.notMem_empty n
  rcases hs.agreement.slots.shape 0 n vec hvec with ⟨hlen, hempty⟩ | ⟨ps, hps, hcomplete⟩
  · obtain ⟨i, hi, hget⟩ := List.mem_iff_getElem.mp hempty
    have hfull := hslot i (by omega)
    rw [IoManager.slot_eq hvec, List.getElem?_eq_getElem hi, hget] at hfull
    cases hfull
  · refine hnone (IoManager.mem_groups.mpr ⟨vec, hvec, ?_⟩)
    rw [hcomplete, List.length_append, List.length_map, hps]
    exact Nat.lt_succ_self num

/-- A client that has begun has all its channels made. -/
theorem Stuck.made (h : s.Stuck num) (hs : Going num s) {c : Nat} (hc : s.connected c ≠ 0) {i : Nat}
    (hi : i < num) : s.threads (c, i) ≠ .absent := by
  have hconnect := h (.connect c) (by
    intro c' hc'
    cases hc'
    exact hc)
  have hfull : ¬ s.connected c < num := by
    intro hlt
    simp [Peers.step, hlt] at hconnect
  exact hs.made (c, i) (Nat.lt_of_lt_of_le hi (Nat.not_lt.mp hfull))

/-- A client whose first thread is done has its group. -/
theorem Stuck.accepted_of_done (h : s.Stuck num) (hs : Going num s)
    (hmtx : s.server.portMtx = none) (hnum : num ≤ 256) (hpos : 0 < num) {c n : Nat}
    (hc : s.connected c ≠ 0) (hfirst : s.threads (c, 0) = .done n) : s.Accepted (c, 0) :=
  h.accepted hs hmtx hpos fun _ hi => h.inserted hs hnum (h.done hs hnum hfirst (h.made hs hc hi))

/-- No first thread waits: its call would look for a number. -/
theorem Stuck.first_done (h : s.Stuck num) (hs : Going num s) (hmtx : s.server.portMtx = none)
    (hnum : num ≤ 256) (hpos : 0 < num) {c : Nat} (hc : s.connected c ≠ 0) :
    ∃ n, s.threads (c, 0) = .done n := by
  rcases h.first hs hnum (h.made hs hc hpos) with hdone | hpc
  · exact hdone
  · exfalso
    have hissue := serverStep_none (h (.issue (c, 0)) (by simp))
    simp only [Server.step, hpc, hmtx] at hissue
    split at hissue <;> cases hissue

/-- **Nothing is stuck half-way**: where no step is possible every client that has begun has
its number on all threads, and its group has been accepted. -/
theorem Stuck.settled (h : s.Stuck num) (hs : Going num s) (hmtx : s.server.portMtx = none)
    (hnum : num ≤ 256) (hpos : 0 < num) {c : Nat} (hc : s.connected c ≠ 0) :
    (∃ n, ∀ i < num, s.threads (c, i) = .done n) ∧ groupOf num c ∈ s.server.accepted := by
  obtain ⟨n, hfirst⟩ := h.first_done hs hmtx hnum hpos hc
  refine ⟨⟨n, fun i hi => h.done hs hnum hfirst (h.made hs hc hi)⟩, ?_⟩
  obtain ⟨k, i, ho⟩ := h.accepted_of_done hs hmtx hnum hpos hc hfirst
  obtain ⟨g, hg, hi⟩ := Option.bind_eq_some_iff.mp ho
  obtain ⟨c', rfl⟩ := hs.agreement.grouped g (List.mem_of_getElem? hg)
  have hmem := List.mem_of_getElem? hi
  obtain ⟨j, -, heq⟩ := List.mem_map.mp hmem
  cases heq
  exact List.mem_of_getElem? hg

/-! ## Where the numbers run out -/

/-- The number that a call has taken, and that of its group. -/
def taken : InitPc → Option Nat
  | .issued n => some n
  | pc => pc.group

theorem taken_of_group {pc : InitPc} {n : Nat} (h : pc.group = some n) : taken pc = some n := by
  cases pc with
  | issued => cases h
  | _ => exact h

/-- Each number in use is that of a client whose group has not been accepted. -/
theorem Going.client_of_used (h : Going num s) {n : Nat} (hn : s.server.ports.used n = true) :
    ∃ c, s.connected c ≠ 0 ∧ ¬ s.Accepted (c, 0) ∧
      taken (s.server.calls (c, 0)).pc = some n := by
  -- a call with a number has been made for a channel of a client that has begun
  have hbegun {c : Nat} (hcall : (s.server.calls (c, 0)).pc ≠ .absent) : s.connected c ≠ 0 :=
    fun hzero => (h.agreement.line (c, 0)).listened hcall
      (h.agreement.loop (c, 0) (Nat.le_of_eq hzero))
  obtain ⟨x, hx⟩ := (h.numbers.1 n).mp hn
  cases x with
  | manager m =>
    obtain ⟨vec, hvec⟩ := Option.isSome_iff_exists.mp hx
    obtain ⟨-, c, hgroup, hwait⟩ := h.founded m n vec hvec
    refine ⟨c, hbegun fun habs => ?_, hwait, taken_of_group hgroup⟩
    rw [habs] at hgroup
    cases hgroup
  | call p =>
    have hpc : (s.server.calls p).pc = .issued n := hx
    have hp : p = (p.1, 0) := Prod.ext rfl ((h.agreement.line p).index 0 (by rw [hpc]; rfl)).symm
    rw [hp] at hpc
    have ho : s.server.Owns (p.1, 0) .call := by rw [Owns, hpc]; rfl
    exact ⟨p.1, hbegun (by simp [hpc]), h.agreement.not_accepted ho (by simp), by rw [hpc]; rfl⟩

/-- **A search without end** means that more clients have begun and have not been accepted
than there are numbers: one for each number, and the one whose call searches. -/
theorem Going.crowd (h : Going num s) {p : ChannelId} (hp : s.server.portMtx = some p)
    {waiting : Finset Nat}
    (hwaiting : ∀ c, s.connected c ≠ 0 → ¬ s.Accepted (c, 0) → c ∈ waiting) :
    maxPortSeq ≤ waiting.card := by
  obtain ⟨hpc, hsearch⟩ := h.searching p hp
  have hclient : ∀ n ∈ Finset.range maxPortSeq, ∃ c, c ∈ waiting ∧
      taken (s.server.calls (c, 0)).pc = if n = 0 then none else some n := by
    intro n hn
    by_cases hzero : n = 0
    · have hfirst : p = (p.1, 0) :=
        Prod.ext rfl ((h.agreement.line p).index 0 (by rw [hpc]; rfl)).symm
      rw [hfirst] at hpc
      have hcall : (s.server.calls (p.1, 0)).pc ≠ .absent := by simp [hpc]
      have ho : s.server.Owns (p.1, 0) .call := by rw [Owns, hpc]; rfl
      refine ⟨p.1, hwaiting p.1 (fun hnone => ?_) (h.agreement.not_accepted ho (by simp)), ?_⟩
      · exact (h.agreement.line (p.1, 0)).listened hcall
          (h.agreement.loop (p.1, 0) (Nat.le_of_eq hnone))
      · rw [hpc, if_pos hzero]
        rfl
    · have hused := Ports.getUnusedPort_none h.agreement.slots.numbers.ports
        (hsearch (maxPortSeq - 1)) (Nat.pos_of_ne_zero hzero) (Finset.mem_range.mp hn)
      obtain ⟨c, hc, hwait, hnumber⟩ := h.client_of_used hused
      exact ⟨c, hwaiting c hc hwait, by rw [hnumber, if_neg hzero]⟩
  choose! client hmem hnumber using hclient
  rw [← Finset.card_range maxPortSeq]
  refine Finset.card_le_card_of_injOn client hmem fun i hi j hj heq => ?_
  have hsame : (if i = 0 then none else some i) = if j = 0 then none else some j := by
    rw [← hnumber i hi, ← hnumber j hj, heq]
  split at hsame <;> split at hsame <;> simp_all

/-! ## Runs -/

/-- Without a new client the same ones have begun. -/
theorem Effect.connected (h : Effect num s s' e)
    (he : ∀ c, e = .connect c → s.connected c ≠ 0) (c : Nat) :
    s'.connected c ≠ 0 ↔ s.connected c ≠ 0 := by
  cases h with
  | @connect c' hlt hserver hthreads hconnected =>
    rw [hconnected]
    by_cases hc : c = c'
    · subst hc
      simpa using he c rfl
    · rw [Function.update_of_ne hc]
  | thread _ _ _ _ _ hconnected | server _ _ _ _ _ hconnected => rw [hconnected]

/-- Only so many clients have begun. -/
theorem Effect.finite (h : Effect num s s' e) {clients : Finset Nat}
    (hclients : ∀ c, s.connected c ≠ 0 → c ∈ clients) :
    ∃ clients : Finset Nat, ∀ c, s'.connected c ≠ 0 → c ∈ clients := by
  cases h with
  | @connect c' hlt hserver hthreads hconnected =>
    refine ⟨insert c' clients, fun c hc => ?_⟩
    rw [hconnected] at hc
    by_cases hcc : c = c'
    · exact Finset.mem_insert.mpr (.inl hcc)
    · rw [Function.update_of_ne hcc] at hc
      exact Finset.mem_insert_of_mem (hclients c hc)
  | thread _ _ _ _ _ hconnected | server _ _ _ _ _ hconnected =>
    exact ⟨clients, by rw [hconnected]; exact hclients⟩

theorem going_run (hnum : num ≤ 256) {es : List PeerEvent} {s : Peers}
    (hrun : (machine num).run es = some (.ok s)) :
    Going num s ∧ ∃ clients : Finset Nat, ∀ c, s.connected c ≠ 0 → c ∈ clients := by
  have hstep : ∀ (s : Peers) e r,
      (Going num s ∧ ∃ clients : Finset Nat, ∀ c, s.connected c ≠ 0 → c ∈ clients) →
      s.step num e = some r → ∃ s', r = .ok s' ∧ Going num s' ∧
        ∃ clients : Finset Nat, ∀ c, s'.connected c ≠ 0 → c ∈ clients := by
    rintro s e r ⟨h, clients, hclients⟩ hstep
    obtain ⟨s', rfl, hs'⟩ := h.agreement.step hnum hstep
    have heffect := step_effect hstep
    exact ⟨s', rfl, h.step hs' heffect, heffect.finite hclients⟩
  obtain ⟨s', hs', h⟩ :=
    fallible_run _ ⟨going_start num, ∅, fun c hc => (hc rfl).elim⟩ hstep hrun
  cases hs'
  exact h

variable (num) in
/-- The work of a state that is no failure. -/
def workLeft (clients : Finset Nat) : Res Peers → Nat
  | .ok s => s.work num clients
  | .error _ => 0

end

/-- At most so many clients have begun whose groups have not been accepted. -/
def AtMost (num bound : Nat) (s : Peers) : Prop :=
  ∃ waiting : Finset Nat, waiting.card ≤ bound ∧
    ∀ c, s.connected c ≠ 0 → groupOf num c ∉ s.server.accepted → c ∈ waiting

/-- As many clients as there are numbers do not make a search endless. -/
theorem Going.portMtx_free (h : Going num s) (hpos : 0 < num)
    (hfew : s.AtMost num (maxPortSeq - 1)) : s.server.portMtx = none := by
  obtain ⟨waiting, hcard, hwaiting⟩ := hfew
  cases hmtx : s.server.portMtx with
  | none => rfl
  | some p =>
    have hcrowd := h.crowd hmtx fun c hc hwait => hwaiting c hc fun hmem => by
      obtain ⟨k, hk⟩ := List.mem_iff_getElem?.mp hmem
      refine hwait ⟨k, 0, ?_⟩
      simp [Owns, hk, groupOf, hpos]
    have hmax : 0 < maxPortSeq := by decide
    omega

/-- **Every client gets its channels**, whatever the order of the steps. From every state of
every run there is a bound on how long it can go on without a new client; it never goes
wrong, and where it cannot go on, every client that has begun has its number on all threads
and its group has been accepted, if the clients that wait are not more than the numbers. -/
theorem connect_completes {num : Nat} (hpos : 0 < num) (hnum : num ≤ 256) {es : List PeerEvent}
    {s : Peers} (hrun : (machine num).run es = some (.ok s)) :
    ∃ bound, ∀ more r, (∀ e ∈ more, ∀ c, e = .connect c → s.connected c ≠ 0) →
      (machine num).run (es ++ more) = some r → more.length ≤ bound ∧
        ∃ s', r = .ok s' ∧ (∀ c, s'.connected c ≠ 0 ↔ s.connected c ≠ 0) ∧
          ((∀ e, (∀ c, e = .connect c → s.connected c ≠ 0) → s'.step num e = none) →
            s'.AtMost num (maxPortSeq - 1) →
            ∀ c, s.connected c ≠ 0 → (∃ n, ∀ i < num, s'.threads (c, i) = .done n) ∧
              groupOf num c ∈ s'.server.accepted) := by
  obtain ⟨hgoing, clients, hclients⟩ := going_run hnum hrun
  refine ⟨s.work num clients, fun more r hmore hrun' => ?_⟩
  rw [Machine.run, Machine.runFrom_append hrun] at hrun'
  -- one more step
  have hstep : ∀ (t : Peers) e r, Going num t ∧ (∀ c, t.connected c ≠ 0 ↔ s.connected c ≠ 0) →
      (∀ c, e = .connect c → s.connected c ≠ 0) → t.step num e = some r →
      ∃ t', r = .ok t' ∧ Going num t' ∧ (∀ c, t'.connected c ≠ 0 ↔ s.connected c ≠ 0) ∧
        t'.work num clients < t.work num clients := by
    rintro t e r ⟨ht, hsame⟩ he hstep
    obtain ⟨t', rfl, ht'⟩ := ht.agreement.step hnum hstep
    have heffect := step_effect hstep
    have hsame' : ∀ c, t'.connected c ≠ 0 ↔ s.connected c ≠ 0 := fun c =>
      (heffect.connected (fun c hc => (hsame c).mpr (he c hc)) c).trans (hsame c)
    exact ⟨t', rfl, ht.step ht' heffect, hsame', heffect.work_lt ht.agreement ht' fun c hc =>
      hclients c ((hsame' c).mp hc)⟩
  have hkeeps : ∀ r e r', (∃ t, r = .ok t ∧ Going num t ∧
        ∀ c, t.connected c ≠ 0 ↔ s.connected c ≠ 0) →
      (∀ c, e = .connect c → s.connected c ≠ 0) → (machine num).step r e = some r' →
      (∃ t, r' = .ok t ∧ Going num t ∧ ∀ c, t.connected c ≠ 0 ↔ s.connected c ≠ 0) ∧
        workLeft num clients r' < workLeft num clients r := by
    rintro _ e r' ⟨t, rfl, ht⟩ he hr
    obtain ⟨t', rfl, hgoing', hsame', hlt⟩ := hstep t e r' ht he hr
    exact ⟨⟨t', rfl, hgoing', hsame'⟩, hlt⟩
  have hinv : ∃ t, Except.ok s = (.ok t : Res Peers) ∧ Going num t ∧
      ∀ c, t.connected c ≠ 0 ↔ s.connected c ≠ 0 := ⟨s, rfl, hgoing, fun _ => Iff.rfl⟩
  constructor
  · have hle := Machine.runFrom_length_le (workLeft num clients)
      (fun r e r' hr he h => (hkeeps r e r' hr he h).1)
      (fun r e r' hr he h => (hkeeps r e r' hr he h).2) hinv hmore hrun'
    exact Nat.le_trans (Nat.le_add_right _ _) hle
  · obtain ⟨s', rfl, hgoing', hsame'⟩ := Machine.Reaches.keeps
      (fun r e r' hr he h => (hkeeps r e r' hr he h).1) ⟨more, hmore, hrun'⟩ hinv
    refine ⟨s', rfl, hsame', fun hstuck hfew c hc => ?_⟩
    have hstuck' : s'.Stuck num := fun e he => hstuck e fun c hc => (hsame' c).mp (he c hc)
    exact hstuck'.settled hgoing' (hgoing'.portMtx_free hpos hfew) hnum hpos ((hsame' c).mpr hc)

/-- Two clients, of which one has announced its first channel, are not too many. -/
theorem connect_completes_two : ∃ s,
    (machine 2).run [.connect 0, .connect 1, .sendHasNumber (0, 0)] = some (.ok s) ∧
      ∃ bound, ∀ more r, (∀ e ∈ more, ∀ c, e = .connect c → s.connected c ≠ 0) →
        (machine 2).run ([.connect 0, .connect 1, .sendHasNumber (0, 0)] ++ more) = some r →
        more.length ≤ bound ∧ ∃ s', r = .ok s' ∧
          ((∀ e, (∀ c, e = .connect c → s.connected c ≠ 0) → s'.step 2 e = none) →
            groupOf 2 0 ∈ s'.server.accepted ∧ groupOf 2 1 ∈ s'.server.accepted) := by
  obtain ⟨s, hrun, hbegun, htwo⟩ : ∃ s,
      (machine 2).run [.connect 0, .connect 1, .sendHasNumber (0, 0)] = some (.ok s) ∧
        (s.connected 0 ≠ 0 ∧ s.connected 1 ≠ 0) ∧
          ∀ c, s.connected c ≠ 0 → c ∈ ({0, 1} : Finset Nat) := by
    refine ⟨_, rfl, by decide, fun c hc => ?_⟩
    by_contra hother
    rw [Finset.mem_insert, Finset.mem_singleton, not_or] at hother
    simp [hother.1, hother.2] at hc
  obtain ⟨bound, hbound⟩ := connect_completes (by decide) (by decide) hrun
  refine ⟨s, hrun, bound, fun more r hmore hrun' => ?_⟩
  obtain ⟨hle, s', hs', hsame, hdone⟩ := hbound more r hmore hrun'
  have hfew : s'.AtMost 2 (maxPortSeq - 1) :=
    ⟨{0, 1}, by decide, fun c hc _ => htwo c ((hsame c).mp hc)⟩
  exact ⟨hle, s', hs', fun hstuck =>
    ⟨(hdone hstuck hfew 0 hbegun.1).2, (hdone hstuck hfew 1 hbegun.2).2⟩⟩

end Peers

end ZktlsNet
