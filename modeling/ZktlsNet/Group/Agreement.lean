import ZktlsNet.Group.Connect

/-!
# Clients and server agree on the groups

The number of a group is issued to the first channel of a client, comes back on the
others, and decides into which vector each of them goes. Numbers are issued again once
a group has been accepted; so it takes the whole path of a number to see that no two
clients meet in one vector.

- `Agreement`: the lines of all channels, the slots and owners of the server, and who is
  in which vector.
- `Agreement.unique`: a number belongs to one client until its group is accepted.
- `connect_agreement`: what clients and server can rely on in every run.
-/

namespace ZktlsNet

open NetLib Server

namespace Peers

/-- The line of a channel in a state. -/
def LineAt (num : Nat) (s : Peers) (p : ChannelId) : Prop :=
  Line num p (s.threads p) (s.server.calls p).pc (s.toServer p) (s.toClient p) (s.number p.1)

/-- The channels of a client, in the order of their indices. -/
def groupOf (num c : Nat) : List (Option ChannelId) := (List.range num).map fun i => some (c, i)

/-- An `accept` has returned the channel. -/
def Accepted (s : Peers) (p : ChannelId) : Prop := ∃ k i, s.server.Owns p (.group k i)

/-- Where the channels of a server without clean-up are. -/
structure Placed (server : Server ChannelId) : Prop where
  manager : ∀ p, (server.calls p).manager = 0
  deleted : server.deleted = []
  slot : ∀ m n i p, (server.managers m).slot n i = some (some p) →
    (server.calls p).pc = .inserted n i ∧ m = 0

/-- What holds in every state of a run. -/
structure Agreement (num : Nat) (s : Peers) : Prop where
  slots : s.server.Slots num
  owners : s.server.Owners
  placed : Placed s.server
  grouped : ∀ g ∈ s.server.accepted, ∃ c, g = groupOf num c
  line : ∀ p, s.LineAt num p
  /-- the loop of `connect_pado_io` makes the channels in the order of their indices -/
  loop : ∀ p, s.connected p.1 ≤ p.2 → s.threads p = .absent
  first : ∀ c, s.number c ≠ 0 → s.threads (c, 0) = .done (s.number c)

/-! ## The client behind a number -/

section

variable {num : Nat} {s : Peers}

/-- A call that belongs to a group belongs to that of its client's first channel. -/
theorem Agreement.group_first (h : Agreement num s) {c i n : Nat}
    (hgroup : (s.server.calls (c, i)).pc.group = some n) :
    (s.server.calls (c, 0)).pc.group = some n := by
  by_cases hi : i = 0
  · rwa [hi] at hgroup
  · have hdone := (h.line (c, i)).quoted n hgroup hi
    obtain ⟨hnumber, hne, -⟩ := (h.line (c, i)).done n hdone
    have hfirst := h.first c (by rwa [hnumber])
    rw [hnumber] at hfirst
    exact (h.line (c, 0)).granted n hfirst rfl

/-- With one channel all of the client are accepted. -/
theorem Agreement.accepted_all (h : Agreement num s) {c i j : Nat} (hacc : s.Accepted (c, i))
    (hj : j < num) : s.Accepted (c, j) := by
  obtain ⟨k, i', ho⟩ := hacc
  obtain ⟨g, hg, hi⟩ := Option.bind_eq_some_iff.mp ho
  obtain ⟨c', rfl⟩ := h.grouped g (List.mem_of_getElem? hg)
  rw [groupOf, List.getElem?_map] at hi
  obtain ⟨i'', hi'', heq⟩ := Option.map_eq_some_iff.mp hi
  cases heq
  refine ⟨k, j, ?_⟩
  rw [Owns, hg, Option.bind_some]
  simp [groupOf, hj]

theorem Agreement.accepted_iff (h : Agreement num s) {c i j : Nat} (hi : i < num) (hj : j < num) :
    s.Accepted (c, i) ↔ s.Accepted (c, j) :=
  ⟨fun ha => h.accepted_all ha hj, fun ha => h.accepted_all ha hi⟩

/-- A channel in one place is not in another. -/
theorem Agreement.not_accepted (h : Agreement num s) {p : ChannelId} {o : ChannelOwner}
    (ho : s.server.Owns p o) (hgroup : ∀ k i, o ≠ .group k i) : ¬ s.Accepted p := by
  rintro ⟨k, i, ho'⟩
  exact hgroup k i (h.owners.unique ho ho')

/-- The first slot of a group waits for the client's first channel, or holds it. -/
theorem Agreement.first_slot (h : Agreement num s) {c n : Nat}
    (hgroup : (s.server.calls (c, 0)).pc.group = some n) (hwait : ¬ s.Accepted (c, 0)) :
    ((s.server.calls (c, 0)).pc.target = some (n, 0) ∧
      (s.server.managers 0).slot n 0 = some none) ∨
    (s.server.managers 0).slot n 0 = some (some (c, 0)) := by
  have hmanager := h.placed.manager (c, 0)
  have hindex := (h.line (c, 0)).index
  have htarget := h.slots.target (c, 0) n 0
  rw [hmanager] at htarget
  cases hpc : (s.server.calls (c, 0)).pc with
  | created n' =>
    rw [hpc] at hgroup htarget
    cases hgroup
    exact .inl ⟨rfl, (htarget rfl).2⟩
  | number n' i =>
    rw [hpc] at hgroup htarget hindex
    cases hgroup
    obtain rfl : i = 0 := hindex i rfl
    exact .inl ⟨rfl, (htarget rfl).2⟩
  | inserted n' i =>
    rw [hpc] at hgroup hindex
    cases hgroup
    obtain rfl : i = 0 := hindex i rfl
    right
    obtain ⟨o, ho, -⟩ := h.owners.owner (c, 0) (by simp [hpc])
    cases o with
    | call => simp [Owns, hpc, InitPc.ownsIo] at ho
    | slot m n' i =>
      obtain ⟨hpc', rfl⟩ := h.placed.slot m n' i (c, 0) ho
      rw [hpc] at hpc'
      cases hpc'
      exact ho
    | group k i => exact (hwait ⟨k, i, ho⟩).elim
    | deleted => simp [Owns, h.placed.deleted] at ho
  | _ =>
    rw [hpc] at hgroup
    cases hgroup

/-- The group of a client is in the map until it is accepted. -/
theorem Agreement.in_map (h : Agreement num s) {c n : Nat}
    (hgroup : (s.server.calls (c, 0)).pc.group = some n) (hwait : ¬ s.Accepted (c, 0)) :
    ∃ vec, (s.server.managers 0).vec n = some vec := by
  rcases h.first_slot hgroup hwait with ⟨-, hslot⟩ | hslot
  · obtain ⟨vec, hvec, -⟩ := IoManager.vec_of_slot hslot
    exact ⟨vec, hvec⟩
  · obtain ⟨vec, hvec, -⟩ := IoManager.vec_of_slot hslot
    exact ⟨vec, hvec⟩

/-- **A number belongs to one client** until its group is accepted. -/
theorem Agreement.unique (h : Agreement num s) {c c' n : Nat}
    (hc : (s.server.calls (c, 0)).pc.group = some n)
    (hc' : (s.server.calls (c', 0)).pc.group = some n) (hwait : ¬ s.Accepted (c, 0))
    (hwait' : ¬ s.Accepted (c', 0)) : c = c' := by
  rcases h.first_slot hc hwait with ⟨ht, hs⟩ | hs
  · rcases h.first_slot hc' hwait' with ⟨ht', -⟩ | hs'
    · cases h.slots.target_once _ _ n 0 ht ht'
      rfl
    · rw [hs] at hs'
      cases hs'
  · rcases h.first_slot hc' hwait' with ⟨-, hs'⟩ | hs'
    · rw [hs] at hs'
      cases hs'
    · rw [hs] at hs'
      cases hs'
      rfl

/-- The channels that belong to one group before it is accepted are those of one client. -/
theorem Agreement.same_client (h : Agreement num s) {p q : ChannelId} {n : Nat}
    (hp : (s.server.calls p).pc.group = some n) (hq : (s.server.calls q).pc.group = some n)
    (hplt : p.2 < num) (hqlt : q.2 < num) (hpwait : ¬ s.Accepted p) (hqwait : ¬ s.Accepted q) :
    p.1 = q.1 := by
  have hpos : 0 < num := by omega
  refine h.unique (h.group_first (i := p.2) hp) (h.group_first (i := q.2) hq) ?_ ?_
  · exact fun ha => hpwait ((h.accepted_iff hplt hpos).mpr ha)
  · exact fun ha => hqwait ((h.accepted_iff hqlt hpos).mpr ha)

/-- A channel in a slot belongs to the group of the slot. -/
theorem Agreement.in_slot (h : Agreement num s) {m n i : Nat} {p : ChannelId}
    (hslot : (s.server.managers m).slot n i = some (some p)) :
    (s.server.calls p).pc.group = some n ∧ p.2 = i ∧ ¬ s.Accepted p := by
  obtain ⟨hpc, -⟩ := h.placed.slot m n i p hslot
  refine ⟨by rw [hpc]; rfl, ((h.line p).index i (by rw [hpc]; rfl)).symm, ?_⟩
  have ho : s.server.Owns p (.slot m n i) := hslot
  exact h.not_accepted ho (by simp)

/-- **A complete group** is that of one client. -/
theorem Agreement.complete_group (h : Agreement num s) {m n : Nat} {vec : List (Option ChannelId)}
    (hfound : (s.server.managers m).complete num = some (n, vec)) :
    ∃ c, vec.take num = groupOf num c := by
  obtain ⟨hvec, hlen⟩ := IoManager.complete_eq_some hfound
  obtain ⟨ps, hps, hvec', htake⟩ := (h.slots.shape m n vec hvec).complete hlen
  have hslot : ∀ i (hi : i < ps.length), (s.server.managers m).slot n i = some (some (ps[i])) := by
    intro i hi
    rw [IoManager.slot_eq hvec, hvec', List.getElem?_append_left (by simpa using hi)]
    simp [hi]
  refine ⟨(ps.head?.getD (0, 0)).1, ?_⟩
  rw [htake, groupOf]
  refine List.ext_getElem (by simp [hps]) ?_
  intro i hi hi'
  simp only [List.length_map] at hi
  obtain ⟨hgroup, hindex, hwait⟩ := h.in_slot (hslot i hi)
  have hpos : 0 < ps.length := by omega
  obtain ⟨hgroup0, hindex0, hwait0⟩ := h.in_slot (hslot 0 hpos)
  have hclient := h.same_client hgroup hgroup0 (by omega) (by omega) hwait hwait0
  have hhead : ps.head? = some ps[0] := by
    rw [List.head?_eq_getElem?, List.getElem?_eq_getElem hpos]
  simp only [List.getElem_map, List.getElem_range, hhead, Option.getD_some, Option.some.injEq]
  exact Prod.ext hclient hindex

/-! ## A step of the server -/

/-- The steps of a server with one `IOManager`, whose connections do not fail and which
does not clean up. -/
def Plain : ServerEvent ChannelId → Prop
  | .listen m _ _ | .accept m _ => m = 0
  | .fail _ | .clear _ _ _ => False
  | _ => True

theorem Placed.step {server server' : Server ChannelId} {e : ServerEvent ChannelId}
    (h : Placed server) (hnumbers : server.Numbers) (hplain : Plain e)
    (hstep : server.step num e = some (.ok server')) : Placed server' := by
  have hkeep : ∀ {p : ChannelId} {pc : InitPc}, (server.calls p).pc.ownsIo = true →
      ∀ m n i q, (server.managers m).slot n i = some (some q) →
        (if q = p then pc else (server.calls q).pc) = .inserted n i ∧ m = 0 := by
    intro p pc hpc m n i q hslot
    obtain ⟨hq, hm⟩ := h.slot m n i q hslot
    split
    · -- a connection in a slot has been released by its call
      rename_i heq
      rw [← heq, hq] at hpc
      cases hpc
    · exact ⟨hq, hm⟩
  cases step_moves hstep with
  | @listen m p timestamp hpc =>
    obtain rfl : m = 0 := hplain
    refine ⟨?_, h.deleted, ?_⟩
    · intro q
      by_cases hq : q = p
      · simp [startCall, hq]
      · simp [startCall, hq, h.manager q]
    · intro m n i q hslot
      obtain ⟨hq, hm⟩ := h.slot m n i q hslot
      have hne : q ≠ p := by
        rintro rfl
        rw [hpc] at hq
        cases hq
      simpa [hne] using And.intro hq hm
  | @recvHasNumber p i hpc hlt =>
    exact ⟨by simpa using h.manager, h.deleted, by simpa using hkeep (by rw [hpc]; rfl)⟩
  | @recvNumber p n i hpc hpos hlt =>
    exact ⟨by simpa using h.manager, h.deleted, by simpa using hkeep (by rw [hpc]; rfl)⟩
  | @issue p n ports hpc hport =>
    exact ⟨by simpa using h.manager, h.deleted, by simpa using hkeep (by rw [hpc]; rfl)⟩
  | search => exact ⟨h.manager, h.deleted, h.slot⟩
  | @sendNumber p n hpc =>
    exact ⟨by simpa using h.manager, h.deleted, by simpa using hkeep (by rw [hpc]; rfl)⟩
  | @create p n hpc =>
    refine ⟨by simpa using h.manager, h.deleted, ?_⟩
    intro m k i q hslot
    have hfresh := hnumbers.vec_of_issued hpc (server.calls p).manager
    simp only [setPc_managers, setManager_managers, setPc_pc, setManager_calls] at hslot ⊢
    refine hkeep (by rw [hpc]; rfl) m k i q ?_
    split at hslot
    · rename_i hm
      rw [IoManager.slot_createGroup _ hfresh] at hslot
      split at hslot
      · split at hslot <;> cases hslot
      · rwa [hm]
    · exact hslot
  | @insert p n i io hpc hput =>
    refine ⟨by simpa using h.manager, h.deleted, ?_⟩
    intro m k j q hslot
    simp only [setPc_managers, setManager_managers, setPc_pc, setManager_calls] at hslot ⊢
    have hp : (server.calls p).pc.ownsIo = true := by rw [hpc]; rfl
    split at hslot
    · rename_i hm
      by_cases hself : n = k ∧ i = j
      · obtain ⟨rfl, rfl⟩ := hself
        rw [IoManager.slot_put_self hput] at hslot
        cases hslot
        exact ⟨if_pos rfl, by rw [hm, h.manager]⟩
      · refine hkeep hp m k j q ?_
        rcases IoManager.slot_put_ne hput hself with heq | ⟨-, hnew⟩
        · rwa [← hm, hslot, eq_comm] at heq
        · rw [hslot] at hnew
          cases hnew
    · exact hkeep hp m k j q hslot
  | fail => exact hplain.elim
  | @accept m num' n vec ports hfound hport =>
    refine ⟨h.manager, h.deleted, ?_⟩
    intro m' k i q hslot
    simp only [setManager_managers] at hslot
    split at hslot
    · rename_i hm
      rw [IoManager.slot_remove] at hslot
      split at hslot
      · cases hslot
      · exact h.slot m' k i q (by rwa [hm])
    · exact h.slot m' k i q hslot
  | clear => exact hplain.elim

/-- A step of the server under the condition, with what it does to the one line. -/
theorem Agreement.server (h : Agreement num s) {s' : Peers} {e : ServerEvent ChannelId}
    {server' : Server ChannelId} (hplain : Plain e) (hok : s.server.careful num e = true)
    (hstep : s.server.step num e = some (.ok server')) (hserver : s'.server = server')
    (hgrouped : ∀ g ∈ server'.accepted, ∃ c, g = groupOf num c)
    (hline : ∀ p, s'.LineAt num p) (hconnected : s'.connected = s.connected)
    (hthreads : s'.threads = s.threads) (hnumber : s'.number = s.number) : Agreement num s' where
  slots := hserver ▸ h.slots.step hok hstep
  owners := hserver ▸ h.owners.step h.slots (Bool.and_eq_true_iff.mp hok).1 hstep
  placed := hserver ▸ h.placed.step h.slots.numbers hplain hstep
  grouped := hserver ▸ hgrouped
  line := hline
  loop := by
    rw [hconnected, hthreads]
    exact h.loop
  first := by
    rw [hnumber, hthreads]
    exact h.first

/-- Only one line changes. -/
theorem LineAt.update {s' : Peers} (p : ChannelId) (h : ∀ q, s.LineAt num q)
    (hp : s'.LineAt num p) (hq : ∀ q, q ≠ p → s'.threads q = s.threads q ∧
      (s'.server.calls q).pc = (s.server.calls q).pc ∧ s'.toServer q = s.toServer q ∧
      s'.toClient q = s.toClient q ∧ s'.number q.1 = s.number q.1) : ∀ q, s'.LineAt num q := by
  intro q
  by_cases hqp : q = p
  · exact hqp ▸ hp
  · obtain ⟨h1, h2, h3, h4, h5⟩ := hq q hqp
    unfold LineAt
    rw [h1, h2, h3, h4, h5]
    exact h q

/-- A step of the server that changes the line of one channel. -/
theorem Agreement.serverAt (h : Agreement num s) {s' : Peers} {e : ServerEvent ChannelId}
    {server' : Server ChannelId} (p : ChannelId) (hplain : Plain e)
    (hok : s.server.careful num e = true) (hstep : s.server.step num e = some (.ok server'))
    (hserver : s'.server = server') (hgrouped : ∀ g ∈ server'.accepted, ∃ c, g = groupOf num c)
    (hp : s'.LineAt num p) (hq : ∀ q, q ≠ p → (s'.server.calls q).pc = (s.server.calls q).pc ∧
      s'.toServer q = s.toServer q ∧ s'.toClient q = s.toClient q)
    (hconnected : s'.connected = s.connected) (hthreads : s'.threads = s.threads)
    (hnumber : s'.number = s.number) : Agreement num s' := by
  refine h.server hplain hok hstep hserver hgrouped (LineAt.update p h.line hp ?_) hconnected
    hthreads hnumber
  intro q hqp
  obtain ⟨hpc, htoServer, htoClient⟩ := hq q hqp
  exact ⟨by rw [hthreads], hpc, htoServer, htoClient, by rw [hnumber]⟩

/-! ## A step of clients and server -/

section

variable {p : ChannelId} {n i : Nat}

/-- The slot of the only channel that could be there is empty while its call has not got
the number. -/
theorem Agreement.slot_empty (h : Agreement num s) (hpc : (s.server.calls p).pc = .hasNumber i)
    (hself : ∀ q, (s.server.calls q).pc.group = some n → q.2 = i → ¬ s.Accepted q → q = p)
    {vec : List (Option ChannelId)} (hvec : (s.server.managers 0).vec n = some vec)
    (hlt : i < num) : (s.server.managers 0).slot n i = some none := by
  have hlen : i < vec.length := by
    rcases h.slots.shape 0 n vec hvec with ⟨hlen, -⟩ | ⟨ps, hps, rfl⟩
    · omega
    · simp only [List.length_append, List.length_map, List.length_singleton]
      omega
  rw [IoManager.slot_eq hvec, List.getElem?_eq_getElem hlen]
  cases hx : vec[i] with
  | none => rfl
  | some q =>
    have hslot : (s.server.managers 0).slot n i = some (some q) := by
      rw [IoManager.slot_eq hvec, List.getElem?_eq_getElem hlen, hx]
    obtain ⟨hq, hqi, hqwait⟩ := h.in_slot hslot
    obtain ⟨hqpc, -⟩ := h.placed.slot 0 n i q hslot
    rw [hself q hq hqi hqwait, hpc] at hqpc
    cases hqpc

/-- And no call is on its way to it. -/
theorem Agreement.slot_awaited (h : Agreement num s)
    (hpc : (s.server.calls p).pc = .hasNumber i) (hi : i ≠ 0)
    (hself : ∀ q, (s.server.calls q).pc.group = some n → q.2 = i → ¬ s.Accepted q → q = p)
    (q : ChannelId) : (s.server.calls q).pc.target ≠ some (n, i) := by
  intro ht
  have hqcall : s.server.Owns q .call := by
    rw [Owns]
    cases hqpc : (s.server.calls q).pc with
    | created _ | number _ _ => rfl
    | _ =>
      rw [hqpc] at ht
      cases ht
  have hqgroup : (s.server.calls q).pc.group = some n ∧ q.2 = i := by
    have hqindex := (h.line q).index
    cases hqpc : (s.server.calls q).pc with
    | created n' =>
      rw [hqpc] at ht
      cases ht
      exact (hi rfl).elim
    | number n' i' =>
      rw [hqpc] at ht hqindex
      cases ht
      exact ⟨rfl, (hqindex i rfl).symm⟩
    | _ =>
      rw [hqpc] at ht
      cases ht
  have heq := hself q hqgroup.1 hqgroup.2 (h.not_accepted hqcall (by simp))
  rw [heq, hpc] at ht
  cases ht

/-- The number that a client quotes is that of an empty slot that waits for it. -/
theorem Agreement.careful_recvNumber (h : Agreement num s)
    (hpc : (s.server.calls p).pc = .hasNumber i) (hi : i ≠ 0) (hdone : s.threads p = .done n) :
    s.server.careful num (.recvNumber p n) = true := by
  have hindex : i = p.2 := (h.line p).index i (by rw [hpc]; rfl)
  have hlt : p.2 < num := (h.line p).exists_lt (by rw [hdone]; simp)
  have hcall : s.server.Owns p .call := by rw [Owns, hpc]; rfl
  have hwait : ¬ s.Accepted p := h.not_accepted hcall (by simp)
  obtain ⟨hnumber, hne, -⟩ := (h.line p).done n hdone
  have hfirst : (s.server.calls (p.1, 0)).pc.group = some n := by
    have hthread := h.first p.1 (by rwa [hnumber])
    rw [hnumber] at hthread
    exact (h.line (p.1, 0)).granted n hthread rfl
  have hwait0 : ¬ s.Accepted (p.1, 0) := fun ha =>
    hwait ((h.accepted_iff hlt (by omega)).mpr ha)
  have hself : ∀ q, (s.server.calls q).pc.group = some n → q.2 = i → ¬ s.Accepted q → q = p := by
    intro q hq hqi hqwait
    have hqlt : q.2 < num := by omega
    refine Prod.ext (h.unique (h.group_first (i := q.2) hq) hfirst ?_ hwait0) (by omega)
    exact fun ha => hqwait ((h.accepted_iff hqlt (by omega)).mpr ha)
  -- so the group is in the map, and has a slot for this channel
  obtain ⟨vec, hvec⟩ := h.in_map hfirst hwait0
  have hempty := h.slot_empty hpc hself hvec (by omega)
  have hused : s.server.ports.used n = true :=
    h.slots.numbers.used (.manager 0) n (by simp [HoldsNumber, hvec])
  simp only [careful, inDomain, keepsGroups, hpc, h.placed.manager, hempty, hused, Bool.true_and,
    beq_self_eq_true, List.all_eq_true, bne_iff_ne]
  exact fun q _ => h.slot_awaited hpc hi hself q

end

/-- A step of the server goes well. -/
theorem Agreement.serverStep (h : Agreement num s) {s₀ : Peers} {e : ServerEvent ChannelId}
    {r : Res Peers} (hs₀ : s₀.server = s.server) (hstep : s₀.serverStep num e = some r) :
    ∃ server, s.server.step num e = some (.ok server) ∧ r = .ok { s₀ with server } := by
  obtain ⟨r', hr', rfl⟩ := serverStep_eq_some hstep
  rw [hs₀] at hr'
  obtain ⟨server, rfl⟩ := h.slots.step_ok hr'
  exact ⟨server, hr', rfl⟩

theorem Agreement.listen (h : Agreement num s) {p : ChannelId} {timestamp : BitVec 32}
    {r : Res Peers} (ht : s.threads p ≠ .absent)
    (hstep : s.serverStep num (.listen 0 p timestamp) = some r) :
    ∃ s', r = .ok s' ∧ Agreement num s' := by
  obtain ⟨server, hserver, rfl⟩ := h.serverStep rfl hstep
  refine ⟨_, rfl, h.server (by rfl) rfl hserver rfl ?_ ?_ rfl rfl rfl⟩
  · cases step_moves hserver with
    | listen hpc => exact h.grouped
  · refine LineAt.update p h.line ?_ ?_
    · cases step_moves hserver with
      | listen hpc =>
        have hline := h.line p
        unfold LineAt at hline ⊢
        rw [hpc] at hline
        simpa using hline.listen ht
    · intro q hq
      cases step_moves hserver with
      | listen hpc => simp [hq]

theorem Agreement.serverRecvHasNumber (hnum : num ≤ 256) (h : Agreement num s) {p : ChannelId}
    {b : UInt8} {rest : Bytes} {r : Res Peers} (hbytes : s.toServer p = b :: rest)
    (hstep : (s.setToServer p rest).serverStep num (.recvHasNumber p b.toNat) = some r) :
    ∃ s', r = .ok s' ∧ Agreement num s' := by
  obtain ⟨server, hserver, rfl⟩ := h.serverStep (setToServer_server ..) hstep
  cases step_moves hserver with
  | recvHasNumber hpc hlt =>
    have hline := h.line p
    unfold LineAt at hline
    rw [hpc, hbytes] at hline
    obtain ⟨hindex, hnew⟩ := hline.serverRecvHasNumber hnum
    have hbound := hline.exists_lt (hline.listened (by simp))
    have hcareful : s.server.careful num (.recvHasNumber p b.toNat) = true := by
      simp only [careful, inDomain, keepsGroups, Bool.and_true, decide_eq_true_eq]
      omega
    refine ⟨_, rfl, h.serverAt p (by trivial) hcareful hserver rfl h.grouped ?_
      (fun q hq => by simp [hq]) rfl rfl rfl⟩
    unfold LineAt
    simpa using hnew

theorem Agreement.serverRecvNumber (hnum : num ≤ 256) (h : Agreement num s) {p : ChannelId}
    {r : Res Peers} (hlen : 4 ≤ (s.toServer p).length)
    (hstep : (s.setToServer p ((s.toServer p).drop 4)).serverStep num
      (.recvNumber p (ofBE ((s.toServer p).take 4))) = some r) :
    ∃ s', r = .ok s' ∧ Agreement num s' := by
  obtain ⟨server, hserver, rfl⟩ := h.serverStep (setToServer_server ..) hstep
  cases step_moves hserver with
  | @recvNumber _ _ i hpc hpos hlt =>
    have hline := h.line p
    unfold LineAt at hline
    rw [hpc] at hline
    obtain ⟨n, hdone, hn, hnew⟩ := hline.serverRecvNumber hnum hpos hlen
    have hcareful := h.careful_recvNumber hpc hpos hdone
    rw [← hn] at hcareful
    refine ⟨_, rfl, h.serverAt p (by trivial) hcareful hserver rfl h.grouped ?_
      (fun q hq => by simp [hq]) rfl rfl rfl⟩
    unfold LineAt
    rw [← hn] at hnew
    simpa using hnew

theorem Agreement.issue (h : Agreement num s) {p : ChannelId} {r : Res Peers}
    (hstep : s.serverStep num (.issue p) = some r) : ∃ s', r = .ok s' ∧ Agreement num s' := by
  obtain ⟨server, hserver, rfl⟩ := h.serverStep rfl hstep
  cases step_moves hserver with
  | @issue _ n ports hpc hport =>
    obtain ⟨-, hpos, hlt, -⟩ := Ports.getUnusedPort_some h.slots.numbers.ports hport
    refine ⟨_, rfl, h.serverAt p (by trivial) rfl hserver rfl h.grouped ?_
      (fun q hq => by simp [hq]) rfl rfl rfl⟩
    have hline := h.line p
    unfold LineAt at hline ⊢
    rw [hpc] at hline
    have hmax : maxPortSeq = 1024 := rfl
    simpa using hline.issue (n := n) ⟨hpos, by omega⟩
  | search =>
    exact ⟨_, rfl, h.server (by trivial) rfl hserver rfl h.grouped h.line rfl rfl rfl⟩

theorem Agreement.create (h : Agreement num s) {p : ChannelId} {r : Res Peers}
    (hstep : s.serverStep num (.create p) = some r) : ∃ s', r = .ok s' ∧ Agreement num s' := by
  obtain ⟨server, hserver, rfl⟩ := h.serverStep rfl hstep
  cases step_moves hserver with
  | @create _ n hpc =>
    refine ⟨_, rfl, h.serverAt p (by trivial) rfl hserver rfl h.grouped ?_
      (fun q hq => by simp [hq]) rfl rfl rfl⟩
    have hline := h.line p
    unfold LineAt at hline ⊢
    rw [hpc] at hline
    simpa using hline.create

theorem Agreement.serverSendNumber (hnum : num ≤ 256) (h : Agreement num s) {p : ChannelId}
    {n : Nat} {r : Res Peers} (hpc : (s.server.calls p).pc = .created n)
    (hstep : (s.setToClient p (s.toClient p ++ toBE 4 n)).serverStep num (.sendNumber p) = some r) :
    ∃ s', r = .ok s' ∧ Agreement num s' := by
  obtain ⟨server, hserver, rfl⟩ := h.serverStep (setToClient_server ..) hstep
  cases step_moves hserver with
  | @sendNumber _ n' hpc' =>
    obtain rfl : n = n' := by
      rw [hpc] at hpc'
      cases hpc'
      rfl
    refine ⟨_, rfl, h.serverAt p (by trivial) rfl hserver rfl h.grouped ?_
      (fun q hq => by simp [hq]) rfl rfl rfl⟩
    have hline := h.line p
    unfold LineAt at hline ⊢
    rw [hpc] at hline
    simpa using hline.serverSendNumber hnum

theorem Agreement.insert (h : Agreement num s) {p : ChannelId} {r : Res Peers}
    (hstep : s.serverStep num (.insert p) = some r) : ∃ s', r = .ok s' ∧ Agreement num s' := by
  obtain ⟨server, hserver, rfl⟩ := h.serverStep rfl hstep
  cases step_moves hserver with
  | @insert _ n i io hpc hput =>
    refine ⟨_, rfl, h.serverAt p (by trivial) rfl hserver rfl h.grouped ?_
      (fun q hq => by simp [hq]) rfl rfl rfl⟩
    have hline := h.line p
    unfold LineAt at hline ⊢
    rw [hpc] at hline
    simpa using hline.insert

theorem Agreement.accept (h : Agreement num s) {r : Res Peers}
    (hstep : s.serverStep num (.accept 0 num) = some r) :
    ∃ s', r = .ok s' ∧ Agreement num s' := by
  obtain ⟨server, hserver, rfl⟩ := h.serverStep rfl hstep
  have hcareful : s.server.careful num (.accept 0 num) = true := by
    simp [careful, inDomain, keepsGroups]
  cases step_moves hserver with
  | @accept _ _ n vec ports hfound hport =>
    refine ⟨_, rfl, h.server (by rfl) hcareful hserver rfl ?_ h.line rfl rfl rfl⟩
    intro g hg
    rcases List.mem_append.mp hg with hold | hnew
    · exact h.grouped g hold
    · obtain rfl := List.mem_singleton.mp hnew
      exact h.complete_group hfound

/-- A step of a client that leaves the server alone. -/
theorem Agreement.client (h : Agreement num s) {s' : Peers} (hserver : s'.server = s.server)
    (hline : ∀ p, s'.LineAt num p) (hloop : ∀ p, s'.connected p.1 ≤ p.2 → s'.threads p = .absent)
    (hfirst : ∀ c, s'.number c ≠ 0 → s'.threads (c, 0) = .done (s'.number c)) :
    Agreement num s' where
  slots := hserver ▸ h.slots
  owners := hserver ▸ h.owners
  placed := hserver ▸ h.placed
  grouped := hserver ▸ h.grouped
  line := hline
  loop := hloop
  first := hfirst

/-- A thread that has not got a number yet goes on without one. -/
theorem Agreement.setThread (h : Agreement num s) {s' : Peers} (p : ChannelId) (pc : ConnectPc)
    (hold : s.threads p ≠ .absent) (hnot : ∀ n, s.threads p ≠ .done n)
    (hthreads : ∀ q, s'.threads q = if q = p then pc else s.threads q)
    (hserver : s'.server = s.server) (hline : ∀ p, s'.LineAt num p)
    (hconnected : s'.connected = s.connected) (hnumber : s'.number = s.number) :
    Agreement num s' := by
  refine h.client hserver hline ?_ ?_
  · intro q hq
    rw [hconnected] at hq
    rw [hthreads]
    split
    · rename_i hqp
      exact (hold (hqp ▸ h.loop q hq)).elim
    · exact h.loop q hq
  · intro c hc
    rw [hnumber] at hc ⊢
    rw [hthreads]
    split
    · rename_i hcp
      exact (hnot _ (hcp ▸ h.first c hc)).elim
    · exact h.first c hc

/-- A round of the loop of `connect_pado_io`. -/
theorem Agreement.connect (h : Agreement num s) {c : Nat} (hlt : s.connected c < num) :
    Agreement num { s.setThread (c, s.connected c) .start with
      connected := Function.update s.connected c (s.connected c + 1) } := by
  have habsent : s.threads (c, s.connected c) = .absent := h.loop (c, s.connected c) (by simp)
  refine h.client rfl (LineAt.update (c, s.connected c) h.line ?_ ?_) ?_ ?_
  · have hline := h.line (c, s.connected c)
    unfold LineAt at hline ⊢
    rw [habsent] at hline
    simpa using hline.connect hlt
  · intro q hq
    simp [hq]
  · intro q hq
    simp only [setThread_threads]
    simp only [Function.update_apply] at hq
    split at hq
    · rename_i hqc
      have hne : q ≠ (c, s.connected c) := by
        rintro rfl
        simp at hq
      rw [if_neg hne]
      refine h.loop q ?_
      rw [hqc]
      omega
    · rename_i hqc
      have hne : q ≠ (c, s.connected c) := by
        rintro rfl
        exact hqc rfl
      rw [if_neg hne]
      exact h.loop q hq
  · intro c' hc'
    have hdone := h.first c' hc'
    simp only [setThread_threads]
    split
    · rename_i heq
      rw [heq, habsent] at hdone
      cases hdone
    · exact hdone

/-- The client's variable is written when the first channel gets its number. -/
theorem Agreement.recvNumber (hnum : num ≤ 256) (h : Agreement num s) {p : ChannelId}
    (hthread : s.threads p = .exchanging) (hzero : hasNumber2 p = 0)
    (hlen : 4 ≤ (s.toClient p).length) :
    Agreement num { (s.setToClient p ((s.toClient p).drop 4)).setThread p
      (.done (ofBE ((s.toClient p).take 4))) with
      number := Function.update s.number p.1 (ofBE ((s.toClient p).take 4)) } := by
  have hline := h.line p
  unfold LineAt at hline
  rw [hthread] at hline
  have hp : p.2 = 0 := (Line.hasNumber2_eq_zero (hline.exists_lt (by simp)) hnum).mp hzero
  have hpeq : p = (p.1, 0) := Prod.ext rfl hp
  obtain ⟨n, hgroup, hn, hpos, hlt, hnew⟩ := hline.recvNumber hp hzero hlen
  rw [hn]
  -- before, the variable was 0, and no thread of the client had used it
  have hold : s.number p.1 = 0 := by
    by_contra hne
    have hdone := h.first p.1 hne
    rw [← hpeq, hthread] at hdone
    cases hdone
  refine h.client rfl ?_ ?_ ?_
  · intro q
    by_cases hq : q = p
    · subst hq
      unfold LineAt
      simpa using hnew
    · have hqline := h.line q
      unfold LineAt at hqline ⊢
      by_cases hclient : q.1 = p.1
      · rw [hclient, hold] at hqline
        simpa [hq, hclient] using hqline.setNumber n
      · simpa [hq, hclient] using hqline
  · intro q hq
    have hqabs := h.loop q hq
    have hne : q ≠ p := by
      rintro rfl
      rw [hthread] at hqabs
      cases hqabs
    simpa [hne] using hqabs
  · intro c hc
    by_cases hcp : c = p.1
    · subst hcp
      simp [← hpeq]
    · have hne : (c, 0) ≠ p := by
        rintro rfl
        exact hcp rfl
      simp only [Function.update_apply, if_neg hcp] at hc
      simpa [hne, hcp] using h.first c hc

theorem Agreement.sendHasNumber (h : Agreement num s) {p : ChannelId}
    (hthread : s.threads p = .start) :
    Agreement num
      ((s.setToServer p (s.toServer p ++ [hasNumber2 p])).setThread p .exchanging) := by
  have hline := h.line p
  unfold LineAt at hline
  rw [hthread] at hline
  refine h.setThread p .exchanging (by simp [hthread]) (by simp [hthread]) (by simp) rfl
    (LineAt.update p h.line ?_ ?_) rfl rfl
  · unfold LineAt
    simpa using hline.sendHasNumber
  · intro q hq
    simp [hq]

theorem Agreement.wake (hnum : num ≤ 256) (h : Agreement num s) {p : ChannelId}
    (hthread : s.threads p = .exchanging) (hne : hasNumber2 p ≠ 0) (hnumber : s.number p.1 ≠ 0) :
    Agreement num (s.setThread p .numbered) := by
  have hline := h.line p
  unfold LineAt at hline
  rw [hthread] at hline
  have hp : p.2 ≠ 0 := fun hp =>
    hne ((Line.hasNumber2_eq_zero (hline.exists_lt (by simp)) hnum).mpr hp)
  refine h.setThread p .numbered (by simp [hthread]) (by simp [hthread]) (by simp) rfl
    (LineAt.update p h.line ?_ ?_) rfl rfl
  · unfold LineAt
    simpa using hline.wake hnumber hp
  · intro q hq
    simp [hq]

theorem Agreement.sendNumber (hnum : num ≤ 256) (h : Agreement num s) {p : ChannelId}
    (hthread : s.threads p = .numbered) :
    Agreement num ((s.setToServer p (s.toServer p ++ toBE 4 (s.number p.1))).setThread p
      (.done (s.number p.1))) := by
  have hline := h.line p
  unfold LineAt at hline
  rw [hthread] at hline
  obtain ⟨hnumber, -⟩ := hline.numbered rfl
  have hbound : s.number p.1 < 2 ^ 32 :=
    ((h.line (p.1, 0)).done (s.number p.1) (h.first p.1 hnumber)).2.2
  refine h.setThread p (.done (s.number p.1)) (by simp [hthread]) (by simp [hthread]) (by simp)
    rfl (LineAt.update p h.line ?_ ?_) rfl rfl
  · unfold LineAt
    simpa using hline.sendNumber hnum hbound
  · intro q hq
    simp [hq]

/-- **One step** of clients and server goes well and keeps the agreement. -/
theorem Agreement.step (hnum : num ≤ 256) (h : Agreement num s) {e : PeerEvent} {r : Res Peers}
    (hstep : s.step num e = some r) : ∃ s', r = .ok s' ∧ Agreement num s' := by
  cases e with
  | connect c =>
    obtain ⟨hlt, hr⟩ := Option.ite_none_right_eq_some.mp hstep
    cases hr
    exact ⟨_, rfl, h.connect hlt⟩
  | sendHasNumber p =>
    simp only [Peers.step] at hstep
    split at hstep
    · rename_i hthread
      cases hstep
      exact ⟨_, rfl, h.sendHasNumber hthread⟩
    · cases hstep
  | wake p =>
    simp only [Peers.step] at hstep
    split at hstep
    · rename_i hthread
      obtain ⟨⟨hne, hnumber⟩, hr⟩ := Option.ite_none_right_eq_some.mp hstep
      cases hr
      exact ⟨_, rfl, h.wake hnum hthread hne hnumber⟩
    · cases hstep
  | sendNumber p =>
    simp only [Peers.step] at hstep
    split at hstep
    · rename_i hthread
      cases hstep
      exact ⟨_, rfl, h.sendNumber hnum hthread⟩
    · cases hstep
  | recvNumber p =>
    simp only [Peers.step] at hstep
    split at hstep
    · rename_i hthread
      obtain ⟨⟨hzero, hlen⟩, hr⟩ := Option.ite_none_right_eq_some.mp hstep
      cases hr
      exact ⟨_, rfl, h.recvNumber hnum hthread hzero hlen⟩
    · cases hstep
  | listen p timestamp =>
    simp only [Peers.step] at hstep
    split at hstep
    · cases hstep
    · rename_i hthread
      exact h.listen hthread hstep
  | serverRecvHasNumber p =>
    simp only [Peers.step] at hstep
    split at hstep
    · cases hstep
    · rename_i b rest hbytes
      exact h.serverRecvHasNumber hnum hbytes hstep
  | serverRecvNumber p =>
    obtain ⟨hlen, hr⟩ := Option.ite_none_right_eq_some.mp hstep
    exact h.serverRecvNumber hnum hlen hr
  | issue p => exact h.issue hstep
  | create p => exact h.create hstep
  | serverSendNumber p =>
    simp only [Peers.step] at hstep
    split at hstep
    · rename_i n hpc
      exact h.serverSendNumber hnum hpc hstep
    · cases hstep
  | insert p => exact h.insert hstep
  | accept => exact h.accept hstep

end

/-! ## A run -/

theorem agreement_start (num : Nat) : Agreement num {} where
  slots := slots_start num
  owners := owners_start
  placed := ⟨fun p => rfl, rfl, fun m n i p h => by simp [IoManager.slot] at h⟩
  grouped g hg := by cases hg
  line p := Line.absent num p 0
  loop p h := rfl
  first c h := (h rfl).elim

/-- The client has been issued the number, or has got it, and its group has not been
returned by `accept`. -/
def Waiting (s : Peers) (c n : Nat) : Prop :=
  ((s.server.calls (c, 0)).pc = .issued n ∨ (s.server.calls (c, 0)).pc.group = some n ∨
    (s.number c = n ∧ n ≠ 0)) ∧ ¬ s.Accepted (c, 0)

/-- What clients and server can rely on. -/
structure Agreed (num : Nat) (s : Peers) : Prop where
  /-- a group has all channels of one client, each at its index -/
  groups : ∀ g ∈ s.server.accepted, ∃ c, g = groupOf num c
  /-- and no channel is returned twice -/
  once : ∀ p k k' i i', s.server.Owns p (.group k i) → s.server.Owns p (.group k' i') →
    k = k' ∧ i = i'
  apart : ∀ c c' n, s.Waiting c n → s.Waiting c' n → c = c'
  /-- the number that a thread has got is the one that channel 0 has received -/
  same : ∀ c i n, s.threads (c, i) = .done n → s.threads (c, 0) = .done n
  /-- and then no thread waits for it any more -/
  wakes : ∀ c i n, s.threads (c, 0) = .done n → s.threads (c, i) = .exchanging →
    s.number c = n ∧ s.step num (.wake (c, i)) = some (.ok (s.setThread (c, i) .numbered))

theorem Agreement.agreed {num : Nat} {s : Peers} (hnum : num ≤ 256) (h : Agreement num s) :
    Agreed num s where
  groups := h.grouped
  once p k k' i i' ho ho' := by
    cases h.owners.unique ho ho'
    exact ⟨rfl, rfl⟩
  apart c c' n hc hc' := by
    have hheld : ∀ c, s.Waiting c n →
        (s.server.calls (c, 0)).pc = .issued n ∨ (s.server.calls (c, 0)).pc.group = some n := by
      rintro c ⟨hissued | hgroup | ⟨hnumber, hne⟩, -⟩
      · exact .inl hissued
      · exact .inr hgroup
      · have hdone := h.first c (by rwa [hnumber])
        rw [hnumber] at hdone
        exact .inr ((h.line (c, 0)).granted n hdone rfl)
    -- a number of a group that is in the map has not just been issued
    have hmap : ∀ c, (s.server.calls (c, 0)).pc.group = some n → ¬ s.Accepted (c, 0) →
        s.server.HoldsNumber (.manager 0) n := by
      intro c hgroup hwait
      obtain ⟨vec, hvec⟩ := h.in_map hgroup hwait
      simp [HoldsNumber, hvec]
    have honce := h.slots.numbers.once
    rcases hheld c hc with hi | hg
    · rcases hheld c' hc' with hi' | hg'
      · cases honce (.call (c, 0)) (.call (c', 0)) n hi hi'
        rfl
      · cases honce (.call (c, 0)) _ n hi (hmap c' hg' hc'.2)
    · rcases hheld c' hc' with hi' | hg'
      · cases honce (.call (c', 0)) _ n hi' (hmap c hg hc.2)
      · exact h.unique hg hg' hc.2 hc'.2
  same c i n hdone := by
    obtain ⟨hnumber, hne, -⟩ := (h.line (c, i)).done n hdone
    have hfirst := h.first c (by rwa [hnumber])
    rwa [hnumber] at hfirst
  wakes c i n hdone hwait := by
    obtain ⟨hnumber, hne, -⟩ := (h.line (c, 0)).done n hdone
    have hi : i ≠ 0 := by
      rintro rfl
      rw [hdone] at hwait
      cases hwait
    have hlt := (h.line (c, i)).exists_lt (by simp [hwait])
    have hzero : hasNumber2 (c, i) ≠ 0 := fun hz => hi ((Line.hasNumber2_eq_zero hlt hnum).mp hz)
    refine ⟨hnumber, ?_⟩
    simp only [Peers.step, hwait]
    exact if_pos ⟨hzero, by rwa [hnumber]⟩

/-- **Channel groups agree.** Any number of clients and any interleaving of their threads
with those of the server, without failures and clean-up. -/
theorem connect_agreement {num : Nat} (hnum : num ≤ 256) {es : List PeerEvent} {r : Res Peers}
    (hrun : (machine num).run es = some r) : ∃ s, r = .ok s ∧ Agreed num s := by
  obtain ⟨s, hs, h⟩ := fallible_run (Agreement num) (agreement_start num)
    (fun s e r h hstep => h.step hnum hstep) hrun
  exact ⟨s, hs, h.agreed hnum⟩

/-- Two clients with two channels each, whose connections are mixed. -/
theorem connect_agreement_mixed : ∃ s, (machine 2).run
    [.connect 0, .connect 1, .connect 1, .connect 0, .sendHasNumber (1, 1), .sendHasNumber (1, 0),
      .sendHasNumber (0, 0), .listen (1, 1) 0, .listen (0, 0) 0, .listen (1, 0) 0,
      .serverRecvHasNumber (1, 1), .serverRecvHasNumber (1, 0), .serverRecvHasNumber (0, 0),
      .issue (1, 0), .issue (0, 0), .create (0, 0), .create (1, 0), .serverSendNumber (0, 0),
      .serverSendNumber (1, 0), .recvNumber (1, 0), .wake (1, 1), .sendNumber (1, 1),
      .serverRecvNumber (1, 1), .insert (1, 1), .insert (1, 0), .insert (0, 0), .accept] =
    some (.ok s) ∧ Agreed 2 s := by
  have hrun : ((machine 2).run
    [.connect 0, .connect 1, .connect 1, .connect 0, .sendHasNumber (1, 1), .sendHasNumber (1, 0),
      .sendHasNumber (0, 0), .listen (1, 1) 0, .listen (0, 0) 0, .listen (1, 0) 0,
      .serverRecvHasNumber (1, 1), .serverRecvHasNumber (1, 0), .serverRecvHasNumber (0, 0),
      .issue (1, 0), .issue (0, 0), .create (0, 0), .create (1, 0), .serverSendNumber (0, 0),
      .serverSendNumber (1, 0), .recvNumber (1, 0), .wake (1, 1), .sendNumber (1, 1),
      .serverRecvNumber (1, 1), .insert (1, 1), .insert (1, 0), .insert (0, 0),
      .accept]).isSome = true := by decide +kernel
  obtain ⟨r, hrun⟩ := Option.isSome_iff_exists.mp hrun
  obtain ⟨s, rfl, h⟩ := connect_agreement (by decide) hrun
  exact ⟨s, hrun, h⟩

end Peers

end ZktlsNet
