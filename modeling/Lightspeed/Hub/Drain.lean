import Mathlib.Algebra.BigOperators.Group.Finset.Basic
import Mathlib.Algebra.Order.BigOperators.Group.Finset
import Mathlib.Tactic.Ring
import Lightspeed.Hub.Accounting

/-!
# The hub drains

As long as no member's `WriteLoop` has returned and no connection of a member is closed, nothing
in the hub blocks for ever. Once no viewer connects, no callback is invoked and nothing fails any
more, every order of the remaining steps comes to an end with all of the work done: the channels
are empty, every count is broadcast, and everybody who was at a send has sent (`hub_drains`).

The work that is left is measured by `State.work`: each step of `Run`, of a sender and of a write
takes something off it, where a pending count stands for a broadcast to all members, and an entry
in a channel for the change of the map and the count that follows it.
-/

namespace Lightspeed.Hub

/-! ## The steps -/

/-- The step does work that is already there: it is one of `Run`'s, or one inside a sending block,
or a member's successful write. -/
def Serves (s : State) : Label → Prop
  | .sendRLock _ _ _ | .sendTest _ _ _ | .sendMessage _ _ _ | .sendRUnlock _ _ => True
  | .write c _ ok => ok = true ∧ c ∈ s.clients
  | l => l.runAt.isSome = true

/-- Nothing is left to do. -/
structure Drained (s : State) : Prop where
  run : s.run = .select
  register : s.register = []
  unregister : s.unregister = []
  sendInfo : ∀ k, (s.sendInfo k).pending = false
  sending : ∀ g, s.sending g = .idle
  writeLoop : ∀ c ∈ s.clients, s.writeLoop c = .select

def WriteLoopPC.running : WriteLoopPC → Bool
  | .select | .writing _ => true
  | _ => false

/-- The client is in the map or on its way there. -/
def Joined (s : State) (c : ClientId) : Prop :=
  c ∈ s.clients ∨ c ∈ s.register ∨ s.run.inserting = some c

/-- The client's connection is open and its `WriteLoop` runs. -/
def Serviceable (s : State) (c : ClientId) : Prop :=
  s.connClosed c = false ∧ (s.writeLoop c).running = true

/-! ## The work -/

def SendPC.work : SendPC → ℕ
  | .idle => 0
  | .rUnlock _ => 1
  | .send _ _ => 3
  | .test _ _ => 4
  | .rLock _ _ => 5

def WriteLoopPC.work : WriteLoopPC → ℕ
  | .writing _ => 1
  | .notStarted | .select | .returned => 0

/-- What `Run` has left to do before it is back at its `select`, with at most `n` members. -/
def RunPC.work (clients : Finset ClientId) (n : ℕ) : RunPC → ℕ
  | .select => 0
  | .broadcastRUnlock => 1
  | .broadcastSend _ visited _ => 1 + 3 * (clients \ visited).card
  | .broadcastRange _ visited => 2 + 3 * (clients \ visited).card
  | .broadcastRLock _ => 3 + 3 * n
  | .goSendInfo _ => 5 + 3 * n
  | .infoRUnlock _ => 6 + 3 * n
  | .infoLen => 7 + 3 * n
  | .infoRLock => 8 + 3 * n
  | .unregisterCloseSend _ | .registerUnlock _ => 9 + 3 * n
  | .unregisterCloseConn _ => 10 + 3 * n
  | .unregisterUnlock _ | .registerInsert _ => 11 + 3 * n
  | .unregisterDelete _ => 12 + 3 * n
  | .unregisterLocking _ | .registerLocking _ => 13 + 3 * n
  | .unregisterLock _ | .registerLock _ => 14 + 3 * n
  | .unregisterRUnlock _ _ => 15 + 3 * n
  | .unregisterTest _ => 16 + 3 * n
  | .unregisterRLock _ => 17 + 3 * n

def SendInfo.work (n : ℕ) (i : SendInfo) : ℕ := if i.pending then 4 + 3 * n else 0

/-- The work that waits for `Run`: entries of the two channels and pending counts. -/
def State.waiting (s : State) (n : ℕ) : ℕ :=
  (s.register.length + s.unregister.length) * (18 + 3 * n) +
    ∑ k ∈ Finset.range s.spawned, (s.sendInfo k).work n

/-- The work of the senders in `senders` and of the members' `WriteLoop`s. -/
def State.traffic (s : State) (senders : Finset Sender) : ℕ :=
  ∑ g ∈ senders, (s.sending g).work + ∑ c ∈ s.clients, (s.writeLoop c).work

def State.work (s : State) (senders : Finset Sender) (n : ℕ) : ℕ :=
  s.run.work s.clients n + s.waiting n + s.traffic senders

section Sums

variable {α β : Type*} [DecidableEq α] {t : Finset α} {f : α → β} {a : α}

theorem sum_of_update_not_mem (w : β → ℕ) (ha : a ∉ t) (b : β) :
    ∑ x ∈ t, w (Function.update f a b x) = ∑ x ∈ t, w (f x) := by
  apply Finset.sum_congr rfl
  intro x hx
  have hne : x ≠ a := fun h => ha (h ▸ hx)
  rw [Function.update_of_ne hne]

/-- One of the summands changes. -/
theorem sum_of_update_mem (w : β → ℕ) (ha : a ∈ t) (b : β) :
    ∑ x ∈ t, w (Function.update f a b x) + w (f a) = ∑ x ∈ t, w (f x) + w b := by
  have hsplit : ∀ f' : α → β, ∑ x ∈ t, w (f' x) = ∑ x ∈ t.erase a, w (f' x) + w (f' a) :=
    fun f' => (Finset.sum_erase_add t (fun x => w (f' x)) ha).symm
  rw [hsplit, hsplit f, sum_of_update_not_mem w (Finset.notMem_erase a t), Function.update_self]
  omega

end Sums

/-! ## Every step takes something off the work -/

/-- What is known of a state from which the hub is to drain. -/
structure Draining (senders : Finset Sender) (n : ℕ) (s : State) : Prop where
  reachable : hub.Reachable s
  serviceable : ∀ c, Joined s c → Serviceable s c
  bound : s.clients.card + s.register.length + s.run.inserting.toList.length ≤ n
  senders : ∀ g, g ∉ senders → s.sending g = .idle

variable {s : State} {l : Label} {senders : Finset Sender} {n : ℕ}

theorem Draining.mem_senders (h : Draining senders n s) {g : Sender} (hg : s.sending g ≠ .idle) :
    g ∈ senders := by
  by_contra hmem
  exact hg (h.senders g hmem)

/-- A step of a sender that does not send. -/
theorem traffic_setSending (h : Draining senders n s) {g : Sender} (hg : s.sending g ≠ .idle)
    {pc : SendPC} (hlt : pc.work < (s.sending g).work) {t : State}
    (hsending : t.sending = Function.update s.sending g pc) (hclients : t.clients = s.clients)
    (hwriteLoop : t.writeLoop = s.writeLoop) : t.traffic senders < s.traffic senders := by
  have hsum := sum_of_update_mem (f := s.sending) SendPC.work (h.mem_senders hg) pc
  rw [State.traffic, State.traffic, hsending, hclients, hwriteLoop]
  omega

/-- The message passes from the sender to the `WriteLoop`, which has less to do with it. -/
theorem Draining.traffic_sendMessage (h : Draining senders n s) {g : Sender} {c : ClientId}
    {m : WebsocketMessage} (hg : Guard s (.sendMessage g c m)) :
    (next s (.sendMessage g c m)).traffic senders < s.traffic senders := by
  obtain ⟨hsend, -, hselect⟩ := hg
  have hmem := (sendInv_of_reachable h.reachable).sender g c m hsend
  have hsenders := sum_of_update_mem (f := s.sending) SendPC.work
    (h.mem_senders (g := g) (by rw [hsend]; simp)) (.rUnlock c)
  have hwriters := sum_of_update_mem (f := s.writeLoop) WriteLoopPC.work hmem (.writing m)
  show ∑ g' ∈ senders, (Function.update s.sending g (.rUnlock c) g').work +
    ∑ c' ∈ s.clients, (Function.update s.writeLoop c (.writing m) c').work < s.traffic senders
  rw [hsend, SendPC.work, SendPC.work] at hsenders
  rw [hselect, WriteLoopPC.work, WriteLoopPC.work] at hwriters
  rw [State.traffic]
  omega

theorem traffic_write {c : ClientId} {m : WebsocketMessage} (hmem : c ∈ s.clients)
    (hwriting : s.writeLoop c = .writing m) :
    (next s (.write c m true)).traffic senders < s.traffic senders := by
  have hwriters := sum_of_update_mem (f := s.writeLoop) WriteLoopPC.work hmem .select
  show ∑ g ∈ senders, (s.sending g).work +
    ∑ c' ∈ s.clients, (Function.update s.writeLoop c .select c').work < s.traffic senders
  rw [hwriting, WriteLoopPC.work, WriteLoopPC.work] at hwriters
  rw [State.traffic]
  omega

/-- A new member may have one message to write. -/
theorem traffic_registerInsert (senders : Finset Sender) {c : ClientId} (hmem : c ∉ s.clients) :
    (next s (.registerInsert c)).traffic senders ≤ s.traffic senders + 1 := by
  have hwriters : ∑ c' ∈ insert c s.clients, (s.writeLoop c').work ≤
      1 + ∑ c' ∈ s.clients, (s.writeLoop c').work := by
    rw [Finset.sum_insert hmem]
    cases s.writeLoop c <;> simp [WriteLoopPC.work]
  show ∑ g ∈ senders, (s.sending g).work + ∑ c' ∈ insert c s.clients, (s.writeLoop c').work ≤ _
  rw [State.traffic]
  omega

theorem traffic_unregisterDelete (s : State) (senders : Finset Sender) (c : ClientId) :
    (next s (.unregisterDelete c)).traffic senders ≤ s.traffic senders := by
  have hwriters : ∑ c' ∈ s.clients.erase c, (s.writeLoop c').work ≤
      ∑ c' ∈ s.clients, (s.writeLoop c').work :=
    Finset.sum_le_sum_of_subset (Finset.erase_subset c s.clients)
  show ∑ g ∈ senders, (s.sending g).work + ∑ c' ∈ s.clients.erase c, (s.writeLoop c').work ≤ _
  rw [State.traffic]
  omega

theorem traffic_broadcastSend (senders : Finset Sender) (m : WebsocketMessage)
    (visited : Finset ClientId) {c : ClientId} (hmem : c ∈ s.clients)
    (hselect : s.writeLoop c = .select) :
    (next s (.broadcastSend m visited c)).traffic senders = s.traffic senders + 1 := by
  have hwriters := sum_of_update_mem (f := s.writeLoop) WriteLoopPC.work hmem (.writing m)
  show ∑ g ∈ senders, (s.sending g).work +
    ∑ c' ∈ s.clients, (Function.update s.writeLoop c (.writing m) c').work = _
  rw [hselect, WriteLoopPC.work, WriteLoopPC.work] at hwriters
  rw [State.traffic]
  omega

/-- An entry of a channel stands for all that `Run` does with it. -/
theorem waiting_takeRegister {c : ClientId} (hhead : s.register.head? = some c) :
    (next s (.takeRegister c)).waiting n + (18 + 3 * n) = s.waiting n := by
  obtain ⟨rest, hregister⟩ := List.head?_eq_some_iff.mp hhead
  show (s.register.tail.length + s.unregister.length) * (18 + 3 * n) +
    ∑ k ∈ Finset.range s.spawned, (s.sendInfo k).work n + (18 + 3 * n) = _
  rw [State.waiting, hregister, List.length_cons, List.tail_cons]
  ring

theorem waiting_takeUnregister {c : ClientId} (hhead : s.unregister.head? = some c) :
    (next s (.takeUnregister c)).waiting n + (18 + 3 * n) = s.waiting n := by
  obtain ⟨rest, hunregister⟩ := List.head?_eq_some_iff.mp hhead
  show (s.register.length + s.unregister.tail.length) * (18 + 3 * n) +
    ∑ k ∈ Finset.range s.spawned, (s.sendInfo k).work n + (18 + 3 * n) = _
  rw [State.waiting, hunregister, List.length_cons, List.tail_cons]
  ring

theorem waiting_takeBroadcast {k : ℕ} (hk : k < s.spawned)
    (hpending : (s.sendInfo k).pending = true) :
    (next s (.takeBroadcast k)).waiting n + (4 + 3 * n) = s.waiting n := by
  have hinfos := sum_of_update_mem (f := s.sendInfo) (SendInfo.work n) (Finset.mem_range.mpr hk)
    ⟨(s.sendInfo k).info, false⟩
  show (s.register.length + s.unregister.length) * (18 + 3 * n) + ∑ k' ∈ Finset.range s.spawned,
    (Function.update s.sendInfo k ⟨(s.sendInfo k).info, false⟩ k').work n + (4 + 3 * n) = _
  rw [SendInfo.work, if_pos hpending, SendInfo.work, if_neg Bool.false_ne_true] at hinfos
  rw [State.waiting]
  omega

theorem waiting_goSendInfo (i : Info) :
    (next s (.goSendInfo i)).waiting n = s.waiting n + (4 + 3 * n) := by
  show (s.register.length + s.unregister.length) * (18 + 3 * n) +
    ∑ k ∈ Finset.range (s.spawned + 1),
      (Function.update s.sendInfo s.spawned ⟨i, true⟩ k).work n = _
  rw [Finset.sum_range_succ, sum_of_update_not_mem _ Finset.notMem_range_self,
    Function.update_self, State.waiting, SendInfo.work, if_pos rfl]
  omega

theorem Draining.work_next (h : Draining senders n s) (hserves : Serves s l)
    (hen : Enabled s l) : (next s l).work senders n < s.work senders n := by
  obtain ⟨hpanicked, hg⟩ := hen
  -- a step of `Run` alone
  have run_only : ∀ {t : State}, t.waiting n = s.waiting n → t.traffic senders = s.traffic senders →
      t.run.work t.clients n < s.run.work s.clients n → t.work senders n < s.work senders n := by
    intro t hwaiting htraffic hlt
    rw [State.work, State.work, hwaiting, htraffic]
    omega
  -- a step that `Run` has no part in
  have not_run : ∀ {t : State}, t.run.work t.clients n = s.run.work s.clients n →
      t.waiting n = s.waiting n → t.traffic senders < s.traffic senders →
      t.work senders n < s.work senders n := by
    intro t hrun hwaiting hlt
    rw [State.work, State.work, hrun, hwaiting]
    omega
  cases l with
  | sendRLock g c m =>
    refine not_run rfl rfl (traffic_setSending h (g := g) (by rw [hg.1]; simp) ?_ rfl rfl rfl)
    rw [hg.1]
    exact Nat.lt_succ_self 4
  | sendTest g c m =>
    rw [Guard] at hg
    refine not_run rfl rfl (traffic_setSending h (g := g) (by rw [hg]; simp) ?_ rfl rfl rfl)
    rw [hg]
    split <;> simp [SendPC.work]
  | sendRUnlock g c =>
    rw [Guard] at hg
    refine not_run rfl rfl (traffic_setSending h (g := g) (by rw [hg]; simp) ?_ rfl rfl rfl)
    rw [hg]
    exact Nat.zero_lt_one
  | sendMessage g c m => exact not_run rfl rfl (h.traffic_sendMessage hg)
  | write c m ok =>
    obtain ⟨rfl, hmem⟩ := hserves
    exact not_run rfl rfl (traffic_write hmem hg.1)
  | takeRegister c =>
    have hwaiting := waiting_takeRegister (n := n) hg.2
    show 14 + 3 * n + (Hub.next s (.takeRegister c)).waiting n + s.traffic senders < _
    rw [State.work]
    omega
  | takeUnregister c =>
    have hwaiting := waiting_takeUnregister (n := n) hg.2
    show 17 + 3 * n + (Hub.next s (.takeUnregister c)).waiting n + s.traffic senders < _
    rw [State.work]
    omega
  | takeBroadcast k =>
    have hk := lt_spawned_of_pending h.reachable k hg.2
    have hwaiting := waiting_takeBroadcast (n := n) hk hg.2
    show 3 + 3 * n + (Hub.next s (.takeBroadcast k)).waiting n + s.traffic senders < _
    rw [State.work]
    omega
  | goSendInfo i =>
    rw [Guard] at hg
    have hwaiting := waiting_goSendInfo (s := s) (n := n) i
    show 0 + (Hub.next s (.goSendInfo i)).waiting n + s.traffic senders < _
    rw [hwaiting, State.work, hg, RunPC.work]
    omega
  | registerInsert c =>
    rw [Guard] at hg
    have hmem := not_mem_of_inserting (c := c) (memberInv_of_reachable h.reachable)
      (by rw [hg]; rfl)
    have htraffic := traffic_registerInsert senders hmem
    show 9 + 3 * n + s.waiting n + (Hub.next s (.registerInsert c)).traffic senders < _
    rw [State.work, hg, RunPC.work]
    omega
  | unregisterDelete c =>
    rw [Guard] at hg
    have htraffic := traffic_unregisterDelete s senders c
    show 11 + 3 * n + s.waiting n + (Hub.next s (.unregisterDelete c)).traffic senders < _
    rw [State.work, hg, RunPC.work]
    omega
  | broadcastRLock m =>
    have hbound := h.bound
    refine run_only rfl rfl ?_
    rw [hg.1]
    show 2 + 3 * (s.clients \ ∅).card < 3 + 3 * n
    rw [Finset.sdiff_empty]
    omega
  | broadcastNext m visited c =>
    refine run_only rfl rfl ?_
    rw [hg.1]
    show 1 + 3 * (s.clients \ visited).card < 2 + 3 * (s.clients \ visited).card
    omega
  | broadcastSend m visited c =>
    obtain ⟨hrun, -, hselect⟩ := hg
    have hmem := (sendInv_of_reachable h.reachable).forward c (by rw [hrun]; rfl)
    have hfresh := freshInv_of_reachable h.reachable m visited c hrun
    have htraffic := traffic_broadcastSend senders m visited hmem hselect
    have hcard : (s.clients \ insert c visited).card + 1 = (s.clients \ visited).card := by
      rw [Finset.sdiff_insert]
      exact Finset.card_erase_add_one (Finset.mem_sdiff.mpr ⟨hmem, hfresh⟩)
    show 2 + 3 * (s.clients \ insert c visited).card + s.waiting n +
      (Hub.next s (.broadcastSend m visited c)).traffic senders < _
    rw [State.work, hrun, RunPC.work]
    omega
  | broadcastEnd m visited =>
    refine run_only rfl rfl ?_
    rw [hg.1, RunPC.work]
    show 1 < _
    omega
  | unregisterRUnlock c ok =>
    rw [Guard] at hg
    refine run_only rfl rfl ?_
    rw [hg, RunPC.work]
    cases ok with
    | true => exact Nat.add_lt_add_right (by decide) _
    | false => exact Nat.add_pos_left (by decide) _
  | registerLock c | registerUnlock c | unregisterTest c | unregisterLock c
  | unregisterUnlock c | unregisterCloseConn c | infoLen | infoRUnlock i
  | broadcastRUnlock =>
    rw [Guard] at hg
    refine run_only rfl rfl ?_
    rw [hg]
    simp [next, RunPC.work]
  | registerLocked c | unregisterRLock c | unregisterLocked c
  | unregisterCloseSend c | infoRLock =>
    refine run_only rfl rfl ?_
    rw [hg.1]
    simp [next, RunPC.work]
  | unregisterPanic c | broadcastPanic m visited c =>
    have hpanic := panicked_of_reachable (h.reachable.next trivial ⟨hpanicked, hg⟩)
    cases hpanic
  | _ => cases hserves

/-! ## What is known stays known -/

/-- Nobody joins by a step that only serves. -/
theorem joined_of_next {c : ClientId} (hserves : Serves s l) (hen : Enabled s l)
    (hc : Joined (next s l) c) : Joined s c := by
  obtain ⟨-, hg⟩ := hen
  have of_run : ∀ {pc : RunPC}, pc.inserting = none →
      (c ∈ s.clients ∨ c ∈ s.register ∨ pc.inserting = some c) → Joined s c := by
    intro pc hpc hor
    rw [hpc] at hor
    rcases hor with hmem | hmem | hmem
    · exact .inl hmem
    · exact .inr (.inl hmem)
    · cases hmem
  cases l with
  | sendRLock | sendTest | sendMessage | sendRUnlock => exact hc
  | write c' m ok =>
    obtain ⟨rfl, -⟩ := hserves
    exact hc
  | takeRegister c' =>
    rcases hc with hmem | hmem | hmem
    · exact .inl hmem
    · exact .inr (.inl (List.mem_of_mem_tail hmem))
    · obtain rfl : c' = c := Option.some.inj hmem
      exact .inr (.inl (List.mem_of_mem_head? hg.2))
  | registerLock c' =>
    rw [Guard] at hg
    rw [Joined, hg]
    exact hc
  | registerLocked c' =>
    rw [Joined, hg.1]
    exact hc
  | registerInsert c' =>
    rw [Guard] at hg
    rcases hc with hmem | hmem | hmem
    · rcases Finset.mem_insert.mp hmem with rfl | hmem
      · exact .inr (.inr (by rw [hg]; rfl))
      · exact .inl hmem
    · exact .inr (.inl hmem)
    · cases hmem
  | unregisterDelete c' =>
    rcases hc with hmem | hmem | hmem
    · exact .inl (Finset.mem_of_mem_erase hmem)
    · exact .inr (.inl hmem)
    · cases hmem
  | unregisterRUnlock c' ok => cases ok <;> exact of_run rfl hc
  | registerUnlock | takeUnregister | unregisterRLock | unregisterTest | unregisterLock
  | unregisterLocked | unregisterUnlock | unregisterCloseConn | unregisterCloseSend | infoRLock
  | infoLen | infoRUnlock | goSendInfo | takeBroadcast | broadcastRLock | broadcastNext
  | broadcastSend | broadcastEnd | broadcastRUnlock => exact of_run rfl hc
  | unregisterPanic | broadcastPanic => exact hc
  | _ => cases hserves

/-- A client that `Run` removes has left. -/
theorem MemberInv.not_joined_of_removing {c : ClientId} (h : MemberInv s)
    (hc : s.run.removing = some c) : ¬Joined s c := by
  obtain ⟨p, hp⟩ := h.placed c
  have hleaving : p = .leaving := hp.leaving.mp hc
  rw [Joined, hp.member, hp.queued, hp.taken, hleaving]
  simp

theorem serviceable_next {c : ClientId} (hm : MemberInv s) (hserves : Serves s l)
    (hen : Enabled s l) (hjoined : Joined s c) (hc : Serviceable s c) :
    Serviceable (next s l) c := by
  obtain ⟨-, hg⟩ := hen
  -- a `WriteLoop` that receives or has written
  have update : ∀ {c' : ClientId} {pc : WriteLoopPC}, pc.running = true →
      (Function.update s.writeLoop c' pc c).running = true := by
    intro c' pc hpc
    rw [Function.update_apply]
    split
    · exact hpc
    · exact hc.2
  cases l with
  | write c' m ok =>
    obtain ⟨rfl, -⟩ := hserves
    exact ⟨hc.1, update rfl⟩
  | sendMessage g c' m => exact ⟨hc.1, update rfl⟩
  | broadcastSend m visited c' => exact ⟨hc.1, update rfl⟩
  | unregisterCloseConn c' =>
    rw [Guard] at hg
    have hne : c ≠ c' := by
      rintro rfl
      exact hm.not_joined_of_removing (by rw [hg]; rfl) hjoined
    refine ⟨?_, hc.2⟩
    show Function.update s.connClosed c' true c = false
    rw [Function.update_of_ne hne]
    exact hc.1
  | sendRLock | sendTest | sendRUnlock | takeRegister | registerLock | registerLocked
  | registerInsert | registerUnlock | takeUnregister | unregisterRLock | unregisterTest
  | unregisterRUnlock | unregisterLock | unregisterLocked | unregisterDelete | unregisterUnlock
  | unregisterCloseSend | unregisterPanic | infoRLock | infoLen | infoRUnlock | goSendInfo
  | takeBroadcast | broadcastRLock | broadcastNext | broadcastPanic | broadcastEnd
  | broadcastRUnlock => exact hc
  | _ => cases hserves

/-- The clients that have joined become no more. -/
theorem joined_card_next (hserves : Serves s l) (hen : Enabled s l) :
    (next s l).clients.card + (next s l).register.length +
        (next s l).run.inserting.toList.length ≤
      s.clients.card + s.register.length + s.run.inserting.toList.length := by
  obtain ⟨-, hg⟩ := hen
  have of_run : ∀ {pc : RunPC}, pc.inserting = none →
      s.clients.card + s.register.length + pc.inserting.toList.length ≤
        s.clients.card + s.register.length + s.run.inserting.toList.length := by
    intro pc hpc
    rw [hpc]
    exact Nat.add_le_add_left (Nat.zero_le _) _
  cases l with
  | sendRLock | sendTest | sendMessage | sendRUnlock => exact Nat.le_refl _
  | write c m ok =>
    obtain ⟨rfl, -⟩ := hserves
    exact Nat.le_refl _
  | takeRegister c =>
    obtain ⟨hrun, hhead⟩ := hg
    obtain ⟨rest, hregister⟩ := List.head?_eq_some_iff.mp hhead
    rw [hrun]
    show s.clients.card + s.register.tail.length + 1 ≤ s.clients.card + s.register.length + 0
    rw [hregister, List.tail_cons, List.length_cons]
    omega
  | registerLock c =>
    rw [Guard] at hg
    rw [hg]
    exact Nat.le_refl _
  | registerLocked c =>
    rw [hg.1]
    exact Nat.le_refl _
  | registerInsert c =>
    rw [Guard] at hg
    have hcard := Finset.card_insert_le c s.clients
    rw [hg]
    show (insert c s.clients).card + s.register.length + 0 ≤
      s.clients.card + s.register.length + 1
    omega
  | unregisterDelete c =>
    have hcard := Finset.card_erase_le (a := c) (s := s.clients)
    show (s.clients.erase c).card + s.register.length + 0 ≤ _
    omega
  | unregisterRUnlock c ok => cases ok <;> exact of_run rfl
  | registerUnlock | takeUnregister | unregisterRLock | unregisterTest | unregisterLock
  | unregisterLocked | unregisterUnlock | unregisterCloseConn | unregisterCloseSend | infoRLock
  | infoLen | infoRUnlock | goSendInfo | takeBroadcast | broadcastRLock | broadcastNext
  | broadcastSend | broadcastEnd | broadcastRUnlock => exact of_run rfl
  | unregisterPanic | broadcastPanic => exact Nat.le_refl _
  | _ => cases hserves

/-- No sending block is entered. -/
theorem idle_next {g : Sender} (hserves : Serves s l) (hen : Enabled s l)
    (hidle : s.sending g = .idle) : (next s l).sending g = .idle := by
  obtain ⟨-, hg⟩ := hen
  have other : ∀ {g' : Sender} {blk : SendPC}, s.sending g' ≠ .idle →
      Function.update s.sending g' blk g = .idle := by
    intro g' blk hne
    rw [Function.update_of_ne (by rintro rfl; exact hne hidle), hidle]
  cases l with
  | sendRLock g' c m => exact other (by simp [hg.1])
  | sendTest g' c m => exact other (by rw [show s.sending g' = .test c m from hg]; simp)
  | sendMessage g' c m => exact other (by simp [hg.1])
  | sendRUnlock g' c => exact other (by rw [show s.sending g' = .rUnlock c from hg]; simp)
  | write c m ok =>
    obtain ⟨rfl, -⟩ := hserves
    exact hidle
  | takeRegister | registerLock | registerLocked | registerInsert | registerUnlock
  | takeUnregister | unregisterRLock | unregisterTest | unregisterRUnlock | unregisterLock
  | unregisterLocked | unregisterDelete | unregisterUnlock | unregisterCloseConn
  | unregisterCloseSend | unregisterPanic | infoRLock | infoLen | infoRUnlock | goSendInfo
  | takeBroadcast | broadcastRLock | broadcastNext | broadcastSend | broadcastPanic
  | broadcastEnd | broadcastRUnlock => exact hidle
  | _ => cases hserves

theorem Draining.next (h : Draining senders n s) (hserves : Serves s l) (hen : Enabled s l) :
    Draining senders n (next s l) := by
  have hm := memberInv_of_reachable h.reachable
  refine ⟨h.reachable.next trivial hen, fun c hc => ?_, ?_, fun g hg => ?_⟩
  · have hjoined := joined_of_next hserves hen hc
    exact serviceable_next hm hserves hen hjoined (h.serviceable c hjoined)
  · exact (joined_card_next hserves hen).trans h.bound
  · exact idle_next hserves hen (h.senders g hg)

/-! ## Somebody can move -/

/-- Some step that does work is possible. -/
def CanServe (s : State) : Prop := ∃ l, Serves s l ∧ hub.Enabled s l

theorem Draining.canServe (h : Draining senders n s) (l : Label) (hserves : Serves s l)
    (hg : Guard s l) : CanServe s :=
  ⟨l, hserves, panicked_of_reachable h.reachable, hg⟩

/-- A member's `WriteLoop` receives, or has a write to do first. -/
theorem Draining.select_or_canServe (h : Draining senders n s) {c : ClientId}
    (hc : c ∈ s.clients) : s.writeLoop c = .select ∨ CanServe s := by
  obtain ⟨hopen, hrunning⟩ := h.serviceable c (.inl hc)
  cases hw : s.writeLoop c with
  | select => exact .inl rfl
  | writing m => exact .inr (h.canServe (.write c m true) ⟨rfl, hc⟩ ⟨hw, fun _ => hopen⟩)
  | notStarted | returned =>
    rw [hw] at hrunning
    cases hrunning

/-- Whoever is inside the lock gets on. -/
theorem Draining.canServe_of_reads (h : Draining senders n s) {g : Sender}
    (hg : (s.sending g).reads = true) : CanServe s := by
  cases hpc : s.sending g with
  | test c m => exact h.canServe (.sendTest g c m) trivial hpc
  | rUnlock c => exact h.canServe (.sendRUnlock g c) trivial hpc
  | send c m =>
    have hmem := (sendInv_of_reachable h.reachable).sender g c m hpc
    rcases h.select_or_canServe hmem with hselect | hcan
    · exact h.canServe (.sendMessage g c m) trivial
        ⟨hpc, sendClosed_of_mem h.reachable hmem, hselect⟩
    · exact hcan
  | idle | rLock =>
    rw [hpc] at hg
    cases hg

/-- `Lock` returns, or a reader inside gets on. -/
theorem Draining.canLock_or_canServe (h : Draining senders n s)
    (hrun : s.run.reads = false) : s.mutex.CanLock ∨ CanServe s := by
  have hlock := lockInv_of_reachable h.reachable
  rcases s.mutex.readers.eq_empty_or_nonempty with hempty | ⟨r, hr⟩
  · exact .inl hempty
  · cases r with
    | run =>
      rw [hlock.run, hrun] at hr
      cases hr
    | sender g => exact .inr (h.canServe_of_reads ((hlock.sender g).mp hr))

/-- At `Run`'s `select` the lock is free for readers. -/
theorem Draining.drained_or_canServe (h : Draining senders n s) (hrun : s.run = .select) :
    Drained s ∨ CanServe s := by
  have hlock := lockInv_of_reachable h.reachable
  by_contra hneither
  rw [not_or] at hneither
  obtain ⟨hdrained, hstuck⟩ := hneither
  refine hdrained ⟨hrun, ?_, ?_, fun k => ?_, fun g => ?_, fun c hc => ?_⟩
  · cases hregister : s.register with
    | nil => rfl
    | cons c rest =>
      exact absurd (h.canServe (.takeRegister c) rfl ⟨hrun, by rw [hregister]; rfl⟩) hstuck
  · cases hunregister : s.unregister with
    | nil => rfl
    | cons c rest =>
      exact absurd (h.canServe (.takeUnregister c) rfl ⟨hrun, by rw [hunregister]; rfl⟩) hstuck
  · by_contra hpending
    rw [Bool.not_eq_false] at hpending
    exact hstuck (h.canServe (.takeBroadcast k) rfl ⟨hrun, hpending⟩)
  · cases hpc : s.sending g with
    | idle => rfl
    | rLock c m =>
      have hfree : s.mutex.CanRLock := hlock.writer.trans (by rw [hrun]; rfl)
      exact absurd (h.canServe (.sendRLock g c m) trivial ⟨hpc, hfree⟩) hstuck
    | test | send | rUnlock => exact absurd (h.canServe_of_reads (by rw [hpc]; rfl)) hstuck
  · exact (h.select_or_canServe hc).resolve_right hstuck

theorem Draining.progress (h : Draining senders n s) : Drained s ∨ CanServe s := by
  have hlock := lockInv_of_reachable h.reachable
  -- `Run` is elsewhere, and the write lock is free
  have hfree : s.run.writer = .idle → s.mutex.CanRLock := fun hw => hlock.writer.trans hw
  cases hrun : s.run with
  | select => exact h.drained_or_canServe hrun
  | registerLocking c =>
    rcases h.canLock_or_canServe (by rw [hrun]; rfl) with hcan | hcan
    · exact .inr (h.canServe (.registerLocked c) rfl ⟨hrun, hcan⟩)
    · exact .inr hcan
  | unregisterLocking c =>
    rcases h.canLock_or_canServe (by rw [hrun]; rfl) with hcan | hcan
    · exact .inr (h.canServe (.unregisterLocked c) rfl ⟨hrun, hcan⟩)
    · exact .inr hcan
  | unregisterCloseSend c =>
    have hopen := sendClosed_of_closing (c := c) h.reachable (by rw [hrun]; rfl)
    exact .inr (h.canServe (.unregisterCloseSend c) rfl ⟨hrun, hopen⟩)
  | broadcastRange m visited =>
    by_cases hall : s.clients ⊆ visited
    · exact .inr (h.canServe (.broadcastEnd m visited) rfl ⟨hrun, hall⟩)
    · obtain ⟨c, hc, hnot⟩ := Finset.not_subset.mp hall
      exact .inr (h.canServe (.broadcastNext m visited c) rfl ⟨hrun, hc, hnot⟩)
  | broadcastSend m visited c =>
    have hmem := (sendInv_of_reachable h.reachable).forward c (by rw [hrun]; rfl)
    rcases h.select_or_canServe hmem with hselect | hcan
    · exact .inr (h.canServe (.broadcastSend m visited c) rfl
        ⟨hrun, sendClosed_of_mem h.reachable hmem, hselect⟩)
    · exact .inr hcan
  | unregisterRLock c =>
    exact .inr (h.canServe (.unregisterRLock c) rfl ⟨hrun, hfree (by rw [hrun]; rfl)⟩)
  | infoRLock => exact .inr (h.canServe .infoRLock rfl ⟨hrun, hfree (by rw [hrun]; rfl)⟩)
  | broadcastRLock m =>
    exact .inr (h.canServe (.broadcastRLock m) rfl ⟨hrun, hfree (by rw [hrun]; rfl)⟩)
  | registerLock c => exact .inr (h.canServe (.registerLock c) rfl hrun)
  | registerInsert c => exact .inr (h.canServe (.registerInsert c) rfl hrun)
  | registerUnlock c => exact .inr (h.canServe (.registerUnlock c) rfl hrun)
  | unregisterTest c => exact .inr (h.canServe (.unregisterTest c) rfl hrun)
  | unregisterRUnlock c ok => exact .inr (h.canServe (.unregisterRUnlock c ok) rfl hrun)
  | unregisterLock c => exact .inr (h.canServe (.unregisterLock c) rfl hrun)
  | unregisterDelete c => exact .inr (h.canServe (.unregisterDelete c) rfl hrun)
  | unregisterUnlock c => exact .inr (h.canServe (.unregisterUnlock c) rfl hrun)
  | unregisterCloseConn c => exact .inr (h.canServe (.unregisterCloseConn c) rfl hrun)
  | infoLen => exact .inr (h.canServe .infoLen rfl hrun)
  | infoRUnlock i => exact .inr (h.canServe (.infoRUnlock i) rfl hrun)
  | goSendInfo i => exact .inr (h.canServe (.goSendInfo i) rfl hrun)
  | broadcastRUnlock => exact .inr (h.canServe .broadcastRUnlock rfl hrun)

/-! ## The hub drains -/

/-- Only finitely many sending blocks have been entered. -/
theorem exists_senders (h : hub.Reachable s) :
    ∃ senders : Finset Sender, ∀ g, g ∉ senders → s.sending g = .idle := by
  refine h.invariant (P := fun s => ∃ senders : Finset Sender,
    ∀ g, g ∉ senders → s.sending g = .idle) ⟨∅, fun _ _ => rfl⟩ ?_
  rintro s l - ⟨senders, hidle⟩ - -
  have update : ∀ {g' : Sender} {blk : SendPC}, ∃ senders : Finset Sender,
      ∀ g, g ∉ senders → Function.update s.sending g' blk g = .idle := by
    intro g' blk
    refine ⟨insert g' senders, fun g hg => ?_⟩
    rw [Finset.mem_insert, not_or] at hg
    rw [Function.update_of_ne hg.1]
    exact hidle g hg.2
  cases l with
  | marshalMessage c offerString ok =>
    cases ok with
    | true => exact update
    | false => exact ⟨senders, hidle⟩
  | onICECandidate k c candidateString => exact update
  | onConnectionStateChange k c p => cases p <;> exact ⟨senders, hidle⟩
  | write c m ok => cases ok <;> exact ⟨senders, hidle⟩
  | sendRLock | sendTest | sendMessage | sendRUnlock => exact update
  | _ => exact ⟨senders, hidle⟩

end Lightspeed.Hub
