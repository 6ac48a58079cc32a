import Lightspeed.Hub.Broadcast

/-!
# Membership accounting

Up to three places ask for a client's removal, and the removal tests the map under the read lock
and deletes under the write lock. Still the books are exact (`AccountInv`): the map holds what was
inserted less what was deleted, every change of the map is followed by one `SendInfo`, and the
snapshot it is started with is the size of the map right after the change, as nobody else changes
the map before `Run` is back at its `select`.
-/

namespace Lightspeed.Hub

/-! ## The books -/

def Event.isInsert : Event → Bool
  | .insert _ => true
  | _ => false

def Event.isDelete : Event → Bool
  | .delete _ => true
  | _ => false

/-- The event is a part of `c`'s removal by `Run`. -/
def Event.removes (c : ClientId) : Event → Bool
  | .delete c' | .closeConn c' | .closeSend c' => decide (c' = c)
  | _ => false

/-- How many clients `Run` has inserted so far. -/
def State.inserted (s : State) : ℕ := s.log.countP Event.isInsert

/-- How many clients `Run` has deleted so far. -/
def State.removed (s : State) : ℕ := s.log.countP Event.isDelete

/-- How often the map has changed. -/
def State.changes (s : State) : ℕ := s.inserted + s.removed

/-- The count that `SendInfo` number `k` carries. -/
def State.snapshot (s : State) (k : ℕ) : ℕ := (s.sendInfo k).info.noConnections

/-- The step changes the map. -/
def Label.ChangesMap : Label → Prop
  | .registerInsert _ | .unregisterDelete _ => True
  | _ => False

/-- Two numbers that differ by one. -/
def Adjacent (m n : ℕ) : Prop := n = m + 1 ∨ m = n + 1

/-! ## What one step enters -/

/-- What a step that adds `events` to the history does to the map, to the snapshots and to the
place of `Run`. -/
inductive Entry (s t : State) (events : List Event) : Prop
  | insert (c : ClientId) (events_eq : events = [.insert c])
    (card : t.clients.card = s.clients.card + 1)
    (before : s.run.counting = false) (after : t.run.counting = true)
    (counted : t.run.counted = none) (spawned : t.spawned = s.spawned)
    (sendInfo : t.sendInfo = s.sendInfo)
  | delete (c : ClientId) (events_eq : events = [.delete c])
    (card : s.clients.card = t.clients.card + 1)
    (before : s.run.counting = false) (after : t.run.counting = true)
    (counted : t.run.counted = none) (spawned : t.spawned = s.spawned)
    (sendInfo : t.sendInfo = s.sendInfo)
  | spawn (i : Info) (events_eq : events = [.spawn i]) (clients : t.clients = s.clients)
    (before : s.run.counting = true) (snapshot : s.run.counted = some i)
    (after : t.run.counting = false) (counted : t.run.counted = none)
    (spawned : t.spawned = s.spawned + 1)
    (sendInfo : t.sendInfo = Function.update s.sendInfo s.spawned ⟨i, true⟩)
  | quiet (events_eq : ∀ e ∈ events, e.isInsert = false ∧ e.isDelete = false)
    (clients : t.clients = s.clients) (counting : t.run.counting = s.run.counting)
    (counted : ∀ i, t.run.counted = some i → s.run.counted = some i ∨ i = s.getInfo)
    (spawned : t.spawned = s.spawned) (info : ∀ k, (t.sendInfo k).info = (s.sendInfo k).info)

theorem not_mem_of_inserting {s : State} {c : ClientId} (h : MemberInv s)
    (hrun : s.run.inserting = some c) : c ∉ s.clients := by
  obtain ⟨p, hp⟩ := h.placed c
  have htaken : p = .taken := hp.taken.mp hrun
  rw [hp.member, htaken]
  simp

/-- Every step is one of the four. -/
theorem entry_next {s : State} {l : Label} (h : MemberInv s) (hen : Enabled s l) :
    Entry s (next s l) (l.events s) := by
  obtain ⟨-, hg⟩ := hen
  -- a step in which `Run` does not move
  have still : ∀ {t : State}, t.run = s.run → t.clients = s.clients → t.spawned = s.spawned →
      t.sendInfo = s.sendInfo → (∀ e ∈ l.events s, e.isInsert = false ∧ e.isDelete = false) →
      Entry s t (l.events s) := by
    intro t hrun hclients hspawned hsnap hevents
    exact .quiet hevents hclients (by rw [hrun]) (fun i hi => .inl (hrun ▸ hi)) hspawned
      fun k => by rw [hsnap]
  -- a step of `Run` that keeps the map and what is counted
  have move : ∀ {pc pc' : RunPC} {t : State}, s.run = pc → t.run = pc' →
      pc'.counting = pc.counting → pc'.counted = pc.counted → t.clients = s.clients →
      t.spawned = s.spawned → t.sendInfo = s.sendInfo →
      (∀ e ∈ l.events s, e.isInsert = false ∧ e.isDelete = false) →
      Entry s t (l.events s) := by
    intro pc pc' t hpc hpc' hcounting hcounted hclients hspawned hsnap hevents
    subst hpc hpc'
    exact .quiet hevents hclients hcounting (fun i hi => .inl (hcounted ▸ hi)) hspawned
      fun k => by rw [hsnap]
  cases l with
  | registerInsert c =>
    rw [Guard] at hg
    have hmem := not_mem_of_inserting (c := c) h (by rw [hg]; rfl)
    exact .insert c rfl (Finset.card_insert_of_notMem hmem) (by rw [hg]; rfl) rfl rfl rfl rfl
  | unregisterDelete c =>
    rw [Guard] at hg
    have hmem := h.evicting c (by rw [hg]; rfl)
    exact .delete c rfl (Finset.card_erase_add_one hmem).symm (by rw [hg]; rfl) rfl rfl rfl rfl
  | goSendInfo i =>
    rw [Guard] at hg
    exact .spawn i rfl rfl (by rw [hg]; rfl) (by rw [hg]; rfl) rfl rfl rfl rfl
  | infoLen =>
    rw [Guard] at hg
    exact .quiet (by simp [Label.events]) rfl (by rw [hg]; rfl)
      (fun i hi => .inr (Option.some.inj hi).symm) rfl fun _ => rfl
  | takeBroadcast k =>
    refine .quiet (by simp [Label.events, Event.isInsert, Event.isDelete]) rfl
      (by rw [hg.1]; rfl) (fun i hi => by cases hi) rfl fun k' => ?_
    by_cases hk : k' = k
    · rw [hk]
      simp [next]
    · simp [next, Function.update_of_ne hk]
  | sendMessage g c m =>
    exact still rfl rfl rfl rfl (by simp [Label.events, Event.isInsert, Event.isDelete])
  | marshalMessage c offerString ok =>
    cases ok <;> exact still rfl rfl rfl rfl (by simp [Label.events])
  | onConnectionStateChange k c p =>
    cases p <;> exact still rfl rfl rfl rfl (by simp [Label.events])
  | write c m ok => cases ok <;> exact still rfl rfl rfl rfl (by simp [Label.events])
  | unregisterRUnlock c ok =>
    cases ok <;> exact move hg rfl rfl rfl rfl rfl rfl (by simp [Label.events])
  | takeRegister | registerLocked | takeUnregister | unregisterRLock | unregisterLocked
  | infoRLock | broadcastRLock | broadcastNext | broadcastEnd =>
    exact move hg.1 rfl rfl rfl rfl rfl rfl (by simp [Label.events])
  | unregisterCloseSend | broadcastSend =>
    exact move hg.1 rfl rfl rfl rfl rfl rfl
      (by simp [Label.events, Event.isInsert, Event.isDelete])
  | registerLock | registerUnlock | unregisterTest | unregisterLock | unregisterUnlock
  | infoRUnlock | broadcastRUnlock =>
    exact move hg rfl rfl rfl rfl rfl rfl (by simp [Label.events])
  | unregisterCloseConn =>
    exact move hg rfl rfl rfl rfl rfl rfl (by simp [Label.events, Event.isInsert, Event.isDelete])
  | _ => exact still rfl rfl rfl rfl (by simp [Label.events])

theorem inserted_next (s : State) (l : Label) :
    (next s l).inserted = s.inserted + (l.events s).countP Event.isInsert := by
  rw [State.inserted, log_next, List.countP_append, State.inserted]

theorem removed_next (s : State) (l : Label) :
    (next s l).removed = s.removed + (l.events s).countP Event.isDelete := by
  rw [State.removed, log_next, List.countP_append, State.removed]

/-! ## The invariant -/

structure AccountInv (s : State) : Prop where
  card : s.clients.card + s.removed = s.inserted
  changes : s.changes = s.spawned + s.run.counting.toNat
  counted : ∀ i, s.run.counted = some i → i = s.getInfo
  /-- The last snapshot is the size of the map, or was before the change that `Run` is still to
  announce. -/
  last : ∀ k, k + 1 = s.spawned → (s.run.counting = false → s.snapshot k = s.clients.card) ∧
    (s.run.counting = true → Adjacent (s.snapshot k) s.clients.card)
  adjacent : ∀ k, k + 1 < s.spawned → Adjacent (s.snapshot k) (s.snapshot (k + 1))

theorem accountInv_init : AccountInv init where
  card := rfl
  changes := rfl
  counted i h := by cases h
  last k h := by cases h
  adjacent k h := absurd h (Nat.not_lt_zero _)

theorem State.snapshot_congr {s t : State} (h : ∀ k, (t.sendInfo k).info = (s.sendInfo k).info)
    (k : ℕ) : t.snapshot k = s.snapshot k := by
  rw [State.snapshot, h, State.snapshot]

theorem State.getInfo_congr {s t : State} (h : t.clients = s.clients) : t.getInfo = s.getInfo := by
  rw [State.getInfo, State.noClients, h, State.getInfo, State.noClients]

theorem countP_eq_zero {events : List Event} {p : Event → Bool} (h : ∀ e ∈ events, p e = false) :
    events.countP p = 0 := by
  rw [List.countP_eq_zero]
  intro e he
  rw [h e he]
  exact Bool.false_ne_true

/-- A change of the map: `Run` has not announced it, and all before it are announced. -/
theorem AccountInv.change {s t : State} (h : AccountInv s) (hbefore : s.run.counting = false)
    (hafter : t.run.counting = true) (hcounted : t.run.counted = none)
    (hspawned : t.spawned = s.spawned) (hsnap : t.sendInfo = s.sendInfo)
    (hcard : t.clients.card + t.removed = t.inserted) (hchanges : t.changes = s.changes + 1)
    (hadj : Adjacent s.clients.card t.clients.card) : AccountInv t where
  card := hcard
  changes := by
    have hbooks := h.changes
    rw [hbefore, Bool.toNat_false] at hbooks
    rw [hchanges, hspawned, hafter, Bool.toNat_true]
    omega
  counted i hi := by
    rw [hcounted] at hi
    cases hi
  last k hk := by
    rw [hspawned] at hk
    refine ⟨fun hc => ?_, fun _ => ?_⟩
    · rw [hafter] at hc
      cases hc
    · rw [State.snapshot, hsnap, ← State.snapshot, (h.last k hk).1 hbefore]
      exact hadj
  adjacent k hk := by
    rw [hspawned] at hk
    rw [State.snapshot, State.snapshot, hsnap]
    exact h.adjacent k hk

/-- `go h.SendInfo(h.GetInfo())`: the last change is announced. -/
theorem AccountInv.announce {s t : State} {i : Info} (h : AccountInv s)
    (hbefore : s.run.counting = true) (hsnapshot : s.run.counted = some i)
    (hafter : t.run.counting = false) (hcounted : t.run.counted = none)
    (hspawned : t.spawned = s.spawned + 1)
    (hsnap : t.sendInfo = Function.update s.sendInfo s.spawned ⟨i, true⟩)
    (hclients : t.clients = s.clients) (hins : t.inserted = s.inserted)
    (hrem : t.removed = s.removed) : AccountInv t := by
  have hnew : t.snapshot s.spawned = s.clients.card := by
    rw [State.snapshot, hsnap, Function.update_self, h.counted i hsnapshot]
    rfl
  have hold : ∀ k < s.spawned, t.snapshot k = s.snapshot k := by
    intro k hk
    rw [State.snapshot, hsnap, Function.update_of_ne (by omega), State.snapshot]
  constructor
  · rw [hclients, hins, hrem]
    exact h.card
  · have hchanges := h.changes
    rw [State.changes, hbefore, Bool.toNat_true] at hchanges
    rw [State.changes, hins, hrem, hspawned, hafter, Bool.toNat_false]
    omega
  · intro i' hi'
    rw [hcounted] at hi'
    cases hi'
  · intro k hk
    rw [hspawned] at hk
    obtain rfl : k = s.spawned := by omega
    refine ⟨fun _ => by rw [hnew, hclients], fun hc => ?_⟩
    rw [hafter] at hc
    cases hc
  · intro k hk
    rw [hspawned] at hk
    rw [hold k (by omega)]
    by_cases hlast : k + 1 = s.spawned
    · rw [hlast, hnew]
      exact (h.last k hlast).2 hbefore
    · rw [hold (k + 1) (by omega)]
      exact h.adjacent k (by omega)

/-- The map and the snapshots stay as they are, and at most the count before an announcement is
taken. -/
theorem AccountInv.quiet {s t : State} (h : AccountInv s) (hclients : t.clients = s.clients)
    (hcounting : t.run.counting = s.run.counting)
    (hcounted : ∀ i, t.run.counted = some i → s.run.counted = some i ∨ i = s.getInfo)
    (hspawned : t.spawned = s.spawned) (hinfo : ∀ k, (t.sendInfo k).info = (s.sendInfo k).info)
    (hins : t.inserted = s.inserted) (hrem : t.removed = s.removed) : AccountInv t where
  card := by
    rw [hclients, hins, hrem]
    exact h.card
  changes := by
    rw [State.changes, hins, hrem, hspawned, hcounting]
    exact h.changes
  counted i hi := by
    rw [State.getInfo_congr hclients]
    rcases hcounted i hi with hi | rfl
    · exact h.counted i hi
    · rfl
  last k hk := by
    rw [hspawned] at hk
    rw [State.snapshot_congr hinfo, hclients, hcounting]
    exact h.last k hk
  adjacent k hk := by
    rw [hspawned] at hk
    rw [State.snapshot_congr hinfo, State.snapshot_congr hinfo]
    exact h.adjacent k hk

theorem AccountInv.next {s : State} {l : Label} (h : AccountInv s) (hm : MemberInv s)
    (hen : Enabled s l) : AccountInv (next s l) := by
  have hcard := h.card
  have hins := inserted_next s l
  have hrem := removed_next s l
  cases entry_next hm hen with
  | insert c hevents hclients hbefore hafter hcounted hspawned hsnap =>
    rw [hevents] at hins hrem
    replace hins : (Hub.next s l).inserted = s.inserted + 1 := hins
    replace hrem : (Hub.next s l).removed = s.removed := hrem
    refine h.change hbefore hafter hcounted hspawned hsnap ?_ ?_ (.inl hclients)
    · omega
    · rw [State.changes, State.changes]
      omega
  | delete c hevents hclients hbefore hafter hcounted hspawned hsnap =>
    rw [hevents] at hins hrem
    replace hins : (Hub.next s l).inserted = s.inserted := hins
    replace hrem : (Hub.next s l).removed = s.removed + 1 := hrem
    refine h.change hbefore hafter hcounted hspawned hsnap ?_ ?_ (.inr hclients)
    · omega
    · rw [State.changes, State.changes]
      omega
  | spawn i hevents hclients hbefore hsnapshot hafter hcounted hspawned hsnap =>
    rw [hevents] at hins hrem
    exact h.announce hbefore hsnapshot hafter hcounted hspawned hsnap hclients hins hrem
  | quiet hevents hclients hcounting hcounted hspawned hinfo =>
    rw [countP_eq_zero fun e he => (hevents e he).1] at hins
    rw [countP_eq_zero fun e he => (hevents e he).2] at hrem
    exact h.quiet hclients hcounting hcounted hspawned hinfo hins hrem

theorem accountInv_of_reachable {s : State} (h : hub.Reachable s) : AccountInv s :=
  h.invariant accountInv_init fun _ _ hr hi _ hen =>
    hi.next (memberInv_of_reachable hr.reachable) hen

/-! ## The snapshot of a change -/

/-- After the step that changes the map and until `Run` starts the `SendInfo` for it, the map is
as the step left it; from then on that `SendInfo` carries its size. -/
structure Announces (i : Info) (k : ℕ) (t : State) : Prop where
  before : t.spawned ≤ k → t.spawned = k ∧ t.run.counting = true ∧ t.getInfo = i
  after : k < t.spawned → (t.sendInfo k).info = i

theorem Announces.next {s : State} {l : Label} {i : Info} {k : ℕ} (h : Announces i k s)
    (hr : hub.Reachable s) (hen : Enabled s l) : Announces i k (next s l) := by
  -- while a change is not announced, there is no other
  have busy : s.run.counting = false → (Hub.next s l).spawned = s.spawned →
      (Hub.next s l).sendInfo = s.sendInfo → Announces i k (Hub.next s l) := by
    intro hcounting hspawned hsnap
    have hlt : k < s.spawned := by
      by_contra hle
      have hbusy := (h.before (by omega)).2.1
      rw [hcounting] at hbusy
      cases hbusy
    refine ⟨fun hle => absurd hle (by omega), fun _ => ?_⟩
    rw [hsnap]
    exact h.after hlt
  cases entry_next (memberInv_of_reachable hr) hen with
  | insert c hevents hclients hbefore hafter hcounted hspawned hsnap =>
    exact busy hbefore hspawned hsnap
  | delete c hevents hclients hbefore hafter hcounted hspawned hsnap =>
    exact busy hbefore hspawned hsnap
  | spawn i' hevents hclients hbefore hsnapshot hafter hcounted hspawned hsnap =>
    by_cases hle : s.spawned ≤ k
    · obtain ⟨rfl, -, hinfo⟩ := h.before hle
      refine ⟨fun hle' => absurd hle' (by omega), fun _ => ?_⟩
      rw [hsnap, Function.update_self, (accountInv_of_reachable hr).counted i' hsnapshot, hinfo]
    · refine ⟨fun hle' => absurd hle' (by omega), fun _ => ?_⟩
      rw [hsnap, Function.update_of_ne (by omega)]
      exact h.after (by omega)
  | quiet hevents hclients hcounting hcounted hspawned hinfo =>
    constructor
    · intro hle
      rw [hspawned] at hle
      rw [hspawned, hcounting, State.getInfo_congr hclients]
      exact h.before hle
    · intro hlt
      rw [hspawned] at hlt
      rw [hinfo]
      exact h.after hlt

/-- The step that changes the map for the `k`-th time, counted from 0. -/
theorem announces_of_change {s : State} {l : Label} (hr : hub.Reachable s) (hen : Enabled s l)
    (hl : l.ChangesMap) : Announces (next s l).getInfo s.changes (next s l) := by
  have hbooks := (accountInv_of_reachable hr).changes
  obtain ⟨-, hg⟩ := hen
  have hstart : s.run.counting = false → (next s l).spawned = s.spawned →
      (next s l).run.counting = true → Announces (next s l).getInfo s.changes (next s l) := by
    intro hidle hspawned hcounting
    rw [hidle, Bool.toNat_false] at hbooks
    exact ⟨fun _ => ⟨by omega, hcounting, rfl⟩, fun hlt => absurd hlt (by omega)⟩
  match l, hl, hg with
  | .registerInsert c, _, hg =>
    rw [Guard] at hg
    exact hstart (by rw [hg]; rfl) rfl rfl
  | .unregisterDelete c, _, hg =>
    rw [Guard] at hg
    exact hstart (by rw [hg]; rfl) rfl rfl

theorem snapshot_of_change {s t : State} {l : Label} (hr : hub.Reachable s) (hen : Enabled s l)
    (hl : l.ChangesMap) (h : hub.Path Lts.always (next s l) t) (hlt : s.changes < t.spawned) :
    (t.sendInfo s.changes).info = (next s l).getInfo := by
  have hboth : hub.Reachable t ∧ Announces (next s l).getInfo s.changes t := by
    refine h.invariant
      (P := fun t => hub.Reachable t ∧ Announces (next s l).getInfo s.changes t)
      ⟨hr.next trivial hen, announces_of_change hr hen hl⟩ ?_
    rintro u l' ⟨hu, hi⟩ - hen'
    exact ⟨hu.next trivial hen', hi.next hu hen'⟩
  exact hboth.2.after hlt

theorem changes_next_of_changesMap {s : State} {l : Label} (h : l.ChangesMap) :
    (next s l).changes = s.changes + 1 := by
  rw [State.changes, inserted_next, removed_next]
  match l, h with
  | .registerInsert c, _ =>
    show s.inserted + 1 + (s.removed + 0) = s.inserted + s.removed + 1
    omega
  | .unregisterDelete c, _ =>
    show s.inserted + 0 + (s.removed + 1) = s.inserted + s.removed + 1
    omega

theorem changes_next_of_not {s : State} {l : Label} (h : ¬l.ChangesMap) :
    (next s l).changes = s.changes := by
  rw [State.changes, inserted_next, removed_next, State.changes]
  cases l with
  | registerInsert c => exact absurd trivial h
  | unregisterDelete c => exact absurd trivial h
  | _ => rfl

/-- Every change that is counted was a step of the run. -/
theorem exists_change {t : State} (h : hub.Reachable t) : ∀ k < t.changes, ∃ s l,
    hub.Reachable s ∧ Enabled s l ∧ l.ChangesMap ∧ s.changes = k ∧
      hub.Path Lts.always (next s l) t := by
  refine h.invariant (P := fun t => ∀ k < t.changes, ∃ s l, hub.Reachable s ∧ Enabled s l ∧
    l.ChangesMap ∧ s.changes = k ∧ hub.Path Lts.always (next s l) t)
    (fun k hk => absurd hk (Nat.not_lt_zero k)) ?_
  intro u l hr hi _ hen k hk
  have hearlier : k < u.changes → ∃ s l', hub.Reachable s ∧ Enabled s l' ∧ l'.ChangesMap ∧
      s.changes = k ∧ hub.Path Lts.always (next s l') (hub.next u l) := by
    intro hlt
    obtain ⟨s, l', hs, hen', hl', hchanges, hpath⟩ := hi k hlt
    exact ⟨s, l', hs, hen', hl', hchanges, hpath.next trivial hen⟩
  by_cases hl : l.ChangesMap
  · replace hk : k < (next u l).changes := hk
    rw [changes_next_of_changesMap hl] at hk
    by_cases hlt : k < u.changes
    · exact hearlier hlt
    · exact ⟨u, l, hr.reachable, hen, hl, by omega, Relation.ReflTransGen.refl⟩
  · replace hk : k < (next u l).changes := hk
    rw [changes_next_of_not hl] at hk
    exact hearlier hk

/-! ## Removals -/

/-- How far `Run` is with `c`'s removal, if it is at it. -/
def RunPC.removal (c : ClientId) : RunPC → List Event
  | .unregisterUnlock c' | .unregisterCloseConn c' => if c' = c then [.delete c] else []
  | .unregisterCloseSend c' => if c' = c then [.delete c, .closeConn c] else []
  | _ => []

/-- What has been done of it, the channel being closed last. -/
def State.removal (s : State) (c : ClientId) : List Event :=
  if s.sendClosed c = true then [.delete c, .closeConn c, .closeSend c] else s.run.removal c

/-- Nothing else of a removal is in the history. -/
def RemovalInv (s : State) : Prop := ∀ c, s.log.filter (Event.removes c) = s.removal c

theorem not_sendClosed_of_mem {s : State} {c : ClientId} (h : MemberInv s) (hc : c ∈ s.clients) :
    s.sendClosed c = false := by
  obtain ⟨p, hp⟩ := h.placed c
  have hmember : p = .member := hp.member.mp hc
  have hgone := hp.gone
  rw [hmember] at hgone
  simpa using hgone

theorem not_sendClosed_of_removing {s : State} {c : ClientId} (h : MemberInv s)
    (hc : s.run.removing = some c) : s.sendClosed c = false := by
  obtain ⟨p, hp⟩ := h.placed c
  have hleaving : p = .leaving := hp.leaving.mp hc
  have hgone := hp.gone
  rw [hleaving] at hgone
  simpa using hgone

theorem RemovalInv.next {s : State} {l : Label} (h : RemovalInv s) (hm : MemberInv s)
    (hen : Enabled s l) : RemovalInv (next s l) := by
  obtain ⟨-, hg⟩ := hen
  intro c
  have hc := h c
  rw [log_next, List.filter_append, hc]
  -- all steps but three enter nothing and close no channel
  have quiet : ∀ {pc pc' : RunPC}, s.run = pc → (Hub.next s l).run = pc' →
      (l.events s).filter (Event.removes c) = [] → (Hub.next s l).sendClosed = s.sendClosed →
      pc'.removal c = pc.removal c →
      s.removal c ++ (l.events s).filter (Event.removes c) = (Hub.next s l).removal c := by
    intro pc pc' hpc hpc' hevents hclosed hremoval
    rw [State.removal, State.removal, hevents, hclosed, hpc', hremoval, ← hpc, List.append_nil]
  cases l with
  | unregisterDelete c' =>
    rw [Guard] at hg
    have hopen := not_sendClosed_of_mem hm (hm.evicting c' (by rw [hg]; rfl))
    by_cases hcc : c' = c
    · subst hcc
      simp [State.removal, Hub.next, hopen, hg, RunPC.removal, Label.events, Event.removes]
    · have hremoval : RunPC.removal c (.unregisterUnlock c') = [] := if_neg hcc
      exact quiet hg rfl (by simp [Label.events, Event.removes, hcc]) rfl hremoval
  | unregisterCloseConn c' =>
    rw [Guard] at hg
    have hopen := not_sendClosed_of_removing (c := c') hm (by rw [hg]; rfl)
    by_cases hcc : c' = c
    · subst hcc
      simp [State.removal, Hub.next, State.close, hopen, hg, RunPC.removal, Label.events,
        Event.removes]
    · have hremoval : RunPC.removal c (.unregisterCloseSend c') = [] := if_neg hcc
      have hbefore : RunPC.removal c (.unregisterCloseConn c') = [] := if_neg hcc
      exact quiet hg rfl (by simp [Label.events, Event.removes, hcc]) rfl
        (hremoval.trans hbefore.symm)
  | unregisterCloseSend c' =>
    obtain ⟨hrun, hopen⟩ := hg
    by_cases hcc : c' = c
    · subst hcc
      simp [State.removal, Hub.next, hopen, hrun, RunPC.removal, Label.events, Event.removes]
    · simp [State.removal, Hub.next, hrun, RunPC.removal, Label.events, Event.removes, hcc,
        Function.update_of_ne (Ne.symm hcc)]
  | marshalMessage c' offerString ok => cases ok <;> exact quiet rfl rfl rfl rfl rfl
  | onConnectionStateChange k c' p => cases p <;> exact quiet rfl rfl rfl rfl rfl
  | write c' m ok => cases ok <;> exact quiet rfl rfl rfl rfl rfl
  | unregisterRUnlock c' ok => cases ok <;> exact quiet hg rfl rfl rfl rfl
  | takeRegister | registerLocked | takeUnregister | unregisterRLock | unregisterLocked
  | infoRLock | takeBroadcast | broadcastRLock | broadcastNext | broadcastSend | broadcastEnd =>
    exact quiet hg.1 rfl rfl rfl rfl
  | registerLock | registerInsert | registerUnlock | unregisterTest | unregisterLock
  | unregisterUnlock | infoLen | infoRUnlock | goSendInfo | broadcastRUnlock =>
    exact quiet hg rfl rfl rfl rfl
  | _ => exact quiet rfl rfl rfl rfl rfl

theorem removalInv_of_reachable {s : State} (h : hub.Reachable s) : RemovalInv s :=
  h.invariant (P := RemovalInv) (fun _ => rfl) fun _ _ hr hi _ hen =>
    hi.next (memberInv_of_reachable hr.reachable) hen

/-- A client is deleted, its connection closed and its channel closed at most once each, in this
order. -/
theorem removal_prefix {s : State} (h : hub.Reachable s) (c : ClientId) :
    s.log.filter (Event.removes c) <+: [.delete c, .closeConn c, .closeSend c] := by
  rw [removalInv_of_reachable h c, State.removal]
  split
  · exact List.prefix_refl _
  · unfold RunPC.removal
    split
    · split
      · exact ⟨[.closeConn c, .closeSend c], rfl⟩
      · exact List.nil_prefix
    · split
      · exact ⟨[.closeConn c, .closeSend c], rfl⟩
      · exact List.nil_prefix
    · split
      · exact ⟨[.closeSend c], rfl⟩
      · exact List.nil_prefix
    · exact List.nil_prefix

/-! ## An `Unregister` of an absent client -/

/-- `Run` is handling an `Unregister` of `c`, has not found it in the map, or is back. -/
def RunPC.Ignoring (c : ClientId) (pc : RunPC) : Prop :=
  pc = .unregisterRLock c ∨ pc = .unregisterTest c ∨ pc = .unregisterRUnlock c false ∨
    pc = .select

theorem RunPC.Ignoring.counting {c : ClientId} {pc : RunPC} (h : pc.Ignoring c) :
    pc.counting = false := by
  rcases h with rfl | rfl | rfl | rfl <;> rfl

theorem ignoring_next {s : State} {l : Label} {c : ClientId} (h : s.run.Ignoring c)
    (hrun : s.run ≠ .select) (hc : c ∉ s.clients) (hen : Enabled s l) :
    (next s l).run.Ignoring c := by
  rcases run_next hen with hsame | hat
  · rw [hsame]
    exact h
  · rcases h with hpc | hpc | hpc | hpc
    · rw [hpc] at hat
      have hl : l = .unregisterRLock c := by
        cases l with
        | unregisterRLock c' => cases hat; rfl
        | _ => cases hat
      rw [hl]
      exact .inr (.inl rfl)
    · rw [hpc] at hat
      have hl : l = .unregisterTest c := by
        cases l with
        | unregisterTest c' => cases hat; rfl
        | _ => cases hat
      rw [hl]
      refine .inr (.inr (.inl ?_))
      show RunPC.unregisterRUnlock c (decide (c ∈ s.clients)) = _
      rw [decide_eq_false hc]
    · rw [hpc] at hat
      have hl : l = .unregisterRUnlock c false := by
        cases l with
        | unregisterRUnlock c' ok => cases hat; rfl
        | _ => cases hat
      rw [hl]
      exact .inr (.inr (.inr rfl))
    · exact absurd hpc hrun

/-- Until `Run` is back at its `select`, the `Unregister` of a client that is not in the map has
changed nothing and started nothing. -/
theorem unregister_of_absent {s u : State} {c : ClientId} (hr : hub.Reachable s)
    (hen : Enabled s (.takeUnregister c)) (hc : c ∉ s.clients)
    (h : hub.Path (fun v _ => v.run ≠ .select) (next s (.takeUnregister c)) u) :
    u.clients = s.clients ∧ u.changes = s.changes ∧ u.spawned = s.spawned := by
  have hall : hub.Reachable u ∧ u.run.Ignoring c ∧
      u.clients = s.clients ∧ u.changes = s.changes ∧ u.spawned = s.spawned := by
    refine h.invariant (P := fun u => hub.Reachable u ∧ u.run.Ignoring c ∧
      u.clients = s.clients ∧ u.changes = s.changes ∧ u.spawned = s.spawned)
      ⟨hr.next trivial hen, .inl rfl, rfl, changes_next_of_not id, rfl⟩ ?_
    rintro v l ⟨hv, hign, hclients, hchanges, hspawned⟩ hrun hen'
    have hign' : (next v l).run.Ignoring c := by
      refine ignoring_next hign hrun ?_ hen'
      rwa [hclients]
    refine ⟨hv.next trivial hen', hign', ?_⟩
    have hbooks := (accountInv_of_reachable hv).changes
    have hbooks' := (accountInv_of_reachable (hv.next trivial hen')).changes
    replace hbooks' : (next v l).changes = (next v l).spawned + (next v l).run.counting.toNat :=
      hbooks'
    rw [hign.counting] at hbooks
    rw [hign'.counting] at hbooks'
    -- `Run` neither changes the map nor announces a change
    cases entry_next (memberInv_of_reachable hv) hen' with
    | insert _ _ _ _ hafter | delete _ _ _ _ hafter =>
      rw [hign'.counting] at hafter
      cases hafter
    | spawn _ _ _ hbefore =>
      rw [hign.counting] at hbefore
      cases hbefore
    | quiet _ hsame _ _ hspawned' =>
      show (next v l).clients = _ ∧ (next v l).changes = _ ∧ (next v l).spawned = _
      refine ⟨hsame.trans hclients, ?_, hspawned'.trans hspawned⟩
      omega
  exact hall.2.2

/-! ## The accounts -/

/-- **Membership accounting.** In every reachable state the map has as many members as were
inserted and not deleted; nobody is removed twice; each change of the map but one that `Run` is
just announcing has had its `SendInfo`; the `k`-th of them carries the size of the map right after
the `k`-th change, whichever run led here; successive snapshots differ by one; and an `Unregister`
of an absent client changes and starts nothing. -/
theorem membership_accounting {t : State} (ht : hub.Reachable t) :
    t.clients.card + t.removed = t.inserted ∧
    (∀ c, t.log.filter (Event.removes c) <+: [.delete c, .closeConn c, .closeSend c]) ∧
    t.changes = t.spawned + t.run.counting.toNat ∧
    (∀ k < t.spawned, ∃ s l, hub.Reachable s ∧ Enabled s l ∧ l.ChangesMap ∧ s.changes = k ∧
      hub.Path Lts.always (next s l) t) ∧
    (∀ s l, hub.Reachable s → Enabled s l → l.ChangesMap → hub.Path Lts.always (next s l) t →
      s.changes < t.spawned → t.snapshot s.changes = (next s l).clients.card) ∧
    (∀ k, k + 1 < t.spawned → Adjacent (t.snapshot k) (t.snapshot (k + 1))) ∧
    ∀ c u, Enabled t (.takeUnregister c) → c ∉ t.clients →
      hub.Path (fun v _ => v.run ≠ .select) (next t (.takeUnregister c)) u →
      u.clients = t.clients ∧ u.changes = t.changes ∧ u.spawned = t.spawned := by
  have hinv := accountInv_of_reachable ht
  refine ⟨hinv.card, removal_prefix ht, hinv.changes, ?_, ?_, hinv.adjacent, ?_⟩
  · intro k hk
    have hbooks := hinv.changes
    exact exists_change ht k (by omega)
  · intro s l hs hen hl hpath hlt
    rw [State.snapshot, snapshot_of_change hs hen hl hpath hlt]
    rfl
  · intro c u hen hc hpath
    exact unregister_of_absent ht hen hc hpath

/-- Two viewers, of which one has left again. -/
theorem membership_accounting_left : ∃ t : State, t.inserted = 2 ∧ t.removed = 1 ∧
    t.clients.card + t.removed = t.inserted ∧ Adjacent (t.snapshot 1) (t.snapshot 2) := by
  obtain ⟨t, ht, hins, hrem, hspawned⟩ := hub.reachable_of_exec
    (connectLabels 0 ++ registerLabels 0 1 ++ connectLabels 1 ++ registerLabels 1 2 ++
      [.onConnectionStateChange 0 1 .closed, .callbackUnregister 0 1] ++ unregisterLabels 1 ++
      [.infoRLock, .infoLen, .infoRUnlock ⟨1⟩, .goSendInfo ⟨1⟩])
    (fun t => t.inserted = 2 ∧ t.removed = 1 ∧ t.spawned = 3) (by decide)
  obtain ⟨hcard, -, -, -, -, hadj, -⟩ := membership_accounting ht
  exact ⟨t, hins, hrem, hcard, hadj 1 (by omega)⟩

end Lightspeed.Hub
