import Mathlib.Data.Finset.Filter
import Mathlib.Data.Finset.Range
import Lightspeed.Room
import Lightspeed.Hub.Drain

/-!
# The hub is a room

What the locks and the goroutines of the hub come to is the room of `Lightspeed.Room`: its clients
are the members, the counts are the announcements, offers and candidates the letters. A change of
the map and the `SendInfo` for it happen at different times, and so do the receive of a count from
`Broadcast` and its sends to the members, with any other goroutine in between. In the room each is
one step (`hub_refines_room`): the announcement falls due with the change, and is made when `Run`
receives it, as the map does not change before the last member has been handed it.
-/

namespace Lightspeed.Hub

/-! ## The room of a state -/

def Event.inserted? : Event → Option ClientId
  | .insert c => some c
  | _ => none

def Event.spawned? : Event → Option WebsocketMessage
  | .spawn i => some (infoMessage i)
  | _ => none

/-- The message, if the event is a hand-over from a sending block to `c`. -/
def Event.sent? (c : ClientId) : Event → Option WebsocketMessage
  | .handOver (.sender _) c' m => if c' = c then some m else none
  | _ => none

/-- The count that `Run` has still to start a `SendInfo` with. -/
def State.uncounted (s : State) : List WebsocketMessage :=
  if s.run.counting then [infoMessage s.getInfo] else []

/-- The `SendInfo`s at `h.Broadcast <- msg`. -/
def State.pending (s : State) : Finset ℕ :=
  (Finset.range s.spawned).filter fun k => (s.sendInfo k).pending = true

def State.pendingCounts (s : State) : Multiset WebsocketMessage :=
  s.pending.val.map fun k => infoMessage (s.sendInfo k).info

/-- The counts for which a `SendInfo` was started, in order. -/
def State.started (s : State) : List WebsocketMessage := s.log.filterMap Event.spawned?

/-- What `Run` has received from `Broadcast`. -/
def State.taken (s : State) : List WebsocketMessage := s.log.filterMap Event.taken?

/-- What `Run` has handed to `c`. -/
def State.forwarded (s : State) (c : ClientId) : List WebsocketMessage :=
  s.log.filterMap (Event.forwarded? c)

/-- What the sending blocks have handed to `c`. -/
def State.sent (s : State) (c : ClientId) : List WebsocketMessage :=
  s.log.filterMap (Event.sent? c)

def State.room (s : State) : Room ClientId WebsocketMessage WebsocketMessage where
  members := s.clients
  joined := (s.log.filterMap Event.inserted?).toFinset
  due := s.started ++ s.uncounted
  waiting := s.pendingCounts + s.uncounted
  announced := s.taken
  heard c := s.forwarded c ++ if c ∈ s.clients then s.run.pending c else []
  letters := s.sent

/-- The announcement of `n` viewers. -/
def countMessage (n : ℕ) : WebsocketMessage := infoMessage ⟨n⟩

/-! ## Who has been inserted -/

/-- A client that has been inserted is a member or has been removed. -/
def InsertedInv (s : State) : Prop :=
  ∀ c, .insert c ∈ s.log → c ∈ s.clients ∨ Removed s c

theorem Placed.inserted_iff {s : State} {c : ClientId} {p : Phase} (h : Placed s c p) :
    c ∈ s.clients ∨ Removed s c ↔ Phase.member.rank ≤ p.rank := by
  rw [h.member, h.removed_iff]
  cases p <;> simp [Phase.rank]

theorem eq_registerInsert_of_insert {s : State} {l : Label} {c : ClientId}
    (h : .insert c ∈ l.events s) : l = .registerInsert c := by
  cases l with
  | registerInsert c' =>
    rw [Label.events, List.mem_singleton, Event.insert.injEq] at h
    rw [h]
  | sendMessage | unregisterDelete | unregisterCloseConn | unregisterCloseSend | goSendInfo
  | takeBroadcast | broadcastSend =>
    rw [Label.events, List.mem_singleton] at h
    cases h
  | _ => cases h

theorem insertedInv_of_reachable {s : State} (h : hub.Reachable s) : InsertedInv s := by
  refine h.invariant (P := InsertedInv) (fun c hc => by cases hc) fun s l hr hi _ hen => ?_
  intro c hc
  have hm := memberInv_of_reachable hr.reachable
  obtain ⟨p, hp⟩ := hm.placed c
  obtain ⟨q, hq, hadv⟩ := hp.next hm hen
  replace hc : .insert c ∈ (next s l).log := hc
  rw [log_next, List.mem_append] at hc
  rcases hc with hbefore | hnow
  · have hle := hp.inserted_iff.mp (hi c hbefore)
    rw [show hub.next s l = next s l from rfl, hq.inserted_iff]
    rcases hadv with rfl | hadv
    · exact hle
    · omega
  · obtain rfl := eq_registerInsert_of_insert hnow
    exact .inl (Finset.mem_insert_self c s.clients)

/-- A client that `Run` is about to insert has not been inserted before. -/
theorem not_inserted_of_inserting {s : State} {c : ClientId} (h : hub.Reachable s)
    (hrun : s.run.inserting = some c) : .insert c ∉ s.log := by
  intro hc
  obtain ⟨p, hp⟩ := (memberInv_of_reachable h).placed c
  have htaken : p = .taken := hp.taken.mp hrun
  have hle := hp.inserted_iff.mp (insertedInv_of_reachable h c hc)
  rw [htaken] at hle
  simp [Phase.rank] at hle

theorem mem_joined {s : State} {c : ClientId} : c ∈ s.room.joined ↔ .insert c ∈ s.log := by
  show c ∈ (s.log.filterMap Event.inserted?).toFinset ↔ _
  rw [List.mem_toFinset, List.mem_filterMap]
  constructor
  · rintro ⟨e, he, hc⟩
    cases e with
    | insert c' =>
      obtain rfl : c' = c := Option.some.inj hc
      exact he
    | _ => cases hc
  · exact fun hc => ⟨_, hc, rfl⟩

/-! ## Hearing -/

/-- While the map stays as it is, the members hear what is taken. -/
theorem heard_next {s : State} {l : Label} (hr : hub.Reachable s) (hen : Enabled s l)
    (hclients : (next s l).clients = s.clients) (c : ClientId) :
    (next s l).room.heard c = if c ∈ s.clients
      then s.room.heard c ++ (l.events s).filterMap Event.taken? else s.room.heard c := by
  show (next s l).log.filterMap (Event.forwarded? c) ++
    (if c ∈ (next s l).clients then (next s l).run.pending c else []) = _
  rw [log_next, List.filterMap_append, hclients, List.append_assoc]
  split
  · next hc =>
    rw [← pending_next hr hen hc, ← List.append_assoc]
    show _ = (s.log.filterMap (Event.forwarded? c) ++
      if c ∈ s.clients then s.run.pending c else []) ++ _
    rw [if_pos hc]
  · next hc =>
    -- nothing is forwarded to a client that is not in the map
    have hnone : (l.events s).filterMap (Event.forwarded? c) = [] := by
      cases l with
      | broadcastSend m visited c' =>
        have hmem := (sendInv_of_reachable hr).forward c' (by rw [hen.2.1]; rfl)
        have hne : c' ≠ c := by
          rintro rfl
          exact hc hmem
        simp [Label.events, Event.forwarded?, hne]
      | _ => rfl
    show _ = s.log.filterMap (Event.forwarded? c) ++ if c ∈ s.clients then s.run.pending c else []
    rw [hnone, List.nil_append, if_neg hc]

/-- When the map changes, `Run` is not forwarding. -/
theorem heard_change {s t : State} {pc pc' : RunPC} {e : Event} (hrun : s.run = pc)
    (hrun' : t.run = pc') (hidle : pc.message = none) (hidle' : pc'.message = none)
    (hlog : t.log = s.log ++ [e]) (he : ∀ c, e.forwarded? c = none) :
    t.room.heard = s.room.heard := by
  funext c
  show t.log.filterMap (Event.forwarded? c) ++ (if c ∈ t.clients then t.run.pending c else []) =
    s.log.filterMap (Event.forwarded? c) ++ if c ∈ s.clients then s.run.pending c else []
  rw [hrun, hrun', pending_of_idle c hidle, pending_of_idle c hidle', hlog,
    List.filterMap_append, List.filterMap_cons_none (he c), List.filterMap_nil, List.append_nil,
    ite_self, ite_self]

/-! ## What waits -/

/-- `go h.SendInfo(i)`: one more count waits. -/
theorem pendingCounts_goSendInfo (s : State) (i : Info) :
    (next s (.goSendInfo i)).pendingCounts = s.pendingCounts + {infoMessage i} := by
  have hold : ∀ k ∈ Finset.range s.spawned,
      Function.update s.sendInfo s.spawned ⟨i, true⟩ k = s.sendInfo k := by
    intro k hk
    have hlt := Finset.mem_range.mp hk
    exact Function.update_of_ne (by omega) _ _
  have hpending : (next s (.goSendInfo i)).pending = insert s.spawned s.pending := by
    show (Finset.range (s.spawned + 1)).filter
      (fun k => (Function.update s.sendInfo s.spawned ⟨i, true⟩ k).pending = true) = _
    rw [Finset.range_add_one, Finset.filter_insert, Function.update_self, if_pos rfl,
      Finset.filter_congr fun k hk => by rw [hold k hk]]
    rfl
  have hnew : s.spawned ∉ s.pending := by
    intro hmem
    exact Finset.notMem_range_self (Finset.mem_filter.mp hmem).1
  rw [State.pendingCounts, hpending, Finset.insert_val_of_notMem hnew, Multiset.map_cons,
    ← Multiset.singleton_add, Multiset.add_comm]
  show s.pending.val.map (fun k =>
      infoMessage (Function.update s.sendInfo s.spawned ⟨i, true⟩ k).info) +
    {infoMessage (Function.update s.sendInfo s.spawned ⟨i, true⟩ s.spawned).info} = _
  rw [Function.update_self, State.pendingCounts]
  congr 1
  apply Multiset.map_congr rfl
  intro k hk
  rw [hold k (Finset.mem_filter.mp hk).1]

/-- `message := <-h.Broadcast`: the count waits no longer. -/
theorem pendingCounts_takeBroadcast {s : State} {k : ℕ} (hk : k ∈ s.pending) :
    (next s (.takeBroadcast k)).pendingCounts =
      s.pendingCounts.erase (infoMessage (s.sendInfo k).info) := by
  have hpending : (next s (.takeBroadcast k)).pending = s.pending.erase k := by
    ext k'
    show k' ∈ (Finset.range s.spawned).filter (fun k' =>
      (Function.update s.sendInfo k ⟨(s.sendInfo k).info, false⟩ k').pending = true) ↔ _
    rw [Finset.mem_erase, State.pending, Finset.mem_filter, Finset.mem_filter]
    by_cases hkk : k' = k
    · subst hkk
      simp
    · simp [hkk]
  have hinfo : ∀ k', (Function.update s.sendInfo k ⟨(s.sendInfo k).info, false⟩ k').info =
      (s.sendInfo k').info := by
    intro k'
    by_cases hkk : k' = k
    · subst hkk
      rw [Function.update_self]
    · rw [Function.update_of_ne hkk]
  rw [State.pendingCounts, hpending, State.pendingCounts, Finset.erase_val]
  rw [← Multiset.map_erase_of_mem (fun k => infoMessage (s.sendInfo k).info) s.pending.val hk]
  apply Multiset.map_congr rfl
  intro k' _
  exact congrArg infoMessage (hinfo k')

/-! ## The simulation -/

/-- The event tells nothing of the room, save what a member hears. -/
def Event.Quiet : Event → Prop
  | .closeConn _ | .closeSend _ | .handOver .run _ _ => True
  | _ => False

/-- Most steps are none of the room's. -/
theorem room_next_of_quiet {s : State} {l : Label} (hr : hub.Reachable s) (hen : Enabled s l)
    (hclients : (next s l).clients = s.clients)
    (hcounting : (next s l).run.counting = s.run.counting)
    (hspawned : (next s l).spawned = s.spawned) (hinfo : (next s l).sendInfo = s.sendInfo)
    (hquiet : ∀ e ∈ l.events s, e.Quiet) : (next s l).room = s.room := by
  have hnone : ∀ {α : Type} (f : Event → Option α), (∀ e : Event, e.Quiet → f e = none) →
      (next s l).log.filterMap f = s.log.filterMap f := by
    intro α f hf
    rw [log_next, List.filterMap_append,
      List.filterMap_eq_nil_iff.mpr fun e he => hf e (hquiet e he), List.append_nil]
  have hcounts : (next s l).uncounted = s.uncounted := by
    rw [State.uncounted, State.uncounted, hcounting, State.getInfo_congr hclients]
  have hpending : (next s l).pendingCounts = s.pendingCounts := by
    rw [State.pendingCounts, State.pending, hspawned, hinfo]
    rfl
  have htaken : (l.events s).filterMap Event.taken? = [] := by
    apply List.filterMap_eq_nil_iff.mpr
    intro e he
    cases e with
    | broadcast m => exact absurd (hquiet _ he) id
    | _ => rfl
  ext1
  · exact hclients
  · show ((next s l).log.filterMap Event.inserted?).toFinset = _
    rw [hnone Event.inserted? fun e he => by cases e <;> first | rfl | exact absurd he id]
    rfl
  · show (next s l).log.filterMap Event.spawned? ++ (next s l).uncounted = _
    rw [hnone Event.spawned? fun e he => by cases e <;> first | rfl | exact absurd he id, hcounts]
    rfl
  · show (next s l).pendingCounts + (next s l).uncounted = _
    rw [hpending, hcounts]
    rfl
  · exact hnone Event.taken? fun e he => by cases e <;> first | rfl | exact absurd he id
  · funext c
    rw [heard_next hr hen hclients c, htaken, List.append_nil, ite_self]
  · funext c
    apply hnone (Event.sent? c)
    intro e he
    cases e with
    | handOver r c' m =>
      cases r with
      | run => rfl
      | sender g => exact absurd he id
    | _ => rfl

/-- A change of the map is one of the room's members: the count falls due with it. -/
theorem room_next_of_change {s t : State} {e : Event} {c : ClientId}
    (he : e = .insert c ∨ e = .delete c) (hlog : t.log = s.log ++ [e])
    (hbefore : s.run.counting = false) (hafter : t.run.counting = true)
    (hspawned : t.spawned = s.spawned) (hinfo : t.sendInfo = s.sendInfo)
    (hheard : t.room.heard = s.room.heard) :
    t.room = { s.room.change countMessage t.clients with joined := t.room.joined } := by
  have hnone : ∀ {α : Type} (f : Event → Option α), f e = none →
      t.log.filterMap f = s.log.filterMap f := by
    intro α f hf
    rw [hlog, List.filterMap_append, List.filterMap_cons_none hf, List.filterMap_nil,
      List.append_nil]
  have hsettled : s.uncounted = [] := by
    rw [State.uncounted, hbefore]
    rfl
  have hcount : t.uncounted = [countMessage t.clients.card] := by
    rw [State.uncounted, hafter]
    rfl
  have hpending : t.pendingCounts = s.pendingCounts := by
    rw [State.pendingCounts, State.pending, hspawned, hinfo]
    rfl
  ext1
  · rfl
  · rfl
  · show t.log.filterMap Event.spawned? ++ t.uncounted =
      s.log.filterMap Event.spawned? ++ s.uncounted ++ [countMessage t.clients.card]
    rw [hnone Event.spawned? (by rcases he with rfl | rfl <;> rfl), hsettled, hcount,
      List.append_nil]
  · show t.pendingCounts + t.uncounted =
      s.pendingCounts + s.uncounted + {countMessage t.clients.card}
    rw [hpending, hsettled, hcount, Multiset.coe_nil, Multiset.add_zero, Multiset.coe_singleton]
  · exact hnone Event.taken? (by rcases he with rfl | rfl <;> rfl)
  · exact hheard
  · funext c'
    exact hnone (Event.sent? c') (by rcases he with rfl | rfl <;> rfl)

theorem room_registerInsert {s : State} {c : ClientId} (hrun : s.run = .registerInsert c) :
    (next s (.registerInsert c)).room = s.room.step countMessage (.join c) := by
  have hheard : (next s (.registerInsert c)).room.heard = s.room.heard :=
    heard_change (e := .insert c) hrun rfl rfl rfl rfl fun _ => rfl
  rw [room_next_of_change (s := s) (t := next s (.registerInsert c)) (.inl rfl) rfl
    (by rw [hrun]; rfl) rfl rfl rfl hheard]
  have hjoined : (next s (.registerInsert c)).room.joined = insert c s.room.joined := by
    ext c'
    rw [mem_joined, Finset.mem_insert, mem_joined]
    show _ ∈ s.log ++ [Event.insert c] ↔ _
    rw [List.mem_append, List.mem_singleton, Event.insert.injEq, or_comm]
  rw [hjoined]
  rfl

theorem room_unregisterDelete {s : State} {c : ClientId} (hrun : s.run = .unregisterDelete c) :
    (next s (.unregisterDelete c)).room = s.room.step countMessage (.leave c) := by
  have hheard : (next s (.unregisterDelete c)).room.heard = s.room.heard :=
    heard_change (e := .delete c) hrun rfl rfl rfl rfl fun _ => rfl
  rw [room_next_of_change (s := s) (t := next s (.unregisterDelete c)) (.inr rfl) rfl
    (by rw [hrun]; rfl) rfl rfl rfl hheard]
  have hjoined : (next s (.unregisterDelete c)).room.joined = s.room.joined := by
    ext c'
    rw [mem_joined, mem_joined]
    show _ ∈ s.log ++ [Event.delete c] ↔ _
    simp
  rw [hjoined]
  rfl

/-- The count that was due waits in its `SendInfo` now. -/
theorem room_goSendInfo {s : State} {i : Info} (hr : hub.Reachable s)
    (hen : Enabled s (.goSendInfo i)) : (next s (.goSendInfo i)).room = s.room := by
  have hrun : s.run = .goSendInfo i := hen.2
  have hi : i = s.getInfo := (accountInv_of_reachable hr).counted i (by rw [hrun]; rfl)
  have hcount : s.uncounted = [infoMessage i] := by
    rw [State.uncounted, hrun, ← hi]
    rfl
  have hnone : ∀ {α : Type} (f : Event → Option α), f (.spawn i) = none →
      (s.log ++ [Event.spawn i]).filterMap f = s.log.filterMap f := by
    intro α f hf
    rw [List.filterMap_append, List.filterMap_cons_none hf, List.filterMap_nil, List.append_nil]
  ext1
  · rfl
  · exact congrArg List.toFinset (hnone Event.inserted? rfl)
  · show (s.log ++ [Event.spawn i]).filterMap Event.spawned? ++ [] =
      s.log.filterMap Event.spawned? ++ s.uncounted
    rw [List.append_nil, List.filterMap_append, hcount]
    rfl
  · show (next s (.goSendInfo i)).pendingCounts + (([] : List WebsocketMessage) : Multiset _) =
      s.pendingCounts + (s.uncounted : Multiset _)
    rw [pendingCounts_goSendInfo, hcount, Multiset.coe_nil, Multiset.add_zero,
      Multiset.coe_singleton]
  · exact hnone Event.taken? rfl
  · exact heard_change (e := .spawn i) hrun rfl rfl rfl rfl fun _ => rfl
  · funext c
    exact hnone (Event.sent? c) rfl

/-- The members hear the count when `Run` receives it: it goes to all of them before the map can
change. -/
theorem room_takeBroadcast {s : State} {k : ℕ} (hr : hub.Reachable s)
    (hen : Enabled s (.takeBroadcast k)) :
    infoMessage (s.sendInfo k).info ∈ s.room.waiting ∧ (next s (.takeBroadcast k)).room =
      s.room.step countMessage (.announce (infoMessage (s.sendInfo k).info)) := by
  have hrun : s.run = .select := hen.2.1
  have hk : k ∈ s.pending :=
    Finset.mem_filter.mpr ⟨Finset.mem_range.mpr (lt_spawned_of_pending hr k hen.2.2), hen.2.2⟩
  have hcount : s.uncounted = [] := by
    rw [State.uncounted, hrun]
    rfl
  have hwaiting : s.room.waiting = s.pendingCounts := by
    show s.pendingCounts + s.uncounted = _
    rw [hcount, Multiset.coe_nil, Multiset.add_zero]
  have hnone : ∀ {α : Type} (f : Event → Option α),
      f (.broadcast (infoMessage (s.sendInfo k).info)) = none →
      (next s (.takeBroadcast k)).log.filterMap f = s.log.filterMap f := by
    intro α f hf
    rw [log_next, List.filterMap_append, Label.events, List.filterMap_cons_none hf,
      List.filterMap_nil, List.append_nil]
  refine ⟨?_, ?_⟩
  · rw [hwaiting]
    exact Multiset.mem_map_of_mem (fun k => infoMessage (s.sendInfo k).info) hk
  · ext1
    · rfl
    · exact congrArg List.toFinset (hnone Event.inserted? rfl)
    · show (next s (.takeBroadcast k)).log.filterMap Event.spawned? ++ [] =
        s.log.filterMap Event.spawned? ++ s.uncounted
      rw [hnone Event.spawned? rfl, hcount]
    · show (next s (.takeBroadcast k)).pendingCounts +
        (([] : List WebsocketMessage) : Multiset _) = s.room.waiting.erase _
      rw [pendingCounts_takeBroadcast hk, hwaiting, Multiset.coe_nil, Multiset.add_zero]
    · show (next s (.takeBroadcast k)).log.filterMap Event.taken? =
        s.log.filterMap Event.taken? ++ _
      rw [log_next, List.filterMap_append]
      rfl
    · funext c
      rw [heard_next hr hen rfl c]
      rfl
    · funext c
      exact hnone (Event.sent? c) rfl

theorem room_sendMessage {s : State} {g : Sender} {c : ClientId} {m : WebsocketMessage}
    (hr : hub.Reachable s) (hen : Enabled s (.sendMessage g c m)) :
    (next s (.sendMessage g c m)).room = s.room.step countMessage (.send c m) := by
  have hnone : ∀ {α : Type} (f : Event → Option α), f (.handOver (.sender g) c m) = none →
      (s.log ++ [Event.handOver (.sender g) c m]).filterMap f = s.log.filterMap f := by
    intro α f hf
    rw [List.filterMap_append, List.filterMap_cons_none hf, List.filterMap_nil, List.append_nil]
  ext1
  · rfl
  · exact congrArg List.toFinset (hnone Event.inserted? rfl)
  · show (s.log ++ [_]).filterMap Event.spawned? ++ s.uncounted = _
    rw [hnone Event.spawned? rfl]
    rfl
  · rfl
  · exact hnone Event.taken? rfl
  · funext c'
    rw [heard_next hr hen rfl c']
    show (if c' ∈ s.clients then s.room.heard c' ++ [] else s.room.heard c') = s.room.heard c'
    rw [List.append_nil, ite_self]
  · funext c'
    show (s.log ++ [Event.handOver (.sender g) c m]).filterMap (Event.sent? c') =
      Function.update s.room.letters c (s.room.letters c ++ [m]) c'
    rw [List.filterMap_append]
    by_cases hc : c = c'
    · subst hc
      rw [Function.update_self]
      simp [Event.sent?, State.room, State.sent]
    · rw [Function.update_of_ne (Ne.symm hc)]
      simp [Event.sent?, State.room, State.sent, hc]

/-- **The hub is a room.** Every step of the hub, in any interleaving, is one step of the room, or
none. -/
theorem hub_refines_room : Lts.Refines hub (Room.lts countMessage) State.room where
  init := rfl
  step s l hr hen := by
    have hg := hen.2
    -- a step in which `Run` counts neither before nor after, or before and after
    have quiet := room_next_of_quiet (s := s) (l := l) hr hen
    cases l with
    | registerInsert c =>
      refine .inr ⟨.join c, ?_, room_registerInsert hg⟩
      have hnew := not_inserted_of_inserting (c := c) hr (by rw [show s.run = _ from hg]; rfl)
      exact fun hmem => hnew (mem_joined.mp hmem)
    | unregisterDelete c =>
      refine .inr ⟨.leave c, ?_, room_unregisterDelete hg⟩
      exact (memberInv_of_reachable hr).evicting c (by rw [show s.run = _ from hg]; rfl)
    | goSendInfo i => exact .inl (room_goSendInfo hr hen)
    | takeBroadcast k =>
      obtain ⟨hmem, hroom⟩ := room_takeBroadcast hr hen
      exact .inr ⟨.announce _, hmem, hroom⟩
    | sendMessage g c m =>
      exact .inr ⟨.send c m, (sendInv_of_reachable hr).sender g c m hg.1, room_sendMessage hr hen⟩
    | marshalMessage c offerString ok =>
      cases ok <;> exact .inl (quiet rfl rfl rfl rfl (by simp [Label.events]))
    | onConnectionStateChange k c p =>
      cases p <;> exact .inl (quiet rfl rfl rfl rfl (by simp [Label.events]))
    | write c m ok => cases ok <;> exact .inl (quiet rfl rfl rfl rfl (by simp [Label.events]))
    | unregisterRUnlock c ok =>
      have hcounting : s.run.counting = false := by rw [show s.run = _ from hg]; rfl
      cases ok <;> exact .inl (quiet rfl hcounting.symm rfl rfl (by simp [Label.events]))
    | takeRegister | registerLocked | takeUnregister | unregisterRLock | unregisterLocked
    | unregisterCloseSend | infoRLock | broadcastRLock | broadcastNext | broadcastSend
    | broadcastEnd =>
      have hcounting := congrArg RunPC.counting hg.1
      exact .inl (quiet rfl hcounting.symm rfl rfl (by simp [Label.events, Event.Quiet]))
    | registerLock | registerUnlock | unregisterTest | unregisterLock | unregisterUnlock
    | unregisterCloseConn | infoLen | infoRUnlock | broadcastRUnlock =>
      have hcounting := congrArg RunPC.counting hg
      exact .inl (quiet rfl hcounting.symm rfl rfl (by simp [Label.events, Event.Quiet]))
    | _ => exact .inl (quiet rfl rfl rfl rfl (by simp [Label.events]))

/-! ## What it tells of the hub -/

theorem roomInv_of_reachable {s : State} (h : hub.Reachable s) : Room.Inv countMessage s.room :=
  Room.inv_of_reachable (hub_refines_room.reachable h)

/-- `c` has been inserted once, and `ms` is what `Run` has received from `Broadcast` since. -/
def TakenSinceInsert (s : State) (c : ClientId) (ms : List WebsocketMessage) : Prop :=
  ∃ before after, s.log = before ++ .insert c :: after ∧ .insert c ∉ before ++ after ∧
    after.filterMap Event.taken? = ms

theorem TakenSinceInsert.next {s : State} {c : ClientId} {ms : List WebsocketMessage}
    (h : TakenSinceInsert s c ms) {l : Label} (hl : .insert c ∉ l.events s) :
    TakenSinceInsert (next s l) c (ms ++ (l.events s).filterMap Event.taken?) := by
  obtain ⟨before, after, hlog, honce, rfl⟩ := h
  refine ⟨before, after ++ l.events s, ?_, ?_, List.filterMap_append⟩
  · rw [log_next, hlog, List.append_assoc, List.cons_append]
  · rw [← List.append_assoc, List.mem_append]
    rintro (hold | hnew)
    · exact honce hold
    · exact hl hnew

/-- A client that comes in has been handed nothing yet. -/
theorem takenSinceInsert_registerInsert {s : State} {c : ClientId} (h : hub.Reachable s)
    (hrun : s.run = .registerInsert c) :
    TakenSinceInsert (next s (.registerInsert c)) c ((next s (.registerInsert c)).forwarded c) := by
  have hnew : .insert c ∉ s.log := not_inserted_of_inserting h (by rw [hrun]; rfl)
  refine ⟨s.log, [], rfl, by rwa [List.append_nil], ?_⟩
  have hheard : s.forwarded c ++ (if c ∈ s.clients then s.run.pending c else []) = [] :=
    ((roomInv_of_reachable h).stranger c fun hmem => hnew (mem_joined.mp hmem)).1
  have hnone : s.log.filterMap (Event.forwarded? c) = [] := (List.append_eq_nil_iff.mp hheard).1
  show [] = (s.log ++ [Event.insert c]).filterMap (Event.forwarded? c)
  rw [List.filterMap_append, hnone]
  rfl

/-- Who was a member before the step hears what the step takes. -/
theorem TakenSinceInsert.next_of_mem {s : State} {l : Label} {c : ClientId} (hr : hub.Reachable s)
    (h : TakenSinceInsert s c (s.forwarded c ++ s.run.pending c)) (hmem : c ∈ s.clients)
    (hen : Enabled s l) : TakenSinceInsert (Hub.next s l) c
      ((Hub.next s l).forwarded c ++ (Hub.next s l).run.pending c) := by
  -- it is not inserted again
  have hl : .insert c ∉ l.events s := by
    intro hinsert
    obtain rfl := eq_registerInsert_of_insert hinsert
    obtain ⟨before, after, hlog, -⟩ := h
    refine not_inserted_of_inserting (c := c) hr ?_ (hlog ▸ by simp)
    rw [show s.run = _ from hen.2]
    rfl
  have hforwarded : (Hub.next s l).forwarded c =
      s.forwarded c ++ (l.events s).filterMap (Event.forwarded? c) := by
    rw [State.forwarded, log_next, List.filterMap_append, State.forwarded]
  rw [hforwarded, List.append_assoc, ← pending_next hr hen hmem, ← List.append_assoc]
  exact h.next hl

/-- A member has been handed what `Run` has received since it was inserted, save what `Run` has in
hand for it. -/
theorem takenSinceInsert_of_mem {s : State} (h : hub.Reachable s) :
    ∀ c ∈ s.clients, TakenSinceInsert s c (s.forwarded c ++ s.run.pending c) := by
  refine h.invariant (P := fun s => ∀ c ∈ s.clients,
    TakenSinceInsert s c (s.forwarded c ++ s.run.pending c)) (fun c hc => by cases hc) ?_
  intro s l hr hi _ hen c hc
  replace hc : c ∈ (next s l).clients := hc
  have member (hold : c ∈ s.clients) : TakenSinceInsert (next s l) c
      ((next s l).forwarded c ++ (next s l).run.pending c) :=
    (hi c hold).next_of_mem hr.reachable hold hen
  cases l with
  | registerInsert c' =>
    rcases Finset.mem_insert.mp hc with rfl | hold
    · have hnew := takenSinceInsert_registerInsert hr.reachable hen.2
      rwa [← List.append_nil ((next s (.registerInsert c)).forwarded c)] at hnew
    · exact member hold
  | unregisterDelete c' => exact member (Finset.mem_of_mem_erase hc)
  | marshalMessage c' offerString ok => cases ok <;> exact member hc
  | onConnectionStateChange k c' p => cases p <;> exact member hc
  | write c' m ok => cases ok <;> exact member hc
  | _ => exact member hc

/-- **No count is lost or broadcast twice.** In every reachable state each count for which a
`SendInfo` was started has been received from `Broadcast` once, or its `SendInfo` still waits. Once
the hub has drained, all of them have been received, and each member has been handed, in order, all
that were received since it was put into the map. -/
theorem counts_conserved {s : State} (h : hub.Reachable s) :
    (s.taken : Multiset WebsocketMessage) + s.pendingCounts = s.started ∧
    (Drained s → s.taken.Perm s.started ∧ ∀ c ∈ s.clients,
      TakenSinceInsert s c (s.forwarded c)) := by
  have hinv := roomInv_of_reachable h
  have hcounts : (s.taken : Multiset WebsocketMessage) + s.pendingCounts = s.started := by
    have hall : (s.taken : Multiset WebsocketMessage) +
        (s.pendingCounts + (s.uncounted : Multiset WebsocketMessage)) =
        (↑(s.started ++ s.uncounted) : Multiset WebsocketMessage) := hinv.conserved
    rw [← Multiset.coe_add, ← Multiset.add_assoc] at hall
    exact Multiset.add_left_inj.mp hall
  refine ⟨hcounts, fun hdrained => ⟨?_, fun c hc => ?_⟩⟩
  · have hnone : s.pending = ∅ :=
      Finset.filter_eq_empty_iff.mpr fun k _ => by simp [hdrained.sendInfo k]
    rw [State.pendingCounts, hnone, Finset.empty_val, Multiset.map_zero,
      Multiset.add_zero] at hcounts
    exact Multiset.coe_eq_coe.mp hcounts
  · have hheard := takenSinceInsert_of_mem h c hc
    rwa [hdrained.run, pending_of_idle c rfl, List.append_nil] at hheard

/-- A goroutine that waits broadcasts its count to three members. -/
def announceToThreeLabels (k n : ℕ) : List Label :=
  [.takeBroadcast k, .broadcastRLock (infoMessage ⟨n⟩),
    .broadcastNext (infoMessage ⟨n⟩) ∅ 0, .broadcastSend (infoMessage ⟨n⟩) ∅ 0,
    .broadcastNext (infoMessage ⟨n⟩) {0} 1, .broadcastSend (infoMessage ⟨n⟩) {0} 1,
    .broadcastNext (infoMessage ⟨n⟩) {1, 0} 2, .broadcastSend (infoMessage ⟨n⟩) {1, 0} 2,
    .broadcastEnd (infoMessage ⟨n⟩) {2, 1, 0}, .broadcastRUnlock,
    .write 0 (infoMessage ⟨n⟩) true, .write 1 (infoMessage ⟨n⟩) true,
    .write 2 (infoMessage ⟨n⟩) true]

/-- Two viewers come and the second count is broadcast, a third comes, and the first count is the
last to be broadcast. -/
def overtakeLabels : List Label :=
  connectLabels 0 ++ registerLabels 0 1 ++ connectLabels 1 ++ registerLabels 1 2 ++
    announceLabels 1 2 ++ connectLabels 2 ++ registerLabels 2 3 ++
    announceToThreeLabels 2 3 ++ announceToThreeLabels 0 1

theorem counts_conserved_overtaken : ∃ s : State, hub.Reachable s ∧ s.clients = {0, 1, 2} ∧
    s.started = [infoMessage ⟨1⟩, infoMessage ⟨2⟩, infoMessage ⟨3⟩] ∧
    s.taken = [infoMessage ⟨2⟩, infoMessage ⟨3⟩, infoMessage ⟨1⟩] ∧
    s.forwarded 2 = [infoMessage ⟨3⟩, infoMessage ⟨1⟩] ∧
    s.taken.Perm s.started ∧ ∀ c ∈ s.clients, TakenSinceInsert s c (s.forwarded c) := by
  have hreach : hub.Reachable (overtakeLabels.foldl hub.next hub.init) :=
    hub.reachable_foldl _ (by decide)
  have hdrained : Drained (overtakeLabels.foldl hub.next hub.init) := by
    refine ⟨by decide, by decide, by decide, fun k => ?_, fun g => rfl, by decide⟩
    by_contra hpending
    have hlt := lt_spawned_of_pending hreach k (by simpa using hpending)
    have hnone : ∀ k < 3,
        ((overtakeLabels.foldl hub.next hub.init).sendInfo k).pending = false := by decide
    exact hpending (hnone k hlt)
  exact ⟨_, hreach, by decide, by decide, by decide, by decide,
    (counts_conserved hreach).2 hdrained⟩

/-- **A viewer's session.** Nothing is handed to a client before it is inserted. What `Run` hands to
it is, from the first to the last, a stretch of the messages that `Run` receives, without a gap.
Once it is deleted it does not come back, and nothing more is handed to it, in any run. -/
theorem viewer_session {s t : State} (hs : hub.Reachable s) (ht : hub.Path Lts.always s t)
    (c : ClientId) :
    (.insert c ∉ s.log → s.forwarded c = [] ∧ s.sent c = []) ∧
    s.forwarded c <:+: s.taken ∧
    (.insert c ∈ s.log → c ∉ s.clients →
      c ∉ t.clients ∧ t.forwarded c = s.forwarded c ∧ t.sent c = s.sent c) := by
  have hinv := roomInv_of_reachable hs
  refine ⟨fun hnew => ?_, ?_, fun hjoined hleft => ?_⟩
  · obtain ⟨hheard, hletters⟩ := hinv.stranger c fun hmem => hnew (mem_joined.mp hmem)
    exact ⟨(List.append_eq_nil_iff.mp hheard).1, hletters⟩
  · exact (List.prefix_append _ _).isInfix.trans (hinv.infix_announced c)
  · obtain ⟨hout, hheard, hletters⟩ :=
      Room.left_for_good (hub_refines_room.path hs ht) (mem_joined.mpr hjoined) hleft
    replace hheard : (t.forwarded c ++ if c ∈ t.clients then t.run.pending c else []) =
        s.forwarded c ++ if c ∈ s.clients then s.run.pending c else [] := hheard
    replace hout : c ∉ t.clients := hout
    rw [if_neg hout, if_neg hleft, List.append_nil, List.append_nil] at hheard
    exact ⟨hout, hheard, hletters⟩

/-- A viewer that has had its offer and has left, and another that has not come yet. -/
theorem viewer_session_left : ∃ s, hub.Reachable s ∧ s.sent 0 = [offerMessage (some "sdp")] ∧
    (s.forwarded 1 = [] ∧ s.sent 1 = []) ∧ s.forwarded 0 <:+: s.taken ∧
    ∀ t, hub.Path Lts.always s t →
      0 ∉ t.clients ∧ t.forwarded 0 = s.forwarded 0 ∧ t.sent 0 = s.sent 0 := by
  obtain ⟨s, hs, hsent, hin, hout, hnew⟩ := hub.reachable_of_exec
    (connectLabels 0 ++ registerLabels 0 1 ++ prepareLabels 0 ++ sendOfferLabels 0 ++
      readLoopLabels 0 ++ [.onConnectionStateChange 0 0 .closed, .callbackUnregister 0 0] ++
      unregisterLabels 0)
    (fun s => s.sent 0 = [offerMessage (some "sdp")] ∧ .insert 0 ∈ s.log ∧ 0 ∉ s.clients ∧
      .insert 1 ∉ s.log) (by decide)
  refine ⟨s, hs, hsent, ?_, ?_, fun t ht => ?_⟩
  · exact (viewer_session hs Relation.ReflTransGen.refl 1).1 hnew
  · exact (viewer_session hs Relation.ReflTransGen.refl 0).2.1
  · exact (viewer_session hs ht 0).2.2 hin hout

end Lightspeed.Hub
