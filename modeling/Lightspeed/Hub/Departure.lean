import Lightspeed.Hub.Drain
import Lightspeed.Hub.GhostViewer
import Lightspeed.Hub.Refinement

/-!
# A viewer leaves

A member whose removal waits in `Unregister` is removed for good, as long as the members can be
served and nothing fails: by the steps of `Run`, of the sending blocks and of the members'
successful writes, in whatever order, the hub comes to rest, and by then the client is out of the
map, its connection and its channel are closed, and its `WriteLoop` comes to an end without any
help from outside (`departure`). The client is served until then as the others are. Its handler does
not get to its own `conn.Close()` before `Run` has closed the connection: if it did, a write to the
client could fail, and the next send to it would block `Run` for ever.
-/

namespace Lightspeed.Hub

variable {s : State} {l : Label} {c : ClientId}

/-! ## On the way out -/

/-- `c` has been put into the map, and either its removal waits, or `Run` is carrying it out, or it
has been carried out. -/
def Leaving (s : State) (c : ClientId) : Prop :=
  (c ∈ s.unregister ∧ (c ∈ s.clients ∨ Removed s c)) ∨
    (s.run.unregistering = some c ∧ c ∈ s.clients) ∨ Removed s c

/-- Who has been put into the map has been put into it. -/
theorem MemberInv.entered_next (h : MemberInv s) (hen : Enabled s l)
    (hc : c ∈ s.clients ∨ Removed s c) :
    c ∈ (Hub.next s l).clients ∨ Removed (Hub.next s l) c := by
  obtain ⟨p, hp⟩ := h.placed c
  obtain ⟨q, hq, hadv⟩ := hp.next h hen
  have hle := hp.inserted_iff.mp hc
  rw [hq.inserted_iff]
  rcases hadv with rfl | hadv
  · exact hle
  · omega

theorem Leaving.next (h : Leaving s c) (hm : MemberInv s) (hen : Enabled s l) :
    Leaving (next s l) c := by
  rcases h with ⟨hwaits, hentered⟩ | ⟨hrun, hmem⟩ | hremoved
  · rcases mem_unregister_next hwaits hen with hwaits' | rfl
    · exact .inl ⟨hwaits', hm.entered_next hen hentered⟩
    · rcases hentered with hmem | hremoved
      · exact .inr (.inl ⟨rfl, hmem⟩)
      · exact .inr (.inr (hm.removed_next hremoved hen))
  · rcases unregistering_next hrun hmem hen with hstill | hgone
    · exact .inr (.inl hstill)
    · exact .inr (.inr (.inl hgone))
  · exact .inr (.inr (hm.removed_next hremoved hen))

/-- When the hub has drained, it has been carried out. -/
theorem Leaving.sendClosed_of_drained (h : Leaving s c) (hdrained : Drained s) :
    s.sendClosed c = true := by
  have of_removed (hremoved : Removed s c) : s.sendClosed c = true := by
    rcases hremoved with hrun | hclosed
    · rw [hdrained.run] at hrun
      cases hrun
    · exact hclosed
  rcases h with ⟨hwaits, -⟩ | ⟨hrun, -⟩ | hremoved
  · rw [hdrained.unregister] at hwaits
    cases hwaits
  · rw [hdrained.run] at hrun
    cases hrun
  · exact of_removed hremoved

/-! ## What is closed -/

/-- A closed connection stays closed. -/
theorem connClosed_next (hc : s.connClosed c = true) : (next s l).connClosed c = true := by
  have closing : ∀ c', Function.update s.connClosed c' true c = true := by
    intro c'
    rw [Function.update_apply]
    split
    · rfl
    · exact hc
  cases l with
  | closeConn c' => exact closing c'
  | unregisterCloseConn c' => exact closing c'
  | pingFail c' => exact closing c'
  | writeLoopClosed c' => exact closing c'
  | write c' m ok =>
    cases ok with
    | true => exact hc
    | false => exact closing c'
  | marshalMessage c' offerString ok => cases ok <;> exact hc
  | onConnectionStateChange k c' p => cases p <;> exact hc
  | _ => exact hc

/-- `Run` closes the connection before the channel. -/
structure ClosedInv (s : State) : Prop where
  closed : ∀ c, s.sendClosed c = true → s.connClosed c = true
  closing : ∀ c, s.run = .unregisterCloseSend c → s.connClosed c = true

theorem ClosedInv.next (h : ClosedInv s) (hen : Enabled s l) : ClosedInv (next s l) := by
  obtain ⟨-, hg⟩ := hen
  -- the channels stay as they are, and `Run` does not get to closing one
  have quiet : (∀ c, (Hub.next s l).sendClosed c = s.sendClosed c) →
      (∀ c, (Hub.next s l).run = .unregisterCloseSend c → s.run = .unregisterCloseSend c) →
      ClosedInv (Hub.next s l) := fun hsend hrun =>
    ⟨fun c hc => connClosed_next (h.closed c (hsend c ▸ hc)),
      fun c hc => connClosed_next (h.closing c (hrun c hc))⟩
  cases l with
  | unregisterCloseConn c' =>
    refine ⟨fun c hc => connClosed_next (h.closed c hc), fun c hc => ?_⟩
    obtain rfl : c' = c := RunPC.unregisterCloseSend.inj hc
    exact Function.update_self ..
  | unregisterCloseSend c' =>
    refine ⟨fun c hc => ?_, fun c hc => by cases hc⟩
    replace hc : Function.update s.sendClosed c' true c = true := hc
    rw [Function.update_apply] at hc
    split at hc
    · next heq => exact heq ▸ h.closing c' hg.1
    · exact h.closed c hc
  | marshalMessage c' offerString ok => cases ok <;> exact quiet (fun _ => rfl) fun _ hc => hc
  | onConnectionStateChange k c' p => cases p <;> exact quiet (fun _ => rfl) fun _ hc => hc
  | write c' m ok => cases ok <;> exact quiet (fun _ => rfl) fun _ hc => hc
  | unregisterRUnlock c' ok => cases ok <;> exact quiet (fun _ => rfl) fun _ hc => by cases hc
  | _ =>
    first
    | exact quiet (fun _ => rfl) fun _ hc => hc
    | exact quiet (fun _ => rfl) fun _ hc => by cases hc

theorem closedInv_of_reachable (h : hub.Reachable s) : ClosedInv s := by
  have hinit : ClosedInv hub.init := by
    constructor
    · intro c hc
      cases hc
    · intro c hc
      cases hc
  exact h.invariant hinit fun s l _ hi _ hen => hi.next hen

/-! ## Its `WriteLoop` -/

/-- A step of `c`'s `WriteLoop` on its own. -/
def Label.IsOwnWrite (c : ClientId) : Label → Prop
  | .write c' _ _ | .pingFail c' | .writeLoopClosed c' => c' = c
  | _ => False

/-- How many steps `WriteLoop` has left at most. -/
def WriteLoopPC.left : WriteLoopPC → ℕ
  | .writing _ => 2
  | .select => 1
  | .notStarted | .returned => 0

/-- With its channel closed, a `WriteLoop` writes what it has in hand, or fails to, and returns. -/
theorem writeLoop_returns (h : hub.Reachable s) (hc : s.sendClosed c = true) :
    hub.Inevitably (fun _ l => l.IsOwnWrite c) (fun t => (t.writeLoop c).running = false) s := by
  refine Lts.inevitably_of_invariant (I := fun t => hub.Reachable t ∧ t.sendClosed c = true)
    (fun t => (t.writeLoop c).left) ?_ ?_ ?_ ⟨h, hc⟩
  · rintro t l ⟨ht, hclosed⟩ hown hen
    refine ⟨ht.next trivial hen, ?_⟩
    cases l with
    | write c' m ok => cases ok <;> exact hclosed
    | pingFail c' | writeLoopClosed c' => exact hclosed
    | _ => cases hown
  · rintro t l - hown hen
    obtain ⟨-, hg⟩ := hen
    have returned : ∀ c {n : ℕ}, 0 < n → ((t.endWriteLoop c).writeLoop c).left < n := by
      intro c n hn
      show (Function.update t.writeLoop c .returned c).left < n
      rw [Function.update_self]
      exact hn
    cases l with
    | write c' m ok =>
      obtain rfl : c' = c := hown
      rw [hg.1]
      cases ok with
      | true =>
        show (Function.update t.writeLoop c' .select c').left < 2
        rw [Function.update_self]
        exact Nat.lt_succ_self 1
      | false => exact returned c' Nat.zero_lt_two
    | pingFail c' =>
      obtain rfl : c' = c := hown
      rw [Guard] at hg
      rw [hg]
      exact returned c' Nat.zero_lt_one
    | writeLoopClosed c' =>
      obtain rfl : c' = c := hown
      rw [hg.1]
      exact returned c' Nat.zero_lt_one
    | _ => cases hown
  · rintro t ⟨ht, hclosed⟩
    have hpanicked := panicked_of_reachable ht
    cases hpc : t.writeLoop c with
    | notStarted => exact .inl rfl
    | returned => exact .inl rfl
    | select => exact .inr ⟨.writeLoopClosed c, rfl, hpanicked, hpc, hclosed⟩
    | writing m => exact .inr ⟨.write c m false, rfl, hpanicked, hpc, fun hok => by cases hok⟩

/-! ## Main theorem -/

/-- **Who leaves is gone.** A client that has been in the map and whose removal waits in
`Unregister`: if every client that has joined, this one too, has an open connection and a running
`WriteLoop`, then in whatever order `Run`, the sending blocks and the members' successful writes
take their steps, and no other step is taken, the hub comes to rest, and the client is out of the
map, its connection, which stays open until `Run` closes it, and its channel are closed, and from
there on its `WriteLoop` returns by its own steps. -/
theorem departure (h : hub.Reachable s) (hjoined : ∀ c, Joined s c → Serviceable s c)
    (hentered : .insert c ∈ s.log) (hc : c ∈ s.unregister) :
    hub.Inevitably Serves (fun t => Drained t ∧ c ∉ t.clients ∧
      (t.connClosed c = true ∧ t.sendClosed c = true) ∧
      hub.Inevitably (fun _ l => l.IsOwnWrite c)
        (fun u => (u.writeLoop c).running = false) t) s := by
  obtain ⟨senders, hsenders⟩ := exists_senders h
  have hleaving : Leaving s c := .inl ⟨hc, insertedInv_of_reachable h c hentered⟩
  refine Lts.inevitably_of_invariant
    (I := fun t => Draining senders
      (s.clients.card + s.register.length + s.run.inserting.toList.length) t ∧ Leaving t c)
    (fun t => t.work senders (s.clients.card + s.register.length + s.run.inserting.toList.length))
    ?_ ?_ ?_ ⟨⟨h, hjoined, Nat.le_refl _, hsenders⟩, hleaving⟩
  · rintro t l ⟨ht, hleaving⟩ hserves hen
    exact ⟨ht.next hserves hen, hleaving.next (memberInv_of_reachable ht.reachable) hen⟩
  · exact fun t l ht hserves hen => ht.1.work_next hserves hen
  · rintro t ⟨ht, hleaving⟩
    apply ht.progress.imp_left
    intro hdrained
    have hclosed := hleaving.sendClosed_of_drained hdrained
    refine ⟨hdrained, ?_, ⟨?_, hclosed⟩, writeLoop_returns ht.reachable hclosed⟩
    · exact (memberInv_of_reachable ht.reachable).not_mem_of_removed (.inr hclosed)
    · exact (closedInv_of_reachable ht.reachable).closed c hclosed

/-- Two viewers, and the first one's handler has sent its removal. -/
theorem departure_of_two : ∃ s t, hub.Reachable s ∧ s.clients = {0, 1} ∧ hub.Path Serves s t ∧
    Drained t ∧ 0 ∉ t.clients ∧ t.connClosed 0 = true ∧ t.sendClosed 0 = true := by
  obtain ⟨s, hs, hrun, hclients, hregister, hunregister, hlog, h0, h1⟩ := hub.reachable_of_exec
    (connectLabels 0 ++ registerLabels 0 1 ++ prepareLabels 0 ++ sendOfferLabels 0 ++
      readLoopLabels 0 ++ connectLabels 1 ++ registerLabels 1 2 ++ leaveLabels 0)
    (fun s => s.run = .select ∧ s.clients = {0, 1} ∧ s.register = [] ∧ 0 ∈ s.unregister ∧
      .insert 0 ∈ s.log ∧ (s.connClosed 0 = false ∧ (s.writeLoop 0).running = true) ∧
      s.connClosed 1 = false ∧ (s.writeLoop 1).running = true) (by decide)
  have hjoined : ∀ c, Joined s c → Serviceable s c := by
    intro c hc
    rw [Joined, hclients, hregister, hrun, Finset.mem_insert, Finset.mem_singleton] at hc
    rcases hc with (rfl | rfl) | hc | hc
    · exact h0
    · exact h1
    · cases hc
    · cases hc
  obtain ⟨t, hpath, hdrained, hout, hclosed, -⟩ :=
    (departure hs hjoined hlog hunregister).exists_path
  exact ⟨s, t, hs, hclients, hpath, hdrained, hout, hclosed⟩

end Lightspeed.Hub
