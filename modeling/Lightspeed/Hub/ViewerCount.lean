import Lightspeed.Hub.Messages

/-!
# The viewer count

After every change of the map `Run` takes a snapshot of the number of clients and starts a
`SendInfo` goroutine with it. The snapshots then compete for `Broadcast`, and what a viewer
shows is the one that arrived last. It is the right one as long as `Run` does not let a
stale snapshot overtake the current one (`NotOvertaken`): then, outside the changes
themselves, either a current snapshot is still pending or every viewer has the current count
or is about to get it (`CountInv`).
-/

namespace Lightspeed.Hub

/-! ## The last count a viewer was handed -/

def WebsocketMessage.info? (m : WebsocketMessage) : Option Info :=
  match m.event, m.data with
  | .info, .info i => some i
  | _, _ => none

/-- The last info message `c`'s `WriteLoop` has received. -/
def State.lastInfo (s : State) (c : ClientId) : Option Info :=
  ((s.handed c).filterMap WebsocketMessage.info?).getLast?

/-- `Register` and `Unregister` are empty, no `SendInfo` is pending, `Run` is idle and all
clients in the map have live `WriteLoop`s. -/
structure Quiescent (s : State) : Prop where
  register : s.register = []
  unregister : s.unregister = []
  sendInfo : ∀ k, (s.sendInfo k).pending = false
  run : s.run = .select
  writeLoop : ∀ c ∈ s.clients, s.writeLoop c ≠ .returned

theorem lastInfo_broadcastSend (s : State) (i : Info) (visited : Finset ClientId)
    (c : ClientId) :
    (next s (.broadcastSend (infoMessage i) visited c)).lastInfo c = some i := by
  rw [State.lastInfo, handed_next]
  simp [Label.handed, infoMessage, WebsocketMessage.info?]

/-- Only `Run` hands infos over. -/
theorem lastInfo_next {s : State} {l : Label} {c : ClientId} (hkind : KindInv s)
    (hen : Enabled s l) (hnot : ∀ m visited, l ≠ .broadcastSend m visited c) :
    (next s l).lastInfo c = s.lastInfo c := by
  obtain ⟨-, hg⟩ := hen
  have hquiet : (l.handed c).filterMap WebsocketMessage.info? = [] := by
    -- a sending block carries an offer or a candidate
    cases l with
    | sendMessage g c' m =>
      rw [Guard] at hg
      have hm : (s.sending g).message = some m := by
        rw [hg.1]
        rfl
      have hevent : m.event ≠ .info := by
        cases g with
        | handler c'' =>
          rw [hkind.handler c'' m hm]
          simp
        | candidate k =>
          rw [hkind.candidate k m hm]
          simp
      have hnone : m.info? = none := by
        unfold WebsocketMessage.info?
        split
        · next he _ => exact absurd he hevent
        · rfl
      simp only [Label.handed]
      split
      · simp [hnone]
      · rfl
    | broadcastSend m visited c' =>
      have hc : c' ≠ c := by
        intro hc
        subst hc
        exact hnot m visited rfl
      simp [Label.handed, hc]
    | _ => rfl
  rw [State.lastInfo, handed_next, List.filterMap_append, hquiet, List.append_nil, State.lastInfo]

/-! ## Snapshots and what they say -/

/-- Some `SendInfo` goroutine still holds the current count. -/
def CurrentPending (s : State) : Prop :=
  ∃ k, (s.sendInfo k).pending = true ∧ (s.sendInfo k).info = s.getInfo

/-- While there are viewers, `Run` takes a stale count from `Broadcast` only if a `SendInfo`
with the current count is still to come. -/
def NotOvertaken (s : State) : Label → Prop
  | .takeBroadcast k => s.clients.Nonempty → (s.sendInfo k).info = s.getInfo ∨
      ∃ k', k' ≠ k ∧ (s.sendInfo k').pending = true ∧ (s.sendInfo k').info = s.getInfo
  | _ => True

/-- `Run` has changed the map and not yet started the `SendInfo` for the change. -/
def RunPC.counting : RunPC → Bool
  | .registerUnlock _ | .unregisterUnlock _ | .unregisterCloseConn _ | .unregisterCloseSend _
  | .infoRLock | .infoLen | .infoRUnlock _ | .goSendInfo _ => true
  | _ => false

/-- The snapshot `Run` is about to start a `SendInfo` with. -/
def RunPC.counted : RunPC → Option Info
  | .infoRUnlock i | .goSendInfo i => some i
  | _ => none

/-- The message being forwarded has not gone to `c` yet. -/
def RunPC.Unserved (pc : RunPC) (c : ClientId) : Prop :=
  match pc with
  | .broadcastRLock _ => True
  | .broadcastRange _ visited | .broadcastSend _ visited _ => c ∉ visited
  | _ => False

/-- `c` has been handed the current count, or is about to be. -/
structure Informed (s : State) (c : ClientId) : Prop where
  forwarded : ∀ m, s.run.message = some m → m = infoMessage s.getInfo
  last : ¬s.run.Unserved c → s.lastInfo c = some s.getInfo

structure CountInv (s : State) : Prop where
  counted : ∀ i, s.run.counted = some i → i = s.getInfo
  informed : s.run.counting = false → CurrentPending s ∨ ∀ c ∈ s.clients, Informed s c

theorem countInv_init : CountInv init := by
  constructor
  · intro i h
    cases h
  · intro _
    right
    intro c hc
    simp [init] at hc

/-- A step that keeps the map, the snapshots and the last counts, and during which `Run` stays
in the same phase. -/
theorem CountInv.congr {s t : State} (h : CountInv s)
    (hcounted : t.run.counted = s.run.counted) (hcounting : t.run.counting = s.run.counting)
    (hmsg : t.run.message = s.run.message)
    (hun : ∀ c, s.run.Unserved c → t.run.Unserved c) (hclients : t.clients = s.clients)
    (hsnap : t.sendInfo = s.sendInfo) (hlast : ∀ c, t.lastInfo c = s.lastInfo c) :
    CountInv t := by
  have hget : t.getInfo = s.getInfo := by
    rw [State.getInfo, State.noClients, hclients, State.getInfo, State.noClients]
  constructor
  · intro i hi
    rw [hget]
    exact h.counted i (hcounted ▸ hi)
  · intro hc
    rcases h.informed (hcounting ▸ hc) with ⟨k, hk⟩ | hall
    · left
      exact ⟨k, by rwa [hsnap, hget]⟩
    · right
      intro c hmem
      have hinf := hall c (hclients ▸ hmem)
      constructor
      · intro m hm
        rw [hget]
        exact hinf.forwarded m (hmsg ▸ hm)
      · intro hserved
        rw [hlast, hget]
        exact hinf.last fun hu => hserved (hun c hu)

/-- Between a change and its snapshot there is nothing to show but that the snapshot is right. -/
theorem countInv_of_counting {t : State} (hcounting : t.run.counting = true)
    (hcounted : ∀ i, t.run.counted = some i → i = t.getInfo) : CountInv t := by
  refine ⟨hcounted, ?_⟩
  intro hc
  rw [hcounting] at hc
  cases hc

/-- `go h.SendInfo(i)` -/
theorem CountInv.goSendInfo {s : State} {i : Info} (h : CountInv s)
    (hrun : s.run = .goSendInfo i) : CountInv (next s (.goSendInfo i)) := by
  have hi : i = s.getInfo := h.counted i (by rw [hrun]; rfl)
  constructor
  · intro i' hi'
    cases hi'
  · intro _
    left
    refine ⟨s.spawned, ?_, ?_⟩
    · simp [next]
    · simp only [next, Function.update_self]
      exact hi

/-- `case message := <-h.Broadcast` -/
theorem countInv_takeBroadcast {s : State} {k : ℕ} (hok : NotOvertaken s (.takeBroadcast k)) :
    CountInv (next s (.takeBroadcast k)) := by
  constructor
  · intro i hi
    cases hi
  · intro _
    by_cases hclients : s.clients.Nonempty
    -- `Run` forwards the current count, or the current one comes later
    · rcases hok hclients with hcur | ⟨k', hk', hpending, hinfo⟩
      · right
        intro c _
        constructor
        · intro m hm
          cases hm
          rw [hcur]
          rfl
        · intro hserved
          exact absurd trivial hserved
      · left
        refine ⟨k', ?_, ?_⟩
        · simp only [next, Function.update_of_ne hk']
          exact hpending
        · simp only [next, Function.update_of_ne hk']
          exact hinfo
    · right
      intro c hc
      exact absurd ⟨c, hc⟩ hclients

/-- `client.Send <- message`, received. -/
theorem CountInv.broadcastSend {s : State} {m : WebsocketMessage} {visited : Finset ClientId}
    {c : ClientId} (h : CountInv s) (hkind : KindInv s) (hsend : SendInv s)
    (hen : Enabled s (.broadcastSend m visited c)) :
    CountInv (next s (.broadcastSend m visited c)) := by
  have hrun : s.run = .broadcastSend m visited c := hen.2.1
  have hmem : c ∈ s.clients := hsend.forward c (by rw [hrun]; rfl)
  have hmsg : s.run.message = some m := by rw [hrun]; rfl
  constructor
  · intro i hi
    cases hi
  · intro _
    rcases h.informed (by rw [hrun]; rfl) with hcur | hall
    · left
      exact hcur
    · right
      have hm : m = infoMessage s.getInfo := (hall c hmem).forwarded m hmsg
      intro c' hc'
      constructor
      · intro m' hm'
        cases hm'
        exact hm
      · intro hserved
        -- `c` has it now, and for the others nothing has changed
        by_cases hc : c' = c
        · subst hc
          rw [hm]
          exact lastInfo_broadcastSend s _ visited c'
        · rw [lastInfo_next hkind hen (by simp [Ne.symm hc])]
          refine (hall c' hc').last fun hu => hserved ?_
          rw [hrun] at hu
          simp only [next, RunPC.Unserved, Finset.mem_insert, not_or]
          exact ⟨hc, hu⟩

/-- The range over the map is exhausted: everybody has been served. -/
theorem CountInv.broadcastEnd {s : State} {m : WebsocketMessage} {visited : Finset ClientId}
    (h : CountInv s) (hen : Enabled s (.broadcastEnd m visited)) :
    CountInv (next s (.broadcastEnd m visited)) := by
  obtain ⟨-, hrun, hall⟩ := hen
  constructor
  · intro i hi
    cases hi
  · intro _
    rcases h.informed (by rw [hrun]; rfl) with hcur | hinf
    · left
      exact hcur
    · right
      intro c hc
      constructor
      · intro m' hm'
        cases hm'
      · intro _
        refine (hinf c hc).last fun hu => ?_
        rw [hrun] at hu
        exact hu (hall hc)

theorem CountInv.next {s : State} {l : Label} (h : CountInv s) (hr : hub.Reachable s)
    (hok : NotOvertaken s l) (hen : Enabled s l) : CountInv (next s l) := by
  have hkind := kindInv_of_reachable hr
  have hg := hen.2
  -- a step in which `Run` does not move
  have quiet : (∀ m visited c, l ≠ .broadcastSend m visited c) →
      (Hub.next s l).run = s.run → (Hub.next s l).clients = s.clients →
      (Hub.next s l).sendInfo = s.sendInfo → CountInv (Hub.next s l) := by
    intro hnot hrun hclients hsnap
    refine h.congr ?_ ?_ ?_ ?_ hclients hsnap fun c => lastInfo_next hkind hen fun m v => hnot m v c
    all_goals simp [hrun]
  -- a step of `Run` between two changes that forwards nothing
  have move : ∀ {pc pc' : RunPC}, (∀ m visited c, l ≠ .broadcastSend m visited c) →
      s.run = pc → (Hub.next s l).run = pc' → pc'.counted = pc.counted →
      pc'.counting = pc.counting → pc'.message = pc.message →
      (∀ c, pc.Unserved c → pc'.Unserved c) → (Hub.next s l).clients = s.clients →
      (Hub.next s l).sendInfo = s.sendInfo → CountInv (Hub.next s l) := by
    intro pc pc' hnot hpc hpc' hcounted hcounting hmsg hun hclients hsnap
    subst hpc hpc'
    exact h.congr hcounted hcounting hmsg hun hclients hsnap
      fun c => lastInfo_next hkind hen fun m v => hnot m v c
  cases l with
  | marshalMessage c offerString ok => cases ok <;> exact quiet (by simp) rfl rfl rfl
  | onConnectionStateChange k c p => cases p <;> exact quiet (by simp) rfl rfl rfl
  | write c m ok => cases ok <;> exact quiet (by simp) rfl rfl rfl
  | takeRegister c => exact move (by simp) hg.1 rfl rfl rfl rfl (fun _ => id) rfl rfl
  | registerLock c => exact move (by simp) hg rfl rfl rfl rfl (fun _ => id) rfl rfl
  | registerLocked c => exact move (by simp) hg.1 rfl rfl rfl rfl (fun _ => id) rfl rfl
  | takeUnregister c => exact move (by simp) hg.1 rfl rfl rfl rfl (fun _ => id) rfl rfl
  | unregisterRLock c => exact move (by simp) hg.1 rfl rfl rfl rfl (fun _ => id) rfl rfl
  | unregisterTest c => exact move (by simp) hg rfl rfl rfl rfl (fun _ => id) rfl rfl
  | unregisterRUnlock c ok =>
    cases ok <;> exact move (by simp) hg rfl rfl rfl rfl (fun _ => id) rfl rfl
  | unregisterLock c => exact move (by simp) hg rfl rfl rfl rfl (fun _ => id) rfl rfl
  | unregisterLocked c => exact move (by simp) hg.1 rfl rfl rfl rfl (fun _ => id) rfl rfl
  | registerInsert | registerUnlock | unregisterDelete | unregisterUnlock | unregisterCloseConn
  | unregisterCloseSend | infoRLock => exact countInv_of_counting rfl fun i hi => by cases hi
  | infoLen => exact countInv_of_counting rfl fun i hi => (Option.some.inj hi).symm
  | infoRUnlock i =>
    rw [Guard] at hg
    refine countInv_of_counting rfl fun i' hi' => h.counted i' ?_
    rw [hg]
    exact hi'
  | goSendInfo i => exact h.goSendInfo hg
  | takeBroadcast k => exact countInv_takeBroadcast hok
  | broadcastRLock m =>
    exact move (by simp) hg.1 rfl rfl rfl rfl (fun c _ => Finset.notMem_empty c) rfl rfl
  | broadcastNext m visited c => exact move (by simp) hg.1 rfl rfl rfl rfl (fun _ => id) rfl rfl
  | broadcastSend m visited c => exact h.broadcastSend hkind (sendInv_of_reachable hr) hen
  | broadcastEnd m visited => exact h.broadcastEnd hen
  | broadcastRUnlock => exact move (by simp) hg rfl rfl rfl rfl (fun _ => id) rfl rfl
  | _ => exact quiet (by simp) rfl rfl rfl

/-! ## At rest -/

/-- If no stale snapshot overtakes the current one, then at rest the last info message of
every viewer in the map carries the number of viewers in the map. -/
theorem lastInfo_of_quiescent {s : State} (h : hub.ReachableWhen NotOvertaken s)
    (hq : Quiescent s) {c : ClientId} (hc : c ∈ s.clients) :
    s.lastInfo c = some ⟨s.clients.card⟩ := by
  have hinv : CountInv s :=
    h.invariant countInv_init fun _ _ hr hi hok hen => hi.next hr.reachable hok hen
  rcases hinv.informed (by rw [hq.run]; rfl) with ⟨k, hpending, -⟩ | hall
  · rw [hq.sendInfo k] at hpending
    cases hpending
  · exact (hall c hc).last (by rw [hq.run]; exact id)

/-! ## Two runs -/

/-- Only goroutines that were started are pending. -/
theorem lt_spawned_of_pending {s : State} (h : hub.Reachable s) :
    ∀ k, (s.sendInfo k).pending = true → k < s.spawned := by
  refine h.invariant (P := fun s => ∀ k, (s.sendInfo k).pending = true → k < s.spawned)
    (fun k hk => by cases hk) fun s l _ hi _ _ => ?_
  cases l with
  | marshalMessage c offerString ok => cases ok <;> exact hi
  | onConnectionStateChange k c p => cases p <;> exact hi
  | write c m ok => cases ok <;> exact hi
  | goSendInfo i =>
    intro k hk
    show k < s.spawned + 1
    by_cases hks : k = s.spawned
    · omega
    · have hlt := hi k (by simpa [hub, next, Function.update_of_ne hks] using hk)
      omega
  | takeBroadcast k' =>
    intro k hk
    by_cases hkk : k = k'
    · subst hkk
      simp [hub, next] at hk
    · exact hi k (by simpa [hub, next, Function.update_of_ne hkk] using hk)
  | _ => exact hi

/-- What a run can be tested for. -/
theorem quiescent_of_test {s : State} (h : hub.Reachable s)
    (ht : s.register = [] ∧ s.unregister = [] ∧ (∀ k < s.spawned, (s.sendInfo k).pending = false) ∧
      s.run = .select ∧ ∀ c ∈ s.clients, s.writeLoop c ≠ .returned) : Quiescent s := by
  obtain ⟨hregister, hunregister, hsnap, hrun, hlive⟩ := ht
  refine ⟨hregister, hunregister, fun k => ?_, hrun, hlive⟩
  by_contra hk
  have hpending : (s.sendInfo k).pending = true := by simpa using hk
  exact hk (hsnap k (lt_spawned_of_pending h k hpending))

/-- `Run` takes the snapshot of `SendInfo` number `k`, which says `n`, and forwards it to the
viewers 0 and 1. -/
def announceLabels (k n : ℕ) : List Label :=
  [.takeBroadcast k, .broadcastRLock (infoMessage ⟨n⟩),
    .broadcastNext (infoMessage ⟨n⟩) ∅ 0, .broadcastSend (infoMessage ⟨n⟩) ∅ 0,
    .broadcastNext (infoMessage ⟨n⟩) {0} 1, .broadcastSend (infoMessage ⟨n⟩) {0} 1,
    .broadcastEnd (infoMessage ⟨n⟩) {1, 0}, .broadcastRUnlock,
    .write 0 (infoMessage ⟨n⟩) true, .write 1 (infoMessage ⟨n⟩) true]

/-- Every message taken from `Broadcast` is current, or number 1 is still to come and is. -/
def takesCurrent (s : State) : Label → Bool
  | .takeBroadcast k => decide ((s.sendInfo k).info = s.getInfo) ||
      (decide (k ≠ 1) && (s.sendInfo 1).pending && decide ((s.sendInfo 1).info = s.getInfo))
  | _ => true

theorem notOvertaken_of_takesCurrent {s : State} {l : Label} (h : takesCurrent s l = true) :
    NotOvertaken s l := by
  cases l with
  | takeBroadcast k =>
    intro _
    simp only [takesCurrent, Bool.or_eq_true, Bool.and_eq_true, decide_eq_true_eq] at h
    rcases h with hcur | ⟨⟨hk, hpending⟩, hinfo⟩
    · exact .inl hcur
    · exact .inr ⟨1, Ne.symm hk, hpending, hinfo⟩
  | _ => trivial

/-- Two viewers, the two snapshots taken in order. -/
theorem lastInfo_of_quiescent_in_order : ∃ s, hub.ReachableWhen NotOvertaken s ∧ Quiescent s ∧
    (s.lastInfo 0 = some ⟨s.clients.card⟩ ∧ s.clients.card = 2) := by
  obtain ⟨s, hs, ht, hmem, hcard⟩ := hub.reachableWhen_of_exec NotOvertaken takesCurrent
    (fun _ _ => notOvertaken_of_takesCurrent)
    (connectLabels 0 ++ registerLabels 0 1 ++ connectLabels 1 ++ registerLabels 1 2 ++
      announceLabels 0 1 ++ announceLabels 1 2)
    (fun s => (s.register = [] ∧ s.unregister = [] ∧
      (∀ k < s.spawned, (s.sendInfo k).pending = false) ∧ s.run = .select ∧
      ∀ c ∈ s.clients, s.writeLoop c ≠ .returned) ∧ 0 ∈ s.clients ∧ s.clients.card = 2)
    (by decide)
  have hq : Quiescent s := quiescent_of_test hs.reachable ht
  exact ⟨s, hs, hq, lastInfo_of_quiescent hs hq hmem, hcard⟩

/-- The same two viewers, but the second snapshot is taken before the first: both viewers end
up showing 1. -/
theorem stale_count : ¬∀ s c, hub.Reachable s → Quiescent s → c ∈ s.clients →
    s.lastInfo c = some ⟨s.clients.card⟩ := by
  intro hall
  obtain ⟨s, hs, ht, hmem, hcard, hlast⟩ := hub.reachable_of_exec
    (connectLabels 0 ++ registerLabels 0 1 ++ connectLabels 1 ++ registerLabels 1 2 ++
      announceLabels 1 2 ++ announceLabels 0 1)
    (fun s => (s.register = [] ∧ s.unregister = [] ∧
      (∀ k < s.spawned, (s.sendInfo k).pending = false) ∧ s.run = .select ∧
      ∀ c ∈ s.clients, s.writeLoop c ≠ .returned) ∧ 0 ∈ s.clients ∧ s.clients.card = 2 ∧
      s.lastInfo 0 = some ⟨1⟩)
    (by decide)
  have hright := hall s 0 hs (quiescent_of_test hs ht) hmem
  rw [hlast, hcard] at hright
  exact absurd hright (by decide)

end Lightspeed.Hub
