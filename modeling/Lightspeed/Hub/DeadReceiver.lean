import Lightspeed.Hub.Sending

/-!
# Sends to a viewer whose `WriteLoop` is gone

`WriteLoop` is the only receiver of `c.Send`, and it returns on a failed write without
telling the hub. A goroutine that sends to `c` after that holds the read lock for ever; if it
is `Run`, or if `Run` comes to wait for the write lock, the hub serves nobody any more
(`RunStuck`, which no step undoes).

The hub is safe exactly from the failures that come too late to matter: when `c` has been
deleted from the map, or `Run` holds the write lock to delete it, or waits for that lock and
nobody inside it is on the way to `c.Send` (`Unsendable`).
-/

namespace Lightspeed.Hub

/-- `r` is at `c.Send <- msg`, inside the read lock. -/
def BlockedAt (s : State) (r : Reader) (c : ClientId) : Prop :=
  r ∈ s.mutex.readers ∧
    match r with
    | .run => s.run.forwarding = some c
    | .sender g => ∃ m, s.sending g = .send c m

/-- Whoever is at a send has a receiver that has not returned. -/
def LiveReceivers (s : State) : Prop :=
  ∀ r c, BlockedAt s r c → s.writeLoop c ≠ .returned

/-- `Run` is forwarding to a `WriteLoop` that has returned, or waits for the write lock while
a reader is blocked on one. -/
def RunStuck (s : State) : Prop :=
  (∃ c, s.run.forwarding = some c ∧ s.writeLoop c = .returned) ∨
    (s.run.writer = .waiting ∧ ∃ g c, BlockedAt s (.sender g) c ∧ s.writeLoop c = .returned)

theorem not_runStuck_of_liveReceivers {s : State} (hlock : LockInv s) (h : LiveReceivers s) :
    ¬RunStuck s := by
  rintro (⟨c, hf, hw⟩ | ⟨-, g, c, hb, hw⟩)
  · refine h .run c ⟨hlock.run.mpr ?_, hf⟩ hw
    cases hr : s.run <;> simp_all [RunPC.forwarding, RunPC.reads]
  · exact h _ c hb hw

/-! ## A stuck `Run` stays stuck -/

/-- A `WriteLoop` that has returned stays so, once its client is registered. -/
theorem writeLoop_returned_next {s : State} {l : Label} {c : ClientId}
    (hc : s.writeLoop c = .returned) (hreg : (s.handler c).registered = true)
    (hen : Enabled s l) : (next s l).writeLoop c = .returned := by
  obtain ⟨-, hg⟩ := hen
  -- a step that moves some other client's `WriteLoop`
  have other : ∀ {c' : ClientId} {pc : WriteLoopPC}, s.writeLoop c' ≠ .returned →
      Function.update s.writeLoop c' pc c = .returned := fun hne => by
    rw [Function.update_of_ne (by rintro rfl; exact hne hc), hc]
  cases l with
  | goWriteLoop c' =>
    rw [Guard] at hg
    have hne : c ≠ c' := by
      rintro rfl
      rw [hg] at hreg
      cases hreg
    simpa [next, State.setWriteLoop, State.setHandler, Function.update_of_ne hne] using hc
  | marshalMessage c' offerString ok => cases ok <;> exact hc
  | onConnectionStateChange k c' p => cases p <;> exact hc
  | sendMessage g c' m => exact other (by simp [hg.2.2])
  | broadcastSend m visited c' => exact other (by simp [hg.2.2])
  | write c' m ok => cases ok <;> exact other (by simp [hg.1])
  | pingFail c' => exact other (by rw [show s.writeLoop c' = .select from hg]; simp)
  | writeLoopClosed c' => exact other (by simp [hg.1])
  | _ => exact hc

/-- `Run` does not get past a send that nobody receives. -/
theorem forwarding_next {s : State} {l : Label} {c : ClientId}
    (hf : s.run.forwarding = some c) (hc : s.writeLoop c = .returned) (hen : Enabled s l) :
    (next s l).run = s.run := by
  obtain ⟨m, visited, hrun⟩ : ∃ m visited, s.run = .broadcastSend m visited c := by
    cases hr : s.run <;> simp_all [RunPC.forwarding]
  rcases run_next hen with hsame | hat
  · exact hsame
  · obtain ⟨-, hg⟩ := hen
    rw [hrun] at hat
    match l, hat with
    | .broadcastSend m' visited' c', rfl =>
      obtain ⟨-, -, hsel⟩ := hg
      rw [hc] at hsel
      cases hsel
    | .broadcastPanic m' visited' c', rfl => rfl

/-- Nor does a sender. -/
theorem sending_next {s : State} {l : Label} {g : Sender} {c : ClientId}
    {m : WebsocketMessage} (hs : s.sending g = .send c m) (hc : s.writeLoop c = .returned)
    (hh : HandlerInv s) (hen : Enabled s l) : (next s l).sending g = .send c m := by
  obtain ⟨-, hg⟩ := hen
  -- a step of some other sending block
  have other : ∀ {g' : Sender} {blk : SendPC}, s.sending g' ≠ .send c m →
      Function.update s.sending g' blk g = .send c m := fun hne => by
    rw [Function.update_of_ne (by rintro rfl; exact hne hs), hs]
  cases l with
  | marshalMessage c' offerString ok =>
    rw [Guard] at hg
    cases ok with
    | true => exact other (by rw [hh.idle c' (by simp [hg])]; simp)
    | false => exact hs
  | onICECandidate k c' candidateString => exact other (by simp [hg.1])
  | onConnectionStateChange k c' p => cases p <;> exact hs
  | write c' m ok => cases ok <;> exact hs
  | sendRLock g' c' m' => exact other (by simp [hg.1])
  | sendTest g' c' m' => exact other (by rw [show s.sending g' = .test c' m' from hg]; simp)
  | sendMessage g' c' m' =>
    refine other fun he => ?_
    obtain ⟨hs', -, hsel⟩ := hg
    rw [he] at hs'
    cases hs'
    rw [hc] at hsel
    cases hsel
  | sendRUnlock g' c' => exact other (by rw [show s.sending g' = .rUnlock c' from hg]; simp)
  | _ => exact hs

/-- `Run` stays in `Lock` while a reader stays inside. -/
theorem waiting_next {s : State} {l : Label} {r : Reader} (hw : s.run.writer = .waiting)
    (hr : r ∈ s.mutex.readers) (hen : Enabled s l) : (next s l).run = s.run := by
  have hno : ¬s.mutex.CanLock := fun h => by
    rw [RWMutex.CanLock] at h
    rw [h] at hr
    cases hr
  rcases run_next hen with hsame | hat
  · exact hsame
  · obtain ⟨-, hg⟩ := hen
    -- `Run` is in one of its two calls of `Lock`
    cases hrun : s.run with
    | registerLocking c =>
      rw [hrun] at hat
      match l, hat with
      | .registerLocked _, rfl => exact absurd hg.2 hno
    | unregisterLocking c =>
      rw [hrun] at hat
      match l, hat with
      | .unregisterLocked _, rfl => exact absurd hg.2 hno
    | _ =>
      rw [hrun] at hw
      cases hw

theorem registered_of_mem {s : State} {c : ClientId} (h : hub.Reachable s)
    (hc : c ∈ s.clients) : (s.handler c).registered = true := by
  obtain ⟨p, hp⟩ := (memberInv_of_reachable h).placed c
  have hmember : p = .member := hp.member.mp hc
  have hfresh := hp.fresh
  rw [hmember] at hfresh
  simpa using hfresh

/-- **No way out.** A stuck `Run` is stuck for the rest of the run. -/
theorem RunStuck.path {s t : State} (hs : hub.Reachable s) (h : RunStuck s)
    (ht : hub.Path Lts.always s t) : RunStuck t := by
  have hboth : hub.Reachable t ∧ RunStuck t := by
    refine ht.invariant (P := fun t => hub.Reachable t ∧ RunStuck t) ⟨hs, h⟩ ?_
    rintro u l ⟨hu, hstuck⟩ - hen
    have hsend := sendInv_of_reachable hu
    refine ⟨hu.next trivial hen, ?_⟩
    rcases hstuck with ⟨c, hf, hw⟩ | ⟨hwait, g, c, ⟨hr, m, hm⟩, hw⟩
    · refine .inl ⟨c, (forwarding_next hf hw hen).symm ▸ hf, ?_⟩
      exact writeLoop_returned_next hw (registered_of_mem hu (hsend.forward c hf)) hen
    · have hm' := sending_next hm hw (handlerInv_of_reachable hu) hen
      have hlock := (lockInv_of_reachable hu).next (handlerInv_of_reachable hu) hen
      refine .inr ⟨(waiting_next hwait hr hen).symm ▸ hwait, g, c, ⟨?_, m, hm'⟩, ?_⟩
      · exact (hlock.sender g).mpr (by rw [hm']; rfl)
      · exact writeLoop_returned_next hw (registered_of_mem hu (hsend.sender g c m hm)) hen
  exact hboth.2

/-! ## Failures that come late enough -/

/-- The client a sending block may still send to: the membership test is not behind it, or
it came out positive. -/
def SendPC.towards : SendPC → Option ClientId
  | .test c _ | .send c _ => some c
  | _ => none

/-- No send on `c.Send` can follow: `c` is deleted, or is about to be with nobody inside the
lock on the way to it. -/
def Unsendable (s : State) (c : ClientId) : Prop :=
  Removed s c ∨ s.run = .unregisterDelete c ∨
    (s.run = .unregisterLocking c ∧ ∀ g, (s.sending g).towards ≠ some c)

/-- `WriteLoop` returns on a failed write or ping of `c` only when no send can follow. -/
def FailsLate (s : State) : Label → Prop
  | .write c _ false => Unsendable s c
  | .pingFail c => Unsendable s c
  | _ => True

theorem not_blockedAt_of_unsendable {s : State} {r : Reader} {c : ClientId}
    (h : hub.Reachable s) (hu : Unsendable s c) : ¬BlockedAt s r c := by
  rintro ⟨hr, hb⟩
  have hlock := lockInv_of_reachable h
  -- whoever is blocked on `c` has a member before it
  have hmem : c ∈ s.clients := by
    cases r with
    | run => exact (sendInv_of_reachable h).forward c hb
    | sender g => obtain ⟨m, hm⟩ := hb; exact (sendInv_of_reachable h).sender g c m hm
  rcases hu with hu | hu | ⟨hu, hg⟩
  · exact (memberInv_of_reachable h).not_mem_of_removed hu hmem
  · have hempty := hlock.exclusive (hlock.writer.trans (by rw [hu]; rfl))
    rw [hempty] at hr
    cases hr
  · cases r with
    | run => rw [hu] at hb; cases hb
    | sender g => obtain ⟨m, hm⟩ := hb; exact hg g (by rw [hm]; rfl)

/-- From the delete `Run` goes on to the unlock. -/
theorem run_next_of_delete {s : State} {l : Label} {c : ClientId}
    (hrun : s.run = .unregisterDelete c) (hen : Enabled s l) :
    (next s l).run = .unregisterDelete c ∨ (next s l).run = .unregisterUnlock c := by
  rcases run_next hen with hsame | hat
  · exact .inl (hsame.trans hrun)
  · rw [hrun] at hat
    match l, hat with
    | .unregisterDelete _, rfl => exact .inr rfl

/-- From inside `Lock` `Run` goes on to the delete. -/
theorem run_next_of_locking {s : State} {l : Label} {c : ClientId}
    (hrun : s.run = .unregisterLocking c) (hen : Enabled s l) :
    (next s l).run = .unregisterLocking c ∨ (next s l).run = .unregisterDelete c := by
  rcases run_next hen with hsame | hat
  · exact .inl (hsame.trans hrun)
  · rw [hrun] at hat
    match l, hat with
    | .unregisterLocked _, rfl => exact .inr rfl

/-- While `Run` waits in `Lock`, nobody new gets on the way to `c.Send`. -/
theorem towards_next {s : State} {l : Label} {c : ClientId} (hwait : s.mutex.writer = .waiting)
    (h : ∀ g, (s.sending g).towards ≠ some c) (hen : Enabled s l) :
    ∀ g, ((next s l).sending g).towards ≠ some c := by
  obtain ⟨-, hg⟩ := hen
  have update : ∀ {g' : Sender} {blk : SendPC}, blk.towards ≠ some c →
      ∀ g, (Function.update s.sending g' blk g).towards ≠ some c := fun hblk g => by
    rw [Function.update_apply]
    split
    · exact hblk
    · exact h g
  cases l with
  | marshalMessage c' offerString ok =>
    cases ok with
    | true => exact update (by simp [SendPC.towards])
    | false => exact h
  | onICECandidate k c' candidateString => exact update (by simp [SendPC.towards])
  | onConnectionStateChange k c' p => cases p <;> exact h
  | write c' m ok => cases ok <;> exact h
  | sendRLock g' c' m =>
    -- a waiting writer keeps new readers out
    have hidle : s.mutex.writer = .idle := hg.2
    rw [hwait] at hidle
    cases hidle
  | sendTest g' c' m =>
    rw [Guard] at hg
    have hne : c' ≠ c := fun he => h g' (by rw [hg, he]; rfl)
    refine update ?_
    split <;> simp [SendPC.towards, hne]
  | sendMessage g' c' m => exact update (by simp [SendPC.towards])
  | sendRUnlock g' c' => exact update (by simp [SendPC.towards])
  | _ => exact h

theorem Unsendable.next {s : State} {l : Label} {c : ClientId} (h : hub.Reachable s)
    (hu : Unsendable s c) (hen : Enabled s l) : Unsendable (next s l) c := by
  rcases hu with hu | hu | ⟨hu, hg⟩
  · exact .inl ((memberInv_of_reachable h).removed_next hu hen)
  · rcases run_next_of_delete hu hen with hr | hr
    · exact .inr (.inl hr)
    · exact .inl (.inl (by rw [hr]; rfl))
  · rcases run_next_of_locking hu hen with hr | hr
    · have hwait : s.mutex.writer = .waiting := by
        rw [(lockInv_of_reachable h).writer, hu]; rfl
      exact .inr (.inr ⟨hr, towards_next hwait hg hen⟩)
    · exact .inr (.inl hr)

/-- How a `WriteLoop` comes to have returned. -/
theorem returned_of_next {s : State} {l : Label} {c : ClientId} (hen : Enabled s l)
    (hok : FailsLate s l) (h : (next s l).writeLoop c = .returned) :
    s.writeLoop c = .returned ∨ Unsendable s c := by
  obtain ⟨-, hg⟩ := hen
  -- a `WriteLoop` that moves on, but not to its end
  have alive : ∀ {c' : ClientId} {pc : WriteLoopPC}, pc ≠ .returned →
      Function.update s.writeLoop c' pc c = .returned → s.writeLoop c = .returned := by
    intro c' pc hpc hup
    rw [Function.update_apply] at hup
    split at hup
    · exact absurd hup hpc
    · exact hup
  -- a `WriteLoop` that returns
  have ends : ∀ {c' : ClientId}, Unsendable s c' →
      Function.update s.writeLoop c' .returned c = .returned →
      s.writeLoop c = .returned ∨ Unsendable s c := by
    intro c' hu hup
    by_cases hc : c = c'
    · exact .inr (hc ▸ hu)
    · rw [Function.update_of_ne hc] at hup
      exact .inl hup
  cases l with
  | goWriteLoop c' => exact .inl (alive (by simp) h)
  | marshalMessage c' offerString ok => cases ok <;> exact .inl h
  | onConnectionStateChange k c' p => cases p <;> exact .inl h
  | sendMessage g c' m => exact .inl (alive (by simp) h)
  | broadcastSend m visited c' => exact .inl (alive (by simp) h)
  | write c' m ok =>
    cases ok with
    | true => exact .inl (alive (by simp) h)
    | false => exact ends hok h
  | pingFail c' => exact ends hok h
  | writeLoopClosed c' => exact ends (.inl (.inr hg.2)) h
  | _ => exact .inl h

/-- As long as failures come late, a `WriteLoop` that has returned is one nobody sends to. -/
theorem unsendable_of_returned {s : State} (h : hub.ReachableWhen FailsLate s) {c : ClientId}
    (hc : s.writeLoop c = .returned) : Unsendable s c := by
  refine h.invariant (P := fun s => ∀ c, s.writeLoop c = .returned → Unsendable s c)
    (fun c hc => by cases hc) (fun s l hr hi hok hen c hc => ?_) c hc
  rcases returned_of_next hen hok hc with hw | hu
  · exact (hi c hw).next hr.reachable hen
  · exact hu.next hr.reachable hen

/-- **No send to a dead receiver.** In every run in which a `WriteLoop` returns on a failure
only when no send to its client can follow, whoever is blocked at a send has a live receiver,
and `Run` is not stuck. -/
theorem liveReceivers_of_failsLate {s : State} (h : hub.ReachableWhen FailsLate s) :
    LiveReceivers s ∧ ¬RunStuck s := by
  have hlive : LiveReceivers s := fun _ _ hb hc =>
    not_blockedAt_of_unsendable h.reachable (unsendable_of_returned h hc) hb
  exact ⟨hlive, not_runStuck_of_liveReceivers (lockInv_of_reachable h.reachable) hlive⟩

/-- Writes and pings fail only once the client's channel is closed. -/
def failsClosed (s : State) : Label → Bool
  | .write c _ ok => ok || s.sendClosed c
  | .pingFail c => s.sendClosed c
  | _ => true

theorem failsLate_of_failsClosed {s : State} {l : Label} (h : failsClosed s l = true) :
    FailsLate s l := by
  cases l with
  | write c m ok => cases ok with
    | true => trivial
    | false => exact .inl (.inr h)
  | pingFail c => exact .inl (.inr h)
  | _ => trivial

/-- `Run` forwards its first message, to the first viewer. -/
def forwardLabels : List Label :=
  connectLabels 0 ++ registerLabels 0 1 ++ [.takeBroadcast 0, .broadcastRLock (infoMessage ⟨1⟩),
    .broadcastNext (infoMessage ⟨1⟩) ∅ 0]

/-- `Run` has handed the message over and goes on. -/
def forwardedLabels : List Label :=
  [.broadcastSend (infoMessage ⟨1⟩) ∅ 0, .broadcastEnd (infoMessage ⟨1⟩) {0}, .broadcastRUnlock]

/-- The first viewer is removed while its `WriteLoop` writes, and the write fails. `Run` is about
to forward a count to the second viewer. -/
theorem liveReceivers_of_failsLate_forwarding : ∃ s, hub.ReachableWhen FailsLate s ∧
    s.writeLoop 0 = .returned ∧ BlockedAt s .run 1 ∧ LiveReceivers s ∧ ¬RunStuck s := by
  obtain ⟨s, hs, hreturned, hb⟩ := hub.reachableWhen_of_exec FailsLate failsClosed
    (fun _ l h => failsLate_of_failsClosed h)
    (forwardLabels ++ forwardedLabels ++ connectLabels 1 ++ registerLabels 1 2 ++
      [.onConnectionStateChange 0 0 .closed, .callbackUnregister 0 0] ++ unregisterLabels 0 ++
      [.write 0 (infoMessage ⟨1⟩) false, .infoRLock, .infoLen, .infoRUnlock ⟨1⟩, .goSendInfo ⟨1⟩,
        .takeBroadcast 2, .broadcastRLock (infoMessage ⟨1⟩),
        .broadcastNext (infoMessage ⟨1⟩) ∅ 1])
    (fun s => s.writeLoop 0 = .returned ∧ .run ∈ s.mutex.readers ∧ s.run.forwarding = some 1)
    (by decide)
  exact ⟨s, hs, hreturned, hb, liveReceivers_of_failsLate hs⟩

/-- A write to the first viewer fails. When a second viewer joins, `Run` is stuck in the
broadcast that announces it. -/
theorem run_stuck_in_broadcast :
    ¬∀ s, hub.Reachable s → LiveReceivers s ∧ ¬RunStuck s := by
  intro h
  obtain ⟨s, hs, hf, hw⟩ := hub.reachable_of_exec
    (forwardLabels ++ forwardedLabels ++ [.write 0 (infoMessage ⟨1⟩) false] ++
      connectLabels 1 ++ registerLabels 1 2 ++ [.takeBroadcast 1,
      .broadcastRLock (infoMessage ⟨2⟩), .broadcastNext (infoMessage ⟨2⟩) ∅ 0])
    (fun s => s.run.forwarding = some 0 ∧ s.writeLoop 0 = .returned)
    (by decide)
  exact (h s hs).2 (.inl ⟨0, hf, hw⟩)

end Lightspeed.Hub
