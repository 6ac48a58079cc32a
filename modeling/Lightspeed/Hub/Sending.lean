import Lightspeed.Hub.Membership

/-!
# No send on a closed channel

"lock to prevent write to closed channel", says the comment on the hub's lock. It does:
whoever is at a send on `c.Send` holds the read lock and has seen `c` in `Clients`, `Run`
deletes under the write lock, and it closes `c.Send` only after that. So a goroutine at a
send has a member in front of it (`SendInv`), and a member's channel is open.
-/

namespace Lightspeed.Hub

/-- The client `Run` is sending a broadcast message to. -/
def RunPC.forwarding : RunPC → Option ClientId
  | .broadcastSend _ _ c => some c
  | _ => none

/-- Every goroutine at a send on `c.Send` is there for a member `c`. -/
structure SendOk (sending : Sender → SendPC) (run : RunPC) (clients : Finset ClientId) :
    Prop where
  sender : ∀ g c m, sending g = .send c m → c ∈ clients
  forward : ∀ c, run.forwarding = some c → c ∈ clients

def SendInv (s : State) : Prop := SendOk s.sending s.run s.clients

theorem sendInv_init : SendInv init :=
  ⟨(fun _ _ _ h => by cases h), fun _ h => by cases h⟩

namespace SendOk

variable {sending : Sender → SendPC} {run : RunPC} {clients : Finset ClientId}

/-- `Run` moves, not to a send. -/
theorem update_run (h : SendOk sending run clients) {run' : RunPC}
    (hrun : run'.forwarding = none) : SendOk sending run' clients :=
  ⟨h.sender, fun c he => by rw [hrun] at he; cases he⟩

/-- A sender moves, to a send only for a member. -/
theorem update_sending (h : SendOk sending run clients) {g : Sender} {blk : SendPC}
    (hblk : ∀ c m, blk = .send c m → c ∈ clients) :
    SendOk (Function.update sending g blk) run clients := by
  refine ⟨fun g' c m he => ?_, h.forward⟩
  by_cases hg : g' = g
  · subst hg
    rw [Function.update_self] at he
    exact hblk c m he
  · rw [Function.update_of_ne hg] at he
    exact h.sender g' c m he

theorem insert (h : SendOk sending run clients) (c : ClientId) :
    SendOk sending run (insert c clients) :=
  ⟨fun g c' m he => Finset.mem_insert_of_mem (h.sender g c' m he),
    fun c' he => Finset.mem_insert_of_mem (h.forward c' he)⟩

end SendOk

theorem SendInv.next {s : State} {l : Label} (h : SendInv s) (hlock : LockInv s)
    (hen : Enabled s l) : SendInv (next s l) := by
  obtain ⟨-, hg⟩ := hen
  unfold SendInv at h
  cases l with
  | marshalMessage c offerString ok =>
    cases ok with
    | true => exact h.update_sending (by simp)
    | false => exact h
  | onICECandidate k c candidateString => exact h.update_sending (by simp)
  | onConnectionStateChange k c p => cases p <;> exact h
  | write c m ok => cases ok <;> exact h
  | sendRLock g c m => exact h.update_sending (by simp)
  | sendTest g c m =>
    refine h.update_sending fun c' m' he => ?_
    split at he
    · next hmem => cases he; exact hmem
    · cases he
  | sendMessage g c m => exact h.update_sending (by simp)
  | sendRUnlock g c => exact h.update_sending (by simp)
  | registerInsert c => exact (h.update_run rfl).insert c
  | unregisterDelete c =>
    rw [Guard] at hg
    -- the write lock is held, so nobody is at a send
    refine ⟨fun g c' m he => ?_, fun c' he => by cases he⟩
    have hno := hlock.no_sender (by rw [hg]; rfl) g
    rw [show s.sending g = .send c' m from he] at hno
    cases hno
  | unregisterRUnlock c ok => cases ok <;> exact h.update_run rfl
  | broadcastNext m visited c =>
    refine ⟨h.sender, fun c' he => ?_⟩
    cases he
    exact hg.2.1
  | takeRegister | registerLock | registerLocked | registerUnlock
  | takeUnregister | unregisterRLock | unregisterTest | unregisterLock
  | unregisterLocked | unregisterUnlock | unregisterCloseConn | unregisterCloseSend | infoRLock
  | infoLen | infoRUnlock | goSendInfo | takeBroadcast | broadcastRLock | broadcastSend
  | broadcastEnd | broadcastRUnlock => exact h.update_run rfl
  | _ => exact h

theorem sendInv_of_reachable {s : State} (h : hub.Reachable s) : SendInv s :=
  h.invariant sendInv_init fun _ _ hr hi _ hen =>
    hi.next (lockInv_of_reachable hr.reachable) hen

/-- A sender comes to its send by its test for membership only. -/
theorem test_of_send {s : State} {l : Label} {g : Sender} {c : ClientId} {m : WebsocketMessage}
    (hen : Enabled s l) (h : (next s l).sending g = .send c m) :
    s.sending g = .send c m ∨ c ∈ s.clients ∧ l = .sendTest g c m := by
  obtain ⟨-, hg⟩ := hen
  -- a block that moves to another place than the send
  have block : ∀ {g' : Sender} {blk : SendPC}, (∀ c m, blk ≠ .send c m) →
      Function.update s.sending g' blk g = .send c m → s.sending g = .send c m := by
    intro g' blk hblk hup
    rw [Function.update_apply] at hup
    split at hup
    · exact absurd hup (hblk c m)
    · exact hup
  cases l with
  | marshalMessage c' offerString ok =>
    cases ok with
    | true => exact .inl (block (by simp) h)
    | false => exact .inl h
  | onICECandidate k c' candidateString => exact .inl (block (by simp) h)
  | onConnectionStateChange k c' p => cases p <;> exact .inl h
  | write c' m' ok => cases ok <;> exact .inl h
  | sendRLock g' c' m' => exact .inl (block (by simp) h)
  | sendTest g' c' m' =>
    by_cases hgg : g = g'
    · subst hgg
      replace h : Function.update s.sending g _ g = .send c m := h
      rw [Function.update_self] at h
      split at h
      · next hmem =>
        obtain ⟨rfl, rfl⟩ := SendPC.send.inj h
        exact .inr ⟨hmem, rfl⟩
      · cases h
    · exact .inl ((Function.update_of_ne hgg _ _).symm.trans h)
  | sendMessage g' c' m' => exact .inl (block (by simp) h)
  | sendRUnlock g' c' => exact .inl (block (by simp) h)
  | _ => exact .inl h

/-! ## Panics -/

/-- A member's channel is open. -/
theorem sendClosed_of_mem {s : State} {c : ClientId} (h : hub.Reachable s)
    (hc : c ∈ s.clients) : s.sendClosed c = false := by
  obtain ⟨p, hp⟩ := (memberInv_of_reachable h).placed c
  have hmember : p = .member := hp.member.mp hc
  have hgone := hp.gone
  rw [hmember] at hgone
  simpa using hgone

/-- `Run` never gets to close a channel twice. -/
theorem sendClosed_of_closing {s : State} {c : ClientId} (h : hub.Reachable s)
    (hc : s.run.removing = some c) : s.sendClosed c = false := by
  obtain ⟨p, hp⟩ := (memberInv_of_reachable h).placed c
  have hleaving : p = .leaving := hp.leaving.mp hc
  have hgone := hp.gone
  rw [hleaving] at hgone
  simpa using hgone

/-- No run panics on a channel. -/
theorem panicked_of_reachable {s : State} (h : hub.Reachable s) : s.panicked = false := by
  refine h.invariant (P := fun s => s.panicked = false) rfl fun s l hr hi _ hen => ?_
  have hsend := sendInv_of_reachable hr.reachable
  cases l with
  | sendPanic g c m =>
    have hopen := sendClosed_of_mem hr.reachable (hsend.sender g c m hen.2.1)
    exact absurd hen.2.2 (by simp [hopen])
  | unregisterPanic c =>
    have hopen := sendClosed_of_closing (c := c) hr.reachable (by rw [hen.2.1]; rfl)
    exact absurd hen.2.2 (by simp [hopen])
  | broadcastPanic m visited c =>
    have hopen := sendClosed_of_mem hr.reachable (hsend.forward c (by rw [hen.2.1]; rfl))
    exact absurd hen.2.2 (by simp [hopen])
  | marshalMessage c offerString ok => cases ok <;> exact hi
  | onConnectionStateChange k c p => cases p <;> exact hi
  | write c m ok => cases ok <;> exact hi
  | _ => exact hi

/-! ## The lock's purpose -/

/-- Once `c.Send` is closed, and for the rest of the run, `c` is not in the map, no goroutine
is at a send on `c.Send`, `Run` does not get back to closing it, and nothing has panicked. -/
theorem closed_send_is_never_used {s t : State} {c : ClientId} (hs : hub.Reachable s)
    (hc : s.sendClosed c = true) (ht : hub.Path Lts.always s t) :
    c ∉ t.clients ∧ (∀ g m, t.sending g ≠ .send c m) ∧ t.run.forwarding ≠ some c ∧
      t.run.removing ≠ some c ∧ t.panicked = false := by
  have htr : hub.Reachable t := hs.trans ht
  have hgone := gone_path hs hc ht
  have hsend := sendInv_of_reachable htr
  have hout : c ∉ t.clients := fun hmem => by cases hgone.member.mp hmem
  refine ⟨hout, fun g m he => ?_, fun he => ?_, fun he => ?_, panicked_of_reachable htr⟩
  · exact hout (hsend.sender g c m he)
  · exact hout (hsend.forward c he)
  · cases hgone.leaving.mp he

/-- A viewer connects, up to the two callbacks. -/
def connectLabels (c : ClientId) : List Label :=
  [.connect c true, .goWriteLoop c, .register c, .setCallbacks c]

/-- `Run` takes `c` from `Register`, which makes it the `n`-th client. -/
def registerLabels (c : ClientId) (n : ℕ) : List Label :=
  [.takeRegister c, .registerLock c, .registerLocked c, .registerInsert c, .registerUnlock c,
    .infoRLock, .infoLen, .infoRUnlock ⟨n⟩, .goSendInfo ⟨n⟩]

/-- `Run` takes the member `c` from `Unregister` and removes it. -/
def unregisterLabels (c : ClientId) : List Label :=
  [.takeUnregister c, .unregisterRLock c, .unregisterTest c, .unregisterRUnlock c true,
    .unregisterLock c, .unregisterLocked c, .unregisterDelete c, .unregisterUnlock c,
    .unregisterCloseConn c, .unregisterCloseSend c]

/-- The handler prepares the offer and tests for membership. -/
def prepareLabels (c : ClientId) : List Label :=
  [.createOffer c true, .setLocalDescription c true, .marshalOffer c (some "sdp"),
    .marshalMessage c (some "sdp") true,
    .sendRLock (.handler c) c (offerMessage (some "sdp")),
    .sendTest (.handler c) c (offerMessage (some "sdp"))]

/-- Having found itself in the map, it hands the offer over. -/
def sendOfferLabels (c : ClientId) : List Label :=
  [.sendMessage (.handler c) c (offerMessage (some "sdp")),
    .write c (offerMessage (some "sdp")) true]

/-- It leaves the sending block and reaches `ReadLoop`. -/
def readLoopLabels (c : ClientId) : List Label :=
  [.sendRUnlock (.handler c) c, .offerSent c]

/-- A viewer that came and whose peer connection closed. -/
theorem closed_send_is_never_used_once : ∃ s, hub.Reachable s ∧ s.sendClosed 0 = true ∧
    (0 ∉ s.clients ∧ (∀ g m, s.sending g ≠ .send 0 m) ∧ s.run.forwarding ≠ some 0 ∧
      s.run.removing ≠ some 0 ∧ s.panicked = false) := by
  obtain ⟨s, hs, hc⟩ := hub.reachable_of_exec
    (connectLabels 0 ++ registerLabels 0 1 ++
      [.onConnectionStateChange 0 0 .closed, .callbackUnregister 0 0] ++ unregisterLabels 0)
    (fun s => s.sendClosed 0 = true) (by decide)
  exact ⟨s, hs, hc, closed_send_is_never_used hs hc Relation.ReflTransGen.refl⟩

end Lightspeed.Hub
