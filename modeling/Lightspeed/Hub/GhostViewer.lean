import Lightspeed.Hub.Sending

/-!
# Viewers that have left

A viewer's `Register` and `Unregister` travel on two channels, and `Run` drops the removal of
a client it does not know. A client whose removal overtakes its registration is inserted
afterwards and stays in the map after its handler has returned.

That is the only way. As long as the last removal of a client is not taken before its
registration (`TakesInOrder`), the client is on its way out of the map (`Departing`) from
the moment its handler sends its own removal.
-/

namespace Lightspeed.Hub

/-- The handler is past the deferred `c.hub.Unregister <- c` of `ReadLoop`. -/
def HandlerPC.departed : HandlerPC → Bool
  | .closeConn | .closePeerConnection | .returned => true
  | _ => false

/-- The client whose removal `Run` has taken up and not yet carried out. -/
def RunPC.unregistering : RunPC → Option ClientId
  | .unregisterRLock c | .unregisterTest c => some c
  | pc => pc.evicting

/-- A connection-state callback of `c` is under way to `hub.Unregister <- c`. -/
def CallbackPending (s : State) (c : ClientId) : Prop :=
  ∃ k, s.callback k = .closePeerConnection c ∨ s.callback k = .unregister c

/-- `c` is on its way out of the map, or has been taken out of it. -/
def Departing (s : State) (c : ClientId) : Prop :=
  c ∈ s.unregister ∨ CallbackPending s c ∨ (s.run.unregistering = some c ∧ c ∈ s.clients) ∨
    Removed s c

/-- Everything around `c` has come to rest: its handler has returned, no connection-state
callback of `c` is pending, `Run` is idle and neither channel holds `c`. -/
structure Quiet (s : State) (c : ClientId) : Prop where
  handler : s.handler c = .returned
  callback : ¬CallbackPending s c
  run : s.run = .select
  register : c ∉ s.register
  unregister : c ∉ s.unregister

/-- `Run` takes from `Unregister` no client that still waits in `Register`, unless another
removal of that client is still to come, from its handler or from a pending callback. -/
def TakesInOrder (s : State) : Label → Prop
  | .takeUnregister c =>
    c ∈ s.register → (s.handler c).departed = false ∨ CallbackPending s c
  | _ => True

/-- While `Run` works on the removal of a member, the removal goes on. -/
theorem unregistering_next {s : State} {l : Label} {c : ClientId}
    (hc : s.run.unregistering = some c) (hmem : c ∈ s.clients) (hen : Enabled s l) :
    ((next s l).run.unregistering = some c ∧ c ∈ (next s l).clients) ∨
      (next s l).run.removing = some c := by
  obtain ⟨-, hg⟩ := hen
  -- `Run` is elsewhere, so the step is not its
  have elsewhere : ∀ {pc : RunPC}, s.run = pc → pc.unregistering = none → False :=
    fun hrun hne => by rw [hrun, hne] at hc; cases hc
  -- `Run` moves on inside the removal
  have onward : ∀ {pc pc' : RunPC}, s.run = pc → pc'.unregistering = pc.unregistering →
      pc'.unregistering = some c := fun hrun he => by rw [he, ← hrun, hc]
  cases l with
  | marshalMessage c' offerString ok => cases ok <;> exact .inl ⟨hc, hmem⟩
  | onConnectionStateChange k c' p => cases p <;> exact .inl ⟨hc, hmem⟩
  | write c' m ok => cases ok <;> exact .inl ⟨hc, hmem⟩
  | unregisterRLock c' => exact .inl ⟨onward hg.1 rfl, hmem⟩
  | unregisterTest c' =>
    rw [Guard] at hg
    have hcc : c' = c := by simpa [hg, RunPC.unregistering] using hc
    refine .inl ⟨?_, hmem⟩
    simp [next, hcc, hmem, RunPC.unregistering, RunPC.evicting]
  | unregisterRUnlock c' ok =>
    rw [Guard] at hg
    cases ok with
    | true => exact .inl ⟨onward hg rfl, hmem⟩
    | false => exact (elsewhere hg rfl).elim
  | unregisterLock c' => exact .inl ⟨onward hg rfl, hmem⟩
  | unregisterLocked c' => exact .inl ⟨onward hg.1 rfl, hmem⟩
  | unregisterDelete c' =>
    rw [Guard] at hg
    have hcc : c' = c := by simpa [hg, RunPC.unregistering, RunPC.evicting] using hc
    exact .inr (by rw [hcc]; rfl)
  | takeRegister | registerLocked | takeUnregister | unregisterCloseSend | infoRLock
  | takeBroadcast | broadcastRLock | broadcastNext | broadcastSend | broadcastEnd =>
    exact (elsewhere hg.1 rfl).elim
  | registerLock | registerInsert | registerUnlock | unregisterUnlock | unregisterCloseConn
  | infoLen | infoRUnlock | goSendInfo | broadcastRUnlock => exact (elsewhere hg rfl).elim
  | _ => exact .inl ⟨hc, hmem⟩

/-- A client stays in `Unregister` until `Run` takes it. -/
theorem mem_unregister_next {s : State} {l : Label} {c : ClientId} (hc : c ∈ s.unregister)
    (hen : Enabled s l) : c ∈ (next s l).unregister ∨ l = .takeUnregister c := by
  cases l with
  | unregister c' => exact .inl (List.mem_append_left _ hc)
  | callbackUnregister k c' => exact .inl (List.mem_append_left _ hc)
  | takeUnregister c' =>
    obtain ⟨rest, hq⟩ := List.head?_eq_some_iff.mp hen.2.2
    rw [hq, List.mem_cons] at hc
    rcases hc with rfl | hc
    · exact .inr rfl
    · refine .inl ?_
      simpa [next, hq] using hc
  | marshalMessage c' offerString ok => cases ok <;> exact .inl hc
  | onConnectionStateChange k c' p => cases p <;> exact .inl hc
  | write c' m ok => cases ok <;> exact .inl hc
  | _ => exact .inl hc

/-- A pending callback sends its removal. -/
theorem callbackPending_next {s : State} {l : Label} {c : ClientId} (h : CallbackPending s c)
    (hen : Enabled s l) : CallbackPending (next s l) c ∨ c ∈ (next s l).unregister := by
  obtain ⟨-, hg⟩ := hen
  obtain ⟨k, hk⟩ := h
  -- a step of another callback leaves this one where it is
  have other : ∀ {k' : ℕ} {pc : CallbackPC} {t : State}, k' ≠ k →
      t.callback = Function.update s.callback k' pc → CallbackPending t c := fun hne ht =>
    ⟨k, by rw [ht, Function.update_of_ne hne.symm]; exact hk⟩
  cases l with
  | onConnectionStateChange k' c' p =>
    have hne : k' ≠ k := by
      rintro rfl
      rw [hg.1] at hk
      simp at hk
    cases p with
    | failed => exact .inl (other hne rfl)
    | closed => exact .inl (other hne rfl)
    | other => exact .inl ⟨k, hk⟩
  | callbackClose k' c' =>
    rw [Guard] at hg
    by_cases hkk : k' = k
    · subst hkk
      have hcc : c' = c := by simpa [hg] using hk
      exact .inl ⟨k', .inr (by simp [next, State.setCallback, hcc])⟩
    · exact .inl (other hkk rfl)
  | callbackUnregister k' c' =>
    by_cases hkk : k' = k
    · subst hkk
      have hcc : c' = c := by simpa [hg.1] using hk
      exact .inr (by simp [next, hcc])
    · exact .inl (other hkk rfl)
  | marshalMessage c' offerString ok => cases ok <;> exact .inl ⟨k, hk⟩
  | write c' m ok => cases ok <;> exact .inl ⟨k, hk⟩
  | _ => exact .inl ⟨k, hk⟩

theorem Departing.next {s : State} {l : Label} {c : ClientId} (hm : MemberInv s)
    (hc : (s.handler c).departed = true) (hreg : (s.handler c).registered = true)
    (hd : Departing s c) (hok : TakesInOrder s l) (hen : Enabled s l) :
    Departing (next s l) c := by
  rcases hd with hd | hd | ⟨hd, hmem⟩ | hd
  · rcases mem_unregister_next hd hen with hd' | rfl
    · exact .inl hd'
    by_cases hmem : c ∈ s.clients
    · exact .inr (.inr (.inl ⟨rfl, hmem⟩))
    by_cases hqueue : c ∈ s.register
    · -- overtaken, but not by the last removal
      rcases hok hqueue with hdep | hpend
      · rw [hc] at hdep
        cases hdep
      · exact .inr (.inl hpend)
    · -- not waiting, not in `Run`'s hands, not in the map: removed before
      have hins : s.run.inserting ≠ some c := by rw [hen.2.1]; simp [RunPC.inserting]
      exact .inr (.inr (.inr
        (hm.removed_next (hm.removed_of_not_mem hreg hqueue hins hmem) hen)))
  · rcases callbackPending_next hd hen with hd' | hd'
    · exact .inr (.inl hd')
    · exact .inl hd'
  · rcases unregistering_next hd hmem hen with hd' | hd'
    · exact .inr (.inr (.inl hd'))
    · exact .inr (.inr (.inr (.inl hd')))
  · exact .inr (.inr (.inr (hm.removed_next hd hen)))

/-- A handler past its deferred `Unregister` is one that has just sent it or was past it. -/
theorem departed_of_next {s : State} {l : Label} {c : ClientId} (hen : Enabled s l)
    (h : ((next s l).handler c).departed = true) :
    (s.handler c).departed = true ∨ l = .unregister c := by
  obtain ⟨-, hg⟩ := hen
  have update : ∀ {c' : ClientId} {pc : HandlerPC},
      (pc.departed = true → (s.handler c').departed = true) →
      (Function.update s.handler c' pc c).departed = true → (s.handler c).departed = true := by
    intro c' pc hpc hup
    rw [Function.update_apply] at hup
    split at hup
    · next hc => exact hc ▸ hpc hup
    · exact hup
  cases l with
  | connect c' ok => cases ok <;> exact .inl (update (fun he => by cases he) h)
  | goWriteLoop | register | setCallbacks | createOffer | setLocalDescription | marshalOffer
  | offerSent | readLoopReturn => exact .inl (update (fun he => by cases he) h)
  | marshalMessage c' offerString ok =>
    cases ok <;> exact .inl (update (fun he => by cases he) h)
  | unregister c' =>
    by_cases hc : c = c'
    · exact .inr (by rw [hc])
    · refine .inl ?_
      simpa [next, State.setHandler, Function.update_of_ne hc] using h
  | closeConn c' =>
    rw [Guard] at hg
    exact .inl (update (fun _ => by rw [hg]; rfl) h)
  | closePeerConnection c' =>
    rw [Guard] at hg
    exact .inl (update (fun _ => by rw [hg]; rfl) h)
  | onConnectionStateChange k c' p => cases p <;> exact .inl h
  | write c' m ok => cases ok <;> exact .inl h
  | _ => exact .inl h

theorem registered_of_departed {pc : HandlerPC} (h : pc.departed = true) :
    pc.registered = true := by
  cases pc <;> first | rfl | cases h

/-- Under `TakesInOrder`, a handler past its deferred `Unregister` has a departing client. -/
theorem departing_of_departed {s : State} (h : hub.ReachableWhen TakesInOrder s) {c : ClientId}
    (hc : (s.handler c).departed = true) : Departing s c := by
  refine h.invariant (P := fun s => ∀ c, (s.handler c).departed = true → Departing s c)
    (fun c hc => by cases hc) (fun s l hr hi hok hen c hc => ?_) c hc
  have hm := memberInv_of_reachable hr.reachable
  rcases departed_of_next hen hc with hd | rfl
  · exact (hi c hd).next hm hd (registered_of_departed hd) hok hen
  · exact .inl (List.mem_append_right _ (List.mem_singleton_self c))

/-- **No ghost viewer.** In every run in which the last removal of a client is not taken
before its registration, a client around which everything is at rest is not in the map. -/
theorem not_mem_of_quiet {s : State} {c : ClientId} (h : hub.ReachableWhen TakesInOrder s)
    (hq : Quiet s c) : c ∉ s.clients := by
  have hd := departing_of_departed h (by rw [hq.handler]; rfl)
  rcases hd with hd | hd | ⟨hd, -⟩ | hd
  · exact absurd hd hq.unregister
  · exact absurd hd hq.callback
  · rw [hq.run] at hd
    cases hd
  · exact (memberInv_of_reachable h.reachable).not_mem_of_removed hd

/-! ## A ghost -/

/-- At most the callback named 0 runs. -/
def onlyCallbackZero : Label → Bool
  | .onConnectionStateChange k _ _ | .callbackClose k _ | .callbackUnregister k _ =>
    decide (k = 0)
  | _ => true

theorem callback_idle {s : State} (h : hub.ReachableWhen (fun _ l => onlyCallbackZero l = true) s) :
    ∀ k, k ≠ 0 → s.callback k = .idle := by
  refine h.invariant (P := fun s => ∀ k, k ≠ 0 → s.callback k = .idle) (fun _ _ => rfl)
    fun s l _ hi hok _ k hk => ?_
  have update : ∀ {k' : ℕ} {pc : CallbackPC}, decide (k' = 0) = true →
      Function.update s.callback k' pc k = .idle := fun hk' => by
    rw [Function.update_of_ne (by rw [of_decide_eq_true hk']; exact hk), hi k hk]
  cases l with
  | onConnectionStateChange k' c p =>
    cases p with
    | failed => exact update hok
    | closed => exact update hok
    | other => exact hi k hk
  | callbackClose k' c => exact update hok
  | callbackUnregister k' c => exact update hok
  | marshalMessage c offerString ok => cases ok <;> exact hi k hk
  | write c m ok => cases ok <;> exact hi k hk
  | _ => exact hi k hk

/-- `ReadLoop` returns and unregisters. -/
def leaveLabels (c : ClientId) : List Label := [.readLoopReturn c, .unregister c]

/-- The handler returns, which closes the peer connection; its callback unregisters again. -/
def returnLabels (c : ClientId) : List Label :=
  [.closeConn c, .closePeerConnection c, .onConnectionStateChange 0 c .closed,
    .callbackUnregister 0 c]

/-- `Run` takes a client it does not know from `Unregister`. -/
def unknownLabels (c : ClientId) : List Label :=
  [.takeUnregister c, .unregisterRLock c, .unregisterTest c, .unregisterRUnlock c false]

/-- What `Quiet` asks, with the callbacks that have run. -/
theorem quiet_of_idle {s : State} {c : ClientId}
    (h : hub.ReachableWhen (fun _ l => onlyCallbackZero l = true) s)
    (hq : s.handler c = .returned ∧ s.callback 0 = .idle ∧ s.run = .select ∧ c ∉ s.register ∧
      c ∉ s.unregister) : Quiet s c := by
  obtain ⟨h1, h2, h3, h4, h5⟩ := hq
  refine ⟨h1, fun ⟨k, hk⟩ => ?_, h3, h4, h5⟩
  have hidle : s.callback k = .idle := by
    by_cases hk0 : k = 0
    · rw [hk0, h2]
    · exact callback_idle h k hk0
  simp [hidle] at hk

/-- No label takes a client from `Unregister` that waits in `Register`. -/
def neverOvertakes (s : State) : Label → Bool
  | .takeUnregister c => decide (c ∉ s.register)
  | _ => true

theorem takesInOrder_of_neverOvertakes {s : State} {l : Label}
    (h : neverOvertakes s l = true) : TakesInOrder s l := by
  cases l with
  | takeUnregister c => exact fun hc => absurd hc (of_decide_eq_true h)
  | _ => trivial

/-- A viewer that came and left, its events taken in order. -/
theorem not_mem_of_quiet_viewer : ∃ s, hub.ReachableWhen TakesInOrder s ∧ .insert 0 ∈ s.log ∧
    Quiet s 0 ∧ 0 ∉ s.clients := by
  obtain ⟨s, hs, hinserted, hq⟩ := hub.reachableWhen_of_exec
    (fun s l => TakesInOrder s l ∧ onlyCallbackZero l = true)
    (fun s l => neverOvertakes s l && onlyCallbackZero l)
    (fun _ _ h => ⟨takesInOrder_of_neverOvertakes (Bool.and_eq_true_iff.mp h).1,
      (Bool.and_eq_true_iff.mp h).2⟩)
    (connectLabels 0 ++ registerLabels 0 1 ++ prepareLabels 0 ++ sendOfferLabels 0 ++
      readLoopLabels 0 ++ leaveLabels 0 ++ unregisterLabels 0 ++
      [.infoRLock, .infoLen, .infoRUnlock ⟨0⟩, .goSendInfo ⟨0⟩] ++ returnLabels 0 ++
      unknownLabels 0)
    (fun s => .insert 0 ∈ s.log ∧ s.handler 0 = .returned ∧ s.callback 0 = .idle ∧
      s.run = .select ∧ 0 ∉ s.register ∧ 0 ∉ s.unregister) (by decide)
  have hquiet : Quiet s 0 := quiet_of_idle (hs.mono fun _ _ h => h.2) hq
  have horder : hub.ReachableWhen TakesInOrder s := hs.mono fun _ _ h => h.1
  exact ⟨s, horder, hinserted, hquiet, not_mem_of_quiet horder hquiet⟩

/-- A viewer that leaves while it still waits in `Register`: `Run` drops its removal, twice,
and inserts it afterwards. -/
theorem ghost_viewer : ¬∀ s c, hub.Reachable s → Quiet s c → c ∉ s.clients := by
  intro h
  obtain ⟨s, hs, hq, hmem⟩ := hub.reachableWhen_of_exec (fun _ l => onlyCallbackZero l = true)
    (fun _ l => onlyCallbackZero l) (fun _ _ h => h)
    (connectLabels 0 ++ prepareLabels 0 ++ readLoopLabels 0 ++ leaveLabels 0 ++
      unknownLabels 0 ++ returnLabels 0 ++ unknownLabels 0 ++ registerLabels 0 1)
    (fun s => (s.handler 0 = .returned ∧ s.callback 0 = .idle ∧ s.run = .select ∧
      0 ∉ s.register ∧ 0 ∉ s.unregister) ∧ 0 ∈ s.clients) (by decide)
  exact h s 0 hs.reachable (quiet_of_idle hs hq) hmem

end Lightspeed.Hub
