import Lightspeed.Hub.Locking

/-!
# The life of a client

Abstractly a client passes through six phases, one after the other and never back: its
handler has not registered it yet, it waits in `Register`, `Run` has taken it, it is in
`Clients`, `Run` has deleted it, its `Send` channel is closed. `Placed` ties a phase to the
concrete state; every step keeps the phase of every client or moves one client to its next
phase (`MemberInv.next`). What the hub promises about membership follows: a client whose
channel is closed is not in the map and does not come back.
-/

namespace Lightspeed.Hub

inductive Phase
  | fresh
  | queued
  | taken
  | member
  | leaving
  | gone
deriving DecidableEq

def Phase.rank : Phase → ℕ
  | .fresh => 0
  | .queued => 1
  | .taken => 2
  | .member => 3
  | .leaving => 4
  | .gone => 5

/-- The handler is past `hub.Register <- c`. -/
def HandlerPC.registered : HandlerPC → Bool
  | .connecting | .failed | .goWriteLoop | .register => false
  | _ => true

/-- The client `Run` has received from `Register` and not inserted yet. -/
def RunPC.inserting : RunPC → Option ClientId
  | .registerLock c | .registerLocking c | .registerInsert c => some c
  | _ => none

/-- The client whose membership `Run` has tested and which it is about to delete. -/
def RunPC.evicting : RunPC → Option ClientId
  | .unregisterRUnlock c true | .unregisterLock c | .unregisterLocking c
  | .unregisterDelete c => some c
  | _ => none

/-- The client `Run` has deleted and whose channel it has not closed yet. -/
def RunPC.removing : RunPC → Option ClientId
  | .unregisterUnlock c | .unregisterCloseConn c | .unregisterCloseSend c => some c
  | _ => none

/-- Client `c` is in phase `p`: exactly one of six conditions on the state holds. -/
structure Placed (s : State) (c : ClientId) (p : Phase) : Prop where
  fresh : (s.handler c).registered = false ↔ p = .fresh
  queued : c ∈ s.register ↔ p = .queued
  taken : s.run.inserting = some c ↔ p = .taken
  member : c ∈ s.clients ↔ p = .member
  leaving : s.run.removing = some c ↔ p = .leaving
  gone : s.sendClosed c = true ↔ p = .gone

/-- A step that touches none of the six conditions keeps the phase. -/
theorem Placed.congr {s t : State} {c : ClientId} {p : Phase} (h : Placed s c p)
    (hreg : (t.handler c).registered = (s.handler c).registered)
    (hqueue : c ∈ t.register ↔ c ∈ s.register) (hins : t.run.inserting = s.run.inserting)
    (hcl : c ∈ t.clients ↔ c ∈ s.clients) (hrem : t.run.removing = s.run.removing)
    (hclosed : t.sendClosed c = s.sendClosed c) : Placed t c p :=
  ⟨hreg ▸ h.fresh, hqueue.trans h.queued, hins ▸ h.taken, hcl.trans h.member,
    hrem ▸ h.leaving, hclosed ▸ h.gone⟩

theorem registered_update {handler : ClientId → HandlerPC} {c : ClientId} {pc : HandlerPC}
    (h : pc.registered = (handler c).registered) (c' : ClientId) :
    (Function.update handler c pc c').registered = (handler c').registered := by
  rw [Function.update_apply]
  split
  · next he => rw [he, h]
  · rfl

/-- Phase `q` is phase `p` or the one after it. -/
def Phase.Advances (p q : Phase) : Prop := q = p ∨ q.rank = p.rank + 1

structure MemberInv (s : State) : Prop where
  placed : ∀ c, ∃ p, Placed s c p
  evicting : ∀ c, s.run.evicting = some c → c ∈ s.clients
  capacity : s.register.length ≤ chanCap

theorem memberInv_init : MemberInv init :=
  ⟨fun _ => ⟨.fresh, by constructor <;> simp [init, HandlerPC.registered, RunPC.inserting,
    RunPC.removing]⟩, (fun _ h => by cases h), Nat.zero_le _⟩

/-- `hub.Register <- c` -/
theorem Placed.register {s : State} {c c' : ClientId} {p : Phase} (h : Placed s c' p)
    (hg : s.handler c = .register) :
    ∃ q, Placed (next s (.register c)) c' q ∧ p.Advances q := by
  by_cases hc : c' = c
  · subst hc
    have hp : p = .fresh := h.fresh.mp (by rw [hg]; rfl)
    subst hp
    refine ⟨.queued, ⟨?_, ?_, ?_, ?_, ?_, ?_⟩, .inr rfl⟩
    · simp [next, State.setHandler, HandlerPC.registered]
    · simp [next]
    · simpa [next, State.setHandler] using h.taken
    · simpa [next, State.setHandler] using h.member
    · simpa [next, State.setHandler] using h.leaving
    · simpa [next, State.setHandler] using h.gone
  · refine ⟨p, h.congr ?_ ?_ rfl Iff.rfl rfl rfl, .inl rfl⟩
    · simp [next, State.setHandler, Function.update_of_ne hc]
    · simp [next, hc]

/-- `client := <-h.Register` -/
theorem Placed.takeRegister {s : State} {c c' : ClientId} {p : Phase} (h : Placed s c' p)
    (hrun : s.run = .select) (hq : s.register = [c]) :
    ∃ q, Placed (next s (.takeRegister c)) c' q ∧ p.Advances q := by
  by_cases hc : c' = c
  · subst hc
    have hp : p = .queued := h.queued.mp (by rw [hq]; simp)
    subst hp
    refine ⟨.taken, ⟨?_, ?_, ?_, ?_, ?_, ?_⟩, .inr rfl⟩
    · simpa [next] using h.fresh
    · simp [next, hq]
    · simp [next, RunPC.inserting]
    · simpa [next] using h.member
    · simp [next, RunPC.removing]
    · simpa [next] using h.gone
  · have hins : (next s (.takeRegister c)).run.inserting = some c' ↔ s.run.inserting = some c' := by
      rw [hrun]; simp [next, RunPC.inserting, Ne.symm hc]
    refine ⟨p, ⟨h.fresh, ?_, hins.trans h.taken, h.member, ?_, h.gone⟩, .inl rfl⟩
    · refine Iff.trans ?_ h.queued
      simp [next, hq, hc]
    · refine Iff.trans ?_ h.leaving
      rw [hrun]; rfl

/-- `h.Clients[client] = struct{}{}` -/
theorem Placed.registerInsert {s : State} {c c' : ClientId} {p : Phase} (h : Placed s c' p)
    (hrun : s.run = .registerInsert c) :
    ∃ q, Placed (next s (.registerInsert c)) c' q ∧ p.Advances q := by
  by_cases hc : c' = c
  · subst hc
    have hp : p = .taken := h.taken.mp (by rw [hrun]; rfl)
    subst hp
    refine ⟨.member, ⟨?_, ?_, ?_, ?_, ?_, ?_⟩, .inr rfl⟩
    · simpa [next] using h.fresh
    · simpa [next] using h.queued
    · simp [next, RunPC.inserting]
    · simp [next]
    · simp [next, RunPC.removing]
    · simpa [next] using h.gone
  · refine ⟨p, ⟨h.fresh, h.queued, ?_, ?_, ?_, h.gone⟩, .inl rfl⟩
    · refine Iff.trans ?_ h.taken
      rw [hrun]; simp [next, RunPC.inserting, Ne.symm hc]
    · refine Iff.trans ?_ h.member
      simp [next, hc]
    · refine Iff.trans ?_ h.leaving
      rw [hrun]; rfl

/-- `delete(h.Clients, client)` -/
theorem Placed.unregisterDelete {s : State} {c c' : ClientId} {p : Phase} (h : Placed s c' p)
    (hrun : s.run = .unregisterDelete c) (hmem : c ∈ s.clients) :
    ∃ q, Placed (next s (.unregisterDelete c)) c' q ∧ p.Advances q := by
  by_cases hc : c' = c
  · subst hc
    have hp : p = .member := h.member.mp hmem
    subst hp
    refine ⟨.leaving, ⟨?_, ?_, ?_, ?_, ?_, ?_⟩, .inr rfl⟩
    · simpa [next] using h.fresh
    · simpa [next] using h.queued
    · simp [next, RunPC.inserting]
    · simp [next]
    · simp [next, RunPC.removing]
    · simpa [next] using h.gone
  · refine ⟨p, ⟨h.fresh, h.queued, ?_, ?_, ?_, h.gone⟩, .inl rfl⟩
    · refine Iff.trans ?_ h.taken
      rw [hrun]; rfl
    · refine Iff.trans ?_ h.member
      simp [next, hc]
    · refine Iff.trans ?_ h.leaving
      rw [hrun]; simp [next, RunPC.removing, Ne.symm hc]

/-- `close(client.Send)` -/
theorem Placed.unregisterCloseSend {s : State} {c c' : ClientId} {p : Phase} (h : Placed s c' p)
    (hrun : s.run = .unregisterCloseSend c) :
    ∃ q, Placed (next s (.unregisterCloseSend c)) c' q ∧ p.Advances q := by
  by_cases hc : c' = c
  · subst hc
    have hp : p = .leaving := h.leaving.mp (by rw [hrun]; rfl)
    subst hp
    refine ⟨.gone, ⟨?_, ?_, ?_, ?_, ?_, ?_⟩, .inr rfl⟩
    · simpa [next] using h.fresh
    · simpa [next] using h.queued
    · simp [next, RunPC.inserting]
    · simpa [next] using h.member
    · simp [next, RunPC.removing]
    · simp [next]
  · refine ⟨p, ⟨h.fresh, h.queued, ?_, h.member, ?_, ?_⟩, .inl rfl⟩
    · refine Iff.trans ?_ h.taken
      rw [hrun]; rfl
    · refine Iff.trans ?_ h.leaving
      rw [hrun]; simp [next, RunPC.removing, Ne.symm hc]
    · refine Iff.trans ?_ h.gone
      simp [next, hc]

/-- Every step keeps a client's phase or advances it by one. -/
theorem Placed.next {s : State} {l : Label} {c : ClientId} {p : Phase} (h : Placed s c p)
    (hi : MemberInv s) (hen : Enabled s l) :
    ∃ q, Placed (next s l) c q ∧ p.Advances q := by
  obtain ⟨-, hg⟩ := hen
  -- what all steps but five have in common: they change none of the six conditions
  have stay : ∀ {t : State}, (t.handler c).registered = (s.handler c).registered →
      t.register = s.register → t.run.inserting = s.run.inserting → t.clients = s.clients →
      t.run.removing = s.run.removing → t.sendClosed c = s.sendClosed c →
      ∃ q, Placed t c q ∧ p.Advances q := fun h1 h2 h3 h4 h5 h6 =>
    ⟨p, h.congr h1 (by rw [h2]) h3 (by rw [h4]) h5 h6, .inl rfl⟩
  have handler : ∀ {c' : ClientId} {pc : HandlerPC} {t : State},
      pc.registered = (s.handler c').registered →
      t.handler = Function.update s.handler c' pc → t.register = s.register → t.run = s.run →
      t.clients = s.clients → t.sendClosed = s.sendClosed → ∃ q, Placed t c q ∧ p.Advances q :=
    fun h1 h2 h3 h4 h5 h6 => stay (by rw [h2]; exact registered_update h1 c) h3 (by rw [h4]) h5
      (by rw [h4]) (by rw [h6])
  have run : ∀ {pc pc' : RunPC} {t : State}, s.run = pc → t.run = pc' →
      pc'.inserting = pc.inserting → pc'.removing = pc.removing → t.handler = s.handler →
      t.register = s.register → t.clients = s.clients → t.sendClosed = s.sendClosed →
      ∃ q, Placed t c q ∧ p.Advances q :=
    fun h1 h2 h3 h4 h5 h6 h7 h8 => stay (by rw [h5]) h6 (by rw [h1, h2, h3]) h7
      (by rw [h1, h2, h4]) (by rw [h8])
  cases l with
  | connect c' ok =>
    rw [Guard] at hg
    exact handler (by rw [hg]; cases ok <;> rfl) rfl rfl rfl rfl rfl
  | goWriteLoop c' =>
    rw [Guard] at hg
    exact handler (by rw [hg]; rfl) rfl rfl rfl rfl rfl
  | register c' => exact h.register hg.1
  | setCallbacks c' =>
    rw [Guard] at hg
    exact handler (by rw [hg]; rfl) rfl rfl rfl rfl rfl
  | createOffer c' ok =>
    rw [Guard] at hg
    exact handler (by rw [hg]; rfl) rfl rfl rfl rfl rfl
  | setLocalDescription c' ok =>
    rw [Guard] at hg
    exact handler (by rw [hg]; rfl) rfl rfl rfl rfl rfl
  | marshalOffer c' offerString =>
    rw [Guard] at hg
    exact handler (by rw [hg]; rfl) rfl rfl rfl rfl rfl
  | marshalMessage c' offerString ok =>
    rw [Guard] at hg
    cases ok with
    | true => exact handler (by rw [hg]; rfl) rfl rfl rfl rfl rfl
    | false => exact handler (by rw [hg]; rfl) rfl rfl rfl rfl rfl
  | offerSent c' => exact handler (by rw [hg.1]; rfl) rfl rfl rfl rfl rfl
  | readLoopReturn c' =>
    rw [Guard] at hg
    exact handler (by rw [hg]; rfl) rfl rfl rfl rfl rfl
  | unregister c' => exact handler (by rw [hg.1]; rfl) rfl rfl rfl rfl rfl
  | closeConn c' =>
    rw [Guard] at hg
    exact handler (by rw [hg]; rfl) rfl rfl rfl rfl rfl
  | closePeerConnection c' =>
    rw [Guard] at hg
    exact handler (by rw [hg]; rfl) rfl rfl rfl rfl rfl
  | onConnectionStateChange k c' st => cases st <;> exact stay rfl rfl rfl rfl rfl rfl
  | write c' m ok => cases ok <;> exact stay rfl rfl rfl rfl rfl rfl
  | takeRegister c' =>
    refine h.takeRegister hg.1 ?_
    have hcap := hi.capacity
    rw [chanCap] at hcap
    obtain ⟨rest, hq⟩ := List.head?_eq_some_iff.mp hg.2
    rw [hq, List.length_cons] at hcap
    rw [hq, List.eq_nil_of_length_eq_zero (by omega : rest.length = 0)]
  | registerLock c' => exact run hg rfl rfl rfl rfl rfl rfl rfl
  | registerLocked c' => exact run hg.1 rfl rfl rfl rfl rfl rfl rfl
  | registerInsert c' => exact h.registerInsert hg
  | registerUnlock c' => exact run hg rfl rfl rfl rfl rfl rfl rfl
  | takeUnregister c' => exact run hg.1 rfl rfl rfl rfl rfl rfl rfl
  | unregisterRLock c' => exact run hg.1 rfl rfl rfl rfl rfl rfl rfl
  | unregisterTest c' => exact run hg rfl rfl rfl rfl rfl rfl rfl
  | unregisterRUnlock c' ok => cases ok <;> exact run hg rfl rfl rfl rfl rfl rfl rfl
  | unregisterLock c' => exact run hg rfl rfl rfl rfl rfl rfl rfl
  | unregisterLocked c' => exact run hg.1 rfl rfl rfl rfl rfl rfl rfl
  | unregisterDelete c' =>
    rw [Guard] at hg
    exact h.unregisterDelete hg (hi.evicting c' (by rw [hg]; rfl))
  | unregisterUnlock c' => exact run hg rfl rfl rfl rfl rfl rfl rfl
  | unregisterCloseConn c' => exact run hg rfl rfl rfl rfl rfl rfl rfl
  | unregisterCloseSend c' => exact h.unregisterCloseSend hg.1
  | infoRLock => exact run hg.1 rfl rfl rfl rfl rfl rfl rfl
  | infoLen => exact run hg rfl rfl rfl rfl rfl rfl rfl
  | infoRUnlock i => exact run hg rfl rfl rfl rfl rfl rfl rfl
  | goSendInfo i => exact run hg rfl rfl rfl rfl rfl rfl rfl
  | takeBroadcast k => exact run hg.1 rfl rfl rfl rfl rfl rfl rfl
  | broadcastRLock m => exact run hg.1 rfl rfl rfl rfl rfl rfl rfl
  | broadcastNext m visited c' => exact run hg.1 rfl rfl rfl rfl rfl rfl rfl
  | broadcastSend m visited c' => exact run hg.1 rfl rfl rfl rfl rfl rfl rfl
  | broadcastEnd m visited => exact run hg.1 rfl rfl rfl rfl rfl rfl rfl
  | broadcastRUnlock => exact run hg rfl rfl rfl rfl rfl rfl rfl
  | _ => exact stay rfl rfl rfl rfl rfl rfl

/-- The client `Run` is about to delete stays in the map: nobody else changes it. -/
theorem MemberInv.evicting_next {s : State} {l : Label} (h : MemberInv s) (hen : Enabled s l) :
    ∀ c, (next s l).run.evicting = some c → c ∈ (next s l).clients := by
  obtain ⟨-, hg⟩ := hen
  have keep : ∀ {pc pc' : RunPC}, s.run = pc → pc'.evicting = pc.evicting →
      ∀ c, pc'.evicting = some c → c ∈ s.clients :=
    fun h1 h2 c hc => h.evicting c (by rw [h1, ← h2, hc])
  cases l with
  | unregisterTest c =>
    intro c' hc'
    by_cases hmem : c ∈ s.clients
    · simp only [next, hmem, decide_true, RunPC.evicting, Option.some.injEq] at hc' ⊢
      rwa [← hc']
    · simp [next, hmem, RunPC.evicting] at hc'
  | unregisterRUnlock c ok =>
    cases ok with
    | true => exact keep hg rfl
    | false => intro c hc; cases hc
  | unregisterLock c => exact keep hg rfl
  | unregisterLocked c => exact keep hg.1 rfl
  | marshalMessage c offerString ok => cases ok <;> exact h.evicting
  | onConnectionStateChange k c p => cases p <;> exact h.evicting
  | write c m ok => cases ok <;> exact h.evicting
  | takeRegister | registerLock | registerLocked | registerInsert | registerUnlock
  | takeUnregister | unregisterRLock | unregisterDelete | unregisterUnlock
  | unregisterCloseConn | unregisterCloseSend | infoRLock | infoLen | infoRUnlock
  | goSendInfo | takeBroadcast | broadcastRLock | broadcastNext | broadcastSend
  | broadcastEnd | broadcastRUnlock => intro c hc; cases hc
  | _ => exact h.evicting

theorem MemberInv.capacity_next {s : State} {l : Label} (h : MemberInv s)
    (hen : Enabled s l) : (next s l).register.length ≤ chanCap := by
  have hcap := h.capacity
  cases l with
  | register c =>
    have hroom := hen.2.2
    simp only [next, List.length_append, List.length_singleton]
    omega
  | takeRegister c =>
    simp only [next, List.length_tail]
    omega
  | marshalMessage c offerString ok => cases ok <;> exact hcap
  | onConnectionStateChange k c p => cases p <;> exact hcap
  | write c m ok => cases ok <;> exact hcap
  | _ => exact hcap

theorem MemberInv.next {s : State} {l : Label} (h : MemberInv s) (hen : Enabled s l) :
    MemberInv (next s l) := by
  refine ⟨fun c => ?_, h.evicting_next hen, h.capacity_next hen⟩
  obtain ⟨p, hp⟩ := h.placed c
  obtain ⟨q, hq, -⟩ := hp.next h hen
  exact ⟨q, hq⟩

theorem memberInv_of_reachable {s : State} (h : hub.Reachable s) : MemberInv s :=
  h.invariant memberInv_init fun _ _ _ hi _ hen => hi.next hen

/-! ## Removed clients -/

/-- `Run` has deleted `c` from the map: its phase is `leaving` or `gone`. -/
def Removed (s : State) (c : ClientId) : Prop :=
  s.run.removing = some c ∨ s.sendClosed c = true

theorem not_removed_of_select {s : State} {c : ClientId} (hrun : s.run = .select)
    (hopen : s.sendClosed c = false) : ¬Removed s c := by
  rw [Removed, hrun, hopen]
  simp [RunPC.removing]

theorem Placed.removed_iff {s : State} {c : ClientId} {p : Phase} (h : Placed s c p) :
    Removed s c ↔ Phase.leaving.rank ≤ p.rank := by
  rw [Removed, h.leaving, h.gone]
  cases p <;> simp [Phase.rank]

theorem MemberInv.not_mem_of_removed {s : State} {c : ClientId} (h : MemberInv s)
    (hc : Removed s c) : c ∉ s.clients := by
  obtain ⟨p, hp⟩ := h.placed c
  intro hmem
  have hmember : p = .member := hp.member.mp hmem
  have hle := hp.removed_iff.mp hc
  rw [hmember] at hle
  simp [Phase.rank] at hle

/-- A registered client that is neither waiting nor taken nor in the map has been removed. -/
theorem MemberInv.removed_of_not_mem {s : State} {c : ClientId} (h : MemberInv s)
    (hreg : (s.handler c).registered = true) (hqueue : c ∉ s.register)
    (hins : s.run.inserting ≠ some c) (hc : c ∉ s.clients) : Removed s c := by
  obtain ⟨p, hp⟩ := h.placed c
  rw [hp.removed_iff]
  cases p with
  | fresh => rw [hp.fresh.mpr rfl] at hreg; cases hreg
  | queued => exact absurd (hp.queued.mpr rfl) hqueue
  | taken => exact absurd (hp.taken.mpr rfl) hins
  | member => exact absurd (hp.member.mpr rfl) hc
  | leaving => exact Nat.le_refl _
  | gone => simp [Phase.rank]

/-- A client is not put back. -/
theorem MemberInv.removed_next {s : State} {l : Label} {c : ClientId} (h : MemberInv s)
    (hc : Removed s c) (hen : Enabled s l) : Removed (Hub.next s l) c := by
  obtain ⟨p, hp⟩ := h.placed c
  obtain ⟨q, hq, hadv⟩ := hp.next h hen
  have hle := hp.removed_iff.mp hc
  rw [hq.removed_iff]
  rcases hadv with rfl | hadv
  · exact hle
  · omega

/-- The six phases are passed in order: along any run a client's phase only grows. -/
theorem Placed.path {s t : State} {c : ClientId} {p : Phase} (hs : hub.Reachable s)
    (hp : Placed s c p) (h : hub.Path Lts.always s t) :
    ∃ q, Placed t c q ∧ p.rank ≤ q.rank := by
  have hboth : hub.Reachable t ∧ ∃ q, Placed t c q ∧ p.rank ≤ q.rank := by
    refine h.invariant (P := fun t => hub.Reachable t ∧ ∃ q, Placed t c q ∧ p.rank ≤ q.rank)
      ⟨hs, p, hp, Nat.le_refl _⟩ ?_
    rintro u l ⟨hu, q, hq, hle⟩ - hen
    obtain ⟨r, hr, hadv⟩ := hq.next (memberInv_of_reachable hu) hen
    refine ⟨hu.next trivial hen, r, hr, ?_⟩
    rcases hadv with rfl | hadv
    · exact hle
    · omega
  exact hboth.2

/-- Once closed, always closed. -/
theorem gone_path {s t : State} {c : ClientId} (hs : hub.Reachable s)
    (hc : s.sendClosed c = true) (h : hub.Path Lts.always s t) : Placed t c .gone := by
  obtain ⟨p, hp⟩ := (memberInv_of_reachable hs).placed c
  have hgone : p = .gone := hp.gone.mp hc
  obtain ⟨q, hq, hle⟩ := hp.path hs h
  have : q = .gone := by
    rw [hgone] at hle
    cases q <;> simp_all [Phase.rank]
  exact this ▸ hq

end Lightspeed.Hub
