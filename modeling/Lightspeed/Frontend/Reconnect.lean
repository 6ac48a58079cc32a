import Lightspeed.Frontend.Socket

/-!
# The page reconnects

However a viewer's sockets have failed, the chain of sockets goes on: once no socket fails any more,
every order of the events that are still to come ends with the current socket open, on the address
of the configuration, with one more socket at most (`page_reconnects`). Only a page that has failed
to get its configuration stays without a socket for good: it never asks again.
-/

namespace Lightspeed.Frontend

/-- How many events there are to come until a socket is open, or else the one after it. -/
def WebSocket.toDo (socket : WebSocket) : ℕ :=
  match socket.readyState with
  | .opened => 0
  | .connecting => 1
  | .closing | .closed => if socket.closeDelivered then 2 else 3

namespace Provider

variable {w : Provider}

/-! ## The address -/

/-- Every socket is one to the address of the configuration. -/
def UrlInv (w : Provider) : Prop := ∀ k < w.created, (w.sockets k).url = w.state.url

theorem setReadyState_url (w : Provider) (k j : ℕ) (readyState : ReadyState) :
    ((w.setReadyState k readyState).sockets j).url = (w.sockets j).url := by
  by_cases hjk : j = k
  · rw [hjk, setReadyState_self]
  · rw [setReadyState_of_ne w hjk]

theorem deliverClose_url (w : Provider) (k j : ℕ) :
    ((w.deliverClose k).sockets j).url = (w.sockets j).url := by
  by_cases hjk : j = k
  · rw [hjk, deliverClose_self]
  · rw [deliverClose_of_ne w hjk]

theorem UrlInv.construct {v : Provider} {state : SocketState}
    (h : ∀ k < v.created, (v.sockets k).url = state.url) : UrlInv (v.construct state) := by
  intro k hk
  by_cases hnew : k = v.created
  · rw [hnew, construct_self]
    rfl
  · rw [construct_of_ne v hnew]
    exact h k (Nat.lt_of_le_of_ne (Nat.le_of_lt_succ hk) hnew)

theorem UrlInv.setReadyState (h : UrlInv w) (k : ℕ) (readyState : ReadyState) :
    UrlInv (w.setReadyState k readyState) := by
  intro j hj
  rw [setReadyState_url]
  exact h j hj

theorem UrlInv.next {l : Label} (h : UrlInv w) (hc : ChainInv w) (hg : Guard w l) :
    UrlInv (next w l) := by
  cases l with
  | initSocket url =>
    have hnone : w.created = 0 := hc.fetching hg
    refine UrlInv.construct fun k hk => ?_
    replace hk : k < w.created := hk
    omega
  | configFailed => exact h
  | opened k => exact h.setReadyState k .opened
  | closing k => exact h.setReadyState k .closing
  | ended k => exact h.setReadyState k .closed
  | error k =>
    show UrlInv (w.close k)
    unfold Provider.close
    cases (w.sockets k).readyState with
    | connecting | opened => exact h.setReadyState k .closing
    | closing | closed => exact h
  | close k =>
    intro j hj
    exact (deliverClose_url w k j).trans (h j hj)
  | timeout t =>
    rw [hc.onTimeout_eq hg]
    exact UrlInv.construct h

theorem urlInv_of_reachable (h : provider.Reachable w) : UrlInv w := by
  refine h.invariant (fun k hk => absurd hk (Nat.not_lt_zero k)) ?_
  intro w l hr hi _ hg
  exact hi.next (chainInv_of_reachable hr) hg

/-! ## What is still to come -/

/-- No socket fails any more, and those that have are reported closed. The configuration is fetched
if it was not yet. -/
def Recovers (w : Provider) : Label → Prop
  | .initSocket _ | .opened _ | .timeout _ => True
  | .close k => (w.sockets k).readyState = .closing ∨ (w.sockets k).readyState = .closed
  | .configFailed | .closing _ | .ended _ | .error _ => False

/-- The page has its configuration or can still get it. -/
def Configurable (w : Provider) : Prop := w.fetching = true ∨ w.state.socket ≠ none

/-- How many events there are to come until the current socket is open. -/
def toDo (w : Provider) : ℕ :=
  match w.state.socket with
  | none => 2
  | some k => (w.sockets k).toDo

/-- How many sockets there are then. -/
def needed (w : Provider) : ℕ := w.created + if 2 ≤ w.toDo then 1 else 0

theorem ChainInv.toDo_eq (h : ChainInv w) {k : ℕ} (hk : k + 1 = w.created) :
    w.toDo = (w.sockets k).toDo := by
  rw [Provider.toDo, (h.current k).mpr hk]

/-- A socket that is neither connecting nor open. -/
theorem toDo_of_failed {socket : WebSocket}
    (h : socket.readyState = .closing ∨ socket.readyState = .closed) :
    socket.toDo = if socket.closeDelivered then 2 else 3 := by
  unfold WebSocket.toDo
  rcases h with hstate | hstate <;> rw [hstate]

/-- A new socket is on its way to be open. -/
theorem toDo_construct (v : Provider) {state : SocketState} (h : state.socket = some v.created) :
    (v.construct state).toDo = 1 := by
  have hsocket : (v.construct state).state.socket = some v.created := h
  rw [toDo, hsocket]
  show ((v.construct state).sockets v.created).toDo = 1
  rw [construct_self]
  rfl

/-- Each of these events is one of those to come. -/
theorem toDo_next {l : Label} (hc : ChainInv w) (hok : Recovers w l) (hg : Guard w l) :
    (next w l).toDo + 1 = w.toDo ∧ (next w l).needed = w.needed := by
  -- it is enough to know the numbers before and after
  have count {m n : ℕ} (hafter : (next w l).toDo = m) (hbefore : w.toDo = n)
      (hcreated : (next w l).created + (if 2 ≤ m then 1 else 0) =
        w.created + if 2 ≤ n then 1 else 0) (hmn : m + 1 = n) :
      (next w l).toDo + 1 = w.toDo ∧ (next w l).needed = w.needed := by
    rw [needed, needed, hafter, hbefore]
    exact ⟨hmn, hcreated⟩
  cases l with
  | initSocket url =>
    have hbefore : w.toDo = 2 := by rw [toDo, hc.socket_eq_none hg]
    exact count (toDo_construct w.endFetch rfl) hbefore rfl rfl
  | configFailed => exact hok.elim
  | opened k =>
    obtain ⟨hk, hstate⟩ := hg
    have hopen : (w.sockets k).closeDelivered = false := by
      by_contra hdelivered
      rw [hc.closed k (by simpa using hdelivered)] at hstate
      cases hstate
    have hlast := hc.eq_of_open hk hopen
    have hbefore : w.toDo = 1 := by rw [hc.toDo_eq hlast, WebSocket.toDo, hstate]
    have hafter : (Provider.next w (.opened k)).toDo = 0 := by
      have hsocket : (Provider.next w (.opened k)).state.socket = some k := (hc.current k).mpr hlast
      rw [toDo, hsocket]
      show ((w.setReadyState k .opened).sockets k).toDo = 0
      rw [setReadyState_self]
      rfl
    exact count hafter hbefore rfl rfl
  | close k =>
    obtain ⟨hk, hopen⟩ := hg
    have hlast := hc.eq_of_open hk hopen
    have hbefore : w.toDo = 3 := by
      rw [hc.toDo_eq hlast, toDo_of_failed hok, hopen]
      rfl
    have hafter : (Provider.next w (.close k)).toDo = 2 := by
      have hsocket : (Provider.next w (.close k)).state.socket = some k := (hc.current k).mpr hlast
      rw [toDo, hsocket]
      show ((w.deliverClose k).sockets k).toDo = 2
      rw [deliverClose_self]
      rfl
    exact count hafter hbefore rfl rfl
  | timeout t =>
    obtain ⟨-, k, hlast, hdelivered⟩ := (hc.pending t).mp hg
    have hbefore : w.toDo = 2 := by
      rw [hc.toDo_eq hlast, toDo_of_failed (.inr (hc.closed k hdelivered)), hdelivered]
      rfl
    have hstep := hc.onTimeout_eq hg
    have hafter : (Provider.next w (.timeout t)).toDo = 1 := by
      rw [hstep]
      exact toDo_construct (w.endTimer t) rfl
    exact count hafter hbefore (by rw [hstep]; rfl) rfl
  | closing k => exact hok.elim
  | ended k => exact hok.elim
  | error k => exact hok.elim

theorem Configurable.next {l : Label} (h : Configurable w) (hc : ChainInv w) (hok : Recovers w l)
    (hg : Guard w l) : Configurable (next w l) := by
  cases l with
  | initSocket url => exact .inr (Option.some_ne_none _)
  | configFailed | closing k | ended k | error k => exact hok.elim
  | opened k | close k => exact h
  | timeout t =>
    rw [hc.onTimeout_eq hg]
    exact .inr (Option.some_ne_none _)

/-! ## Main theorem -/

/-- The current socket is open, on the address of the configuration. -/
def Connected (w : Provider) : Prop :=
  ∃ k, w.state.socket = some k ∧ (w.sockets k).readyState = .opened ∧
    (w.sockets k).url = w.state.url

/-- Until then there is an event to come. -/
theorem progress (hc : ChainInv w) (hurl : UrlInv w) (hconfig : Configurable w) :
    Connected w ∨ ∃ l, Recovers w l ∧ Guard w l := by
  cases hsocket : w.state.socket with
  | none => exact .inr ⟨.initSocket "", trivial, hconfig.resolve_right (not_not_intro hsocket)⟩
  | some k =>
    have hlast := (hc.current k).mp hsocket
    have hk : k < w.created := by omega
    -- what has failed is reported, and its timer runs out
    have failed (hstate : (w.sockets k).readyState = .closing ∨
        (w.sockets k).readyState = .closed) : ∃ l, Recovers w l ∧ Guard w l := by
      cases hdelivered : (w.sockets k).closeDelivered with
      | false => exact ⟨.close k, hstate, hk, hdelivered⟩
      | true =>
        have harmed := hc.armed k hdelivered
        have hpending : (w.timers (w.armed - 1)).pending = true :=
          (hc.pending _).mpr ⟨by omega, k, hlast, hdelivered⟩
        exact ⟨.timeout (w.armed - 1), trivial, hpending⟩
    cases hstate : (w.sockets k).readyState with
    | connecting => exact .inr ⟨.opened k, trivial, hk, hstate⟩
    | opened => exact .inl ⟨k, hsocket, hstate, hurl k hk⟩
    | closing => exact .inr (failed (.inl hstate))
    | closed => exact .inr (failed (.inr hstate))

/-- **The page reconnects.** From every state that the page can be in, whatever has failed, save
that it was refused its configuration: if no socket fails any more, and the configuration is fetched
if it was not yet, every order of the events that are still to come ends with the current socket
open, on the address of the configuration. There is one more socket by then at most. -/
theorem page_reconnects (h : provider.Reachable w) (hconfig : Configurable w) :
    provider.Inevitably Recovers (fun v => Connected v ∧ v.created ≤ w.created + 1) w := by
  refine Lts.inevitably_of_invariant
    (I := fun v => provider.Reachable v ∧ Configurable v ∧ v.needed = w.needed) toDo ?_ ?_ ?_
    ⟨h, hconfig, rfl⟩
  · rintro v l ⟨hv, hconfig, hneeded⟩ hok hg
    have hchain := chainInv_of_reachable hv
    exact ⟨hv.next trivial hg, hconfig.next hchain hok hg,
      (toDo_next hchain hok hg).2.trans hneeded⟩
  · rintro v l ⟨hv, -⟩ hok hg
    have hcount := toDo_next (chainInv_of_reachable hv) hok hg
    exact Nat.lt_of_succ_le (Nat.le_of_eq hcount.1)
  · rintro v ⟨hv, hconfig, hneeded⟩
    rcases progress (chainInv_of_reachable hv) (urlInv_of_reachable hv) hconfig with
      hconnected | hmore
    · refine .inl ⟨hconnected, ?_⟩
      unfold needed at hneeded
      split at hneeded <;> split at hneeded <;> omega
    · exact .inr hmore

/-- The second socket breaks, and a third one opens. -/
theorem page_reconnects_again : ∃ w v : Provider, w.created = 2 ∧
    (w.sockets 1).readyState = .closing ∧ provider.Path Recovers w v ∧ Connected v := by
  obtain ⟨w, hw, hcreated, hstate, hsocket⟩ := provider.reachable_of_exec
    [.initSocket "wss://stream", .ended 0, .error 0, .close 0, .timeout 0, .opened 1, .error 1]
    (fun w => w.created = 2 ∧ (w.sockets 1).readyState = .closing ∧ w.state.socket = some 1)
    (by decide)
  have hconfig : Configurable w := .inr (by simp [hsocket])
  obtain ⟨v, hpath, hconnected, -⟩ := (page_reconnects hw hconfig).exists_path
  exact ⟨w, v, hcreated, hstate, hpath, hconnected⟩

end Provider

end Lightspeed.Frontend
