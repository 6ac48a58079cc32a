import Mathlib.Logic.Function.Basic
import Lightspeed.Transition

/-!
# The viewer's sockets

`SocketProvider` of `frontend/src/context/SocketContext.jsx` with the browser around it. Sockets
are created inside the reducer. The effect on `[socket]` gives a new socket its handlers, and the
handlers are closures: the `wsTimeoutDuration` they read is that of the render that introduced the
socket. Every event of the browser runs with all it dispatches before the next one.

Nothing ever cancels a timer. That there is one chain of sockets all the same (`ChainInv`) rests on
each socket delivering one `close`, which arms one timer, which makes one socket.
-/

namespace Lightspeed.Frontend

/-! ## The reducer -/

structure SocketState where
  url : String
  socket : Option ℕ
  wsTimeoutDuration : ℕ
  connectTimeout : Option ℕ
deriving DecidableEq

def initialState : SocketState where
  url := ""
  socket := none
  wsTimeoutDuration := 250
  connectTimeout := none

inductive Action
  | initSocket (url : String)
  | renewSocket
  | updateTimeout (timeout : ℕ)
  | clearTimeout
  | resetTimeoutDuration
  /-- `"resetTimeout"`, which falls to the default of the reducer. -/
  | resetTimeout
deriving DecidableEq

/-- `socketReducer`, with what `new WebSocket` gives if it is called. -/
def socketReducer (state : SocketState) (socket : ℕ) : Action → SocketState
  | .initSocket url => { state with socket := some socket, url := url }
  | .renewSocket =>
    let timeout := state.wsTimeoutDuration * 2
    let timeout := if timeout > 10000 then 10000 else timeout
    { state with socket := some socket, wsTimeoutDuration := timeout }
  | .updateTimeout timeout => { state with connectTimeout := some timeout }
  | .clearTimeout => state
  | .resetTimeoutDuration => { state with wsTimeoutDuration := 250 }
  | .resetTimeout => state

/-! ## The browser -/

inductive ReadyState
  | connecting
  | opened
  | closing
  | closed
deriving DecidableEq

structure WebSocket where
  url : String
  readyState : ReadyState
  /-- The `close` event has been delivered. -/
  closeDelivered : Bool
  /-- What the closures of its handlers have captured. -/
  wsTimeoutDuration : ℕ
deriving DecidableEq

/-- A call of `setTimeout` in `onclose`. -/
structure Timer where
  /-- The `socket` its callback has captured. -/
  socket : ℕ
  delay : ℕ
  pending : Bool
deriving DecidableEq

/-- What the history records. -/
inductive SocketEvent
  | opened (k : ℕ)
  /-- With the delay of the timer that `onclose` arms. -/
  | closed (k : ℕ) (delay : ℕ)
deriving DecidableEq

structure Provider where
  /-- The effect of the first render is at `fetch("config.json")`. -/
  fetching : Bool
  state : SocketState
  sockets : ℕ → WebSocket
  /-- How many sockets were created. -/
  created : ℕ
  timers : ℕ → Timer
  /-- How many timers were armed. -/
  armed : ℕ
  log : List SocketEvent

namespace Provider

/-- After the first render. -/
def init : Provider where
  fetching := true
  state := initialState
  sockets := fun _ => ⟨"", .connecting, false, 0⟩
  created := 0
  timers := fun _ => ⟨0, 0, false⟩
  armed := 0
  log := []

variable (w : Provider)

/-- `new WebSocket`, the render with its result in `state`, and the effect for it. -/
def construct (state : SocketState) : Provider :=
  { w with
    state := state
    sockets := Function.update w.sockets w.created
      ⟨state.url, .connecting, false, state.wsTimeoutDuration⟩
    created := w.created + 1 }

/-- The effect of the first render goes on. -/
def endFetch : Provider := { w with fetching := false }

/-- A timer fires or is cleared. -/
def endTimer (t : ℕ) : Provider :=
  { w with timers := Function.update w.timers t { w.timers t with pending := false } }

/-- `dispatch`, and the render after it. -/
def dispatch (action : Action) : Provider :=
  let state := socketReducer w.state w.created action
  match action with
  | .initSocket _ | .renewSocket => w.construct state
  | .clearTimeout =>
    match w.state.connectTimeout with
    | some t => { w.endTimer t with state := state }
    | none => { w with state := state }
  | .updateTimeout _ | .resetTimeoutDuration | .resetTimeout => { w with state := state }

def setReadyState (k : ℕ) (readyState : ReadyState) : Provider :=
  { w with sockets := Function.update w.sockets k { w.sockets k with readyState := readyState } }

/-- The browser delivers the `close` event. -/
def deliverClose (k : ℕ) : Provider :=
  { w with
    sockets := Function.update w.sockets k
      { w.sockets k with readyState := .closed, closeDelivered := true } }

/-- `socket.close()` -/
def close (k : ℕ) : Provider :=
  match (w.sockets k).readyState with
  | .connecting | .opened => w.setReadyState k .closing
  | .closing | .closed => w

/-- `socket.onopen` -/
def onopen : Provider := (w.dispatch .resetTimeout).dispatch .resetTimeoutDuration

/-- `setTimeout` in the handler of socket `k` -/
def setTimeout (k : ℕ) (delay : ℕ) : Provider :=
  { w with timers := Function.update w.timers w.armed ⟨k, delay, true⟩, armed := w.armed + 1 }

/-- `socket.onclose`: `wsTimeoutDuration` is the one the closure has captured. -/
def onclose (k : ℕ) : Provider :=
  (w.setTimeout k (w.sockets k).wsTimeoutDuration).dispatch (.updateTimeout w.armed)

/-- `socket.onerror` -/
def onerror (k : ℕ) : Provider := w.close k

/-- The callback of a timer. The socket of a handler is never null. -/
def onTimeout (t : ℕ) : Provider :=
  if (w.sockets (w.timers t).socket).readyState = .closed then w.dispatch .renewSocket else w

/-! ## Steps -/

inductive Label
  /-- The effect of the first render has fetched its configuration, with an address that
  `new WebSocket` accepts. -/
  | initSocket (url : String)
  /-- It has not, or there is no `wsUrl` in what it has fetched: it logs that and ends. -/
  | configFailed
  | opened (k : ℕ)
  /-- The connection begins to close, from outside the page. -/
  | closing (k : ℕ)
  /-- The connection is closed and its events are still to come. -/
  | ended (k : ℕ)
  | error (k : ℕ)
  | close (k : ℕ)
  | timeout (t : ℕ)
deriving DecidableEq

def Guard (w : Provider) : Label → Prop
  | .initSocket _ | .configFailed => w.fetching = true
  | .opened k => k < w.created ∧ (w.sockets k).readyState = .connecting
  | .closing k => k < w.created ∧
    ((w.sockets k).readyState = .connecting ∨ (w.sockets k).readyState = .opened)
  | .ended k => k < w.created
  | .error k => k < w.created
  | .close k => k < w.created ∧ (w.sockets k).closeDelivered = false
  | .timeout t => (w.timers t).pending = true

def next (w : Provider) : Label → Provider
  | .initSocket url => w.endFetch.dispatch (.initSocket url)
  | .configFailed => w.endFetch
  | .opened k =>
    { (w.setReadyState k .opened).onopen with log := w.log ++ [.opened k] }
  | .closing k => w.setReadyState k .closing
  | .ended k => w.setReadyState k .closed
  | .error k => w.onerror k
  | .close k =>
    { (w.deliverClose k).onclose k with
      log := w.log ++ [.closed k (w.sockets k).wsTimeoutDuration] }
  | .timeout t => (w.endTimer t).onTimeout t

end Provider

open Provider in
/-- The page and its connections. -/
def provider : Lts Provider Label := ⟨init, Guard, next⟩

namespace Provider

instance (w : Provider) : DecidablePred (Guard w) := fun l => by
  cases l <;> dsimp only [Guard] <;> infer_instance

instance (w : Provider) (l : Label) : Decidable (provider.Enabled w l) :=
  inferInstanceAs (Decidable (Guard w l))

/-! ## What the operations leave alone -/

section Frame

variable (w : Provider) {k j t u : ℕ} {readyState : ReadyState} {state : SocketState}

@[simp]
theorem setReadyState_self :
    (w.setReadyState k readyState).sockets k = { w.sockets k with readyState := readyState } :=
  Function.update_self ..

@[simp]
theorem setReadyState_of_ne (h : j ≠ k) :
    (w.setReadyState k readyState).sockets j = w.sockets j :=
  Function.update_of_ne h ..

@[simp]
theorem deliverClose_self :
    (w.deliverClose k).sockets k =
      { w.sockets k with readyState := .closed, closeDelivered := true } :=
  Function.update_self ..

@[simp]
theorem deliverClose_of_ne (h : j ≠ k) : (w.deliverClose k).sockets j = w.sockets j :=
  Function.update_of_ne h ..

@[simp]
theorem construct_self : (w.construct state).sockets w.created =
    ⟨state.url, .connecting, false, state.wsTimeoutDuration⟩ :=
  Function.update_self ..

@[simp]
theorem construct_of_ne (h : j ≠ w.created) : (w.construct state).sockets j = w.sockets j :=
  Function.update_of_ne h ..

@[simp]
theorem endTimer_self : (w.endTimer t).timers t = { w.timers t with pending := false } :=
  Function.update_self ..

@[simp]
theorem endTimer_of_ne (h : u ≠ t) : (w.endTimer t).timers u = w.timers u :=
  Function.update_of_ne h ..

@[simp]
theorem setTimeout_self {d : ℕ} : (w.setTimeout k d).timers w.armed = ⟨k, d, true⟩ :=
  Function.update_self ..

@[simp]
theorem setTimeout_of_ne {d : ℕ} (h : t ≠ w.armed) :
    (w.setTimeout k d).timers t = w.timers t :=
  Function.update_of_ne h ..

/-- Only the `close` event is one. -/
@[simp]
theorem setReadyState_closeDelivered :
    ((w.setReadyState k readyState).sockets j).closeDelivered = (w.sockets j).closeDelivered := by
  by_cases h : j = k
  · rw [h, setReadyState_self]
  · rw [setReadyState_of_ne w h]

@[simp]
theorem setReadyState_wsTimeoutDuration :
    ((w.setReadyState k readyState).sockets j).wsTimeoutDuration =
      (w.sockets j).wsTimeoutDuration := by
  by_cases h : j = k
  · rw [h, setReadyState_self]
  · rw [setReadyState_of_ne w h]

end Frame

/-! ## One chain -/

variable {w : Provider}

structure ChainInv (w : Provider) : Prop where
  /-- There is no socket before the address of one is known. -/
  fetching : w.fetching = true → w.created = 0
  current : ∀ k, w.state.socket = some k ↔ k + 1 = w.created
  older : ∀ k, k + 1 < w.created → (w.sockets k).closeDelivered = true
  closed : ∀ k, (w.sockets k).closeDelivered = true → (w.sockets k).readyState = .closed
  /-- The last timer is pending while the last socket has delivered its `close`; no other is. -/
  pending : ∀ t, (w.timers t).pending = true ↔
    t + 1 = w.armed ∧ ∃ k, k + 1 = w.created ∧ (w.sockets k).closeDelivered = true
  armed : ∀ k, (w.sockets k).closeDelivered = true → 0 < w.armed
  captured : ∀ t, (w.timers t).pending = true → (w.timers t).socket + 1 = w.created
  duration : 250 ≤ w.state.wsTimeoutDuration ∧ w.state.wsTimeoutDuration ≤ 10000

theorem chainInv_init : ChainInv init where
  fetching _ := rfl
  current k := by simp [init, initialState]
  older k h := by cases h
  closed k h := by cases h
  pending t := by simp [init]
  armed k h := by cases h
  captured t h := by cases h
  duration := by decide

/-- `readyState` may change as long as it stays `CLOSED` after the `close` event. -/
theorem ChainInv.setReadyState (h : ChainInv w) {k : ℕ} {readyState : ReadyState}
    (hk : (w.sockets k).closeDelivered = true → readyState = .closed) :
    ChainInv (w.setReadyState k readyState) where
  fetching := h.fetching
  current := h.current
  older j hj := by
    rw [setReadyState_closeDelivered]
    exact h.older j hj
  closed j hj := by
    rw [setReadyState_closeDelivered] at hj
    by_cases hjk : j = k
    · subst hjk
      rw [setReadyState_self]
      exact hk hj
    · rw [setReadyState_of_ne w hjk]
      exact h.closed j hj
  pending t := by
    simp only [setReadyState_closeDelivered]
    exact h.pending t
  armed j hj := by
    rw [setReadyState_closeDelivered] at hj
    exact h.armed j hj
  captured := h.captured
  duration := h.duration

theorem ChainInv.socket_eq_none (h : ChainInv w) (hbusy : w.fetching = true) :
    w.state.socket = none := by
  cases hsocket : w.state.socket with
  | none => rfl
  | some k =>
    have hlast := (h.current k).mp hsocket
    have hnone := h.fetching hbusy
    omega

/-- The `close` event comes from the current socket. -/
theorem ChainInv.eq_of_open (h : ChainInv w) {k : ℕ} (hk : k < w.created)
    (hopen : (w.sockets k).closeDelivered = false) : k + 1 = w.created := by
  by_contra hne
  rw [h.older k (by omega)] at hopen
  cases hopen

/-- While the current socket is not closed, no timer is pending. -/
theorem ChainInv.not_pending (h : ChainInv w) {k : ℕ} (hk : k + 1 = w.created)
    (hopen : (w.sockets k).closeDelivered = false) (t : ℕ) :
    (w.timers t).pending = false := by
  by_contra hp
  obtain ⟨-, j, hj, hdelivered⟩ := (h.pending t).mp (by simpa using hp)
  obtain rfl : j = k := by omega
  rw [hopen] at hdelivered
  cases hdelivered

/-- A new socket, when the one before it is closed and its timer has ended. -/
theorem ChainInv.construct (h : ChainInv w) {v : Provider} {state : SocketState}
    (hfetching : v.fetching = false) (hsockets : v.sockets = w.sockets)
    (hcreated : v.created = w.created)
    (hsocket : state.socket = some v.created)
    (hduration : 250 ≤ state.wsTimeoutDuration ∧ state.wsTimeoutDuration ≤ 10000)
    (hlast : ∀ k, k + 1 = w.created → (w.sockets k).closeDelivered = true)
    (harmed : v.armed = w.armed) (htimers : ∀ t, (v.timers t).pending = false) :
    ChainInv (v.construct state) where
  fetching hbusy := by
    rw [show (v.construct state).fetching = v.fetching from rfl, hfetching] at hbusy
    cases hbusy
  current k := by
    show state.socket = some k ↔ k + 1 = v.created + 1
    rw [hsocket, Option.some.injEq]
    omega
  older k hk := by
    replace hk : k + 1 < v.created + 1 := hk
    rw [construct_of_ne v (by omega), hsockets]
    by_cases hend : k + 1 = w.created
    · exact hlast k hend
    · exact h.older k (by omega)
  closed k hk := by
    by_cases hkc : k = v.created
    · rw [hkc, construct_self] at hk
      cases hk
    · rw [construct_of_ne v hkc, hsockets] at hk ⊢
      exact h.closed k hk
  pending t := by
    show (v.timers t).pending = true ↔ _
    rw [htimers]
    refine iff_of_false Bool.false_ne_true ?_
    rintro ⟨-, k, hk, hdelivered⟩
    obtain rfl : k = v.created := Nat.succ.inj hk
    rw [construct_self] at hdelivered
    cases hdelivered
  armed k hk := by
    by_cases hkc : k = v.created
    · rw [hkc, construct_self] at hk
      cases hk
    · rw [construct_of_ne v hkc, hsockets] at hk
      show 0 < v.armed
      rw [harmed]
      exact h.armed k hk
  captured t ht := by
    replace ht : (v.timers t).pending = true := ht
    rw [htimers] at ht
    cases ht
  duration := hduration

/-- A `close` event arms the one timer. -/
theorem ChainInv.close_event (h : ChainInv w) {k : ℕ} (hk : k < w.created)
    (hopen : (w.sockets k).closeDelivered = false) : ChainInv (next w (.close k)) := by
  have hlast := h.eq_of_open hk hopen
  have hsockets : (Provider.next w (.close k)).sockets = (w.deliverClose k).sockets := rfl
  have htimers : (Provider.next w (.close k)).timers =
      ((w.deliverClose k).setTimeout k ((w.deliverClose k).sockets k).wsTimeoutDuration).timers :=
    rfl
  constructor
  · exact h.fetching
  · exact h.current
  · intro j hj
    replace hj : j + 1 < w.created := hj
    rw [hsockets, deliverClose_of_ne w (by omega)]
    exact h.older j hj
  · intro j hj
    rw [hsockets] at hj ⊢
    by_cases hjk : j = k
    · rw [hjk, deliverClose_self]
    · rw [deliverClose_of_ne w hjk] at hj ⊢
      exact h.closed j hj
  · intro t
    show _ ↔ t + 1 = w.armed + 1 ∧ ∃ j, j + 1 = w.created ∧ _
    rw [htimers]
    by_cases ht : t = w.armed
    · rw [ht]
      refine iff_of_true ?_ ⟨rfl, k, hlast, ?_⟩
      · exact congrArg Timer.pending (setTimeout_self (w.deliverClose k))
      · rw [hsockets, deliverClose_self]
    · rw [setTimeout_of_ne (w.deliverClose k) ht]
      refine iff_of_false ?_ ?_
      · show (w.timers t).pending ≠ true
        rw [h.not_pending hlast hopen t]
        exact Bool.false_ne_true
      · rintro ⟨hend, -⟩
        omega
  · exact fun _ _ => Nat.succ_pos w.armed
  · intro t ht
    rw [htimers] at ht ⊢
    by_cases hta : t = w.armed
    · rw [hta]
      have hnew := setTimeout_self (k := k) (w.deliverClose k)
        (d := ((w.deliverClose k).sockets k).wsTimeoutDuration)
      replace hnew := congrArg Timer.socket hnew
      exact (congrArg (· + 1) hnew).trans hlast
    · rw [setTimeout_of_ne (w.deliverClose k) hta] at ht
      replace ht : (w.timers t).pending = true := ht
      rw [h.not_pending hlast hopen t] at ht
      cases ht
  · exact h.duration

/-- The bounds of the reducer. -/
theorem renewed_duration {d : ℕ} (h : 250 ≤ d ∧ d ≤ 10000) :
    250 ≤ (if d * 2 > 10000 then 10000 else d * 2) ∧
      (if d * 2 > 10000 then 10000 else d * 2) ≤ 10000 := by
  split <;> omega

/-- The callback of a pending timer finds its socket closed. -/
theorem ChainInv.onTimeout_eq (h : ChainInv w) {t : ℕ} (ht : (w.timers t).pending = true) :
    next w (.timeout t) = (w.endTimer t).dispatch .renewSocket := by
  obtain ⟨-, k, hk, hdelivered⟩ := (h.pending t).mp ht
  have hsocket : (w.timers t).socket = k := by
    have hcaptured := h.captured t ht
    omega
  have hcallback : ((w.endTimer t).timers t).socket = k := by
    rw [endTimer_self]
    exact hsocket
  show (w.endTimer t).onTimeout t = _
  rw [onTimeout, hcallback]
  exact if_pos (h.closed k hdelivered)

theorem ChainInv.next {l : Label} (h : ChainInv w) (hen : Guard w l) : ChainInv (next w l) := by
  cases l with
  | initSocket url =>
    have hnone := h.fetching hen
    refine h.construct rfl rfl rfl rfl h.duration (fun k hk => by omega) rfl fun t => ?_
    show (w.timers t).pending = false
    by_contra hp
    obtain ⟨-, k, hk, -⟩ := (h.pending t).mp (by simpa using hp)
    omega
  | configFailed =>
    exact ⟨(fun hbusy => by cases hbusy), h.current, h.older, h.closed, h.pending, h.armed,
      h.captured, h.duration⟩
  | opened k =>
    have hopen : ChainInv (w.setReadyState k .opened) := by
      refine h.setReadyState fun hdelivered => ?_
      have hclosed := h.closed k hdelivered
      rw [hen.2] at hclosed
      cases hclosed
    have hreset : (250 : ℕ) ≤ 250 ∧ (250 : ℕ) ≤ 10000 := by decide
    exact ⟨hopen.fetching, hopen.current, hopen.older, hopen.closed, hopen.pending, hopen.armed,
      hopen.captured, hreset⟩
  | closing k =>
    refine h.setReadyState fun hdelivered => ?_
    have hclosed := h.closed k hdelivered
    rcases hen.2 with hstate | hstate
    · rw [hstate] at hclosed
      cases hclosed
    · rw [hstate] at hclosed
      cases hclosed
  | ended k => exact h.setReadyState fun _ => rfl
  | error k =>
    show ChainInv (w.close k)
    rw [Provider.close]
    cases hstate : (w.sockets k).readyState with
    | connecting | opened =>
      refine h.setReadyState fun hdelivered => ?_
      have hclosed := h.closed k hdelivered
      rw [hstate] at hclosed
      cases hclosed
    | closing | closed => exact h
  | close k => exact h.close_event hen.1 hen.2
  | timeout t =>
    rw [Guard] at hen
    obtain ⟨hend, k, hk, hdelivered⟩ := (h.pending t).mp hen
    rw [h.onTimeout_eq hen]
    have hfetched : w.fetching = false := by
      by_contra hbusy
      have hnone := h.fetching (by simpa using hbusy)
      omega
    refine h.construct hfetched rfl rfl rfl (renewed_duration h.duration) ?_ rfl fun u => ?_
    · intro j hj
      obtain rfl : j = k := by omega
      exact hdelivered
    · by_cases hut : u = t
      · rw [hut, endTimer_self]
      · rw [endTimer_of_ne w hut]
        by_contra hp
        have hother := ((h.pending u).mp (by simpa using hp)).1
        omega

theorem chainInv_of_reachable (h : provider.Reachable w) : ChainInv w :=
  h.invariant chainInv_init fun _ _ _ hi _ hen => hi.next hen

/-- **A single reconnect chain.** In every reachable state at most one timer is pending and at
most one socket is not `CLOSED`; a timer is pending exactly when the current socket has delivered
its `close` event; every older socket is `CLOSED`; and the duration stays between its bounds. -/
theorem single_reconnect_chain (h : provider.Reachable w) :
    (∀ t t', (w.timers t).pending = true → (w.timers t').pending = true → t = t') ∧
    (∀ k < w.created, ∀ k' < w.created, (w.sockets k).readyState ≠ .closed →
      (w.sockets k').readyState ≠ .closed → k = k') ∧
    ((∃ t, (w.timers t).pending = true) ↔
      ∃ k, w.state.socket = some k ∧ (w.sockets k).closeDelivered = true) ∧
    (∀ k < w.created, w.state.socket ≠ some k → (w.sockets k).readyState = .closed) ∧
    250 ≤ w.state.wsTimeoutDuration ∧ w.state.wsTimeoutDuration ≤ 10000 := by
  have hinv := chainInv_of_reachable h
  have hopen : ∀ k < w.created, (w.sockets k).readyState ≠ .closed → k + 1 = w.created := by
    intro k hk hstate
    refine hinv.eq_of_open hk ?_
    by_contra hdelivered
    exact hstate (hinv.closed k (by simpa using hdelivered))
  refine ⟨?_, ?_, ?_, ?_, hinv.duration⟩
  · intro t t' ht ht'
    have hend := ((hinv.pending t).mp ht).1
    have hend' := ((hinv.pending t').mp ht').1
    omega
  · intro k hk k' hk' hstate hstate'
    have hlast := hopen k hk hstate
    have hlast' := hopen k' hk' hstate'
    omega
  · constructor
    · rintro ⟨t, ht⟩
      obtain ⟨-, k, hk, hdelivered⟩ := (hinv.pending t).mp ht
      exact ⟨k, (hinv.current k).mpr hk, hdelivered⟩
    · rintro ⟨k, hk, hdelivered⟩
      have harmed := hinv.armed k hdelivered
      exact ⟨w.armed - 1, (hinv.pending _).mpr
        ⟨by omega, k, (hinv.current k).mp hk, hdelivered⟩⟩
  · intro k hk hcurrent
    by_contra hstate
    exact hcurrent ((hinv.current k).mpr (hopen k hk hstate))

/-- A socket that never opens, the one after it, and an error that closes that one. -/
theorem single_reconnect_chain_example : ∃ w : Provider, w.created = 2 ∧
    (w.sockets 1).closeDelivered = true ∧ ∃ t, (w.timers t).pending = true := by
  obtain ⟨w, hw, hcreated, hsocket, hdelivered⟩ := provider.reachable_of_exec
    [.initSocket "wss://stream", .ended 0, .error 0, .close 0, .timeout 0, .opened 1, .error 1,
      .close 1]
    (fun w => w.created = 2 ∧ w.state.socket = some 1 ∧ (w.sockets 1).closeDelivered = true)
    (by decide)
  exact ⟨w, hcreated, hdelivered,
    (single_reconnect_chain hw).2.2.1.mpr ⟨1, hsocket, hdelivered⟩⟩

end Provider

end Lightspeed.Frontend
