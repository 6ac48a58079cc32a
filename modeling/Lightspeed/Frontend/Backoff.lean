import Mathlib.Algebra.Order.Ring.Nat
import Mathlib.Data.List.DropRight
import Lightspeed.Frontend.Socket

/-!
# The reconnect delays

A `close` arms a timer with the duration its handler has captured when the socket was made. The
duration doubles with every new socket and is reset by an `open`, but the socket that opens keeps
what its handlers have captured. So after an `open` the delays are those of the schedule without
the reset, one doubling ahead: `delay_eq_backoff_iff` says when that does not show.
-/

namespace Lightspeed.Frontend.Provider

/-! ## The schedule -/

/-- The delay after `n` failures. -/
def backoff (n : ℕ) : ℕ := min (250 * 2 ^ n) 10000

def isOpened : SocketEvent → Bool
  | .opened _ => true
  | .closed _ _ => false

/-- What happened after the last `open`, or after the beginning. -/
def sinceOpen (log : List SocketEvent) : List SocketEvent := log.rtakeWhile fun e => !isOpened e

/-- How many sockets have closed since the last `open`. -/
def closes (log : List SocketEvent) : ℕ := (sinceOpen log).length

/-- The `close` of a socket that has never opened. -/
def failed (log : List SocketEvent) : SocketEvent → Bool
  | .opened _ => false
  | .closed k _ => decide (.opened k ∉ log)

/-- How many sockets that never opened have closed since the last `open`. -/
def failures (log : List SocketEvent) : ℕ := (sinceOpen log).countP (failed log)

theorem backoff_zero : backoff 0 = 250 := rfl

/-- What `renewSocket` makes of a duration of the schedule. -/
theorem backoff_succ (n : ℕ) :
    (if backoff n * 2 > 10000 then 10000 else backoff n * 2) = backoff (n + 1) := by
  rw [backoff, backoff, Nat.pow_succ]
  split <;> omega

theorem backoff_mono {m n : ℕ} (h : m ≤ n) : backoff m ≤ backoff n := by
  have hpow : 2 ^ m ≤ 2 ^ n := Nat.pow_le_pow_right (by decide) h
  rw [backoff, backoff]
  omega

/-- One doubling ahead shows until both delays are the longest one. -/
theorem backoff_succ_eq_iff (n : ℕ) : backoff (n + 1) = backoff n ↔ 6 ≤ n := by
  constructor
  · intro h
    by_contra hlt
    have hsmall : ∀ n < 6, backoff (n + 1) ≠ backoff n := by decide
    exact hsmall n (by omega) h
  · intro h
    have hlong : backoff 6 ≤ backoff n := backoff_mono h
    have hlong' : backoff 6 ≤ backoff (n + 1) := backoff_mono (by omega)
    have hsix : backoff 6 = 10000 := rfl
    have hle : backoff n ≤ 10000 := Nat.min_le_right _ _
    have hle' : backoff (n + 1) ≤ 10000 := Nat.min_le_right _ _
    omega

theorem closes_opened (log : List SocketEvent) (k : ℕ) : closes (log ++ [.opened k]) = 0 := by
  rw [closes, sinceOpen, List.rtakeWhile_concat_neg _ _ _ (by simp [isOpened])]
  rfl

theorem closes_closed (log : List SocketEvent) (k d : ℕ) :
    closes (log ++ [.closed k d]) = closes log + 1 := by
  rw [closes, sinceOpen, List.rtakeWhile_concat_pos _ _ _ rfl, List.length_append,
    List.length_singleton, closes, sinceOpen]

theorem failures_closed (log : List SocketEvent) (k d : ℕ) :
    failures (log ++ [.closed k d]) = failures log + if .opened k ∈ log then 0 else 1 := by
  have hfailed : failed (log ++ [.closed k d]) = failed log := by
    funext e
    cases e <;> simp [failed]
  rw [failures, hfailed, sinceOpen, List.rtakeWhile_concat_pos _ _ _ rfl, List.countP_append,
    List.countP_singleton, failures, sinceOpen]
  by_cases hk : .opened k ∈ log <;> simp [failed, hk]

theorem failures_le_closes (log : List SocketEvent) : failures log ≤ closes log :=
  List.countP_le_length

/-- As long as nothing opens, every `close` is a failure. -/
theorem failures_eq_closes {log : List SocketEvent} (h : ∀ k, .opened k ∉ log) :
    failures log = closes log := by
  rw [failures, closes, List.countP_eq_length]
  intro e he
  have hmem : e ∈ log := (List.rtakeWhile_suffix _ _).subset he
  cases e with
  | opened k => exact absurd hmem (h k)
  | closed k d => exact decide_eq_true (h k)

/-! ## Durations along a run -/

structure ScheduleInv (w : Provider) : Prop where
  start : w.created = 0 → w.log = [] ∧ w.state.wsTimeoutDuration = 250
  first : 0 < w.created → (w.sockets 0).wsTimeoutDuration = 250
  later : ∀ k < w.created, 0 < k → 500 ≤ (w.sockets k).wsTimeoutDuration
  opened_lt : ∀ k, .opened k ∈ w.log → k < w.created
  /-- The current socket is not closed. Once it has opened its handlers are behind. -/
  waiting : ∀ k, k + 1 = w.created → (w.sockets k).closeDelivered = false →
    w.state.wsTimeoutDuration = backoff (closes w.log) ∧
    (.opened k ∈ w.log → closes w.log = 0) ∧
    (.opened k ∉ w.log → (w.sockets k).wsTimeoutDuration = backoff (closes w.log) ∧
      ((∀ j, .opened j ∉ w.log) ∨ closes w.log = failures w.log + 1))
  /-- The current socket is closed and its timer pending. -/
  delivered : ∀ k, k + 1 = w.created → (w.sockets k).closeDelivered = true →
    ∃ n, closes w.log = n + 1 ∧ w.state.wsTimeoutDuration = backoff n ∧
      ((∀ j, .opened j ∉ w.log) ∨ failures w.log = n)

variable {w : Provider}

theorem scheduleInv_init : ScheduleInv init where
  start _ := ⟨rfl, rfl⟩
  first h := absurd h (Nat.lt_irrefl 0)
  later k h := absurd h (Nat.not_lt_zero k)
  opened_lt _ h := absurd h List.not_mem_nil
  waiting k h := absurd h (Nat.succ_ne_zero k)
  delivered k h := absurd h (Nat.succ_ne_zero k)

/-- Only the `readyState` of a socket changes. -/
theorem ScheduleInv.setReadyState (h : ScheduleInv w) (k : ℕ) (readyState : ReadyState) :
    ScheduleInv (w.setReadyState k readyState) where
  start := h.start
  first hpos := by
    rw [setReadyState_wsTimeoutDuration]
    exact h.first hpos
  later j hj hpos := by
    rw [setReadyState_wsTimeoutDuration]
    exact h.later j hj hpos
  opened_lt := h.opened_lt
  waiting j hj hopen := by
    rw [setReadyState_closeDelivered] at hopen
    rw [setReadyState_wsTimeoutDuration]
    exact h.waiting j hj hopen
  delivered j hj hdelivered := by
    rw [setReadyState_closeDelivered] at hdelivered
    exact h.delivered j hj hdelivered

/-- `onopen` -/
theorem ScheduleInv.opened (h : ScheduleInv w) (hc : ChainInv w) {k : ℕ} (hk : k < w.created)
    (hstate : (w.sockets k).readyState = .connecting) : ScheduleInv (next w (.opened k)) := by
  have hopen : (w.sockets k).closeDelivered = false := by
    by_contra hdelivered
    rw [hc.closed k (by simpa using hdelivered)] at hstate
    cases hstate
  have hlast := hc.eq_of_open hk hopen
  have hset := h.setReadyState k .opened
  constructor
  · intro hnone
    replace hnone : w.created = 0 := hnone
    omega
  · exact hset.first
  · exact hset.later
  · intro j hj
    replace hj : .opened j ∈ w.log ++ [.opened k] := hj
    rw [List.mem_append, List.mem_singleton] at hj
    rcases hj with hj | hj
    · exact h.opened_lt j hj
    · rw [SocketEvent.opened.inj hj]
      exact hk
  · intro j hj _
    replace hj : j + 1 = w.created := hj
    obtain rfl : j = k := by omega
    have hmem : SocketEvent.opened j ∈ w.log ++ [.opened j] := List.mem_concat_self
    have hlog : (Provider.next w (.opened j)).log = w.log ++ [.opened j] := rfl
    have hduration : (Provider.next w (.opened j)).state.wsTimeoutDuration = 250 := rfl
    rw [hlog, hduration, closes_opened]
    exact ⟨rfl, fun _ => rfl, fun hnot => absurd hmem hnot⟩
  · intro j hj hdelivered
    replace hj : j + 1 = w.created := hj
    replace hdelivered : ((w.setReadyState k .opened).sockets j).closeDelivered = true := hdelivered
    rw [setReadyState_closeDelivered] at hdelivered
    obtain rfl : j = k := by omega
    rw [hopen] at hdelivered
    cases hdelivered

/-- `onclose` -/
theorem ScheduleInv.close (h : ScheduleInv w) (hc : ChainInv w) {k : ℕ} (hk : k < w.created)
    (hopen : (w.sockets k).closeDelivered = false) : ScheduleInv (next w (.close k)) := by
  have hlast := hc.eq_of_open hk hopen
  have hlog : (Provider.next w (.close k)).log =
      w.log ++ [.closed k (w.sockets k).wsTimeoutDuration] := rfl
  have hsockets : (Provider.next w (.close k)).sockets = (w.deliverClose k).sockets := rfl
  have hcaptured : ∀ j, ((w.deliverClose k).sockets j).wsTimeoutDuration =
      (w.sockets j).wsTimeoutDuration := by
    intro j
    by_cases hjk : j = k
    · rw [hjk, deliverClose_self]
    · rw [deliverClose_of_ne w hjk]
  have hmem : ∀ j, .opened j ∈ (Provider.next w (.close k)).log ↔ .opened j ∈ w.log := by
    intro j
    rw [hlog]
    simp
  constructor
  · intro hnone
    replace hnone : w.created = 0 := hnone
    omega
  · intro hpos
    rw [hsockets, hcaptured]
    exact h.first hpos
  · intro j hj hpos
    rw [hsockets, hcaptured]
    exact h.later j hj hpos
  · intro j hj
    exact h.opened_lt j ((hmem j).mp hj)
  · intro j hj hdelivered
    replace hj : j + 1 = w.created := hj
    obtain rfl : j = k := by omega
    rw [hsockets, deliverClose_self] at hdelivered
    cases hdelivered
  · intro j _ _
    obtain ⟨hduration, hin, hout⟩ := h.waiting k hlast hopen
    refine ⟨closes w.log, ?_, hduration, ?_⟩
    · rw [hlog, closes_closed]
    · rw [hlog, failures_closed]
      by_cases hopened : .opened k ∈ w.log
      · have hzero := hin hopened
        have hle := failures_le_closes w.log
        rw [if_pos hopened]
        exact .inr (by omega)
      · rw [if_neg hopened]
        rcases (hout hopened).2 with hnone | hahead
        · left
          intro j hj
          exact hnone j ((hmem j).mp hj)
        · exact .inr hahead.symm

/-- `renewSocket` -/
theorem ScheduleInv.timeout (h : ScheduleInv w) (hc : ChainInv w) {t : ℕ}
    (ht : (w.timers t).pending = true) : ScheduleInv (next w (.timeout t)) := by
  obtain ⟨-, k, hk, hdelivered⟩ := (hc.pending t).mp ht
  obtain ⟨n, hcloses, hduration, hahead⟩ := h.delivered k hk hdelivered
  have hrenewed : (socketReducer w.state w.created .renewSocket).wsTimeoutDuration =
      backoff (n + 1) := by
    rw [← backoff_succ, ← hduration]
    rfl
  have hstep : Provider.next w (.timeout t) =
      (w.endTimer t).construct (socketReducer w.state w.created .renewSocket) := hc.onTimeout_eq ht
  have hself : (Provider.next w (.timeout t)).sockets w.created =
      ⟨w.state.url, .connecting, false, backoff (n + 1)⟩ := by
    rw [hstep, ← hrenewed]
    exact construct_self (w.endTimer t)
  have hold : ∀ j, j ≠ w.created → (Provider.next w (.timeout t)).sockets j = w.sockets j := by
    intro j hj
    rw [hstep]
    exact construct_of_ne (w.endTimer t) hj
  have hcreated : (Provider.next w (.timeout t)).created = w.created + 1 := by
    rw [hstep]
    rfl
  have hlog : (Provider.next w (.timeout t)).log = w.log := by
    rw [hstep]
    rfl
  have hstate : (Provider.next w (.timeout t)).state.wsTimeoutDuration = backoff (n + 1) := by
    rw [hstep]
    exact hrenewed
  constructor
  · intro hnone
    omega
  · intro _
    rw [hold 0 (by omega)]
    exact h.first (by omega)
  · intro j hj hpos
    by_cases hjc : j = w.created
    · rw [hjc, hself]
      exact backoff_mono (Nat.succ_le_succ (Nat.zero_le n))
    · rw [hold j hjc]
      exact h.later j (by omega) hpos
  · intro j hj
    rw [hlog] at hj
    have hlt := h.opened_lt j hj
    omega
  · intro j hj _
    obtain rfl : j = w.created := by omega
    have hnot : .opened w.created ∉ w.log := by
      intro hmem
      have hlt := h.opened_lt _ hmem
      omega
    rw [hlog, hself, hstate, hcloses]
    refine ⟨rfl, fun hmem => absurd hmem hnot, fun _ => ⟨rfl, ?_⟩⟩
    rcases hahead with hnone | hfailures
    · exact .inl hnone
    · exact .inr (by omega)
  · intro j hj hclosed
    obtain rfl : j = w.created := by omega
    rw [hself] at hclosed
    cases hclosed

/-- `initSocket` -/
theorem scheduleInv_initSocket (hnone : w.created = 0) (hlog : w.log = [])
    (hduration : w.state.wsTimeoutDuration = 250) (url : String) :
    ScheduleInv (next w (.initSocket url)) := by
  have hself : (Provider.next w (.initSocket url)).sockets 0 =
      ⟨url, .connecting, false, 250⟩ := by
    have hnew : (w.endFetch.construct (socketReducer w.state w.created (.initSocket url))).sockets
        w.created = ⟨url, .connecting, false, w.state.wsTimeoutDuration⟩ :=
      construct_self w.endFetch
    rw [hnone] at hnew
    rw [hduration] at hnew
    exact hnew
  have hcreated : (Provider.next w (.initSocket url)).created = 1 := congrArg (· + 1) hnone
  have hempty : (Provider.next w (.initSocket url)).log = [] := hlog
  constructor
  · intro hzero
    omega
  · intro _
    rw [hself]
  · intro j hj hpos
    omega
  · intro j hj
    rw [hempty] at hj
    exact absurd hj List.not_mem_nil
  · intro j hj _
    obtain rfl : j = 0 := by omega
    rw [hempty, hself]
    exact ⟨hduration, fun _ => rfl, fun _ => ⟨rfl, .inl fun _ => List.not_mem_nil⟩⟩
  · intro j hj hclosed
    obtain rfl : j = 0 := by omega
    rw [hself] at hclosed
    cases hclosed

theorem ScheduleInv.next {l : Label} (h : ScheduleInv w) (hc : ChainInv w) (hen : Guard w l) :
    ScheduleInv (next w l) := by
  cases l with
  | initSocket url =>
    have hnone := hc.fetching hen
    obtain ⟨hlog, hduration⟩ := h.start hnone
    exact scheduleInv_initSocket hnone hlog hduration url
  | configFailed => exact ⟨h.start, h.first, h.later, h.opened_lt, h.waiting, h.delivered⟩
  | opened k => exact h.opened hc hen.1 hen.2
  | closing k => exact h.setReadyState k .closing
  | ended k => exact h.setReadyState k .closed
  | error k =>
    show ScheduleInv (w.close k)
    rw [Provider.close]
    cases (w.sockets k).readyState with
    | connecting | opened => exact h.setReadyState k .closing
    | closing | closed => exact h
  | close k => exact h.close hc hen.1 hen.2
  | timeout t => exact h.timeout hc hen

theorem scheduleInv_of_reachable (h : provider.Reachable w) : ScheduleInv w :=
  h.invariant scheduleInv_init fun _ _ hr hi _ hen =>
    hi.next (chainInv_of_reachable hr.reachable) hen

/-! ## The delay of one `close` -/

/-- The delay of the timer that the `close` event of socket `k` arms. -/
def delay (w : Provider) (k : ℕ) : ℕ := ((next w (.close k)).timers w.armed).delay

theorem delay_eq (w : Provider) (k : ℕ) : delay w k = (w.sockets k).wsTimeoutDuration := by
  have hnew := setTimeout_self (k := k) (w.deliverClose k)
    (d := ((w.deliverClose k).sockets k).wsTimeoutDuration)
  have hdelay : delay w k = ((w.deliverClose k).sockets k).wsTimeoutDuration :=
    congrArg Timer.delay hnew
  rw [hdelay, deliverClose_self]

/-- The first socket, or no `open` so far, or so many failures that both delays are the longest. -/
def OnSchedule (w : Provider) (k : ℕ) : Prop :=
  k = 0 ∨ (∀ j, .opened j ∉ w.log) ∨ 6 ≤ failures w.log

/-- The first socket, or one that has not opened. -/
def FirstOrUnopened (w : Provider) (k : ℕ) : Prop := k = 0 ∨ .opened k ∉ w.log

/-- Before the first socket has closed there is nothing to count. -/
theorem ScheduleInv.first_close (h : ScheduleInv w) (hc : ChainInv w) (hk : 0 < w.created)
    (hopen : (w.sockets 0).closeDelivered = false) : closes w.log = 0 := by
  obtain ⟨hduration, hin, hout⟩ := h.waiting 0 (hc.eq_of_open hk hopen) hopen
  by_cases hmem : .opened 0 ∈ w.log
  · exact hin hmem
  · obtain ⟨hcaptured, -⟩ := hout hmem
    rw [h.first hk] at hcaptured
    by_contra hpos
    have hlong : backoff 1 ≤ backoff (closes w.log) := backoff_mono (by omega)
    have hone : backoff 1 = 500 := rfl
    omega

theorem delay_eq_backoff_failures_iff (h : provider.Reachable w) {k : ℕ}
    (hen : Guard w (.close k)) : delay w k = backoff (failures w.log) ↔ OnSchedule w k := by
  have hc := chainInv_of_reachable h
  have hs := scheduleInv_of_reachable h
  obtain ⟨hk, hopen⟩ := hen
  obtain ⟨-, hin, hout⟩ := hs.waiting k (hc.eq_of_open hk hopen) hopen
  have hle := failures_le_closes w.log
  rw [delay_eq, OnSchedule]
  by_cases hzero : k = 0
  · subst hzero
    have hcloses := hs.first_close hc hk hopen
    have hfailures : failures w.log = 0 := by omega
    rw [hs.first hk, hfailures]
    exact iff_of_true rfl (.inl rfl)
  by_cases hmem : .opened k ∈ w.log
  · have hcloses := hin hmem
    have hfailures : failures w.log = 0 := by omega
    have hlater := hs.later k hk (by omega)
    rw [hfailures, backoff_zero]
    refine iff_of_false (by omega) ?_
    rintro (heq | hnone | hsix)
    · exact hzero heq
    · exact hnone k hmem
    · omega
  · obtain ⟨hcaptured, hahead⟩ := hout hmem
    rw [hcaptured]
    rcases hahead with hnone | hahead
    · rw [failures_eq_closes hnone]
      exact iff_of_true rfl (.inr (.inl hnone))
    · rw [hahead, backoff_succ_eq_iff]
      constructor
      · intro hsix
        exact .inr (.inr hsix)
      · rintro (heq | hnone | hsix)
        · exact absurd heq hzero
        · have hsame := failures_eq_closes hnone
          omega
        · exact hsix

theorem delay_eq_backoff_closes_iff (h : provider.Reachable w) {k : ℕ}
    (hen : Guard w (.close k)) : delay w k = backoff (closes w.log) ↔ FirstOrUnopened w k := by
  have hc := chainInv_of_reachable h
  have hs := scheduleInv_of_reachable h
  obtain ⟨hk, hopen⟩ := hen
  obtain ⟨-, hin, hout⟩ := hs.waiting k (hc.eq_of_open hk hopen) hopen
  rw [delay_eq, FirstOrUnopened]
  by_cases hzero : k = 0
  · subst hzero
    rw [hs.first_close hc hk hopen, hs.first hk]
    exact iff_of_true rfl (.inl rfl)
  by_cases hmem : .opened k ∈ w.log
  · have hlater := hs.later k hk (by omega)
    rw [hin hmem, backoff_zero]
    refine iff_of_false (by omega) ?_
    rintro (heq | hnot)
    · exact hzero heq
    · exact hnot hmem
  · exact iff_of_true (hout hmem).1 (.inr hmem)

/-! ## Whole runs -/

/-- Every delay in the history is the one the schedule has for the count `n`. -/
def Scheduled (n : List SocketEvent → ℕ) (log : List SocketEvent) : Prop :=
  ∀ before k d after, log = before ++ .closed k d :: after → d = backoff (n before)

/-- The side condition that every `close` on a run meets `P`. -/
def atClose (P : Provider → ℕ → Prop) (w : Provider) : Label → Prop
  | .close k => P w k
  | _ => True

theorem Scheduled.concat {n : List SocketEvent → ℕ} {log : List SocketEvent} {e : SocketEvent}
    (h : Scheduled n log) (he : ∀ k d, e = .closed k d → d = backoff (n log)) :
    Scheduled n (log ++ [e]) := by
  intro before k d after heq
  rcases List.eq_nil_or_concat after with rfl | ⟨after, e', rfl⟩
  · obtain ⟨rfl, hlast⟩ := List.append_inj' heq rfl
    exact he k d (List.cons.inj hlast).1
  · have hsplit : log ++ [e] = (before ++ .closed k d :: after) ++ [e'] := by
      rw [heq, List.concat_eq_append]
      simp
    exact h before k d after (List.append_inj' hsplit rfl).1

/-- What holds of each `close` that meets `P` holds of all of them on a run on which all do. -/
theorem scheduled_of_reachableWhen {n : List SocketEvent → ℕ} {P : Provider → ℕ → Prop}
    (hstep : ∀ {w k}, provider.Reachable w → Guard w (.close k) → P w k →
      delay w k = backoff (n w.log))
    (h : provider.ReachableWhen (atClose P) w) : Scheduled n w.log := by
  refine h.invariant (P := fun w => Scheduled n w.log) ?_ ?_
  · intro before k d after heq
    exact absurd heq.symm (List.append_ne_nil_of_right_ne_nil _ (List.cons_ne_nil _ _))
  · intro v l hr hi hok hen
    cases l with
    | opened k => exact hi.concat fun _ _ he => by cases he
    | close k =>
      refine hi.concat fun k' d he => ?_
      obtain ⟨-, rfl⟩ := SocketEvent.closed.inj he
      rw [← delay_eq]
      exact hstep hr.reachable hen hok
    | error k =>
      show Scheduled n (v.close k).log
      rw [Provider.close]
      cases (v.sockets k).readyState <;> exact hi
    | timeout t =>
      show Scheduled n (Provider.next v (.timeout t)).log
      rw [(chainInv_of_reachable hr.reachable).onTimeout_eq hen]
      exact hi
    | initSocket | configFailed | closing | ended => exact hi

/-- **The reconnect delays.** Let `n` be the number of sockets that never opened and have closed
since the last `open`. A `close` arms the delay of the schedule for `n` exactly if its socket is
the first one, or none has opened yet, or `n` is at least 6; if the socket that had opened is
counted as well, exactly if the closing socket is the first one or has not opened. On a run all of
whose `close` events are so, every delay is on schedule. -/
theorem delay_eq_backoff_iff (w : Provider) :
    (provider.Reachable w → ∀ k, Guard w (.close k) →
      (delay w k = backoff (failures w.log) ↔ OnSchedule w k) ∧
      (delay w k = backoff (closes w.log) ↔ FirstOrUnopened w k)) ∧
    (provider.ReachableWhen (atClose OnSchedule) w → Scheduled failures w.log) ∧
    (provider.ReachableWhen (atClose FirstOrUnopened) w → Scheduled closes w.log) := by
  refine ⟨?_, ?_, ?_⟩
  · intro h k hen
    exact ⟨delay_eq_backoff_failures_iff h hen, delay_eq_backoff_closes_iff h hen⟩
  · intro h
    exact scheduled_of_reachableWhen
      (fun hr hen hok => (delay_eq_backoff_failures_iff hr hen).mpr hok) h
  · intro h
    exact scheduled_of_reachableWhen
      (fun hr hen hok => (delay_eq_backoff_closes_iff hr hen).mpr hok) h

/-- Two sockets that never open, and then one that closes for the first time. -/
theorem delay_eq_backoff_iff_third : ∃ w, delay w 2 = backoff (failures w.log) ∧
    failures w.log = 2 := by
  obtain ⟨w, hw, hguard, hlog⟩ := provider.reachable_of_exec
    [.initSocket "wss://stream", .close 0, .timeout 0, .close 1, .timeout 1]
    (fun w => Guard w (.close 2) ∧ w.log = [.closed 0 250, .closed 1 500]) (by decide)
  have honschedule : OnSchedule w 2 := by
    refine .inr (.inl fun j => ?_)
    rw [hlog]
    simp
  refine ⟨w, ((delay_eq_backoff_iff w).1 hw 2 hguard).1.mpr honschedule, ?_⟩
  rw [hlog]
  rfl

/-- The first `close` after an `open` does not wait 250 ms when its socket is not the first one. -/
theorem stale_duration :
    ¬(∀ w k, provider.Reachable w → Guard w (.close k) → delay w k = backoff (failures w.log)) ∧
    ¬(∀ w k, provider.Reachable w → Guard w (.close k) → delay w k = backoff (closes w.log)) := by
  obtain ⟨w, hw, hguard, hdelay, hlog⟩ := provider.reachable_of_exec
    [.initSocket "wss://stream", .close 0, .timeout 0, .opened 1]
    (fun w => Guard w (.close 1) ∧ delay w 1 = 500 ∧ w.log = [.closed 0 250, .opened 1])
    (by decide)
  constructor
  · intro h
    have hright := h w 1 hw hguard
    rw [hdelay, hlog] at hright
    exact absurd hright (by decide)
  · intro h
    have hright := h w 1 hw hguard
    rw [hdelay, hlog] at hright
    exact absurd hright (by decide)

end Lightspeed.Frontend.Provider
