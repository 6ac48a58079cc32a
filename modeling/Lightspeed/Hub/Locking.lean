import Lightspeed.Hub.Model

/-!
# Who is inside the hub's lock

The lock's state is a function of the program counters: `Run` is the only writer, and the
readers are `Run` and the goroutines inside the sending block. With the exclusion that the
lock itself provides this gives the fact everything else rests on: while `Run` holds the
write lock, no goroutine is between its membership test and its send (`LockInv.no_sender`).
-/

namespace Lightspeed.Hub

/-! ## The steps of `Run` -/

/-- Where `Run` is when it takes the step, if it is a step of `Run`. -/
def Label.runAt : Label → Option RunPC
  | .takeRegister _ | .takeUnregister _ | .takeBroadcast _ => some .select
  | .registerLock c => some (.registerLock c)
  | .registerLocked c => some (.registerLocking c)
  | .registerInsert c => some (.registerInsert c)
  | .registerUnlock c => some (.registerUnlock c)
  | .unregisterRLock c => some (.unregisterRLock c)
  | .unregisterTest c => some (.unregisterTest c)
  | .unregisterRUnlock c ok => some (.unregisterRUnlock c ok)
  | .unregisterLock c => some (.unregisterLock c)
  | .unregisterLocked c => some (.unregisterLocking c)
  | .unregisterDelete c => some (.unregisterDelete c)
  | .unregisterUnlock c => some (.unregisterUnlock c)
  | .unregisterCloseConn c => some (.unregisterCloseConn c)
  | .unregisterCloseSend c | .unregisterPanic c => some (.unregisterCloseSend c)
  | .infoRLock => some .infoRLock
  | .infoLen => some .infoLen
  | .infoRUnlock i => some (.infoRUnlock i)
  | .goSendInfo i => some (.goSendInfo i)
  | .broadcastRLock m => some (.broadcastRLock m)
  | .broadcastNext m visited _ | .broadcastEnd m visited => some (.broadcastRange m visited)
  | .broadcastSend m visited c | .broadcastPanic m visited c =>
    some (.broadcastSend m visited c)
  | .broadcastRUnlock => some .broadcastRUnlock
  | _ => none

/-- `Run` moves by its own steps only, each from its place. -/
theorem run_next {s : State} {l : Label} (hen : Enabled s l) :
    (next s l).run = s.run ∨ l.runAt = some s.run := by
  obtain ⟨-, hg⟩ := hen
  cases l with
  | marshalMessage c offerString ok => cases ok <;> exact .inl rfl
  | onConnectionStateChange k c p => cases p <;> exact .inl rfl
  | write c m ok => cases ok <;> exact .inl rfl
  | takeRegister | registerLocked | takeUnregister | unregisterRLock | unregisterLocked
  | unregisterCloseSend | infoRLock | takeBroadcast | broadcastRLock | broadcastNext
  | broadcastSend | broadcastEnd => exact .inr (congrArg some hg.1.symm)
  | registerLock | registerInsert | registerUnlock | unregisterTest | unregisterRUnlock
  | unregisterLock | unregisterDelete | unregisterUnlock | unregisterCloseConn | infoLen
  | infoRUnlock | goSendInfo | broadcastRUnlock => exact .inr (congrArg some hg.symm)
  | _ => exact .inl rfl

/-! ## The handler's sending block -/

/-- The client a sending block is about. -/
def SendPC.client : SendPC → Option ClientId
  | .idle => none
  | .rLock c _ | .test c _ | .send c _ | .rUnlock c => some c

/-- A handler is inside its sending block only where its source has that block, and the
block is about its own client. -/
structure HandlerOk (handler : ClientId → HandlerPC) (sending : Sender → SendPC) : Prop where
  idle : ∀ c, handler c ≠ .sendOffer → sending (.handler c) = .idle
  own : ∀ c c', (sending (.handler c)).client = some c' → c' = c

def HandlerInv (s : State) : Prop := HandlerOk s.handler s.sending

namespace HandlerOk

variable {handler : ClientId → HandlerPC} {sending : Sender → SendPC} {c : ClientId}
  {pc : HandlerPC} {g : Sender} {blk : SendPC}

/-- The handler moves outside its sending block. -/
theorem update_handler (h : HandlerOk handler sending) (hidle : sending (.handler c) = .idle) :
    HandlerOk (Function.update handler c pc) sending := by
  refine ⟨fun c' hne => ?_, h.own⟩
  by_cases hc : c' = c
  · subst hc; exact hidle
  · rw [Function.update_of_ne hc] at hne
    exact h.idle c' hne

/-- The handler enters its sending block. -/
theorem enter (h : HandlerOk handler sending) (hown : blk.client = some c) :
    HandlerOk (Function.update handler c .sendOffer)
      (Function.update sending (.handler c) blk) := by
  refine ⟨fun c' hne => ?_, fun c' c'' hcl => ?_⟩
  · have hc : c' ≠ c := by
      rintro rfl; exact hne (Function.update_self ..)
    rw [Function.update_of_ne hc] at hne
    rw [Function.update_of_ne (by simpa using hc)]
    exact h.idle c' hne
  · by_cases hc : c' = c
    · subst hc
      rw [Function.update_self, hown] at hcl
      exact (Option.some.inj hcl).symm
    · rw [Function.update_of_ne (by simpa using hc)] at hcl
      exact h.own c' c'' hcl

/-- A block moves on, staying about the same client, or ends. -/
theorem update_sending (h : HandlerOk handler sending) (hbusy : sending g ≠ .idle)
    (hown : blk.client = (sending g).client ∨ blk = .idle) :
    HandlerOk handler (Function.update sending g blk) := by
  refine ⟨fun c hne => ?_, fun c c' hcl => ?_⟩
  · have hidle := h.idle c hne
    rw [Function.update_of_ne]
    · exact hidle
    · rintro rfl; exact hbusy hidle
  · by_cases hg : Sender.handler c = g
    · subst hg
      rw [Function.update_self] at hcl
      rcases hown with hown | rfl
      · exact h.own c c' (hown ▸ hcl)
      · cases hcl
    · rw [Function.update_of_ne hg] at hcl
      exact h.own c c' hcl

/-- A candidate callback starts. -/
theorem update_candidate {k : ℕ} (h : HandlerOk handler sending) :
    HandlerOk handler (Function.update sending (.candidate k) blk) := by
  have hne : ∀ c, Sender.handler c ≠ .candidate k := by simp
  refine ⟨fun c hc => ?_, fun c c' hcl => ?_⟩
  · rw [Function.update_of_ne (hne c)]
    exact h.idle c hc
  · rw [Function.update_of_ne (hne c)] at hcl
    exact h.own c c' hcl

end HandlerOk

theorem handlerInv_init : HandlerInv init :=
  ⟨fun _ _ => rfl, fun _ _ h => by cases h⟩

theorem HandlerInv.next {s : State} {l : Label} (h : HandlerInv s) (hen : Enabled s l) :
    HandlerInv (next s l) := by
  obtain ⟨-, hg⟩ := hen
  unfold HandlerInv at h
  -- a handler that is elsewhere has no block under way, and none starts by its move
  have hout : ∀ {c pc}, s.handler c = pc → pc ≠ .sendOffer → s.sending (.handler c) = .idle :=
    fun hpc hne => h.idle _ (hpc ▸ hne)
  cases l with
  | connect c ok => exact h.update_handler (hout hg (by simp))
  | goWriteLoop c => exact h.update_handler (hout hg (by simp))
  | register c => exact h.update_handler (hout hg.1 (by simp))
  | setCallbacks c => exact h.update_handler (hout hg (by simp))
  | createOffer c ok => exact h.update_handler (hout hg (by simp))
  | setLocalDescription c ok => exact h.update_handler (hout hg (by simp))
  | marshalOffer c offerString => exact h.update_handler (hout hg (by simp))
  | marshalMessage c offerString ok =>
    cases ok with
    | true => exact h.enter rfl
    | false => exact h.update_handler (hout hg (by simp))
  | offerSent c => exact h.update_handler hg.2
  | readLoopReturn c => exact h.update_handler (hout hg (by simp))
  | unregister c => exact h.update_handler (hout hg.1 (by simp))
  | closeConn c => exact h.update_handler (hout hg (by simp))
  | closePeerConnection c => exact h.update_handler (hout hg (by simp))
  | onICECandidate k c candidateString => exact h.update_candidate
  | onConnectionStateChange k c p => cases p <;> exact h
  | sendRLock g c m => exact h.update_sending (by rw [hg.1]; simp) (.inl (by rw [hg.1]; rfl))
  | sendTest g c m =>
    rw [Guard] at hg
    refine h.update_sending (by rw [hg]; simp) (.inl ?_)
    rw [hg]
    split <;> rfl
  | sendMessage g c m => exact h.update_sending (by rw [hg.1]; simp) (.inl (by rw [hg.1]; rfl))
  | sendRUnlock g c =>
    rw [Guard] at hg
    exact h.update_sending (by rw [hg]; simp) (.inr rfl)
  | write c m ok => cases ok <;> exact h
  | _ => exact h

/-! ## The lock -/

/-- Between `RLock` and `RUnlock`. -/
def SendPC.reads : SendPC → Bool
  | .idle | .rLock _ _ => false
  | .test _ _ | .send _ _ | .rUnlock _ => true

/-- `Run` is between an `RLock` and its `RUnlock`. -/
def RunPC.reads : RunPC → Bool
  | .unregisterTest _ | .unregisterRUnlock _ _ | .infoLen | .infoRUnlock _
  | .broadcastRange _ _ | .broadcastSend _ _ _ | .broadcastRUnlock => true
  | _ => false

/-- Where `Run` is with the write lock. -/
def RunPC.writer : RunPC → Writer
  | .registerLocking _ | .unregisterLocking _ => .waiting
  | .registerInsert _ | .registerUnlock _ | .unregisterDelete _ | .unregisterUnlock _ =>
    .holding
  | _ => .idle

/-- The lock `m` is as the program counters of `Run` and of the sending blocks say. -/
structure LockOk (m : RWMutex Reader) (run : RunPC) (sending : Sender → SendPC) : Prop where
  writer : m.writer = run.writer
  run : .run ∈ m.readers ↔ run.reads = true
  sender : ∀ g, .sender g ∈ m.readers ↔ (sending g).reads = true
  exclusive : m.Exclusive

def LockInv (s : State) : Prop := LockOk s.mutex s.run s.sending

namespace LockOk

variable {m : RWMutex Reader} {run run' : RunPC} {sending : Sender → SendPC}

/-- `Run` moves without touching the lock. -/
theorem run_local (h : LockOk m run sending) (hw : run'.writer = run.writer)
    (hr : run'.reads = run.reads) : LockOk m run' sending :=
  ⟨hw ▸ h.writer, hr ▸ h.run, h.sender, h.exclusive⟩

theorem run_announce (h : LockOk m run sending) (hw : run'.writer = .waiting)
    (hr : run'.reads = run.reads) : LockOk m.announce run' sending :=
  ⟨hw.symm, hr ▸ h.run, h.sender, m.exclusive_announce⟩

theorem run_lock (h : LockOk m run sending) (hcan : m.CanLock) (hw : run'.writer = .holding)
    (hr : run'.reads = run.reads) : LockOk m.lock run' sending :=
  ⟨hw.symm, hr ▸ h.run, h.sender, RWMutex.exclusive_lock hcan⟩

theorem run_unlock (h : LockOk m run sending) (hw : run'.writer = .idle)
    (hr : run'.reads = run.reads) : LockOk m.unlock run' sending :=
  ⟨hw.symm, hr ▸ h.run, h.sender, m.exclusive_unlock⟩

theorem run_rLock (h : LockOk m run sending) (hcan : m.CanRLock)
    (hw : run'.writer = run.writer) (hr : run'.reads = true) :
    LockOk (m.rLock .run) run' sending := by
  refine ⟨hw ▸ h.writer, ?_, fun g => ?_, RWMutex.exclusive_rLock hcan _⟩
  · simp [hr]
  · simpa using h.sender g

theorem run_rUnlock (h : LockOk m run sending) (hw : run'.writer = run.writer)
    (hr : run'.reads = false) : LockOk (m.rUnlock .run) run' sending := by
  refine ⟨hw ▸ h.writer, ?_, fun g => ?_, RWMutex.exclusive_rUnlock h.exclusive _⟩
  · simp [hr]
  · simpa using h.sender g

variable {g : Sender} {pc : SendPC}

/-- A sender moves without touching the lock. -/
theorem sender_local (h : LockOk m run sending) (hr : pc.reads = (sending g).reads) :
    LockOk m run (Function.update sending g pc) := by
  refine ⟨h.writer, h.run, fun g' => ?_, h.exclusive⟩
  rw [h.sender g', Function.update_apply]
  split
  · next he => rw [he, hr]
  · rfl

theorem sender_rLock (h : LockOk m run sending) (hcan : m.CanRLock) (hr : pc.reads = true) :
    LockOk (m.rLock (.sender g)) run (Function.update sending g pc) := by
  refine ⟨h.writer, ?_, fun g' => ?_, RWMutex.exclusive_rLock hcan _⟩
  · simpa using h.run
  · rw [RWMutex.rLock_readers, Finset.mem_insert, h.sender g', Function.update_apply]
    split
    · next he => simp [he, hr]
    · next he => simp [he]

theorem sender_rUnlock (h : LockOk m run sending) (hr : pc.reads = false) :
    LockOk (m.rUnlock (.sender g)) run (Function.update sending g pc) := by
  refine ⟨h.writer, ?_, fun g' => ?_, RWMutex.exclusive_rUnlock h.exclusive _⟩
  · simpa using h.run
  · rw [RWMutex.rUnlock_readers, Finset.mem_erase, h.sender g', Function.update_apply]
    split
    · next he => simp [he, hr]
    · next he => simp [he]

end LockOk

theorem lockInv_init : LockInv init :=
  ⟨rfl, by simp [init, RunPC.reads], by simp [init, SendPC.reads], RWMutex.exclusive_new⟩

/-- Every step keeps the lock in agreement with the program counters. -/
theorem LockInv.next {s : State} {l : Label} (h : LockInv s) (hh : HandlerInv s)
    (hen : Enabled s l) : LockInv (next s l) := by
  obtain ⟨-, hg⟩ := hen
  unfold LockInv at h
  cases l with
  | marshalMessage c offerString ok =>
    rw [Guard] at hg
    cases ok with
    | true => exact h.sender_local (by rw [hh.idle c (by simp [hg])]; rfl)
    | false => exact h
  | onICECandidate k c candidateString => exact h.sender_local (by rw [hg.1]; rfl)
  | onConnectionStateChange k c p => cases p <;> exact h
  | write c m ok => cases ok <;> exact h
  -- a block takes the lock, moves inside or outside of it, and gives it back
  | sendRLock g c m => exact h.sender_rLock hg.2 rfl
  | sendTest g c m =>
    rw [Guard] at hg
    refine h.sender_local ?_
    rw [hg]
    split <;> rfl
  | sendMessage g c m => exact h.sender_local (by rw [hg.1]; rfl)
  | sendRUnlock g c => exact h.sender_rUnlock rfl
  -- so does `Run`, as a reader or as the writer
  | takeRegister c => rw [hg.1] at h; exact h.run_local rfl rfl
  | registerLock c => rw [hg] at h; exact h.run_announce rfl rfl
  | registerLocked c => rw [hg.1] at h; exact h.run_lock hg.2 rfl rfl
  | registerInsert c => rw [hg] at h; exact h.run_local rfl rfl
  | registerUnlock c => rw [hg] at h; exact h.run_unlock rfl rfl
  | takeUnregister c => rw [hg.1] at h; exact h.run_local rfl rfl
  | unregisterRLock c => rw [hg.1] at h; exact h.run_rLock hg.2 rfl rfl
  | unregisterTest c => rw [hg] at h; exact h.run_local rfl rfl
  | unregisterRUnlock c ok =>
    rw [hg] at h
    cases ok <;> exact h.run_rUnlock rfl rfl
  | unregisterLock c => rw [hg] at h; exact h.run_announce rfl rfl
  | unregisterLocked c => rw [hg.1] at h; exact h.run_lock hg.2 rfl rfl
  | unregisterDelete c => rw [hg] at h; exact h.run_local rfl rfl
  | unregisterUnlock c => rw [hg] at h; exact h.run_unlock rfl rfl
  | unregisterCloseConn c => rw [hg] at h; exact h.run_local rfl rfl
  | unregisterCloseSend c => rw [hg.1] at h; exact h.run_local rfl rfl
  | infoRLock => rw [hg.1] at h; exact h.run_rLock hg.2 rfl rfl
  | infoLen => rw [hg] at h; exact h.run_local rfl rfl
  | infoRUnlock i => rw [hg] at h; exact h.run_rUnlock rfl rfl
  | goSendInfo i => rw [hg] at h; exact h.run_local rfl rfl
  | takeBroadcast k => rw [hg.1] at h; exact h.run_local rfl rfl
  | broadcastRLock m => rw [hg.1] at h; exact h.run_rLock hg.2 rfl rfl
  | broadcastNext m visited c => rw [hg.1] at h; exact h.run_local rfl rfl
  | broadcastSend m visited c => rw [hg.1] at h; exact h.run_local rfl rfl
  | broadcastEnd m visited => rw [hg.1] at h; exact h.run_local rfl rfl
  | broadcastRUnlock => rw [hg] at h; exact h.run_rUnlock rfl rfl
  | _ => exact h

/-! ## Reachable states -/

theorem handlerInv_of_reachable {s : State} (h : hub.Reachable s) : HandlerInv s :=
  h.invariant handlerInv_init fun _ _ _ hi _ hen => hi.next hen

theorem lockInv_of_reachable {s : State} (h : hub.Reachable s) : LockInv s :=
  h.invariant lockInv_init fun _ _ hr hi _ hen =>
    hi.next (handlerInv_of_reachable hr.reachable) hen

/-- While `Run` holds the write lock, nobody is inside a sending block. -/
theorem LockInv.no_sender {s : State} (h : LockInv s) (hw : s.run.writer = .holding)
    (g : Sender) : (s.sending g).reads = false := by
  have hempty := h.exclusive (h.writer.trans hw)
  have hg := h.sender g
  rw [hempty] at hg
  simpa using hg

end Lightspeed.Hub
