import Lightspeed.Hub.Sending

/-!
# Which messages a viewer is handed

Three kinds of goroutine send on a client's `Send` channel, each its own kind of message
(`KindInv`). `State.handed` reads off the history what a client's `WriteLoop` has received,
and `handed_next` says what one step adds to it.
-/

namespace Lightspeed.Hub

/-! ## Who sends what -/

/-- The message a sending block carries. -/
def SendPC.message : SendPC → Option WebsocketMessage
  | .rLock _ m | .test _ m | .send _ m => some m
  | _ => none

/-- The message `Run` is forwarding. -/
def RunPC.message : RunPC → Option WebsocketMessage
  | .broadcastRLock m | .broadcastRange m _ | .broadcastSend m _ _ => some m
  | _ => none

/-- Handlers send offers, candidate callbacks candidates, and `Run` forwards infos. -/
structure KindOk (sending : Sender → SendPC) (run : RunPC) : Prop where
  handler : ∀ c m, (sending (.handler c)).message = some m → m.event = .offer
  candidate : ∀ k m, (sending (.candidate k)).message = some m → m.event = .candidate
  run : ∀ m, run.message = some m → ∃ i, m = infoMessage i

def KindInv (s : State) : Prop := KindOk s.sending s.run

theorem kindInv_init : KindInv init :=
  ⟨(fun _ _ h => by cases h), (fun _ _ h => by cases h), fun _ h => by cases h⟩

namespace KindOk

variable {sending : Sender → SendPC} {run : RunPC}

/-- `Run` moves, keeping its message or dropping it. -/
theorem update_run (h : KindOk sending run) {run' : RunPC}
    (hm : run'.message = run.message ∨ run'.message = none) : KindOk sending run' := by
  refine ⟨h.handler, h.candidate, fun m he => ?_⟩
  rcases hm with hm | hm
  · exact h.run m (hm ▸ he)
  · rw [hm] at he; cases he

/-- A block moves on, keeping its message or dropping it. -/
theorem update_sending (h : KindOk sending run) {g : Sender} {blk : SendPC}
    (hm : blk.message = (sending g).message ∨ blk.message = none) :
    KindOk (Function.update sending g blk) run := by
  have hkeep : ∀ g' m, (Function.update sending g blk g').message = some m →
      (sending g').message = some m := by
    intro g' m he
    rw [Function.update_apply] at he
    split at he
    · next hg =>
      rcases hm with hm | hm
      · rw [hg, ← hm, he]
      · rw [hm] at he; cases he
    · exact he
  exact ⟨fun c m he => h.handler c m (hkeep _ m he),
    fun k m he => h.candidate k m (hkeep _ m he), h.run⟩

/-- A handler enters its block with an offer. -/
theorem enter_handler (h : KindOk sending run) (c : ClientId) (offerString : Option String) :
    KindOk (Function.update sending (.handler c) (.rLock c (offerMessage offerString))) run := by
  refine ⟨fun c' m he => ?_, fun k m he => ?_, h.run⟩
  · rw [Function.update_apply] at he
    split at he
    · cases he; rfl
    · exact h.handler c' m he
  · rw [Function.update_of_ne (by simp)] at he
    exact h.candidate k m he

/-- A callback enters its block with a candidate. -/
theorem enter_candidate (h : KindOk sending run) (k : ℕ) (c : ClientId) (str : String) :
    KindOk (Function.update sending (.candidate k) (.rLock c (candidateMessage str))) run := by
  refine ⟨fun c' m he => ?_, fun k' m he => ?_, h.run⟩
  · rw [Function.update_of_ne (by simp)] at he
    exact h.handler c' m he
  · rw [Function.update_apply] at he
    split at he
    · cases he; rfl
    · exact h.candidate k' m he

end KindOk

theorem KindInv.next {s : State} {l : Label} (h : KindInv s) (hen : Enabled s l) :
    KindInv (next s l) := by
  obtain ⟨-, hg⟩ := hen
  unfold KindInv at h
  cases l with
  | marshalMessage c offerString ok =>
    cases ok with
    | true => exact h.enter_handler c offerString
    | false => exact h
  | onICECandidate k c candidateString => exact h.enter_candidate k c candidateString
  | onConnectionStateChange k c p => cases p <;> exact h
  | write c m ok => cases ok <;> exact h
  | sendRLock g c m => exact h.update_sending (.inl (by rw [hg.1]; rfl))
  | sendTest g c m =>
    rw [Guard] at hg
    refine h.update_sending ?_
    split
    · exact .inl (by rw [hg]; rfl)
    · exact .inr rfl
  | sendMessage g c m => exact h.update_sending (.inr rfl)
  | sendRUnlock g c => exact h.update_sending (.inr rfl)
  | takeBroadcast k => exact ⟨h.handler, h.candidate, fun m he => ⟨_, (Option.some.inj he).symm⟩⟩
  | broadcastRLock m => exact h.update_run (.inl (by rw [hg.1]; rfl))
  | broadcastNext m visited c => exact h.update_run (.inl (by rw [hg.1]; rfl))
  | broadcastSend m visited c => exact h.update_run (.inl (by rw [hg.1]; rfl))
  | unregisterRUnlock c ok => cases ok <;> exact h.update_run (.inr rfl)
  | takeRegister | registerLock | registerLocked | registerInsert | registerUnlock
  | takeUnregister | unregisterRLock | unregisterTest | unregisterLock
  | unregisterLocked | unregisterDelete | unregisterUnlock | unregisterCloseConn
  | unregisterCloseSend | infoRLock | infoLen | infoRUnlock | goSendInfo | broadcastEnd
  | broadcastRUnlock => exact h.update_run (.inr rfl)
  | _ => exact h

theorem kindInv_of_reachable {s : State} (h : hub.Reachable s) : KindInv s :=
  h.invariant kindInv_init fun _ _ _ hi _ hen => hi.next hen

/-! ## What a viewer has been handed -/

/-- The message, if the event is a hand-over to `c`. -/
def Event.handedTo (c : ClientId) : Event → Option WebsocketMessage
  | .handOver _ c' m => if c' = c then some m else none
  | _ => none

/-- The messages `c`'s `WriteLoop` has received, in order. -/
def State.handed (s : State) (c : ClientId) : List WebsocketMessage :=
  s.log.filterMap (Event.handedTo c)

/-- The message a step hands over to `c`. -/
def Label.handed (c : ClientId) : Label → List WebsocketMessage
  | .sendMessage _ c' m => if c' = c then [m] else []
  | .broadcastSend m _ c' => if c' = c then [m] else []
  | _ => []

theorem handed_next (s : State) (l : Label) (c : ClientId) :
    (next s l).handed c = s.handed c ++ l.handed c := by
  have append : ∀ (e : Event), (s.log ++ [e]).filterMap (Event.handedTo c) =
      s.handed c ++ (e.handedTo c).toList := fun e => by
    rw [List.filterMap_append, State.handed]
    cases he : e.handedTo c <;> simp [he]
  have quiet : ∀ {t : State}, t.log = s.log → t.handed c = s.handed c ++ [] := fun ht => by
    rw [State.handed, ht, List.append_nil]; rfl
  cases l with
  | marshalMessage c' offerString ok => cases ok <;> exact quiet rfl
  | onConnectionStateChange k c' p => cases p <;> exact quiet rfl
  | write c' m ok => cases ok <;> exact quiet rfl
  | sendMessage g c' m =>
    refine (append _).trans ?_
    simp only [Event.handedTo, Label.handed]
    split <;> rfl
  | broadcastSend m visited c' =>
    refine (append _).trans ?_
    simp only [Event.handedTo, Label.handed]
    split <;> rfl
  | registerInsert | unregisterDelete | unregisterCloseConn | unregisterCloseSend | goSendInfo
  | takeBroadcast => exact append _
  | _ => exact quiet rfl

end Lightspeed.Hub
