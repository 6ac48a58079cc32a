import Lightspeed.Hub.Model
import Lightspeed.Precedence

/-!
# The page's end of the signalling

`socket.onmessage` of `frontend/src/App.js`. The page applies every message as it arrives and
keeps no queue: an activation runs up to its `await` without interruption, and what follows the
`await` runs when the promise of `createAnswer` settles, any number of messages later.
-/

namespace Lightspeed.Frontend

open Hub

/-- The calls that `onmessage` makes. Values are those of `msg.data`, and of the answer the
browser creates. -/
inductive Call
  | setRemoteDescription (offerCandidate : Data)
  | createAnswer
  | setLocalDescription (answer : String)
  | sendAnswer (answer : String)
  | addIceCandidate (offerCandidate : Data)
  /-- `viewers: msg.data.no_connections`, which is `undefined` if there is no such field. -/
  | dispatchInfo (viewers : Option ℕ)
deriving DecidableEq

/-- `msg.data.no_connections` -/
def noConnections : Data → Option ℕ
  | .info i => some i.noConnections
  | _ => none

/-- `socket.onmessage`, up to its `await`. A `data` of `null` only logs. -/
def onmessage (msg : WebsocketMessage) : List Call :=
  if msg.data = .sessionDescription none then []
  else
    match msg.event with
    | .offer => [.setRemoteDescription msg.data, .createAnswer]
    | .candidate => [.addIceCandidate msg.data]
    | .info => [.dispatchInfo (noConnections msg.data)]
    | .answer => []

/-- What follows the `await`. An error is only logged. -/
def onAnswer : Option String → List Call
  | some answer => [.setLocalDescription answer, .sendAnswer answer]
  | none => []

/-- What the page's event loop runs. That a promise settles once, and after the `createAnswer`
that made it, is not required: it would only leave runs out. -/
inductive Event
  | message (msg : WebsocketMessage)
  /-- The promise of a `createAnswer` settles. -/
  | settled (answer : Option String)
deriving DecidableEq

def Event.calls : Event → List Call
  | .message msg => onmessage msg
  | .settled answer => onAnswer answer

def Event.message? : Event → Option WebsocketMessage
  | .message msg => some msg
  | .settled _ => none

/-- The messages that arrived, in order. -/
def received (es : List Event) : List WebsocketMessage := es.filterMap Event.message?

/-- The calls that were made, in order. -/
def calls (es : List Event) : List Call := es.flatMap Event.calls

/-- An offer the page can apply. -/
def IsOffer (m : WebsocketMessage) : Prop :=
  m.event = .offer ∧ m.data ≠ .sessionDescription none

def IsCandidate (m : WebsocketMessage) : Prop := m.event = .candidate

def Call.isRemoteDescription (call : Call) : Prop := ∃ d, call = .setRemoteDescription d

def Call.isIceCandidate (call : Call) : Prop := ∃ d, call = .addIceCandidate d

/-! ## Calls in the order of the messages -/

theorem calls_concat (es : List Event) (e : Event) : calls (es ++ [e]) = calls es ++ e.calls := by
  rw [calls, List.flatMap_append, List.flatMap_singleton, calls]

theorem received_concat_message (es : List Event) (msg : WebsocketMessage) :
    received (es ++ [.message msg]) = received es ++ [msg] := by
  rw [received, List.filterMap_append]
  rfl

theorem received_concat_settled (es : List Event) (answer : Option String) :
    received (es ++ [.settled answer]) = received es := by
  rw [received, List.filterMap_append]
  exact List.append_nil _

/-- An offer makes the page set the remote description. -/
theorem exists_setRemoteDescription {es : List Event} {m : WebsocketMessage}
    (hmem : m ∈ received es) (hoffer : IsOffer m) :
    ∃ call ∈ calls es, call.isRemoteDescription := by
  obtain ⟨e, he, hmsg⟩ := List.mem_filterMap.mp hmem
  cases e with
  | settled answer => cases hmsg
  | message msg =>
    obtain rfl := Option.some.inj hmsg
    refine ⟨.setRemoteDescription msg.data, List.mem_flatMap.mpr ⟨_, he, ?_⟩, _, rfl⟩
    rw [Event.calls, onmessage, if_neg hoffer.2, hoffer.1]
    exact List.mem_cons_self

/-- Only a candidate makes it add one. -/
theorem isCandidate_of_addIceCandidate {e : Event} {call : Call} (hmem : call ∈ e.calls)
    (hcall : call.isIceCandidate) : ∃ msg, e = .message msg ∧ IsCandidate msg := by
  obtain ⟨d, rfl⟩ := hcall
  cases e with
  | settled answer => cases answer <;> simp [Event.calls, onAnswer] at hmem
  | message msg =>
    refine ⟨msg, rfl, ?_⟩
    rw [Event.calls, onmessage] at hmem
    split at hmem
    · cases hmem
    · split at hmem
      · simp at hmem
      · assumption
      · simp at hmem
      · cases hmem

/-- Messages in which every candidate comes after an offer make calls in which every
`addIceCandidate` comes after a `setRemoteDescription`, whenever the answers are ready. -/
theorem precedes_calls {es : List Event} (h : Precedes IsOffer IsCandidate (received es)) :
    Precedes Call.isRemoteDescription Call.isIceCandidate (calls es) := by
  induction es using List.reverseRecOn with
  | nil => exact precedes_nil
  | append_singleton es e ih =>
    rw [calls_concat]
    cases e with
    | settled answer =>
      rw [received_concat_settled] at h
      refine (ih h).append fun call hmem hcall => ?_
      obtain ⟨msg, he, -⟩ := isCandidate_of_addIceCandidate hmem hcall
      cases he
    | message msg =>
      rw [received_concat_message, precedes_concat] at h
      refine (ih h.1).append fun call hmem hcall => ?_
      obtain ⟨msg', he, hcand⟩ := isCandidate_of_addIceCandidate hmem hcall
      cases he
      obtain ⟨m, hm, hoffer⟩ := h.2 hcand
      exact exists_setRemoteDescription hm hoffer

end Lightspeed.Frontend
