import Lightspeed.Frontend.App
import Lightspeed.Frontend.Socket
import Lightspeed.Hub.Wire

/-!
# The page across reconnects

`App` of `frontend/src/App.js` on top of `SocketProvider`. There is one `RTCPeerConnection` for as
long as the page lives, and one socket after another. The handler of a socket's messages has
captured that socket and answers on it; `pc.onicecandidate` is set anew by every render and sends on
the current one.

So an answer goes out on the socket on which its offer came, and a candidate never goes out before
an answer, except on a socket that comes after one with an answer: there the connection may still be
gathering for the session before (`page_signalling`). On the first of them the server applies the
answer before any candidate (`server_applies_answer_first`); on a later one it may not
(`stray_candidate`).
-/

namespace Lightspeed.Frontend

open Hub

/-- What `JSON.stringify` returns. -/
def Stringified := { data : List UInt8 // ∃ v, Json.IsText data v }

/-- What the history records. -/
inductive PageEvent
  /-- The handler of socket `k` is at `await pc.createAnswer()`. -/
  | offered (k : ℕ)
  /-- It goes on with an answer, at `pc.setLocalDescription(answer)`. -/
  | answered (k : ℕ)
  /-- An answer or a candidate goes out on socket `k`. -/
  | sent (k : ℕ) (answer : Bool) (data : Stringified)

structure Page where
  provider : Provider
  /-- How many activations of the handler of each socket are at their `await`. -/
  awaiting : ℕ → ℕ
  /-- `pc.setLocalDescription` was called, so that the browser gathers candidates. -/
  gathering : Bool
  log : List PageEvent

namespace Page

def init : Page where
  provider := Provider.init
  awaiting := fun _ => 0
  gathering := false
  log := []

variable (p : Page)

/-- `socket.send`, which throws while the socket connects and does nothing once it closes. -/
def send (k : ℕ) (answer : Bool) (data : Stringified) : Page :=
  if (p.provider.sockets k).readyState = .opened then
    { p with log := p.log ++ [.sent k answer data] }
  else p

/-- `socket.onmessage` of socket `k`, up to its `await`. -/
def onmessage (k : ℕ) (msg : WebsocketMessage) : Page :=
  if Call.createAnswer ∈ Frontend.onmessage msg then
    { p with awaiting := Function.update p.awaiting k (p.awaiting k + 1),
             log := p.log ++ [.offered k] }
  else p

/-- What follows the `await` in the handler of socket `k`; `none` is an error, which is logged. -/
def onAnswer (k : ℕ) (answer : Option Stringified) : Page :=
  let p := { p with awaiting := Function.update p.awaiting k (p.awaiting k - 1) }
  match answer with
  | some data => send { p with gathering := true, log := p.log ++ [.answered k] } k true data
  | none => p

/-- `pc.onicecandidate`, with the `socket` of the last render. -/
def onicecandidate (data : Stringified) : Page :=
  match p.provider.state.socket with
  | some k => p.send k false data
  | none => p

inductive Label
  /-- What happens to the sockets. -/
  | socket (l : Provider.Label)
  | message (k : ℕ) (msg : WebsocketMessage)
  /-- The promise of a `createAnswer` settles. -/
  | settled (k : ℕ) (answer : Option Stringified)
  /-- A candidate that is not null. -/
  | candidate (data : Stringified)

/-- A socket that is not open delivers no message. -/
def Guard : Label → Prop
  | .socket l => Provider.Guard p.provider l
  | .message k _ => k < p.provider.created ∧ (p.provider.sockets k).readyState = .opened
  | .settled k _ => 0 < p.awaiting k
  | .candidate _ => p.gathering = true

def next : Label → Page
  | .socket l => { p with provider := Provider.next p.provider l }
  | .message k msg => p.onmessage k msg
  | .settled k answer => p.onAnswer k answer
  | .candidate data => p.onicecandidate data

end Page

/-- The page with its sockets and its peer connection. -/
def page : Lts Page Page.Label := ⟨Page.init, Page.Guard, Page.next⟩

namespace Page

instance (p : Page) : DecidablePred p.Guard := fun l => by
  cases l <;> dsimp only [Guard] <;> infer_instance

instance (p : Page) (l : Label) : Decidable (page.Enabled p l) :=
  inferInstanceAs (Decidable (p.Guard l))

/-! ## What the operations leave alone -/

section Frame

variable (p : Page) (k : ℕ)

@[simp]
theorem send_provider (answer : Bool) (data : Stringified) :
    (p.send k answer data).provider = p.provider := by
  unfold send
  split <;> rfl

@[simp]
theorem onmessage_provider (msg : WebsocketMessage) :
    (p.onmessage k msg).provider = p.provider := by
  unfold onmessage
  split <;> rfl

@[simp]
theorem onAnswer_provider (answer : Option Stringified) :
    (p.onAnswer k answer).provider = p.provider := by
  cases answer with
  | none => rfl
  | some data => exact send_provider _ k true data

@[simp]
theorem onicecandidate_provider (data : Stringified) :
    (p.onicecandidate data).provider = p.provider := by
  unfold onicecandidate
  split
  · exact send_provider p _ false data
  · rfl

end Frame

/-- The sockets do not see the rest of the page. -/
theorem provider_refines : Lts.Refines page Frontend.provider provider where
  init := rfl
  step p l _ hg := by
    cases l with
    | socket l => exact .inr ⟨l, hg, rfl⟩
    | message k msg => exact .inl (p.onmessage_provider k msg)
    | settled k answer => exact .inl (p.onAnswer_provider k answer)
    | candidate data => exact .inl (p.onicecandidate_provider data)

theorem chainInv_of_reachable {p : Page} (h : page.Reachable p) : Provider.ChainInv p.provider :=
  Provider.chainInv_of_reachable (provider_refines.reachable h)

/-! ## Sockets only go forward -/

def rank : ReadyState → ℕ
  | .connecting => 0
  | .opened => 1
  | .closing => 2
  | .closed => 3

section Sockets

variable {w : Provider} {k : ℕ}

theorem rank_le_closed (readyState : ReadyState) : rank readyState ≤ rank .closed := by
  cases readyState <;> decide

theorem rank_setReadyState {j : ℕ} {readyState : ReadyState}
    (h : rank (w.sockets j).readyState ≤ rank readyState) :
    rank (w.sockets k).readyState ≤ rank ((w.setReadyState j readyState).sockets k).readyState := by
  by_cases hjk : k = j
  · subst hjk
    rw [Provider.setReadyState_self]
    exact h
  · rw [Provider.setReadyState_of_ne w hjk]

theorem rank_le_next {l : Provider.Label} (hg : Provider.Guard w l) (hk : k < w.created) :
    k < (Provider.next w l).created ∧
      rank (w.sockets k).readyState ≤ rank ((Provider.next w l).sockets k).readyState := by
  -- a new socket is none of the old ones
  have hnew : ∀ (v : Provider) (state : SocketState), v.created = w.created →
      v.sockets = w.sockets → k < (v.construct state).created ∧
        rank (w.sockets k).readyState ≤ rank ((v.construct state).sockets k).readyState := by
    intro v state hcreated hsockets
    rw [Provider.construct_of_ne v (by omega), hsockets]
    exact ⟨Nat.lt_succ_of_lt (hcreated ▸ hk), Nat.le_refl _⟩
  cases l with
  | initSocket url => exact hnew w.endFetch _ rfl rfl
  | configFailed => exact ⟨hk, Nat.le_refl _⟩
  | opened j => exact ⟨hk, rank_setReadyState (by rw [hg.2]; decide)⟩
  | closing j =>
    refine ⟨hk, rank_setReadyState ?_⟩
    rcases hg.2 with hstate | hstate
    · rw [hstate]
      decide
    · rw [hstate]
      decide
  | ended j => exact ⟨hk, rank_setReadyState (rank_le_closed _)⟩
  | error j =>
    show k < (w.close j).created ∧ _ ≤ rank ((w.close j).sockets k).readyState
    unfold Provider.close
    split
    · next hstate => exact ⟨hk, rank_setReadyState (by rw [hstate]; decide)⟩
    · next hstate => exact ⟨hk, rank_setReadyState (by rw [hstate]; decide)⟩
    · exact ⟨hk, Nat.le_refl _⟩
    · exact ⟨hk, Nat.le_refl _⟩
  | close j =>
    refine ⟨hk, ?_⟩
    show _ ≤ rank ((w.deliverClose j).sockets k).readyState
    by_cases hjk : k = j
    · subst hjk
      rw [Provider.deliverClose_self]
      exact rank_le_closed _
    · rw [Provider.deliverClose_of_ne w hjk]
  | timeout t =>
    show k < ((w.endTimer t).onTimeout t).created ∧
      _ ≤ rank (((w.endTimer t).onTimeout t).sockets k).readyState
    unfold Provider.onTimeout
    split
    · exact hnew (w.endTimer t) _ rfl rfl
    · exact ⟨hk, Nat.le_refl _⟩

end Sockets

/-! ## What has gone out -/

def offeredOn (k : ℕ) : PageEvent → Bool
  | .offered j => j == k
  | _ => false

def answeredOn (k : ℕ) : PageEvent → Bool
  | .answered j => j == k
  | _ => false

/-- An answer that goes out on socket `k`. -/
def answerOn (k : ℕ) : PageEvent → Bool
  | .sent j answer _ => j == k && answer
  | _ => false

/-- A candidate that goes out on socket `k`. -/
def candidateOn (k : ℕ) : PageEvent → Bool
  | .sent j answer _ => j == k && !answer
  | _ => false

/-- After an answer on socket `k`, or one on a socket before it, a candidate may go out on `k`. -/
def Allows (k : ℕ) (e : PageEvent) : Prop :=
  answerOn k e = true ∨ ∃ j < k, answeredOn j e = true

structure Inv (p : Page) : Prop where
  /-- There is an answer for each offer at most, -/
  awaiting : ∀ k, p.awaiting k + p.log.countP (answeredOn k) ≤ p.log.countP (offeredOn k)
  /-- and it goes out once at most. -/
  sent : ∀ k, p.log.countP (answerOn k) ≤ p.log.countP (answeredOn k)
  /-- An offer came on a socket that had opened. -/
  opened : ∀ k, 0 < p.log.countP (offeredOn k) →
    k < p.provider.created ∧ 1 ≤ rank (p.provider.sockets k).readyState
  /-- The answer has gone out, or its socket was closing already. -/
  delivered : ∀ k, 0 < p.log.countP (answeredOn k) →
    0 < p.log.countP (answerOn k) ∨ 2 ≤ rank (p.provider.sockets k).readyState
  gathering : p.gathering = true → ∃ k, 0 < p.log.countP (answeredOn k)
  ordered : ∀ k, Precedes (Allows k) (candidateOn k · = true) p.log

theorem inv_init : Inv init where
  awaiting k := Nat.le_refl _
  sent k := Nat.le_refl _
  opened k h := by cases h
  delivered k h := by cases h
  gathering h := by cases h
  ordered k := precedes_nil

variable {p : Page}

theorem Inv.next_socket {l : Provider.Label} (h : Inv p) (hg : Provider.Guard p.provider l) :
    Inv (p.next (.socket l)) where
  awaiting := h.awaiting
  sent := h.sent
  opened k hk := by
    obtain ⟨hcreated, hopened⟩ := h.opened k hk
    obtain ⟨hlt, hle⟩ := rank_le_next hg hcreated
    exact ⟨hlt, Nat.le_trans hopened hle⟩
  delivered k hk := by
    rcases h.delivered k hk with hsent | hclosing
    · exact .inl hsent
    · have hoffered : 0 < p.log.countP (offeredOn k) := by
        have hcount := h.awaiting k
        replace hk : 0 < p.log.countP (answeredOn k) := hk
        omega
      exact .inr (Nat.le_trans hclosing (rank_le_next hg (h.opened k hoffered).1).2)
  gathering := h.gathering
  ordered := h.ordered

section Count

variable {f : PageEvent → Bool} {log : List PageEvent} {e : PageEvent}

theorem countP_concat_of_pos (h : f e = true) : (log ++ [e]).countP f = log.countP f + 1 := by
  rw [List.countP_append, List.countP_singleton, if_pos h]

theorem countP_concat_of_neg (h : f e = false) : (log ++ [e]).countP f = log.countP f := by
  rw [List.countP_append, List.countP_singleton, if_neg (by simp [h]), Nat.add_zero]

end Count

theorem Inv.next_message {k : ℕ} {msg : WebsocketMessage} (h : Inv p)
    (hg : p.Guard (.message k msg)) : Inv (p.next (.message k msg)) := by
  show Inv (p.onmessage k msg)
  unfold onmessage
  split
  · have hself : offeredOn k (.offered k) = true := beq_self_eq_true k
    have hother : ∀ j, j ≠ k → offeredOn j (.offered k) = false :=
      fun j hj => beq_eq_false_iff_ne.mpr (Ne.symm hj)
    refine ⟨fun j => ?_, fun j => ?_, fun j => ?_, fun j => ?_, fun hgathering => ?_, fun j => ?_⟩
    · have hcount := h.awaiting j
      show Function.update p.awaiting k (p.awaiting k + 1) j + _ ≤ _
      rw [countP_concat_of_neg (f := answeredOn j) rfl]
      by_cases hj : j = k
      · subst hj
        rw [Function.update_self, countP_concat_of_pos hself]
        omega
      · rw [Function.update_of_ne hj, countP_concat_of_neg (hother j hj)]
        exact hcount
    · rw [countP_concat_of_neg (f := answerOn j) rfl, countP_concat_of_neg (f := answeredOn j) rfl]
      exact h.sent j
    · by_cases hj : j = k
      · subst hj
        exact fun _ => ⟨hg.1, by rw [hg.2]; decide⟩
      · rw [countP_concat_of_neg (hother j hj)]
        exact h.opened j
    · rw [countP_concat_of_neg (f := answerOn j) rfl, countP_concat_of_neg (f := answeredOn j) rfl]
      exact h.delivered j
    · obtain ⟨j, hj⟩ := h.gathering hgathering
      refine ⟨j, ?_⟩
      rw [countP_concat_of_neg (f := answeredOn j) rfl]
      exact hj
    · exact precedes_concat.mpr ⟨h.ordered j, fun hcandidate => by cases hcandidate⟩
  · exact h

/-- The promise settles on a socket that had opened. -/
theorem Inv.opened_of_awaiting {k : ℕ} (h : Inv p) (hk : 0 < p.awaiting k) :
    1 ≤ rank (p.provider.sockets k).readyState := by
  have hcount := h.awaiting k
  exact (h.opened k (by omega)).2

theorem Inv.next_error {k : ℕ} (h : Inv p) : Inv (p.next (.settled k none)) := by
  refine ⟨fun j => ?_, h.sent, h.opened, h.delivered, h.gathering, h.ordered⟩
  have hcount := h.awaiting j
  show Function.update p.awaiting k (p.awaiting k - 1) j + p.log.countP (answeredOn j) ≤
    p.log.countP (offeredOn j)
  by_cases hj : j = k
  · subst hj
    rw [Function.update_self]
    omega
  · rw [Function.update_of_ne hj]
    exact hcount

/-- What the log says of answers when the handler of socket `k` goes on with one. -/
theorem Inv.countP_answered {k : ℕ} (h : Inv p) (hk : 0 < p.awaiting k) (j : ℕ) :
    Function.update p.awaiting k (p.awaiting k - 1) j +
        (p.log ++ [PageEvent.answered k]).countP (answeredOn j) ≤ p.log.countP (offeredOn j) ∧
      (p.log ++ [PageEvent.answered k]).countP (answeredOn j) =
        p.log.countP (answeredOn j) + if j = k then 1 else 0 := by
  have hcount := h.awaiting j
  by_cases hj : j = k
  · subst hj
    have hself : answeredOn j (.answered j) = true := beq_self_eq_true j
    rw [Function.update_self, countP_concat_of_pos hself, if_pos rfl]
    omega
  · have hother : answeredOn j (.answered k) = false := beq_eq_false_iff_ne.mpr (Ne.symm hj)
    rw [Function.update_of_ne hj, countP_concat_of_neg hother, if_neg hj]
    omega

/-- The answer goes out, or its socket is closing. -/
theorem Inv.next_answer {k : ℕ} {data : Stringified} (h : Inv p) (hk : 0 < p.awaiting k) :
    Inv (p.next (.settled k (some data))) := by
  have hopened := h.opened_of_awaiting hk
  have hcount := h.countP_answered hk
  have hordered : ∀ j, Precedes (Allows j) (candidateOn j · = true) (p.log ++ [.answered k]) :=
    fun j => precedes_concat.mpr ⟨h.ordered j, fun hcandidate => by cases hcandidate⟩
  show Inv (send ⟨p.provider, Function.update p.awaiting k (p.awaiting k - 1), true,
    p.log ++ [.answered k]⟩ k true data)
  unfold send
  split
  · have hself : answerOn k (.sent k true data) = true := by simp [answerOn]
    have hother : ∀ j, j ≠ k → answerOn j (.sent k true data) = false := by
      intro j hj
      simp [answerOn, Ne.symm hj]
    refine ⟨fun j => ?_, fun j => ?_, fun j => ?_, fun j => ?_, fun _ => ⟨k, ?_⟩, fun j => ?_⟩
    · rw [countP_concat_of_neg (f := answeredOn j) rfl, countP_concat_of_neg (f := offeredOn j) rfl,
        countP_concat_of_neg (f := offeredOn j) rfl]
      exact (hcount j).1
    · rw [countP_concat_of_neg (f := answeredOn j) rfl, (hcount j).2]
      have hsent := h.sent j
      by_cases hj : j = k
      · subst hj
        rw [countP_concat_of_pos hself, countP_concat_of_neg (f := answerOn j) rfl, if_pos rfl]
        omega
      · rw [countP_concat_of_neg (hother j hj), countP_concat_of_neg (f := answerOn j) rfl]
        omega
    · rw [countP_concat_of_neg (f := offeredOn j) rfl, countP_concat_of_neg (f := offeredOn j) rfl]
      exact h.opened j
    · rw [countP_concat_of_neg (f := answeredOn j) rfl, (hcount j).2]
      by_cases hj : j = k
      · subst hj
        rw [countP_concat_of_pos hself]
        exact fun _ => .inl (Nat.succ_pos _)
      · rw [if_neg hj, countP_concat_of_neg (hother j hj),
          countP_concat_of_neg (f := answerOn j) rfl]
        exact h.delivered j
    · rw [countP_concat_of_neg (f := answeredOn k) rfl, (hcount k).2, if_pos rfl]
      exact Nat.succ_pos _
    · refine precedes_concat.mpr ⟨hordered j, fun hcandidate => ?_⟩
      simp [candidateOn] at hcandidate
  · next hclosed =>
    replace hclosed : (p.provider.sockets k).readyState ≠ .opened := hclosed
    refine ⟨fun j => ?_, fun j => ?_, fun j => ?_, fun j => ?_, fun _ => ⟨k, ?_⟩, hordered⟩
    · rw [countP_concat_of_neg (f := offeredOn j) rfl]
      exact (hcount j).1
    · have hsent := h.sent j
      rw [(hcount j).2, countP_concat_of_neg (f := answerOn j) rfl]
      omega
    · rw [countP_concat_of_neg (f := offeredOn j) rfl]
      exact h.opened j
    · rw [(hcount j).2, countP_concat_of_neg (f := answerOn j) rfl]
      by_cases hj : j = k
      · subst hj
        refine fun _ => .inr ?_
        revert hopened hclosed
        cases (p.provider.sockets j).readyState <;> decide
      · rw [if_neg hj]
        exact h.delivered j
    · rw [(hcount k).2, if_pos rfl]
      exact Nat.succ_pos _

/-- While the browser gathers, the current socket is one on which a candidate may go out. -/
theorem Inv.allows {k : ℕ} (h : Inv p) (hchain : Provider.ChainInv p.provider)
    (hgathering : p.gathering = true) (hk : p.provider.state.socket = some k)
    (hopen : (p.provider.sockets k).readyState = .opened) : ∃ e ∈ p.log, Allows k e := by
  obtain ⟨j, hj⟩ := h.gathering hgathering
  have hlast : k + 1 = p.provider.created := (hchain.current k).mp hk
  have hcount := h.awaiting j
  have hlt : j < p.provider.created := (h.opened j (by omega)).1
  by_cases hjk : j = k
  · subst hjk
    rcases h.delivered j hj with hsent | hclosing
    · obtain ⟨e, he, hanswer⟩ := List.countP_pos_iff.mp hsent
      exact ⟨e, he, .inl hanswer⟩
    · rw [hopen] at hclosing
      exact absurd hclosing (by decide)
  · obtain ⟨e, he, hanswered⟩ := List.countP_pos_iff.mp hj
    exact ⟨e, he, .inr ⟨j, by omega, hanswered⟩⟩

/-- A candidate goes out on the current socket, for which an answer has, or for one before it. -/
theorem Inv.next_candidate {data : Stringified} (h : Inv p)
    (hchain : Provider.ChainInv p.provider) (hg : p.Guard (.candidate data)) :
    Inv (p.next (.candidate data)) := by
  show Inv (p.onicecandidate data)
  unfold onicecandidate
  split
  · next k hk =>
    unfold send
    split
    · next hopen =>
      refine ⟨fun j => ?_, fun j => ?_, fun j => ?_, fun j => ?_, fun _ => ?_, fun j => ?_⟩
      · rw [countP_concat_of_neg (f := answeredOn j) rfl,
          countP_concat_of_neg (f := offeredOn j) rfl]
        exact h.awaiting j
      · rw [countP_concat_of_neg (f := answeredOn j) rfl,
          countP_concat_of_neg (f := answerOn j) (by simp [answerOn])]
        exact h.sent j
      · rw [countP_concat_of_neg (f := offeredOn j) rfl]
        exact h.opened j
      · rw [countP_concat_of_neg (f := answeredOn j) rfl,
          countP_concat_of_neg (f := answerOn j) (by simp [answerOn])]
        exact h.delivered j
      · obtain ⟨j, hj⟩ := h.gathering hg
        refine ⟨j, ?_⟩
        rw [countP_concat_of_neg (f := answeredOn j) rfl]
        exact hj
      · refine precedes_concat.mpr ⟨h.ordered j, fun hcandidate => ?_⟩
        obtain rfl : k = j := by simpa [candidateOn] using hcandidate
        exact h.allows hchain hg hk hopen
    · exact h
  · exact h

theorem inv_of_reachable (h : page.Reachable p) : Inv p := by
  refine h.invariant inv_init ?_
  intro p l hr hi _ hg
  cases l with
  | socket l => exact hi.next_socket hg
  | message k msg => exact hi.next_message hg
  | settled k answer =>
    cases answer with
    | none => exact hi.next_error
    | some data => exact hi.next_answer hg
  | candidate data => exact hi.next_candidate (chainInv_of_reachable hr) hg

/-- An answer that is made for an open socket goes out. -/
theorem Inv.countP_onAnswer {j k : ℕ} {data : Stringified} (h : Inv p) (hj : 0 < p.awaiting j)
    (hopen : rank (p.provider.sockets k).readyState ≤ 1)
    (hbefore : p.log.countP (answerOn k) = p.log.countP (answeredOn k)) :
    (p.onAnswer j (some data)).log.countP (answerOn k) =
      (p.onAnswer j (some data)).log.countP (answeredOn k) := by
  have hcount := (h.countP_answered hj k).2
  show (send ⟨p.provider, Function.update p.awaiting j (p.awaiting j - 1), true,
      p.log ++ [.answered j]⟩ j true data).log.countP (answerOn k) =
    (send ⟨p.provider, Function.update p.awaiting j (p.awaiting j - 1), true,
      p.log ++ [.answered j]⟩ j true data).log.countP (answeredOn k)
  unfold send
  split
  · rw [countP_concat_of_neg (f := answeredOn k) rfl, hcount, List.countP_append,
      countP_concat_of_neg (f := answerOn k) rfl, hbefore, List.countP_singleton]
    by_cases hjk : k = j
    · simp [answerOn, hjk]
    · simp [answerOn, hjk, Ne.symm hjk]
  · next hclosed =>
    replace hclosed : (p.provider.sockets j).readyState ≠ .opened := hclosed
    rw [hcount, countP_concat_of_neg (f := answerOn k) rfl, hbefore, if_neg, Nat.add_zero]
    -- the socket had opened, and it is not closing
    rintro rfl
    have hone := h.opened_of_awaiting hj
    revert hopen hone hclosed
    cases (p.provider.sockets k).readyState <;> decide

/-- As long as a socket is not closing, every answer made for it has gone out. -/
theorem answerOn_eq_answeredOn (h : page.Reachable p) {k : ℕ} :
    rank (p.provider.sockets k).readyState ≤ 1 →
      p.log.countP (answerOn k) = p.log.countP (answeredOn k) := by
  refine h.invariant (P := fun p => rank (p.provider.sockets k).readyState ≤ 1 →
    p.log.countP (answerOn k) = p.log.countP (answeredOn k)) (fun _ => rfl) ?_
  intro p l hr hi _ hg hopen
  have hinv := inv_of_reachable hr
  cases l with
  | socket l =>
    by_cases hk : k < p.provider.created
    · exact hi ((rank_le_next hg hk).2.trans hopen)
    · -- nothing comes on a socket that has not been created
      have hnone : p.log.countP (offeredOn k) = 0 := by
        by_contra hpos
        exact hk (hinv.opened k (Nat.pos_of_ne_zero hpos)).1
      have hawaiting := hinv.awaiting k
      have hsent := hinv.sent k
      show p.log.countP (answerOn k) = p.log.countP (answeredOn k)
      omega
  | message j msg =>
    replace hopen : rank ((p.onmessage j msg).provider.sockets k).readyState ≤ 1 := hopen
    rw [onmessage_provider] at hopen
    show (p.onmessage j msg).log.countP (answerOn k) = (p.onmessage j msg).log.countP (answeredOn k)
    unfold onmessage
    split
    · rw [countP_concat_of_neg (f := answerOn k) rfl, countP_concat_of_neg (f := answeredOn k) rfl]
      exact hi hopen
    · exact hi hopen
  | settled j answer =>
    replace hopen : rank ((p.onAnswer j answer).provider.sockets k).readyState ≤ 1 := hopen
    rw [onAnswer_provider] at hopen
    cases answer with
    | none => exact hi hopen
    | some data => exact hinv.countP_onAnswer hg hopen (hi hopen)
  | candidate data =>
    replace hopen : rank ((p.onicecandidate data).provider.sockets k).readyState ≤ 1 := hopen
    rw [onicecandidate_provider] at hopen
    show (p.onicecandidate data).log.countP (answerOn k) =
      (p.onicecandidate data).log.countP (answeredOn k)
    unfold onicecandidate send
    split
    · split
      · rw [countP_concat_of_neg (f := answerOn k) (by simp [answerOn]),
          countP_concat_of_neg (f := answeredOn k) rfl]
        exact hi hopen
      · exact hi hopen
    · exact hi hopen

/-- **What goes out on a socket.** In every run, through any number of reconnects: on each socket
there is at most one answer for each offer that came on it; and before a candidate goes out on it,
an answer has, unless one was made for an offer on an earlier socket. -/
theorem page_signalling (h : page.Reachable p) (k : ℕ) :
    p.log.countP (answerOn k) ≤ p.log.countP (offeredOn k) ∧
      Precedes (Allows k) (candidateOn k · = true) p.log := by
  have hinv := inv_of_reachable h
  have hsent := hinv.sent k
  have hawaiting := hinv.awaiting k
  exact ⟨by omega, hinv.ordered k⟩

/-- What a browser without media would answer. -/
def emptyText : Stringified := ⟨ReadLoop.emptyObject, .object [], rfl⟩

/-- An offer comes, is answered, and the browser gathers a candidate. -/
def sessionLabels : List Label :=
  [.socket (.initSocket "wss://stream"), .socket (.opened 0),
    .message 0 (offerMessage (some "sdp")), .settled 0 (some emptyText), .candidate emptyText]

theorem page_signalling_session : ∃ p, page.Reachable p ∧ 0 < p.log.countP (candidateOn 0) ∧
    p.log.countP (answerOn 0) ≤ p.log.countP (offeredOn 0) ∧
      Precedes (Allows 0) (candidateOn 0 · = true) p.log := by
  obtain ⟨p, hp, hcandidate⟩ := page.reachable_of_exec sessionLabels
    (fun p => 0 < p.log.countP (candidateOn 0)) (by decide)
  exact ⟨p, hp, hcandidate, page_signalling hp 0⟩

/-! ## What the server makes of it -/

/-- What of it goes out on socket `k`. -/
def messageOn (k : ℕ) : PageEvent → Option PageMessage
  | .sent j answer data => if j = k then some ⟨answer, data.1⟩ else none
  | _ => none

/-- The messages that go out on socket `k`. -/
def sentOn (p : Page) (k : ℕ) : List PageMessage := p.log.filterMap (messageOn k)

theorem messageOn_eq_some {k : ℕ} {e : PageEvent} {m : PageMessage} (h : messageOn k e = some m) :
    m.WellFormed ∧ (m.answer = true → answerOn k e = true) ∧
      (m.answer = false → candidateOn k e = true) := by
  cases e with
  | sent j answer data =>
    rw [messageOn] at h
    split at h
    · next hj =>
      obtain rfl := Option.some.inj h
      refine ⟨data.2, ?_, ?_⟩
      · rintro rfl
        simp [answerOn, hj]
      · rintro rfl
        simp [candidateOn, hj]
    · cases h
  | offered | answered => cases h

theorem exists_messageOn {k : ℕ} {e : PageEvent} (h : answerOn k e = true) :
    ∃ m, messageOn k e = some m ∧ m.answer = true := by
  cases e with
  | sent j answer data =>
    obtain ⟨rfl, rfl⟩ : j = k ∧ answer = true := by simpa [answerOn] using h
    exact ⟨⟨true, data.1⟩, if_pos rfl, rfl⟩
  | offered | answered => cases h

theorem wellFormed_of_mem_sentOn {k : ℕ} {m : PageMessage} (h : m ∈ p.sentOn k) : m.WellFormed := by
  obtain ⟨e, -, he⟩ := List.mem_filterMap.mp h
  exact (messageOn_eq_some he).1

/-- If no answer was made for an earlier socket, the first message is one. -/
theorem precedes_sentOn {k : ℕ} (h : Precedes (Allows k) (candidateOn k · = true) p.log)
    (hfirst : ∀ j < k, p.log.countP (answeredOn j) = 0) :
    Precedes (fun m => m.answer = true) (fun m => m.answer = false) (p.sentOn k) := by
  refine h.filterMap (fun e he hallows => ?_) fun e m hm hcandidate => ?_
  · rcases hallows with hanswer | ⟨j, hj, hanswered⟩
    · exact exists_messageOn hanswer
    · exact absurd hanswered (List.countP_eq_zero.mp (hfirst j hj) e he)
  · exact (messageOn_eq_some hm).2.2 hcandidate

/-- What `ReadLoop` has read of messages of which the first is an answer. -/
theorem precedes_loopOn {sent : List PageMessage}
    (h : Precedes (fun m => m.answer = true) (fun m => m.answer = false) sent)
    (hwell : ∀ m ∈ sent, m.WellFormed) (w : ReadLoop.Webrtc)
    (message : Option ReadLoop.WebsocketMessage) {ms : List (PageMessage × Bool)}
    (hms : ms.map Prod.fst <+: sent) :
    Precedes (fun call => ∃ answer, call = ReadLoop.Call.setRemoteDescription answer)
      (fun call => ∃ candidate, call = .addICECandidate candidate)
      (loopOn w message (ms.map fun m => m.1.input m.2)).1 := by
  have hread : ∀ m ∈ ms, m.1.WellFormed :=
    fun m hm => hwell m.1 (hms.subset (List.mem_map_of_mem hm))
  obtain ⟨first, hpre, hcalls⟩ := exists_forall₂_applyAll w ms
  rw [loopOn_input w hread]
  have hfirst := h.of_prefix (hpre.trans hms)
  refine Precedes.forall₂ hfirst hcalls (fun m call hask hanswer => ?_)
    fun m call hask hcandidate => ?_
  · rcases PageMessage.asks_eq_some hask with ⟨-, hset⟩ | ⟨hnot, -⟩
    · exact hset
    · rw [hanswer] at hnot
      cases hnot
  · rcases PageMessage.asks_eq_some hask with ⟨-, answer, rfl⟩ | ⟨hnot, -⟩
    · obtain ⟨candidate, hcall⟩ := hcandidate
      cases hcall
    · exact hnot

/-- **The answer is applied first.** Whatever becomes of the sockets, on one before which no answer
was made, the first one for instance, the server's `ReadLoop` sets the remote description before it
adds a candidate, however much of what the page sent it has read and whatever pion's decoder and
calls make of it. -/
theorem server_applies_answer_first (h : page.Reachable p) {k : ℕ}
    (hfirst : ∀ j < k, p.log.countP (answeredOn j) = 0) (w : ReadLoop.Webrtc)
    (message : Option ReadLoop.WebsocketMessage) {ms : List (PageMessage × Bool)}
    (hms : ms.map Prod.fst <+: p.sentOn k) :
    Precedes (fun call => ∃ answer, call = ReadLoop.Call.setRemoteDescription answer)
      (fun call => ∃ candidate, call = .addICECandidate candidate)
      (loopOn w message (ms.map fun m => m.1.input m.2)).1 := by
  have hsent := precedes_sentOn ((inv_of_reachable h).ordered k) hfirst
  exact precedes_loopOn hsent (fun m hm => wellFormed_of_mem_sentOn hm) w message hms

theorem server_applies_answer_first_session : ∃ p, page.Reachable p ∧
    (p.sentOn 0).map PageMessage.answer = [true, false] ∧
    Precedes (fun call => ∃ answer, call = ReadLoop.Call.setRemoteDescription answer)
      (fun call => ∃ candidate, call = .addICECandidate candidate)
      (loopOn ReadLoop.exampleWebrtc (some .zero)
        ((p.sentOn 0).map fun m => m.input true)).1 := by
  obtain ⟨p, hp, hsent⟩ := page.reachable_of_exec sessionLabels
    (fun p => (p.sentOn 0).map PageMessage.answer = [true, false]) (by decide)
  have hall : ((p.sentOn 0).map fun m => (m, true)).map Prod.fst <+: p.sentOn 0 := by
    rw [List.map_map, show Prod.fst ∘ (fun m : PageMessage => (m, true)) = id from rfl, List.map_id]
  have hfirst : ∀ j < 0, p.log.countP (answeredOn j) = 0 := by omega
  have hcalls := server_applies_answer_first hp hfirst ReadLoop.exampleWebrtc (some .zero) hall
  rw [List.map_map] at hcalls
  exact ⟨p, hp, hsent, hcalls⟩

/-- **Stray candidates.** The socket closes while the browser gathers, and the next candidate is the
first thing that goes out on the socket after it, before any offer has come there. -/
theorem stray_candidate : ∃ p, page.Reachable p ∧ (p.sentOn 1).map PageMessage.answer = [false] ∧
    p.log.countP (offeredOn 1) = 0 :=
  page.reachable_of_exec
    (sessionLabels ++ [.socket (.closing 0), .socket (.close 0), .socket (.timeout 0),
      .socket (.opened 1), .candidate emptyText])
    (fun p => (p.sentOn 1).map PageMessage.answer = [false] ∧ p.log.countP (offeredOn 1) = 0)
    (by decide)

end Page

end Lightspeed.Frontend
