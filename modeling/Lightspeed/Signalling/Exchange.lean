import Lightspeed.Frontend.Page
import Lightspeed.Hub.Written

/-!
# Signalling from end to end

The hub with all its goroutines and the page of one of its viewers with all its sockets, joined by
what a websocket does: a side receives a beginning of what the other has written, in order. The
hub's other clients are those of other viewers.

So no step of the exchange on a socket is taken twice (`one_exchange`): at most one offer is handed
over, acted on and answered, and the answer is applied by the handler that made the offer.
-/

namespace Lightspeed

open Hub (ClientId WebsocketMessage PageMessage Wrote)
open Hub.ReadLoop (Webrtc Call Exit)
open Frontend (Page PageEvent IsOffer)
open Frontend.Page (offeredOn answeredOn answerOn messageOn)

namespace Signalling

structure State where
  server : Hub.State
  page : Page
  /-- The client that the handler of socket `k` makes, once the request has come. -/
  client : ℕ → Option ClientId
  /-- The clients of these handlers. -/
  served : Finset ClientId
  /-- What a client's `WriteLoop` has written on its connection. -/
  written : ClientId → List WebsocketMessage
  /-- What the page has received on a socket. -/
  received : ℕ → List WebsocketMessage
  /-- What a client's `ReadLoop` has read, and whether the call it led to succeeded. -/
  read : ClientId → List (PageMessage × Bool)

def init : State where
  server := Hub.init
  page := .init
  client := fun _ => none
  served := ∅
  written := fun _ => []
  received := fun _ => []
  read := fun _ => []

section Network

variable (s : State)

/-- The next message for the page on socket `k`. -/
def State.arriving (k : ℕ) : Option WebsocketMessage :=
  (s.client k).bind fun c => (s.written c)[(s.received k).length]?

/-- The next message for `c`'s `ReadLoop`, which reads from socket `k`. -/
def State.unread (k : ℕ) (c : ClientId) : Option PageMessage :=
  (s.page.sentOn k)[(s.read c).length]?

/-- The calls that `c`'s `ReadLoop` has made on its peer connection, and whether it goes on. -/
def State.loop (w : Webrtc) (c : ClientId) : List (Call w) × Exit :=
  Hub.loopOn w (some .zero) ((s.read c).map fun p => p.1.input p.2)

end Network

/-! ## Steps -/

inductive Label
  | server (l : Hub.Label)
  | page (l : Page.Label)
  /-- The request of socket `k` comes to the server, which starts a handler. -/
  | accept (k : ℕ) (c : ClientId)
  /-- `ReadLoop` reads a message, whose call succeeds or not. -/
  | read (k : ℕ) (c : ClientId) (ok : Bool)

/-- What the page's steps require of the network. -/
def Delivers (s : State) : Page.Label → Prop
  | .socket (.opened k) => (s.client k).isSome
  | .message k msg => s.arriving k = some msg
  | _ => True

def Guard (w : Webrtc) (s : State) : Label → Prop
  | .server l => Hub.Enabled s.server l
  | .page l => s.page.Guard l ∧ Delivers s l
  | .accept k c => k < s.page.provider.created ∧ s.client k = none ∧ c ∉ s.served ∧
    s.server.handler c = .connecting
  | .read k c _ => s.client k = some c ∧ s.server.handler c = .readLoop ∧
    (s.loop w c).2 = .loops ∧ (s.unread k c).isSome

/-- What the page receives on socket `k` in a step. -/
def arrived (k : ℕ) : Page.Label → List WebsocketMessage
  | .message j msg => if j = k then [msg] else []
  | _ => []

def next (s : State) : Label → State
  | .server l =>
    { s with server := Hub.next s.server l, written := fun c => s.written c ++ l.wrote c }
  | .page l =>
    { s with page := s.page.next l, received := fun k => s.received k ++ arrived k l }
  | .accept k c =>
    { s with client := Function.update s.client k (some c), served := insert c s.served }
  | .read k c ok =>
    let next := (s.unread k c).toList.map fun m => (m, ok)
    { s with read := Function.update s.read c (s.read c ++ next) }

end Signalling

open Signalling in
/-- The server and a page. -/
def signalling (w : Hub.ReadLoop.Webrtc) : Lts State Label := ⟨init, Guard w, next⟩

namespace Signalling

variable {w : Webrtc} {s : State}

/-- The page does not see what goes on in the server, nor the server in the page. -/
theorem server_refines (w : Webrtc) : Lts.Refines (signalling w) Hub.hub State.server where
  init := rfl
  step s l _ hg := by
    cases l with
    | server l => exact .inr ⟨l, hg, rfl⟩
    | page | accept | read => exact .inl rfl

theorem page_refines (w : Webrtc) : Lts.Refines (signalling w) Frontend.page State.page where
  init := rfl
  step s l _ hg := by
    cases l with
    | page l => exact .inr ⟨l, hg.1, rfl⟩
    | server | accept | read => exact .inl rfl

/-! ## Nothing is lost on the way or made up -/

/-- The next one of a list is received. -/
theorem prefix_concat_of_getElem? {α : Type*} {l l' : List α} {x : α} (h : l <+: l')
    (hx : l'[l.length]? = some x) : l ++ [x] <+: l' := by
  obtain ⟨rest, rfl⟩ := h
  rw [List.getElem?_append_right (Nat.le_refl _), Nat.sub_self] at hx
  cases rest with
  | nil => cases hx
  | cons y rest =>
    obtain rfl : y = x := Option.some.inj hx
    exact ⟨rest, by rw [List.append_assoc, List.singleton_append]⟩

instance : DecidablePred IsOffer := fun m =>
  inferInstanceAs (Decidable (m.event = .offer ∧ m.data ≠ .sessionDescription none))

def isOffer (m : WebsocketMessage) : Bool := decide (IsOffer m)

/-- An offer makes the page answer, and nothing else does. -/
theorem createAnswer_mem_iff (msg : WebsocketMessage) :
    Frontend.Call.createAnswer ∈ Frontend.onmessage msg ↔ IsOffer msg := by
  unfold Frontend.onmessage IsOffer
  split
  · next hdata => simp [hdata]
  · next hdata =>
    split
    · next hevent => simp [hevent, hdata]
    all_goals
      next hevent => simp [hevent]

/-- The log grows by what goes out. -/
theorem exists_log_send (p : Page) (k : ℕ) (answer : Bool) (data : Frontend.Stringified) :
    ∃ es, (p.send k answer data).log = p.log ++ es ∧ ∀ j, es.countP (offeredOn j) = 0 := by
  unfold Page.send
  split
  · exact ⟨[.sent k answer data], rfl, fun _ => rfl⟩
  · exact ⟨[], (List.append_nil _).symm, fun _ => rfl⟩

/-- The log grows at its end, and by an offer when one arrives. -/
theorem exists_log_next (p : Page) (l : Page.Label) : ∃ es, (p.next l).log = p.log ++ es ∧
    ∀ k, es.countP (offeredOn k) = (arrived k l).countP isOffer := by
  have quiet : p.log = p.log ++ [] := (List.append_nil _).symm
  cases l with
  | socket l => exact ⟨[], quiet, fun k => rfl⟩
  | message j msg =>
    have harrived : ∀ k, (arrived k (.message j msg)).countP isOffer =
        if j = k ∧ IsOffer msg then 1 else 0 := by
      intro k
      rw [arrived]
      split
      · next hj => simp [hj, isOffer]
      · next hj => simp [hj]
    show ∃ es, (p.onmessage j msg).log = _ ∧ _
    unfold Page.onmessage
    split
    · next hanswer =>
      rw [createAnswer_mem_iff] at hanswer
      refine ⟨[.offered j], rfl, fun k => ?_⟩
      rw [harrived, List.countP_singleton]
      simp [offeredOn, hanswer]
    · next hanswer =>
      rw [createAnswer_mem_iff] at hanswer
      refine ⟨[], quiet, fun k => ?_⟩
      rw [harrived, if_neg fun hboth => hanswer hboth.2]
      rfl
  | settled j answer =>
    cases answer with
    | none => exact ⟨[], quiet, fun k => rfl⟩
    | some data =>
      obtain ⟨es, hlog, hcount⟩ := exists_log_send
        ⟨p.provider, Function.update p.awaiting j (p.awaiting j - 1), true, p.log ++ [.answered j]⟩
        j true data
      refine ⟨.answered j :: es, ?_, fun k => ?_⟩
      · rw [← List.singleton_append, ← List.append_assoc]
        exact hlog
      · rw [List.countP_cons_of_neg (by simp [offeredOn]), hcount]
        rfl
  | candidate data =>
    show ∃ es, (p.onicecandidate data).log = _ ∧ _
    unfold Page.onicecandidate
    split
    · next j _ =>
      obtain ⟨es, hlog, hcount⟩ := exists_log_send p j false data
      exact ⟨es, hlog, hcount⟩
    · exact ⟨[], quiet, fun k => rfl⟩

theorem sentOn_prefix_next (p : Page) (l : Page.Label) (k : ℕ) :
    p.sentOn k <+: (p.next l).sentOn k := by
  obtain ⟨es, hlog, -⟩ := exists_log_next p l
  rw [Page.sentOn, Page.sentOn, hlog, List.filterMap_append]
  exact List.prefix_append _ _

theorem countP_offeredOn_next (p : Page) (l : Page.Label) (k : ℕ) :
    (p.next l).log.countP (offeredOn k) =
      p.log.countP (offeredOn k) + (arrived k l).countP isOffer := by
  obtain ⟨es, hlog, hcount⟩ := exists_log_next p l
  rw [hlog, List.countP_append, hcount]

theorem lt_created_next {p : Page} {l : Page.Label} {k : ℕ} (hg : p.Guard l)
    (hk : k < p.provider.created) : k < (p.next l).provider.created := by
  cases l with
  | socket l => exact (Page.rank_le_next hg hk).1
  | message j msg => exact (Page.onmessage_provider p j msg).symm ▸ hk
  | settled j answer => exact (Page.onAnswer_provider p j answer).symm ▸ hk
  | candidate data => exact (Page.onicecandidate_provider p data).symm ▸ hk

structure Inv (s : State) : Prop where
  wrote : ∀ c, Wrote s.server c (s.written c)
  /-- The page has received the first of what the handler of the socket has written. -/
  received : ∀ k c, s.client k = some c → s.received k <+: s.written c
  silent : ∀ k, s.client k = none → s.received k = []
  /-- The handler has read the first of what the page has sent on its socket, -/
  read : ∀ k c, s.client k = some c → (s.read c).map Prod.fst <+: s.page.sentOn k
  unread : ∀ c ∉ s.served, s.read c = []
  /-- and it has no other socket. -/
  served : ∀ k c, s.client k = some c → c ∈ s.served
  created : ∀ k c, s.client k = some c → k < s.page.provider.created
  unique : ∀ j k c, s.client j = some c → s.client k = some c → j = k
  /-- The page acts on the offers it receives. -/
  offered : ∀ k, s.page.log.countP (offeredOn k) = (s.received k).countP isOffer

theorem inv_init : Inv init where
  wrote := Hub.wrote_init
  received k c h := by cases h
  silent k h := rfl
  read k c h := by cases h
  unread c h := rfl
  served k c h := by cases h
  created k c h := by cases h
  unique j k c h := by cases h
  offered k := rfl

theorem Inv.next_server {l : Hub.Label} (h : Inv s) (hen : Hub.Enabled s.server l) :
    Inv (next s (.server l)) where
  wrote c := (h.wrote c).next hen
  received k c hc := (h.received k c hc).trans (List.prefix_append _ _)
  silent := h.silent
  read := h.read
  unread := h.unread
  served := h.served
  created := h.created
  unique := h.unique
  offered := h.offered

/-- What arrives is the next message of the socket. -/
theorem arrived_cases {l : Page.Label} (h : Delivers s l) (k : ℕ) :
    arrived k l = [] ∨ ∃ msg, arrived k l = [msg] ∧ s.arriving k = some msg := by
  cases l with
  | message j msg =>
    by_cases hj : j = k
    · subst hj
      exact .inr ⟨msg, if_pos rfl, h⟩
    · exact .inl (if_neg hj)
  | socket | settled | candidate => exact .inl rfl

theorem Inv.next_page {l : Page.Label} (h : Inv s) (hg : s.page.Guard l)
    (hdelivers : Delivers s l) : Inv (next s (.page l)) where
  wrote := h.wrote
  received k c hc := by
    have hold := h.received k c hc
    show s.received k ++ arrived k l <+: s.written c
    rcases arrived_cases hdelivers k with hnone | ⟨msg, hone, harriving⟩
    · rw [hnone, List.append_nil]
      exact hold
    · have hnext : (s.written c)[(s.received k).length]? = some msg := by
        rwa [State.arriving, show s.client k = _ from hc] at harriving
      rw [hone]
      exact prefix_concat_of_getElem? hold hnext
  silent k hk := by
    show s.received k ++ arrived k l = []
    rcases arrived_cases hdelivers k with hnone | ⟨msg, -, harriving⟩
    · rw [hnone, List.append_nil]
      exact h.silent k hk
    · rw [State.arriving, show s.client k = _ from hk] at harriving
      cases harriving
  read k c hc := (h.read k c hc).trans (sentOn_prefix_next s.page l k)
  unread := h.unread
  served := h.served
  created k c hc := lt_created_next hg (h.created k c hc)
  unique := h.unique
  offered k := by
    show (s.page.next l).log.countP (offeredOn k) = (s.received k ++ arrived k l).countP isOffer
    rw [countP_offeredOn_next, List.countP_append, h.offered k]

/-- A handler starts on a socket that has none, before anything was received or read there. -/
theorem Inv.next_accept {k : ℕ} {c : ClientId} (h : Inv s) (hg : Guard w s (.accept k c)) :
    Inv (next s (.accept k c)) := by
  obtain ⟨hcreated, hfree, hfresh, -⟩ := hg
  -- the handler of a socket is the new one, or one from before
  have hclient : ∀ j c', Function.update s.client k (some c) j = some c' →
      j = k ∧ c' = c ∨ j ≠ k ∧ s.client j = some c' := by
    intro j c' hc
    rw [Function.update_apply] at hc
    split at hc
    · next hj => exact .inl ⟨hj, (Option.some.inj hc).symm⟩
    · next hj => exact .inr ⟨hj, hc⟩
  refine ⟨h.wrote, fun j c' hc => ?_, fun j hj => ?_, fun j c' hc => ?_, fun c' hc => ?_,
    fun j c' hc => ?_, fun j c' hc => ?_, fun i j c' hi hj => ?_, h.offered⟩
  · rcases hclient j c' hc with ⟨rfl, rfl⟩ | ⟨-, hold⟩
    · show s.received j <+: _
      rw [h.silent j hfree]
      exact List.nil_prefix
    · exact h.received j c' hold
  · refine h.silent j ?_
    replace hj : Function.update s.client k (some c) j = none := hj
    rw [Function.update_apply] at hj
    split at hj
    · cases hj
    · exact hj
  · rcases hclient j c' hc with ⟨rfl, rfl⟩ | ⟨-, hold⟩
    · show (s.read c').map Prod.fst <+: _
      rw [h.unread c' hfresh]
      exact List.nil_prefix
    · exact h.read j c' hold
  · exact h.unread c' fun hmem => hc (Finset.mem_insert_of_mem hmem)
  · rcases hclient j c' hc with ⟨rfl, rfl⟩ | ⟨-, hold⟩
    · exact Finset.mem_insert_self ..
    · exact Finset.mem_insert_of_mem (h.served j c' hold)
  · rcases hclient j c' hc with ⟨rfl, -⟩ | ⟨-, hold⟩
    · exact hcreated
    · exact h.created j c' hold
  · rcases hclient i c' hi with ⟨rfl, rfl⟩ | ⟨-, holdi⟩
    · rcases hclient j c' hj with ⟨rfl, -⟩ | ⟨-, holdj⟩
      · rfl
      · exact absurd (h.served j c' holdj) hfresh
    · rcases hclient j c' hj with ⟨rfl, rfl⟩ | ⟨-, holdj⟩
      · exact absurd (h.served i c' holdi) hfresh
      · exact h.unique i j c' holdi holdj

theorem read_next {k : ℕ} {c : ClientId} {m : PageMessage} (hm : s.unread k c = some m)
    (ok : Bool) :
    (next s (.read k c ok)).read = Function.update s.read c (s.read c ++ [(m, ok)]) := by
  show Function.update s.read c (s.read c ++ (s.unread k c).toList.map fun m => (m, ok)) = _
  rw [hm]
  rfl

theorem Inv.next_read {k : ℕ} {c : ClientId} {ok : Bool} (h : Inv s)
    (hg : Guard w s (.read k c ok)) : Inv (next s (.read k c ok)) := by
  obtain ⟨hclient, -, -, hsome⟩ := hg
  obtain ⟨m, hm⟩ := Option.isSome_iff_exists.mp hsome
  have hread := read_next hm ok
  refine ⟨h.wrote, h.received, h.silent, fun j c' hc => ?_, fun c' hc => ?_, h.served, h.created,
    h.unique, h.offered⟩
  · have hold := h.read j c' hc
    rw [hread, Function.update_apply]
    split
    · next heq =>
      subst heq
      obtain rfl := h.unique j k c' hc hclient
      rw [List.map_append]
      refine prefix_concat_of_getElem? hold ?_
      rw [List.length_map]
      exact hm
    · exact hold
  · rw [hread, Function.update_of_ne]
    · exact h.unread c' hc
    · rintro rfl
      exact hc (h.served k c' hclient)

theorem inv_of_reachable (h : (signalling w).Reachable s) : Inv s := by
  refine h.invariant inv_init fun s l _ hi _ hg => ?_
  cases l with
  | server l => exact hi.next_server hg
  | page l => exact hi.next_page hg.1 hg.2
  | accept k c => exact hi.next_accept (w := w) hg
  | read k c ok => exact hi.next_read (w := w) hg

/-! ## One exchange -/

theorem received_prefix_handed (h : (signalling w).Reachable s) {k : ℕ} {c : ClientId}
    (hc : s.client k = some c) : s.received k <+: s.server.handed c :=
  ((inv_of_reachable h).received k c hc).trans ((inv_of_reachable h).wrote c).written

theorem countP_isOffer_le (server : Hub.State) (c : ClientId) :
    (server.handed c).countP isOffer ≤ server.offers c :=
  List.countP_mono_left fun _ _ hm => decide_eq_true (of_decide_eq_true hm).1

/-- The page acts on no more offers than were handed over. -/
theorem countP_offeredOn_le (h : (signalling w).Reachable s) {k : ℕ} {c : ClientId}
    (hc : s.client k = some c) : s.page.log.countP (offeredOn k) ≤ s.server.offers c :=
  calc s.page.log.countP (offeredOn k)
    _ = (s.received k).countP isOffer := (inv_of_reachable h).offered k
    _ ≤ (s.server.handed c).countP isOffer := (received_prefix_handed h hc).sublist.countP_le
    _ ≤ s.server.offers c := countP_isOffer_le s.server c

/-- A call of `SetRemoteDescription`. -/
def applies : Call w → Bool
  | .setRemoteDescription _ => true
  | .addICECandidate _ => false

theorem countP_of_forall₂ {α β : Type*} {r : α → β → Prop} {f : α → Bool} {g : β → Bool}
    {l : List α} {l' : List β} (h : List.Forall₂ r l l') (hfg : ∀ x y, r x y → f x = g y) :
    l.countP f = l'.countP g := by
  induction h with
  | nil => rfl
  | cons hxy _ ih => rw [List.countP_cons, List.countP_cons, ih, hfg _ _ hxy]

theorem answer_of_asks {m : PageMessage} {call : Call w} (h : m.asks w = some call) :
    m.answer = applies call := by
  rcases PageMessage.asks_eq_some h with ⟨hanswer, answer, rfl⟩ | ⟨hnot, candidate, rfl⟩
  · exact hanswer
  · exact hnot

/-- The answers among what goes out on socket `k`. -/
theorem countP_sentOn (p : Page) (k : ℕ) :
    (p.sentOn k).countP PageMessage.answer = p.log.countP (answerOn k) := by
  rw [Page.sentOn, List.countP_filterMap]
  congr 1
  funext e
  cases e with
  | offered | answered => rfl
  | sent j answer data =>
    simp only [messageOn, answerOn]
    by_cases hj : j = k
    · simp [hj]
    · simp [hj]

/-- `ReadLoop` applies what it reads. -/
theorem loop_eq (h : (signalling w).Reachable s) {k : ℕ} {c : ClientId} (hc : s.client k = some c) :
    s.loop w c = Hub.applyAll w (s.read c) := by
  have hread := (inv_of_reachable h).read k c hc
  exact Hub.loopOn_input w (fun p hp =>
    Page.wellFormed_of_mem_sentOn (hread.subset (List.mem_map_of_mem hp))) (some .zero)

/-- The handler applies no more answers than went out on its socket. -/
theorem countP_applies_le (h : (signalling w).Reachable s) {k : ℕ} {c : ClientId}
    (hc : s.client k = some c) :
    (s.loop w c).1.countP applies ≤ s.page.log.countP (answerOn k) := by
  have hread := (inv_of_reachable h).read k c hc
  obtain ⟨first, hpre, hcalls⟩ := Hub.exists_forall₂_applyAll w (s.read c)
  calc (s.loop w c).1.countP applies
    _ = (Hub.applyAll w (s.read c)).1.countP applies := by rw [loop_eq h hc]
    _ = first.countP PageMessage.answer :=
      (countP_of_forall₂ hcalls fun _ _ hask => answer_of_asks hask).symm
    _ ≤ (s.page.sentOn k).countP PageMessage.answer := (hpre.trans hread).sublist.countP_le
    _ = s.page.log.countP (answerOn k) := countP_sentOn s.page k

/-- **One exchange on each socket.** In every run of the server and the page together, through any
number of reconnects and whatever the other viewers do, on each socket that a handler serves: the
handler's `ReadLoop` sets the remote description no more often than an answer went out on the
socket, which is no more often than the page acted on an offer that came there, which is no more
often than the handler handed one over, and that is once at most. And if no answer was made for an
offer on an earlier socket, `ReadLoop` sets the remote description before it adds a candidate. -/
theorem one_exchange (h : (signalling w).Reachable s) {k : ℕ} {c : ClientId}
    (hc : s.client k = some c) :
    (s.loop w c).1.countP applies ≤ s.page.log.countP (answerOn k) ∧
    s.page.log.countP (answerOn k) ≤ s.page.log.countP (offeredOn k) ∧
    s.page.log.countP (offeredOn k) ≤ s.server.offers c ∧ s.server.offers c ≤ 1 ∧
    ((∀ j < k, s.page.log.countP (answeredOn j) = 0) →
      Precedes (fun call => ∃ answer, call = Call.setRemoteDescription answer)
        (fun call => ∃ candidate, call = .addICECandidate candidate) (s.loop w c).1) := by
  have hpage := Page.inv_of_reachable ((page_refines w).reachable h)
  refine ⟨countP_applies_le h hc, ?_, countP_offeredOn_le h hc,
    Hub.offers_le_one ((server_refines w).reachable h) c, fun hfirst => ?_⟩
  · have hsent := hpage.sent k
    have hawaiting := hpage.awaiting k
    omega
  · have hread := (inv_of_reachable h).read k c hc
    exact Page.precedes_loopOn (Page.precedes_sentOn (hpage.ordered k) hfirst)
      (fun m hm => Page.wellFormed_of_mem_sentOn hm) w (some .zero) hread

instance (s : State) : DecidablePred (Delivers s) := fun l =>
  match l with
  | .socket (.opened k) => inferInstanceAs (Decidable ((s.client k).isSome = true))
  | .message k msg => inferInstanceAs (Decidable (s.arriving k = some msg))
  | .socket (.initSocket _) | .socket .configFailed | .socket (.closing _) | .socket (.ended _)
  | .socket (.error _) | .socket (.close _) | .socket (.timeout _) | .settled ..
  | .candidate _ => .isTrue trivial

instance (w : Webrtc) (s : State) : DecidablePred (Guard w s) := fun l =>
  match l with
  | .server l => inferInstanceAs (Decidable (Hub.hub.Enabled s.server l))
  | .page l => inferInstanceAs (Decidable (s.page.Guard l ∧ Delivers s l))
  | .accept k c => inferInstanceAs (Decidable (k < s.page.provider.created ∧ s.client k = none ∧
      c ∉ s.served ∧ s.server.handler c = .connecting))
  | .read k c _ => inferInstanceAs (Decidable (s.client k = some c ∧
      s.server.handler c = .readLoop ∧ (s.loop w c).2 = .loops ∧ (s.unread k c).isSome = true))

instance (w : Webrtc) (s : State) (l : Label) : Decidable ((signalling w).Enabled s l) :=
  inferInstanceAs (Decidable (Guard w s l))

/-- A viewer is sent an offer and answers it, with a candidate, and the server reads both. -/
def sessionLabels : List Label :=
  [.page (.socket (.initSocket "wss://stream")), .accept 0 0] ++
    (Hub.connectLabels 0 ++ Hub.registerLabels 0 1 ++ Hub.prepareLabels 0 ++
      Hub.sendOfferLabels 0 ++ Hub.readLoopLabels 0).map .server ++
    [.page (.socket (.opened 0)), .page (.message 0 (Hub.offerMessage (some "sdp"))),
      .page (.settled 0 (some Page.emptyText)), .page (.candidate Page.emptyText), .read 0 0 true,
      .read 0 0 true]

theorem one_exchange_session : ∃ s, (signalling Hub.ReadLoop.exampleWebrtc).Reachable s ∧
    (s.loop Hub.ReadLoop.exampleWebrtc 0).1.length = 2 ∧
    (s.loop Hub.ReadLoop.exampleWebrtc 0).1.countP applies = 1 ∧
    s.page.log.countP (answerOn 0) = 1 ∧ s.page.log.countP (offeredOn 0) = 1 ∧
    s.server.offers 0 = 1 := by
  obtain ⟨s, hs, hclient, hcalls, happlied⟩ :=
    (signalling Hub.ReadLoop.exampleWebrtc).reachable_of_exec sessionLabels
      (fun s => s.client 0 = some 0 ∧ (s.loop Hub.ReadLoop.exampleWebrtc 0).1.length = 2 ∧
        (s.loop Hub.ReadLoop.exampleWebrtc 0).1.countP applies = 1) (by decide)
  obtain ⟨hsent, hoffered, hhanded, hone, -⟩ := one_exchange hs hclient
  exact ⟨s, hs, hcalls, happlied, by omega, by omega, by omega⟩

end Signalling

end Lightspeed
