import Mathlib.Data.Prod.Lex
import Lightspeed.Hub.Departure
import Lightspeed.Signalling.Exchange

/-!
# The exchange completes

Once a handler has handed its offer over, and as long as nothing fails on its socket, the exchange
comes to its end: in whatever order the server, the page and the network go on, and while the hub
does its other work, `ReadLoop` comes to have set the remote description, once
(`exchange_completes`).

What decreases is the hub's work, and while that stays the same, what is under way between the two
sides: a message waits to be received, it may make the page wait for an answer, and the answer waits
to be read (`lag`).
-/

namespace Lightspeed.Signalling

open Hub (ClientId WebsocketMessage PageMessage Serves Serviceable Drained Draining)
open Hub.ReadLoop (Webrtc Call)
open Frontend (Page IsOffer)
open Frontend.Page (offeredOn answeredOn answerOn)

variable {w : Webrtc} {s : State} {k : ℕ} {c : ClientId}

/-! ## Who stays -/

/-- The client is in the map, and no removal waits. -/
structure Staying (server : Hub.State) (c : ClientId) : Prop where
  member : c ∈ server.clients
  waits : c ∉ server.unregister
  run : server.run.unregistering ≠ some c

theorem Staying.next {server : Hub.State} {l : Hub.Label} (h : Staying server c)
    (hserves : Serves server l) (hen : Hub.Enabled server l) : Staying (Hub.next server l) c := by
  obtain ⟨-, hg⟩ := hen
  -- `Run` goes on with the removal of another client, or with something else
  have onward : ∀ {pc pc' : Hub.RunPC}, server.run = pc → pc'.unregistering = pc.unregistering →
      pc'.unregistering ≠ some c := by
    rintro pc pc' rfl hsame
    rw [hsame]
    exact h.run
  have elsewhere : ∀ {pc' : Hub.RunPC}, pc'.unregistering = none → pc'.unregistering ≠ some c := by
    intro pc' hnone
    rw [hnone]
    exact Option.some_ne_none c ∘ Eq.symm
  cases l with
  | sendRLock | sendTest | sendMessage | sendRUnlock => exact ⟨h.member, h.waits, h.run⟩
  | write c' m ok =>
    obtain ⟨rfl, -⟩ := hserves
    exact ⟨h.member, h.waits, h.run⟩
  | registerInsert c' =>
    exact ⟨Finset.mem_insert_of_mem h.member, h.waits, elsewhere rfl⟩
  | takeUnregister c' =>
    refine ⟨h.member, fun hmem => h.waits (List.mem_of_mem_tail hmem), fun hrun => ?_⟩
    obtain rfl : c' = c := Option.some.inj hrun
    exact h.waits (List.mem_of_mem_head? hg.2)
  | unregisterRLock c' => exact ⟨h.member, h.waits, onward hg.1 rfl⟩
  | unregisterTest c' =>
    refine ⟨h.member, h.waits, fun hrun => h.run ?_⟩
    replace hrun : (Hub.RunPC.unregisterRUnlock c'
      (decide (c' ∈ server.clients))).unregistering = some c := hrun
    cases hmember : decide (c' ∈ server.clients) with
    | true =>
      rw [hmember] at hrun
      rw [show server.run = _ from hg]
      exact hrun
    | false =>
      rw [hmember] at hrun
      cases hrun
  | unregisterRUnlock c' ok =>
    cases ok with
    | true => exact ⟨h.member, h.waits, onward hg rfl⟩
    | false => exact ⟨h.member, h.waits, elsewhere rfl⟩
  | unregisterLock c' => exact ⟨h.member, h.waits, onward hg rfl⟩
  | unregisterLocked c' => exact ⟨h.member, h.waits, onward hg.1 rfl⟩
  | unregisterDelete c' =>
    have hne : c ≠ c' := by
      rintro rfl
      exact h.run (by rw [show server.run = _ from hg]; rfl)
    exact ⟨Finset.mem_erase.mpr ⟨hne, h.member⟩, h.waits, elsewhere rfl⟩
  | takeRegister | registerLock | registerLocked | registerUnlock | unregisterUnlock
  | unregisterCloseConn | unregisterCloseSend | infoRLock | infoLen | infoRUnlock | goSendInfo
  | takeBroadcast | broadcastRLock | broadcastNext | broadcastSend | broadcastEnd
  | broadcastRUnlock => exact ⟨h.member, h.waits, elsewhere rfl⟩
  | unregisterPanic | broadcastPanic => exact ⟨h.member, h.waits, h.run⟩
  | _ => cases hserves

/-- The steps that do work already there leave the handlers where they are. -/
theorem handler_next_of_serves {server : Hub.State} {l : Hub.Label} (hserves : Serves server l) :
    (Hub.next server l).handler = server.handler := by
  cases l with
  | write c' m ok =>
    obtain ⟨rfl, -⟩ := hserves
    rfl
  | connect | goWriteLoop | register | setCallbacks | createOffer | setLocalDescription
  | marshalOffer | marshalMessage | offerSent | readLoopReturn | unregister | closeConn
  | closePeerConnection | onConnectionStateChange => cases hserves
  | _ => rfl

/-! ## The exchange under way -/

/-- An exchange on socket `k` that has begun, and that nothing has disturbed. -/
structure Underway (w : Webrtc) (s : State) (k : ℕ) (c : ClientId) : Prop where
  client : s.client k = some c
  staying : Staying s.server c
  /-- The handler has handed an offer over, and is in `ReadLoop`, -/
  offer : ∃ m ∈ s.server.handed c, IsOffer m
  reading : s.server.handler c = .readLoop
  /-- which has not returned. -/
  loops : (s.loop w c).2 = .loops
  opened : (s.page.provider.sockets k).readyState = .opened
  /-- No `createAnswer` for the socket has failed. -/
  unfailing : s.page.awaiting k + s.page.log.countP (answeredOn k) =
    s.page.log.countP (offeredOn k)
  /-- pion takes what has gone out on the socket. -/
  taken : ∀ m ∈ s.page.sentOn k, (m.asks w).isSome

/-- The steps that bring it to its end, together with the hub's other work: what was written
arrives, answers are made that pion takes, and what was sent is read and applied. -/
def Flows (w : Webrtc) (k : ℕ) (s : State) : Label → Prop
  | .server l => Serves s.server l
  | .page (.message j _) => j = k
  | .page (.settled j (some data)) => j = k ∧ (PageMessage.asks w ⟨true, data.1⟩).isSome
  | .read j _ ok => j = k ∧ ok = true
  | _ => False

/-- The hub is at rest, everything has arrived, and the remote description has been set once. -/
structure Completed (w : Webrtc) (s : State) (k : ℕ) (c : ClientId) : Prop where
  drained : Drained s.server
  received : s.received k = s.server.handed c
  answered : s.page.awaiting k = 0
  read : (s.read c).map Prod.fst = s.page.sentOn k
  applied : (s.loop w c).1.countP applies = 1

/-! ## Nothing disturbs it -/

theorem Underway.next_server {l : Hub.Label} (h : Underway w s k c) (hserves : Serves s.server l)
    (hen : Hub.Enabled s.server l) : Underway w (next s (.server l)) k c where
  client := h.client
  staying := h.staying.next hserves hen
  offer := by
    obtain ⟨m, hm, hoffer⟩ := h.offer
    refine ⟨m, ?_, hoffer⟩
    show m ∈ (Hub.next s.server l).handed c
    rw [Hub.handed_next]
    exact List.mem_append_left _ hm
  reading := by
    show (Hub.next s.server l).handler c = .readLoop
    rw [handler_next_of_serves hserves]
    exact h.reading
  loops := h.loops
  opened := h.opened
  unfailing := h.unfailing
  taken := h.taken

/-- A message makes the page await an answer for each offer, and sends nothing. -/
theorem message_cases (p : Page) (k : ℕ) (msg : WebsocketMessage) :
    (p.onmessage k msg = p) ∨
    (p.onmessage k msg).awaiting = Function.update p.awaiting k (p.awaiting k + 1) ∧
      (p.onmessage k msg).log = p.log ++ [.offered k] := by
  unfold Page.onmessage
  split
  · exact .inr ⟨rfl, rfl⟩
  · exact .inl rfl

theorem sentOn_onmessage (p : Page) (k : ℕ) (msg : WebsocketMessage) :
    (p.onmessage k msg).sentOn k = p.sentOn k := by
  rcases message_cases p k msg with hsame | ⟨-, hlog⟩
  · rw [hsame]
  · rw [Page.sentOn, hlog, List.filterMap_append, List.filterMap_cons_none rfl,
      List.filterMap_nil, List.append_nil, Page.sentOn]

theorem Underway.next_message {msg : WebsocketMessage} (h : Underway w s k c) :
    Underway w (next s (.page (.message k msg))) k c := by
  refine ⟨h.client, h.staying, h.offer, h.reading, h.loops, ?_, ?_, ?_⟩
  · show ((s.page.onmessage k msg).provider.sockets k).readyState = .opened
    rw [Page.onmessage_provider]
    exact h.opened
  · have hbefore := h.unfailing
    show (s.page.onmessage k msg).awaiting k + (s.page.onmessage k msg).log.countP _ =
      (s.page.onmessage k msg).log.countP _
    rcases message_cases s.page k msg with hsame | ⟨hawaiting, hlog⟩
    · rw [hsame]
      exact hbefore
    · have hself : offeredOn k (.offered k) = true := beq_self_eq_true k
      rw [hawaiting, hlog, Function.update_self,
        Page.countP_concat_of_neg (f := answeredOn k) rfl, Page.countP_concat_of_pos hself]
      omega
  · show ∀ m ∈ (s.page.onmessage k msg).sentOn k, _
    rw [sentOn_onmessage]
    exact h.taken

/-- On an open socket the answer goes out. -/
theorem onAnswer_of_opened {p : Page} {data : Frontend.Stringified}
    (h : (p.provider.sockets k).readyState = .opened) : p.onAnswer k (some data) =
      ⟨p.provider, Function.update p.awaiting k (p.awaiting k - 1), true,
        p.log ++ [.answered k] ++ [.sent k true data]⟩ := if_pos h

theorem sentOn_onAnswer {p : Page} {data : Frontend.Stringified}
    (h : (p.provider.sockets k).readyState = .opened) :
    (p.onAnswer k (some data)).sentOn k = p.sentOn k ++ [⟨true, data.1⟩] := by
  rw [onAnswer_of_opened h, Page.sentOn, List.filterMap_append, List.filterMap_append, Page.sentOn]
  simp [Page.messageOn]

theorem Underway.next_settled {data : Frontend.Stringified} (h : Underway w s k c)
    (hawaiting : 0 < s.page.awaiting k) (htaken : (PageMessage.asks w ⟨true, data.1⟩).isSome) :
    Underway w (next s (.page (.settled k (some data)))) k c := by
  have hopened : ((s.page.onAnswer k (some data)).provider.sockets k).readyState = .opened := by
    rw [Page.onAnswer_provider]
    exact h.opened
  refine ⟨h.client, h.staying, h.offer, h.reading, h.loops, hopened, ?_, ?_⟩
  · have hbefore := h.unfailing
    have hself : answeredOn k (.answered k) = true := beq_self_eq_true k
    show (s.page.onAnswer k (some data)).awaiting k +
      (s.page.onAnswer k (some data)).log.countP _ = (s.page.onAnswer k (some data)).log.countP _
    rw [onAnswer_of_opened h.opened]
    simp only [Function.update_self]
    rw [Page.countP_concat_of_neg (f := answeredOn k) rfl,
      Page.countP_concat_of_pos hself, Page.countP_concat_of_neg (f := offeredOn k) rfl,
      Page.countP_concat_of_neg (f := offeredOn k) rfl]
    omega
  · intro m hm
    replace hm : m ∈ (s.page.onAnswer k (some data)).sentOn k := hm
    rw [sentOn_onAnswer h.opened, List.mem_append, List.mem_singleton] at hm
    rcases hm with hm | rfl
    · exact h.taken m hm
    · exact htaken

theorem Underway.next_read (h : Underway w s k c) (hr : (signalling w).Reachable s)
    (hen : (signalling w).Enabled s (.read k c true)) :
    Underway w (next s (.read k c true)) k c := by
  obtain ⟨m, hm⟩ := Option.isSome_iff_exists.mp hen.2.2.2
  obtain ⟨call, hcall⟩ := Option.isSome_iff_exists.mp (h.taken m (List.mem_of_getElem? hm))
  refine ⟨h.client, h.staying, h.offer, h.reading, ?_, h.opened, h.unfailing, h.taken⟩
  have hloops := h.loops
  have hnext : (signalling w).Reachable (next s (.read k c true)) := hr.next trivial hen
  rw [loop_eq hr h.client] at hloops
  rw [loop_eq hnext h.client, read_next hm, Function.update_self]
  exact Hub.loops_concat hloops hcall

theorem Underway.next {l : Label} (h : Underway w s k c) (hr : (signalling w).Reachable s)
    (hflows : Flows w k s l) (hen : (signalling w).Enabled s l) :
    Underway w (next s l) k c := by
  cases l with
  | server l => exact h.next_server hflows hen
  | page l =>
    cases l with
    | message j msg =>
      obtain rfl : j = k := hflows
      exact h.next_message
    | settled j answer =>
      cases answer with
      | none => cases hflows
      | some data =>
        obtain ⟨rfl, htaken⟩ := hflows
        exact h.next_settled hen.1 htaken
    | socket | candidate => cases hflows
  | accept => cases hflows
  | read j c' ok =>
    obtain ⟨rfl, rfl⟩ := hflows
    obtain rfl : c' = c := Option.some.inj (hen.1.symm.trans h.client)
    exact h.next_read hr hen

/-! ## It comes to its end -/

/-- What is under way between the two sides. A message may lead to an answer that is awaited, and
that to one that is to be read. -/
def lag (s : State) (k : ℕ) (c : ClientId) : ℕ :=
  3 * ((s.written c).length - (s.received k).length) + 2 * s.page.awaiting k +
    ((s.page.sentOn k).length - (s.read c).length)

theorem lag_message {msg : WebsocketMessage} (h : Underway w s k c)
    (hen : (signalling w).Enabled s (.page (.message k msg))) :
    lag (next s (.page (.message k msg))) k c < lag s k c := by
  have harriving : s.arriving k = some msg := hen.2
  rw [State.arriving, h.client] at harriving
  obtain ⟨hlt, -⟩ := List.getElem?_eq_some_iff.mp harriving
  have hreceived : (next s (.page (.message k msg))).received k = s.received k ++ [msg] := by
    show s.received k ++ arrived k (.message k msg) = _
    rw [arrived, if_pos rfl]
  have hsent : (next s (.page (.message k msg))).page.sentOn k = s.page.sentOn k :=
    sentOn_onmessage s.page k msg
  have hawaiting : (next s (.page (.message k msg))).page.awaiting k ≤ s.page.awaiting k + 1 := by
    show (s.page.onmessage k msg).awaiting k ≤ _
    rcases message_cases s.page k msg with hsame | ⟨hmore, -⟩
    · rw [hsame]
      omega
    · rw [hmore, Function.update_self]
  rw [lag, lag, hreceived, hsent, List.length_append, List.length_singleton]
  replace hlt : (s.received k).length < (s.written c).length := hlt
  show 3 * ((s.written c).length - ((s.received k).length + 1)) + _ +
    (_ - (s.read c).length) < _
  omega

theorem lag_settled {data : Frontend.Stringified} (h : Underway w s k c)
    (hawaiting : 0 < s.page.awaiting k) :
    lag (next s (.page (.settled k (some data)))) k c < lag s k c := by
  have hless : (next s (.page (.settled k (some data)))).page.awaiting k =
      s.page.awaiting k - 1 := by
    show (s.page.onAnswer k (some data)).awaiting k = _
    rw [onAnswer_of_opened h.opened]
    exact Function.update_self ..
  have hsent : ((next s (.page (.settled k (some data)))).page.sentOn k).length =
      (s.page.sentOn k).length + 1 := by
    show ((s.page.onAnswer k (some data)).sentOn k).length = _
    rw [sentOn_onAnswer h.opened, List.length_append, List.length_singleton]
  have hreceived : (next s (.page (.settled k (some data)))).received k = s.received k :=
    List.append_nil _
  rw [lag, lag, hless, hsent, hreceived]
  show 3 * ((s.written c).length - _) + _ + (_ - (s.read c).length) < _
  omega

theorem lag_read {m : PageMessage} (hm : s.unread k c = some m) :
    lag (next s (.read k c true)) k c < lag s k c := by
  obtain ⟨hlt, -⟩ := List.getElem?_eq_some_iff.mp hm
  rw [lag, lag, read_next hm, Function.update_self, List.length_append, List.length_singleton]
  show 3 * ((s.written c).length - (s.received k).length) + 2 * s.page.awaiting k +
    ((s.page.sentOn k).length - _) < _
  omega

/-- The hub's work first, then what is under way. -/
def measure (senders : Finset Hub.Sender) (n k : ℕ) (c : ClientId) (s : State) : ℕ ×ₗ ℕ :=
  toLex (s.server.work senders n, lag s k c)

theorem measure_next {senders : Finset Hub.Sender} {n : ℕ} {l : Label} (h : Underway w s k c)
    (hdraining : Draining senders n s.server) (hflows : Flows w k s l)
    (hen : (signalling w).Enabled s l) :
    measure senders n k c (next s l) < measure senders n k c s := by
  rw [measure, measure, Prod.Lex.toLex_lt_toLex]
  cases l with
  | server l => exact .inl (hdraining.work_next hflows hen)
  | page l =>
    refine .inr ⟨rfl, ?_⟩
    cases l with
    | message j msg =>
      obtain rfl : j = k := hflows
      exact lag_message h hen
    | settled j answer =>
      cases answer with
      | none => cases hflows
      | some data =>
        obtain ⟨rfl, -⟩ := hflows
        exact lag_settled h hen.1
    | socket | candidate => cases hflows
  | accept => cases hflows
  | read j c' ok =>
    obtain ⟨rfl, rfl⟩ := hflows
    obtain rfl : c' = c := Option.some.inj (hen.1.symm.trans h.client)
    obtain ⟨m, hm⟩ := Option.isSome_iff_exists.mp hen.2.2.2
    exact .inr ⟨rfl, lag_read hm⟩

/-- Where not everything has arrived there is a next one. -/
theorem exists_next_of_prefix {α : Type*} {l l' : List α} (h : l <+: l') (hne : l ≠ l') :
    ∃ x, l'[l.length]? = some x := by
  obtain ⟨rest, rfl⟩ := h
  cases rest with
  | nil => exact absurd (List.append_nil l).symm hne
  | cons x rest =>
    refine ⟨x, ?_⟩
    rw [List.getElem?_append_right (Nat.le_refl _), Nat.sub_self]
    rfl

/-- When the hub is at rest, what was handed over is written. -/
theorem Underway.written_eq (h : Underway w s k c) (hr : (signalling w).Reachable s)
    (hdrained : Drained s.server) : s.written c = s.server.handed c := by
  have hselect := hdrained.writeLoop c h.staying.member
  have hall := ((inv_of_reachable hr).wrote c).running (by rw [hselect]; simp)
  rw [hselect, Hub.WriteLoopPC.pending, List.append_nil] at hall
  exact hall

/-- One offer was handed over. -/
theorem Underway.countP_isOffer (h : Underway w s k c) (hr : (signalling w).Reachable s) :
    (s.server.handed c).countP isOffer = 1 := by
  have hle := countP_isOffer_le s.server c
  have hone := Hub.offers_le_one ((server_refines w).reachable hr) c
  have hpos : 0 < (s.server.handed c).countP isOffer := by
    obtain ⟨m, hm, hoffer⟩ := h.offer
    exact List.countP_pos_iff.mpr ⟨m, hm, decide_eq_true hoffer⟩
  omega

theorem Underway.completed (h : Underway w s k c) (hr : (signalling w).Reachable s)
    (hdrained : Drained s.server) (hreceived : s.received k = s.written c)
    (hawaiting : s.page.awaiting k = 0) (hread : (s.read c).map Prod.fst = s.page.sentOn k) :
    Completed w s k c := by
  have hhanded := hreceived.trans (h.written_eq hr hdrained)
  have hloops := h.loops
  rw [loop_eq hr h.client] at hloops
  have hunfailing := h.unfailing
  refine ⟨hdrained, hhanded, hawaiting, hread, ?_⟩
  calc (s.loop w c).1.countP applies
    _ = (Hub.applyAll w (s.read c)).1.countP applies := by rw [loop_eq hr h.client]
    _ = ((s.read c).map Prod.fst).countP PageMessage.answer :=
      (countP_of_forall₂ (Hub.forall₂_applyAll hloops) fun _ _ hask => answer_of_asks hask).symm
    _ = s.page.log.countP (answerOn k) := by rw [hread, countP_sentOn]
    _ = s.page.log.countP (answeredOn k) :=
      Page.answerOn_eq_answeredOn ((page_refines w).reachable hr) (by rw [h.opened]; decide)
    _ = s.page.log.countP (offeredOn k) := by omega
    _ = (s.server.handed c).countP isOffer := by rw [(inv_of_reachable hr).offered k, hhanded]
    _ = 1 := h.countP_isOffer hr

/-- pion takes an answer without media. -/
theorem asks_emptyText (hw : w.Documented) :
    (PageMessage.asks w ⟨true, Page.emptyText.1⟩).isSome := by
  rw [PageMessage.asks, if_pos (by decide), if_pos rfl, Option.isSome_map]
  exact hw.answer_empty

theorem Underway.progress (hw : w.Documented) {senders : Finset Hub.Sender} {n : ℕ}
    (h : Underway w s k c) (hr : (signalling w).Reachable s)
    (hdraining : Draining senders n s.server) :
    Completed w s k c ∨ ∃ l, Flows w k s l ∧ (signalling w).Enabled s l := by
  have hinv := inv_of_reachable hr
  rcases hdraining.progress with hdrained | ⟨l, hserves, hen⟩
  · by_cases hreceived : s.received k = s.written c
    · by_cases hawaiting : s.page.awaiting k = 0
      · by_cases hread : (s.read c).map Prod.fst = s.page.sentOn k
        · exact .inl (h.completed hr hdrained hreceived hawaiting hread)
        · obtain ⟨m, hm⟩ := exists_next_of_prefix (hinv.read k c h.client) hread
          rw [List.length_map] at hm
          exact .inr ⟨.read k c true, ⟨rfl, rfl⟩, h.client, h.reading, h.loops,
            Option.isSome_iff_exists.mpr ⟨m, hm⟩⟩
      · exact .inr ⟨.page (.settled k (some Page.emptyText)), ⟨rfl, asks_emptyText hw⟩,
          Nat.pos_of_ne_zero hawaiting, trivial⟩
    · obtain ⟨msg, hmsg⟩ := exists_next_of_prefix (hinv.received k c h.client) hreceived
      have harriving : s.arriving k = some msg := by
        rw [State.arriving, h.client]
        exact hmsg
      exact .inr ⟨.page (.message k msg), rfl, ⟨hinv.created k c h.client, h.opened⟩, harriving⟩
  · exact .inr ⟨.server l, hserves, hen⟩

/-- **The exchange completes.** Let a handler have handed its offer over on a socket that is open,
let nothing on the socket have failed so far, and let the clients that have joined be served. Then
whatever order the remaining steps take, of the hub for all its clients, and of the network, the
page and `ReadLoop` for this one, as long as none of them fails they come to an end, at which
everything has arrived and the remote description has been set, once. -/
theorem exchange_completes (hw : w.Documented) (h : (signalling w).Reachable s)
    (hunderway : Underway w s k c)
    (hjoined : ∀ d, Hub.Joined s.server d → Serviceable s.server d) :
    (signalling w).Inevitably (Flows w k) (Completed w · k c) s := by
  obtain ⟨senders, hsenders⟩ := Hub.exists_senders ((server_refines w).reachable h)
  have hdraining : Draining senders (s.server.clients.card + s.server.register.length +
      s.server.run.inserting.toList.length) s.server :=
    ⟨(server_refines w).reachable h, hjoined, Nat.le_refl _, hsenders⟩
  refine Lts.inevitably_of_invariant
    (I := fun t => (signalling w).Reachable t ∧ Underway w t k c ∧
      Draining senders (s.server.clients.card + s.server.register.length +
        s.server.run.inserting.toList.length) t.server)
    (measure senders (s.server.clients.card + s.server.register.length +
      s.server.run.inserting.toList.length) k c)
    ?_ ?_ ?_ ⟨h, hunderway, hdraining⟩
  · rintro t l ⟨ht, hunder, hdrain⟩ hflows hen
    refine ⟨ht.next trivial hen, hunder.next ht hflows hen, ?_⟩
    cases l with
    | server l => exact hdrain.next hflows hen
    | page | accept | read => exact hdrain
  · rintro t l ⟨-, hunder, hdrain⟩ hflows hen
    exact measure_next hunder hdrain hflows hen
  · rintro t ⟨ht, hunder, hdrain⟩
    exact hunder.progress hw ht hdrain

/-- A viewer whose offer is still to be written, while another one waits in `Register`. -/
def offeringLabels : List Label :=
  [.page (.socket (.initSocket "wss://stream")), .accept 0 0] ++
    (Hub.connectLabels 0 ++ Hub.registerLabels 0 1 ++ Hub.prepareLabels 0 ++
      [Hub.Label.sendMessage (.handler 0) 0 (Hub.offerMessage (some "sdp"))] ++
      Hub.readLoopLabels 0 ++ Hub.connectLabels 1).map .server ++
    [.page (.socket (.opened 0))]

theorem exchange_completes_of_two : ∃ s, (signalling Hub.ReadLoop.exampleWebrtc).Reachable s ∧
    s.server.register = [1] ∧ s.received 0 = [] ∧
    (signalling Hub.ReadLoop.exampleWebrtc).Inevitably (Flows Hub.ReadLoop.exampleWebrtc 0)
      (Completed Hub.ReadLoop.exampleWebrtc · 0 0) s := by
  obtain ⟨s, hs, hclient, ⟨hclients, hregister, hunregister, hrun, h0, h1⟩, hhanded, hreading,
    hloops, hopened, hcounts, hreceived, hsent⟩ :=
    (signalling Hub.ReadLoop.exampleWebrtc).reachable_of_exec offeringLabels
      (fun s => s.client 0 = some 0 ∧ (s.server.clients = {0} ∧ s.server.register = [1] ∧
          s.server.unregister = [] ∧ s.server.run = .select ∧
          (s.server.connClosed 0 = false ∧ (s.server.writeLoop 0).running = true) ∧
          s.server.connClosed 1 = false ∧ (s.server.writeLoop 1).running = true) ∧
        s.server.handed 0 = [Hub.offerMessage (some "sdp")] ∧ s.server.handler 0 = .readLoop ∧
        (s.loop Hub.ReadLoop.exampleWebrtc 0).2 = .loops ∧
        (s.page.provider.sockets 0).readyState = .opened ∧
        s.page.awaiting 0 + s.page.log.countP (answeredOn 0) = s.page.log.countP (offeredOn 0) ∧
        s.received 0 = [] ∧ (s.page.sentOn 0).length = 0) (by decide)
  have hunderway : Underway Hub.ReadLoop.exampleWebrtc s 0 0 := by
    refine ⟨hclient, ⟨?_, ?_, ?_⟩, ⟨Hub.offerMessage (some "sdp"), ?_, rfl, ?_⟩, hreading, hloops,
      hopened, hcounts, ?_⟩
    · rw [hclients]
      exact Finset.mem_singleton_self 0
    · rw [hunregister]
      exact List.not_mem_nil
    · rw [hrun]
      exact Option.some_ne_none 0 ∘ Eq.symm
    · rw [hhanded]
      exact List.mem_singleton_self _
    · exact fun hnull => by cases hnull
    · rw [List.length_eq_zero_iff.mp hsent]
      exact fun m hm => absurd hm List.not_mem_nil
  refine ⟨s, hs, hregister, hreceived,
    exchange_completes Hub.ReadLoop.documented_exampleWebrtc hs hunderway fun d hd => ?_⟩
  rw [Hub.Joined, hclients, hregister, hrun, Finset.mem_singleton, List.mem_singleton] at hd
  rcases hd with rfl | rfl | hd
  · exact h0
  · exact h1
  · cases hd

end Lightspeed.Signalling
