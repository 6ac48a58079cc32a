import Lightspeed.Hub.Sending
import Lightspeed.Hub.ViewerCount

/-!
# Broadcasts reach the members in one order

`Run` forwards one message at a time and holds the read lock while it does, so the map does not
change under its range: every member gets the message before `Run` takes the next one. What
`Run` hands to a member from one moment to a later one is therefore what it has taken in between,
up to the message it is forwarding (`pending_append_taken`), and the same for every member.
-/

namespace Lightspeed.Hub

/-! ## What happened between two moments -/

/-- The message, if the event is a receive from `Broadcast`. -/
def Event.taken? : Event → Option WebsocketMessage
  | .broadcast m => some m
  | _ => none

/-- The message, if the event is a hand-over from `Run` to `c`. -/
def Event.forwarded? (c : ClientId) : Event → Option WebsocketMessage
  | .handOver .run c' m => if c' = c then some m else none
  | _ => none

/-- The events of `t` after those of `s`. -/
def since (s t : State) : List Event := t.log.drop s.log.length

/-- The messages taken from `Broadcast` between `s` and `t`, in order. -/
def takenSince (s t : State) : List WebsocketMessage := (since s t).filterMap Event.taken?

/-- The messages `Run` handed to `c` between `s` and `t`, in order. -/
def forwardedSince (s t : State) (c : ClientId) : List WebsocketMessage :=
  (since s t).filterMap (Event.forwarded? c)

/-- The events a step adds to the history. -/
def Label.events (s : State) : Label → List Event
  | .sendMessage g c m => [.handOver (.sender g) c m]
  | .registerInsert c => [.insert c]
  | .unregisterDelete c => [.delete c]
  | .unregisterCloseConn c => [.closeConn c]
  | .unregisterCloseSend c => [.closeSend c]
  | .goSendInfo i => [.spawn i]
  | .takeBroadcast k => [.broadcast (infoMessage (s.sendInfo k).info)]
  | .broadcastSend m _ c => [.handOver .run c m]
  | _ => []

theorem log_next (s : State) (l : Label) : (next s l).log = s.log ++ l.events s := by
  cases l with
  | marshalMessage c offerString ok => cases ok <;> exact (List.append_nil _).symm
  | onConnectionStateChange k c p => cases p <;> exact (List.append_nil _).symm
  | write c m ok => cases ok <;> exact (List.append_nil _).symm
  | sendMessage | registerInsert | unregisterDelete | unregisterCloseConn | unregisterCloseSend
  | goSendInfo | takeBroadcast | broadcastSend => rfl
  | _ => exact (List.append_nil _).symm

/-- The history only grows. -/
theorem prefix_log {s t : State} (h : hub.Path Lts.always s t) : s.log <+: t.log := by
  refine h.invariant (P := fun t => s.log <+: t.log) (List.prefix_refl _) fun u l hu _ _ => ?_
  show s.log <+: (next u l).log
  rw [log_next]
  exact hu.trans (List.prefix_append _ _)

theorem since_self (s : State) : since s s = [] := List.drop_length

theorem since_next {s u : State} (h : hub.Path Lts.always s u) (l : Label) :
    since s (next u l) = since s u ++ l.events u := by
  rw [since, log_next, List.drop_append_of_le_length (prefix_log h).length_le, since]

/-! ## A member gets what is taken -/

/-- The message being forwarded, if it has not gone to `c` yet. -/
def RunPC.pending (c : ClientId) : RunPC → List WebsocketMessage
  | .broadcastRLock m => [m]
  | .broadcastRange m visited | .broadcastSend m visited _ => if c ∈ visited then [] else [m]
  | _ => []

/-- `Run` sends to a client that it has not served with this message. -/
def FreshInv (s : State) : Prop :=
  ∀ m visited c, s.run = .broadcastSend m visited c → c ∉ visited

theorem freshInv_of_reachable {s : State} (h : hub.Reachable s) : FreshInv s := by
  refine h.invariant (P := FreshInv) (fun _ _ _ h => by cases h) fun s l _ hi _ hen => ?_
  obtain ⟨-, hg⟩ := hen
  cases l with
  | broadcastNext m visited c =>
    intro m' visited' c' he
    cases he
    exact hg.2.2
  | unregisterRUnlock c ok =>
    intro m visited c' he
    cases ok <;> cases he
  | marshalMessage c offerString ok => cases ok <;> exact hi
  | onConnectionStateChange k c p => cases p <;> exact hi
  | write c m ok => cases ok <;> exact hi
  | takeRegister | registerLock | registerLocked | registerInsert | registerUnlock
  | takeUnregister | unregisterRLock | unregisterTest | unregisterLock
  | unregisterLocked | unregisterDelete | unregisterUnlock | unregisterCloseConn
  | unregisterCloseSend | infoRLock | infoLen | infoRUnlock | goSendInfo | takeBroadcast
  | broadcastRLock | broadcastSend | broadcastEnd | broadcastRUnlock =>
    intro m visited c he
    cases he
  | _ => exact hi

/-- One step moves a message from `Broadcast` to those pending for a member, or from there to
the member, or does neither. -/
theorem pending_next {s : State} {l : Label} {c : ClientId} (hr : hub.Reachable s)
    (hen : Enabled s l) (hc : c ∈ s.clients) :
    s.run.pending c ++ (l.events s).filterMap Event.taken? =
      (l.events s).filterMap (Event.forwarded? c) ++ (next s l).run.pending c := by
  obtain ⟨-, hg⟩ := hen
  -- a step that neither takes nor forwards, and keeps what is pending
  have quiet : ∀ {es : List Event} {pc pc' : RunPC}, es.filterMap Event.taken? = [] →
      es.filterMap (Event.forwarded? c) = [] → pc.pending c = pc'.pending c →
      pc.pending c ++ es.filterMap Event.taken? =
        es.filterMap (Event.forwarded? c) ++ pc'.pending c := by
    intro es pc pc' htaken hforwarded hpending
    rw [htaken, hforwarded, hpending, List.append_nil, List.nil_append]
  cases l with
  | takeBroadcast k =>
    rw [hg.1]
    rfl
  | broadcastRLock m =>
    rw [hg.1]
    exact quiet rfl rfl rfl
  | broadcastNext m visited c' =>
    rw [hg.1]
    exact quiet rfl rfl rfl
  | broadcastSend m visited c' =>
    have hfresh := freshInv_of_reachable hr m visited c' hg.1
    rw [hg.1]
    show _ ++ [] = [Event.handOver .run c' m].filterMap (Event.forwarded? c) ++
      RunPC.pending c (.broadcastRange m (insert c' visited))
    rw [List.append_nil]
    by_cases hcc : c' = c
    · subst hcc
      simp [RunPC.pending, Event.forwarded?, hfresh]
    · simp [RunPC.pending, Event.forwarded?, hcc, Ne.symm hcc]
  | broadcastEnd m visited =>
    -- the range is exhausted, so `c` has been served
    rw [hg.1]
    refine quiet rfl rfl ?_
    rw [RunPC.pending, if_pos (hg.2 hc)]
    rfl
  | sendMessage g c' m => exact quiet rfl rfl rfl
  | marshalMessage c' offerString ok => cases ok <;> exact quiet rfl rfl rfl
  | onConnectionStateChange k c' p => cases p <;> exact quiet rfl rfl rfl
  | write c' m ok => cases ok <;> exact quiet rfl rfl rfl
  | unregisterRUnlock c' ok =>
    rw [Guard] at hg
    rw [hg]
    cases ok <;> exact quiet rfl rfl rfl
  | takeRegister | takeUnregister | registerLocked | unregisterRLock | unregisterLocked
  | unregisterCloseSend | infoRLock =>
    rw [hg.1]
    exact quiet rfl rfl rfl
  | registerLock | registerInsert | registerUnlock | unregisterTest | unregisterLock
  | unregisterDelete | unregisterUnlock | unregisterCloseConn | infoLen | infoRUnlock
  | goSendInfo | broadcastRUnlock =>
    rw [Guard] at hg
    rw [hg]
    exact quiet rfl rfl rfl
  | _ => exact quiet rfl rfl rfl

/-- A member at the beginning and at the end is one all the time: nobody is put back. -/
theorem mem_clients_between {s u t : State} {c : ClientId} (hs : hub.Reachable s)
    (hsu : hub.Path Lts.always s u) (hut : hub.Path Lts.always u t) (hcs : c ∈ s.clients)
    (hct : c ∈ t.clients) : c ∈ u.clients := by
  have hu : hub.Reachable u := hs.trans hsu
  obtain ⟨p, hp⟩ := (memberInv_of_reachable hs).placed c
  obtain ⟨q, hq, hpq⟩ := hp.path hs hsu
  obtain ⟨r, hr, hqr⟩ := hq.path hu hut
  have hp' : p = .member := hp.member.mp hcs
  have hr' : r = .member := hr.member.mp hct
  subst hp' hr'
  have hrank : q.rank = Phase.member.rank := by omega
  refine hq.member.mpr ?_
  cases q <;> simp_all [Phase.rank]

/-- Along any run, what was pending for a client and what `Run` took while the client was in
the map is what `Run` handed to it and what is pending for it. -/
theorem pending_append_taken {s t : State} {c : ClientId} (hs : hub.Reachable s)
    (h : hub.Path Lts.always s t) (hcs : c ∈ s.clients) (hct : c ∈ t.clients) :
    s.run.pending c ++ takenSince s t = forwardedSince s t c ++ t.run.pending c := by
  induction h with
  | refl =>
    rw [takenSince, forwardedSince, since_self]
    exact List.append_nil _
  | @tail u t hsu hlast ih =>
    have hstep : hub.Path Lts.always u t := Relation.ReflTransGen.single hlast
    have hcu := mem_clients_between hs hsu hstep hcs hct
    have hbefore := ih hcu
    obtain ⟨l, -, hen, rfl⟩ := hlast
    have hnext := pending_next (hs.trans hsu) hen hcu
    show _ ++ takenSince s (next u l) = forwardedSince s (next u l) c ++ (next u l).run.pending c
    rw [takenSince, forwardedSince, since_next hsu, List.filterMap_append, List.filterMap_append]
    rw [takenSince, forwardedSince] at hbefore
    calc s.run.pending c ++ ((since s u).filterMap Event.taken? ++
          (l.events u).filterMap Event.taken?)
        = (since s u).filterMap (Event.forwarded? c) ++ (u.run.pending c ++
            (l.events u).filterMap Event.taken?) := by
          rw [← List.append_assoc, hbefore, List.append_assoc]
      _ = _ := by rw [hnext, List.append_assoc]

/-! ## All members see the same -/

/-- What is pending is at most the message being forwarded. -/
theorem pending_of_message (c : ClientId) (pc : RunPC) :
    pc.pending c = [] ∨ ∃ m, pc.message = some m ∧ pc.pending c = [m] := by
  cases pc with
  | broadcastRLock m => exact .inr ⟨m, rfl, rfl⟩
  | broadcastRange m visited | broadcastSend m visited c' =>
    by_cases hc : c ∈ visited
    · exact .inl (if_pos hc)
    · exact .inr ⟨m, rfl, if_neg hc⟩
  | _ => exact .inl rfl

theorem pending_of_idle {pc : RunPC} (c : ClientId) (h : pc.message = none) :
    pc.pending c = [] := by
  rcases pending_of_message c pc with hnone | ⟨m, hm, -⟩
  · exact hnone
  · rw [h] at hm
    cases hm

/-- All of `ms'`, or all but the message `m` at its end. -/
def UpTo (m : WebsocketMessage) (ms ms' : List WebsocketMessage) : Prop :=
  ms = ms' ∨ ms ++ [m] = ms'

theorem UpTo.compare {m : WebsocketMessage} {ms ms' taken : List WebsocketMessage}
    (h : UpTo m ms taken) (h' : UpTo m ms' taken) : UpTo m ms ms' ∨ UpTo m ms' ms := by
  rcases h with rfl | rfl
  · exact .inr h'
  · rcases h' with rfl | h'
    · exact .inl (.inr rfl)
    · exact .inl (.inl (List.append_cancel_right h'.symm))

/-- While `Run` forwards `m`, a member has been handed all that was taken, or all but `m`. -/
theorem upTo_forwardedSince {s t : State} {c : ClientId} (hs : hub.Reachable s)
    (hidle : s.run.message = none) (h : hub.Path Lts.always s t) (hcs : c ∈ s.clients)
    (hct : c ∈ t.clients) {m : WebsocketMessage} (hm : t.run.message = some m) :
    UpTo m (forwardedSince s t c) (takenSince s t) := by
  have hall := pending_append_taken hs h hcs hct
  rw [pending_of_idle c hidle, List.nil_append] at hall
  rcases pending_of_message c t.run with hnone | ⟨m', hm', hpending⟩
  · left
    rw [hall, hnone, List.append_nil]
  · right
    obtain rfl := Option.some.inj (hm.symm.trans hm')
    rw [hall, hpending]

/-- **Totally ordered broadcast.** Let `c` and `d` be in the map from a moment at which `Run` is
not forwarding up to a later one. When `Run` is not forwarding then either, it has handed to both
exactly the messages it took in between, in that order. While it forwards `m`, both have been
handed these messages up to `m`, so that what they have differs at most by `m` at the end. -/
theorem forwarded_in_one_order {s t : State} {c d : ClientId} (hs : hub.Reachable s)
    (hidle : s.run.message = none) (h : hub.Path Lts.always s t) (hcs : c ∈ s.clients)
    (hds : d ∈ s.clients) (hct : c ∈ t.clients) (hdt : d ∈ t.clients) :
    (t.run.message = none →
      forwardedSince s t c = takenSince s t ∧ forwardedSince s t d = takenSince s t) ∧
    ∀ m, t.run.message = some m →
      UpTo m (forwardedSince s t c) (takenSince s t) ∧
      UpTo m (forwardedSince s t d) (takenSince s t) ∧
      (UpTo m (forwardedSince s t c) (forwardedSince s t d) ∨
        UpTo m (forwardedSince s t d) (forwardedSince s t c)) := by
  have exact_of_idle : ∀ e, e ∈ s.clients → e ∈ t.clients → t.run.message = none →
      forwardedSince s t e = takenSince s t := by
    intro e hes het hidle'
    have hall := pending_append_taken hs h hes het
    rw [pending_of_idle e hidle, pending_of_idle e hidle', List.append_nil] at hall
    exact hall.symm
  constructor
  · intro hidle'
    exact ⟨exact_of_idle c hcs hct hidle', exact_of_idle d hds hdt hidle'⟩
  · intro m hm
    have hc := upTo_forwardedSince hs hidle h hcs hct hm
    have hd := upTo_forwardedSince hs hidle h hds hdt hm
    exact ⟨hc, hd, hc.compare hd⟩

/-- Two viewers while `Run` forwards the second of two counts, first to viewer 1. -/
theorem forwarded_in_one_order_partway : ∃ s t, takenSince s t =
      [infoMessage ⟨1⟩, infoMessage ⟨2⟩] ∧ forwardedSince s t 0 = [infoMessage ⟨1⟩] ∧
    UpTo (infoMessage ⟨2⟩) (forwardedSince s t 0) (takenSince s t) ∧
    UpTo (infoMessage ⟨2⟩) (forwardedSince s t 1) (takenSince s t) ∧
    (UpTo (infoMessage ⟨2⟩) (forwardedSince s t 0) (forwardedSince s t 1) ∨
      UpTo (infoMessage ⟨2⟩) (forwardedSince s t 1) (forwardedSince s t 0)) := by
  obtain ⟨s, t, hs, hst, ⟨hidle, h0s, h1s⟩, h0t, h1t, hm, htaken, hforwarded⟩ :=
    hub.reachable_path_of_exec
      (connectLabels 0 ++ registerLabels 0 1 ++ connectLabels 1 ++ registerLabels 1 2)
      (announceLabels 0 1 ++ [.takeBroadcast 1, .broadcastRLock (infoMessage ⟨2⟩),
        .broadcastNext (infoMessage ⟨2⟩) ∅ 1, .broadcastSend (infoMessage ⟨2⟩) ∅ 1])
      (fun s t => (s.run.message = none ∧ 0 ∈ s.clients ∧ 1 ∈ s.clients) ∧ 0 ∈ t.clients ∧
        1 ∈ t.clients ∧ t.run.message = some (infoMessage ⟨2⟩) ∧
        takenSince s t = [infoMessage ⟨1⟩, infoMessage ⟨2⟩] ∧
        forwardedSince s t 0 = [infoMessage ⟨1⟩]) (by decide)
  exact ⟨s, t, htaken, hforwarded,
    (forwarded_in_one_order hs hidle hst h0s h1s h0t h1t).2 _ hm⟩

end Lightspeed.Hub
