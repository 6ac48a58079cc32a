import Lightspeed.Frontend.App
import Lightspeed.Hub.Offer

/-!
# The order of the offer and the candidates

Gathering starts in `SetLocalDescription`, before the offer is marshalled, and the goroutine that
hands a candidate over shares nothing with the handler but the lock and the map. So a candidate
can be handed over before the offer, and the page then calls `addIceCandidate` before
`setRemoteDescription`. The race is open from the callback's test for membership on: whoever has
found the client in the map is on its way to the channel, and nothing orders it and the handler any
more. The offer comes first in every run in which no callback finds its client while the handler
still has its offer to send, and the handler does not lose the offer (`OfferInTime`).
-/

namespace Lightspeed.Hub

open Frontend (IsOffer IsCandidate received calls)

/-- What trickle ICE relies on: no candidate is handed over before an offer, and no beginning of
what was handed over makes the page add a candidate before it has a remote description. -/
structure OfferFirst (s : State) (c : ClientId) : Prop where
  handed : Precedes IsOffer IsCandidate (s.handed c)
  applied : ∀ es, received es <+: s.handed c →
    Precedes Frontend.Call.isRemoteDescription Frontend.Call.isIceCandidate (calls es)

theorem offerFirst_of_precedes {s : State} {c : ClientId}
    (h : Precedes IsOffer IsCandidate (s.handed c)) : OfferFirst s c := by
  constructor
  · exact h
  · intro es hes
    exact Frontend.precedes_calls (h.of_prefix hes)

/-- A handler fails to marshal its offer, or the message with it. -/
def Label.losesOffer : Label → Bool
  | .marshalMessage _ offerString ok => !(ok && offerString.isSome)
  | _ => false

/-- When an `OnICECandidate` callback tests for its client and finds it, the client's handler is
past the send of its offer. And the handler gets that far with its offer: it marshals it, and it
tests for its client when `Run` has inserted it. -/
def OfferInTime (s : State) : Label → Prop
  | .sendTest (.candidate _) c _ => c ∈ s.clients → s.offerAhead c = false
  | l => l.losesOffer = false ∧ TestsInserted s l

instance (s : State) : DecidablePred (OfferInTime s) := fun l => by
  unfold OfferInTime
  split <;> infer_instance

/-- The offer a handler is sending can be applied, and once the send is behind, it has been
handed over unless the client had been removed. A callback at its send of a candidate has the
handler's send behind it. -/
structure TrickleInv (s : State) (c : ClientId) : Prop where
  block : ∀ m, (s.sending (.handler c)).message = some m → IsOffer m
  behind : ∀ k m, s.sending (.candidate k) = .send c m → s.offerAhead c = false
  sent : s.offerAhead c = false → (∃ m ∈ s.handed c, IsOffer m) ∨ Removed s c
  order : Precedes IsOffer IsCandidate (s.handed c)

theorem trickleInv_init (c : ClientId) : TrickleInv init c := by
  constructor
  · intro m hm
    cases hm
  · intro k m hm
    cases hm
  · intro h
    cases h
  · exact precedes_nil

/-! ## What one step does -/

/-- Only the marshalling puts a message into a handler's block. -/
theorem handler_message_next {s : State} {l : Label} {c : ClientId} {m : WebsocketMessage}
    (hen : Enabled s l) (hm : ((next s l).sending (.handler c)).message = some m) :
    (s.sending (.handler c)).message = some m ∨
      ∃ offerString, l = .marshalMessage c offerString true ∧ m = offerMessage offerString := by
  obtain ⟨-, hg⟩ := hen
  -- a block that moves keeps its message or drops it
  have block : ∀ {g : Sender} {blk : SendPC},
      blk.message = (s.sending g).message ∨ blk.message = none →
      (Function.update s.sending g blk (.handler c)).message = some m →
      (s.sending (.handler c)).message = some m := by
    intro g blk hblk hup
    rw [Function.update_apply] at hup
    split at hup
    · next hgc =>
      rcases hblk with hsame | hnone
      · rw [hgc, ← hsame, hup]
      · rw [hnone] at hup
        cases hup
    · exact hup
  cases l with
  | marshalMessage c' offerString ok =>
    cases ok with
    | false => exact .inl hm
    | true =>
      by_cases hc : c' = c
      · subst hc
        right
        simp only [next, State.setSending, if_true, Function.update_self, SendPC.message,
          Option.some.injEq] at hm
        exact ⟨offerString, rfl, hm.symm⟩
      · left
        simp only [next, State.setSending, if_true] at hm
        rwa [Function.update_of_ne (by simpa using Ne.symm hc)] at hm
  | onICECandidate k c' candidateString =>
    left
    simp only [next, State.setSending] at hm
    rwa [Function.update_of_ne (by simp)] at hm
  | onConnectionStateChange k c' p =>
    left
    cases p <;> exact hm
  | write c' m' ok =>
    left
    cases ok <;> exact hm
  | sendRLock g c' m' => exact .inl (block (.inl (by rw [hg.1]; rfl)) hm)
  | sendTest g c' m' =>
    rw [Guard] at hg
    left
    refine block ?_ hm
    split
    · exact .inl (by rw [hg]; rfl)
    · exact .inr rfl
  | sendMessage g c' m' => exact .inl (block (.inr rfl) hm)
  | sendRUnlock g c' => exact .inl (block (.inr rfl) hm)
  | _ => exact .inl hm

/-- What a handler hands over is what its block carries, and it goes to the handler's client. -/
theorem handed_sendMessage_handler {s : State} {c : ClientId} {m : WebsocketMessage} :
    (next s (.sendMessage (.handler c) c m)).handed c = s.handed c ++ [m] := by
  rw [handed_next, Label.handed, if_pos rfl]

/-- A callback that comes to its send has passed its test, and what is behind stays behind. -/
theorem TrickleInv.behind_next {s : State} {l : Label} {c : ClientId} (h : TrickleInv s c)
    (hr : hub.Reachable s) (hok : OfferInTime s l) (hen : Enabled s l) {k : ℕ}
    {m : WebsocketMessage} (hsend : (next s l).sending (.candidate k) = .send c m) :
    (next s l).offerAhead c = false := by
  refine offerAhead_next_of_behind (handlerInv_of_reachable hr) hen ?_
  rcases test_of_send hen hsend with hbefore | ⟨hmem, rfl⟩
  · exact h.behind k m hbefore
  · exact hok hmem

/-- So a candidate is handed over after an offer. -/
theorem TrickleInv.order_next {s : State} {l : Label} {c : ClientId} (h : TrickleInv s c)
    (hr : hub.Reachable s) (hen : Enabled s l) :
    Precedes IsOffer IsCandidate ((next s l).handed c) := by
  have hkind := kindInv_of_reachable hr
  obtain ⟨-, hg⟩ := hen
  rw [handed_next]
  refine h.order.append fun m hm hcand => ?_
  cases l with
  | sendMessage g c' m' =>
    rw [Label.handed] at hm
    split at hm
    · next hc =>
      subst hc
      obtain rfl := List.mem_singleton.mp hm
      cases g with
      | handler c'' =>
        have hoffer : m.event = .offer := hkind.handler c'' m (by rw [hg.1]; rfl)
        have hboth := hoffer.symm.trans hcand
        cases hboth
      | candidate k =>
        -- the client is in the map, so the offer that is behind was handed over
        have hmem : c' ∈ s.clients := (sendInv_of_reachable hr).sender _ _ _ hg.1
        rcases h.sent (h.behind k m hg.1) with hsent | hrem
        · exact hsent
        · exact absurd hmem ((memberInv_of_reachable hr).not_mem_of_removed hrem)
    · cases hm
  | broadcastSend m' visited c' =>
    rw [Label.handed] at hm
    split at hm
    · obtain rfl := List.mem_singleton.mp hm
      obtain ⟨i, rfl⟩ := hkind.run m (by rw [hg.1]; rfl)
      cases hcand
    · cases hm
  | _ => cases hm

/-- A step that passes the send of the offer hands it over, or the client was removed. -/
theorem TrickleInv.sent_passing {s : State} {l : Label} {c : ClientId} (h : TrickleInv s c)
    (hr : hub.Reachable s) (hok : OfferInTime s l) (hen : Enabled s l) (hp : PassesOffer s c l) :
    (∃ m ∈ (next s l).handed c, IsOffer m) ∨ Removed (next s l) c := by
  have hh := handlerInv_of_reachable hr
  have hg := hen.2
  cases l with
  | marshalMessage c' offerString ok =>
    obtain ⟨-, rfl⟩ := hp
    exact absurd hok.1 (by simp [Label.losesOffer])
  | sendTest g c' m =>
    obtain ⟨rfl, hmem⟩ := hp
    exact .inr (removed_of_sendTest hr hok.2 hen hmem)
  | sendMessage g c' m =>
    have hgc : g = .handler c := hp
    subst hgc
    have hc' : c' = c := hh.own c c' (by rw [hg.1]; rfl)
    subst hc'
    left
    refine ⟨m, ?_, h.block m (by rw [hg.1]; rfl)⟩
    rw [handed_sendMessage_handler]
    exact List.mem_append_right _ (List.mem_singleton_self m)
  | _ => exact absurd hp id

theorem TrickleInv.next {s : State} {l : Label} {c : ClientId} (h : TrickleInv s c)
    (hr : hub.Reachable s) (hok : OfferInTime s l) (hen : Enabled s l) :
    TrickleInv (next s l) c := by
  constructor
  · intro m hm
    rcases handler_message_next hen hm with hbefore | ⟨offerString, rfl, rfl⟩
    · exact h.block m hbefore
    · refine ⟨rfl, ?_⟩
      rintro hnull
      cases hnull
      exact absurd hok.1 (by simp [Label.losesOffer])
  · intro k m hsend
    exact h.behind_next hr hok hen hsend
  · intro hbehind
    by_cases hp : PassesOffer s c l
    · exact h.sent_passing hr hok hen hp
    · rw [offerAhead_next (handlerInv_of_reachable hr) hen hp] at hbehind
      rcases h.sent hbehind with ⟨m, hm, hoffer⟩ | hrem
      · left
        refine ⟨m, ?_, hoffer⟩
        rw [handed_next]
        exact List.mem_append_left _ hm
      · right
        exact (memberInv_of_reachable hr).removed_next hrem hen
  · exact h.order_next hr hen

/-! ## Every run in which no candidate overtakes the offer -/

/-- If no callback finds its client in the map while the handler has the send of its offer ahead,
and the handlers do not lose their offers, then every client is handed its offer before any
candidate, and the page sets the remote description before it adds a candidate. -/
theorem offerFirst_of_offerInTime {s : State} (h : hub.ReachableWhen OfferInTime s)
    (c : ClientId) : OfferFirst s c := by
  have hinv : TrickleInv s c :=
    h.invariant (P := fun s => TrickleInv s c) (trickleInv_init c) fun _ _ hr hi hok hen =>
      hi.next hr.reachable hok hen
  exact offerFirst_of_precedes hinv.order

/-- pion finds the candidate `str` and hands it over. -/
def candidateLabels (k : ℕ) (c : ClientId) (str : String) : List Label :=
  [.onICECandidate k c str, .sendRLock (.candidate k) c (candidateMessage str),
    .sendTest (.candidate k) c (candidateMessage str),
    .sendMessage (.candidate k) c (candidateMessage str)]

/-- The offer, then a candidate. -/
theorem offerFirst_of_offerInTime_viewer : ∃ s, hub.ReachableWhen OfferInTime s ∧
    s.handed 0 = [offerMessage (some "sdp"), candidateMessage "host"] ∧ OfferFirst s 0 := by
  obtain ⟨s, hs, hhanded⟩ := hub.reachableWhen_of_exec OfferInTime
    (fun s l => decide (OfferInTime s l)) (fun _ _ => of_decide_eq_true)
    (connectLabels 0 ++ registerLabels 0 1 ++ prepareLabels 0 ++ sendOfferLabels 0 ++
      candidateLabels 0 0 "host")
    (fun s => s.handed 0 = [offerMessage (some "sdp"), candidateMessage "host"]) (by decide)
  exact ⟨s, hs, hhanded, offerFirst_of_offerInTime hs 0⟩

/-- A candidate is found while the handler marshals its offer, and is handed over first: the
page adds it with no remote description set. -/
theorem candidate_overtakes_offer : ¬∀ s c, hub.Reachable s → OfferFirst s c := by
  intro hall
  obtain ⟨s, hs, hhanded⟩ := hub.reachable_of_exec
    (connectLabels 0 ++ registerLabels 0 1 ++
      [.createOffer 0 true, .setLocalDescription 0 true] ++ candidateLabels 0 0 "host")
    (fun s => s.handed 0 = [candidateMessage "host"]) (by decide)
  have hfirst := (hall s 0 hs).handed
  rw [hhanded] at hfirst
  obtain ⟨m, hm, -⟩ := hfirst [] (candidateMessage "host") [] rfl rfl
  cases hm

end Lightspeed.Hub
