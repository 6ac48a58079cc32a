import Lightspeed.Hub.Messages

/-!
# The offer

`hub.Register <- c` returns when `c` is in the channel's buffer, not when `Run` has put it in
the map, and the handler sends its offer only if it finds `c` in the map. So the offer is
lost when the handler is faster than `Run`. When it is not (`TestsInserted`), the offer is
handed over exactly once.
-/

namespace Lightspeed.Hub

/-- How many offers `c`'s `WriteLoop` has received. -/
def State.offers (s : State) (c : ClientId) : ℕ :=
  (s.handed c).countP fun m => decide (m.event = .offer)

/-- When a handler tests whether its client is in the map, `Run` has inserted the client:
it neither waits in `Register` nor is in `Run`'s hands. -/
def TestsInserted (s : State) : Label → Prop
  | .sendTest (.handler c) _ _ => c ∉ s.register ∧ s.run.inserting ≠ some c
  | _ => True

instance (s : State) : DecidablePred (TestsInserted s) := fun l => by
  unfold TestsInserted
  split <;> infer_instance

/-- The handler has not come to the send of its offer, or is at it. -/
def offerAhead (pc : HandlerPC) (blk : SendPC) : Bool :=
  match pc with
  | .connecting | .failed | .goWriteLoop | .register | .setCallbacks | .createOffer
  | .setLocalDescription | .marshalOffer | .marshalMessage _ => true
  | .sendOffer =>
    match blk with
    | .rLock _ _ | .test _ _ | .send _ _ => true
    | .idle | .rUnlock _ => false
  | .readLoop | .unregister | .closeConn | .closePeerConnection | .returned => false

def State.offerAhead (s : State) (c : ClientId) : Bool :=
  Hub.offerAhead (s.handler c) (s.sending (.handler c))

/-- No offer has been handed over before its send, and one has after it, unless there was none
to send or the client had been removed. -/
structure OfferInv (s : State) (c : ClientId) : Prop where
  before : s.offerAhead c = true → s.offers c = 0
  after : s.offerAhead c = false → s.offers c = 1 ∨ s.offerOk c = false ∨ Removed s c

theorem offerInv_init (c : ClientId) : OfferInv init c :=
  ⟨fun _ => rfl, fun h => by cases h⟩

/-! ## What one step does to the offer -/

theorem offers_add (s : State) (l : Label) (c : ClientId) : (next s l).offers c =
    s.offers c + (l.handed c).countP fun m => decide (m.event = .offer) := by
  rw [State.offers, handed_next, List.countP_append, State.offers]

/-- What a handler sends is an offer, and to its own client. -/
theorem sendMessage_handler {s : State} {c c' : ClientId} {m : WebsocketMessage}
    (hkind : KindInv s) (hown : HandlerInv s) (h : s.sending (.handler c) = .send c' m) :
    m.event = .offer ∧ c' = c :=
  ⟨hkind.handler c m (by rw [h]; rfl), hown.own c c' (by rw [h]; rfl)⟩

/-- The send of the offer hands one offer over. -/
theorem offers_sendMessage {s : State} {c : ClientId} {m : WebsocketMessage}
    (hm : m.event = .offer) :
    (next s (.sendMessage (.handler c) c m)).offers c = s.offers c + 1 := by
  rw [offers_add]
  simp [Label.handed, hm]

/-- Nothing else does. -/
theorem offers_next {s : State} {l : Label} {c : ClientId} (hkind : KindInv s)
    (hown : HandlerInv s) (hen : Enabled s l) (hnot : ∀ m, l ≠ .sendMessage (.handler c) c m) :
    (next s l).offers c = s.offers c := by
  obtain ⟨-, hg⟩ := hen
  rw [offers_add, Nat.add_eq_left]
  cases l with
  | sendMessage g c' m =>
    rw [Guard] at hg
    cases g with
    | handler c'' =>
      obtain ⟨-, rfl⟩ := sendMessage_handler hkind hown hg.1
      have hc : c' ≠ c := by
        rintro rfl
        exact hnot m rfl
      simp [Label.handed, hc]
    | candidate k =>
      have hcand : m.event = .candidate := hkind.candidate k m (by rw [hg.1]; rfl)
      simp only [Label.handed]
      split <;> simp [hcand]
  | broadcastSend m visited c' =>
    rw [Guard] at hg
    obtain ⟨i, rfl⟩ := hkind.run m (by rw [hg.1]; rfl)
    simp only [Label.handed]
    split <;> simp [infoMessage]
  | _ => rfl

/-- A call that failed is not forgotten. -/
theorem offerOk_next {s : State} {l : Label} {c : ClientId} (h : s.offerOk c = false) :
    (next s l).offerOk c = false := by
  have note : ∀ c' ok, Function.update s.offerOk c' (s.offerOk c' && ok) c = false := by
    intro c' ok
    rw [Function.update_apply]
    split
    · next he => rw [← he, h]; rfl
    · exact h
  cases l with
  | createOffer c' ok => exact note c' ok
  | setLocalDescription c' ok => exact note c' ok
  | marshalOffer c' offerString => exact note c' offerString.isSome
  | marshalMessage c' offerString ok =>
    cases ok with
    | true => exact h
    | false => exact note c' false
  | onConnectionStateChange k c' p => cases p <;> exact h
  | write c' m ok => cases ok <;> exact h
  | _ => exact h

/-- The steps after which the send of `c`'s offer is no longer ahead. -/
def PassesOffer (s : State) (c : ClientId) : Label → Prop
  | .marshalMessage c' _ ok => c' = c ∧ ok = false
  | .sendTest g _ _ => g = .handler c ∧ c ∉ s.clients
  | .sendMessage g _ _ => g = .handler c
  | _ => False

/-- The handler of `c'` moves without passing the send of its offer. -/
theorem offerAhead_update_handler {s : State} {c' : ClientId} {pc : HandlerPC} (c : ClientId)
    (h : Hub.offerAhead pc (s.sending (.handler c')) = s.offerAhead c') :
    Hub.offerAhead (Function.update s.handler c' pc c) (s.sending (.handler c)) =
      s.offerAhead c := by
  rw [Function.update_apply]
  split
  · next he => rw [he, h]
  · rfl

/-- A sending block moves without passing the send of the offer. -/
theorem offerAhead_update_sending {s : State} {g : Sender} {blk : SendPC} (c : ClientId)
    (h : g = .handler c → Hub.offerAhead (s.handler c) blk = s.offerAhead c) :
    Hub.offerAhead (s.handler c) (Function.update s.sending g blk (.handler c)) =
      s.offerAhead c := by
  rw [Function.update_apply]
  split
  · next he => exact h he.symm
  · rfl

/-- A handler inside its sending block is at that block. -/
theorem HandlerInv.sendOffer {s : State} {c : ClientId} (h : HandlerInv s)
    (hbusy : s.sending (.handler c) ≠ .idle) : s.handler c = .sendOffer := by
  by_contra hne
  exact hbusy (h.idle c hne)

/-- A handler that does not find its client in the map, though it tested after `Run` had inserted
it, has had it removed. -/
theorem removed_of_sendTest {s : State} {c c' : ClientId} {m : WebsocketMessage}
    (hr : hub.Reachable s) (hok : TestsInserted s (.sendTest (.handler c) c' m))
    (hen : Enabled s (.sendTest (.handler c) c' m)) (hmem : c ∉ s.clients) :
    Removed (next s (.sendTest (.handler c) c' m)) c := by
  have hh := handlerInv_of_reachable hr
  have hmember := memberInv_of_reachable hr
  have hg : s.sending (.handler c) = .test c' m := hen.2
  have hpc : s.handler c = .sendOffer := hh.sendOffer (by rw [hg]; simp)
  have hrem : Removed s c :=
    hmember.removed_of_not_mem (by rw [hpc]; rfl) hok.1 hok.2 hmem
  exact hmember.removed_next hrem hen

/-- Every other step leaves the send of `c`'s offer ahead, or behind. -/
theorem offerAhead_next {s : State} {l : Label} {c : ClientId} (hh : HandlerInv s)
    (hen : Enabled s l) (hnot : ¬PassesOffer s c l) :
    (next s l).offerAhead c = s.offerAhead c := by
  obtain ⟨-, hg⟩ := hen
  -- a handler moves between two places on one side of the send
  have move : ∀ {c' : ClientId} {pc pc' : HandlerPC}, s.handler c' = pc →
      (∀ blk, Hub.offerAhead pc' blk = Hub.offerAhead pc blk) →
      Hub.offerAhead (Function.update s.handler c' pc' c) (s.sending (.handler c)) =
        s.offerAhead c := by
    intro c' pc pc' hpc hsame
    refine offerAhead_update_handler c ?_
    rw [hsame, State.offerAhead, hpc]
  -- a block that is under way does
  have block : ∀ {g : Sender} {blk : SendPC}, s.sending g ≠ .idle →
      (g = .handler c → Hub.offerAhead .sendOffer blk =
        Hub.offerAhead .sendOffer (s.sending g)) →
      Hub.offerAhead (s.handler c) (Function.update s.sending g blk (.handler c)) =
        s.offerAhead c := by
    intro g blk hbusy hsame
    refine offerAhead_update_sending c fun hgc => ?_
    subst hgc
    rw [State.offerAhead, hh.sendOffer hbusy, hsame rfl]
  cases l with
  | connect c' ok =>
    rw [Guard] at hg
    cases ok <;> exact move hg fun _ => rfl
  | goWriteLoop c' => exact move hg fun _ => rfl
  | register c' => exact move hg.1 fun _ => rfl
  | setCallbacks c' => exact move hg fun _ => rfl
  | createOffer c' ok => exact move hg fun _ => rfl
  | setLocalDescription c' ok => exact move hg fun _ => rfl
  | marshalOffer c' offerString => exact move hg fun _ => rfl
  | marshalMessage c' offerString ok =>
    rw [Guard] at hg
    cases ok with
    | false =>
      have hc : c' ≠ c := fun hc => hnot ⟨hc, rfl⟩
      show Hub.offerAhead (Function.update s.handler c' .readLoop c) _ = _
      rw [Function.update_of_ne (Ne.symm hc)]
      rfl
    | true =>
      by_cases hc : c' = c
      · subst hc
        have hbefore : s.offerAhead c' = true := by
          rw [State.offerAhead, hg]
          rfl
        rw [hbefore]
        simp [next, State.setHandler, State.setSending, State.offerAhead, Hub.offerAhead]
      · simp only [next, State.setHandler, State.setSending, State.offerAhead, if_true]
        rw [Function.update_of_ne (Ne.symm hc), Function.update_of_ne (by simpa using Ne.symm hc)]
  | offerSent c' =>
    refine offerAhead_update_handler (s := s) c ?_
    rw [State.offerAhead, hg.1, hg.2]
    rfl
  | readLoopReturn c' => exact move hg fun _ => rfl
  | unregister c' => exact move hg.1 fun _ => rfl
  | closeConn c' => exact move hg fun _ => rfl
  | closePeerConnection c' => exact move hg fun _ => rfl
  | onICECandidate k c' str =>
    simp [next, State.offerAhead, State.setSending]
  | onConnectionStateChange k c' p => cases p <;> rfl
  | sendRLock g c' m => exact block (by rw [hg.1]; simp) fun _ => by rw [hg.1]; rfl
  | sendTest g c' m =>
    rw [Guard] at hg
    refine block (by rw [hg]; simp) fun hgc => ?_
    subst hgc
    have hc' : c' = c := hh.own c c' (by rw [hg]; rfl)
    have hmem : c' ∈ s.clients := by
      by_contra hmem
      exact hnot ⟨rfl, hc' ▸ hmem⟩
    rw [hg, if_pos hmem]
    rfl
  | sendMessage g c' m =>
    exact offerAhead_update_sending (s := s) (g := g) c fun he => absurd he hnot
  | sendRUnlock g c' =>
    rw [Guard] at hg
    exact block (by rw [hg]; simp) fun _ => by rw [hg]; rfl
  | write c' m ok => cases ok <;> rfl
  | _ => rfl

/-- What passes the send of the offer finds it ahead. -/
theorem offerAhead_of_passesOffer {s : State} {l : Label} {c : ClientId} (hh : HandlerInv s)
    (hen : Enabled s l) (hp : PassesOffer s c l) : s.offerAhead c = true := by
  obtain ⟨-, hg⟩ := hen
  -- inside its block the handler is at `sendOffer`
  have block : ∀ {blk : SendPC}, s.sending (.handler c) = blk →
      Hub.offerAhead .sendOffer blk = true → s.offerAhead c = true := by
    intro blk hblk hahead
    have hbusy : s.sending (.handler c) ≠ .idle := by
      rw [hblk]
      rintro rfl
      cases hahead
    rw [State.offerAhead, hh.sendOffer hbusy, hblk, hahead]
  cases l with
  | marshalMessage c' offerString ok =>
    obtain ⟨rfl, -⟩ := hp
    rw [State.offerAhead, show s.handler c' = _ from hg]
    rfl
  | sendTest g c' m =>
    obtain ⟨rfl, -⟩ := hp
    exact block hg rfl
  | sendMessage g c' m =>
    obtain rfl : g = .handler c := hp
    exact block hg.1 rfl
  | _ => exact absurd hp id

/-- Once the send of the offer is behind, it stays behind. -/
theorem offerAhead_next_of_behind {s : State} {l : Label} {c : ClientId} (hh : HandlerInv s)
    (hen : Enabled s l) (hbehind : s.offerAhead c = false) : (next s l).offerAhead c = false := by
  have hnot : ¬PassesOffer s c l := by
    intro hp
    rw [offerAhead_of_passesOffer hh hen hp] at hbehind
    cases hbehind
  exact (offerAhead_next hh hen hnot).trans hbehind

theorem OfferInv.next {s : State} {l : Label} {c : ClientId} (h : OfferInv s c)
    (hr : hub.Reachable s) (hok : TestsInserted s l) (hen : Enabled s l) :
    OfferInv (next s l) c := by
  have hkind := kindInv_of_reachable hr
  have hh := handlerInv_of_reachable hr
  have hmember := memberInv_of_reachable hr
  have hg := hen.2
  by_cases hp : PassesOffer s c l
  · cases l with
    | marshalMessage c' offerString ok =>
      obtain ⟨rfl, rfl⟩ := hp
      -- there is no offer to send
      refine ⟨fun ha => ?_, fun _ => .inr (.inl ?_)⟩
      · simp [Hub.next, State.offerAhead, State.setHandler, State.noteOffer, Hub.offerAhead] at ha
      · simp [Hub.next, State.noteOffer]
    | sendTest g c' m =>
      obtain ⟨rfl, hmem⟩ := hp
      have hrem := removed_of_sendTest hr hok hen hmem
      rw [Guard] at hg
      have hpc : s.handler c = .sendOffer := hh.sendOffer (by rw [hg]; simp)
      have hc' : c' = c := hh.own c c' (by rw [hg]; rfl)
      subst hc'
      refine ⟨fun ha => ?_, fun _ => .inr (.inr hrem)⟩
      simp [Hub.next, State.offerAhead, State.setSending, Hub.offerAhead, hpc, hmem] at ha
    | sendMessage g c' m =>
      have hgc : g = .handler c := hp
      subst hgc
      rw [Guard] at hg
      have hpc : s.handler c = .sendOffer := hh.sendOffer (by rw [hg.1]; simp)
      obtain ⟨hoffer, rfl⟩ := sendMessage_handler hkind hh hg.1
      have hzero : s.offers c' = 0 := by
        refine h.before ?_
        rw [State.offerAhead, hpc, hg.1]
        rfl
      refine ⟨fun ha => ?_, fun _ => .inl ?_⟩
      · simp [Hub.next, State.offerAhead, State.setSending, State.handOver, State.setWriteLoop,
          Hub.offerAhead, hpc] at ha
      · rw [offers_sendMessage hoffer, hzero]
    | _ => exact absurd hp id
  · have hahead := offerAhead_next hh hen hp
    have hoffers : (Hub.next s l).offers c = s.offers c := by
      refine offers_next hkind hh hen fun m hl => ?_
      subst hl
      exact hp rfl
    refine ⟨fun ha => ?_, fun ha => ?_⟩
    · rw [hoffers]
      exact h.before (hahead ▸ ha)
    · rw [hoffers]
      rcases h.after (hahead ▸ ha) with hone | hbad | hrem
      · exact .inl hone
      · exact .inr (.inl (offerOk_next hbad))
      · exact .inr (.inr (hmember.removed_next hrem hen))

/-! ## Every run in which no handler is faster than `Run` -/

theorem offerInv_of_reachable {s : State} (h : hub.ReachableWhen TestsInserted s)
    (c : ClientId) : OfferInv s c :=
  h.invariant (P := fun s => OfferInv s c) (offerInv_init c) fun _ _ hr hi hok hen =>
    hi.next hr.reachable hok hen

/-- If every handler tests for its client only after `Run` has inserted it, then a handler that
has come to `ReadLoop` with an offer to send has handed it over exactly once. -/
theorem offers_eq_one_of_testsInserted {s : State} {c : ClientId}
    (h : hub.ReachableWhen TestsInserted s) (hpc : s.handler c = .readLoop)
    (hok : s.offerOk c = true) (hin : ¬Removed s c) : s.offers c = 1 := by
  have hbehind : s.offerAhead c = false := by
    rw [State.offerAhead, hpc]
    rfl
  rcases (offerInv_of_reachable h c).after hbehind with hone | hbad | hrem
  · exact hone
  · rw [hok] at hbad
    cases hbad
  · exact absurd hrem hin

/-- A viewer that `Run` inserted while its offer was being prepared. -/
theorem offers_eq_one_of_testsInserted_viewer : ∃ s, hub.ReachableWhen TestsInserted s ∧
    s.handler 0 = .readLoop ∧ s.offers 0 = 1 := by
  obtain ⟨s, hs, hpc, hok, hopen, hrun⟩ := hub.reachableWhen_of_exec TestsInserted
    (fun s l => decide (TestsInserted s l)) (fun _ _ => of_decide_eq_true)
    (connectLabels 0 ++ registerLabels 0 1 ++ prepareLabels 0 ++ sendOfferLabels 0 ++
      readLoopLabels 0)
    (fun s => s.handler 0 = .readLoop ∧ s.offerOk 0 = true ∧ s.sendClosed 0 = false ∧
      s.run = .select) (by decide)
  exact ⟨s, hs, hpc, offers_eq_one_of_testsInserted hs hpc hok
    (not_removed_of_select hrun hopen)⟩

/-- A viewer whose handler prepared its offer and tested for membership while its client was
still in the buffer of `Register`. It is in `ReadLoop` and in the map, and nobody will send it
an offer. -/
theorem offer_lost : ¬∀ s c, hub.Reachable s → s.handler c = .readLoop → s.offerOk c = true →
    ¬Removed s c → s.writeLoop c ≠ .returned → s.offers c = 1 := by
  obtain ⟨s, hs, hpc, hok, hopen, hrun, halive, hnone⟩ := hub.reachable_of_exec
    (connectLabels 0 ++ prepareLabels 0 ++ readLoopLabels 0 ++ registerLabels 0 1)
    (fun s => s.handler 0 = .readLoop ∧ s.offerOk 0 = true ∧ s.sendClosed 0 = false ∧
      s.run = .select ∧ s.writeLoop 0 ≠ .returned ∧ s.offers 0 = 0) (by decide)
  intro hall
  have hone := hall s 0 hs hpc hok (not_removed_of_select hrun hopen) halive
  rw [hnone] at hone
  cases hone

end Lightspeed.Hub
