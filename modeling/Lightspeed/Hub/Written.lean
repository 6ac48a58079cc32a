import Lightspeed.Hub.Offer

/-!
# What a client is written

A `WriteLoop` writes what it is handed, message by message, until a write fails. So what it has
written is a beginning of what it was handed, all of it but the message at hand as long as the loop
runs (`Wrote`). Whatever the order of the steps, at most one offer is among it (`offers_le_one`).
-/

namespace Lightspeed.Hub

variable {s : State} {l : Label} {c : ClientId} {ms : List WebsocketMessage}

/-! ## One offer at most -/

/-- The send of the offer is ahead, or it is behind and one offer was handed over, or none. -/
def OffersInv (s : State) (c : ClientId) : Prop :=
  s.offers c = 0 ∨ s.offerAhead c = false ∧ s.offers c = 1

/-- The send of the offer puts it behind. -/
theorem offerAhead_sendMessage {m : WebsocketMessage} (hpc : s.handler c = .sendOffer) :
    (next s (.sendMessage (.handler c) c m)).offerAhead c = false := by
  show Hub.offerAhead (s.handler c)
    (Function.update s.sending (.handler c) (.rUnlock c) (.handler c)) = false
  rw [Function.update_self, hpc]
  rfl

theorem OffersInv.next (h : OffersInv s c) (hkind : KindInv s) (hh : HandlerInv s)
    (hen : Enabled s l) : OffersInv (next s l) c := by
  by_cases hsend : ∃ m, l = .sendMessage (.handler c) c m
  · obtain ⟨m, rfl⟩ := hsend
    have hg : s.sending (.handler c) = .send c m := hen.2.1
    have hpc := hh.sendOffer (c := c) (by rw [hg]; exact SendPC.noConfusion)
    have hzero : s.offers c = 0 := by
      rcases h with hzero | ⟨hbehind, -⟩
      · exact hzero
      · rw [offerAhead_of_passesOffer hh hen rfl] at hbehind
        cases hbehind
    refine .inr ⟨offerAhead_sendMessage hpc, ?_⟩
    rw [offers_sendMessage (sendMessage_handler hkind hh hg).1, hzero]
  · have hoffers : (Hub.next s l).offers c = s.offers c :=
      offers_next hkind hh hen fun m hl => hsend ⟨m, hl⟩
    rcases h with hzero | ⟨hbehind, hone⟩
    · exact .inl (hoffers.trans hzero)
    · exact .inr ⟨offerAhead_next_of_behind hh hen hbehind, hoffers.trans hone⟩

theorem offersInv_of_reachable (h : hub.Reachable s) (c : ClientId) : OffersInv s c :=
  h.invariant (P := fun s => OffersInv s c) (.inl rfl) fun _ _ hr hi _ hen =>
    hi.next (kindInv_of_reachable hr) (handlerInv_of_reachable hr) hen

/-- No client is handed two offers. -/
theorem offers_le_one (h : hub.Reachable s) (c : ClientId) : s.offers c ≤ 1 := by
  rcases offersInv_of_reachable h c with hzero | ⟨-, hone⟩
  · omega
  · omega

/-! ## Writing -/

/-- The `WriteLoop` of `c` has not been started. -/
def HandlerPC.beforeWriteLoop : HandlerPC → Bool
  | .connecting | .failed | .goWriteLoop => true
  | _ => false

/-- What a `WriteLoop` has received and not written yet. -/
def WriteLoopPC.pending : WriteLoopPC → List WebsocketMessage
  | .writing m => [m]
  | .notStarted | .select | .returned => []

/-- What a step writes on `c`'s connection. -/
def Label.wrote (c : ClientId) : Label → List WebsocketMessage
  | .write c' m ok => if c' = c ∧ ok = true then [m] else []
  | _ => []

/-- `ms` is what `c`'s `WriteLoop` has written. -/
structure Wrote (s : State) (c : ClientId) (ms : List WebsocketMessage) : Prop where
  notStarted : (s.handler c).beforeWriteLoop = true → s.writeLoop c = .notStarted
  running : s.writeLoop c ≠ .returned → ms ++ (s.writeLoop c).pending = s.handed c
  written : ms <+: s.handed c

theorem wrote_init (c : ClientId) : Wrote init c [] :=
  ⟨fun _ => rfl, fun _ => rfl, List.nil_prefix⟩

/-- A `WriteLoop` is started once. -/
theorem beforeWriteLoop_next (hen : Enabled s l)
    (h : ((next s l).handler c).beforeWriteLoop = true) :
    (s.handler c).beforeWriteLoop = true := by
  obtain ⟨-, hg⟩ := hen
  -- a handler that moves on past the start, or from a place before it
  have move : ∀ {c' : ClientId} {pc : HandlerPC},
      pc.beforeWriteLoop = false ∨ (s.handler c').beforeWriteLoop = true →
      (Function.update s.handler c' pc c).beforeWriteLoop = true →
      (s.handler c).beforeWriteLoop = true := by
    intro c' pc hpc hupdate
    rw [Function.update_apply] at hupdate
    split at hupdate
    · next hc =>
      rcases hpc with hpast | hbefore
      · rw [hpast] at hupdate
        cases hupdate
      · rw [hc, hbefore]
    · exact hupdate
  cases l with
  | connect c' ok => exact move (.inr (by rw [show s.handler c' = _ from hg]; rfl)) h
  | goWriteLoop | register | setCallbacks | createOffer | setLocalDescription | marshalOffer
  | offerSent | readLoopReturn | unregister | closeConn | closePeerConnection =>
    exact move (.inl rfl) h
  | marshalMessage c' offerString ok => cases ok <;> exact move (.inl rfl) h
  | onConnectionStateChange k c' p => cases p <;> exact h
  | write c' m ok => cases ok <;> exact h
  | _ => exact h

/-- What a step does to the `WriteLoop` of `c`: nothing, or it starts, takes a message, has written
it, or ends. -/
theorem writeLoop_cases (hen : Enabled s l) (c : ClientId) :
    ((next s l).writeLoop c = s.writeLoop c ∧ l.handed c = [] ∧ l.wrote c = []) ∨
    (l = .goWriteLoop c ∧ (next s l).writeLoop c = .select ∧ l.handed c = [] ∧ l.wrote c = []) ∨
    (∃ m, s.writeLoop c = .select ∧ (next s l).writeLoop c = .writing m ∧ l.handed c = [m] ∧
      l.wrote c = []) ∨
    (∃ m, s.writeLoop c = .writing m ∧ (next s l).writeLoop c = .select ∧ l.handed c = [] ∧
      l.wrote c = [m]) ∨
    (s.writeLoop c ≠ .notStarted ∧ (next s l).writeLoop c = .returned ∧ l.handed c = [] ∧
      l.wrote c = []) := by
  obtain ⟨-, hg⟩ := hen
  -- the `WriteLoop` of another client moves
  have other : ∀ {c' : ClientId} {pc : WriteLoopPC}, c' ≠ c →
      Function.update s.writeLoop c' pc c = s.writeLoop c :=
    fun hc => Function.update_of_ne (Ne.symm hc) ..
  cases l with
  | goWriteLoop c' =>
    by_cases hc : c' = c
    · subst hc
      exact .inr (.inl ⟨rfl, Function.update_self .., rfl, rfl⟩)
    · exact .inl ⟨other hc, rfl, rfl⟩
  | sendMessage g c' m =>
    by_cases hc : c' = c
    · subst hc
      exact .inr (.inr (.inl ⟨m, hg.2.2, Function.update_self .., if_pos rfl, rfl⟩))
    · exact .inl ⟨other hc, if_neg hc, rfl⟩
  | broadcastSend m visited c' =>
    by_cases hc : c' = c
    · subst hc
      exact .inr (.inr (.inl ⟨m, hg.2.2, Function.update_self .., if_pos rfl, rfl⟩))
    · exact .inl ⟨other hc, if_neg hc, rfl⟩
  | write c' m ok =>
    by_cases hc : c' = c
    · subst hc
      have hbusy : s.writeLoop c' = .writing m := hg.1
      cases ok with
      | true =>
        exact .inr (.inr (.inr (.inl ⟨m, hbusy, Function.update_self .., rfl, if_pos ⟨rfl, rfl⟩⟩)))
      | false =>
        refine .inr (.inr (.inr (.inr ⟨?_, Function.update_self .., rfl, ?_⟩)))
        · rw [hbusy]
          exact WriteLoopPC.noConfusion
        · exact if_neg fun hboth => Bool.false_ne_true hboth.2
    · refine .inl ⟨?_, rfl, if_neg fun hboth => hc hboth.1⟩
      cases ok <;> exact other hc
  | pingFail c' =>
    by_cases hc : c' = c
    · subst hc
      refine .inr (.inr (.inr (.inr ⟨?_, Function.update_self .., rfl, rfl⟩)))
      rw [show s.writeLoop c' = _ from hg]
      exact WriteLoopPC.noConfusion
    · exact .inl ⟨other hc, rfl, rfl⟩
  | writeLoopClosed c' =>
    by_cases hc : c' = c
    · subst hc
      refine .inr (.inr (.inr (.inr ⟨?_, Function.update_self .., rfl, rfl⟩)))
      rw [show s.writeLoop c' = _ from hg.1]
      exact WriteLoopPC.noConfusion
    · exact .inl ⟨other hc, rfl, rfl⟩
  | marshalMessage c' offerString ok => cases ok <;> exact .inl ⟨rfl, rfl, rfl⟩
  | onConnectionStateChange k c' p => cases p <;> exact .inl ⟨rfl, rfl, rfl⟩
  | _ => exact .inl ⟨rfl, rfl, rfl⟩

/-- The `WriteLoop` of `c` moves, which was started before. -/
theorem Wrote.next_running {ms' : List WebsocketMessage} (h : Wrote s c ms) (hen : Enabled s l)
    (hfrom : s.writeLoop c ≠ .notStarted) (hwritten : ms' <+: (next s l).handed c)
    (hall : (next s l).writeLoop c ≠ .returned →
      ms' ++ ((next s l).writeLoop c).pending = (next s l).handed c) : Wrote (next s l) c ms' :=
  ⟨fun hbefore => absurd (h.notStarted (beforeWriteLoop_next hen hbefore)) hfrom, hall, hwritten⟩

theorem Wrote.next (h : Wrote s c ms) (hen : Enabled s l) :
    Wrote (next s l) c (ms ++ l.wrote c) := by
  have hhanded := handed_next s l c
  have hgrows : s.handed c <+: (Hub.next s l).handed c := by
    rw [hhanded]
    exact List.prefix_append _ _
  rcases writeLoop_cases hen c with ⟨hsame, hnone, hquiet⟩ | ⟨rfl, hto, hnone, hquiet⟩ |
    ⟨m, hfrom, hto, htakes, hquiet⟩ | ⟨m, hfrom, hto, hnone, hwrites⟩ | ⟨hfrom, hto, hnone, hquiet⟩
  · rw [hnone, List.append_nil] at hhanded
    rw [hquiet, List.append_nil]
    refine ⟨fun hbefore => ?_, fun hlive => ?_, h.written.trans hgrows⟩
    · exact hsame.trans (h.notStarted (beforeWriteLoop_next hen hbefore))
    · rw [hsame] at hlive ⊢
      exact (h.running hlive).trans hhanded.symm
  · have hidle : s.writeLoop c = .notStarted := by
      refine h.notStarted ?_
      rw [show s.handler c = _ from hen.2]
      rfl
    have hall := h.running (by rw [hidle]; exact WriteLoopPC.noConfusion)
    rw [hidle] at hall
    rw [hnone, List.append_nil] at hhanded
    rw [hquiet, List.append_nil]
    refine ⟨fun hbefore => ?_, fun _ => ?_, h.written.trans hgrows⟩
    · have hpast : (Hub.next s (.goWriteLoop c)).handler c = .register := Function.update_self ..
      rw [hpast] at hbefore
      cases hbefore
    · rw [hto, hhanded]
      exact hall
  · have hall := h.running (by rw [hfrom]; exact WriteLoopPC.noConfusion)
    rw [hfrom, WriteLoopPC.pending, List.append_nil] at hall
    rw [hquiet, List.append_nil]
    refine h.next_running hen (by rw [hfrom]; exact WriteLoopPC.noConfusion)
      (h.written.trans hgrows) fun _ => ?_
    rw [hto, WriteLoopPC.pending, hall, hhanded, htakes]
  · have hall := h.running (by rw [hfrom]; exact WriteLoopPC.noConfusion)
    rw [hfrom, WriteLoopPC.pending] at hall
    rw [hnone, List.append_nil] at hhanded
    rw [hwrites, hall]
    refine h.next_running hen (by rw [hfrom]; exact WriteLoopPC.noConfusion) hgrows fun _ => ?_
    rw [hto, WriteLoopPC.pending, List.append_nil, hhanded]
  · rw [hquiet, List.append_nil]
    exact h.next_running hen hfrom (h.written.trans hgrows) fun hlive => absurd hto hlive

end Lightspeed.Hub
