import Lightspeed.Frontend.App
import Lightspeed.Hub.ViewerCount
import Lightspeed.Hub.Wire

/-!
# What the page reads

`socket.onmessage` on the text of a message. `JSON.parse` and the property accesses find in it what
the hub put in (`shows_onmessage`), so that the page makes of everything that a client's `WriteLoop`
receives the calls that `Frontend.onmessage` says, and shows the last count that `Run` handed over
(`page_reads_session`).

The offers and candidates are texts that `json.Marshal` made of pion's structs. That they are JSON
objects is a condition on the run.
-/

namespace Lightspeed.Frontend

open Hub Json

/-! ## The page on texts -/

/-- `v[key]`: the last member of that name. -/
def property (key : Text) : Value → Option Value
  | .object members => ((members.filter fun p => p.1 == key).getLast?).map fun p => p.2.2
  | _ => none

/-- Whether `JSON.parse` makes zero of a number: it is `digits * 10 ^ (exponent - places)`, with
`places` digits behind the point, and rounded to zero up to half of the least double, which is
`2 ^ -1074`. -/
def isZero (literal : List UInt8) : Bool :=
  let mantissa := literal.takeWhile fun b => b != 0x65 && b != 0x45
  let digits := Decimal.value (mantissa.filter Decimal.isDigit)
  let places := ((mantissa.dropWhile fun b => b != 0x2E).drop 1).length
  let exponent := literal.drop (mantissa.length + 1)
  let shift := Decimal.value (exponent.filter Decimal.isDigit)
  if exponent.head? = some 0x2D then decide (digits * 2 ^ 1075 ≤ 10 ^ (shift + places))
  else decide (digits * 10 ^ shift * 2 ^ 1075 ≤ 10 ^ places)

/-- Whether `!v` is false. -/
def truthy : Option Value → Bool
  | none | some .null => false
  | some (.bool b) => b
  | some (.number literal) => !isZero literal
  | some (.string s) => !s.isEmpty
  | some (.array _) | some (.object _) => true

/-- `v === name` for a string. -/
def isString (name : Text) : Option Value → Bool
  | some (.string s) => s == name
  | _ => false

/-- The calls, with the values that `JSON.parse` made. -/
inductive ValueCall
  | setRemoteDescription (offerCandidate : Value)
  | createAnswer
  | addIceCandidate (offerCandidate : Value)
  /-- `none` is `undefined`. -/
  | dispatchInfo (viewers : Option Value)

/-- `switch (msg.event)`, with the data `d`. -/
def onEvent (event : Option Value) (d : Value) : List ValueCall :=
  if isString MessageType.offer.name event then [.setRemoteDescription d, .createAnswer]
  else if isString MessageType.candidate.name event then [.addIceCandidate d]
  else if isString MessageType.info.name event then
    [.dispatchInfo (property "no_connections".toList d)]
  else []

/-- `socket.onmessage`, up to its `await`. A text that is no JSON throws. -/
def onmessageText (raw : List UInt8) : List ValueCall :=
  match Json.parse raw with
  | none => []
  | some msg =>
    if truthy (some msg) then
      match property "data".toList msg with
      | none => []
      | some d => if truthy (some d) then onEvent (property "event".toList msg) d else []
    else []

/-- `state.viewers` of `appReducer`. The initial null and `undefined` are both `none`. -/
def appReducer (viewers : Option Value) : ValueCall → Option Value
  | .dispatchInfo viewers' => viewers'
  | _ => viewers

/-! ## Messages of the hub -/

/-- The text is that of an object. -/
def IsObject (str : String) : Prop :=
  ∃ members, IsText (Utf8.encode str.toList) (.object members)

/-- What a process of the hub sends, made by a `json.Marshal` that writes objects. -/
inductive Sound : WebsocketMessage → Prop
  | offer (offerString : Option String) (h : ∀ str, offerString = some str → IsObject str) :
    Sound (offerMessage offerString)
  | candidate (candidateString : String) (h : IsObject candidateString) :
    Sound (candidateMessage candidateString)
  | info (i : Info) : Sound (infoMessage i)

/-- The page's call on values is the call on data. -/
inductive Shows : Call → ValueCall → Prop
  | setRemoteDescription {d : Data} {v : Value} (h : IsText d.text v) :
    Shows (.setRemoteDescription d) (.setRemoteDescription v)
  | createAnswer : Shows .createAnswer .createAnswer
  | addIceCandidate {d : Data} {v : Value} (h : IsText d.text v) :
    Shows (.addIceCandidate d) (.addIceCandidate v)
  | dispatchInfo (n : ℕ) : Shows (.dispatchInfo (some n))
    (.dispatchInfo (some (.number (Decimal.encode n))))

theorem onmessageText_messageText {e : MessageType} {d : List UInt8} {v : Value} (h : IsText d v) :
    onmessageText (messageText e d) =
      if truthy (some v) then onEvent (some (.string e.name)) v else [] := by
  rw [onmessageText, parse_messageText h]
  rfl

theorem onmessageText_null : onmessageText (offerMessage none).text = [] := by
  rw [WebsocketMessage.text, offerMessage, Data.text, onmessageText_messageText isText_null]
  rfl

theorem onmessageText_offer {str : String} {members : List (Text × List UInt8 × Value)}
    (h : IsText (Utf8.encode str.toList) (.object members)) :
    onmessageText (offerMessage (some str)).text =
      [.setRemoteDescription (.object members), .createAnswer] := by
  rw [WebsocketMessage.text, offerMessage, Data.text, onmessageText_messageText h]
  rfl

theorem onmessageText_candidate {str : String} {members : List (Text × List UInt8 × Value)}
    (h : IsText (Utf8.encode str.toList) (.object members)) :
    onmessageText (candidateMessage str).text = [.addIceCandidate (.object members)] := by
  rw [WebsocketMessage.text, candidateMessage, Data.text, onmessageText_messageText h]
  rfl

theorem onmessageText_info (i : Info) : onmessageText (infoMessage i).text =
    [.dispatchInfo (some (.number (Decimal.encode i.noConnections)))] := by
  rw [WebsocketMessage.text, infoMessage, onmessageText_messageText (isText_info i)]
  rfl

variable {m : WebsocketMessage}

/-- The page makes of a message's text what it is to make of the message. -/
theorem shows_onmessage (h : Sound m) :
    List.Forall₂ Shows (onmessage m) (onmessageText m.text) := by
  cases h with
  | offer offerString hobject =>
    cases offerString with
    | none =>
      rw [onmessageText_null]
      exact .nil
    | some str =>
      obtain ⟨members, htext⟩ := hobject str rfl
      rw [onmessageText_offer htext]
      exact .cons (.setRemoteDescription htext) (.cons .createAnswer .nil)
  | candidate str hobject =>
    obtain ⟨members, htext⟩ := hobject
    rw [onmessageText_candidate htext]
    exact .cons (.addIceCandidate htext) .nil
  | info i =>
    rw [onmessageText_info]
    exact .cons (.dispatchInfo i.noConnections) .nil

theorem shows_flatMap {ms : List WebsocketMessage} (h : ∀ m ∈ ms, Sound m) :
    List.Forall₂ Shows (ms.flatMap onmessage) (ms.flatMap fun m => onmessageText m.text) := by
  induction ms with
  | nil => exact .nil
  | cons m ms ih =>
    exact List.rel_append (shows_onmessage (h m List.mem_cons_self))
      (ih fun m' hm' => h m' (List.mem_cons_of_mem _ hm'))

/-- The count that the page shows, if it is that of an info. -/
def shown (i : Info) : Value := .number (Decimal.encode i.noConnections)

/-- Only an info changes what the page shows. -/
theorem appReducer_onmessageText (h : Sound m) (viewers : Option Value) :
    (onmessageText m.text).foldl appReducer viewers =
      match m.info? with
      | some i => some (shown i)
      | none => viewers := by
  cases h with
  | offer offerString hobject =>
    cases offerString with
    | none =>
      rw [onmessageText_null]
      rfl
    | some str =>
      obtain ⟨members, htext⟩ := hobject str rfl
      rw [onmessageText_offer htext]
      rfl
  | candidate str hobject =>
    obtain ⟨members, htext⟩ := hobject
    rw [onmessageText_candidate htext]
    rfl
  | info i =>
    rw [onmessageText_info]
    rfl

/-- After several messages it shows the last info. -/
theorem appReducer_flatMap {ms : List WebsocketMessage} (h : ∀ m ∈ ms, Sound m) :
    (ms.flatMap fun m => onmessageText m.text).foldl appReducer none =
      ((ms.filterMap WebsocketMessage.info?).getLast?).map shown := by
  induction ms using List.reverseRecOn with
  | nil => rfl
  | append_singleton ms m ih =>
    have hlast := h m (List.mem_append_right _ List.mem_cons_self)
    rw [List.flatMap_append, List.foldl_append, ih fun m' hm' => h m' (List.mem_append_left _ hm'),
      List.flatMap_singleton, appReducer_onmessageText hlast, List.filterMap_append]
    cases hinfo : m.info? with
    | none =>
      rw [List.filterMap_cons_none hinfo, List.filterMap_nil, List.append_nil]
    | some i =>
      rw [List.filterMap_cons_some hinfo, List.filterMap_nil, List.getLast?_concat]
      rfl

/-! ## What the hub hands over -/

/-- What `json.Marshal` makes of pion's structs are objects. -/
def MarshalsObjects (_ : State) : Hub.Label → Prop
  | .marshalOffer _ (some offerString) => IsObject offerString
  | .onICECandidate _ _ candidateString => IsObject candidateString
  | _ => True

/-- The offer a handler has marshalled. -/
def MarshalledInv (s : State) : Prop :=
  ∀ c str, s.handler c = .marshalMessage (some str) → IsObject str

theorem marshalledInv_of_reachableWhen {s : State} (h : hub.ReachableWhen MarshalsObjects s) :
    MarshalledInv s := by
  refine h.invariant (P := MarshalledInv) (fun _ _ h => by cases h) fun s l _ hi hok _ => ?_
  -- a handler that moves on to something else
  have update : ∀ {c' : ClientId} {pc : HandlerPC}, (∀ str, pc ≠ .marshalMessage (some str)) →
      ∀ c str, Function.update s.handler c' pc c = .marshalMessage (some str) → IsObject str := by
    intro c' pc hpc c str hc
    rw [Function.update_apply] at hc
    split at hc
    · exact absurd hc (hpc str)
    · exact hi c str hc
  cases l with
  | connect c ok => exact update fun str => by cases ok <;> exact HandlerPC.noConfusion
  | marshalOffer c offerString =>
    intro c' str hc
    replace hc : Function.update s.handler c (.marshalMessage offerString) c' =
      .marshalMessage (some str) := hc
    rw [Function.update_apply] at hc
    split at hc
    · cases hc
      exact hok
    · exact hi c' str hc
  | marshalMessage c offerString ok => cases ok <;> exact update fun str => HandlerPC.noConfusion
  | onConnectionStateChange k c p => cases p <;> exact hi
  | write c m ok => cases ok <;> exact hi
  | goWriteLoop | register | setCallbacks | createOffer | setLocalDescription | offerSent
  | readLoopReturn | unregister | closeConn | closePeerConnection =>
    exact update fun str => HandlerPC.noConfusion
  | _ => exact hi

/-- The messages in the sending blocks. -/
def SendingSound (s : State) : Prop := ∀ g m, (s.sending g).message = some m → Sound m

theorem sendingSound_of_reachableWhen {s : State} (h : hub.ReachableWhen MarshalsObjects s) :
    SendingSound s := by
  refine h.invariant (P := SendingSound) (fun _ _ h => by cases h) fun s l hr hi hok hen => ?_
  obtain ⟨-, hg⟩ := hen
  have update : ∀ {g' : Sender} {blk : SendPC}, (∀ m, blk.message = some m → Sound m) →
      ∀ g m, (Function.update s.sending g' blk g).message = some m → Sound m := by
    intro g' blk hblk g m hm
    rw [Function.update_apply] at hm
    split at hm
    · exact hblk m hm
    · exact hi g m hm
  cases l with
  | marshalMessage c offerString ok =>
    cases ok with
    | true =>
      apply update
      intro m hm
      cases hm
      apply Sound.offer offerString
      intro str hstr
      exact marshalledInv_of_reachableWhen hr c str (by rw [show s.handler c = _ from hg, hstr])
    | false => exact hi
  | onICECandidate k c candidateString =>
    apply update
    intro m hm
    cases hm
    exact .candidate candidateString hok
  | onConnectionStateChange k c p => cases p <;> exact hi
  | write c m ok => cases ok <;> exact hi
  | sendRLock g c m => exact update fun m' hm => hi g m' (by rw [hg.1]; exact hm)
  | sendTest g c m =>
    refine update fun m' hm => hi g m' ?_
    rw [show s.sending g = _ from hg]
    split at hm
    · exact hm
    · cases hm
  | sendMessage | sendRUnlock => exact update fun m' hm => by cases hm
  | _ => exact hi

/-- Everything that a `WriteLoop` receives is sound. -/
theorem handed_sound {s : State} (h : hub.ReachableWhen MarshalsObjects s) (c : ClientId) :
    ∀ m ∈ s.handed c, Sound m := by
  refine h.invariant (P := fun s => ∀ m ∈ s.handed c, Sound m) (fun m hm => by cases hm) ?_
  intro s l hr hi _ hen m hm
  replace hm : m ∈ (next s l).handed c := hm
  rw [handed_next, List.mem_append] at hm
  rcases hm with hm | hm
  · exact hi m hm
  · obtain ⟨-, hg⟩ := hen
    cases l with
    | sendMessage g c' m' =>
      rw [Label.handed] at hm
      split at hm
      · rw [List.mem_singleton.mp hm]
        exact sendingSound_of_reachableWhen hr g m' (by rw [hg.1]; rfl)
      · cases hm
    | broadcastSend m' visited c' =>
      rw [Label.handed] at hm
      split at hm
      · obtain ⟨i, hi'⟩ := (kindInv_of_reachable hr.reachable).run m' (by rw [hg.1]; rfl)
        rw [List.mem_singleton.mp hm, hi']
        exact .info i
      · cases hm
    | _ => cases hm

/-- **The page reads what the hub sends.** In every run of the hub and for every client: from the
texts of all that the client's `WriteLoop` has received, in order, the page makes the calls that the
messages stand for, one for one and with the values that they carry; and the number of viewers that
it shows is the last count that `Run` has handed to the client. -/
theorem page_reads_session {s : State} (h : hub.ReachableWhen MarshalsObjects s) (c : ClientId) :
    List.Forall₂ Shows ((s.handed c).flatMap onmessage)
      ((s.handed c).flatMap fun m => onmessageText m.text) ∧
    ((s.handed c).flatMap fun m => onmessageText m.text).foldl appReducer none =
      (s.lastInfo c).map shown := by
  have hsound := handed_sound h c
  exact ⟨shows_flatMap hsound, appReducer_flatMap hsound⟩

/-- `{}` stands for the texts of pion. -/
theorem isObject_empty : IsObject "{}" := ⟨[], rfl⟩

def marshalsEmpty (_ : State) : Hub.Label → Bool
  | .marshalOffer _ (some offerString) => offerString == "{}"
  | .onICECandidate _ _ candidateString => candidateString == "{}"
  | _ => true

theorem marshalsObjects_of_marshalsEmpty (s : State) (l : Hub.Label)
    (h : marshalsEmpty s l = true) : MarshalsObjects s l := by
  cases l with
  | marshalOffer c offerString =>
    cases offerString with
    | none => trivial
    | some str =>
      obtain rfl : str = "{}" := beq_iff_eq.mp h
      exact isObject_empty
  | onICECandidate k c str =>
    obtain rfl : str = "{}" := beq_iff_eq.mp h
    exact isObject_empty
  | _ => trivial

/-- A viewer that has had its offer and the first count. -/
theorem page_reads_session_viewer : ∃ s, hub.ReachableWhen MarshalsObjects s ∧
    s.handed 0 = [offerMessage (some "{}"), infoMessage ⟨1⟩] ∧
    ((s.handed 0).flatMap fun m => onmessageText m.text).foldl appReducer none =
      some (shown ⟨1⟩) := by
  obtain ⟨s, hs, hhanded, hlast⟩ := hub.reachableWhen_of_exec MarshalsObjects marshalsEmpty
    marshalsObjects_of_marshalsEmpty
    (connectLabels 0 ++ registerLabels 0 1 ++
      [.createOffer 0 true, .setLocalDescription 0 true, .marshalOffer 0 (some "{}"),
        .marshalMessage 0 (some "{}") true,
        .sendRLock (.handler 0) 0 (offerMessage (some "{}")),
        .sendTest (.handler 0) 0 (offerMessage (some "{}")),
        .sendMessage (.handler 0) 0 (offerMessage (some "{}")),
        .write 0 (offerMessage (some "{}")) true,
        .takeBroadcast 0, .broadcastRLock (infoMessage ⟨1⟩),
        .broadcastNext (infoMessage ⟨1⟩) ∅ 0, .broadcastSend (infoMessage ⟨1⟩) ∅ 0])
    (fun s => s.handed 0 = [offerMessage (some "{}"), infoMessage ⟨1⟩] ∧ s.lastInfo 0 = some ⟨1⟩)
    (by decide)
  have hshown := (page_reads_session hs 0).2
  rw [hlast] at hshown
  exact ⟨s, hs, hhanded, hshown⟩

end Lightspeed.Frontend
