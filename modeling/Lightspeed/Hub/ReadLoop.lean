import Lightspeed.Handler
import Lightspeed.Json
import Lightspeed.Str

/-!
# ReadLoop

`Client.ReadLoop` takes one websocket message after the other, until one fails. All of them are
unmarshalled into the same `WebsocketMessage`, made before the loop: what a message does not
mention stays as the message before it left it, and after the literal `null` the pointer to it is
nil.

How pion decodes its own structs is a parameter (`Webrtc`). Messages have at most 4096 bytes, far
below the nesting that `encoding/json` refuses.
-/

namespace Lightspeed.Hub.ReadLoop

/-! ## Unmarshalling -/

/-- `webrtc/ws/message.go`. A `json.RawMessage` is a text, and nil is the empty one. -/
structure WebsocketMessage where
  event : Text
  data : List UInt8

def messageTypeAnswer : Text := "answer".toList

def messageTypeCandidate : Text := "candidate".toList

/-- `WebsocketMessage{}` -/
def WebsocketMessage.zero : WebsocketMessage := ⟨[], []⟩

/-- A member of an object: its key, the text of its value, and the value. -/
abbrev Member := Text × List UInt8 × Json.Value

/-- `encoding/json` looks for a field of that name in any case. -/
def Member.names (p : Member) (field : Text) : Bool := p.1.map Char.toLower == field

/-- What `encoding/json` does with one member: a string field takes a string and ignores null, a
`json.RawMessage` takes any text, and a member without a field is skipped. -/
def WebsocketMessage.store (m : WebsocketMessage) (p : Member) : Option WebsocketMessage :=
  if p.names "event".toList then
    match p.2.2 with
    | .string e => some { m with event := e }
    | .null => some m
    | _ => none
  else if p.names "data".toList then some { m with data := p.2.1 }
  else some m

/-- `json.Unmarshal(raw, &message)`: the pointer it leaves, which is `none` for nil. The outer
`none` is an error. -/
def unmarshal (raw : List UInt8) (message : Option WebsocketMessage) :
    Option (Option WebsocketMessage) :=
  match Json.parse raw with
  | some .null => some none
  | some (.object members) =>
    (members.foldlM WebsocketMessage.store (message.getD .zero)).map some
  | _ => none

/-- `{}` -/
def emptyObject : List UInt8 := [0x7B, 0x7D]

/-- `{"event":"candidate","data":{}}` -/
def candidateText : List UInt8 :=
  [0x7B, 0x22, 0x65, 0x76, 0x65, 0x6E, 0x74, 0x22, 0x3A, 0x22, 0x63, 0x61, 0x6E, 0x64, 0x69, 0x64,
  0x61, 0x74, 0x65, 0x22, 0x2C, 0x22, 0x64, 0x61, 0x74, 0x61, 0x22, 0x3A, 0x7B, 0x7D, 0x7D]

/-- `{"event":"answer","data":{"type":"answer","sdp":"v=0"}}` -/
def answerText : List UInt8 :=
  [0x7B, 0x22, 0x65, 0x76, 0x65, 0x6E, 0x74, 0x22, 0x3A, 0x22, 0x61, 0x6E, 0x73, 0x77, 0x65, 0x72,
  0x22, 0x2C, 0x22, 0x64, 0x61, 0x74, 0x61, 0x22, 0x3A, 0x7B, 0x22, 0x74, 0x79, 0x70, 0x65, 0x22,
  0x3A, 0x22, 0x61, 0x6E, 0x73, 0x77, 0x65, 0x72, 0x22, 0x2C, 0x22, 0x73, 0x64, 0x70, 0x22, 0x3A,
  0x22, 0x76, 0x3D, 0x30, 0x22, 0x7D, 0x7D]

/-! ## The loop -/

/-- The structs of pion that messages carry, and how `json.Unmarshal` decodes them; `none` is an
error. -/
structure Webrtc where
  ICECandidateInit : Type
  SessionDescription : Type
  unmarshalCandidate : List UInt8 → Option ICECandidateInit
  unmarshalAnswer : List UInt8 → Option SessionDescription

/-- Both are structs: `json.Unmarshal` fails on no text at all and takes an object without
members. -/
structure Webrtc.Documented (w : Webrtc) : Prop where
  candidate_nil : w.unmarshalCandidate [] = none
  answer_nil : w.unmarshalAnswer [] = none
  candidate_empty : (w.unmarshalCandidate emptyObject).isSome
  answer_empty : (w.unmarshalAnswer emptyObject).isSome

/-- Takes every object, and keeps its text in place of the fields. -/
def unmarshalObject (raw : List UInt8) : Option (List UInt8) :=
  match Json.parse raw with
  | some (.object _) => some raw
  | _ => none

def exampleWebrtc : Webrtc where
  ICECandidateInit := List UInt8
  SessionDescription := List UInt8
  unmarshalCandidate := unmarshalObject
  unmarshalAnswer := unmarshalObject

theorem documented_exampleWebrtc : exampleWebrtc.Documented := ⟨rfl, rfl, rfl, rfl⟩

/-- A call on the `PeerConnection`. -/
inductive Call (w : Webrtc)
  | addICECandidate (candidate : w.ICECandidateInit)
  | setRemoteDescription (answer : w.SessionDescription)

/-- How an iteration ends. -/
inductive Exit
  | loops
  | returns
  | panics
  deriving DecidableEq

structure Outcome (w : Webrtc) where
  call : Option (Call w)
  exit : Exit

/-- What `c.conn.ReadMessage` returns, and if the message leads to a call, whether that succeeds. -/
inductive Input
  | error
  | message (raw : List UInt8) (ok : Bool)

variable (w : Webrtc)

/-- The outcome of a call that succeeds or not. -/
def Outcome.ofCall (c : Call w) (ok : Bool) : Outcome w :=
  ⟨some c, if ok then .loops else .returns⟩

/-- `switch message.Event` -/
def switch (m : WebsocketMessage) (ok : Bool) : Outcome w :=
  if m.event = messageTypeCandidate then
    match w.unmarshalCandidate m.data with
    | none => ⟨none, .returns⟩
    | some candidate => .ofCall w (.addICECandidate candidate) ok
  else if m.event = messageTypeAnswer then
    match w.unmarshalAnswer m.data with
    | none => ⟨none, .returns⟩
    | some answer => .ofCall w (.setRemoteDescription answer) ok
  else ⟨none, .loops⟩

/-- One iteration: the pointer after it and its outcome. `message.Event` panics when the pointer is
nil. -/
def iterate (message : Option WebsocketMessage) :
    Input → Option WebsocketMessage × Outcome w
  | .error => (message, ⟨none, .returns⟩)
  | .message raw ok =>
    match unmarshal raw message with
    | none => (message, ⟨none, .returns⟩)
    | some none => (none, ⟨none, .panics⟩)
    | some (some m) => (some m, switch w m ok)

/-- The iterations that go on to the next one. -/
def readLoop : Handler (Option WebsocketMessage) Input (Call w) := fun message input =>
  match (iterate w message input).2.exit with
  | .loops => some ((iterate w message input).1, (iterate w message input).2.call)
  | _ => none

/-- The inputs were all accepted, and `message` is the pointer they leave. -/
def Accepted (inputs : List Input) (message : Option WebsocketMessage) : Prop :=
  (readLoop w).runAll (some .zero) inputs = some message

/-! ## What a message says itself -/

/-- The value of an event is a string or null. -/
def Member.fits (p : Member) : Bool :=
  !p.names "event".toList || match p.2.2 with
    | .string _ | .null => true
    | _ => false

/-- The event that a member sets. -/
def Member.event? (p : Member) : Option Text :=
  if p.names "event".toList then
    match p.2.2 with
    | .string e => some e
    | _ => none
  else none

/-- The data that a member sets. -/
def Member.data? (p : Member) : Option (List UInt8) :=
  if p.names "data".toList then some p.2.1 else none

/-- The last event that is set. -/
def ownEvent (members : List Member) : Option Text := (members.filterMap Member.event?).getLast?

/-- The last data that is set. -/
def ownData (members : List Member) : Option (List UInt8) :=
  (members.filterMap Member.data?).getLast?

/-- The message after members that all fit: what they set, and the rest as it was. -/
def WebsocketMessage.over (m : WebsocketMessage) (members : List Member) : WebsocketMessage :=
  ⟨(ownEvent members).getD m.event, (ownData members).getD m.data⟩

theorem Member.data?_of_names_event {p : Member} (h : p.names "event".toList = true) :
    p.data? = none := by
  rw [Member.names, beq_iff_eq] at h
  rw [Member.data?, Member.names, h]
  rfl

theorem store_eq (m : WebsocketMessage) (p : Member) : m.store p =
    if p.fits then some ⟨p.event?.getD m.event, p.data?.getD m.data⟩ else none := by
  unfold WebsocketMessage.store
  by_cases hevent : p.names "event".toList = true
  · rw [if_pos hevent, Member.data?_of_names_event hevent, Member.fits, Member.event?,
      if_pos hevent, hevent]
    cases p.2.2 <;> rfl
  · rw [Bool.not_eq_true] at hevent
    rw [Member.fits, Member.event?, Member.data?, hevent]
    cases p.names "data".toList <;> rfl

theorem getLast?_filterMap_cons {α β : Type*} (f : α → Option β) (a : α) (l : List α) (b : β) :
    (((a :: l).filterMap f).getLast?).getD b = ((l.filterMap f).getLast?).getD ((f a).getD b) := by
  rw [List.filterMap_cons]
  cases f a with
  | none => rfl
  | some x => rw [List.getLast?_cons, Option.getD_some, Option.getD_some]

theorem foldlM_store (m : WebsocketMessage) (members : List Member) :
    members.foldlM WebsocketMessage.store m =
      if members.all Member.fits then some (m.over members) else none := by
  induction members generalizing m with
  | nil => rfl
  | cons p members ih =>
    rw [List.foldlM_cons, store_eq, List.all_cons]
    cases p.fits with
    | false => rfl
    | true =>
      rw [if_pos rfl, Bool.true_and, Option.bind_eq_bind, Option.bind_some, ih,
        WebsocketMessage.over, WebsocketMessage.over, ownEvent, ownData, ownEvent, ownData,
        getLast?_filterMap_cons, getLast?_filterMap_cons]

/-- What `json.Unmarshal` makes of a message, whatever it is stored over. -/
theorem unmarshal_eq (raw : List UInt8) (message : Option WebsocketMessage) :
    unmarshal raw message =
      match Json.parse raw with
      | some .null => some none
      | some (.object members) =>
        if members.all Member.fits then some (some ((message.getD .zero).over members)) else none
      | _ => none := by
  unfold unmarshal
  split
  · rfl
  · rw [foldlM_store]
    split_ifs <;> rfl
  · rfl

variable {w : Webrtc} {message : Option WebsocketMessage} {m m' : WebsocketMessage} {ok : Bool}

theorem iterate_null {raw : List UInt8} (h : Json.parse raw = some .null) :
    iterate w message (.message raw ok) = (none, ⟨none, .panics⟩) := by
  have hunmarshal : unmarshal raw message = some none := by rw [unmarshal_eq, h]
  rw [iterate, hunmarshal]

theorem iterate_object {raw : List UInt8} {members : List Member}
    (h : Json.parse raw = some (.object members)) (hfits : members.all Member.fits = true) :
    iterate w message (.message raw ok) =
      (some ((message.getD .zero).over members),
        switch w ((message.getD .zero).over members) ok) := by
  have hunmarshal : unmarshal raw message = some (some ((message.getD .zero).over members)) := by
    rw [unmarshal_eq, h]
    exact if_pos hfits
  rw [iterate, hunmarshal]

/-- A message is null, an object that is taken, or the last one. -/
theorem message_kinds (w : Webrtc) (raw : List UInt8) :
    Json.parse raw = some .null ∨
    (∃ members, Json.parse raw = some (.object members) ∧ members.all Member.fits = true) ∨
    ∀ message ok, iterate w message (.message raw ok) = (message, ⟨none, .returns⟩) := by
  by_cases hnull : Json.parse raw = some .null
  · exact .inl hnull
  · by_cases hobject : ∃ members, Json.parse raw = some (.object members) ∧
        members.all Member.fits = true
    · exact .inr (.inl hobject)
    · refine .inr (.inr fun message ok => ?_)
      have hunmarshal : unmarshal raw message = none := by
        rw [unmarshal_eq]
        split
        · next h => exact absurd h hnull
        · next members h => exact if_neg fun hfits => hobject ⟨members, h, hfits⟩
        · rfl
      rw [iterate, hunmarshal]

theorem parse_emptyObject : Json.parse emptyObject = some (.object []) := rfl

theorem parse_candidateText : Json.parse candidateText = some (.object
    [("event".toList, [0x22, 0x63, 0x61, 0x6E, 0x64, 0x69, 0x64, 0x61, 0x74, 0x65, 0x22],
      .string messageTypeCandidate), ("data".toList, emptyObject, .object [])]) := rfl

/-! ## The literal null -/

/-- The literal `null`, with white space around it. -/
def IsNull (raw : List UInt8) : Prop :=
  ∃ a b, (∀ x ∈ a, Json.Reader.isSpace x) ∧ (∀ x ∈ b, Json.Reader.isSpace x) ∧
    raw = a ++ Json.Reader.nullText ++ b

theorem switch_ne_panics (m : WebsocketMessage) (ok : Bool) : (switch w m ok).exit ≠ .panics := by
  unfold switch
  split_ifs
  · cases w.unmarshalCandidate m.data <;> cases ok <;> exact Exit.noConfusion
  · cases w.unmarshalAnswer m.data <;> cases ok <;> exact Exit.noConfusion
  · exact Exit.noConfusion

theorem iterate_panics_iff {raw : List UInt8} :
    (iterate w message (.message raw ok)).2.exit = .panics ↔ IsNull raw := by
  rw [IsNull, ← Json.parse_eq_null]
  constructor
  · intro h
    rcases message_kinds w raw with hnull | ⟨members, hparse, hfits⟩ | hrejected
    · exact hnull
    · rw [iterate_object hparse hfits] at h
      exact absurd h (switch_ne_panics _ _)
    · rw [hrejected] at h
      cases h
  · intro h
    rw [iterate_null h]

/-- While the loop goes on the pointer is not nil. -/
theorem isSome_of_accepted {inputs : List Input} (h : Accepted w inputs message) :
    message.isSome := by
  refine Handler.invariant_of_runAll (P := fun p => p.isSome) ?_ rfl h
  intro p input p' call hstep hp
  rw [readLoop] at hstep
  split at hstep
  · next hexit =>
    obtain ⟨rfl, -⟩ := Prod.mk.inj (Option.some.inj hstep)
    cases input with
    | error => exact hp
    | message raw ok =>
      rw [iterate] at hexit ⊢
      cases hunmarshal : unmarshal raw p with
      | none => exact hp
      | some p'' =>
        cases p'' with
        | none =>
          rw [hunmarshal] at hexit
          cases hexit
        | some m => rfl
  · cases hstep

theorem not_isNull_of_object {raw : List UInt8} {members : List Member}
    (h : Json.parse raw = some (.object members)) : ¬IsNull raw := by
  rw [IsNull, ← Json.parse_eq_null, h]
  exact fun heq => by cases heq

/-- No iteration panics on these inputs. -/
def NeverPanics (w : Webrtc) (inputs : List Input) : Prop :=
  ∀ before input after message, inputs = before ++ input :: after → Accepted w before message →
    (iterate w message input).2.exit ≠ .panics

/-- The message is read while all before it were accepted. -/
def Reads (w : Webrtc) (inputs : List Input) (raw : List UInt8) : Prop :=
  ∃ before ok after message, inputs = before ++ .message raw ok :: after ∧
    Accepted w before message

/-- **Panics.** The loop starts every iteration with a message. An iteration panics exactly if the
message it reads is the literal `null`, and the loop never does exactly if it reads no such
message. -/
theorem neverPanics_iff (w : Webrtc) :
    (∀ before message, Accepted w before message → message.isSome) ∧
    (∀ before message raw ok, Accepted w before message →
      ((iterate w message (.message raw ok)).2.exit = .panics ↔ IsNull raw)) ∧
    ∀ inputs, NeverPanics w inputs ↔ ∀ raw, Reads w inputs raw → ¬IsNull raw := by
  refine ⟨fun _ _ h => isSome_of_accepted h, fun _ _ _ _ _ => iterate_panics_iff, ?_⟩
  intro inputs
  constructor
  · intro h raw hreads
    obtain ⟨before, ok, after, message, heq, haccepted⟩ := hreads
    rw [← iterate_panics_iff (w := w)]
    exact h before (.message raw ok) after message heq haccepted
  · intro h before input after message heq haccepted
    cases input with
    | error => exact Exit.noConfusion
    | message raw ok =>
      rw [Ne, iterate_panics_iff]
      exact h raw ⟨before, ok, after, message, heq, haccepted⟩

theorem neverPanics_iff_object :
    NeverPanics exampleWebrtc [.message candidateText true, .message emptyObject false] := by
  refine ((neverPanics_iff exampleWebrtc).2.2 _).mpr fun raw hreads => ?_
  obtain ⟨before, ok, after, -, heq, -⟩ := hreads
  have hmem : Input.message raw ok ∈
      [Input.message candidateText true, Input.message emptyObject false] := by
    rw [heq]
    exact List.mem_append_right before List.mem_cons_self
  rw [List.mem_cons, List.mem_singleton] at hmem
  rcases hmem with heq | heq
  · rw [(Input.message.inj heq).1]
    exact not_isNull_of_object parse_candidateText
  · rw [(Input.message.inj heq).1]
    exact not_isNull_of_object parse_emptyObject

/-- The literal alone panics on a new connection. -/
theorem nullText_panics : ¬∀ inputs, NeverPanics exampleWebrtc inputs := by
  intro h
  exact h [.message Json.Reader.nullText true] [] (.message Json.Reader.nullText true) []
    (some .zero) rfl rfl rfl

/-! ## Earlier messages -/

/-- The calls and the exit for a message are the same after any two histories. -/
def OwnReaction (w : Webrtc) (raw : List UInt8) : Prop :=
  ∀ h₁ h₂ m₁ m₂ ok, Accepted w h₁ m₁ → Accepted w h₂ m₂ →
    (iterate w m₁ (.message raw ok)).2 = (iterate w m₂ (.message raw ok)).2

/-- If the message is an object that is taken, it sets an event, and for a candidate or an answer
its data as well. -/
def SaysAll (raw : List UInt8) : Prop :=
  ∀ members, Json.parse raw = some (.object members) → members.all Member.fits →
    ∃ e, ownEvent members = some e ∧
      (e = messageTypeCandidate ∨ e = messageTypeAnswer → (ownData members).isSome)

/-- The switch reads the data only for a candidate or an answer. -/
theorem switch_congr (hevent : m.event = m'.event)
    (hdata : m.event = messageTypeCandidate ∨ m.event = messageTypeAnswer → m.data = m'.data) :
    switch w m ok = switch w m' ok := by
  unfold switch
  rw [← hevent]
  split_ifs with hcandidate hanswer
  · rw [hdata (.inl hcandidate)]
  · rw [hdata (.inr hanswer)]
  · rfl

theorem ownReaction_of_saysAll {raw : List UInt8} (h : SaysAll raw) : OwnReaction w raw := by
  intro h₁ h₂ m₁ m₂ ok _ _
  rcases message_kinds w raw with hnull | ⟨members, hparse, hfits⟩ | hrejected
  · rw [iterate_null hnull, iterate_null hnull]
  · obtain ⟨e, hevent, hdata⟩ := h members hparse hfits
    rw [iterate_object hparse hfits, iterate_object hparse hfits]
    have hover : ∀ m : WebsocketMessage, (m.over members).event = e := by
      intro m
      rw [WebsocketMessage.over, hevent, Option.getD_some]
    refine switch_congr ?_ fun hkind => ?_
    · rw [hover, hover]
    · rw [hover] at hkind
      obtain ⟨d, hd⟩ := Option.isSome_iff_exists.mp (hdata hkind)
      rw [WebsocketMessage.over, WebsocketMessage.over, hd, Option.getD_some, Option.getD_some]
  · rw [hrejected, hrejected]

theorem unmarshal_candidateText :
    unmarshal candidateText (some .zero) = some (some ⟨messageTypeCandidate, emptyObject⟩) := rfl

theorem switch_candidate (hevent : m.event = messageTypeCandidate) : switch w m ok =
    match w.unmarshalCandidate m.data with
    | none => ⟨none, .returns⟩
    | some candidate => .ofCall w (.addICECandidate candidate) ok := if_pos hevent

theorem switch_answer (hevent : m.event = messageTypeAnswer) : switch w m ok =
    match w.unmarshalAnswer m.data with
    | none => ⟨none, .returns⟩
    | some answer => .ofCall w (.setRemoteDescription answer) ok := by
  have hne : m.event ≠ messageTypeCandidate := by
    rw [hevent]
    decide
  rw [switch, if_neg hne, if_pos hevent]

/-- A candidate of a connection that takes it stays in the message. -/
theorem accepted_candidateText (hw : w.Documented) :
    Accepted w [.message candidateText true] (some ⟨messageTypeCandidate, emptyObject⟩) := by
  obtain ⟨candidate, hc⟩ := Option.isSome_iff_exists.mp hw.candidate_empty
  have hswitch : switch w ⟨messageTypeCandidate, emptyObject⟩ true =
      .ofCall w (.addICECandidate candidate) true := by
    rw [switch_candidate rfl]
    simp only [hc]
  have hiterate : iterate w (some .zero) (.message candidateText true) =
      (some ⟨messageTypeCandidate, emptyObject⟩,
        .ofCall w (.addICECandidate candidate) true) := by
    rw [iterate, unmarshal_candidateText, ← hswitch]
  rw [Accepted, Handler.runAll, readLoop, hiterate]
  rfl

/-- A message that leaves something out is handled in one way on a new connection and in another
after a candidate. -/
theorem saysAll_of_ownReaction (hw : w.Documented) {raw : List UInt8} (h : OwnReaction w raw) :
    SaysAll raw := by
  intro members hparse hfits
  have hsame := h [] [.message candidateText true] _ _ true rfl (accepted_candidateText hw)
  rw [iterate_object hparse hfits, iterate_object hparse hfits] at hsame
  simp only [Option.getD_some] at hsame
  cases hevent : ownEvent members with
  | none =>
    -- nothing happens at first, and after the candidate there is a call or the loop ends
    have hfirst : switch w (WebsocketMessage.zero.over members) true = ⟨none, .loops⟩ := by
      rw [WebsocketMessage.over, hevent]
      rfl
    have hsecond : (WebsocketMessage.over ⟨messageTypeCandidate, emptyObject⟩ members).event =
        messageTypeCandidate := by
      rw [WebsocketMessage.over, hevent]
      rfl
    rw [hfirst, switch_candidate hsecond] at hsame
    split at hsame <;> cases hsame
  | some e =>
    refine ⟨e, rfl, fun hkind => ?_⟩
    by_contra hdata
    -- at first there is no data, which ends the loop, and later there is that of the candidate
    rw [Option.not_isSome_iff_eq_none] at hdata
    rw [WebsocketMessage.over, WebsocketMessage.over, hevent, hdata] at hsame
    simp only [Option.getD_some, Option.getD_none] at hsame
    rcases hkind with rfl | rfl
    · obtain ⟨candidate, hc⟩ := Option.isSome_iff_exists.mp hw.candidate_empty
      rw [switch_candidate rfl, switch_candidate rfl, WebsocketMessage.zero] at hsame
      simp only [hw.candidate_nil, hc] at hsame
      cases hsame
    · obtain ⟨answer, ha⟩ := Option.isSome_iff_exists.mp hw.answer_empty
      rw [switch_answer rfl, switch_answer rfl, WebsocketMessage.zero] at hsame
      simp only [hw.answer_nil, ha] at hsame
      cases hsame

/-- **Each message on its own content.** The reaction to a message is the same after any two
histories of accepted messages exactly if the message, when it is an object that is taken, sets an
event and the data that the event needs. Where all messages are so, each of them is handled as on a
new connection. -/
theorem ownReaction_iff (hw : w.Documented) :
    (∀ raw, OwnReaction w raw ↔ SaysAll raw) ∧
    ∀ inputs, (∀ raw ok, .message raw ok ∈ inputs → SaysAll raw) →
      ∀ before raw ok after message, inputs = before ++ .message raw ok :: after →
        Accepted w before message →
        (iterate w message (.message raw ok)).2 = (iterate w (some .zero) (.message raw ok)).2 := by
  refine ⟨fun raw => ⟨saysAll_of_ownReaction hw, ownReaction_of_saysAll⟩, ?_⟩
  intro inputs hall before raw ok after message heq haccepted
  have hsays : SaysAll raw := by
    refine hall raw ok ?_
    rw [heq]
    exact List.mem_append_right _ List.mem_cons_self
  exact ownReaction_of_saysAll hsays before [] message _ ok haccepted rfl

theorem ownReaction_iff_candidateText : OwnReaction exampleWebrtc candidateText := by
  refine ((ownReaction_iff documented_exampleWebrtc).1 candidateText).mpr ?_
  intro members hparse _
  rw [parse_candidateText, Option.some.injEq, Json.Value.object.injEq] at hparse
  rw [← hparse]
  exact ⟨messageTypeCandidate, rfl, fun _ => rfl⟩

/-- After an answer `{}` sets the remote description again, and after a candidate that followed it
`{}` adds the candidate again. -/
theorem emptyObject_reapplies : ¬∀ raw, OwnReaction exampleWebrtc raw := by
  intro h
  have hanswer : Accepted exampleWebrtc [.message answerText true] (some ⟨messageTypeAnswer, _⟩) :=
    rfl
  have hcandidate : Accepted exampleWebrtc [.message answerText true, .message candidateText true]
      (some ⟨messageTypeCandidate, emptyObject⟩) := rfl
  have hsame := congrArg Outcome.call (h emptyObject _ _ _ _ true hanswer hcandidate)
  replace hsame : some (Call.setRemoteDescription (w := exampleWebrtc) _) =
      some (.addICECandidate emptyObject) := hsame
  cases hsame

end Lightspeed.Hub.ReadLoop
