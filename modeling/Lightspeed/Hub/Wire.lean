import Lightspeed.JsonText
import Lightspeed.Hub.Model
import Lightspeed.Hub.ReadLoop

/-!
# Messages on the websocket

Both sides write `{"event":…,"data":…}` with a complete JSON text as the data: the server by
`json.Marshal`, the page by `JSON.stringify`. The server's reader takes such a message apart into
what was put into it, whatever came before it (`unmarshal_messageText`). So `ReadLoop` makes exactly
the calls that the page's messages ask for, one by one and in order, up to the first message that it
cannot decode, that is too long, or whose call fails (`readLoop_applies`).
-/

namespace Lightspeed.Hub

open Json ReadLoop

/-! ## The envelope -/

/-- The constants of `webrtc/ws/message.go`. -/
def MessageType.name : MessageType → Text
  | .answer => "answer".toList
  | .candidate => "candidate".toList
  | .offer => "offer".toList
  | .info => "info".toList

/-- The name in quotes. -/
def MessageType.text : MessageType → List UInt8
  | .answer => [0x22, 0x61, 0x6E, 0x73, 0x77, 0x65, 0x72, 0x22]
  | .candidate => [0x22, 0x63, 0x61, 0x6E, 0x64, 0x69, 0x64, 0x61, 0x74, 0x65, 0x22]
  | .offer => [0x22, 0x6F, 0x66, 0x66, 0x65, 0x72, 0x22]
  | .info => [0x22, 0x69, 0x6E, 0x66, 0x6F, 0x22]

/-- `event` -/
def eventKey : List UInt8 := [0x65, 0x76, 0x65, 0x6E, 0x74]

/-- `data` -/
def dataKey : List UInt8 := [0x64, 0x61, 0x74, 0x61]

/-- `{"event":…,"data":…}` -/
def messageText (event : MessageType) (data : List UInt8) : List UInt8 :=
  objectText [(eventKey, event.text), (dataKey, data)]

/-- The members that a reader finds in a message. -/
def messageMembers (e : MessageType) (d : List UInt8) (v : Value) : List Member :=
  [("event".toList, e.text, .string e.name), ("data".toList, d, v)]

theorem isText_name (event : MessageType) : IsText event.text (.string event.name) := by
  cases event <;> rfl

variable {e : MessageType} {d : List UInt8} {v : Value}

theorem parse_messageText (h : IsText d v) :
    Json.parse (messageText e d) = some (.object (messageMembers e d v)) := by
  have hevent : IsMember (eventKey, e.text) ("event".toList, e.text, .string e.name) :=
    ⟨rfl, rfl, isText_name e⟩
  have hdata : IsMember (dataKey, d) ("data".toList, d, v) := ⟨rfl, rfl, h⟩
  exact (isText_objectText (.cons hevent (.cons hdata .nil))).parse

/-- The server reads what was written, and nothing of what it read before. -/
theorem unmarshal_messageText (h : IsText d v) (message : Option ReadLoop.WebsocketMessage) :
    unmarshal (messageText e d) message = some (some ⟨e.name, d⟩) := by
  rw [unmarshal_eq, parse_messageText h]
  rfl

/-! ## The server's messages -/

/-- `no_connections` -/
def noConnectionsKey : List UInt8 :=
  [0x6E, 0x6F, 0x5F, 0x63, 0x6F, 0x6E, 0x6E, 0x65, 0x63, 0x74, 0x69, 0x6F, 0x6E, 0x73]

/-- The text of a `json.RawMessage` in a message. It was made by `json.Marshal`, so that marshalling
it once more leaves it as it is; a nil slice becomes null. -/
def Data.text : Data → List UInt8
  | .sessionDescription none => Reader.nullText
  | .sessionDescription (some offerString) => Utf8.encode offerString.toList
  | .iceCandidate candidateString => Utf8.encode candidateString.toList
  | .info i => objectText [(noConnectionsKey, Decimal.encode i.noConnections)]

/-- What `WriteLoop` writes on the connection. -/
def WebsocketMessage.text (m : WebsocketMessage) : List UInt8 := messageText m.event m.data.text

theorem isText_info (i : Info) : IsText (Data.info i).text
    (.object [("no_connections".toList, Decimal.encode i.noConnections,
      .number (Decimal.encode i.noConnections))]) := by
  have hmember : IsMember (noConnectionsKey, Decimal.encode i.noConnections)
      ("no_connections".toList, Decimal.encode i.noConnections,
        .number (Decimal.encode i.noConnections)) := ⟨rfl, rfl, isText_encode _⟩
  exact isText_objectText (.cons hmember .nil)

theorem isText_null : IsText Reader.nullText .null := rfl

/-! ## The page's messages -/

/-- `maxMessageSize` of `webrtc/ws/hub.go`, which `ReadLoop` sets as the read limit. -/
def maxMessageSize : ℕ := 4096

/-- What the page sends: the answer, or a candidate, as `JSON.stringify` writes it. -/
structure PageMessage where
  answer : Bool
  data : List UInt8

def PageMessage.event (m : PageMessage) : MessageType := if m.answer then .answer else .candidate

def PageMessage.text (m : PageMessage) : List UInt8 := messageText m.event m.data

/-- The data is the text of some value, as `JSON.stringify` makes it. -/
def PageMessage.WellFormed (m : PageMessage) : Prop := ∃ v, IsText m.data v

/-- What `c.conn.ReadMessage` makes of it, the call that it may lead to succeeding or not. -/
def PageMessage.input (m : PageMessage) (ok : Bool) : Input :=
  if m.text.length ≤ maxMessageSize then .message m.text ok else .error

variable (w : Webrtc)

/-- The call that the message asks for, if it can be read and decoded. -/
def PageMessage.asks (m : PageMessage) : Option (ReadLoop.Call w) :=
  if m.text.length ≤ maxMessageSize then
    if m.answer then (w.unmarshalAnswer m.data).map .setRemoteDescription
    else (w.unmarshalCandidate m.data).map .addICECandidate
  else none

/-- What the server is to do with the page's messages. Each comes with the outcome of its call. -/
def applyAll : List (PageMessage × Bool) → List (ReadLoop.Call w) × Exit
  | [] => ([], .loops)
  | (m, ok) :: ms =>
    match m.asks w with
    | none => ([], .returns)
    | some call => if ok then (call :: (applyAll ms).1, (applyAll ms).2) else ([call], .returns)

/-! ## The loop -/

/-- The calls of `ReadLoop` on these inputs, and how it ends; `loops` when it waits for more. -/
def loopOn : Option ReadLoop.WebsocketMessage → List Input → List (ReadLoop.Call w) × Exit
  | _, [] => ([], .loops)
  | message, input :: inputs =>
    match iterate w message input with
    | (message', ⟨call, .loops⟩) =>
      (call.toList ++ (loopOn message' inputs).1, (loopOn message' inputs).2)
    | (_, ⟨call, exit⟩) => (call.toList, exit)

variable {w} {m : PageMessage}

/-- One message of the page, after any others. -/
theorem iterate_input (h : m.WellFormed) (message : Option ReadLoop.WebsocketMessage) (ok : Bool) :
    (iterate w message (m.input ok)).2 =
      match m.asks w with
      | none => ⟨none, .returns⟩
      | some call => .ofCall w call ok := by
  obtain ⟨v, hv⟩ := h
  rw [PageMessage.input, PageMessage.asks]
  split_ifs with hsize hanswer
  · have hevent : m.event = .answer := if_pos hanswer
    rw [PageMessage.text, iterate, unmarshal_messageText hv]
    simp only
    rw [switch_answer (by rw [hevent]; rfl)]
    cases w.unmarshalAnswer m.data <;> rfl
  · have hevent : m.event = .candidate := if_neg hanswer
    rw [PageMessage.text, iterate, unmarshal_messageText hv]
    simp only
    rw [switch_candidate (by rw [hevent]; rfl)]
    cases w.unmarshalCandidate m.data <;> rfl
  · rfl

/-- An answer asks for the remote description, a candidate for a candidate. -/
theorem PageMessage.asks_eq_some {call : ReadLoop.Call w} (h : m.asks w = some call) :
    (m.answer = true ∧ ∃ answer, call = .setRemoteDescription answer) ∨
      (m.answer = false ∧ ∃ candidate, call = .addICECandidate candidate) := by
  rw [PageMessage.asks] at h
  split_ifs at h with hsize hanswer
  · obtain ⟨answer, -, rfl⟩ := Option.map_eq_some_iff.mp h
    exact .inl ⟨hanswer, answer, rfl⟩
  · obtain ⟨candidate, -, rfl⟩ := Option.map_eq_some_iff.mp h
    exact .inr ⟨by simpa using hanswer, candidate, rfl⟩

theorem applyAll_ne_panics (w : Webrtc) (ms : List (PageMessage × Bool)) :
    (applyAll w ms).2 ≠ .panics := by
  induction ms with
  | nil => exact Exit.noConfusion
  | cons p ms ih =>
    obtain ⟨m, ok⟩ := p
    rw [applyAll]
    cases m.asks w with
    | none => exact Exit.noConfusion
    | some call =>
      cases ok with
      | false => exact Exit.noConfusion
      | true => exact ih

/-- The calls are those that the first of the messages ask for. -/
theorem exists_forall₂_applyAll (w : Webrtc) (ms : List (PageMessage × Bool)) :
    ∃ first, first <+: ms.map Prod.fst ∧
      List.Forall₂ (fun m call => m.asks w = some call) first (applyAll w ms).1 := by
  induction ms with
  | nil => exact ⟨[], List.nil_prefix, .nil⟩
  | cons p ms ih =>
    obtain ⟨m, ok⟩ := p
    obtain ⟨first, hpre, hcalls⟩ := ih
    rw [applyAll, List.map_cons]
    cases hm : m.asks w with
    | none => exact ⟨[], List.nil_prefix, .nil⟩
    | some call =>
      cases ok with
      | false => exact ⟨[m], (List.prefix_cons_inj m).mpr List.nil_prefix, .cons hm .nil⟩
      | true => exact ⟨m :: first, (List.prefix_cons_inj m).mpr hpre, .cons hm hcalls⟩

/-- As long as the loop goes on, the calls are those that all of them ask for. -/
theorem forall₂_applyAll {ms : List (PageMessage × Bool)} (h : (applyAll w ms).2 = .loops) :
    List.Forall₂ (fun m call => m.asks w = some call) (ms.map Prod.fst) (applyAll w ms).1 := by
  induction ms with
  | nil => exact .nil
  | cons p ms ih =>
    obtain ⟨m, ok⟩ := p
    rw [applyAll] at h ⊢
    cases hm : m.asks w with
    | none =>
      rw [hm] at h
      cases h
    | some call =>
      rw [hm] at h
      cases ok with
      | false => cases h
      | true => exact .cons hm (ih h)

/-- It goes on after one more message whose call succeeds. -/
theorem loops_concat {ms : List (PageMessage × Bool)} {call : ReadLoop.Call w}
    (h : (applyAll w ms).2 = .loops) (hm : m.asks w = some call) :
    (applyAll w (ms ++ [(m, true)])).2 = .loops := by
  induction ms with
  | nil =>
    rw [List.nil_append, applyAll, hm]
    rfl
  | cons p ms ih =>
    obtain ⟨m', ok⟩ := p
    rw [List.cons_append, applyAll]
    rw [applyAll] at h
    cases hm' : m'.asks w with
    | none =>
      rw [hm'] at h
      cases h
    | some call' =>
      rw [hm'] at h
      cases ok with
      | false => cases h
      | true => exact ih h

theorem loopOn_input (w : Webrtc) {ms : List (PageMessage × Bool)}
    (h : ∀ p ∈ ms, p.1.WellFormed) (message : Option ReadLoop.WebsocketMessage) :
    loopOn w message (ms.map fun p => p.1.input p.2) = applyAll w ms := by
  induction ms generalizing message with
  | nil => rfl
  | cons p ms ih =>
    obtain ⟨m, ok⟩ := p
    have hfirst := iterate_input (w := w) (h (m, ok) List.mem_cons_self) message ok
    have hrest := ih fun p hp => h p (List.mem_cons_of_mem _ hp)
    rw [List.map_cons, loopOn, applyAll]
    cases hiterate : iterate w message (m.input ok) with
    | mk message' outcome =>
      rw [hiterate] at hfirst
      simp only at hfirst
      rw [hfirst]
      cases m.asks w with
      | none => rfl
      | some call =>
        cases ok with
        | false => rfl
        | true =>
          simp only [Outcome.ofCall, if_true]
          rw [hrest]
          rfl

/-- **The loop applies what the page sends.** For any messages of the page, whatever was read before
them, and whatever the decoder of pion's structs and the calls make of them, `ReadLoop` makes
exactly the calls that the messages ask for, each once and in order. It returns at the first message
that is too long, that does not decode or whose call fails, and nowhere else, and it never
panics. -/
theorem readLoop_applies (w : Webrtc) (ms : List (PageMessage × Bool))
    (h : ∀ p ∈ ms, p.1.WellFormed) (message : Option ReadLoop.WebsocketMessage) :
    loopOn w message (ms.map fun p => p.1.input p.2) = applyAll w ms ∧
      (loopOn w message (ms.map fun p => p.1.input p.2)).2 ≠ .panics := by
  rw [loopOn_input w h]
  exact ⟨rfl, applyAll_ne_panics w ms⟩

/-- An answer, a candidate whose call fails, and a candidate that comes too late. -/
theorem readLoop_applies_failing :
    (loopOn exampleWebrtc (some .zero) [.message (messageText .answer emptyObject) true,
      .message (messageText .candidate emptyObject) false,
      .message (messageText .candidate emptyObject) true]) =
      ([.setRemoteDescription emptyObject, .addICECandidate emptyObject], .returns) := by
  have hwell : ∀ p ∈ [((⟨true, emptyObject⟩ : PageMessage), true), (⟨false, emptyObject⟩, false),
      (⟨false, emptyObject⟩, true)], p.1.WellFormed := by
    intro p hp
    refine ⟨.object [], ?_⟩
    simp only [List.mem_cons, List.not_mem_nil, or_false] at hp
    rcases hp with rfl | rfl | rfl <;> rfl
  exact (readLoop_applies exampleWebrtc _ hwell (some .zero)).1

end Lightspeed.Hub
