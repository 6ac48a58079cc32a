import Mathlib.Data.Finset.Card
import Mathlib.Logic.Function.Basic
import Lightspeed.RWMutex
import Lightspeed.Transition

/-!
# The signalling hub

`webrtc/ws/hub.go`, `webrtc/ws/client.go` and `websocketHandler` of `webrtc/main.go` as one
transition system. The processes are

* `Hub.Run`, one goroutine for the whole server;
* for every websocket connection the handler goroutine (`websocketHandler`, which ends in
  `ReadLoop`) and the `WriteLoop` goroutine it starts;
* the goroutines on which pion invokes the `OnICECandidate` and `OnConnectionStateChange`
  callbacks, any number of them;
* the `SendInfo` goroutines started by `Run`.

Each has a program counter that stops in front of every operation on something shared: the
lock, the `Clients` map, a channel, a connection. A label names the process that moves and
what its environment chose. `Register` and `Unregister` have capacity 1, `Broadcast` and
every `Send` are unbuffered, so a send on those happens together with its receive.

`log` is a history variable: no step reads it.
-/

namespace Lightspeed.Hub

/-- A `*Client`. Handler goroutines are named by the client they create. -/
abbrev ClientId := ℕ

/-! ## Messages -/

structure Info where
  noConnections : ℕ
deriving DecidableEq

inductive MessageType
  | answer
  | candidate
  | offer
  | info
deriving DecidableEq

/-- The `json.RawMessage` of a message, by what was marshalled into it. -/
inductive Data
  /-- `none` is the nil slice left behind when marshalling the offer failed. -/
  | sessionDescription (offerString : Option String)
  | iceCandidate (candidateString : String)
  | info (i : Info)
deriving DecidableEq

structure WebsocketMessage where
  event : MessageType
  data : Data
deriving DecidableEq

def offerMessage (offerString : Option String) : WebsocketMessage :=
  ⟨.offer, .sessionDescription offerString⟩

def candidateMessage (candidateString : String) : WebsocketMessage :=
  ⟨.candidate, .iceCandidate candidateString⟩

/-- What `SendInfo` puts on `Broadcast`. Marshalling an `Info` does not fail. -/
def infoMessage (i : Info) : WebsocketMessage := ⟨.info, .info i⟩

/-! ## Program counters -/

/-- The block that `websocketHandler` and the `OnICECandidate` callback share:
`hub.RLock(); if _, ok := hub.Clients[c]; ok { c.Send <- msg }; hub.RUnlock()`. -/
inductive SendPC
  | idle
  | rLock (c : ClientId) (m : WebsocketMessage)
  | test (c : ClientId) (m : WebsocketMessage)
  | send (c : ClientId) (m : WebsocketMessage)
  | rUnlock (c : ClientId)
deriving DecidableEq

/-- The handler of one connection. -/
inductive HandlerPC
  /-- Up to `NewClient`: upgrading, creating the peer connection and its transceivers. -/
  | connecting
  /-- Returned before there was a client. -/
  | failed
  | goWriteLoop
  /-- At `hub.Register <- c`. -/
  | register
  | setCallbacks
  | createOffer
  /-- From here on pion gathers candidates. -/
  | setLocalDescription
  | marshalOffer
  | marshalMessage (offerString : Option String)
  /-- In the block that sends the offer. -/
  | sendOffer
  | readLoop
  /-- `ReadLoop` returns: at the deferred `c.hub.Unregister <- c`. -/
  | unregister
  | closeConn
  | closePeerConnection
  | returned
deriving DecidableEq

inductive WriteLoopPC
  | notStarted
  /-- In `select`, ready to receive from `c.Send`. -/
  | select
  | writing (m : WebsocketMessage)
  | returned
deriving DecidableEq

inductive PeerConnectionState
  | failed
  | closed
  | other
deriving DecidableEq

/-- One invocation of the `OnConnectionStateChange` callback. -/
inductive CallbackPC
  | idle
  | closePeerConnection (c : ClientId)
  /-- At `hub.Unregister <- c`. -/
  | unregister (c : ClientId)
deriving DecidableEq

/-- A `SendInfo` goroutine: its argument, and whether it is still at `h.Broadcast <- msg`. -/
structure SendInfo where
  info : Info
  pending : Bool
deriving DecidableEq

/-- `Hub.Run`. -/
inductive RunPC
  | select
  /-- `case client := <-h.Register` -/
  | registerLock (c : ClientId)
  | registerLocking (c : ClientId)
  | registerInsert (c : ClientId)
  | registerUnlock (c : ClientId)
  /-- `case client := <-h.Unregister` -/
  | unregisterRLock (c : ClientId)
  | unregisterTest (c : ClientId)
  | unregisterRUnlock (c : ClientId) (ok : Bool)
  | unregisterLock (c : ClientId)
  | unregisterLocking (c : ClientId)
  | unregisterDelete (c : ClientId)
  | unregisterUnlock (c : ClientId)
  | unregisterCloseConn (c : ClientId)
  | unregisterCloseSend (c : ClientId)
  /-- `go h.SendInfo(h.GetInfo())`, where `NoClients` takes the read lock. -/
  | infoRLock
  | infoLen
  | infoRUnlock (i : Info)
  | goSendInfo (i : Info)
  /-- `case message := <-h.Broadcast`. `visited` is what the range has yielded. -/
  | broadcastRLock (m : WebsocketMessage)
  | broadcastRange (m : WebsocketMessage) (visited : Finset ClientId)
  | broadcastSend (m : WebsocketMessage) (visited : Finset ClientId) (c : ClientId)
  | broadcastRUnlock
deriving DecidableEq

/-- The goroutines that run the sending block. -/
inductive Sender
  | handler (c : ClientId)
  | candidate (k : ℕ)
deriving DecidableEq

/-- The goroutines that take the read lock. -/
inductive Reader
  | run
  | sender (g : Sender)
deriving DecidableEq

/-! ## The state -/

/-- What the history records. -/
inductive Event
  | insert (c : ClientId)
  | delete (c : ClientId)
  | closeConn (c : ClientId)
  | closeSend (c : ClientId)
  /-- `go h.SendInfo(i)` -/
  | spawn (i : Info)
  /-- `Run` received a message from `Broadcast`. -/
  | broadcast (m : WebsocketMessage)
  /-- `c.Send <- m` was received by `c`'s `WriteLoop`. -/
  | handOver (r : Reader) (c : ClientId) (m : WebsocketMessage)
deriving DecidableEq

structure State where
  /-- The fields of `Hub`. -/
  clients : Finset ClientId
  register : List ClientId
  unregister : List ClientId
  mutex : RWMutex Reader
  /-- The fields of `Client` that change. -/
  sendClosed : ClientId → Bool
  connClosed : ClientId → Bool
  /-- The goroutines. -/
  run : RunPC
  handler : ClientId → HandlerPC
  writeLoop : ClientId → WriteLoopPC
  sending : Sender → SendPC
  callback : ℕ → CallbackPC
  sendInfo : ℕ → SendInfo
  /-- How many `SendInfo` goroutines were started. -/
  spawned : ℕ
  /-- A send on a closed channel or a second close of one. -/
  panicked : Bool
  /-- Whether every call that prepares the offer has succeeded so far. -/
  offerOk : ClientId → Bool
  log : List Event

/-- `NewHub()` with `Run` started, before the first connection. -/
def init : State where
  clients := ∅
  register := []
  unregister := []
  mutex := .new
  sendClosed := fun _ => false
  connClosed := fun _ => false
  run := .select
  handler := fun _ => .connecting
  writeLoop := fun _ => .notStarted
  sending := fun _ => .idle
  callback := fun _ => .idle
  sendInfo := fun _ => ⟨⟨0⟩, false⟩
  spawned := 0
  panicked := false
  offerOk := fun _ => true
  log := []

/-- The capacity of `Register` and of `Unregister`. -/
def chanCap : ℕ := 1

def State.noClients (s : State) : ℕ := s.clients.card

def State.getInfo (s : State) : Info := ⟨s.noClients⟩

/-- Gathering has started, so that pion may invoke `OnICECandidate`. -/
def HandlerPC.gathering : HandlerPC → Bool
  | .setLocalDescription | .marshalOffer | .marshalMessage _ | .sendOffer | .readLoop
  | .unregister | .closeConn | .closePeerConnection | .returned => true
  | _ => false

/-- `OnConnectionStateChange` has been set. -/
def HandlerPC.callbacksSet : HandlerPC → Bool
  | .createOffer => true
  | pc => pc.gathering

/-! ## Steps -/

inductive Label
  -- websocketHandler
  | connect (c : ClientId) (ok : Bool)
  | goWriteLoop (c : ClientId)
  | register (c : ClientId)
  | setCallbacks (c : ClientId)
  | createOffer (c : ClientId) (ok : Bool)
  | setLocalDescription (c : ClientId) (ok : Bool)
  | marshalOffer (c : ClientId) (offerString : Option String)
  | marshalMessage (c : ClientId) (offerString : Option String) (ok : Bool)
  | offerSent (c : ClientId)
  | readLoopReturn (c : ClientId)
  | unregister (c : ClientId)
  | closeConn (c : ClientId)
  | closePeerConnection (c : ClientId)
  -- OnICECandidate and OnConnectionStateChange
  | onICECandidate (k : ℕ) (c : ClientId) (candidateString : String)
  | onConnectionStateChange (k : ℕ) (c : ClientId) (p : PeerConnectionState)
  | callbackClose (k : ℕ) (c : ClientId)
  | callbackUnregister (k : ℕ) (c : ClientId)
  -- the sending block
  | sendRLock (g : Sender) (c : ClientId) (m : WebsocketMessage)
  | sendTest (g : Sender) (c : ClientId) (m : WebsocketMessage)
  | sendMessage (g : Sender) (c : ClientId) (m : WebsocketMessage)
  | sendPanic (g : Sender) (c : ClientId) (m : WebsocketMessage)
  | sendRUnlock (g : Sender) (c : ClientId)
  -- WriteLoop
  | write (c : ClientId) (m : WebsocketMessage) (ok : Bool)
  | pingFail (c : ClientId)
  | writeLoopClosed (c : ClientId)
  -- Hub.Run
  | takeRegister (c : ClientId)
  | registerLock (c : ClientId)
  | registerLocked (c : ClientId)
  | registerInsert (c : ClientId)
  | registerUnlock (c : ClientId)
  | takeUnregister (c : ClientId)
  | unregisterRLock (c : ClientId)
  | unregisterTest (c : ClientId)
  | unregisterRUnlock (c : ClientId) (ok : Bool)
  | unregisterLock (c : ClientId)
  | unregisterLocked (c : ClientId)
  | unregisterDelete (c : ClientId)
  | unregisterUnlock (c : ClientId)
  | unregisterCloseConn (c : ClientId)
  | unregisterCloseSend (c : ClientId)
  | unregisterPanic (c : ClientId)
  | infoRLock
  | infoLen
  | infoRUnlock (i : Info)
  | goSendInfo (i : Info)
  | takeBroadcast (k : ℕ)
  | broadcastRLock (m : WebsocketMessage)
  | broadcastNext (m : WebsocketMessage) (visited : Finset ClientId) (c : ClientId)
  | broadcastSend (m : WebsocketMessage) (visited : Finset ClientId) (c : ClientId)
  | broadcastPanic (m : WebsocketMessage) (visited : Finset ClientId) (c : ClientId)
  | broadcastEnd (m : WebsocketMessage) (visited : Finset ClientId)
  | broadcastRUnlock

/-- When a label can be taken. A send on a full channel, an `RLock` under a writer and a
`Lock` over readers block, so they are not enabled. -/
def Guard (s : State) : Label → Prop
  | .connect c _ => s.handler c = .connecting
  | .goWriteLoop c => s.handler c = .goWriteLoop
  | .register c => s.handler c = .register ∧ s.register.length < chanCap
  | .setCallbacks c => s.handler c = .setCallbacks
  | .createOffer c _ => s.handler c = .createOffer
  | .setLocalDescription c _ => s.handler c = .setLocalDescription
  | .marshalOffer c _ => s.handler c = .marshalOffer
  | .marshalMessage c offerString _ => s.handler c = .marshalMessage offerString
  | .offerSent c => s.handler c = .sendOffer ∧ s.sending (.handler c) = .idle
  | .readLoopReturn c => s.handler c = .readLoop
  | .unregister c => s.handler c = .unregister ∧ s.unregister.length < chanCap
  | .closeConn c => s.handler c = .closeConn
  | .closePeerConnection c => s.handler c = .closePeerConnection
  | .onICECandidate k c _ =>
    s.sending (.candidate k) = .idle ∧ (s.handler c).gathering = true
  | .onConnectionStateChange k c _ =>
    s.callback k = .idle ∧ (s.handler c).callbacksSet = true
  | .callbackClose k c => s.callback k = .closePeerConnection c
  | .callbackUnregister k c => s.callback k = .unregister c ∧ s.unregister.length < chanCap
  | .sendRLock g c m => s.sending g = .rLock c m ∧ s.mutex.CanRLock
  | .sendTest g c m => s.sending g = .test c m
  | .sendMessage g c m =>
    s.sending g = .send c m ∧ s.sendClosed c = false ∧ s.writeLoop c = .select
  | .sendPanic g c m => s.sending g = .send c m ∧ s.sendClosed c = true
  | .sendRUnlock g c => s.sending g = .rUnlock c
  | .write c m ok => s.writeLoop c = .writing m ∧ (ok = true → s.connClosed c = false)
  | .pingFail c => s.writeLoop c = .select
  | .writeLoopClosed c => s.writeLoop c = .select ∧ s.sendClosed c = true
  | .takeRegister c => s.run = .select ∧ s.register.head? = some c
  | .registerLock c => s.run = .registerLock c
  | .registerLocked c => s.run = .registerLocking c ∧ s.mutex.CanLock
  | .registerInsert c => s.run = .registerInsert c
  | .registerUnlock c => s.run = .registerUnlock c
  | .takeUnregister c => s.run = .select ∧ s.unregister.head? = some c
  | .unregisterRLock c => s.run = .unregisterRLock c ∧ s.mutex.CanRLock
  | .unregisterTest c => s.run = .unregisterTest c
  | .unregisterRUnlock c ok => s.run = .unregisterRUnlock c ok
  | .unregisterLock c => s.run = .unregisterLock c
  | .unregisterLocked c => s.run = .unregisterLocking c ∧ s.mutex.CanLock
  | .unregisterDelete c => s.run = .unregisterDelete c
  | .unregisterUnlock c => s.run = .unregisterUnlock c
  | .unregisterCloseConn c => s.run = .unregisterCloseConn c
  | .unregisterCloseSend c => s.run = .unregisterCloseSend c ∧ s.sendClosed c = false
  | .unregisterPanic c => s.run = .unregisterCloseSend c ∧ s.sendClosed c = true
  | .infoRLock => s.run = .infoRLock ∧ s.mutex.CanRLock
  | .infoLen => s.run = .infoLen
  | .infoRUnlock i => s.run = .infoRUnlock i
  | .goSendInfo i => s.run = .goSendInfo i
  | .takeBroadcast k => s.run = .select ∧ (s.sendInfo k).pending = true
  | .broadcastRLock m => s.run = .broadcastRLock m ∧ s.mutex.CanRLock
  | .broadcastNext m visited c =>
    s.run = .broadcastRange m visited ∧ c ∈ s.clients ∧ c ∉ visited
  | .broadcastSend m visited c =>
    s.run = .broadcastSend m visited c ∧ s.sendClosed c = false ∧ s.writeLoop c = .select
  | .broadcastPanic m visited c => s.run = .broadcastSend m visited c ∧ s.sendClosed c = true
  | .broadcastEnd m visited => s.run = .broadcastRange m visited ∧ s.clients ⊆ visited
  | .broadcastRUnlock => s.run = .broadcastRUnlock

/-- A panicked process takes no further step. -/
def Enabled (s : State) (l : Label) : Prop := s.panicked = false ∧ Guard s l

def State.setHandler (s : State) (c : ClientId) (pc : HandlerPC) : State :=
  { s with handler := Function.update s.handler c pc }

def State.setWriteLoop (s : State) (c : ClientId) (pc : WriteLoopPC) : State :=
  { s with writeLoop := Function.update s.writeLoop c pc }

def State.setSending (s : State) (g : Sender) (pc : SendPC) : State :=
  { s with sending := Function.update s.sending g pc }

def State.setCallback (s : State) (k : ℕ) (pc : CallbackPC) : State :=
  { s with callback := Function.update s.callback k pc }

/-- The outcome of one more call that prepares `c`'s offer. -/
def State.noteOffer (s : State) (c : ClientId) (ok : Bool) : State :=
  { s with offerOk := Function.update s.offerOk c (s.offerOk c && ok) }

/-- `conn.Close()` -/
def State.close (s : State) (c : ClientId) : State :=
  { s with connClosed := Function.update s.connClosed c true }

/-- `WriteLoop` returns: its deferred function closes the connection. -/
def State.endWriteLoop (s : State) (c : ClientId) : State :=
  (s.setWriteLoop c .returned).close c

/-- `c.Send <- m` by `r` meets `message := <-c.Send` in `c`'s `WriteLoop`. -/
def State.handOver (s : State) (r : Reader) (c : ClientId) (m : WebsocketMessage) : State :=
  { s.setWriteLoop c (.writing m) with log := s.log ++ [.handOver r c m] }

def next (s : State) : Label → State
  | .connect c ok => s.setHandler c (if ok then .goWriteLoop else .failed)
  | .goWriteLoop c => (s.setHandler c .register).setWriteLoop c .select
  | .register c => { s.setHandler c .setCallbacks with register := s.register ++ [c] }
  | .setCallbacks c => s.setHandler c .createOffer
  | .createOffer c ok => (s.setHandler c .setLocalDescription).noteOffer c ok
  | .setLocalDescription c ok => (s.setHandler c .marshalOffer).noteOffer c ok
  | .marshalOffer c offerString =>
    (s.setHandler c (.marshalMessage offerString)).noteOffer c offerString.isSome
  | .marshalMessage c offerString ok =>
    if ok then (s.setHandler c .sendOffer).setSending (.handler c)
      (.rLock c (offerMessage offerString))
    else (s.setHandler c .readLoop).noteOffer c false
  | .offerSent c => s.setHandler c .readLoop
  | .readLoopReturn c => s.setHandler c .unregister
  | .unregister c => { s.setHandler c .closeConn with unregister := s.unregister ++ [c] }
  | .closeConn c => (s.setHandler c .closePeerConnection).close c
  | .closePeerConnection c => s.setHandler c .returned
  | .onICECandidate k c candidateString =>
    s.setSending (.candidate k) (.rLock c (candidateMessage candidateString))
  | .onConnectionStateChange k c p =>
    match p with
    | .failed => s.setCallback k (.closePeerConnection c)
    | .closed => s.setCallback k (.unregister c)
    | .other => s
  | .callbackClose k c => s.setCallback k (.unregister c)
  | .callbackUnregister k c =>
    { s.setCallback k .idle with unregister := s.unregister ++ [c] }
  | .sendRLock g c m => { s.setSending g (.test c m) with mutex := s.mutex.rLock (.sender g) }
  | .sendTest g c m => s.setSending g (if c ∈ s.clients then .send c m else .rUnlock c)
  | .sendMessage g c m => (s.setSending g (.rUnlock c)).handOver (.sender g) c m
  | .sendPanic _ _ _ => { s with panicked := true }
  | .sendRUnlock g _ => { s.setSending g .idle with mutex := s.mutex.rUnlock (.sender g) }
  | .write c _ ok => if ok then s.setWriteLoop c .select else s.endWriteLoop c
  | .pingFail c => s.endWriteLoop c
  | .writeLoopClosed c => s.endWriteLoop c
  | .takeRegister c => { s with run := .registerLock c, register := s.register.tail }
  | .registerLock c => { s with run := .registerLocking c, mutex := s.mutex.announce }
  | .registerLocked c => { s with run := .registerInsert c, mutex := s.mutex.lock }
  | .registerInsert c =>
    { s with run := .registerUnlock c, clients := insert c s.clients,
             log := s.log ++ [.insert c] }
  | .registerUnlock _ => { s with run := .infoRLock, mutex := s.mutex.unlock }
  | .takeUnregister c => { s with run := .unregisterRLock c, unregister := s.unregister.tail }
  | .unregisterRLock c => { s with run := .unregisterTest c, mutex := s.mutex.rLock .run }
  | .unregisterTest c => { s with run := .unregisterRUnlock c (decide (c ∈ s.clients)) }
  | .unregisterRUnlock c ok =>
    { s with run := if ok then .unregisterLock c else .select, mutex := s.mutex.rUnlock .run }
  | .unregisterLock c => { s with run := .unregisterLocking c, mutex := s.mutex.announce }
  | .unregisterLocked c => { s with run := .unregisterDelete c, mutex := s.mutex.lock }
  | .unregisterDelete c =>
    { s with run := .unregisterUnlock c, clients := s.clients.erase c,
             log := s.log ++ [.delete c] }
  | .unregisterUnlock c => { s with run := .unregisterCloseConn c, mutex := s.mutex.unlock }
  | .unregisterCloseConn c =>
    { s.close c with run := .unregisterCloseSend c, log := s.log ++ [.closeConn c] }
  | .unregisterCloseSend c =>
    { s with run := .infoRLock, sendClosed := Function.update s.sendClosed c true,
             log := s.log ++ [.closeSend c] }
  | .unregisterPanic _ => { s with panicked := true }
  | .infoRLock => { s with run := .infoLen, mutex := s.mutex.rLock .run }
  | .infoLen => { s with run := .infoRUnlock s.getInfo }
  | .infoRUnlock i => { s with run := .goSendInfo i, mutex := s.mutex.rUnlock .run }
  | .goSendInfo i =>
    { s with run := .select, spawned := s.spawned + 1,
             sendInfo := Function.update s.sendInfo s.spawned ⟨i, true⟩,
             log := s.log ++ [.spawn i] }
  | .takeBroadcast k =>
    { s with run := .broadcastRLock (infoMessage (s.sendInfo k).info),
             sendInfo := Function.update s.sendInfo k ⟨(s.sendInfo k).info, false⟩,
             log := s.log ++ [.broadcast (infoMessage (s.sendInfo k).info)] }
  | .broadcastRLock m => { s with run := .broadcastRange m ∅, mutex := s.mutex.rLock .run }
  | .broadcastNext m visited c => { s with run := .broadcastSend m visited c }
  | .broadcastSend m visited c =>
    { s.handOver .run c m with run := .broadcastRange m (insert c visited) }
  | .broadcastPanic _ _ _ => { s with panicked := true }
  | .broadcastEnd _ _ => { s with run := .broadcastRUnlock }
  | .broadcastRUnlock => { s with run := .select, mutex := s.mutex.rUnlock .run }

/-- The signalling server. -/
def hub : Lts State Label := ⟨init, Enabled, next⟩

instance (s : State) : DecidablePred (Guard s) := fun l => by
  cases l <;> dsimp only [Guard] <;> infer_instance

instance (s : State) (l : Label) : Decidable (hub.Enabled s l) :=
  inferInstanceAs (Decidable (_ ∧ Guard s l))

end Lightspeed.Hub
