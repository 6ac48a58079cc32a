import Lightspeed.Ingest.Connection
import Lightspeed.Transition

/-!
# The two tasks of a connection

`Connection::init` of `ingest/src/connection.rs` as a transition system. The frame task owns the
socket: it decodes a command, passes it on over `frame_send`, waits for one `FrameCommand` on
`frame_receive` and writes its strings (`handle_frame_command`). The command task owns the
`ConnectionState`. Both channels have capacity 2. A task that returns or panics drops its ends of
the channels, after which the other's `send` fails and its `recv` gives `None` once the channel is
empty.

The network chooses the chunks in which bytes arrive and when reading or writing fails. The
random generator is the sequence `rng`: what it draws for the first, second, ... command the
command task takes, if that command asks for it.
-/

namespace Lightspeed.Ingest.Tasks

inductive FramePC
  /-- At `frame.next().await`. -/
  | next
  /-- At `frame_send.send(command).await`. -/
  | sendCommand (command : FtlCommand)
  /-- At `frame_receive.recv().await`. -/
  | recv
  /-- In the loop of `handle_frame_command`, with the reversed vector `d`. -/
  | write (d : List Text)
  | ended
  | panicked
deriving DecidableEq

inductive CommandPC
  /-- At `conn_receive.recv().await`. -/
  | recv
  /-- At `conn_send.send(..).await`, in the arm for `Dot` or in `handle_command`. -/
  | send (data : Reply) (dot : Bool)
  | ended
  | panicked
deriving DecidableEq

/-- The task holds its ends of the channels. -/
def FramePC.alive : FramePC → Bool
  | .ended | .panicked => false
  | _ => true

def CommandPC.alive : CommandPC → Bool
  | .ended | .panicked => false
  | _ => true

structure State where
  /-- The `Framed`: its codec and its read buffer. -/
  codec : FtlCodec
  buffer : List UInt8
  frame : FramePC
  /-- From `frame_send` to `conn_receive`. -/
  toConn : List FtlCommand
  /-- From `conn_send` to `frame_receive`. -/
  toFrame : List Reply
  command : CommandPC
  conn : ConnectionState
  /-- How many commands the command task has taken. -/
  taken : ℕ
  /-- What has been read, decoded, put on `conn_send` and passed to `frame.send` so far. -/
  input : List UInt8
  decoded : List FtlCommand
  replied : List Reply
  written : List Text

def init : State where
  codec := .new
  buffer := []
  frame := .next
  toConn := []
  toFrame := []
  command := .recv
  conn := .new
  taken := 0
  input := []
  decoded := []
  replied := []
  written := []

/-- `mpsc::channel(2)` -/
def chanCap : ℕ := 2

inductive Label
  -- the frame task
  | receive (bytes : List UInt8)
  | readEnd
  | next (o : FtlCodec.Outcome) (codec : FtlCodec) (rest : List UInt8)
  | sendCommand (c : FtlCommand)
  | sendCommandErr (c : FtlCommand)
  | frameRecv (data : Reply)
  | frameRecvNone
  | write (d : List Text) (item : Text) (ok : Bool)
  | writeDone
  -- the command task
  | commandRecv (c : FtlCommand)
  | commandRecvNone
  | commandSend (data : Reply) (dot : Bool)
  | commandSendErr (data : Reply) (dot : Bool)

/-- When a label can be taken. `Framed` reads from the socket only when `decode` gives
`Ok(None)`. -/
def Guard (s : State) : Label → Prop
  | .receive _ => s.frame = .next ∧ s.codec.decode s.buffer = none
  | .readEnd => s.frame = .next ∧ s.codec.decode s.buffer = none
  | .next o codec rest => s.frame = .next ∧ s.codec.decode s.buffer = some (o, codec, rest)
  | .sendCommand c =>
    s.frame = .sendCommand c ∧ s.command.alive = true ∧ s.toConn.length < chanCap
  | .sendCommandErr c => s.frame = .sendCommand c ∧ s.command.alive = false
  | .frameRecv data => s.frame = .recv ∧ s.toFrame.head? = some data
  | .frameRecvNone => s.frame = .recv ∧ s.toFrame = [] ∧ s.command.alive = false
  | .write d item _ => s.frame = .write (d ++ [item])
  | .writeDone => s.frame = .write []
  | .commandRecv c => s.command = .recv ∧ s.toConn.head? = some c
  | .commandRecvNone => s.command = .recv ∧ s.toConn = [] ∧ s.frame.alive = false
  | .commandSend data dot =>
    s.command = .send data dot ∧ s.frame.alive = true ∧ s.toFrame.length < chanCap
  | .commandSendErr data dot => s.command = .send data dot ∧ s.frame.alive = false

section

variable (H : Hmac) (file : HashFile) (rng : ℕ → Challenge)

/-- What the command task does with a command it has received. -/
def process (s : State) (c : FtlCommand) : State :=
  match commandTask H file s.conn (c, rng s.taken) with
  | none => { s with command := .panicked, taken := s.taken + 1 }
  | some (conn, none) => { s with command := .recv, conn := conn, taken := s.taken + 1 }
  | some (conn, some data) =>
    { s with command := .send data (decide (c = .dot)), conn := conn, taken := s.taken + 1 }

def next (s : State) : Label → State
  | .receive bytes => { s with buffer := s.buffer ++ bytes, input := s.input ++ bytes }
  | .readEnd => { s with frame := .ended }
  | .next o codec rest =>
    match o with
    | .command c =>
      { s with frame := .sendCommand c, codec := codec, buffer := rest,
               decoded := s.decoded ++ [c] }
    | .error _ => { s with frame := .ended, codec := codec, buffer := rest }
    | .panic => { s with frame := .panicked, codec := codec, buffer := rest }
  | .sendCommand c => { s with frame := .recv, toConn := s.toConn ++ [c] }
  | .sendCommandErr _ => { s with frame := .ended }
  -- `let mut d = data.clone(); d.reverse();`
  | .frameRecv data => { s with frame := .write data.reverse, toFrame := s.toFrame.tail }
  | .frameRecvNone => { s with frame := .ended }
  -- `d.pop()` takes the last element
  | .write d item ok =>
    { s with frame := if ok then .write d else .ended, written := s.written ++ [item] }
  | .writeDone => { s with frame := .next }
  | .commandRecv c => process H file rng { s with toConn := s.toConn.tail } c
  | .commandRecvNone => { s with command := .ended }
  | .commandSend data _ =>
    { s with command := .recv, toFrame := s.toFrame ++ [data], replied := s.replied ++ [data] }
  -- only the arm for `Dot` returns
  | .commandSendErr _ dot => { s with command := if dot then .ended else .recv }

/-- The two tasks of one connection. -/
def tasks : Lts State Label := ⟨init, Guard, next H file rng⟩

instance (s : State) : DecidablePred (Guard s) := fun l => by
  cases l <;> dsimp only [Guard] <;> infer_instance

instance (s : State) (l : Label) : Decidable ((tasks H file rng).Enabled s l) :=
  inferInstanceAs (Decidable (Guard s l))

end

variable {H : Hmac} {file : HashFile} {rng : ℕ → Challenge}

/-! ## Processing a command -/

section Process

theorem process_of_panic {s : State} {c : FtlCommand}
    (h : commandTask H file s.conn (c, rng s.taken) = none) :
    process H file rng s c = { s with command := .panicked, taken := s.taken + 1 } := by
  rw [process, h]

theorem process_of_silence {s : State} {c : FtlCommand} {conn : ConnectionState}
    (h : commandTask H file s.conn (c, rng s.taken) = some (conn, none)) :
    process H file rng s c =
      { s with command := .recv, conn := conn, taken := s.taken + 1 } := by
  rw [process, h]

theorem process_of_reply {s : State} {c : FtlCommand} {conn : ConnectionState} {data : Reply}
    (h : commandTask H file s.conn (c, rng s.taken) = some (conn, some data)) :
    process H file rng s c =
      { s with command := .send data (decide (c = .dot)), conn := conn, taken := s.taken + 1 } := by
  rw [process, h]

variable (s : State) (c : FtlCommand)

@[simp]
theorem process_frame : (process H file rng s c).frame = s.frame := by
  unfold process
  split <;> rfl

@[simp]
theorem process_codec : (process H file rng s c).codec = s.codec := by
  unfold process
  split <;> rfl

@[simp]
theorem process_buffer : (process H file rng s c).buffer = s.buffer := by
  unfold process
  split <;> rfl

@[simp]
theorem process_input : (process H file rng s c).input = s.input := by
  unfold process
  split <;> rfl

@[simp]
theorem process_decoded : (process H file rng s c).decoded = s.decoded := by
  unfold process
  split <;> rfl

@[simp]
theorem process_toConn : (process H file rng s c).toConn = s.toConn := by
  unfold process
  split <;> rfl

@[simp]
theorem process_toFrame : (process H file rng s c).toFrame = s.toFrame := by
  unfold process
  split <;> rfl

@[simp]
theorem process_written : (process H file rng s c).written = s.written := by
  unfold process
  split <;> rfl

@[simp]
theorem process_taken : (process H file rng s c).taken = s.taken + 1 := by
  unfold process
  split <;> rfl

end Process

/-! ## What the codec delivers -/

/-- What the decoder makes of the input: the commands it has delivered, then what it will make
of the buffer. -/
def State.drained (s : State) : Decoder.Drained FtlCodec UInt8 FtlCodec.Outcome :=
  (⟨s.decoded.map .command, some (s.codec, s.buffer)⟩ :
    Decoder.Drained FtlCodec UInt8 FtlCodec.Outcome).andThen FtlCodec.decoder.drain

/-- As long as the frame task is alive, the commands delivered are the first ones in the input,
however it was cut into chunks. -/
def Fed (s : State) : Prop :=
  s.frame.alive = true → FtlCodec.decoder.drain .new s.input = s.drained

theorem fed_init : Fed init := by
  intro _
  rfl

theorem drained_of_none {s : State} (h : s.codec.decode s.buffer = none) :
    s.drained = ⟨s.decoded.map .command, some (s.codec, s.buffer)⟩ := by
  rw [State.drained, Decoder.Drained.andThen_some,
    FtlCodec.ftlCodec_lawful.drain_of_none (s := s.codec) h, List.append_nil]

theorem fed_receive {s : State} {bytes : List UInt8} (h : Fed s)
    (hg : Guard s (.receive bytes)) : Fed (next H file rng s (.receive bytes)) := by
  obtain ⟨hframe, hnone⟩ := hg
  intro _
  have hinput := h (by rw [hframe]; rfl)
  show FtlCodec.decoder.drain .new (s.input ++ bytes) = _
  rw [FtlCodec.ftlCodec_lawful.drain_append, hinput, drained_of_none hnone,
    Decoder.Drained.andThen_some]
  rfl

theorem fed_command {s : State} {c : FtlCommand} {codec : FtlCodec} {rest : List UInt8}
    (h : Fed s) (hg : Guard s (.next (.command c) codec rest)) :
    Fed (next H file rng s (.next (.command c) codec rest)) := by
  obtain ⟨hframe, hsome⟩ := hg
  intro _
  have hdrain : FtlCodec.decoder.drain s.codec s.buffer =
      (FtlCodec.decoder.drain codec rest).cons (.command c) := by
    have hdecode : FtlCodec.decoder.decode s.codec s.buffer = some (.command c, codec, rest) :=
      hsome
    rw [FtlCodec.ftlCodec_lawful.drain_eq, hdecode]
    rfl
  have hinput := h (by rw [hframe]; rfl)
  show FtlCodec.decoder.drain .new s.input = _
  rw [hinput, State.drained, State.drained, Decoder.Drained.andThen_some,
    Decoder.Drained.andThen_some, hdrain]
  simp [Decoder.Drained.cons, next]

theorem Fed.next {s : State} {l : Label} (h : Fed s) (hg : Guard s l) :
    Fed (next H file rng s l) := by
  cases l with
  | receive bytes => exact fed_receive h hg
  | next o codec rest =>
    cases o with
    | command c => exact fed_command h hg
    | error e =>
      intro halive
      cases halive
    | panic =>
      intro halive
      cases halive
  | commandRecv c =>
    intro halive
    simp only [Tasks.next, process_frame] at halive
    simpa [Tasks.next, State.drained] using h halive
  | sendCommand c => exact fun _ => h (by rw [hg.1]; rfl)
  | frameRecv data => exact fun _ => h (by rw [hg.1]; rfl)
  | write d item ok => exact fun _ => h (by rw [show s.frame = _ from hg]; rfl)
  | writeDone => exact fun _ => h (by rw [show s.frame = _ from hg]; rfl)
  | readEnd | sendCommandErr | frameRecvNone =>
    intro halive
    cases halive
  | commandRecvNone | commandSend | commandSendErr => exact h

theorem fed_of_reachable {s : State} (h : (tasks H file rng).Reachable s) : Fed s :=
  h.invariant fed_init fun _ _ _ hi _ hen => hi.next hen

end Lightspeed.Ingest.Tasks
