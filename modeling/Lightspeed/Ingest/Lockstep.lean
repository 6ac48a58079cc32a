import Lightspeed.Ingest.Challenge
import Lightspeed.Ingest.Tasks

/-!
# Lockstep

The frame task takes a command from the socket only when the reply to the one before has been
written. So at every moment all commands but the last have been answered, and the last one is at
one of a few places on its way round (`Lockstep`). The two tasks with their channels then do what
the sequential command handler does (`written_refines_replies`).
-/

namespace Lightspeed.Ingest.Tasks

section

variable (H : Hmac) (file : HashFile) (rng : ℕ → Challenge)

/-- The commands with what the random generator draws for each. -/
def requests (cs : List FtlCommand) : List (FtlCommand × Challenge) :=
  cs.mapIdx fun i c => (c, rng i)

/-- Processed one after the other, the commands `cs` are all answered, with `os`, and leave the
state `conn`. -/
def Answered (cs : List FtlCommand) (conn : ConnectionState) (os : List Reply) : Prop :=
  (commandTask H file).answerAll .new (requests rng cs) = some (conn, os)

/-- What becomes of the command `c` after the commands `cs`. -/
def Processed (cs : List FtlCommand) (conn : ConnectionState) (c : FtlCommand)
    (r : Option (ConnectionState × Option Reply)) : Prop :=
  commandTask H file conn (c, rng cs.length) = r

/-- Where the last command is, as a relation between the program counters, the two channels, the
command task's state and counter, and the histories `decoded`, `replied` and `written`. -/
inductive Lockstep : FramePC → List FtlCommand → List Reply → CommandPC → ConnectionState → ℕ →
    List FtlCommand → List Reply → List Text → Prop
  /-- Its reply has been written. -/
  | idle {cs conn os} : Answered H file rng cs conn os →
    Lockstep .next [] [] .recv conn cs.length cs os os.flatten
  | forwarding {cs conn os c} : Answered H file rng cs conn os →
    Lockstep (.sendCommand c) [] [] .recv conn cs.length (cs ++ [c]) os os.flatten
  | requested {cs conn os c} : Answered H file rng cs conn os →
    Lockstep .recv [c] [] .recv conn cs.length (cs ++ [c]) os os.flatten
  | replying {cs conn os c conn' r dot} : Answered H file rng cs conn os →
    Processed H file rng cs conn c (some (conn', some r)) →
    Lockstep .recv [] [] (.send r dot) conn' (cs.length + 1) (cs ++ [c]) os os.flatten
  | replied {cs conn os c conn' r} : Answered H file rng cs conn os →
    Processed H file rng cs conn c (some (conn', some r)) →
    Lockstep .recv [] [r] .recv conn' (cs.length + 1) (cs ++ [c]) (os ++ [r]) os.flatten
  /-- `w` of the reply has been written and `d` reversed is still to be. -/
  | writing {cs conn os c conn' r w d} : Answered H file rng cs conn os →
    Processed H file rng cs conn c (some (conn', some r)) → r = w ++ d.reverse →
    Lockstep (.write d) [] [] .recv conn' (cs.length + 1) (cs ++ [c]) (os ++ [r])
      (os.flatten ++ w)
  /-- It got no reply: both tasks wait for ever. -/
  | silent {cs conn os c conn'} : Answered H file rng cs conn os →
    Processed H file rng cs conn c (some (conn', none)) →
    Lockstep .recv [] [] .recv conn' (cs.length + 1) (cs ++ [c]) os os.flatten
  | failed {cs conn os c n} : Answered H file rng cs conn os →
    Processed H file rng cs conn c none →
    Lockstep .recv [] [] .panicked conn n (cs ++ [c]) os os.flatten
  /-- The frame task is gone. -/
  | ended {frame command conn n cs os written} : frame.alive = false →
    command = .recv ∨ command.alive = false →
    written <+: ((commandTask H file).replies .new (requests rng cs)).flatten →
    Lockstep frame [] [] command conn n cs os written

def LockstepInv (s : State) : Prop :=
  Lockstep H file rng s.frame s.toConn s.toFrame s.command s.conn s.taken s.decoded s.replied
    s.written

end

variable {H : Hmac} {file : HashFile} {rng : ℕ → Challenge}

/-! ## The sequential handler along a run -/

theorem requests_append (cs cs' : List FtlCommand) :
    requests rng (cs ++ cs') =
      requests rng cs ++ cs'.mapIdx fun i c => (c, rng (i + cs.length)) := by
  rw [requests, List.mapIdx_append, requests]

theorem requests_concat (cs : List FtlCommand) (c : FtlCommand) :
    requests rng (cs ++ [c]) = requests rng cs ++ [(c, rng cs.length)] := by
  rw [requests_append]
  simp

theorem Answered.concat {cs : List FtlCommand} {conn conn' : ConnectionState} {os : List Reply}
    {c : FtlCommand} {r : Reply} (h : Answered H file rng cs conn os)
    (hp : Processed H file rng cs conn c (some (conn', some r))) :
    Answered H file rng (cs ++ [c]) conn' (os ++ [r]) := by
  rw [Answered, requests_concat]
  exact Handler.answerAll_concat h hp

theorem Answered.replies {cs : List FtlCommand} {conn : ConnectionState} {os : List Reply}
    (h : Answered H file rng cs conn os) :
    (commandTask H file).replies .new (requests rng cs) = os :=
  Handler.replies_of_answerAll h

/-- Of commands that are all answered, each is answered in its turn. -/
theorem Answered.exists_processed {cs all : List FtlCommand} {conn conn' : ConnectionState}
    {os os' : List Reply} {c : FtlCommand} (hall : Answered H file rng all conn' os')
    (hpre : cs ++ [c] <+: all) (h : Answered H file rng cs conn os) :
    ∃ conn' r, Processed H file rng cs conn c (some (conn', some r)) := by
  obtain ⟨more, rfl⟩ := hpre
  rw [Answered, requests_append, requests_concat, List.append_assoc, List.singleton_append] at hall
  exact Handler.exists_answer hall h

/-- The replies to some commands are the first ones of the replies to more. -/
theorem prefix_replies_requests (cs cs' : List FtlCommand) :
    (commandTask H file).replies .new (requests rng cs) <+:
      (commandTask H file).replies .new (requests rng (cs ++ cs')) := by
  rw [requests_append]
  exact Handler.replies_prefix

theorem prefix_flatten {os os' : List Reply} (h : os <+: os') : os.flatten <+: os'.flatten := by
  obtain ⟨rest, rfl⟩ := h
  rw [List.flatten_append]
  exact List.prefix_append _ _

/-- What has been written in a lockstep state is the beginning of the replies. -/
theorem LockstepInv.written_prefix {s : State} (h : LockstepInv H file rng s) :
    s.written <+: ((commandTask H file).replies .new (requests rng s.decoded)).flatten := by
  unfold LockstepInv at h
  generalize s.frame = frame, s.toConn = toConn, s.toFrame = toFrame, s.command = command,
    s.conn = conn, s.taken = taken, s.decoded = decoded, s.replied = replied,
    s.written = written at h
  -- a last command without a complete reply leaves the replies to the others
  have before : ∀ {cs conn os} (c : FtlCommand), Answered H file rng cs conn os →
      os.flatten <+:
        ((commandTask H file).replies .new (requests rng (cs ++ [c]))).flatten := by
    intro cs conn os c hans
    rw [← hans.replies]
    exact prefix_flatten (prefix_replies_requests cs [c])
  cases h with
  | idle hans => rw [hans.replies]
  | forwarding hans => exact before _ hans
  | requested hans => exact before _ hans
  | replying hans _ => exact before _ hans
  | replied hans _ => exact before _ hans
  | writing hans hp hr =>
    rw [(hans.concat hp).replies, List.flatten_append, List.flatten_singleton, hr]
    exact List.prefix_append_right_inj _ |>.mpr (List.prefix_append _ _)
  | silent hans _ => exact before _ hans
  | failed hans _ => exact before _ hans
  | ended _ _ hw => exact hw

/-! ## What the frame task's program counter says -/

/-- Nothing is on its way between the tasks. -/
structure AtRest (s : State) : Prop where
  toConn : s.toConn = []
  toFrame : s.toFrame = []
  command : s.command = .recv

/-- Before the next frame is taken, all commands have been answered and all replies written. -/
theorem LockstepInv.of_next {s : State} (h : LockstepInv H file rng s) (hframe : s.frame = .next) :
    AtRest s ∧ s.taken = s.decoded.length ∧ s.written = s.replied.flatten ∧
      Answered H file rng s.decoded s.conn s.replied := by
  obtain ⟨codec, buffer, frame, toConn, toFrame, command, conn, taken, input, decoded, replied,
    written⟩ := s
  obtain rfl : frame = .next := hframe
  unfold LockstepInv at h
  simp only at h
  cases h with
  | idle hans => exact ⟨⟨rfl, rfl, rfl⟩, rfl, rfl, hans⟩
  | ended hdead => cases hdead

theorem LockstepInv.of_sendCommand {s : State} {c : FtlCommand} (h : LockstepInv H file rng s)
    (hframe : s.frame = .sendCommand c) :
    AtRest s ∧ ∃ cs, s.decoded = cs ++ [c] ∧ s.taken = cs.length ∧
      s.written = s.replied.flatten ∧ Answered H file rng cs s.conn s.replied := by
  obtain ⟨codec, buffer, frame, toConn, toFrame, command, conn, taken, input, decoded, replied,
    written⟩ := s
  obtain rfl : frame = .sendCommand c := hframe
  unfold LockstepInv at h
  simp only at h
  cases h with
  | forwarding hans => exact ⟨⟨rfl, rfl, rfl⟩, _, rfl, rfl, rfl, hans⟩
  | ended hdead => cases hdead

theorem LockstepInv.of_write {s : State} {d : List Text} (h : LockstepInv H file rng s)
    (hframe : s.frame = .write d) :
    AtRest s ∧ ∃ cs os c conn w, s.decoded = cs ++ [c] ∧ s.taken = cs.length + 1 ∧
      Answered H file rng cs conn os ∧
      Processed H file rng cs conn c (some (s.conn, some (w ++ d.reverse))) ∧
      s.replied = os ++ [w ++ d.reverse] ∧ s.written = os.flatten ++ w := by
  obtain ⟨codec, buffer, frame, toConn, toFrame, command, conn, taken, input, decoded, replied,
    written⟩ := s
  obtain rfl : frame = .write d := hframe
  unfold LockstepInv at h
  simp only at h
  cases h with
  | writing hans hp hr =>
    subst hr
    exact ⟨⟨rfl, rfl, rfl⟩, _, _, _, _, _, rfl, rfl, hans, hp, rfl, rfl⟩
  | ended hdead => cases hdead

/-! ## Every step keeps the tasks in lockstep -/

/-- The frame task goes. -/
theorem AtRest.end_frame {s t : State} (h : AtRest s) (ht : t.frame.alive = false)
    (hconn : t.toConn = s.toConn) (hframe : t.toFrame = s.toFrame)
    (hcommand : t.command = s.command)
    (hwritten : t.written <+:
      ((commandTask H file).replies .new (requests rng t.decoded)).flatten) :
    LockstepInv H file rng t := by
  unfold LockstepInv
  rw [hconn, hframe, hcommand, h.toConn, h.toFrame, h.command]
  exact .ended ht (.inl rfl) hwritten

theorem LockstepInv.next_next {s : State} {o : FtlCodec.Outcome} {codec : FtlCodec}
    {rest : List UInt8} (h : LockstepInv H file rng s) (hg : Guard s (.next o codec rest)) :
    LockstepInv H file rng (next H file rng s (.next o codec rest)) := by
  obtain ⟨hrest, htaken, hwritten, hans⟩ := h.of_next hg.1
  cases o with
  | command c =>
    show Lockstep H file rng (.sendCommand c) s.toConn s.toFrame s.command s.conn s.taken
      (s.decoded ++ [c]) s.replied s.written
    rw [hrest.toConn, hrest.toFrame, hrest.command, htaken, hwritten]
    exact .forwarding hans
  | error e => exact hrest.end_frame rfl rfl rfl rfl h.written_prefix
  | panic => exact hrest.end_frame rfl rfl rfl rfl h.written_prefix

theorem LockstepInv.next_sendCommand {s : State} {c : FtlCommand} (h : LockstepInv H file rng s)
    (hg : Guard s (.sendCommand c)) :
    LockstepInv H file rng (next H file rng s (.sendCommand c)) := by
  obtain ⟨hrest, cs, hdecoded, htaken, hwritten, hans⟩ := h.of_sendCommand hg.1
  show Lockstep H file rng .recv (s.toConn ++ [c]) s.toFrame s.command s.conn s.taken s.decoded
    s.replied s.written
  rw [hrest.toConn, hrest.toFrame, hrest.command, hdecoded, htaken, hwritten]
  exact .requested hans

/-- `d.pop()` is the next string of the reply: the vector was reversed first. -/
theorem LockstepInv.next_write {s : State} {d : List Text} {item : Text} {ok : Bool}
    (h : LockstepInv H file rng s) (hg : Guard s (.write d item ok)) :
    LockstepInv H file rng (next H file rng s (.write d item ok)) := by
  rw [Guard] at hg
  obtain ⟨hrest, cs, os, c, conn, w, hdecoded, htaken, hans, hp, hreplied, hwritten⟩ :=
    h.of_write hg
  have hreply : w ++ (d ++ [item]).reverse = (w ++ [item]) ++ d.reverse := by
    rw [List.reverse_append, List.reverse_singleton, List.singleton_append, List.append_assoc,
      List.singleton_append]
  have hnow : s.written ++ [item] = os.flatten ++ (w ++ [item]) := by
    rw [hwritten, List.append_assoc]
  rw [hreply] at hp hreplied
  cases ok with
  | true =>
    show Lockstep H file rng (.write d) s.toConn s.toFrame s.command s.conn s.taken s.decoded
      s.replied (s.written ++ [item])
    rw [hrest.toConn, hrest.toFrame, hrest.command, hdecoded, htaken, hreplied, hnow]
    exact .writing hans hp rfl
  | false =>
    refine hrest.end_frame rfl rfl rfl rfl ?_
    show s.written ++ [item] <+:
      ((commandTask H file).replies .new (requests rng s.decoded)).flatten
    rw [hnow, hdecoded, (hans.concat hp).replies, List.flatten_append, List.flatten_singleton]
    exact (List.prefix_append_right_inj _).mpr (List.prefix_append _ _)

theorem LockstepInv.next_writeDone {s : State} (h : LockstepInv H file rng s)
    (hg : Guard s .writeDone) : LockstepInv H file rng (next H file rng s .writeDone) := by
  rw [Guard] at hg
  obtain ⟨hrest, cs, os, c, conn, w, hdecoded, htaken, hans, hp, hreplied, hwritten⟩ :=
    h.of_write hg
  rw [List.reverse_nil, List.append_nil] at hp hreplied
  have hnow : s.written = s.replied.flatten := by
    rw [hwritten, hreplied, List.flatten_append, List.flatten_singleton]
  have hlen : s.taken = s.decoded.length := by
    rw [htaken, hdecoded, List.length_append, List.length_singleton]
  show Lockstep H file rng .next s.toConn s.toFrame s.command s.conn s.taken s.decoded s.replied
    s.written
  rw [hrest.toConn, hrest.toFrame, hrest.command, hlen, hnow]
  refine .idle ?_
  rw [hdecoded, hreplied]
  exact hans.concat hp

/-- The command task takes a command only while the frame task waits for the reply to it. -/
theorem LockstepInv.of_commandRecv {s : State} {c : FtlCommand} (h : LockstepInv H file rng s)
    (hg : Guard s (.commandRecv c)) :
    s.frame = .recv ∧ s.toConn = [c] ∧ s.toFrame = [] ∧ ∃ cs, s.decoded = cs ++ [c] ∧
      s.taken = cs.length ∧ s.written = s.replied.flatten ∧
      Answered H file rng cs s.conn s.replied := by
  obtain ⟨codec, buffer, frame, toConn, toFrame, command, conn, taken, input, decoded, replied,
    written⟩ := s
  obtain ⟨hcommand, hhead⟩ := hg
  obtain rfl : command = .recv := hcommand
  unfold LockstepInv at h
  simp only at h hhead
  cases h with
  | requested hans =>
    obtain rfl := Option.some.inj hhead
    exact ⟨rfl, rfl, rfl, _, rfl, rfl, rfl, hans⟩
  | idle | forwarding | replied | writing | silent | ended => cases hhead

/-- The command task processes the command it was sent. -/
theorem LockstepInv.next_commandRecv {s : State} {c : FtlCommand} (h : LockstepInv H file rng s)
    (hg : Guard s (.commandRecv c)) :
    LockstepInv H file rng (next H file rng s (.commandRecv c)) := by
  obtain ⟨hframe, hconn, htoFrame, cs, hdecoded, htaken, hwritten, hans⟩ := h.of_commandRecv hg
  obtain ⟨codec, buffer, frame, toConn, toFrame, command, conn, taken, input, decoded, replied,
    written⟩ := s
  simp only at hframe hconn htoFrame hdecoded htaken hwritten hans
  subst hframe hconn htoFrame hdecoded htaken hwritten
  unfold LockstepInv
  rw [next]
  cases hp : commandTask H file conn (c, rng cs.length) with
  | none =>
    rw [process_of_panic hp]
    exact .failed hans hp
  | some result =>
    obtain ⟨conn', reply⟩ := result
    cases reply with
    | none =>
      rw [process_of_silence hp]
      exact .silent hans hp
    | some r =>
      rw [process_of_reply hp]
      exact .replying hans hp

/-- Only a command that was answered leaves the command task at a `send`. -/
theorem LockstepInv.of_send {s : State} {data : Reply} {dot : Bool}
    (h : LockstepInv H file rng s) (hcommand : s.command = .send data dot) :
    s.frame = .recv ∧ s.toConn = [] ∧ s.toFrame = [] ∧ ∃ cs c conn, s.decoded = cs ++ [c] ∧
      s.taken = cs.length + 1 ∧ s.written = s.replied.flatten ∧
      Answered H file rng cs conn s.replied ∧
      Processed H file rng cs conn c (some (s.conn, some data)) := by
  obtain ⟨codec, buffer, frame, toConn, toFrame, command, conn, taken, input, decoded, replied,
    written⟩ := s
  obtain rfl : command = .send data dot := hcommand
  unfold LockstepInv at h
  simp only at h
  cases h with
  | replying hans hp => exact ⟨rfl, rfl, rfl, _, _, _, rfl, rfl, rfl, hans, hp⟩
  | ended _ hcommand =>
    rcases hcommand with hcommand | hcommand <;> cases hcommand

theorem LockstepInv.next_commandSend {s : State} {data : Reply} {dot : Bool}
    (h : LockstepInv H file rng s) (hg : Guard s (.commandSend data dot)) :
    LockstepInv H file rng (next H file rng s (.commandSend data dot)) := by
  obtain ⟨hframe, hconn, htoFrame, cs, c, conn, hdecoded, htaken, hwritten, hans, hp⟩ :=
    h.of_send hg.1
  show Lockstep H file rng s.frame s.toConn (s.toFrame ++ [data]) .recv s.conn s.taken s.decoded
    (s.replied ++ [data]) s.written
  rw [hframe, hconn, htoFrame, hdecoded, htaken, hwritten]
  exact .replied hans hp

theorem LockstepInv.next_frameRecv {s : State} {data : Reply} (h : LockstepInv H file rng s)
    (hg : Guard s (.frameRecv data)) :
    LockstepInv H file rng (next H file rng s (.frameRecv data)) := by
  obtain ⟨codec, buffer, frame, toConn, toFrame, command, conn, taken, input, decoded, replied,
    written⟩ := s
  obtain ⟨hframe, hhead⟩ := hg
  obtain rfl : frame = .recv := hframe
  unfold LockstepInv at h ⊢
  simp only at h hhead
  cases h with
  | @replied cs conn os c conn' r hans hp =>
    obtain rfl : r = data := by simpa using hhead
    have hw := Lockstep.writing (w := []) (d := r.reverse) hans hp (by simp)
    rwa [List.append_nil] at hw
  | ended hdead => cases hdead
  | requested | replying | silent | failed => cases hhead

/-- A task that finds the other one gone goes too. -/
theorem LockstepInv.next_recvNone {s : State} {l : Label} (h : LockstepInv H file rng s)
    (hg : Guard s l) (hl : l = .frameRecvNone ∨ l = .commandRecvNone) :
    LockstepInv H file rng (next H file rng s l) := by
  have hpre := h.written_prefix
  obtain ⟨codec, buffer, frame, toConn, toFrame, command, conn, taken, input, decoded, replied,
    written⟩ := s
  unfold LockstepInv at h ⊢
  simp only at h hpre
  rcases hl with rfl | rfl
  · obtain ⟨hframe, -, hdead⟩ := hg
    obtain rfl : frame = .recv := hframe
    simp only at hdead
    cases h with
    | failed => exact .ended rfl (.inr rfl) hpre
    | requested | replying | replied | silent => cases hdead
    | ended hgone => cases hgone
  · obtain ⟨hcommand, -, hdead⟩ := hg
    obtain rfl : command = .recv := hcommand
    simp only at hdead
    cases h with
    | ended => exact .ended hdead (.inr rfl) hpre
    | idle | forwarding | requested | replied | writing | silent => cases hdead

theorem LockstepInv.next {s : State} {l : Label} (h : LockstepInv H file rng s)
    (hg : Guard s l) : LockstepInv H file rng (next H file rng s l) := by
  cases l with
  | receive bytes => exact h
  | readEnd => exact (h.of_next hg.1).1.end_frame rfl rfl rfl rfl h.written_prefix
  | next o codec rest => exact h.next_next hg
  | sendCommand c => exact h.next_sendCommand hg
  | sendCommandErr c => exact (h.of_sendCommand hg.1).1.end_frame rfl rfl rfl rfl h.written_prefix
  | write d item ok => exact h.next_write hg
  | writeDone => exact h.next_writeDone hg
  | commandRecv c => exact h.next_commandRecv hg
  | frameRecv data => exact h.next_frameRecv hg
  | frameRecvNone => exact h.next_recvNone hg (.inl rfl)
  | commandRecvNone => exact h.next_recvNone hg (.inr rfl)
  | commandSend data dot => exact h.next_commandSend hg
  | commandSendErr data dot =>
    -- the frame task does not go while a reply is under way
    have hdead : s.frame.alive = false := hg.2
    rw [(h.of_send hg.1).1] at hdead
    cases hdead

theorem lockstepInv_of_reachable {s : State} (h : (tasks H file rng).Reachable s) :
    LockstepInv H file rng s := by
  refine h.invariant ?_ fun _ _ _ hi _ hen => hi.next hen
  have hnone : Answered H file rng [] .new [] := rfl
  exact .idle hnone

/-! ## The two tasks refine the handler -/

/-- What `frame.send` has put into the write buffer. -/
def State.bytesWritten (s : State) : List UInt8 :=
  s.written.foldl (fun buf line => FtlCodec.encode line buf) []

theorem bytesWritten_eq (s : State) : s.bytesWritten = s.written.flatMap Utf8.encode := by
  have hfold : ∀ (lines : List Text) (buf : List UInt8),
      lines.foldl (fun buf line => FtlCodec.encode line buf) buf =
        buf ++ lines.flatMap Utf8.encode := by
    intro lines
    induction lines with
    | nil => simp
    | cons line lines ih =>
      intro buf
      rw [List.foldl_cons, ih, FtlCodec.encode, List.flatMap_cons, List.append_assoc]
  rw [State.bytesWritten, hfold, List.nil_append]

theorem flatMap_prefix {w w' : List Text} (h : w <+: w') :
    w.flatMap Utf8.encode <+: w'.flatMap Utf8.encode := by
  obtain ⟨rest, rfl⟩ := h
  rw [List.flatMap_append]
  exact List.prefix_append _ _

/-- There is at most one message in the two channels. -/
theorem LockstepInv.channels_le_one {s : State} (h : LockstepInv H file rng s) :
    s.toConn.length + s.toFrame.length ≤ 1 := by
  obtain ⟨codec, buffer, frame, toConn, toFrame, command, conn, taken, input, decoded, replied,
    written⟩ := s
  unfold LockstepInv at h
  simp only at h
  cases h <;> simp

/-- **The two tasks refine the command handler.** Whatever the interleaving, what has been
written is the beginning of the sequential handler's replies to the commands decoded; no send on
a channel ever waits for room; and before the next frame is taken every string of every reply has
been written, in order. -/
theorem written_refines_replies {s : State} (h : (tasks H file rng).Reachable s) :
    s.bytesWritten <+:
      ((commandTask H file).replies .new (requests rng s.decoded)).flatten.flatMap Utf8.encode ∧
    (s.toConn.length + s.toFrame.length ≤ 1 ∧
      (∀ c, s.frame = .sendCommand c → s.toConn.length < chanCap) ∧
      (∀ data dot, s.command = .send data dot → s.toFrame.length < chanCap)) ∧
    (s.frame = .next →
      (commandTask H file).answerAll .new (requests rng s.decoded) = some (s.conn, s.replied) ∧
      s.written = s.replied.flatten) := by
  have hinv := lockstepInv_of_reachable h
  have hone := hinv.channels_le_one
  refine ⟨?_, ⟨hone, ?_, ?_⟩, ?_⟩
  · rw [bytesWritten_eq]
    exact flatMap_prefix hinv.written_prefix
  · intro _ _
    rw [chanCap]
    omega
  · intro _ _ _
    rw [chanCap]
    omega
  · intro hframe
    obtain ⟨-, -, hwritten, hans⟩ := hinv.of_next hframe
    exact ⟨hans, hwritten⟩

/-- One ping goes round. -/
def pingLabels : List Label :=
  [.receive (FtlCodec.wire "PING 7".toList), .next (.command .ping) .new [], .sendCommand .ping,
    .commandRecv .ping, .commandSend ["201\n".toList] false, .frameRecv ["201\n".toList],
    .write [] "201\n".toList true, .writeDone]

def challengeReply : Reply := ["200 ".toList, generateHmac default, "\n".toList]

/-- A challenge is asked for, with a ping right behind, and its three strings are written. -/
def challengeLabels : List Label :=
  [.receive (FtlCodec.wire "HMAC".toList ++ FtlCodec.wire "PING 7".toList),
    .next (.command .hmac) .new (FtlCodec.wire "PING 7".toList), .sendCommand .hmac,
    .commandRecv .hmac, .commandSend challengeReply false, .frameRecv challengeReply,
    .write ["\n".toList, generateHmac default] "200 ".toList true,
    .write ["\n".toList] (generateHmac default) true, .write [] "\n".toList true, .writeDone]

/-- The challenge is answered before the ping, each string in its place. -/
theorem written_refines_replies_ping :
    ∃ s : State, s.frame = .next ∧ s.replied = [challengeReply, ["201\n".toList]] ∧
      s.written = ["200 ".toList, generateHmac default, "\n".toList, "201\n".toList] ∧
      s.written = s.replied.flatten := by
  obtain ⟨s, hs, hframe, hreplied, hwritten⟩ :=
    (tasks exampleHmac exampleFile fun _ => default).reachable_of_exec
      (challengeLabels ++ pingLabels.tail)
      (fun s => s.frame = .next ∧ s.replied = [challengeReply, ["201\n".toList]] ∧
        s.written = ["200 ".toList, generateHmac default, "\n".toList, "201\n".toList])
      (by decide +kernel)
  exact ⟨s, hframe, hreplied, hwritten, ((written_refines_replies hs).2.2 hframe).2⟩

end Lightspeed.Ingest.Tasks
