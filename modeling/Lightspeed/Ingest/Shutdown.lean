import Lightspeed.Ingest.Lockstep

/-!
# How the two tasks end

Each task holds one end of both channels, and a task that returns or panics drops its ends. So a
task that is suspended on a channel whose other end is gone can always go on: what is buffered is
received first, then `recv` gives `None`, and `send` fails at once. Neither task is left behind
(`not_stuck_of_gone`), and because the tasks are in lockstep the one that is still there ends with
its next step (`both_end`).
-/

namespace Lightspeed.Ingest.Tasks

/-! ## Tasks and what they wait for -/

inductive Task
  | frame
  | command
deriving DecidableEq

def Task.other : Task → Task
  | .frame => .command
  | .command => .frame

/-- Whose step a label is. -/
def Label.task : Label → Task
  | .receive _ | .readEnd | .next _ _ _ | .sendCommand _ | .sendCommandErr _ | .frameRecv _
  | .frameRecvNone | .write _ _ _ | .writeDone => .frame
  | .commandRecv _ | .commandRecvNone | .commandSend _ _ | .commandSendErr _ _ => .command

/-- The task is suspended at a `send` or a `recv`. -/
def FramePC.onChannel : FramePC → Bool
  | .sendCommand _ | .recv => true
  | _ => false

def CommandPC.onChannel : CommandPC → Bool
  | .recv | .send _ _ => true
  | _ => false

def State.onChannel (s : State) : Task → Bool
  | .frame => s.frame.onChannel
  | .command => s.command.onChannel

def State.alive (s : State) : Task → Bool
  | .frame => s.frame.alive
  | .command => s.command.alive

/-- Suspended on a channel operation that is not enabled. -/
def Stuck (s : State) (t : Task) : Prop :=
  s.onChannel t = true ∧ ∀ l, l.task = t → ¬Guard s l

variable {H : Hmac} {file : HashFile} {rng : ℕ → Challenge} {s : State}

/-! ## A channel without its other end -/

/-- The command task receives what is buffered, then `None`; its `send` fails. -/
theorem exists_command_step (hgone : s.frame.alive = false) (hon : s.command.onChannel = true) :
    ∃ l : Label, l.task = .command ∧ Guard s l := by
  cases hcommand : s.command with
  | recv =>
    cases hqueue : s.toConn with
    | nil => exact ⟨.commandRecvNone, rfl, hcommand, hqueue, hgone⟩
    | cons c cs =>
      refine ⟨.commandRecv c, rfl, hcommand, ?_⟩
      rw [hqueue]
      rfl
  | send data dot => exact ⟨.commandSendErr data dot, rfl, hcommand, hgone⟩
  | ended | panicked =>
    rw [hcommand] at hon
    cases hon

theorem exists_frame_step (hgone : s.command.alive = false) (hon : s.frame.onChannel = true) :
    ∃ l : Label, l.task = .frame ∧ Guard s l := by
  cases hframe : s.frame with
  | sendCommand c => exact ⟨.sendCommandErr c, rfl, hframe, hgone⟩
  | recv =>
    cases hqueue : s.toFrame with
    | nil => exact ⟨.frameRecvNone, rfl, hframe, hqueue, hgone⟩
    | cons data rest =>
      refine ⟨.frameRecv data, rfl, hframe, ?_⟩
      rw [hqueue]
      rfl
  | next | write | ended | panicked =>
    rw [hframe] at hon
    cases hon

theorem not_stuck_of_gone {t : Task} (hgone : s.alive t.other = false) : ¬Stuck s t := by
  rintro ⟨hon, hnone⟩
  cases t with
  | frame =>
    obtain ⟨l, hl, hg⟩ := exists_frame_step hgone hon
    exact hnone l hl hg
  | command =>
    obtain ⟨l, hl, hg⟩ := exists_command_step hgone hon
    exact hnone l hl hg

/-! ## Which task goes first -/

/-- The places at which a task can find the other one gone. -/
theorem LockstepInv.of_gone (h : LockstepInv H file rng s)
    (hgone : s.frame.alive = false ∨ s.command.alive = false) :
    s.toConn = [] ∧ s.toFrame = [] ∧ (s.frame.alive = false ∧ s.command = .recv ∨
      s.frame.alive = false ∧ s.command.alive = false ∨
      s.frame = .recv ∧ s.command = .panicked) := by
  obtain ⟨codec, buffer, frame, toConn, toFrame, command, conn, taken, input, decoded, replied,
    written⟩ := s
  unfold LockstepInv at h
  simp only at h hgone ⊢
  cases h with
  | failed hans hp => exact ⟨rfl, rfl, .inr (.inr ⟨rfl, rfl⟩)⟩
  | ended hdead hcommand =>
    refine ⟨rfl, rfl, ?_⟩
    rcases hcommand with rfl | hcommand
    · exact .inl ⟨hdead, rfl⟩
    · exact .inr (.inl ⟨hdead, hcommand⟩)
  | idle | forwarding | requested | replying | replied | writing | silent =>
    rcases hgone with hframe | hcommand
    · cases hframe
    · cases hcommand

/-- The command task returns only when the frame task is gone: it gets `None`, or its `send`
fails. -/
theorem LockstepInv.frame_gone_of_ended (h : LockstepInv H file rng s)
    (hended : s.command = .ended) : s.frame.alive = false := by
  obtain ⟨-, -, hwhere⟩ := h.of_gone (.inr (by rw [hended]; rfl))
  rcases hwhere with ⟨hframe, -⟩ | ⟨hframe, -⟩ | ⟨-, hpanicked⟩
  · exact hframe
  · exact hframe
  · rw [hended] at hpanicked
    cases hpanicked

/-- **No orphaned task.** When one task has ended, for whatever reason and with whatever in the
channels, the other is not suspended on a channel operation that is not enabled; and the command
task does not return while the frame task is there. -/
theorem no_orphaned_task (h : (tasks H file rng).Reachable s) :
    (∀ t, s.alive t.other = false → ¬Stuck s t) ∧
      (s.command = .ended → s.frame.alive = false) := by
  constructor
  · intro t hgone
    exact not_stuck_of_gone hgone
  · intro hended
    exact (lockstepInv_of_reachable h).frame_gone_of_ended hended

/-- The first write of a reply fails. -/
def brokenLabels : List Label :=
  challengeLabels.take 6 ++ [.write ["\n".toList, generateHmac default] "200 ".toList false]

/-- The frame task ends with two strings of a reply in hand and the next command in its buffer. The
command task, which waits, goes on and returns. On a channel nothing is ever left behind
(`LockstepInv.of_gone`). -/
theorem no_orphaned_task_closed :
    (∃ s : State, s.frame = .ended ∧ s.replied = [challengeReply] ∧ s.written = ["200 ".toList] ∧
      s.buffer = FtlCodec.wire "PING 7".toList ∧ s.command = .recv ∧ ¬Stuck s .command) ∧
    ∃ t : State, t.command = .ended ∧ t.buffer = FtlCodec.wire "PING 7".toList ∧
      t.frame.alive = false := by
  obtain ⟨s, hs, hframe, hreplied, hwritten, hbuffer, hcommand⟩ :=
    (tasks exampleHmac exampleFile fun _ => default).reachable_of_exec brokenLabels
      (fun s => s.frame = .ended ∧ s.replied = [challengeReply] ∧ s.written = ["200 ".toList] ∧
        s.buffer = FtlCodec.wire "PING 7".toList ∧ s.command = .recv) (by decide +kernel)
  obtain ⟨t, ht, hended, hbehind⟩ :=
    (tasks exampleHmac exampleFile fun _ => default).reachable_of_exec
      (brokenLabels ++ [.commandRecvNone])
      (fun t => t.command = .ended ∧ t.buffer = FtlCodec.wire "PING 7".toList) (by decide +kernel)
  refine ⟨⟨s, hframe, hreplied, hwritten, hbuffer, hcommand, (no_orphaned_task hs).1 .command ?_⟩,
    t, hended, hbehind, (no_orphaned_task ht).2 hended⟩
  rw [Task.other, State.alive, hframe]
  rfl

/-- A frame task that is gone leaves the command task one step, on empty channels. -/
theorem eq_commandRecvNone {l : Label} (hframe : s.frame.alive = false)
    (hcommand : s.command = .recv) (hconn : s.toConn = []) (hg : Guard s l) :
    l = .commandRecvNone := by
  cases l with
  | commandRecvNone => rfl
  | commandRecv c =>
    have hhead := hg.2
    rw [hconn] at hhead
    cases hhead
  | commandSend data dot => cases hcommand.symm.trans hg.1
  | commandSendErr data dot => cases hcommand.symm.trans hg.1
  | write d item ok =>
    rw [show s.frame = _ from hg] at hframe
    cases hframe
  | writeDone =>
    rw [show s.frame = _ from hg] at hframe
    cases hframe
  | receive | readEnd | next | sendCommand | sendCommandErr | frameRecv | frameRecvNone =>
    rw [hg.1] at hframe
    cases hframe

/-- A command task that has panicked leaves the frame task one step. -/
theorem eq_frameRecvNone {l : Label} (hframe : s.frame = .recv) (hcommand : s.command = .panicked)
    (htoFrame : s.toFrame = []) (hg : Guard s l) : l = .frameRecvNone := by
  cases l with
  | frameRecvNone => rfl
  | frameRecv data =>
    have hhead := hg.2
    rw [htoFrame] at hhead
    cases hhead
  | write d item ok => cases hframe.symm.trans hg
  | writeDone => cases hframe.symm.trans hg
  | receive | readEnd | next | sendCommand | sendCommandErr => cases hframe.symm.trans hg.1
  | commandRecv | commandRecvNone | commandSend | commandSendErr =>
    cases hcommand.symm.trans hg.1

/-- **Both tasks end.** Once a task is gone, the run comes to a state in which both are, whichever
steps it takes: there is only one left. -/
theorem both_end (h : (tasks H file rng).Reachable s)
    (hgone : s.frame.alive = false ∨ s.command.alive = false) :
    (tasks H file rng).Inevitably Lts.always
      (fun t => t.frame.alive = false ∧ t.command.alive = false) s := by
  obtain ⟨hconn, htoFrame, hwhere⟩ := (lockstepInv_of_reachable h).of_gone hgone
  rcases hwhere with ⟨hframe, hcommand⟩ | hboth | ⟨hframe, hcommand⟩
  -- the command task gets `None`
  · refine .later ⟨.commandRecvNone, trivial, hcommand, hconn, hframe⟩ fun l _ hen => .here ?_
    obtain rfl := eq_commandRecvNone hframe hcommand hconn hen
    exact ⟨hframe, rfl⟩
  · exact .here hboth
  -- the frame task does
  · refine .later ⟨.frameRecvNone, trivial, hframe, htoFrame, by rw [hcommand]; rfl⟩
      fun l _ hen => .here ?_
    obtain rfl := eq_frameRecvNone hframe hcommand htoFrame hen
    refine ⟨rfl, ?_⟩
    show s.command.alive = false
    rw [hcommand]
    rfl

end Lightspeed.Ingest.Tasks
