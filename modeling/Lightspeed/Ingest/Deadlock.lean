import Lightspeed.Ingest.Lockstep

/-!
# Commands that get no reply

After every command it has forwarded the frame task waits for a `FrameCommand`. The command task
does not always send one: the arm for `Disconnect` is empty, a hash that does not match is only
logged, and an invalid boolean returns from `handle_command` before the reply is sent. Then each
task waits for the other on an empty channel, for ever (`Deadlocked`). These commands are the only
way there (`not_deadlocked_of_answers`).
-/

namespace Lightspeed.Ingest

section

variable (H : Hmac) (file : HashFile)

/-- The branch `handle_command` takes sends a reply or panics, seen before it is taken. -/
def Responds (conn : ConnectionState) : FtlCommand → Prop
  | .hmac | .ping | .dot => True
  | .disconnect => False
  | .connect data => ∃ key channelId, data.lookup "stream_key".toList = some key ∧
      data.lookup "channel_id".toList = some channelId ∧ ∀ clientHash streamKey payload,
        Hex.decode key = some clientHash → readStreamKey file = some streamKey →
        Hex.decode conn.getPayload = some payload →
        H.verify streamKey payload clientHash = true
  | .attribute data => ∃ key value, data.lookup "key".toList = some key ∧
      data.lookup "value".toList = some value ∧ ∀ k, AttributeKey.ofName key = some k →
        k.isBool = true → AttributeKey.boolOfValue value ≠ none

end

variable {H : Hmac} {file : HashFile} {conn : ConnectionState}

/-- Storing an attribute fails on an invalid boolean only. -/
theorem set_eq_none_iff (conn : ConnectionState) (k : AttributeKey) (value : Text) :
    k.set conn value = none ↔ k.isBool = true ∧ AttributeKey.boolOfValue value = none := by
  cases k <;> simp [AttributeKey.set, AttributeKey.isBool]

theorem handleConnect_silent_iff {data : Data} :
    (∃ conn', handleConnect H file conn data = some (conn', none)) ↔
      ¬Responds H file conn (.connect data) := by
  unfold handleConnect
  rw [Responds]
  split
  · next key channelId hkey hid =>
    simp only [Option.bind_eq_bind, Option.bind_eq_some_iff, Option.pure_def, Option.some.injEq,
      Prod.mk.injEq]
    constructor
    · rintro ⟨conn', clientHash, hclient, streamKey, hstored, payload, hpayload, rfl, hr⟩
      rintro ⟨key', channelId', hkey', -, hall⟩
      rw [hkey, Option.some.injEq] at hkey'
      subst hkey'
      rw [if_pos (hall clientHash streamKey payload hclient hstored hpayload)] at hr
      cases hr
    · intro hnot
      by_contra hsilent
      refine hnot ⟨key, channelId, hkey, hid, fun clientHash streamKey payload hclient hstored
        hpayload => ?_⟩
      by_contra hverify
      exact hsilent ⟨conn, clientHash, hclient, streamKey, hstored, payload, hpayload, rfl,
        if_neg hverify⟩
  · next hnone =>
    refine iff_of_true ⟨conn, rfl⟩ ?_
    rintro ⟨key, channelId, hkey, hid, -⟩
    exact hnone key channelId hkey hid

theorem handleAttribute_silent_iff {data : Data} :
    (∃ conn', handleAttribute conn data = some (conn', none)) ↔
      ¬Responds H file conn (.attribute data) := by
  unfold handleAttribute
  split
  · next key value hkey hvalue =>
    have hresponds : Responds H file conn (.attribute data) ↔ ∀ k,
        AttributeKey.ofName key = some k → k.isBool = true →
        AttributeKey.boolOfValue value ≠ none := by
      constructor
      · rintro ⟨key', value', hkey', hvalue', hall⟩
        obtain rfl := Option.some.inj (hkey.symm.trans hkey')
        obtain rfl := Option.some.inj (hvalue.symm.trans hvalue')
        exact hall
      · intro hall
        exact ⟨key, value, hkey, hvalue, hall⟩
    rw [hresponds]
    cases hk : AttributeKey.ofName key with
    | none => simp
    | some k =>
      have hset := set_eq_none_iff conn k value
      simp only
      cases hv : k.set conn value with
      | none =>
        obtain ⟨hbool, hnone⟩ := hset.mp hv
        simp [hbool, hnone]
      | some conn' =>
        rw [hv] at hset
        simpa using hset
  · next hnone =>
    refine iff_of_true ⟨conn, rfl⟩ ?_
    rintro ⟨key, value, hkey, hvalue, -⟩
    exact hnone key value hkey hvalue

/-- A command gets no reply from a command task that goes on exactly when it does not respond. -/
theorem silent_iff (payload : Challenge) {c : FtlCommand} :
    (∃ conn', commandTask H file conn (c, payload) = some (conn', none)) ↔
      ¬Responds H file conn c := by
  match c with
  | .hmac | .ping | .dot | .disconnect => simp [commandTask, handleCommand, Responds]
  | .connect data => exact handleConnect_silent_iff
  | .attribute data => exact handleAttribute_silent_iff

namespace Tasks

/-! ## Both tasks wait for ever -/

/-- The frame task is suspended in `frame_receive.recv()` and the command task in
`conn_receive.recv()`, and both channels are empty. -/
structure Deadlocked (s : State) : Prop where
  frame : s.frame = .recv
  command : s.command = .recv
  toConn : s.toConn = []
  toFrame : s.toFrame = []

instance (s : State) : Decidable (Deadlocked s) :=
  decidable_of_iff (s.frame = .recv ∧ s.command = .recv ∧ s.toConn = [] ∧ s.toFrame = [])
    ⟨fun ⟨hframe, hcommand, hconn, htoFrame⟩ => ⟨hframe, hcommand, hconn, htoFrame⟩,
      fun h => ⟨h.frame, h.command, h.toConn, h.toFrame⟩⟩

/-- No task can move, whatever the network does. -/
theorem Deadlocked.not_guard {s : State} (h : Deadlocked s) (l : Label) : ¬Guard s l := by
  obtain ⟨hframe, hcommand, hconn, htoFrame⟩ := h
  cases l <;> simp [Guard, hframe, hcommand, hconn, htoFrame, FramePC.alive, CommandPC.alive]

/-- The command task takes only commands it responds to. -/
def Answers (H : Hmac) (file : HashFile) (s : State) : Label → Prop
  | .commandRecv c => Responds H file s.conn c
  | _ => True

variable {rng : ℕ → Challenge} {s : State}

theorem process_command_ne_recv {c : FtlCommand} (h : Responds H file s.conn c) :
    (process H file rng s c).command ≠ .recv := by
  cases hp : commandTask H file s.conn (c, rng s.taken) with
  | none =>
    rw [process_of_panic hp]
    simp
  | some result =>
    obtain ⟨conn', reply⟩ := result
    cases reply with
    | none => exact absurd h ((silent_iff _).mp ⟨conn', hp⟩)
    | some data =>
      rw [process_of_reply hp]
      simp

/-- A step to a deadlock is a command that gets no reply. -/
theorem not_deadlocked_next {l : Label} (hans : Answers H file s l) (hg : Guard s l) :
    ¬Deadlocked (next H file rng s l) := by
  intro hdead
  cases l with
  | commandRecv c =>
    exact process_command_ne_recv (s := { s with toConn := s.toConn.tail }) hans hdead.command
  -- what is sent is in a channel
  | sendCommand c => exact List.append_ne_nil_of_right_ne_nil _ (by simp) hdead.toConn
  | commandSend data dot => exact List.append_ne_nil_of_right_ne_nil _ (by simp) hdead.toFrame
  -- a frame task that waits is there
  | commandSendErr data dot =>
    have halive : s.frame.alive = false := hg.2
    have hframe : s.frame = .recv := hdead.frame
    rw [hframe] at halive
    cases halive
  -- in the other cases one of them does something else afterwards
  | receive bytes =>
    have hframe : s.frame = .recv := hdead.frame
    rw [hg.1] at hframe
    cases hframe
  | next o codec rest =>
    have hframe := hdead.frame
    cases o <;> cases hframe
  | write d item ok =>
    have hframe := hdead.frame
    cases ok <;> cases hframe
  | readEnd | sendCommandErr | frameRecv | frameRecvNone | writeDone =>
    have hframe := hdead.frame
    cases hframe
  | commandRecvNone =>
    have hcommand := hdead.command
    cases hcommand

/-- A command that the command task does not respond to leaves both tasks waiting. -/
theorem deadlocked_of_not_responds {c : FtlCommand} (h : (tasks H file rng).Reachable s)
    (hg : Guard s (.commandRecv c)) (hnot : ¬Responds H file s.conn c) :
    Deadlocked (next H file rng s (.commandRecv c)) := by
  obtain ⟨hframe, hconn, htoFrame, -⟩ := (lockstepInv_of_reachable h).of_commandRecv hg
  obtain ⟨conn', hsilent⟩ := (silent_iff (rng s.taken)).mpr hnot
  have hnext : next H file rng s (.commandRecv c) =
      { s with toConn := s.toConn.tail, command := .recv, conn := conn', taken := s.taken + 1 } :=
    process_of_silence (s := { s with toConn := s.toConn.tail }) hsilent
  rw [hnext]
  exact ⟨hframe, rfl, by simp [hconn], htoFrame⟩

/-- **No deadlock while every command is responded to.** In a run in which the command task takes
only commands it responds to, the tasks never wait for each other, and each command has exactly
one reply when the next one is read. The first command it does not respond to deadlocks them. -/
theorem not_deadlocked_of_answers (h : (tasks H file rng).ReachableWhen (Answers H file) s) :
    ¬Deadlocked s ∧ (s.frame = .next → s.replied.length = s.decoded.length) ∧
      ∀ c, Guard s (.commandRecv c) → ¬Responds H file s.conn c →
        Deadlocked (next H file rng s (.commandRecv c)) := by
  refine ⟨?_, ?_, ?_⟩
  · refine h.invariant (P := fun s => ¬Deadlocked s) ?_ fun _ _ _ _ hok hen =>
      not_deadlocked_next hok hen
    intro hdead
    cases hdead.frame
  · intro hframe
    obtain ⟨-, -, -, hans⟩ := (lockstepInv_of_reachable h.reachable).of_next hframe
    rw [Handler.length_of_answerAll hans, requests, List.length_mapIdx]
  · intro c hg hnot
    exact deadlocked_of_not_responds h.reachable hg hnot

/-- A ping is responded to. -/
theorem not_deadlocked_of_answers_ping :
    ∃ s : State, s.frame = .recv ∧ s.toConn = [] ∧ ¬Deadlocked s := by
  have hb : ∀ s l, (match l with | .commandRecv c => decide (c = .ping) | _ => true) = true →
      Answers exampleHmac exampleFile s l := by
    intro s l hl
    cases l with
    | commandRecv c =>
      obtain rfl := of_decide_eq_true hl
      trivial
    | _ => trivial
  obtain ⟨s, hs, hframe, hconn⟩ :=
    (tasks exampleHmac exampleFile fun _ => default).reachableWhen_of_exec
      (Answers exampleHmac exampleFile)
      (fun _ l => match l with | .commandRecv c => decide (c = .ping) | _ => true) hb
      (pingLabels.take 4) (fun s => s.frame = .recv ∧ s.toConn = []) (by decide)
  exact ⟨s, hframe, hconn, (not_deadlocked_of_answers hs).1⟩

/-- A client that says goodbye leaves both tasks behind. -/
theorem disconnect_deadlocks :
    ¬∀ H file rng s, (tasks H file rng).Reachable s → ¬Deadlocked s := by
  intro h
  obtain ⟨s, hs, hdead⟩ := (tasks exampleHmac exampleFile fun _ => default).reachable_of_exec
    [.receive (FtlCodec.wire "DISCONNECT".toList), .next (.command .disconnect) .new [],
      .sendCommand .disconnect, .commandRecv .disconnect] Deadlocked (by decide)
  exact h _ _ _ _ hs hdead

end Tasks

end Lightspeed.Ingest
