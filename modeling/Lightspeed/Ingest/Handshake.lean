import Lightspeed.Ingest.Session

/-!
# The handshake

The two tasks against an honest broadcaster (`Session`), which sends its lines in any chunks and
as far ahead as it likes, except that it has to read its challenge before it can answer it
(`Honest`). No task ends or panics (`Safe`), every step brings the session nearer to its end
(`State.remaining`), and there is always a step until the whole transcript has been written
(`progress`). So the session completes (`handshake_completes`).
-/

namespace Lightspeed.Ingest.Tasks

open FtlCodec (Line stream)

/-! ## The broadcaster -/

/-- The challenge as the broadcaster reads it: the first line without `"200 "`, once the line is
complete. -/
def State.issued (s : State) : Option Text :=
  if 10 ∈ s.bytesWritten then
    some (Utf8.fromUtf8Lossy ((s.bytesWritten.drop 4).takeWhile fun x => decide (x ≠ 10)))
  else none

section

variable (H : Hmac) (key : List UInt8) (b : Session)

/-- What the broadcaster can have sent so far. It answers the challenge with its tag under the
stream key, and sends nothing but the `HMAC` line before. -/
def sendable (s : State) : List UInt8 :=
  match s.issued with
  | none => stream [hmacLine]
  | some challenge => stream (b.lines (H.sign key ((Hex.decode challenge).getD [])))

/-- The broadcaster sends what it has to say and neither goes away nor stops reading. -/
def Honest (s : State) : Label → Prop
  | .receive bytes => bytes ≠ [] ∧ s.input ++ bytes <+: sendable H key b s
  | .readEnd => False
  | .write _ _ ok => ok = true
  | _ => True

/-- The transcript has been written, the attributes are stored, and nothing is left to do. -/
structure Completed (payload : Challenge) (s : State) : Prop where
  written : s.bytesWritten = Utf8.encode (b.transcript payload)
  conn : s.conn = stored payload b.attributes
  final : ∀ l, Honest H key b s l → ¬Guard s l

end

/-! ## Reading the challenge -/

theorem encode_flatten (lines : List Text) :
    lines.flatMap Utf8.encode = Utf8.encode lines.flatten := by
  induction lines with
  | nil => rfl
  | cons line lines ih => rw [List.flatMap_cons, ih, List.flatten_cons, Utf8.encode_append]

/-- A hexadecimal number has no line feed in it. -/
theorem ten_not_mem_encode (payload : Challenge) :
    10 ∉ Utf8.encode (generateHmac payload) := by
  have hdigits : ("0123456789abcdef".toList.all
      fun c => decide (10 ∉ String.utf8EncodeChar c)) = true := by decide
  intro h
  obtain ⟨c, hc, hten⟩ := List.mem_flatMap.mp h
  have hdigit : c ∈ "0123456789abcdef".toList := of_decide_eq_true (Hex.isDigit_of_mem_encode hc)
  exact of_decide_eq_true (List.all_eq_true.mp hdigits c hdigit) hten

/-- The broadcaster has its challenge when the three strings of the first reply have been
written, and it is the one that was drawn. -/
theorem issued_of_written {s : State} {payload : Challenge} {more : List Text}
    (h : s.written <+: "200 ".toList :: generateHmac payload :: "\n".toList :: more) :
    s.issued = if s.written.length < 3 then none else some (generateHmac payload) := by
  have hhead : Utf8.encode "200 ".toList = [50, 48, 48, 32] := by decide
  have hfeed : Utf8.encode "\n".toList = [10] := by decide
  have hten := ten_not_mem_encode payload
  unfold State.issued
  rw [bytesWritten_eq]
  generalize s.written = written at h
  -- a line feed comes with the third string and not before
  match written, h with
  | [], _ => rfl
  | [first], h =>
    obtain ⟨rfl, -⟩ := List.cons_prefix_cons.mp h
    rfl
  | [first, second], h =>
    obtain ⟨rfl, htail⟩ := List.cons_prefix_cons.mp h
    obtain ⟨rfl, -⟩ := List.cons_prefix_cons.mp htail
    rw [List.flatMap_cons, List.flatMap_singleton, hhead, if_neg, if_pos (by simp)]
    simpa using hten
  | first :: second :: third :: rest, h =>
    obtain ⟨rfl, htail⟩ := List.cons_prefix_cons.mp h
    obtain ⟨rfl, htail'⟩ := List.cons_prefix_cons.mp htail
    obtain ⟨rfl, -⟩ := List.cons_prefix_cons.mp htail'
    rw [List.flatMap_cons, List.flatMap_cons, List.flatMap_cons, hhead, hfeed,
      if_pos (by simp), if_neg (by simp)]
    have hdrop : ([50, 48, 48, 32] ++ (Utf8.encode (generateHmac payload) ++
        ([10] ++ rest.flatMap Utf8.encode))).drop 4 =
        Utf8.encode (generateHmac payload) ++ ([10] ++ rest.flatMap Utf8.encode) := rfl
    rw [hdrop, List.takeWhile_append_of_pos, List.singleton_append,
      List.takeWhile_cons_of_neg (by simp), List.append_nil, Utf8.fromUtf8Lossy_encode]
    intro x hx
    rw [decide_eq_true_eq]
    rintro rfl
    exact hten hx

/-! ## Safety -/

/-- Both tasks are there, and what was received is the beginning of the session. -/
structure Safe (tag : List UInt8) (b : Session) (s : State) : Prop where
  input : s.input <+: stream (b.lines tag)
  frame : s.frame.alive = true
  command : s.command.alive = true

section Safety

variable {H : Hmac} {file : HashFile} {rng : ℕ → Challenge} {key : List UInt8} {b : Session}
  {tag : List UInt8} {s : State}

theorem drain_session (tag : List UInt8) (b : Session) :
    FtlCodec.decoder.drain .new (stream (b.lines tag)) =
      ⟨(b.commands tag).map .command, some (.new, [])⟩ := by
  rw [FtlCodec.drain_stream, Session.commands, List.map_map]
  rfl

/-- The session begins with `HMAC`. -/
theorem prefix_session (tag : List UInt8) (b : Session) :
    stream [hmacLine] <+: stream (b.lines tag) := ⟨_, (List.flatMap_append ..).symm⟩

/-- What has been decoded, and what the buffer will be decoded to, are the first commands of the
session. -/
theorem Safe.items_prefix (h : Safe tag b s) (hfed : Fed s) :
    s.decoded.map .command ++ (FtlCodec.decoder.drain s.codec s.buffer).items <+:
      (b.commands tag).map .command := by
  have hitems := FtlCodec.ftlCodec_lawful.items_prefix .new h.input
  rwa [drain_session, hfed h.frame, State.drained, Decoder.Drained.andThen_some] at hitems

theorem command_injective : Function.Injective FtlCodec.Outcome.command := by
  intro c c' h
  exact FtlCodec.Outcome.command.inj h

theorem Safe.decoded_prefix (h : Safe tag b s) (hfed : Fed s) :
    s.decoded <+: b.commands tag := by
  have hmap := (List.prefix_append _ _).trans (h.items_prefix hfed)
  obtain ⟨cs, hcs, heq⟩ := List.prefix_map_iff.mp hmap
  rwa [List.map_injective_iff.mpr command_injective heq]

/-- The codec recognises every line. -/
theorem Safe.exists_command {o : FtlCodec.Outcome} {codec : FtlCodec} {rest : List UInt8}
    (h : Safe tag b s) (hfed : Fed s) (hg : Guard s (.next o codec rest)) :
    ∃ c, o = .command c := by
  obtain ⟨os, hos⟩ := FtlCodec.ftlCodec_lawful.exists_items_eq_cons (s := s.codec) hg.2
  have hpre := h.items_prefix hfed
  rw [hos] at hpre
  have hmem : o ∈ (b.commands tag).map .command := hpre.subset (by simp)
  obtain ⟨c, -, hc⟩ := List.mem_map.mp hmem
  exact ⟨c, hc.symm⟩

variable (h : Safe (H.sign key (rng 0).bytes) b s) (hfed : Fed s)
  (hinv : LockstepInv H file rng s) (hkey : readStreamKey file = some key)

include h hfed hinv hkey

/-- What has been written is the beginning of the replies to the session. -/
theorem Safe.written_prefix : s.written <+: (b.replies (rng 0)).flatten := by
  obtain ⟨more, hmore⟩ := h.decoded_prefix hfed
  rw [← (b.answered hkey).replies, ← hmore]
  exact hinv.written_prefix.trans (prefix_flatten (prefix_replies_requests s.decoded more))

theorem Safe.issued :
    s.issued = if s.written.length < 3 then none else some (generateHmac (rng 0)) :=
  issued_of_written (h.written_prefix hfed hinv hkey)

/-- What the broadcaster can have sent depends on whether the first reply has been written. -/
theorem Safe.sendable_eq :
    sendable H key b s = if s.written.length < 3 then stream [hmacLine]
      else stream (b.lines (H.sign key (rng 0).bytes)) := by
  unfold sendable
  rw [h.issued hfed hinv hkey]
  by_cases hlen : s.written.length < 3
  · rw [if_pos hlen, if_pos hlen]
  · rw [if_neg hlen, if_neg hlen]
    -- the tag is that of the challenge drawn
    simp only
    rw [generateHmac, Hex.decode_encode, Option.getD_some]

/-- An honest broadcaster never leaves the session. -/
theorem Safe.sendable_prefix :
    sendable H key b s <+: stream (b.lines (H.sign key (rng 0).bytes)) := by
  rw [h.sendable_eq hfed hinv hkey]
  split
  · exact prefix_session _ b
  · exact List.prefix_refl _

/-- The command task answers every command of the session. -/
theorem Safe.process_command {c : FtlCommand} (hg : Guard s (.commandRecv c)) :
    (next H file rng s (.commandRecv c)).command.alive = true := by
  obtain ⟨-, -, -, cs, hdecoded, htaken, -, hans⟩ := hinv.of_commandRecv hg
  have hpre := h.decoded_prefix hfed
  rw [hdecoded] at hpre
  obtain ⟨conn', r, hp⟩ := (b.answered hkey).exists_processed hpre hans
  rw [Processed, ← htaken] at hp
  rw [next, process_of_reply (s := { s with toConn := s.toConn.tail }) hp]
  rfl

theorem Safe.next {l : Label} (hok : Honest H key b s l) (hg : Guard s l) :
    Safe (H.sign key (rng 0).bytes) b (next H file rng s l) := by
  cases l with
  | receive bytes =>
    exact ⟨hok.2.trans (h.sendable_prefix hfed hinv hkey), h.frame, h.command⟩
  | readEnd => exact hok.elim
  | next o codec rest =>
    obtain ⟨c, rfl⟩ := h.exists_command hfed hg
    exact ⟨h.input, rfl, h.command⟩
  | sendCommand c => exact ⟨h.input, rfl, h.command⟩
  | frameRecv data => exact ⟨h.input, rfl, h.command⟩
  | write d item ok =>
    obtain rfl : ok = true := hok
    exact ⟨h.input, rfl, h.command⟩
  | writeDone => exact ⟨h.input, rfl, h.command⟩
  | commandRecv c =>
    refine ⟨?_, ?_, h.process_command hfed hinv hkey hg⟩
    · simpa [Tasks.next] using h.input
    · simpa [Tasks.next] using h.frame
  | commandSend data dot => exact ⟨h.input, h.frame, rfl⟩
  -- a task that is there is not found gone
  | sendCommandErr c => cases hg.2.symm.trans h.command
  | frameRecvNone => cases hg.2.2.symm.trans h.command
  | commandRecvNone => cases hg.2.2.symm.trans h.frame
  | commandSendErr data dot => cases hg.2.symm.trans h.frame

omit h hfed hinv hkey in
/-- **Safety.** An honest broadcaster makes no task end or panic. -/
theorem safe_of_reachable (hkey : readStreamKey file = some key)
    (h : (tasks H file rng).ReachableWhen (Honest H key b) s) :
    Safe (H.sign key (rng 0).bytes) b s := by
  refine h.invariant ⟨List.nil_prefix, rfl, rfl⟩ fun s l hr hi hok hen => ?_
  exact hi.next (fed_of_reachable hr.reachable) (lockstepInv_of_reachable hr.reachable) hkey hok
    hen

end Safety

/-! ## Termination -/

/-- What is still to be done about what the frame task has in hand. -/
def FramePC.work : FramePC → ℕ
  | .sendCommand _ => 9
  | .write d => d.length + 1
  | _ => 0

def CommandPC.work : CommandPC → ℕ
  | .send data _ => data.length + 3
  | _ => 0

/-- What is still to be done when the session has `total` bytes. A byte counts more before it is
received than after, and more there than a command. -/
def State.remaining (total : ℕ) (s : State) : ℕ :=
  11 * (total - s.input.length) + 10 * s.buffer.length + s.frame.work + 8 * s.toConn.length +
    s.toFrame.flatten.length + 2 * s.toFrame.length + s.command.work

section Termination

variable {H : Hmac} {file : HashFile} {rng : ℕ → Challenge} {key : List UInt8} {b : Session}
  {tag : List UInt8} {s : State}

theorem length_reply_le {conn conn' : ConnectionState} {c : FtlCommand} {payload : Challenge}
    {r : Reply} (h : commandTask H file conn (c, payload) = some (conn', some r)) :
    r.length ≤ 3 := by
  match c, h with
  | .hmac, h | .ping, h | .dot, h =>
    obtain ⟨-, rfl⟩ : _ ∧ _ = r := by simpa [commandTask, handleCommand] using h
    simp
  | .disconnect, h => simp [commandTask] at h
  | .connect data, h =>
    obtain ⟨-, rfl, -⟩ := handleConnect_answered.mp h
    simp
  | .attribute data, h =>
    have hattribute : handleAttribute conn data = some (conn', some r) := h
    unfold handleAttribute at hattribute
    split at hattribute
    · split at hattribute
      · split at hattribute
        · simp only [Option.some.injEq, Prod.mk.injEq] at hattribute
          rw [← hattribute.2]
          simp
        · simp at hattribute
      · simp only [Option.some.injEq, Prod.mk.injEq] at hattribute
        rw [← hattribute.2]
        simp
    · simp at hattribute

theorem process_work_le (H : Hmac) (file : HashFile) (rng : ℕ → Challenge) (s : State)
    (c : FtlCommand) : (process H file rng s c).command.work ≤ 6 := by
  cases hp : commandTask H file s.conn (c, rng s.taken) with
  | none =>
    rw [process_of_panic hp]
    simp [CommandPC.work]
  | some result =>
    obtain ⟨conn', reply⟩ := result
    cases reply with
    | none =>
      rw [process_of_silence hp]
      simp [CommandPC.work]
    | some r =>
      have hlen := length_reply_le hp
      rw [process_of_reply hp]
      simp only [CommandPC.work]
      omega

theorem remaining_next {l : Label} (h : Safe tag b s) (h' : Safe tag b (next H file rng s l))
    (hok : Honest H key b s l) (hg : Guard s l) :
    (next H file rng s l).remaining (stream (b.lines tag)).length <
      s.remaining (stream (b.lines tag)).length := by
  generalize htotal : (stream (b.lines tag)).length = total
  cases l with
  | receive bytes =>
    have hlen : s.input.length + bytes.length ≤ total := by
      rw [← htotal, ← List.length_append]
      exact h'.input.length_le
    have hpos : 0 < bytes.length := List.length_pos_of_ne_nil hok.1
    -- 11 outside against 10 in the buffer
    simp only [State.remaining, Tasks.next, List.length_append]
    omega
  | readEnd => exact hok.elim
  | next o codec rest =>
    have hlt : rest.length < s.buffer.length :=
      FtlCodec.ftlCodec_lawful.shrink (s := s.codec) hg.2
    -- a frame has at least one byte, and a command counts 9
    cases o with
    | command c =>
      simp only [State.remaining, Tasks.next, hg.1, FramePC.work]
      omega
    | error e =>
      simp only [State.remaining, Tasks.next, hg.1, FramePC.work]
      omega
    | panic =>
      simp only [State.remaining, Tasks.next, hg.1, FramePC.work]
      omega
  | sendCommand c =>
    simp only [State.remaining, Tasks.next, hg.1, FramePC.work, List.length_append,
      List.length_singleton]
    omega
  | frameRecv data =>
    obtain ⟨more, hmore⟩ := List.head?_eq_some_iff.mp hg.2
    simp only [State.remaining, Tasks.next, hg.1, hmore, FramePC.work, List.flatten_cons,
      List.length_append, List.length_cons, List.tail_cons, List.length_reverse]
    omega
  | write d item ok =>
    obtain rfl : ok = true := hok
    have hframe : s.frame = .write (d ++ [item]) := hg
    simp only [State.remaining, Tasks.next, hframe, FramePC.work, List.length_append,
      List.length_singleton, if_true]
    omega
  | writeDone =>
    have hframe : s.frame = .write [] := hg
    simp only [State.remaining, Tasks.next, hframe, FramePC.work, List.length_nil]
    omega
  | commandRecv c =>
    obtain ⟨more, hmore⟩ := List.head?_eq_some_iff.mp hg.2
    have hwork := process_work_le H file rng { s with toConn := s.toConn.tail } c
    simp only [State.remaining, Tasks.next, process_frame, process_buffer, process_input,
      process_toConn, process_toFrame, hg.1, hmore, CommandPC.work, List.length_cons,
      List.tail_cons] at hwork ⊢
    omega
  | commandSend data dot =>
    simp only [State.remaining, Tasks.next, hg.1, CommandPC.work, List.flatten_append,
      List.flatten_singleton, List.length_append, List.length_singleton]
    omega
  | sendCommandErr c =>
    simp only [State.remaining, Tasks.next, hg.1, FramePC.work]
    omega
  | commandSendErr data dot => cases hg.2.symm.trans h.frame
  | frameRecvNone => exact absurd h'.frame (by simp [Tasks.next, FramePC.alive])
  | commandRecvNone => exact absurd h'.command (by simp [Tasks.next, CommandPC.alive])

end Termination

/-! ## Progress -/

section Progress

variable {H : Hmac} {file : HashFile} {rng : ℕ → Challenge} {key : List UInt8} {b : Session}
  {s : State}

section Invariants

variable (hsafe : Safe (H.sign key (rng 0).bytes) b s) (hfed : Fed s)
  (hinv : LockstepInv H file rng s) (hkey : readStreamKey file = some key)

include hsafe hfed hinv hkey

/-- A command that is under way goes on. -/
theorem progress_busy (hframe : s.frame ≠ .next) : ∃ l, Honest H key b s l ∧ Guard s l := by
  have hpre := hsafe.decoded_prefix hfed
  have halive := hsafe.frame
  have hanswered : Answered H file rng (b.commands (H.sign key (rng 0).bytes))
      (stored (rng 0) b.attributes) (b.replies (rng 0)) := b.answered hkey
  obtain ⟨codec, buffer, frame, toConn, toFrame, command, conn, taken, input, decoded, replied,
    written⟩ := s
  unfold LockstepInv at hinv
  simp only at hinv hframe hpre halive
  cases hinv with
  | idle => exact absurd rfl hframe
  | @forwarding _ _ _ c => exact ⟨.sendCommand c, trivial, rfl, rfl, Nat.zero_lt_two⟩
  | @requested _ _ _ c => exact ⟨.commandRecv c, trivial, rfl, rfl⟩
  | @replying _ _ _ _ _ r dot => exact ⟨.commandSend r dot, trivial, rfl, rfl, Nat.zero_lt_two⟩
  | @replied _ _ _ _ _ r => exact ⟨.frameRecv r, trivial, rfl, rfl⟩
  | @writing _ _ _ _ _ _ _ d =>
    rcases List.eq_nil_or_concat d with rfl | ⟨d, item, rfl⟩
    · exact ⟨.writeDone, trivial, rfl⟩
    · refine ⟨.write d item true, rfl, ?_⟩
      rw [Guard, List.concat_eq_append]
  -- every command of the session gets its reply
  | silent hans hp =>
    obtain ⟨conn', r, hp'⟩ := hanswered.exists_processed hpre hans
    cases hp.symm.trans hp'
  | failed hans hp =>
    obtain ⟨conn', r, hp'⟩ := hanswered.exists_processed hpre hans
    cases hp.symm.trans hp'
  | ended hdead => cases hdead.symm.trans halive

/-- Before the challenge can be read, nothing has been answered, so nothing has been decoded. -/
theorem decoded_eq_nil (hframe : s.frame = .next) (hlen : s.written.length < 3) :
    s.decoded = [] := by
  obtain ⟨-, -, hwritten, hans⟩ := hinv.of_next hframe
  have hreplied : s.replied <+: b.replies (rng 0) := by
    obtain ⟨more, hmore⟩ := hsafe.decoded_prefix hfed
    rw [← hans.replies, ← (b.answered hkey).replies, ← hmore]
    exact prefix_replies_requests s.decoded more
  have hcount : s.replied.length = s.decoded.length := by
    rw [Handler.length_of_answerAll hans, requests, List.length_mapIdx]
  cases hr : s.replied with
  | nil =>
    rw [hr] at hcount
    exact List.eq_nil_of_length_eq_zero hcount.symm
  | cons r os =>
    rw [hr] at hreplied
    have hfirst : r = ["200 ".toList, generateHmac (rng 0), "\n".toList] :=
      (List.cons_prefix_cons.mp hreplied).1
    rw [hwritten, hr, hfirst, List.flatten_cons, List.length_append] at hlen
    simp only [List.length_cons] at hlen
    omega

/-- While there is something left of the session, the broadcaster can send it, or the part of
it that it has to send first. -/
theorem exists_receive (hframe : s.frame = .next) (hdecode : s.codec.decode s.buffer = none)
    (hleft : s.input ≠ stream (b.lines (H.sign key (rng 0).bytes))) :
    ∃ bytes, Honest H key b s (.receive bytes) := by
  have hsendable := hsafe.sendable_eq hfed hinv hkey
  by_cases hlen : s.written.length < 3
  · rw [if_pos hlen] at hsendable
    have hnil : s.decoded = [] := decoded_eq_nil hsafe hfed hinv hkey hframe hlen
    -- otherwise the line would have been decoded
    have hnot : ¬stream [hmacLine] <+: s.input := by
      intro hpre
      have hitems := FtlCodec.ftlCodec_lawful.items_prefix .new hpre
      rw [FtlCodec.drain_stream, hfed hsafe.frame, drained_of_none hdecode, hnil] at hitems
      simp at hitems
    rcases List.prefix_or_prefix_of_prefix hsafe.input (prefix_session _ b) with
      ⟨bytes, hbytes⟩ | hpre
    · refine ⟨bytes, ?_, ?_⟩
      · rintro rfl
        rw [List.append_nil] at hbytes
        exact hnot (by rw [hbytes])
      · rw [hsendable, hbytes]
    · exact absurd hpre hnot
  · rw [if_neg hlen] at hsendable
    obtain ⟨bytes, hbytes⟩ := hsafe.input
    refine ⟨bytes, ?_, ?_⟩
    · rintro rfl
      rw [List.append_nil] at hbytes
      exact hleft hbytes
    · rw [hsendable, hbytes]

/-- When everything has been received and decoded, the session is complete. -/
theorem completed_of_input (hframe : s.frame = .next) (hdecode : s.codec.decode s.buffer = none)
    (hall : s.input = stream (b.lines (H.sign key (rng 0).bytes))) :
    Completed H key b (rng 0) s := by
  obtain ⟨hrest, -, hwritten, hans⟩ := hinv.of_next hframe
  have hdecoded : s.decoded = b.commands (H.sign key (rng 0).bytes) := by
    have hdrain := hfed hsafe.frame
    rw [hall, drain_session, drained_of_none hdecode, Decoder.Drained.mk.injEq] at hdrain
    exact (List.map_injective_iff.mpr command_injective hdrain.1).symm
  rw [hdecoded] at hans
  have hresult := Option.some.inj ((b.answered hkey).symm.trans hans)
  obtain ⟨hconn, hreplied⟩ := Prod.mk.inj hresult
  refine ⟨?_, hconn.symm, ?_⟩
  · rw [bytesWritten_eq, encode_flatten, hwritten, ← hreplied, b.flatten_replies]
  · intro l hok hg
    -- the broadcaster has nothing left to send, and neither task has anything to do
    cases l with
    | receive bytes =>
      have hlen := (hok.2.trans (hsafe.sendable_prefix hfed hinv hkey)).length_le
      have hpos : 0 < bytes.length := List.length_pos_of_ne_nil hok.1
      rw [hall, List.length_append] at hlen
      omega
    | readEnd => exact hok
    | next o codec rest =>
      have hsome : s.codec.decode s.buffer = some (o, codec, rest) := hg.2
      rw [hdecode] at hsome
      cases hsome
    | _ =>
      simp [Guard, hframe, hrest.toConn, hrest.toFrame, hrest.command, FramePC.alive] at hg

end Invariants

theorem progress (hkey : readStreamKey file = some key)
    (h : (tasks H file rng).ReachableWhen (Honest H key b) s) :
    Completed H key b (rng 0) s ∨ ∃ l, Honest H key b s l ∧ Guard s l := by
  have hsafe := safe_of_reachable hkey h
  have hfed := fed_of_reachable h.reachable
  have hinv := lockstepInv_of_reachable h.reachable
  by_cases hframe : s.frame = .next
  · cases hdecode : s.codec.decode s.buffer with
    | some r =>
      obtain ⟨o, codec, rest⟩ := r
      exact .inr ⟨.next o codec rest, trivial, hframe, hdecode⟩
    | none =>
      by_cases hall : s.input = stream (b.lines (H.sign key (rng 0).bytes))
      · exact .inl (completed_of_input hsafe hfed hinv hkey hframe hdecode hall)
      · obtain ⟨bytes, hok⟩ := exists_receive hsafe hfed hinv hkey hframe hdecode hall
        exact .inr ⟨.receive bytes, hok, hframe, hdecode⟩
  · exact .inr (progress_busy hsafe hfed hinv hkey hframe)

end Progress

/-! ## The session completes -/

/-- Whoever moves when, an honest session comes to its end: every step leaves less to do. -/
theorem inevitably_completed (H : Hmac) (rng : ℕ → Challenge) (b : Session) {file : HashFile}
    {key : List UInt8} (hkey : readStreamKey file = some key) :
    (tasks H file rng).Inevitably (Honest H key b) (Completed H key b (rng 0)) init := by
  refine Lts.ReachableWhen.inevitably
    (State.remaining (stream (b.lines (H.sign key (rng 0).bytes))).length) ?_ ?_
    Relation.ReflTransGen.refl
  · intro s l h hok hg
    exact remaining_next (safe_of_reachable hkey h) (safe_of_reachable hkey (h.next hok hg)) hok hg
  · intro s h
    exact progress hkey h

/-- **Handshake completeness.** With the key a startup installed, a session of an honest
broadcaster comes to its end however it is cut into chunks and whoever moves when. On the way
neither task panics and what is written is the beginning of the transcript; in the end it is all
of it, and the last value of each attribute is stored. The challenge in it has 256 hexadecimal
digits. -/
theorem handshake_completes (H : Hmac) (rng : ℕ → Challenge) (b : Session)
    {streamKeyEnv : Option Text} {sample : KeySample} {before file : HashFile} {key : List UInt8}
    {printed : List Text}
    (hstart : readStreamKeyStartup streamKeyEnv sample before = some ⟨key, file, printed⟩) :
    (tasks H file rng).Inevitably (Honest H key b) (Completed H key b (rng 0)) init ∧
    (∀ s, (tasks H file rng).ReachableWhen (Honest H key b) s →
      s.frame ≠ .panicked ∧ s.command ≠ .panicked ∧
      s.bytesWritten <+: Utf8.encode (b.transcript (rng 0))) ∧
    (generateHmac (rng 0)).length = 256 ∧ ∀ c ∈ generateHmac (rng 0), Hex.isDigit c = true := by
  have hkey : readStreamKey file = some key := (started_of_startup hstart).1
  have hsafe {s : State} (h : (tasks H file rng).ReachableWhen (Honest H key b) s) :
      Safe (H.sign key (rng 0).bytes) b s := safe_of_reachable hkey h
  refine ⟨?_, ?_, ?_, ?_⟩
  · exact inevitably_completed H rng b hkey
  · intro s h
    have hpre := Safe.written_prefix (hsafe h) (fed_of_reachable h.reachable)
      (lockstepInv_of_reachable h.reachable) hkey
    refine ⟨?_, ?_, ?_⟩
    · intro hpanic
      have halive := (hsafe h).frame
      rw [hpanic] at halive
      cases halive
    · intro hpanic
      have halive := (hsafe h).command
      rw [hpanic] at halive
      cases halive
    · rw [bytesWritten_eq, ← b.flatten_replies, ← encode_flatten]
      exact flatMap_prefix hpre
  · rw [generateHmac, Hex.length_encode, (rng 0).length_eq]
  · exact fun c hc => Hex.isDigit_of_mem_encode hc

/-- A session with two attributes and a ping. -/
def exampleSession : Session where
  channelId := ⟨"77".toList, by decide⟩
  attributes :=
    [{ key := "Video".toList
       value := "true".toList
       known := by decide
       trimmed := by decide
       no_colon := by decide
       no_hmac := by decide
       no_connect := by decide
       no_delimiter := by decide
       bool := fun _ => .inl rfl },
     { key := "VideoCodec".toList
       value := "H264".toList
       known := by decide
       trimmed := by decide
       no_colon := by decide
       no_hmac := by decide
       no_connect := by decide
       no_delimiter := by decide
       bool := by decide }]
  pings := [⟨"7".toList, by decide⟩]

/-- The session with a key from the environment. -/
theorem handshake_completes_from_env :
    ∃ s, (tasks exampleHmac exampleFile fun _ => default).Reachable s ∧ s.conn.video = true ∧
      s.bytesWritten = Utf8.encode (exampleSession.transcript default) := by
  have hstart := readStreamKeyStartup_env exampleKey (by decide)
    ⟨exampleKey, by decide, by decide⟩ none
  obtain ⟨s, hpath, hdone⟩ :=
    (handshake_completes exampleHmac (fun _ => default) exampleSession hstart).1.exists_path
  refine ⟨s, hpath.mono fun _ _ _ => trivial, ?_, hdone.written⟩
  rw [hdone.conn]
  decide

end Lightspeed.Ingest.Tasks
