import Lightspeed.Ingest.PortGate

/-!
# A connection as a server

What one connection does for whatever is sent to it, well-formed or not. A sequential server reads
the bytes as a whole, takes the commands that the codec finds, and answers them until one of them
gets no reply (`serve`). The two tasks do the same: at any moment the lines that a client has been
sent are the first ones of that server's, and if reading and writing do not fail and nothing more
arrives, the tasks come to rest, and by then they have sent all of them (`connection_serves`).
Neither the chunks in which the bytes arrive nor the order in which the tasks move shows.
-/

namespace Lightspeed.Ingest

/-! ## The sequential server -/

def FtlCodec.Outcome.command? : FtlCodec.Outcome → Option FtlCommand
  | .command c => some c
  | .error _ | .panic => none

/-- The commands in a byte string, up to the first frame that is none. -/
def commandsIn (input : List UInt8) : List FtlCommand :=
  (FtlCodec.decoder.drain .new input).items.filterMap FtlCodec.Outcome.command?

/-- The bytes of a reply. -/
def replyBytes (r : Reply) : List UInt8 := r.flatMap Utf8.encode

/-- A client reads lines; an attribute is answered with the empty string, which is none. -/
def linesOf (rs : List Reply) : List (List UInt8) := (rs.map replyBytes).filterMap (frameOf? [10])

namespace Tasks

section

variable (H : Hmac) (file : HashFile) (rng : ℕ → Challenge)

/-- The replies to the commands in a byte string, up to the first that gets none. -/
def serve (input : List UInt8) : List Reply :=
  (commandTask H file).replies .new (requests rng (commandsIn input))

end

/-- Reading and writing do not fail. -/
def Unbroken (_ : State) : Label → Prop
  | .readEnd => False
  | .write _ _ ok => ok = true
  | _ => True

/-- Nor does anything more arrive. -/
def Quiet (s : State) : Label → Prop
  | .receive _ => False
  | l => Unbroken s l

end Tasks

/-! ## Replies are lines -/

section Lines

variable {H : Hmac} {file : HashFile} {conn conn' : ConnectionState} {r : Reply}

/-- A reply is one line, or empty. -/
theorem replyBytes_eq {c : FtlCommand} {payload : Challenge}
    (h : commandTask H file conn (c, payload) = some (conn', some r)) :
    replyBytes r = [] ∨ ∃ line, replyBytes r = line ++ [10] ∧ 10 ∉ line := by
  match c, h with
  | .hmac, h =>
    obtain ⟨-, rfl⟩ : _ ∧ _ = r := by simpa [commandTask, handleCommand] using h
    refine .inr ⟨[50, 48, 48, 32] ++ Utf8.encode (generateHmac payload), ?_, ?_⟩
    · rw [List.append_assoc]
      rfl
    · rw [List.mem_append, not_or]
      exact ⟨by decide, Tasks.ten_not_mem_encode payload⟩
  | .ping, h =>
    obtain ⟨-, rfl⟩ : _ ∧ _ = r := by simpa [commandTask, handleCommand] using h
    exact .inr ⟨[50, 48, 49], by decide, by decide⟩
  | .dot, h =>
    obtain ⟨-, rfl⟩ : _ ∧ _ = r := by simpa [commandTask] using h
    exact .inr ⟨Utf8.encode "200 hi. Use UDP port 65535".toList, by decide, by decide⟩
  | .disconnect, h => simp [commandTask] at h
  | .connect data, h =>
    obtain ⟨-, rfl, -⟩ := handleConnect_answered.mp h
    exact .inr ⟨[50, 48, 48], by decide, by decide⟩
  | .attribute data, h =>
    have hattribute : handleAttribute conn data = some (conn', some r) := h
    rw [Tasks.handleAttribute_reply hattribute]
    exact .inl rfl

/-- The bytes that the server sends are its lines. -/
theorem split_replies (conn : ConnectionState) (is : List (FtlCommand × Challenge)) :
    Split [10] (((commandTask H file).replies conn is).flatten.flatMap Utf8.encode)
      (linesOf ((commandTask H file).replies conn is)) [] := by
  have hbytes : ∀ rs : List Reply,
      rs.flatten.flatMap Utf8.encode = (rs.map replyBytes).flatten := by
    intro rs
    induction rs with
    | nil => rfl
    | cons r rs ih => rw [List.flatten_cons, List.flatMap_append, ih, List.map_cons,
        List.flatten_cons, replyBytes]
  rw [hbytes, linesOf]
  apply split_blocks (by decide)
  intro block hblock
  obtain ⟨r, hr, rfl⟩ := List.mem_map.mp hblock
  obtain ⟨u, ⟨c, payload⟩, u', hreply⟩ := Handler.exists_of_mem_replies hr
  rcases replyBytes_eq hreply with hempty | ⟨line, hline, hten⟩
  · exact .inl hempty
  · refine .inr ⟨line, hline, fun hinf => hten ?_⟩
    have hmem : 10 ∈ line ++ [10].dropLast := hinf.subset List.mem_cons_self
    rwa [List.dropLast_singleton, List.append_nil] at hmem

end Lines

namespace Tasks

variable {H : Hmac} {file : HashFile} {rng : ℕ → Challenge} {s : State}

/-! ## What has been decoded -/

theorem filterMap_command (cs : List FtlCommand) :
    (cs.map FtlCodec.Outcome.command).filterMap FtlCodec.Outcome.command? = cs := by
  rw [List.filterMap_map]
  exact List.filterMap_some

/-- The commands in the input are those delivered, then those in the buffer. -/
theorem Fed.commandsIn_eq (h : Fed s) (halive : s.frame.alive = true) :
    commandsIn s.input = s.decoded ++
      (FtlCodec.decoder.drain s.codec s.buffer).items.filterMap FtlCodec.Outcome.command? := by
  rw [commandsIn, h halive, State.drained, Decoder.Drained.andThen_some, List.filterMap_append,
    filterMap_command]

/-- A frame that is no command is the end. -/
theorem Fed.commandsIn_of_stop {o : FtlCodec.Outcome} {codec : FtlCodec} {rest : List UInt8}
    (h : Fed s) (hg : Guard s (.next o codec rest)) (hstop : FtlCodec.decoder.stops o = true)
    (ho : o.command? = none) : commandsIn s.input = s.decoded := by
  have hdecode : FtlCodec.decoder.decode s.codec s.buffer = some (o, codec, rest) := hg.2
  have hdrain : FtlCodec.decoder.drain s.codec s.buffer = ⟨[o], none⟩ := by
    rw [FtlCodec.ftlCodec_lawful.drain_eq, hdecode]
    exact if_pos hstop
  rw [h.commandsIn_eq (by rw [hg.1]; rfl), hdrain, List.filterMap_cons_none ho, List.filterMap_nil,
    List.append_nil]

/-- The commands delivered are the first ones in the input. -/
theorem decoded_prefix (h : (tasks H file rng).Reachable s) :
    s.decoded <+: commandsIn s.input := by
  refine h.invariant (P := fun s => s.decoded <+: commandsIn s.input) List.nil_prefix ?_
  intro s l hr hpre _ hg
  have hfed := fed_of_reachable hr
  -- where the frame task goes on, this is what it was fed
  have fed (halive : (next H file rng s l).frame.alive = true) :
      (next H file rng s l).decoded <+: commandsIn (next H file rng s l).input := by
    rw [(hfed.next hg).commandsIn_eq halive]
    exact List.prefix_append _ _
  cases l with
  | receive bytes => exact fed (by rw [next, hg.1]; rfl)
  | next o codec rest =>
    cases o with
    | command c => exact fed rfl
    | error e => exact hpre
    | panic => exact hpre
  | commandRecv c =>
    show (process H file rng { s with toConn := s.toConn.tail } c).decoded <+: commandsIn
      (process H file rng { s with toConn := s.toConn.tail } c).input
    rw [process_decoded, process_input]
    exact hpre
  | _ => exact hpre

/-- Whatever fails, the replies written are the first ones of the server's. -/
theorem written_prefix_serve (h : (tasks H file rng).Reachable s) :
    s.written <+: (serve H file rng s.input).flatten := by
  obtain ⟨more, hmore⟩ := decoded_prefix h
  have hinv := lockstepInv_of_reachable h
  rw [serve, ← hmore]
  exact hinv.written_prefix.trans
    (prefix_flatten (prefix_replies_requests s.decoded more))

/-- The lines in the bytes written are the first ones of the server's. -/
theorem lines_prefix_serve {lines : List (List UInt8)} {rest : List UInt8}
    (h : (tasks H file rng).Reachable s) (hsplit : Split [10] s.bytesWritten lines rest) :
    lines <+: linesOf (serve H file rng s.input) := by
  obtain ⟨more, hmore⟩ := flatMap_prefix (written_prefix_serve h)
  have hall : Split [10] ((serve H file rng s.input).flatten.flatMap Utf8.encode)
      (linesOf (serve H file rng s.input)) [] := split_replies .new _
  rw [← hmore, ← bytesWritten_eq] at hall
  exact hsplit.frames_prefix (by decide) hall

/-! ## All replies are written -/

theorem serve_of_answered {cs : List FtlCommand} {conn : ConnectionState} {os : List Reply}
    {input : List UInt8} (hinput : commandsIn input = cs) (h : Answered H file rng cs conn os) :
    serve H file rng input = os := by
  rw [serve, hinput]
  exact h.replies

/-- The server stops at a command that gets no reply. -/
theorem serve_of_unanswered {cs : List FtlCommand} {c : FtlCommand} {conn : ConnectionState}
    {os : List Reply} (hr : (tasks H file rng).Reachable s) (hdecoded : s.decoded = cs ++ [c])
    (h : Answered H file rng cs conn os)
    (hnone : ∀ conn' r, ¬Processed H file rng cs conn c (some (conn', some r))) :
    serve H file rng s.input = os := by
  obtain ⟨more, hmore⟩ := decoded_prefix hr
  rw [serve, ← hmore, hdecoded, requests_append, requests_concat, List.append_assoc,
    List.singleton_append]
  exact Handler.replies_of_unanswered h hnone

section

variable (H : Hmac) (file : HashFile) (rng : ℕ → Challenge)

/-- Where the frame task has gone, everything had been written. -/
def Finished (s : State) : Prop :=
  s.frame.alive = false → s.written = (serve H file rng s.input).flatten

end

/-- The frame task takes a frame that is no command. -/
theorem written_of_stop {o : FtlCodec.Outcome} {codec : FtlCodec} {rest : List UInt8}
    (hr : (tasks H file rng).Reachable s) (hg : Guard s (.next o codec rest))
    (hstop : FtlCodec.decoder.stops o = true) (ho : o.command? = none) :
    s.written = (serve H file rng s.input).flatten := by
  obtain ⟨-, -, hwritten, hans⟩ := (lockstepInv_of_reachable hr).of_next hg.1
  have hinput := (fed_of_reachable hr).commandsIn_of_stop hg hstop ho
  rw [hwritten, serve_of_answered hinput hans]

/-- The frame task finds that the command task has panicked. -/
theorem written_of_frameRecvNone (hr : (tasks H file rng).Reachable s)
    (hg : Guard s .frameRecvNone) : s.written = (serve H file rng s.input).flatten := by
  have hinv := lockstepInv_of_reachable hr
  obtain ⟨codec, buffer, frame, toConn, toFrame, command, conn, taken, input, decoded, replied,
    written⟩ := s
  obtain ⟨hframe, -, hdead⟩ := hg
  obtain rfl : frame = .recv := hframe
  unfold LockstepInv at hinv
  simp only at hinv hdead ⊢
  cases hinv with
  | failed hans hp =>
    have hserve := serve_of_unanswered hr rfl hans fun conn' r hp' => by cases hp.symm.trans hp'
    exact (congrArg List.flatten hserve).symm
  | requested | replying | replied | silent => cases hdead
  | ended hgone => cases hgone

theorem Finished.next {l : Label} (h : Finished H file rng s) (hr : (tasks H file rng).Reachable s)
    (hok : Unbroken s l) (hg : Guard s l) : Finished H file rng (next H file rng s l) := by
  intro hgone
  cases l with
  | readEnd => exact hok.elim
  | next o codec rest =>
    cases o with
    | command c => cases hgone
    | error e =>
      have hwritten := written_of_stop hr hg rfl rfl
      exact hwritten
    | panic =>
      have hwritten := written_of_stop hr hg rfl rfl
      exact hwritten
  | frameRecvNone =>
    have hwritten := written_of_frameRecvNone hr hg
    exact hwritten
  -- the command task is there as long as a command is being forwarded
  | sendCommandErr c =>
    have hdead : s.command.alive = false := hg.2
    rw [((lockstepInv_of_reachable hr).of_sendCommand hg.1).1.command] at hdead
    cases hdead
  | write d item ok =>
    obtain rfl : ok = true := hok
    cases hgone
  | receive bytes =>
    have hframe : s.frame.alive = false := hgone
    rw [hg.1] at hframe
    cases hframe
  | sendCommand | frameRecv | writeDone => cases hgone
  | commandRecv c =>
    show (process H file rng { s with toConn := s.toConn.tail } c).written = (serve H file rng
      (process H file rng { s with toConn := s.toConn.tail } c).input).flatten
    rw [process_written, process_input]
    apply h
    rwa [Tasks.next, process_frame] at hgone
  | commandRecvNone | commandSend | commandSendErr => exact h hgone

theorem finished_of_reachable (h : (tasks H file rng).ReachableWhen Unbroken s) :
    Finished H file rng s := by
  refine h.invariant (fun halive => by cases halive) ?_
  intro s l hr hi hok hg
  exact hi.next hr.reachable hok hg

/-- When both tasks have come to rest, everything has been written. -/
theorem written_of_rest (h : (tasks H file rng).ReachableWhen Unbroken s)
    (hrest : ∀ l, Quiet s l → ¬Guard s l) : s.written = (serve H file rng s.input).flatten := by
  have hr := h.reachable
  have hinv := lockstepInv_of_reachable hr
  have hfed := fed_of_reachable hr
  have hfinished := finished_of_reachable h
  have hidle (hframe : s.frame = .next) : commandsIn s.input = s.decoded := by
    cases hdecode : s.codec.decode s.buffer with
    | some r =>
      obtain ⟨o, codec, rest⟩ := r
      exact absurd ⟨hframe, hdecode⟩ (hrest (.next o codec rest) trivial)
    | none =>
      have hdrain : FtlCodec.decoder.drain s.codec s.buffer = ⟨[], some (s.codec, s.buffer)⟩ :=
        FtlCodec.ftlCodec_lawful.drain_of_none hdecode
      rw [hfed.commandsIn_eq (by rw [hframe]; rfl), hdrain, List.filterMap_nil, List.append_nil]
  obtain ⟨codec, buffer, frame, toConn, toFrame, command, conn, taken, input, decoded, replied,
    written⟩ := s
  unfold LockstepInv at hinv
  simp only at hinv hidle hfinished ⊢
  cases hinv with
  | idle hans => rw [serve_of_answered (hidle rfl) hans]
  | @forwarding _ _ _ c => exact absurd ⟨rfl, rfl, Nat.zero_lt_two⟩ (hrest (.sendCommand c) trivial)
  | @requested _ _ _ c => exact absurd ⟨rfl, rfl⟩ (hrest (.commandRecv c) trivial)
  | @replying _ _ _ _ _ r dot =>
    exact absurd ⟨rfl, rfl, Nat.zero_lt_two⟩ (hrest (.commandSend r dot) trivial)
  | @replied _ _ _ _ _ r => exact absurd ⟨rfl, rfl⟩ (hrest (.frameRecv r) trivial)
  | @writing _ _ _ _ _ _ _ d =>
    rcases List.eq_nil_or_concat d with rfl | ⟨d, item, rfl⟩
    · exact absurd rfl (hrest .writeDone trivial)
    · refine absurd ?_ (hrest (.write d item true) rfl)
      rw [Guard, List.concat_eq_append]
  -- the server stops here too
  | silent hans hp =>
    have hserve := serve_of_unanswered hr rfl hans fun conn' r hp' => by cases hp.symm.trans hp'
    exact (congrArg List.flatten hserve).symm
  | failed hans hp =>
    have hserve := serve_of_unanswered hr rfl hans fun conn' r hp' => by cases hp.symm.trans hp'
    exact (congrArg List.flatten hserve).symm
  | ended hdead => exact hfinished hdead

/-! ## Coming to rest -/

/-- What is still to be done about what has been received. -/
def State.toDo (s : State) : ℕ :=
  s.remaining 0 + s.frame.alive.toNat + s.command.alive.toNat

/-- A step takes something from it: a frame has at least one byte, and a byte counts more than a
command. -/
theorem toDo_next {l : Label} (hok : Quiet s l) (hg : Guard s l) :
    (next H file rng s l).toDo < s.toDo := by
  unfold State.toDo State.remaining
  cases l with
  | receive bytes => exact hok.elim
  | readEnd => exact hok.elim
  | next o codec rest =>
    have hlt : rest.length < s.buffer.length :=
      FtlCodec.ftlCodec_lawful.shrink (s := s.codec) hg.2
    cases o with
    | command c =>
      simp only [Tasks.next, hg.1, FramePC.work, FramePC.alive]
      omega
    | error e =>
      simp only [Tasks.next, hg.1, FramePC.work, FramePC.alive, Bool.toNat_true, Bool.toNat_false]
      omega
    | panic =>
      simp only [Tasks.next, hg.1, FramePC.work, FramePC.alive, Bool.toNat_true, Bool.toNat_false]
      omega
  | sendCommand c =>
    simp only [Tasks.next, hg.1, FramePC.work, FramePC.alive, List.length_append,
      List.length_singleton]
    omega
  | sendCommandErr c =>
    simp only [Tasks.next, hg.1, FramePC.work, FramePC.alive, Bool.toNat_true, Bool.toNat_false]
    omega
  | frameRecv data =>
    obtain ⟨more, hmore⟩ := List.head?_eq_some_iff.mp hg.2
    simp only [Tasks.next, hg.1, hmore, FramePC.work, FramePC.alive, List.flatten_cons,
      List.length_append, List.length_cons, List.tail_cons, List.length_reverse]
    omega
  | frameRecvNone =>
    simp only [Tasks.next, hg.1, FramePC.work, FramePC.alive, Bool.toNat_true, Bool.toNat_false]
    omega
  | write d item ok =>
    obtain rfl : ok = true := hok
    have hframe : s.frame = .write (d ++ [item]) := hg
    simp only [Tasks.next, hframe, FramePC.work, FramePC.alive, List.length_append,
      List.length_singleton, if_true]
    omega
  | writeDone =>
    have hframe : s.frame = .write [] := hg
    simp only [Tasks.next, hframe, FramePC.work, FramePC.alive, List.length_nil]
    omega
  | commandRecv c =>
    obtain ⟨more, hmore⟩ := List.head?_eq_some_iff.mp hg.2
    have hwork := process_work_le H file rng { s with toConn := s.toConn.tail } c
    have halive :=
      Bool.toNat_le (process H file rng { s with toConn := s.toConn.tail } c).command.alive
    simp only [Tasks.next, process_frame, process_buffer, process_input, process_toConn,
      process_toFrame, hg.1, hmore, CommandPC.work, CommandPC.alive, Bool.toNat_true,
      List.length_cons, List.tail_cons] at hwork halive ⊢
    omega
  | commandRecvNone =>
    simp only [Tasks.next, hg.1, CommandPC.work, CommandPC.alive, Bool.toNat_true,
      Bool.toNat_false]
    omega
  | commandSend data dot =>
    simp only [Tasks.next, hg.1, CommandPC.work, CommandPC.alive, List.flatten_append,
      List.flatten_singleton, List.length_append, List.length_singleton]
    omega
  | commandSendErr data dot =>
    have halive := Bool.toNat_le (next H file rng s (.commandSendErr data dot)).command.alive
    have hwork : (next H file rng s (.commandSendErr data dot)).command.work = 0 := by
      cases dot <;> rfl
    simp only [Tasks.next, hg.1, CommandPC.work, CommandPC.alive, Bool.toNat_true] at hwork halive ⊢
    omega

/-- Without more input, what has been received stays what it was. -/
theorem input_next {l : Label} (hok : Quiet s l) : (next H file rng s l).input = s.input := by
  cases l with
  | receive bytes => exact hok.elim
  | next o codec rest => cases o <;> rfl
  | commandRecv c => exact process_input _ _
  | _ => rfl

theorem Quiet.unbroken {l : Label} (h : Quiet s l) : Unbroken s l := by
  cases l with
  | receive bytes => exact h.elim
  | _ => exact h

/-- **The connection is the sequential server.** Whatever has been received, in whatever chunks,
whichever task moves when, and whatever fails: the lines that the client has been sent are the first
ones that the sequential server sends for the same bytes, which stops at the first command that
gets no reply. If nothing fails and nothing more arrives, the tasks come to rest, whichever moves
first, and then the client has been sent all of these lines and nothing else. -/
theorem connection_serves (h : (tasks H file rng).Reachable s) :
    (∀ lines rest, Split [10] s.bytesWritten lines rest →
      lines <+: linesOf (serve H file rng s.input)) ∧
    ((tasks H file rng).ReachableWhen Unbroken s →
      (tasks H file rng).Inevitably Quiet (fun t =>
        Split [10] t.bytesWritten (linesOf (serve H file rng s.input)) [] ∧
          ∀ l, Quiet t l → ¬Guard t l) s) := by
  refine ⟨fun lines rest hsplit => lines_prefix_serve h hsplit, fun hunbroken => ?_⟩
  refine Lts.inevitably_of_invariant
    (I := fun t => (tasks H file rng).ReachableWhen Unbroken t ∧ t.input = s.input)
    State.toDo ?_ ?_ ?_ ⟨hunbroken, rfl⟩
  · rintro t l ⟨ht, hinput⟩ hok hg
    exact ⟨ht.next hok.unbroken hg, (input_next hok).trans hinput⟩
  · exact fun t l _ hok hg => toDo_next hok hg
  · rintro t ⟨ht, hinput⟩
    by_cases hmove : ∃ l, Quiet t l ∧ Guard t l
    · exact .inr hmove
    · have hrest : ∀ l, Quiet t l → ¬Guard t l := fun l hok hg => hmove ⟨l, hok, hg⟩
      refine .inl ⟨?_, hrest⟩
      rw [bytesWritten_eq, written_of_rest ht hrest, hinput]
      exact split_replies .new _

/-- A ping, a command that gets no reply, and a ping that is never answered. -/
def partingBytes : List UInt8 :=
  FtlCodec.wire "PING 1".toList ++ FtlCodec.wire "DISCONNECT".toList ++
    FtlCodec.wire "PING 2".toList

theorem connection_serves_parting : ∃ s t : State,
    (tasks exampleHmac exampleFile fun _ => default).Path Quiet s t ∧ s.input = partingBytes ∧
      Split [10] t.bytesWritten [[50, 48, 49]] [] := by
  have hlines : linesOf (serve exampleHmac exampleFile (fun _ => default) partingBytes) =
      [[50, 48, 49]] := by decide
  have hreach : (tasks exampleHmac exampleFile fun _ => default).ReachableWhen Unbroken
      ((tasks exampleHmac exampleFile fun _ => default).next init (.receive partingBytes)) :=
    Lts.Path.single (S := tasks _ _ _) (s := init) trivial ⟨rfl, rfl⟩
  obtain ⟨t, hpath, hsplit, -⟩ :=
    ((connection_serves hreach.reachable).2 hreach).exists_path
  exact ⟨_, t, hpath, rfl, hlines ▸ hsplit⟩

end Tasks

end Lightspeed.Ingest
