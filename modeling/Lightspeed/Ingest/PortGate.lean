import Lightspeed.Ingest.Handshake
import Lightspeed.Precedence

/-!
# The port is given to whoever asks

"It verifies the stream key and negotiates a port": the port line is the answer to `.`, which the
command task gives in whatever state the connection is. Nothing records that a `CONNECT` was
verified. A client that sends its `CONNECT` first is still held up, because a `CONNECT` that is
not verified gets no answer and the next command is not read; so the port is given only after a
verified `CONNECT` exactly as long as no `.` is taken before any `CONNECT` (`ConnectsFirst`).
-/

namespace Lightspeed.Ingest.Tasks

/-- The line that tells the client its port. -/
def portLine : Text := "200 hi. Use UDP port 65535\n".toList

section

variable (H : Hmac) (file : HashFile) (rng : ℕ → Challenge)

/-- The commands `cs` were all answered, with `lines`. One of them was a `CONNECT`, which presented
the tag of the connection's challenge under the stored key and was answered `"200\n"`. -/
def Authenticated (cs : List FtlCommand) (lines : List Text) : Prop :=
  ∃ conn os, Answered H file rng cs conn os ∧ lines = os.flatten ∧
    ∃ before data after conn' os' key msg, cs = before ++ .connect data :: after ∧
      Answered H file rng before conn' os' ∧ readStreamKey file = some key ∧
      Hex.decode conn'.getPayload = some msg ∧ presented data = some (H.sign key msg) ∧
      os' ++ [["200\n".toList]] <+: os

/-- Whenever the port line was written, it was the answer to a `.` that came after a `CONNECT`
verified before. -/
def Gated (s : State) : Prop :=
  Historically (fun before line => line = portLine →
    ∃ cs, cs ++ [.dot] <+: s.decoded ∧ Authenticated H file rng cs before) s.written

/-- The command task takes a `.` only when a `CONNECT` has come before. -/
def ConnectsFirst (s : State) : Label → Prop
  | .commandRecv c => c = .dot → ∃ data, .connect data ∈ s.decoded
  | _ => True

end

variable {H : Hmac} {file : HashFile} {rng : ℕ → Challenge}

/-! ## What is answered with the port -/

theorem handleAttribute_reply {conn conn' : ConnectionState} {data : Data} {r : Reply}
    (h : handleAttribute conn data = some (conn', some r)) : r = ["".toList] := by
  unfold handleAttribute at h
  split at h
  · split at h
    · split at h
      · simp only [Option.some.injEq, Prod.mk.injEq] at h
        exact h.2.symm
      · simp at h
    · simp only [Option.some.injEq, Prod.mk.injEq] at h
      exact h.2.symm
  · simp at h

/-- A challenge in hexadecimal is not the port line. -/
theorem portLine_ne_generateHmac (payload : Challenge) : portLine ≠ generateHmac payload := by
  intro h
  have hblank : ' ' ∈ portLine := by decide
  rw [h] at hblank
  have hdigit := Hex.isDigit_of_mem_encode hblank
  exact absurd hdigit (by decide)

/-- Only `.` is answered with the port line. -/
theorem eq_dot_of_portLine {conn conn' : ConnectionState} {c : FtlCommand} {payload : Challenge}
    {r : Reply} (h : commandTask H file conn (c, payload) = some (conn', some r))
    (hmem : portLine ∈ r) : c = .dot ∧ r = [portLine] := by
  match c, h with
  | .dot, h =>
    simp only [commandTask, Option.some.injEq, Prod.mk.injEq] at h
    exact ⟨rfl, h.2.symm⟩
  | .hmac, h =>
    simp only [commandTask, handleCommand, Option.some.injEq, Prod.mk.injEq] at h
    rw [← h.2] at hmem
    simp only [List.mem_cons, List.not_mem_nil, or_false] at hmem
    rcases hmem with hline | hline | hline
    · exact absurd hline (by decide)
    · exact absurd hline (portLine_ne_generateHmac payload)
    · exact absurd hline (by decide)
  | .connect data, h =>
    obtain ⟨-, rfl, -⟩ := handleConnect_answered.mp h
    exact absurd hmem (by decide)
  | .attribute data, h =>
    rw [handleAttribute_reply h] at hmem
    exact absurd hmem (by decide)
  | .ping, h =>
    simp only [commandTask, handleCommand, Option.some.injEq, Prod.mk.injEq] at h
    rw [← h.2] at hmem
    exact absurd hmem (by decide)
  | .disconnect, h => simp [commandTask] at h

/-! ## What an answered `CONNECT` shows -/

/-- A `CONNECT` among commands that were all answered was verified. -/
theorem authenticated_of_mem {cs : List FtlCommand} {conn : ConnectionState} {os : List Reply}
    {data : Data} (h : Answered H file rng cs conn os) (hmem : .connect data ∈ cs) :
    Authenticated H file rng cs os.flatten := by
  obtain ⟨before, after, rfl⟩ := List.append_of_mem hmem
  refine ⟨conn, os, h, rfl, before, data, after, ?_⟩
  rw [Answered, requests_append] at h
  obtain ⟨conn', os', os'', hbefore, hrest, rfl⟩ := Handler.answerAll_append.mp h
  rw [List.mapIdx_cons] at hrest
  obtain ⟨conn'', r, os₃, hconnect, -, rfl⟩ := Handler.answerAll_cons.mp hrest
  obtain ⟨-, rfl, key, msg, hkey, hmsg, hpres⟩ := handleConnect_answered.mp hconnect
  refine ⟨conn', os', key, msg, rfl, hbefore, hkey, hmsg, hpres, ?_⟩
  exact ⟨os₃, by rw [List.append_assoc, List.singleton_append]⟩

/-! ## Every step -/

/-- The commands the command task has taken. -/
def State.processed (s : State) : List FtlCommand := s.decoded.take s.taken

/-- No `.` has been taken before a `CONNECT`. -/
def InOrder (cs : List FtlCommand) : Prop :=
  Precedes (fun c => ∃ data, c = .connect data) (fun c => c = .dot) cs

structure GateInv (H : Hmac) (file : HashFile) (rng : ℕ → Challenge) (s : State) : Prop where
  gated : Gated H file rng s
  inOrder : InOrder s.processed

/-- More decoded commands do not matter. -/
theorem Gated.of_prefix {s t : State} (h : Gated H file rng s) (hwritten : t.written = s.written)
    (hdecoded : s.decoded <+: t.decoded) : Gated H file rng t := by
  unfold Gated
  rw [hwritten]
  refine Historically.mono h fun before line hline hport => ?_
  obtain ⟨cs, hcs, hauth⟩ := hline hport
  exact ⟨cs, hcs.trans hdecoded, hauth⟩

theorem GateInv.congr {s t : State} (h : GateInv H file rng s) (hwritten : t.written = s.written)
    (hdecoded : t.decoded = s.decoded) (htaken : t.taken = s.taken) : GateInv H file rng t := by
  constructor
  · exact h.gated.of_prefix hwritten (by rw [hdecoded])
  · rw [State.processed, hdecoded, htaken]
    exact h.inOrder

/-- One more command is taken. -/
theorem GateInv.next_commandRecv {s : State} {c : FtlCommand} (h : GateInv H file rng s)
    (hlock : LockstepInv H file rng s) (hok : ConnectsFirst s (.commandRecv c))
    (hg : Guard s (.commandRecv c)) : GateInv H file rng (next H file rng s (.commandRecv c)) := by
  obtain ⟨-, -, -, cs, hdecoded, htaken, -, -⟩ := hlock.of_commandRecv hg
  have hin := h.inOrder
  rw [State.processed, hdecoded, htaken, List.take_left] at hin
  constructor
  · refine h.gated.of_prefix ?_ ?_
    · simp only [next, process_written]
    · simp only [next, process_decoded]
      exact List.prefix_refl _
  · rw [State.processed]
    simp only [next, process_decoded, process_taken]
    rw [hdecoded, htaken, List.take_of_length_le (by simp), InOrder, precedes_concat]
    refine ⟨hin, fun hdot => ?_⟩
    -- the `CONNECT` that has come before is not this `.`
    obtain ⟨data, hmem⟩ := hok hdot
    rw [hdecoded, List.mem_append, List.mem_singleton, hdot] at hmem
    rcases hmem with hmem | heq
    · exact ⟨_, hmem, data, rfl⟩
    · cases heq

/-- One more line is written: if it is the port line, the command it answers is a `.`. -/
theorem GateInv.next_write {s : State} {d : List Text} {item : Text} {ok : Bool}
    (h : GateInv H file rng s) (hlock : LockstepInv H file rng s)
    (hg : Guard s (.write d item ok)) :
    GateInv H file rng (next H file rng s (.write d item ok)) := by
  rw [Guard] at hg
  obtain ⟨-, cs, os, c, conn, w, hdecoded, htaken, hans, hp, -, hwritten⟩ := hlock.of_write hg
  refine ⟨?_, h.inOrder⟩
  show Historically _ (s.written ++ [item])
  refine historically_concat.mpr ⟨h.gated, fun hport => ?_⟩
  subst hport
  have hmem : portLine ∈ w ++ (d ++ [portLine]).reverse := by simp
  obtain ⟨rfl, hreply⟩ := eq_dot_of_portLine hp hmem
  -- nothing of the reply has been written before
  have hlen := congrArg List.length hreply
  simp only [List.length_append, List.length_reverse, List.length_singleton] at hlen
  have hw : w = [] := List.eq_nil_of_length_eq_zero (by omega)
  have hin := h.inOrder
  rw [State.processed, hdecoded, htaken, List.take_of_length_le (by simp), InOrder,
    precedes_concat] at hin
  obtain ⟨-, hconnect, data, rfl⟩ := hin.2 rfl
  refine ⟨cs, ?_, ?_⟩
  · show cs ++ [.dot] <+: s.decoded
    rw [hdecoded]
  · rw [hwritten, hw, List.append_nil]
    exact authenticated_of_mem hans hconnect

theorem GateInv.next {s : State} {l : Label} (h : GateInv H file rng s)
    (hlock : LockstepInv H file rng s) (hok : ConnectsFirst s l) (hg : Guard s l) :
    GateInv H file rng (next H file rng s l) := by
  cases l with
  | commandRecv c => exact h.next_commandRecv hlock hok hg
  | write d item ok => exact h.next_write hlock hg
  | next o codec rest =>
    cases o with
    | command c =>
      obtain ⟨-, htaken, -, -⟩ := hlock.of_next hg.1
      constructor
      · exact h.gated.of_prefix rfl (List.prefix_append _ _)
      · show InOrder ((s.decoded ++ [c]).take s.taken)
        rw [List.take_append_of_le_length htaken.le]
        exact h.inOrder
    | error e => exact h.congr rfl rfl rfl
    | panic => exact h.congr rfl rfl rfl
  | _ => exact h.congr rfl rfl rfl

theorem gateInv_of_reachable {s : State}
    (h : (tasks H file rng).ReachableWhen ConnectsFirst s) : GateInv H file rng s := by
  have hinit : GateInv H file rng init := by
    constructor
    · exact historically_nil
    · exact precedes_nil
  exact h.invariant hinit fun _ _ hr hi hok hen =>
    hi.next (lockstepInv_of_reachable hr.reachable) hok hen

/-! ## A `.` before any `CONNECT` -/

/-- A `.` that is taken before any `CONNECT` is answered with the port line. -/
theorem exists_not_gated {s : State} (h : (tasks H file rng).Reachable s)
    (hg : Guard s (.commandRecv .dot)) (hnone : ∀ data, .connect data ∉ s.decoded) :
    ∃ t, (tasks H file rng).Path Lts.always (next H file rng s (.commandRecv .dot)) t ∧
      ¬Gated H file rng t := by
  obtain ⟨hframe, hconn, hempty, -⟩ := (lockstepInv_of_reachable h).of_commandRecv hg
  -- the command task sends the reply, the frame task receives and writes it
  let asked := next H file rng s (.commandRecv .dot)
  let sent := next H file rng asked (.commandSend [portLine] true)
  let received := next H file rng sent (.frameRecv [portLine])
  have hsend : Guard asked (.commandSend [portLine] true) := by
    refine ⟨rfl, ?_, ?_⟩
    · show s.frame.alive = true
      rw [hframe]
      rfl
    · show s.toFrame.length < chanCap
      rw [hempty]
      decide
  have hrecv : Guard sent (.frameRecv [portLine]) := by
    refine ⟨hframe, ?_⟩
    show (s.toFrame ++ [[portLine]]).head? = some [portLine]
    rw [hempty]
    rfl
  have hwrite : Guard received (.write [] portLine true) := rfl
  have hsent : (tasks H file rng).Path Lts.always asked sent :=
    Lts.Path.single (l := Label.commandSend [portLine] true) trivial hsend
  have hreceived : (tasks H file rng).Path Lts.always asked received :=
    hsent.next (l := Label.frameRecv [portLine]) trivial hrecv
  have hwritten := hreceived.next (l := Label.write [] portLine true) trivial hwrite
  refine ⟨_, hwritten, fun hgated => ?_⟩
  obtain ⟨cs, hcs, -, -, -, -, before, data, after, -, -, -, -, rfl, -⟩ :=
    hgated s.written portLine [] rfl rfl
  have hmem : FtlCommand.connect data ∈ (before ++ .connect data :: after) ++ [.dot] := by simp
  exact hnone data (hcs.subset hmem)

/-- **Authentication gates the port, for a client that connects first.** In a run in which no `.`
is taken before a `CONNECT`, the port line is written only as the answer to a `.` that came after
a verified `CONNECT`. The first `.` taken before any `CONNECT` can be answered with it. -/
theorem gated_of_connectsFirst {s : State}
    (h : (tasks H file rng).ReachableWhen ConnectsFirst s) :
    Gated H file rng s ∧ (Guard s (.commandRecv .dot) → (∀ data, .connect data ∉ s.decoded) →
      ∃ t, (tasks H file rng).Path Lts.always (next H file rng s (.commandRecv .dot)) t ∧
        ¬Gated H file rng t) := by
  constructor
  · exact (gateInv_of_reachable h).gated
  · intro hg hnone
    exact exists_not_gated h.reachable hg hnone

/-- An honest broadcaster sends its `CONNECT` before its `.`. -/
theorem connectsFirst_of_honest {s : State} {key : List UInt8} {b : Session}
    (hkey : readStreamKey file = some key)
    (h : (tasks H file rng).ReachableWhen (Honest H key b) s) :
    (tasks H file rng).ReachableWhen ConnectsFirst s := by
  refine h.imp fun s l hr hok hen => ?_
  cases l with
  | commandRecv c =>
    rintro rfl
    obtain ⟨-, -, -, cs, hdecoded, -⟩ := (lockstepInv_of_reachable hr.reachable).of_commandRecv hen
    have hpre := Safe.decoded_prefix (safe_of_reachable hkey hr) (fed_of_reachable hr.reachable)
    rw [hdecoded] at hpre ⊢
    -- the first command of a session is `HMAC` and the second its `CONNECT`
    match cs, hpre with
    | [], hpre => simp [Session.commands, Session.lines, hmacLine] at hpre
    | [c], hpre => simp [Session.commands, Session.lines, connectLine] at hpre
    | c :: c' :: cs, hpre =>
      simp only [Session.commands, Session.lines, List.cons_append, List.map_cons,
        List.cons_prefix_cons] at hpre
      obtain ⟨-, rfl, -⟩ := hpre
      exact ⟨_, List.mem_cons_of_mem _ List.mem_cons_self⟩
  | _ => trivial

/-- The session with two attributes: its port line comes after its verified `CONNECT`. -/
theorem gated_of_connectsFirst_session : ∃ s,
    s.bytesWritten = Utf8.encode (exampleSession.transcript default) ∧
      Gated exampleHmac exampleFile (fun _ => default) s := by
  have hkey : readStreamKey exampleFile = some (Utf8.encode exampleKey) := readStreamKey_keyFile _
  obtain ⟨s, hpath, hdone⟩ :=
    (inevitably_completed exampleHmac (fun _ => default) exampleSession hkey).exists_path
  exact ⟨s, hdone.written, (gated_of_connectsFirst (connectsFirst_of_honest hkey hpath)).1⟩

/-- A client that asks for its port and nothing else gets it. -/
theorem port_without_connect :
    ¬∀ H file rng s, (tasks H file rng).Reachable s → Gated H file rng s := by
  intro hall
  obtain ⟨s, hs, hwritten, hdecoded⟩ :=
    (tasks exampleHmac exampleFile fun _ => default).reachable_of_exec
      [.receive (FtlCodec.wire ".".toList), .next (.command .dot) .new [], .sendCommand .dot,
        .commandRecv .dot, .commandSend [portLine] true, .frameRecv [portLine],
        .write [] portLine true]
      (fun s => s.written = [portLine] ∧ s.decoded = [.dot]) (by decide)
  obtain ⟨cs, hcs, -, -, -, -, before, data, after, -, -, -, -, rfl, -⟩ :=
    hall _ _ _ _ hs [] portLine [] hwritten rfl
  rw [hdecoded] at hcs
  have hlen := hcs.length_le
  simp only [List.length_append, List.length_cons, List.length_nil] at hlen
  omega

end Lightspeed.Ingest.Tasks
