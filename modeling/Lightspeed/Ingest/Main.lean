import Lightspeed.Ingest.KeyStore
import Lightspeed.Ingest.Server

/-!
# The ingest server

`main` of `ingest/src/main.rs`: a process reads or creates the stream key, binds the port and hands
every socket that it accepts to `Connection::init`. The model is a host on which such processes
start and end, one after the other or side by side, each stopping in its startup before every
statement that prints or writes; a file is read or written in one step. They run in one directory
and share the file `hash`, in which a `CONNECT` looks up the key again; the connections of a process
end with it.

So a `CONNECT` is checked against the key that was written last, whichever process wrote it
(`Inv.verified`).
-/

namespace Lightspeed.Ingest

/-- What the history of a host records. -/
inductive HostEvent
  /-- `print_stream_key` of process `p` logs a message. -/
  | printed (p : ℕ) (message : Text)
  /-- Process `p` writes a key to the file. -/
  | stored (p : ℕ) (streamKey : List UInt8)
  /-- The command task of connection `k` takes a command, which gets `reply`. An `HMAC` command
  draws `payload`. -/
  | taken (k : ℕ) (c : FtlCommand) (payload : Challenge) (reply : Option Reply)

/-- How far a process has got in `main`. -/
inductive Process
  /-- In `read_stream_key(true, _)`, with these statements ahead, or on its way to `bind`. -/
  | starting (todo : List Statement)
  /-- In the loop that accepts connections. -/
  | serving
  /-- Returned, panicked or killed; or not started yet. -/
  | ended

/-- The statements that a process still has to execute in its startup. -/
def Process.todo : Process → List Statement
  | .starting todo => todo
  | .serving | .ended => []

structure Host where
  file : HashFile
  /-- How many processes there have been. -/
  started : ℕ
  procs : ℕ → Process
  /-- How many connections all processes together have accepted. -/
  accepted : ℕ
  /-- The process that accepted a connection. -/
  owner : ℕ → ℕ
  conns : ℕ → Tasks.State
  log : List HostEvent

namespace Host

def init (file : HashFile) : Host where
  file := file
  started := 0
  procs := fun _ => .ended
  accepted := 0
  owner := fun _ => 0
  conns := fun _ => Tasks.init
  log := []

/-! ## What the history tells -/

section History

def storedKey : HostEvent → Option (List UInt8)
  | .stored _ streamKey => some streamKey
  | _ => none

def message : HostEvent → Option Text
  | .printed _ message => some message
  | _ => none

/-- What process `p` printed. -/
def messageOf (p : ℕ) : HostEvent → Option Text
  | .printed q message => if q = p then some message else none
  | _ => none

/-- What connection `k` was asked. -/
def requestOf (k : ℕ) : HostEvent → Option (FtlCommand × Challenge)
  | .taken j c payload _ => if j = k then some (c, payload) else none
  | _ => none

variable (file : HashFile) (log : List HostEvent)

/-- The key that was written last, or else what the file held at first. -/
def keyInForce : Option (List UInt8) :=
  (log.filterMap storedKey).getLast?.or (readStreamKey file)

/-- What was printed last. -/
def lastMessage : Option Text := (log.filterMap message).getLast?

/-- All that process `p` has printed. -/
def messagesOf (p : ℕ) : List Text := log.filterMap (messageOf p)

/-- The commands that connection `k` has taken. -/
def requestsOf (k : ℕ) : List (FtlCommand × Challenge) := log.filterMap (requestOf k)

/-- The bytes that a `CONNECT` on connection `k` has to present the tag of: the last challenge, or
nothing if there is none. -/
def challengeOf (k : ℕ) : List UInt8 :=
  ((lastChallenge (requestsOf log k)).map Challenge.bytes).getD []

end History

/-! ## Processes and connections -/

inductive Label
  /-- A process is started. It looks at its environment and, if it finds no key there, reads the
  file. -/
  | start (streamKeyEnv : Option Text) (sample : KeySample)
  /-- Process `p` executes the next statement of its startup. -/
  | execute (p : ℕ)
  /-- `TcpListener::bind` -/
  | bind (p : ℕ) (bound : Bool)
  /-- A process is killed, or returns because `accept` failed. -/
  | exit (p : ℕ)
  | accept (p : ℕ)
  /-- A step of the tasks of connection `k`. -/
  | task (k : ℕ) (l : Tasks.Label)

section

variable (H : Hmac) (rng : ℕ → ℕ → Challenge) (s : Host)

def Guard : Label → Prop
  | .start .. => True
  | .execute p => (s.procs p).todo ≠ []
  | .bind p _ => s.procs p = .starting []
  | .exit p => s.procs p ≠ .ended
  | .accept p => s.procs p = .serving
  | .task k l => k < s.accepted ∧ s.procs (s.owner k) = .serving ∧ Tasks.Guard (s.conns k) l

/-- Process `p` executes the first of these statements. -/
def execute (p : ℕ) : List Statement → Host
  | [] => s
  | .print streamKey :: todo =>
    match printStreamKey streamKey with
    | none => { s with procs := Function.update s.procs p .ended }
    | some message =>
      { s with procs := Function.update s.procs p (.starting todo),
               log := s.log ++ [.printed p message] }
  | .write streamKey :: todo =>
    { s with file := keyFile streamKey, procs := Function.update s.procs p (.starting todo),
             log := s.log ++ [.stored p streamKey] }

/-- What a step of the tasks of connection `k` adds to the history. -/
def entries (k : ℕ) : Tasks.Label → List HostEvent
  | .commandRecv c =>
    let payload := rng k (s.conns k).taken
    [.taken k c payload ((commandTask H s.file (s.conns k).conn (c, payload)).bind Prod.snd)]
  | _ => []

def next : Label → Host
  | .start streamKeyEnv sample =>
    { s with started := s.started + 1,
             procs := Function.update s.procs s.started
               (.starting (startup streamKeyEnv sample s.file).statements) }
  | .execute p => s.execute p (s.procs p).todo
  | .bind p bound =>
    { s with procs := Function.update s.procs p (if bound then .serving else .ended) }
  | .exit p => { s with procs := Function.update s.procs p .ended }
  | .accept p =>
    { s with accepted := s.accepted + 1, owner := Function.update s.owner s.accepted p,
             conns := Function.update s.conns s.accepted Tasks.init }
  | .task k l =>
    { s with conns := Function.update s.conns k (Tasks.next H s.file (rng k) (s.conns k) l),
             log := s.log ++ s.entries H rng k l }

end

end Host

/-- The processes on a host that finds `file`. Connection `k` draws its challenges from `rng k`. -/
def host (H : Hmac) (rng : ℕ → ℕ → Challenge) (file : HashFile) : Lts Host Host.Label :=
  ⟨Host.init file, Host.Guard, Host.next H rng⟩

namespace Host

variable {H : Hmac} {rng : ℕ → ℕ → Challenge} {file : HashFile} {s : Host}

/-! ## What a startup adds to the history -/

section Startup

/-- The next of these statements panics. -/
def Panics : List Statement → Prop
  | .print streamKey :: _ => printStreamKey streamKey = none
  | _ => False

/-- What statements of process `p` add to the history, up to a panic. -/
def eventsOf (p : ℕ) : List Statement → List HostEvent
  | [] => []
  | .print streamKey :: todo =>
    match printStreamKey streamKey with
    | none => []
    | some message => .printed p message :: eventsOf p todo
  | .write streamKey :: todo => .stored p streamKey :: eventsOf p todo

/-- Unless it panics now, process `p` will have left a history with `P` when it has executed these
statements, if nobody else moves. -/
def InTheEnd (P : List HostEvent → Prop) (log : List HostEvent) (p : ℕ) (todo : List Statement) :
    Prop :=
  Panics todo ∨ P (log ++ eventsOf p todo)

theorem inTheEnd_nil {P : List HostEvent → Prop} {log : List HostEvent} {p : ℕ} :
    InTheEnd P log p [] ↔ P log := by
  rw [InTheEnd, eventsOf, List.append_nil]
  exact or_iff_right id

theorem InTheEnd.execute {P : List HostEvent → Prop} {log : List HostEvent} {p : ℕ}
    {todo rest : List Statement} {e : HostEvent} (h : InTheEnd P log p todo)
    (hpanic : ¬Panics todo) (hevents : eventsOf p todo = e :: eventsOf p rest) :
    InTheEnd P (log ++ [e]) p rest := by
  right
  rw [List.append_assoc, List.singleton_append, ← hevents]
  exact h.resolve_left hpanic

/-- Process `p` prints or writes. -/
def ByProcess (p : ℕ) (e : HostEvent) : Prop :=
  (∃ message, e = .printed p message) ∨ ∃ streamKey, e = .stored p streamKey

theorem ByProcess.messageOf_eq_none {p q : ℕ} {e : HostEvent} (h : ByProcess p e) (hq : q ≠ p) :
    messageOf q e = none := by
  rcases h with ⟨message, rfl⟩ | ⟨streamKey, rfl⟩
  · exact if_neg (Ne.symm hq)
  · rfl

theorem ByProcess.requestOf_eq_none {p : ℕ} {e : HostEvent} (h : ByProcess p e) (k : ℕ) :
    requestOf k e = none := by
  rcases h with ⟨message, rfl⟩ | ⟨streamKey, rfl⟩ <;> rfl

/-- A statement panics, or it adds the first of the events and leaves the others to come. -/
theorem execute_cases (s : Host) (p : ℕ) {todo : List Statement} (h : todo ≠ []) :
    (Panics todo ∧ eventsOf p todo = [] ∧
      s.execute p todo = { s with procs := Function.update s.procs p .ended }) ∨
    ¬Panics todo ∧ ∃ file e rest, ByProcess p e ∧
      readStreamKey file = (storedKey e).or (readStreamKey s.file) ∧
      eventsOf p todo = e :: eventsOf p rest ∧ s.execute p todo = { s with
        file := file, procs := Function.update s.procs p (.starting rest),
        log := s.log ++ [e] } := by
  match todo, h with
  | .print streamKey :: rest, _ =>
    rw [execute, eventsOf]
    cases hprint : printStreamKey streamKey with
    | none => exact .inl ⟨hprint, rfl, rfl⟩
    | some message =>
      refine .inr ⟨fun hpanic => ?_, s.file, .printed p message, rest, .inl ⟨message, rfl⟩, rfl,
        rfl, rfl⟩
      replace hpanic : printStreamKey streamKey = none := hpanic
      rw [hprint] at hpanic
      cases hpanic
  | .write streamKey :: rest, _ =>
    exact .inr ⟨id, keyFile streamKey, .stored p streamKey, rest, .inr ⟨streamKey, rfl⟩,
      readStreamKey_keyFile streamKey, rfl, rfl⟩

variable (file : HashFile) (log : List HostEvent) (e : HostEvent)

theorem keyInForce_concat :
    keyInForce file (log ++ [e]) = (storedKey e).or (keyInForce file log) := by
  rw [keyInForce, List.filterMap_append]
  cases hkey : storedKey e with
  | none =>
    rw [List.filterMap_cons_none hkey, List.filterMap_nil, List.append_nil, Option.none_or,
      keyInForce]
  | some streamKey =>
    rw [List.filterMap_cons_some hkey, List.filterMap_nil, List.getLast?_concat, Option.some_or,
      Option.some_or]

theorem lastMessage_concat : lastMessage (log ++ [e]) = (message e).or (lastMessage log) := by
  rw [lastMessage, List.filterMap_append]
  cases hmessage : message e with
  | none =>
    rw [List.filterMap_cons_none hmessage, List.filterMap_nil, List.append_nil, Option.none_or,
      lastMessage]
  | some text =>
    rw [List.filterMap_cons_some hmessage, List.filterMap_nil, List.getLast?_concat,
      Option.some_or]

theorem messagesOf_concat (p : ℕ) :
    messagesOf (log ++ [e]) p = messagesOf log p ++ (messageOf p e).toList := by
  rw [messagesOf, List.filterMap_append]
  cases hmessage : messageOf p e with
  | none =>
    rw [List.filterMap_cons_none hmessage, messagesOf, Option.toList_none, List.filterMap_nil]
  | some text =>
    rw [List.filterMap_cons_some hmessage, messagesOf, Option.toList_some, List.filterMap_nil]

/-- An event that a view of the history leaves out, somewhere in the history. -/
theorem filterMap_insert {β : Type*} {f : HostEvent → Option β} {e : HostEvent} (he : f e = none)
    (after : List HostEvent) : (log ++ [e] ++ after).filterMap f = (log ++ after).filterMap f := by
  rw [List.append_assoc, List.singleton_append, List.filterMap_append, List.filterMap_append,
    List.filterMap_cons_none he]

theorem requestsOf_concat {e : HostEvent} (he : ∀ k, requestOf k e = none) (k : ℕ) :
    requestsOf (log ++ [e]) k = requestsOf log k := by
  have hinsert := filterMap_insert log (he k) []
  rwa [List.append_nil, List.append_nil] at hinsert

theorem requestsOf_concat_taken (k : ℕ) (c : FtlCommand) (payload : Challenge)
    (reply : Option Reply) (j : ℕ) : requestsOf (log ++ [.taken k c payload reply]) j =
      if k = j then requestsOf log j ++ [(c, payload)] else requestsOf log j := by
  rw [requestsOf, List.filterMap_append]
  by_cases hkj : k = j
  · have hnew : requestOf j (.taken k c payload reply) = some (c, payload) := if_pos hkj
    rw [if_pos hkj, List.filterMap_cons_some hnew, List.filterMap_nil, requestsOf]
  · have hnew : requestOf j (.taken k c payload reply) = none := if_neg hkj
    rw [if_neg hkj, List.filterMap_cons_none hnew, List.filterMap_nil, List.append_nil, requestsOf]

/-- A task step adds nothing to what is seen of the processes. -/
theorem filterMap_entries {β : Type*} {f : HostEvent → Option β}
    (hf : ∀ k c payload reply, f (.taken k c payload reply) = none) (H : Hmac)
    (rng : ℕ → ℕ → Challenge) (s : Host) (k : ℕ) (l : Tasks.Label) (after : List HostEvent) :
    (s.log ++ s.entries H rng k l ++ after).filterMap f = (s.log ++ after).filterMap f := by
  cases l with
  | commandRecv c => exact filterMap_insert s.log (hf _ _ _ _) after
  | _ => rw [show s.entries H rng k _ = [] from rfl, List.append_nil]

/-- A key is printed and written, in either order. -/
theorem seen_of_both {p : ℕ} {text : Text} {events : List HostEvent}
    (h : events = [.printed p (keyMessage text), .stored p (Utf8.encode text)] ∨
      events = [.stored p (Utf8.encode text), .printed p (keyMessage text)]) :
    messagesOf (log ++ events) p = messagesOf log p ++ [keyMessage text] ∧
      lastMessage (log ++ events) = some (keyMessage text) ∧
      keyInForce file (log ++ events) = some (Utf8.encode text) := by
  rcases h with rfl | rfl
  · rw [List.append_cons log]
    simp only [messagesOf_concat, lastMessage_concat, keyInForce_concat]
    simp [messageOf, message, storedKey]
  · rw [List.append_cons log]
    simp only [messagesOf_concat, lastMessage_concat, keyInForce_concat]
    simp [messageOf, message, storedKey]

/-- A startup that does not panic prints its key once, and then or before it is the key in force. -/
theorem events_startup {file' : HashFile} (hfile : readStreamKey file' = keyInForce file log)
    (streamKeyEnv : Option Text) (sample : KeySample) {todo : List Statement}
    (htodo : (startup streamKeyEnv sample file').statements = todo) (p : ℕ) :
    todo ≠ [] ∧ (Panics todo ∧ eventsOf p todo = [] ∨
      ∃ text, messagesOf (log ++ eventsOf p todo) p = messagesOf log p ++ [keyMessage text] ∧
        lastMessage (log ++ eventsOf p todo) = some (keyMessage text) ∧
        keyInForce file (log ++ eventsOf p todo) = some (Utf8.encode text)) := by
  subst htodo
  rcases startup_cases streamKeyEnv sample file' with
    ⟨text, _, rfl, heq⟩ | ⟨streamKey, hkey, heq⟩
  · have hevents : eventsOf p (startup streamKeyEnv sample file').statements =
          [.printed p (keyMessage text), .stored p (Utf8.encode text)] ∨
        eventsOf p (startup streamKeyEnv sample file').statements =
          [.stored p (Utf8.encode text), .printed p (keyMessage text)] := by
      refine heq.imp (fun heq => ?_) fun heq => ?_
      · simp only [heq, eventsOf, printStreamKey_encode]
      · simp only [heq, eventsOf, printStreamKey_encode]
    refine ⟨?_, .inr ⟨text, seen_of_both file log hevents⟩⟩
    rcases heq with heq | heq
    · rw [heq]
      exact List.cons_ne_nil _ _
    · rw [heq]
      exact List.cons_ne_nil _ _
  · rw [heq]
    refine ⟨List.cons_ne_nil _ _, ?_⟩
    cases hprint : printStreamKey streamKey with
    | none =>
      refine .inl ⟨hprint, ?_⟩
      simp only [eventsOf, hprint]
    | some m =>
      obtain ⟨text, rfl, rfl⟩ := printStreamKey_eq_some_iff.mp hprint
      refine .inr ⟨text, ?_⟩
      rw [hkey] at hfile
      simp only [eventsOf, hprint, messagesOf_concat, lastMessage_concat, keyInForce_concat,
        ← hfile]
      simp [messageOf, message, storedKey]

end Startup

/-! ## Every run -/

section Runs

/-- A `CONNECT` is answered exactly if it presents the tag of the last challenge of its connection
under the key in force. -/
def Verified (H : Hmac) (file : HashFile) (before : List HostEvent) : HostEvent → Prop
  | .taken k (.connect data) _ reply => reply = some ["200\n".toList] ↔
    ∃ streamKey, keyInForce file before = some streamKey ∧
      presented data = some (H.sign streamKey (challengeOf before k))
  | _ => True

/-- Process `p` has printed one key, once. -/
def Printed (p : ℕ) (log : List HostEvent) : Prop :=
  ∃ text, messagesOf log p = [keyMessage text]

structure Inv (H : Hmac) (file : HashFile) (s : Host) : Prop where
  fresh : ∀ p, s.started ≤ p → s.procs p = .ended ∧ messagesOf s.log p = []
  prints : ∀ p, s.procs p ≠ .ended → InTheEnd (Printed p) s.log p (s.procs p).todo
  key : readStreamKey s.file = keyInForce file s.log
  accepted : ∀ k, s.accepted ≤ k → requestsOf s.log k = []
  challenge : ∀ k < s.accepted,
    (s.conns k).conn.hmacPayload = (lastChallenge (requestsOf s.log k)).map generateHmac
  verified : Historically (Verified H file) s.log

theorem inv_init : Inv H file (init file) where
  fresh _ _ := ⟨rfl, rfl⟩
  prints _ hp := absurd rfl hp
  key := rfl
  accepted _ _ := rfl
  challenge k hk := absurd hk (Nat.not_lt_zero k)
  verified := historically_nil

theorem ne_ended_of_todo {p : ℕ} (h : (s.procs p).todo ≠ []) : s.procs p ≠ .ended := by
  intro hended
  rw [hended] at h
  exact h rfl

theorem Inv.lt_started (h : Inv H file s) {p : ℕ} (hp : s.procs p ≠ .ended) : p < s.started := by
  by_contra hge
  exact hp (h.fresh p (Nat.le_of_not_lt hge)).1

/-- A process in its loop has printed its key. -/
theorem Inv.printed (h : Inv H file s) {p : ℕ} (hp : s.procs p = .serving) :
    Printed p s.log := by
  have hprints := h.prints p
  rw [hp] at hprints
  exact inTheEnd_nil.mp (hprints (by simp))

theorem Inv.next_start (h : Inv H file s) (rng : ℕ → ℕ → Challenge) (streamKeyEnv : Option Text)
    (sample : KeySample) : Inv H file (s.next H rng (.start streamKeyEnv sample)) := by
  refine ⟨fun p hp => ?_, fun p hp => ?_, h.key, h.accepted, h.challenge, h.verified⟩
  · have hne : p ≠ s.started := Nat.ne_of_gt hp
    exact ⟨(Function.update_of_ne hne _ _).trans (h.fresh p (Nat.le_of_succ_le hp)).1,
      (h.fresh p (Nat.le_of_succ_le hp)).2⟩
  · replace hp : Function.update s.procs s.started _ p ≠ .ended := hp
    show InTheEnd (Printed p) s.log p (Function.update s.procs s.started _ p).todo
    by_cases hnew : p = s.started
    · subst hnew
      rw [Function.update_self]
      obtain ⟨-, ⟨hpanic, -⟩ | ⟨text, hmessages, -⟩⟩ :=
        events_startup file s.log h.key streamKeyEnv sample rfl s.started
      · exact .inl hpanic
      · refine .inr ⟨text, hmessages.trans ?_⟩
        rw [(h.fresh s.started (Nat.le_refl _)).2, List.nil_append]
    · rw [Function.update_of_ne hnew] at hp ⊢
      exact h.prints p hp

/-- A process ends, or passes from its startup to its loop. -/
theorem Inv.next_procs (h : Inv H file s) {p : ℕ} (hp : s.procs p ≠ .ended) {x : Process}
    (hx : x ≠ .ended → x.todo = (s.procs p).todo) :
    Inv H file { s with procs := Function.update s.procs p x } := by
  refine ⟨fun q hq => ?_, fun q hq => ?_, h.key, h.accepted, h.challenge, h.verified⟩
  · have hne : q ≠ p := Nat.ne_of_gt (Nat.lt_of_lt_of_le (h.lt_started hp) hq)
    exact ⟨(Function.update_of_ne hne _ _).trans (h.fresh q hq).1, (h.fresh q hq).2⟩
  · show InTheEnd (Printed q) s.log q (Function.update s.procs p x q).todo
    replace hq : Function.update s.procs p x q ≠ .ended := hq
    by_cases hqp : q = p
    · subst hqp
      rw [Function.update_self] at hq ⊢
      rw [hx hq]
      exact h.prints q hp
    · rw [Function.update_of_ne hqp] at hq ⊢
      exact h.prints q hq

theorem Inv.next_execute (h : Inv H file s) {p : ℕ} (hp : (s.procs p).todo ≠ []) :
    Inv H file (s.execute p (s.procs p).todo) := by
  have halive := ne_ended_of_todo hp
  rcases execute_cases s p hp with
    ⟨-, -, heq⟩ | ⟨hpanic, file', e, rest, he, hfile, hevents, heq⟩
  · rw [heq]
    exact h.next_procs halive fun hended => absurd rfl hended
  · rw [heq]
    have hother {q : ℕ} (hq : q ≠ p) : messagesOf (s.log ++ [e]) q = messagesOf s.log q := by
      rw [messagesOf_concat, he.messageOf_eq_none hq, Option.toList_none, List.append_nil]
    refine ⟨fun q hq => ?_, fun q hq => ?_, ?_, fun k hk => ?_, fun k hk => ?_, ?_⟩
    · have hne : q ≠ p := Nat.ne_of_gt (Nat.lt_of_lt_of_le (h.lt_started halive) hq)
      exact ⟨(Function.update_of_ne hne _ _).trans (h.fresh q hq).1,
        (hother hne).trans (h.fresh q hq).2⟩
    · show InTheEnd (Printed q) (s.log ++ [e]) q
        (Function.update s.procs p (.starting rest) q).todo
      replace hq : Function.update s.procs p (.starting rest) q ≠ .ended := hq
      by_cases hqp : q = p
      · subst hqp
        rw [Function.update_self]
        exact (h.prints q halive).execute hpanic hevents
      · rw [Function.update_of_ne hqp] at hq ⊢
        rw [InTheEnd, Printed, messagesOf, filterMap_insert s.log (he.messageOf_eq_none hqp)]
        exact h.prints q hq
    · rw [keyInForce_concat, ← h.key]
      exact hfile
    · rw [requestsOf_concat _ he.requestOf_eq_none]
      exact h.accepted k hk
    · rw [requestsOf_concat _ he.requestOf_eq_none]
      exact h.challenge k hk
    · refine historically_concat.mpr ⟨h.verified, ?_⟩
      rcases he with ⟨message, rfl⟩ | ⟨streamKey, rfl⟩ <;> trivial

/-- The state of a connection changes when its command task takes a command. -/
theorem conn_next (rng : ℕ → Challenge) (t : Tasks.State) {l : Tasks.Label}
    (hl : ∀ c, l ≠ .commandRecv c) : (Tasks.next H file rng t l).conn = t.conn := by
  cases l with
  | next o codec rest => cases o <;> rfl
  | commandRecv c => exact absurd rfl (hl c)
  | _ => rfl

theorem hmacPayload_process (H : Hmac) (file : HashFile) (rng : ℕ → Challenge)
    (t : Tasks.State) (c : FtlCommand) :
    (Tasks.process H file rng t c).conn.hmacPayload =
      if c = .hmac then some (generateHmac (rng t.taken)) else t.conn.hmacPayload := by
  cases htask : commandTask H file t.conn (c, rng t.taken) with
  | none =>
    have hc : c ≠ .hmac := by
      rintro rfl
      cases htask
    rw [Tasks.process_of_panic htask, if_neg hc]
  | some r =>
    obtain ⟨conn, reply⟩ := r
    rw [← commandTask_hmacPayload htask]
    cases reply with
    | none => rw [Tasks.process_of_silence htask]
    | some data => rw [Tasks.process_of_reply htask]

/-- What a `CONNECT` gets. -/
theorem connect_reply {msg : List UInt8} {conn : ConnectionState} {data : Data}
    {payload : Challenge} (hmsg : Hex.decode conn.getPayload = some msg) :
    (commandTask H file conn (.connect data, payload)).bind Prod.snd = some ["200\n".toList] ↔
      ∃ streamKey, readStreamKey file = some streamKey ∧
        presented data = some (H.sign streamKey msg) := by
  rw [Option.bind_eq_some_iff]
  constructor
  · rintro ⟨⟨conn', reply⟩, htask, hreply⟩
    replace hreply : reply = some ["200\n".toList] := hreply
    subst hreply
    obtain ⟨-, -, streamKey, msg', hkey, hmsg', hpresented⟩ := handleConnect_answered.mp htask
    obtain rfl := Option.some.inj (hmsg.symm.trans hmsg')
    exact ⟨streamKey, hkey, hpresented⟩
  · rintro ⟨streamKey, hkey, hpresented⟩
    exact ⟨(conn, some ["200\n".toList]), handleConnect_answered.mpr
      ⟨rfl, rfl, streamKey, msg, hkey, hmsg, hpresented⟩, rfl⟩

theorem decode_challenge {conn : ConnectionState} {challenge : Option Challenge}
    (h : conn.hmacPayload = challenge.map generateHmac) :
    Hex.decode conn.getPayload = some ((challenge.map Challenge.bytes).getD []) := by
  rw [ConnectionState.getPayload, h]
  cases challenge with
  | none => rfl
  | some payload => exact Hex.decode_encode payload.bytes

/-- What is seen of the processes is not changed by a task step. -/
theorem filterMap_log_task {β : Type*} {f : HostEvent → Option β}
    (hf : ∀ k c payload reply, f (.taken k c payload reply) = none) (k : ℕ) (l : Tasks.Label) :
    (s.next H rng (.task k l)).log.filterMap f = s.log.filterMap f := by
  have hentries := filterMap_entries hf H rng s k l []
  rwa [List.append_nil, List.append_nil] at hentries

theorem keyInForce_task (file : HashFile) (k : ℕ) (l : Tasks.Label) (after : List HostEvent) :
    keyInForce file ((s.next H rng (.task k l)).log ++ after) =
      keyInForce file (s.log ++ after) := by
  rw [keyInForce]
  show (List.filterMap _ (s.log ++ s.entries H rng k l ++ after)).getLast?.or _ = _
  rw [filterMap_entries fun _ _ _ _ => rfl, keyInForce]

theorem messagesOf_task (k : ℕ) (l : Tasks.Label) (p : ℕ) :
    messagesOf (s.next H rng (.task k l)).log p = messagesOf s.log p :=
  filterMap_log_task (fun _ _ _ _ => rfl) k l

/-- A command is taken on connection `k`. -/
theorem Inv.challenge_commandRecv {k : ℕ} {c : FtlCommand} (h : Inv H file s)
    (hk : k < s.accepted) (j : ℕ) (hj : j < s.accepted) :
    ((s.next H rng (.task k (.commandRecv c))).conns j).conn.hmacPayload =
      (lastChallenge (requestsOf (s.next H rng (.task k (.commandRecv c))).log j)).map
        generateHmac := by
  show (Function.update s.conns k (Tasks.next H s.file (rng k) (s.conns k) (.commandRecv c))
    j).conn.hmacPayload = (lastChallenge (requestsOf (s.log ++ [.taken k c _ _]) j)).map
      generateHmac
  rw [requestsOf_concat_taken]
  by_cases hkj : k = j
  · subst hkj
    have hprocess := hmacPayload_process H s.file (rng k)
      { s.conns k with toConn := (s.conns k).toConn.tail } c
    rw [if_pos rfl, Function.update_self, lastChallenge_concat]
    apply hprocess.trans
    split
    · rfl
    · exact h.challenge k hk
  · rw [if_neg hkj, Function.update_of_ne (Ne.symm hkj)]
    exact h.challenge j hj

/-- Any other step of the tasks of connection `k`. -/
theorem log_task {k : ℕ} {l : Tasks.Label} (hl : ∀ c, l ≠ .commandRecv c) :
    (s.next H rng (.task k l)).log = s.log := by
  have hentries : s.entries H rng k l = [] := by
    cases l with
    | commandRecv c => exact absurd rfl (hl c)
    | _ => rfl
  show s.log ++ s.entries H rng k l = s.log
  rw [hentries, List.append_nil]

theorem Inv.next_task (h : Inv H file s) {k : ℕ} {l : Tasks.Label} (hk : k < s.accepted) :
    Inv H file (s.next H rng (.task k l)) := by
  refine ⟨fun p hp => ?_, fun p hp => ?_, ?_, fun j hj => ?_, fun j hj => ?_, ?_⟩
  · rw [messagesOf_task]
    exact h.fresh p hp
  · refine (h.prints p hp).imp id fun ⟨text, htext⟩ => ⟨text, ?_⟩
    exact (filterMap_entries (fun _ _ _ _ => rfl) H rng s k l _).trans htext
  · have hkey : keyInForce file ((s.next H rng (.task k l)).log ++ []) =
        keyInForce file (s.log ++ []) := keyInForce_task file k l []
    rw [List.append_nil, List.append_nil] at hkey
    exact h.key.trans hkey.symm
  · have hkj : k ≠ j := Nat.ne_of_lt (Nat.lt_of_lt_of_le hk hj)
    cases l with
    | commandRecv c =>
      show requestsOf (s.log ++ [.taken k c _ _]) j = []
      rw [requestsOf_concat_taken, if_neg hkj]
      exact h.accepted j hj
    | _ =>
      rw [log_task fun c hc => by cases hc]
      exact h.accepted j hj
  · by_cases hl : ∃ c, l = .commandRecv c
    · obtain ⟨c, rfl⟩ := hl
      exact h.challenge_commandRecv hk j hj
    · have hl' : ∀ c, l ≠ .commandRecv c := fun c hc => hl ⟨c, hc⟩
      rw [log_task hl', ← h.challenge j hj]
      show (Function.update s.conns k _ j).conn.hmacPayload = _
      by_cases hkj : j = k
      · subst hkj
        rw [Function.update_self, conn_next (rng j) (s.conns j) hl']
      · rw [Function.update_of_ne hkj]
  · cases l with
    | commandRecv c =>
      refine historically_concat.mpr ⟨h.verified, ?_⟩
      cases c with
      | connect data =>
        apply (connect_reply (decode_challenge (h.challenge k hk))).trans
        rw [h.key]
        rfl
      | _ => trivial
    | _ =>
      rw [log_task fun c hc => by cases hc]
      exact h.verified

theorem Inv.next_accept (h : Inv H file s) (rng : ℕ → ℕ → Challenge) (p : ℕ) :
    Inv H file (s.next H rng (.accept p)) := by
  refine ⟨h.fresh, h.prints, h.key, fun k hk => h.accepted k (Nat.le_of_succ_le hk),
    fun k hk => ?_, h.verified⟩
  show (Function.update s.conns s.accepted Tasks.init k).conn.hmacPayload = _
  by_cases hnew : k = s.accepted
  · subst hnew
    rw [Function.update_self]
    show none = (lastChallenge (requestsOf s.log s.accepted)).map generateHmac
    rw [h.accepted s.accepted (Nat.le_refl _)]
    rfl
  · rw [Function.update_of_ne hnew]
    exact h.challenge k (Nat.lt_of_le_of_ne (Nat.le_of_lt_succ hk) hnew)

theorem inv_of_reachable (h : (host H rng file).Reachable s) : Inv H file s := by
  refine h.invariant inv_init ?_
  intro s l _ hi _ hg
  cases l with
  | start streamKeyEnv sample => exact hi.next_start rng streamKeyEnv sample
  | execute p => exact hi.next_execute hg
  | bind p bound =>
    replace hg : s.procs p = .starting [] := hg
    refine hi.next_procs (by rw [hg]; simp) fun _ => ?_
    rw [hg]
    cases bound <;> rfl
  | exit p => exact hi.next_procs hg fun hended => absurd rfl hended
  | accept p => exact hi.next_accept rng p
  | task k l => exact hi.next_task hg.1

end Runs

end Host

end Lightspeed.Ingest
