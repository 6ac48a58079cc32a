import Lightspeed.Ingest.Main

/-!
# Startups on a host

Between the statements of a startup the key that was printed last need not be the one in force: a
key from the environment is printed before it is written, and a drawn one is written before it is
printed. As long as startups run one at a time and to their end, the two are the same whenever a
`CONNECT` is taken (`connect_verified`). It need not be the key of the process of the connection,
nor of one that got the port: the key is written before `bind` is tried (`key_replaced`).
-/

namespace Lightspeed.Ingest.Host

open Tasks (tasks)

variable {H : Hmac} {rng : ℕ → ℕ → Challenge} {file : HashFile} {s : Host}

/-! ## One startup at a time -/

/-- Startups do not overlap and run to their end, and no `CONNECT` is taken in the middle of one. -/
def Orderly (s : Host) : Label → Prop
  | .start .. => ∀ p, (s.procs p).todo = []
  | .exit p => (s.procs p).todo = []
  | .task _ (.commandRecv (.connect _)) => ∀ p, (s.procs p).todo = []
  | _ => True

/-- What was printed last is the key in force. -/
def Agreed (file : HashFile) (log : List HostEvent) : Prop :=
  ∃ text, lastMessage log = some (keyMessage text) ∧ keyInForce file log = some (Utf8.encode text)

/-- Nothing has been printed yet, or what was printed last is the key in force. -/
def Settled (file : HashFile) (log : List HostEvent) : Prop :=
  lastMessage log = none ∨ Agreed file log

/-- When a `CONNECT` is taken, the key in force is the one that was printed last. -/
def InPrint (file : HashFile) (before : List HostEvent) : HostEvent → Prop
  | .taken _ (.connect _) _ _ => Agreed file before
  | _ => True

structure InOrder (file : HashFile) (s : Host) : Prop where
  one : ∀ p q, (s.procs p).todo ≠ [] → (s.procs q).todo ≠ [] → p = q
  /-- When the startup that is under way, if any, will have come to its end. -/
  settled : ∀ p, (∀ q, q ≠ p → (s.procs q).todo = []) →
    Settled file (s.log ++ eventsOf p (s.procs p).todo)
  inPrint : Historically (InPrint file) s.log

theorem inOrder_init : InOrder file (init file) where
  one _ _ hp := absurd rfl hp
  settled _ _ := .inl rfl
  inPrint := historically_nil

/-- No startup is under way. -/
theorem InOrder.of_quiet (h : InOrder file s) (hquiet : ∀ p, (s.procs p).todo = []) :
    Settled file s.log := by
  have hsettled := h.settled 0 fun q _ => hquiet q
  rwa [hquiet 0, eventsOf, List.append_nil] at hsettled

theorem InOrder.next_start (h : InOrder file s) (hinv : Inv H file s) (rng : ℕ → ℕ → Challenge)
    (hquiet : ∀ p, (s.procs p).todo = []) (streamKeyEnv : Option Text) (sample : KeySample) :
    InOrder file (s.next H rng (.start streamKeyEnv sample)) := by
  obtain ⟨hne, hstartup⟩ := events_startup file s.log hinv.key streamKeyEnv sample rfl s.started
  have htodo {p : ℕ} (hp : p ≠ s.started) :
      ((s.next H rng (.start streamKeyEnv sample)).procs p).todo = [] := by
    rw [← hquiet p]
    exact congrArg Process.todo (Function.update_of_ne hp _ _)
  have hnew : ((s.next H rng (.start streamKeyEnv sample)).procs s.started).todo =
      (startup streamKeyEnv sample s.file).statements := by
    show (Function.update s.procs s.started _ s.started).todo = _
    rw [Function.update_self, Process.todo]
  refine ⟨fun p q hp hq => ?_, fun p hothers => ?_, h.inPrint⟩
  · rw [of_not_not fun hne => hp (htodo hne), of_not_not fun hne => hq (htodo hne)]
  · by_cases hp : p = s.started
    · subst hp
      rw [hnew]
      rcases hstartup with ⟨-, hevents⟩ | ⟨text, -, hlast, hkey⟩
      · rw [hevents, List.append_nil]
        exact h.of_quiet hquiet
      · exact .inr ⟨text, hlast, hkey⟩
    · have hnil := hothers s.started (Ne.symm hp)
      rw [hnew] at hnil
      exact absurd hnil hne

theorem InOrder.next_execute (h : InOrder file s) {p : ℕ} (hp : (s.procs p).todo ≠ []) :
    InOrder file (s.execute p (s.procs p).todo) := by
  have hidle {q : ℕ} (hq : q ≠ p) : (s.procs q).todo = [] := by
    by_contra hne
    exact hq (h.one q p hne hp)
  have hsettled := h.settled p fun q hq => hidle hq
  obtain ⟨x, file', after, heq, hlog, hprint⟩ : ∃ x file' after,
      s.execute p (s.procs p).todo = { s with
        file := file', procs := Function.update s.procs p x, log := s.log ++ after } ∧
      s.log ++ eventsOf p (s.procs p).todo = s.log ++ after ++ eventsOf p x.todo ∧
      Historically (InPrint file) (s.log ++ after) := by
    rcases execute_cases s p hp with ⟨-, hevents, heq⟩ | ⟨-, file', e, rest, he, -, hevents, heq⟩
    · refine ⟨.ended, s.file, [], ?_, ?_, ?_⟩
      · rw [heq, List.append_nil]
      · rw [hevents, List.append_nil]
        exact (List.append_nil s.log).symm
      · rw [List.append_nil]
        exact h.inPrint
    · refine ⟨.starting rest, file', [e], heq, ?_, historically_concat.mpr ⟨h.inPrint, ?_⟩⟩
      · rw [hevents, List.append_assoc]
        rfl
      · rcases he with ⟨message, rfl⟩ | ⟨streamKey, rfl⟩ <;> trivial
  rw [heq]
  rw [hlog] at hsettled
  have hself : (Function.update s.procs p x p).todo = x.todo :=
    congrArg Process.todo (Function.update_self _ _ _)
  have hother {q : ℕ} (hq : q ≠ p) : (Function.update s.procs p x q).todo = [] := by
    rw [Function.update_of_ne hq]
    exact hidle hq
  refine ⟨fun q r hq hr => ?_, fun q hothers => ?_, hprint⟩
  · rw [of_not_not fun hne => hq (hother hne), of_not_not fun hne => hr (hother hne)]
  · show Settled file (s.log ++ after ++ eventsOf q (Function.update s.procs p x q).todo)
    by_cases hqp : q = p
    · subst hqp
      rw [hself]
      exact hsettled
    · have hnil : x.todo = [] := hself ▸ hothers p (Ne.symm hqp)
      rw [hother hqp]
      rwa [hnil] at hsettled

/-- A process that is not in the middle of its startup ends or goes on. -/
theorem InOrder.next_procs (h : InOrder file s) {p : ℕ} (hp : (s.procs p).todo = []) {x : Process}
    (hx : x.todo = []) : InOrder file { s with procs := Function.update s.procs p x } := by
  have htodo (q : ℕ) : (Function.update s.procs p x q).todo = (s.procs q).todo := by
    by_cases hqp : q = p
    · subst hqp
      rw [Function.update_self, hx, hp]
    · rw [Function.update_of_ne hqp]
  refine ⟨fun q r => ?_, fun q hothers => ?_, h.inPrint⟩
  · show (Function.update s.procs p x q).todo ≠ [] → (Function.update s.procs p x r).todo ≠ [] → _
    rw [htodo, htodo]
    exact h.one q r
  · show Settled file (s.log ++ eventsOf q (Function.update s.procs p x q).todo)
    rw [htodo]
    exact h.settled q fun r hr => (htodo r).symm.trans (hothers r hr)

theorem InOrder.next_task (h : InOrder file s) (hinv : Inv H file s) {k : ℕ} {l : Tasks.Label}
    (hok : s.Orderly (.task k l)) (hg : s.Guard (.task k l)) :
    InOrder file (s.next H rng (.task k l)) := by
  refine ⟨h.one, fun p hothers => ?_, ?_⟩
  · have hlast : lastMessage ((s.next H rng (.task k l)).log ++ eventsOf p (s.procs p).todo) =
        lastMessage (s.log ++ eventsOf p (s.procs p).todo) :=
      congrArg List.getLast? (filterMap_entries (fun _ _ _ _ => rfl) H rng s k l _)
    have hkey : keyInForce file ((s.next H rng (.task k l)).log ++ eventsOf p (s.procs p).todo) =
        keyInForce file (s.log ++ eventsOf p (s.procs p).todo) := keyInForce_task file k l _
    show Settled file ((s.next H rng (.task k l)).log ++ eventsOf p (s.procs p).todo)
    rw [Settled, Agreed, hlast, hkey]
    exact h.settled p hothers
  · cases l with
    | commandRecv c =>
      refine historically_concat.mpr ⟨h.inPrint, ?_⟩
      cases c with
      | connect data =>
        -- the process of the connection has printed a key, so that there is a last message
        obtain ⟨text, htext⟩ := hinv.printed hg.2.1
        refine (h.of_quiet hok).resolve_left fun hnone => ?_
        have hmem : keyMessage text ∈ messagesOf s.log (s.owner k) := by
          rw [htext]
          exact List.mem_singleton_self _
        obtain ⟨e, he, hmessage⟩ := List.mem_filterMap.mp hmem
        have hprinted : message e = some (keyMessage text) := by
          cases e with
          | printed q m =>
            rw [messageOf] at hmessage
            split at hmessage
            · exact hmessage
            · cases hmessage
          | _ => cases hmessage
        have hall := List.mem_filterMap.mpr ⟨e, he, hprinted⟩
        rw [List.getLast?_eq_none_iff.mp hnone] at hall
        cases hall
      | _ => trivial
    | _ =>
      rw [log_task fun c hc => by cases hc]
      exact h.inPrint

theorem inOrder_of_reachable (h : (host H rng file).ReachableWhen Orderly s) :
    InOrder file s := by
  refine h.invariant inOrder_init ?_
  intro s l hr hi hok hg
  have hinv := inv_of_reachable hr.reachable
  cases l with
  | start streamKeyEnv sample => exact hi.next_start hinv rng hok streamKeyEnv sample
  | execute p => exact hi.next_execute hg
  | bind p bound =>
    replace hg : s.procs p = .starting [] := hg
    refine hi.next_procs (by rw [hg]; rfl) ?_
    cases bound <;> rfl
  | exit p => exact hi.next_procs hok rfl
  | accept p => exact ⟨hi.one, hi.settled, hi.inPrint⟩
  | task k l => exact hi.next_task hinv hok hg

/-! ## What a host lets in -/

/-- **What a host lets in.** Processes start and end in any order, with any keys in their
environments and with or without getting the port; their startups go on statement by statement, and
their connections take steps in any order. A `CONNECT` on any of them is answered exactly if it
presents the tag, under the key in force, of the last challenge that was issued on the same
connection, or of the empty message if none was. As long as startups do not overlap and run to
their end and no `CONNECT` is taken in the middle of one, that key is the one which was printed
last. -/
theorem connect_verified (h : (host H rng file).Reachable s) :
    Historically (Verified H file) s.log ∧
      ((host H rng file).ReachableWhen Orderly s → Historically (InPrint file) s.log) :=
  ⟨(inv_of_reachable h).verified, fun horder => (inOrder_of_reachable horder).inPrint⟩

/-- A startup left to itself executes its statements. -/
theorem path_execute {ok : Host → Label → Prop} {p : ℕ} (hok : ∀ t, ok t (.execute p))
    {todo : List Statement} {file' : HashFile} {printed : List Text}
    (hp : s.procs p = .starting todo)
    (hrun : runStatements s.file todo = some (file', printed)) :
    (host H rng file).Path ok s { s with
      file := file', procs := Function.update s.procs p (.starting []),
      log := s.log ++ eventsOf p todo } := by
  induction todo generalizing s printed with
  | nil =>
    obtain ⟨rfl, -⟩ := Prod.mk.inj (Option.some.inj hrun)
    rw [← hp, Function.update_eq_self, eventsOf, List.append_nil]
    exact Relation.ReflTransGen.refl
  | cons statement rest ih =>
    have hen : (host H rng file).Enabled s (.execute p) := by
      show (s.procs p).todo ≠ []
      rw [hp]
      exact List.cons_ne_nil _ _
    have hfirst : (host H rng file).Path ok s (s.execute p (statement :: rest)) := by
      have hstep := Lts.Path.single (hok s) hen
      rwa [show (host H rng file).next s (.execute p) = s.execute p (s.procs p).todo from rfl,
        hp] at hstep
    cases statement with
    | print streamKey =>
      rw [runStatements, Option.bind_eq_bind, Option.bind_eq_some_iff] at hrun
      obtain ⟨message, hprint, hrun⟩ := hrun
      rw [Option.bind_eq_bind, Option.bind_eq_some_iff] at hrun
      obtain ⟨⟨file'', more⟩, hrun, heq⟩ := hrun
      obtain ⟨rfl, -⟩ := Prod.mk.inj (Option.some.inj heq)
      simp only [execute, hprint] at hfirst
      refine hfirst.trans ?_
      have hrest := ih (s := { s with
        procs := Function.update s.procs p (.starting rest),
        log := s.log ++ [.printed p message] }) (Function.update_self _ _ _) hrun
      simp only [Function.update_idem, List.append_assoc, List.singleton_append] at hrest
      simp only [eventsOf, hprint]
      exact hrest
    | write streamKey =>
      refine hfirst.trans ?_
      have hrest := ih (s := { s with
        file := keyFile streamKey, procs := Function.update s.procs p (.starting rest),
        log := s.log ++ [.stored p streamKey] }) (Function.update_self _ _ _) hrun
      simp only [Function.update_idem, List.append_assoc, List.singleton_append] at hrest
      exact hrest

/-- The host after a startup that was left to itself. -/
def booted (s : Host) (streamKeyEnv : Option Text) (sample : KeySample) (file : HashFile)
    (bound : Bool) : Host :=
  { s with
    file := file
    started := s.started + 1
    procs := Function.update s.procs s.started (if bound then .serving else .ended)
    log := s.log ++ eventsOf s.started (startup streamKeyEnv sample s.file).statements }

/-- Left to itself, a startup does what `readStreamKeyStartup` says. -/
theorem path_booted {ok : Host → Label → Prop} {streamKeyEnv : Option Text} {sample : KeySample}
    {r : Started} (hstart : readStreamKeyStartup streamKeyEnv sample s.file = some r) (bound : Bool)
    (hfirst : ok s (.start streamKeyEnv sample))
    (hok : ∀ t, ok t (.execute s.started) ∧ ok t (.bind s.started bound)) :
    (host H rng file).Path ok s (s.booted streamKeyEnv sample r.file bound) := by
  rw [readStreamKeyStartup, Option.map_eq_some_iff] at hstart
  obtain ⟨⟨file', printed⟩, hrun, rfl⟩ := hstart
  have hen : (host H rng file).Enabled s (.start streamKeyEnv sample) := trivial
  have hexecuted : (host H rng file).Path ok s { s with
      file := file'
      started := s.started + 1
      procs := Function.update (Function.update s.procs s.started (.starting _)) s.started
        (.starting [])
      log := s.log ++ eventsOf s.started (startup streamKeyEnv sample s.file).statements } :=
    Relation.ReflTransGen.trans (Lts.Path.single hfirst hen)
      (path_execute (fun t => (hok t).1) (Function.update_self _ _ _) hrun)
  have hbound := hexecuted.next (hok _).2 (Function.update_self s.started _ _)
  simp only [host, next, Function.update_idem] at hbound
  exact hbound

/-- A startup with a key in the environment. -/
theorem path_booted_env {ok : Host → Label → Prop} {streamKey : Text} (hne : streamKey ≠ [])
    (sample : KeySample) (bound : Bool) (hfirst : ok s (.start (some streamKey) sample))
    (hok : ∀ t, ok t (.execute s.started) ∧ ok t (.bind s.started bound)) :
    (host H rng file).Path ok s
      (s.booted (some streamKey) sample (keyFile (Utf8.encode streamKey)) bound) :=
  path_booted (readStreamKeyStartup_env streamKey hne sample s.file) bound hfirst hok

/-- A client that never asks for a challenge: the tag of the empty message does, under the key that
the only startup has printed. -/
theorem connect_verified_unasked : ∃ s before data payload,
    (host exampleHmac (fun _ _ => default) none).ReachableWhen Orderly s ∧
      s.log = before ++ [.taken 0 (.connect data) payload (some ["200\n".toList])] ∧
      (∃ streamKey, keyInForce none before = some streamKey ∧
        presented data = some (exampleHmac.sign streamKey [])) ∧ Agreed none before := by
  let line := connectLine ⟨"77".toList, by decide⟩ emptyTag
  let data := FtlCodec.connectData "77".toList (Hex.encode emptyTag)
  have hdecode : FtlCodec.new.decode (FtlCodec.wire line.text) =
      some (.command (.connect data), .new, []) := by
    have hwire := FtlCodec.decode_wire .new line.framed []
    rwa [List.append_nil, line.parse_eq] at hwire
  let S := host exampleHmac (fun _ _ => default) none
  let started := (init none).booted (some exampleKey) exampleSample exampleFile true
  have hstarted : S.Path Orderly (init none) started :=
    path_booted_env (by decide) exampleSample true (fun _ => rfl) fun _ => ⟨trivial, trivial⟩
  have haccepted : S.ReachableWhen Orderly (S.next started (.accept 0)) :=
    Lts.ReachableWhen.next hstarted trivial rfl
  have step {s : Host} {l : Tasks.Label} (hs : S.ReachableWhen Orderly s)
      (hok : s.Orderly (.task 0 l)) (hk : 0 < s.accepted) (hp : s.procs (s.owner 0) = .serving)
      (hg : Tasks.Guard (s.conns 0) l) : S.ReachableWhen Orderly (S.next s (.task 0 l)) :=
    hs.next hok ⟨hk, hp, hg⟩
  have hreceived := step (l := .receive (FtlCodec.wire line.text)) haccepted trivial Nat.one_pos
    rfl ⟨rfl, rfl⟩
  have hdecoded := step (l := .next (.command (.connect data)) .new []) hreceived trivial
    Nat.one_pos rfl ⟨rfl, hdecode⟩
  have hsent := step (l := .sendCommand (.connect data)) hdecoded trivial Nat.one_pos rfl
    ⟨rfl, rfl, by decide⟩
  have hquiet : ∀ p, (started.procs p).todo = [] := by
    intro p
    show (Function.update (fun _ => Process.ended) 0 .serving p).todo = []
    by_cases hp : p = 0
    · rw [hp, Function.update_self, Process.todo]
    · rw [Function.update_of_ne hp, Process.todo]
  have htaken := step (l := .commandRecv (.connect data)) hsent hquiet Nat.one_pos rfl ⟨rfl, rfl⟩
  have hempty : Hex.decode ConnectionState.new.getPayload = some [] := rfl
  have hreply : (commandTask exampleHmac exampleFile .new (.connect data, default)).bind Prod.snd =
      some ["200\n".toList] :=
    (connect_reply hempty).mpr ⟨_, readStreamKey_keyFile _, presented_connectWith emptyTag⟩
  obtain ⟨hverified, hprinted⟩ := connect_verified htaken.reachable
  refine ⟨_, started.log, data, default, htaken, ?_, (hverified _ _ [] rfl).mp hreply,
    hprinted htaken _ _ [] rfl⟩
  rw [← hreply]
  rfl

/-- **A key can be replaced under a running process.** A startup with a key in the environment that
does not get the port leaves the process that has it running, under the new key. -/
theorem key_replaced (h : (host H rng file).Reachable s) {p : ℕ} (hp : s.procs p = .serving)
    {streamKey : Text} (hne : streamKey ≠ []) (sample : KeySample) : ∃ t,
      (host H rng file).Reachable t ∧ t.procs p = .serving ∧ t.conns = s.conns ∧
        keyInForce file t.log = some (Utf8.encode streamKey) := by
  have hlt : p < s.started := (inv_of_reachable h).lt_started (by rw [hp]; simp)
  have ht := h.trans (path_booted_env hne sample false trivial fun _ => ⟨trivial, trivial⟩)
  refine ⟨_, ht, ?_, rfl, ?_⟩
  · show Function.update s.procs s.started .ended p = .serving
    rwa [Function.update_of_ne (Nat.ne_of_lt hlt)]
  · rw [← (inv_of_reachable ht).key]
    exact readStreamKey_keyFile _

end Lightspeed.Ingest.Host
