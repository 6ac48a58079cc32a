import Lightspeed.Ingest.Startups

/-!
# Connections that do not disturb each other

As long as no process runs when another starts, the key that a process has printed is in force for
all its life. Then every connection is served as if it were alone with that key, whatever the other
connections do (`served_alone`).
-/

namespace Lightspeed.Ingest.Host

open Tasks (tasks serve lines_prefix_serve)

variable {H : Hmac} {rng : ℕ → ℕ → Challenge} {file : HashFile} {s : Host}

/-- No process runs when another starts. -/
def Undisturbed (s : Host) : Label → Prop
  | .start .. => ∀ p, s.procs p = .ended
  | _ => True

theorem keyMessage_inj {key key' : Text} (h : keyMessage key = keyMessage key') : key = key' :=
  List.append_cancel_left (List.append_cancel_right h)

/-- Process `p` has printed one key, once, and it is in force. -/
def Installed (file : HashFile) (p : ℕ) (log : List HostEvent) : Prop :=
  ∃ text, messagesOf log p = [keyMessage text] ∧ keyInForce file log = some (Utf8.encode text)

structure Alone (H : Hmac) (rng : ℕ → ℕ → Challenge) (file : HashFile) (s : Host) : Prop where
  one : ∀ p q, s.procs p ≠ .ended → s.procs q ≠ .ended → p = q
  key : ∀ p, s.procs p ≠ .ended → InTheEnd (Installed file p) s.log p (s.procs p).todo
  booted : ∀ k < s.accepted, (s.procs (s.owner k)).todo = []
  served : ∀ k < s.accepted, ∃ text, messagesOf s.log (s.owner k) = [keyMessage text] ∧
    (tasks H (keyFile (Utf8.encode text)) (rng k)).Reachable (s.conns k)

theorem alone_init : Alone H rng file (init file) where
  one _ _ hp := absurd rfl hp
  key _ hp := absurd rfl hp
  booted k hk := absurd hk (Nat.not_lt_zero k)
  served k hk := absurd hk (Nat.not_lt_zero k)

/-- The key of a process in its loop is the one in force. -/
theorem Alone.installed (h : Alone H rng file s) {p : ℕ} (hp : s.procs p = .serving) :
    Installed file p s.log := by
  have hkey := h.key p
  rw [hp] at hkey
  exact inTheEnd_nil.mp (hkey (by simp))

theorem Alone.next_start (h : Alone H rng file s) (hinv : Inv H file s)
    (hquiet : ∀ p, s.procs p = .ended) (streamKeyEnv : Option Text) (sample : KeySample) :
    Alone H rng file (s.next H rng (.start streamKeyEnv sample)) := by
  have hnew {p : ℕ} (hp : (s.next H rng (.start streamKeyEnv sample)).procs p ≠ .ended) :
      p = s.started := by
    by_contra hne
    exact hp ((Function.update_of_ne hne _ _).trans (hquiet p))
  refine ⟨fun p q hp hq => (hnew hp).trans (hnew hq).symm, fun p hp => ?_, fun k hk => ?_,
    h.served⟩
  · obtain rfl := hnew hp
    show InTheEnd (Installed file s.started) s.log s.started
      (Function.update s.procs s.started _ s.started).todo
    rw [Function.update_self]
    obtain ⟨-, ⟨hpanic, -⟩ | ⟨text, hmessages, -, hkey⟩⟩ :=
      events_startup file s.log hinv.key streamKeyEnv sample rfl s.started
    · exact .inl hpanic
    · refine .inr ⟨text, hmessages.trans ?_, hkey⟩
      rw [(hinv.fresh s.started (Nat.le_refl _)).2, List.nil_append]
  · show (Function.update s.procs s.started _ (s.owner k)).todo = []
    have howner : s.owner k ≠ s.started := by
      intro heq
      obtain ⟨text, hmessages, -⟩ := h.served k hk
      rw [heq, (hinv.fresh s.started (Nat.le_refl _)).2] at hmessages
      cases hmessages
    rw [Function.update_of_ne howner]
    exact h.booted k hk

theorem Alone.next_procs (h : Alone H rng file s) {p : ℕ} (hp : s.procs p ≠ .ended) {x : Process}
    (hx : x ≠ .ended → x.todo = (s.procs p).todo) :
    Alone H rng file { s with procs := Function.update s.procs p x } := by
  have halive {q : ℕ} (hq : Function.update s.procs p x q ≠ .ended) :
      s.procs q ≠ .ended ∧ (Function.update s.procs p x q).todo = (s.procs q).todo := by
    by_cases hqp : q = p
    · subst hqp
      rw [Function.update_self] at hq ⊢
      exact ⟨hp, hx hq⟩
    · rw [Function.update_of_ne hqp] at hq ⊢
      exact ⟨hq, rfl⟩
  refine ⟨fun q r hq hr => h.one q r (halive hq).1 (halive hr).1, fun q hq => ?_, fun k hk => ?_,
    h.served⟩
  · show InTheEnd (Installed file q) s.log q (Function.update s.procs p x q).todo
    obtain ⟨hold, htodo⟩ := halive hq
    rw [htodo]
    exact h.key q hold
  · show (Function.update s.procs p x (s.owner k)).todo = []
    by_cases hended : Function.update s.procs p x (s.owner k) = .ended
    · rw [hended, Process.todo]
    · rw [(halive hended).2]
      exact h.booted k hk

theorem Alone.next_execute (h : Alone H rng file s) {p : ℕ} (hp : (s.procs p).todo ≠ []) :
    Alone H rng file (s.execute p (s.procs p).todo) := by
  have halive := ne_ended_of_todo hp
  rcases execute_cases s p hp with
    ⟨-, -, heq⟩ | ⟨hpanic, file', e, rest, he, -, hevents, heq⟩
  · rw [heq]
    exact h.next_procs halive fun hended => absurd rfl hended
  · rw [heq]
    have hold {q : ℕ} (hq : Function.update s.procs p (.starting rest) q ≠ .ended) : q = p := by
      by_contra hne
      rw [Function.update_of_ne hne] at hq
      exact hne (h.one q p hq halive)
    have howner {k : ℕ} (hk : k < s.accepted) : s.owner k ≠ p := by
      intro hkp
      rw [← hkp] at hp
      exact hp (h.booted k hk)
    refine ⟨fun q r hq hr => (hold hq).trans (hold hr).symm, fun q hq => ?_, fun k hk => ?_,
      fun k hk => ?_⟩
    · obtain rfl := hold hq
      show InTheEnd (Installed file q) (s.log ++ [e]) q
        (Function.update s.procs q (.starting rest) q).todo
      rw [Function.update_self]
      exact (h.key q halive).execute hpanic hevents
    · show (Function.update s.procs p (.starting rest) (s.owner k)).todo = []
      rw [Function.update_of_ne (howner hk)]
      exact h.booted k hk
    · obtain ⟨text, hmessages, hserved⟩ := h.served k hk
      refine ⟨text, ?_, hserved⟩
      rw [messagesOf_concat, he.messageOf_eq_none (howner hk), Option.toList_none, List.append_nil]
      exact hmessages

theorem Alone.next_accept (h : Alone H rng file s) {p : ℕ} (hp : s.procs p = .serving) :
    Alone H rng file (s.next H rng (.accept p)) := by
  refine ⟨h.one, h.key, fun k hk => ?_, fun k hk => ?_⟩
  · show (s.procs (Function.update s.owner s.accepted p k)).todo = []
    by_cases hnew : k = s.accepted
    · rw [hnew, Function.update_self, hp, Process.todo]
    · rw [Function.update_of_ne hnew]
      exact h.booted k (Nat.lt_of_le_of_ne (Nat.le_of_lt_succ hk) hnew)
  · show ∃ text, messagesOf s.log (Function.update s.owner s.accepted p k) = [keyMessage text] ∧
      (tasks H (keyFile (Utf8.encode text)) (rng k)).Reachable
        (Function.update s.conns s.accepted Tasks.init k)
    by_cases hnew : k = s.accepted
    · subst hnew
      obtain ⟨text, hmessages, -⟩ := h.installed hp
      rw [Function.update_self, Function.update_self]
      exact ⟨text, hmessages, Relation.ReflTransGen.refl⟩
    · rw [Function.update_of_ne hnew, Function.update_of_ne hnew]
      exact h.served k (Nat.lt_of_le_of_ne (Nat.le_of_lt_succ hk) hnew)

/-- The tasks look at the file for the key in it only. -/
theorem next_congr {file file' : HashFile} (hfile : readStreamKey file = readStreamKey file')
    (rng : ℕ → Challenge) (t : Tasks.State) (l : Tasks.Label) :
    Tasks.next H file rng t l = Tasks.next H file' rng t l := by
  have htask : commandTask H file = commandTask H file' := by
    funext conn request
    unfold commandTask handleCommand handleConnect
    rw [hfile]
  unfold Tasks.next Tasks.process
  rw [htask]

theorem Alone.next_task (h : Alone H rng file s) (hinv : Inv H file s) {k : ℕ} {l : Tasks.Label}
    (hg : s.Guard (.task k l)) : Alone H rng file (s.next H rng (.task k l)) := by
  obtain ⟨hk, hserving, hguard⟩ := hg
  refine ⟨h.one, fun p hp => ?_, h.booted, fun j hj => ?_⟩
  · refine (h.key p hp).imp id fun ⟨text, hmessages, hkey⟩ => ⟨text, ?_, ?_⟩
    · exact (filterMap_entries (fun _ _ _ _ => rfl) H rng s k l _).trans hmessages
    · exact (keyInForce_task file k l _).trans hkey
  · rw [messagesOf_task]
    obtain ⟨text, hmessages, hserved⟩ := h.served j hj
    refine ⟨text, hmessages, ?_⟩
    show (tasks H (keyFile (Utf8.encode text)) (rng j)).Reachable (Function.update s.conns k
      (Tasks.next H s.file (rng k) (s.conns k) l) j)
    by_cases hjk : j = k
    · subst hjk
      obtain ⟨text', hmessages', hkey⟩ := h.installed hserving
      rw [hmessages', List.singleton_inj] at hmessages
      obtain rfl := keyMessage_inj hmessages
      have hfile : readStreamKey s.file = readStreamKey (keyFile (Utf8.encode text')) := by
        rw [hinv.key, hkey, readStreamKey_keyFile]
      rw [Function.update_self, next_congr hfile]
      exact hserved.next trivial hguard
    · rw [Function.update_of_ne hjk]
      exact hserved

theorem alone_of_reachable (h : (host H rng file).ReachableWhen Undisturbed s) :
    Alone H rng file s := by
  refine h.invariant alone_init ?_
  intro s l hr hi hok hg
  have hinv := inv_of_reachable hr.reachable
  cases l with
  | start streamKeyEnv sample => exact hi.next_start hinv hok streamKeyEnv sample
  | execute p => exact hi.next_execute hg
  | bind p bound =>
    replace hg : s.procs p = .starting [] := hg
    refine hi.next_procs (by rw [hg]; simp) fun _ => ?_
    rw [hg]
    cases bound <;> rfl
  | exit p => exact hi.next_procs hg fun hended => absurd rfl hended
  | accept p => exact hi.next_accept hg
  | task k l => exact hi.next_task hinv hg

/-- **Connections do not disturb each other.** As long as no process runs when another starts:
whatever the other connections do, of this process or of the ones before, a connection is in a state
that it could be in alone with the key that its process has printed, and the lines that its client
has been sent are the first ones of the sequential server under that key. -/
theorem served_alone (h : (host H rng file).ReachableWhen Undisturbed s) {k : ℕ}
    (hk : k < s.accepted) : ∃ text, messagesOf s.log (s.owner k) = [keyMessage text] ∧
      (tasks H (keyFile (Utf8.encode text)) (rng k)).Reachable (s.conns k) ∧
      ∀ lines rest, Split [10] (s.conns k).bytesWritten lines rest →
        lines <+: linesOf (serve H (keyFile (Utf8.encode text)) (rng k) (s.conns k).input) := by
  obtain ⟨text, hmessages, hserved⟩ := (alone_of_reachable h).served k hk
  exact ⟨text, hmessages, hserved, fun lines rest hsplit => lines_prefix_serve hserved hsplit⟩

/-- A process ends and the next one has another key: its connections are served under that. -/
theorem served_alone_restarted : ∃ s,
    (host exampleHmac (fun _ _ => default) none).ReachableWhen Undisturbed s ∧
      s.procs 1 = .serving ∧ s.owner 1 = 1 ∧
        (tasks exampleHmac (keyFile (Utf8.encode "next".toList)) fun _ => default).Reachable
          (s.conns 1) := by
  let S := host exampleHmac (fun _ _ => default) none
  let first := (init none).booted (some exampleKey) exampleSample exampleFile true
  let stopped := S.next (S.next first (.accept 0)) (.exit 0)
  let nextFile := keyFile (Utf8.encode "next".toList)
  let second := stopped.booted (some "next".toList) exampleSample nextFile true
  have hfirst : S.Path Undisturbed (init none) first :=
    path_booted_env (by decide) exampleSample true (fun _ => rfl) fun _ => ⟨trivial, trivial⟩
  have haccepted : S.ReachableWhen Undisturbed (S.next first (.accept 0)) :=
    Lts.ReachableWhen.next hfirst trivial rfl
  have hstopped : S.ReachableWhen Undisturbed stopped :=
    haccepted.next trivial (by simp [S, host, Host.Guard, Host.next, first, booted, init])
  have hquiet : ∀ p, stopped.procs p = .ended := by
    intro p
    show Function.update (Function.update (fun _ => Process.ended) 0 .serving) 0 .ended p = .ended
    rw [Function.update_idem, Function.update_eq_self]
  have hsecond : S.Path Undisturbed stopped second :=
    path_booted_env (by decide) exampleSample true hquiet fun _ => ⟨trivial, trivial⟩
  have hserving : S.ReachableWhen Undisturbed (S.next second (.accept 1)) :=
    (hstopped.trans hsecond).next trivial rfl
  obtain ⟨text, hmessages, hserved, -⟩ := served_alone hserving Nat.one_lt_two
  obtain rfl : "next".toList = text := keyMessage_inj (List.singleton_inj.mp hmessages)
  exact ⟨_, hserving, rfl, rfl, hserved⟩

end Lightspeed.Ingest.Host
