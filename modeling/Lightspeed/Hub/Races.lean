import Lightspeed.Hub.Sending

/-!
# Nobody races for the map

`Clients` is a plain Go map, so that a goroutine that writes it while another one uses it breaks
the program. `Label.access` says which steps use it; all others neither change it nor depend on it
(`frame_of_no_access`). In every reachable state a write is about to happen only with the write lock
held and nobody inside, a read only inside the read lock (`Guarded`), so that no two accesses
conflict, and what a reader has seen of the map is true until it leaves (`clients_guarded`).
-/

namespace Lightspeed.Hub

/-! ## Accesses -/

inductive Access
  | read
  | write
deriving DecidableEq

/-- The goroutine that uses `Clients` in the step, and how. -/
def Label.access : Label → Option (Reader × Access)
  | .registerInsert _ | .unregisterDelete _ => some (.run, .write)
  | .unregisterTest _ | .infoLen | .broadcastNext _ _ _ | .broadcastEnd _ _ => some (.run, .read)
  | .sendTest g _ _ => some (.sender g, .read)
  | _ => none

/-- Another map in place of `Clients`. -/
def State.withClients (s : State) (clients : Finset ClientId) : State :=
  { s with clients := clients }

/-- A step that is no access is possible or not, and does the same, whatever the map is. -/
theorem frame_of_no_access (s : State) {l : Label} (h : l.access = none)
    (clients : Finset ClientId) :
    (Enabled (s.withClients clients) l ↔ Enabled s l) ∧
      next (s.withClients clients) l = (next s l).withClients clients := by
  cases l with
  | registerInsert | unregisterDelete | unregisterTest | infoLen | broadcastNext | broadcastEnd
  | sendTest => cases h
  | marshalMessage c offerString ok => cases ok <;> exact ⟨Iff.rfl, rfl⟩
  | onConnectionStateChange k c p => cases p <;> exact ⟨Iff.rfl, rfl⟩
  | write c m ok => cases ok <;> exact ⟨Iff.rfl, rfl⟩
  | _ => exact ⟨Iff.rfl, rfl⟩

/-- Only a write changes the map. -/
theorem clients_next_of_not_write (s : State) {l : Label}
    (h : ∀ r, l.access ≠ some (r, .write)) : (next s l).clients = s.clients := by
  cases l with
  | registerInsert | unregisterDelete => exact absurd rfl (h .run)
  | marshalMessage c offerString ok => cases ok <;> rfl
  | onConnectionStateChange k c p => cases p <;> rfl
  | write c m ok => cases ok <;> rfl
  | _ => rfl

/-! ## The lock guards them -/

structure Guarded (s : State) : Prop where
  write : ∀ l r, Enabled s l → l.access = some (r, .write) →
    r = .run ∧ s.mutex.writer = .holding ∧ s.mutex.readers = ∅
  read : ∀ l r, Enabled s l → l.access = some (r, .read) → r ∈ s.mutex.readers

theorem guarded_of_reachable {s : State} (h : hub.Reachable s) : Guarded s := by
  have hlock := lockInv_of_reachable h
  have alone : s.run.writer = .holding → s.mutex.writer = .holding ∧ s.mutex.readers = ∅ :=
    fun hw => ⟨hlock.writer.trans hw, hlock.exclusive (hlock.writer.trans hw)⟩
  constructor
  · rintro l r ⟨-, hg⟩ haccess
    cases l with
    | registerInsert c =>
      rw [Guard] at hg
      cases haccess
      exact ⟨rfl, alone (by rw [hg]; rfl)⟩
    | unregisterDelete c =>
      rw [Guard] at hg
      cases haccess
      exact ⟨rfl, alone (by rw [hg]; rfl)⟩
    | _ => cases haccess
  · rintro l r ⟨-, hg⟩ haccess
    cases l with
    | unregisterTest | infoLen =>
      rw [Guard] at hg
      cases haccess
      exact hlock.run.mpr (by rw [hg]; rfl)
    | broadcastNext | broadcastEnd =>
      cases haccess
      exact hlock.run.mpr (by rw [hg.1]; rfl)
    | sendTest g c m =>
      rw [Guard] at hg
      cases haccess
      exact (hlock.sender g).mpr (by rw [hg]; rfl)
    | _ => cases haccess

/-- Two goroutines are about to use the map at the same time, one of them to change it. -/
def Racing (s : State) (l l' : Label) : Prop :=
  ∃ r r' a, r ≠ r' ∧ l.access = some (r, .write) ∧ l'.access = some (r', a) ∧
    Enabled s l ∧ Enabled s l'

theorem Guarded.not_racing {s : State} (h : Guarded s) (l l' : Label) : ¬Racing s l l' := by
  rintro ⟨r, r', a, hne, hl, hl', hen, hen'⟩
  obtain ⟨rfl, -, hempty⟩ := h.write l r hen hl
  cases a with
  | write =>
    obtain ⟨rfl, -⟩ := h.write l' r' hen' hl'
    exact hne rfl
  | read =>
    have hmem := h.read l' r' hen' hl'
    rw [hempty] at hmem
    cases hmem

/-- While somebody is inside the read lock, the map stays as it is. -/
theorem clients_of_reading {s t : State} {r : Reader} (hs : hub.Reachable s)
    (h : hub.Path (fun u _ => r ∈ u.mutex.readers) s t) : t.clients = s.clients := by
  have hboth : hub.Reachable t ∧ t.clients = s.clients := by
    refine h.invariant (P := fun t => hub.Reachable t ∧ t.clients = s.clients) ⟨hs, rfl⟩ ?_
    rintro u l ⟨hu, hclients⟩ hinside hen
    refine ⟨hu.next trivial hen, ?_⟩
    refine (clients_next_of_not_write u fun r' hwrite => ?_).trans hclients
    obtain ⟨-, -, hempty⟩ := (guarded_of_reachable hu).write l r' hen hwrite
    rw [hempty] at hinside
    cases hinside
  exact hboth.2

/-- **The map is guarded.** In every reachable state whoever is about to write the map holds the
write lock with no reader inside, whoever is about to read it is inside the read lock, and no two
goroutines conflict over it; and from when a goroutine enters the read lock until it leaves, in any
interleaving, the map does not change. -/
theorem clients_guarded {s : State} (hs : hub.Reachable s) :
    Guarded s ∧ (∀ l l', ¬Racing s l l') ∧
      ∀ r t, hub.Path (fun u _ => r ∈ u.mutex.readers) s t → t.clients = s.clients :=
  ⟨guarded_of_reachable hs, (guarded_of_reachable hs).not_racing,
    fun _ _ h => clients_of_reading hs h⟩

/-- A sender inside the read lock, and `Run` waiting to put a second client into the map. -/
theorem clients_guarded_waiting : ∃ s, hub.Reachable s ∧ s.run = .registerLocking 1 ∧
    Enabled s (.sendTest (.handler 0) 0 (offerMessage (some "sdp"))) ∧
    ∀ t, hub.Path (fun u _ => .sender (.handler 0) ∈ u.mutex.readers) s t →
      t.clients = s.clients := by
  obtain ⟨s, hs, hrun, hen⟩ := hub.reachable_of_exec
    (connectLabels 0 ++ registerLabels 0 1 ++ connectLabels 1 ++
      [.createOffer 0 true, .setLocalDescription 0 true, .marshalOffer 0 (some "sdp"),
        .marshalMessage 0 (some "sdp") true,
        .sendRLock (.handler 0) 0 (offerMessage (some "sdp")), .takeRegister 1, .registerLock 1])
    (fun s => s.run = .registerLocking 1 ∧
      hub.Enabled s (.sendTest (.handler 0) 0 (offerMessage (some "sdp")))) (by decide)
  exact ⟨s, hs, hrun, hen, (clients_guarded hs).2.2 _⟩

end Lightspeed.Hub
