import Mathlib.Data.Finset.Insert
import Mathlib.Data.Finset.Erase

/-!
# A reader/writer lock

The lock of a Go program as far as its users can tell. The runtime keeps a number of
readers; here the readers are kept by name, so that the number is the size of the set. A
call of `Lock` first announces itself, which keeps new readers out, and returns once the
readers that were inside have left.

One goroutine at most calls `Lock` in the programs verified here, so there is no queue of
writers.
-/

namespace Lightspeed

/-- Where the only writer is. -/
inductive Writer
  | idle
  /-- Inside `Lock`: announced, waiting for the readers to leave. -/
  | waiting
  /-- `Lock` has returned and `Unlock` has not been called. -/
  | holding
deriving DecidableEq

/-- A reader/writer lock used by goroutines named in `G`. -/
structure RWMutex (G : Type) where
  readers : Finset G
  writer : Writer

namespace RWMutex

variable {G : Type}

/-- The zero value: unlocked. -/
def new : RWMutex G := ⟨∅, .idle⟩

/-- `RLock` returns only while no writer waits or holds. -/
def CanRLock (m : RWMutex G) : Prop := m.writer = .idle

/-- `Lock` returns only when the last reader has left. -/
def CanLock (m : RWMutex G) : Prop := m.readers = ∅

/-- The first half of `Lock`. -/
def announce (m : RWMutex G) : RWMutex G := { m with writer := .waiting }

/-- The second half of `Lock`. -/
def lock (m : RWMutex G) : RWMutex G := { m with writer := .holding }

def unlock (m : RWMutex G) : RWMutex G := { m with writer := .idle }

/-- A writer inside means no reader inside. -/
def Exclusive (m : RWMutex G) : Prop := m.writer = .holding → m.readers = ∅

@[simp] theorem new_readers : (new : RWMutex G).readers = ∅ := rfl
@[simp] theorem new_writer : (new : RWMutex G).writer = .idle := rfl
@[simp] theorem announce_readers (m : RWMutex G) : m.announce.readers = m.readers := rfl
@[simp] theorem announce_writer (m : RWMutex G) : m.announce.writer = .waiting := rfl
@[simp] theorem lock_readers (m : RWMutex G) : m.lock.readers = m.readers := rfl
@[simp] theorem lock_writer (m : RWMutex G) : m.lock.writer = .holding := rfl
@[simp] theorem unlock_readers (m : RWMutex G) : m.unlock.readers = m.readers := rfl
@[simp] theorem unlock_writer (m : RWMutex G) : m.unlock.writer = .idle := rfl

theorem exclusive_new : (new : RWMutex G).Exclusive := fun _ => rfl

theorem exclusive_announce (m : RWMutex G) : m.announce.Exclusive := fun hw => by cases hw

theorem exclusive_lock {m : RWMutex G} (h : m.CanLock) : m.lock.Exclusive := fun _ => h

theorem exclusive_unlock (m : RWMutex G) : m.unlock.Exclusive := fun hw => by cases hw

section Readers

variable [DecidableEq G]

instance (m : RWMutex G) : Decidable m.CanRLock := inferInstanceAs (Decidable (_ = _))

instance (m : RWMutex G) : Decidable m.CanLock := inferInstanceAs (Decidable (_ = _))

def rLock (m : RWMutex G) (g : G) : RWMutex G := { m with readers := insert g m.readers }

def rUnlock (m : RWMutex G) (g : G) : RWMutex G := { m with readers := m.readers.erase g }

@[simp] theorem rLock_readers (m : RWMutex G) (g : G) :
    (m.rLock g).readers = insert g m.readers := rfl
@[simp] theorem rLock_writer (m : RWMutex G) (g : G) : (m.rLock g).writer = m.writer := rfl
@[simp] theorem rUnlock_readers (m : RWMutex G) (g : G) :
    (m.rUnlock g).readers = m.readers.erase g := rfl
@[simp] theorem rUnlock_writer (m : RWMutex G) (g : G) : (m.rUnlock g).writer = m.writer := rfl

theorem exclusive_rLock {m : RWMutex G} (h : m.CanRLock) (g : G) : (m.rLock g).Exclusive := by
  intro hw
  rw [rLock_writer, h] at hw
  cases hw

theorem exclusive_rUnlock {m : RWMutex G} (h : m.Exclusive) (g : G) :
    (m.rUnlock g).Exclusive := by
  intro hw
  rw [rUnlock_readers, h hw]
  rfl

end Readers

end RWMutex

end Lightspeed
