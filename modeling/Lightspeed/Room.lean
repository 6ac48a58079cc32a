import Mathlib.Data.Finset.Card
import Mathlib.Data.Multiset.AddSub
import Mathlib.Logic.Function.Basic
import Lightspeed.Transition

/-!
# A room that announces its size

Members join a room, each of them once, and leave it. After every change the size of the room is
due to be announced. An announcement is heard by everybody who is in the room at that moment, but
announcements that wait may be made in any order. Besides, a member can be sent a letter.

A step is one of these and nothing between; nobody ever waits for anybody. The room keeps what was
due, announced, heard and sent, so that what holds of its runs can be said of one state.
-/

namespace Lightspeed

/-- A room with members named in `C`, with announcements in `A` and letters in `L`. -/
@[ext]
structure Room (C A L : Type) where
  members : Finset C
  /-- Everybody who has joined, whether they have left or not. -/
  joined : Finset C
  /-- The announcements that fell due, in order. -/
  due : List A
  /-- Those of them that have not been made. -/
  waiting : Multiset A
  announced : List A
  heard : C → List A
  letters : C → List L

namespace Room

variable {C A L : Type}

inductive Step (C A L : Type)
  | join (c : C)
  | leave (c : C)
  | announce (a : A)
  | send (c : C) (m : L)

def empty : Room C A L where
  members := ∅
  joined := ∅
  due := []
  waiting := 0
  announced := []
  heard := fun _ => []
  letters := fun _ => []

def Possible (r : Room C A L) : Step C A L → Prop
  | .join c => c ∉ r.joined
  | .leave c => c ∈ r.members
  | .announce a => a ∈ r.waiting
  | .send c _ => c ∈ r.members

/-- The members are others now, and their number is due to be announced. -/
def change (size : ℕ → A) (r : Room C A L) (members : Finset C) : Room C A L :=
  { r with members := members, due := r.due ++ [size members.card],
           waiting := r.waiting + {size members.card} }

/-! ## The invariant -/

structure Inv (size : ℕ → A) (r : Room C A L) : Prop where
  members : r.members ⊆ r.joined
  /-- Nothing that was due is lost or announced twice. -/
  conserved : (r.announced : Multiset A) + r.waiting = r.due
  /-- The last announcement that fell due is right. -/
  last : ∀ a, r.due.getLast? = some a → a = size r.members.card
  /-- A member has heard everything since it joined. -/
  heard : ∀ c ∈ r.members, r.heard c <:+ r.announced
  /-- Who has left has heard everything from its joining to its leaving. -/
  infix_announced : ∀ c, r.heard c <:+: r.announced
  stranger : ∀ c, c ∉ r.joined → r.heard c = [] ∧ r.letters c = []

variable {size : ℕ → A} {r : Room C A L}

theorem inv_empty : Inv size (empty : Room C A L) where
  members := Finset.Subset.refl _
  conserved := rfl
  last _ h := by cases h
  heard c h := absurd h (Finset.notMem_empty c)
  infix_announced c := List.infix_refl []
  stranger c _ := ⟨rfl, rfl⟩

theorem conserved_change (h : Inv size r) (members : Finset C) :
    ((r.change size members).announced : Multiset A) + (r.change size members).waiting =
      (r.change size members).due := by
  show (r.announced : Multiset A) + (r.waiting + {size members.card}) =
    ((r.due ++ [size members.card] : List A) : Multiset A)
  rw [← Multiset.add_assoc, h.conserved, ← Multiset.coe_add, Multiset.coe_singleton]

theorem last_change (r : Room C A L) (members : Finset C) {a : A}
    (ha : (r.change size members).due.getLast? = some a) : a = size members.card := by
  have hlast : (r.due ++ [size members.card]).getLast? = some a := ha
  rw [List.getLast?_concat, Option.some.injEq] at hlast
  exact hlast.symm

/-! ## Steps -/

variable [DecidableEq C] [DecidableEq A]

def step (size : ℕ → A) (r : Room C A L) : Step C A L → Room C A L
  | .join c => { r.change size (insert c r.members) with joined := insert c r.joined }
  | .leave c => r.change size (r.members.erase c)
  | .announce a =>
    { r with waiting := r.waiting.erase a, announced := r.announced ++ [a],
             heard := fun c => if c ∈ r.members then r.heard c ++ [a] else r.heard c }
  | .send c m => { r with letters := Function.update r.letters c (r.letters c ++ [m]) }

def lts (size : ℕ → A) : Lts (Room C A L) (Step C A L) := ⟨empty, Possible, step size⟩

theorem Inv.join (h : Inv size r) {c : C} (hc : c ∉ r.joined) :
    Inv size (step size r (.join c)) where
  members := Finset.insert_subset_insert c h.members
  conserved := conserved_change h _
  last _ ha := last_change r _ ha
  heard c' hc' := by
    rcases Finset.mem_insert.mp hc' with rfl | hc'
    · show r.heard c' <:+ r.announced
      rw [(h.stranger c' hc).1]
      exact List.nil_suffix
    · exact h.heard c' hc'
  infix_announced := h.infix_announced
  stranger c' hc' := h.stranger c' fun hmem => hc' (Finset.mem_insert_of_mem hmem)

theorem Inv.leave (h : Inv size r) (c : C) : Inv size (step size r (.leave c)) where
  members := (Finset.erase_subset c r.members).trans h.members
  conserved := conserved_change h _
  last _ ha := last_change r _ ha
  heard c' hc' := h.heard c' (Finset.mem_of_mem_erase hc')
  infix_announced := h.infix_announced
  stranger := h.stranger

theorem Inv.announce (h : Inv size r) {a : A} (ha : a ∈ r.waiting) :
    Inv size (step size r (.announce a)) where
  members := h.members
  conserved := by
    show ((r.announced ++ [a] : List A) : Multiset A) + r.waiting.erase a = r.due
    rw [← h.conserved, ← Multiset.coe_add, Multiset.coe_singleton, Multiset.add_assoc,
      Multiset.singleton_add, Multiset.cons_erase ha]
  last := h.last
  heard c hc := by
    replace hc : c ∈ r.members := hc
    obtain ⟨before, hbefore⟩ := h.heard c hc
    show (if c ∈ r.members then r.heard c ++ [a] else r.heard c) <:+ r.announced ++ [a]
    rw [if_pos hc]
    exact ⟨before, by rw [← List.append_assoc, hbefore]⟩
  infix_announced c := by
    show (if c ∈ r.members then r.heard c ++ [a] else r.heard c) <:+: r.announced ++ [a]
    split
    · next hc =>
      obtain ⟨before, hbefore⟩ := h.heard c hc
      exact ⟨before, [], by rw [← List.append_assoc, hbefore, List.append_nil]⟩
    · exact (h.infix_announced c).trans (List.prefix_append _ _).isInfix
  stranger c hc := by
    have hout : c ∉ r.members := fun hmem => hc (h.members hmem)
    show (if c ∈ r.members then r.heard c ++ [a] else r.heard c) = [] ∧ r.letters c = []
    rw [if_neg hout]
    exact h.stranger c hc

theorem Inv.send (h : Inv size r) {c : C} (hc : c ∈ r.members) (m : L) :
    Inv size (step size r (.send c m)) where
  members := h.members
  conserved := h.conserved
  last := h.last
  heard := h.heard
  infix_announced := h.infix_announced
  stranger c' hc' := by
    have hne : c' ≠ c := by
      rintro rfl
      exact hc' (h.members hc)
    show r.heard c' = [] ∧ Function.update r.letters c _ c' = []
    rw [Function.update_of_ne hne]
    exact h.stranger c' hc'

theorem Inv.step (h : Inv size r) {l : Step C A L} (hl : r.Possible l) :
    Inv size (Room.step size r l) := by
  cases l with
  | join c => exact h.join hl
  | leave c => exact h.leave c
  | announce a => exact h.announce hl
  | send c m => exact h.send hl m

/-! ## What holds in every run -/

theorem inv_of_reachable (h : (lts size : Lts (Room C A L) _).Reachable r) : Inv size r :=
  h.invariant inv_empty fun _ _ _ hi _ hl => hi.step hl

/-- Who has left is not let in again, and hears and receives no more. -/
theorem left_for_good {r' : Room C A L} {c : C} (h : (lts size).Path Lts.always r r')
    (hjoined : c ∈ r.joined) (hleft : c ∉ r.members) :
    c ∉ r'.members ∧ r'.heard c = r.heard c ∧ r'.letters c = r.letters c := by
  have hall : c ∈ r'.joined ∧ c ∉ r'.members ∧ r'.heard c = r.heard c ∧
      r'.letters c = r.letters c := by
    refine h.invariant (P := fun r' => c ∈ r'.joined ∧ c ∉ r'.members ∧
      r'.heard c = r.heard c ∧ r'.letters c = r.letters c) ⟨hjoined, hleft, rfl, rfl⟩ ?_
    rintro u l ⟨hin, hout, hheard, hletters⟩ - hl
    cases l with
    | join c' =>
      have hne : c ≠ c' := by
        rintro rfl
        exact hl hin
      refine ⟨Finset.mem_insert_of_mem hin, ?_, hheard, hletters⟩
      exact fun hmem => hout (Finset.mem_of_mem_insert_of_ne hmem hne)
    | leave c' => exact ⟨hin, fun hmem => hout (Finset.mem_of_mem_erase hmem), hheard, hletters⟩
    | announce a => exact ⟨hin, hout, (if_neg hout).trans hheard, hletters⟩
    | send c' m =>
      have hne : c ≠ c' := by
        rintro rfl
        exact hout hl
      exact ⟨hin, hout, hheard, (Function.update_of_ne hne _ _).trans hletters⟩
  exact hall.2

end Room

end Lightspeed
