import Mathlib.Data.List.Forall2
import Mathlib.Data.List.Infix

/-!
# One thing before another in a history

A history is a list that grows at its end. `Historically R` says that every entry stands in `R`
to the entries before it; it holds of a longer history exactly when it held of the shorter one
and the new entry is allowed (`historically_concat`). `Precedes P Q` is the case of an ordering
guarantee that needs no clock ("no data before the handshake"): nothing with `Q` happens before
something with `P` has.
-/

namespace Lightspeed

variable {α : Type*}

/-- Every entry stands in `R` to the entries before it. -/
def Historically (R : List α → α → Prop) (l : List α) : Prop :=
  ∀ before x after, l = before ++ x :: after → R before x

/-- Every entry with `Q` has one with `P` somewhere before it. -/
def Precedes (P Q : α → Prop) (l : List α) : Prop :=
  Historically (fun before x => Q x → ∃ y ∈ before, P y) l

variable {R R' : List α → α → Prop} {P Q : α → Prop} {l l' : List α} {x : α}

theorem historically_nil : Historically R [] := by
  intro before x after h
  exact absurd h.symm (List.append_ne_nil_of_right_ne_nil _ (List.cons_ne_nil _ _))

/-- What held of a history held of its beginning. -/
theorem Historically.of_prefix (h : Historically R l') (hpre : l <+: l') : Historically R l := by
  obtain ⟨rest, rfl⟩ := hpre
  intro before x after hl
  refine h before x (after ++ rest) ?_
  rw [hl, List.append_assoc, List.cons_append]

theorem Historically.mono (h : Historically R l) (hmono : ∀ before x, R before x → R' before x) :
    Historically R' l := by
  intro before x after hl
  exact hmono before x (h before x after hl)

/-- One more entry. -/
theorem historically_concat : Historically R (l ++ [x]) ↔ Historically R l ∧ R l x := by
  constructor
  · intro h
    exact ⟨h.of_prefix (List.prefix_append _ _), h l x [] rfl⟩
  · rintro ⟨hl, hx⟩ before y after heq
    rcases List.eq_nil_or_concat after with rfl | ⟨after', z, rfl⟩
    -- the entry in question is the new one, or an earlier one
    · obtain ⟨rfl, hxy⟩ := List.append_inj' heq rfl
      rw [List.singleton_inj] at hxy
      exact hxy ▸ hx
    · rw [List.concat_eq_append, ← List.cons_append, ← List.append_assoc] at heq
      obtain ⟨rfl, -⟩ := List.append_inj' heq rfl
      exact hl before y after' rfl

theorem precedes_nil : Precedes P Q [] := historically_nil

theorem precedes_concat :
    Precedes P Q (l ++ [x]) ↔ Precedes P Q l ∧ (Q x → ∃ y ∈ l, P y) :=
  historically_concat

/-- More entries, none of which has to wait for anything that has not happened. -/
theorem Precedes.append (h : Precedes P Q l) (hl' : ∀ x ∈ l', Q x → ∃ y ∈ l, P y) :
    Precedes P Q (l ++ l') := by
  induction l' using List.reverseRecOn with
  | nil => rwa [List.append_nil]
  | append_singleton l' x ih =>
    rw [← List.append_assoc, precedes_concat]
    constructor
    · exact ih fun y hy => hl' y (List.mem_append_left _ hy)
    · intro hq
      obtain ⟨y, hy, hp⟩ := hl' x (List.mem_append_right _ (List.mem_singleton_self x)) hq
      exact ⟨y, List.mem_append_left _ hy, hp⟩

/-- What is kept of a history keeps its order, if what has to come first is kept. -/
theorem Precedes.filterMap {β : Type*} {f : α → Option β} {P' Q' : β → Prop}
    (h : Precedes P Q l) (hP : ∀ x ∈ l, P x → ∃ y, f x = some y ∧ P' y)
    (hQ : ∀ x y, f x = some y → Q' y → Q x) : Precedes P' Q' (l.filterMap f) := by
  induction l using List.reverseRecOn with
  | nil => exact precedes_nil
  | append_singleton l x ih =>
    obtain ⟨hl, hx⟩ := precedes_concat.mp h
    have hkept := ih hl fun z hz => hP z (List.mem_append_left _ hz)
    rw [List.filterMap_append]
    refine hkept.append fun y hy hq => ?_
    obtain ⟨x', hx', hfx⟩ := List.mem_filterMap.mp hy
    obtain rfl := List.mem_singleton.mp hx'
    obtain ⟨z, hz, hpz⟩ := hx (hQ x' y hfx hq)
    obtain ⟨y', hfz, hpy⟩ := hP z (List.mem_append_left _ hz) hpz
    exact ⟨y', List.mem_filterMap.mpr ⟨z, hz, hfz⟩, hpy⟩

/-- What stands in a relation to a history, entry for entry, keeps its order. -/
theorem Precedes.forall₂ {β : Type*} {r : α → β → Prop} {P' Q' : β → Prop} {l : List α}
    {l' : List β} (h : Precedes P Q l) (hr : List.Forall₂ r l l')
    (hP : ∀ x y, r x y → P x → P' y) (hQ : ∀ x y, r x y → Q' y → Q x) : Precedes P' Q' l' := by
  intro before y after hl' hy
  subst hl'
  have htake := List.forall₂_take_append l before (y :: after) hr
  have hdrop := List.forall₂_drop_append l before (y :: after) hr
  obtain ⟨x, rest, hx, -, hl⟩ := List.forall₂_cons_right_iff.mp hdrop
  have hsplit : l = l.take before.length ++ x :: rest := by
    rw [← hl, List.take_append_drop]
  obtain ⟨z, hz, hpz⟩ := h _ x rest hsplit (hQ x y hx hy)
  obtain ⟨i, hi, rfl⟩ := List.mem_iff_getElem.mp hz
  have hi' : i < before.length := htake.length_eq ▸ hi
  exact ⟨before[i], List.getElem_mem hi', hP _ _ (htake.get hi hi') hpz⟩

end Lightspeed
