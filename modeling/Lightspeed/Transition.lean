import Mathlib.Data.Nat.Basic
import Mathlib.Logic.Relation
import Mathlib.Order.WellFounded

/-!
# Labelled transition systems

The programs of this development are several sequential processes that share memory,
locks and channels. Each is modelled as one transition system: a label says which process
moves and what the scheduler, the network or a random generator chose for it, `Enabled`
says when the move is possible and `next` what it does. An interleaving is then a list of
labels.

Everything is stated for runs in which every step meets a side condition `ok`, so that
"for every interleaving" (`ok` always true) and "as long as no write fails" are the same
notion and share one induction rule.
-/

namespace Lightspeed

universe u v

/-- A transition system whose steps are determined by their label. -/
structure Lts (σ : Type u) (ℓ : Type v) where
  init : σ
  Enabled : σ → ℓ → Prop
  next : σ → ℓ → σ

namespace Lts

variable {σ : Type u} {ℓ : Type v} (S : Lts σ ℓ)

/-- The side condition every step meets. -/
def always : σ → ℓ → Prop := fun _ _ => True

/-- One step that meets `ok`. -/
def Step (ok : σ → ℓ → Prop) (s t : σ) : Prop :=
  ∃ l, ok s l ∧ S.Enabled s l ∧ t = S.next s l

/-- Some run from `s` to `t`, all of whose steps meet `ok`. -/
def Path (ok : σ → ℓ → Prop) : σ → σ → Prop :=
  Relation.ReflTransGen (S.Step ok)

/-- The states reached by the runs whose steps all meet `ok`. -/
def ReachableWhen (ok : σ → ℓ → Prop) (s : σ) : Prop :=
  S.Path ok S.init s

/-- The states reached by any run. -/
def Reachable (s : σ) : Prop :=
  S.ReachableWhen always s

variable {S} {ok : σ → ℓ → Prop} {s t : σ}

theorem Path.single {l : ℓ} (hok : ok s l) (h : S.Enabled s l) : S.Path ok s (S.next s l) :=
  Relation.ReflTransGen.single ⟨l, hok, h, rfl⟩

theorem Path.next {l : ℓ} (h : S.Path ok s t) (hok : ok t l) (hen : S.Enabled t l) :
    S.Path ok s (S.next t l) :=
  Relation.ReflTransGen.tail h ⟨l, hok, hen, rfl⟩

/-- A weaker side condition allows more runs. -/
theorem Path.mono {ok' : σ → ℓ → Prop} (hmono : ∀ s l, ok s l → ok' s l)
    (h : S.Path ok s t) : S.Path ok' s t :=
  Relation.ReflTransGen.mono (fun _ _ ⟨l, hok, hen, ht⟩ => ⟨l, hmono _ l hok, hen, ht⟩) _ _ h

theorem ReachableWhen.reachable (h : S.ReachableWhen ok s) : S.Reachable s :=
  Path.mono (fun _ _ _ => trivial) h

theorem ReachableWhen.next {l : ℓ} (h : S.ReachableWhen ok s) (hok : ok s l)
    (hen : S.Enabled s l) : S.ReachableWhen ok (S.next s l) :=
  Path.next h hok hen

theorem ReachableWhen.trans (h : S.ReachableWhen ok s) (hp : S.Path ok s t) :
    S.ReachableWhen ok t :=
  Relation.ReflTransGen.trans h hp

/-! ## Invariants -/

/-- What holds at `s` and is kept by every step holds after every run from `s`. -/
theorem Path.invariant {P : σ → Prop} (hs : P s)
    (hstep : ∀ s l, P s → ok s l → S.Enabled s l → P (S.next s l)) (h : S.Path ok s t) :
    P t := by
  induction h with
  | refl => exact hs
  | tail _ hlast ih =>
    obtain ⟨l, hok, hen, rfl⟩ := hlast
    exact hstep _ l ih hok hen

/-- The induction rule for invariants. The step may use that the state it starts from is
reachable, that is, every invariant proved before. -/
theorem ReachableWhen.invariant {P : σ → Prop} (hinit : P S.init)
    (hstep : ∀ s l, S.ReachableWhen ok s → P s → ok s l → S.Enabled s l → P (S.next s l))
    (h : S.ReachableWhen ok s) : P s := by
  have hboth : S.ReachableWhen ok s ∧ P s := by
    refine Path.invariant (P := fun s => S.ReachableWhen ok s ∧ P s)
      ⟨Relation.ReflTransGen.refl, hinit⟩ ?_ h
    rintro s l ⟨hr, hp⟩ hok hen
    exact ⟨hr.next hok hen, hstep s l hr hp hok hen⟩
  exact hboth.2

/-- Runs whose steps all meet `ok` are runs whose steps all meet `ok'`, if it is implied at the
states they reach. -/
theorem ReachableWhen.imp {ok' : σ → ℓ → Prop}
    (himp : ∀ s l, S.ReachableWhen ok s → ok s l → S.Enabled s l → ok' s l)
    (h : S.ReachableWhen ok s) : S.ReachableWhen ok' s := by
  refine h.invariant (P := S.ReachableWhen ok') Relation.ReflTransGen.refl ?_
  intro s l hr hi hok hen
  exact hi.next (himp s l hr hok hen) hen

/-! ## What every run comes to -/

variable (S ok) in
/-- A run from `s` that goes on for as long as a step meets `ok` comes to a state with `P`,
whichever steps it takes. -/
inductive Inevitably (P : σ → Prop) : σ → Prop
  | here {s : σ} : P s → Inevitably P s
  | later {s : σ} : (∃ l, ok s l ∧ S.Enabled s l) →
      (∀ l, ok s l → S.Enabled s l → Inevitably P (S.next s l)) → Inevitably P s

variable {α : Type*} [LT α] [WellFoundedLT α]

/-- The induction rule: an invariant under which every step decreases a measure, and there is a
step as long as `P` does not hold. -/
theorem inevitably_of_invariant {I P : σ → Prop} (m : σ → α)
    (hkeep : ∀ s l, I s → ok s l → S.Enabled s l → I (S.next s l))
    (hdecrease : ∀ s l, I s → ok s l → S.Enabled s l → m (S.next s l) < m s)
    (hprogress : ∀ s, I s → P s ∨ ∃ l, ok s l ∧ S.Enabled s l) (h : I s) :
    S.Inevitably ok P s := by
  induction hm : m s using WellFoundedLT.induction generalizing s with
  | _ a ih =>
    rcases hprogress s h with hp | hsome
    · exact .here hp
    · refine .later hsome fun l hok hen => ?_
      have hlt := hdecrease s l h hok hen
      exact ih _ (hm ▸ hlt) (hkeep s l h hok hen) rfl

/-- The same with what is known of the states reached in place of an invariant. -/
theorem ReachableWhen.inevitably {P : σ → Prop} (m : σ → α)
    (hdecrease : ∀ s l, S.ReachableWhen ok s → ok s l → S.Enabled s l → m (S.next s l) < m s)
    (hprogress : ∀ s, S.ReachableWhen ok s → P s ∨ ∃ l, ok s l ∧ S.Enabled s l)
    (h : S.ReachableWhen ok s) : S.Inevitably ok P s :=
  inevitably_of_invariant m (fun _ _ hr hok hen => hr.next hok hen) hdecrease hprogress h

/-- What is inevitable happens on some run. -/
theorem Inevitably.exists_path {P : σ → Prop} (h : S.Inevitably ok P s) :
    ∃ t, S.Path ok s t ∧ P t := by
  induction h with
  | here hp => exact ⟨_, Relation.ReflTransGen.refl, hp⟩
  | later hsome _ ih =>
    obtain ⟨l, hok, hen⟩ := hsome
    obtain ⟨t, hpath, hp⟩ := ih l hok hen
    exact ⟨t, Relation.ReflTransGen.head ⟨l, hok, hen, rfl⟩ hpath, hp⟩

/-! ## Refinement -/

/-- Along `f`, every step that `S` can take in its runs is a step of `T`, or none. -/
structure Refines {τ : Type*} {ℓ' : Type*} (S : Lts σ ℓ) (T : Lts τ ℓ') (f : σ → τ) : Prop where
  init : f S.init = T.init
  step : ∀ s l, S.Reachable s → S.Enabled s l →
    f (S.next s l) = f s ∨ ∃ l', T.Enabled (f s) l' ∧ f (S.next s l) = T.next (f s) l'

namespace Refines

variable {τ : Type*} {ℓ' : Type*} {T : Lts τ ℓ'} {f : σ → τ}

/-- A run of `S` is one of `T`. -/
theorem path (h : Refines S T f) (hs : S.Reachable s) (hp : S.Path always s t) :
    T.Path always (f s) (f t) := by
  have hboth : S.Reachable t ∧ T.Path always (f s) (f t) := by
    refine hp.invariant (P := fun t => S.Reachable t ∧ T.Path always (f s) (f t))
      ⟨hs, Relation.ReflTransGen.refl⟩ ?_
    rintro u l ⟨hu, hpath⟩ - hen
    refine ⟨hu.next trivial hen, ?_⟩
    rcases h.step u l hu hen with hsame | ⟨l', hen', hnext⟩
    · rw [hsame]
      exact hpath
    · rw [hnext]
      exact hpath.next trivial hen'
  exact hboth.2

/-- What holds in every run of `T` holds in every run of `S`. -/
theorem reachable (h : Refines S T f) (hs : S.Reachable s) : T.Reachable (f s) := by
  have hpath := h.path Relation.ReflTransGen.refl hs
  rw [h.init] at hpath
  exact hpath

end Refines

/-! ## Running a list of labels -/

variable (S)
variable [∀ s l, Decidable (S.Enabled s l)]

/-- The state after a list of labels, if each is enabled and passes the test `b` in its
turn. -/
def exec (b : σ → ℓ → Bool) : σ → List ℓ → Option σ
  | s, [] => some s
  | s, l :: ls => if S.Enabled s l ∧ b s l = true then exec b (S.next s l) ls else none

variable {S}

theorem path_of_exec {b : σ → ℓ → Bool} (hb : ∀ s l, b s l = true → ok s l) {s : σ}
    {ls : List ℓ} (h : S.exec b s ls = some t) : S.Path ok s t := by
  induction ls generalizing s with
  | nil =>
    rw [exec, Option.some.injEq] at h
    subst h
    exact Relation.ReflTransGen.refl
  | cons l ls ih =>
    rw [exec] at h
    split at h
    · next hen => exact Relation.ReflTransGen.head ⟨l, hb s l hen.2, hen.1, rfl⟩ (ih h)
    · cases h

theorem exec_eq_foldl {b : σ → ℓ → Bool} {s : σ} {ls : List ℓ} (h : S.exec b s ls = some t) :
    ls.foldl S.next s = t := by
  induction ls generalizing s with
  | nil =>
    rw [exec, Option.some.injEq] at h
    exact h
  | cons l ls ih =>
    rw [exec] at h
    split at h
    · exact ih h
    · cases h

variable (S)

/-- The state that a run found by evaluation ends in. -/
theorem reachable_foldl (ls : List ℓ)
    (h : (S.exec (fun _ _ => true) S.init ls).isSome = true) :
    S.Reachable (ls.foldl S.next S.init) := by
  obtain ⟨s, hs⟩ := Option.isSome_iff_exists.mp h
  rw [exec_eq_foldl hs]
  exact path_of_exec (fun _ _ _ => trivial) hs

/-- A run found by evaluation: if the labels can be run from the initial state and the
state they end in satisfies `p`, then some reachable state does. The test `b` decides, or
at least implies, the side condition. -/
theorem reachableWhen_of_exec (ok : σ → ℓ → Prop) (b : σ → ℓ → Bool)
    (hb : ∀ s l, b s l = true → ok s l) (ls : List ℓ) (p : σ → Prop) [DecidablePred p]
    (h : (S.exec b S.init ls).any (fun s => decide (p s)) = true) :
    ∃ s, S.ReachableWhen ok s ∧ p s := by
  obtain ⟨s, hs, hp⟩ := (Option.any_eq_true _ _).mp h
  exact ⟨s, path_of_exec hb hs, of_decide_eq_true hp⟩

theorem reachable_of_exec (ls : List ℓ) (p : σ → Prop) [DecidablePred p]
    (h : (S.exec (fun _ _ => true) S.init ls).any (fun s => decide (p s)) = true) :
    ∃ s, S.Reachable s ∧ p s :=
  S.reachableWhen_of_exec always (fun _ _ => true) (fun _ _ _ => trivial) ls p h

/-- The same for a run in two parts, with a test of the states the parts end in. -/
theorem reachable_path_of_exec (ls ls' : List ℓ) (p : σ → σ → Prop) [∀ s t, Decidable (p s t)]
    (h : (S.exec (fun _ _ => true) S.init ls).any
      (fun s => (S.exec (fun _ _ => true) s ls').any fun t => decide (p s t)) = true) :
    ∃ s t, S.Reachable s ∧ S.Path always s t ∧ p s t := by
  obtain ⟨s, hs, hrest⟩ := (Option.any_eq_true _ _).mp h
  obtain ⟨t, ht, hp⟩ := (Option.any_eq_true _ _).mp hrest
  exact ⟨s, t, path_of_exec (fun _ _ _ => trivial) hs, path_of_exec (fun _ _ _ => trivial) ht,
    of_decide_eq_true hp⟩

end Lts

end Lightspeed
