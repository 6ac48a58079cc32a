import Mathlib.Data.List.Infix

/-!
# Sequential request handlers

A handler processes one request after the other. Each may change its state and may get a reply;
it may also fail, after which nothing is processed any more. `runAll` is the state after a list
of requests, and `replies` are the replies a requester sees that sends its next request only
after the reply to the one before: they end at the first request that gets none.
-/

namespace Lightspeed

/-- What becomes of a request: `none` is a failure, and otherwise there is the next state and
possibly a reply. -/
abbrev Handler (σ ι ο : Type*) := σ → ι → Option (σ × Option ο)

namespace Handler

variable {σ ι ο : Type*} (h : Handler σ ι ο)

/-- The state after some requests, if none failed. -/
def runAll : σ → List ι → Option σ
  | s, [] => some s
  | s, i :: is => (h s i).bind fun r => runAll r.1 is

/-- The state after some requests and the replies to them, if each got one. -/
def answerAll : σ → List ι → Option (σ × List ο)
  | s, [] => some (s, [])
  | s, i :: is =>
    match h s i with
    | some (s', some o) => (answerAll s' is).map fun r => (r.1, o :: r.2)
    | _ => none

/-- The replies up to the first request that gets none. -/
def replies : σ → List ι → List ο
  | _, [] => []
  | s, i :: is =>
    match h s i with
    | some (s', some o) => o :: replies s' is
    | _ => []

variable {h} {s t t' : σ} {i : ι} {is js : List ι} {o : ο} {os : List ο}

theorem runAll_append : h.runAll s (is ++ js) = (h.runAll s is).bind fun t => h.runAll t js := by
  induction is generalizing s with
  | nil => rfl
  | cons i is ih =>
    rw [List.cons_append, runAll, runAll, Option.bind_assoc]
    cases h s i with
    | none => rfl
    | some r => exact ih

/-- If every request that succeeds acts on the state by `g`, so do all of them together. -/
theorem eq_foldl_of_runAll {g : σ → ι → σ} (hg : ∀ {s i s' r}, h s i = some (s', r) → s' = g s i)
    (hs : h.runAll s is = some t) : t = is.foldl g s := by
  induction is generalizing s with
  | nil => exact (Option.some.inj hs).symm
  | cons i is ih =>
    rw [runAll, Option.bind_eq_some_iff] at hs
    obtain ⟨⟨s', r⟩, hi, hrest⟩ := hs
    rw [List.foldl_cons, ← hg hi]
    exact ih hrest

/-- What every request that succeeds keeps holds after all of them. -/
theorem invariant_of_runAll {P : σ → Prop} (hstep : ∀ {s i s' r}, h s i = some (s', r) → P s → P s')
    (hP : P s) (hs : h.runAll s is = some t) : P t := by
  induction is generalizing s with
  | nil => exact Option.some.inj hs ▸ hP
  | cons i is ih =>
    rw [runAll, Option.bind_eq_some_iff] at hs
    obtain ⟨⟨s', r⟩, hi, hrest⟩ := hs
    exact ih (hstep hi hP) hrest

@[simp]
theorem answerAll_nil : h.answerAll s [] = some (t, os) ↔ s = t ∧ os = [] := by
  rw [answerAll, Option.some.injEq, Prod.mk.injEq, eq_comm (a := ([] : List ο))]

/-- All requests are answered when the first one and the others are. -/
theorem answerAll_cons : h.answerAll s (i :: is) = some (t, os) ↔
    ∃ s' o os', h s i = some (s', some o) ∧ h.answerAll s' is = some (t, os') ∧ os = o :: os' := by
  rw [answerAll]
  constructor
  · intro hs
    split at hs
    · next s' o hi =>
      rw [Option.map_eq_some_iff] at hs
      obtain ⟨⟨t', os'⟩, hrest, heq⟩ := hs
      rw [Prod.mk.injEq] at heq
      obtain ⟨rfl, rfl⟩ := heq
      exact ⟨s', o, os', hi, hrest, rfl⟩
    · cases hs
  · rintro ⟨s', o, os', hi, hrest, rfl⟩
    rw [hi]
    simp only
    rw [hrest, Option.map_some]

/-- Requests are all answered when the first ones and, after them, the others are. -/
theorem answerAll_append : h.answerAll s (is ++ js) = some (t, os) ↔
    ∃ u os₁ os₂, h.answerAll s is = some (u, os₁) ∧ h.answerAll u js = some (t, os₂) ∧
      os = os₁ ++ os₂ := by
  induction is generalizing s os with
  | nil =>
    constructor
    · intro hs
      exact ⟨s, [], os, answerAll_nil.mpr ⟨rfl, rfl⟩, hs, rfl⟩
    · rintro ⟨u, os₁, os₂, hnil, hs, rfl⟩
      obtain ⟨rfl, rfl⟩ := answerAll_nil.mp hnil
      exact hs
  | cons i is ih =>
    rw [List.cons_append, answerAll_cons]
    constructor
    · rintro ⟨s', o, os', hi, hrest, rfl⟩
      obtain ⟨u, os₁, os₂, his, hjs, rfl⟩ := ih.mp hrest
      exact ⟨u, o :: os₁, os₂, answerAll_cons.mpr ⟨s', o, os₁, hi, his, rfl⟩, hjs, rfl⟩
    · rintro ⟨u, os₁, os₂, his, hjs, rfl⟩
      obtain ⟨s', o, os', hi, hrest, rfl⟩ := answerAll_cons.mp his
      exact ⟨s', o, os' ++ os₂, hi, ih.mpr ⟨u, os', os₂, hrest, hjs, rfl⟩, rfl⟩

theorem length_of_answerAll (hs : h.answerAll s is = some (t, os)) : os.length = is.length := by
  induction is generalizing s os with
  | nil => rw [(answerAll_nil.mp hs).2, List.length_nil, List.length_nil]
  | cons i is ih =>
    obtain ⟨s', o, os', -, hrest, rfl⟩ := answerAll_cons.mp hs
    rw [List.length_cons, List.length_cons, ih hrest]

/-- One more answered request. -/
theorem answerAll_concat (hs : h.answerAll s is = some (t, os)) (hi : h t i = some (t', some o)) :
    h.answerAll s (is ++ [i]) = some (t', os ++ [o]) := by
  have hlast : h.answerAll t [i] = some (t', [o]) :=
    answerAll_cons.mpr ⟨t', o, [], hi, answerAll_nil.mpr ⟨rfl, rfl⟩, rfl⟩
  exact answerAll_append.mpr ⟨t, os, [o], hs, hlast, rfl⟩

/-- Each of some requests that are all answered is answered in its turn. -/
theorem exists_answer {r : σ × List ο} (hall : h.answerAll s (is ++ i :: js) = some r)
    (hs : h.answerAll s is = some (t, os)) : ∃ t' o, h t i = some (t', some o) := by
  obtain ⟨u, os₁, os₂, his, hrest, -⟩ := answerAll_append.mp hall
  rw [hs, Option.some.injEq, Prod.mk.injEq] at his
  obtain ⟨rfl, -⟩ := his
  obtain ⟨t', o, -, hi, -⟩ := answerAll_cons.mp hrest
  exact ⟨t', o, hi⟩

/-- Requests that were all answered do not end the replies. -/
theorem replies_append (hs : h.answerAll s is = some (t, os)) :
    h.replies s (is ++ js) = os ++ h.replies t js := by
  induction is generalizing s os with
  | nil =>
    obtain ⟨rfl, rfl⟩ := answerAll_nil.mp hs
    rfl
  | cons i is ih =>
    obtain ⟨s', o, os', hi, hrest, rfl⟩ := answerAll_cons.mp hs
    rw [List.cons_append, replies, hi]
    simp only
    rw [ih hrest, List.cons_append]

theorem replies_of_answerAll (hs : h.answerAll s is = some (t, os)) : h.replies s is = os := by
  have hnil : h.replies s (is ++ []) = os ++ h.replies t [] := replies_append hs
  rw [List.append_nil] at hnil
  rw [hnil, replies, List.append_nil]

/-- Replies that were given stay given. -/
theorem replies_prefix : h.replies s is <+: h.replies s (is ++ js) := by
  induction is generalizing s with
  | nil => exact List.nil_prefix
  | cons i is ih =>
    rw [List.cons_append, replies, replies]
    cases h s i with
    | none => exact List.prefix_refl _
    | some r =>
      obtain ⟨s', reply⟩ := r
      cases reply with
      | none => exact List.prefix_refl _
      | some o => exact (List.prefix_cons_inj o).mpr ih

/-- The first request without a reply ends them. -/
theorem replies_of_unanswered (hs : h.answerAll s is = some (t, os))
    (hi : ∀ t' o, h t i ≠ some (t', some o)) : h.replies s (is ++ i :: js) = os := by
  have hnone : h.replies t (i :: js) = [] := by
    rw [replies]
    split
    · next t' o heq => exact absurd heq (hi t' o)
    · rfl
  rw [replies_append hs, hnone, List.append_nil]

theorem exists_of_mem_replies (ho : o ∈ h.replies s is) : ∃ u i u', h u i = some (u', some o) := by
  induction is generalizing s with
  | nil => cases ho
  | cons i is ih =>
    rw [replies] at ho
    split at ho
    · next s' o' heq =>
      rcases List.mem_cons.mp ho with rfl | ho
      · exact ⟨s, i, s', heq⟩
      · exact ih ho
    · cases ho

end Handler

end Lightspeed
