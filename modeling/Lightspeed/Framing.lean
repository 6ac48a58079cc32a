import Mathlib.Data.List.Infix

/-!
# Delimited frames and incremental decoders

A stream arrives in chunks, and a decoder takes items off the front of a buffer for as long as
it finds any. Nothing here depends on what an item is. The two laws a decoder has to satisfy are
that an item, once found, is found again however the buffer goes on (`extend`), and that finding
one makes the buffer shorter (`shrink`). They are enough for the cuts between the chunks not to
matter (`feed_eq`).

The first part is the usual source of such decoders: the first occurrence of a delimiter, and the
one way to split a list at all of them (`Split.unique`). The last part follows a decoder that cuts
at a delimiter from call to call (`Delimited.after_eq`).
-/

namespace Lightspeed

/-! ## The first occurrence of a delimiter -/

section Position

variable {α : Type*} [DecidableEq α]

/-- Where `d` first occurs in a list (`windows(d.len()).position(|w| w == d)`). -/
def position (d : List α) : List α → Option ℕ
  | [] => none
  | b :: bs => if d <+: b :: bs then some 0 else (position d bs).map (· + 1)

variable {d buf more : List α} {i : ℕ}

/-- A found delimiter is there. -/
theorem prefix_drop_of_position (h : position d buf = some i) : d <+: buf.drop i := by
  induction buf generalizing i with
  | nil =>
    rw [position] at h
    cases h
  | cons b bs ih =>
    rw [position] at h
    split at h
    · next hd =>
      rw [Option.some.injEq] at h
      subst h
      exact hd
    · rw [Option.map_eq_some_iff] at h
      obtain ⟨j, hj, rfl⟩ := h
      rw [List.drop_succ_cons]
      exact ih hj

theorem add_length_le_of_position (hd : d ≠ []) (h : position d buf = some i) :
    i + d.length ≤ buf.length := by
  have hle := (prefix_drop_of_position h).length_le
  have hpos : 0 < d.length := List.length_pos_of_ne_nil hd
  rw [List.length_drop] at hle
  omega

/-- A delimiter is found where it stands if it does not stand earlier. -/
theorem position_eq_some (hd : d ≠ []) (h : d <+: buf.drop i)
    (hfirst : ∀ j < i, ¬d <+: buf.drop j) : position d buf = some i := by
  induction i generalizing buf with
  | zero =>
    rw [List.drop_zero] at h
    cases buf with
    | nil => exact absurd (List.prefix_nil.mp h) hd
    | cons b bs => rw [position, if_pos h]
  | succ i ih =>
    cases buf with
    | nil =>
      rw [List.drop_nil] at h
      exact absurd (List.prefix_nil.mp h) hd
    | cons b bs =>
      have hnot : ¬d <+: b :: bs := hfirst 0 (by omega)
      have hrest : position d bs = some i := by
        refine ih h fun j hj => ?_
        exact hfirst (j + 1) (by omega)
      rw [position, if_neg hnot, hrest, Option.map_some]

theorem not_prefix_of_lt_position (h : position d buf = some i) :
    ∀ j < i, ¬d <+: buf.drop j := by
  induction buf generalizing i with
  | nil =>
    rw [position] at h
    cases h
  | cons b bs ih =>
    rw [position] at h
    intro j hj
    split at h
    · rw [Option.some.injEq] at h
      omega
    · next hnot =>
      rw [Option.map_eq_some_iff] at h
      obtain ⟨i', hi', rfl⟩ := h
      cases j with
      | zero => exact hnot
      | succ j => exact ih hi' j (by omega)

/-- The first occurrence stays the first one when the list is extended. -/
theorem position_append (h : position d buf = some i) (hd : d ≠ []) :
    position d (buf ++ more) = some i := by
  have hlen := add_length_le_of_position hd h
  have hpos : 0 < d.length := List.length_pos_of_ne_nil hd
  refine position_eq_some hd ?_ fun j hj hpre => ?_
  · rw [List.drop_append_of_le_length (by omega)]
    exact (prefix_drop_of_position h).trans (List.prefix_append _ _)
  · refine not_prefix_of_lt_position h j hj ?_
    rw [List.drop_append_of_le_length (by omega)] at hpre
    refine List.prefix_of_prefix_length_le hpre (List.prefix_append _ _) ?_
    rw [List.length_drop]
    omega

/-- A frame and its delimiter, if the delimiter does not begin earlier. -/
theorem position_frame {frame : List α} (hd : d ≠ [])
    (hfirst : ∀ j < frame.length, ¬d <+: (frame ++ d).drop j) :
    position d (frame ++ d ++ more) = some frame.length := by
  refine position_append (position_eq_some hd ?_ hfirst) hd
  rw [List.drop_left]

theorem position_eq_none (hd : d ≠ []) : position d buf = none ↔ ¬d <:+: buf := by
  induction buf with
  | nil =>
    rw [position, List.infix_nil]
    exact iff_of_true rfl hd
  | cons b bs ih =>
    rw [position, List.infix_cons_iff, not_or, ← ih]
    split
    · next hpre => exact iff_of_false (Option.some_ne_none 0) fun h => h.1 hpre
    · next hnot =>
      rw [Option.map_eq_none_iff]
      exact ⟨fun h => ⟨hnot, h⟩, And.right⟩

/-! ## Splitting at every delimiter -/

/-- The frames of a buffer and what is left over. A frame with all of the delimiter but its last
symbol does not hold the delimiter, so the delimiter after the frame is the first one. -/
structure Split (d buf : List α) (frames : List (List α)) (rest : List α) : Prop where
  eq : buf = frames.flatMap (· ++ d) ++ rest
  frame_free : ∀ frame ∈ frames, ¬d <:+: frame ++ d.dropLast
  rest_free : ¬d <:+: rest

omit [DecidableEq α] in
theorem exists_prefix_drop_of_infix (h : d <:+: buf) : ∃ j, d <+: buf.drop j := by
  obtain ⟨t, hpre, hsuf⟩ := List.infix_iff_prefix_suffix.mp h
  rw [List.suffix_iff_eq_drop] at hsuf
  exact ⟨buf.length - t.length, hsuf ▸ hpre⟩

/-- What stands before the first delimiter is a frame. -/
theorem frame_free_of_position (hd : d ≠ []) (h : position d buf = some i) :
    ¬d <:+: buf.take i ++ d.dropLast := by
  intro hinf
  obtain ⟨j, hj⟩ := exists_prefix_drop_of_infix hinf
  have hlen := add_length_le_of_position hd h
  have hpos : 0 < d.length := List.length_pos_of_ne_nil hd
  have hbuf : buf.take i ++ d.dropLast <+: buf := by
    conv_rhs => rw [← List.take_append_drop i buf]
    rw [List.prefix_append_right_inj]
    exact (List.dropLast_prefix d).trans (prefix_drop_of_position h)
  have hle := hj.length_le
  rw [List.length_drop, List.length_append, List.length_take, List.length_dropLast] at hle
  exact not_prefix_of_lt_position h j (by omega) (hj.trans (hbuf.drop j))

/-- A frame is what stands before the first delimiter. -/
theorem position_of_frame_free (hd : d ≠ []) {frame : List α}
    (h : ¬d <:+: frame ++ d.dropLast) : position d (frame ++ d ++ more) = some frame.length := by
  refine position_frame hd fun j hj hpre => h ?_
  have hpos : 0 < d.length := List.length_pos_of_ne_nil hd
  have hlast : frame ++ d.dropLast <+: frame ++ d := by
    rw [List.prefix_append_right_inj]
    exact List.dropLast_prefix d
  have hshort : d <+: (frame ++ d.dropLast).drop j := by
    refine List.prefix_of_prefix_length_le hpre (hlast.drop j) ?_
    rw [List.length_drop, List.length_append, List.length_dropLast]
    omega
  exact hshort.isInfix.trans (List.drop_suffix j _).isInfix

namespace Split

variable {frames frames' : List (List α)} {frame rest rest' : List α}

theorem position_nil (hd : d ≠ []) (h : Split d buf [] rest) : position d buf = none := by
  rw [h.eq, position_eq_none hd]
  exact h.rest_free

theorem position_cons (hd : d ≠ []) (h : Split d buf (frame :: frames) rest) :
    position d buf = some frame.length := by
  rw [h.eq, List.flatMap_cons, List.append_assoc (frame ++ d)]
  exact position_of_frame_free hd (h.frame_free frame List.mem_cons_self)

omit [DecidableEq α] in
theorem take_eq (h : Split d buf (frame :: frames) rest) : buf.take frame.length = frame := by
  rw [h.eq, List.flatMap_cons, List.append_assoc, List.append_assoc, List.take_left]

omit [DecidableEq α] in
/-- Behind the first frame the others follow. -/
theorem tail (h : Split d buf (frame :: frames) rest) :
    Split d (buf.drop (frame.length + d.length)) frames rest where
  eq := by
    rw [h.eq, List.flatMap_cons, List.append_assoc (frame ++ d), ← List.length_append,
      List.drop_left]
  frame_free f hf := h.frame_free f (List.mem_cons_of_mem frame hf)
  rest_free := h.rest_free

/-- **There is one way to split.** -/
theorem unique (hd : d ≠ []) (h : Split d buf frames rest) (h' : Split d buf frames' rest') :
    frames = frames' ∧ rest = rest' := by
  induction frames generalizing buf frames' with
  | nil =>
    cases frames' with
    | nil => exact ⟨rfl, h.eq.symm.trans h'.eq⟩
    | cons frame' frames' =>
      have hsome := h'.position_cons hd
      rw [h.position_nil hd] at hsome
      cases hsome
  | cons frame frames ih =>
    cases frames' with
    | nil =>
      have hnone := h'.position_nil hd
      rw [h.position_cons hd] at hnone
      cases hnone
    | cons frame' frames' =>
      have hlen : frame.length = frame'.length :=
        Option.some.inj ((h.position_cons hd).symm.trans (h'.position_cons hd))
      have hframe : frame = frame' := by
        rw [← h.take_eq, ← h'.take_eq, hlen]
      subst hframe
      obtain ⟨hframes, hrest⟩ := ih h.tail h'.tail
      exact ⟨by rw [hframes], hrest⟩

end Split

/-- Every buffer can be split. -/
theorem exists_split (hd : d ≠ []) (buf : List α) : ∃ frames rest, Split d buf frames rest := by
  induction hn : buf.length using Nat.strong_induction_on generalizing buf with
  | _ n ih =>
    cases hpos : position d buf with
    | none =>
      exact ⟨[], buf, rfl, fun frame hframe => absurd hframe List.not_mem_nil,
        (position_eq_none hd).mp hpos⟩
    | some i =>
      have hlen := add_length_le_of_position hd hpos
      have hpos' : 0 < d.length := List.length_pos_of_ne_nil hd
      have hshort : (buf.drop (i + d.length)).length < n := by
        rw [List.length_drop]
        omega
      obtain ⟨frames, rest, hsplit⟩ := ih _ hshort _ rfl
      refine ⟨buf.take i :: frames, rest, ?_, ?_, hsplit.rest_free⟩
      · have hdelim : buf.drop i = d ++ buf.drop (i + d.length) := by
          rw [← List.drop_drop]
          exact (List.prefix_append_drop (prefix_drop_of_position hpos))
        rw [List.flatMap_cons, List.append_assoc, ← hsplit.eq, List.append_assoc, ← hdelim,
          List.take_append_drop]
      · intro frame hframe
        rcases List.mem_cons.mp hframe with rfl | hmem
        · exact frame_free_of_position hd hpos
        · exact hsplit.frame_free frame hmem

/-- The frames in the beginning of a buffer come first. -/
theorem Split.frames_prefix {frames frames' : List (List α)} {rest rest' : List α} (hd : d ≠ [])
    (h : Split d buf frames rest) (h' : Split d (buf ++ more) frames' rest') :
    frames <+: frames' := by
  obtain ⟨frames₁, rest₁, hsplit⟩ := exists_split hd (rest ++ more)
  have hall : Split d (buf ++ more) (frames ++ frames₁) rest₁ := by
    refine ⟨?_, fun frame hframe => ?_, hsplit.rest_free⟩
    · rw [h.eq, List.append_assoc, hsplit.eq, List.flatMap_append, List.append_assoc]
    · rcases List.mem_append.mp hframe with hframe | hframe
      · exact h.frame_free frame hframe
      · exact hsplit.frame_free frame hframe
  rw [← (hall.unique hd h').1]
  exact List.prefix_append _ _

/-- What stands before the delimiter in a block that is one frame, or nothing. -/
def frameOf? (d : List α) : List α → Option (List α)
  | [] => none
  | block => some (block.take (block.length - d.length))

omit [DecidableEq α] in
theorem frameOf?_frame (hd : d ≠ []) (frame : List α) : frameOf? d (frame ++ d) = some frame := by
  have hne : frame ++ d ≠ [] := List.append_ne_nil_of_right_ne_nil _ hd
  rw [frameOf?, List.length_append, Nat.add_sub_cancel, List.take_left]
  exact hne

omit [DecidableEq α] in
/-- Written one after the other, blocks are split into their frames again. -/
theorem split_blocks (hd : d ≠ []) {blocks : List (List α)}
    (h : ∀ block ∈ blocks, block = [] ∨ ∃ frame, block = frame ++ d ∧ ¬d <:+: frame ++ d.dropLast) :
    Split d blocks.flatten (blocks.filterMap (frameOf? d)) [] := by
  induction blocks with
  | nil =>
    refine ⟨rfl, fun frame hframe => absurd hframe List.not_mem_nil, fun hinf => ?_⟩
    exact hd (List.infix_nil.mp hinf)
  | cons block blocks ih =>
    have hrest := ih fun b hb => h b (List.mem_cons_of_mem _ hb)
    rcases h block List.mem_cons_self with rfl | ⟨frame, rfl, hfree⟩
    · rw [List.flatten_cons, List.nil_append, List.filterMap_cons_none rfl]
      exact hrest
    · rw [List.flatten_cons, List.filterMap_cons_some (frameOf?_frame hd frame)]
      refine ⟨?_, fun f hf => ?_, hrest.rest_free⟩
      · rw [List.flatMap_cons, List.append_assoc, List.append_assoc, ← hrest.eq, List.append_assoc]
      · rcases List.mem_cons.mp hf with rfl | hf
        · exact hfree
        · exact hrest.frame_free f hf

end Position

/-! ## Incremental decoders -/

/-- A decoder with state `σ` over symbols `α`. From its state and the buffer it makes an item, its
next state and the rest of the buffer, or `none` when it needs more input. After an item that
`stops` it is not called again. -/
structure Decoder (σ α ω : Type*) where
  decode : σ → List α → Option (ω × σ × List α)
  stops : ω → Bool

namespace Decoder

variable {σ α ω : Type*}

/-- What a decoder must satisfy for its items not to depend on the chunks. -/
structure Lawful (D : Decoder σ α ω) : Prop where
  extend : ∀ {s buf o s' rest} more, D.decode s buf = some (o, s', rest) →
    D.decode s (buf ++ more) = some (o, s', rest ++ more)
  shrink : ∀ {s buf o s' rest}, D.decode s buf = some (o, s', rest) → rest.length < buf.length

/-- The items found, and the state and buffer left behind, unless an item stopped the decoder. -/
structure Drained (σ α ω : Type*) where
  items : List ω
  residual : Option (σ × List α)

/-- Go on from the state and buffer left behind, if the decoder was not stopped. -/
def Drained.andThen (d : Drained σ α ω) (f : σ → List α → Drained σ α ω) : Drained σ α ω :=
  match d.residual with
  | none => d
  | some (s, buf) => ⟨d.items ++ (f s buf).items, (f s buf).residual⟩

def Drained.cons (o : ω) (d : Drained σ α ω) : Drained σ α ω := ⟨o :: d.items, d.residual⟩

@[simp]
theorem Drained.cons_andThen (o : ω) (d : Drained σ α ω) (f : σ → List α → Drained σ α ω) :
    (d.cons o).andThen f = (d.andThen f).cons o := by
  obtain ⟨items, residual⟩ := d
  cases residual <;> rfl

@[simp]
theorem Drained.andThen_nil (s : σ) (buf : List α) (f : σ → List α → Drained σ α ω) :
    (⟨[], some (s, buf)⟩ : Drained σ α ω).andThen f = f s buf := rfl

theorem Drained.andThen_some (items : List ω) (s : σ) (buf : List α)
    (f : σ → List α → Drained σ α ω) :
    (⟨items, some (s, buf)⟩ : Drained σ α ω).andThen f =
      ⟨items ++ (f s buf).items, (f s buf).residual⟩ := rfl

variable (D : Decoder σ α ω)

/-- Decode until the decoder needs more input or stops, at most `n` items. -/
def drainN : ℕ → σ → List α → Drained σ α ω
  | 0, s, buf => ⟨[], some (s, buf)⟩
  | n + 1, s, buf =>
    match D.decode s buf with
    | none => ⟨[], some (s, buf)⟩
    | some (o, s', rest) => if D.stops o then ⟨[o], none⟩ else (drainN n s' rest).cons o

/-- Decode until the decoder needs more input or stops. A buffer holds at most as many items as
symbols. -/
def drain (s : σ) (buf : List α) : Drained σ α ω := D.drainN buf.length s buf

/-- Append the chunks one at a time and drain after each. -/
def feed (s : σ) (buf : List α) : List (List α) → Drained σ α ω
  | [] => ⟨[], some (s, buf)⟩
  | chunk :: chunks => (D.drain s (buf ++ chunk)).andThen fun s' buf' => feed s' buf' chunks

variable {D}

theorem Lawful.decode_nil (h : D.Lawful) (s : σ) : D.decode s [] = none := by
  cases hd : D.decode s [] with
  | none => rfl
  | some r =>
    have hlt := h.shrink hd
    rw [List.length_nil] at hlt
    omega

/-- One item more than there are symbols changes nothing. -/
theorem Lawful.drainN_eq (h : D.Lawful) {n : ℕ} {s : σ} {buf : List α} (hn : buf.length ≤ n) :
    D.drainN n s buf = D.drain s buf := by
  rw [drain]
  induction n using Nat.strong_induction_on generalizing s buf with
  | _ n ih =>
    cases n with
    | zero =>
      have hlen : buf.length = 0 := by omega
      rw [hlen]
    | succ n =>
      cases hlen : buf.length with
      | zero =>
        have hbuf : buf = [] := List.eq_nil_of_length_eq_zero hlen
        rw [hbuf, drainN, drainN, h.decode_nil]
      | succ k =>
        rw [drainN, drainN]
        cases hd : D.decode s buf with
        | none => rfl
        | some r =>
          obtain ⟨o, s', rest⟩ := r
          have hlt := h.shrink hd
          show (if D.stops o then _ else _) = if D.stops o then _ else _
          rw [ih n (by omega) (by omega), ← ih k (by omega) (by omega)]

/-- The equation of `drain`. -/
theorem Lawful.drain_eq (h : D.Lawful) (s : σ) (buf : List α) :
    D.drain s buf =
      match D.decode s buf with
      | none => ⟨[], some (s, buf)⟩
      | some (o, s', rest) => if D.stops o then ⟨[o], none⟩ else (D.drain s' rest).cons o := by
  rw [← h.drainN_eq (Nat.le_succ _), drainN]
  cases hd : D.decode s buf with
  | none => rfl
  | some r =>
    obtain ⟨o, s', rest⟩ := r
    have hlt := h.shrink hd
    show (if D.stops o then _ else _) = if D.stops o then _ else _
    rw [h.drainN_eq (by omega)]

theorem Lawful.drain_of_none (h : D.Lawful) {s : σ} {buf : List α} (hd : D.decode s buf = none) :
    D.drain s buf = ⟨[], some (s, buf)⟩ := by
  rw [h.drain_eq, hd]

/-- What is left behind is something the decoder needs more input for. -/
theorem Lawful.decode_residual (h : D.Lawful) {s s' : σ} {buf rest : List α}
    (hr : (D.drain s buf).residual = some (s', rest)) : D.decode s' rest = none := by
  induction hn : buf.length using Nat.strong_induction_on generalizing s buf with
  | _ n ih =>
    rw [h.drain_eq] at hr
    cases hd : D.decode s buf with
    | none =>
      rw [hd] at hr
      simp only [Option.some.injEq, Prod.mk.injEq] at hr
      obtain ⟨rfl, rfl⟩ := hr
      exact hd
    | some r =>
      obtain ⟨o, s₁, rest₁⟩ := r
      have hlt := h.shrink hd
      rw [hd] at hr
      simp only at hr
      split at hr
      · cases hr
      · exact ih rest₁.length (by omega) hr rfl

/-- Draining a buffer that has grown is draining it before and after. -/
theorem Lawful.drain_append (h : D.Lawful) (s : σ) (buf more : List α) :
    D.drain s (buf ++ more) =
      (D.drain s buf).andThen fun s' rest => D.drain s' (rest ++ more) := by
  induction hn : buf.length using Nat.strong_induction_on generalizing s buf with
  | _ n ih =>
    cases hd : D.decode s buf with
    | none => rw [h.drain_of_none hd, Drained.andThen_nil]
    | some r =>
      obtain ⟨o, s', rest⟩ := r
      have hlt := h.shrink hd
      rw [h.drain_eq s (buf ++ more), h.extend more hd, h.drain_eq s buf, hd]
      by_cases hstop : D.stops o
      · simp only [hstop, if_true]
        rfl
      · simp only [hstop]
        rw [ih rest.length (by omega) s' rest rfl]
        exact (Drained.cons_andThen o _ _).symm

/-- An item that can be decoded is the first one. -/
theorem Lawful.exists_items_eq_cons (h : D.Lawful) {s s' : σ} {buf rest : List α} {o : ω}
    (hd : D.decode s buf = some (o, s', rest)) : ∃ os, (D.drain s buf).items = o :: os := by
  rw [h.drain_eq, hd]
  simp only
  split
  · exact ⟨[], rfl⟩
  · exact ⟨_, rfl⟩

/-- The items in the beginning of the input come first. -/
theorem Lawful.items_prefix (h : D.Lawful) (s : σ) {buf buf' : List α} (hpre : buf <+: buf') :
    (D.drain s buf).items <+: (D.drain s buf').items := by
  obtain ⟨more, rfl⟩ := hpre
  rw [h.drain_append, Drained.andThen]
  split
  · exact List.prefix_refl _
  · exact List.prefix_append _ _

/-- **The cuts do not matter.** Feeding a decoder chunk by chunk gives the same items, the same
stop and the same residual as feeding it everything at once. -/
theorem Lawful.feed_eq (h : D.Lawful) {s : σ} {buf : List α} (hbuf : D.decode s buf = none)
    (chunks : List (List α)) : D.feed s buf chunks = D.drain s (buf ++ chunks.flatten) := by
  induction chunks generalizing s buf with
  | nil => rw [feed, List.flatten_nil, List.append_nil, h.drain_of_none hbuf]
  | cons chunk chunks ih =>
    rw [feed, List.flatten_cons, ← List.append_assoc, h.drain_append s (buf ++ chunk)]
    cases hres : (D.drain s (buf ++ chunk)).residual with
    | none => simp [Drained.andThen, hres]
    | some r =>
      obtain ⟨s', rest⟩ := r
      simp only [Drained.andThen, hres]
      rw [ih (h.decode_residual hres)]

/-! ## Single calls -/

variable (D) in
/-- A call as a change of the state and the buffer. It changes nothing if it needs more input. -/
def call (s : σ) (buf : List α) : Option ω × σ × List α :=
  match D.decode s buf with
  | none => (none, s, buf)
  | some (o, s', rest) => (some o, s', rest)

variable (D) in
/-- The state and the buffer after `n` calls, whatever these find. -/
def after : ℕ → σ → List α → σ × List α
  | 0, s, buf => (s, buf)
  | n + 1, s, buf => after n (D.call s buf).2.1 (D.call s buf).2.2

variable (D) in
/-- What a call finds after `n` others. -/
def found (n : ℕ) (s : σ) (buf : List α) : Option ω :=
  (D.call (D.after n s buf).1 (D.after n s buf).2).1

theorem call_of_none {s : σ} {buf : List α} (h : (D.call s buf).1 = none) :
    (D.call s buf).2 = (s, buf) := by
  unfold call at h ⊢
  split at h
  · rfl
  · cases h

section Delimited

variable [DecidableEq α] {d : List α} {item : List α → ω} {next : σ → ω → σ}

/-- A decoder that takes the first frame off the buffer, makes an item of it and moves on to a
state given by the item. -/
def Delimited (D : Decoder σ α ω) (d : List α) (item : List α → ω) (next : σ → ω → σ) : Prop :=
  ∀ s buf, D.decode s buf = (position d buf).map fun i =>
    (item (buf.take i), next s (item (buf.take i)), buf.drop (i + d.length))

namespace Delimited

variable {s : σ} {buf rest frame : List α} {frames : List (List α)}

/-- A frame ends at the first delimiter, and more input does not change which one that is. -/
theorem lawful (h : D.Delimited d item next) (hd : d ≠ []) : D.Lawful where
  extend := by
    intro s buf o s' rest more hdecode
    rw [h, Option.map_eq_some_iff] at hdecode
    obtain ⟨i, hpos, heq⟩ := hdecode
    simp only [Prod.mk.injEq] at heq
    obtain ⟨rfl, rfl, rfl⟩ := heq
    have hlen := add_length_le_of_position hd hpos
    rw [h, position_append hpos hd, Option.map_some,
      List.take_append_of_le_length (by omega), List.drop_append_of_le_length (by omega)]
  shrink := by
    intro s buf o s' rest hdecode
    rw [h, Option.map_eq_some_iff] at hdecode
    obtain ⟨i, hpos, heq⟩ := hdecode
    simp only [Prod.mk.injEq] at heq
    obtain ⟨rfl, rfl, rfl⟩ := heq
    have hlen := add_length_le_of_position hd hpos
    have hpos' : 0 < d.length := List.length_pos_of_ne_nil hd
    rw [List.length_drop]
    omega

theorem call_nil (h : D.Delimited d item next) (hd : d ≠ []) (hs : Split d buf [] rest) :
    D.call s buf = (none, s, buf) := by
  rw [call, h, hs.position_nil hd]
  rfl

theorem call_cons (h : D.Delimited d item next) (hd : d ≠ [])
    (hs : Split d buf (frame :: frames) rest) :
    D.call s buf =
      (some (item frame), next s (item frame), buf.drop (frame.length + d.length)) := by
  rw [call, h, hs.position_cons hd, Option.map_some, hs.take_eq]

/-- **Where the calls get.** After `n` calls the first `n` frames are gone, and nothing else is. -/
theorem after_eq (h : D.Delimited d item next) (hd : d ≠ []) (hs : Split d buf frames rest)
    (n : ℕ) : D.after n s buf = (((frames.take n).map item).foldl next s,
      (frames.drop n).flatMap (· ++ d) ++ rest) := by
  induction n generalizing s buf frames with
  | zero => rw [after, List.drop_zero, ← hs.eq, List.take_zero, List.map_nil, List.foldl_nil]
  | succ n ih =>
    cases frames with
    | nil =>
      rw [after, h.call_nil hd hs, ih hs, List.take_nil, List.take_nil, List.drop_nil,
        List.drop_nil]
    | cons frame frames =>
      rw [after, h.call_cons hd hs, ih hs.tail, List.take_succ_cons, List.drop_succ_cons,
        List.map_cons, List.foldl_cons]

/-- What is left after `n` calls is split into the remaining frames. -/
theorem split_after (h : D.Delimited d item next) (hd : d ≠ []) (hs : Split d buf frames rest)
    (n : ℕ) : Split d (D.after n s buf).2 (frames.drop n) rest where
  eq := by rw [h.after_eq hd hs]
  frame_free f hf := hs.frame_free f (List.mem_of_mem_drop hf)
  rest_free := hs.rest_free

/-- The calls find the frames in order, and nothing after the last one. -/
theorem found_eq (h : D.Delimited d item next) (hd : d ≠ []) (hs : Split d buf frames rest)
    (n : ℕ) : D.found n s buf = frames[n]?.map item := by
  have hafter := h.split_after (s := s) hd hs n
  rw [found, ← List.head?_drop]
  cases hdrop : frames.drop n with
  | nil =>
    rw [hdrop] at hafter
    rw [h.call_nil hd hafter]
    rfl
  | cons frame frames' =>
    rw [hdrop] at hafter
    rw [h.call_cons hd hafter]
    rfl

end Delimited

end Delimited

end Decoder

end Lightspeed
