import Mathlib.Data.List.DropRight
import Lightspeed.Utf8

/-!
# Strings

The methods of Rust's `str` that a text protocol is read with, over lists of characters.
-/

namespace Lightspeed

/-- A `String`. -/
abbrev Text := List Char

namespace Str

/-- `s.contains(pat)` -/
def contains (s pat : Text) : Bool := decide (pat <:+: s)

/-- `s.split(sep).collect()`, which is never empty. -/
def split (s : Text) (sep : Char) : List Text := s.splitOn sep

/-- `char::is_whitespace`, the Unicode property `White_Space`. -/
def isWhitespace (c : Char) : Bool :=
  let v := c.toNat
  decide ((9 ≤ v ∧ v ≤ 13) ∨ v = 0x20 ∨ v = 0x85 ∨ v = 0xA0 ∨ v = 0x1680 ∨
    (0x2000 ≤ v ∧ v ≤ 0x200A) ∨ v = 0x2028 ∨ v = 0x2029 ∨ v = 0x202F ∨ v = 0x205F ∨ v = 0x3000)

/-- `s.trim()` -/
def trim (s : Text) : Text := (s.dropWhile isWhitespace).rdropWhile isWhitespace

/-- `s.len()`, which counts bytes. -/
def len (s : Text) : ℕ := (Utf8.encode s).length

variable {s t pat : Text} {c sep : Char}

theorem contains_iff : contains s pat = true ↔ pat <:+: s := decide_eq_true_iff

theorem contains_eq_true (h : pat <:+: s) : contains s pat = true := decide_eq_true h

theorem contains_eq_false (h : ¬pat <:+: s) : contains s pat = false := decide_eq_false h

/-- A text lacks every pattern with a character it lacks. -/
theorem not_infix_of_not_mem (hc : c ∈ pat) (hs : c ∉ s) : ¬pat <:+: s := by
  intro h
  exact hs (h.subset hc)

theorem contains_singleton : contains s [c] = true ↔ c ∈ s := by
  rw [contains, decide_eq_true_eq, List.singleton_infix_iff]

/-- A pattern without the character `c` ends before the first `c`. -/
theorem prefix_append_cons (hc : c ∉ pat) (h : pat <+: s ++ c :: t) : pat <+: s := by
  by_cases hlen : pat.length ≤ s.length
  · exact List.prefix_of_prefix_length_le h (List.prefix_append _ _) hlen
  · have hsc : s ++ [c] <+: s ++ c :: t := ⟨t, by simp⟩
    have hpre : s ++ [c] <+: pat := by
      refine List.prefix_of_prefix_length_le hsc h ?_
      rw [List.length_append, List.length_singleton]
      omega
    exact absurd (hpre.subset (by simp)) hc

/-- A pattern without the character `c` does not reach over a `c`. -/
theorem infix_append_cons (hc : c ∉ pat) (h : pat <:+: s ++ c :: t) :
    pat <:+: s ∨ pat <:+: t := by
  induction s with
  | nil =>
    rw [List.nil_append, List.infix_cons_iff] at h
    rcases h with h | h
    · left
      exact (prefix_append_cons (s := []) hc h).isInfix
    · exact .inr h
  | cons d s ih =>
    rw [List.cons_append, List.infix_cons_iff] at h
    rcases h with h | h
    · left
      exact (prefix_append_cons (s := d :: s) hc h).isInfix
    · rcases ih h with h | h
      · exact .inl (List.infix_cons h)
      · exact .inr h

/-- The first part ends at the first separator. -/
theorem split_append_cons (h : sep ∉ s) : split (s ++ sep :: t) sep = s :: split t sep :=
  List.splitOn_append_cons_self_of_not_mem h t

theorem split_of_not_mem (h : sep ∉ s) : split s sep = [s] :=
  List.splitOn_eq_singleton h

/-- The first part is what stands before the first separator. -/
theorem exists_split_eq_cons (s : Text) (sep : Char) :
    ∃ more, split s sep = s.takeWhile (fun c => decide (c ≠ sep)) :: more := by
  by_cases h : sep ∈ s
  · obtain ⟨before, after, rfl, hbefore⟩ := List.eq_append_cons_of_mem h
    refine ⟨split after sep, ?_⟩
    have hstop : (before ++ sep :: after).takeWhile (fun c => decide (c ≠ sep)) = before := by
      rw [List.takeWhile_append_of_pos, List.takeWhile_cons_of_neg (by simp), List.append_nil]
      intro c hc
      rw [decide_eq_true_eq]
      rintro rfl
      exact hbefore hc
    rw [split_append_cons hbefore, hstop]
  · refine ⟨[], ?_⟩
    have hall : s.takeWhile (fun c => decide (c ≠ sep)) = s := by
      rw [List.takeWhile_eq_self_iff]
      intro c hc
      rw [decide_eq_true_eq]
      rintro rfl
      exact h hc
    rw [split_of_not_mem h, hall]

/-- A second part is there when there is a separator, and the rest is split like a text of its
own. -/
theorem split_eq_cons_cons {x y : Text} {more : List Text} :
    split s sep = x :: y :: more ↔
      ∃ t, s = x ++ sep :: t ∧ sep ∉ x ∧ split t sep = y :: more := by
  constructor
  · intro h
    by_cases hmem : sep ∈ s
    · obtain ⟨before, after, rfl, hbefore⟩ := List.eq_append_cons_of_mem hmem
      rw [split_append_cons hbefore, List.cons.injEq] at h
      obtain ⟨rfl, hrest⟩ := h
      exact ⟨after, rfl, hbefore, hrest⟩
    · rw [split_of_not_mem hmem] at h
      cases h
  · rintro ⟨t, rfl, hx, ht⟩
    rw [split_append_cons hx, ht]

/-- The first part begins as the text does. -/
theorem exists_split_eq_cons_cons_iff :
    (∃ x more, split s sep = (c :: x) :: more) ↔ c ≠ sep ∧ ∃ t, s = c :: t := by
  obtain ⟨more, hmore⟩ := exists_split_eq_cons s sep
  rw [hmore]
  constructor
  · rintro ⟨x, more', h⟩
    rw [List.cons.injEq] at h
    cases s with
    | nil => cases h.1
    | cons d t =>
      by_cases hd : d = sep
      · rw [List.takeWhile_cons_of_neg (by simpa using hd)] at h
        cases h.1
      · rw [List.takeWhile_cons_of_pos (by simpa using hd), List.cons.injEq] at h
        obtain ⟨⟨rfl, -⟩, -⟩ := h
        exact ⟨hd, t, rfl⟩
  · rintro ⟨hc, t, rfl⟩
    rw [List.takeWhile_cons_of_pos (by simpa using hc)]
    exact ⟨_, _, rfl⟩

/-- A trimmed text does not end with whitespace. -/
theorem isWhitespace_of_trim_eq (h : trim s = s) (hlast : s.getLast? = some c) :
    isWhitespace c = false := by
  have hsuffix : s.dropWhile isWhitespace <:+ s := List.dropWhile_suffix _
  have hlen : s.length ≤ (s.dropWhile isWhitespace).length := by
    conv_lhs => rw [← h, trim]
    exact (List.rdropWhile_prefix _ _).length_le
  have hleft : s.dropWhile isWhitespace = s := hsuffix.eq_of_length_le hlen
  rw [trim, hleft, List.rdropWhile_eq_self_iff] at h
  have hne : s ≠ [] := by
    rintro rfl
    cases hlast
  have hc : s.getLast hne = c := by
    rw [List.getLast?_eq_some_getLast hne] at hlast
    exact Option.some.inj hlast
  simpa [hc] using h hne

theorem trim_cons (h : isWhitespace c = true) : trim (c :: s) = trim s := by
  rw [trim, List.dropWhile_cons_of_pos h, trim]

end Str

end Lightspeed
