import Mathlib.Data.List.TakeWhile
import Lightspeed.Decimal
import Lightspeed.Hex
import Lightspeed.Utf8

/-!
# JSON

JSON texts as `encoding/json` reads them. A number keeps its literal; the members of an object keep
their order, their duplicates and the text of their values. In a string an escaped surrogate
without its partner and every byte that is not UTF-8 become U+FFFD. There is no limit on the
nesting.

The reader descends with a fuel, of which twice the length of the text is enough
(`parse_eq_of_lt`).
-/

namespace Lightspeed.Json

open Decimal (isDigit)

inductive Value
  | null
  | bool (b : Bool)
  | number (literal : List UInt8)
  | string (s : List Char)
  | array (items : List Value)
  | object (members : List (List Char × List UInt8 × Value))

namespace Reader

/-! ## Words -/

def isSpace (b : UInt8) : Bool := b == 0x20 || b == 0x09 || b == 0x0A || b == 0x0D

def skip (s : List UInt8) : List UInt8 := s.dropWhile isSpace

/-- The part of `s` in front of `rest`. -/
def before (s rest : List UInt8) : List UInt8 := s.take (s.length - rest.length)

/-- The rest after `word`. -/
def word (word s : List UInt8) : Option (List UInt8) :=
  if word <+: s then some (s.drop word.length) else none

/-! ## Numbers -/

/-- At least one digit. -/
def digits : List UInt8 → Option (List UInt8)
  | [] => none
  | b :: s => if isDigit b then some (s.dropWhile isDigit) else none

/-- A zero, or digits that do not begin with one. -/
def integer : List UInt8 → Option (List UInt8)
  | [] => none
  | b :: s => if b = 0x30 then some s else digits (b :: s)

def fraction : List UInt8 → Option (List UInt8)
  | [] => some []
  | b :: s => if b = 0x2E then digits s else some (b :: s)

def sign (signs : List UInt8) : List UInt8 → List UInt8
  | [] => []
  | b :: s => if b ∈ signs then s else b :: s

def exponent : List UInt8 → Option (List UInt8)
  | [] => some []
  | b :: s => if b = 0x65 ∨ b = 0x45 then digits (sign [0x2B, 0x2D] s) else some (b :: s)

def number (s : List UInt8) : Option (Value × List UInt8) :=
  (integer (sign [0x2D] s)).bind fun r => (fraction r).bind fun r => (exponent r).map fun r =>
    (.number (before s r), r)

/-! ## Strings -/

/-- What a string is made of: bytes, and the UTF-16 units of its `\u` escapes. -/
inductive Piece
  | byte (b : UInt8)
  | unit (u : ℕ)

def hexDigit (b : UInt8) : Option ℕ := Hex.value (Char.ofNat b.toNat)

def unit (h₁ h₂ h₃ h₄ : UInt8) : Option ℕ := do
  let a ← hexDigit h₁
  let b ← hexDigit h₂
  let c ← hexDigit h₃
  let d ← hexDigit h₄
  return 4096 * a + 256 * b + 16 * c + d

/-- The byte that a backslash and `b` stand for. -/
def escape (b : UInt8) : Option UInt8 :=
  if b = 0x22 ∨ b = 0x5C ∨ b = 0x2F then some b
  else if b = 0x62 then some 0x08
  else if b = 0x66 then some 0x0C
  else if b = 0x6E then some 0x0A
  else if b = 0x72 then some 0x0D
  else if b = 0x74 then some 0x09
  else none

/-- The pieces up to the closing quote, and what is behind it. -/
def pieces : List UInt8 → Option (List Piece × List UInt8)
  | [] => none
  | b :: s =>
    if b = 0x22 then some ([], s)
    else if b = 0x5C then
      match s with
      | [] => none
      | e :: s =>
        if e = 0x75 then
          match s with
          | h₁ :: h₂ :: h₃ :: h₄ :: s =>
            (unit h₁ h₂ h₃ h₄).bind fun u => (pieces s).map fun r => (.unit u :: r.1, r.2)
          | _ => none
        else (escape e).bind fun x => (pieces s).map fun r => (.byte x :: r.1, r.2)
    else if b < 0x20 then none
    else (pieces s).map fun r => (.byte b :: r.1, r.2)

/-- U+FFFD -/
def replacement : Char := Char.ofNat 0xFFFD

def isHigh (u : ℕ) : Bool := decide (0xD800 ≤ u ∧ u < 0xDC00)

def isLow (u : ℕ) : Bool := decide (0xDC00 ≤ u ∧ u < 0xE000)

/-- A unit that is not part of a pair. -/
def single (u : ℕ) : Char := if isHigh u || isLow u then replacement else Char.ofNat u

/-- A surrogate pair. -/
def pair (hi lo : ℕ) : Char := Char.ofNat (0x10000 + 1024 * (hi - 0xD800) + (lo - 0xDC00))

/-- The bytes in front. -/
def leading : List Piece → List UInt8
  | .byte b :: ps => b :: leading ps
  | _ => []

/-- The characters of a string. The first `k` bytes belong to a character already read. -/
def text (k : ℕ) : List Piece → List Char
  | [] => []
  | .byte b :: ps =>
    match k with
    | k + 1 => text k ps
    | 0 =>
      match (Utf8.scan b.toNat (leading ps)).1 with
      | some c => c :: text (Utf8.width b.toNat - 1) ps
      | none => replacement :: text 0 ps
  | .unit hi :: .unit lo :: ps =>
    if isHigh hi && isLow lo then pair hi lo :: text 0 ps
    else single hi :: text 0 (.unit lo :: ps)
  | .unit u :: ps => single u :: text 0 ps

/-- A string after its opening quote. -/
def string (s : List UInt8) : Option (List Char × List UInt8) :=
  (pieces s).map fun r => (text 0 r.1, r.2)

/-! ## Values -/

mutual

/-- A value without space in front of it, and what is behind it. -/
def value : ℕ → List UInt8 → Option (Value × List UInt8)
  | 0, _ => none
  | _ + 1, [] => none
  | n + 1, b :: s =>
    if b = 0x6E then (word [0x75, 0x6C, 0x6C] s).map fun r => (.null, r)
    else if b = 0x74 then (word [0x72, 0x75, 0x65] s).map fun r => (.bool true, r)
    else if b = 0x66 then (word [0x61, 0x6C, 0x73, 0x65] s).map fun r => (.bool false, r)
    else if b = 0x22 then (string s).map fun r => (.string r.1, r.2)
    else if b = 0x5B then
      if (skip s).head? = some 0x5D then some (.array [], (skip s).tail)
      else (items n (skip s)).map fun r => (.array r.1, r.2)
    else if b = 0x7B then
      if (skip s).head? = some 0x7D then some (.object [], (skip s).tail)
      else (members n (skip s)).map fun r => (.object r.1, r.2)
    else number (b :: s)

/-- The items of an array that is not empty, up to its closing bracket. -/
def items : ℕ → List UInt8 → Option (List Value × List UInt8)
  | 0, _ => none
  | n + 1, s =>
    (value n s).bind fun r =>
      match skip r.2 with
      | [] => none
      | b :: s =>
        if b = 0x5D then some ([r.1], s)
        else if b = 0x2C then (items n (skip s)).map fun r' => (r.1 :: r'.1, r'.2)
        else none

/-- The members of an object that is not empty, up to its closing brace. -/
def members : ℕ → List UInt8 → Option (List (List Char × List UInt8 × Value) × List UInt8)
  | 0, _ => none
  | n + 1, s =>
    (word [0x22] s).bind fun s =>
    (string s).bind fun key =>
    (word [0x3A] (skip key.2)).bind fun s =>
      (value n (skip s)).bind fun r =>
        match skip r.2 with
        | [] => none
        | b :: s' =>
          if b = 0x7D then some ([(key.1, before (skip s) r.2, r.1)], s')
          else if b = 0x2C then
            (members n (skip s')).map fun r' => ((key.1, before (skip s) r.2, r.1) :: r'.1, r'.2)
          else none

end

/-! ## What is left is shorter -/

theorem word_eq_some {w s r : List UInt8} : word w s = some r ↔ s = w ++ r := by
  unfold word
  constructor
  · intro h
    split at h
    · next hpre =>
      rw [← Option.some.inj h]
      exact (List.prefix_append_drop hpre)
    · cases h
  · rintro rfl
    rw [if_pos (List.prefix_append w r), List.drop_left]

theorem length_skip_le (s : List UInt8) : (skip s).length ≤ s.length :=
  (List.dropWhile_suffix isSpace).length_le

theorem length_sign_le (signs s : List UInt8) : (sign signs s).length ≤ s.length := by
  unfold sign
  split
  · exact Nat.le_refl _
  · split
    · exact Nat.le_succ _
    · exact Nat.le_refl _

theorem digits_shrink {s r : List UInt8} (h : digits s = some r) : r.length < s.length := by
  unfold digits at h
  split at h
  · cases h
  · next b s =>
    split at h
    · rw [← Option.some.inj h, List.length_cons]
      have hle : (s.dropWhile isDigit).length ≤ s.length :=
        (List.dropWhile_suffix isDigit).length_le
      omega
    · cases h

theorem integer_shrink {s r : List UInt8} (h : integer s = some r) : r.length < s.length := by
  unfold integer at h
  split at h
  · cases h
  · split at h
    · rw [← Option.some.inj h]
      exact Nat.lt_succ_self _
    · exact digits_shrink h

theorem fraction_shrink {s r : List UInt8} (h : fraction s = some r) : r.length ≤ s.length := by
  unfold fraction at h
  split at h
  · rw [← Option.some.inj h]
  · split at h
    · have hlt := digits_shrink h
      rw [List.length_cons]
      omega
    · rw [← Option.some.inj h]

theorem exponent_shrink {s r : List UInt8} (h : exponent s = some r) : r.length ≤ s.length := by
  unfold exponent at h
  split at h
  · rw [← Option.some.inj h]
  · next b s =>
    split at h
    · have hlt := digits_shrink h
      have hle := length_sign_le [0x2B, 0x2D] s
      rw [List.length_cons]
      omega
    · rw [← Option.some.inj h]

theorem number_shrink {s r : List UInt8} {v : Value} (h : number s = some (v, r)) :
    r.length < s.length := by
  simp only [number, Option.bind_eq_some_iff, Option.map_eq_some_iff, Prod.mk.injEq] at h
  obtain ⟨r₁, h₁, r₂, h₂, r₃, h₃, -, rfl⟩ := h
  have hsign := length_sign_le [0x2D] s
  have hinteger := integer_shrink h₁
  have hfraction := fraction_shrink h₂
  have hexponent := exponent_shrink h₃
  omega

theorem pieces_shrink {s : List UInt8} {r : List Piece × List UInt8} (h : pieces s = some r) :
    r.2.length < s.length := by
  fun_induction pieces s generalizing r with
  | case2 s =>
    rw [← Option.some.inj h]
    exact Nat.lt_succ_self _
  | case4 h₁ h₂ h₃ h₄ s _ ih =>
    rw [Option.bind_eq_some_iff] at h
    obtain ⟨u, -, h⟩ := h
    obtain ⟨r, hr, rfl⟩ := Option.map_eq_some_iff.mp h
    have hlt : r.2.length < s.length := ih hr
    simp only [List.length_cons]
    omega
  | case6 e s _ _ ih =>
    rw [Option.bind_eq_some_iff] at h
    obtain ⟨x, -, h⟩ := h
    obtain ⟨r, hr, rfl⟩ := Option.map_eq_some_iff.mp h
    have hlt : r.2.length < s.length := ih hr
    simp only [List.length_cons]
    omega
  | case8 b s _ _ _ ih =>
    obtain ⟨r, hr, rfl⟩ := Option.map_eq_some_iff.mp h
    have hlt : r.2.length < s.length := ih hr
    simp only [List.length_cons]
    omega
  | _ => cases h

theorem string_shrink {s : List UInt8} {r : List Char × List UInt8} (h : string s = some r) :
    r.2.length < s.length := by
  obtain ⟨r, hr, rfl⟩ := Option.map_eq_some_iff.mp h
  exact pieces_shrink hr

theorem word_shrink {b : UInt8} {w s r : List UInt8} (h : word (b :: w) s = some r) :
    r.length < s.length := by
  rw [word_eq_some.mp h, List.length_append, List.length_cons]
  omega

theorem length_of_skip {s s' : List UInt8} {b : UInt8} (h : skip s = b :: s') :
    s'.length < s.length := by
  have hle := length_skip_le s
  rw [h, List.length_cons] at hle
  omega

/-- With fuel `n` the three readers leave less than they get. -/
structure Shrink (n : ℕ) : Prop where
  value : ∀ {s r}, value n s = some r → r.2.length < s.length
  items : ∀ {s r}, items n s = some r → r.2.length < s.length
  members : ∀ {s r}, members n s = some r → r.2.length < s.length

theorem Shrink.value_succ {n : ℕ} (h : Shrink n) {s : List UInt8} {r : Value × List UInt8}
    (hv : Reader.value (n + 1) s = some r) : r.2.length < s.length := by
  cases s with
  | nil =>
    rw [Reader.value] at hv
    cases hv
  | cons b s =>
    have hskip := length_skip_le s
    rw [Reader.value] at hv
    rw [List.length_cons]
    split_ifs at hv
    · obtain ⟨r, hr, rfl⟩ := Option.map_eq_some_iff.mp hv
      exact (word_shrink hr).trans (Nat.lt_succ_self _)
    · obtain ⟨r, hr, rfl⟩ := Option.map_eq_some_iff.mp hv
      exact (word_shrink hr).trans (Nat.lt_succ_self _)
    · obtain ⟨r, hr, rfl⟩ := Option.map_eq_some_iff.mp hv
      exact (word_shrink hr).trans (Nat.lt_succ_self _)
    · obtain ⟨r, hr, rfl⟩ := Option.map_eq_some_iff.mp hv
      exact (string_shrink hr).trans (Nat.lt_succ_self _)
    · rw [← Option.some.inj hv, List.length_tail]
      omega
    · obtain ⟨r, hr, rfl⟩ := Option.map_eq_some_iff.mp hv
      have hlt := h.items hr
      simp only
      omega
    · rw [← Option.some.inj hv, List.length_tail]
      omega
    · obtain ⟨r, hr, rfl⟩ := Option.map_eq_some_iff.mp hv
      have hlt := h.members hr
      simp only
      omega
    · exact number_shrink hv

theorem Shrink.items_succ {n : ℕ} (h : Shrink n) {s : List UInt8} {r : List Value × List UInt8}
    (hi : Reader.items (n + 1) s = some r) : r.2.length < s.length := by
  rw [Reader.items, Option.bind_eq_some_iff] at hi
  obtain ⟨v, hv, hi⟩ := hi
  have hvalue := h.value hv
  split at hi
  · cases hi
  · next b s' hskip =>
    have hrest := length_of_skip hskip
    split_ifs at hi
    · rw [← Option.some.inj hi]
      exact hrest.trans hvalue
    · obtain ⟨r, hr, rfl⟩ := Option.map_eq_some_iff.mp hi
      have hlt := h.items hr
      have hle := length_skip_le s'
      simp only
      omega

theorem Shrink.members_succ {n : ℕ} (h : Shrink n) {s : List UInt8}
    {r : List (List Char × List UInt8 × Value) × List UInt8}
    (hm : Reader.members (n + 1) s = some r) : r.2.length < s.length := by
  simp only [Reader.members, Option.bind_eq_some_iff] at hm
  obtain ⟨s₁, hquote, key, hkey, s₂, hcolon, v, hv, hm⟩ := hm
  have hquote' := word_shrink hquote
  have hkey' := string_shrink hkey
  have hcolon' := word_shrink hcolon
  have hafter := length_skip_le key.2
  have hbefore := length_skip_le s₂
  have hvalue := h.value hv
  split at hm
  · cases hm
  · next b s' hskip =>
    have hrest := length_of_skip hskip
    split_ifs at hm
    · rw [← Option.some.inj hm]
      simp only
      omega
    · obtain ⟨r, hr, rfl⟩ := Option.map_eq_some_iff.mp hm
      have hlt := h.members hr
      have hle := length_skip_le s'
      simp only
      omega

theorem shrink (n : ℕ) : Shrink n := by
  induction n with
  | zero =>
    constructor
    · intro s r h
      rw [value] at h
      cases h
    · intro s r h
      rw [items] at h
      cases h
    · intro s r h
      rw [members] at h
      cases h
  | succ n ih => exact ⟨ih.value_succ, ih.items_succ, ih.members_succ⟩

/-! ## Enough fuel -/

/-- The fuels `n` and `m` make no difference on texts that are short for both. Each nesting costs
two units, one for the list and one for the value in it. -/
structure Agree (n m : ℕ) : Prop where
  value : ∀ {s}, 2 * s.length < n → 2 * s.length < m → value n s = value m s
  items : ∀ {s}, 2 * s.length + 1 < n → 2 * s.length + 1 < m → items n s = items m s
  members : ∀ {s}, 2 * s.length + 1 < n → 2 * s.length + 1 < m → members n s = members m s

theorem Agree.value_succ {n m : ℕ} (h : Agree n m) {s : List UInt8} (hn : 2 * s.length < n + 1)
    (hm : 2 * s.length < m + 1) : Reader.value (n + 1) s = Reader.value (m + 1) s := by
  cases s with
  | nil => rw [Reader.value, Reader.value]
  | cons b s =>
    rw [List.length_cons] at hn hm
    have hskip := length_skip_le s
    rw [Reader.value, Reader.value, h.items (by omega) (by omega), h.members (by omega) (by omega)]

theorem Agree.items_succ {n m : ℕ} (h : Agree n m) {s : List UInt8} (hn : 2 * s.length + 1 < n + 1)
    (hm : 2 * s.length + 1 < m + 1) : Reader.items (n + 1) s = Reader.items (m + 1) s := by
  rw [Reader.items, Reader.items, h.value (by omega) (by omega)]
  cases hv : Reader.value m s with
  | none => rfl
  | some r =>
    have hvalue := (shrink m).value hv
    simp only [Option.bind_some]
    cases hskip : skip r.2 with
    | nil => rfl
    | cons b s' =>
      have hrest := length_of_skip hskip
      have hle := length_skip_le s'
      simp only
      rw [h.items (by omega) (by omega)]

theorem Agree.members_succ {n m : ℕ} (h : Agree n m) {s : List UInt8}
    (hn : 2 * s.length + 1 < n + 1) (hm : 2 * s.length + 1 < m + 1) :
    Reader.members (n + 1) s = Reader.members (m + 1) s := by
  rw [Reader.members, Reader.members]
  refine Option.bind_congr fun s₁ hquote => Option.bind_congr fun key hkey =>
    Option.bind_congr fun s₂ hcolon => ?_
  have hquote' := word_shrink hquote
  have hkey' := string_shrink hkey
  have hcolon' := word_shrink hcolon
  have hafter := length_skip_le key.2
  have hbefore := length_skip_le s₂
  rw [h.value (by omega) (by omega)]
  refine Option.bind_congr fun r hv => ?_
  have hvalue := (shrink m).value hv
  cases hskip : skip r.2 with
  | nil => rfl
  | cons b s' =>
    have hrest := length_of_skip hskip
    have hle := length_skip_le s'
    simp only
    rw [h.members (by omega) (by omega)]

theorem agree (n m : ℕ) : Agree n m := by
  induction n generalizing m with
  | zero => constructor <;> intro s hn <;> omega
  | succ n ih =>
    cases m with
    | zero => constructor <;> intro s _ hm <;> omega
    | succ m => exact ⟨(ih m).value_succ, (ih m).items_succ, (ih m).members_succ⟩

/-! ## Null -/

/-- The literal `null`. -/
def nullText : List UInt8 := [0x6E, 0x75, 0x6C, 0x6C]

theorem value_eq_null {n : ℕ} {s r : List UInt8} :
    value (n + 1) s = some (.null, r) ↔ s = nullText ++ r := by
  constructor
  · intro h
    cases s with
    | nil =>
      rw [value] at h
      cases h
    | cons b s =>
      rw [value] at h
      split_ifs at h with hb
      · obtain ⟨r', hr, heq⟩ := Option.map_eq_some_iff.mp h
        rw [Prod.mk.injEq] at heq
        rw [hb, word_eq_some.mp hr, heq.2]
        rfl
      all_goals simp [number, Option.bind_eq_some_iff] at h
  · rintro rfl
    have hword : word [0x75, 0x6C, 0x6C] ([0x75, 0x6C, 0x6C] ++ r) = some r := word_eq_some.mpr rfl
    change value (n + 1) (0x6E :: ([0x75, 0x6C, 0x6C] ++ r)) = _
    rw [value, if_pos rfl, hword, Option.map_some]

theorem skip_eq_self {b : UInt8} {s : List UInt8} (h : isSpace b = false) :
    skip (b :: s) = b :: s := List.dropWhile_cons_of_neg (by rw [h]; exact Bool.false_ne_true)

theorem skip_append {a s : List UInt8} (h : ∀ b ∈ a, isSpace b) : skip (a ++ s) = skip s :=
  List.dropWhile_append_of_pos h

theorem skip_eq_nil {s : List UInt8} : skip s = [] ↔ ∀ b ∈ s, isSpace b :=
  List.dropWhile_eq_nil_iff

end Reader

open Reader in
/-- A whole text: one value with space around it. -/
def parse (raw : List UInt8) : Option Value :=
  (value (2 * raw.length + 1) (skip raw)).bind fun r => if skip r.2 = [] then some r.1 else none

open Reader in
/-- More fuel reads the same. -/
theorem parse_eq_of_lt {raw : List UInt8} {n : ℕ} (h : 2 * raw.length < n) : parse raw =
    (value n (skip raw)).bind fun r => if skip r.2 = [] then some r.1 else none := by
  have hskip := length_skip_le raw
  rw [parse, (agree _ n).value (by omega) (by omega)]

open Reader in
/-- A text is read as null just when it is the literal, with space around it. -/
theorem parse_eq_null {raw : List UInt8} : parse raw = some .null ↔
    ∃ a b, (∀ x ∈ a, isSpace x) ∧ (∀ x ∈ b, isSpace x) ∧ raw = a ++ nullText ++ b := by
  constructor
  · intro h
    rw [parse, Option.bind_eq_some_iff] at h
    obtain ⟨⟨v, r⟩, hv, h⟩ := h
    split_ifs at h with hrest
    obtain rfl : v = .null := Option.some.inj h
    have hfront : ∀ x ∈ raw.takeWhile isSpace, isSpace x = true :=
      fun _ hx => List.mem_takeWhile_imp hx
    refine ⟨raw.takeWhile isSpace, r, hfront, skip_eq_nil.mp hrest, ?_⟩
    rw [List.append_assoc, ← value_eq_null.mp hv, skip, List.takeWhile_append_dropWhile]
  · rintro ⟨a, b, ha, hb, rfl⟩
    have hskip : skip (a ++ nullText ++ b) = nullText ++ b := by
      rw [List.append_assoc, skip_append ha]
      exact skip_eq_self rfl
    rw [parse, hskip, value_eq_null.mpr rfl, Option.bind_some, if_pos (skip_eq_nil.mpr hb)]

end Lightspeed.Json
