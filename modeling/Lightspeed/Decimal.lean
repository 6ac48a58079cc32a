import Mathlib.Data.Nat.Digits.Lemmas

/-!
# Decimal numbers

Numbers as `strconv` writes and reads them, without a sign. Zero is written as one digit and no
other number begins with one; on reading, any number of zeros may stand in front. The reader is
given a bound, and stops as soon as it passes it.
-/

namespace Lightspeed.Decimal

def isDigit (b : UInt8) : Bool := decide (0x30 ≤ b ∧ b ≤ 0x39)

def digit (d : ℕ) : UInt8 := UInt8.ofNat (0x30 + d)

def digitValue (b : UInt8) : ℕ := b.toNat - 0x30

/-- `strconv.Itoa(n)` -/
def encode (n : ℕ) : List UInt8 :=
  if n = 0 then [digit 0] else ((Nat.digits 10 n).map digit).reverse

/-- What the digits `s` behind the number `n` make of it. -/
def valueFrom (n : ℕ) (s : List UInt8) : ℕ := s.foldl (fun n b => 10 * n + digitValue b) n

/-- The number that digits denote. -/
def value (s : List UInt8) : ℕ := valueFrom 0 s

/-- The loop of `strconv.ParseUint`. -/
def parseFrom (max : ℕ) : ℕ → List UInt8 → Option ℕ
  | n, [] => some n
  | n, b :: s =>
    if isDigit b then
      if 10 * n + digitValue b ≤ max then parseFrom max (10 * n + digitValue b) s
      else none
    else none

/-- `strconv.ParseUint(s, 10, bits)`, for the `bits` that hold the numbers up to `max`. -/
def parseUint (max : ℕ) (s : List UInt8) : Option ℕ := if s = [] then none else parseFrom max 0 s

/-! ## Digits -/

theorem digit_spec {d : ℕ} (h : d < 10) :
    isDigit (digit d) = true ∧ digitValue (digit d) = d ∧ (digit d = 0x30 → d = 0) := by
  have hall : ∀ d < 10,
      isDigit (digit d) = true ∧ digitValue (digit d) = d ∧ (digit d = 0x30 → d = 0) := by decide
  exact hall d h

/-! ## Writing -/

theorem encode_of_ne_zero {n : ℕ} (h : n ≠ 0) :
    encode n = ((Nat.digits 10 n).map digit).reverse := if_neg h

theorem isDigit_of_mem_encode {n : ℕ} {b : UInt8} (h : b ∈ encode n) : isDigit b = true := by
  by_cases hn : n = 0
  · subst hn
    rw [List.mem_singleton.mp h]
    exact (digit_spec (by omega)).1
  · rw [encode_of_ne_zero hn, List.mem_reverse, List.mem_map] at h
    obtain ⟨d, hd, rfl⟩ := h
    exact (digit_spec (Nat.digits_lt_base (by omega) hd)).1

theorem encode_ne_nil (n : ℕ) : encode n ≠ [] := by
  by_cases hn : n = 0
  · subst hn
    exact List.cons_ne_nil _ _
  · rw [encode_of_ne_zero hn, Ne, List.reverse_eq_nil_iff, List.map_eq_nil_iff]
    exact Nat.digits_ne_nil_iff_ne_zero.mpr hn

/-- Only zero begins with one, and it is that digit alone. -/
theorem encode_of_head {n : ℕ} {s : List UInt8} (h : encode n = 0x30 :: s) : s = [] := by
  by_cases hn : n = 0
  · subst hn
    exact (List.cons.inj h).2.symm
  · exfalso
    have hne : Nat.digits 10 n ≠ [] := Nat.digits_ne_nil_iff_ne_zero.mpr hn
    have hlast := Nat.getLast_digit_ne_zero 10 hn
    rw [encode_of_ne_zero hn, ← List.map_reverse] at h
    have hhead : (Nat.digits 10 n).reverse ≠ [] := by
      rwa [Ne, List.reverse_eq_nil_iff]
    obtain ⟨d, ds, hds⟩ := List.exists_cons_of_ne_nil hhead
    rw [hds, List.map_cons, List.cons.injEq] at h
    have hd : d = (Nat.digits 10 n).getLast hne := by
      rw [← List.head_reverse hhead]
      simp only [hds, List.head_cons]
    have hlt : d < 10 := by
      rw [hd]
      exact Nat.digits_lt_base (by omega) (List.getLast_mem hne)
    exact hlast (hd ▸ (digit_spec hlt).2.2 h.1)

theorem value_encode (n : ℕ) : value (encode n) = n := by
  by_cases hn : n = 0
  · subst hn
    rfl
  · have hfold : ∀ ds : List ℕ, (∀ d ∈ ds, d < 10) →
        ds.foldr (fun d n => 10 * n + digitValue (digit d)) 0 = Nat.ofDigits 10 ds := by
      intro ds hds
      induction ds with
      | nil => rfl
      | cons d ds ih =>
        rw [List.foldr_cons, ih fun d hd => hds d (List.mem_cons_of_mem _ hd), Nat.ofDigits_cons,
          (digit_spec (hds d List.mem_cons_self)).2.1, Nat.add_comm]
    rw [encode_of_ne_zero hn, value, valueFrom, List.foldl_reverse, List.foldr_map,
      hfold _ fun d hd => Nat.digits_lt_base (by omega) hd, Nat.ofDigits_digits]

/-! ## Reading -/

theorem le_valueFrom (n : ℕ) (s : List UInt8) : n ≤ valueFrom n s := by
  induction s generalizing n with
  | nil => exact Nat.le_refl _
  | cons b s ih =>
    have hle := ih (10 * n + digitValue b)
    show n ≤ valueFrom (10 * n + digitValue b) s
    omega

/-- The loop stops early only where the whole number is too large. -/
theorem parseFrom_eq_some {max n k : ℕ} {s : List UInt8} (hn : n ≤ max) :
    parseFrom max n s = some k ↔
      (∀ b ∈ s, isDigit b = true) ∧ valueFrom n s = k ∧ k ≤ max := by
  induction s generalizing n with
  | nil =>
    rw [parseFrom, Option.some.injEq]
    constructor
    · rintro rfl
      exact ⟨fun b hb => (by cases hb), rfl, hn⟩
    · exact fun h => h.2.1
  | cons b s ih =>
    rw [parseFrom, List.forall_mem_cons]
    show _ ↔ _ ∧ valueFrom (10 * n + digitValue b) s = k ∧ k ≤ max
    by_cases hdigit : isDigit b = true
    · rw [if_pos hdigit]
      by_cases hmax : 10 * n + digitValue b ≤ max
      · rw [if_pos hmax, ih hmax, and_iff_right hdigit]
      · rw [if_neg hmax]
        refine ⟨fun h => (by cases h), ?_⟩
        rintro ⟨-, hk, hle⟩
        have hvalue := le_valueFrom (10 * n + digitValue b) s
        omega
    · rw [if_neg hdigit]
      exact ⟨fun h => (by cases h), fun h => absurd h.1.1 hdigit⟩

theorem parseUint_eq_some {max k : ℕ} {s : List UInt8} :
    parseUint max s = some k ↔
      s ≠ [] ∧ (∀ b ∈ s, isDigit b = true) ∧ value s = k ∧ k ≤ max := by
  unfold parseUint
  by_cases hs : s = []
  · simp [hs]
  · rw [if_neg hs, parseFrom_eq_some (Nat.zero_le _), value]
    exact (and_iff_right hs).symm

end Lightspeed.Decimal
