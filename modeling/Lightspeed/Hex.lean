import Mathlib.Data.List.Basic

/-!
# Hexadecimal

`hex::encode` and `hex::decode`. Encoding writes lower case, decoding accepts both cases and
fails on an odd number of digits and on anything that is no digit. A character outside ASCII
is no digit, and neither are the bytes of one, so digits are characters here.
-/

namespace Lightspeed.Hex

/-- The digit of a number below 16. -/
def digit (n : ℕ) : Char := if n < 10 then Char.ofNat (48 + n) else Char.ofNat (87 + n)

def encode (bs : List UInt8) : List Char :=
  bs.flatMap fun b => [digit (b.toNat / 16), digit (b.toNat % 16)]

def value (c : Char) : Option ℕ :=
  let v := c.toNat
  if 48 ≤ v ∧ v ≤ 57 then some (v - 48)
  else if 65 ≤ v ∧ v ≤ 70 then some (v - 55)
  else if 97 ≤ v ∧ v ≤ 102 then some (v - 87)
  else none

def decode : List Char → Option (List UInt8)
  | [] => some []
  | [_] => none
  | h :: l :: s => do
    let x ← value h
    let y ← value l
    let bs ← decode s
    return UInt8.ofNat (16 * x + y) :: bs

/-! ## Encoding, then decoding -/

theorem encode_cons (b : UInt8) (bs : List UInt8) :
    encode (b :: bs) = digit (b.toNat / 16) :: digit (b.toNat % 16) :: encode bs := rfl

theorem length_encode (bs : List UInt8) : (encode bs).length = 2 * bs.length := by
  induction bs with
  | nil => rfl
  | cons b bs ih =>
    rw [encode_cons, List.length_cons, List.length_cons, List.length_cons, ih]
    omega

/-- The lower-case digits. -/
def isDigit (c : Char) : Bool := decide (c ∈ "0123456789abcdef".toList)

theorem digit_spec {n : ℕ} (h : n < 16) : value (digit n) = some n ∧ isDigit (digit n) = true := by
  have hall : ∀ n < 16, value (digit n) = some n ∧ isDigit (digit n) = true := by decide
  exact hall n h

theorem isDigit_of_mem_encode {bs : List UInt8} {c : Char} (h : c ∈ encode bs) :
    isDigit c = true := by
  rw [encode, List.mem_flatMap] at h
  obtain ⟨b, -, hc⟩ := h
  have hb : b.toNat < 256 := b.toNat_lt
  simp only [List.mem_cons, List.not_mem_nil, or_false] at hc
  rcases hc with rfl | rfl
  · exact (digit_spec (by omega)).2
  · exact (digit_spec (by omega)).2

/-- **Decoding undoes encoding.** -/
theorem decode_encode (bs : List UInt8) : decode (encode bs) = some bs := by
  induction bs with
  | nil => rfl
  | cons b bs ih =>
    have hb : b.toNat < 256 := b.toNat_lt
    have hhigh : value (digit (b.toNat / 16)) = some (b.toNat / 16) := (digit_spec (by omega)).1
    have hlow : value (digit (b.toNat % 16)) = some (b.toNat % 16) := (digit_spec (by omega)).1
    have hsum : 16 * (b.toNat / 16) + b.toNat % 16 = b.toNat := by omega
    rw [encode_cons, decode, hhigh, hlow, ih]
    show some (UInt8.ofNat (16 * (b.toNat / 16) + b.toNat % 16) :: bs) = some (b :: bs)
    rw [hsum, UInt8.ofNat_toNat]

/-! ## What can be decoded -/

theorem decode_cons_cons_isSome (h l : Char) (s : List Char) :
    (decode (h :: l :: s)).isSome =
      ((value h).isSome && (value l).isSome && (decode s).isSome) := by
  rw [decode]
  cases value h with
  | none => rfl
  | some x =>
    cases value l with
    | none => rfl
    | some y => cases decode s <;> rfl

/-- Decoding succeeds on an even number of digits. -/
theorem decode_isSome_iff (s : List Char) :
    (decode s).isSome ↔ s.length % 2 = 0 ∧ ∀ c ∈ s, (value c).isSome := by
  induction s using decode.induct with
  | case1 => simp [decode]
  | case2 c => simp [decode]
  | case3 h l s ih =>
    rw [decode_cons_cons_isSome, Bool.and_eq_true, Bool.and_eq_true, ih, List.forall_mem_cons,
      List.forall_mem_cons, List.length_cons, List.length_cons, Nat.add_assoc, Nat.add_mod_right]
    tauto

end Lightspeed.Hex
