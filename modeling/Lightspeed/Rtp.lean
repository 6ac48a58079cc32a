import Mathlib.Data.List.Basic

/-!
# RTP datagrams

The layout of an RTP datagram: 12 fixed bytes, of which the first says how many CSRC
identifiers of 4 bytes follow and whether there are a header extension and padding; the
extension, which says its own length; the payload; and the padding, whose last byte says its
length. The three lengths come with the datagram, so each can say more than is there.
-/

namespace Lightspeed.Rtp

abbrev Datagram := List UInt8

/-- Byte `i`, or 0 if the datagram ends before it. -/
def byteAt (b : Datagram) (i : ℕ) : UInt8 := b.getD i 0

/-! ## The parts -/

def csrcCount (b : Datagram) : ℕ := (byteAt b 0 &&& 0x0F).toNat

/-- The fixed bytes and the CSRC list. -/
def headerLength (b : Datagram) : ℕ := 12 + 4 * csrcCount b

def payloadType (b : Datagram) : UInt8 := byteAt b 1 &&& 0x7F

/-- The X bit. -/
def HasExtension (b : Datagram) : Prop := byteAt b 0 &&& 0x10 ≠ 0

/-- The P bit. -/
def HasPadding (b : Datagram) : Prop := byteAt b 0 &&& 0x20 ≠ 0

/-- The number of 4-byte words after the 4 bytes that begin an extension. -/
def extensionLength (b : Datagram) : ℕ :=
  256 * (byteAt b (headerLength b + 2)).toNat + (byteAt b (headerLength b + 3)).toNat

def paddingLength (b : Datagram) : ℕ := (byteAt b (b.length - 1)).toNat

instance (b : Datagram) : Decidable (HasExtension b) := inferInstanceAs (Decidable (_ ≠ _))

instance (b : Datagram) : Decidable (HasPadding b) := inferInstanceAs (Decidable (_ ≠ _))

/-! ## Whether they are there -/

/-- The fixed bytes and the CSRC list are complete. -/
def HeaderFits (b : Datagram) : Prop := headerLength b ≤ b.length

/-- So is the extension, which begins with 4 bytes of its own. -/
def ExtensionFits (b : Datagram) : Prop :=
  headerLength b + 4 ≤ b.length ∧ headerLength b + 4 + 4 * extensionLength b ≤ b.length

/-- Where the payload begins. -/
def payloadOffset (b : Datagram) : ℕ :=
  if HasExtension b then headerLength b + 4 + 4 * extensionLength b else headerLength b

/-- The padding is not longer than what follows the header. -/
def PaddingFits (b : Datagram) : Prop :=
  HasPadding b → payloadOffset b + paddingLength b ≤ b.length

/-- The extension, or the padding if there is no extension, says that it is longer than what is
there. -/
def Malformed (b : Datagram) : Prop :=
  HasExtension b ∧ ¬ExtensionFits b ∨ ¬HasExtension b ∧ ¬PaddingFits b

instance (b : Datagram) : Decidable (HeaderFits b) := inferInstanceAs (Decidable (_ ≤ _))

instance (b : Datagram) : Decidable (ExtensionFits b) := inferInstanceAs (Decidable (_ ∧ _))

instance (b : Datagram) : Decidable (PaddingFits b) := inferInstanceAs (Decidable (_ → _))

instance (b : Datagram) : Decidable (Malformed b) := inferInstanceAs (Decidable (_ ∨ _))

/-! ## The beginning of a datagram -/

theorem headerLength_le (b : Datagram) : headerLength b ≤ 72 := by
  have hcount : csrcCount b ≤ 15 := by
    rw [csrcCount, UInt8.toNat_and]
    exact Nat.and_le_right
  rw [headerLength]
  omega

theorem byteAt_take {i k : ℕ} (h : i < k) (b : Datagram) : byteAt (b.take k) i = byteAt b i := by
  rw [byteAt, byteAt, List.getD_eq_getElem?_getD, List.getD_eq_getElem?_getD,
    List.getElem?_take_of_lt h]

theorem payloadType_take {k : ℕ} (h : 1 < k) (b : Datagram) :
    payloadType (b.take k) = payloadType b := by
  rw [payloadType, payloadType, byteAt_take h]

/-- The header is not longer than 72 bytes, so cutting a datagram off after them leaves it
there. -/
theorem headerFits_take {k : ℕ} (h : 72 ≤ k) (b : Datagram) :
    HeaderFits (b.take k) ↔ HeaderFits b := by
  have hlen : headerLength (b.take k) = headerLength b := by
    rw [headerLength, headerLength, csrcCount, csrcCount, byteAt_take (by omega)]
  have hle := headerLength_le b
  rw [HeaderFits, HeaderFits, hlen, List.length_take]
  omega

end Lightspeed.Rtp
