import Mathlib.Data.List.TakeDrop
import Lightspeed.Rtp

/-!
# The RTP relay

The receive loop of `main` in `webrtc/main.go`: whatever arrives at the RTP port is parsed, and
goes to the video or the audio track if the payload type is 96 or 97. The loop drops the error of
the parser, as some clients send malformed packets, and goes by the payload type that the parser
left in the packet; `Write` parses the same bytes again, and its error is a panic.

So the loop relays what it should exactly if no malformed datagram gets as far as a payload type
of 96 or 97, and none that does is longer than the buffer (`relays_iff`).
-/

namespace Lightspeed.Relay

open Rtp

variable {ε : Type*}

/-! ## The library -/

/-- The field of `rtp.Packet` that the loop reads; `&rtp.Packet{}` has 0 in it. -/
structure Packet where
  payloadType : UInt8 := 0

/-- The functions of `pion` that the loop calls. An error that is `nil` is `none`. -/
structure Pion (ε : Type*) where
  /-- `Unmarshal` of a fresh packet: the packet it fills in, and its error. -/
  unmarshal : Datagram → Packet × Option ε
  /-- The error of `Write` of a track. If there is none, the bytes have been written. -/
  write : Datagram → Option ε

/-- The datagrams that `Unmarshal` parses: the well-formed ones. -/
def Pion.Accepts (pion : Pion ε) (b : Datagram) : Prop := (pion.unmarshal b).2 = none

/-- How the two functions behave. Nothing is said about whether a datagram is accepted that has an
extension or padding and is not malformed in one of the two ways. -/
structure Pion.Lawful (pion : Pion ε) : Prop where
  /-- The payload type is filled in as soon as the header is complete, whatever fails after. -/
  payloadType_of_fits : ∀ b, HeaderFits b → (pion.unmarshal b).1.payloadType = payloadType b
  payloadType_of_not_fits : ∀ b, ¬HeaderFits b → (pion.unmarshal b).1.payloadType = 0
  fits_of_accepts : ∀ b, pion.Accepts b → HeaderFits b
  not_accepts_of_malformed : ∀ b, Malformed b → ¬pion.Accepts b
  accepts_of_plain : ∀ b, HeaderFits b → ¬HasExtension b → ¬HasPadding b → pion.Accepts b
  /-- `Write` parses the bytes again. -/
  write_iff_accepts : ∀ b, pion.write b = none ↔ pion.Accepts b

/-- A parser that checks the three lengths and nothing else behaves so. -/
def byLengths : Pion String where
  unmarshal b :=
    if ¬HeaderFits b then ({}, some "header size insufficient")
    else if HasExtension b ∧ ¬ExtensionFits b then
      (⟨payloadType b⟩, some "header size insufficient for extension")
    else if ¬PaddingFits b then (⟨payloadType b⟩, some "buffer too small")
    else (⟨payloadType b⟩, none)
  write b :=
    if HeaderFits b ∧ (HasExtension b → ExtensionFits b) ∧ PaddingFits b then none
    else some "malformed packet"

theorem accepts_byLengths_iff (b : Datagram) : byLengths.Accepts b ↔
    HeaderFits b ∧ (HasExtension b → ExtensionFits b) ∧ PaddingFits b := by
  simp only [Pion.Accepts, byLengths]
  split
  · simp_all
  · split
    · simp_all
    · split <;> simp_all

theorem lawful_byLengths : byLengths.Lawful where
  payloadType_of_fits b h := by
    simp only [byLengths, not_true_eq_false, h, if_false]
    split
    · rfl
    · split <;> rfl
  payloadType_of_not_fits b h := by
    simp only [byLengths, h, not_false_eq_true, if_true]
  fits_of_accepts b h := ((accepts_byLengths_iff b).mp h).1
  not_accepts_of_malformed b h := by
    rw [accepts_byLengths_iff]
    rintro ⟨-, hext, hpad⟩
    rcases h with ⟨hhas, hnot⟩ | ⟨-, hnot⟩
    · exact hnot (hext hhas)
    · exact hnot hpad
  accepts_of_plain b hfits hext hpad :=
    (accepts_byLengths_iff b).mpr ⟨hfits, fun h => absurd h hext, fun h => absurd h hpad⟩
  write_iff_accepts b := by
    rw [accepts_byLengths_iff]
    simp only [byLengths, ite_eq_left_iff, reduceCtorEq, imp_false, not_not]

/-! ## The loop -/

/-- `make([]byte, 4096)` -/
structure Buffer where
  bytes : List UInt8
  length_bytes : bytes.length = 4096

def newBuffer : Buffer where
  bytes := List.replicate 4096 0
  length_bytes := List.length_replicate

/-- `listener.ReadFrom(inboundRTPPacket)`. What does not fit is discarded; behind the new bytes the
old ones stay. -/
def Buffer.readFrom (buf : Buffer) (datagram : Datagram) : ℕ × Buffer :=
  let data := datagram.take 4096
  (data.length, {
    bytes := data ++ buf.bytes.drop data.length
    length_bytes := by
      have hdata : data.length ≤ 4096 := List.length_take_le _ _
      rw [List.length_append, List.length_drop, buf.length_bytes]
      omega })

/-- `inboundRTPPacket[:n]` -/
def Buffer.slice (buf : Buffer) (n : ℕ) : Datagram := buf.bytes.take n

/-- The variables of `main` that the loop uses, with a track as what has been written to it. -/
structure State where
  inboundRTPPacket : Buffer := newBuffer
  videoTrack : List Datagram := []
  audioTrack : List Datagram := []

inductive Panic (ε : Type*)
  /-- `panic(err)` after `ReadFrom`. -/
  | read (err : ε)
  /-- `panic(writeErr)` -/
  | write (writeErr : ε)

/-- One round, for what `ReadFrom` returns. -/
def round (pion : Pion ε) (s : State) : Except ε Datagram → Except (Panic ε) State
  | .error err => .error (.read err)
  | .ok datagram =>
    let (n, buf) := s.inboundRTPPacket.readFrom datagram
    let s := { s with inboundRTPPacket := buf }
    -- the error is not looked at
    let (packet, _) := pion.unmarshal (buf.slice n)
    if packet.payloadType = 96 then
      match pion.write (buf.slice n) with
      | some writeErr => .error (.write writeErr)
      | none => .ok { s with videoTrack := s.videoTrack ++ [buf.slice n] }
    else if packet.payloadType = 97 then
      match pion.write (buf.slice n) with
      | some writeErr => .error (.write writeErr)
      | none => .ok { s with audioTrack := s.audioTrack ++ [buf.slice n] }
    else .ok s

/-- The loop, for all that `ReadFrom` returns: the state it comes to, and the panic that ended
it. -/
def loop (pion : Pion ε) (s : State) : List (Except ε Datagram) → State × Option (Panic ε)
  | [] => (s, none)
  | read :: reads =>
    match round pion s read with
    | .error p => (s, some p)
    | .ok s' => loop pion s' reads

/-! ## What it should do -/

/-- The datagrams read until a read fails. -/
def received : List (Except ε Datagram) → List Datagram
  | .ok datagram :: reads => datagram :: received reads
  | _ => []

/-- A well-formed RTP datagram with this payload type. -/
def isRtp (pion : Pion ε) (pt : UInt8) (b : Datagram) : Bool :=
  (pion.unmarshal b).2.isNone && payloadType b == pt

/-- The loop panics for no datagram, and each track gets the datagrams with its payload type, as
they came and in their order. -/
structure Relays (pion : Pion ε) (reads : List (Except ε Datagram)) : Prop where
  survives : ∀ writeErr, (loop pion {} reads).2 ≠ some (.write writeErr)
  video : (loop pion {} reads).1.videoTrack = (received reads).filter (isRtp pion 96)
  audio : (loop pion {} reads).1.audioTrack = (received reads).filter (isRtp pion 97)

/-! ## What a round does -/

variable {pion : Pion ε}

/-- The part of a datagram that fits into the buffer. -/
def cut (b : Datagram) : Datagram := b.take 4096

/-- The header is complete and has this payload type. -/
def declares (pt : UInt8) (b : Datagram) : Bool := decide (HeaderFits b) && payloadType b == pt

/-- What a track with this payload type gets. -/
def routed (pt : UInt8) (ds : List Datagram) : List Datagram :=
  (ds.filter (declares pt)).map cut

/-- A track takes what it would get. -/
def Writable (pion : Pion ε) (b : Datagram) : Prop :=
  declares 96 b ∨ declares 97 b → pion.Accepts (cut b)

theorem routed_cons (pt : UInt8) (b : Datagram) (ds : List Datagram) :
    routed pt (b :: ds) = routed pt [b] ++ routed pt ds := by
  rw [routed, routed, routed, ← List.map_append, ← List.filter_append, List.singleton_append]

theorem routed_singleton (pt : UInt8) (b : Datagram) :
    routed pt [b] = if declares pt b then [cut b] else [] := by
  rw [routed, List.filter_singleton]
  cases declares pt b <;> rfl

/-- The slice is what was read, with nothing of the datagram before it. -/
theorem slice_readFrom (buf : Buffer) (b : Datagram) :
    (buf.readFrom b).2.slice (buf.readFrom b).1 = cut b :=
  List.take_left

/-- The payload type by which the loop goes is the one in the header, if it is 96 or 97. -/
theorem payloadType_unmarshal_cut (hpion : pion.Lawful) (pt : UInt8) (hpt : pt ≠ 0)
    (b : Datagram) : (pion.unmarshal (cut b)).1.payloadType = pt ↔ declares pt b := by
  have hfits : HeaderFits (cut b) ↔ HeaderFits b := headerFits_take (by omega) b
  have htype : payloadType (cut b) = payloadType b := payloadType_take (by omega) b
  rw [declares, Bool.and_eq_true, decide_eq_true_eq, beq_iff_eq, ← hfits, ← htype]
  by_cases h : HeaderFits (cut b)
  · rw [hpion.payloadType_of_fits _ h]
    exact (and_iff_right h).symm
  · rw [hpion.payloadType_of_not_fits _ h]
    exact iff_of_false hpt.symm fun hand => h hand.1

/-- Without an error of `Write`, a track that is declared takes the datagram. -/
theorem writable_iff (hpion : pion.Lawful) {pt : UInt8} (hpt : pt = 96 ∨ pt = 97) {b : Datagram}
    (h : declares pt b) : Writable pion b ↔ pion.write (cut b) = none := by
  have hdeclares : declares 96 b ∨ declares 97 b := by
    rcases hpt with rfl | rfl
    · exact .inl h
    · exact .inr h
  rw [Writable, hpion.write_iff_accepts]
  exact ⟨fun hw => hw hdeclares, fun hw _ => hw⟩

theorem not_declares_both {b : Datagram} (h : declares 96 b) : ¬declares 97 b := by
  intro h'
  rw [declares, Bool.and_eq_true, beq_iff_eq] at h h'
  exact absurd (h.2.symm.trans h'.2) (by decide)

/-- A datagram goes to the track it declares, if it declares one, or ends the process. -/
theorem round_ok (hpion : pion.Lawful) (s : State) (b : Datagram) :
    (∃ s', round pion s (.ok b) = .ok s' ∧ Writable pion b ∧
      s'.videoTrack = s.videoTrack ++ routed 96 [b] ∧
      s'.audioTrack = s.audioTrack ++ routed 97 [b]) ∨
    ∃ writeErr, round pion s (.ok b) = .error (.write writeErr) ∧ ¬Writable pion b := by
  have h96 := payloadType_unmarshal_cut hpion 96 (by decide) b
  have h97 := payloadType_unmarshal_cut hpion 97 (by decide) b
  simp only [round, slice_readFrom, h96, h97, routed_singleton]
  by_cases hvideo : declares 96 b
  · have haudio := not_declares_both hvideo
    rw [writable_iff hpion (.inl rfl) hvideo, if_pos hvideo, if_pos hvideo, if_neg haudio,
      List.append_nil]
    cases hwrite : pion.write (cut b) with
    | none => exact .inl ⟨_, rfl, rfl, rfl, rfl⟩
    | some writeErr => exact .inr ⟨writeErr, rfl, Option.some_ne_none _⟩
  · rw [if_neg hvideo, if_neg hvideo, List.append_nil]
    by_cases haudio : declares 97 b
    · rw [writable_iff hpion (.inr rfl) haudio, if_pos haudio, if_pos haudio]
      cases hwrite : pion.write (cut b) with
      | none => exact .inl ⟨_, rfl, rfl, rfl, rfl⟩
      | some writeErr => exact .inr ⟨writeErr, rfl, Option.some_ne_none _⟩
    · rw [if_neg haudio, if_neg haudio, List.append_nil]
      exact .inl ⟨_, rfl, fun h => absurd h (not_or.mpr ⟨hvideo, haudio⟩), rfl, rfl⟩

/-- A malformed datagram with a complete header and payload type 96 or 97 ends the process. -/
theorem round_malformed (hpion : pion.Lawful) (s : State) {b : Datagram} (hlen : b.length ≤ 4096)
    (hdeclares : declares 96 b ∨ declares 97 b) (hbad : Malformed b) :
    ∃ writeErr, round pion s (.ok b) = .error (.write writeErr) := by
  rcases round_ok hpion s b with ⟨-, -, hwritable, -⟩ | ⟨writeErr, hround, -⟩
  · have haccepts := hwritable hdeclares
    rw [cut, List.take_of_length_le hlen] at haccepts
    exact absurd haccepts (hpion.not_accepts_of_malformed b hbad)
  · exact ⟨writeErr, hround⟩

/-! ## What the loop does -/

/-- The loop goes on exactly as long as the tracks take what they get. -/
theorem survives_iff (hpion : pion.Lawful) (s : State) (reads : List (Except ε Datagram)) :
    (∀ writeErr, (loop pion s reads).2 ≠ some (.write writeErr)) ↔
      ∀ b ∈ received reads, Writable pion b := by
  induction reads generalizing s with
  | nil => simp [loop, received]
  | cons read reads ih =>
    cases read with
    | error err => simp [loop, round, received]
    | ok b =>
      rw [received, List.forall_mem_cons]
      rcases round_ok hpion s b with ⟨s', hround, hb, -, -⟩ | ⟨writeErr, hround, hb⟩
      · rw [loop, hround]
        show (∀ writeErr, (loop pion s' reads).2 ≠ _) ↔ _
        rw [ih s', and_iff_right hb]
      · rw [loop, hround]
        exact iff_of_false (fun h => h writeErr rfl) fun h => hb h.1

/-- Until then the tracks have got the datagrams that declare them. -/
theorem tracks_loop (hpion : pion.Lawful) (s : State) {reads : List (Except ε Datagram)}
    (h : ∀ b ∈ received reads, Writable pion b) :
    (loop pion s reads).1.videoTrack = s.videoTrack ++ routed 96 (received reads) ∧
      (loop pion s reads).1.audioTrack = s.audioTrack ++ routed 97 (received reads) := by
  induction reads generalizing s with
  | nil => exact ⟨(List.append_nil _).symm, (List.append_nil _).symm⟩
  | cons read reads ih =>
    cases read with
    | error err => exact ⟨(List.append_nil _).symm, (List.append_nil _).symm⟩
    | ok b =>
      rw [received, List.forall_mem_cons] at h
      rcases round_ok hpion s b with ⟨s', hround, -, hvideo, haudio⟩ | ⟨-, -, hb⟩
      · have hrest := ih s' h.2
        rw [hvideo, haudio, List.append_assoc, List.append_assoc, ← routed_cons,
          ← routed_cons] at hrest
        rw [loop, hround]
        exact hrest
      · exact absurd h.1 hb

/-! ## When it relays -/

/-- A datagram of which nothing goes wrong: it declares no track, or it is well-formed and fits
into the buffer. -/
def Relayable (pion : Pion ε) (b : Datagram) : Prop :=
  HeaderFits b → payloadType b = 96 ∨ payloadType b = 97 → pion.Accepts b ∧ b.length ≤ 4096

theorem declares_of_isRtp (hpion : pion.Lawful) {pt : UInt8} {b : Datagram}
    (h : isRtp pion pt b) : declares pt b := by
  rw [isRtp, Bool.and_eq_true, Option.isNone_iff_eq_none] at h
  rw [declares, Bool.and_eq_true, decide_eq_true_eq]
  exact ⟨hpion.fits_of_accepts b h.1, h.2⟩

/-- Selecting generously and changing what was selected is selecting strictly, only if the strict
selection takes as much and nothing is changed. -/
theorem map_filter_eq_filter_iff {α : Type*} {p q : α → Bool} {f : α → α}
    (hqp : ∀ a, q a → p a) (l : List α) :
    (l.filter p).map f = l.filter q ↔ ∀ a ∈ l, p a → q a ∧ f a = a := by
  have hfilter : l.filter q = (l.filter p).filter q := by
    rw [List.filter_filter]
    refine List.filter_congr fun a _ => ?_
    cases hq : q a with
    | false => rfl
    | true => rw [hqp a hq, Bool.and_self]
  rw [hfilter]
  constructor
  · intro h a ha hp
    have hmem : a ∈ l.filter p := List.mem_filter.mpr ⟨ha, hp⟩
    have hlen : ((l.filter p).filter q).length = (l.filter p).length := by
      rw [← h, List.length_map]
    have hall := List.length_filter_eq_length_iff.mp hlen
    rw [List.filter_eq_self.mpr hall] at h
    have hself : (l.filter p).map f = (l.filter p).map id := by rw [h, List.map_id]
    exact ⟨hall a hmem, List.map_inj_left.mp hself a hmem⟩
  · intro h
    have hall : ∀ a ∈ l.filter p, q a ∧ f a = a := by
      intro a ha
      have hmem := List.mem_filter.mp ha
      exact h a hmem.1 hmem.2
    rw [List.filter_eq_self.mpr fun a ha => (hall a ha).1]
    calc (l.filter p).map f = (l.filter p).map id :=
          List.map_inj_left.mpr fun a ha => (hall a ha).2
      _ = l.filter p := List.map_id _

theorem isRtp_of_declares {pt : UInt8} {b : Datagram} (h : declares pt b) :
    isRtp pion pt b ↔ pion.Accepts b := by
  rw [declares, Bool.and_eq_true] at h
  rw [isRtp, h.2, Bool.and_true, Option.isNone_iff_eq_none, Pion.Accepts]

/-- A track gets what it should exactly if all that declares it is well-formed and fits. -/
theorem routed_eq_filter_iff (hpion : pion.Lawful) (pt : UInt8) (ds : List Datagram) :
    routed pt ds = ds.filter (isRtp pion pt) ↔
      ∀ b ∈ ds, declares pt b → pion.Accepts b ∧ b.length ≤ 4096 := by
  rw [routed, map_filter_eq_filter_iff fun b => declares_of_isRtp hpion]
  refine forall₂_congr fun b _ => forall_congr' fun h => ?_
  rw [isRtp_of_declares h, cut, List.take_eq_self_iff]

theorem relayable_iff {b : Datagram} : Relayable pion b ↔
    (declares 96 b → pion.Accepts b ∧ b.length ≤ 4096) ∧
      (declares 97 b → pion.Accepts b ∧ b.length ≤ 4096) := by
  simp only [Relayable, declares, Bool.and_eq_true, decide_eq_true_eq, beq_iff_eq]
  tauto

theorem Relayable.writable {b : Datagram} (h : Relayable pion b) : Writable pion b := by
  rw [relayable_iff] at h
  intro hdeclares
  have hgood : pion.Accepts b ∧ b.length ≤ 4096 := hdeclares.elim h.1 h.2
  rw [cut, List.take_of_length_le hgood.2]
  exact hgood.1

theorem relayable_of_plain (hpion : pion.Lawful) {b : Datagram} (hext : ¬HasExtension b)
    (hpad : ¬HasPadding b) (hlen : b.length ≤ 4096) : Relayable pion b := by
  intro hfits _
  exact ⟨hpion.accepts_of_plain b hfits hext hpad, hlen⟩

/-- **When the relay does its work.** It survives the datagrams and relays the well-formed ones,
and only these, unmodified and in order, exactly if every datagram that has a complete header
with payload type 96 or 97 is well-formed and not longer than the buffer. -/
theorem relays_iff (hpion : pion.Lawful) (reads : List (Except ε Datagram)) :
    Relays pion reads ↔ ∀ b ∈ received reads, Relayable pion b := by
  have hfilter : (∀ b ∈ received reads, Relayable pion b) ↔
      routed 96 (received reads) = (received reads).filter (isRtp pion 96) ∧
        routed 97 (received reads) = (received reads).filter (isRtp pion 97) := by
    rw [routed_eq_filter_iff hpion, routed_eq_filter_iff hpion, ← forall₂_and]
    exact forall₂_congr fun b _ => relayable_iff
  constructor
  · intro h
    have hwritable := (survives_iff hpion {} reads).mp h.survives
    obtain ⟨hvideo, haudio⟩ := tracks_loop hpion {} hwritable
    rw [hfilter]
    exact ⟨hvideo.symm.trans h.video, haudio.symm.trans h.audio⟩
  · intro h
    have hwritable : ∀ b ∈ received reads, Writable pion b := fun b hb => (h b hb).writable
    obtain ⟨hvideo, haudio⟩ := tracks_loop hpion {} hwritable
    exact {
      survives := (survives_iff hpion {} reads).mpr hwritable
      video := hvideo.trans (hfilter.mp h).1
      audio := haudio.trans (hfilter.mp h).2 }

/-- A video packet, an audio packet with its marker bit set, two bytes of something else, and the
socket is closed. -/
theorem relays_iff_packets : Relays byLengths
    [.ok [0x80, 96, 0, 1, 0, 0, 0, 0, 0, 0, 0, 1, 7],
     .ok [0x80, 225, 0, 1, 0, 0, 0, 0, 0, 0, 0, 2, 7],
     .ok [1, 96], .error "use of closed network connection"] := by
  refine (relays_iff lawful_byLengths _).mpr ?_
  intro b hb
  have hplain : ¬HasExtension b ∧ ¬HasPadding b ∧ b.length ≤ 4096 := by
    revert b
    decide
  exact relayable_of_plain lawful_byLengths hplain.1 hplain.2.1 hplain.2.2

/-- A datagram with payload type 96 that announces an extension and ends ends the process. -/
theorem truncated_extension_panics : ¬∃ (ε : Type) (pion : Pion ε), pion.Lawful ∧
    Relays pion [.ok [0x90, 96, 0, 0, 0, 0, 0, 0, 0, 0, 0, 0]] := by
  rintro ⟨ε, pion, hpion, hrelays⟩
  obtain ⟨writeErr, hround⟩ := round_malformed hpion {}
    (b := [0x90, 96, 0, 0, 0, 0, 0, 0, 0, 0, 0, 0]) (by decide) (by decide) (by decide)
  refine hrelays.survives writeErr ?_
  rw [loop, hround]

end Lightspeed.Relay
