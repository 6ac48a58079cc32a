import Mathlib.Data.List.Infix

/-!
# UTF-8

Bytes to characters as `String::from_utf8_lossy` and `str::from_utf8` read them. `scan` reads
one character. Where the bytes are no character it gives up at the first byte that cannot go
on, so that each maximal ill-formed part counts once; the lossy reader puts U+FFFD for it and
the strict one fails.

Encoding is `String.utf8EncodeChar`. Both readers undo it, and the strict one accepts nothing else
(`fromUtf8_eq_some_iff`).
-/

namespace Lightspeed.Utf8

/-- The bytes of a text. -/
def encode (s : List Char) : List UInt8 := s.flatMap String.utf8EncodeChar

theorem encode_nil : encode [] = [] := rfl

theorem encode_cons (c : Char) (s : List Char) :
    encode (c :: s) = String.utf8EncodeChar c ++ encode s := List.flatMap_cons ..

theorem encode_append (s t : List Char) : encode (s ++ t) = encode s ++ encode t :=
  List.flatMap_append ..

/-- Every character takes at least one byte. -/
theorem length_le_length_encode (s : List Char) : s.length ≤ (encode s).length := by
  induction s with
  | nil => exact Nat.zero_le _
  | cons c s ih =>
    have hpos : 0 < (String.utf8EncodeChar c).length := by
      rw [String.length_utf8EncodeChar]
      exact Char.utf8Size_pos c
    rw [encode_cons, List.length_append, List.length_cons]
    omega

/-! ## Reading one character -/

/-- The length a first byte announces, or 0 if no character begins with it. -/
def width (b : ℕ) : ℕ :=
  if b < 0x80 then 1
  else if 0xC2 ≤ b ∧ b ≤ 0xDF then 2
  else if 0xE0 ≤ b ∧ b ≤ 0xEF then 3
  else if 0xF0 ≤ b ∧ b ≤ 0xF4 then 4
  else 0

/-- A continuation byte. -/
def isCont (x : ℕ) : Bool := decide (0x80 ≤ x ∧ x ≤ 0xBF)

/-- What may follow the first byte `b`: overlong forms, surrogates and what lies above U+10FFFF
are excluded here. -/
def isSecond (b x : ℕ) : Bool :=
  if b = 0xE0 then decide (0xA0 ≤ x ∧ x ≤ 0xBF)
  else if b = 0xED then decide (0x80 ≤ x ∧ x ≤ 0x9F)
  else if b = 0xF0 then decide (0x90 ≤ x ∧ x ≤ 0xBF)
  else if b = 0xF4 then decide (0x80 ≤ x ∧ x ≤ 0x8F)
  else isCont x

/-- Take one more byte if it passes the test, or give up in front of it. -/
def takeByte (ok : ℕ → Bool) (bs : List UInt8)
    (k : ℕ → List UInt8 → Option Char × List UInt8) : Option Char × List UInt8 :=
  match bs with
  | [] => (none, [])
  | x :: rest => if ok x.toNat then k x.toNat rest else (none, bs)

/-- The character that begins with the byte `n`, if there is one, and the bytes after it or
after the part that was given up. -/
def scan (n : ℕ) (bs : List UInt8) : Option Char × List UInt8 :=
  match width n with
  | 1 => (some (Char.ofNat n), bs)
  | 2 => takeByte (isSecond n) bs fun x bs => (some (Char.ofNat (n % 32 * 64 + x % 64)), bs)
  | 3 =>
    takeByte (isSecond n) bs fun x bs => takeByte isCont bs fun y bs =>
      (some (Char.ofNat (n % 16 * 4096 + x % 64 * 64 + y % 64)), bs)
  | 4 =>
    takeByte (isSecond n) bs fun x bs => takeByte isCont bs fun y bs => takeByte isCont bs
      fun z bs =>
        (some (Char.ofNat (n % 8 * 262144 + x % 64 * 4096 + y % 64 * 64 + z % 64)), bs)
  | _ => (none, bs)

/-- Read everything, at most `n` characters. -/
def scanAll : ℕ → List UInt8 → List (Option Char)
  | 0, _ => []
  | _ + 1, [] => []
  | n + 1, b :: bs => (scan b.toNat bs).1 :: scanAll n (scan b.toNat bs).2

/-- `String::from_utf8_lossy` -/
def fromUtf8Lossy (bs : List UInt8) : List Char :=
  (scanAll bs.length bs).map fun c => c.getD (Char.ofNat 0xFFFD)

/-- `str::from_utf8`, without the position of the error. -/
def fromUtf8 (bs : List UInt8) : Option (List Char) :=
  (scanAll bs.length bs).mapM id

/-! ## Reading what was written -/

/-- The code points that are characters. -/
theorem val_lt (c : Char) :
    c.val.toNat < 0xD800 ∨ (0xDFFF < c.val.toNat ∧ c.val.toNat < 0x110000) := c.valid

theorem ofNat_val (c : Char) : Char.ofNat c.val.toNat = c := Char.ofNat_toNat c

theorem toNat_ofNat {x : ℕ} (hx : x < 256) : (UInt8.ofNat x).toNat = x := by
  rw [UInt8.toNat_ofNat']
  omega

theorem takeByte_cons {ok : ℕ → Bool} {x : ℕ} {rest : List UInt8}
    {k : ℕ → List UInt8 → Option Char × List UInt8} (hx : x < 256) (hok : ok x = true) :
    takeByte ok (UInt8.ofNat x :: rest) k = k x rest := by
  rw [takeByte, toNat_ofNat hx, if_pos hok]

theorem isCont_low (x : ℕ) : isCont (x % 64 + 128) = true := by
  simp only [isCont, decide_eq_true_eq]
  omega

/-- The second byte of a character is one that may follow its first. -/
theorem isSecond_of {b x : ℕ} (hx : 0x80 ≤ x ∧ x ≤ 0xBF) (he0 : b = 0xE0 → 0xA0 ≤ x)
    (hed : b = 0xED → x ≤ 0x9F) (hf0 : b = 0xF0 → 0x90 ≤ x) (hf4 : b = 0xF4 → x ≤ 0x8F) :
    isSecond b x = true := by
  unfold isSecond isCont
  split_ifs with h1 h2 h3 h4
  · have := he0 h1
    simp only [decide_eq_true_eq]
    omega
  · have := hed h2
    simp only [decide_eq_true_eq]
    omega
  · have := hf0 h3
    simp only [decide_eq_true_eq]
    omega
  · have := hf4 h4
    simp only [decide_eq_true_eq]
    omega
  · simpa using hx

/-- A character is read back, whatever follows it. -/
theorem scan_encodeChar (c : Char) (rest : List UInt8) :
    ∃ b bs, String.utf8EncodeChar c = b :: bs ∧ scan b.toNat (bs ++ rest) = (some c, rest) := by
  have hv := val_lt c
  have hc := ofNat_val c
  unfold String.utf8EncodeChar
  generalize c.val.toNat = v at hv hc
  simp only
  split_ifs with h1 h2 h3
  · refine ⟨_, _, rfl, ?_⟩
    have hw : width v = 1 := by
      rw [width, if_pos (by omega)]
    rw [toNat_ofNat (by omega), scan, hw, hc]
    rfl
  · refine ⟨_, _, rfl, ?_⟩
    have hw : width (v / 64 % 32 + 192) = 2 := by
      rw [width, if_neg (by omega), if_pos (by omega)]
    have hsecond : isSecond (v / 64 % 32 + 192) (v % 64 + 128) = true :=
      isSecond_of (by omega) (by omega) (by omega) (by omega) (by omega)
    have hval : (v / 64 % 32 + 192) % 32 * 64 + (v % 64 + 128) % 64 = v := by omega
    rw [toNat_ofNat (by omega), scan, hw]
    simp only [List.cons_append, List.nil_append]
    rw [takeByte_cons (by omega) hsecond, hval, hc]
  · refine ⟨_, _, rfl, ?_⟩
    have hw : width (v / 4096 % 16 + 224) = 3 := by
      rw [width, if_neg (by omega), if_neg (by omega), if_pos (by omega)]
    have hsecond : isSecond (v / 4096 % 16 + 224) (v / 64 % 64 + 128) = true :=
      isSecond_of (by omega) (by omega) (by omega) (by omega) (by omega)
    have hval : (v / 4096 % 16 + 224) % 16 * 4096 + (v / 64 % 64 + 128) % 64 * 64 +
        (v % 64 + 128) % 64 = v := by omega
    rw [toNat_ofNat (by omega), scan, hw]
    simp only [List.cons_append, List.nil_append]
    rw [takeByte_cons (by omega) hsecond, takeByte_cons (by omega) (isCont_low _), hval, hc]
  · refine ⟨_, _, rfl, ?_⟩
    have hw : width (v / 262144 % 8 + 240) = 4 := by
      rw [width, if_neg (by omega), if_neg (by omega), if_neg (by omega), if_pos (by omega)]
    have hsecond : isSecond (v / 262144 % 8 + 240) (v / 4096 % 64 + 128) = true :=
      isSecond_of (by omega) (by omega) (by omega) (by omega) (by omega)
    have hval : (v / 262144 % 8 + 240) % 8 * 262144 + (v / 4096 % 64 + 128) % 64 * 4096 +
        (v / 64 % 64 + 128) % 64 * 64 + (v % 64 + 128) % 64 = v := by omega
    rw [toNat_ofNat (by omega), scan, hw]
    simp only [List.cons_append, List.nil_append]
    rw [takeByte_cons (by omega) hsecond, takeByte_cons (by omega) (isCont_low _),
      takeByte_cons (by omega) (isCont_low _), hval, hc]

theorem scanAll_encode {s : List Char} {n : ℕ} (hn : (encode s).length ≤ n) :
    scanAll n (encode s) = s.map some := by
  induction s generalizing n with
  | nil => cases n <;> rfl
  | cons c s ih =>
    obtain ⟨b, bs, hbs, hscan⟩ := scan_encodeChar c (encode s)
    have henc : encode (c :: s) = b :: (bs ++ encode s) := by
      rw [encode_cons, hbs, List.cons_append]
    rw [henc, List.length_cons, List.length_append] at hn
    cases n with
    | zero => omega
    | succ n =>
      rw [henc, scanAll, hscan, ih (by omega), List.map_cons]

/-- The lossy reader loses nothing of a text. -/
theorem fromUtf8Lossy_encode (s : List Char) : fromUtf8Lossy (encode s) = s := by
  rw [fromUtf8Lossy, scanAll_encode (Nat.le_refl _), List.map_map]
  exact List.map_id s

/-- The strict reader accepts every text. -/
theorem fromUtf8_encode (s : List Char) : fromUtf8 (encode s) = some s := by
  rw [fromUtf8, scanAll_encode (Nat.le_refl _)]
  induction s with
  | nil => rfl
  | cons c s ih => simp [List.mapM_cons, ih]

/-! ## Nothing else can be read -/

theorem exists_of_takeByte {ok : ℕ → Bool} {bs rest : List UInt8} {c : Char}
    {k : ℕ → List UInt8 → Option Char × List UInt8}
    (h : takeByte ok bs k = (some c, rest)) :
    ∃ x bs', bs = x :: bs' ∧ ok x.toNat = true ∧ k x.toNat bs' = (some c, rest) := by
  cases bs with
  | nil => cases h
  | cons x bs' =>
    rw [takeByte] at h
    split at h
    · next hok => exact ⟨x, bs', rfl, hok, h⟩
    · cases h

theorem val_ofNat {v : ℕ} (hv : v < 0xD800 ∨ (0xDFFF < v ∧ v < 0x110000)) :
    (Char.ofNat v).val.toNat = v := by
  rw [Char.ofNat, dif_pos (by exact hv)]
  rfl

theorem isCont_iff {x : ℕ} : isCont x = true ↔ 0x80 ≤ x ∧ x ≤ 0xBF := decide_eq_true_iff

theorem eq_ofNat {x : UInt8} {v : ℕ} (h : x.toNat = v) : x = UInt8.ofNat v := by
  rw [← h, UInt8.ofNat_toNat]

theorem width_cases (n : ℕ) : (width n = 1 ∧ n < 0x80) ∨ (width n = 2 ∧ 0xC2 ≤ n ∧ n ≤ 0xDF) ∨
    (width n = 3 ∧ 0xE0 ≤ n ∧ n ≤ 0xEF) ∨ (width n = 4 ∧ 0xF0 ≤ n ∧ n ≤ 0xF4) ∨ width n = 0 := by
  unfold width
  split_ifs <;> omega

theorem bounds_of_isSecond {b x : ℕ} (h : isSecond b x = true) :
    (0x80 ≤ x ∧ x ≤ 0xBF) ∧ (b = 0xE0 → 0xA0 ≤ x) ∧ (b = 0xED → x ≤ 0x9F) ∧
      (b = 0xF0 → 0x90 ≤ x) ∧ (b = 0xF4 → x ≤ 0x8F) := by
  unfold isSecond isCont at h
  split_ifs at h <;> rw [decide_eq_true_iff] at h <;> omega

/-- What was read is the encoding of the character. -/
theorem encodeChar_of_scan {b : UInt8} {bs rest : List UInt8} {c : Char}
    (h : scan b.toNat bs = (some c, rest)) : b :: bs = String.utf8EncodeChar c ++ rest := by
  unfold scan at h
  unfold String.utf8EncodeChar
  rcases width_cases b.toNat with ⟨hw, hb⟩ | ⟨hw, hb⟩ | ⟨hw, hb⟩ | ⟨hw, hb⟩ | hw
  · rw [hw] at h
    obtain ⟨hc, rfl⟩ := Prod.mk.inj h
    obtain rfl := Option.some.inj hc
    rw [val_ofNat (by omega)]
    simp only
    rw [if_pos (by omega), UInt8.ofNat_toNat, List.singleton_append]
  · rw [hw] at h
    obtain ⟨x, bs, rfl, hx, h⟩ := exists_of_takeByte h
    obtain ⟨hx, -⟩ := bounds_of_isSecond hx
    obtain ⟨hc, rfl⟩ := Prod.mk.inj h
    obtain rfl := Option.some.inj hc
    rw [val_ofNat (by omega)]
    simp only
    rw [if_neg (by omega), if_pos (by omega), ← eq_ofNat (x := b) (by omega),
      ← eq_ofNat (x := x) (by omega), List.cons_append, List.singleton_append]
  · rw [hw] at h
    obtain ⟨x, bs, rfl, hx, h⟩ := exists_of_takeByte h
    obtain ⟨y, bs, rfl, hy, h⟩ := exists_of_takeByte h
    obtain ⟨hx, he0, hed, -⟩ := bounds_of_isSecond hx
    rw [isCont_iff] at hy
    obtain ⟨hc, rfl⟩ := Prod.mk.inj h
    obtain rfl := Option.some.inj hc
    rw [val_ofNat (by omega)]
    simp only
    rw [if_neg (by omega), if_neg (by omega), if_pos (by omega), ← eq_ofNat (x := b) (by omega),
      ← eq_ofNat (x := x) (by omega), ← eq_ofNat (x := y) (by omega)]
    rfl
  · rw [hw] at h
    obtain ⟨x, bs, rfl, hx, h⟩ := exists_of_takeByte h
    obtain ⟨y, bs, rfl, hy, h⟩ := exists_of_takeByte h
    obtain ⟨z, bs, rfl, hz, h⟩ := exists_of_takeByte h
    obtain ⟨hx, -, -, hf0, hf4⟩ := bounds_of_isSecond hx
    rw [isCont_iff] at hy hz
    obtain ⟨hc, rfl⟩ := Prod.mk.inj h
    obtain rfl := Option.some.inj hc
    rw [val_ofNat (by omega)]
    simp only
    rw [if_neg (by omega), if_neg (by omega), if_neg (by omega), ← eq_ofNat (x := b) (by omega),
      ← eq_ofNat (x := x) (by omega), ← eq_ofNat (x := y) (by omega),
      ← eq_ofNat (x := z) (by omega)]
    rfl
  · rw [hw] at h
    cases h

theorem eq_encode_of_scanAll {n : ℕ} {bs : List UInt8} {s : List Char} (hn : bs.length ≤ n)
    (h : (scanAll n bs).mapM id = some s) : bs = encode s := by
  induction n generalizing bs s with
  | zero =>
    obtain rfl := List.length_eq_zero_iff.mp (Nat.le_zero.mp hn)
    obtain rfl := Option.some.inj h
    rfl
  | succ n ih =>
    cases bs with
    | nil =>
      obtain rfl := Option.some.inj h
      rfl
    | cons b bs =>
      rw [scanAll, List.mapM_cons] at h
      simp only [id, Option.bind_eq_bind, Option.bind_eq_some_iff, Option.pure_def,
        Option.some.injEq] at h
      obtain ⟨c, hc, t, ht, rfl⟩ := h
      have hscan : scan b.toNat bs = (some c, (scan b.toNat bs).2) := Prod.ext hc rfl
      have hbs := encodeChar_of_scan hscan
      have hlen : (scan b.toNat bs).2.length ≤ n := by
        have hsize := congrArg List.length hbs
        rw [List.length_append, String.length_utf8EncodeChar] at hsize
        have hpos := Char.utf8Size_pos c
        omega
      rw [hbs, encode_cons, ← ih hlen ht]

/-- The strict reader accepts nothing but encoded texts. -/
theorem fromUtf8_eq_some_iff {bs : List UInt8} {s : List Char} :
    fromUtf8 bs = some s ↔ bs = encode s := by
  constructor
  · exact eq_encode_of_scanAll (Nat.le_refl _)
  · rintro rfl
    exact fromUtf8_encode s

/-! ## Finding a text inside another -/

/-- No character begins with a continuation byte. -/
theorem isCont_head {c : Char} {b : UInt8} {bs : List UInt8}
    (h : String.utf8EncodeChar c = b :: bs) : isCont b.toNat = false := by
  have hv := val_lt c
  unfold String.utf8EncodeChar at h
  generalize c.val.toNat = v at hv h
  simp only at h
  have hb : ∀ x, x < 256 → ¬(0x80 ≤ x ∧ x ≤ 0xBF) → isCont (UInt8.ofNat x).toNat = false := by
    intro x hx hout
    rw [toNat_ofNat hx, isCont, decide_eq_false hout]
  split_ifs at h
  all_goals
    obtain ⟨rfl, -⟩ := List.cons.inj h
    exact hb _ (by omega) (by omega)

/-- All its other bytes are continuation bytes. -/
theorem isCont_tail {c : Char} {x : UInt8} (h : x ∈ (String.utf8EncodeChar c).tail) :
    isCont x.toNat = true := by
  have hcont : ∀ v, isCont (UInt8.ofNat (v % 64 + 128)).toNat = true := by
    intro v
    rw [toNat_ofNat (by omega)]
    exact isCont_low v
  unfold String.utf8EncodeChar at h
  generalize c.val.toNat = v at h
  simp only at h
  split_ifs at h
  · simp at h
  · simp only [List.tail_cons, List.mem_singleton] at h
    subst h
    exact hcont _
  · simp only [List.tail_cons, List.mem_cons, List.not_mem_nil, or_false] at h
    rcases h with rfl | rfl <;> exact hcont _
  · simp only [List.tail_cons, List.mem_cons, List.not_mem_nil, or_false] at h
    rcases h with rfl | rfl | rfl <;> exact hcont _

/-- Texts can be compared by their bytes. -/
theorem prefix_of_encode_prefix {p t : List Char} (h : encode p <+: encode t) : p <+: t := by
  induction p generalizing t with
  | nil => exact List.nil_prefix
  | cons a p ih =>
    obtain ⟨r, hr⟩ := h
    obtain ⟨b, bs, hbs, hscan⟩ := scan_encodeChar a (encode p ++ r)
    have hp : encode (a :: p) ++ r = b :: (bs ++ (encode p ++ r)) := by
      rw [encode_cons, hbs, List.append_assoc, List.cons_append]
    cases t with
    | nil =>
      rw [hp] at hr
      cases hr
    | cons c t =>
      obtain ⟨b', bs', hbs', hscan'⟩ := scan_encodeChar c (encode t)
      have ht : encode (c :: t) = b' :: (bs' ++ encode t) := by
        rw [encode_cons, hbs', List.cons_append]
      rw [hp, ht] at hr
      obtain ⟨rfl, hrest⟩ := List.cons.inj hr
      rw [hrest, hscan'] at hscan
      simp only [Prod.mk.injEq, Option.some.injEq] at hscan
      obtain ⟨rfl, htail⟩ := hscan
      rw [List.prefix_cons_inj]
      exact ih ⟨r, htail.symm⟩

/-- The bytes of a text occur in those of another only where the text itself does. -/
theorem exists_prefix_drop {p t : List Char} {j : ℕ} (hp : p ≠ [])
    (h : encode p <+: (encode t).drop j) :
    ∃ i, (encode (t.take i)).length = j ∧ p <+: t.drop i := by
  obtain ⟨a, p', rfl⟩ := List.exists_cons_of_ne_nil hp
  obtain ⟨b, bs, hbs, -⟩ := scan_encodeChar a []
  have hhead : ∀ r, encode (a :: p') ++ r = b :: (bs ++ (encode p' ++ r)) := by
    intro r
    rw [encode_cons, hbs, List.append_assoc, List.cons_append]
  induction t generalizing j with
  | nil =>
    obtain ⟨r, hr⟩ := h
    rw [hhead, encode_nil, List.drop_nil] at hr
    cases hr
  | cons c t ih =>
    by_cases hj : j = 0
    · subst hj
      rw [List.drop_zero] at h
      exact ⟨0, rfl, prefix_of_encode_prefix h⟩
    · by_cases hlt : j < (String.utf8EncodeChar c).length
      · -- inside a character there are only continuation bytes
        obtain ⟨r, hr⟩ := h
        rw [hhead, encode_cons, List.drop_append_of_le_length (by omega),
          List.drop_eq_getElem_cons hlt, List.cons_append] at hr
        obtain ⟨hb, -⟩ := List.cons.inj hr
        have hmem : (String.utf8EncodeChar c)[j] ∈ (String.utf8EncodeChar c).tail := by
          obtain ⟨j', rfl⟩ := Nat.exists_eq_succ_of_ne_zero hj
          rw [← List.getElem_tail (by rw [List.length_tail]; omega)]
          exact List.getElem_mem _
        have hcont := isCont_tail hmem
        rw [← hb, isCont_head hbs] at hcont
        cases hcont
      · rw [encode_cons c, List.drop_append, List.drop_eq_nil_of_le (by omega),
          List.nil_append] at h
        obtain ⟨i, hi, hpre⟩ := ih h
        refine ⟨i + 1, ?_, ?_⟩
        · rw [List.take_succ_cons, encode_cons, List.length_append]
          omega
        · rw [List.drop_succ_cons]
          exact hpre

end Lightspeed.Utf8
