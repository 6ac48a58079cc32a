import Lightspeed.Ingest.FtlCodec

/-!
# What the decoder accepts

`decode` does not look for the requests of a grammar but for the first keyword of its chain that
occurs in the frame, wherever it occurs. One lemma for each branch says what is decoded there.
From these follow the two results about all byte strings: which frames make `decode` panic
(`not_panic_iff`), and which command it makes of a frame it accepts (`accepted_of_decode`).
-/

namespace Lightspeed.Ingest.FtlCodec

variable {line : Text}

/-! ## The chain of tests -/

/-- No branch before the one for lines with a colon is taken. -/
structure NoKeyword (line : Text) : Prop where
  hmac : ¬"HMAC".toList <:+: line
  connect : ¬"CONNECT".toList <:+: line

theorem not_infix_disconnect (h : ¬"CONNECT".toList <:+: line) :
    ¬"DISCONNECT".toList <:+: line := by
  have hpart : "CONNECT".toList <:+: "DISCONNECT".toList := by decide
  intro hd
  exact h (hpart.trans hd)

theorem parse_of_hmac (h : "HMAC".toList <:+: line) : parse line = .command .hmac := by
  simp only [parse, Str.contains_eq_true h, if_true]

theorem parse_of_disconnect (hhmac : ¬"HMAC".toList <:+: line)
    (h : "DISCONNECT".toList <:+: line) : parse line = .command .disconnect := by
  simp only [parse, Str.contains_eq_false hhmac, Str.contains_eq_true h, if_true,
    Bool.false_eq_true, if_false]

theorem parse_of_connect (hhmac : ¬"HMAC".toList <:+: line)
    (hdisconnect : ¬"DISCONNECT".toList <:+: line) (h : "CONNECT".toList <:+: line) :
    parse line = parseConnect line := by
  simp only [parse, Str.contains_eq_false hhmac, Str.contains_eq_false hdisconnect,
    Str.contains_eq_true h, if_true, Bool.false_eq_true, if_false]

theorem contains_colon : Str.contains line ":".toList = true ↔ ':' ∈ line :=
  Str.contains_singleton

/-- A single byte that is a dot. -/
theorem contains_dot_and_len :
    (Str.contains line ".".toList && Str.len line == 1) = true ↔ line = ['.'] := by
  have hcontains : Str.contains line ".".toList = true ↔ '.' ∈ line := Str.contains_singleton
  rw [Bool.and_eq_true, hcontains, beq_iff_eq]
  constructor
  · rintro ⟨hmem, hlen⟩
    have hle : line.length ≤ 1 := hlen ▸ Utf8.length_le_length_encode line
    match line, hmem, hle with
    | [c], hmem, _ => rw [List.mem_singleton.mp hmem]
    | _ :: _ :: _, _, hle => simp at hle
  · rintro rfl
    exact ⟨List.mem_singleton_self _, rfl⟩

/-- The branches after the keywords. -/
theorem NoKeyword.parse_eq (h : NoKeyword line) : parse line =
    if ':' ∈ line then parseAttribute line
    else if line = ['.'] then .command .dot
    else if "PING".toList <:+: line then .command .ping
    else .error (.unsupported line) := by
  simp only [parse, Str.contains_eq_false h.hmac, Str.contains_eq_false h.connect,
    Str.contains_eq_false (not_infix_disconnect h.connect), Bool.false_eq_true, if_false]
  exact if_congr contains_colon rfl
    (if_congr contains_dot_and_len rfl (if_congr Str.contains_iff rfl rfl))

/-! ## `CONNECT` -/

/-- The third of the parts between blanks is there and is not empty. -/
def HasKey (line : Text) : Prop :=
  ∃ command id mark rest, line = command ++ ' ' :: (id ++ ' ' :: mark :: rest) ∧
    ' ' ∉ command ∧ ' ' ∉ id ∧ mark ≠ ' '

theorem hasKey_iff_split : HasKey line ↔
    ∃ command id mark key more,
      Str.split line ' ' = command :: id :: (mark :: key) :: more := by
  constructor
  · rintro ⟨command, id, mark, rest, rfl, hcommand, hid, hmark⟩
    obtain ⟨key, more, hrest⟩ := Str.exists_split_eq_cons_cons_iff.mpr ⟨hmark, rest, rfl⟩
    refine ⟨command, id, mark, key, more, ?_⟩
    rw [Str.split_append_cons hcommand, Str.split_append_cons hid, hrest]
  · rintro ⟨command, id, mark, key, more, hsplit⟩
    obtain ⟨t, rfl, hcommand, ht⟩ := Str.split_eq_cons_cons.mp hsplit
    obtain ⟨u, rfl, hid, hu⟩ := Str.split_eq_cons_cons.mp ht
    obtain ⟨hmark, rest, rfl⟩ := Str.exists_split_eq_cons_cons_iff.mp ⟨key, more, hu⟩
    exact ⟨command, id, mark, rest, rfl, hcommand, hid, hmark⟩

theorem parseConnect_of_split {command id key : Text} {mark : Char} {more : List Text}
    (h : Str.split line ' ' = command :: id :: (mark :: key) :: more) :
    parseConnect line = .command (.connect (connectData id key)) := by
  unfold parseConnect
  rw [h]
  rfl

/-- Without it the indexing or `remove(0)` panics. -/
theorem parseConnect_of_not_hasKey (h : ¬HasKey line) : parseConnect line = .panic := by
  rw [hasKey_iff_split] at h
  unfold parseConnect
  match hsplit : Str.split line ' ' with
  | [] | [_] | [_, _] | _ :: _ :: [] :: _ => rfl
  | command :: id :: (mark :: key) :: more =>
    exact absurd ⟨command, id, mark, key, more, hsplit⟩ h

/-- The tokens of a `CONNECT` that is accepted. -/
theorem exists_split_of_parseConnect {c : FtlCommand} (h : parseConnect line = .command c) :
    ∃ command id mark key more, Str.split line ' ' = command :: id :: (mark :: key) :: more ∧
      c = .connect (connectData id key) := by
  by_cases hkey : HasKey line
  · obtain ⟨command, id, mark, key, more, hsplit⟩ := hasKey_iff_split.mp hkey
    rw [parseConnect_of_split hsplit, Outcome.command.injEq] at h
    exact ⟨command, id, mark, key, more, hsplit, h.symm⟩
  · rw [parseConnect_of_not_hasKey hkey] at h
    cases h

/-! ## Attributes -/

/-- The text up to the next colon. -/
def upToColon (text : Text) : Text := text.takeWhile fun c => decide (c ≠ ':')

/-- The key is what stands before the first colon and the value what stands before the second,
if there is one. -/
theorem parseAttribute_append_cons {key text : Text} (hkey : ':' ∉ key) :
    parseAttribute (key ++ ':' :: text) =
      .command (.attribute (attributeData key (Str.trim (upToColon text)))) := by
  obtain ⟨more, hmore⟩ := Str.exists_split_eq_cons text ':'
  unfold parseAttribute
  rw [Str.split_append_cons hkey, hmore]
  rfl

/-! ## When the decoder panics -/

/-- The parts that `decode` indexes are there, or it does not come to look at them. -/
def Indexable (line : Text) : Prop :=
  "HMAC".toList <:+: line ∨ "DISCONNECT".toList <:+: line ∨ ¬"CONNECT".toList <:+: line ∨
    HasKey line

theorem parse_ne_panic_iff : parse line ≠ .panic ↔ Indexable line := by
  unfold Indexable
  by_cases hhmac : "HMAC".toList <:+: line
  · rw [parse_of_hmac hhmac]
    exact iff_of_true (by simp) (.inl hhmac)
  by_cases hdisconnect : "DISCONNECT".toList <:+: line
  · rw [parse_of_disconnect hhmac hdisconnect]
    exact iff_of_true (by simp) (.inr (.inl hdisconnect))
  by_cases hconnect : "CONNECT".toList <:+: line
  · rw [parse_of_connect hhmac hdisconnect hconnect]
    by_cases hkey : HasKey line
    · obtain ⟨command, id, mark, key, more, hsplit⟩ := hasKey_iff_split.mp hkey
      rw [parseConnect_of_split hsplit]
      exact iff_of_true (by simp) (.inr (.inr (.inr hkey)))
    · rw [parseConnect_of_not_hasKey hkey]
      refine iff_of_false (fun hne => hne rfl) ?_
      rintro (h | h | h | h)
      · exact hhmac h
      · exact hdisconnect h
      · exact h hconnect
      · exact hkey h
  · refine iff_of_true ?_ (.inr (.inr (.inl hconnect)))
    rw [(NoKeyword.mk hhmac hconnect).parse_eq]
    split
    · next hcolon =>
      obtain ⟨key, text, rfl, hkey⟩ := List.eq_append_cons_of_mem hcolon
      rw [parseAttribute_append_cons hkey]
      simp
    · split
      · simp
      · split <;> simp

/-- **When `decode` panics.** It does so exactly on a frame that contains `CONNECT`, but neither
`HMAC` nor `DISCONNECT`, and does not have a third, non-empty part. -/
theorem not_panic_iff (self : FtlCodec) (buf : List UInt8) :
    (∀ codec rest, self.decode buf ≠ some (.panic, codec, rest)) ↔
      ∀ index, position delimiter buf = some index →
        Indexable (Utf8.fromUtf8Lossy (buf.take index)) := by
  constructor
  · intro h index hpos
    rw [← parse_ne_panic_iff]
    intro hpanic
    refine h self (buf.drop (index + 4)) ?_
    rw [self.decode_of_position hpos, hpanic, if_pos rfl]
  · intro h codec rest hdecode
    obtain ⟨index, hpos, hpanic, -⟩ := decode_eq_some hdecode
    exact parse_ne_panic_iff.mpr (h index hpos) hpanic.symm

/-- A `CONNECT` and nothing else. -/
theorem bare_connect_panics :
    ¬∀ (self : FtlCodec) buf codec rest, self.decode buf ≠ some (.panic, codec, rest) := by
  intro h
  exact h .new (wire "CONNECT".toList) .new [] (by decide)

/-! ## Which frames are which commands -/

/-- The requests of the protocol. -/
inductive Request : Text → FtlCommand → Prop
  | hmac : Request "HMAC".toList .hmac
  | disconnect (rest : Text) : Request ("DISCONNECT".toList ++ rest) .disconnect
  | connect (id key : Text) : Request ("CONNECT ".toList ++ id ++ " $".toList ++ key)
      (.connect (connectData id key))
  | attribute (key text : Text) : Request (key ++ ':' :: text)
      (.attribute (attributeData key (Str.trim text)))
  | dot : Request ".".toList .dot
  | ping (rest : Text) : Request ("PING".toList ++ rest) .ping

/-- What a frame is accepted as: the first keyword of the chain that occurs in it decides. The
value of an attribute is described for frames with one colon only. -/
inductive Accepted (line : Text) : FtlCommand → Prop
  | hmac : "HMAC".toList <:+: line → Accepted line .hmac
  | disconnect : ¬"HMAC".toList <:+: line → "DISCONNECT".toList <:+: line →
    Accepted line .disconnect
  /-- The parts between blanks: whatever the third begins with is dropped, and more parts are
  ignored. -/
  | connect {command id key : Text} {mark : Char} {more : List Text} :
    ¬"HMAC".toList <:+: line → ¬"DISCONNECT".toList <:+: line → "CONNECT".toList <:+: line →
    Str.split line ' ' = command :: id :: (mark :: key) :: more →
    Accepted line (.connect (connectData id key))
  | attribute {key text value : Text} : NoKeyword line → line = key ++ ':' :: text → ':' ∉ key →
    (':' ∉ text → value = Str.trim text) → Accepted line (.attribute (attributeData key value))
  | dot : line = ['.'] → Accepted line .dot
  | ping : NoKeyword line → ':' ∉ line → line ≠ ['.'] → "PING".toList <:+: line →
    Accepted line .ping

/-- No test of the chain is met. -/
structure Unclassified (line : Text) : Prop where
  keyword : NoKeyword line
  colon : ':' ∉ line
  dot : line ≠ ['.']
  ping : ¬"PING".toList <:+: line

theorem upToColon_of_not_mem {text : Text} (h : ':' ∉ text) : upToColon text = text := by
  rw [upToColon, List.takeWhile_eq_self_iff]
  intro c hc
  rw [decide_eq_true_eq]
  rintro rfl
  exact h hc

/-- What the branches after the keywords accept. -/
theorem NoKeyword.accepted {c : FtlCommand} (h : NoKeyword line)
    (hparse : parse line = .command c) : Accepted line c := by
  rw [h.parse_eq] at hparse
  split at hparse
  · next hcolon =>
    obtain ⟨key, text, rfl, hkey⟩ := List.eq_append_cons_of_mem hcolon
    rw [parseAttribute_append_cons hkey, Outcome.command.injEq] at hparse
    subst hparse
    refine .attribute h rfl hkey fun htext => ?_
    rw [upToColon_of_not_mem htext]
  · next hcolon =>
    split at hparse
    · next hdot =>
      obtain rfl := Outcome.command.inj hparse
      exact .dot hdot
    · next hdot =>
      split at hparse
      · next hping =>
        obtain rfl := Outcome.command.inj hparse
        exact .ping h hcolon hdot hping
      · cases hparse

theorem accepted_of_parse {c : FtlCommand} (h : parse line = .command c) : Accepted line c := by
  by_cases hhmac : "HMAC".toList <:+: line
  · rw [parse_of_hmac hhmac] at h
    obtain rfl := Outcome.command.inj h
    exact .hmac hhmac
  by_cases hdisconnect : "DISCONNECT".toList <:+: line
  · rw [parse_of_disconnect hhmac hdisconnect] at h
    obtain rfl := Outcome.command.inj h
    exact .disconnect hhmac hdisconnect
  by_cases hconnect : "CONNECT".toList <:+: line
  · rw [parse_of_connect hhmac hdisconnect hconnect] at h
    obtain ⟨command, id, mark, key, more, hsplit, rfl⟩ := exists_split_of_parseConnect h
    exact .connect hhmac hdisconnect hconnect hsplit
  · exact (NoKeyword.mk hhmac hconnect).accepted h

/-- Only a frame without a keyword is an attribute. -/
theorem noKeyword_of_attribute {data : Data} (h : parse line = .command (.attribute data)) :
    NoKeyword line := by
  have hacc := accepted_of_parse h
  generalize hc : FtlCommand.attribute data = c at hacc
  match hacc with
  | .attribute hkeyword _ _ _ => exact hkeyword
  | .hmac _ | .disconnect _ _ | .connect _ _ _ _ | .dot _ | .ping _ _ _ _ => cases hc

theorem Unclassified.parse_eq (h : Unclassified line) :
    parse line = .error (.unsupported line) := by
  rw [h.keyword.parse_eq, if_neg h.colon, if_neg h.dot, if_neg h.ping]

/-- **What the decoder accepts.** A command that `decode` returns is the one the first keyword in
the consumed frame stands for, and a frame that meets no test is consumed and refused. -/
theorem accepted_of_decode (self : FtlCodec) (buf : List UInt8) :
    (∀ c codec rest, self.decode buf = some (.command c, codec, rest) →
      ∃ index, position delimiter buf = some index ∧ rest = buf.drop (index + 4) ∧
        Accepted (Utf8.fromUtf8Lossy (buf.take index)) c) ∧
    ∀ index, position delimiter buf = some index →
      Unclassified (Utf8.fromUtf8Lossy (buf.take index)) →
      self.decode buf = some (.error (.unsupported (Utf8.fromUtf8Lossy (buf.take index))),
        self.reset, buf.drop (index + 4)) := by
  constructor
  · intro c codec rest h
    obtain ⟨index, hpos, hparse, hrest, -⟩ := decode_eq_some h
    exact ⟨index, hpos, hrest, accepted_of_parse hparse.symm⟩
  · intro index hpos h
    rw [self.decode_of_position hpos, h.parse_eq]
    rfl

theorem Request.eq_hmac {c : FtlCommand} (h : Request line c) (hc : c = .hmac) :
    line = "HMAC".toList := by
  cases h with
  | hmac => rfl
  | _ => cases hc

/-- A line that only mentions `HMAC` is accepted for one. -/
theorem accepts_more_than_requests :
    ¬∀ (self : FtlCodec) buf c codec rest, self.decode buf = some (.command c, codec, rest) →
      ∃ index, position delimiter buf = some index ∧ rest = buf.drop (index + 4) ∧
        Request (Utf8.fromUtf8Lossy (buf.take index)) c := by
  intro h
  obtain ⟨index, hpos, -, hrequest⟩ :=
    h .new (wire "NO HMAC".toList) .hmac .new [] (by decide)
  have hindex : position delimiter (wire "NO HMAC".toList) = some 7 := by decide
  obtain rfl := Option.some.inj (hpos.symm.trans hindex)
  exact absurd (hrequest.eq_hmac rfl) (by decide)

end Lightspeed.Ingest.FtlCodec
