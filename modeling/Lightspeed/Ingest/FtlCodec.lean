import Mathlib.Data.List.AList
import Lightspeed.Framing
import Lightspeed.Str

/-!
# The FTL codec

`ingest/src/ftl_codec.rs`. A frame ends with the first `"\r\n\r\n"` in the buffer. What stands
before it is decoded lossily and sorted by a chain of substring tests, in which the order
counts: `DISCONNECT` contains `CONNECT`. Two of its branches index into the parts of a split and
can panic.

The decoder is stable under more input and always consumes what it reports
(`ftlCodec_lawful`), so the way TCP cuts the stream does not show (`feed_eq_drain`).
-/

namespace Lightspeed.Ingest

/-- A `HashMap<String, String>`. -/
abbrev Data := AList fun _ : Text => Text

inductive FtlCommand
  | hmac
  | connect (data : Data)
  | ping
  | dot
  | attribute (data : Data)
  | disconnect
deriving DecidableEq

/-- The error `decode` can return. -/
inductive FtlError
  | unsupported (command : Text)
deriving DecidableEq

structure FtlCodec where
  commandBuffer : List UInt8
deriving DecidableEq

namespace FtlCodec

def new : FtlCodec := ⟨[]⟩

def reset (self : FtlCodec) : FtlCodec := { self with commandBuffer := [] }

/-- How a call of `decode` that found a frame ends. -/
inductive Outcome
  | command (c : FtlCommand)
  | error (e : FtlError)
  | panic
deriving DecidableEq

/-- `b"\r\n\r\n"` -/
def delimiter : List UInt8 := [13, 10, 13, 10]

/-- `data` of a `CONNECT`. -/
def connectData (channelId streamKey : Text) : Data :=
  ((∅ : Data).insert "channel_id".toList channelId).insert "stream_key".toList streamKey

/-- `data` of an attribute. -/
def attributeData (key value : Text) : Data :=
  ((∅ : Data).insert "key".toList key).insert "value".toList value

/-- The branch for `CONNECT`: `commands[2]` must exist and `key.remove(0)` needs a character. -/
def parseConnect (command : Text) : Outcome :=
  let commands := Str.split command ' '
  match commands[1]?, commands[2]? with
  | some channelId, some (_ :: key) => .command (.connect (connectData channelId key))
  | _, _ => .panic

/-- The branch for a line with a colon. -/
def parseAttribute (command : Text) : Outcome :=
  let commands := Str.split command ':'
  match commands[0]?, commands[1]? with
  | some key, some value => .command (.attribute (attributeData key (Str.trim value)))
  | _, _ => .panic

/-- What `decode` makes of a frame. -/
def parse (command : Text) : Outcome :=
  if Str.contains command "HMAC".toList then .command .hmac
  else if Str.contains command "DISCONNECT".toList then .command .disconnect
  else if Str.contains command "CONNECT".toList then parseConnect command
  else if Str.contains command ":".toList then parseAttribute command
  else if Str.contains command ".".toList && Str.len command == 1 then .command .dot
  else if Str.contains command "PING".toList then .command .ping
  else .error (.unsupported command)

/-- `decode`: what it makes of the first frame, the codec afterwards and what it leaves of the
buffer, or `none` for `Ok(None)`. A panic comes before the call of `reset`. -/
def decode (self : FtlCodec) (buf : List UInt8) : Option (Outcome × FtlCodec × List UInt8) :=
  match position delimiter buf with
  | some index =>
    let command := Utf8.fromUtf8Lossy (buf.take index)
    let rest := buf.drop (index + 4)
    match parse command with
    | .panic => some (.panic, self, rest)
    | outcome => some (outcome, self.reset, rest)
  | none => none

def encode (line : Text) (buf : List UInt8) : List UInt8 := buf ++ Utf8.encode line

/-- `decode` as `Framed` uses it: an error ends the stream, a panic the task. -/
def decoder : Decoder FtlCodec UInt8 Outcome where
  decode := decode
  stops
    | .command _ => false
    | .error _ | .panic => true

theorem delimiter_ne_nil : delimiter ≠ [] := by decide

/-- What a successful call consumed and produced. -/
theorem decode_eq_some {self self' : FtlCodec} {buf rest : List UInt8} {o : Outcome}
    (h : self.decode buf = some (o, self', rest)) :
    ∃ index, position delimiter buf = some index ∧
      o = parse (Utf8.fromUtf8Lossy (buf.take index)) ∧ rest = buf.drop (index + 4) ∧
      self' = if o = .panic then self else self.reset := by
  unfold decode at h
  split at h
  · next index hpos =>
    refine ⟨index, hpos, ?_⟩
    simp only at h
    split at h
    · next hp =>
      simp only [Option.some.injEq, Prod.mk.injEq] at h
      obtain ⟨rfl, rfl, rfl⟩ := h
      exact ⟨hp.symm, rfl, rfl⟩
    · next hp =>
      simp only [Option.some.injEq, Prod.mk.injEq] at h
      obtain ⟨rfl, rfl, rfl⟩ := h
      refine ⟨rfl, rfl, ?_⟩
      rw [if_neg]
      exact hp
  · cases h

/-- What a call makes of a buffer with a frame in it. -/
theorem decode_of_position (self : FtlCodec) {buf : List UInt8} {index : ℕ}
    (h : position delimiter buf = some index) :
    self.decode buf = some (parse (Utf8.fromUtf8Lossy (buf.take index)),
      if parse (Utf8.fromUtf8Lossy (buf.take index)) = .panic then self else self.reset,
      buf.drop (index + 4)) := by
  rw [decode, h]
  simp only
  split
  · next hp => rw [hp, if_pos rfl]
  · next hp =>
    rw [if_neg]
    exact hp

/-- What `decode` makes of the bytes of a frame. -/
def parseFrame (frame : List UInt8) : Outcome := parse (Utf8.fromUtf8Lossy frame)

theorem decoder_delimited : decoder.Delimited delimiter parseFrame
    fun self o => if o = .panic then self else self.reset := by
  intro self buf
  show self.decode buf = _
  cases hpos : position delimiter buf with
  | none => rw [decode, hpos, Option.map_none]
  | some i =>
    rw [self.decode_of_position hpos]
    rfl

theorem ftlCodec_lawful : decoder.Lawful := decoder_delimited.lawful delimiter_ne_nil

/-- **Chunking independence.** However a byte string is cut into chunks, draining after each of
them gives the outcomes, the stop and the residual buffer of draining it whole. -/
theorem feed_eq_drain (chunks : List (List UInt8)) :
    decoder.feed new [] chunks = decoder.drain new chunks.flatten :=
  ftlCodec_lawful.feed_eq (ftlCodec_lawful.decode_nil new) chunks

/-! ## What the calls consume -/

/-- Frames that do not panic leave the codec as it was made. -/
theorem foldl_reset {outcomes : List Outcome} (h : .panic ∉ outcomes) :
    outcomes.foldl (fun self o => if o = .panic then self else self.reset) new = new := by
  induction outcomes with
  | nil => rfl
  | cons o outcomes ih =>
    rw [List.mem_cons, not_or] at h
    rw [List.foldl_cons, if_neg (Ne.symm h.1)]
    exact ih h.2

/-- **Framing conserves bytes and terminates.** If no call panics, the buffer is what the calls
consume, frame by frame with one delimiter each, and a rest in which they find nothing. There is
one such split. After any number of calls exactly the frames they found are gone, the codec is as
it was made, and a call that finds nothing changes nothing. -/
theorem decode_conserves {buf : List UInt8} (hpanic : ∀ n, decoder.found n new buf ≠ some .panic) :
    ∃ frames rest, Split delimiter buf frames rest ∧
      (∀ frames' rest', Split delimiter buf frames' rest' → frames' = frames ∧ rest' = rest) ∧
      (∀ n, decoder.found n new buf = frames[n]?.map parseFrame) ∧
      (∀ n, decoder.after n new buf =
        (⟨[]⟩, (frames.drop n).flatMap (· ++ [13, 10, 13, 10]) ++ rest)) ∧
      ∀ self buf, (decoder.call self buf).1 = none → (decoder.call self buf).2 = (self, buf) := by
  obtain ⟨frames, rest, hsplit⟩ := exists_split delimiter_ne_nil buf
  have hfound := decoder_delimited.found_eq (s := new) delimiter_ne_nil hsplit
  refine ⟨frames, rest, hsplit, ?_, hfound, ?_, fun _ _ => Decoder.call_of_none⟩
  · intro frames' rest' hsplit'
    exact hsplit'.unique delimiter_ne_nil hsplit
  · intro n
    have hmem : Outcome.panic ∉ (frames.take n).map parseFrame := by
      intro hmem
      obtain ⟨frame, hframe, hparse⟩ := List.mem_map.mp hmem
      obtain ⟨i, hi⟩ := List.mem_iff_getElem?.mp (List.mem_of_mem_take hframe)
      refine hpanic i ?_
      rw [hfound, hi, Option.map_some, hparse]
    rw [decoder_delimited.after_eq delimiter_ne_nil hsplit, foldl_reset hmem]
    rfl

/-- An unsupported command, a `PING` and a third frame whose delimiter is not complete. -/
def exampleBuffer : List UInt8 :=
  [88, 13, 10, 13, 10, 80, 73, 78, 71, 13, 10, 13, 10, 46, 13, 10, 13]

theorem split_exampleBuffer :
    Split delimiter exampleBuffer [[88], [80, 73, 78, 71]] [46, 13, 10, 13] :=
  ⟨rfl, by decide, by decide⟩

theorem exampleBuffer_not_panic (n : ℕ) : decoder.found n new exampleBuffer ≠ some .panic := by
  intro hn
  rw [decoder_delimited.found_eq delimiter_ne_nil split_exampleBuffer,
    Option.map_eq_some_iff] at hn
  obtain ⟨frame, hframe, hparse⟩ := hn
  have hall : ∀ frame ∈ [[88], [80, 73, 78, 71]], parseFrame frame ≠ .panic := by decide
  exact hall frame (List.mem_of_getElem? hframe) hparse

theorem decode_conserves_example : decoder.found 2 new exampleBuffer = none ∧
    decoder.after 2 new exampleBuffer = (⟨[]⟩, [46, 13, 10, 13]) := by
  obtain ⟨frames, rest, -, hunique, hfound, hafter, -⟩ := decode_conserves exampleBuffer_not_panic
  obtain ⟨rfl, rfl⟩ := hunique _ _ split_exampleBuffer
  exact ⟨hfound 2, hafter 2⟩

/-! ## Lines -/

/-- `"\r\n\r\n"` -/
def crlf2 : Text := "\r\n\r\n".toList

/-- A line that can be sent: the delimiter after it is the first one. -/
def Framed (line : Text) : Prop := ∀ i < line.length, ¬crlf2 <+: (line ++ crlf2).drop i

/-- Every line without a carriage return can be sent. -/
theorem framed_of_not_mem {line : Text} (h : '\r' ∉ line) : Framed line := by
  intro i hi hpre
  rw [List.drop_append_of_le_length (by omega), List.drop_eq_getElem_cons hi] at hpre
  have hhead : '\r' = _ := (List.cons_prefix_cons.mp hpre).1
  exact h (hhead ▸ List.getElem_mem hi)

/-- Nor can the delimiter begin earlier if it would have to begin with the end of the line. -/
theorem framed_of_not_infix {line : Text} (h : ¬crlf2 <:+: line)
    (hlast : ∀ c, line.getLast? = some c → c ∉ crlf2) : Framed line := by
  intro i hi hpre
  rw [List.drop_append_of_le_length (by omega)] at hpre
  by_cases hlen : crlf2.length ≤ (line.drop i).length
  · have hwithin : crlf2 <+: line.drop i :=
      List.prefix_of_prefix_length_le hpre (List.prefix_append _ _) hlen
    exact h (hwithin.isInfix.trans (List.drop_suffix i line).isInfix)
  · have hend : line.drop i <+: crlf2 :=
      List.prefix_of_prefix_length_le (List.prefix_append _ _) hpre (by omega)
    have hne : line.drop i ≠ [] := by
      rw [List.ne_nil_iff_length_pos, List.length_drop]
      omega
    refine hlast ((line.drop i).getLast hne) ?_ (hend.subset (List.getLast_mem hne))
    rw [← List.getLast?_eq_some_getLast hne, List.getLast?_drop, if_neg (by omega)]

/-- The bytes of a line on the wire. -/
def wire (line : Text) : List UInt8 := Utf8.encode (line ++ crlf2)

theorem wire_eq (line : Text) : wire line = Utf8.encode line ++ delimiter := by
  rw [wire, Utf8.encode_append]
  rfl

/-- A line is decoded as it was sent, whatever follows. -/
theorem decode_wire (self : FtlCodec) {line : Text} (h : Framed line) (rest : List UInt8) :
    self.decode (wire line ++ rest) =
      some (parse line, if parse line = .panic then self else self.reset, rest) := by
  have hpos : position delimiter (wire line ++ rest) = some (Utf8.encode line).length := by
    rw [wire_eq]
    refine position_frame delimiter_ne_nil fun j hj hpre => ?_
    rw [← wire_eq] at hpre
    obtain ⟨i, hi, hchars⟩ := Utf8.exists_prefix_drop (p := crlf2) (by decide) hpre
    refine h i ?_ hchars
    by_contra hle
    have htake : (line ++ crlf2).take i = line ++ crlf2.take (i - line.length) := by
      rw [List.take_append, List.take_of_length_le (by omega)]
    rw [htake, Utf8.encode_append, List.length_append] at hi
    omega
  have hframe : (wire line ++ rest).take (Utf8.encode line).length = Utf8.encode line := by
    rw [wire_eq, List.append_assoc, List.take_left]
  have hrest : (wire line ++ rest).drop ((Utf8.encode line).length + 4) = rest := by
    have hlen : (wire line).length = (Utf8.encode line).length + 4 := by
      rw [wire_eq, List.length_append]
      rfl
    rw [← hlen, List.drop_left]
  rw [self.decode_of_position hpos, hframe, hrest, Utf8.fromUtf8Lossy_encode]

/-- A line that is decoded to a command. -/
structure Line where
  text : Text
  command : FtlCommand
  framed : Framed text
  parse_eq : parse text = .command command

/-- The bytes of some lines. -/
def stream (lines : List Line) : List UInt8 := lines.flatMap fun line => wire line.text

/-- **Draining what was sent.** Lines that are sent are decoded to their commands, and nothing is
left over. -/
theorem drain_stream (lines : List Line) :
    decoder.drain new (stream lines) = ⟨lines.map fun line => .command line.command,
      some (new, [])⟩ := by
  induction lines with
  | nil => exact ftlCodec_lawful.drain_of_none (ftlCodec_lawful.decode_nil new)
  | cons line lines ih =>
    have hdecode : decoder.decode new (stream (line :: lines)) =
        some (.command line.command, new, stream lines) := by
      show new.decode (stream (line :: lines)) = _
      rw [stream, List.flatMap_cons, decode_wire new line.framed, line.parse_eq]
      rfl
    rw [ftlCodec_lawful.drain_eq, hdecode]
    simp only [decoder, Bool.false_eq_true, if_false]
    rw [← decoder, ih]
    rfl

end FtlCodec

end Lightspeed.Ingest
