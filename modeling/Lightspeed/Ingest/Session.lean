import Lightspeed.Ingest.Lockstep
import Lightspeed.Ingest.Store

/-!
# What a broadcaster sends

The lines of an honest broadcaster: `HMAC`, the answer to the challenge, attributes, a dot and
pings. The codec recognises each of them as the command it is meant to be, through all the
substring tests that come before (`Line`), and the handler answers them all (`Session.answered`).
-/

namespace Lightspeed.Ingest

open FtlCodec (Line)

/-- Decimal digits. -/
structure Digits where
  text : Text
  isDigit : text.all Char.isDigit = true

theorem Digits.not_mem (digits : Digits) {c : Char} (h : c.isDigit = false) : c ∉ digits.text := by
  intro hc
  rw [List.all_eq_true.mp digits.isDigit c hc] at h
  cases h

/-- An attribute a broadcaster can send. -/
structure AttributeLine where
  key : Text
  value : Text
  known : key ∈ attributeKeys
  trimmed : Str.trim value = value
  no_colon : ':' ∉ value
  no_hmac : ¬"HMAC".toList <:+: value
  no_connect : ¬"CONNECT".toList <:+: value
  no_delimiter : ¬FtlCodec.crlf2 <:+: value
  bool : key ∈ booleanKeys → value = "true".toList ∨ value = "false".toList

/-! ## The lines -/

def hmacLine : Line where
  text := "HMAC".toList
  command := .hmac
  framed := FtlCodec.framed_of_not_mem (by decide)
  parse_eq := by decide

def dotLine : Line where
  text := ".".toList
  command := .dot
  framed := FtlCodec.framed_of_not_mem (by decide)
  parse_eq := by decide

/-! ### `CONNECT` -/

def connectText (channelId : Digits) (tag : List UInt8) : Text :=
  "CONNECT".toList ++ ' ' :: (channelId.text ++ ' ' :: '$' :: Hex.encode tag)

/-- Everything after `CONNECT` is a blank, a dollar or a lower-case hexadecimal digit. -/
theorem connectText_not_mem (channelId : Digits) (tag : List UInt8) {c : Char}
    (hfixed : c ∉ "CONNECT".toList ∧ c ≠ ' ' ∧ c ≠ '$') (hdigit : c.isDigit = false)
    (hhex : Hex.isDigit c = false) : c ∉ connectText channelId tag := by
  obtain ⟨hname, hblank, hdollar⟩ := hfixed
  have htag : c ∉ Hex.encode tag := by
    intro hc
    rw [Hex.isDigit_of_mem_encode hc] at hhex
    cases hhex
  unfold connectText
  generalize "CONNECT".toList = name at hname
  simp only [List.mem_append, List.mem_cons]
  rintro (hc | hc | hc | hc | hc | hc)
  · exact hname hc
  · exact hblank hc
  · exact channelId.not_mem hdigit hc
  · exact hblank hc
  · exact hdollar hc
  · exact htag hc

theorem parse_connectText (channelId : Digits) (tag : List UInt8) :
    FtlCodec.parse (connectText channelId tag) =
      .command (.connect (FtlCodec.connectData channelId.text (Hex.encode tag))) := by
  -- the tests that come before `CONNECT` need a letter that is not in the line
  have hhmac : ¬"HMAC".toList <:+: connectText channelId tag :=
    Str.not_infix_of_not_mem (c := 'H') (by decide)
      (connectText_not_mem channelId tag (by decide) (by decide) (by decide))
  have hdisconnect : ¬"DISCONNECT".toList <:+: connectText channelId tag :=
    Str.not_infix_of_not_mem (c := 'D') (by decide)
      (connectText_not_mem channelId tag (by decide) (by decide) (by decide))
  have hconnect : "CONNECT".toList <:+: connectText channelId tag := List.infix_append_left
  -- there are two blanks, so the split has three parts
  have htag : ' ' ∉ '$' :: Hex.encode tag := by
    intro hc
    rcases List.mem_cons.mp hc with hc | hc
    · revert hc
      decide
    · have hdigit := Hex.isDigit_of_mem_encode hc
      revert hdigit
      decide
  have hsplit : Str.split (connectText channelId tag) ' ' =
      ["CONNECT".toList, channelId.text, '$' :: Hex.encode tag] := by
    have hname : ' ' ∉ "CONNECT".toList := by decide
    unfold connectText
    generalize "CONNECT".toList = name at hname ⊢
    rw [Str.split_append_cons hname, Str.split_append_cons (channelId.not_mem (by decide)),
      Str.split_of_not_mem htag]
  rw [FtlCodec.parse_of_connect hhmac hdisconnect hconnect, FtlCodec.parseConnect_of_split hsplit]

def connectLine (channelId : Digits) (tag : List UInt8) : Line where
  text := connectText channelId tag
  command := .connect (FtlCodec.connectData channelId.text (Hex.encode tag))
  framed := FtlCodec.framed_of_not_mem
    (connectText_not_mem channelId tag (by decide) (by decide) (by decide))
  parse_eq := parse_connectText channelId tag

/-! ### Attributes -/

namespace AttributeLine

variable (a : AttributeLine)

def text : Text := a.key ++ ':' :: ' ' :: a.value

theorem exists_name : ∃ k : AttributeKey, k.name = a.key :=
  AttributeKey.mem_attributeKeys.mp a.known

theorem parse_text : FtlCodec.parse a.text =
    .command (.attribute (FtlCodec.attributeData a.key a.value)) := by
  obtain ⟨k, hk⟩ := a.exists_name
  rw [text, ← hk]
  exact (parse_attributeText_iff a.trimmed).mpr ⟨a.no_colon, a.no_hmac, a.no_connect⟩

theorem framed_text : FtlCodec.Framed a.text := by
  obtain ⟨k, hk⟩ := a.exists_name
  rw [text, ← hk]
  exact framed_attributeText a.trimmed a.no_delimiter

def line : Line where
  text := a.text
  command := .attribute (FtlCodec.attributeData a.key a.value)
  framed := a.framed_text
  parse_eq := a.parse_text

end AttributeLine

/-! ### `PING` -/

def pingText (digits : Digits) : Text := "PING".toList ++ ' ' :: digits.text

theorem pingText_not_mem (digits : Digits) {c : Char} (hfixed : c ∉ "PING".toList ∧ c ≠ ' ')
    (hdigit : c.isDigit = false) : c ∉ pingText digits := by
  obtain ⟨hname, hblank⟩ := hfixed
  unfold pingText
  generalize "PING".toList = name at hname
  rw [List.mem_append, List.mem_cons]
  rintro (hc | hc | hc)
  · exact hname hc
  · exact hblank hc
  · exact digits.not_mem hdigit hc

theorem parse_pingText (digits : Digits) : FtlCodec.parse (pingText digits) = .command .ping := by
  have hnot {c : Char} (hfixed : c ∉ "PING".toList ∧ c ≠ ' ') (hdigit : c.isDigit = false) :
      c ∉ pingText digits := pingText_not_mem digits hfixed hdigit
  have hkeyword : FtlCodec.NoKeyword (pingText digits) := by
    constructor
    · exact Str.not_infix_of_not_mem (c := 'H') (by decide) (hnot (by decide) (by decide))
    · exact Str.not_infix_of_not_mem (c := 'C') (by decide) (hnot (by decide) (by decide))
  have hcolon : ':' ∉ pingText digits := hnot (by decide) (by decide)
  have hdot : pingText digits ≠ ['.'] := by
    intro h
    exact hnot (c := '.') (by decide) (by decide) (by rw [h]; exact List.mem_singleton_self _)
  have hping : "PING".toList <:+: pingText digits := List.infix_append_left
  rw [hkeyword.parse_eq, if_neg hcolon, if_neg hdot, if_pos hping]

def pingLine (digits : Digits) : Line where
  text := pingText digits
  command := .ping
  framed := FtlCodec.framed_of_not_mem (pingText_not_mem digits (by decide) (by decide))
  parse_eq := parse_pingText digits

/-! ## What is stored -/

/-- The last value sent for a key. -/
def lastValue (attributes : List AttributeLine) (key : Text) : Option Text :=
  (attributes.filter fun a => decide (a.key = key)).getLast?.map AttributeLine.value

theorem lastValue_concat (attributes : List AttributeLine) (a : AttributeLine) (key : Text) :
    lastValue (attributes ++ [a]) key =
      if a.key = key then some a.value else lastValue attributes key := by
  unfold lastValue
  rw [List.filter_append]
  by_cases hk : a.key = key
  · simp [hk]
  · simp [hk]

/-- The state that holds the challenge and the last value sent for each attribute. -/
def stored (payload : Challenge) (attributes : List AttributeLine) : ConnectionState where
  hmacPayload := some (generateHmac payload)
  protocolVersion := lastValue attributes "ProtocolVersion".toList
  vendorName := lastValue attributes "VendorName".toList
  vendorVersion := lastValue attributes "VendorVersion".toList
  video := decide (lastValue attributes "Video".toList = some "true".toList)
  videoCodec := lastValue attributes "VideoCodec".toList
  videoHeight := lastValue attributes "VideoHeight".toList
  videoWidth := lastValue attributes "VideoWidth".toList
  videoPayloadType := lastValue attributes "VideoPayloadType".toList
  videoIngestSsrc := lastValue attributes "VideoIngestSSRC".toList
  audio := decide (lastValue attributes "Audio".toList = some "true".toList)
  audioCodec := lastValue attributes "AudioCodec".toList
  audioPayloadType := lastValue attributes "AudioPayloadType".toList
  audioIngestSsrc := lastValue attributes "AudioIngestSSRC".toList

variable (conn : ConnectionState) (payload drawn : Challenge) (attributes : List AttributeLine)
  (a : AttributeLine)

theorem lookup_key_line : (FtlCodec.attributeData a.key a.value).lookup "key".toList =
    some a.key := by
  rw [FtlCodec.attributeData, AList.lookup_insert_ne (by decide), AList.lookup_insert]

theorem lookup_value_line : (FtlCodec.attributeData a.key a.value).lookup "value".toList =
    some a.value := by
  rw [FtlCodec.attributeData, AList.lookup_insert]

/-- One more attribute. -/
theorem write_stored : (stored payload attributes).write (a.line.command, drawn) =
    stored payload (attributes ++ [a]) := by
  have hwritten (key : Text) : a.line.command.value key =
      if a.key = key then some a.value else none := by
    show (if (FtlCodec.attributeData a.key a.value).lookup "key".toList = some key then
      (FtlCodec.attributeData a.key a.value).lookup "value".toList else none) = _
    rw [lookup_key_line, lookup_value_line]
    simp only [Option.some.injEq]
  have htext (key : Text) : (a.line.command.value key).or (lastValue attributes key) =
      lastValue (attributes ++ [a]) key := by
    rw [hwritten, lastValue_concat]
    split
    · rfl
    · rfl
  have hbool (key : Text) (hkey : key ∈ booleanKeys) : (a.line.command.boolean key).getD
      (decide (lastValue attributes key = some "true".toList)) =
      decide (lastValue (attributes ++ [a]) key = some "true".toList) := by
    rw [FtlCommand.boolean, hwritten, lastValue_concat]
    split
    · next heq =>
      rcases a.bool (heq ▸ hkey) with hvalue | hvalue
      · rw [hvalue]
        rfl
      · rw [hvalue]
        rfl
    · rfl
  have hhmac : a.line.command ≠ .hmac := FtlCommand.noConfusion
  simp only [ConnectionState.write, stored, htext, if_neg hhmac]
  rw [hbool "Video".toList (by decide), hbool "Audio".toList (by decide)]

/-- The handler takes every attribute of a broadcaster. -/
theorem exists_set_line {k : AttributeKey} (hk : k.name = a.key) :
    ∃ conn', k.set conn a.value = some conn' := by
  have hbool (hisBool : k.isBool = true) : ∃ b, AttributeKey.boolOfValue a.value = some b := by
    rcases a.bool (hk ▸ (AttributeKey.name_mem_booleanKeys k).mpr hisBool) with hvalue | hvalue
    · exact ⟨true, by rw [hvalue]; decide⟩
    · exact ⟨false, by rw [hvalue]; decide⟩
  cases k with
  | video | audio =>
    obtain ⟨b, hb⟩ := hbool rfl
    exact ⟨_, by rw [AttributeKey.set, hb, Option.map_some]⟩
  | _ => exact ⟨_, rfl⟩

theorem handleAttribute_line :
    handleAttribute (stored payload attributes) (FtlCodec.attributeData a.key a.value) =
      some (stored payload (attributes ++ [a]), some ["".toList]) := by
  obtain ⟨k, hk⟩ := a.exists_name
  obtain ⟨conn', hset⟩ := exists_set_line (stored payload attributes) a hk
  have hkey : (FtlCodec.attributeData a.key a.value).lookup "key".toList = some k.name := by
    rw [hk, lookup_key_line]
  have hwrite : (k.set (stored payload attributes) a.value).getD (stored payload attributes) =
      stored payload (attributes ++ [a]) :=
    (set_eq_write hkey (lookup_value_line a)).trans (write_stored payload payload attributes a)
  rw [hset, Option.getD_some] at hwrite
  rw [← hwrite]
  simp only [handleAttribute, hkey, lookup_value_line, AttributeKey.ofName_name, hset]

/-! ## The session -/

/-- What an honest broadcaster has to say. -/
structure Session where
  channelId : Digits
  attributes : List AttributeLine
  pings : List Digits

namespace Session

variable (b : Session)

/-- The lines sent, when `tag` answers the challenge. -/
def lines (tag : List UInt8) : List Line :=
  [hmacLine, connectLine b.channelId tag] ++ b.attributes.map AttributeLine.line ++ [dotLine] ++
    b.pings.map pingLine

def commands (tag : List UInt8) : List FtlCommand := (b.lines tag).map Line.command

/-- The replies to them. Attributes are answered with an empty string. -/
def replies (payload : Challenge) : List Reply :=
  [["200 ".toList, generateHmac payload, "\n".toList], ["200\n".toList]] ++
    b.attributes.map (fun _ => ["".toList]) ++ [["200 hi. Use UDP port 65535\n".toList]] ++
    b.pings.map fun _ => ["201\n".toList]

/-- What the broadcaster reads. -/
def transcript (payload : Challenge) : Text :=
  "200 ".toList ++ generateHmac payload ++ "\n".toList ++ "200\n".toList ++
    "200 hi. Use UDP port 65535\n".toList ++ b.pings.flatMap fun _ => "201\n".toList

theorem flatten_replies (payload : Challenge) :
    (b.replies payload).flatten.flatten = b.transcript payload := by
  have hone : ∀ (α : Type) (as : List α) (t : Text),
      (as.map fun _ => [t]).flatten.flatten = as.flatMap fun _ => t := by
    intro α as t
    induction as with
    | nil => rfl
    | cons a as ih =>
      rw [List.map_cons, List.flatten_cons, List.flatten_append, ih, List.flatten_singleton,
        List.flatMap_cons]
  have hattributes : (b.attributes.flatMap fun _ => "".toList) = [] :=
    List.flatMap_eq_nil_iff.mpr fun _ _ => rfl
  unfold replies transcript
  simp only [List.flatten_append, hone, hattributes, List.flatten_cons, List.flatten_nil,
    List.append_nil, List.nil_append, List.append_assoc]

/-! ### The handler answers -/

section

open Tasks (Answered Processed)

variable {H : Hmac} {file : HashFile} {rng : ℕ → Challenge}

theorem answered_connect (H : Hmac) (rng : ℕ → Challenge) {key : List UInt8}
    (hkey : readStreamKey file = some key) :
    Answered H file rng
      [.hmac, .connect (FtlCodec.connectData b.channelId.text
        (Hex.encode (H.sign key (rng 0).bytes)))]
      (stored (rng 0) [])
      [["200 ".toList, generateHmac (rng 0), "\n".toList], ["200\n".toList]] := by
  have hnone : Answered H file rng [] .new [] := rfl
  have hhmac : Processed H file rng [] .new .hmac (some (stored (rng 0) [],
      some ["200 ".toList, generateHmac (rng 0), "\n".toList])) := rfl
  have hpayload : Hex.decode (stored (rng 0) []).getPayload = some (rng 0).bytes :=
    Hex.decode_encode (rng 0).bytes
  have hconnect : handleConnect H file (stored (rng 0) [])
      (FtlCodec.connectData b.channelId.text (Hex.encode (H.sign key (rng 0).bytes))) =
      some (stored (rng 0) [], some ["200\n".toList]) := by
    refine handleConnect_answered.mpr ⟨rfl, rfl, key, (rng 0).bytes, hkey, hpayload, ?_⟩
    rw [presented_connectData, Hex.decode_encode]
  exact (hnone.concat hhmac).concat hconnect

/-- Attributes are stored one after the other. -/
theorem answered_attributes {cs : List FtlCommand} {payload : Challenge} {os : List Reply}
    (h : Answered H file rng cs (stored payload []) os) (attributes : List AttributeLine) :
    Answered H file rng (cs ++ (attributes.map AttributeLine.line).map Line.command)
      (stored payload attributes) (os ++ attributes.map fun _ => ["".toList]) := by
  induction attributes using List.reverseRecOn with
  | nil => simpa using h
  | append_singleton attributes a ih =>
    rw [List.map_append, List.map_append, List.map_append, ← List.append_assoc,
      ← List.append_assoc]
    exact ih.concat (handleAttribute_line payload attributes a)

theorem answered_pings {cs : List FtlCommand} {conn : ConnectionState} {os : List Reply}
    (h : Answered H file rng cs conn os) (pings : List Digits) :
    Answered H file rng (cs ++ (pings.map pingLine).map Line.command) conn
      (os ++ pings.map fun _ => ["201\n".toList]) := by
  induction pings using List.reverseRecOn with
  | nil => simpa using h
  | append_singleton pings digits ih =>
    rw [List.map_append, List.map_append, List.map_append, ← List.append_assoc,
      ← List.append_assoc]
    exact ih.concat rfl

/-- **Every command of the session is answered**, and the last values are stored. -/
theorem answered {key : List UInt8} (hkey : readStreamKey file = some key) :
    Answered H file rng (b.commands (H.sign key (rng 0).bytes)) (stored (rng 0) b.attributes)
      (b.replies (rng 0)) := by
  have hattributes := answered_attributes (b.answered_connect H rng hkey) b.attributes
  have hdot (cs : List FtlCommand) : Processed H file rng cs (stored (rng 0) b.attributes) .dot
      (some (stored (rng 0) b.attributes, some ["200 hi. Use UDP port 65535\n".toList])) := rfl
  have hpings := answered_pings (hattributes.concat (hdot _)) b.pings
  unfold commands lines replies
  rw [List.map_append, List.map_append, List.map_append]
  exact hpings

end

end Session

end Lightspeed.Ingest
