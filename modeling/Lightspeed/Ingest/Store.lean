import Lightspeed.Ingest.Attribute
import Lightspeed.Ingest.Challenge

/-!
# What the connection state remembers

Every command writes some of the fourteen fields of the connection state, most commands none:
`ConnectionState.write` says which, field by field. So after any commands a field holds what was
written to it last (`lastWrites`), and the order of two attributes with different keys does not
matter.
-/

namespace Lightspeed.Ingest

variable {H : Hmac} {file : HashFile} {conn conn' : ConnectionState} {payload payload' : Challenge}

/-! ## What a command writes -/

/-- The value an `Attribute` command has for a key. -/
def FtlCommand.value : FtlCommand → Text → Option Text
  | .attribute data, key =>
    if data.lookup "key".toList = some key then data.lookup "value".toList else none
  | _, _ => none

/-- The boolean an `Attribute` command has for a key, if its value is one. -/
def FtlCommand.boolean (c : FtlCommand) (key : Text) : Option Bool :=
  (c.value key).bind fun value =>
    if value = "true".toList then some true
    else if value = "false".toList then some false
    else none

/-- What a command makes of each field. -/
def ConnectionState.write (conn : ConnectionState) (request : FtlCommand × Challenge) :
    ConnectionState where
  hmacPayload :=
    if request.1 = .hmac then some (generateHmac request.2) else conn.hmacPayload
  protocolVersion := (request.1.value "ProtocolVersion".toList).or conn.protocolVersion
  vendorName := (request.1.value "VendorName".toList).or conn.vendorName
  vendorVersion := (request.1.value "VendorVersion".toList).or conn.vendorVersion
  video := (request.1.boolean "Video".toList).getD conn.video
  videoCodec := (request.1.value "VideoCodec".toList).or conn.videoCodec
  videoHeight := (request.1.value "VideoHeight".toList).or conn.videoHeight
  videoWidth := (request.1.value "VideoWidth".toList).or conn.videoWidth
  videoPayloadType := (request.1.value "VideoPayloadType".toList).or conn.videoPayloadType
  videoIngestSsrc := (request.1.value "VideoIngestSSRC".toList).or conn.videoIngestSsrc
  audio := (request.1.boolean "Audio".toList).getD conn.audio
  audioCodec := (request.1.value "AudioCodec".toList).or conn.audioCodec
  audioPayloadType := (request.1.value "AudioPayloadType".toList).or conn.audioPayloadType
  audioIngestSsrc := (request.1.value "AudioIngestSSRC".toList).or conn.audioIngestSsrc

/-- The keys of the protocol are the names that `handle_command` matches. -/
theorem write_eq_names (conn : ConnectionState) (c : FtlCommand) (payload : Challenge) :
    conn.write (c, payload) =
      { hmacPayload := if c = .hmac then some (generateHmac payload) else conn.hmacPayload
        protocolVersion := (c.value (AttributeKey.name .protocolVersion)).or conn.protocolVersion
        vendorName := (c.value (AttributeKey.name .vendorName)).or conn.vendorName
        vendorVersion := (c.value (AttributeKey.name .vendorVersion)).or conn.vendorVersion
        video := (c.boolean (AttributeKey.name .video)).getD conn.video
        videoCodec := (c.value (AttributeKey.name .videoCodec)).or conn.videoCodec
        videoHeight := (c.value (AttributeKey.name .videoHeight)).or conn.videoHeight
        videoWidth := (c.value (AttributeKey.name .videoWidth)).or conn.videoWidth
        videoPayloadType :=
          (c.value (AttributeKey.name .videoPayloadType)).or conn.videoPayloadType
        videoIngestSsrc := (c.value (AttributeKey.name .videoIngestSsrc)).or conn.videoIngestSsrc
        audio := (c.boolean (AttributeKey.name .audio)).getD conn.audio
        audioCodec := (c.value (AttributeKey.name .audioCodec)).or conn.audioCodec
        audioPayloadType :=
          (c.value (AttributeKey.name .audioPayloadType)).or conn.audioPayloadType
        audioIngestSsrc :=
          (c.value (AttributeKey.name .audioIngestSsrc)).or conn.audioIngestSsrc } := rfl

/-- A command that is no `HMAC` and has no value for any key writes nothing. -/
theorem write_of_value_none {c : FtlCommand} (hhmac : c ≠ .hmac)
    (hvalue : ∀ k : AttributeKey, c.value k.name = none) : conn.write (c, payload) = conn := by
  have hbool (k : AttributeKey) : c.boolean k.name = none := by
    rw [FtlCommand.boolean, hvalue, Option.bind_none]
  simp only [write_eq_names, hvalue, hbool, if_neg hhmac, Option.none_or, Option.getD_none]

section Attribute

variable {data : Data} {key value : Text} {k : AttributeKey}

theorem value_of_name (hkey : data.lookup "key".toList = some k.name) (k' : AttributeKey) :
    (FtlCommand.attribute data).value k'.name =
      if k = k' then data.lookup "value".toList else none := by
  rw [FtlCommand.value, hkey]
  simp only [Option.some.injEq, AttributeKey.name_inj]

theorem value_of_unknown (hkey : data.lookup "key".toList = some key)
    (hunknown : key ∉ attributeKeys) (k' : AttributeKey) :
    (FtlCommand.attribute data).value k'.name = none := by
  rw [FtlCommand.value, hkey, if_neg]
  intro h
  exact hunknown (AttributeKey.mem_attributeKeys.mpr ⟨k', (Option.some.inj h).symm⟩)

/-- The arm of a key writes its field and no other; an invalid boolean writes nothing. -/
theorem set_eq_write (hkey : data.lookup "key".toList = some k.name)
    (hvalue : data.lookup "value".toList = some value) :
    (k.set conn value).getD conn = conn.write (.attribute data, payload) := by
  have hwritten (k' : AttributeKey) : (FtlCommand.attribute data).value k'.name =
      if k = k' then some value else none := by
    rw [value_of_name hkey, hvalue]
  have hbool (k' : AttributeKey) : (FtlCommand.attribute data).boolean k'.name =
      if k = k' then AttributeKey.boolOfValue value else none := by
    rw [FtlCommand.boolean, hwritten]
    split
    · rfl
    · rfl
  cases k with
  | video | audio =>
    cases hb : AttributeKey.boolOfValue value with
    | none => simp [AttributeKey.set, write_eq_names, hbool, hwritten, hb]
    | some b => simp [AttributeKey.set, write_eq_names, hbool, hwritten, hb]
  | _ => simp [AttributeKey.set, write_eq_names, hbool, hwritten]

/-- An attribute is always handled. -/
theorem handleAttribute_eq (conn : ConnectionState) (data : Data) (payload : Challenge) : ∃ r,
    handleAttribute conn data = some (conn.write (.attribute data, payload), r) := by
  unfold handleAttribute
  split
  · next key value hkey hvalue =>
    split
    · next k hk =>
      rw [← AttributeKey.name_eq_of_ofName hk] at hkey
      rw [← set_eq_write hkey hvalue]
      cases k.set conn value with
      | none => exact ⟨_, rfl⟩
      | some conn' => exact ⟨_, rfl⟩
    · next hunknown =>
      have hnot : key ∉ attributeKeys := AttributeKey.not_mem_of_ofName hunknown
      rw [write_of_value_none (by simp) (value_of_unknown hkey hnot)]
      exact ⟨_, rfl⟩
  · next hmissing =>
    have hvalue (k : AttributeKey) : (FtlCommand.attribute data).value k.name = none := by
      rw [FtlCommand.value]
      split
      · next hkey =>
        cases hval : data.lookup "value".toList with
        | none => rfl
        | some value => exact (hmissing _ _ hkey hval).elim
      · rfl
    rw [write_of_value_none (by simp) hvalue]
    exact ⟨_, rfl⟩

end Attribute

/-- **What one command writes.** -/
theorem handleCommand_eq_write {c : FtlCommand} {r : Option Reply}
    (h : handleCommand H file conn payload c = some (conn', r)) :
    conn' = conn.write (c, payload) := by
  match c, h with
  | .hmac, h =>
    simp only [handleCommand, Option.some.injEq, Prod.mk.injEq] at h
    rw [← h.1]
    rfl
  | .connect data, h =>
    rw [write_of_value_none (by simp) fun _ => rfl]
    exact handleConnect_state h
  | .attribute data, h =>
    obtain ⟨r', hr'⟩ := handleAttribute_eq conn data payload
    rw [handleCommand, hr'] at h
    simp only [Option.some.injEq, Prod.mk.injEq] at h
    exact h.1.symm
  | .ping, h | .dot, h | .disconnect, h =>
    simp only [handleCommand, Option.some.injEq, Prod.mk.injEq] at h
    rw [write_of_value_none (by simp) fun _ => rfl, h.1]

/-! ## After any commands -/

variable (H file) in
/-- `handle_command`, one command after the other. -/
def commands : Handler ConnectionState (FtlCommand × Challenge) Reply :=
  fun conn (command, payload) => handleCommand H file conn payload command

/-- The last value that was given for a key. -/
def lastText (history : List (FtlCommand × Challenge)) (key : Text) : Option Text :=
  (history.filterMap fun request => request.1.value key).getLast?

/-- The last `"true"` or `"false"` that was given for a key. -/
def lastBool (history : List (FtlCommand × Challenge)) (key : Text) : Option Bool :=
  (history.filterMap fun request => request.1.boolean key).getLast?

/-- Every field as its last write left it. -/
def lastWrites (history : List (FtlCommand × Challenge)) : ConnectionState where
  hmacPayload := (lastChallenge history).map generateHmac
  protocolVersion := lastText history "ProtocolVersion".toList
  vendorName := lastText history "VendorName".toList
  vendorVersion := lastText history "VendorVersion".toList
  video := (lastBool history "Video".toList).getD false
  videoCodec := lastText history "VideoCodec".toList
  videoHeight := lastText history "VideoHeight".toList
  videoWidth := lastText history "VideoWidth".toList
  videoPayloadType := lastText history "VideoPayloadType".toList
  videoIngestSsrc := lastText history "VideoIngestSSRC".toList
  audio := (lastBool history "Audio".toList).getD false
  audioCodec := lastText history "AudioCodec".toList
  audioPayloadType := lastText history "AudioPayloadType".toList
  audioIngestSsrc := lastText history "AudioIngestSSRC".toList

theorem getLast?_filterMap_concat {α β : Type*} (f : α → Option β) (l : List α) (a : α) :
    ((l ++ [a]).filterMap f).getLast? = (f a).or (l.filterMap f).getLast? := by
  rw [List.filterMap_append, List.getLast?_append]
  cases hf : f a with
  | none => rw [List.filterMap_cons_none hf, List.filterMap_nil, List.getLast?_nil]
  | some b => rw [List.filterMap_cons_some hf, List.filterMap_nil, List.getLast?_singleton]

/-- One more command writes to what the others left. -/
theorem lastWrites_concat (history : List (FtlCommand × Challenge))
    (request : FtlCommand × Challenge) :
    lastWrites (history ++ [request]) = (lastWrites history).write request := by
  have htext (key : Text) : lastText (history ++ [request]) key =
      (request.1.value key).or (lastText history key) :=
    getLast?_filterMap_concat _ history request
  have hbool (key : Text) : (lastBool (history ++ [request]) key).getD false =
      (request.1.boolean key).getD ((lastBool history key).getD false) := by
    rw [lastBool, getLast?_filterMap_concat, Option.getD_or]
    rfl
  have hhmac : (lastChallenge (history ++ [request])).map generateHmac =
      if request.1 = .hmac then some (generateHmac request.2)
      else (lastChallenge history).map generateHmac := by
    obtain ⟨c, payload⟩ := request
    rw [lastChallenge_concat]
    split <;> rfl
  simp only [lastWrites, ConnectionState.write, htext, hbool, hhmac]

theorem foldl_write (history : List (FtlCommand × Challenge)) :
    history.foldl ConnectionState.write .new = lastWrites history := by
  induction history using List.reverseRecOn with
  | nil => rfl
  | append_singleton history request ih =>
    rw [List.foldl_concat, ih, lastWrites_concat]

theorem eq_lastWrites {history : List (FtlCommand × Challenge)}
    (h : (commands H file).runAll .new history = some conn) : conn = lastWrites history := by
  rw [← foldl_write]
  exact Handler.eq_foldl_of_runAll handleCommand_eq_write h

/-! ### Commands that write nothing, and commands that commute -/

/-- `Connect`, `Ping`, and attributes with an unknown key or an invalid boolean. -/
def FtlCommand.Inert : FtlCommand → Prop
  | .connect _ | .ping => True
  | .attribute data => ∃ key, data.lookup "key".toList = some key ∧
      (key ∉ attributeKeys ∨ key ∈ booleanKeys ∧ ∃ value,
        data.lookup "value".toList = some value ∧ value ≠ "true".toList ∧ value ≠ "false".toList)
  | _ => False

/-- An invalid boolean is not stored. -/
theorem set_of_isBool {k : AttributeKey} {value : Text} (hk : k.isBool = true)
    (htrue : value ≠ "true".toList) (hfalse : value ≠ "false".toList) :
    k.set conn value = none := by
  have hbool : AttributeKey.boolOfValue value = none := by
    rw [AttributeKey.boolOfValue, if_neg htrue, if_neg hfalse]
  cases k with
  | video | audio => rw [AttributeKey.set, hbool, Option.map_none]
  | _ => cases hk

theorem write_of_inert {c : FtlCommand} (h : c.Inert) : conn.write (c, payload) = conn := by
  match c, h with
  | .connect data, _ | .ping, _ => exact write_of_value_none (by simp) fun _ => rfl
  | .attribute data, h =>
    obtain ⟨key, hkey, hunknown | ⟨hboolean, value, hvalue, htrue, hfalse⟩⟩ := h
    · exact write_of_value_none (by simp) (value_of_unknown hkey hunknown)
    · obtain ⟨k, rfl⟩ := AttributeKey.exists_of_mem_booleanKeys hboolean
      have hisBool := (AttributeKey.name_mem_booleanKeys k).mp hboolean
      rw [← set_eq_write hkey hvalue, set_of_isBool hisBool htrue hfalse, Option.getD_none]

/-- Attributes with different keys have no key in common that both have a value for. -/
theorem value_none_or {data data' : Data}
    (h : data.lookup "key".toList ≠ data'.lookup "key".toList) (key : Text) :
    (FtlCommand.attribute data).value key = none ∨
      (FtlCommand.attribute data').value key = none := by
  by_cases hkey : data.lookup "key".toList = some key
  · right
    rw [FtlCommand.value, if_neg]
    intro hkey'
    exact h (hkey.trans hkey'.symm)
  · left
    rw [FtlCommand.value, if_neg hkey]

theorem write_comm {data data' : Data}
    (h : data.lookup "key".toList ≠ data'.lookup "key".toList) :
    (conn.write (.attribute data, payload)).write (.attribute data', payload') =
      (conn.write (.attribute data', payload')).write (.attribute data, payload) := by
  have htext (key : Text) (x : Option Text) : ((FtlCommand.attribute data').value key).or
      (((FtlCommand.attribute data).value key).or x) =
      ((FtlCommand.attribute data).value key).or
        (((FtlCommand.attribute data').value key).or x) := by
    rcases value_none_or h key with hnone | hnone
    · rw [hnone, Option.none_or, Option.none_or]
    · rw [hnone, Option.none_or, Option.none_or]
  have hbool (key : Text) (x : Bool) : ((FtlCommand.attribute data').boolean key).getD
      (((FtlCommand.attribute data).boolean key).getD x) =
      ((FtlCommand.attribute data).boolean key).getD
        (((FtlCommand.attribute data').boolean key).getD x) := by
    rw [FtlCommand.boolean, FtlCommand.boolean]
    rcases value_none_or h key with hnone | hnone
    · rw [hnone, Option.bind_none, Option.getD_none, Option.getD_none]
    · rw [hnone, Option.bind_none, Option.getD_none, Option.getD_none]
  simp only [ConnectionState.write, htext, hbool, reduceCtorEq, if_false]

theorem runAll_attributes (data data' : Data) :
    (commands H file).runAll conn [(.attribute data, payload), (.attribute data', payload')] =
      some ((conn.write (.attribute data, payload)).write (.attribute data', payload')) := by
  obtain ⟨r, hr⟩ := handleAttribute_eq conn data payload
  obtain ⟨r', hr'⟩ := handleAttribute_eq (conn.write (.attribute data, payload)) data' payload'
  have hfirst : commands H file conn (.attribute data, payload) = some (_, r) := hr
  have hsecond : commands H file (conn.write (.attribute data, payload))
      (.attribute data', payload') = some (_, r') := hr'
  rw [Handler.runAll, hfirst, Option.bind_some, Handler.runAll, hsecond, Option.bind_some,
    Handler.runAll]

/-- **Last write wins.** After any commands each field holds what was written to it last. Commands
that write nothing leave the state as it is, and two attributes with different keys commute. -/
theorem handleCommand_last_write_wins {history : List (FtlCommand × Challenge)}
    (h : (commands H file).runAll .new history = some conn) :
    conn = lastWrites history ∧
    (∀ c payload conn' r, FtlCommand.Inert c →
      handleCommand H file conn payload c = some (conn', r) → conn' = conn) ∧
    ∀ data data' payload payload',
      data.lookup "key".toList ≠ data'.lookup "key".toList →
      (commands H file).runAll conn [(.attribute data, payload), (.attribute data', payload')] =
        (commands H file).runAll conn
          [(.attribute data', payload'), (.attribute data, payload)] := by
  refine ⟨eq_lastWrites h, ?_, ?_⟩
  · intro c payload conn' r hinert hstep
    rw [handleCommand_eq_write hstep, write_of_inert hinert]
  · intro data data' payload payload' hkey
    rw [runAll_attributes, runAll_attributes, write_comm hkey]

/-- A challenge, video turned on, a value for it that is not stored, and a codec. -/
theorem handleCommand_last_write_wins_example :
    lastWrites [(.hmac, default),
        (.attribute (FtlCodec.attributeData "Video".toList "true".toList), default),
        (.attribute (FtlCodec.attributeData "Video".toList "maybe".toList), default),
        (.attribute (FtlCodec.attributeData "VideoCodec".toList "H264".toList), default)] =
      { ConnectionState.new with
        hmacPayload := some (generateHmac default)
        video := true
        videoCodec := some "H264".toList } := by
  have hrun : ∃ conn, (commands exampleHmac exampleFile).runAll .new [(.hmac, default),
        (.attribute (FtlCodec.attributeData "Video".toList "true".toList), default),
        (.attribute (FtlCodec.attributeData "Video".toList "maybe".toList), default),
        (.attribute (FtlCodec.attributeData "VideoCodec".toList "H264".toList), default)] =
      some conn ∧ conn = { ConnectionState.new with
        hmacPayload := some (generateHmac default)
        video := true
        videoCodec := some "H264".toList } := ⟨_, rfl, rfl⟩
  obtain ⟨conn, hconn, hfields⟩ := hrun
  rw [← hfields, ← (handleCommand_last_write_wins hconn).1]
end Lightspeed.Ingest
