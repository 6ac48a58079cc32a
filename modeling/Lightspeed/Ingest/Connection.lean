import Lightspeed.Handler
import Lightspeed.Ingest.FtlCodec
import Lightspeed.Ingest.StreamKey

/-!
# The command handler

`ConnectionState`, `handle_command` and the `match` of the command task of
`ingest/src/connection.rs`, as one sequential handler (`commandTask`): a command and, for an
`HMAC` command, the bytes the random generator draws, to the next state and the strings of the
reply. No reply is the case that matters most: the frame task waits for one.
-/

namespace Lightspeed.Ingest

/-! ## What is taken from libraries -/

/-- `ring::hmac` with `HMAC_SHA512`: `verify` accepts exactly the tag of the message. -/
structure Hmac where
  sign : List UInt8 → List UInt8 → List UInt8
  verify : List UInt8 → List UInt8 → List UInt8 → Bool
  verify_iff : ∀ key msg tag, verify key msg tag = true ↔ tag = sign key msg

/-- The bytes `generate_hmac` draws, from `Uniform::new(0x00, 0xFF)`, which excludes its upper
bound. -/
@[ext]
structure Challenge where
  bytes : List UInt8
  length_eq : bytes.length = 128
  lt_ff : ∀ b ∈ bytes, b < 0xFF
deriving DecidableEq

instance : Inhabited Challenge :=
  ⟨⟨List.replicate 128 0, List.length_replicate, fun b hb => by
    rw [List.eq_of_mem_replicate hb]
    decide⟩⟩

/-- `generate_hmac` -/
def generateHmac (payload : Challenge) : Text := Hex.encode payload.bytes

/-! ## The connection state -/

structure ConnectionState where
  hmacPayload : Option Text
  protocolVersion : Option Text
  vendorName : Option Text
  vendorVersion : Option Text
  video : Bool
  videoCodec : Option Text
  videoHeight : Option Text
  videoWidth : Option Text
  videoPayloadType : Option Text
  videoIngestSsrc : Option Text
  audio : Bool
  audioCodec : Option Text
  audioPayloadType : Option Text
  audioIngestSsrc : Option Text
deriving DecidableEq

namespace ConnectionState

def getPayload (self : ConnectionState) : Text :=
  match self.hmacPayload with
  | some payload => payload
  | none => []

def new : ConnectionState where
  hmacPayload := none
  protocolVersion := none
  vendorName := none
  vendorVersion := none
  video := false
  videoCodec := none
  videoHeight := none
  videoWidth := none
  videoPayloadType := none
  videoIngestSsrc := none
  audio := false
  audioCodec := none
  audioPayloadType := none
  audioIngestSsrc := none

end ConnectionState

/-! ## Attributes -/

/-- The keys of the attributes that are stored. -/
inductive AttributeKey
  | protocolVersion
  | vendorName
  | vendorVersion
  | video
  | videoCodec
  | videoHeight
  | videoWidth
  | videoPayloadType
  | videoIngestSsrc
  | audio
  | audioCodec
  | audioPayloadType
  | audioIngestSsrc
deriving DecidableEq

namespace AttributeKey

def name : AttributeKey → Text
  | protocolVersion => "ProtocolVersion".toList
  | vendorName => "VendorName".toList
  | vendorVersion => "VendorVersion".toList
  | video => "Video".toList
  | videoCodec => "VideoCodec".toList
  | videoHeight => "VideoHeight".toList
  | videoWidth => "VideoWidth".toList
  | videoPayloadType => "VideoPayloadType".toList
  | videoIngestSsrc => "VideoIngestSSRC".toList
  | audio => "Audio".toList
  | audioCodec => "AudioCodec".toList
  | audioPayloadType => "AudioPayloadType".toList
  | audioIngestSsrc => "AudioIngestSSRC".toList

def all : List AttributeKey :=
  [protocolVersion, vendorName, vendorVersion, video, videoCodec, videoHeight, videoWidth,
    videoPayloadType, videoIngestSsrc, audio, audioCodec, audioPayloadType, audioIngestSsrc]

/-- The arm of `match key.as_str()` a key takes, `none` being the last one. -/
def ofName (key : Text) : Option AttributeKey := all.find? fun k => k.name = key

/-- Whether the key holds a boolean. -/
def isBool : AttributeKey → Bool
  | video | audio => true
  | _ => false

/-- `"true"` and `"false"`, the only values of a boolean. -/
def boolOfValue (value : Text) : Option Bool :=
  if value = "true".toList then some true
  else if value = "false".toList then some false
  else none

/-- The arms of `match key.as_str()`. An invalid boolean returns from the handler: `none`. -/
def set (conn : ConnectionState) (value : Text) : AttributeKey → Option ConnectionState
  | protocolVersion => some { conn with protocolVersion := some value }
  | vendorName => some { conn with vendorName := some value }
  | vendorVersion => some { conn with vendorVersion := some value }
  | video => (boolOfValue value).map fun b => { conn with video := b }
  | videoCodec => some { conn with videoCodec := some value }
  | videoHeight => some { conn with videoHeight := some value }
  | videoWidth => some { conn with videoWidth := some value }
  | videoPayloadType => some { conn with videoPayloadType := some value }
  | videoIngestSsrc => some { conn with videoIngestSsrc := some value }
  | audio => (boolOfValue value).map fun b => { conn with audio := b }
  | audioCodec => some { conn with audioCodec := some value }
  | audioPayloadType => some { conn with audioPayloadType := some value }
  | audioIngestSsrc => some { conn with audioIngestSsrc := some value }

theorem ofName_name (k : AttributeKey) : ofName k.name = some k := by
  cases k <;> decide

end AttributeKey

/-! ## Commands -/

section Handler

variable (H : Hmac) (file : HashFile)

/-- The strings of a `FrameCommand::Send`. -/
abbrev Reply := List Text

/-- The arm for `Connect`, in which each `expect` and `unwrap` can panic. -/
def handleConnect (conn : ConnectionState) (data : Data) :
    Option (ConnectionState × Option Reply) :=
  match data.lookup "stream_key".toList, data.lookup "channel_id".toList with
  | some key, some _ => do
    let clientHash ← Hex.decode key
    let key ← readStreamKey file
    let payload ← Hex.decode conn.getPayload
    return (conn, if H.verify key payload clientHash then some ["200\n".toList] else none)
  | _, _ => some (conn, none)

/-- The arm for `Attribute`. An unknown key is logged and answered. -/
def handleAttribute (conn : ConnectionState) (data : Data) :
    Option (ConnectionState × Option Reply) :=
  match data.lookup "key".toList, data.lookup "value".toList with
  | some key, some value =>
    match AttributeKey.ofName key with
    | some k =>
      match k.set conn value with
      | some conn => some (conn, some ["".toList])
      | none => some (conn, none)
    | none => some (conn, some ["".toList])
  | _, _ => some (conn, none)

/-- `handle_command` -/
def handleCommand (conn : ConnectionState) (payload : Challenge) :
    FtlCommand → Option (ConnectionState × Option Reply)
  | .hmac =>
    let conn := { conn with hmacPayload := some (generateHmac payload) }
    some (conn, some ["200 ".toList, conn.getPayload, "\n".toList])
  | .connect data => handleConnect H file conn data
  | .attribute data => handleAttribute conn data
  | .ping => some (conn, some ["201\n".toList])
  | .dot | .disconnect => some (conn, none)

/-- The command task between two calls of `recv`. -/
def commandTask : Handler ConnectionState (FtlCommand × Challenge) Reply :=
  fun conn (command, payload) =>
    match command with
    | .disconnect => some (conn, none)
    | .dot => some (conn, some ["200 hi. Use UDP port 65535\n".toList])
    | command => handleCommand H file conn payload command

end Handler

variable {H : Hmac} {file : HashFile} {conn conn' : ConnectionState} {payload : Challenge}

/-! ## What the handler does with a `Connect` -/

/-- The hash a `Connect` presents, if it carries what the handler asks for. -/
def presented (data : Data) : Option (List UInt8) :=
  match data.lookup "stream_key".toList, data.lookup "channel_id".toList with
  | some key, some _ => Hex.decode key
  | _, _ => none

@[simp]
theorem presented_connectData (channelId key : Text) :
    presented (FtlCodec.connectData channelId key) = Hex.decode key := by
  have hid : (FtlCodec.connectData channelId key).lookup "channel_id".toList = some channelId := by
    rw [FtlCodec.connectData, AList.lookup_insert_ne (by decide), AList.lookup_insert]
  have hkey : (FtlCodec.connectData channelId key).lookup "stream_key".toList = some key := by
    rw [FtlCodec.connectData, AList.lookup_insert]
  rw [presented, hid, hkey]

/-- A `Connect` never changes the state, and is answered exactly when the hash it presents is
the tag of the stored challenge, the empty message if there is none. -/
theorem handleConnect_answered {data : Data} {r : Reply} :
    handleConnect H file conn data = some (conn', some r) ↔
      conn' = conn ∧ r = ["200\n".toList] ∧ ∃ key msg, readStreamKey file = some key ∧
        Hex.decode conn.getPayload = some msg ∧ presented data = some (H.sign key msg) := by
  unfold handleConnect presented
  split
  · next hash channelId hhash hid =>
    simp only [Option.bind_eq_bind, Option.bind_eq_some_iff, Option.pure_def, Option.some.injEq,
      Prod.mk.injEq]
    constructor
    · rintro ⟨clientHash, hclient, key, hkey, msg, hmsg, rfl, hr⟩
      split at hr
      · next hv =>
        rw [H.verify_iff] at hv
        rw [Option.some.injEq] at hr
        exact ⟨rfl, hr.symm, key, msg, hkey, hmsg, by rw [hclient, hv]⟩
      · cases hr
    · rintro ⟨rfl, rfl, key, msg, hkey, hmsg, hpres⟩
      refine ⟨_, hpres, key, hkey, msg, hmsg, rfl, ?_⟩
      rw [if_pos]
      rw [H.verify_iff]
  · next hnone =>
    constructor
    · intro h
      simp at h
    · rintro ⟨-, -, key, msg, -, -, hpres⟩
      cases hpres

end Lightspeed.Ingest
