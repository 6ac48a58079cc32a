import Lightspeed.Ingest.Grammar
import Lightspeed.Ingest.Store

/-!
# Where the command handler panics

`handle_command` decodes two strings with `expect`. The stored challenge is never the one that
fails: only `HMAC` commands write it, and they write digits. The hash of a `Connect` is what stood
in the frame behind the mark, and neither the codec nor the handler has looked at its digits
(`connect_not_hex_panics`).
-/

namespace Lightspeed.Ingest

variable {H : Hmac} {file : HashFile} {conn : ConnectionState} {payload : Challenge}

/-- A command that `decode` can return. -/
def Decoded (c : FtlCommand) : Prop :=
  ∃ (self self' : FtlCodec) (buf rest : List UInt8),
    self.decode buf = some (.command c, self', rest)

/-- The hash of a `Connect` is an even number of hexadecimal digits. -/
def HashIsHex : FtlCommand → Prop
  | .connect data => ∀ key, data.lookup "stream_key".toList = some key →
      key.length % 2 = 0 ∧ ∀ c ∈ key, (Hex.value c).isSome
  | _ => True

/-- A decoded `Connect` has both entries the handler asks for. -/
theorem exists_connectData {data : Data} (h : Decoded (.connect data)) :
    ∃ channelId key, data = FtlCodec.connectData channelId key := by
  obtain ⟨self, self', buf, rest, hdecode⟩ := h
  obtain ⟨index, -, hparse, -⟩ := FtlCodec.decode_eq_some hdecode
  have hacc := FtlCodec.accepted_of_parse hparse.symm
  generalize hc : FtlCommand.connect data = c at hacc
  match hacc with
  | .connect _ _ _ _ =>
    obtain rfl := FtlCommand.connect.inj hc
    exact ⟨_, _, rfl⟩
  | .hmac _ | .disconnect _ _ | .attribute _ _ _ _ | .dot _ | .ping _ _ _ _ => cases hc

theorem hashIsHex_connectData (channelId key : Text) :
    HashIsHex (.connect (FtlCodec.connectData channelId key)) ↔ (Hex.decode key).isSome := by
  have hkey : (FtlCodec.connectData channelId key).lookup "stream_key".toList = some key := by
    rw [FtlCodec.connectData, AList.lookup_insert]
  rw [HashIsHex, hkey, Hex.decode_isSome_iff]
  simp only [Option.some.injEq, forall_eq']

/-! ## One command -/

/-- A `Connect` with a hash and a channel is handled when both strings can be decoded. -/
theorem handleConnect_isSome_iff {key msg : List UInt8} (hkey : readStreamKey file = some key)
    (hmsg : Hex.decode conn.getPayload = some msg) (channelId hash : Text) :
    (handleConnect H file conn (FtlCodec.connectData channelId hash)).isSome ↔
      (Hex.decode hash).isSome := by
  have hid : (FtlCodec.connectData channelId hash).lookup "channel_id".toList =
      some channelId := by
    rw [FtlCodec.connectData, AList.lookup_insert_ne (by decide), AList.lookup_insert]
  have hhash : (FtlCodec.connectData channelId hash).lookup "stream_key".toList = some hash := by
    rw [FtlCodec.connectData, AList.lookup_insert]
  rw [handleConnect, hid, hhash]
  simp only [hkey, hmsg]
  cases Hex.decode hash with
  | none => rfl
  | some clientHash => exact iff_of_true rfl rfl

/-- Whatever was handled before, the stored challenge can be decoded. -/
theorem exists_decode_getPayload {history : List (FtlCommand × Challenge)}
    (h : (commands H file).runAll .new history = some conn) :
    ∃ msg, Hex.decode conn.getPayload = some msg := by
  have hpayload : conn.hmacPayload = (lastChallenge history).map generateHmac := by
    rw [eq_lastWrites h]
    rfl
  rw [ConnectionState.getPayload, hpayload]
  cases lastChallenge history with
  | none => exact ⟨[], rfl⟩
  | some payload => exact ⟨payload.bytes, Hex.decode_encode payload.bytes⟩

theorem handleCommand_isSome_iff {key : List UInt8} (hkey : readStreamKey file = some key)
    {history : List (FtlCommand × Challenge)}
    (h : (commands H file).runAll .new history = some conn) {c : FtlCommand} (hc : Decoded c)
    (payload : Challenge) : (handleCommand H file conn payload c).isSome ↔ HashIsHex c := by
  match c, hc with
  | .connect data, hc =>
    obtain ⟨msg, hmsg⟩ := exists_decode_getPayload h
    obtain ⟨channelId, hash, rfl⟩ := exists_connectData hc
    rw [hashIsHex_connectData]
    exact handleConnect_isSome_iff hkey hmsg channelId hash
  | .attribute data, _ =>
    obtain ⟨r, hr⟩ := handleAttribute_eq conn data payload
    rw [handleCommand, hr]
    exact iff_of_true rfl trivial
  | .hmac, _ | .ping, _ | .dot, _ | .disconnect, _ => exact iff_of_true rfl trivial

/-! ## Whole connections -/

/-- **No panic.** In every state that commands lead to from a new connection, a decoded command is
handled without a panic exactly if it is no `Connect` with a hash that is not hexadecimal; and a
whole connection is exactly if none of its commands is. -/
theorem handleCommand_no_panic_iff {key : List UInt8} (hkey : readStreamKey file = some key) :
    (∀ history conn c payload, (commands H file).runAll .new history = some conn → Decoded c →
      ((handleCommand H file conn payload c).isSome ↔ HashIsHex c)) ∧
    ∀ history : List (FtlCommand × Challenge), (∀ request ∈ history, Decoded request.1) →
      (((commands H file).runAll .new history).isSome ↔
        ∀ request ∈ history, HashIsHex request.1) := by
  refine ⟨fun history conn c payload hrun hc => handleCommand_isSome_iff hkey hrun hc payload, ?_⟩
  intro history
  induction history using List.reverseRecOn with
  | nil => exact fun _ => iff_of_true rfl fun request hr => absurd hr List.not_mem_nil
  | append_singleton history request ih =>
    intro hdecoded
    rw [List.forall_mem_append, List.forall_mem_singleton] at hdecoded ⊢
    rw [Handler.runAll_append, ← ih hdecoded.1]
    cases hrun : (commands H file).runAll .new history with
    | none => simp
    | some conn =>
      have hstep := handleCommand_isSome_iff hkey hrun hdecoded.2 request.2
      have hlast : ((commands H file).runAll conn [request]).isSome ↔
          (handleCommand H file conn request.2 request.1).isSome := by
        rw [Handler.runAll, Option.isSome_bind]
        show (Option.any _ (handleCommand H file conn request.2 request.1)) = true ↔ _
        cases handleCommand H file conn request.2 request.1 <;> rfl
      rw [Option.bind_some, hlast, hstep]
      simp

theorem readStreamKey_exampleFile :
    readStreamKey exampleFile = some (Utf8.encode exampleKey) := readStreamKey_keyFile _

theorem decoded_of_line (line : Text) {c : FtlCommand} (hframed : FtlCodec.Framed line)
    (hparse : FtlCodec.parse line = .command c) : Decoded c := by
  refine ⟨.new, .new, FtlCodec.wire line ++ [], [], ?_⟩
  rw [FtlCodec.decode_wire .new hframed, hparse]
  rfl

/-- A `CONNECT` with some hash behind the mark. -/
theorem decoded_connect (key : Text) {line : Text} (hline : line = "CONNECT 77 $".toList ++ key)
    (hkey : key.all Char.isAlphanum) (hhmac : ¬"HMAC".toList <:+: line)
    (hdisconnect : ¬"DISCONNECT".toList <:+: line) :
    Decoded (.connect (FtlCodec.connectData "77".toList key)) := by
  have hlacks : ∀ c ∈ key, c ≠ ' ' ∧ c ≠ '\r' := by
    intro c hc
    have halpha := List.all_eq_true.mp hkey c hc
    constructor
    · rintro rfl
      exact absurd halpha (by decide)
    · rintro rfl
      exact absurd halpha (by decide)
  have hsplit : Str.split line ' ' = ["CONNECT".toList, "77".toList, '$' :: key] := by
    have hblank : ' ' ∉ '$' :: key := by
      rw [List.mem_cons, not_or]
      exact ⟨by decide, fun hc => (hlacks _ hc).1 rfl⟩
    have hshape : line = "CONNECT".toList ++ ' ' :: ("77".toList ++ ' ' :: '$' :: key) := hline
    rw [hshape, Str.split_append_cons (by decide), Str.split_append_cons (by decide),
      Str.split_of_not_mem hblank]
  have hconnect : "CONNECT".toList <:+: line := hline ▸ ⟨[], " 77 $".toList ++ key, rfl⟩
  refine decoded_of_line line (FtlCodec.framed_of_not_mem ?_) ?_
  · rw [hline, List.mem_append, not_or]
    exact ⟨by decide, fun hc => (hlacks _ hc).2 rfl⟩
  · rw [FtlCodec.parse_of_connect hhmac hdisconnect hconnect, FtlCodec.parseConnect_of_split hsplit]

/-- A challenge and an answer that is too short, but hexadecimal. -/
theorem handleCommand_no_panic_iff_connect :
    ((commands exampleHmac exampleFile).runAll .new [(.hmac, default),
      (.connect (FtlCodec.connectData "77".toList "00ff".toList), default)]).isSome := by
  rw [(handleCommand_no_panic_iff readStreamKey_exampleFile).2]
  · rw [List.forall_mem_cons, List.forall_mem_singleton, hashIsHex_connectData]
    exact ⟨trivial, by decide⟩
  · rw [List.forall_mem_cons, List.forall_mem_singleton]
    exact ⟨decoded_of_line "HMAC".toList (FtlCodec.framed_of_not_mem (by decide))
      (by decide), decoded_connect _ rfl (by decide) (by decide) (by decide)⟩

/-- The first line of a client can panic the handler. -/
theorem connect_not_hex_panics :
    ¬∀ H file key history conn c payload, readStreamKey file = some key →
      (commands H file).runAll .new history = some conn → Decoded c →
      (handleCommand H file conn payload c).isSome := by
  intro h
  have hsome := h exampleHmac exampleFile _ [] .new _ default readStreamKey_exampleFile rfl
    (decoded_connect "zz".toList rfl (by decide) (by decide) (by decide))
  have hpayload : Hex.decode ConnectionState.new.getPayload = some [] := rfl
  rw [handleCommand, handleConnect_isSome_iff readStreamKey_exampleFile hpayload] at hsome
  exact absurd hsome (by decide)

end Lightspeed.Ingest
