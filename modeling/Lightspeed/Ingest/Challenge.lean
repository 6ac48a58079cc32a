import Lightspeed.Ingest.Connection

/-!
# Challenge and response

`CONNECT` is answered when its hash is the tag of the stored challenge. `get_payload` turns a
challenge that was never issued into the empty string, so that before the first `HMAC` command
the tag of the empty message is accepted, the same on every connection and for ever
(`connect_without_challenge`). That is the only way around a fresh challenge: a captured `CONNECT`
is of use on another connection only if that issued the same challenge, as long as the tags of the
two challenges do not collide (`acceptsOnlyFresh_iff`).
-/

namespace Lightspeed.Ingest

variable {H : Hmac} {file : HashFile} {conn conn' : ConnectionState} {payload : Challenge}

/-- The challenge of the most recent `HMAC` command among the processed ones. -/
def lastChallenge (history : List (FtlCommand × Challenge)) : Option Challenge :=
  (history.filter fun r => decide (r.1 = .hmac)).getLast?.map Prod.snd

theorem lastChallenge_concat (history : List (FtlCommand × Challenge)) (c : FtlCommand)
    (payload : Challenge) : lastChallenge (history ++ [(c, payload)]) =
      if c = .hmac then some payload else lastChallenge history := by
  unfold lastChallenge
  rw [List.filter_append]
  by_cases hc : c = .hmac
  · simp [hc]
  · simp [hc]

/-! ## The stored challenge -/

theorem handleConnect_state {data : Data} {r : Option Reply}
    (h : handleConnect H file conn data = some (conn', r)) : conn' = conn := by
  unfold handleConnect at h
  split at h
  · simp only [Option.bind_eq_bind, Option.bind_eq_some_iff, Option.pure_def, Option.some.injEq,
      Prod.mk.injEq] at h
    obtain ⟨-, -, -, -, -, -, rfl, -⟩ := h
    rfl
  · simp only [Option.some.injEq, Prod.mk.injEq] at h
    exact h.1.symm

theorem set_hmacPayload {k : AttributeKey} {value : Text} (h : k.set conn value = some conn') :
    conn'.hmacPayload = conn.hmacPayload := by
  cases k with
  | video | audio =>
    obtain ⟨b, -, rfl⟩ := Option.map_eq_some_iff.mp h
    rfl
  | _ =>
    obtain rfl := Option.some.inj h
    rfl

theorem handleAttribute_hmacPayload {data : Data} {r : Option Reply}
    (h : handleAttribute conn data = some (conn', r)) :
    conn'.hmacPayload = conn.hmacPayload := by
  unfold handleAttribute at h
  split at h
  · split at h
    · split at h
      · next hset =>
        simp only [Option.some.injEq, Prod.mk.injEq] at h
        obtain ⟨rfl, -⟩ := h
        exact set_hmacPayload hset
      · simp only [Option.some.injEq, Prod.mk.injEq] at h
        rw [h.1]
    · simp only [Option.some.injEq, Prod.mk.injEq] at h
      rw [h.1]
  · simp only [Option.some.injEq, Prod.mk.injEq] at h
    rw [h.1]

/-- Only an `HMAC` command changes the stored challenge. -/
theorem commandTask_hmacPayload {c : FtlCommand} {r : Option Reply}
    (h : commandTask H file conn (c, payload) = some (conn', r)) :
    conn'.hmacPayload =
      if c = .hmac then some (generateHmac payload) else conn.hmacPayload := by
  match c, h with
  | .hmac, h =>
    simp only [commandTask, handleCommand, Option.some.injEq, Prod.mk.injEq] at h
    rw [← h.1, if_pos rfl]
  | .connect data, h =>
    rw [handleConnect_state h]
    rfl
  | .attribute data, h => exact handleAttribute_hmacPayload h
  | .ping, h | .dot, h | .disconnect, h =>
    simp only [commandTask, handleCommand, Option.some.injEq, Prod.mk.injEq] at h
    rw [← h.1]
    rfl

/-- After any commands the state holds the challenge issued last. -/
theorem hmacPayload_of_runAll {history : List (FtlCommand × Challenge)}
    (h : (commandTask H file).runAll .new history = some conn) :
    conn.hmacPayload = (lastChallenge history).map generateHmac := by
  induction history using List.reverseRecOn generalizing conn with
  | nil =>
    obtain rfl := Option.some.inj h
    rfl
  | append_singleton history request ih =>
    obtain ⟨c, payload⟩ := request
    rw [Handler.runAll_append, Option.bind_eq_some_iff] at h
    obtain ⟨before, hbefore, hlast⟩ := h
    rw [Handler.runAll, Option.bind_eq_some_iff] at hlast
    obtain ⟨⟨after, r⟩, hstep, hafter⟩ := hlast
    obtain rfl := Option.some.inj hafter
    rw [commandTask_hmacPayload hstep, lastChallenge_concat, ih hbefore]
    split <;> rfl

/-- The message a hash is checked against: the challenge, or nothing if there is none. -/
theorem decode_getPayload {history : List (FtlCommand × Challenge)}
    (h : (commandTask H file).runAll .new history = some conn) :
    Hex.decode conn.getPayload =
      some (((lastChallenge history).map Challenge.bytes).getD []) := by
  rw [ConnectionState.getPayload, hmacPayload_of_runAll h]
  cases lastChallenge history with
  | none => rfl
  | some payload => exact Hex.decode_encode payload.bytes

/-! ## Which hashes are accepted -/

/-- After `history`, `handle_command` answers a `Connect` with `data` by `"200\n"`. -/
def Accepts (H : Hmac) (file : HashFile) (history : List (FtlCommand × Challenge))
    (data : Data) : Prop :=
  ∃ conn conn' payload, (commandTask H file).runAll .new history = some conn ∧
    handleCommand H file conn payload (.connect data) = some (conn', some ["200\n".toList])

/-- An accepted `Connect` presents the tag of a challenge issued before it on the same
connection, the most recent one. -/
def AcceptsOnlyFresh (H : Hmac) (file : HashFile) (key : List UInt8)
    (history : List (FtlCommand × Challenge)) (data : Data) : Prop :=
  Accepts H file history data → ∃ payload, lastChallenge history = some payload ∧
    presented data = some (H.sign key payload.bytes)

/-- HMAC-SHA512 is trusted for this: two challenges with one tag are the same. -/
def NoCollision (H : Hmac) (key : List UInt8) (payload payload' : Challenge) : Prop :=
  H.sign key payload.bytes = H.sign key payload'.bytes → payload.bytes = payload'.bytes

theorem NoCollision.eq {key : List UInt8} {payload payload' : Challenge}
    (h : NoCollision H key payload payload')
    (htag : H.sign key payload.bytes = H.sign key payload'.bytes) : payload = payload' :=
  Challenge.ext (h htag)

theorem accepts_iff {history : List (FtlCommand × Challenge)} {data : Data} {key : List UInt8}
    (hkey : readStreamKey file = some key)
    (hrun : (commandTask H file).runAll .new history = some conn) :
    Accepts H file history data ↔
      presented data =
        some (H.sign key (((lastChallenge history).map Challenge.bytes).getD [])) := by
  constructor
  · rintro ⟨conn₁, conn₂, payload, hrun₁, hans⟩
    obtain ⟨-, -, key', msg, hkey', hmsg, hpres⟩ := handleConnect_answered.mp hans
    rw [hkey, Option.some.injEq] at hkey'
    rw [decode_getPayload hrun₁, Option.some.injEq] at hmsg
    rw [hpres, hkey', hmsg]
  · intro hpres
    exact ⟨conn, conn, default, hrun, handleConnect_answered.mpr
      ⟨rfl, rfl, key, _, hkey, decode_getPayload hrun, hpres⟩⟩

/-- **Freshness.** Acceptance is bound to a fresh challenge exactly if one was issued or the
presented hash is not the tag of the empty message. Two connections that have issued challenges and
accept the same `Connect` have issued the same challenge, if the tags of the two do not collide. -/
theorem acceptsOnlyFresh_iff {history : List (FtlCommand × Challenge)} {data : Data}
    {key : List UInt8} (hkey : readStreamKey file = some key)
    (hrun : (commandTask H file).runAll .new history = some conn) :
    (AcceptsOnlyFresh H file key history data ↔
      (lastChallenge history ≠ none ∨ presented data ≠ some (H.sign key []))) ∧
    ∀ history' payload payload', lastChallenge history = some payload →
      lastChallenge history' = some payload' → NoCollision H key payload payload' →
      Accepts H file history data → Accepts H file history' data → payload = payload' := by
  refine ⟨?_, ?_⟩
  · unfold AcceptsOnlyFresh
    rw [accepts_iff hkey hrun]
    cases hlast : lastChallenge history with
    | none => simp
    | some payload => simp
  · intro history' payload payload' hlast hlast' htags hacc hacc'
    obtain ⟨conn', -, -, hrun', -⟩ := id hacc'
    rw [accepts_iff hkey hrun, hlast] at hacc
    rw [accepts_iff hkey hrun', hlast'] at hacc'
    rw [hacc, Option.some.injEq] at hacc'
    exact htags.eq hacc'

/-! ## A stored key -/

/-- An `Hmac` given by its tags. -/
def Hmac.ofTable (tags : List ((List UInt8 × List UInt8) × List UInt8)) : Hmac where
  sign key msg := (tags.lookup (key, msg)).getD []
  verify key msg tag := decide (tag = (tags.lookup (key, msg)).getD [])
  verify_iff _ _ _ := decide_eq_true_iff

/-- A key as `generate_stream_key` makes them. -/
def exampleKey : Text := "0123456789abcdefghijklmnopqrstuv".toList

/-- HMAC-SHA512 under `exampleKey` of the empty message. -/
def emptyTag : List UInt8 :=
  [38, 112, 111, 110, 180, 83, 160, 156, 32, 139, 194, 110, 147, 207, 158, 10, 115, 25, 59,
    102, 199, 39, 110, 165, 56, 50, 118, 143, 63, 57, 17, 231, 140, 61, 194, 236, 221, 233,
    152, 75, 243, 137, 70, 89, 253, 20, 250, 32, 136, 138, 5, 156, 205, 80, 174, 121, 168, 112,
    192, 32, 11, 227, 207, 142]

/-- HMAC-SHA512 under `exampleKey` of 128 zero bytes, the default challenge. -/
def zerosTag : List UInt8 :=
  [83, 74, 233, 185, 199, 96, 63, 226, 122, 168, 60, 59, 238, 155, 122, 228, 92, 89, 4, 22,
    68, 136, 1, 217, 59, 50, 84, 120, 135, 76, 201, 1, 118, 127, 191, 210, 185, 192, 255, 241,
    7, 23, 11, 176, 11, 51, 130, 232, 174, 96, 133, 37, 8, 190, 239, 248, 249, 80, 16, 88, 115,
    31, 53, 64]

/-- 128 times the byte 1. -/
def onesChallenge : Challenge where
  bytes := List.replicate 128 1
  length_eq := List.length_replicate
  lt_ff b hb := by
    rw [List.eq_of_mem_replicate hb]
    decide

/-- HMAC-SHA512 under `exampleKey` of `onesChallenge`. -/
def onesTag : List UInt8 :=
  [214, 154, 120, 162, 81, 93, 69, 106, 170, 136, 14, 138, 55, 247, 232, 77, 81, 57, 104, 138,
    79, 107, 224, 9, 150, 29, 157, 54, 79, 10, 248, 193, 108, 221, 66, 92, 87, 195, 157, 41, 29,
    70, 3, 255, 12, 242, 177, 76, 23, 220, 242, 208, 247, 117, 205, 162, 246, 196, 241, 218, 68,
    71, 103, 228]

def exampleHmac : Hmac :=
  .ofTable [((Utf8.encode exampleKey, []), emptyTag),
    ((Utf8.encode exampleKey, (default : Challenge).bytes), zerosTag),
    ((Utf8.encode exampleKey, onesChallenge.bytes), onesTag)]

def exampleFile : HashFile := keyFile (Utf8.encode exampleKey)

/-- The `CONNECT` with a given hash. -/
def connectWith (tag : List UInt8) : Data :=
  FtlCodec.connectData "77".toList (Hex.encode tag)

theorem presented_connectWith (tag : List UInt8) : presented (connectWith tag) = some tag := by
  rw [connectWith, presented_connectData, Hex.decode_encode]

/-- A broadcaster that asked for a challenge and answers it. Its answer is of no use on a connection
with another challenge. -/
theorem acceptsOnlyFresh_iff_answered :
    AcceptsOnlyFresh exampleHmac exampleFile (Utf8.encode exampleKey) [(.hmac, default)]
      (connectWith zerosTag) ∧
    Accepts exampleHmac exampleFile [(.hmac, default)] (connectWith zerosTag) ∧
    ¬Accepts exampleHmac exampleFile [(.hmac, onesChallenge)] (connectWith zerosTag) := by
  have hkey : readStreamKey exampleFile = some (Utf8.encode exampleKey) := readStreamKey_keyFile _
  have hrun : ((commandTask exampleHmac exampleFile).runAll .new [(.hmac, default)]).isSome := rfl
  obtain ⟨conn, hrun⟩ := Option.isSome_iff_exists.mp hrun
  obtain ⟨hfresh, hreplay⟩ :=
    @acceptsOnlyFresh_iff exampleHmac _ conn _ (connectWith zerosTag) _ hkey hrun
  have hacc : Accepts exampleHmac exampleFile [(.hmac, default)] (connectWith zerosTag) := by
    rw [accepts_iff hkey hrun, presented_connectWith]
    rfl
  have htags : NoCollision exampleHmac (Utf8.encode exampleKey) default onesChallenge := by
    have hne : ¬exampleHmac.sign (Utf8.encode exampleKey) (default : Challenge).bytes =
        exampleHmac.sign (Utf8.encode exampleKey) onesChallenge.bytes := by decide
    exact fun htag => absurd htag hne
  refine ⟨hfresh.mpr (.inl (by decide)), hacc, fun hacc' => ?_⟩
  exact absurd (hreplay _ _ _ rfl rfl htags hacc hacc') (by decide)

/-- A client that never asked for a challenge and presents the tag of the empty message. -/
theorem connect_without_challenge :
    ¬∀ H file key history data, readStreamKey file = some key →
      AcceptsOnlyFresh H file key history data := by
  intro h
  have hkey : readStreamKey exampleFile = some (Utf8.encode exampleKey) := readStreamKey_keyFile _
  have hacc : Accepts exampleHmac exampleFile [] (connectWith emptyTag) := by
    rw [accepts_iff hkey rfl, presented_connectWith]
    rfl
  obtain ⟨payload, hlast, -⟩ := h _ _ _ _ _ hkey hacc
  cases hlast

end Lightspeed.Ingest
