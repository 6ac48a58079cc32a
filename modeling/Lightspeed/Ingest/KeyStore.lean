import Lightspeed.Handler
import Lightspeed.Ingest.Challenge

/-!
# The key store over many startups

Between two startups the verifying path reads the file again for every `CONNECT`. Abstractly the
store is one text, the key in force: a startup with a key in the environment replaces it, and any
other startup keeps it or, if there is none, draws one (`install`). The file is the hexadecimal
form of the key in force at all times (`keyStore_startup`, `keyStore_verify`), so that startups
and verifications never disagree (`keyStore_agrees`).

That is so from a missing file on. A startup does not recover from every file it can find:
`recovers_iff`.
-/

namespace Lightspeed.Ingest

/-! ## Startups and verifications -/

namespace KeyStore

inductive Event
  /-- `read_stream_key(true, stream_key_env)` -/
  | startup (streamKeyEnv : Option Text) (sample : KeySample)
  /-- `read_stream_key(false, _)`, for a `CONNECT`. -/
  | verify

/-- What a call of `read_stream_key` returns, and what it has printed until then. -/
structure Answer where
  key : List UInt8
  printed : List Text

end KeyStore

open KeyStore (Event Answer)

/-- The key store answers each call. -/
def keyStore : Handler HashFile Event Answer
  | file, .startup streamKeyEnv sample =>
    (readStreamKeyStartup streamKeyEnv sample file).map fun r =>
      (r.file, some ⟨r.key, r.printed⟩)
  | file, .verify => (readStreamKey file).map fun key => (file, some ⟨key, []⟩)

/-! ## The key in force -/

/-- The key in force after a startup, from the one before it. -/
def install (streamKeyEnv : Option Text) (sample : KeySample) (current : Option Text) : Text :=
  match streamKeyEnv with
  | none | some [] => current.getD sample.text
  | some streamKey => streamKey

/-- The file for a key in force. -/
def fileOf (current : Option Text) : HashFile :=
  current.bind fun key => keyFile (Utf8.encode key)

/-- A startup that installs `key`. -/
def startedWith (key : Text) : Started where
  key := Utf8.encode key
  file := fileOf (some key)
  printed := [keyMessage key]

/-- A startup without a key in the environment keeps the key in force, or draws one. -/
theorem readStreamKeyStartup_stored (sample : KeySample) (current : Option Text) :
    readStreamKeyStartup none sample (fileOf current) =
      some (startedWith (current.getD sample.text)) := by
  cases current with
  | none =>
    show (runStatements none [.write (Utf8.encode sample.text), .print _]).map _ = _
    simp only [runStatements, printStreamKey_encode]
    rfl
  | some key =>
    have hread : (fileOf (some key)).readToString = some (Hex.encode (Utf8.encode key)) :=
      readToString_write _
    have hstored : startup none sample (fileOf (some key)) =
        ⟨Utf8.encode key, [.print (Utf8.encode key)]⟩ := by
      unfold startup readStored
      simp only [hread, Hex.decode_encode]
    simp only [readStreamKeyStartup, hstored, runStatements, printStreamKey_encode]
    rfl

/-- A startup installs the key that is in force after it. -/
theorem readStreamKeyStartup_fileOf (streamKeyEnv : Option Text) (sample : KeySample)
    (current : Option Text) : readStreamKeyStartup streamKeyEnv sample (fileOf current) =
      some (startedWith (install streamKeyEnv sample current)) := by
  match streamKeyEnv with
  | none | some [] => exact readStreamKeyStartup_stored sample current
  | some (c :: streamKey) => exact readStreamKeyStartup_env _ (List.cons_ne_nil _ _) sample _

theorem keyStore_startup (streamKeyEnv : Option Text) (sample : KeySample)
    (current : Option Text) {key : Text} (hkey : install streamKeyEnv sample current = key) :
    keyStore (fileOf current) (.startup streamKeyEnv sample) =
      some (fileOf (some key), some ⟨Utf8.encode key, [keyMessage key]⟩) := by
  rw [keyStore, readStreamKeyStartup_fileOf, hkey]
  rfl

/-- A verification reads the key in force. -/
theorem keyStore_verify (key : Text) : keyStore (fileOf (some key)) .verify =
    some (fileOf (some key), some ⟨Utf8.encode key, []⟩) := by
  have hread : readStreamKey (fileOf (some key)) = some (Utf8.encode key) :=
    readStreamKey_keyFile _
  rw [keyStore, hread, Option.map_some]

/-! ## Any history of startups -/

/-- The life of one process: its startup, and how many `CONNECT`s it verifies. -/
structure Boot where
  streamKeyEnv : Option Text
  sample : KeySample
  verifications : ℕ

namespace Boot

def events (b : Boot) : List Event :=
  .startup b.streamKeyEnv b.sample :: List.replicate b.verifications .verify

/-- The key in force while the process runs. -/
def key (b : Boot) (current : Option Text) : Text := install b.streamKeyEnv b.sample current

end Boot

/-- The key in force after some processes have run. -/
def keyAfter (current : Option Text) (boots : List Boot) : Option Text :=
  boots.foldl (fun current b => some (b.key current)) current

theorem answerAll_verify (key : Text) (n : ℕ) :
    keyStore.answerAll (fileOf (some key)) (List.replicate n .verify) =
      some (fileOf (some key), List.replicate n ⟨Utf8.encode key, []⟩) := by
  induction n with
  | zero => rfl
  | succ n ih =>
    rw [List.replicate_succ, List.replicate_succ]
    exact Handler.answerAll_cons.mpr ⟨_, _, _, keyStore_verify key, ih, rfl⟩

/-- A process sees one key, from its startup to its end. -/
theorem answerAll_boot (current : Option Text) (b : Boot) {key : Text}
    (hkey : b.key current = key) : keyStore.answerAll (fileOf current) b.events =
      some (fileOf (some key), ⟨Utf8.encode key, [keyMessage key]⟩ ::
        List.replicate b.verifications ⟨Utf8.encode key, []⟩) :=
  Handler.answerAll_cons.mpr
    ⟨_, _, _, keyStore_startup _ _ _ hkey, answerAll_verify _ _, rfl⟩

/-- No process of a history fails, and the file is that of the key in force. -/
theorem answerAll_boots (boots : List Boot) (current : Option Text) :
    ∃ answers, keyStore.answerAll (fileOf current) (boots.flatMap Boot.events) =
      some (fileOf (keyAfter current boots), answers) := by
  induction boots generalizing current with
  | nil => exact ⟨[], rfl⟩
  | cons b boots ih =>
    obtain ⟨answers, hanswers⟩ := ih (some (b.key current))
    rw [List.flatMap_cons]
    exact ⟨_, Handler.answerAll_append.mpr
      ⟨_, _, answers, answerAll_boot current b rfl, hanswers, rfl⟩⟩

/-- **The key store agrees with itself across restarts.** After any history of processes that
began with no file, a process starts: it returns a key and prints the text of the same key, once,
and every verification it makes returns that key again and prints nothing. A later startup without
a key in the environment returns and prints that same key and leaves the file as it is; one with a
key installs and prints that one. -/
theorem keyStore_agrees (boots : List Boot) (b : Boot) :
    ∃ (file : HashFile) (answers : List Answer) (key : List UInt8) (text : Text),
      keyStore.answerAll none (boots.flatMap Boot.events ++ b.events) =
        some (file, answers ++ ⟨key, [keyMessage text]⟩ ::
          List.replicate b.verifications ⟨key, []⟩) ∧
      Utf8.encode text = key ∧
      (∀ sample, readStreamKeyStartup none sample file = some ⟨key, file, [keyMessage text]⟩ ∧
        readStreamKeyStartup (some []) sample file = some ⟨key, file, [keyMessage text]⟩) ∧
      ∀ c streamKey sample, readStreamKeyStartup (some (c :: streamKey)) sample file =
        some ⟨Utf8.encode (c :: streamKey), fileOf (some (c :: streamKey)),
          [keyMessage (c :: streamKey)]⟩ := by
  obtain ⟨answers, hanswers⟩ := answerAll_boots boots none
  let text := b.key (keyAfter none boots)
  refine ⟨fileOf (some text), answers, Utf8.encode text, text, ?_, rfl, ?_, ?_⟩
  · exact Handler.answerAll_append.mpr
      ⟨_, answers, _, hanswers, answerAll_boot _ b rfl, rfl⟩
  · intro sample
    exact ⟨readStreamKeyStartup_fileOf none sample (some text),
      readStreamKeyStartup_fileOf (some []) sample (some text)⟩
  · intro c streamKey sample
    exact readStreamKeyStartup_fileOf (some (c :: streamKey)) sample (some text)

/-! ## Files a startup does not recover from -/

/-- A startup returns a key that is not empty, and the file holds it. -/
def Recovers (streamKeyEnv : Option Text) (sample : KeySample) (file : HashFile) : Prop :=
  ∃ r, readStreamKeyStartup streamKeyEnv sample file = some r ∧ r.key ≠ [] ∧
    readStreamKey r.file = some r.key

/-- What the file holds, if it can be read and decoded, is a key that can be used. -/
def UsableIfDecoded (file : HashFile) : Prop :=
  ∀ text streamKey, file.readToString = some text → Hex.decode text = some streamKey →
    streamKey ≠ [] ∧ (Utf8.fromUtf8 streamKey).isSome = true

theorem encode_ne_nil {text : Text} (h : text ≠ []) : Utf8.encode text ≠ [] := by
  intro hnil
  have hread := Utf8.fromUtf8_encode text
  rw [hnil] at hread
  exact h (Option.some.inj hread).symm

/-- A startup that does not panic on a key recovers, if the key is not empty. -/
theorem recovers_of_key_ne_nil {streamKeyEnv : Option Text} {sample : KeySample}
    {file : HashFile} {r : Started}
    (h : readStreamKeyStartup streamKeyEnv sample file = some r) (hne : r.key ≠ []) :
    Recovers streamKeyEnv sample file :=
  ⟨r, h, hne, (started_of_startup h).1⟩

/-- A drawn key can be used. -/
theorem recovers_of_regenerate {sample : KeySample} {file : HashFile}
    (h : readStored sample file = regenerate sample) : Recovers none sample file := by
  have hstart : readStreamKeyStartup none sample file = some (startedWith sample.text) := by
    simp only [readStreamKeyStartup, startup, h, regenerate, generateStreamKey,
      List.singleton_append, runStatements, printStreamKey_encode]
    rfl
  refine recovers_of_key_ne_nil hstart (encode_ne_nil fun hnil => ?_)
  have hlen := sample.length_eq
  rw [hnil] at hlen
  cases hlen

/-- A stored key that is decoded is used as it is, if it can be printed. -/
theorem readStreamKeyStartup_of_decoded (sample : KeySample) {file : HashFile} {text : Text}
    {streamKey : List UInt8} (hread : file.readToString = some text)
    (hdecode : Hex.decode text = some streamKey) :
    readStreamKeyStartup none sample file =
      (Utf8.fromUtf8 streamKey).map fun text => ⟨streamKey, file, [keyMessage text]⟩ := by
  simp only [readStreamKeyStartup, startup, readStored, hread, hdecode, runStatements,
    printStreamKey]
  cases Utf8.fromUtf8 streamKey <;> rfl

/-- A startup with nothing in the environment. -/
theorem recovers_stored_iff (sample : KeySample) (file : HashFile) :
    Recovers none sample file ↔ UsableIfDecoded file := by
  unfold UsableIfDecoded
  cases hread : file.readToString with
  | none =>
    have hstored : readStored sample file = regenerate sample := by
      unfold readStored
      rw [hread]
    exact iff_of_true (recovers_of_regenerate hstored) fun _ _ htext => by cases htext
  | some text =>
    cases hdecode : Hex.decode text with
    | none =>
      have hstored : readStored sample file = regenerate sample := by
        unfold readStored
        rw [hread]
        simp only [hdecode]
      refine iff_of_true (recovers_of_regenerate hstored) fun _ _ htext hkey => ?_
      obtain rfl := Option.some.inj htext
      rw [hdecode] at hkey
      cases hkey
    | some streamKey =>
      have hstart := readStreamKeyStartup_of_decoded sample hread hdecode
      constructor
      · rintro ⟨r, hsome, hne, -⟩ text' streamKey' htext hkey
        obtain rfl := Option.some.inj htext
        obtain rfl := Option.some.inj (hdecode.symm.trans hkey)
        rw [hstart, Option.map_eq_some_iff] at hsome
        obtain ⟨key, hvalid, rfl⟩ := hsome
        exact ⟨hne, Option.isSome_of_eq_some hvalid⟩
      · intro husable
        obtain ⟨hne, hvalid⟩ := husable text streamKey rfl hdecode
        obtain ⟨key, hkey⟩ := Option.isSome_iff_exists.mp hvalid
        rw [hkey, Option.map_some] at hstart
        exact recovers_of_key_ne_nil hstart hne

/-- **When a startup recovers.** A startup returns a key that is not empty and stored exactly if
there is one in the environment, or the file cannot be read or decoded, or what it decodes to is
text that is not empty. -/
theorem recovers_iff (streamKeyEnv : Option Text) (sample : KeySample) (file : HashFile) :
    Recovers streamKeyEnv sample file ↔
      (∃ c streamKey, streamKeyEnv = some (c :: streamKey)) ∨ UsableIfDecoded file := by
  match streamKeyEnv with
  | none | some [] =>
    refine (recovers_stored_iff sample file).trans ⟨.inr, ?_⟩
    rintro (⟨c, streamKey, henv⟩ | husable)
    · cases henv
    · exact husable
  | some (c :: streamKey) =>
    have hstart := readStreamKeyStartup_env _ (List.cons_ne_nil c streamKey) sample file
    refine iff_of_true ?_ (.inl ⟨c, streamKey, rfl⟩)
    exact recovers_of_key_ne_nil hstart (encode_ne_nil (List.cons_ne_nil _ _))

/-- A sample for a startup that draws nothing. -/
def exampleSample : KeySample := ⟨exampleKey, by decide, by decide⟩

/-- The file of a startup that was interrupted when it had truncated the file: the next startup
takes the empty key for the stored one. -/
theorem empty_file_not_recovered :
    ¬∀ streamKeyEnv sample file, Recovers streamKeyEnv sample file := by
  intro h
  obtain ⟨r, hstart, hne, -⟩ := h none exampleSample (some [])
  have hempty : readStreamKeyStartup none exampleSample (some []) =
      some ⟨[], some [], [keyMessage []]⟩ := rfl
  rw [hempty] at hstart
  obtain rfl := Option.some.inj hstart
  exact hne rfl

end Lightspeed.Ingest
