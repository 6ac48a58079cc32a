import Lightspeed.Hex
import Lightspeed.Str

/-!
# The stream key

The key store of `ingest/src/connection.rs`: a file `hash` with the key in hexadecimal, read or
created at startup and read again for every `CONNECT`. A startup looks at the environment and the
file and then prints and writes, in an order that depends on where the key comes from (`startup`).
With nothing in between that is a function from the file to the key, the new file and the printed
text, or a panic (`readStreamKeyStartup`).
-/

namespace Lightspeed.Ingest

/-- The bytes of the file `hash`, if it exists. -/
abbrev HashFile := Option (List UInt8)

/-- `fs::read_to_string("hash")`, which fails on a missing file and on bytes that are not UTF-8. -/
def HashFile.readToString (file : HashFile) : Option Text := file.bind Utf8.fromUtf8

/-- `fs::write("hash", text)` -/
def HashFile.write (text : Text) : HashFile := some (Utf8.encode text)

/-- What `thread_rng().sample_iter(&Alphanumeric).take(32)` can give. -/
structure KeySample where
  text : Text
  length_eq : text.length = 32
  alphanumeric : text.all Char.isAlphanum = true

/-- The text that `print_stream_key` logs, with the escape codes that color the key. -/
def keyMessage (key : Text) : Text :=
  "Your stream key is: \x1b[31;1;4m77-".toList ++ key ++ "\x1b[0m".toList

/-- What `print_stream_key` logs. It unwraps `str::from_utf8`: `none` is its panic. -/
def printStreamKey (streamKey : List UInt8) : Option Text :=
  (Utf8.fromUtf8 streamKey).map keyMessage

/-- The file that holds a key. -/
def keyFile (streamKey : List UInt8) : HashFile := HashFile.write (Hex.encode streamKey)

/-- A statement of a startup that shows outside of its process. -/
inductive Statement
  /-- `print_stream_key(stream_key)` -/
  | print (streamKey : List UInt8)
  /-- `fs::write("hash", hex::encode(stream_key))` -/
  | write (streamKey : List UInt8)
deriving DecidableEq

/-- The key that a startup returns and the statements it executes before, in their order. -/
structure Startup where
  key : List UInt8
  statements : List Statement

/-- `generate_stream_key`: the sample is the key, and its digits are written to the file. -/
def generateStreamKey (sample : KeySample) : Startup where
  key := Utf8.encode sample.text
  statements := [.write (Utf8.encode sample.text)]

/-- The part of a startup that goes on without a stored key. -/
def regenerate (sample : KeySample) : Startup :=
  let ⟨streamKey, statements⟩ := generateStreamKey sample
  ⟨streamKey, statements ++ [.print streamKey]⟩

/-- The part of a startup that looks for a stored key. -/
def readStored (sample : KeySample) (file : HashFile) : Startup :=
  match file.readToString with
  | none => regenerate sample
  | some text =>
    match Hex.decode text with
    | none => regenerate sample
    | some streamKey => ⟨streamKey, [.print streamKey]⟩

/-- The course of `read_stream_key(true, stream_key_env)` when it finds `file`. `sample` is what the
random generator gives if it is asked. -/
def startup (streamKeyEnv : Option Text) (sample : KeySample) (file : HashFile) : Startup :=
  match streamKeyEnv with
  | none | some [] => readStored sample file
  | some streamKey =>
    let key := Utf8.encode streamKey
    ⟨key, [.print key, .write key]⟩

/-- The file after some statements, and what they have printed. `none` is a panic. -/
def runStatements (file : HashFile) : List Statement → Option (HashFile × List Text)
  | [] => some (file, [])
  | .print streamKey :: rest => do
    let text ← printStreamKey streamKey
    let (file, printed) ← runStatements file rest
    return (file, text :: printed)
  | .write streamKey :: rest => runStatements (keyFile streamKey) rest

/-- What a startup that did not panic has returned, left behind and printed. -/
structure Started where
  key : List UInt8
  file : HashFile
  printed : List Text

/-- `read_stream_key(true, stream_key_env)`, if nobody else uses the file meanwhile. -/
def readStreamKeyStartup (streamKeyEnv : Option Text) (sample : KeySample) (file : HashFile) :
    Option Started :=
  let ⟨key, statements⟩ := startup streamKeyEnv sample file
  (runStatements file statements).map fun (file, printed) => ⟨key, file, printed⟩

/-- `read_stream_key(false, _)`: both `unwrap`s panic on `none`. -/
def readStreamKey (file : HashFile) : Option (List UInt8) :=
  file.readToString.bind Hex.decode

/-! ## What a startup leaves behind -/

/-- A text that was written is read back. -/
theorem readToString_write (text : Text) : (HashFile.write text).readToString = some text :=
  Utf8.fromUtf8_encode text

/-- A key that was written in hexadecimal is read back. -/
theorem readStreamKey_keyFile (key : List UInt8) : readStreamKey (keyFile key) = some key := by
  rw [readStreamKey, keyFile, readToString_write, Option.bind_some, Hex.decode_encode]

/-- A text can always be printed. -/
theorem printStreamKey_encode (text : Text) :
    printStreamKey (Utf8.encode text) = some (keyMessage text) := by
  rw [printStreamKey, Utf8.fromUtf8_encode, Option.map_some]

/-- What is printed is the key, and only a text can be printed. -/
theorem printStreamKey_eq_some_iff {streamKey : List UInt8} {message : Text} :
    printStreamKey streamKey = some message ↔
      ∃ text, streamKey = Utf8.encode text ∧ message = keyMessage text := by
  rw [printStreamKey, Option.map_eq_some_iff]
  constructor
  · rintro ⟨text, htext, rfl⟩
    exact ⟨text, Utf8.fromUtf8_eq_some_iff.mp htext, rfl⟩
  · rintro ⟨text, rfl, rfl⟩
    exact ⟨text, Utf8.fromUtf8_encode text, rfl⟩

/-- A startup prints and writes one key, once each, unless the file held it before: then it only
prints it. -/
theorem startup_cases (streamKeyEnv : Option Text) (sample : KeySample) (file : HashFile) :
    (∃ text key, key = Utf8.encode text ∧
      (startup streamKeyEnv sample file = ⟨key, [.print key, .write key]⟩ ∨
        startup streamKeyEnv sample file = ⟨key, [.write key, .print key]⟩)) ∨
    ∃ key, readStreamKey file = some key ∧
      startup streamKeyEnv sample file = ⟨key, [.print key]⟩ := by
  have hstored : (∃ text key, key = Utf8.encode text ∧
      readStored sample file = ⟨key, [.write key, .print key]⟩) ∨
      ∃ key, readStreamKey file = some key ∧ readStored sample file = ⟨key, [.print key]⟩ := by
    unfold readStored
    split
    · exact .inl ⟨sample.text, _, rfl, rfl⟩
    · next text htext =>
      split
      · exact .inl ⟨sample.text, _, rfl, rfl⟩
      · next key hkey =>
        refine .inr ⟨key, ?_, rfl⟩
        rw [readStreamKey, htext, Option.bind_some, hkey]
  unfold startup
  split
  · exact hstored.imp (fun ⟨text, key, hkey, heq⟩ => ⟨text, key, hkey, .inr heq⟩) id
  · exact hstored.imp (fun ⟨text, key, hkey, heq⟩ => ⟨text, key, hkey, .inr heq⟩) id
  · next streamKey _ => exact .inl ⟨streamKey, _, rfl, .inl rfl⟩

/-- A startup with a key in the environment installs it, whatever was stored. -/
theorem readStreamKeyStartup_env (streamKey : Text) (h : streamKey ≠ []) (sample : KeySample)
    (file : HashFile) : readStreamKeyStartup (some streamKey) sample file =
      some ⟨Utf8.encode streamKey, keyFile (Utf8.encode streamKey), [keyMessage streamKey]⟩ := by
  cases streamKey with
  | nil => exact absurd rfl h
  | cons c streamKey =>
    simp only [readStreamKeyStartup, startup, runStatements, printStreamKey_encode]
    rfl

/-- After a startup that did not panic, the file holds the key that the startup returned, and that
is the key it has printed. -/
theorem started_of_startup {streamKeyEnv : Option Text} {sample : KeySample} {file : HashFile}
    {r : Started} (h : readStreamKeyStartup streamKeyEnv sample file = some r) :
    readStreamKey r.file = some r.key ∧
      ∃ text, r.key = Utf8.encode text ∧ r.printed = [keyMessage text] := by
  unfold readStreamKeyStartup at h
  rcases startup_cases streamKeyEnv sample file with
    ⟨text, _, rfl, heq | heq⟩ | ⟨key, hkey, heq⟩
  · simp only [heq, runStatements, printStreamKey_encode] at h
    obtain rfl := Option.some.inj h
    exact ⟨readStreamKey_keyFile _, text, rfl, rfl⟩
  · simp only [heq, runStatements, printStreamKey_encode] at h
    obtain rfl := Option.some.inj h
    exact ⟨readStreamKey_keyFile _, text, rfl, rfl⟩
  · simp only [heq, runStatements] at h
    cases hprint : printStreamKey key with
    | none =>
      rw [hprint] at h
      cases h
    | some message =>
      rw [hprint] at h
      obtain rfl := Option.some.inj h
      obtain ⟨text, htext, rfl⟩ := printStreamKey_eq_some_iff.mp hprint
      exact ⟨hkey, text, htext, rfl⟩

end Lightspeed.Ingest
