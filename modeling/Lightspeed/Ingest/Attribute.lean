import Lightspeed.Ingest.Connection
import Lightspeed.Ingest.Grammar

/-!
# Attribute lines

A client sends an attribute as `key: value`. The key is one of the names `handle_command` knows,
and none of these has a keyword of the decoder or a colon in it; the value is free text. It comes
back as it was sent unless it has a colon, at which it is cut, or one of the keywords, for which
the whole line is taken (`decode_attribute_iff`).
-/

namespace Lightspeed.Ingest

/-- The line for an attribute. -/
def attributeText (key value : Text) : Text := key ++ ':' :: ' ' :: value

/-! ## The keys -/

/-- The keys that an attribute of the protocol can have. -/
def attributeKeys : List Text :=
  ["ProtocolVersion".toList, "VendorName".toList, "VendorVersion".toList, "Video".toList,
    "VideoCodec".toList, "VideoHeight".toList, "VideoWidth".toList, "VideoPayloadType".toList,
    "VideoIngestSSRC".toList, "Audio".toList, "AudioCodec".toList, "AudioPayloadType".toList,
    "AudioIngestSSRC".toList]

/-- Those whose value is `true` or `false`. -/
def booleanKeys : List Text := ["Video".toList, "Audio".toList]

namespace AttributeKey

theorem name_lacks (k : AttributeKey) : ¬"HMAC".toList <:+: k.name ∧
    ¬"CONNECT".toList <:+: k.name ∧ ¬FtlCodec.crlf2 <:+: k.name ∧ ':' ∉ k.name := by
  cases k <;> decide

theorem name_eq_of_ofName {key : Text} {k : AttributeKey} (h : ofName key = some k) :
    k.name = key := by
  have hfound := List.find?_some h
  exact of_decide_eq_true hfound

theorem name_inj {k k' : AttributeKey} : k.name = k'.name ↔ k = k' := by
  constructor
  · intro h
    have hof : ofName k.name = ofName k'.name := congrArg ofName h
    rw [ofName_name, ofName_name] at hof
    exact Option.some.inj hof
  · rintro rfl
    rfl

/-- `handle_command` has an arm for every key of the protocol and for no other. -/
theorem mem_attributeKeys {key : Text} :
    key ∈ attributeKeys ↔ ∃ k : AttributeKey, k.name = key := by
  have hkeys : attributeKeys = all.map name := rfl
  have hall (k : AttributeKey) : k ∈ all := by cases k <;> decide
  rw [hkeys, List.mem_map]
  constructor
  · rintro ⟨k, -, hk⟩
    exact ⟨k, hk⟩
  · rintro ⟨k, hk⟩
    exact ⟨k, hall k, hk⟩

theorem not_mem_of_ofName {key : Text} (h : ofName key = none) : key ∉ attributeKeys := by
  intro hkey
  obtain ⟨k, rfl⟩ := mem_attributeKeys.mp hkey
  rw [ofName_name] at h
  cases h

theorem name_mem_booleanKeys (k : AttributeKey) : k.name ∈ booleanKeys ↔ k.isBool = true := by
  cases k <;> decide

theorem exists_of_mem_booleanKeys {key : Text} (h : key ∈ booleanKeys) :
    ∃ k : AttributeKey, k.name = key := by
  have hsub : booleanKeys ⊆ attributeKeys := by decide
  exact mem_attributeKeys.mp (hsub h)

end AttributeKey

variable {k : AttributeKey} {value pat : Text}

/-! ## What is in such a line -/

/-- What is not in the key is in the line where it is in the value, or around the colon. -/
theorem infix_attributeText_iff (hcolon : ':' ∉ pat) (hblank : ' ' ∉ pat) (hne : pat ≠ [])
    {key : Text} (hkey : ¬pat <:+: key) : pat <:+: attributeText key value ↔ pat <:+: value := by
  constructor
  · intro h
    rcases Str.infix_append_cons hcolon h with h | h
    · exact absurd h hkey
    · rcases Str.infix_append_cons (s := []) hblank h with h | h
      · exact absurd (List.infix_nil.mp h) hne
      · exact h
  · intro h
    exact h.trans ⟨key ++ [':', ' '], [], by simp [attributeText]⟩

theorem hmac_infix_attributeText_iff :
    "HMAC".toList <:+: attributeText k.name value ↔ "HMAC".toList <:+: value :=
  infix_attributeText_iff (by decide) (by decide) (by decide) k.name_lacks.1

theorem connect_infix_attributeText_iff :
    "CONNECT".toList <:+: attributeText k.name value ↔ "CONNECT".toList <:+: value :=
  infix_attributeText_iff (by decide) (by decide) (by decide) k.name_lacks.2.1

/-- A line does not end with a part of the delimiter, as its value is trimmed. -/
theorem framed_attributeText (htrim : Str.trim value = value)
    (hvalue : ¬FtlCodec.crlf2 <:+: value) : FtlCodec.Framed (attributeText k.name value) := by
  have hline : ¬FtlCodec.crlf2 <:+: attributeText k.name value := by
    rwa [infix_attributeText_iff (by decide) (by decide) (by decide) k.name_lacks.2.2.1]
  refine FtlCodec.framed_of_not_infix hline ?_
  intro c hlast hc
  rw [attributeText, List.getLast?_append, List.getLast?_cons, List.getLast?_cons,
    Option.getD_some, Option.some_or, Option.some.injEq] at hlast
  have hwhite : (FtlCodec.crlf2.all fun d => Str.isWhitespace d && d != ' ') = true := by decide
  have hc' := List.all_eq_true.mp hwhite c hc
  rw [Bool.and_eq_true, bne_iff_ne] at hc'
  cases hend : value.getLast? with
  | none =>
    rw [hend] at hlast
    exact hc'.2 hlast.symm
  | some d =>
    rw [hend] at hlast
    obtain rfl : d = c := hlast
    rw [Str.isWhitespace_of_trim_eq htrim hend] at hc'
    cases hc'.1

/-! ## What it is parsed to -/

/-- Without a keyword in the value, the value is what stands before its first colon. -/
theorem parse_attributeText (hhmac : ¬"HMAC".toList <:+: value)
    (hconnect : ¬"CONNECT".toList <:+: value) :
    FtlCodec.parse (attributeText k.name value) = .command (.attribute
      (FtlCodec.attributeData k.name (Str.trim (FtlCodec.upToColon (' ' :: value))))) := by
  have hkeyword : FtlCodec.NoKeyword (attributeText k.name value) := by
    constructor
    · rwa [hmac_infix_attributeText_iff]
    · rwa [connect_infix_attributeText_iff]
  have hcolon : ':' ∈ attributeText k.name value := by simp [attributeText]
  rw [hkeyword.parse_eq, if_pos hcolon, attributeText,
    FtlCodec.parseAttribute_append_cons k.name_lacks.2.2.2]

theorem trim_upToColon (hcolon : ':' ∉ value) (htrim : Str.trim value = value) :
    Str.trim (FtlCodec.upToColon (' ' :: value)) = value := by
  rw [FtlCodec.upToColon_of_not_mem, Str.trim_cons (by decide), htrim]
  rw [List.mem_cons, not_or]
  exact ⟨by decide, hcolon⟩

/-- A value that was cut at a colon has none. -/
theorem not_mem_trim_upToColon (text : Text) : ':' ∉ Str.trim (FtlCodec.upToColon text) := by
  intro h
  have hdrop := (List.rdropWhile_prefix _ _).subset h
  have htake := (List.dropWhile_suffix _).subset hdrop
  have hne := List.mem_takeWhile_imp htake
  rw [decide_eq_true_eq] at hne
  exact hne rfl

theorem attributeData_injective {key value value' : Text}
    (h : FtlCodec.attributeData key value = FtlCodec.attributeData key value') :
    value = value' := by
  have hlookup := congrArg (AList.lookup "value".toList) h
  rw [FtlCodec.attributeData, FtlCodec.attributeData, AList.lookup_insert, AList.lookup_insert]
    at hlookup
  exact Option.some.inj hlookup

theorem parse_attributeText_iff (htrim : Str.trim value = value) :
    FtlCodec.parse (attributeText k.name value) =
        .command (.attribute (FtlCodec.attributeData k.name value)) ↔
      ':' ∉ value ∧ ¬"HMAC".toList <:+: value ∧ ¬"CONNECT".toList <:+: value := by
  constructor
  · intro h
    have hkeyword := FtlCodec.noKeyword_of_attribute h
    have hhmac : ¬"HMAC".toList <:+: value := by
      rw [← hmac_infix_attributeText_iff (k := k)]
      exact hkeyword.hmac
    have hconnect : ¬"CONNECT".toList <:+: value := by
      rw [← connect_infix_attributeText_iff (k := k)]
      exact hkeyword.connect
    refine ⟨?_, hhmac, hconnect⟩
    -- what was decoded is the value up to its first colon
    rw [parse_attributeText hhmac hconnect] at h
    have hvalue := attributeData_injective
      (FtlCommand.attribute.inj (FtlCodec.Outcome.command.inj h))
    rw [← hvalue]
    exact not_mem_trim_upToColon _
  · rintro ⟨hcolon, hhmac, hconnect⟩
    rw [parse_attributeText hhmac hconnect, trim_upToColon hcolon htrim]

/-! ## The round trip -/

/-- The line is found and consumed whatever its value, so that all depends on the parsing. -/
theorem decode_attributeText_iff (self : FtlCodec) (htrim : Str.trim value = value)
    (hvalue : ¬FtlCodec.crlf2 <:+: value) (rest : List UInt8) (c : FtlCommand) :
    self.decode (FtlCodec.wire (attributeText k.name value) ++ rest) =
        some (.command c, self.reset, rest) ↔
      FtlCodec.parse (attributeText k.name value) = .command c := by
  rw [FtlCodec.decode_wire self (framed_attributeText htrim hvalue)]
  constructor
  · intro h
    rw [Option.some.injEq, Prod.mk.injEq] at h
    exact h.1
  · intro h
    rw [h]
    rfl

/-- **Which attributes come back as they were sent.** A value without surrounding whitespace and
without the delimiter in it is decoded as it was sent, and nothing but its line is consumed,
exactly if it has no colon and neither of the keywords `HMAC` and `CONNECT` in it. -/
theorem decode_attribute_iff (self : FtlCodec) (k : AttributeKey) {value : Text}
    (htrim : Str.trim value = value) (hvalue : ¬FtlCodec.crlf2 <:+: value)
    (rest : List UInt8) :
    self.decode (FtlCodec.wire (attributeText k.name value) ++ rest) =
        some (.command (.attribute (FtlCodec.attributeData k.name value)), self.reset, rest) ↔
      ':' ∉ value ∧ ¬"HMAC".toList <:+: value ∧ ¬"CONNECT".toList <:+: value := by
  rw [decode_attributeText_iff self htrim hvalue, parse_attributeText_iff htrim]

/-- A version number comes back, whatever follows. -/
theorem decode_attribute_iff_version :
    FtlCodec.new.decode
        (FtlCodec.wire (attributeText AttributeKey.vendorVersion.name "0.1.0".toList) ++ [80]) =
      some (.command (.attribute (FtlCodec.attributeData AttributeKey.vendorVersion.name
        "0.1.0".toList)), FtlCodec.new.reset, [80]) :=
  (decode_attribute_iff .new .vendorVersion (by decide) (by decide) [80]).mpr
    ⟨by decide, by decide, by decide⟩

/-- A vendor name with a colon is cut at it. -/
theorem attribute_value_cut :
    ¬∀ (self : FtlCodec) (k : AttributeKey) (value : Text) (rest : List UInt8),
      Str.trim value = value → ¬FtlCodec.crlf2 <:+: value →
      self.decode (FtlCodec.wire (attributeText k.name value) ++ rest) =
        some (.command (.attribute (FtlCodec.attributeData k.name value)), self.reset, rest) := by
  intro h
  have htrim : Str.trim "OBS: Studio".toList = "OBS: Studio".toList := by decide
  have hvalue : ¬FtlCodec.crlf2 <:+: "OBS: Studio".toList := by decide
  have hback := h .new .vendorName "OBS: Studio".toList [] htrim hvalue
  rw [decode_attributeText_iff .new htrim hvalue, parse_attributeText_iff htrim] at hback
  exact absurd hback.1 (by decide)

end Lightspeed.Ingest
