import Lightspeed.Decimal

/-!
# The settings of a peer connection

`createWebrtcApi` and the head of `websocketHandler` read three flags of `webrtc/main.go`. The port
range is accepted exactly when it is two port numbers with a dash between them, in either order
(`createWebrtcApi_eq_some`); anything else is a panic in the handler of every viewer. The ICE
servers are the pieces of their flag between commas, and an address for NAT is set only where there
are none (`settings_of_flags`).
-/

namespace Lightspeed.Hub

open Decimal

/-- The flags of `webrtc/main.go` that configure peer connections. -/
structure Flags where
  /-- `-ip` -/
  ip : List UInt8
  /-- `-ports` -/
  ports : List UInt8
  /-- `-ice-servers` -/
  iceSrv : List UInt8
deriving DecidableEq, Repr

/-- `none`, the value of a flag that is not set. -/
def noneFlag : List UInt8 := [0x6E, 0x6F, 0x6E, 0x65]

/-- What `createWebrtcApi` asks of the `webrtc.SettingEngine`. -/
structure SettingEngine where
  /-- The addresses of `SetNAT1To1IPs(…, webrtc.ICECandidateTypeHost)`, if it is called. -/
  nat1To1IPs : Option (List (List UInt8))
  /-- The arguments of `SetEphemeralUDPPortRange`, whose error is not looked at. -/
  portLow : ℕ
  portHigh : ℕ
deriving DecidableEq, Repr

/-- `strings.SplitN(s, sep, 2)`, for a separator of one byte. -/
def splitN2 (s : List UInt8) (sep : UInt8) : List (List UInt8) :=
  if sep ∈ s then [s.takeWhile (· != sep), (s.dropWhile (· != sep)).tail] else [s]

/-- An address for NAT is set if one is given, and only if no ICE servers are. -/
def nat1To1IPs (f : Flags) : Option (List (List UInt8)) :=
  if f.ip ≠ noneFlag ∧ f.iceSrv = noneFlag then some [f.ip] else none

/-- `createWebrtcApi`, `none` where it panics: a port that `strconv.ParseUint(…, 10, 16)` rejects,
or `pr[1]` of a range without a dash. -/
def createWebrtcApi (f : Flags) : Option SettingEngine := do
  let pr := splitN2 f.ports 0x2D
  let prLow ← parseUint 65535 (← pr[0]?)
  let prHigh ← parseUint 65535 (← pr[1]?)
  return { nat1To1IPs := nat1To1IPs f, portLow := prLow, portHigh := prHigh }

/-- The `ICEServers` of the configuration, each with its URLs. -/
def iceServers (f : Flags) : List (List (List UInt8)) :=
  if f.iceSrv ≠ noneFlag then (f.iceSrv.splitOn 0x2C).map ([·]) else []

/-! ## Port ranges -/

/-- `t` is the port number `n` in digits. -/
def IsPort (t : List UInt8) (n : ℕ) : Prop :=
  t ≠ [] ∧ (∀ b ∈ t, isDigit b = true) ∧ value t = n ∧ n ≤ 65535

theorem isPort_encode {n : ℕ} (h : n ≤ 65535) : IsPort (encode n) n :=
  ⟨encode_ne_nil n, fun _ => isDigit_of_mem_encode, value_encode n, h⟩

theorem dash_notMem {t : List UInt8} {n : ℕ} (h : IsPort t n) : 0x2D ∉ t := by
  intro hmem
  have hdigit : isDigit 0x2D = true := h.2.1 _ hmem
  exact absurd hdigit (by decide)

theorem splitN2_of_notMem {lo hi : List UInt8} {sep : UInt8} (h : sep ∉ lo) :
    splitN2 (lo ++ sep :: hi) sep = [lo, hi] := by
  have hlo : ∀ b ∈ lo, (b != sep) = true := by
    intro b hb
    rw [bne_iff_ne]
    rintro rfl
    exact h hb
  rw [splitN2, if_pos (by simp), List.takeWhile_append_of_pos hlo,
    List.dropWhile_append_of_pos hlo, List.takeWhile_cons_of_neg (by simp),
    List.dropWhile_cons_of_neg (by simp), List.append_nil, List.tail_cons]

theorem createWebrtcApi_of_ports {f : Flags} {a b : List UInt8} (h : f.ports = a ++ 0x2D :: b)
    (ha : 0x2D ∉ a) :
    createWebrtcApi f = (parseUint 65535 a).bind fun lo => (parseUint 65535 b).bind fun hi =>
      some { nat1To1IPs := nat1To1IPs f, portLow := lo, portHigh := hi } := by
  rw [createWebrtcApi, h, splitN2_of_notMem ha]
  rfl

theorem createWebrtcApi_of_notMem {f : Flags} (h : 0x2D ∉ f.ports) : createWebrtcApi f = none := by
  rw [createWebrtcApi, splitN2, if_neg h]
  show (parseUint 65535 f.ports).bind (fun _ => none) = none
  cases parseUint 65535 f.ports <;> rfl

/-- The order of the two ports is not looked at. -/
theorem createWebrtcApi_eq_some {f : Flags} {s : SettingEngine} :
    createWebrtcApi f = some s ↔
      (∃ a b, f.ports = a ++ 0x2D :: b ∧ IsPort a s.portLow ∧ IsPort b s.portHigh) ∧
        s.nat1To1IPs = nat1To1IPs f := by
  constructor
  · intro h
    by_cases hmem : 0x2D ∈ f.ports
    · obtain ⟨a, b, hports, ha⟩ := List.eq_append_cons_of_mem hmem
      rw [createWebrtcApi_of_ports hports ha] at h
      obtain ⟨lo, hlo, h⟩ := Option.bind_eq_some_iff.mp h
      obtain ⟨hi, hhi, h⟩ := Option.bind_eq_some_iff.mp h
      obtain rfl := Option.some.inj h
      exact ⟨⟨a, b, hports, parseUint_eq_some.mp hlo, parseUint_eq_some.mp hhi⟩, rfl⟩
    · rw [createWebrtcApi_of_notMem hmem] at h
      cases h
  · rintro ⟨⟨a, b, hports, hlo, hhi⟩, hnat⟩
    rw [createWebrtcApi_of_ports hports (dash_notMem hlo), parseUint_eq_some.mpr hlo,
      parseUint_eq_some.mpr hhi, Option.bind_some, Option.bind_some, ← hnat]

/-- A range as `strconv` writes it is read back, also where its ends are the wrong way round. -/
theorem createWebrtcApi_encode {f : Flags} {lo hi : ℕ} (hlo : lo ≤ 65535) (hhi : hi ≤ 65535)
    (h : f.ports = encode lo ++ 0x2D :: encode hi) :
    createWebrtcApi f =
      some { nat1To1IPs := nat1To1IPs f, portLow := lo, portHigh := hi } :=
  createWebrtcApi_eq_some.mpr ⟨⟨_, _, h, isPort_encode hlo, isPort_encode hhi⟩, rfl⟩

/-! ## ICE servers -/

/-- No piece holds the separator. -/
theorem notMem_of_mem_splitOn {s piece : List UInt8} {sep : UInt8} (h : piece ∈ s.splitOn sep) :
    sep ∉ piece := by
  induction s generalizing piece with
  | nil =>
    rw [List.splitOn_nil, List.mem_singleton] at h
    exact h ▸ List.not_mem_nil
  | cons b s ih =>
    rw [List.splitOn_cons_eq_if_modifyHead] at h
    by_cases hb : (b == sep) = true
    · rw [if_pos hb, List.mem_cons] at h
      obtain rfl | h := h
      · exact List.not_mem_nil
      · exact ih h
    · rw [if_neg hb] at h
      obtain ⟨r, rs, hr⟩ := List.exists_cons_of_ne_nil (List.splitOn_ne_nil sep s)
      rw [hr, List.modifyHead_cons, List.mem_cons] at h
      obtain rfl | h := h
      · have hrest := ih (hr ▸ List.mem_cons_self)
        rw [List.mem_cons, not_or]
        exact ⟨fun heq => hb (by simp [heq]), hrest⟩
      · exact ih (hr ▸ List.mem_cons_of_mem _ h)

/-- The list of servers is the flag without its commas. -/
theorem intercalate_iceServers {f : Flags} (h : f.iceSrv ≠ noneFlag) :
    [0x2C].intercalate (iceServers f).flatten = f.iceSrv := by
  have hflatten : ((f.iceSrv.splitOn 0x2C).map ([·])).flatten = f.iceSrv.splitOn 0x2C :=
    List.flatMap_singleton' _
  rw [iceServers, if_pos h, hflatten, List.intercalate_splitOn]

theorem eq_singleton_of_mem_iceServers {f : Flags} {urls : List (List UInt8)}
    (h : urls ∈ iceServers f) : ∃ url, urls = [url] ∧ 0x2C ∉ url := by
  by_cases hsrv : f.iceSrv = noneFlag
  · rw [iceServers, if_neg (not_not_intro hsrv)] at h
    cases h
  · rw [iceServers, if_pos hsrv, List.mem_map] at h
    obtain ⟨url, hurl, rfl⟩ := h
    exact ⟨url, rfl, notMem_of_mem_splitOn hurl⟩

/-! ## Main theorem -/

/-- What a viewer's connection is set up with, for every setting of the flags: the handler panics
unless the range is two port numbers with a dash between them; no connection has both an address
for NAT and ICE servers; the servers are the flag, cut at its commas, unless it is `none`; and each
server has one URL. -/
theorem settings_of_flags (f : Flags) (s : SettingEngine) :
    (createWebrtcApi f = some s ↔
      (∃ a b, f.ports = a ++ 0x2D :: b ∧ IsPort a s.portLow ∧ IsPort b s.portHigh) ∧
        s.nat1To1IPs = nat1To1IPs f) ∧
    (nat1To1IPs f = none ∨ iceServers f = []) ∧
    (f.iceSrv = noneFlag ∨ [0x2C].intercalate (iceServers f).flatten = f.iceSrv) ∧
    ∀ urls ∈ iceServers f, ∃ url, urls = [url] ∧ 0x2C ∉ url := by
  refine ⟨createWebrtcApi_eq_some, ?_, ?_, fun urls => eq_singleton_of_mem_iceServers⟩
  · by_cases hsrv : f.iceSrv = noneFlag
    · exact Or.inr (if_neg (not_not_intro hsrv))
    · exact Or.inl (if_neg fun h => hsrv h.2)
  · by_cases hsrv : f.iceSrv = noneFlag
    · exact Or.inl hsrv
    · exact Or.inr (intercalate_iceServers hsrv)

end Lightspeed.Hub
