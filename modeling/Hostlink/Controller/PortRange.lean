import Hostlink.Controller.PortStores

/-! The range of public ports given at start-up. -/

namespace Hostlink.Controller

structure PortRange where
  lo : Nat
  hi : Nat
  deriving DecidableEq, Repr

def parsePort (s : String) : Except GoError Nat :=
  (Strconv.parseUint s 16).mapError (.wrap "parse port")

def parsePortRange (s : String) : Except GoError PortRange :=
  let parts := GoStrings.split s '-'
  if parts.length > 2 then .error (.new ("invalid port range \"" ++ s ++ "\""))
  else Except.mapError (.wrap ("parse port range \"" ++ s ++ "\"")) do
    let lo ← parsePort (parts.getD 0 "")
    let hi ← if parts.length = 2 then parsePort (parts.getD 1 "") else pure lo
    validatePortRange lo hi
    pure ⟨lo, hi⟩

def flagForwardPortRange : String := "forward-port-range"

/-- What `RegisterGRPCService` makes of the flag. Without a range port forwarding is disabled. -/
def forwardRange (forwardRangeRaw : String) : Except GoError (Option PortRange) :=
  if forwardRangeRaw ≠ "" then
    ((parsePortRange forwardRangeRaw).map some).mapError
      (.wrap ("controller: parse " ++ flagForwardPortRange))
  else .ok none

/-- The grammar of a range: one number, or two with a hyphen between them. -/
inductive RangeText : String → PortRange → Prop
  | single {a : String} : Strconv.IsDecimal a → RangeText a ⟨Strconv.value a, Strconv.value a⟩
  | pair {a b : String} : Strconv.IsDecimal a → Strconv.IsDecimal b →
      RangeText (a ++ "-" ++ b) ⟨Strconv.value a, Strconv.value b⟩

structure PortRange.Valid (r : PortRange) : Prop where
  pos : 1 ≤ r.lo
  ordered : r.lo ≤ r.hi
  bounded : r.hi ≤ maximumPublicPort

theorem parsePort_eq_ok_iff {s : String} {port : Nat} :
    parsePort s = .ok port ↔
      Strconv.IsDecimal s ∧ Strconv.value s = port ∧ port ≤ maximumPublicPort := by
  have hmax : port < 1 <<< 16 ↔ port ≤ maximumPublicPort := Nat.lt_succ_iff
  rw [parsePort, GoError.mapError_eq_ok, Strconv.parseUint_eq_ok_iff, hmax]

theorem validatePortRange_eq_ok_iff {r : PortRange} :
    validatePortRange r.lo r.hi = .ok () ↔ r.Valid := by
  unfold validatePortRange
  split
  · next hbad =>
    constructor
    · rintro ⟨⟩
    · rintro ⟨hpos, hordered, hbounded⟩
      omega
  · next hgood => exact ⟨fun _ => ⟨by omega, by omega, by omega⟩, fun _ => rfl⟩

def parseEnds (lo hi : Except GoError Nat) : Except GoError PortRange :=
  lo >>= fun lo => hi >>= fun hi => validatePortRange lo hi >>= fun _ => .ok ⟨lo, hi⟩

theorem parseEnds_eq_ok_iff {a b : String} {r : PortRange} :
    parseEnds (parsePort a) (parsePort b) = .ok r ↔ Strconv.IsDecimal a ∧ Strconv.IsDecimal b ∧
      r = ⟨Strconv.value a, Strconv.value b⟩ ∧ r.Valid := by
  simp only [parseEnds, GoError.bind_eq_ok]
  constructor
  · rintro ⟨lo, ha, hi, hb, u, hcheck, hr⟩
    obtain rfl : (⟨lo, hi⟩ : PortRange) = r := Except.ok.inj hr
    obtain ⟨hdecimal, rfl, -⟩ := parsePort_eq_ok_iff.mp ha
    obtain ⟨hdecimal', rfl, -⟩ := parsePort_eq_ok_iff.mp hb
    exact ⟨hdecimal, hdecimal', rfl, validatePortRange_eq_ok_iff.mp hcheck⟩
  · rintro ⟨ha, hb, rfl, hvalid⟩
    have hlo : Strconv.value a ≤ maximumPublicPort := Nat.le_trans hvalid.ordered hvalid.bounded
    have hparse : parsePort a = .ok (Strconv.value a) := parsePort_eq_ok_iff.mpr ⟨ha, rfl, hlo⟩
    have hparse' : parsePort b = .ok (Strconv.value b) :=
      parsePort_eq_ok_iff.mpr ⟨hb, rfl, hvalid.bounded⟩
    exact ⟨_, hparse, _, hparse', (), validatePortRange_eq_ok_iff.mpr hvalid, rfl⟩

theorem parsePortRange_of_pair {s a b : String} {r : PortRange}
    (h : GoStrings.split s '-' = [a, b]) :
    parsePortRange s = .ok r ↔ parseEnds (parsePort a) (parsePort b) = .ok r := by
  have hbody : parsePortRange s = (parseEnds (parsePort a) (parsePort b)).mapError
      (.wrap ("parse port range \"" ++ s ++ "\"")) := by
    rw [parsePortRange, h]
    rfl
  rw [hbody, GoError.mapError_eq_ok]

theorem parsePortRange_of_singleton {s a : String} {r : PortRange}
    (h : GoStrings.split s '-' = [a]) :
    parsePortRange s = .ok r ↔ parseEnds (parsePort a) (parsePort a) = .ok r := by
  have hbody : parsePortRange s = (parseEnds (parsePort a) (parsePort a)).mapError
      (.wrap ("parse port range \"" ++ s ++ "\"")) := by
    rw [parsePortRange, h]
    cases hport : parsePort a with
    | error err =>
      simp only [List.getD_cons_zero, hport]
      rfl
    | ok port =>
      simp only [List.getD_cons_zero, hport]
      rfl
  rw [hbody, GoError.mapError_eq_ok]

theorem parsePortRange_eq_ok_iff (s : String) (r : PortRange) :
    parsePortRange s = .ok r ↔ RangeText s r ∧ r.Valid := by
  constructor
  · intro h
    match hparts : GoStrings.split s '-' with
    | [] => exact absurd hparts (GoStrings.split_ne_nil s '-')
    | [a] =>
      obtain rfl := GoStrings.eq_of_split_singleton hparts
      rw [parsePortRange_of_singleton hparts, parseEnds_eq_ok_iff] at h
      obtain ⟨ha, -, rfl, hvalid⟩ := h
      exact ⟨.single ha, hvalid⟩
    | [a, b] =>
      obtain rfl := GoStrings.eq_of_split_pair hparts
      rw [parsePortRange_of_pair hparts, parseEnds_eq_ok_iff] at h
      obtain ⟨ha, hb, rfl, hvalid⟩ := h
      exact ⟨.pair ha hb, hvalid⟩
    | _ :: _ :: _ :: rest =>
      rw [parsePortRange, hparts, if_pos (by simp)] at h
      cases h
  · rintro ⟨htext, hvalid⟩
    have hhyphen : '-'.isDigit = false := rfl
    cases htext with
    | single ha =>
      rw [parsePortRange_of_singleton (GoStrings.split_eq_singleton (ha.not_mem hhyphen)),
        parseEnds_eq_ok_iff]
      exact ⟨ha, ha, rfl, hvalid⟩
    | pair ha hb =>
      have hsplit := GoStrings.split_append (ha.not_mem hhyphen) (hb.not_mem hhyphen)
      apply (parsePortRange_of_pair hsplit).mpr
      rw [parseEnds_eq_ok_iff]
      exact ⟨ha, hb, rfl, hvalid⟩

structure PortRange.Passes (r : PortRange) : Prop where
  validated : validatePortRange r.lo r.hi = .ok ()
  mem : ∀ (store : MemPortStore) (mapping : PortMapping),
    (store.allocate r.lo r.hi mapping).1 = store.firstFree r.hi (r.hi + 1 - r.lo) r.lo
  redis : ∀ mapping : PortMapping, RedisPortStore.allocate r.lo r.hi mapping =
    RedisPortStore.scanPorts mapping.marshal r.hi (r.hi + 1 - r.lo) r.lo

theorem PortRange.Valid.passes {r : PortRange} (h : r.Valid) : r.Passes := by
  have hcheck : validatePortRange r.lo r.hi = .ok () := validatePortRange_eq_ok_iff.mpr h
  refine ⟨hcheck, fun store mapping => ?_, fun mapping => ?_⟩
  · rw [MemPortStore.allocate, hcheck]
    dsimp only
    split
    · next port hfree => exact hfree.symm
    · next err hfree => exact hfree.symm
  · rw [RedisPortStore.allocate, hcheck]

theorem forwardRange_accepted {raw : String} {r : PortRange} (h : forwardRange raw = .ok (some r)) :
    r.Valid := by
  unfold forwardRange at h
  split at h
  · rw [GoError.mapError_eq_ok] at h
    cases hparse : parsePortRange raw with
    | error err =>
      rw [hparse] at h
      cases h
    | ok range =>
      rw [hparse] at h
      obtain rfl : range = r := Option.some.inj (Except.ok.inj h)
      exact ((parsePortRange_eq_ok_iff raw range).mp hparse).2
  · cases h

/-- The grammar decides which ranges are accepted and what they are, and what is accepted at
start-up is never refused by a store later. -/
theorem port_range_grammar (s : String) :
    (∀ r, parsePortRange s = .ok r ↔ RangeText s r ∧ r.Valid) ∧
      ∀ r, forwardRange s = .ok (some r) → r.Passes :=
  ⟨parsePortRange_eq_ok_iff s, fun _ h => (forwardRange_accepted h).passes⟩

theorem port_range_grammar_leading_zeros :
    RangeText "0080-65535" ⟨80, 65535⟩ ∧ PortRange.Passes ⟨80, 65535⟩ := by
  have hspec := port_range_grammar "0080-65535"
  exact ⟨((hspec.1 _).mp rfl).1, hspec.2 _ rfl⟩

end Hostlink.Controller
