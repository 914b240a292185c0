import Hostlink.Controller.ContainerEvents
import Hostlink.Lib.GoSort

/-! The targets of forwarded ports: what a request may name, and what a restarted container makes
of it. -/

namespace Hostlink.Controller

def validForwardTarget (target : String) : Bool :=
  match GoNet.splitHostPort target with
  | .error _ => false
  | .ok (host, portText) =>
    if host = "" ∨ portText = "" then false
    else match Strconv.parseUint portText 16 with
      | .error _ => false
      | .ok port => port ≠ 0

structure PortText (portText : String) : Prop where
  decimal : Strconv.IsDecimal portText
  pos : Strconv.value portText ≠ 0
  bounded : Strconv.value portText < 1 <<< 16

theorem validForwardTarget_iff {target : String} : validForwardTarget target = true ↔
    ∃ host portText, GoNet.splitHostPort target = .ok (host, portText) ∧ host ≠ "" ∧
      PortText portText := by
  unfold validForwardTarget
  constructor
  · intro h
    split at h
    · cases h
    · next host portText hsplit =>
      split at h
      · cases h
      · next hne =>
        split at h
        · cases h
        · next port hport =>
          obtain ⟨hdecimal, rfl, hlt⟩ := Strconv.parseUint_eq_ok_iff.mp hport
          exact ⟨host, portText, hsplit, fun he => hne (.inl he), hdecimal, by simpa using h, hlt⟩
  · rintro ⟨host, portText, hsplit, hhost, htext⟩
    have hport := Strconv.parseUint_eq_ok_iff.mpr ⟨htext.decimal, rfl, htext.bounded⟩
    simp [hsplit, hhost, htext.decimal.ne_empty, hport, htext.pos]

theorem PortText.splitHostPort {portText ip : String} (h : PortText portText)
    (hip : GoNet.NoBrackets ip) :
    GoNet.splitHostPort (GoNet.joinHostPort ip portText) = .ok (ip, portText) := by
  have hbrackets : GoNet.NoBrackets portText := ⟨h.decimal.not_mem rfl, h.decimal.not_mem rfl⟩
  exact GoNet.splitHostPort_joinHostPort hip hbrackets (h.decimal.not_mem rfl)

theorem PortText.valid {portText ip : String} (h : PortText portText)
    (hip : GoNet.NoBrackets ip) (hne : ip ≠ "") :
    validForwardTarget (GoNet.joinHostPort ip portText) = true :=
  validForwardTarget_iff.mpr ⟨ip, portText, h.splitHostPort hip, hne, h⟩

/-! ### The address of a restarted container -/

structure Ranges (m : GoMap String String) (networks : Networks) : Prop where
  keys : m.Iteration (networks.map Prod.fst)
  values : ∀ network ∈ networks, m.get network.1 = some network.2

def firstAddress (names : List String) (address : String → Option String) : String :=
  ((names.insertionSort (· ≤ ·)).findSome? fun name => (address name).filter (· ≠ "")).getD ""

theorem pickNetworkIP_eq (networks : Networks) (oldHost : String) :
    pickNetworkIP networks oldHost = if networks.any (·.2 = oldHost) then oldHost
      else firstAddress (networks.map Prod.fst) fun name => networks.lookup name := by
  unfold pickNetworkIP
  split
  · rfl
  · split
    · next _ ip _ =>
      by_cases hip : ip = ""
      · subst hip
        simp [firstAddress]
      · simp [firstAddress, hip, Option.filter]
    · rfl

theorem firstAddress_perm {names names' : List String} (h : names.Perm names')
    (address : String → Option String) :
    firstAddress names address = firstAddress names' address := by
  have hsorted : names.insertionSort (· ≤ ·) = names'.insertionSort (· ≤ ·) :=
    List.insertionSort_eq_of_perm h fun _ _ _ _ => le_antisymm
  rw [firstAddress, hsorted, firstAddress]

theorem firstAddress_of_ne {names : List String} {address : String → Option String}
    (h : firstAddress names address ≠ "") :
    ∃ name ∈ names, address name = some (firstAddress names address) := by
  unfold firstAddress at h ⊢
  cases hfind : (names.insertionSort (· ≤ ·)).findSome? fun name =>
      (address name).filter (· ≠ "") with
  | none =>
    rw [hfind] at h
    exact absurd rfl h
  | some ip =>
    obtain ⟨name, hmem, hip⟩ := List.exists_of_findSome?_eq_some hfind
    rw [(List.perm_insertionSort _ names).mem_iff] at hmem
    exact ⟨name, hmem, (Option.filter_eq_some_iff.mp hip).1⟩

theorem firstAddress_eq_empty {names : List String} {address : String → Option String}
    (h : firstAddress names address = "") {name ip : String} (hname : name ∈ names)
    (hip : address name = some ip) : ip = "" := by
  unfold firstAddress at h
  cases hfind : (names.insertionSort (· ≤ ·)).findSome? fun name =>
      (address name).filter (· ≠ "") with
  | none =>
    have hmem : name ∈ names.insertionSort (· ≤ ·) :=
      (List.perm_insertionSort _ names).mem_iff.mpr hname
    have hfilter := List.findSome?_eq_none_iff.mp hfind name hmem
    have hempty := Option.filter_eq_none_iff.mp hfilter ip hip
    simpa using hempty
  | some found =>
    obtain ⟨_, -, hfound⟩ := List.exists_of_findSome?_eq_some hfind
    have hne : found ≠ "" := by simpa using (Option.filter_eq_some_iff.mp hfound).2
    rw [hfind] at h
    exact absurd h hne

namespace Ranges
variable {m : GoMap String String} {networks networks' : Networks}

theorem lookup (h : Ranges m networks) (name : String) : networks.lookup name = m.get name := by
  cases hfound : networks.lookup name with
  | none =>
    have habsent : name ∉ networks.map Prod.fst := by
      intro hmem
      obtain ⟨network, hnetwork, rfl⟩ := List.mem_map.mp hmem
      have hne := List.lookup_eq_none_iff.mp hfound network hnetwork
      simp at hne
    rw [h.keys.visits, not_not] at habsent
    exact habsent.symm
  | some ip =>
    obtain ⟨before, after, hsplit, -⟩ := List.lookup_eq_some_iff.mp hfound
    exact (h.values (name, ip) (by simp [hsplit])).symm

theorem any_iff (h : Ranges m networks) (host : String) :
    networks.any (·.2 = host) = true ↔ ∃ name, m.get name = some host := by
  rw [List.any_eq_true]
  constructor
  · rintro ⟨network, hmem, hhost⟩
    have hip : network.2 = host := by simpa using hhost
    exact ⟨network.1, hip ▸ h.values network hmem⟩
  · rintro ⟨name, hget⟩
    obtain ⟨network, hmem, rfl⟩ := List.mem_map.mp (h.keys.mem_of_get hget)
    have hip : some network.2 = some host := (h.values network hmem).symm.trans hget
    exact ⟨network, hmem, by simpa using Option.some.inj hip⟩

theorem pickNetworkIP_eq (h : Ranges m networks) (oldHost : String) :
    pickNetworkIP networks oldHost = if networks.any (·.2 = oldHost) then oldHost
      else firstAddress (networks.map Prod.fst) m.get := by
  have haddress : (fun name => networks.lookup name) = m.get := funext h.lookup
  rw [Controller.pickNetworkIP_eq, haddress]

theorem pickNetworkIP_order (h : Ranges m networks) (h' : Ranges m networks') (oldHost : String) :
    pickNetworkIP networks oldHost = pickNetworkIP networks' oldHost := by
  have hany : networks.any (·.2 = oldHost) = networks'.any (·.2 = oldHost) := by
    rw [Bool.eq_iff_iff, h.any_iff, h'.any_iff]
  have hperm : (networks.map Prod.fst).Perm (networks'.map Prod.fst) := by
    apply (List.perm_ext_iff_of_nodup h.keys.nodup h'.keys.nodup).mpr
    intro name
    rw [h.keys.visits, h'.keys.visits]
  rw [h.pickNetworkIP_eq, h'.pickNetworkIP_eq, hany, firstAddress_perm hperm]

end Ranges

def rangeOf (m : GoMap String String) : Networks := m.present.map fun name => (name, (m.get name).getD "")

theorem ranges_rangeOf (m : GoMap String String) : Ranges m (rangeOf m) := by
  have hkeys : (rangeOf m).map Prod.fst = m.present := by
    rw [rangeOf, List.map_map]
    exact List.map_id'' (fun _ => rfl) _
  refine ⟨⟨hkeys ▸ m.nodup_present, fun name => ?_⟩, fun network hmem => ?_⟩
  · rw [hkeys, GoMap.mem_present]
  · obtain ⟨name, hname, rfl⟩ := List.mem_map.mp hmem
    obtain ⟨ip, hip⟩ := Option.ne_none_iff_exists'.mp (GoMap.mem_present.mp hname)
    simp [hip]

structure Chosen (m : GoMap String String) (oldHost ip : String) : Prop where
  kept : (∃ name, m.get name = some oldHost) → ip = oldHost
  found : (¬ ∃ name, m.get name = some oldHost) → (∃ name a, m.get name = some a ∧ a ≠ "") →
    ip ≠ "" ∧ ∃ name, m.get name = some ip
  unavailable : (¬ ∃ name, m.get name = some oldHost) → (∀ name a, m.get name = some a → a = "") →
    ip = ""

theorem Ranges.chosen {m : GoMap String String} {networks : Networks} (h : Ranges m networks)
    (oldHost : String) : Chosen m oldHost (pickNetworkIP networks oldHost) := by
  have hpick := h.pickNetworkIP_eq oldHost
  by_cases hold : ∃ name, m.get name = some oldHost
  · rw [if_pos ((h.any_iff oldHost).mpr hold)] at hpick
    exact ⟨fun _ => hpick, fun hnot => absurd hold hnot, fun hnot => absurd hold hnot⟩
  · rw [if_neg (mt (h.any_iff oldHost).mp hold)] at hpick
    rw [hpick]
    refine ⟨fun hex => absurd hex hold, fun _ hex => ?_, fun _ hempty => ?_⟩
    · obtain ⟨name, ip, hget, hne⟩ := hex
      have hfirst : firstAddress (networks.map Prod.fst) m.get ≠ "" :=
        fun he => hne (firstAddress_eq_empty he (h.keys.mem_of_get hget) hget)
      obtain ⟨name', -, hget'⟩ := firstAddress_of_ne hfirst
      exact ⟨hfirst, name', hget'⟩
    · by_contra hne
      obtain ⟨name, -, hget⟩ := firstAddress_of_ne hne
      exact hne (hempty name _ hget)

/-! ### Suspend and resume -/

structure Resumes (m : GoMap String String) (target host portText ip : String) : Prop where
  splits : GoNet.splitHostPort target = .ok (host, portText)
  chosen : Chosen m host ip
  picked : ∀ networks, Ranges m networks → pickNetworkIP networks host = ip
  rewritten : ∀ networks, Ranges m networks → ∀ mapping : PortMapping, mapping.target = target →
    mapping.resume networks = some { mapping with
      target := if ip ≠ "" then GoNet.joinHostPort ip portText else target
      suspended := false }
  accepted : ip ≠ "" → validForwardTarget (GoNet.joinHostPort ip portText) = true
  rejoined : ip ≠ "" → GoNet.splitHostPort (GoNet.joinHostPort ip portText) = .ok (ip, portText)

theorem Chosen.noBrackets {m : GoMap String String} {oldHost ip : String} (h : Chosen m oldHost ip)
    (hm : ∀ name a, m.get name = some a → GoNet.NoBrackets a) (hne : ip ≠ "") :
    GoNet.NoBrackets ip := by
  by_cases hold : ∃ name, m.get name = some oldHost
  · obtain ⟨name, hget⟩ := hold
    rw [h.kept ⟨name, hget⟩]
    exact hm name oldHost hget
  · have havailable : ∃ name a, m.get name = some a ∧ a ≠ "" := by
      by_contra hnone
      push Not at hnone
      exact hne (h.unavailable hold hnone)
    obtain ⟨-, name, hget⟩ := h.found hold havailable
    exact hm name ip hget

theorem target_survives_resume {target : String} (hvalid : validForwardTarget target = true)
    {m : GoMap String String} (hm : ∀ name ip, m.get name = some ip → GoNet.NoBrackets ip) :
    ∃ host portText ip, Resumes m target host portText ip := by
  obtain ⟨host, portText, hsplit, -, htext⟩ := validForwardTarget_iff.mp hvalid
  let ip := pickNetworkIP (rangeOf m) host
  have hpicked : ∀ networks, Ranges m networks → pickNetworkIP networks host = ip :=
    fun networks h => h.pickNetworkIP_order (ranges_rangeOf m) host
  have hchosen : Chosen m host ip := (ranges_rangeOf m).chosen host
  have hip : ip ≠ "" → GoNet.NoBrackets ip := hchosen.noBrackets hm
  refine ⟨host, portText, ip, hsplit, hchosen, hpicked, ?_, ?_, ?_⟩
  · intro networks h mapping htarget
    simp only [PortMapping.resume, htarget, hsplit, hpicked networks h]
  · exact fun hne => htext.valid (hip hne) hne
  · exact fun hne => htext.splitHostPort (hip hne)

/-- The container comes back with an IPv6 address in another network. -/
theorem target_survives_resume_moved :
    ∃ m : GoMap String String, m.get "lan" = some "fd00::2" ∧
      ∃ host portText ip, Resumes m "172.17.0.2:8080" host portText ip := by
  let m : GoMap String String := (GoMap.empty.insert "bridge" "").insert "lan" "fd00::2"
  have hm : ∀ name ip, m.get name = some ip → GoNet.NoBrackets ip := by
    intro name ip hget
    rcases GoMap.get_of_get_insert hget with ⟨-, rfl⟩ | hget
    · decide
    · rcases GoMap.get_of_get_insert hget with ⟨-, rfl⟩ | hget
      · decide
      · cases hget
  exact ⟨m, rfl, target_survives_resume (by decide) hm⟩

def resumeAll (mapping : PortMapping) (restarts : List Networks) : Option PortMapping :=
  restarts.foldlM (fun mapping networks => mapping.resume networks) mapping

theorem resume_keeps_port {mapping : PortMapping} {host portText : String} {networks : Networks}
    (hsplit : GoNet.splitHostPort mapping.target = .ok (host, portText)) (hhost : host ≠ "")
    (htext : PortText portText) {m : GoMap String String} (hrange : Ranges m networks)
    (hm : ∀ name ip, m.get name = some ip → GoNet.NoBrackets ip) :
    ∃ mapping' host', mapping.resume networks = some mapping' ∧ host' ≠ "" ∧
      GoNet.splitHostPort mapping'.target = .ok (host', portText) := by
  let ip := pickNetworkIP networks host
  have hresume : mapping.resume networks = some { mapping with
      target := if ip ≠ "" then GoNet.joinHostPort ip portText else mapping.target
      suspended := false } := by
    simp only [PortMapping.resume, hsplit]
    rfl
  by_cases hip : ip = ""
  · refine ⟨_, host, hresume, hhost, ?_⟩
    simp only [hip, ne_eq, not_true_eq_false, if_false]
    exact hsplit
  · have hbrackets : GoNet.NoBrackets ip := (hrange.chosen host).noBrackets hm hip
    refine ⟨_, ip, hresume, hip, ?_⟩
    simp only [ne_eq, hip, not_false_eq_true, if_true]
    exact htext.splitHostPort hbrackets

theorem resumeAll_keeps_port {mapping : PortMapping} {host portText : String}
    (hsplit : GoNet.splitHostPort mapping.target = .ok (host, portText)) (hhost : host ≠ "")
    (htext : PortText portText) {restarts : List Networks}
    (hrestarts : ∀ networks ∈ restarts, ∃ m, Ranges m networks ∧
      ∀ name ip, m.get name = some ip → GoNet.NoBrackets ip) :
    ∃ mapping' host', resumeAll mapping restarts = some mapping' ∧
      GoNet.splitHostPort mapping'.target = .ok (host', portText) ∧
      validForwardTarget mapping'.target = true := by
  induction restarts generalizing mapping host with
  | nil =>
    exact ⟨mapping, host, rfl, hsplit, validForwardTarget_iff.mpr ⟨host, portText, hsplit, hhost, htext⟩⟩
  | cons networks restarts ih =>
    obtain ⟨m, hrange, hm⟩ := hrestarts networks List.mem_cons_self
    obtain ⟨mapping', host', hresume, hhost', hsplit'⟩ :=
      resume_keeps_port hsplit hhost htext hrange hm
    obtain ⟨last, lastHost, hall, hlast, hvalid⟩ := ih hsplit' hhost'
      fun networks' hmem => hrestarts networks' (List.mem_cons_of_mem _ hmem)
    refine ⟨last, lastHost, ?_, hlast, hvalid⟩
    rw [resumeAll, List.foldlM_cons, hresume]
    exact hall

end Hostlink.Controller
