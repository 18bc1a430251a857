import ClantoDesk.ForwardAddresses

/-!
The targets a device shows to its peer, src/clanto/forwarding/policy.rs. The list keeps the texts of
the entries, and a request is decided on what the same texts are parsed to. A request that names a
shown target literally matches the parsed entry, so some entry is found for it, and any entry that
matches literally passes the full check.
-/
namespace ClantoDesk.ForwardOffers

open UnicodeCase Text Lines IpAddress ForwardTargets ForwardAddresses

def offeredService (entry : Str) : Option (Str × Str) := do
  let (id, target) ← splitOnce '=' (trim entry)
  let (id, target) := (trim id, trim target)
  if validServiceId id && (parsePattern target).isSome then some (id, target) else none

def offeredTargets (options : Options) (direction : Direction) :
    Except String (List (Str × Str)) :=
  if !isOn options OPT_ENABLED then .error DENIED_DISABLED
  else
    let targets := ((options (servicesKey direction)).splitOn ';').filterMap offeredService
    if isOn options (customKeys direction).1 then
      .ok (targets ++ (((options (customKeys direction).2).splitOnP isSeparator).filter fun item =>
        (parsePattern item).isSome).map fun item => ([], item))
    else .ok targets

/-! ### The texts and the patterns -/

def parseService (entry : Str) : Option (Str × Pattern) := do
  let (id, target) ← splitOnce '=' (trim entry)
  let id := trim id
  if validServiceId id then (parsePattern (trim target)).map fun p => (id, p) else none

variable (value : Str) (options : Options) (direction : Direction)

theorem parseServices_eq : parseServices value = (value.splitOn ';').filterMap parseService := rfl

def parseOffer (t : Str × Str) : Option (Str × Pattern) := (parsePattern t.2).map fun p => (t.1, p)

def rules (options : Options) (direction : Direction) : List (Str × Pattern) :=
  parseServices (options (servicesKey direction)) ++
    (customPatterns options direction).map fun p => ([], p)

theorem offeredService_parse (entry : Str) :
    (offeredService entry).bind parseOffer = parseService entry ∧
      (offeredService entry).isSome = (parseService entry).isSome := by
  unfold offeredService parseService
  cases hsplit : splitOnce '=' (trim entry) with
  | none => exact ⟨rfl, rfl⟩
  | some parts =>
    obtain ⟨id, target⟩ := parts
    cases hid : validServiceId (trim id) with
    | false => simp [hid]
    | true =>
      cases hparse : parsePattern (trim target) with
      | none => simp [hid, hparse]
      | some p => simp [hid, hparse, parseOffer]

theorem parseList_eq (list : Str) :
    parseList list = ((list.splitOnP isSeparator).filter fun item =>
      (parsePattern item).isSome).filterMap parsePattern := by
  rw [parseList, List.filterMap_filter, List.filterMap_filter]
  apply List.filterMap_congr
  intro item _
  cases item with
  | nil => rfl
  | cons c item =>
    cases hparse : parsePattern (c :: item) with
    | none => rfl
    | some p => rfl

theorem filterMap_map_nil (items : List Str) :
    (items.map fun item => (([], item) : Str × Str)).filterMap parseOffer =
      (items.filterMap parsePattern).map fun p => ([], p) := by
  rw [List.filterMap_map, List.map_filterMap]
  rfl

theorem services_rules :
    ((value.splitOn ';').filterMap offeredService).filterMap parseOffer = parseServices value := by
  rw [List.filterMap_filterMap, parseServices_eq]
  exact List.filterMap_congr fun entry _ => (offeredService_parse entry).1

theorem parseOffer_service (entry : Str) (t : Str × Str) (h : offeredService entry = some t) :
    (parseOffer t).isSome = true := by
  obtain ⟨hbind, hsome⟩ := offeredService_parse entry
  rw [h, Option.bind_some] at hbind
  rw [hbind, ← hsome, h]
  rfl

theorem offered_rules (offered : List (Str × Str))
    (h : offeredTargets options direction = .ok offered) :
    isOn options OPT_ENABLED = true ∧ offered.filterMap parseOffer = rules options direction ∧
      ∀ t ∈ offered, (parseOffer t).isSome = true := by
  unfold offeredTargets at h
  rw [rules, customPatterns]
  cases hon : isOn options OPT_ENABLED with
  | false => simp [hon] at h
  | true =>
    simp only [hon, Bool.not_true, Bool.false_eq_true, if_false] at h
    split at h
    · rename_i hcustom
      obtain rfl := Except.ok.inj h
      rw [if_pos hcustom, List.filterMap_append, services_rules, filterMap_map_nil, ← parseList_eq]
      refine ⟨rfl, rfl, fun t ht => ?_⟩
      rcases List.mem_append.mp ht with hservice | hitem
      · obtain ⟨entry, -, hentry⟩ := List.mem_filterMap.mp hservice
        exact parseOffer_service entry t hentry
      · obtain ⟨item, hfilter, rfl⟩ := List.mem_map.mp hitem
        rw [parseOffer, Option.isSome_map]
        simpa using (List.mem_filter.mp hfilter).2
    · rename_i hcustom
      obtain rfl := Except.ok.inj h
      rw [if_neg hcustom, services_rules, List.map_nil, List.append_nil]
      refine ⟨rfl, rfl, fun t ht => ?_⟩
      obtain ⟨entry, -, hentry⟩ := List.mem_filterMap.mp ht
      exact parseOffer_service entry t hentry

/-! ### Requests that name a shown target -/

def Resolves (lookup : Str → UInt16 → Option (List IpAddr)) (host : Str) (port : UInt16) : Prop :=
  Named host → resolve lookup host port ≠ []

theorem check_of_literalMatch (patterns : List Pattern) (p : Pattern) (host : Str) (port : UInt16)
    (resolved : List IpAddr) (hp : p ∈ patterns) (hmatch : literalMatch p host port = true)
    (hres : Named host → resolved ≠ []) : (check patterns host port resolved).isSome = true := by
  cases hip : parseIp (bare host) with
  | some ip =>
    rw [literalMatch_address p host port ip hip] at hmatch
    have hany : (patterns.any fun p => p.portOk port && p.ipOk ip) = true :=
      List.any_eq_true.mpr ⟨p, hp, hmatch⟩
    simp only [check, hip]
    rw [if_pos hany]
    rfl
  | none =>
    cases hname : isLoopbackName (bare host) with
    | true =>
      rw [literalMatch_localhost p host port hip hname] at hmatch
      have hany : (patterns.any fun p =>
          p.portOk port && (p.nameOk (bare host) || p.ipOk .localhost4)) = true :=
        List.any_eq_true.mpr ⟨p, hp, hmatch⟩
      simp only [check, hip, hname, if_true]
      rw [if_pos hany]
      rfl
    | false =>
      obtain ⟨ip, hmem⟩ := List.exists_mem_of_ne_nil _ (hres ⟨hip, hname⟩)
      rw [check_named_iff patterns host port resolved ⟨hip, hname⟩]
      have hlooks : p.portOk port = true ∧ p.nameOk (bare host) = true := by
        rw [literalMatch, hip, hname, Bool.false_and, Bool.or_false] at hmatch
        cases hport : p.portOk port with
        | false => simp [hport] at hmatch
        | true => simpa [hport] using hmatch
      exact ⟨ip, hmem, p, hp, hlooks.1, Or.inl hlooks.2⟩

theorem mem_rules (r : Str × Pattern) (h : r ∈ rules options direction) :
    r ∈ parseServices (options (servicesKey direction)) ∨
      r.2 ∈ customPatterns options direction := by
  rcases List.mem_append.mp h with hservice | hcustom
  · exact Or.inl hservice
  · obtain ⟨p, hp, rfl⟩ := List.mem_map.mp hcustom
    exact Or.inr hp

theorem authorize_of_literalMatch
    (lookup : Str → UInt16 → Option (List IpAddr)) (direction : Direction) (host : Str)
    (number : Int32) (port : UInt16) (r : Str × Pattern)
    (hon : isOn options OPT_ENABLED = true) (hport : toPort number = some port)
    (hr : r ∈ rules options direction) (hmatch : literalMatch r.2 host port = true)
    (hres : Resolves lookup host port) :
    ∃ d, authorizeTarget options lookup direction host number = .ok d := by
  rw [authorizeTarget, hon, hport]
  simp only [Bool.not_true, Bool.false_eq_true, if_false]
  cases hservice : findService options direction host port with
  | some s =>
    have hfound := List.find?_some hservice
    have hfirst := check_of_literalMatch (servicePatterns (some s)) s.2 host port
      (resolve lookup host port) (by simp [servicePatterns]) hfound hres
    obtain ⟨target, htarget⟩ := Option.isSome_iff_exists.mp hfirst
    rw [mayMatch_service options direction host port s _ hservice]
    simp only [Bool.not_true, Bool.false_eq_true, if_false, grant, htarget]
    exact ⟨_, rfl⟩
  | none =>
    have hcustom : r.2 ∈ customPatterns options direction := by
      rcases mem_rules options direction r hr with hin | hin
      · exact absurd hmatch (List.find?_eq_none.mp hservice r hin)
      · exact hin
    have hlook : ((servicePatterns none ++ customPatterns options direction).any fun p =>
        mayMatch p host port) = true :=
      List.any_eq_true.mpr ⟨r.2, hcustom, mayMatch_of_literalMatch _ _ _ hmatch⟩
    obtain ⟨target, htarget⟩ := Option.isSome_iff_exists.mp
      (check_of_literalMatch _ r.2 host port (resolve lookup host port) hcustom hmatch hres)
    rw [hlook]
    simp only [Bool.not_true, Bool.false_eq_true, if_false, grant, htarget]
    exact ⟨_, rfl⟩

/-- The request has the host text of a shown target, with or without the brackets of an IPv6
address, and a port of its range. A `*` and a network are no single host. -/
structure Names (text host : Str) (port : UInt16) : Prop where
  parts : ∃ addr ports range, rsplitOnce ':' (trim text) = some (addr, ports) ∧
    bare host = bare (trim addr) ∧ trim addr ≠ ['*'] ∧ '/' ∉ trim addr ∧
    parsePorts (trim ports) = some range ∧ range.1 ≤ port ∧ port ≤ range.2

theorem toLower_toLower (c : Char) : c.toLower.toLower = c.toLower :=
  toLower_invariant Char.toLower (forall_mem_of_all _ _ (by decide)) c

theorem mem_of_mem_bare (s : Str) (c : Char) (h : c ∈ bare s) : c ∈ s :=
  (List.dropWhile_sublist _).subset ((List.rdropWhile_prefix _ _).subset h)

/-- The address of a shown target is the one, or has the name, that a request for it names. -/
theorem admits_of_parseAddr (addr host : Str) (port : UInt16) (ports : UInt16 × UInt16) (a : Addr)
    (ha : parseAddr addr = some a) (hhost : bare host = bare addr) (hstar : addr ≠ ['*'])
    (hslash : '/' ∉ addr) (hport : ports.1 ≤ port ∧ port ≤ ports.2) :
    literalMatch ⟨a, ports⟩ host port = true := by
  have hsplit : splitOnce '/' (bare addr) = none :=
    (splitOnce_eq_none_iff '/' _).mpr fun hmem => hslash (mem_of_mem_bare addr '/' hmem)
  have hportOk : Pattern.portOk ⟨a, ports⟩ port = true := decide_eq_true hport
  rw [parseAddr, if_neg hstar, hsplit] at ha
  rw [literalMatch, hportOk, hhost]
  simp only [Bool.not_true, Bool.false_eq_true, if_false]
  cases hip : parseIp (bare addr) with
  | some ip =>
    simp only [hip, Option.some.injEq] at ha
    subst ha
    exact (inNet_iff _ _ _).mpr ⟨rfl, fun _ _ => rfl⟩
  | none =>
    simp only [hip] at ha
    obtain ⟨-, rfl⟩ := of_guard ha
    have hname : eqIgnoreAsciiCase ((bare addr).map Char.toLower) (bare addr) = true := by
      rw [eqIgnoreAsciiCase_iff, List.map_map]
      exact List.map_congr_left fun c _ => toLower_toLower c
    simp only [Pattern.nameOk, hname, Bool.true_or]

theorem literalMatch_of_names (text host : Str) (port : UInt16) (p : Pattern)
    (hp : parsePattern text = some p) (h : Names text host port) :
    literalMatch p host port = true := by
  obtain ⟨addr, ports, range, hsplit, hhost, hstar, hslash, hrange, hport⟩ := h.parts
  simp only [parsePattern, hsplit, hrange, Option.bind_eq_bind, Option.bind_some] at hp
  obtain ⟨a, ha, hpattern⟩ := Option.bind_eq_some_iff.mp hp
  obtain rfl := Option.some.inj hpattern
  exact admits_of_parseAddr _ host port range a ha hhost hstar hslash hport

/-! ### What authorises a request -/

theorem covered_of_authorize (lookup : Str → UInt16 → Option (List IpAddr))
    (direction : Direction) (host : Str) (number : Int32) (d : Decision)
    (h : authorizeTarget options lookup direction host number = .ok d) (a : SocketAddr)
    (ha : a ∈ d.target) :
    toPort number = some a.2 ∧ ∃ r ∈ rules options direction, r.1 = d.service ∧
      r.2.portOk a.2 = true ∧ CoversAlias r.2 host a.1 := by
  unfold authorizeTarget at h
  split at h
  · cases h
  split at h
  · cases h
  rename_i port hport
  simp only at h
  split at h
  · cases h
  unfold grant at h
  split at h
  · rename_i id p target hservice hcheck
    obtain rfl := Except.ok.inj h
    have hfound : (id, p) ∈ parseServices (options (servicesKey direction)) :=
      List.mem_of_find?_eq_some hservice
    obtain ⟨hsame, q, hq, hok, hcovers⟩ := covered_of_check _ _ _ _ _ hcheck a ha
    rw [hservice] at hq
    obtain rfl : q = p := by simpa [servicePatterns] using hq
    rw [hsame]
    exact ⟨hport, (id, q), List.mem_append_left _ hfound, rfl, hok, hcovers⟩
  · split at h
    · rename_i target hcheck
      obtain rfl := Except.ok.inj h
      obtain ⟨hsame, q, hq, hok, hcovers⟩ := covered_of_check _ _ _ _ _ hcheck a ha
      rw [hsame]
      exact ⟨hport, ([], q), List.mem_append_right _ (List.mem_map_of_mem hq), rfl, hok, hcovers⟩
    · cases h

def validServices (value : Str) : List Str :=
  (value.splitOn ';').filter fun entry => (parseService entry).isSome

def validItems (list : Str) : List Str :=
  (list.splitOnP isSeparator).filter fun item => (parsePattern item).isSome

/-- The same settings up to entries that fail to parse. -/
structure SameEntries (options options' : Options) (direction : Direction) : Prop where
  enabled : isOn options' OPT_ENABLED = isOn options OPT_ENABLED
  custom : isOn options' (customKeys direction).1 = isOn options (customKeys direction).1
  services : validServices (options' (servicesKey direction)) =
    validServices (options (servicesKey direction))
  items : validItems (options' (customKeys direction).2) =
    validItems (options (customKeys direction).2)

theorem filterMap_filter_isSome {α β γ : Type} (f : α → Option β) (g : α → Option γ) (l : List α)
    (h : ∀ x, (f x).isSome = (g x).isSome) :
    (l.filter fun x => (g x).isSome).filterMap f = l.filterMap f := by
  rw [List.filterMap_filter]
  apply List.filterMap_congr
  intro x _
  rw [← h x]
  cases f x with
  | none => rfl
  | some y => rfl

theorem parseServices_valid : parseServices value = (validServices value).filterMap parseService :=
  (filterMap_filter_isSome parseService parseService _ fun _ => rfl).symm

theorem offeredServices_valid :
    (value.splitOn ';').filterMap offeredService =
      (validServices value).filterMap offeredService :=
  (filterMap_filter_isSome offeredService parseService _
    fun entry => (offeredService_parse entry).2).symm

/-- Entries that fail to parse change neither what is shown nor any decision. -/
theorem sameEntries_eq (options' : Options) (direction : Direction)
    (h : SameEntries options options' direction) :
    offeredTargets options' direction = offeredTargets options direction ∧
      ∀ lookup host number, authorizeTarget options' lookup direction host number =
        authorizeTarget options lookup direction host number := by
  have hservices : parseServices (options' (servicesKey direction)) =
      parseServices (options (servicesKey direction)) := by
    rw [parseServices_valid, h.services, ← parseServices_valid]
  have hcustom : customPatterns options' direction = customPatterns options direction := by
    have hlist : parseList (options' (customKeys direction).2) =
        parseList (options (customKeys direction).2) := by
      rw [parseList_eq, parseList_eq]
      exact congrArg _ h.items
    rw [customPatterns, customPatterns, h.custom, hlist]
  constructor
  · have hitems := h.items
    rw [validItems, validItems] at hitems
    rw [offeredTargets, offeredTargets, h.enabled, h.custom, offeredServices_valid, h.services,
      ← offeredServices_valid, hitems]
  · intro lookup host number
    have hfind : findService options' direction host = findService options direction host := by
      funext port
      rw [findService, findService, hservices]
    rw [authorizeTarget, authorizeTarget, h.enabled, hcustom, hfind]

structure Agree (options : Options) (direction : Direction) (offered : List (Str × Str)) :
    Prop where
  /-- A literal request for a shown target is authorised when its host resolves. -/
  accepted : ∀ t ∈ offered, ∃ p, parsePattern t.2 = some p ∧
    ∀ (lookup : Str → UInt16 → Option (List IpAddr)) (host : Str) (number : Int32) (port : UInt16),
      toPort number = some port → Resolves lookup host port →
      Names t.2 host port ∨ literalMatch p host port = true →
      ∃ d, authorizeTarget options lookup direction host number = .ok d
  /-- An authorised address is covered by a shown target, which parses. -/
  justified : ∀ (lookup : Str → UInt16 → Option (List IpAddr)) (host : Str) (number : Int32)
    (d : Decision), authorizeTarget options lookup direction host number = .ok d →
    ∀ a ∈ d.target, ∃ t ∈ offered, t.1 = d.service ∧ ∃ p, parsePattern t.2 = some p ∧
      p.portOk a.2 = true ∧ CoversAlias p host a.1
  /-- Entries that fail to parse change neither. -/
  ignored : ∀ options', SameEntries options options' direction →
    offeredTargets options' direction = offeredTargets options direction ∧
    ∀ lookup host number, authorizeTarget options' lookup direction host number =
      authorizeTarget options lookup direction host number

/-- Whatever the settings are, the shown targets are the ones that are authorised. -/
theorem offered_agree (options : Options) (direction : Direction)
    (offered : List (Str × Str)) (h : offeredTargets options direction = .ok offered) :
    Agree options direction offered := by
  obtain ⟨hon, hrules, hparsed⟩ := offered_rules options direction offered h
  refine ⟨fun t ht => ?_, ?_, fun options' hsame => sameEntries_eq options options' direction hsame⟩
  · obtain ⟨r, hr⟩ := Option.isSome_iff_exists.mp (hparsed t ht)
    obtain ⟨p, hp, rfl⟩ := Option.map_eq_some_iff.mp hr
    refine ⟨p, hp, fun lookup host number port hport hres hnames => ?_⟩
    have hmem : (t.1, p) ∈ rules options direction := by
      rw [← hrules]
      exact List.mem_filterMap.mpr ⟨t, ht, hr⟩
    have hmatch : literalMatch p host port = true := by
      rcases hnames with hnames | hmatch
      · exact literalMatch_of_names t.2 host port p hp hnames
      · exact hmatch
    exact authorize_of_literalMatch options lookup direction host number port (t.1, p) hon hport
      hmem hmatch hres
  · intro lookup host number d hd a ha
    obtain ⟨-, r, hr, hservice, hok, hcovers⟩ :=
      covered_of_authorize options lookup direction host number d hd a ha
    rw [← hrules] at hr
    obtain ⟨t, ht, hparse⟩ := List.mem_filterMap.mp hr
    obtain ⟨p, hp, rfl⟩ := Option.map_eq_some_iff.mp hparse
    exact ⟨t, ht, hservice, p, hp, hok, hcovers⟩

/-- One service, one entry of the list with a range, and two entries that fail to parse. -/
def sampleOptions : Options := fun key =>
  if key = OPT_SERVICES_HOST then "rdp=localhost:3389;x=nope".toList
  else if key = OPT_CUSTOM_HOST_TARGETS then "bad, nas.lan:5000-5010 [fe80::1]:22".toList
  else ['Y']

theorem offered_agree_sample :
    Agree sampleOptions .toHost [("rdp".toList, "localhost:3389".toList),
      ([], "nas.lan:5000-5010".toList), ([], "[fe80::1]:22".toList)] :=
  offered_agree sampleOptions .toHost _ (by decide)

example : authorizeTarget sampleOptions (fun _ _ => none) .toHost "[FE80::1]".toList 22 =
    .ok ⟨[(.v6 0xfe800000000000000000000000000001#128, 22)], []⟩ := by
  decide

end ClantoDesk.ForwardOffers
