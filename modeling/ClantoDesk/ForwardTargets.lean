import ClantoDesk.IpAddress
import ClantoDesk.Lines
import ClantoDesk.Text

/-!
Which targets a forward may reach, src/clanto/forwarding/policy.rs. The side that exposes its
network has patterns of addresses and ports. Before it asks its resolver about a name it looks
whether some pattern could admit the name at all; afterwards the addresses are checked. A pattern
`localhost` admits every loopback address, also one that some other name resolves to, and the
first look does not know it.
-/
namespace ClantoDesk.ForwardTargets

open Text Lines IpAddress

def OPT_ENABLED : String := "clanto-forward-enabled"
def OPT_SERVICES_HOST : String := "clanto-forward-services-host"
def OPT_SERVICES_CONTROLLER : String := "clanto-forward-services-controller"
def OPT_CUSTOM_HOST : String := "clanto-forward-custom-host"
def OPT_CUSTOM_HOST_TARGETS : String := "clanto-forward-custom-host-targets"
def OPT_CUSTOM_CONTROLLER : String := "clanto-forward-custom-controller"
def OPT_CUSTOM_CONTROLLER_TARGETS : String := "clanto-forward-custom-controller-targets"

def DENIED_DISABLED : String := "Forwarding is disabled on this device"
def DENIED_TARGET : String := "Forwarding target not allowed"

inductive Direction where
  | toHost
  | toController
  deriving DecidableEq

/-! ### Patterns -/

structure Network where
  ip : IpAddr
  bits : ℕ
  fits : bits ≤ ip.width
  deriving DecidableEq

inductive Addr where
  | any
  | name (n : Str)
  | net (network : Network)
  deriving DecidableEq

structure Pattern where
  addr : Addr
  ports : UInt16 × UInt16
  deriving DecidableEq

/-- An unsigned number below `limit`, as the standard library parses it. -/
def parseUnsigned (limit : ℕ) (s : Str) : Option ℕ :=
  let digits := if s.head? = some '+' then s.tail else s
  if digits.isEmpty || !digits.all Char.isDigit then none
  else
    let n := digits.foldl (fun n c => n * 10 + (c.toNat - '0'.toNat)) 0
    if n < limit then some n else none

def parsePorts (s : Str) : Option (UInt16 × UInt16) := do
  if s = ['*'] then some (1, 65535)
  else
    let (a, b) := (splitOnce '-' s).getD (s, s)
    let a ← parseUnsigned 65536 (trim a)
    let b ← parseUnsigned 65536 (trim b)
    if 1 ≤ a ∧ a ≤ b then some (UInt16.ofNat a, UInt16.ofNat b) else none

def bare (s : Str) : Str := (s.dropWhile (· == '[')).rdropWhile (· == ']')

def validName (name : Str) : Bool :=
  !name.isEmpty && decide (byteLength name ≤ 253) &&
    name.all fun c => c.isAlphanum || c == '-' || c == '.'

def parseAddr (s : Str) : Option Addr :=
  if s = ['*'] then some .any
  else
    match splitOnce '/' (bare s) with
    | some (ip, bits) => do
      let ip ← parseIp ip
      let bits ← parseUnsigned 256 bits
      if h : bits ≤ ip.width then some (.net ⟨ip, bits, h⟩) else none
    | none =>
      match parseIp (bare s) with
      | some ip => some (.net ⟨ip, ip.width, le_refl _⟩)
      | none =>
        let name := (bare s).map Char.toLower
        if validName name then some (.name name) else none

def rsplitOnce (mark : Char) (s : Str) : Option (Str × Str) :=
  (splitOnce mark s.reverse).map fun (after, before) => (before.reverse, after.reverse)

def parsePattern (item : Str) : Option Pattern := do
  let (addr, ports) ← rsplitOnce ':' (trim item)
  let addr ← parseAddr (trim addr)
  let ports ← parsePorts (trim ports)
  some ⟨addr, ports⟩

def isSeparator (c : Char) : Bool := c == ',' || c == ';' || isWhitespace c

def parseList (list : Str) : List Pattern :=
  ((list.splitOnP isSeparator).filter fun item => !item.isEmpty).filterMap parsePattern

def validServiceId (id : Str) : Bool :=
  !id.isEmpty && decide (byteLength id ≤ 64) &&
    id.all fun c => c.isAlphanum || c == '-' || c == '_' || c == '.'

def parseServices (value : Str) : List (Str × Pattern) :=
  (value.splitOn ';').filterMap fun entry => do
    let (id, target) ← splitOnce '=' (trim entry)
    let id := trim id
    if validServiceId id then (parsePattern (trim target)).map fun p => (id, p) else none

def isLoopbackName (name : Str) : Bool := eqIgnoreAsciiCase name "localhost".toList

namespace Pattern

def portOk (p : Pattern) (port : UInt16) : Bool := decide (p.ports.1 ≤ port ∧ port ≤ p.ports.2)

def nameOk (p : Pattern) (name : Str) : Bool :=
  match p.addr with
  | .any => true
  | .name n => eqIgnoreAsciiCase n name
  | .net _ => false

def ipOk (p : Pattern) (ip : IpAddr) : Bool :=
  match p.addr with
  | .any => true
  | .net network => inNet ip network.ip network.bits
  | .name n => isLoopbackName n && ip.isLoopback

def isWide (p : Pattern) : Bool :=
  match p.addr with
  | .any => true
  | .net _ => true
  | .name _ => false

end Pattern

def literalMatch (p : Pattern) (host : Str) (port : UInt16) : Bool :=
  if !p.portOk port then false
  else
    match parseIp (bare host) with
    | some ip => p.ipOk ip
    | none => p.nameOk (bare host) || (isLoopbackName (bare host) && p.ipOk .localhost4)

def mayMatch (p : Pattern) (host : Str) (port : UInt16) : Bool :=
  literalMatch p host port || (p.portOk port && p.isWide)

abbrev SocketAddr := IpAddr × UInt16

abbrev Target := List SocketAddr

def loopbackAddrs (port : UInt16) : Target := [(.localhost4, port), (.localhost6, port)]

def check (patterns : List Pattern) (host : Str) (port : UInt16) (resolved : List IpAddr) :
    Option Target :=
  match parseIp (bare host) with
  | some ip =>
    if patterns.any fun p => p.portOk port && p.ipOk ip then some [(ip, port)] else none
  | none =>
    if isLoopbackName (bare host) then
      if patterns.any fun p => p.portOk port && (p.nameOk (bare host) || p.ipOk .localhost4) then
        some (loopbackAddrs port)
      else none
    else if patterns.any fun p => p.portOk port && p.nameOk (bare host) then
      let addrs := resolved.map fun ip => (ip, port)
      if addrs.isEmpty then none else some addrs
    else
      let vetted := (resolved.filter fun ip => patterns.any fun p => p.portOk port && p.ipOk ip).map
        fun ip => (ip, port)
      if vetted.isEmpty then none else some vetted

/-! ### The decision -/

/-- `lookup` is the resolver of the operating system. -/
def resolve (lookup : Str → UInt16 → Option (List IpAddr)) (host : Str) (port : UInt16) :
    List IpAddr :=
  if (parseIp (bare host)).isSome || isLoopbackName (bare host) then []
  else (lookup (bare host) port).getD []

structure Decision where
  target : Target
  service : Str
  deriving DecidableEq

abbrev Options := String → Str

def isOn (options : Options) (key : String) : Bool := options key == ['Y']

def servicesKey : Direction → String
  | .toHost => OPT_SERVICES_HOST
  | .toController => OPT_SERVICES_CONTROLLER

def customKeys : Direction → String × String
  | .toHost => (OPT_CUSTOM_HOST, OPT_CUSTOM_HOST_TARGETS)
  | .toController => (OPT_CUSTOM_CONTROLLER, OPT_CUSTOM_CONTROLLER_TARGETS)

def customPatterns (options : Options) (direction : Direction) : List Pattern :=
  if isOn options (customKeys direction).1 then parseList (options (customKeys direction).2) else []

def toPort (port : Int32) : Option UInt16 :=
  if 0 < port.toInt ∧ port.toInt < 65536 then some (UInt16.ofNat port.toInt.toNat) else none

def findService (options : Options) (direction : Direction) (host : Str) (port : UInt16) :
    Option (Str × Pattern) :=
  (parseServices (options (servicesKey direction))).find? fun s => literalMatch s.2 host port

def servicePatterns (service : Option (Str × Pattern)) : List Pattern :=
  service.toList.map fun s => s.2

def grant (service : Option (Str × Pattern)) (custom : List Pattern) (host : Str) (port : UInt16)
    (resolved : List IpAddr) : Except String Decision :=
  match service, check (servicePatterns service) host port resolved with
  | some (id, _), some target => .ok ⟨target, id⟩
  | _, _ =>
    match check custom host port resolved with
    | some target => .ok ⟨target, []⟩
    | none => .error DENIED_TARGET

def authorizeTarget (options : Options) (lookup : Str → UInt16 → Option (List IpAddr))
    (direction : Direction) (host : Str) (port : Int32) : Except String Decision :=
  if !isOn options OPT_ENABLED then .error DENIED_DISABLED
  else
    match toPort port with
    | none => .error DENIED_TARGET
    | some port =>
      let service := findService options direction host port
      let custom := customPatterns options direction
      if !(servicePatterns service ++ custom).any fun p => mayMatch p host port then
        .error DENIED_TARGET
      else grant service custom host port (resolve lookup host port)

/-- The decision that always resolves: what the first look must not change. -/
def authorizeResolved (options : Options) (lookup : Str → UInt16 → Option (List IpAddr))
    (direction : Direction) (host : Str) (port : Int32) : Except String Decision :=
  if !isOn options OPT_ENABLED then .error DENIED_DISABLED
  else
    match toPort port with
    | none => .error DENIED_TARGET
    | some port =>
      grant (findService options direction host port) (customPatterns options direction) host port
        (resolve lookup host port)

/-! ### The first look against the full check -/

/-- The host is a name like any other: no address and not `localhost`. -/
def Named (host : Str) : Prop := parseIp (bare host) = none ∧ isLoopbackName (bare host) = false

instance decidableNamed (host : Str) : Decidable (Named host) := by
  unfold Named
  infer_instance

def Pattern.Looks (p : Pattern) (host : Str) (port : UInt16) : Prop :=
  p.portOk port = true ∧ (p.nameOk (bare host) = true ∨ p.isWide = true)

/-- The host is an ordinary name of a loopback address that only patterns `localhost` admit. -/
structure LoopbackAlias (patterns : List Pattern) (host : Str) (port : UInt16)
    (resolved : List IpAddr) : Prop where
  named : Named host
  loopback : ∃ ip ∈ resolved, ip.isLoopback = true
  localhost : ∃ p ∈ patterns, p.portOk port = true ∧ ∃ n, p.addr = .name n ∧ isLoopbackName n = true
  unseen : ∀ p ∈ patterns, ¬ p.Looks host port

variable (patterns : List Pattern) (p : Pattern)

theorem mayMatch_of_literalMatch (host : Str) (port : UInt16)
    (h : literalMatch p host port = true) : mayMatch p host port = true := by
  rw [mayMatch, h, Bool.true_or]

theorem literalMatch_address (host : Str) (port : UInt16) (ip : IpAddr)
    (hip : parseIp (bare host) = some ip) :
    literalMatch p host port = (p.portOk port && p.ipOk ip) := by
  rw [literalMatch, hip]
  cases p.portOk port <;> rfl

theorem literalMatch_localhost (host : Str) (port : UInt16)
    (hip : parseIp (bare host) = none) (hname : isLoopbackName (bare host) = true) :
    literalMatch p host port =
      (p.portOk port && (p.nameOk (bare host) || p.ipOk .localhost4)) := by
  rw [literalMatch, hip, hname, Bool.true_and]
  cases p.portOk port <;> rfl

/-- On a name that is like any other the first look is the name, or addresses of any kind. -/
theorem mayMatch_named_iff (host : Str) (port : UInt16) (h : Named host) :
    mayMatch p host port = true ↔ p.Looks host port := by
  rw [mayMatch, literalMatch, h.1, h.2, Bool.false_and, Bool.or_false, Pattern.Looks]
  cases p.portOk port <;> simp

/-- An address that a pattern admits, admitted by a pattern the first look would have taken unless
it is a loopback one. -/
theorem ipOk_cases (ip : IpAddr) (h : p.ipOk ip = true) :
    p.isWide = true ∨ ip.isLoopback = true ∧ ∃ n, p.addr = .name n ∧ isLoopbackName n = true := by
  cases haddr : p.addr with
  | any => exact Or.inl (by rw [Pattern.isWide, haddr])
  | net network => exact Or.inl (by rw [Pattern.isWide, haddr])
  | name n =>
    rw [Pattern.ipOk, haddr] at h
    obtain ⟨hname, hloop⟩ := Bool.and_eq_true_iff.mp h
    exact Or.inr ⟨hloop, n, rfl, hname⟩

theorem ipOk_localhost (n : Str) (ip : IpAddr) (haddr : p.addr = .name n)
    (hname : isLoopbackName n = true) (hloop : ip.isLoopback = true) : p.ipOk ip = true := by
  rw [Pattern.ipOk, haddr]
  exact Bool.and_eq_true_iff.mpr ⟨hname, hloop⟩

theorem check_named_iff (host : Str) (port : UInt16) (resolved : List IpAddr) (h : Named host) :
    (check patterns host port resolved).isSome = true ↔
      ∃ ip ∈ resolved, ∃ p ∈ patterns, p.portOk port = true ∧
        (p.nameOk (bare host) = true ∨ p.ipOk ip = true) := by
  rw [check, h.1]
  simp only [h.2, Bool.false_eq_true, if_false]
  split
  · rename_i hname
    obtain ⟨p, hp, hok⟩ := List.any_eq_true.mp hname
    obtain ⟨hport, hnameOk⟩ := Bool.and_eq_true_iff.mp hok
    cases resolved with
    | nil => simp
    | cons ip rest =>
      simp only [List.map_cons, List.isEmpty_cons, Bool.false_eq_true, if_false, Option.isSome_some,
        true_iff]
      exact ⟨ip, List.mem_cons_self .., p, hp, hport, Or.inl hnameOk⟩
  · rename_i hname
    have hnone : ∀ p ∈ patterns, p.portOk port = true → p.nameOk (bare host) ≠ true := by
      intro p hp hport hok
      exact hname (List.any_eq_true.mpr ⟨p, hp, Bool.and_eq_true_iff.mpr ⟨hport, hok⟩⟩)
    constructor
    · intro hsome
      split at hsome
      · cases hsome
      · rename_i hvetted
        rw [List.isEmpty_map, List.isEmpty_iff, List.filter_eq_nil_iff] at hvetted
        push Not at hvetted
        obtain ⟨ip, hip, hany⟩ := hvetted
        obtain ⟨p, hp, hok⟩ := List.any_eq_true.mp hany
        obtain ⟨hport, hipOk⟩ := Bool.and_eq_true_iff.mp hok
        exact ⟨ip, hip, p, hp, hport, Or.inr hipOk⟩
    · rintro ⟨ip, hip, p, hp, hport, hnameOk | hipOk⟩
      · exact absurd hnameOk (hnone p hp hport)
      · have hany : (patterns.any fun p => p.portOk port && p.ipOk ip) = true :=
          List.any_eq_true.mpr ⟨p, hp, Bool.and_eq_true_iff.mpr ⟨hport, hipOk⟩⟩
        rw [if_neg]
        · rfl
        · rw [List.isEmpty_map, List.isEmpty_iff, List.filter_eq_nil_iff]
          exact fun hall => hall ip hip hany

/-- The full check never admits what the first look refuses, but for aliases of the loopback. -/
theorem check_needs_mayMatch_iff (host : Str) (port : UInt16) (resolved : List IpAddr) :
    ((check patterns host port resolved).isSome = true →
      (patterns.any fun p => mayMatch p host port) = true) ↔
      ¬ LoopbackAlias patterns host port resolved := by
  by_cases hnamed : Named host
  · have hlook : (patterns.any fun p => mayMatch p host port) = true ↔
        ∃ p ∈ patterns, p.Looks host port := by
      simp only [List.any_eq_true, mayMatch_named_iff _ host port hnamed]
    rw [hlook, check_named_iff patterns host port resolved hnamed]
    constructor
    · intro himp halias
      obtain ⟨ip, hip, hloop⟩ := halias.loopback
      obtain ⟨p, hp, hport, n, haddr, hname⟩ := halias.localhost
      obtain ⟨q, hq, hlooks⟩ := himp ⟨ip, hip, p, hp, hport,
        Or.inr (ipOk_localhost p n ip haddr hname hloop)⟩
      exact halias.unseen q hq hlooks
    · rintro hnot ⟨ip, hip, p, hp, hport, hok⟩
      by_contra hunseen
      push Not at hunseen
      rcases hok with hnameOk | hipOk
      · exact hunseen p hp ⟨hport, Or.inl hnameOk⟩
      · rcases ipOk_cases p ip hipOk with hwide | ⟨hloop, n, haddr, hname⟩
        · exact hunseen p hp ⟨hport, Or.inr hwide⟩
        · exact hnot ⟨hnamed, ⟨ip, hip, hloop⟩, ⟨p, hp, hport, n, haddr, hname⟩, hunseen⟩
  · refine ⟨fun _ halias => hnamed halias.named, fun _ hsome => ?_⟩
    cases hip : parseIp (bare host) with
    | some ip =>
      simp only [check, hip] at hsome
      split at hsome
      · rename_i hany
        obtain ⟨p, hp, hok⟩ := List.any_eq_true.mp hany
        refine List.any_eq_true.mpr ⟨p, hp, mayMatch_of_literalMatch p host port ?_⟩
        rw [literalMatch_address p host port ip hip, hok]
      · cases hsome
    | none =>
      cases hname : isLoopbackName (bare host) with
      | false => exact absurd ⟨hip, hname⟩ hnamed
      | true =>
        simp only [check, hip, hname, if_true] at hsome
        split at hsome
        · rename_i hany
          obtain ⟨p, hp, hok⟩ := List.any_eq_true.mp hany
          refine List.any_eq_true.mpr ⟨p, hp, mayMatch_of_literalMatch p host port ?_⟩
          rw [literalMatch_localhost p host port hip hname, hok]
        · cases hsome

/-- The request is enabled and well formed, names no service, and its host is such an alias. -/
def MissedAlias (options : Options) (lookup : Str → UInt16 → Option (List IpAddr))
    (direction : Direction) (host : Str) (port : Int32) : Prop :=
  isOn options OPT_ENABLED = true ∧ ∃ p, toPort port = some p ∧
    findService options direction host p = none ∧
    LoopbackAlias (customPatterns options direction) host p (resolve lookup host p)

theorem mayMatch_service (options : Options) (direction : Direction) (host : Str) (port : UInt16)
    (s : Str × Pattern) (custom : List Pattern)
    (hs : findService options direction host port = some s) :
    ((servicePatterns (some s) ++ custom).any fun p => mayMatch p host port) = true := by
  have hmatch := List.find?_some hs
  exact List.any_eq_true.mpr ⟨s.2, List.mem_append_left _ (by simp [servicePatterns]),
    mayMatch_of_literalMatch s.2 host port hmatch⟩

theorem grant_none (custom : List Pattern) (host : Str) (port : UInt16) (resolved : List IpAddr) :
    Except.error DENIED_TARGET = grant none custom host port resolved ↔
      ¬ (check custom host port resolved).isSome = true := by
  cases hcheck : check custom host port resolved with
  | none => simp [grant, hcheck]
  | some target => simp [grant, hcheck]

theorem authorizeTarget_eq_iff (options : Options)
    (lookup : Str → UInt16 → Option (List IpAddr)) (direction : Direction) (host : Str)
    (port : Int32) :
    authorizeTarget options lookup direction host port =
        authorizeResolved options lookup direction host port ↔
      ¬ MissedAlias options lookup direction host port := by
  unfold authorizeTarget authorizeResolved MissedAlias
  cases isOn options OPT_ENABLED with
  | false => simp
  | true =>
    cases hport : toPort port with
    | none => simp
    | some p =>
      simp only [Bool.not_true, Bool.false_eq_true, if_false, true_and, Option.some.injEq,
        exists_eq_left']
      cases hservice : findService options direction host p with
      | some s =>
        rw [mayMatch_service options direction host p s _ hservice]
        simp
      | none =>
        have hcustom := check_needs_mayMatch_iff (customPatterns options direction) host p
          (resolve lookup host p)
        simp only [servicePatterns, Option.toList_none, List.map_nil, List.nil_append, true_and]
        rw [← hcustom]
        cases hany : (customPatterns options direction).any fun q => mayMatch q host p with
        | true => simp
        | false =>
          simp only [Bool.not_false, if_true, Bool.false_eq_true, imp_false]
          exact grant_none _ _ _ _

/-- The decision on a list of patterns, with the first look before the check. -/
def decideTarget (patterns : List Pattern) (host : Str) (port : UInt16) (resolved : List IpAddr) :
    Option Target :=
  if patterns.any fun p => mayMatch p host port then check patterns host port resolved else none

theorem decideTarget_eq_check (host : Str) (port : UInt16)
    (resolved : List IpAddr) (h : ¬ LoopbackAlias patterns host port resolved) :
    decideTarget patterns host port resolved = check patterns host port resolved := by
  rw [decideTarget]
  split
  · rfl
  · rename_i hany
    have hneeds := (check_needs_mayMatch_iff patterns host port resolved).mpr h
    cases hcheck : check patterns host port resolved with
    | none => rfl
    | some target =>
      rw [hcheck] at hneeds
      exact absurd (hneeds rfl) hany

theorem any_insert (front back : List Pattern) (q : Pattern) (f : Pattern → Bool)
    (hq : f q = false) : (front ++ q :: back).any f = (front ++ back).any f := by
  rw [List.any_append, List.any_cons, hq, Bool.false_or, List.any_append]

/-- The full check does not see a rule that admits nothing by itself. -/
theorem check_insert (front back : List Pattern) (q : Pattern) (host : Str) (port : UInt16)
    (resolved : List IpAddr) (hq : check [q] host port resolved = none) :
    check (front ++ q :: back) host port resolved = check (front ++ back) host port resolved := by
  cases hip : parseIp (bare host) with
  | some ip =>
    simp only [check, hip, List.any_cons, List.any_nil, Bool.or_false, ite_eq_right_iff,
      reduceCtorEq,
      imp_false, Bool.not_eq_true] at hq ⊢
    rw [any_insert front back q _ hq]
  | none =>
    cases hname : isLoopbackName (bare host) with
    | true =>
      simp only [check, hip, hname, if_true, List.any_cons, List.any_nil, Bool.or_false,
        ite_eq_right_iff, reduceCtorEq, imp_false, Bool.not_eq_true] at hq ⊢
      rw [any_insert front back q _ hq]
    | false =>
      have hnone : ∀ ip ∈ resolved, (q.portOk port && q.nameOk (bare host)) = false ∧
          (q.portOk port && q.ipOk ip) = false := by
        intro ip hmem
        have hnot := mt (check_named_iff [q] host port resolved ⟨hip, hname⟩).mpr
          (by rw [hq]; exact Bool.false_ne_true)
        constructor
        · by_contra hok
          obtain ⟨hport, hnameOk⟩ := Bool.and_eq_true_iff.mp (Bool.not_eq_false _ ▸ hok)
          exact hnot ⟨ip, hmem, q, List.mem_singleton_self q, hport, Or.inl hnameOk⟩
        · by_contra hok
          obtain ⟨hport, hipOk⟩ := Bool.and_eq_true_iff.mp (Bool.not_eq_false _ ▸ hok)
          exact hnot ⟨ip, hmem, q, List.mem_singleton_self q, hport, Or.inr hipOk⟩
      cases resolved with
      | nil => simp [check, hip, hname]
      | cons first rest =>
        have hfilter : ((first :: rest).filter fun ip =>
            (front ++ q :: back).any fun p => p.portOk port && p.ipOk ip) =
            (first :: rest).filter fun ip =>
              (front ++ back).any fun p => p.portOk port && p.ipOk ip :=
          List.filter_congr fun ip hmem => any_insert front back q _ (hnone ip hmem).2
        simp only [check, hip, hname, Bool.false_eq_true, if_false]
        rw [any_insert front back q _ (hnone first (List.mem_cons_self ..)).1, hfilter]

theorem not_alias_insert (front back : List Pattern) (q : Pattern) (host : Str) (port : UInt16)
    (resolved : List IpAddr) (hq : check [q] host port resolved = none)
    (h : ¬ LoopbackAlias (front ++ back) host port resolved) :
    ¬ LoopbackAlias (front ++ q :: back) host port resolved := by
  intro halias
  have hsub : ∀ p ∈ front ++ back, p ∈ front ++ q :: back := by
    intro p hp
    rcases List.mem_append.mp hp with hfront | hback
    · exact List.mem_append_left _ hfront
    · exact List.mem_append_right _ (List.mem_cons_of_mem _ hback)
  obtain ⟨ip, hip, hloop⟩ := halias.loopback
  obtain ⟨p, hp, hport, n, haddr, hname⟩ := halias.localhost
  have hne : p ≠ q := by
    rintro rfl
    have hsome := (check_named_iff [p] host port resolved halias.named).mpr
      ⟨ip, hip, p, List.mem_singleton_self p, hport,
        Or.inr (ipOk_localhost p n ip haddr hname hloop)⟩
    rw [hq] at hsome
    cases hsome
  have hmem : p ∈ front ++ back := by
    simpa [hne] using hp
  exact h ⟨halias.named, ⟨ip, hip, hloop⟩, ⟨p, hmem, hport, n, haddr, hname⟩,
    fun p' hp' => halias.unseen p' (hsub p' hp')⟩

/-- The first look agrees with the full check unless the host is an ordinary name of a loopback
address, a pattern `localhost` is on the port and no pattern on it is the name, a network or `*`.
That is also exactly when it changes the decision of a request; elsewhere a rule that admits nothing
by itself does not matter. -/
theorem prefilter_agrees_iff (patterns : List Pattern) (host : Str) (port : UInt16)
    (resolved : List IpAddr) :
    (((check patterns host port resolved).isSome = true →
        (patterns.any fun p => mayMatch p host port) = true) ↔
      ¬ LoopbackAlias patterns host port resolved) ∧
    (∀ (options : Options) (lookup : Str → UInt16 → Option (List IpAddr)) (direction : Direction)
        (number : Int32),
      authorizeTarget options lookup direction host number =
          authorizeResolved options lookup direction host number ↔
        ¬ MissedAlias options lookup direction host number) ∧
    (∀ (front back : List Pattern) (q : Pattern), patterns = front ++ back →
      check [q] host port resolved = none → ¬ LoopbackAlias patterns host port resolved →
      decideTarget (front ++ q :: back) host port resolved =
        decideTarget patterns host port resolved) := by
  refine ⟨check_needs_mayMatch_iff patterns host port resolved,
      fun options lookup direction number =>
    authorizeTarget_eq_iff options lookup direction host number, ?_⟩
  rintro front back q rfl hq halias
  rw [decideTarget_eq_check _ host port resolved halias,
    decideTarget_eq_check _ host port resolved (not_alias_insert front back q host port resolved hq
      halias), check_insert front back q host port resolved hq]

/-- A pattern `localhost:443` and the name `myalias` of 127.0.0.1: the check admits what the first
look refuses, and a rule for another network makes the difference. -/
theorem loopback_alias_refused :
    ¬ ∀ (patterns : List Pattern) (host : Str) (port : UInt16) (resolved : List IpAddr),
      (check patterns host port resolved).isSome = true →
        (patterns.any fun p => mayMatch p host port) = true := by
  intro hall
  have hlook := hall (parseList "localhost:443".toList) "myalias".toList 443 [.localhost4]
    (by decide)
  revert hlook
  decide

end ClantoDesk.ForwardTargets
