import ClantoDesk.IdWhitelist

/-!
Per-ID permission profiles, src/clanto/id_permissions.rs. The profile of a
controller is looked up by the most specific whitelist entry that matches its
id. Entries without wildcards are compared up to ASCII case here, while the
whitelist compares full lowercase forms, and the part before the server suffix is
not trimmed again. The parser of the configured JSON is a parameter.
-/
namespace ClantoDesk.IdPermissions

open Text UnicodeCase Glob IdWhitelist

inductive Permission
  | keyboard | clipboard | file | audio | camera | terminal | tunnel | restart
  | recording | blockInput | privacyMode | remotePrinter
  deriving DecidableEq, Repr

structure CustomPermissions where
  keyboard : Bool := false
  clipboard : Bool := false
  file : Bool := false
  audio : Bool := false
  camera : Bool := false
  terminal : Bool := false
  tunnel : Bool := false
  restart : Bool := false
  recording : Bool := false
  blockInput : Bool := false
  privacyMode : Bool := false
  remotePrinter : Bool := false
  deriving DecidableEq, Repr

def CustomPermissions.allows (self : CustomPermissions) : Permission → Bool
  | .keyboard => self.keyboard
  | .clipboard => self.clipboard
  | .file => self.file
  | .audio => self.audio
  | .camera => self.camera
  | .terminal => self.terminal
  | .tunnel => self.tunnel
  | .restart => self.restart
  | .recording => self.recording
  | .blockInput => self.blockInput
  | .privacyMode => self.privacyMode
  | .remotePrinter => self.remotePrinter

inductive Profile
  | view | support | full | custom
  deriving DecidableEq, Repr

structure ProfileConfig where
  name : Str
  profile : Profile
  perms : CustomPermissions

structure ResolvedProfile where
  name : Str
  profile : Profile
  permissions : CustomPermissions
  deriving DecidableEq

def ResolvedProfile.view : ResolvedProfile := ⟨[], .view, {}⟩

def ResolvedProfile.full : ResolvedProfile := ⟨[], .full, {}⟩

def ResolvedProfile.allows (self : ResolvedProfile) (permission : Permission) : Bool :=
  match self.profile with
  | .view => false
  | .support =>
    match permission with
    | .keyboard | .clipboard | .file | .audio | .restart | .blockInput | .privacyMode
    | .remotePrinter => true
    | _ => false
  | .full => true
  | .custom => self.permissions.allows permission

structure Resolution where
  profile : Option ResolvedProfile
  invalidJson : Bool

def wildcardMatch (pattern text : Str) : Bool :=
  glob (toLowercase (trim pattern)) (toLowercase (trim text))

def isWildcard (c : Char) : Bool := c == '*' || c == '?'

def hasWildcard (pattern : Str) : Bool := pattern.any isWildcard

def matchRank (pattern controllerId bareId : Str) : Option (ℕ × ℕ) :=
  if !hasWildcard pattern then
    if eqIgnoreAsciiCase pattern controllerId then some (3, pattern.length)
    else if eqIgnoreAsciiCase pattern bareId then some (2, pattern.length)
    else none
  else if !wildcardMatch pattern controllerId && !wildcardMatch pattern bareId then none
  else if pattern == ['*'] then some (0, 0)
  else some (1, (pattern.filter fun c => !isWildcard c).length)

def rankGt (a b : ℕ × ℕ) : Bool := decide (b.1 < a.1 ∨ b.1 = a.1 ∧ b.2 < a.2)

def considerEntry (controllerId bareId : Str) (best : Option (Str × ℕ × ℕ)) (entry : Str) :
    Option (Str × ℕ × ℕ) :=
  match matchRank (trim entry) controllerId bareId with
  | none => best
  | some rank =>
    match best with
    | none => some (trim entry, rank)
    | some (_, bestRank) => if rankGt rank bestRank then some (trim entry, rank) else best

def matchingEntry (idWhitelist : List Str) (controllerId : Str) : Option Str :=
  let controllerId := trim controllerId
  let bareId := IdWhitelist.bareId controllerId
  (idWhitelist.foldl (considerEntry controllerId bareId) none).map Prod.fst

/-- The parsed profiles are in the order of the map they are read into. -/
def resolveProfile (parseProfiles : Str → Option (List (Str × ProfileConfig)))
    (idWhitelist : List Str) (json controllerId : Str) : Resolution :=
  match matchingEntry idWhitelist controllerId with
  | none => ⟨none, false⟩
  | some entry =>
    if (trim json).isEmpty then ⟨some .full, false⟩
    else
      match parseProfiles json with
      | none => ⟨some .view, true⟩
      | some profiles =>
        match profiles.find? fun p => eqIgnoreAsciiCase p.1 entry with
        | none => ⟨some .full, false⟩
        | some (_, config) => ⟨some ⟨config.name, config.profile, config.perms⟩, false⟩

theorem resolveProfile_isSome_iff (parseProfiles : Str → Option (List (Str × ProfileConfig)))
    (idWhitelist : List Str) (json controllerId : Str) :
    (resolveProfile parseProfiles idWhitelist json controllerId).profile.isSome = true ↔
      (matchingEntry idWhitelist controllerId).isSome = true := by
  unfold resolveProfile
  cases hentry : matchingEntry idWhitelist controllerId with
  | none => simp
  | some entry =>
    simp only [Option.isSome_some, iff_true]
    split
    · rfl
    · split
      · rfl
      · split <;> rfl

theorem considerEntry_isSome (controllerId bareId : Str) (best : Option (Str × ℕ × ℕ))
    (entry : Str) :
    (considerEntry controllerId bareId best entry).isSome =
      (best.isSome || (matchRank (trim entry) controllerId bareId).isSome) := by
  unfold considerEntry
  cases hrank : matchRank (trim entry) controllerId bareId with
  | none => simp
  | some rank =>
    cases best with
    | none => rfl
    | some b =>
      simp only [Option.isSome_some, Bool.true_or]
      split <;> rfl

theorem foldl_considerEntry_isSome (controllerId bareId : Str) (entries : List Str)
    (best : Option (Str × ℕ × ℕ)) :
    (entries.foldl (considerEntry controllerId bareId) best).isSome =
      (best.isSome ||
        entries.any fun entry => (matchRank (trim entry) controllerId bareId).isSome) := by
  induction entries generalizing best with
  | nil => simp
  | cons entry entries ih =>
    rw [List.foldl_cons, ih, considerEntry_isSome, List.any_cons, Bool.or_assoc]

theorem matchingEntry_isSome_iff (idWhitelist : List Str) (controllerId : Str) :
    (matchingEntry idWhitelist controllerId).isSome = true ↔
      ∃ x ∈ idWhitelist,
        (matchRank (trim x) (trim controllerId) (IdWhitelist.bareId (trim controllerId))).isSome
          = true := by
  rw [matchingEntry, Option.isSome_map, foldl_considerEntry_isSome]
  simp

theorem matchRank_isSome_of_plain (pattern controllerId bareId : Str)
    (hplain : hasWildcard pattern = false) :
    (matchRank pattern controllerId bareId).isSome =
      (eqIgnoreAsciiCase pattern controllerId || eqIgnoreAsciiCase pattern bareId) := by
  unfold matchRank
  rw [hplain]
  cases eqIgnoreAsciiCase pattern controllerId <;>
    cases eqIgnoreAsciiCase pattern bareId <;> rfl

theorem matchRank_isSome_of_wildcard (pattern controllerId bareId : Str)
    (hwild : hasWildcard pattern = true) :
    (matchRank pattern controllerId bareId).isSome =
      (wildcardMatch pattern controllerId || wildcardMatch pattern bareId) := by
  unfold matchRank
  rw [hwild]
  cases wildcardMatch pattern controllerId <;> cases wildcardMatch pattern bareId <;>
    simp <;> split <;> rfl

/-- White space stands directly before the `@` of the id. -/
def SpaceBeforeAt (controllerId : Str) : Prop :=
  trim (bareId (trim controllerId)) ≠ bareId (trim controllerId)

theorem matchRank_eq_entryAllows (x controllerId : Str) (hwild : hasWildcard (trim x) = true) :
    (matchRank (trim x) (trim controllerId) (bareId (trim controllerId))).isSome =
      entryAllows x controllerId := by
  rw [matchRank_isSome_of_wildcard _ _ _ hwild, entryAllows, wildcardMatch, wildcardMatch,
    IdWhitelist.wildcardMatch, IdWhitelist.wildcardMatch, trim_trim, trim_trim, trim_bareId_trim]

/-- A plain entry has a rank when it equals the trimmed id up to ASCII case, or the
part before the `@` and no white space stands there. -/
theorem matchRank_plain_iff (x controllerId : Str) (hplain : hasWildcard (trim x) = false) :
    (matchRank (trim x) (trim controllerId) (bareId (trim controllerId))).isSome = true ↔
      eqIgnoreAsciiCase (trim x) (trim controllerId) = true ∨
        eqIgnoreAsciiCase (trim x) (trim (bareId controllerId)) = true ∧
          ¬ SpaceBeforeAt controllerId := by
  rw [matchRank_isSome_of_plain _ _ _ hplain, Bool.or_eq_true, SpaceBeforeAt, not_not,
    ← trim_bareId_trim]
  have hbare : eqIgnoreAsciiCase (trim x) (bareId (trim controllerId)) = true ↔
      eqIgnoreAsciiCase (trim x) (trim (bareId (trim controllerId))) = true ∧
        trim (bareId (trim controllerId)) = bareId (trim controllerId) := by
    constructor
    · intro h
      have htrim := trim_eq_self_of_eqIgnoreAsciiCase _ _ h (trim_trim x)
      exact ⟨htrim.symm ▸ h, htrim⟩
    · rintro ⟨h, htrim⟩
      exact htrim ▸ h
  rw [hbare]

/-- The id is admitted, but by plain entries only, and these equal it, or the part before
its `@`, only beyond ASCII case or across white space before the `@`. -/
def LooselyAdmitted (idWhitelist : List Str) (controllerId : Str) : Prop :=
  (∃ x ∈ idWhitelist, entryAllows x controllerId = true) ∧
    ∀ x ∈ idWhitelist,
      (hasWildcard (trim x) = true → entryAllows x controllerId = false) ∧
      (hasWildcard (trim x) = false →
        eqIgnoreAsciiCase (trim x) (trim controllerId) = false ∧
          (eqIgnoreAsciiCase (trim x) (trim (bareId controllerId)) = true →
            SpaceBeforeAt controllerId))

theorem matchRank_isNone_iff (x controllerId : Str) :
    (matchRank (trim x) (trim controllerId) (bareId (trim controllerId))).isSome = false ↔
      (hasWildcard (trim x) = true → entryAllows x controllerId = false) ∧
      (hasWildcard (trim x) = false →
        eqIgnoreAsciiCase (trim x) (trim controllerId) = false ∧
          (eqIgnoreAsciiCase (trim x) (trim (bareId controllerId)) = true →
            SpaceBeforeAt controllerId)) := by
  cases hwild : hasWildcard (trim x) with
  | true =>
    rw [matchRank_eq_entryAllows x controllerId hwild]
    simp
  | false =>
    rw [← Bool.not_eq_true, matchRank_plain_iff x controllerId hwild, not_or, not_and, not_not,
      Bool.not_eq_true]
    simp

/-- An admitted controller has a profile unless it is admitted loosely only. -/
theorem admitted_has_profile_iff (parseProfiles : Str → Option (List (Str × ProfileConfig)))
    (idWhitelist : List Str) (json controllerId : Str) :
    (idWhitelist ≠ [] → idWhitelistAllows idWhitelist controllerId = true →
        (resolveProfile parseProfiles idWhitelist json controllerId).profile.isSome = true) ↔
      ¬ LooselyAdmitted idWhitelist controllerId := by
  rw [resolveProfile_isSome_iff, matchingEntry_isSome_iff]
  have hloose : LooselyAdmitted idWhitelist controllerId ↔
      (∃ x ∈ idWhitelist, entryAllows x controllerId = true) ∧
        ∀ x ∈ idWhitelist,
          (matchRank (trim x) (trim controllerId) (bareId (trim controllerId))).isSome = false := by
    rw [LooselyAdmitted]
    simp only [matchRank_isNone_iff]
  rw [hloose]
  constructor
  · rintro h ⟨⟨x, hx, hallow⟩, hnone⟩
    have hne : idWhitelist ≠ [] := List.ne_nil_of_mem hx
    obtain ⟨y, hy, hrank⟩ := h hne ((idWhitelistAllows_iff _ _ hne).mpr ⟨x, hx, hallow⟩)
    rw [hnone y hy] at hrank
    exact Bool.false_ne_true hrank
  · intro h hne hallows
    by_contra hnone
    refine h ⟨(idWhitelistAllows_iff _ _ hne).mp hallows, ?_⟩
    intro x hx
    rw [← Bool.not_eq_true]
    exact fun hrank => hnone ⟨x, hx, hrank⟩

/-- The entry `123` admits the id `123 @x`, for which no profile is found. -/
theorem admitted_without_profile :
    ¬ ∀ (parseProfiles : Str → Option (List (Str × ProfileConfig)))
      (idWhitelist : List Str) (json controllerId : Str), idWhitelist ≠ [] →
      idWhitelistAllows idWhitelist controllerId = true →
      (resolveProfile parseProfiles idWhitelist json controllerId).profile.isSome = true := by
  intro h
  have hwit := h (fun _ => none) ["123".toList] [] "123 @x".toList (by decide)
  rw [resolveProfile_isSome_iff, matchingEntry_isSome_iff,
    idWhitelistAllows_iff _ _ (by decide)] at hwit
  have hallows : entryAllows "123".toList "123 @x".toList = true := by
    rw [entryAllows, Bool.or_eq_true, wildcardMatch_plain_iff _ _ (by decide) (by decide),
      wildcardMatch_plain_iff _ _ (by decide) (by decide)]
    exact Or.inr (by decide)
  obtain ⟨x, hx, hrank⟩ := hwit ⟨_, List.mem_singleton.mpr rfl, hallows⟩
  obtain rfl := List.mem_singleton.mp hx
  revert hrank
  decide

end ClantoDesk.IdPermissions
