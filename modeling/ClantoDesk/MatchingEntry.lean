import ClantoDesk.IdPermissions

/-!
The entry that decides the profile of a controller, src/clanto/id_permissions.rs. The matcher of
patterns compares the lowercase forms of trimmed texts. The lookup keeps the best entry it
has seen; an entry matches as the full id, as the part before the server, as a pattern with
a number of literal characters, or as the catch-all, in this order of precedence.
-/
namespace ClantoDesk.MatchingEntry

open Text UnicodeCase Glob IdWhitelist IdPermissions

/-! ### Patterns -/

def SameIgnoringCase (a c : Char) : Prop := lowerSimple a = lowerSimple c

variable (id entry : Str) (parseProfiles : Str → Option (List (Str × ProfileConfig)))

theorem wildcardMatch_iff (pattern text : Str) :
    IdPermissions.wildcardMatch pattern text = true ↔
      Matches (toLowercase (trim pattern)) (toLowercase (trim text)) := glob_iff _ _

theorem wildcardMatch_simple_iff (pattern text : Str) (hpattern : ∀ c ∈ trim pattern, Simple c)
    (htext : ∀ c ∈ trim text, Simple c) :
    IdPermissions.wildcardMatch pattern text = true ↔
      MatchesBy SameIgnoringCase (trim pattern) (trim text) := by
  rw [wildcardMatch_iff, toLowercase_of_simple _ hpattern, toLowercase_of_simple _ htext]
  apply matches_map_iff
  · intro c hc
    refine ⟨eq_of_lowerSimple_small c '*' (hpattern c hc) (by decide), ?_⟩
    rintro rfl
    decide
  · intro c hc
    refine ⟨eq_of_lowerSimple_small c '?' (hpattern c hc) (by decide), ?_⟩
    rintro rfl
    decide

/-- The matcher decides whether the lowercase form of the trimmed text is an instance of that of the
trimmed pattern. Where every character has a lowercase form of its own, that is matching up to
case. -/
theorem wildcardMatch_spec (pattern text : Str) :
    (IdPermissions.wildcardMatch pattern text = true ↔
      Matches (toLowercase (trim pattern)) (toLowercase (trim text))) ∧
    ((∀ c ∈ trim pattern, Simple c) → (∀ c ∈ trim text, Simple c) →
      (IdPermissions.wildcardMatch pattern text = true ↔
        MatchesBy SameIgnoringCase (trim pattern) (trim text))) :=
  ⟨wildcardMatch_iff pattern text, wildcardMatch_simple_iff pattern text⟩

/-- The pattern `1` with a blank before it matches the text `1`. -/
theorem wildcardMatch_trims :
    ¬ ∀ (pattern text : Str), IdPermissions.wildcardMatch pattern text = true ↔
      MatchesBy SameIgnoringCase pattern text := by
  intro hall
  have hmatch : IdPermissions.wildcardMatch " 1".toList "1".toList = true := by
    rw [wildcardMatch_iff]
    have hpattern : toLowercase (trim " 1".toList) = ['1'] := by decide
    have htext : toLowercase (trim "1".toList) = ['1'] := by decide
    rw [hpattern, htext]
    exact .char (by decide) .nil
  cases (hall " 1".toList "1".toList).mp hmatch with
  | char _ _ _ hrest => cases hrest

/-! ### Precedence -/

inductive Class
  | fullId
  | bareId
  | pattern (literals : ℕ)
  | catchAll

/-- The first class has the lower precedence. -/
def Class.Below : Class → Class → Prop
  | .catchAll, .catchAll => False
  | .catchAll, _ => True
  | .pattern _, .catchAll => False
  | .pattern m, .pattern n => m < n
  | .pattern _, _ => True
  | .bareId, .fullId => True
  | .bareId, _ => False
  | .fullId, _ => False

def literals (entry : Str) : ℕ := (entry.filter fun c => !isWildcard c).length

inductive MatchesAs (id entry : Str) : Class → Prop
  | fullId : hasWildcard entry = false → eqIgnoreAsciiCase entry id = true →
      MatchesAs id entry .fullId
  | bareId : hasWildcard entry = false → eqIgnoreAsciiCase entry id = false →
      eqIgnoreAsciiCase entry (IdWhitelist.bareId id) = true → MatchesAs id entry .bareId
  | pattern : hasWildcard entry = true → entry ≠ ['*'] →
      (IdPermissions.wildcardMatch entry id = true ∨
        IdPermissions.wildcardMatch entry (IdWhitelist.bareId id) = true) →
      MatchesAs id entry (.pattern (literals entry))
  | catchAll : entry = ['*'] → MatchesAs id entry .catchAll

def Class.rank (id : Str) : Class → ℕ × ℕ
  | .fullId => (3, id.length)
  | .bareId => (2, (IdWhitelist.bareId id).length)
  | .pattern literals => (1, literals)
  | .catchAll => (0, 0)

theorem rankGt_iff (a b : Class) : rankGt (a.rank id) (b.rank id) = true ↔ b.Below a := by
  cases a <;> cases b <;> simp [rankGt, Class.rank, Class.Below]

theorem below_trichotomy (a b : Class) : a.Below b ∨ a = b ∨ b.Below a := by
  cases a with
  | pattern m =>
    cases b with
    | pattern n =>
      rcases Nat.lt_trichotomy m n with h | h | h
      · exact Or.inl h
      · exact Or.inr (Or.inl (congrArg Class.pattern h))
      · exact Or.inr (Or.inr h)
    | _ => simp [Class.Below]
  | _ => cases b <;> simp [Class.Below]

theorem length_eq_of_eqIgnoreAsciiCase (a b : Str) (h : eqIgnoreAsciiCase a b = true) :
    a.length = b.length := by
  simpa only [List.length_map] using congrArg List.length ((eqIgnoreAsciiCase_iff a b).mp h)

theorem wildcardMatch_star (text : Str) : IdPermissions.wildcardMatch ['*'] text = true := by
  rw [wildcardMatch_iff]
  have hpattern : toLowercase (trim ['*']) = ['*'] := by decide
  rw [hpattern, matches_star_iff]
  exact ⟨_, le_refl _, by rw [List.drop_length]; exact .nil⟩

theorem hasWildcard_star : hasWildcard ['*'] = true := by decide

theorem matchRank_of_matchesAs (c : Class) (h : MatchesAs id entry c) :
    matchRank entry id (IdWhitelist.bareId id) = some (c.rank id) := by
  unfold matchRank
  cases h with
  | fullId hplain hfull =>
    rw [hplain, hfull]
    simp [Class.rank, length_eq_of_eqIgnoreAsciiCase entry id hfull]
  | bareId hplain hfull hbare =>
    rw [hplain, hfull, hbare]
    simp [Class.rank, length_eq_of_eqIgnoreAsciiCase entry _ hbare]
  | pattern hwild hne hmatch =>
    have hsome : (!IdPermissions.wildcardMatch entry id &&
        !IdPermissions.wildcardMatch entry (IdWhitelist.bareId id)) = false := by
      rcases hmatch with h | h
      · rw [h]
        rfl
      · rw [h, Bool.not_true, Bool.and_false]
    rw [hwild, hsome]
    simp [Class.rank, literals, hne]
  | catchAll hstar =>
    rw [hstar, hasWildcard_star, wildcardMatch_star]
    rfl

theorem matchesAs_of_matchRank (rank : ℕ × ℕ)
    (h : matchRank entry id (IdWhitelist.bareId id) = some rank) : ∃ c, MatchesAs id entry c := by
  unfold matchRank at h
  cases hwild : hasWildcard entry with
  | false =>
    simp only [hwild, Bool.not_false, if_true] at h
    split at h
    · rename_i hfull
      exact ⟨_, .fullId hwild hfull⟩
    · rename_i hfull
      split at h
      · rename_i hbare
        exact ⟨_, .bareId hwild (Bool.not_eq_true _ ▸ hfull) hbare⟩
      · cases h
  | true =>
    by_cases hstar : entry = ['*']
    · exact ⟨_, .catchAll hstar⟩
    · simp only [hwild, Bool.not_true, Bool.false_eq_true, if_false] at h
      split at h
      · cases h
      · rename_i hmatch
        refine ⟨_, .pattern hwild hstar ?_⟩
        by_contra hnone
        obtain ⟨hfull, hbare⟩ := not_or.mp hnone
        exact hmatch (by simp [hfull, hbare])

theorem matchRank_iff (rank : ℕ × ℕ) :
    matchRank entry id (IdWhitelist.bareId id) = some rank ↔
      ∃ c, MatchesAs id entry c ∧ rank = c.rank id := by
  constructor
  · intro h
    obtain ⟨c, hc⟩ := matchesAs_of_matchRank id entry rank h
    rw [matchRank_of_matchesAs id entry c hc] at h
    exact ⟨c, hc, (Option.some.inj h).symm⟩
  · rintro ⟨c, hc, rfl⟩
    exact matchRank_of_matchesAs id entry c hc

/-! ### The lookup -/

theorem rankGt_self (r : ℕ × ℕ) : rankGt r r = false := by
  simp [rankGt]

theorem below_trans (a b c : Class) (hab : a.Below b) (hbc : b.Below c) : a.Below c := by
  cases a <;> cases b <;> cases c <;> simp_all [Class.Below]
  omega

theorem not_below_of_same (c c' : Class) (h : MatchesAs id entry c)
    (h' : MatchesAs id entry c') : ¬ c.Below c' := by
  have heq := (matchRank_of_matchesAs id entry c h).symm.trans
    (matchRank_of_matchesAs id entry c' h')
  rw [← rankGt_iff id, ← Option.some.inj heq, rankGt_self]
  exact Bool.false_ne_true

def IsBest (id : Str) (seen : List Str) : Option (Str × ℕ × ℕ) → Prop
  | none => ∀ x ∈ seen, ∀ c, ¬ MatchesAs id (trim x) c
  | some (entry, rank) => ∃ x ∈ seen, trim x = entry ∧ ∃ c, MatchesAs id entry c ∧
      rank = c.rank id ∧ ∀ y ∈ seen, ∀ c', MatchesAs id (trim y) c' → ¬ c.Below c'

theorem isBest_consider (seen : List Str) (best : Option (Str × ℕ × ℕ)) (entry : Str)
    (h : IsBest id seen best) :
    IsBest id (seen ++ [entry]) (considerEntry id (IdWhitelist.bareId id) best entry) := by
  unfold considerEntry
  cases hrank : matchRank (trim entry) id (IdWhitelist.bareId id) with
  | none =>
    have hnone : ∀ c, ¬ MatchesAs id (trim entry) c := by
      intro c hc
      rw [matchRank_of_matchesAs id _ c hc] at hrank
      cases hrank
    cases best with
    | none =>
      intro x hx
      rcases List.mem_append.mp hx with hx | hx
      · exact h x hx
      · rw [List.mem_singleton.mp hx]
        exact hnone
    | some b =>
      obtain ⟨x, hx, htrim, c, hc, hr, hmax⟩ := h
      refine ⟨x, List.mem_append_left _ hx, htrim, c, hc, hr, fun y hy c' hc' => ?_⟩
      rcases List.mem_append.mp hy with hy | hy
      · exact hmax y hy c' hc'
      · rw [List.mem_singleton.mp hy] at hc'
        exact absurd hc' (hnone c')
  | some rank =>
    obtain ⟨c, hc, rfl⟩ := (matchRank_iff id (trim entry) rank).mp hrank
    cases best with
    | none =>
      refine ⟨entry, by simp, rfl, c, hc, rfl, fun y hy c' hc' => ?_⟩
      rcases List.mem_append.mp hy with hy | hy
      · exact absurd hc' (h y hy c')
      · rw [List.mem_singleton.mp hy] at hc'
        exact not_below_of_same id _ c c' hc hc'
    | some b =>
      obtain ⟨best, bestRank⟩ := b
      obtain ⟨x, hx, htrim, old, hold, rfl, hmax⟩ := h
      simp only
      split
      · rename_i hgt
        have hbelow := (rankGt_iff id c old).mp hgt
        refine ⟨entry, by simp, rfl, c, hc, rfl, fun y hy c' hc' => ?_⟩
        rcases List.mem_append.mp hy with hy | hy
        · exact fun h => hmax y hy c' hc' (below_trans old c c' hbelow h)
        · rw [List.mem_singleton.mp hy] at hc'
          exact not_below_of_same id _ c c' hc hc'
      · rename_i hle
        refine ⟨x, List.mem_append_left _ hx, htrim, old, hold, rfl, fun y hy c' hc' => ?_⟩
        rcases List.mem_append.mp hy with hy | hy
        · exact hmax y hy c' hc'
        · rw [List.mem_singleton.mp hy] at hc'
          have hsame := (matchRank_of_matchesAs id _ c hc).symm.trans
            (matchRank_of_matchesAs id _ c' hc')
          rw [← rankGt_iff id, ← Option.some.inj hsame]
          exact hle

theorem isBest_foldl (entries seen : List Str) (best : Option (Str × ℕ × ℕ))
    (h : IsBest id seen best) :
    IsBest id (seen ++ entries)
      (entries.foldl (considerEntry id (IdWhitelist.bareId id)) best) := by
  induction entries generalizing seen best with
  | nil => simpa using h
  | cons entry entries ih =>
    have hnext := ih (seen ++ [entry]) _ (isBest_consider id seen best entry h)
    simpa only [List.append_assoc, List.singleton_append, List.foldl_cons] using hnext

theorem matchingEntry_best (idWhitelist : List Str) (controllerId : Str) :
    (matchingEntry idWhitelist controllerId = none ↔
      ∀ x ∈ idWhitelist, ∀ c, ¬ MatchesAs (trim controllerId) (trim x) c) ∧
    ∀ entry, matchingEntry idWhitelist controllerId = some entry →
      ∃ x ∈ idWhitelist, trim x = entry ∧ ∃ c, MatchesAs (trim controllerId) entry c ∧
        ∀ y ∈ idWhitelist, ∀ c', MatchesAs (trim controllerId) (trim y) c' → ¬ c.Below c' := by
  have hbest := isBest_foldl (trim controllerId) idWhitelist [] none
    (fun x hx => absurd hx List.not_mem_nil)
  rw [List.nil_append] at hbest
  rw [matchingEntry]
  cases hfold : idWhitelist.foldl
      (considerEntry (trim controllerId) (IdWhitelist.bareId (trim controllerId))) none with
  | none =>
    rw [hfold] at hbest
    exact ⟨⟨fun _ => hbest, fun _ => rfl⟩, fun entry h => by cases h⟩
  | some b =>
    obtain ⟨best, bestRank⟩ := b
    rw [hfold] at hbest
    obtain ⟨x, hx, htrim, c, hc, -, hmax⟩ := hbest
    refine ⟨⟨fun h => absurd h (Option.some_ne_none best),
      fun h => absurd (htrim ▸ hc) (h x hx c)⟩, ?_⟩
    intro entry h
    obtain rfl := Option.some.inj h
    exact ⟨x, hx, htrim, c, hc, hmax⟩

/-- Entries that match with the same precedence are the same up to case. -/
def NoTies (idWhitelist : List Str) (controllerId : Str) : Prop :=
  ∀ x ∈ idWhitelist, ∀ y ∈ idWhitelist, ∀ c, MatchesAs (trim controllerId) (trim x) c →
    MatchesAs (trim controllerId) (trim y) c → eqIgnoreAsciiCase (trim x) (trim y) = true

/-- Two lookups over the same entries find the same one up to case. -/
theorem matchingEntry_same (l l' : List Str) (controllerId : Str) (hties : NoTies l controllerId)
    (hsame : ∀ x, x ∈ l' ↔ x ∈ l) :
    (matchingEntry l controllerId = none ∧ matchingEntry l' controllerId = none) ∨
      ∃ e e', matchingEntry l controllerId = some e ∧ matchingEntry l' controllerId = some e' ∧
        e.map Char.toLower = e'.map Char.toLower := by
  obtain ⟨hnone, hsome⟩ := matchingEntry_best l controllerId
  obtain ⟨hnone', hsome'⟩ := matchingEntry_best l' controllerId
  cases hfirst : matchingEntry l controllerId with
  | none =>
    refine Or.inl ⟨rfl, hnone'.mpr fun x hx => ?_⟩
    exact hnone.mp hfirst x ((hsame x).mp hx)
  | some e =>
    obtain ⟨x, hx, rfl, c, hc, hmax⟩ := hsome e hfirst
    cases hsecond : matchingEntry l' controllerId with
    | none => exact absurd hc (hnone'.mp hsecond x ((hsame x).mpr hx) c)
    | some e' =>
      obtain ⟨y, hy, rfl, c', hc', hmax'⟩ := hsome' e' hsecond
      refine Or.inr ⟨_, _, rfl, rfl, ?_⟩
      have hy' := (hsame y).mp hy
      rcases below_trichotomy c c' with h | rfl | h
      · exact absurd h (hmax y hy' c' hc')
      · exact (eqIgnoreAsciiCase_iff _ _).mp (hties x hx y hy' c hc hc')
      · exact absurd h (hmax' x ((hsame x).mpr hx) c hc)

/-- The profile depends on the entry that is found only up to case. -/
theorem resolveProfile_congr (l l' : List Str) (json controllerId e e' : Str)
    (h : matchingEntry l controllerId = some e) (h' : matchingEntry l' controllerId = some e')
    (heq : e.map Char.toLower = e'.map Char.toLower) :
    resolveProfile parseProfiles l' json controllerId =
      resolveProfile parseProfiles l json controllerId := by
  have hkeys : (fun p : Str × ProfileConfig => eqIgnoreAsciiCase p.1 e') =
      fun p => eqIgnoreAsciiCase p.1 e := by
    funext p
    rw [eqIgnoreAsciiCase, eqIgnoreAsciiCase, heq]
  simp only [resolveProfile, h, h', hkeys]

theorem resolveProfile_same
    (l l' : List Str) (json controllerId : Str) (hties : NoTies l controllerId)
    (hsame : ∀ x, x ∈ l' ↔ x ∈ l) :
    resolveProfile parseProfiles l' json controllerId =
      resolveProfile parseProfiles l json controllerId := by
  rcases matchingEntry_same l l' controllerId hties hsame with ⟨h, h'⟩ | ⟨e, e', h, h', heq⟩
  · rw [resolveProfile, resolveProfile, h, h']
  · exact resolveProfile_congr parseProfiles l l' json controllerId e e' h h' heq

/-- A listed id gets the profile that allows nothing when the stored text is not blank and is
not read. -/
theorem resolveProfile_invalid (l : List Str) (json controllerId : Str) (hjson : trim json ≠ [])
    (hparse : parseProfiles json = none)
    (hlisted : ∃ x ∈ l, ∃ c, MatchesAs (trim controllerId) (trim x) c) :
    resolveProfile parseProfiles l json controllerId = ⟨some .view, true⟩ := by
  obtain ⟨x, hx, c, hc⟩ := hlisted
  rw [resolveProfile]
  cases hentry : matchingEntry l controllerId with
  | none => exact absurd hc ((matchingEntry_best l controllerId).1.mp hentry x hx c)
  | some entry =>
    simp only
    rw [if_neg (mt List.isEmpty_iff.mp hjson), hparse]

theorem view_allows (permission : Permission) :
    ResolvedProfile.view.allows permission = false := rfl

/-- The lookup finds an entry of the highest precedence, or none when no entry matches; entries that
do not tie may stand in any order; and a stored text that is not read leaves listed ids with the
profile that only views. A blank text is not stored profiles. -/
theorem profile_lookup (parseProfiles : Str → Option (List (Str × ProfileConfig)))
    (l : List Str) (json controllerId : Str) :
    (matchingEntry l controllerId = none ↔
      ∀ x ∈ l, ∀ c, ¬ MatchesAs (trim controllerId) (trim x) c) ∧
    (∀ entry, matchingEntry l controllerId = some entry →
      ∃ x ∈ l, trim x = entry ∧ ∃ c, MatchesAs (trim controllerId) entry c ∧
        ∀ y ∈ l, ∀ c', MatchesAs (trim controllerId) (trim y) c' → ¬ c.Below c') ∧
    (NoTies l controllerId → ∀ l' : List Str, (∀ x, x ∈ l' ↔ x ∈ l) →
      resolveProfile parseProfiles l' json controllerId =
        resolveProfile parseProfiles l json controllerId) ∧
    (trim json ≠ [] → parseProfiles json = none →
      (∃ x ∈ l, ∃ c, MatchesAs (trim controllerId) (trim x) c) →
      resolveProfile parseProfiles l json controllerId = ⟨some .view, true⟩ ∧
        ∀ permission, ResolvedProfile.view.allows permission = false) := by
  obtain ⟨hnone, hbest⟩ := matchingEntry_best l controllerId
  refine ⟨hnone, hbest, ?_, ?_⟩
  · intro hties l' hsame
    exact resolveProfile_same parseProfiles l l' json controllerId hties hsame
  · intro hjson hparse hlisted
    exact ⟨resolveProfile_invalid parseProfiles l json controllerId hjson hparse hlisted,
      view_allows⟩

/-- A text that is not read, and an id that is listed in full. -/
theorem profile_lookup_sample :
    resolveProfile (fun _ => none) ["1*".toList, "12".toList] "x".toList "12".toList =
      ⟨some .view, true⟩ :=
  ((profile_lookup (fun _ => none) ["1*".toList, "12".toList] "x".toList "12".toList).2.2.2
    (by decide) rfl
    ⟨"12".toList, by decide, .fullId, .fullId (by decide) (by decide)⟩).1

/-- One blank is no JSON, and gives the full profile. -/
theorem blank_json_full :
    ¬ ∀ (parseProfiles : Str → Option (List (Str × ProfileConfig))) (l : List Str)
      (json controllerId : Str), parseProfiles json = none →
      (∃ x ∈ l, ∃ c, MatchesAs (trim controllerId) (trim x) c) →
      (resolveProfile parseProfiles l json controllerId).profile = some .view := by
  intro hall
  have hview := hall (fun _ => none) ["1".toList] " ".toList "1".toList rfl
    ⟨"1".toList, by decide, .fullId, .fullId (by decide) (by decide)⟩
  revert hview
  decide

end ClantoDesk.MatchingEntry
