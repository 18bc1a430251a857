import ClantoDesk.Glob

/-!
The ID whitelist of src/server/connection.rs. An entry admits a controller when
it matches the reported id, or the part of that id before its server suffix.
The suffix is reported by the peer itself, so both forms are tried.
-/
namespace ClantoDesk.IdWhitelist

open Text UnicodeCase Glob

def wildcardMatch (pattern text : Str) : Bool :=
  glob (toLowercase (trim pattern)) (toLowercase (trim text))

def bareId (myId : Str) : Str := beforeFirst '@' myId

def entryAllows (entry myId : Str) : Bool :=
  wildcardMatch entry myId || wildcardMatch entry (bareId myId)

def idWhitelistAllows (idWhitelist : List Str) (myId : Str) : Bool :=
  if idWhitelist.isEmpty then true else idWhitelist.any fun x => entryAllows x myId

theorem idWhitelistAllows_iff (idWhitelist : List Str) (myId : Str) (hne : idWhitelist ≠ []) :
    idWhitelistAllows idWhitelist myId = true ↔ ∃ x ∈ idWhitelist, entryAllows x myId = true := by
  have hempty : idWhitelist.isEmpty = false := by simpa using hne
  rw [idWhitelistAllows, hempty]
  simp only [Bool.false_eq_true, if_false, List.any_eq_true]

theorem trim_bareId_trim (myId : Str) : trim (bareId (trim myId)) = trim (bareId myId) :=
  trim_beforeFirst_trim '@' (by decide) myId

theorem not_mem_toLowercase (c : Char) (hc : c.toNat < 65) (s : Str) (hmem : c ∉ s) :
    c ∉ toLowercase s :=
  fun h => hmem (mem_toLowercase_small s c hc h)

theorem wildcardMatch_plain_iff (pattern text : Str)
    (hstar : '*' ∉ trim pattern) (hany : '?' ∉ trim pattern) :
    wildcardMatch pattern text = true ↔
      toLowercase (trim pattern) = toLowercase (trim text) := by
  rw [wildcardMatch, glob_iff]
  exact matches_plain_iff _ _ (not_mem_toLowercase '*' (by decide) _ hstar)
    (not_mem_toLowercase '?' (by decide) _ hany)

end ClantoDesk.IdWhitelist
