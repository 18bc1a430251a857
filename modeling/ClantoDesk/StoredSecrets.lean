import Mathlib.Data.List.Basic
import Mathlib.Tactic.Common
import ClantoDesk.Documents
import ClantoDesk.MachineKeyImport

/-!
The secrets that a configuration holds under a machine key: strings that decrypt, and in strings
that hold JSON the strings and byte arrays that do. A secret has a place in its document. A
document that was encrypted again holds every secret of the old one under the new key, and no
document holds a secret at one place under two keys.
-/
namespace ClantoDesk.StoredSecrets

open Documents Text UserKey MachineKeyImport

/-- A path in the document, and one on in the JSON of the string that it leads to. -/
structure SecretPlace where
  path : List Step
  inner : Option (List Step)

section
variable {O N : Type} (lib : Libraries O N) (key : StoredKey)

def PartOpens : Json N → Bytes → Prop
  | .leaf a, m => JsonLeafOpens lib key a m
  | .array values, m => JsonBytesOpens lib key values m
  | .table _, _ => False

def TextHolds (p : Place) (s : Str) (m : Bytes) : Option (List Step) → Prop
  | none => StringOpens lib key s m
  | some inner => isScoped s = false ∧ isPlainConfig2Secret p.path s = false ∧
      ∃ json q part, lib.parseJson s = some json ∧
        reach places p json inner = some (q, part) ∧ PartOpens lib key part m

def Holds (config : Toml O) (spot : SecretPlace) (m : Bytes) : Prop :=
  ∃ p s, reach places root config spot.path = some (p, .leaf (.string s)) ∧
    TextHolds lib key p s m spot.inner

def FileHolds (file : Option Bytes) (spot : SecretPlace) (m : Bytes) : Prop :=
  ∃ data config, file = some data ∧ lib.parseToml data = some config ∧
    Holds lib key config spot m

end

def SameJson {N : Type} (p : Place) (json json' : Json N) : Prop :=
  Related places (fun _ => false)
    (fun _ a b => b = a ∨ ∃ x y, a = .other x ∧ b = .other y) (fun _ _ _ => False) p json json'

/-- What the fate of the secrets rests on as well: a box opens under one key only, JSON does not
start like an encrypted or an older stored value, and JSON that is printed reads back, up to
numbers that are no unsigned integers. -/
structure Separating {O N : Type} (lib : Libraries O N) : Prop where
  openBox_key : ∀ box nonce key key' m m', lib.openBox box nonce key = some m →
    lib.openBox box nonce key' = some m' → key = key'
  parseJson_start : ∀ s json, lib.parseJson s = some json →
    s ≠ [] ∧ ['0', '0'].isPrefixOf s = false ∧ isScoped s = false
  parseJson_printJson : ∀ json text, lib.printJson json = some text →
    ∃ json', lib.parseJson text = some json' ∧ ∀ p, SameJson p json json'

section
variable {O N : Type} (lib : Libraries O N)

theorem decrypt_key (hsep : Separating lib) (value m m' : Bytes) (key key' : StoredKey)
    (h : decryptMachineValue lib value key = .ok m)
    (h' : decryptMachineValue lib value key' = .ok m') : key = key' := by
  simp only [decryptMachineValue] at h h'
  split at h
  · rename_i hprefix
    rw [if_pos hprefix] at h'
    split at h
    · cases h
    · rename_i payload hpayload
      simp only [hpayload] at h'
      split at h
      · rename_i hformat
        rw [dif_pos hformat] at h'
        split at h
        · rename_i plain hopen
          split at h'
          · rename_i plain' hopen'
            exact hsep.openBox_key _ _ key key' plain plain' hopen hopen'
          · cases h'
        · cases h
      · cases h
  · cases h

theorem partOpens_key (hsep : Separating lib) (part : Json N) (m m' : Bytes)
    (key key' : StoredKey) (h : PartOpens lib key part m) (h' : PartOpens lib key' part m') :
    key = key' := by
  cases part with
  | leaf a =>
    obtain ⟨s, rfl, hs⟩ := h
    rw [PartOpens, jsonLeafOpens_string] at h'
    exact decrypt_key lib hsep _ m m' key key' hs h'
  | array values =>
    obtain ⟨bytes, hbytes, hm⟩ := h
    obtain ⟨bytes', hbytes', hm'⟩ := h'
    obtain rfl := Option.some.inj (hbytes.symm.trans hbytes')
    exact decrypt_key lib hsep _ m m' key key' hm hm'
  | table entries => exact h.elim

theorem holds_key (hsep : Separating lib) (config : Toml O) (spot : SecretPlace) (m m' : Bytes)
    (key key' : StoredKey) (h : Holds lib key config spot m) (h' : Holds lib key' config spot m') :
    key = key' := by
  obtain ⟨p, s, hreach, hs⟩ := h
  obtain ⟨p', s', hreach', hs'⟩ := h'
  obtain ⟨rfl, hleaf⟩ := Prod.mk.inj (Option.some.inj (hreach.symm.trans hreach'))
  cases hleaf
  cases hinner : spot.inner with
  | none =>
    rw [hinner] at hs hs'
    exact decrypt_key lib hsep _ m m' key key' hs hs'
  | some inner =>
    rw [hinner] at hs hs'
    obtain ⟨-, -, json, q, part, hjson, hpart, hm⟩ := hs
    obtain ⟨-, -, json', q', part', hjson', hpart', hm'⟩ := hs'
    obtain rfl := Option.some.inj (hjson.symm.trans hjson')
    obtain ⟨-, rfl⟩ := Prod.mk.inj (Option.some.inj (hpart.symm.trans hpart'))
    exact partOpens_key lib hsep part m m' key key' hm hm'

theorem fileHolds_key (hsep : Separating lib) (file : Option Bytes) (spot : SecretPlace)
    (m m' : Bytes) (key key' : StoredKey) (h : FileHolds lib key file spot m)
    (h' : FileHolds lib key' file spot m') : key = key' := by
  obtain ⟨data, config, hdata, hconfig, hm⟩ := h
  obtain ⟨data', config', hdata', hconfig', hm'⟩ := h'
  obtain rfl := Option.some.inj (hdata.symm.trans hdata')
  obtain rfl := Option.some.inj (hconfig.symm.trans hconfig')
  exact holds_key lib hsep config spot m m' key key' hm hm'

variable (keys : Keys)

variable (p : Place) (values : List (Json N))

theorem isScopedArray_of_opens (key : StoredKey) (m : Bytes)
    (h : JsonBytesOpens lib key values m) : isScopedArray values = true := by
  obtain ⟨bytes, hbytes, hm⟩ := h
  have hprefix : asBytes MACHINE_ENC_VERSION <+: bytes := by
    by_contra hnot
    simp [decryptMachineValue, hnot] at hm
  simp [isScopedArray, hbytes, List.isPrefixOf_iff_prefix.mpr hprefix]

theorem jsonByte_of_mem (bytes : Bytes)
    (h : jsonBytes values = some bytes) (item : Json N) (hitem : item ∈ values) :
    ∃ b, jsonByte item = some b := by
  induction values generalizing bytes with
  | nil => cases hitem
  | cons x xs ih =>
    simp only [jsonBytes, List.mapM_cons, Option.bind_eq_bind, Option.bind_eq_some_iff] at h
    obtain ⟨b, hb, tail, htail, -⟩ := h
    rcases List.mem_cons.mp hitem with rfl | hrest
    · exact ⟨b, hb⟩
    · exact ih tail htail hrest

theorem item_of_isScopedArray (item : Json N)
    (h : isScopedArray values = true) (hitem : item ∈ values) :
    ∃ n, item = .leaf (.unsigned n) := by
  rw [isScopedArray, Option.any_eq_true] at h
  obtain ⟨bytes, hbytes, -⟩ := h
  obtain ⟨b, hb⟩ := jsonByte_of_mem values bytes hbytes item hitem
  unfold jsonByte at hb
  split at hb
  · exact ⟨_, rfl⟩
  · cases hb

theorem not_opens_inside (h : isScopedArray values = true)
    (item part : Json N) (hitem : item ∈ values) (p q : Place) (path : List Step)
    (hpart : reach places p item path = some (q, part)) (key : StoredKey) (m : Bytes) :
    ¬PartOpens lib key part m := by
  obtain ⟨n, rfl⟩ := item_of_isScopedArray values item h hitem
  cases path with
  | nil =>
    obtain ⟨-, rfl⟩ := Prod.mk.inj (Option.some.inj hpart)
    rintro ⟨s, hs, -⟩
    cases hs
  | cons step path => simp [reach, child] at hpart

theorem opening_part (R : Place → JsonLeaf N → JsonLeaf N → Prop)
    (W : Place → List (Json N) → List (Json N) → Prop) (p q : Place) (json json' part : Json N)
    (path : List Step) (key : StoredKey) (m : Bytes)
    (h : Related places isScopedArray R W p json json')
    (hpart : reach places p json path = some (q, part)) (hm : PartOpens lib key part m) :
    ∃ part', reach places p json' path = some (q, part') ∧
      Related places isScopedArray R W q part part' := by
  rcases related_reach places isScopedArray R W p q json json' part path h hpart with
    hfound | ⟨values, hwhole, item, hitem, p', rest, hinside⟩
  · exact hfound
  · exact (not_opens_inside lib values hwhole item part hitem p' q rest hinside key m hm).elim

theorem partOpens_carried (part part' : Json N) (m : Bytes)
    (h : JsonCarried lib keys p part part') (hm : PartOpens lib keys.old part m) :
    PartOpens lib keys.new part' m := by
  cases part with
  | leaf a =>
    cases part' with
    | leaf b => exact h.1 m hm
    | array ys => exact h.elim
    | table ys => exact h.elim
  | array xs =>
    cases part' with
    | leaf b => exact h.elim
    | table ys => exact h.elim
    | array ys =>
      simp only [JsonCarried, Related, isScopedArray_of_opens lib xs keys.old m hm, if_true] at h
      exact h.1 m hm
  | table xs => exact hm.elim

theorem not_unreadable (q : Place) (json part : Json N) (path : List Step) (m : Bytes)
    (hpart : reach places p json path = some (q, part)) (hm : PartOpens lib keys.old part m) :
    ¬JsonUnreadable lib keys p json := by
  intro hunread
  obtain ⟨part', hpart', hrelated⟩ :=
    opening_part lib _ _ p q json json part path keys.old m hunread hpart hm
  obtain ⟨-, rfl⟩ := Prod.mk.inj (Option.some.inj (hpart.symm.trans hpart'))
  cases part with
  | leaf a => exact hrelated m hm
  | array xs =>
    simp only [Related, isScopedArray_of_opens lib xs keys.old m hm, if_true] at hrelated
    exact hrelated m hm
  | table xs => exact hm.elim

theorem sameJson_numbers (i : ℕ) (xs ys : List (Json N)) (bytes : Bytes)
    (h : RelatedItems places (fun _ => false)
      (fun _ a b => b = a ∨ ∃ x y, a = .other x ∧ b = .other y) (fun _ _ _ => False) p i xs ys)
    (hbytes : jsonBytes xs = some bytes) : jsonBytes ys = some bytes := by
  induction xs generalizing i ys bytes with
  | nil =>
    cases ys with
    | nil => exact hbytes
    | cons y ys => exact h.elim
  | cons x xs ih =>
    cases ys with
    | nil => exact h.elim
    | cons y ys =>
      obtain ⟨hxy, hrest⟩ := h
      simp only [jsonBytes, List.mapM_cons, Option.bind_eq_bind, Option.bind_eq_some_iff,
        Option.pure_def] at hbytes ⊢
      obtain ⟨b, hb, tail, htail, heq⟩ := hbytes
      refine ⟨b, ?_, tail, ih (i + 1) ys tail hrest htail, heq⟩
      unfold jsonByte at hb
      split at hb
      · cases y with
        | leaf a =>
          rcases hxy with rfl | ⟨x, y, hx, -⟩
          · exact hb
          · cases hx
        | array zs => exact hxy.elim
        | table zs => exact hxy.elim
      · cases hb

theorem partOpens_same (part part' : Json N) (key : StoredKey) (m : Bytes)
    (h : SameJson p part part') (hm : PartOpens lib key part m) : PartOpens lib key part' m := by
  cases part with
  | leaf a =>
    obtain ⟨s, rfl, hs⟩ := hm
    cases part' with
    | leaf b =>
      rcases h with rfl | ⟨x, y, hx, -⟩
      · exact ⟨s, rfl, hs⟩
      · cases hx
    | array ys => exact h.elim
    | table ys => exact h.elim
  | array xs =>
    obtain ⟨bytes, hbytes, hm⟩ := hm
    cases part' with
    | leaf b => exact h.elim
    | table ys => exact h.elim
    | array ys =>
      simp only [SameJson, Related, Bool.false_eq_true, if_false] at h
      exact ⟨bytes, sameJson_numbers p 0 xs ys bytes h hbytes, hm⟩
  | table xs => exact hm.elim

/-- Whether JSON at a path counts as a plain secret does not depend on its text. -/
theorem not_plain_of_json (hsep : Separating lib) (path s t : Str) (json json' : Json N)
    (hs : lib.parseJson s = some json) (ht : lib.parseJson t = some json')
    (hplain : isPlainConfig2Secret path s = false) : isPlainConfig2Secret path t = false := by
  obtain ⟨hs₁, hs₂, -⟩ := hsep.parseJson_start s json hs
  obtain ⟨ht₁, ht₂, -⟩ := hsep.parseJson_start t json' ht
  simpa [isPlainConfig2Secret, hs₁, hs₂, ht₁, ht₂] using hplain

theorem textHolds_carried (hsep : Separating lib) (p : Place) (s t : Str) (m : Bytes)
    (inner : Option (List Step)) (h : TextCarried lib keys p s t)
    (hm : TextHolds lib keys.old p s m inner) : TextHolds lib keys.new p t m inner := by
  cases inner with
  | none =>
    have hscoped : isScoped s = true := by
      by_contra hnot
      exact not_opens_of_not_scoped lib s (by simpa using hnot) keys.old m hm
    rw [TextCarried, if_pos hscoped] at h
    exact h.1 m hm
  | some inner =>
    obtain ⟨hscoped, hplain, json, q, part, hjson, hpart, hm⟩ := hm
    simp only [TextCarried, hscoped, hplain, Bool.false_eq_true, if_false, hjson] at h
    obtain ⟨json', hcarried, hprint⟩ :=
      h.2 (not_unreadable lib keys p q json part inner m hpart hm)
    obtain ⟨part', hpart', hpartCarried⟩ :=
      opening_part lib _ _ p q json json' part inner keys.old m hcarried hpart hm
    obtain ⟨json'', hjson'', hsame⟩ := hsep.parseJson_printJson json' t hprint
    rcases related_reach places _ _ _ p q json' json'' part' inner (hsame p) hpart' with
      ⟨part'', hpart'', hpartSame⟩ | ⟨values, hwhole, -⟩
    · refine ⟨(hsep.parseJson_start t json'' hjson'').2.2,
        not_plain_of_json lib hsep p.path s t json json'' hjson hjson'' hplain, json'', q, part'',
        hjson'', hpart'', ?_⟩
      exact partOpens_same lib q part' part'' keys.new m hpartSame
        (partOpens_carried lib keys q part part' m hpartCarried hm)
    · cases hwhole

/-- A document that was encrypted again holds every secret of the old one under the new key. -/
theorem holds_carried (hsep : Separating lib) (config config' : Toml O) (spot : SecretPlace)
    (m : Bytes) (h : ConfigCarried lib keys config config')
    (hm : Holds lib keys.old config spot m) : Holds lib keys.new config' spot m := by
  obtain ⟨p, s, hreach, hs⟩ := hm
  rcases related_reach places _ _ _ root p config config' _ spot.path h hreach with
    ⟨part, hpart, hrelated⟩ | ⟨values, hwhole, -⟩
  · cases part with
    | leaf b =>
      obtain ⟨t, rfl, ht⟩ := hrelated
      exact ⟨p, t, hpart, textHolds_carried lib keys hsep p s t m spot.inner ht hs⟩
    | array ys => exact hrelated.elim
    | table ys => exact hrelated.elim
  · cases hwhole

end

end ClantoDesk.StoredSecrets
