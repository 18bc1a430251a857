import Mathlib.Data.List.Basic
import Mathlib.Tactic.Common
import ClantoDesk.Documents
import ClantoDesk.Text
import ClantoDesk.UserKey

/-!
The import of a machine key. The key file of a profile takes the place of the service's, and
what the service's Config2 holds encrypted under the old key is first encrypted again under the
new one: strings, and the strings and byte arrays of strings that hold JSON. The two files are
replaced one after the other, and the old key is put back when the second cannot be replaced.
-/
namespace ClantoDesk.MachineKeyImport

open Documents Text UserKey
open UnicodeCase (forall_mem_of_all)

def MACHINE_ENC_VERSION : Str := ['0', '2']
def SCOPED_KEY_FORMAT_V1 : UInt8 := 1
def NONCEBYTES : ℕ := 24
def MACBYTES : ℕ := 16

abbrev Nonce := { bytes : Bytes // bytes.length = NONCEBYTES }

def asBytes (s : Str) : Bytes := s.flatMap String.utf8EncodeChar

inductive TomlLeaf (O : Type)
  | string (s : Str)
  | other (x : O)

inductive JsonLeaf (N : Type)
  | string (s : Str)
  | unsigned (n : ℕ)
  | other (x : N)

abbrev Toml (O : Type) := Doc (TomlLeaf O)
abbrev Json (N : Type) := Doc (JsonLeaf N)

/-- Base64, the authenticated encryption of `secretbox`, and the two document formats. A TOML file
that is no text of UTF-8 does not parse. -/
structure Libraries (O N : Type) where
  encode64 : Bytes → Str
  decode64 : Bytes → Option Bytes
  sealBox : Bytes → Nonce → StoredKey → Bytes
  openBox : Bytes → Nonce → StoredKey → Option Bytes
  parseJson : Str → Option (Json N)
  printJson : Json N → Option Str
  parseToml : Bytes → Option (Toml O)
  printToml : Toml O → Option Bytes

/-- Where a value stands in a document, and the dotted path that the code knows it by. -/
structure Place where
  pos : List ℕ
  path : Str

def configPath (parent child : Str) : Str :=
  if parent = [] then child else parent ++ '.' :: child

def places : Steps Place where
  item p i := ⟨p.pos ++ [i], configPath p.path (Nat.toDigits 10 i)⟩
  entry p i name := ⟨p.pos ++ [i], configPath p.path name⟩

def root : Place := ⟨[], []⟩

section
variable {O N : Type} (lib : Libraries O N)

def decryptMachineValue (value : Bytes) (key : StoredKey) : Except String Bytes :=
  if asBytes MACHINE_ENC_VERSION <+: value then
    match lib.decode64 (value.drop (asBytes MACHINE_ENC_VERSION).length) with
    | none => .error "invalid base64 payload"
    | some payload =>
      let nonceEnd := 1 + NONCEBYTES
      if h : payload.head? = some SCOPED_KEY_FORMAT_V1 ∧ nonceEnd + MACBYTES ≤ payload.length then
        let nonce : Nonce := ⟨(payload.take nonceEnd).drop 1, by
          simp only [List.length_drop, List.length_take]
          omega⟩
        match lib.openBox (payload.drop nonceEnd) nonce key with
        | some plain => .ok plain
        | none => .error "credential authentication failed"
      else .error "invalid encrypted payload"
  else .error "not a machine-scoped credential"

/-- The text whose bytes `encrypt_machine_value` gives. -/
def encryptMachineText (value : Bytes) (key : StoredKey) (nonce : Nonce) : Str :=
  MACHINE_ENC_VERSION ++
    lib.encode64 (SCOPED_KEY_FORMAT_V1 :: (nonce.val ++ lib.sealBox value nonce key))

def encryptMachineValue (value : Bytes) (key : StoredKey) (nonce : Nonce) : Bytes :=
  asBytes (encryptMachineText lib value key nonce)

def isScoped (s : Str) : Bool := (asBytes MACHINE_ENC_VERSION).isPrefixOf (asBytes s)

def isPlainConfig2Secret (path value : Str) : Bool :=
  value != [] && !(['0', '0'].isPrefixOf value) &&
    ["unlock_pin".toList, "trusted_devices".toList, "socks.password".toList].contains path

/-- The keys of an import, and the nonce that is drawn for each place. -/
structure Keys where
  old : StoredKey
  new : StoredKey
  nonce : List ℕ → Nonce

variable (keys : Keys)

def reencryptString (pos : List ℕ) (stored : Str) : Str × Bool :=
  match decryptMachineValue lib (asBytes stored) keys.old with
  | .ok plain => (encryptMachineText lib plain keys.new (keys.nonce pos), true)
  | .error _ => (stored, false)

def jsonByte : Json N → Option UInt8
  | .leaf (.unsigned n) => if n < 256 then some n.toUInt8 else none
  | _ => none

def jsonBytes (values : List (Json N)) : Option Bytes := values.mapM jsonByte

def ofBytes (bytes : Bytes) : List (Json N) := bytes.map fun b => .leaf (.unsigned b.toNat)

def isScopedArray (values : List (Json N)) : Bool :=
  (jsonBytes values).any fun bytes => (asBytes MACHINE_ENC_VERSION).isPrefixOf bytes

def jsonRewriter : Rewriter (JsonLeaf N) Place where
  leaf p
    | .string stored =>
      if isScoped stored then
        let r := reencryptString lib keys p.pos stored
        some (.string r.1, r.2)
      else some (.string stored, false)
    | a => some (a, false)
  whole p values :=
    match jsonBytes values with
    | none => some (values, false)
    | some bytes =>
      match decryptMachineValue lib bytes keys.old with
      | .ok plain =>
        some (ofBytes (encryptMachineValue lib plain keys.new (keys.nonce p.pos)), true)
      | .error _ => some (values, false)

def reencryptJsonValue (p : Place) (json : Json N) : Option (Json N × Bool) :=
  walk places isScopedArray (jsonRewriter lib keys) p json

def tomlRewriter : Rewriter (TomlLeaf O) Place where
  leaf p
    | .string stored =>
      if isScoped stored then
        let r := reencryptString lib keys p.pos stored
        some (.string r.1, r.2)
      else if isPlainConfig2Secret p.path stored then
        some (.string (encryptMachineText lib (asBytes stored) keys.new (keys.nonce p.pos)), true)
      else
        match lib.parseJson stored with
        | none => some (.string stored, false)
        | some json =>
          (reencryptJsonValue lib keys p json).bind fun r =>
            if r.2 then (lib.printJson r.1).map fun text => (.string text, true)
            else some (.string stored, false)
    | .other x => some (.other x, false)
  whole _ values := some (values, false)

def reencryptConfig2Value (config : Toml O) : Option (Toml O) :=
  (walk places (fun _ => false) (tomlRewriter lib keys) root config).map Prod.fst

end

inductive KeyOp
  | readSource
  | readKey
  | createKey
  | rereadKey
  | readConfig2
  | replaceKey
  | replaceConfig2
  | restoreKey
  deriving DecidableEq

inductive ImportError
  | io (op : KeyOp)
  | malformedKey (text : String)
  | parse
  | serialize
  | restoredKey
  | restoreFailed
  deriving DecidableEq

structure KeyFiles where
  sourceKey : Option Bytes
  key : Option Bytes
  config2 : Option Bytes
  deriving DecidableEq

/-- What an import meets: which operations on files fail, the key that is drawn when the service
has none, and the nonces. -/
structure KeyEnv where
  fails : KeyOp → Bool
  fresh : StoredKey
  nonce : List ℕ → Nonce

section
variable {O N : Type} (lib : Libraries O N) (env : KeyEnv)

/-- `fs::read`. -/
def readFile (op : KeyOp) (file : Option Bytes) : Except ImportError Bytes :=
  if env.fails op then .error (.io op)
  else match file with
    | some data => .ok data
    | none => .error (.io op)

def decodeKey (data : Bytes) : Except ImportError StoredKey :=
  match decodeStoredKey data with
  | .ok key => .ok key
  | .error text => .error (.malformedKey text)

/-- `load_or_create_key`: the key file after it, and the key. No other program creates the file
meanwhile. -/
def loadOrCreateKey (file : Option Bytes) : Option Bytes × Except ImportError StoredKey :=
  if env.fails .readKey then (file, .error (.io .readKey))
  else match file with
    | some data => (file, decodeKey data)
    | none =>
      if env.fails .createKey then (none, .error (.io .createKey))
      else (some env.fresh.val, .ok env.fresh)

def reencryptConfig2 (old new : StoredKey) (source : Bytes) : Except ImportError Bytes :=
  match lib.parseToml source with
  | none => .error .parse
  | some config =>
    match (reencryptConfig2Value lib ⟨old, new, env.nonce⟩ config).bind lib.printToml with
    | none => .error .serialize
    | some serialized => .ok serialized

def prepareConfig2 (new : StoredKey) (f : KeyFiles) :
    Option Bytes × Except ImportError (Bytes × Bytes) :=
  let r := loadOrCreateKey env f.key
  match r.2 with
  | .error e => (r.1, .error e)
  | .ok old =>
    match readFile env .rereadKey r.1 with
    | .error e => (r.1, .error e)
    | .ok oldKeyData =>
      match readFile env .readConfig2 f.config2 with
      | .error e => (r.1, .error e)
      | .ok source =>
        match reencryptConfig2 lib env old new source with
        | .error e => (r.1, .error e)
        | .ok config2Data => (r.1, .ok (oldKeyData, config2Data))

/-- The part of `import_machine_key_files` that writes. -/
def replaceFiles (sourceData : Bytes) (prepared : Option (Bytes × Bytes)) (f : KeyFiles) :
    KeyFiles × Except ImportError Unit :=
  if env.fails .replaceKey then (f, .error (.io .replaceKey))
  else match prepared with
    | none => ({ f with key := some sourceData }, .ok ())
    | some (oldKeyData, config2Data) =>
      if env.fails .replaceConfig2 then
        if env.fails .restoreKey then ({ f with key := some sourceData }, .error .restoreFailed)
        else ({ f with key := some oldKeyData }, .error .restoredKey)
      else ({ f with key := some sourceData, config2 := some config2Data }, .ok ())

/-- `import_machine_key_files`; `withConfig2` when a Config2 to encrypt again is given. -/
def importMachineKeyFiles (withConfig2 : Bool) (f : KeyFiles) :
    KeyFiles × Except ImportError Unit :=
  match readFile env .readSource f.sourceKey with
  | .error e => (f, .error e)
  | .ok sourceData =>
    match decodeKey sourceData with
    | .error e => (f, .error e)
    | .ok new =>
      if withConfig2 && f.config2.isSome then
        let r := prepareConfig2 lib env new f
        match r.2 with
        | .error e => ({ f with key := r.1 }, .error e)
        | .ok prepared => replaceFiles env sourceData (some prepared) { f with key := r.1 }
      else replaceFiles env sourceData none f

end

/-- What the import relies on: base64 and the encryption are undone by their inverses, an encrypted
text has its authentication tag, and TOML that is printed reads back. A document that is no
value of the library, with a name twice or names out of order, is not printed. -/
structure Lawful {O N : Type} (lib : Libraries O N) : Prop where
  decode64_encode64 : ∀ bytes, lib.decode64 (asBytes (lib.encode64 bytes)) = some bytes
  openBox_sealBox : ∀ value nonce key,
    lib.openBox (lib.sealBox value nonce key) nonce key = some value
  length_sealBox : ∀ value nonce key, MACBYTES ≤ (lib.sealBox value nonce key).length
  parseToml_printToml : ∀ config text, lib.printToml config = some text →
    lib.parseToml text = some config

section
variable {O N : Type} (lib : Libraries O N)

theorem asBytes_append (s t : Str) : asBytes (s ++ t) = asBytes s ++ asBytes t :=
  List.flatMap_append

theorem isScoped_iff (s : Str) : isScoped s = true ↔ asBytes MACHINE_ENC_VERSION <+: asBytes s :=
  List.isPrefixOf_iff_prefix

theorem decrypt_of_not_scoped (s : Str) (key : StoredKey) (h : isScoped s = false) :
    decryptMachineValue lib (asBytes s) key = .error "not a machine-scoped credential" := by
  have hs : ¬asBytes MACHINE_ENC_VERSION <+: asBytes s := by
    rw [← isScoped_iff, h]
    simp
  rw [decryptMachineValue, if_neg hs]

theorem decrypt_encrypt (hlib : Lawful lib) (value : Bytes) (key : StoredKey) (nonce : Nonce) :
    decryptMachineValue lib (asBytes (encryptMachineText lib value key nonce)) key =
      .ok value := by
  have hbytes : asBytes (encryptMachineText lib value key nonce) = asBytes MACHINE_ENC_VERSION ++
      asBytes (lib.encode64 (SCOPED_KEY_FORMAT_V1 :: (nonce.val ++ lib.sealBox value nonce key))) :=
    asBytes_append _ _
  obtain ⟨nonce, hnonce⟩ := nonce
  have hmac := hlib.length_sealBox value ⟨nonce, hnonce⟩ key
  have htake : ((SCOPED_KEY_FORMAT_V1 :: (nonce ++ lib.sealBox value ⟨nonce, hnonce⟩ key)).take
      (1 + NONCEBYTES)).drop 1 = nonce := by
    rw [Nat.add_comm, List.take_succ_cons, List.drop_succ_cons, List.drop_zero,
      List.take_append_of_le_length (by omega), List.take_of_length_le (by omega)]
  have hdrop : (SCOPED_KEY_FORMAT_V1 :: (nonce ++ lib.sealBox value ⟨nonce, hnonce⟩ key)).drop
      (1 + NONCEBYTES) = lib.sealBox value ⟨nonce, hnonce⟩ key := by
    rw [Nat.add_comm, List.drop_succ_cons, List.drop_append_of_le_length (by omega),
      List.drop_of_length_le (by omega), List.nil_append]
  rw [hbytes, decryptMachineValue, if_pos (List.prefix_append _ _), List.drop_left,
    hlib.decode64_encode64]
  have hlong : (SCOPED_KEY_FORMAT_V1 ::
      (nonce ++ lib.sealBox value ⟨nonce, hnonce⟩ key)).head? = some SCOPED_KEY_FORMAT_V1 ∧
      1 + NONCEBYTES + MACBYTES ≤ (SCOPED_KEY_FORMAT_V1 ::
        (nonce ++ lib.sealBox value ⟨nonce, hnonce⟩ key)).length := by
    refine ⟨rfl, ?_⟩
    simp only [List.length_cons, List.length_append]
    omega
  simp only [dif_pos hlong, htake, hdrop, hlib.openBox_sealBox]

theorem jsonBytes_ofBytes (bytes : Bytes) :
    jsonBytes (ofBytes bytes : List (Json N)) = some bytes := by
  induction bytes with
  | nil => rfl
  | cons b bytes ih =>
    have hb : jsonByte (.leaf (.unsigned b.toNat) : Json N) = some b := by
      simp [jsonByte, b.toNat_lt]
    simp only [jsonBytes, ofBytes, List.map_cons, List.mapM_cons, hb] at ih ⊢
    rw [ih]
    rfl

def StringOpens (key : StoredKey) (s : Str) (m : Bytes) : Prop :=
  decryptMachineValue lib (asBytes s) key = .ok m

def JsonLeafOpens (key : StoredKey) (a : JsonLeaf N) (m : Bytes) : Prop :=
  ∃ s, a = .string s ∧ StringOpens lib key s m

def JsonBytesOpens (key : StoredKey) (values : List (Json N)) (m : Bytes) : Prop :=
  ∃ bytes, jsonBytes values = some bytes ∧ decryptMachineValue lib bytes key = .ok m

variable (keys : Keys)

/-- What opens to a value under the old key does so under the new one; what does not is
left as it is. -/
def Carried {β : Type} (opens : StoredKey → β → Bytes → Prop) (a b : β) : Prop :=
  (∀ m, opens keys.old a m → opens keys.new b m) ∧ ((∀ m, ¬opens keys.old a m) → b = a)

def JsonCarried (p : Place) (json json' : Json N) : Prop :=
  Related places isScopedArray (fun _ => Carried keys (JsonLeafOpens lib))
    (fun _ => Carried keys (JsonBytesOpens lib)) p json json'

def JsonUnreadable (p : Place) (json : Json N) : Prop :=
  Everywhere places isScopedArray (fun _ a => ∀ m, ¬JsonLeafOpens lib keys.old a m)
    (fun _ values => ∀ m, ¬JsonBytesOpens lib keys.old values m) p json

/-- A string that looks encrypted is carried; one that should be encrypted now is; in one that holds
JSON what opens is carried; any other stays. -/
def TextCarried (p : Place) (s t : Str) : Prop :=
  if isScoped s then Carried keys (StringOpens lib) s t
  else if isPlainConfig2Secret p.path s then StringOpens lib keys.new t (asBytes s)
  else match lib.parseJson s with
    | none => t = s
    | some json => (JsonUnreadable lib keys p json → t = s) ∧
        (¬JsonUnreadable lib keys p json →
          ∃ json', JsonCarried lib keys p json json' ∧ lib.printJson json' = some t)

def TomlLeafCarried (p : Place) : TomlLeaf O → TomlLeaf O → Prop
  | .string s, b => ∃ t, b = .string t ∧ TextCarried lib keys p s t
  | .other x, b => b = .other x

def ConfigCarried (config config' : Toml O) : Prop :=
  Related places (fun _ => false) (TomlLeafCarried lib keys) (fun _ _ _ => False) root
    config config'

theorem not_opens_of_not_scoped (s : Str) (h : isScoped s = false) (key : StoredKey) (m : Bytes) :
    ¬StringOpens lib key s m := by
  intro hopens
  rw [StringOpens, decrypt_of_not_scoped lib s key h] at hopens
  cases hopens

theorem carried_of_unread {β : Type} (opens : StoredKey → β → Bytes → Prop) (a : β)
    (hnone : ∀ m, ¬opens keys.old a m) :
    Carried keys opens a a ∧ (false = false ↔ ∀ m, ¬opens keys.old a m) :=
  ⟨⟨fun m hm => (hnone m hm).elim, fun _ => rfl⟩, fun _ => hnone, fun _ => rfl⟩

theorem carried_of_read {β : Type} (opens : StoredKey → β → Bytes → Prop) (a b : β) (m : Bytes)
    (hm : opens keys.old a m) (hunique : ∀ m', opens keys.old a m' → m' = m)
    (hb : opens keys.new b m) :
    Carried keys opens a b ∧ (true = false ↔ ∀ m, ¬opens keys.old a m) := by
  refine ⟨⟨?_, fun hnone => (hnone m hm).elim⟩, ?_⟩
  · intro m' hm'
    rw [hunique m' hm']
    exact hb
  · constructor
    · intro hflag
      cases hflag
    · exact fun hnone => (hnone m hm).elim

/-- `reencrypt_string`, and whether it decrypted the string. -/
theorem reencryptString_carried (hlib : Lawful lib) (pos : List ℕ) (s t : Str) (flag : Bool)
    (h : reencryptString lib keys pos s = (t, flag)) :
    Carried keys (StringOpens lib) s t ∧ (flag = false ↔ ∀ m, ¬StringOpens lib keys.old s m) := by
  rw [reencryptString] at h
  cases hold : decryptMachineValue lib (asBytes s) keys.old with
  | ok plain =>
    rw [hold] at h
    obtain ⟨rfl, rfl⟩ := Prod.mk.inj h
    refine carried_of_read keys _ _ _ plain hold ?_ (decrypt_encrypt lib hlib plain keys.new _)
    intro m hm
    exact (Except.ok.inj (hold.symm.trans hm)).symm
  | error e =>
    rw [hold] at h
    obtain ⟨rfl, rfl⟩ := Prod.mk.inj h
    refine carried_of_unread keys _ _ ?_
    intro m hm
    cases hold.symm.trans hm

theorem jsonLeafOpens_string (key : StoredKey) (s : Str) (m : Bytes) :
    JsonLeafOpens lib key (.string s : JsonLeaf N) m ↔ StringOpens lib key s m := by
  constructor
  · rintro ⟨s', hs, hm⟩
    cases hs
    exact hm
  · exact fun hm => ⟨s, rfl, hm⟩

theorem jsonRewriter_leaf (hlib : Lawful lib) (p : Place) (a b : JsonLeaf N) (flag : Bool)
    (h : (jsonRewriter lib keys).leaf p a = some (b, flag)) :
    Carried keys (JsonLeafOpens lib) a b ∧
      (flag = false ↔ ∀ m, ¬JsonLeafOpens lib keys.old a m) := by
  cases a with
  | string s =>
    simp only [jsonRewriter] at h
    split at h
    · obtain ⟨rfl, rfl⟩ := Prod.mk.inj (Option.some.inj h)
      have hs := reencryptString_carried lib keys hlib p.pos s _ _ rfl
      simp only [Carried, jsonLeafOpens_string]
      exact ⟨⟨hs.1.1, fun hnone => congrArg _ (hs.1.2 hnone)⟩, hs.2⟩
    · rename_i hscoped
      obtain ⟨rfl, rfl⟩ := Prod.mk.inj (Option.some.inj h)
      refine carried_of_unread keys _ _ fun m hm => ?_
      exact not_opens_of_not_scoped lib s (by simpa using hscoped) keys.old m
        ((jsonLeafOpens_string lib keys.old s m).mp hm)
  | unsigned n =>
    obtain ⟨rfl, rfl⟩ := Prod.mk.inj (Option.some.inj h)
    refine carried_of_unread keys _ _ ?_
    rintro m ⟨s, hs, -⟩
    cases hs
  | other x =>
    obtain ⟨rfl, rfl⟩ := Prod.mk.inj (Option.some.inj h)
    refine carried_of_unread keys _ _ ?_
    rintro m ⟨s, hs, -⟩
    cases hs

theorem jsonRewriter_whole (hlib : Lawful lib) (p : Place) (xs ys : List (Json N)) (flag : Bool)
    (h : (jsonRewriter lib keys).whole p xs = some (ys, flag)) :
    Carried keys (JsonBytesOpens lib) xs ys ∧
      (flag = false ↔ ∀ m, ¬JsonBytesOpens lib keys.old xs m) := by
  simp only [jsonRewriter] at h
  cases hbytes : jsonBytes xs with
  | none =>
    rw [hbytes] at h
    obtain ⟨rfl, rfl⟩ := Prod.mk.inj (Option.some.inj h)
    refine carried_of_unread keys _ _ ?_
    rintro m ⟨bytes, hb, -⟩
    cases hbytes.symm.trans hb
  | some bytes =>
    have hread : ∀ m, JsonBytesOpens lib keys.old xs m ↔
        decryptMachineValue lib bytes keys.old = .ok m := by
      intro m
      constructor
      · rintro ⟨bytes', hb, hm⟩
        rwa [Option.some.inj (hbytes.symm.trans hb)]
      · exact fun hm => ⟨bytes, hbytes, hm⟩
    simp only [hbytes] at h
    cases hold : decryptMachineValue lib bytes keys.old with
    | error e =>
      rw [hold] at h
      obtain ⟨rfl, rfl⟩ := Prod.mk.inj (Option.some.inj h)
      refine carried_of_unread keys _ _ fun m hm => ?_
      cases hold.symm.trans ((hread m).mp hm)
    | ok plain =>
      rw [hold] at h
      obtain ⟨rfl, rfl⟩ := Prod.mk.inj (Option.some.inj h)
      refine carried_of_read keys _ _ _ plain ((hread plain).mpr hold) ?_
        ⟨_, jsonBytes_ofBytes _, decrypt_encrypt lib hlib plain keys.new _⟩
      intro m hm
      exact (Except.ok.inj (hold.symm.trans ((hread m).mp hm))).symm

/-- The rewritten JSON, and whether anything in it was decrypted. -/
theorem reencryptJsonValue_carried (hlib : Lawful lib) (p : Place) (json json' : Json N)
    (flag : Bool) (h : reencryptJsonValue lib keys p json = some (json', flag)) :
    JsonCarried lib keys p json json' ∧ (flag = false ↔ JsonUnreadable lib keys p json) := by
  refine ⟨walk_related places isScopedArray (jsonRewriter lib keys) _ _ ⟨?_, ?_⟩ p json json'
    flag h, walk_flag places isScopedArray (jsonRewriter lib keys) _ _ ⟨?_, ?_⟩ p json json' flag h⟩
  · intro q a b fb hb
    exact (jsonRewriter_leaf lib keys hlib q a b fb hb).1
  · intro q xs ys fb _ hb
    exact (jsonRewriter_whole lib keys hlib q xs ys fb hb).1
  · intro q a b fb hb
    exact (jsonRewriter_leaf lib keys hlib q a b fb hb).2
  · intro q xs ys fb _ hb
    exact (jsonRewriter_whole lib keys hlib q xs ys fb hb).2

theorem tomlRewriter_leaf (hlib : Lawful lib) (p : Place) (a b : TomlLeaf O) (flag : Bool)
    (h : (tomlRewriter lib keys).leaf p a = some (b, flag)) : TomlLeafCarried lib keys p a b := by
  cases a with
  | other x =>
    obtain ⟨rfl, -⟩ := Prod.mk.inj (Option.some.inj h)
    rfl
  | string s =>
    simp only [tomlRewriter] at h
    simp only [TomlLeafCarried, TextCarried]
    by_cases hscoped : isScoped s = true
    · rw [if_pos hscoped] at h
      obtain ⟨rfl, -⟩ := Prod.mk.inj (Option.some.inj h)
      refine ⟨_, rfl, ?_⟩
      rw [if_pos hscoped]
      exact (reencryptString_carried lib keys hlib p.pos s _ _ rfl).1
    rw [if_neg hscoped] at h
    by_cases hplain : isPlainConfig2Secret p.path s = true
    · rw [if_pos hplain] at h
      obtain ⟨rfl, -⟩ := Prod.mk.inj (Option.some.inj h)
      refine ⟨_, rfl, ?_⟩
      rw [if_neg hscoped, if_pos hplain]
      exact decrypt_encrypt lib hlib _ keys.new _
    rw [if_neg hplain] at h
    simp only [if_neg hscoped, if_neg hplain]
    cases hparse : lib.parseJson s with
    | none =>
      rw [hparse] at h
      obtain ⟨rfl, -⟩ := Prod.mk.inj (Option.some.inj h)
      exact ⟨s, rfl, rfl⟩
    | some json =>
      simp only [hparse] at h
      obtain ⟨⟨json', changed⟩, hwalk, hstored⟩ := Option.bind_eq_some_iff.mp h
      obtain ⟨hcarried, hflag⟩ :=
        reencryptJsonValue_carried lib keys hlib p json json' changed hwalk
      cases changed with
      | false =>
        obtain ⟨rfl, -⟩ := Prod.mk.inj (Option.some.inj hstored)
        exact ⟨s, rfl, fun _ => rfl, fun hread => (hread (hflag.mp rfl)).elim⟩
      | true =>
        obtain ⟨text, htext, hstored⟩ := Option.map_eq_some_iff.mp hstored
        obtain ⟨rfl, -⟩ := Prod.mk.inj hstored
        refine ⟨text, rfl, fun hunread => ?_, fun _ => ⟨json', hcarried, htext⟩⟩
        cases hflag.mpr hunread

/-- `reencrypt_config2_value` carries every value of the document to the new key. -/
theorem reencryptConfig2Value_carried (hlib : Lawful lib) (config config' : Toml O)
    (h : reencryptConfig2Value lib keys config = some config') :
    ConfigCarried lib keys config config' := by
  obtain ⟨⟨w, flag⟩, hwalk, rfl⟩ := Option.map_eq_some_iff.mp h
  refine walk_related places _ (tomlRewriter lib keys) _ _ ⟨?_, ?_⟩ root config w flag hwalk
  · intro p a b fb hb
    exact tomlRewriter_leaf lib keys hlib p a b fb hb
  · intro p xs ys fb hw
    cases hw

end

section
variable {O N : Type} (lib : Libraries O N) (env : KeyEnv)

def KeyIn (file : Option Bytes) (key : StoredKey) : Prop :=
  file = some key.val ∨ file = none ∧ key = env.fresh

def KeyCreated (file file' : Option Bytes) : Prop := file = none ∧ file' = some env.fresh.val

variable (data : Bytes) (old new : StoredKey) (withConfig2 : Bool) (f : KeyFiles)
  (file : Option Bytes) (e : ImportError)

theorem decodeKey_ok (key : StoredKey) (h : decodeKey data = .ok key) : data = key.val := by
  simp only [decodeKey, decodeStoredKey] at h
  by_cases hlen : data.length = KEY_LEN
  · rw [dif_pos hlen] at h
    rw [← Except.ok.inj h]
  · rw [dif_neg hlen] at h
    cases h

theorem readFile_ok (op : KeyOp) (file : Option Bytes) (data : Bytes)
    (h : readFile env op file = .ok data) : file = some data ∧ env.fails op = false := by
  cases hop : env.fails op with
  | true => simp [readFile, hop] at h
  | false =>
    cases file with
    | none => simp [readFile, hop] at h
    | some data' =>
      simp only [readFile, hop, Bool.false_eq_true, if_false] at h
      exact ⟨congrArg some (Except.ok.inj h), rfl⟩

theorem loadOrCreateKey_file :
    (loadOrCreateKey env file).1 = file ∨ KeyCreated env file (loadOrCreateKey env file).1 := by
  simp only [loadOrCreateKey]
  split
  · exact Or.inl rfl
  · cases file with
    | some data => exact Or.inl rfl
    | none =>
      simp only
      split
      · exact Or.inl rfl
      · exact Or.inr ⟨rfl, rfl⟩

theorem loadOrCreateKey_ok (key : StoredKey) (h : (loadOrCreateKey env file).2 = .ok key) :
    KeyIn env file key ∧ (loadOrCreateKey env file).1 = some key.val := by
  simp only [loadOrCreateKey] at h ⊢
  split at h
  · cases h
  · rename_i hop
    rw [if_neg hop]
    cases file with
    | some data =>
      obtain rfl := decodeKey_ok data key h
      exact ⟨Or.inl rfl, rfl⟩
    | none =>
      simp only at h ⊢
      split at h
      · cases h
      · rename_i hcreate
        obtain rfl := Except.ok.inj h
        rw [if_neg hcreate]
        exact ⟨Or.inr ⟨rfl, rfl⟩, rfl⟩

def FileCarried (old new : StoredKey) (source source' : Bytes) : Prop :=
  ∃ config config', lib.parseToml source = some config ∧
    lib.parseToml source' = some config' ∧
    ConfigCarried lib ⟨old, new, env.nonce⟩ config config'

theorem reencryptConfig2_ok (hlib : Lawful lib) (old new : StoredKey) (source data : Bytes)
    (h : reencryptConfig2 lib env old new source = .ok data) :
    FileCarried lib env old new source data := by
  rw [reencryptConfig2] at h
  cases hparse : lib.parseToml source with
  | none => simp [hparse] at h
  | some config =>
    simp only [hparse] at h
    cases hprint : (reencryptConfig2Value lib ⟨old, new, env.nonce⟩ config).bind lib.printToml with
    | none => simp [hprint] at h
    | some serialized =>
      simp only [hprint] at h
      obtain rfl := Except.ok.inj h
      obtain ⟨config', hconfig', htext⟩ := Option.bind_eq_some_iff.mp hprint
      exact ⟨config, config', hparse, hlib.parseToml_printToml config' _ htext,
        reencryptConfig2Value_carried lib _ hlib config config' hconfig'⟩

theorem prepareConfig2_fst : (prepareConfig2 lib env new f).1 = (loadOrCreateKey env f.key).1 := by
  simp only [prepareConfig2]
  split
  · rfl
  · split
    · rfl
    · split
      · rfl
      · split <;> rfl

theorem prepareConfig2_ok (hlib : Lawful lib) (new : StoredKey) (f : KeyFiles)
    (oldKeyData config2Data : Bytes)
    (h : (prepareConfig2 lib env new f).2 = .ok (oldKeyData, config2Data)) :
    ∃ old : StoredKey, KeyIn env f.key old ∧ oldKeyData = old.val ∧
      (loadOrCreateKey env f.key).1 = some old.val ∧
      ∃ source, f.config2 = some source ∧ FileCarried lib env old new source config2Data := by
  simp only [prepareConfig2] at h
  split at h
  · cases h
  · rename_i old hold
    obtain ⟨hin, hfile⟩ := loadOrCreateKey_ok env f.key old hold
    split at h
    · cases h
    · rename_i data hdata
      have hread := (readFile_ok env .rereadKey _ data hdata).1
      split at h
      · cases h
      · rename_i source hsource
        split at h
        · cases h
        · rename_i data2 hdata2
          obtain ⟨rfl, rfl⟩ := Prod.mk.inj (Except.ok.inj h)
          exact ⟨old, hin, Option.some.inj (hread.symm.trans hfile), hfile, source,
            (readFile_ok env .readConfig2 _ source hsource).1,
            reencryptConfig2_ok lib env hlib old new source _ hdata2⟩

theorem replaceFiles_ok (sourceData oldKeyData config2Data : Bytes) (f f' : KeyFiles)
    (result : Except ImportError Unit) (hkey : f.key = some oldKeyData)
    (h : replaceFiles env sourceData (some (oldKeyData, config2Data)) f = (f', result)) :
    (result = .ok () → f'.key = some sourceData ∧ f'.config2 = some config2Data) ∧
      ∀ e, result = .error e → e ≠ .restoreFailed → f' = f := by
  simp only [replaceFiles] at h
  split at h
  · obtain ⟨rfl, rfl⟩ := Prod.mk.inj h
    exact ⟨fun hok => (by cases hok), fun _ _ _ => rfl⟩
  split at h
  · split at h
    · obtain ⟨rfl, rfl⟩ := Prod.mk.inj h
      refine ⟨fun hok => (by cases hok), fun e he hne => ?_⟩
      exact (hne (Except.error.inj he).symm).elim
    · obtain ⟨rfl, rfl⟩ := Prod.mk.inj h
      refine ⟨fun hok => (by cases hok), fun _ _ _ => ?_⟩
      rw [← hkey]
  · obtain ⟨rfl, rfl⟩ := Prod.mk.inj h
    exact ⟨fun _ => ⟨rfl, rfl⟩, fun e he => (by cases he)⟩

/-- The source's key is in place, and Config2, when it is to be kept, carries to it what it held
under the old key. -/
def Installed (withConfig2 : Bool) (f f' : KeyFiles) : Prop :=
  ∃ new : StoredKey, f.sourceKey = some new.val ∧ f'.key = some new.val ∧
    (withConfig2 = true → ∀ source, f.config2 = some source →
      ∃ old source', KeyIn env f.key old ∧ f'.config2 = some source' ∧
        FileCarried lib env old new source source') ∧
    (withConfig2 = false ∨ f.config2 = none → f'.config2 = f.config2)

/-- Both files are as they were, but for a key that was drawn because there was none. -/
def Undone (f f' : KeyFiles) : Prop :=
  f'.config2 = f.config2 ∧ (f'.key = f.key ∨ KeyCreated env f.key f'.key)

theorem import_ok (hlib : Lawful lib) (withConfig2 : Bool) (f : KeyFiles)
    (h : (importMachineKeyFiles lib env withConfig2 f).2 = .ok ()) :
    Installed lib env withConfig2 f (importMachineKeyFiles lib env withConfig2 f).1 := by
  generalize hr : importMachineKeyFiles lib env withConfig2 f = r at h
  obtain ⟨f', result⟩ := r
  subst h
  rw [importMachineKeyFiles] at hr
  cases hsource : readFile env .readSource f.sourceKey with
  | error e => simp [hsource] at hr
  | ok sourceData =>
    simp only [hsource] at hr
    cases hnew : decodeKey sourceData with
    | error e => simp [hnew] at hr
    | ok new =>
      simp only [hnew] at hr
      have hdata := (readFile_ok env .readSource _ _ hsource).1
      rw [decodeKey_ok _ _ hnew] at hdata hr
      split at hr
      · rename_i hwith
        rw [Bool.and_eq_true, Option.isSome_iff_exists] at hwith
        obtain ⟨hwith, source, hconfig2⟩ := hwith
        split at hr
        · cases (Prod.mk.inj hr).2
        · rename_i prepared hprepare
          obtain ⟨oldKeyData, config2Data⟩ := prepared
          obtain ⟨old, hin, rfl, hkey, source', hsource', hcarried⟩ :=
            prepareConfig2_ok lib env hlib new f oldKeyData config2Data hprepare
          rw [← prepareConfig2_fst lib env new f] at hkey
          obtain ⟨hkey', hconfig2'⟩ := (replaceFiles_ok env _ _ _ _ f' _ hkey hr).1 rfl
          obtain rfl := Option.some.inj (hconfig2.symm.trans hsource')
          refine ⟨new, hdata, hkey', ?_, ?_⟩
          · intro _ source₀ hsource₀
            obtain rfl := Option.some.inj (hconfig2.symm.trans hsource₀)
            exact ⟨old, config2Data, hin, hconfig2', hcarried⟩
          · simp [hwith, hconfig2]
      · rename_i hwith
        simp only [replaceFiles] at hr
        split at hr
        · cases (Prod.mk.inj hr).2
        · obtain ⟨rfl, -⟩ := Prod.mk.inj hr
          refine ⟨new, hdata, rfl, ?_, fun _ => rfl⟩
          intro htrue source hconfig2
          simp [htrue, hconfig2] at hwith

theorem import_error (hlib : Lawful lib) (withConfig2 : Bool) (f : KeyFiles) (e : ImportError)
    (h : (importMachineKeyFiles lib env withConfig2 f).2 = .error e) (hne : e ≠ .restoreFailed) :
    Undone env f (importMachineKeyFiles lib env withConfig2 f).1 := by
  generalize hr : importMachineKeyFiles lib env withConfig2 f = r at h
  obtain ⟨f', result⟩ := r
  subst h
  have hstopped : f' = f → Undone env f f' := by
    rintro rfl
    exact ⟨rfl, Or.inl rfl⟩
  rw [importMachineKeyFiles] at hr
  cases hsource : readFile env .readSource f.sourceKey with
  | error e' => exact hstopped (by simpa [hsource] using (congrArg Prod.fst hr).symm)
  | ok sourceData =>
    simp only [hsource] at hr
    cases hnew : decodeKey sourceData with
    | error e' => exact hstopped (by simpa [hnew] using (congrArg Prod.fst hr).symm)
    | ok new =>
      simp only [hnew] at hr
      have hfile := loadOrCreateKey_file env f.key
      rw [← prepareConfig2_fst lib env new f] at hfile
      split at hr
      · split at hr
        · obtain ⟨rfl, -⟩ := Prod.mk.inj hr
          exact ⟨rfl, hfile⟩
        · rename_i prepared hprepare
          obtain ⟨oldKeyData, config2Data⟩ := prepared
          obtain ⟨old, -, rfl, hkey, -⟩ :=
            prepareConfig2_ok lib env hlib new f oldKeyData config2Data hprepare
          rw [← prepareConfig2_fst lib env new f] at hkey
          rw [(replaceFiles_ok env _ _ _ _ f' _ hkey hr).2 e rfl hne]
          exact ⟨rfl, hfile⟩
      · simp only [replaceFiles] at hr
        split at hr
        · exact hstopped (congrArg Prod.fst hr).symm
        · cases (Prod.mk.inj hr).2

theorem readFile_error (op : KeyOp) (file : Option Bytes) (e : ImportError)
    (h : readFile env op file = .error e) : e = .io op := by
  simp only [readFile] at h
  split at h
  · exact (Except.error.inj h).symm
  · split at h
    · cases h
    · exact (Except.error.inj h).symm

theorem decodeKey_error (h : decodeKey data = .error e) : ∃ text, e = .malformedKey text := by
  simp only [decodeKey] at h
  split at h
  · cases h
  · exact ⟨_, (Except.error.inj h).symm⟩

theorem loadOrCreateKey_error
    (h : (loadOrCreateKey env file).2 = .error e) : e ≠ .restoreFailed := by
  simp only [loadOrCreateKey] at h
  split at h
  · rw [← Except.error.inj h]
    simp
  · split at h
    · obtain ⟨text, rfl⟩ := decodeKey_error _ e h
      simp
    · split at h
      · rw [← Except.error.inj h]
        simp
      · cases h

theorem reencryptConfig2_error (source : Bytes) (e : ImportError)
    (h : reencryptConfig2 lib env old new source = .error e) : e ≠ .restoreFailed := by
  simp only [reencryptConfig2] at h
  split at h
  · rw [← Except.error.inj h]
    simp
  · split at h
    · rw [← Except.error.inj h]
      simp
    · cases h

theorem prepareConfig2_error
    (h : (prepareConfig2 lib env new f).2 = .error e) : e ≠ .restoreFailed := by
  simp only [prepareConfig2] at h
  split at h
  · rename_i hload
    rw [← Except.error.inj h]
    exact loadOrCreateKey_error env f.key _ hload
  · split at h
    · rename_i hread
      rw [← Except.error.inj h, readFile_error env _ _ _ hread]
      simp
    · split at h
      · rename_i hread
        rw [← Except.error.inj h, readFile_error env _ _ _ hread]
        simp
      · split at h
        · rename_i hreencrypt
          rw [← Except.error.inj h]
          exact reencryptConfig2_error lib env _ _ _ _ hreencrypt
        · cases h

theorem restoreFailed_of_import
    (h : (importMachineKeyFiles lib env withConfig2 f).2 = .error .restoreFailed) :
    env.fails .replaceConfig2 = true ∧ env.fails .restoreKey = true := by
  simp only [importMachineKeyFiles] at h
  split at h
  · rename_i hread
    have := readFile_error env _ _ _ hread
    rw [this] at h
    cases h
  split at h
  · rename_i hdecode
    obtain ⟨text, rfl⟩ := decodeKey_error _ _ hdecode
    cases h
  split at h
  · split at h
    · rename_i hprepare
      exact (prepareConfig2_error lib env _ _ _ hprepare (Except.error.inj h)).elim
    · simp only [replaceFiles] at h
      split at h
      · cases h
      split at h
      · rename_i hreplace
        split at h
        · rename_i hrestore
          exact ⟨hreplace, hrestore⟩
        · cases h
      · cases h
  · simp only [replaceFiles] at h
    split at h <;> cases h

theorem import_succeeds (old new : StoredKey)
    (hfails : ∀ op, env.fails op = false) (hsource : f.sourceKey = some new.val)
    (hkey : f.key = some old.val)
    (hconfig2 : withConfig2 = true → ∀ source, f.config2 = some source →
      ∃ data, reencryptConfig2 lib env old new source = .ok data) :
    (importMachineKeyFiles lib env withConfig2 f).2 = .ok () := by
  have hdecode : ∀ key : StoredKey, decodeKey key.val = .ok key := by
    intro key
    simp [decodeKey, decodeStoredKey, key.property]
  have hread : ∀ op data, readFile env op (some data) = .ok data := by
    intro op data
    simp [readFile, hfails op]
  simp only [importMachineKeyFiles, hsource, hread, hdecode]
  split
  · rename_i hwith
    rw [Bool.and_eq_true, Option.isSome_iff_exists] at hwith
    obtain ⟨hwith, source, hsource2⟩ := hwith
    obtain ⟨data, hdata⟩ := hconfig2 hwith source hsource2
    simp [prepareConfig2, loadOrCreateKey, hfails, hkey, hdecode, hread, hsource2, hdata,
      replaceFiles]
  · simp [replaceFiles, hfails]

theorem reencrypted_of_import (old new : StoredKey)
    (source : Bytes) (h : (importMachineKeyFiles lib env withConfig2 f).2 = .ok ())
    (hsource : f.sourceKey = some new.val) (hkey : f.key = some old.val)
    (hwith : withConfig2 = true) (hconfig2 : f.config2 = some source) :
    ∃ data, reencryptConfig2 lib env old new source = .ok data := by
  have hdecode : ∀ key : StoredKey, decodeKey key.val = .ok key := by
    intro key
    simp [decodeKey, decodeStoredKey, key.property]
  have hread : ∀ op data, readFile env op (some data) = .ok data ∨
      ∃ e, readFile env op (some data) = .error e := by
    intro op data
    cases hop : env.fails op <;> simp [readFile, hop]
  simp only [importMachineKeyFiles, hsource] at h
  rcases hread .readSource new.val with hr | ⟨e, hr⟩
  · simp only [hr, hdecode, hwith, hconfig2, Option.isSome_some, Bool.and_self, if_true,
      prepareConfig2, loadOrCreateKey, hkey] at h
    cases hreadKey : env.fails .readKey with
    | true => simp [hreadKey] at h
    | false =>
      simp only [hreadKey, Bool.false_eq_true, if_false] at h
      rcases hread .rereadKey old.val with hr | ⟨e, hr⟩
      · simp only [hr] at h
        rcases hread .readConfig2 source with hr | ⟨e, hr⟩
        · simp only [hr] at h
          cases hreencrypt : reencryptConfig2 lib env old new source with
          | ok data => exact ⟨data, rfl⟩
          | error e => simp [hreencrypt] at h
        · simp [hr] at h
      · simp [hr] at h
  · simp [hr] at h

/-- A success installs the key, and an error whose rollback does not fail leaves the files. -/
theorem import_carries (hlib : Lawful lib) (withConfig2 : Bool) (f f' : KeyFiles)
    (result : Except ImportError Unit)
    (h : importMachineKeyFiles lib env withConfig2 f = (f', result)) :
    (result = .ok () → Installed lib env withConfig2 f f') ∧
      ∀ e, result = .error e → e ≠ .restoreFailed → Undone env f f' := by
  constructor
  · rintro rfl
    have hok := import_ok lib env hlib withConfig2 f
    rw [h] at hok
    exact hok rfl
  · rintro e rfl hne
    have herr := import_error lib env hlib withConfig2 f e
    rw [h] at herr
    exact herr rfl hne

end

def nibble (n : ℕ) : Char := Char.ofNat (97 + n)

def sampleEncode (bytes : Bytes) : Str :=
  bytes.flatMap fun b => [nibble (b.toNat / 16), nibble (b.toNat % 16)]

def sampleDecode : Bytes → Option Bytes
  | [] => some []
  | [_] => none
  | hi :: lo :: rest =>
    (sampleDecode rest).map fun bytes => ((hi.toNat - 97) * 16 + (lo.toNat - 97)).toUInt8 :: bytes

theorem nibble_bytes (n : ℕ) (h : n < 16) : asBytes [nibble n] = [(97 + n).toUInt8] := by
  revert n
  decide

theorem sampleDecode_sampleEncode (bytes : Bytes) :
    sampleDecode (asBytes (sampleEncode bytes)) = some bytes := by
  induction bytes with
  | nil => rfl
  | cons b bytes ih =>
    have hb := b.toNat_lt
    have hsplit : asBytes (sampleEncode (b :: bytes)) =
        (97 + b.toNat / 16).toUInt8 :: (97 + b.toNat % 16).toUInt8 ::
          asBytes (sampleEncode bytes) := by
      have hi := nibble_bytes (b.toNat / 16) (by omega)
      have lo := nibble_bytes (b.toNat % 16) (by omega)
      have happ : sampleEncode (b :: bytes) =
          [nibble (b.toNat / 16)] ++ ([nibble (b.toNat % 16)] ++ sampleEncode bytes) := rfl
      rw [happ, asBytes_append, asBytes_append, hi, lo]
      rfl
    rw [hsplit, sampleDecode, ih, Option.map_some]
    congr 2
    apply UInt8.toNat_inj.mp
    simp
    omega

def isBare (c : Char) : Bool := c.isAlphanum || c == '_'

def isLiteral (c : Char) : Bool := decide (32 ≤ c.toNat) && decide (c.toNat < 127) && c != '\''

def ascii (s : Str) : Bytes := s.map fun c => c.toNat.toUInt8
def ofAscii (bytes : Bytes) : Str := bytes.map fun b => Char.ofNat b.toNat

def sampleParse (source : Bytes) : Option (Toml Unit) :=
  let text := ofAscii source
  let name := text.takeWhile isBare
  let rest := text.dropWhile isBare
  let s := (rest.drop 4).takeWhile isLiteral
  if name ++ " = '".toList ++ s ++ "'\n".toList = text then
    some (.table [(name, .leaf (.string s))])
  else none

def samplePrint : Toml Unit → Option Bytes
  | .table [(name, .leaf (.string s))] =>
    if name.all isBare && s.all isLiteral then
      some (ascii (name ++ " = '".toList ++ s ++ "'\n".toList))
    else none
  | _ => none

theorem ofAscii_ascii (s : Str) (h : ∀ c ∈ s, c.toNat < 128) : ofAscii (ascii s) = s := by
  induction s with
  | nil => rfl
  | cons c s ih =>
    have hc : Char.ofNat c.toNat.toUInt8.toNat = c := by
      have := h c (List.mem_cons_self ..)
      simp [Nat.mod_eq_of_lt (show c.toNat < 256 by omega)]
    simp only [ofAscii, ascii, List.map_cons] at ih ⊢
    rw [hc, ih fun d hd => h d (List.mem_cons_of_mem _ hd)]

theorem isBare_lt (c : Char) (h : isBare c = true) : c.toNat < 128 := by
  have hranges : (decide ('A'.val ≤ c.val ∧ c.val ≤ 'Z'.val) ||
      (decide ('a'.val ≤ c.val) && decide (c.val ≤ 'z'.val)) ||
      (decide ('0'.val ≤ c.val) && decide (c.val ≤ '9'.val)) || c == '_') = true := h
  simp only [Bool.or_eq_true, decide_eq_true_eq, Bool.and_eq_true, beq_iff_eq,
    UInt32.le_iff_toNat_le] at hranges
  rcases hranges with ((⟨-, h⟩ | ⟨-, h⟩) | ⟨-, h⟩) | h
  · have : c.toNat ≤ 90 := h
    omega
  · have : c.toNat ≤ 122 := h
    omega
  · have : c.toNat ≤ 57 := h
    omega
  · rw [h]
    decide

theorem isLiteral_lt (c : Char) (h : isLiteral c = true) : c.toNat < 128 := by
  simp only [isLiteral, Bool.and_eq_true, decide_eq_true_eq] at h
  omega

theorem takeWhile_append (f : Char → Bool) (s t : Str) (c : Char) (hs : s.all f = true)
    (hc : f c = false) : (s ++ c :: t).takeWhile f = s ∧ (s ++ c :: t).dropWhile f = c :: t := by
  rw [List.all_eq_true] at hs
  rw [List.takeWhile_append_of_pos hs, List.dropWhile_append_of_pos hs]
  simp [hc]

theorem sampleParse_samplePrint (w : Toml Unit) (text : Bytes) (h : samplePrint w = some text) :
    sampleParse text = some w := by
  unfold samplePrint at h
  split at h
  · rename_i name s
    split at h
    · rename_i hall
      rw [Bool.and_eq_true] at hall
      obtain rfl := Option.some.inj h
      have hascii : ofAscii (ascii (name ++ " = '".toList ++ s ++ "'\n".toList)) =
          name ++ " = '".toList ++ s ++ "'\n".toList := by
        refine ofAscii_ascii _ fun c hc => ?_
        simp only [List.mem_append] at hc
        have hmiddle : ∀ d ∈ " = '".toList, d.toNat < 128 := forall_mem_of_all _ _ (by decide)
        have hend : ∀ d ∈ "'\n".toList, d.toNat < 128 := forall_mem_of_all _ _ (by decide)
        rcases hc with ((hc | hc) | hc) | hc
        · exact isBare_lt c (List.all_eq_true.mp hall.1 c hc)
        · exact hmiddle c hc
        · exact isLiteral_lt c (List.all_eq_true.mp hall.2 c hc)
        · exact hend c hc
      have hname := takeWhile_append isBare name ("= '".toList ++ s ++ "'\n".toList) ' ' hall.1
        (by decide)
      have hs := takeWhile_append isLiteral s "\n".toList '\'' hall.2 (by decide)
      have hsplit : name ++ " = '".toList ++ s ++ "'\n".toList =
          name ++ ' ' :: ("= '".toList ++ s ++ "'\n".toList) := by
        simp
      have hdrop : (' ' :: ("= '".toList ++ s ++ "'\n".toList)).drop 4 =
          s ++ '\'' :: "\n".toList := by
        simp
      simp only [sampleParse, hascii]
      rw [hsplit, hname.1, hname.2, hdrop, hs.1, ← hsplit, if_pos rfl]
    · cases h
  · cases h

def sampleParseJson (text : Str) : Option (Json Unit) :=
  let s := (text.drop 2).takeWhile Char.isAlphanum
  if "[\"".toList ++ s ++ "\"]".toList = text then some (.array [.leaf (.string s)]) else none

def samplePrintJson : Json Unit → Option Str
  | .array [.leaf (.string s)] =>
    if s.all Char.isAlphanum then some ("[\"".toList ++ s ++ "\"]".toList) else none
  | _ => none

def sampleLibraries : Libraries Unit Unit where
  encode64 := sampleEncode
  decode64 := sampleDecode
  sealBox value _ key := key.val ++ value
  openBox box _ key := if key.val <+: box then some (box.drop KEY_LEN) else none
  parseJson := sampleParseJson
  printJson := samplePrintJson
  parseToml := sampleParse
  printToml := samplePrint

theorem sampleLibraries_lawful : Lawful sampleLibraries := by
  refine ⟨sampleDecode_sampleEncode, ?_, ?_, ?_⟩
  · intro value nonce key
    have hdrop : (key.val ++ value).drop KEY_LEN = value := List.drop_left' key.property
    simp only [sampleLibraries, if_pos (List.prefix_append _ _), hdrop]
  · intro value nonce key
    have := key.property
    simp only [sampleLibraries, List.length_append, this, MACBYTES, KEY_LEN]
    omega
  · exact sampleParse_samplePrint

def sampleKey (b : UInt8) : StoredKey := ⟨List.replicate KEY_LEN b, List.length_replicate⟩
def sampleNonce : Nonce := ⟨List.replicate NONCEBYTES 7, List.length_replicate⟩
def sampleKeyEnv : KeyEnv := ⟨fun _ => false, sampleKey 0x44, fun _ => sampleNonce⟩

def sampleFiles (name s : Str) : KeyFiles where
  sourceKey := some (sampleKey 0x22).val
  key := some (sampleKey 0x11).val
  config2 := samplePrint (.table [(name, .leaf (.string s))])

def sampleText (key : StoredKey) (s : Str) : Str :=
  encryptMachineText sampleLibraries (asBytes s) key sampleNonce

def sampleImport (f : KeyFiles) : KeyFiles × Except ImportError Unit :=
  importMachineKeyFiles sampleLibraries sampleKeyEnv true f

theorem import_carries_sample :
    ∃ f', sampleImport (sampleFiles "unlock_pin".toList
        (sampleText (sampleKey 0x11) "123456".toList)) = (f', .ok ()) ∧
      f'.config2 = (sampleFiles "unlock_pin".toList
        (sampleText (sampleKey 0x22) "123456".toList)).config2 ∧
      Installed sampleLibraries sampleKeyEnv true (sampleFiles "unlock_pin".toList
        (sampleText (sampleKey 0x11) "123456".toList)) f' := by
  have hresult : sampleImport (sampleFiles "unlock_pin".toList
      (sampleText (sampleKey 0x11) "123456".toList)) =
        (⟨some (sampleKey 0x22).val, some (sampleKey 0x22).val, (sampleFiles "unlock_pin".toList
          (sampleText (sampleKey 0x22) "123456".toList)).config2⟩, .ok ()) := by
    decide +kernel
  exact ⟨_, hresult, rfl, (import_carries sampleLibraries sampleKeyEnv sampleLibraries_lawful true
    _ _ _ hresult).1 rfl⟩

def jsonText : Str := "[\"".toList ++ sampleText (sampleKey 0x11) "a".toList ++ "\"]".toList
def newText : Str := sampleText (sampleKey 0x22) "123456".toList
def plainFiles : KeyFiles := sampleFiles "unlock_pin".toList "123456".toList
def jsonFiles : KeyFiles := sampleFiles "options".toList jsonText
def newFiles : KeyFiles := sampleFiles "unlock_pin".toList newText
def keylessFiles : KeyFiles := ⟨some (sampleKey 0x22).val, none, some []⟩

/-- Strings that do not decrypt and are changed all the same: a secret in plain text, and JSON that
holds one that decrypts. A string under the new key, which is left, opens only after the import. An
error may leave the key that was drawn for a service without one. -/
theorem unread_strings_change :
    ((∀ m, ¬StringOpens sampleLibraries (sampleKey 0x11) "123456".toList m) ∧
      (sampleImport plainFiles).2 = .ok () ∧
      (sampleImport plainFiles).1.config2 ≠ plainFiles.config2) ∧
    ((∀ m, ¬StringOpens sampleLibraries (sampleKey 0x11) jsonText m) ∧
      (sampleImport jsonFiles).2 = .ok () ∧
      (sampleImport jsonFiles).1.config2 ≠ jsonFiles.config2) ∧
    ((∀ m, ¬StringOpens sampleLibraries (sampleKey 0x11) newText m) ∧
      (sampleImport newFiles).2 = .ok () ∧
      (sampleImport newFiles).1.config2 = newFiles.config2 ∧
      StringOpens sampleLibraries (sampleKey 0x22) newText (asBytes "123456".toList)) ∧
    (sampleImport keylessFiles).2 = .error .parse ∧
      (sampleImport keylessFiles).1.key ≠ keylessFiles.key := by
  refine ⟨⟨?_, ?_, ?_⟩, ⟨?_, ?_, ?_⟩, ⟨?_, ?_, ?_, ?_⟩, ?_, ?_⟩
  · intro m
    exact not_opens_of_not_scoped _ _ (by decide) _ m
  · decide +kernel
  · decide +kernel
  · intro m
    exact not_opens_of_not_scoped _ _ (by decide +kernel) _ m
  · decide +kernel
  · decide +kernel
  · intro m hm
    have hclosed : decryptMachineValue sampleLibraries (asBytes newText) (sampleKey 0x11) =
        .error "credential authentication failed" := by
      decide +kernel
    cases hclosed.symm.trans hm
  · decide +kernel
  · decide +kernel
  · exact decrypt_encrypt sampleLibraries sampleLibraries_lawful _ _ _
  · decide +kernel
  · decide +kernel

end ClantoDesk.MachineKeyImport
