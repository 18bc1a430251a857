import Mathlib.Data.List.Basic
import Mathlib.Tactic.Common
import ClantoDesk.StoredSecrets

/-!
The import of a profile's configuration into the service's: Config, Config2 and the machine key
that what they hold is encrypted under. The files that are replaced are backed up first, but for
the key. One operation on files may fail on the way, and the files then stay as they are
at that moment.
-/
namespace ClantoDesk.ConfigImport

open Documents Text UserKey MachineKeyImport StoredSecrets

structure Files where
  sourceConfig : Option Bytes
  sourceConfig2 : Option Bytes
  sourceKey : Option Bytes
  config : Option Bytes
  config2 : Option Bytes
  key : Option Bytes
  configBackup : Option Bytes
  config2Backup : Option Bytes

inductive ImportOp
  | readDestination
  | backupConfig
  | backupConfig2
  | key (op : KeyOp)
  | storeConfig
  | storeConfig2
  deriving DecidableEq

inductive ConfigError
  | io (op : ImportOp)
  | parse
  | notATable
  | key (err : ImportError)
  deriving DecidableEq

/-- `load_path`, `is_empty` and `store_path` of the two kinds of configuration, on the contents of
their files. -/
structure Configs where
  isEmpty : Option Bytes → Bool
  stored : Option Bytes → Bytes
  stored2 : Option Bytes → Bytes

/-- What an import meets: the operation that fails, what it leaves in the file that it was to
write, the times of the files, the key that may be drawn and the nonces. -/
structure Env where
  fails : Option ImportOp
  partialFile : Option Bytes
  sourceNewer : Bool
  sourceOlderThanExe : Bool
  sourceConfig2Newer : Bool
  fresh : StoredKey
  nonce : List ℕ → Nonce

def Env.keyEnv (env : Env) : KeyEnv where
  fails op := decide (env.fails = some (.key op))
  fresh := env.fresh
  nonce := env.nonce

def Files.keyFiles (f : Files) : KeyFiles := ⟨f.sourceKey, f.key, f.config2⟩

def Files.withKeyFiles (f : Files) (k : KeyFiles) : Files :=
  { f with key := k.key, config2 := k.config2 }

abbrev Outcome := Files × Except ConfigError Unit

/-- The rest runs unless there was an error; this is `?`. -/
def Outcome.andThen (r : Outcome) (rest : Files → Outcome) : Outcome :=
  match r.2 with
  | .error _ => r
  | .ok () => rest r.1

def shouldImportConfig (destinationHasIdentity sourceNewer sourceOlderThanExe : Bool) : Bool :=
  !destinationHasIdentity && sourceNewer && sourceOlderThanExe

mutual

def valueHasData {O : Type} : Toml O → Bool
  | .leaf (.string s) => s != []
  | .leaf (.other _) => true
  | .array values => itemsHaveData values
  | .table values => entriesHaveData values

def itemsHaveData {O : Type} : List (Toml O) → Bool
  | [] => false
  | v :: rest => valueHasData v || itemsHaveData rest

def entriesHaveData {O : Type} : List (Str × Toml O) → Bool
  | [] => false
  | (_, v) :: rest => valueHasData v || entriesHaveData rest

end

section
variable {O N : Type} (lib : Libraries O N) (configs : Configs) (env : Env)

def destinationHasIdentity (file : Option Bytes) : Except ConfigError Bool :=
  if env.fails = some .readDestination then .error (.io .readDestination)
  else match file with
    | none => .ok false
    | some source =>
      match lib.parseToml source with
      | none => .error .parse
      | some (.table entries) =>
        .ok (["id".toList, "enc_id".toList, "key_pair".toList].any fun key =>
          (entries.lookup key).any valueHasData)
      | some _ => .error .notATable

def backupConfig (f : Files) : Outcome :=
  if f.config = none then (f, .ok ())
  else if env.fails = some .backupConfig then
    ({ f with configBackup := env.partialFile }, .error (.io .backupConfig))
  else ({ f with configBackup := f.config }, .ok ())

def backupConfig2 (f : Files) : Outcome :=
  if f.config2 = none then (f, .ok ())
  else if env.fails = some .backupConfig2 then
    ({ f with config2Backup := env.partialFile }, .error (.io .backupConfig2))
  else ({ f with config2Backup := f.config2 }, .ok ())

/-- `import_machine_key_to`. -/
def importMachineKeyTo (f : Files) : Outcome :=
  if f.sourceKey = none then (f, .ok ())
  else
    let r := importMachineKeyFiles lib env.keyEnv (!env.sourceConfig2Newer) f.keyFiles
    (f.withKeyFiles r.1, match r.2 with
      | .ok () => .ok ()
      | .error e => .error (.key e))

def storeConfig (f : Files) : Outcome :=
  if env.fails = some .storeConfig then
    ({ f with config := env.partialFile }, .error (.io .storeConfig))
  else ({ f with config := some (configs.stored f.sourceConfig) }, .ok ())

def storeConfig2 (f : Files) : Outcome :=
  if env.fails = some .storeConfig2 then
    ({ f with config2 := env.partialFile }, .error (.io .storeConfig2))
  else ({ f with config2 := some (configs.stored2 f.sourceConfig2) }, .ok ())

def backups (sourceHasMachineKey : Bool) (f : Files) : Outcome :=
  (backupConfig env f).andThen fun g =>
    if env.sourceConfig2Newer || (sourceHasMachineKey && g.config2.isSome) then
      backupConfig2 env g
    else (g, .ok ())

def prepareImport (sourceHasMachineKey : Bool) (f : Files) : Outcome :=
  (backups env sourceHasMachineKey f).andThen (importMachineKeyTo lib env)

/-- `import_config_files`. -/
def importConfigFiles (f : Files) : Outcome :=
  match destinationHasIdentity lib env f.config with
  | .error e => (f, .error e)
  | .ok hasIdentity =>
    if hasIdentity then (f, .ok ())
    else if configs.isEmpty f.sourceConfig then (f, .ok ())
    else
      let importConfig := shouldImportConfig hasIdentity env.sourceNewer env.sourceOlderThanExe
      let importConfig2 := env.sourceConfig2Newer
      let sourceHasMachineKey := f.sourceKey.isSome
      if importConfig then
        ((prepareImport lib env sourceHasMachineKey f).andThen (storeConfig configs env)).andThen
          fun g => if importConfig2 then storeConfig2 configs env g else (g, .ok ())
      else if importConfig2 then
        if sourceHasMachineKey then (f, .ok ())
        else (backupConfig2 env f).andThen (storeConfig2 configs env)
      else (f, .ok ())

end

def Opens {O N : Type} (lib : Libraries O N) (key file backup : Option Bytes)
    (spot : SecretPlace) (m : Bytes) : Prop :=
  ∃ current : StoredKey, key = some current.val ∧
    (FileHolds lib current file spot m ∨ FileHolds lib current backup spot m)

/-- What Config and Config2 held under the key in place can be decrypted with the key in place. -/
def Kept {O N : Type} (lib : Libraries O N) (f g : Files) : Prop :=
  ∀ old : StoredKey, f.key = some old.val → ∀ spot m,
    (FileHolds lib old f.config spot m → Opens lib g.key g.config g.configBackup spot m) ∧
      (FileHolds lib old f.config2 spot m → Opens lib g.key g.config2 g.config2Backup spot m)

section
variable {O N : Type} (lib : Libraries O N) (configs : Configs) (env : Env)

variable (f g : Files) (e : ConfigError)

theorem andThen_cases (r : Outcome) (rest : Files → Outcome) :
    (∃ e, r.2 = .error e ∧ r.andThen rest = r) ∨ r.2 = .ok () ∧ r.andThen rest = rest r.1 := by
  cases hr : r.2 with
  | error e => exact Or.inl ⟨e, rfl, by simp [Outcome.andThen, hr]⟩
  | ok u => exact Or.inr ⟨rfl, by simp [Outcome.andThen, hr]⟩

/-- The three files are as they were, but for a key where there was none. -/
structure Unharmed (f g : Files) : Prop where
  config : g.config = f.config
  config2 : g.config2 = f.config2
  key : g.key = f.key ∨ f.key = none

theorem Unharmed.kept (h : Unharmed f g) : Kept lib f g := by
  intro old hold spot m
  have hkey : g.key = some old.val := by
    rcases h.key with hkey | hnone
    · rw [hkey, hold]
    · rw [hold] at hnone
      cases hnone
  refine ⟨fun hm => ⟨old, hkey, Or.inl ?_⟩, fun hm => ⟨old, hkey, Or.inl ?_⟩⟩
  · rwa [h.config]
  · rwa [h.config2]

/-- The backups of the files that are to be replaced hold what these held. -/
structure BackedUp (withConfig2 : Bool) (f g : Files) : Prop where
  sourceConfig : g.sourceConfig = f.sourceConfig
  sourceConfig2 : g.sourceConfig2 = f.sourceConfig2
  keyFiles : g.keyFiles = f.keyFiles
  config : g.config = f.config
  configBackup : f.config = none ∨ g.configBackup = f.config
  config2Backup : withConfig2 = true → f.config2 = none ∨ g.config2Backup = f.config2

theorem BackedUp.unharmed (withConfig2 : Bool) (f g h : Files) (hg : BackedUp withConfig2 f g)
    (hh : Unharmed g h) : Unharmed f h := by
  have hkey : g.key = f.key := congrArg KeyFiles.key hg.keyFiles
  have hconfig2 : g.config2 = f.config2 := congrArg KeyFiles.config2 hg.keyFiles
  refine ⟨hh.config.trans hg.config, hh.config2.trans hconfig2, ?_⟩
  rw [← hkey]
  exact hh.key

theorem backupConfig_effect :
    (∀ e, (backupConfig env f).2 = .error e → Unharmed f (backupConfig env f).1) ∧
      ((backupConfig env f).2 = .ok () → BackedUp false f (backupConfig env f).1) := by
  by_cases hnone : f.config = none
  · rw [backupConfig, if_pos hnone]
    refine ⟨fun e he => (by cases he), fun _ => ⟨rfl, rfl, rfl, rfl, Or.inl hnone, ?_⟩⟩
    exact fun hfalse => (by cases hfalse)
  · rw [backupConfig, if_neg hnone]
    split
    · exact ⟨fun _ _ => ⟨rfl, rfl, Or.inl rfl⟩, fun hok => (by cases hok)⟩
    · refine ⟨fun e he => (by cases he), fun _ => ⟨rfl, rfl, rfl, rfl, Or.inr rfl, ?_⟩⟩
      exact fun hfalse => (by cases hfalse)

theorem backupConfig2_effect :
    (∀ e, (backupConfig2 env f).2 = .error e → Unharmed f (backupConfig2 env f).1) ∧
      ((backupConfig2 env f).2 = .ok () →
        (backupConfig2 env f).1 =
          { f with config2Backup := (backupConfig2 env f).1.config2Backup } ∧
        (f.config2 = none ∨ (backupConfig2 env f).1.config2Backup = f.config2)) := by
  by_cases hnone : f.config2 = none
  · rw [backupConfig2, if_pos hnone]
    exact ⟨fun e he => (by cases he), fun _ => ⟨rfl, Or.inl hnone⟩⟩
  · rw [backupConfig2, if_neg hnone]
    split
    · exact ⟨fun _ _ => ⟨rfl, rfl, Or.inl rfl⟩, fun hok => (by cases hok)⟩
    · exact ⟨fun e he => (by cases he), fun _ => ⟨rfl, Or.inr rfl⟩⟩

theorem backups_effect (sourceHasMachineKey : Bool) (f : Files) :
    (∀ e, (backups env sourceHasMachineKey f).2 = .error e →
      Unharmed f (backups env sourceHasMachineKey f).1) ∧
      ((backups env sourceHasMachineKey f).2 = .ok () →
        BackedUp env.sourceConfig2Newer f (backups env sourceHasMachineKey f).1) := by
  obtain ⟨herror, hok⟩ := backupConfig_effect env f
  rcases andThen_cases (backupConfig env f) (fun g =>
    if env.sourceConfig2Newer || (sourceHasMachineKey && g.config2.isSome) then
      backupConfig2 env g
    else (g, .ok ())) with ⟨e, he, hr⟩ | ⟨hdone, hr⟩
  · rw [backups, hr, he]
    exact ⟨fun _ _ => herror e he, fun hok' => (by cases hok')⟩
  · have hg := hok hdone
    rw [backups, hr]
    generalize (backupConfig env f).1 = g at hg
    split
    · obtain ⟨herror2, hok2⟩ := backupConfig2_effect env g
      constructor
      · exact fun e he => hg.unharmed _ f g _ (herror2 e he)
      · intro hdone2
        obtain ⟨heq, hbackup⟩ := hok2 hdone2
        rw [heq]
        refine ⟨hg.sourceConfig, hg.sourceConfig2, hg.keyFiles, hg.config, hg.configBackup, ?_⟩
        intro _
        have hconfig2 : g.config2 = f.config2 := congrArg KeyFiles.config2 hg.keyFiles
        rw [← hconfig2]
        exact hbackup
    · rename_i hnot
      refine ⟨fun e he => (by cases he), fun _ => ⟨hg.sourceConfig, hg.sourceConfig2, hg.keyFiles,
        hg.config, hg.configBackup, ?_⟩⟩
      intro hnewer
      simp [hnewer] at hnot

theorem restoreFailed_of_env (withConfig2 : Bool) (k : KeyFiles) :
    (importMachineKeyFiles lib env.keyEnv withConfig2 k).2 ≠ .error .restoreFailed := by
  intro h
  obtain ⟨hreplace, hrestore⟩ := restoreFailed_of_import lib env.keyEnv withConfig2 k h
  simp only [Env.keyEnv, decide_eq_true_eq] at hreplace hrestore
  cases hreplace.symm.trans hrestore

theorem importMachineKeyTo_error (hlib : Lawful lib) (f : Files) (e : ConfigError)
    (h : (importMachineKeyTo lib env f).2 = .error e) :
    Unharmed f (importMachineKeyTo lib env f).1 := by
  by_cases hnone : f.sourceKey = none
  · rw [importMachineKeyTo, if_pos hnone] at h
    cases h
  · simp only [importMachineKeyTo, if_neg hnone] at h ⊢
    cases hr : (importMachineKeyFiles lib env.keyEnv (!env.sourceConfig2Newer) f.keyFiles).2 with
    | ok u => simp [hr] at h
    | error err =>
      have hundone := import_error lib env.keyEnv hlib _ f.keyFiles err hr fun hfailed =>
        restoreFailed_of_env lib env _ f.keyFiles (by rw [hr, hfailed])
      refine ⟨rfl, hundone.1, ?_⟩
      rcases hundone.2 with hkey | hcreated
      · exact Or.inl hkey
      · exact Or.inr hcreated.1

/-- What is in place once the backups are made and the key is imported. -/
structure Prepared (f g : Files) : Prop where
  sourceConfig : g.sourceConfig = f.sourceConfig
  sourceConfig2 : g.sourceConfig2 = f.sourceConfig2
  config : g.config = f.config
  configBackup : f.config = none ∨ g.configBackup = f.config
  config2Backup : env.sourceConfig2Newer = true → f.config2 = none ∨ g.config2Backup = f.config2
  keyFiles : f.sourceKey = none ∧ g.key = f.key ∧ g.config2 = f.config2 ∨
    Installed lib env.keyEnv (!env.sourceConfig2Newer) f.keyFiles g.keyFiles

theorem prepareImport_effect (hlib : Lawful lib) (sourceHasMachineKey : Bool) (f : Files) :
    (∀ e, (prepareImport lib env sourceHasMachineKey f).2 = .error e →
      Unharmed f (prepareImport lib env sourceHasMachineKey f).1) ∧
      ((prepareImport lib env sourceHasMachineKey f).2 = .ok () →
        Prepared lib env f (prepareImport lib env sourceHasMachineKey f).1) := by
  obtain ⟨herror, hok⟩ := backups_effect env sourceHasMachineKey f
  rcases andThen_cases (backups env sourceHasMachineKey f) (importMachineKeyTo lib env) with
    ⟨e, he, hr⟩ | ⟨hdone, hr⟩
  · rw [prepareImport, hr, he]
    exact ⟨fun _ _ => herror e he, fun hok' => (by cases hok')⟩
  · have hg := hok hdone
    rw [prepareImport, hr]
    generalize (backups env sourceHasMachineKey f).1 = g at hg
    refine ⟨fun e he => hg.unharmed _ f g _ (importMachineKeyTo_error lib env hlib g e he), ?_⟩
    intro hdone2
    by_cases hnone : g.sourceKey = none
    · rw [importMachineKeyTo, if_pos hnone]
      have hkeyFiles := hg.keyFiles
      simp only [Files.keyFiles, KeyFiles.mk.injEq] at hkeyFiles
      exact ⟨hg.sourceConfig, hg.sourceConfig2, hg.config, hg.configBackup, hg.config2Backup,
        Or.inl ⟨hkeyFiles.1 ▸ hnone, hkeyFiles.2⟩⟩
    · simp only [importMachineKeyTo, if_neg hnone] at hdone2 ⊢
      refine ⟨hg.sourceConfig, hg.sourceConfig2, hg.config, hg.configBackup, hg.config2Backup,
        Or.inr ?_⟩
      have hinstalled := import_ok lib env.keyEnv hlib (!env.sourceConfig2Newer) g.keyFiles (by
        split at hdone2
        · assumption
        · cases hdone2)
      rwa [hg.keyFiles] at hinstalled ⊢

theorem fileHolds_carried (hsep : Separating lib) (old new : StoredKey) (source source' : Bytes)
    (spot : SecretPlace) (m : Bytes)
    (h : FileCarried lib env.keyEnv old new source source')
    (hm : FileHolds lib old (some source) spot m) : FileHolds lib new (some source') spot m := by
  obtain ⟨config, config', hconfig, hconfig', hcarried⟩ := h
  obtain ⟨data, config₀, hdata, hparse, hholds⟩ := hm
  obtain rfl := Option.some.inj hdata
  obtain rfl := Option.some.inj (hconfig.symm.trans hparse)
  exact ⟨source', config', rfl, hconfig',
    holds_carried lib _ hsep config config' spot m hcarried hholds⟩

theorem fileHolds_backup (key : StoredKey) (file backup : Option Bytes) (spot : SecretPlace)
    (m : Bytes) (hbackup : file = none ∨ backup = file) (hm : FileHolds lib key file spot m) :
    FileHolds lib key backup spot m := by
  rcases hbackup with hnone | heq
  · obtain ⟨data, config, hdata, -⟩ := hm
    rw [hnone] at hdata
    cases hdata
  · rwa [heq]

theorem Prepared.current (hsep : Separating lib) (f g : Files) (old : StoredKey)
    (hg : Prepared lib env f g) (hold : f.key = some old.val) :
    ∃ current : StoredKey, g.key = some current.val ∧
      (current = old ∨ f.sourceKey = some current.val ∧ old ≠ current) ∧
      (env.sourceConfig2Newer = false → ∀ spot m, FileHolds lib old f.config2 spot m →
        FileHolds lib current g.config2 spot m) := by
  rcases hg.keyFiles with ⟨-, hkey, hconfig2⟩ | ⟨new, hsource, hnew, hcarried, -⟩
  · refine ⟨old, hkey.trans hold, Or.inl rfl, fun _ spot m hm => ?_⟩
    rwa [hconfig2]
  · refine ⟨new, hnew, ?_, ?_⟩
    · by_cases hsame : new = old
      · exact Or.inl hsame
      · exact Or.inr ⟨hsource, fun h => hsame h.symm⟩
    · intro hnewer spot m hm
      obtain ⟨source, config, hsource2, hrest⟩ := hm
      obtain ⟨old', source', hin, hconfig2', hfile⟩ := hcarried (by simp [hnewer]) source hsource2
      have hold' : old' = old := by
        rcases hin with hin | ⟨hnone, -⟩
        · exact Subtype.ext (Option.some.inj (hin.symm.trans hold))
        · cases hold.symm.trans hnone
      subst hold'
      have hheld := fileHolds_carried lib env hsep old' new source source' spot m hfile
        ⟨source, config, rfl, hrest⟩
      rwa [← hconfig2'] at hheld

/-- What is written after the preparation loses no secret, unless the key was replaced by another
and a secret of what is replaced is not found under that one. -/
theorem kept_of_prepared (hsep : Separating lib) (f g h : Files) (hg : Prepared lib env f g)
    (hkey : h.key = g.key) (hconfigBackup : h.configBackup = g.configBackup)
    (hconfig2Backup : h.config2Backup = g.config2Backup)
    (hconfig2 : env.sourceConfig2Newer = false → h.config2 = g.config2)
    (hfound : ∀ old new : StoredKey, f.key = some old.val → f.sourceKey = some new.val →
      old ≠ new → ∀ spot m,
        (FileHolds lib old f.config spot m → FileHolds lib new h.config spot m) ∧
        (env.sourceConfig2Newer = true → FileHolds lib old f.config2 spot m →
          FileHolds lib new h.config2 spot m)) : Kept lib f h := by
  intro old hold spot m
  obtain ⟨current, hcurrent, hreplaced, hkept⟩ := hg.current lib env hsep f g old hold
  rw [← hkey] at hcurrent
  constructor
  · intro hm
    refine ⟨current, hcurrent, ?_⟩
    rcases hreplaced with rfl | ⟨hsource, hne⟩
    · rw [hconfigBackup]
      exact Or.inr (fileHolds_backup lib _ _ _ spot m hg.configBackup hm)
    · exact Or.inl ((hfound old current hold hsource hne spot m).1 hm)
  · intro hm
    refine ⟨current, hcurrent, ?_⟩
    cases hnewer : env.sourceConfig2Newer with
    | false =>
      rw [hconfig2 hnewer]
      exact Or.inl (hkept hnewer spot m hm)
    | true =>
      rcases hreplaced with rfl | ⟨hsource, hne⟩
      · rw [hconfig2Backup]
        exact Or.inr (fileHolds_backup lib _ _ _ spot m (hg.config2Backup hnewer) hm)
      · exact Or.inl ((hfound old current hold hsource hne spot m).2 hnewer hm)

theorem Prepared.config2_of_newer (hg : Prepared lib env f g)
    (hnewer : env.sourceConfig2Newer = true) : g.config2 = f.config2 := by
  rcases hg.keyFiles with ⟨-, -, hconfig2⟩ | ⟨new, -, -, -, hconfig2⟩
  · exact hconfig2
  · exact hconfig2 (Or.inl (by simp [hnewer]))

def leftConfig (f : Files) : Option Bytes :=
  if env.fails = some .storeConfig then env.partialFile else some (configs.stored f.sourceConfig)

def leftConfig2 (f : Files) : Option Bytes :=
  if env.fails = some .storeConfig2 then env.partialFile else f.config2

/-- The import gets as far as to store Config under another key, and a store fails. -/
structure StoreFails (f : Files) (old new : StoredKey) : Prop where
  key : f.key = some old.val
  sourceKey : f.sourceKey = some new.val
  ne : old ≠ new
  identity : destinationHasIdentity lib env f.config = .ok false
  source : configs.isEmpty f.sourceConfig = false
  times : shouldImportConfig false env.sourceNewer env.sourceOlderThanExe = true
  config2 : env.sourceConfig2Newer = false → ∀ source, f.config2 = some source →
    ∃ data, reencryptConfig2 lib env.keyEnv old new source = .ok data
  fails : env.fails = some .storeConfig ∨
    env.sourceConfig2Newer = true ∧ env.fails = some .storeConfig2

/-- A failed store leaves the key of the profile with secrets of the service that are not found
under it. -/
def Loses (f : Files) : Prop :=
  ∃ old new, StoreFails lib configs env f old new ∧ ∃ spot m,
    FileHolds lib old f.config spot m ∧ ¬FileHolds lib new (leftConfig configs env f) spot m ∨
    env.sourceConfig2Newer = true ∧ FileHolds lib old f.config2 spot m ∧
      ¬FileHolds lib new (leftConfig2 env f) spot m

theorem reencrypted_of_prepareImport (sourceHasMachineKey : Bool) (f : Files)
    (old new : StoredKey) (source : Bytes)
    (h : (prepareImport lib env sourceHasMachineKey f).2 = .ok ())
    (hsource : f.sourceKey = some new.val) (hkey : f.key = some old.val)
    (hnewer : env.sourceConfig2Newer = false) (hconfig2 : f.config2 = some source) :
    ∃ data, reencryptConfig2 lib env.keyEnv old new source = .ok data := by
  rcases andThen_cases (backups env sourceHasMachineKey f) (importMachineKeyTo lib env) with
    ⟨e, he, hr⟩ | ⟨hdone, hr⟩
  · rw [prepareImport, hr, he] at h
    cases h
  · have hg := ((backups_effect env sourceHasMachineKey f).2 hdone).keyFiles
    rw [prepareImport, hr] at h
    generalize (backups env sourceHasMachineKey f).1 = g at hg h
    have hsource' : g.sourceKey = some new.val := (congrArg KeyFiles.sourceKey hg).trans hsource
    simp only [importMachineKeyTo, hsource', reduceCtorEq, if_false, hg] at h
    refine reencrypted_of_import lib env.keyEnv (!env.sourceConfig2Newer) f.keyFiles old new source
      ?_ hsource hkey (by simp [hnewer]) hconfig2
    split at h
    · assumption
    · cases h

theorem storeConfig_cases :
    (env.fails = some .storeConfig ∧ storeConfig configs env g =
      ({ g with config := env.partialFile }, .error (.io .storeConfig))) ∨
    (env.fails ≠ some .storeConfig ∧ storeConfig configs env g =
      ({ g with config := some (configs.stored g.sourceConfig) }, .ok ())) := by
  by_cases hfails : env.fails = some .storeConfig
  · exact Or.inl ⟨hfails, by rw [storeConfig, if_pos hfails]⟩
  · exact Or.inr ⟨hfails, by rw [storeConfig, if_neg hfails]⟩

theorem storeConfig2_cases :
    (env.fails = some .storeConfig2 ∧ storeConfig2 configs env g =
      ({ g with config2 := env.partialFile }, .error (.io .storeConfig2))) ∨
    (env.fails ≠ some .storeConfig2 ∧ storeConfig2 configs env g =
      ({ g with config2 := some (configs.stored2 g.sourceConfig2) }, .ok ())) := by
  by_cases hfails : env.fails = some .storeConfig2
  · exact Or.inl ⟨hfails, by rw [storeConfig2, if_pos hfails]⟩
  · exact Or.inr ⟨hfails, by rw [storeConfig2, if_neg hfails]⟩

def storeConfigs (g : Files) : Outcome :=
  (storeConfig configs env g).andThen fun h =>
    if env.sourceConfig2Newer then storeConfig2 configs env h else (h, .ok ())

theorem andThen_assoc (r : Outcome) (g h : Files → Outcome) :
    (r.andThen g).andThen h = r.andThen fun f => (g f).andThen h := by
  rcases andThen_cases r g with ⟨e, he, hr⟩ | ⟨hdone, hr⟩
  · rw [hr]
    simp [Outcome.andThen, he]
  · rw [hr]
    simp [Outcome.andThen, hdone]

theorem storeConfigs_error (he : (storeConfigs configs env g).2 = .error e) :
    (env.fails = some .storeConfig ∧
      (storeConfigs configs env g).1 = { g with config := env.partialFile }) ∨
    (env.sourceConfig2Newer = true ∧ env.fails = some .storeConfig2 ∧
      (storeConfigs configs env g).1 = { g with
        config := some (configs.stored g.sourceConfig), config2 := env.partialFile }) := by
  rcases storeConfig_cases configs env g with ⟨hfails, hr⟩ | ⟨-, hr⟩
  · exact Or.inl ⟨hfails, by simp [storeConfigs, Outcome.andThen, hr]⟩
  · have hrest : storeConfigs configs env g =
        if env.sourceConfig2Newer then storeConfig2 configs env
          { g with config := some (configs.stored g.sourceConfig) }
        else ({ g with config := some (configs.stored g.sourceConfig) }, .ok ()) := by
      simp [storeConfigs, Outcome.andThen, hr]
    rw [hrest] at he ⊢
    cases hnewer : env.sourceConfig2Newer with
    | false => simp [hnewer] at he
    | true =>
      simp only [hnewer, if_true] at he ⊢
      rcases storeConfig2_cases configs env
        { g with config := some (configs.stored g.sourceConfig) } with ⟨hfails, hr2⟩ | ⟨-, hr2⟩
      · exact Or.inr ⟨trivial, hfails, by rw [hr2]⟩
      · simp [hr2] at he

theorem storeConfigs_left (hsource : g.sourceConfig = f.sourceConfig)
    (he : (storeConfigs configs env g).2 = .error e) :
    (storeConfigs configs env g).1.key = g.key ∧
      (storeConfigs configs env g).1.configBackup = g.configBackup ∧
      (storeConfigs configs env g).1.config2Backup = g.config2Backup ∧
      (storeConfigs configs env g).1.config = leftConfig configs env f ∧
      (env.sourceConfig2Newer = false → (storeConfigs configs env g).1.config2 = g.config2) ∧
      (env.sourceConfig2Newer = true → g.config2 = f.config2 →
        (storeConfigs configs env g).1.config2 = leftConfig2 env f) := by
  rcases storeConfigs_error configs env g e he with ⟨hfails, hr⟩ | ⟨hnewer, hfails, hr⟩
  · rw [hr]
    simp [leftConfig, leftConfig2, hfails]
  · rw [hr]
    simp [leftConfig, leftConfig2, hfails, hnewer, hsource]

theorem importConfigFiles_full (hidentity : destinationHasIdentity lib env f.config = .ok false)
    (hsource : configs.isEmpty f.sourceConfig = false)
    (htimes : shouldImportConfig false env.sourceNewer env.sourceOlderThanExe = true) :
    importConfigFiles lib configs env f =
      (prepareImport lib env f.sourceKey.isSome f).andThen (storeConfigs configs env) := by
  simp only [importConfigFiles, hidentity, hsource, htimes, Bool.false_eq_true, if_false, if_true,
    andThen_assoc]
  rfl

theorem kept_of_config2_only
    (he : ((backupConfig2 env f).andThen (storeConfig2 configs env)).2 = .error e) :
    Kept lib f ((backupConfig2 env f).andThen (storeConfig2 configs env)).1 := by
  obtain ⟨herror, hok⟩ := backupConfig2_effect env f
  rcases andThen_cases (backupConfig2 env f) (storeConfig2 configs env) with
    ⟨e', he', hr⟩ | ⟨hdone, hr⟩
  · rw [hr]
    exact Unharmed.kept lib f _ (herror e' he')
  · obtain ⟨hg, hbackup⟩ := hok hdone
    rw [hr] at he ⊢
    generalize (backupConfig2 env f).1 = g at hg hbackup he
    rcases storeConfig2_cases configs env g with ⟨-, hr2⟩ | ⟨-, hr2⟩
    · rw [hr2]
      intro old hold spot m
      have hkey : g.key = some old.val := by rw [hg, hold]
      refine ⟨fun hm => ⟨old, hkey, Or.inl ?_⟩, fun hm => ⟨old, hkey, Or.inr ?_⟩⟩
      · rw [hg]
        exact hm
      · exact fileHolds_backup lib old _ _ spot m hbackup hm
    · simp [hr2] at he

theorem kept_of_not_loses (hlib : Lawful lib) (hsep : Separating lib) (f : Files) (e : ConfigError)
    (h : ¬Loses lib configs env f) (he : (importConfigFiles lib configs env f).2 = .error e) :
    Kept lib f (importConfigFiles lib configs env f).1 := by
  have hsame : Kept lib f f := Unharmed.kept lib f f ⟨rfl, rfl, Or.inl rfl⟩
  cases hidentity : destinationHasIdentity lib env f.config with
  | error e' => simpa only [importConfigFiles, hidentity] using hsame
  | ok hasIdentity =>
  cases hasIdentity with
  | true => simp [importConfigFiles, hidentity] at he
  | false =>
  cases hsource : configs.isEmpty f.sourceConfig with
  | true => simp [importConfigFiles, hidentity, hsource] at he
  | false =>
  cases htimes : shouldImportConfig false env.sourceNewer env.sourceOlderThanExe with
  | false =>
    cases hnewer : env.sourceConfig2Newer with
    | false => simp [importConfigFiles, hidentity, hsource, htimes, hnewer] at he
    | true =>
      cases hkey : f.sourceKey.isSome with
      | true => simp [importConfigFiles, hidentity, hsource, htimes, hnewer, hkey] at he
      | false =>
        have hrun : importConfigFiles lib configs env f =
            (backupConfig2 env f).andThen (storeConfig2 configs env) := by
          simp [importConfigFiles, hidentity, hsource, htimes, hnewer, hkey]
        rw [hrun] at he ⊢
        exact kept_of_config2_only lib configs env f e he
  | true =>
    rw [importConfigFiles_full lib configs env f hidentity hsource htimes] at he ⊢
    obtain ⟨herror, hok⟩ := prepareImport_effect lib env hlib f.sourceKey.isSome f
    rcases andThen_cases (prepareImport lib env f.sourceKey.isSome f)
      (storeConfigs configs env) with
      ⟨e', he', hr⟩ | ⟨hdone, hr⟩
    · rw [hr]
      exact Unharmed.kept lib f _ (herror e' he')
    · have hg := hok hdone
      rw [hr] at he ⊢
      obtain ⟨hkey, hconfigBackup, hconfig2Backup, hconfig, hconfig2, hconfig2'⟩ :=
        storeConfigs_left configs env f _ e hg.sourceConfig he
      refine kept_of_prepared lib env hsep f _ _ hg hkey hconfigBackup hconfig2Backup hconfig2 ?_
      intro old new hold hnew hne spot m
      have hfails : StoreFails lib configs env f old new := by
        refine ⟨hold, hnew, hne, hidentity, hsource, htimes, ?_, ?_⟩
        · exact fun hnewer source hsource2 =>
            reencrypted_of_prepareImport lib env _ f old new source hdone hnew hold hnewer hsource2
        · rcases storeConfigs_error configs env _ e he with ⟨hfails, -⟩ | ⟨hnewer, hfails, -⟩
          · exact Or.inl hfails
          · exact Or.inr ⟨hnewer, hfails⟩
      constructor
      · intro hm
        by_contra hlost
        rw [hconfig] at hlost
        exact h ⟨old, new, hfails, spot, m, Or.inl ⟨hm, hlost⟩⟩
      · intro hnewer hm
        by_contra hlost
        rw [hconfig2' hnewer (hg.config2_of_newer lib env f _ hnewer)] at hlost
        exact h ⟨old, new, hfails, spot, m, Or.inr ⟨hnewer, hm, hlost⟩⟩

section
variable {lib configs env} {f : Files} {old new : StoredKey}
variable (h : StoreFails lib configs env f old new)
include h

theorem StoreFails.ne_fails (op : ImportOp) (hconfig : op ≠ .storeConfig)
    (hconfig2 : op ≠ .storeConfig2) : env.fails ≠ some op := by
  intro hop
  rcases h.fails with hfails | ⟨-, hfails⟩
  · exact hconfig (Option.some.inj (hop.symm.trans hfails))
  · exact hconfig2 (Option.some.inj (hop.symm.trans hfails))

theorem StoreFails.prepared : (prepareImport lib env f.sourceKey.isSome f).2 = .ok () := by
  have hbackup : ∀ g, (backupConfig env g).2 = .ok () := by
    intro g
    rw [backupConfig, if_neg (h.ne_fails .backupConfig (by simp) (by simp))]
    split <;> rfl
  have hbackup2 : ∀ g, (backupConfig2 env g).2 = .ok () := by
    intro g
    rw [backupConfig2, if_neg (h.ne_fails .backupConfig2 (by simp) (by simp))]
    split <;> rfl
  have hbackups : (backups env f.sourceKey.isSome f).2 = .ok () := by
    simp only [backups, Outcome.andThen, hbackup]
    split
    · exact hbackup2 _
    · rfl
  have hg := ((backups_effect env f.sourceKey.isSome f).2 hbackups).keyFiles
  rw [prepareImport]
  simp only [Outcome.andThen, hbackups]
  generalize (backups env f.sourceKey.isSome f).1 = g at hg
  have hsource : g.sourceKey = some new.val := (congrArg KeyFiles.sourceKey hg).trans h.sourceKey
  have hok : (importMachineKeyFiles lib env.keyEnv (!env.sourceConfig2Newer) f.keyFiles).2 =
      .ok () := by
    refine import_succeeds lib env.keyEnv _ f.keyFiles old new (fun op => ?_) h.sourceKey h.key ?_
    · simpa [Env.keyEnv] using h.ne_fails (.key op) (by simp) (by simp)
    · exact fun hnewer => h.config2 (by simpa using hnewer)
  simp only [importMachineKeyTo, hsource, reduceCtorEq, if_false, hg, hok]

theorem StoreFails.storeConfigs_fails : ∃ e, (storeConfigs configs env g).2 = .error e := by
  rcases h.fails with hfails | ⟨hnewer, hfails⟩
  · exact ⟨.io .storeConfig, by simp [storeConfigs, storeConfig, Outcome.andThen, hfails]⟩
  · refine ⟨.io .storeConfig2, ?_⟩
    simp [storeConfigs, storeConfig, storeConfig2, Outcome.andThen, hfails, hnewer]

theorem StoreFails.stopped (hlib : Lawful lib) :
    ∃ e g, importConfigFiles lib configs env f = (g, .error e) ∧ g.key = some new.val ∧
      g.config = leftConfig configs env f ∧ (f.config = none ∨ g.configBackup = f.config) ∧
      (env.sourceConfig2Newer = true → g.config2 = leftConfig2 env f ∧
        (f.config2 = none ∨ g.config2Backup = f.config2)) := by
  have hdone := h.prepared
  have hg := (prepareImport_effect lib env hlib f.sourceKey.isSome f).2 hdone
  have hrun := importConfigFiles_full lib configs env f h.identity h.source h.times
  simp only [Outcome.andThen, hdone] at hrun
  generalize (prepareImport lib env f.sourceKey.isSome f).1 = g at hg hrun
  obtain ⟨e, he⟩ := h.storeConfigs_fails g
  obtain ⟨hkey, hconfigBackup, hconfig2Backup, hconfig, -, hconfig2⟩ :=
    storeConfigs_left configs env f g e hg.sourceConfig he
  have hnew : g.key = some new.val := by
    rcases hg.keyFiles with ⟨hnone, -⟩ | ⟨new', hsource, hkey', -⟩
    · rw [h.sourceKey] at hnone
      cases hnone
    · exact hkey'.trans (hsource.symm.trans h.sourceKey)
  refine ⟨e, _, hrun.trans (Prod.ext rfl he), hkey.trans hnew, hconfig, ?_, fun hnewer => ⟨?_, ?_⟩⟩
  · rw [hconfigBackup]
    exact hg.configBackup
  · exact hconfig2 hnewer (hg.config2_of_newer lib env f g hnewer)
  · rw [hconfig2Backup]
    exact hg.config2Backup hnewer

end

theorem not_opens (hsep : Separating lib) (old new : StoredKey) (hne : old ≠ new)
    (key before after backup : Option Bytes) (spot : SecretPlace) (m : Bytes)
    (hkey : key = some new.val) (hbackup : before = none ∨ backup = before)
    (hm : FileHolds lib old before spot m) (hlost : ¬FileHolds lib new after spot m) :
    ¬Opens lib key after backup spot m := by
  rintro ⟨current, hcurrent, hfile | hback⟩
  · obtain rfl : current = new := Subtype.ext (Option.some.inj (hcurrent.symm.trans hkey))
    exact hlost hfile
  · obtain rfl : current = new := Subtype.ext (Option.some.inj (hcurrent.symm.trans hkey))
    rcases hbackup with hnone | heq
    · obtain ⟨data, config, hdata, -⟩ := hm
      rw [hnone] at hdata
      cases hdata
    · rw [heq] at hback
      exact hne (fileHolds_key lib hsep before spot m m old current hm hback)

theorem lost_of_loses (hlib : Lawful lib) (hsep : Separating lib) (f : Files)
    (h : Loses lib configs env f) :
    ∃ e g, importConfigFiles lib configs env f = (g, .error e) ∧ ¬Kept lib f g := by
  obtain ⟨old, new, hfails, spot, m, hlost⟩ := h
  obtain ⟨e, g, hrun, hkey, hconfig, hconfigBackup, hnewer⟩ := hfails.stopped hlib
  refine ⟨e, g, hrun, fun hkept => ?_⟩
  have hspot := hkept old hfails.key spot m
  rcases hlost with ⟨hm, hlost⟩ | ⟨htrue, hm, hlost⟩
  · rw [← hconfig] at hlost
    exact not_opens lib hsep old new hfails.ne _ _ _ _ spot m hkey hconfigBackup hm hlost
      (hspot.1 hm)
  · obtain ⟨hconfig2, hconfig2Backup⟩ := hnewer htrue
    rw [← hconfig2] at hlost
    exact not_opens lib hsep old new hfails.ne _ _ _ _ spot m hkey hconfig2Backup hm hlost
      (hspot.2 hm)

/-- An import that fails keeps what Config and Config2 held under the service's key exactly when
no store fails once another key has taken its place. -/
theorem failed_import_keeps_secrets (hlib : Lawful lib) (hsep : Separating lib) (f : Files) :
    (∀ e, (importConfigFiles lib configs env f).2 = .error e →
      Kept lib f (importConfigFiles lib configs env f).1) ↔ ¬Loses lib configs env f := by
  constructor
  · intro hkept hloses
    obtain ⟨e, g, hrun, hlost⟩ := lost_of_loses lib configs env hlib hsep f hloses
    rw [hrun] at hkept
    exact hlost (hkept e rfl)
  · exact fun h e he => kept_of_not_loses lib configs env hlib hsep f e h he

end

theorem sampleLibraries_separating : Separating sampleLibraries := by
  refine ⟨?_, ?_, ?_⟩
  · intro box nonce key key' m m' h h'
    simp only [sampleLibraries] at h h'
    split at h
    · rename_i hkey
      split at h'
      · rename_i hkey'
        exact Subtype.ext (List.prefix_of_prefix_length_le hkey hkey'
          (by rw [key.property, key'.property]) |>.eq_of_length (by
            rw [key.property, key'.property]))
      · cases h'
    · cases h
  · intro s json h
    simp only [sampleLibraries, sampleParseJson] at h
    split at h
    · rename_i hs
      rw [← hs]
      exact ⟨by simp, rfl, rfl⟩
    · cases h
  · intro json text h
    simp only [sampleLibraries, samplePrintJson] at h
    split at h
    · rename_i s
      obtain ⟨hall, rfl⟩ := of_guard h
      have hs := takeWhile_append Char.isAlphanum s "]".toList '"' hall (by decide)
      refine ⟨.array [.leaf (.string s)], ?_, fun p => ⟨Or.inl rfl, trivial⟩⟩
      have hdrop : ("[\"".toList ++ s ++ "\"]".toList).drop 2 = s ++ '"' :: "]".toList := by
        simp
      simp only [sampleLibraries, sampleParseJson, hdrop, hs.1, if_pos]
    · cases h

def sampleConfigs : Configs where
  isEmpty file := file.isNone
  stored file := file.getD []
  stored2 file := file.getD []

def sampleConfig : Toml Unit :=
  .table [("password".toList, .leaf (.string (sampleText (sampleKey 0x11) "secret".toList)))]

def serviceFiles : Files where
  sourceConfig := samplePrint (.table [("id".toList, .leaf (.string "profile".toList))])
  sourceConfig2 := none
  sourceKey := some (sampleKey 0x22).val
  config := samplePrint sampleConfig
  config2 := none
  key := some (sampleKey 0x11).val
  configBackup := none
  config2Backup := none

def failingEnv (op : ImportOp) : Env where
  fails := some op
  partialFile := serviceFiles.config
  sourceNewer := true
  sourceOlderThanExe := true
  sourceConfig2Newer := false
  fresh := sampleKey 0x44
  nonce _ := sampleNonce

theorem failed_import_keeps_secrets_sample :
    (importConfigFiles sampleLibraries sampleConfigs (failingEnv (.key .replaceKey))
      serviceFiles).2 = .error (.key (.io .replaceKey)) ∧
    Kept sampleLibraries serviceFiles (importConfigFiles sampleLibraries sampleConfigs
      (failingEnv (.key .replaceKey)) serviceFiles).1 := by
  have herror : (importConfigFiles sampleLibraries sampleConfigs (failingEnv (.key .replaceKey))
      serviceFiles).2 = .error (.key (.io .replaceKey)) := by
    decide +kernel
  refine ⟨herror, (failed_import_keeps_secrets sampleLibraries sampleConfigs _
    sampleLibraries_lawful sampleLibraries_separating serviceFiles).mpr ?_ _ herror⟩
  rintro ⟨old, new, hfails, -⟩
  rcases hfails.fails with hop | ⟨-, hop⟩
  · cases hop
  · cases hop

/-- The password of the service is lost when Config cannot be stored after the key was replaced. -/
theorem stored_key_without_config :
    ∃ e g, importConfigFiles sampleLibraries sampleConfigs (failingEnv .storeConfig) serviceFiles =
      (g, .error e) ∧ ¬Kept sampleLibraries serviceFiles g := by
  refine lost_of_loses _ _ _ sampleLibraries_lawful sampleLibraries_separating _ ?_
  have hne : sampleKey 0x11 ≠ sampleKey 0x22 := by decide
  have hprint : (samplePrint sampleConfig).isSome = true := by decide +kernel
  obtain ⟨data, hdata⟩ := Option.isSome_iff_exists.mp hprint
  have hparse : sampleLibraries.parseToml data = some sampleConfig :=
    sampleParse_samplePrint _ _ hdata
  have hholds : FileHolds sampleLibraries (sampleKey 0x11) serviceFiles.config
      ⟨[.entry "password".toList], none⟩ (asBytes "secret".toList) :=
    ⟨data, sampleConfig, hdata, hparse, _, _, rfl,
      decrypt_encrypt sampleLibraries sampleLibraries_lawful _ _ _⟩
  refine ⟨sampleKey 0x11, sampleKey 0x22, ⟨rfl, rfl, hne, ?_, ?_, rfl, ?_, Or.inl rfl⟩, _, _,
    Or.inl ⟨hholds, fun hnew => hne ?_⟩⟩
  · decide +kernel
  · decide +kernel
  · intro _ source hsource
    cases hsource
  · exact fileHolds_key sampleLibraries sampleLibraries_separating _ _ _ _ _ _ hholds hnew

end ClantoDesk.ConfigImport
