import Mathlib.Data.List.Basic
import Mathlib.Tactic.Common
import ClantoDesk.Runs

/-!
The user key of a Linux client. It is kept in the Secret Service, with a marker file that
records this, or in a key file. At each start the three stores are read and the key is taken,
imported into the service or created. The service may answer or fail at each call, and a failure may
leave open whether it already holds the key. Calls for files may fail too. The stores are
what lasts from one start to the next.
-/
namespace ClantoDesk.UserKey

open Runs

abbrev Bytes := List UInt8

def KEY_LEN : ℕ := 32

abbrev StoredKey := { bytes : Bytes // bytes.length = KEY_LEN }

/-- The items in the default collection of the Secret Service, the marker file and the key file. -/
structure Stores where
  items : List Bytes
  marker : Bool
  file : Option Bytes

/-- A failed call of the service. `mustNotFallback` is `LinuxUserKeyStoreMustNotFallback`: the
service is there and may hold the key. -/
structure ServiceError where
  mustNotFallback : Bool
  text : String

inductive Service
  | answers
  | fails (err : ServiceError)

/-- A write that fails before it reaches the collection stores nothing; one that fails
later may have stored the item. -/
inductive WriteOutcome
  | done
  | unreachable (text : String)
  | refused (text : String) (stored : Bool)

inductive BackendSnapshot
  | missing
  | present (key : StoredKey)
  | unavailable
  deriving DecidableEq

inductive UserKeyChoice
  | backend (key : StoredKey) (removeFile : Bool)
  | importFile (key : StoredKey)
  | fileFallback (key : StoredKey)
  | createBackend
  | createFileFallback

/-- What one start meets: how each call of the service goes, which calls for files
succeed, and the random keys. -/
structure Attempt where
  fileRead : Bool
  markerRead : Bool
  read : Service
  markerWrite : Bool
  verification : Service
  fileRemoved : Bool
  write : WriteOutcome
  readback : Service
  markerRecord : Bool
  fileReread : Bool
  fileCreated : Bool
  fresh : StoredKey
  freshFile : StoredKey

def decodeStoredKey (data : Bytes) : Except String StoredKey :=
  if h : data.length = KEY_LEN then .ok ⟨data, h⟩
  else .error "credential key file must contain exactly 32 bytes"

def findKey : Option StoredKey → List Bytes → Except String (Option StoredKey)
  | found, [] => .ok found
  | found, item :: items =>
    match decodeStoredKey item with
    | .error e => .error e
    | .ok key =>
      if found.any fun value => value ≠ key then
        .error "Secret Service contains conflicting ClantoDesk user keys"
      else findKey (some key) items

/-- `read_user_key_backend`. -/
def readUserKeyBackend (service : Service) (items : List Bytes) :
    Except ServiceError (Option StoredKey) :=
  match service with
  | .fails err => .error err
  | .answers =>
    match findKey none items with
    | .error text => .error ⟨true, text⟩
    | .ok found => .ok found

/-- `write_user_key_backend`: the items after it, and its error. -/
def writeUserKeyBackend (key : StoredKey) (items : List Bytes) :
    WriteOutcome → List Bytes × Option ServiceError
  | .done => (items ++ [key.val], none)
  | .unreachable text => (items, some ⟨false, text⟩)
  | .refused text stored => (if stored then items ++ [key.val] else items, some ⟨true, text⟩)

def snapshot : Except ServiceError (Option StoredKey) → BackendSnapshot
  | .ok (some key) => .present key
  | .ok none => .missing
  | .error _ => .unavailable

def errorOf : Except ServiceError (Option StoredKey) → Option ServiceError
  | .ok _ => none
  | .error err => some err

/-- `user_backend_allows_new_file_when_unavailable`. -/
def allowsNewFileWhenUnavailable (result : Except ServiceError (Option StoredKey)) : Bool :=
  (errorOf result).all fun err => !err.mustNotFallback

/-- `user_backend_has_file_fallback`. -/
def hasFileFallback (writeError readbackError : Option ServiceError) : Bool :=
  (writeError.all fun err => !err.mustNotFallback) &&
    readbackError.all fun err => !err.mustNotFallback

/-- `choose_user_key`. -/
def chooseUserKey (backend : BackendSnapshot) (file : Option StoredKey)
    (fallbackWhenUnavailable markerPresent : Bool) : Except String UserKeyChoice :=
  match backend, file with
  | .present key, some other =>
    if key ≠ other then
      .error "user credential key differs between the system key store and user.key"
    else .ok (.backend key true)
  | .present key, none => .ok (.backend key false)
  | .missing, some key => .ok (.importFile key)
  | .missing, none =>
    if markerPresent then
      .error "the recorded user credential key backend no longer contains the key"
    else .ok .createBackend
  | .unavailable, file =>
    if markerPresent then .error "the recorded user credential key backend is unavailable"
    else
      match file with
      | some key => .ok (.fileFallback key)
      | none =>
        if fallbackWhenUnavailable then .ok .createFileFallback
        else .error "the user credential key store is unavailable"

/-- `read_existing_key_file`. -/
def readExistingKeyFile (readable : Bool) (file : Option Bytes) :
    Except String (Option StoredKey) :=
  if !readable then .error "failed to read the key file"
  else
    match file with
    | none => .ok none
    | some data => (decodeStoredKey data).map some

def recordPresent (a : Attempt) (s : Stores) : Stores :=
  match snapshot (readUserKeyBackend a.read s.items) with
  | .present _ => { s with marker := s.marker || a.markerWrite }
  | _ => s

/-- `atomic_create` of the key file, and the key that it holds then. -/
def createKeyFile (created : Bool) (key : StoredKey) (s : Stores) :
    Stores × Except String StoredKey :=
  if !created then (s, .error "failed to create the key file")
  else
    match s.file with
    | none => ({ s with file := some key.val }, .ok key)
    | some data => (s, decodeStoredKey data)

/-- `load_or_create_key`. -/
def loadOrCreateKey (a : Attempt) (s : Stores) : Stores × Except String StoredKey :=
  match readExistingKeyFile a.fileReread s.file with
  | .error e => (s, .error e)
  | .ok (some key) => (s, .ok key)
  | .ok none => createKeyFile a.fileCreated a.freshFile s

/-- `persist_user_backend`. -/
def persistUserBackend (a : Attempt) (key : StoredKey) (migratingFile : Bool) (s : Stores) :
    Stores × Except String StoredKey :=
  let written := writeUserKeyBackend key s.items a.write
  let s := { s with items := written.1 }
  let result := readUserKeyBackend a.readback s.items
  match snapshot result with
  | .present found =>
    if found ≠ key then
      (s, .error "the user credential key store changed while the key was being saved")
    else if !a.markerRecord then (s, .error "failed to record the backend")
    else
      ({ s with marker := true, file := if migratingFile && a.fileRemoved then none else s.file },
        .ok key)
  | _ =>
    if migratingFile then (s, .ok key)
    else if hasFileFallback written.2 (errorOf result) then createKeyFile a.fileCreated key s
    else
      (s, .error (((written.2.or (errorOf result)).map ServiceError.text).getD
        "failed to verify the saved user credential key"))

def act (a : Attempt) (s : Stores) : UserKeyChoice → Stores × Except String StoredKey
  | .backend key removeFile =>
    if removeFile && a.fileRemoved &&
        snapshot (readUserKeyBackend a.verification s.items) = .present key then
      ({ s with file := none }, .ok key)
    else (s, .ok key)
  | .importFile key => persistUserBackend a key true s
  | .fileFallback key => (s, .ok key)
  | .createBackend => persistUserBackend a a.fresh false s
  | .createFileFallback => loadOrCreateKey a s

def choiceOf (a : Attempt) (s : Stores) : Except String UserKeyChoice :=
  match readExistingKeyFile a.fileRead s.file with
  | .error e => .error e
  | .ok file =>
    let result := readUserKeyBackend a.read s.items
    (chooseUserKey (snapshot result) file (allowsNewFileWhenUnavailable result)
      s.marker).mapError fun e =>
        match errorOf result with
        | none => e
        | some err => e ++ ": " ++ err.text

/-- `load_user_key`. -/
def loadUserKey (a : Attempt) (s : Stores) : Stores × Except String StoredKey :=
  if !a.fileRead || !a.markerRead then (s, .error "failed to read the key file or the marker")
  else
    match readExistingKeyFile a.fileRead s.file with
    | .error e => (s, .error e)
    | .ok _ =>
      match choiceOf a s with
      | .error e => (recordPresent a s, .error e)
      | .ok choice => act a (recordPresent a s) choice

/-- The stores, the keys that the starts returned so far, and whether a key was ever
made while a store held one; the code keeps only the stores. -/
structure History where
  stores : Stores
  returned : List StoredKey
  replaced : Bool

def holdsKey (s : Stores) : Bool := !s.items.isEmpty || s.file.isSome

def replaces (a : Attempt) (s : Stores) : Bool :=
  a.fileRead && a.markerRead && holdsKey s &&
    match choiceOf a s with
    | .ok .createBackend => true
    | .ok .createFileFallback => true
    | _ => false

def step (h : History) (a : Attempt) : Option History :=
  let (stores, result) := loadUserKey a h.stores
  some ⟨stores, h.returned ++ result.toOption.toList, h.replaced || replaces a h.stores⟩

def absent : Service → Bool
  | .answers => false
  | .fails err => !err.mustNotFallback

/-- The start does not find the service absent, and neither marker nor key file, while the
collection holds an item. -/
def Recorded (h : History) (a : Attempt) : Prop :=
  ¬(a.fileRead = true ∧ a.markerRead = true ∧ absent a.read = true ∧ h.stores.marker = false ∧
    h.stores.file = none ∧ h.stores.items ≠ [])

instance decidableRecorded (h : History) (a : Attempt) : Decidable (Recorded h a) :=
  inferInstanceAs (Decidable (¬_))

def Held (key : StoredKey) (s : Stores) : Prop :=
  s.file = some key.val ∨ s.file = none ∧ findKey none s.items = .ok (some key)

variable (service : Service) (a : Attempt) (h : History) (key : StoredKey) (items : List Bytes)
  (s t : Stores) (choice : UserKeyChoice)

theorem decodeStoredKey_ok (data : Bytes) (key : StoredKey) (h : decodeStoredKey data = .ok key) :
    data = key.val := by
  unfold decodeStoredKey at h
  split at h
  · exact congrArg Subtype.val (Except.ok.inj h)
  · cases h

theorem findKey_some : findKey (some key) items ≠ .ok none := by
  induction items generalizing key with
  | nil => simp [findKey]
  | cons item items ih =>
    rw [findKey]
    split
    · simp
    · split
      · simp
      · exact ih _

theorem findKey_none (h : findKey none items = .ok none) : items = [] := by
  cases items with
  | nil => rfl
  | cons item items =>
    rw [findKey] at h
    split at h
    · cases h
    · simp only [Option.any_none, Bool.false_eq_true, if_false] at h
      exact absurd h (findKey_some _ items)

theorem readExistingKeyFile_some (readable : Bool) (file : Option Bytes) (key : StoredKey)
    (h : readExistingKeyFile readable file = .ok (some key)) : file = some key.val := by
  unfold readExistingKeyFile at h
  split at h
  · cases h
  · split at h
    · cases h
    · rename_i data
      cases hdata : decodeStoredKey data with
      | error e =>
        rw [hdata] at h
        cases h
      | ok found =>
        rw [hdata] at h
        rw [decodeStoredKey_ok data found hdata, Option.some.inj (Except.ok.inj h)]

theorem readExistingKeyFile_none (readable : Bool) (file : Option Bytes)
    (h : readExistingKeyFile readable file = .ok none) : file = none := by
  unfold readExistingKeyFile at h
  split at h
  · cases h
  · split at h
    · rfl
    · rename_i data
      cases hdata : decodeStoredKey data with
      | error e =>
        rw [hdata] at h
        cases h
      | ok found =>
        rw [hdata] at h
        cases h

theorem snapshot_present (key : StoredKey)
    (h : snapshot (readUserKeyBackend service items) = .present key) :
    findKey none items = .ok (some key) := by
  unfold readUserKeyBackend at h
  cases service with
  | fails err => cases h
  | answers =>
    cases hfound : findKey none items with
    | error e =>
      rw [hfound] at h
      cases h
    | ok found =>
      rw [hfound] at h
      cases found with
      | none => cases h
      | some k =>
        obtain rfl := BackendSnapshot.present.inj h
        rfl

theorem snapshot_missing
    (h : snapshot (readUserKeyBackend service items) = .missing) : items = [] := by
  unfold readUserKeyBackend at h
  cases service with
  | fails err => cases h
  | answers =>
    cases hfound : findKey none items with
    | error e =>
      rw [hfound] at h
      cases h
    | ok found =>
      rw [hfound] at h
      cases found with
      | none => exact findKey_none items hfound
      | some k => cases h

theorem absent_of_unavailable (h : snapshot (readUserKeyBackend service items) = .unavailable)
    (hallowed : allowsNewFileWhenUnavailable (readUserKeyBackend service items) = true) :
    absent service = true := by
  unfold readUserKeyBackend at h hallowed
  cases service with
  | fails err => exact hallowed
  | answers =>
    cases hfound : findKey none items with
    | error e =>
      rw [hfound] at hallowed
      cases hallowed
    | ok found =>
      rw [hfound] at h
      cases found with
      | none => cases h
      | some k => cases h

inductive Chosen (a : Attempt) (s : Stores) : UserKeyChoice → Prop
  | backend (key : StoredKey) (hfound : findKey none s.items = .ok (some key))
      (hfile : s.file = none) : Chosen a s (.backend key false)
  | both (key : StoredKey) (hfound : findKey none s.items = .ok (some key))
      (hfile : s.file = some key.val) : Chosen a s (.backend key true)
  | importFile (key : StoredKey) (hitems : s.items = []) (hfile : s.file = some key.val) :
      Chosen a s (.importFile key)
  | fileFallback (key : StoredKey) (hfile : s.file = some key.val) : Chosen a s (.fileFallback key)
  | createBackend (hitems : s.items = []) (hfile : s.file = none) : Chosen a s .createBackend
  | createFileFallback (habsent : absent a.read = true) (hfile : s.file = none)
      (hmarker : s.marker = false) : Chosen a s .createFileFallback

theorem chosen_of_choiceOf (h : choiceOf a s = .ok choice) : Chosen a s choice := by
  unfold choiceOf at h
  cases hread : readExistingKeyFile a.fileRead s.file with
  | error e =>
    rw [hread] at h
    cases h
  | ok file =>
    rw [hread] at h
    simp only at h
    generalize hresult : readUserKeyBackend a.read s.items = result at h
    cases hchoice : chooseUserKey (snapshot result) file (allowsNewFileWhenUnavailable result)
        s.marker with
    | error e =>
      rw [hchoice] at h
      cases h
    | ok chosen =>
      rw [hchoice] at h
      obtain rfl := Except.ok.inj h
      unfold chooseUserKey at hchoice
      cases hsnap : snapshot result with
      | present key =>
        have hfound := snapshot_present a.read s.items key (hresult ▸ hsnap)
        rw [hsnap] at hchoice
        cases file with
        | none =>
          obtain rfl := Except.ok.inj hchoice
          exact .backend key hfound (readExistingKeyFile_none _ _ hread)
        | some other =>
          simp only at hchoice
          split at hchoice
          · cases hchoice
          · rename_i hsame
            obtain rfl := Except.ok.inj hchoice
            obtain rfl := not_not.mp hsame
            exact .both key hfound (readExistingKeyFile_some _ _ _ hread)
      | missing =>
        have hitems := snapshot_missing a.read s.items (hresult ▸ hsnap)
        rw [hsnap] at hchoice
        cases file with
        | none =>
          simp only at hchoice
          split at hchoice
          · cases hchoice
          · obtain rfl := Except.ok.inj hchoice
            exact .createBackend hitems (readExistingKeyFile_none _ _ hread)
        | some key =>
          obtain rfl := Except.ok.inj hchoice
          exact .importFile key hitems (readExistingKeyFile_some _ _ _ hread)
      | unavailable =>
        rw [hsnap] at hchoice
        simp only at hchoice
        split at hchoice
        · cases hchoice
        · rename_i hmarker
          cases file with
          | some key =>
            obtain rfl := Except.ok.inj hchoice
            exact .fileFallback key (readExistingKeyFile_some _ _ _ hread)
          | none =>
            simp only at hchoice
            split at hchoice
            · rename_i hallowed
              obtain rfl := Except.ok.inj hchoice
              subst hresult
              exact .createFileFallback (absent_of_unavailable _ _ hsnap hallowed)
                (readExistingKeyFile_none _ _ hread) (by simpa using hmarker)
            · cases hchoice

theorem held_unique (k l : StoredKey) (hk : Held k s) (hl : Held l s) : k = l := by
  rcases hk with hfile | ⟨hfile, hfound⟩
  · rcases hl with hfile' | ⟨hfile', -⟩
    · exact Subtype.ext (Option.some.inj (hfile.symm.trans hfile'))
    · rw [hfile] at hfile'
      cases hfile'
  · rcases hl with hfile' | ⟨-, hfound'⟩
    · rw [hfile] at hfile'
      cases hfile'
    · exact Option.some.inj (Except.ok.inj (hfound.symm.trans hfound'))

theorem holdsKey_of_held (key : StoredKey) (h : Held key s) : holdsKey s = true := by
  unfold holdsKey
  rcases h with hfile | ⟨-, hfound⟩
  · simp [hfile]
  · cases hitems : s.items with
    | nil =>
      rw [hitems] at hfound
      cases hfound
    | cons item items => rfl

theorem recordPresent_same :
    (recordPresent a s).items = s.items ∧ (recordPresent a s).file = s.file := by
  unfold recordPresent
  split <;> exact ⟨rfl, rfl⟩

theorem held_congr (key : StoredKey) (hitems : t.items = s.items)
    (hfile : t.file = s.file) (h : Held key s) : Held key t := by
  unfold Held
  rw [hitems, hfile]
  exact h

def Yields (key : StoredKey) (out : Stores × Except String StoredKey) : Prop :=
  Held key out.1 ∧ ∀ k, out.2 = .ok k → k = key

def Settles (out : Stores × Except String StoredKey) : Prop :=
  ∀ k, out.2 = .ok k → Held k out.1

theorem Yields.settles (out : Stores × Except String StoredKey)
    (h : Yields key out) : Settles out := by
  intro k hk
  rw [h.2 k hk]
  exact h.1

theorem yields_error (e : String) (h : Held key s) :
    Yields key (s, .error e) := ⟨h, fun _ hk => (by cases hk)⟩

theorem yields_ok (h : Held key s) : Yields key (s, .ok key) :=
  ⟨h, fun _ hk => (Except.ok.inj hk).symm⟩

theorem createKeyFile_settles (created : Bool) (key : StoredKey) (s : Stores)
    (hfile : s.file = none) : Settles (createKeyFile created key s) := by
  unfold createKeyFile
  split
  · intro k hk
    cases hk
  · rw [hfile]
    exact (yields_ok key { s with file := some key.val } (Or.inl rfl)).settles

theorem persist_import
    (hfile : s.file = some key.val) : Yields key (persistUserBackend a key true s) := by
  unfold persistUserBackend
  simp only
  split
  · rename_i found hsnap
    split
    · exact yields_error key _ _ (Or.inl hfile)
    · rename_i hsame
      split
      · exact yields_error key _ _ (Or.inl hfile)
      · refine yields_ok key _ ?_
        have hfound := snapshot_present a.readback _ found hsnap
        rw [not_not.mp hsame] at hfound
        by_cases hremoved : a.fileRemoved = true
        · exact Or.inr ⟨by simp [hremoved], hfound⟩
        · exact Or.inl (by simp [hremoved, hfile])
  · exact yields_ok key _ (Or.inl hfile)

theorem persist_create (hfile : s.file = none) : Settles (persistUserBackend a key false s) := by
  unfold persistUserBackend
  simp only
  split
  · rename_i found hsnap
    split
    · intro k hk
      cases hk
    · rename_i hsame
      split
      · intro k hk
        cases hk
      · have hfound := snapshot_present a.readback _ found hsnap
        rw [not_not.mp hsame] at hfound
        exact (yields_ok key _ (Or.inr ⟨by simp [hfile], hfound⟩)).settles
  · simp only [Bool.false_eq_true, if_false]
    split
    · exact createKeyFile_settles a.fileCreated key _ hfile
    · intro k hk
      cases hk

theorem act_backend (removeFile : Bool) (s : Stores)
    (hfound : findKey none s.items = .ok (some key)) (hheld : Held key s) :
    Yields key (act a s (.backend key removeFile)) := by
  simp only [act]
  split
  · exact yields_ok key _ (Or.inr ⟨rfl, hfound⟩)
  · exact yields_ok key s hheld

theorem loadOrCreateKey_settles (hfile : s.file = none) : Settles (loadOrCreateKey a s) := by
  unfold loadOrCreateKey
  split
  · intro k hk
    cases hk
  · rename_i key hread
    rw [readExistingKeyFile_some _ _ _ hread] at hfile
    cases hfile
  · exact createKeyFile_settles a.fileCreated a.freshFile s hfile

/-- Whatever a start returns is held by the stores it leaves. -/
theorem act_settles (hitems : t.items = s.items) (hfile : t.file = s.file) (h : Chosen a s choice) :
    Settles (act a t choice) := by
  cases h with
  | backend key hfound hnone =>
    rw [← hitems] at hfound
    exact (act_backend a key false t hfound (Or.inr ⟨hfile.trans hnone, hfound⟩)).settles
  | both key hfound hsome =>
    rw [← hitems] at hfound
    exact (act_backend a key true t hfound (Or.inl (hfile.trans hsome))).settles
  | importFile key hnil hsome => exact (persist_import a key t (hfile.trans hsome)).settles
  | fileFallback key hsome => exact (yields_ok key t (Or.inl (hfile.trans hsome))).settles
  | createBackend hnil hnone => exact persist_create a a.fresh t (hfile.trans hnone)
  | createFileFallback habsent hnone hmarker =>
    exact loadOrCreateKey_settles a t (hfile.trans hnone)

/-- A start that finds the key held, and not lost from sight, returns it and keeps it. -/
theorem act_yields (key : StoredKey)
    (hitems : t.items = s.items) (hfile : t.file = s.file) (h : Chosen a s choice)
    (hheld : Held key s)
    (hseen : ¬(absent a.read = true ∧ s.marker = false ∧ s.file = none ∧ s.items ≠ [])) :
    Yields key (act a t choice) := by
  cases h with
  | backend k hfound hnone =>
    obtain rfl := held_unique s k key (Or.inr ⟨hnone, hfound⟩) hheld
    rw [← hitems] at hfound
    exact act_backend a k false t hfound (Or.inr ⟨hfile.trans hnone, hfound⟩)
  | both k hfound hsome =>
    obtain rfl := held_unique s k key (Or.inl hsome) hheld
    rw [← hitems] at hfound
    exact act_backend a k true t hfound (Or.inl (hfile.trans hsome))
  | importFile k hnil hsome =>
    obtain rfl := held_unique s k key (Or.inl hsome) hheld
    exact persist_import a k t (hfile.trans hsome)
  | fileFallback k hsome =>
    obtain rfl := held_unique s k key (Or.inl hsome) hheld
    exact yields_ok k t (Or.inl (hfile.trans hsome))
  | createBackend hnil hnone =>
    have hsome := holdsKey_of_held s key hheld
    simp [holdsKey, hnil, hnone] at hsome
  | createFileFallback habsent hnone hmarker =>
    have hsome := holdsKey_of_held s key hheld
    refine absurd ⟨habsent, hmarker, hnone, ?_⟩ hseen
    rintro hnil
    simp [holdsKey, hnil, hnone] at hsome

theorem loadUserKey_cases :
    (∃ e, loadUserKey a s = (s, .error e)) ∨
      (a.fileRead = true ∧ a.markerRead = true) ∧
        ((∃ e, loadUserKey a s = (recordPresent a s, .error e)) ∨
          ∃ choice, Chosen a s choice ∧ loadUserKey a s = act a (recordPresent a s) choice) := by
  unfold loadUserKey
  split
  · exact Or.inl ⟨_, rfl⟩
  · rename_i hreadable
    split
    · exact Or.inl ⟨_, rfl⟩
    · refine Or.inr ⟨by simpa using hreadable, ?_⟩
      cases hchoice : choiceOf a s with
      | error e => exact Or.inl ⟨e, rfl⟩
      | ok choice => exact Or.inr ⟨choice, chosen_of_choiceOf a s choice hchoice, rfl⟩

theorem loadUserKey_settles : Settles (loadUserKey a s) := by
  obtain ⟨hitems, hfile⟩ := recordPresent_same a s
  rcases loadUserKey_cases a s with ⟨e, he⟩ | ⟨-, ⟨e, he⟩ | ⟨choice, hchosen, hact⟩⟩
  · rw [he]
    intro k hk
    cases hk
  · rw [he]
    intro k hk
    cases hk
  · rw [hact]
    exact act_settles a s _ choice hitems hfile hchosen

theorem loadUserKey_yields (hheld : Held key h.stores) (hrecorded : Recorded h a) :
    Yields key (loadUserKey a h.stores) := by
  obtain ⟨hitems, hfile⟩ := recordPresent_same a h.stores
  rcases loadUserKey_cases a h.stores with ⟨e, he⟩ | ⟨⟨hread, hmarker⟩, hcases⟩
  · rw [he]
    exact yields_error key _ e hheld
  · rcases hcases with ⟨e, he⟩ | ⟨choice, hchosen, hact⟩
    · rw [he]
      exact yields_error key _ e (held_congr h.stores _ key hitems hfile hheld)
    · rw [hact]
      exact act_yields a h.stores _ choice key hitems hfile hchosen hheld
        fun hlost => hrecorded ⟨hread, hmarker, hlost⟩

theorem not_replaces (hrecorded : Recorded h a) : replaces a h.stores = false := by
  by_contra hreplaces
  simp only [replaces, Bool.not_eq_false, Bool.and_eq_true] at hreplaces
  obtain ⟨⟨⟨hread, hmarker⟩, hholds⟩, hnew⟩ := hreplaces
  cases hchoice : choiceOf a h.stores with
  | error e =>
    rw [hchoice] at hnew
    cases hnew
  | ok choice =>
    rw [hchoice] at hnew
    cases chosen_of_choiceOf a h.stores choice hchoice with
    | backend => cases hnew
    | both => cases hnew
    | importFile => cases hnew
    | fileFallback => cases hnew
    | createBackend hnil hnone => simp [holdsKey, hnil, hnone] at hholds
    | createFileFallback habsent hnone hfalse =>
      refine hrecorded ⟨hread, hmarker, habsent, hfalse, hnone, ?_⟩
      rintro hnil
      simp [holdsKey, hnil, hnone] at hholds

/-- Every returned key is held, and no key was made over another. -/
structure Inv (h : History) : Prop where
  held : ∀ key ∈ h.returned, Held key h.stores
  replaced : h.replaced = false

theorem inv_step (t : History) (a : Attempt) (hrecorded : Recorded h a) (hinv : Inv h)
    (hstep : step h a = some t) : Inv t := by
  have hsettles := loadUserKey_settles a h.stores
  have hyields := fun key hkey =>
    loadUserKey_yields a h key (hinv.held key hkey) hrecorded
  have hnot := not_replaces a h hrecorded
  unfold step at hstep
  generalize loadUserKey a h.stores = out at hsettles hyields hstep
  obtain ⟨stores, result⟩ := out
  obtain rfl := Option.some.inj hstep
  refine ⟨?_, by simp [hinv.replaced, hnot]⟩
  intro key hkey
  rcases List.mem_append.mp hkey with hold | hnew
  · exact (hyields key hold).1
  · cases result with
    | error e => cases hnew
    | ok k =>
      have hsame : key = k := by simpa [Except.toOption] using hnew
      rw [hsame]
      exact hsettles k rfl

def start (stores : Stores) : History := ⟨stores, [], false⟩

/-- Over every history of starts that each meet the condition, from any stores, all keys that were
returned are one, and no key was made while a store held one. -/
theorem user_key_stable (stores : Stores) (attempts : List Attempt) (t : History)
    (hrecorded : Meets Recorded step (start stores) attempts)
    (hexec : exec step (start stores) attempts = some t) :
    (∀ k ∈ t.returned, ∀ l ∈ t.returned, k = l) ∧ t.replaced = false := by
  have hinv := invariant_of_meets Recorded step Inv
    (fun h a u hguard hheld hstep => inv_step h u a hguard hheld hstep) (start stores) t attempts
    ⟨fun _ hk => (by cases hk), rfl⟩ hrecorded hexec
  exact ⟨fun k hk l hl => held_unique t.stores k l (hinv.held k hk) (hinv.held l hl),
    hinv.replaced⟩

def keyOf (b : UInt8) : StoredKey := ⟨List.replicate 32 b, List.length_replicate⟩

def smooth (fresh : StoredKey) : Attempt :=
  { fileRead := true
    markerRead := true
    read := .answers
    markerWrite := true
    verification := .answers
    fileRemoved := true
    write := .done
    readback := .answers
    markerRecord := true
    fileReread := true
    fileCreated := true
    fresh := fresh
    freshFile := fresh }

def withoutBus (fresh : StoredKey) : Attempt :=
  { smooth fresh with
    read := .fails ⟨false, "failed to connect to the session bus"⟩
    verification := .fails ⟨false, "failed to connect to the session bus"⟩
    write := .unreachable "failed to connect to the session bus"
    readback := .fails ⟨false, "failed to connect to the session bus"⟩ }

/-- A key file of a start without the service is imported and then used from the service. -/
theorem user_key_stable_import :
    ∃ t, exec step (start ⟨[], false, none⟩)
        [withoutBus (keyOf 1), smooth (keyOf 2), smooth (keyOf 3), withoutBus (keyOf 4)] = some t ∧
      t.returned = [keyOf 1, keyOf 1, keyOf 1] ∧ t.replaced = false := by
  have hrun : (exec step (start ⟨[], false, none⟩)
      [withoutBus (keyOf 1), smooth (keyOf 2), smooth (keyOf 3), withoutBus (keyOf 4)]).map
      History.returned = some [keyOf 1, keyOf 1, keyOf 1] := by decide
  obtain ⟨t, ht, hreturned⟩ := Option.map_eq_some_iff.mp hrun
  exact ⟨t, ht, hreturned, (user_key_stable ⟨[], false, none⟩ _ t (by decide) ht).2⟩

/-- The first start cannot read the key back and keeps it in the key file too. The second
takes it from the service, cannot write the marker and removes the file. Without the session
bus the third start makes another key. -/
theorem unwritten_marker_loses_key :
    (exec step (start ⟨[], false, none⟩)
      [{ smooth (keyOf 1) with readback := .fails ⟨false, "failed to connect to the session bus"⟩ },
        { smooth (keyOf 2) with markerWrite := false }, withoutBus (keyOf 3)]).map
      (fun t => (t.returned, t.replaced)) = some ([keyOf 1, keyOf 1, keyOf 3], true) := by
  decide

end ClantoDesk.UserKey
