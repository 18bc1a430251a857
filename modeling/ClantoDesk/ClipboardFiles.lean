import ClantoDesk.Text
import ClantoDesk.Utf16
import Mathlib.Data.Int.Notation

/-!
The list of files on the clipboard, as a Unix host writes it and a Unix peer reads
it: a count, and for each file a descriptor of 592 bytes with fields at fixed offsets and the
relative name in UTF-16 up to a null. A random value goes into the reserved bytes of the first
descriptor, so that each copy has its own list id. Sums of machine numbers wrap, as in a release
build. Times are nanoseconds since 1970.
-/
namespace ClantoDesk.ClipboardFiles

open LittleEndian Text Utf16

def FLAGS_FD_ATTRIBUTES : ℕ := 0x04
def FLAGS_FD_UNIX_MODE : ℕ := 0x08
def FLAGS_FD_LAST_WRITE : ℕ := 0x20
def FLAGS_FD_SIZE : ℕ := 0x40
def FLAGS_FD_PROGRESSUI : ℕ := 0x4000

def FILE_NAME_CODE_UNITS : ℕ := 260
def FILE_NAME_FIELD_SIZE : ℕ := 520
def FILE_DESCRIPTOR_SIZE : ℕ := 592
def LDAP_EPOCH_DELTA : ℕ := 116444736000000000

def PERM_READ : ℕ := 0o444
def PERM_RW : ℕ := 0o644
def PERM_SELF_RO : ℕ := 0o400
def PERM_RWX : ℕ := 0o755

/-- What the descriptor of a `LocalFile` is made of. -/
structure LocalFile where
  descriptorName : Str
  size : UInt64
  lastWriteTime : ℤ
  isDir : Bool
  perm : UInt32
  readOnly : Bool
  hidden : Bool
  system : Bool
  archive : Bool
  normal : Bool

inductive FileType
  | file | directory
  deriving DecidableEq

structure FileDescription where
  connId : Int32
  name : Str
  kind : FileType
  atime : ℕ
  lastModified : ℕ
  lastMetadataChanged : ℕ
  creationTime : ℕ
  size : ℕ
  perm : ℕ
  clipDataId : Int32
  deriving DecidableEq

def startsWithDrive : Str → Bool
  | letter :: ':' :: '/' :: _ => letter.isAlpha
  | _ => false

/-- `validate_file_name_no_traversal` on Unix. -/
def validateFileNameNoTraversal (name : Str) : Except String Unit :=
  if Char.ofNat 0 ∈ name then .error "file name contains null bytes"
  else if ((name.splitOn '/').filter fun c => !c.isEmpty).any fun c => c = "..".toList then
    .error "path traversal detected in file name"
  else if name.head? = some '/' then .error "absolute path detected in file name"
  else .ok ()

def validateFileName (name : Str) : Except String Unit :=
  if startsWithDrive name || (name.splitOn '/').any fun c => c.isEmpty || c = ".".toList then
    .error "clipboard file name is not a normalized relative path"
  else validateFileNameNoTraversal name

/-- `validated_descriptor_name`, given the path relative to its root. -/
def validatedDescriptorName (relative : Str) : Except String Str :=
  match validateFileName relative with
  | .error e => .error e
  | .ok () =>
    if FILE_NAME_CODE_UNITS - 1 < (encode relative).length then
      .error "clipboard file name exceeds 259 UTF-16 code units"
    else .ok relative

/-- `put_descriptor_name`: the name, a null and padding. -/
def descriptorName (name : Str) : Except String Bytes :=
  match validateFileName name with
  | .error e => .error e
  | .ok () =>
    if FILE_NAME_FIELD_SIZE < (unitBytes (encode name)).length + 2 then
      .error "clipboard file name exceeds 259 UTF-16 code units"
    else
      .ok (unitBytes (encode name) ++ leBytes 2 0 ++
        List.replicate (FILE_NAME_FIELD_SIZE - ((unitBytes (encode name)).length + 2)) 0)

def fileAttributes (f : LocalFile) : ℕ :=
  (if f.readOnly then 0x1 else 0) ||| (if f.hidden then 0x2 else 0) |||
    (if f.system then 0x4 else 0) ||| (if f.isDir then 0x10 else 0) |||
    (if f.archive then 0x20 else 0) ||| (if f.normal then 0x80 else 0)

def win32Time (f : LocalFile) : ℕ :=
  (f.lastWriteTime.toNat / 100 % 2 ^ 64 + LDAP_EPOCH_DELTA) % 2 ^ 64

def descriptorFlags : ℕ :=
  FLAGS_FD_SIZE ||| FLAGS_FD_LAST_WRITE ||| FLAGS_FD_ATTRIBUTES ||| FLAGS_FD_PROGRESSUI |||
    FLAGS_FD_UNIX_MODE

def descriptorBytes (f : LocalFile) (reserved field : Bytes) : Bytes :=
  leBytes 4 descriptorFlags ++ (reserved ++ (leBytes 4 (fileAttributes f) ++
    (List.replicate 12 0 ++ (leBytes 4 f.perm.toNat ++ (leBytes 8 (win32Time f) ++
      (leBytes 4 (f.size.toNat / 2 ^ 32) ++ (leBytes 4 (f.size.toNat % 2 ^ 32) ++ field)))))))

/-- `as_bin`. -/
def asBin (f : LocalFile) : Except String Bytes :=
  (descriptorName f.descriptorName).map fun field =>
    descriptorBytes f (List.replicate 32 0) field

def fileListBytes (files : List LocalFile) : Except String Bytes :=
  (files.mapM asBin).map fun bins => leBytes 4 files.length ++ bins.flatten

def placeNonce (nonce pdu : Bytes) : Bytes :=
  if 24 ≤ pdu.length then pdu.take 8 ++ nonce ++ pdu.drop 24 else pdu

/-- `build_file_list_pdu`. -/
def buildFileListPdu (files : List LocalFile) (nonce : Bytes) : Except String Bytes :=
  (fileListBytes files).map (placeNonce nonce)

/-- `file_list_id`, FNV-1a. -/
def fileListId (pdu : Bytes) : Int32 :=
  (pdu.foldl (fun id byte => (id ^^^ byte.toUInt32) * 0x01000193) (0x811c9dc5 : UInt32)).toInt32

def parseName (block : Bytes) : Except String Str :=
  if 0 ∈ pairs block then
    match decode ((pairs block).takeWhile fun u => u ≠ 0) with
    | some name => .ok name
    | none => .error "conversion failure"
  else .error "clipboard file name is not null-terminated"

def permOf (flags attributes perm : ℕ) : ℕ :=
  if flags &&& FLAGS_FD_UNIX_MODE ≠ 0 then perm % 2 ^ 16
  else if attributes = 0x80 then PERM_RWX
  else if attributes &&& 0x10 ≠ 0 then PERM_RWX
  else if attributes &&& 0x01 ≠ 0 then PERM_READ
  else if attributes &&& 0x02 ≠ 0 then PERM_SELF_RO
  else PERM_RW

def modifiedOf (flags time : ℕ) : ℕ :=
  if flags &&& FLAGS_FD_LAST_WRITE ≠ 0 ∧ LDAP_EPOCH_DELTA ≤ time then
    (time - LDAP_EPOCH_DELTA) / 10000000 * 1000000000 +
      (time - LDAP_EPOCH_DELTA) % 10000000 * 100
  else 0

/-- `parse_file_descriptor`, with the bytes after the descriptor. -/
def parseFileDescriptor (bytes : Bytes) (connId clipDataId : Int32) :
    Except String (FileDescription × Bytes) :=
  let flags := readLE (bytes.take 4)
  let bytes := (bytes.drop 4).drop 32
  let attributes := readLE (bytes.take 4)
  let bytes := (bytes.drop 4).drop 12
  let perm := readLE (bytes.take 4)
  let bytes := bytes.drop 4
  let time := readLE (bytes.take 8)
  let bytes := bytes.drop 8
  let sizeHigh := readLE (bytes.take 4)
  let bytes := bytes.drop 4
  let sizeLow := readLE (bytes.take 4)
  let bytes := bytes.drop 4
  match parseName (bytes.take FILE_NAME_FIELD_SIZE) with
  | .error e => .error e
  | .ok wide =>
    if flags &&& FLAGS_FD_ATTRIBUTES = 0 then
      .error "file description must have valid attributes"
    else
      let name := wide.map fun c => if c = '\\' then '/' else c
      match validateFileName name with
      | .error e => .error e
      | .ok () =>
        let modified := modifiedOf flags time
        .ok (⟨connId, name, if attributes &&& 0x10 ≠ 0 then .directory else .file, modified,
          modified, modified, modified, sizeHigh * 2 ^ 32 + sizeLow, permOf flags attributes perm,
          clipDataId⟩, bytes.drop FILE_NAME_FIELD_SIZE)

def parseMany : ℕ → Bytes → Int32 → Int32 → Except String (List FileDescription)
  | 0, _, _, _ => .ok []
  | n + 1, bytes, connId, clipDataId =>
    match parseFileDescriptor bytes connId clipDataId with
    | .error e => .error e
    | .ok (desc, rest) => (parseMany n rest connId clipDataId).map fun descs => desc :: descs

/-- `parse_file_descriptors`. -/
def parseFileDescriptors (pdu : Bytes) (connId : Int32) : Except String (List FileDescription) :=
  if pdu.length < 4 then .error "file descriptor request with infficient length"
  else
    let count := readLE (pdu.take 4)
    let data := pdu.drop 4
    if data.length = 0 ∧ count = 0 then .ok []
    else if data.length ≠ FILE_DESCRIPTOR_SIZE * count then
      .error "file descriptor request with invalid length"
    else parseMany count data connId (fileListId pdu)

def roundedTime (f : LocalFile) : ℕ := f.lastWriteTime.toNat / 100 * 100

/-- What the peer should make of a file. -/
def describe (connId clipDataId : Int32) (f : LocalFile) : FileDescription :=
  ⟨connId, f.descriptorName, if f.isDir then .directory else .file, roundedTime f, roundedTime f,
    roundedTime f, roundedTime f, f.size.toNat, f.perm.toNat % 2 ^ 16, clipDataId⟩

/-- A name without a backslash, and a time that the field can hold. -/
def Portable (f : LocalFile) : Prop :=
  '\\' ∉ f.descriptorName ∧ f.lastWriteTime.toNat / 100 + LDAP_EPOCH_DELTA < 2 ^ 64

instance decidablePortable (f : LocalFile) : Decidable (Portable f) :=
  inferInstanceAs (Decidable (_ ∧ _))

def slashed (name : Str) : Str := name.map fun c => if c = '\\' then '/' else c

variable (name : Str) (field : Bytes) (f : LocalFile)

theorem slashed_eq_iff : slashed name = name ↔ '\\' ∉ name := by
  induction name with
  | nil => simp [slashed]
  | cons c name ih =>
    have hcons : slashed (c :: name) = (if c = '\\' then '/' else c) :: slashed name := rfl
    rw [hcons, List.cons.injEq, ih, List.mem_cons, not_or]
    refine and_congr_left fun _ => ?_
    split
    · rename_i hc
      simp [hc]
    · rename_i hc
      simpa using Ne.symm hc

theorem not_null_of_validateFileName (h : validateFileName name = .ok ()) :
    Char.ofNat 0 ∉ name := by
  unfold validateFileName validateFileNameNoTraversal at h
  intro hnull
  rw [if_pos hnull] at h
  split at h <;> cases h

theorem descriptorName_ok (h : descriptorName name = .ok field) :
    validateFileName name = .ok () ∧ (unitBytes (encode name)).length + 2 ≤ 520 ∧
      field = unitBytes (encode name) ++ leBytes 2 0 ++
        List.replicate (520 - ((unitBytes (encode name)).length + 2)) 0 := by
  unfold descriptorName at h
  cases hvalid : validateFileName name with
  | error e =>
    rw [hvalid] at h
    cases h
  | ok u =>
    rw [hvalid] at h
    simp only at h
    split at h
    · cases h
    · rename_i hlong
      rw [FILE_NAME_FIELD_SIZE] at hlong
      exact ⟨rfl, by omega, (Except.ok.inj h).symm⟩

theorem field_length (h : descriptorName name = .ok field) :
    field.length = FILE_NAME_FIELD_SIZE := by
  obtain ⟨-, hfits, rfl⟩ := descriptorName_ok name field h
  simp only [List.length_append, leBytes_length, List.length_replicate, FILE_NAME_FIELD_SIZE]
  omega

theorem parseName_field (h : descriptorName name = .ok field) : parseName field = .ok name := by
  obtain ⟨hvalid, -, rfl⟩ := descriptorName_ok name field h
  have hnull := not_null_of_validateFileName name hvalid
  have hpairs : ∀ zeros : Bytes, pairs (unitBytes (encode name) ++ leBytes 2 0 ++ zeros) =
      encode name ++ 0 :: pairs zeros := by
    intro zeros
    rw [List.append_assoc, pairs_unitBytes_append _ _ (unit_lt name)]
    rfl
  have htake : ∀ rest : List ℕ, (encode name ++ 0 :: rest).takeWhile (fun u => u ≠ 0) =
      encode name := by
    intro rest
    rw [List.takeWhile_append_of_pos]
    · simp
    · intro u hu
      simpa using unit_ne_zero name hnull u hu
  unfold parseName
  rw [hpairs, htake, decode_encode, if_pos (by simp)]

theorem fileAttributes_lt : fileAttributes f < 256 ^ 4 := by
  unfold fileAttributes
  cases f.readOnly <;> cases f.hidden <;> cases f.system <;> cases f.isDir <;>
    cases f.archive <;> cases f.normal <;> decide

theorem fileAttributes_directory : fileAttributes f &&& 0x10 ≠ 0 ↔ f.isDir = true := by
  unfold fileAttributes
  cases f.readOnly <;> cases f.hidden <;> cases f.system <;> cases f.isDir <;>
    cases f.archive <;> cases f.normal <;> decide

theorem win32Time_lt : win32Time f < 256 ^ 8 := by
  unfold win32Time
  omega

/-- The time that is read is the time rounded down, exactly when the field holds it. -/
theorem modifiedOf_win32Time :
    modifiedOf descriptorFlags (win32Time f) = roundedTime f ↔
      f.lastWriteTime.toNat / 100 + LDAP_EPOCH_DELTA < 2 ^ 64 := by
  have hflag : descriptorFlags &&& FLAGS_FD_LAST_WRITE ≠ 0 := by decide
  unfold modifiedOf roundedTime win32Time LDAP_EPOCH_DELTA
  simp only [hflag, ne_eq, not_false_eq_true, true_and]
  split <;> omega

theorem parseFileDescriptor_descriptorBytes (reserved field rest : Bytes)
    (hreserved : reserved.length = 32) (hfield : descriptorName f.descriptorName = .ok field)
    (connId clipDataId : Int32) :
    parseFileDescriptor (descriptorBytes f reserved field ++ rest) connId clipDataId =
      match validateFileName (slashed f.descriptorName) with
      | .error e => .error e
      | .ok () =>
        let modified := modifiedOf descriptorFlags (win32Time f)
        .ok (⟨connId, slashed f.descriptorName, if f.isDir then .directory else .file, modified,
          modified, modified, modified, f.size.toNat, f.perm.toNat % 2 ^ 16, clipDataId⟩,
              rest) := by
  have hflags : readLE (leBytes 4 descriptorFlags) = descriptorFlags := by decide
  have hattributes := readLE_leBytes_of_lt 4 (fileAttributes f) (fileAttributes_lt f)
  have hperm := readLE_leBytes_of_lt 4 f.perm.toNat f.perm.toNat_lt
  have htime := readLE_leBytes_of_lt 8 (win32Time f) (win32Time_lt f)
  have hsize := f.size.toNat_lt
  have hhigh := readLE_leBytes_of_lt 4 (f.size.toNat / 2 ^ 32) (by omega)
  have hlow := readLE_leBytes_of_lt 4 (f.size.toNat % 2 ^ 32) (by omega)
  have hskip : ∀ tail : Bytes, (reserved ++ tail).drop 32 = tail :=
    fun tail => List.drop_left' hreserved
  have hzeros : ∀ tail : Bytes, (List.replicate 12 (0 : UInt8) ++ tail).drop 12 = tail :=
    fun tail => List.drop_left' List.length_replicate
  have hblock := field_length f.descriptorName field hfield
  have htake : (field ++ rest).take FILE_NAME_FIELD_SIZE = field := List.take_left' hblock
  have hdrop : (field ++ rest).drop FILE_NAME_FIELD_SIZE = rest := List.drop_left' hblock
  have hvalid : descriptorFlags &&& FLAGS_FD_ATTRIBUTES ≠ 0 := by decide
  have hunix : descriptorFlags &&& FLAGS_FD_UNIX_MODE ≠ 0 := by decide
  unfold parseFileDescriptor descriptorBytes
  simp only [List.append_assoc, take_leBytes, drop_leBytes, hskip, hzeros, htake, hdrop, hflags,
    hattributes, hperm, htime, hhigh, hlow, parseName_field f.descriptorName field hfield,
    if_neg hvalid, permOf, if_pos hunix, fileAttributes_directory]
  rw [Nat.div_add_mod' f.size.toNat (2 ^ 32)]
  rfl

/-- A descriptor of a list, with its reserved bytes and the field of its name. -/
structure Part where
  file : LocalFile
  reserved : Bytes
  field : Bytes

def Part.bytes (p : Part) : Bytes := descriptorBytes p.file p.reserved p.field

structure Part.Valid (p : Part) : Prop where
  reserved : p.reserved.length = 32
  field : descriptorName p.file.descriptorName = .ok p.field

theorem Part.bytes_length (p : Part) (hp : p.Valid) : p.bytes.length = FILE_DESCRIPTOR_SIZE := by
  have hfield := field_length p.file.descriptorName p.field hp.field
  rw [FILE_NAME_FIELD_SIZE] at hfield
  simp only [Part.bytes, descriptorBytes, List.length_append, leBytes_length,
    List.length_replicate, hp.reserved, hfield, FILE_DESCRIPTOR_SIZE]

theorem parts_length (parts : List Part) (hparts : ∀ p ∈ parts, p.Valid) :
    (parts.map Part.bytes).flatten.length = FILE_DESCRIPTOR_SIZE * parts.length := by
  induction parts with
  | nil => rfl
  | cons p parts ih =>
    rw [List.map_cons, List.flatten_cons, List.length_append,
      p.bytes_length (hparts p (List.mem_cons_self ..)),
      ih fun q hq => hparts q (List.mem_cons_of_mem _ hq), List.length_cons, Nat.mul_succ]
    omega

theorem parsePart_iff (p : Part) (hp : p.Valid) (rest : Bytes) (connId clipDataId : Int32) :
    parseFileDescriptor (p.bytes ++ rest) connId clipDataId =
      .ok (describe connId clipDataId p.file, rest) ↔ Portable p.file := by
  have hvalid := (descriptorName_ok p.file.descriptorName p.field hp.field).1
  rw [Part.bytes, parseFileDescriptor_descriptorBytes _ _ _ _ hp.reserved hp.field]
  unfold Portable
  rw [← slashed_eq_iff, ← modifiedOf_win32Time]
  constructor
  · intro h
    cases hslashed : validateFileName (slashed p.file.descriptorName) with
    | error e =>
      rw [hslashed] at h
      cases h
    | ok u =>
      rw [hslashed] at h
      simp only [Except.ok.injEq, Prod.mk.injEq, describe, FileDescription.mk.injEq] at h
      exact ⟨h.1.2.1, h.1.2.2.2.1⟩
  · rintro ⟨hname, htime⟩
    rw [hname, hvalid]
    simp only [htime, describe]

theorem parsePart_rest (p : Part) (hp : p.Valid) (rest rest' : Bytes) (connId clipDataId : Int32)
    (desc : FileDescription)
    (h : parseFileDescriptor (p.bytes ++ rest) connId clipDataId = .ok (desc, rest')) :
    rest' = rest := by
  rw [Part.bytes, parseFileDescriptor_descriptorBytes _ _ _ _ hp.reserved hp.field] at h
  split at h
  · cases h
  · exact (Prod.mk.inj (Except.ok.inj h)).2.symm

theorem parseMany_iff (parts : List Part) (hparts : ∀ p ∈ parts, p.Valid)
    (connId clipDataId : Int32) :
    parseMany parts.length (parts.map Part.bytes).flatten connId clipDataId =
      .ok (parts.map fun p => describe connId clipDataId p.file) ↔
      ∀ p ∈ parts, Portable p.file := by
  induction parts with
  | nil => simp [parseMany]
  | cons p parts ih =>
    have hp := hparts p (List.mem_cons_self ..)
    have htail := ih fun q hq => hparts q (List.mem_cons_of_mem _ hq)
    have hone := parsePart_iff p hp (parts.map Part.bytes).flatten connId clipDataId
    rw [List.length_cons, parseMany, List.map_cons, List.flatten_cons, List.forall_mem_cons,
      ← hone, ← htail]
    constructor
    · intro h
      cases hdesc : parseFileDescriptor (p.bytes ++ (parts.map Part.bytes).flatten) connId
          clipDataId with
      | error e =>
        rw [hdesc] at h
        cases h
      | ok result =>
        obtain ⟨desc, rest⟩ := result
        have hrest := parsePart_rest p hp _ _ connId clipDataId desc hdesc
        rw [hdesc] at h
        simp only [List.map_cons] at h
        cases hmore : parseMany parts.length rest connId clipDataId with
        | error e =>
          rw [hmore] at h
          cases h
        | ok descs =>
          rw [hmore] at h
          obtain ⟨hhead, hdescs⟩ := List.cons.inj (Except.ok.inj h)
          rw [hrest] at hmore
          exact ⟨by rw [hhead, hrest], hmore.trans (congrArg Except.ok hdescs)⟩
    · rintro ⟨hhead, hmore⟩
      rw [hhead]
      simp only [hmore]
      rfl

theorem fileListBytes_parts (files : List LocalFile) (pdu : Bytes)
    (h : fileListBytes files = .ok pdu) :
    ∃ parts : List Part, (∀ p ∈ parts, p.Valid) ∧ parts.map Part.file = files ∧
      (∀ p ∈ parts, p.reserved = List.replicate 32 0) ∧
      pdu = leBytes 4 parts.length ++ (parts.map Part.bytes).flatten := by
  have hparts : ∀ bins, files.mapM asBin = .ok bins →
      ∃ parts : List Part, (∀ p ∈ parts, p.Valid) ∧ parts.map Part.file = files ∧
        (∀ p ∈ parts, p.reserved = List.replicate 32 0) ∧ parts.map Part.bytes = bins := by
    clear h
    induction files with
    | nil =>
      intro bins hbins
      exact ⟨[], by simp, rfl, by simp, (Except.ok.inj hbins)⟩
    | cons f files ih =>
      intro bins hbins
      rw [List.mapM_cons] at hbins
      cases hfield : descriptorName f.descriptorName with
      | error e =>
        rw [asBin, hfield] at hbins
        cases hbins
      | ok field =>
        cases hmore : files.mapM asBin with
        | error e =>
          rw [asBin, hfield, hmore] at hbins
          cases hbins
        | ok rest =>
          rw [asBin, hfield, hmore] at hbins
          obtain ⟨parts, hvalid, hfiles, hreserved, hbytes⟩ := ih rest hmore
          refine ⟨⟨f, List.replicate 32 0, field⟩ :: parts, ?_, ?_, ?_, ?_⟩
          · exact List.forall_mem_cons.mpr ⟨⟨List.length_replicate, hfield⟩, hvalid⟩
          · rw [List.map_cons, hfiles]
          · exact List.forall_mem_cons.mpr ⟨rfl, hreserved⟩
          · rw [List.map_cons, hbytes]
            exact Except.ok.inj hbins
  unfold fileListBytes at h
  cases hbins : files.mapM asBin with
  | error e =>
    rw [hbins] at h
    cases h
  | ok bins =>
    rw [hbins] at h
    obtain ⟨parts, hvalid, hfiles, hreserved, hbytes⟩ := hparts bins hbins
    have hlength : files.length = parts.length := by rw [← hfiles, List.length_map]
    refine ⟨parts, hvalid, hfiles, hreserved, ?_⟩
    rw [hbytes, ← hlength]
    exact (Except.ok.inj h).symm

/-- The random value lies in the reserved bytes of the first descriptor. -/
theorem placeNonce_parts (nonce : Bytes) (hnonce : nonce.length = 16) (parts : List Part)
    (hparts : ∀ p ∈ parts, p.Valid) :
    ∃ parts' : List Part, (∀ p ∈ parts', p.Valid) ∧
      parts'.map Part.file = parts.map Part.file ∧
      placeNonce nonce (leBytes 4 parts.length ++ (parts.map Part.bytes).flatten) =
        leBytes 4 parts'.length ++ (parts'.map Part.bytes).flatten := by
  cases parts with
  | nil => exact ⟨[], hparts, rfl, rfl⟩
  | cons p parts =>
    have hp := hparts p (List.mem_cons_self ..)
    refine ⟨⟨p.file, nonce ++ p.reserved.drop 16, p.field⟩ :: parts, ?_, rfl, ?_⟩
    · refine List.forall_mem_cons.mpr ⟨⟨?_, hp.field⟩, (List.forall_mem_cons.mp hparts).2⟩
      rw [List.length_append, List.length_drop, hnonce, hp.reserved]
    · have hcount : (p :: parts).length = parts.length + 1 := rfl
      generalize hrest : (parts.map Part.bytes).flatten = rest
      obtain ⟨tail, htail⟩ : ∃ tail : Bytes, ∀ reserved, descriptorBytes p.file reserved p.field =
          leBytes 4 descriptorFlags ++ (reserved ++ tail) := ⟨_, fun _ => rfl⟩
      have hsplit : p.reserved = p.reserved.take 16 ++ p.reserved.drop 16 :=
        (List.take_append_drop 16 p.reserved).symm
      have htake : (p.reserved.take 16).length = 16 := by
        rw [List.length_take, hp.reserved]
        rfl
      have hfront : (leBytes 4 (parts.length + 1) ++ leBytes 4 descriptorFlags).length = 8 := by
        simp
      have hall : leBytes 4 (p :: parts).length ++ ((p :: parts).map Part.bytes).flatten =
          (leBytes 4 (parts.length + 1) ++ leBytes 4 descriptorFlags) ++
            (p.reserved.take 16 ++ (p.reserved.drop 16 ++ (tail ++ rest))) := by
        rw [List.map_cons, List.flatten_cons, hrest, Part.bytes, htail, hcount]
        nth_rewrite 1 [hsplit]
        simp only [List.append_assoc]
      have htwo : ∀ a b c : Bytes, a.length = 8 → b.length = 16 →
          (a ++ (b ++ c)).drop 24 = c := by
        intro a b c ha hb
        rw [← List.append_assoc]
        exact List.drop_left' (by rw [List.length_append, ha, hb])
      rw [hall]
      unfold placeNonce
      rw [if_pos (by simp only [List.length_append, leBytes_length, htake]; omega),
        List.take_left' hfront, htwo _ _ _ hfront htake, List.map_cons, List.flatten_cons, hrest,
        Part.bytes, htail]
      simp only [List.append_assoc, List.length_cons]

theorem buildFileListPdu_parts (files : List LocalFile) (nonce pdu : Bytes)
    (hnonce : nonce.length = 16) (h : buildFileListPdu files nonce = .ok pdu) :
    ∃ parts : List Part, (∀ p ∈ parts, p.Valid) ∧ parts.map Part.file = files ∧
      pdu = leBytes 4 parts.length ++ (parts.map Part.bytes).flatten := by
  unfold buildFileListPdu at h
  cases hbytes : fileListBytes files with
  | error e =>
    rw [hbytes] at h
    cases h
  | ok bytes =>
    rw [hbytes] at h
    obtain ⟨parts, hvalid, hfiles, -, hplain⟩ := fileListBytes_parts files bytes hbytes
    obtain ⟨parts', hvalid', hsame, hplaced⟩ := placeNonce_parts nonce hnonce parts hvalid
    refine ⟨parts', hvalid', hsame.trans hfiles, ?_⟩
    rw [← hplaced, ← hplain]
    exact (Except.ok.inj h).symm

/-- The peer reads back what the host wrote, whatever the random value, exactly when the
list is shorter than 2^32 and its files have no backslash in their names and a time that fits the
field; the random value then changes only the list id. -/
theorem clipboard_round_trip (files : List LocalFile) (nonce pdu : Bytes) (connId : Int32)
    (hnonce : nonce.length = 16) (hpdu : buildFileListPdu files nonce = .ok pdu) :
    parseFileDescriptors pdu connId = .ok (files.map (describe connId (fileListId pdu))) ↔
      files.length < 2 ^ 32 ∧ ∀ f ∈ files, Portable f := by
  obtain ⟨parts, hvalid, rfl, hbytes⟩ := buildFileListPdu_parts files nonce pdu hnonce hpdu
  have hlong : ¬pdu.length < 4 := by
    rw [hbytes, List.length_append, leBytes_length]
    omega
  have hcount : readLE (pdu.take 4) = parts.length % 2 ^ 32 := by
    rw [hbytes, take_leBytes, readLE_leBytes, show (256 : ℕ) ^ 4 = 2 ^ 32 by norm_num]
  have hdata : pdu.drop 4 = (parts.map Part.bytes).flatten := by rw [hbytes, drop_leBytes]
  have hlength := parts_length parts hvalid
  rw [FILE_DESCRIPTOR_SIZE] at hlength
  have hmany := parseMany_iff parts hvalid connId (fileListId pdu)
  unfold parseFileDescriptors
  rw [if_neg hlong, hcount, hdata, List.length_map, List.forall_mem_map, List.map_map]
  simp only [FILE_DESCRIPTOR_SIZE, hlength]
  by_cases hfew : parts.length < 2 ^ 32
  · rw [Nat.mod_eq_of_lt hfew]
    by_cases hnone : 592 * parts.length = 0 ∧ parts.length = 0
    · have hnil : parts = [] := List.length_eq_zero_iff.mp hnone.2
      rw [if_pos hnone, hnil]
      simp
    · rw [if_neg hnone, if_neg (by simp)]
      exact hmany.trans (and_iff_right hfew).symm
  · rw [if_neg (by omega), if_pos (by omega)]
    exact ⟨fun h => (by cases h), fun h => absurd h.1 hfew⟩

def sampleFile (name : String) : LocalFile :=
  { descriptorName := name.toList
    size := 5000000000
    lastWriteTime := 1700000000123456789
    isDir := false
    perm := 0o100644
    readOnly := false
    hidden := false
    system := false
    archive := false
    normal := true }

def sampleNonce : Bytes := List.replicate 16 7

theorem clipboard_round_trip_sample :
    ∃ pdu, buildFileListPdu [sampleFile "dir", sampleFile "dir/a.txt"] sampleNonce = .ok pdu ∧
      parseFileDescriptors pdu 7 = .ok ([sampleFile "dir", sampleFile "dir/a.txt"].map
        (describe 7 (fileListId pdu))) := by
  have hbuilt : (buildFileListPdu [sampleFile "dir", sampleFile "dir/a.txt"]
      sampleNonce).toOption.isSome = true := by decide
  cases hpdu : buildFileListPdu [sampleFile "dir", sampleFile "dir/a.txt"] sampleNonce with
  | error e =>
    rw [hpdu] at hbuilt
    cases hbuilt
  | ok pdu =>
    exact ⟨pdu, rfl, (clipboard_round_trip _ sampleNonce pdu 7 rfl hpdu).mpr (by decide +kernel)⟩

/-- The file `a\\b` reaches the peer as the file `b` in the directory `a`. -/
theorem backslash_becomes_directory :
    validatedDescriptorName "a\\b".toList = .ok "a\\b".toList ∧
    ((buildFileListPdu [sampleFile "a\\b"] sampleNonce).bind fun pdu =>
      (parseFileDescriptors pdu 7).map fun descs => descs.map FileDescription.name) =
      .ok ["a/b".toList] := by
  decide +kernel

end ClantoDesk.ClipboardFiles
