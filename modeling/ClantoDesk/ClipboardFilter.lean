import ClantoDesk.BlockedExtensions
import ClantoDesk.ClipboardFiles

/-!
The filter for files that a controller has on its clipboard, `filter_clipboard_files` of
src/clanto/file_scan.rs, before the list of them reaches the host, src/clipboard_file.rs. The filter
reads the list with a decoder of its own, which is compared here with the one the host
uses to paste. Audit events are left out.
-/
namespace ClantoDesk.ClipboardFilter

open LittleEndian Text Utf16 ClipboardFiles BlockedExtensions

def CLIP_PDU_HEADER : ℕ := 4
def CLIP_DESCRIPTOR_SIZE : ℕ := 592
def CLIP_ATTRIBUTES_OFFSET : ℕ := 36
def CLIP_SIZE_HIGH_OFFSET : ℕ := 64
def CLIP_NAME_OFFSET : ℕ := 72
def CLIP_NAME_UNITS : ℕ := 260
def FILE_ATTRIBUTE_DIRECTORY : ℕ := 0x10
def CB_RESPONSE_FAIL : Int32 := 0x0002

def u32At (d : Bytes) (offset : ℕ) : ℕ := readLE ((d.drop offset).take 4)

def chunksExact (size : ℕ) : ℕ → Bytes → List Bytes
  | 0, _ => []
  | n + 1, d => d.take size :: chunksExact size n (d.drop size)

def isFolder (d : Bytes) : Bool :=
  u32At d CLIP_ATTRIBUTES_OFFSET &&& FILE_ATTRIBUTE_DIRECTORY ≠ 0

def nameAndSize (d : Bytes) : Str × ℕ :=
  let units := (pairs ((d.drop CLIP_NAME_OFFSET).take (CLIP_NAME_UNITS * 2))).takeWhile fun u =>
    u ≠ 0
  (decodeLossy units, u32At d CLIP_SIZE_HIGH_OFFSET <<< 32 ||| u32At d (CLIP_SIZE_HIGH_OFFSET + 4))

def clipboardDescriptorFiles (data : Bytes) : Option (List (Str × ℕ)) :=
  if data.length < CLIP_PDU_HEADER then none
  else
    let count := readLE (data.take CLIP_PDU_HEADER)
    if count = 0 ∨ data.length ≠ CLIP_PDU_HEADER + count * CLIP_DESCRIPTOR_SIZE then none
    else
      let rest := data.drop CLIP_PDU_HEADER
      let descriptors := chunksExact CLIP_DESCRIPTOR_SIZE (rest.length / CLIP_DESCRIPTOR_SIZE) rest
      some ((descriptors.filter fun d => !isFolder d).map nameAndSize)

structure FormatDataResponse where
  msgFlags : Int32
  formatData : Bytes

inductive Cliprdr
  | formatDataResponse (response : FormatDataResponse)
  | other

def failure : Cliprdr := .formatDataResponse ⟨CB_RESPONSE_FAIL, []⟩

def blockedFile (fileDirection configured : Str) (direction : TransferDirection)
    (files : List (Str × ℕ)) : Option (Str × ℕ) :=
  if directionAllowed (fileDirectionFrom fileDirection) direction = false then files.head?
  else files.find? fun file => extensionBlocked file.1 configured

def filterClipboardFiles (fileDirection configured : Str) (direction : TransferDirection)
    (clip : Cliprdr) : Cliprdr :=
  match clip with
  | .formatDataResponse response =>
    match clipboardDescriptorFiles response.formatData with
    | none => clip
    | some files =>
      if (blockedFile fileDirection configured direction files).isSome then failure else clip
  | .other => clip

/-- The files that the host pastes after a message: the branch for a response in
`serve_clip_messages`. -/
def pastedFiles (connId : Int32) : Cliprdr → Option (List FileDescription)
  | .formatDataResponse response =>
    if response.msgFlags ≠ 1 then none
    else (parseFileDescriptors response.formatData connId).toOption
  | .other => none

/-- The branch for the clipboard in `on_message`. -/
def onCliprdr (fileDirection configured : Str) (fileTransferEnabled : Bool) (connId : Int32)
    (clip : Cliprdr) : Option (List FileDescription) :=
  let clip := filterClipboardFiles fileDirection configured .toHost clip
  if fileTransferEnabled then pastedFiles connId clip else none

section Descriptor

theorem take_drop_take (d : Bytes) {offset width size : ℕ} (hfits : offset + width ≤ size) :
    ((d.take size).drop offset).take width = (d.drop offset).take width := by
  rw [List.drop_take, List.take_take, min_eq_left (by omega)]

theorem u32At_take (d : Bytes) {offset size : ℕ} (hfits : offset + 4 ≤ size) :
    u32At (d.take size) offset = u32At d offset := by
  rw [u32At, u32At, take_drop_take d hfits]

theorem readLE_lt (d : Bytes) : readLE d < 256 ^ d.length := by
  induction d with
  | nil => simp [readLE]
  | cons b d ih =>
    have hb := b.toNat_lt
    rw [readLE, List.length_cons, pow_succ]
    omega

theorem u32At_lt (d : Bytes) (offset : ℕ) : u32At d offset < 2 ^ 32 := by
  have hlength : ((d.drop offset).take 4).length ≤ 4 := List.length_take_le 4 _
  have hpow : 256 ^ ((d.drop offset).take 4).length ≤ 256 ^ 4 :=
      Nat.pow_le_pow_right (by omega) hlength
  have hread := readLE_lt ((d.drop offset).take 4)
  rw [u32At]
  omega

theorem size_eq (high low : ℕ) (hlow : low < 2 ^ 32) :
    high <<< 32 ||| low = high * 2 ^ 32 + low := by
  rw [← Nat.shiftLeft_add_eq_or_of_lt hlow, Nat.shiftLeft_eq]

/-- What the host makes of a descriptor it accepts is what the filter sees of it. -/
theorem parseFileDescriptor_ok {bytes rest : Bytes} {connId clipDataId : Int32}
    {desc : FileDescription}
    (h : parseFileDescriptor bytes connId clipDataId = .ok (desc, rest)) :
    rest = bytes.drop CLIP_DESCRIPTOR_SIZE ∧
      desc.kind = (if isFolder (bytes.take CLIP_DESCRIPTOR_SIZE) then .directory else .file) ∧
      (desc.name, desc.size) =
        (slashed (nameAndSize (bytes.take CLIP_DESCRIPTOR_SIZE)).1,
          (nameAndSize (bytes.take CLIP_DESCRIPTOR_SIZE)).2) := by
  unfold parseFileDescriptor at h
  simp only [List.drop_drop] at h
  cases hname : parseName ((bytes.drop 72).take FILE_NAME_FIELD_SIZE) with
  | error e =>
    rw [hname] at h
    cases h
  | ok wide =>
    rw [hname] at h
    simp only at h
    split at h
    · cases h
    · split at h
      · cases h
      · obtain ⟨rfl, rfl⟩ := Prod.mk.inj (Except.ok.inj h)
        have hwide : wide = (nameAndSize (bytes.take CLIP_DESCRIPTOR_SIZE)).1 := by
          unfold parseName at hname
          split at hname
          · split at hname
            · rename_i name hdecode
              obtain rfl := Except.ok.inj hname
              rw [nameAndSize, take_drop_take bytes (by decide)]
              exact (decodeLossy_of_decode _ _ hdecode).symm
            · cases hname
          · cases hname
        refine ⟨rfl, ?_, ?_⟩
        · have hattributes : u32At (bytes.take CLIP_DESCRIPTOR_SIZE) CLIP_ATTRIBUTES_OFFSET =
              readLE ((bytes.drop (4 + 32)).take 4) := u32At_take bytes (by decide)
          rw [isFolder, hattributes]
          simp only [decide_eq_true_eq]
          rfl
        · rw [← hwide, nameAndSize, u32At_take bytes (by decide), u32At_take bytes (by decide),
            size_eq _ _ (u32At_lt _ _)]
          rfl

end Descriptor

def ListsFiles (listed : List (Str × ℕ)) (descs : List FileDescription) : Prop :=
  listed.map (fun file => (slashed file.1, file.2)) =
    (descs.filter fun desc => desc.kind = .file).map fun desc => (desc.name, desc.size)

def HasFile (pdu : Bytes) : Prop :=
  ∃ i < readLE (pdu.take CLIP_PDU_HEADER),
    u32At pdu (CLIP_PDU_HEADER + CLIP_DESCRIPTOR_SIZE * i + CLIP_ATTRIBUTES_OFFSET) &&&
      FILE_ATTRIBUTE_DIRECTORY = 0

theorem parseMany_lists (n : ℕ) (bytes : Bytes) (connId clipDataId : Int32)
    (descs : List FileDescription) (h : parseMany n bytes connId clipDataId = .ok descs) :
    ListsFiles (((chunksExact CLIP_DESCRIPTOR_SIZE n bytes).filter fun d => !isFolder d).map
      nameAndSize) descs ∧ descs.length = n := by
  induction n generalizing bytes descs with
  | zero =>
    obtain rfl := Except.ok.inj h
    exact ⟨rfl, rfl⟩
  | succ n ih =>
    unfold parseMany at h
    cases hone : parseFileDescriptor bytes connId clipDataId with
    | error e =>
      rw [hone] at h
      cases h
    | ok result =>
      obtain ⟨desc, rest⟩ := result
      obtain ⟨rfl, hkind, hnames⟩ := parseFileDescriptor_ok hone
      rw [hone] at h
      simp only at h
      cases hmany : parseMany n (bytes.drop CLIP_DESCRIPTOR_SIZE) connId clipDataId with
      | error e =>
        rw [hmany] at h
        cases h
      | ok more =>
        rw [hmany] at h
        obtain rfl := Except.ok.inj h
        obtain ⟨hlists, hlength⟩ := ih _ _ hmany
        refine ⟨?_, by rw [List.length_cons, hlength]⟩
        unfold ListsFiles at hlists ⊢
        rw [chunksExact]
        cases hfolder : isFolder (bytes.take CLIP_DESCRIPTOR_SIZE) with
        | true =>
          rw [hfolder, if_pos rfl] at hkind
          rw [List.filter_cons_of_neg (by simp [hfolder]),
            List.filter_cons_of_neg (by simp [hkind])]
          exact hlists
        | false =>
          rw [hfolder, if_neg (by decide)] at hkind
          rw [List.filter_cons_of_pos (by simp [hfolder]),
            List.filter_cons_of_pos (by simp [hkind]),
            List.map_cons, List.map_cons, List.map_cons, hlists, hnames]

theorem extensionBlocked_slashed (name configured : Str) :
    extensionBlocked (slashed name) configured = extensionBlocked name configured := by
  refine extensionBlocked_congr ?_ configured
  have hpart : lastPart (slashed name) = lastPart name := by
    rw [lastPart_eq, lastPart_eq]
    induction name using List.reverseRecOn with
    | nil => rfl
    | append_singleton name c ih =>
      have hconcat : slashed (name ++ [c]) = slashed name ++ [if c = '\\' then '/' else c] := by
        rw [slashed, List.map_append]
        rfl
      rw [hconcat]
      by_cases hsep : isSeparator c = true
      · have hsep' : isSeparator (if c = '\\' then '/' else c) = true := by
          split
          · rfl
          · exact hsep
        rw [List.rtakeWhile_concat_neg _ _ _ (by simp [hsep']),
          List.rtakeWhile_concat_neg _ _ _ (by simp [hsep])]
      · have hsame : (if c = '\\' then '/' else c) = c := by
          rw [if_neg]
          rintro rfl
          exact hsep rfl
        rw [hsame, List.rtakeWhile_concat_pos _ _ _ (by simp [hsep]),
          List.rtakeWhile_concat_pos _ _ _ (by simp [hsep]), ih]
  rw [normalizedExtension, normalizedExtension, hpart]

theorem parseMany_file_iff (n : ℕ) (bytes : Bytes) (connId clipDataId : Int32)
    (descs : List FileDescription) (h : parseMany n bytes connId clipDataId = .ok descs) :
    (∃ i < n, u32At bytes (CLIP_DESCRIPTOR_SIZE * i + CLIP_ATTRIBUTES_OFFSET) &&&
      FILE_ATTRIBUTE_DIRECTORY = 0) ↔ ∃ desc ∈ descs, desc.kind = .file := by
  induction n generalizing bytes descs with
  | zero =>
    obtain rfl := Except.ok.inj h
    simp
  | succ n ih =>
    unfold parseMany at h
    cases hone : parseFileDescriptor bytes connId clipDataId with
    | error e =>
      rw [hone] at h
      cases h
    | ok result =>
      obtain ⟨desc, rest⟩ := result
      obtain ⟨rfl, hkind, -⟩ := parseFileDescriptor_ok hone
      rw [hone] at h
      simp only at h
      cases hmany : parseMany n (bytes.drop CLIP_DESCRIPTOR_SIZE) connId clipDataId with
      | error e =>
        rw [hmany] at h
        cases h
      | ok more =>
        rw [hmany] at h
        obtain rfl := Except.ok.inj h
        have hfirst : desc.kind = .file ↔ u32At bytes CLIP_ATTRIBUTES_OFFSET &&&
            FILE_ATTRIBUTE_DIRECTORY = 0 := by
          rw [hkind, isFolder, u32At_take bytes (by decide)]
          simp only [decide_eq_true_eq]
          split
          · rename_i hset
            simp [hset]
          · rename_i hclear
            simpa using hclear
        have hshift : ∀ i, u32At (bytes.drop CLIP_DESCRIPTOR_SIZE)
            (CLIP_DESCRIPTOR_SIZE * i + CLIP_ATTRIBUTES_OFFSET) =
              u32At bytes (CLIP_DESCRIPTOR_SIZE * (i + 1) + CLIP_ATTRIBUTES_OFFSET) := by
          intro i
          rw [u32At, u32At, List.drop_drop]
          congr 3
          ring
        have hmore := ih _ _ hmany
        simp only [hshift] at hmore
        rw [List.exists_mem_cons_iff, ← hmore, hfirst]
        constructor
        · rintro ⟨i, hi, hbit⟩
          cases i with
          | zero => exact Or.inl hbit
          | succ i => exact Or.inr ⟨i, by omega, hbit⟩
        · rintro (hbit | ⟨i, hi, hbit⟩)
          · exact ⟨0, by omega, hbit⟩
          · exact ⟨i + 1, by omega, hbit⟩

section Accepted

variable {pdu : Bytes} {connId : Int32} {descs : List FileDescription}
  (h : parseFileDescriptors pdu connId = .ok descs) (hne : descs ≠ [])

include h hne

theorem parseFileDescriptors_ok :
    4 ≤ pdu.length ∧ (pdu.drop 4).length = FILE_DESCRIPTOR_SIZE * readLE (pdu.take 4) ∧
      parseMany (readLE (pdu.take 4)) (pdu.drop 4) connId (fileListId pdu) = .ok descs := by
  unfold parseFileDescriptors at h
  split at h
  · cases h
  · rename_i hlong
    simp only at h
    split at h
    · exact absurd (Except.ok.inj h).symm hne
    · split at h
      · cases h
      · rename_i hsize
        exact ⟨by omega, not_not.mp hsize, h⟩

theorem clipboardDescriptorFiles_of_parse :
    ∃ listed, clipboardDescriptorFiles pdu = some listed ∧ ListsFiles listed descs := by
  obtain ⟨hlong, hsize, hmany⟩ := parseFileDescriptors_ok h hne
  obtain ⟨hlists, hlength⟩ := parseMany_lists _ _ _ _ _ hmany
  have hcount : readLE (pdu.take 4) ≠ 0 := by
    intro hzero
    rw [hzero] at hlength
    exact hne (List.eq_nil_of_length_eq_zero hlength)
  have hpieces : (pdu.drop 4).length / CLIP_DESCRIPTOR_SIZE = readLE (pdu.take 4) := by
    rw [hsize, CLIP_DESCRIPTOR_SIZE, FILE_DESCRIPTOR_SIZE]
    omega
  refine ⟨_, ?_, hlists⟩
  unfold clipboardDescriptorFiles CLIP_PDU_HEADER
  rw [List.length_drop, FILE_DESCRIPTOR_SIZE] at hsize
  rw [if_neg (by omega)]
  simp only
  rw [if_neg, hpieces]
  rw [CLIP_DESCRIPTOR_SIZE]
  omega

theorem hasFile_iff : HasFile pdu ↔ ∃ desc ∈ descs, desc.kind = .file := by
  obtain ⟨-, -, hmany⟩ := parseFileDescriptors_ok h hne
  rw [← parseMany_file_iff _ _ _ _ _ hmany, HasFile]
  refine exists_congr fun i => and_congr_right fun _ => ?_
  rw [u32At, u32At, List.drop_drop, CLIP_PDU_HEADER, add_assoc]

end Accepted

def Forbidden (fileDirection configured : Str) (descs : List FileDescription) : Prop :=
  directionAllowed (fileDirectionFrom fileDirection) .toHost = false ∨
    ∃ desc ∈ descs, desc.kind = .file ∧ extensionBlocked desc.name configured = true

/-- The filter sees the files of the list, and a list that is forbidden becomes a failure from which
the host pastes nothing. -/
structure Enforced (fileDirection configured : Str) (enabled : Bool) (connId : Int32)
    (response : FormatDataResponse) (descs : List FileDescription) : Prop where
  listed : ∃ listed, clipboardDescriptorFiles response.formatData = some listed ∧
    ListsFiles listed descs
  refused : Forbidden fileDirection configured descs →
    filterClipboardFiles fileDirection configured .toHost (.formatDataResponse response) = failure ∧
      onCliprdr fileDirection configured enabled connId (.formatDataResponse response) = none

theorem blockedFile_isSome {listed : List (Str × ℕ)} {descs : List FileDescription}
    (hlists : ListsFiles listed descs) (fileDirection configured : Str) :
    (blockedFile fileDirection configured .toHost listed).isSome = true ↔
      Forbidden fileDirection configured descs ∧
        (directionAllowed (fileDirectionFrom fileDirection) .toHost = true ∨
          ∃ desc ∈ descs, desc.kind = .file) := by
  have hfiles : ∀ P : Str → Prop, (∀ name, P (slashed name) ↔ P name) →
      ((∃ file ∈ listed, P file.1) ↔ ∃ desc ∈ descs, desc.kind = .file ∧ P desc.name) := by
    intro P hP
    have hmem : ∀ name size, (name, size) ∈ listed.map (fun file => (slashed file.1, file.2)) ↔
        ∃ desc ∈ descs, desc.kind = .file ∧ desc.name = name ∧ desc.size = size := by
      intro name size
      rw [hlists]
      simp [and_assoc]
    constructor
    · rintro ⟨file, hfile, hp⟩
      obtain ⟨desc, hdesc, hkind, hname, -⟩ := (hmem (slashed file.1) file.2).mp
        (List.mem_map_of_mem hfile)
      exact ⟨desc, hdesc, hkind, by rw [hname, hP]; exact hp⟩
    · rintro ⟨desc, hdesc, hkind, hp⟩
      obtain ⟨file, hfile, heq⟩ := List.mem_map.mp
        ((hmem desc.name desc.size).mpr ⟨desc, hdesc, hkind, rfl, rfl⟩)
      obtain ⟨hname, -⟩ := Prod.mk.inj heq
      exact ⟨file, hfile, by rwa [← hP, hname]⟩
  unfold blockedFile Forbidden
  cases hallowed : directionAllowed (fileDirectionFrom fileDirection) .toHost with
  | false =>
    have hany := hfiles (fun _ => True) (fun _ => Iff.rfl)
    simp only [and_true] at hany
    simp only [if_true, true_or, true_and, Bool.false_eq_true, false_or]
    rw [← hany]
    cases listed with
    | nil => simp
    | cons file listed => exact iff_of_true rfl ⟨file, List.mem_cons_self⟩
  | true =>
    have hblocked := hfiles (fun name => extensionBlocked name configured = true)
      (fun name => by rw [extensionBlocked_slashed])
    simp only [Bool.true_eq_false, if_false, false_or, true_or, and_true]
    rw [← hblocked, List.find?_isSome]

theorem filterClipboardFiles_eq_failure {listed : List (Str × ℕ)} {response : FormatDataResponse}
    (hlisted : clipboardDescriptorFiles response.formatData = some listed)
    (fileDirection configured : Str) (direction : TransferDirection) :
    filterClipboardFiles fileDirection configured direction (.formatDataResponse response) =
    failure ↔
      (blockedFile fileDirection configured direction listed).isSome = true := by
  unfold filterClipboardFiles
  simp only [hlisted]
  split
  · rename_i hsome
    simp [hsome]
  · rename_i hnone
    refine iff_of_false ?_ hnone
    intro heq
    -- the empty response that stands for a failure is no list
    obtain rfl := Cliprdr.formatDataResponse.inj heq
    cases hlisted

/-- The filter does its work on a list that the host accepts, except on one of directories only
when the direction is not allowed. -/
theorem enforced_iff (fileDirection configured : Str) (enabled : Bool) (connId : Int32)
    (response : FormatDataResponse) (descs : List FileDescription)
    (h : parseFileDescriptors response.formatData connId = .ok descs) (hne : descs ≠ []) :
    Enforced fileDirection configured enabled connId response descs ↔
      (directionAllowed (fileDirectionFrom fileDirection) .toHost = true ∨
        HasFile response.formatData) := by
  obtain ⟨listed, hlisted, hlists⟩ := clipboardDescriptorFiles_of_parse h hne
  have hsome := blockedFile_isSome hlists fileDirection configured
  have hfailure := filterClipboardFiles_eq_failure hlisted fileDirection configured .toHost
  rw [hasFile_iff h hne]
  constructor
  · intro henforced
    by_cases hallowed : directionAllowed (fileDirectionFrom fileDirection) .toHost = true
    · exact Or.inl hallowed
    · have hrefused := henforced.refused (Or.inl (Bool.eq_false_iff.mpr hallowed))
      exact (hsome.mp (hfailure.mp hrefused.1)).2
  · intro hcondition
    refine ⟨⟨listed, hlisted, hlists⟩, fun hforbidden => ?_⟩
    have hreplaced := hfailure.mpr (hsome.mpr ⟨hforbidden, hcondition⟩)
    refine ⟨hreplaced, ?_⟩
    unfold onCliprdr
    simp only [hreplaced]
    split <;> rfl

def sampleResponse (attributes : ℕ) (name : Str) : FormatDataResponse :=
  ⟨1, leBytes 4 1 ++ (leBytes 4 FLAGS_FD_ATTRIBUTES ++ List.replicate 32 0 ++
    leBytes 4 attributes ++
    List.replicate 32 0 ++ unitBytes (encode name) ++
    List.replicate (FILE_NAME_FIELD_SIZE - (unitBytes (encode name)).length) 0)⟩

def sampleDescription (kind : FileType) (name : Str) (perm : ℕ) (clipDataId : Int32) :
    FileDescription :=
  ⟨1, name, kind, 0, 0, 0, 0, 0, perm, clipDataId⟩

/-- A file with a blocked extension becomes a failure. -/
theorem enforced_iff_sample :
    Enforced [] "exe".toList true 1 (sampleResponse 0x80 "dir\\a.exe".toList)
      [sampleDescription .file "dir/a.exe".toList PERM_RWX
        (fileListId (sampleResponse 0x80 "dir\\a.exe".toList).formatData)] :=
  (enforced_iff [] "exe".toList true 1 (sampleResponse 0x80 "dir\\a.exe".toList) _
    (by decide +kernel) (by simp)).mpr (Or.inl (by decide))

/-- A list of directories only passes although the direction is not allowed, and the host
pastes it. -/
theorem folders_pass :
    parseFileDescriptors (sampleResponse 0x10 "d".toList).formatData 1 =
        .ok [sampleDescription .directory "d".toList PERM_RWX
          (fileListId (sampleResponse 0x10 "d".toList).formatData)] ∧
      onCliprdr "none".toList [] true 1 (.formatDataResponse (sampleResponse 0x10 "d".toList)) =
        some [sampleDescription .directory "d".toList PERM_RWX
          (fileListId (sampleResponse 0x10 "d".toList).formatData)] ∧
      ¬ Enforced "none".toList [] true 1 (sampleResponse 0x10 "d".toList)
        [sampleDescription .directory "d".toList PERM_RWX
          (fileListId (sampleResponse 0x10 "d".toList).formatData)] := by
  have hpasted : onCliprdr "none".toList [] true 1
      (.formatDataResponse (sampleResponse 0x10 "d".toList)) =
        some [sampleDescription .directory "d".toList PERM_RWX
          (fileListId (sampleResponse 0x10 "d".toList).formatData)] := by decide +kernel
  refine ⟨by decide +kernel, hpasted, ?_⟩
  intro henforced
  have hnothing := (henforced.refused (Or.inl (by decide))).2
  rw [hpasted] at hnothing
  cases hnothing

end ClantoDesk.ClipboardFilter
