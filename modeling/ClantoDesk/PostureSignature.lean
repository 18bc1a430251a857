import ClantoDesk.Lines
import ClantoDesk.Text
import Mathlib.Data.List.Lex
import Mathlib.Data.List.Sort
import Mathlib.Data.Nat.Digits.Defs

/-!
The posture of a controlling device, signed by its client and checked by the verification
server. The client signs a text of lines: a fixed one, the host, the challenge, the version and
one line for each key of its map, in the order of the keys' bytes. The server parses the map
from the request, sorts it the same way and builds the same text. The parser limits lengths only,
so a value, a key or an identifier of the request may hold a newline, and a key an equals sign:
the signed text is then cut elsewhere than the client cut it.
-/
namespace ClantoDesk.PostureSignature

open Text Lines

/-! ### Maps of text to text -/

/-- `HashMap<String, String>` and the PHP array of the server, in one order of iteration. -/
structure PostureMap where
  entries : List (Str × Str)
  nodup : (entries.map Prod.fst).Nodup

def PostureMap.Same (a b : PostureMap) : Prop := a.entries.Perm b.entries

def PostureMap.empty : PostureMap := ⟨[], List.nodup_nil⟩

def insertEntry (key value : Str) : List (Str × Str) → List (Str × Str)
  | [] => [(key, value)]
  | e :: rest => if e.1 = key then (key, value) :: rest else e :: insertEntry key value rest

theorem mem_insertEntry (key value : Str) (entries : List (Str × Str)) (e : Str × Str)
    (h : e ∈ insertEntry key value entries) : e = (key, value) ∨ e ∈ entries := by
  induction entries with
  | nil => exact Or.inl (List.mem_singleton.mp h)
  | cons d rest ih =>
    simp only [insertEntry] at h
    split at h
    · rcases List.mem_cons.mp h with rfl | hrest
      · exact Or.inl rfl
      · exact Or.inr (List.mem_cons_of_mem _ hrest)
    · rcases List.mem_cons.mp h with rfl | hrest
      · exact Or.inr (List.mem_cons_self ..)
      · rcases ih hrest with heq | hold
        · exact Or.inl heq
        · exact Or.inr (List.mem_cons_of_mem _ hold)

theorem nodup_insertEntry (key value : Str) (entries : List (Str × Str))
    (h : (entries.map Prod.fst).Nodup) : ((insertEntry key value entries).map Prod.fst).Nodup := by
  induction entries with
  | nil => simp [insertEntry]
  | cons d rest ih =>
    rw [List.map_cons, List.nodup_cons] at h
    obtain ⟨hd, hrest⟩ := h
    simp only [insertEntry]
    split
    · rename_i heq
      rw [List.map_cons, List.nodup_cons]
      exact ⟨heq ▸ hd, hrest⟩
    · rename_i hne
      rw [List.map_cons, List.nodup_cons]
      refine ⟨fun hmem => ?_, ih hrest⟩
      obtain ⟨e, he, hfst⟩ := List.mem_map.mp hmem
      rcases mem_insertEntry key value rest e he with rfl | hold
      · exact hne hfst.symm
      · exact hd (List.mem_map.mpr ⟨e, hold, hfst⟩)

def PostureMap.insert (m : PostureMap) (key value : Str) : PostureMap :=
  ⟨insertEntry key value m.entries, nodup_insertEntry key value m.entries m.nodup⟩

def PostureMap.get (m : PostureMap) (key : Str) : Option Str :=
  (m.entries.find? fun e => decide (e.1 = key)).map Prod.snd

def utf8 (s : Str) : List ℕ := s.flatMap fun c => (String.utf8EncodeChar c).map UInt8.toNat

/-- `as_bytes().cmp` and `ksort` with `SORT_STRING`: the keys are in the order of their bytes. -/
def sortByKey (entries : List (Str × Str)) : List (Str × Str) :=
  entries.insertionSort fun a b => utf8 a.1 ≤ utf8 b.1

/-! ### The client -/

def postureKeys : List Str :=
  ["platform", "os_version", "os_build", "client_version", "av_enabled", "av_uptodate",
    "firewall_enabled", "disk_encrypted", "secure_boot", "screen_lock", "firmware_type",
    "tpm_version", "vbs_enabled", "last_update_days", "os_ubr", "os_patch_days",
    "auto_update_enabled", "pending_reboot", "arch", "os_edition", "av_products",
    "av_signature_days", "firewall_public", "uac_enabled", "sip_enabled", "gatekeeper_enabled",
    "user_is_admin", "rooted", "dev_options", "unknown_sources", "is_vm", "net_type",
    "wifi_security", "vpn_active", "proxy_set"].map String.toList

def signedText (hostId challenge version : Str) (entries : List (Str × Str)) : Str :=
  entries.foldl (fun message e => message ++ e.1 ++ ['='] ++ e.2 ++ ['\n'])
    ("clanto-posture-v1\n".toList ++ hostId ++ ['\n'] ++ challenge ++ ['\n'] ++ version ++ ['\n'])

def canonicalMessage (posture : PostureMap) (hostId challenge version : Str) : Str :=
  signedText hostId challenge version (sortByKey posture.entries)

/-- The text that `disk_cache_mac` signs, at a number of seconds. -/
def diskCacheMessage (seconds : UInt64) (posture : PostureMap) (version : Str) : Str :=
  "clanto-posture-cache-v2\n".toList ++
    canonicalMessage posture [] (toString seconds.toNat).toList version

/-- `str::lines`: a line ends at a newline, and may end with a carriage return before it. -/
def strLines (text : Str) : List Str :=
  let pieces := text.splitOn '\n'
  let last := pieces.getLast?.getD []
  pieces.dropLast.map (fun l => if l.getLast? = some '\r' then l.dropLast else l) ++
    if last = [] then [] else [last]

def applyLine (posture : PostureMap) (line : Str) : PostureMap :=
  match splitOnce '=' (trim line) with
  | none => posture
  | some (key, value) =>
    if key ∈ postureKeys ∧ value ≠ [] ∧ '\n' ∉ value ∧ '\r' ∉ value then posture.insert key value
    else posture

def applyLines (posture : PostureMap) (output : Str) : PostureMap :=
  (strLines output).foldl applyLine posture

/-- The map that `gather` begins with. -/
def unknownPosture : PostureMap :=
  postureKeys.foldl (fun (m : PostureMap) key => m.insert key "unknown".toList) PostureMap.empty

/-- `gather` where the platform's probes report through `apply_lines` only. -/
def gather (platformName version arch : Str) (outputs : List Str) : PostureMap :=
  outputs.foldl applyLines
    (((unknownPosture.insert "platform".toList platformName).insert "client_version".toList
      version).insert "arch".toList arch)

structure Signed where
  posture : PostureMap
  hostId : Str
  challenge : Str
  version : Str

def Signed.message (s : Signed) : Str :=
  canonicalMessage s.posture s.hostId s.challenge s.version

def SignableMap (m : PostureMap) : Prop := ∀ e ∈ m.entries, e.1 ∈ postureKeys ∧ '\n' ∉ e.2

structure Signable (s : Signed) : Prop where
  posture : SignableMap s.posture
  hostId : '\n' ∉ s.hostId
  challenge : '\n' ∉ s.challenge
  version : '\n' ∉ s.version

theorem signableMap_insert (m : PostureMap) (key value : Str) (h : SignableMap m)
    (hkey : key ∈ postureKeys) (hvalue : '\n' ∉ value) : SignableMap (m.insert key value) := by
  intro e he
  rcases mem_insertEntry key value m.entries e he with rfl | hold
  · exact ⟨hkey, hvalue⟩
  · exact h e hold

theorem signableMap_applyLines (m : PostureMap) (output : Str) (h : SignableMap m) :
    SignableMap (applyLines m output) := by
  refine List.foldlRecOn (strLines output) applyLine h ?_
  intro posture hposture line _
  rw [applyLine]
  split
  · exact hposture
  · split
    · rename_i hread
      exact signableMap_insert posture _ _ hposture hread.1 hread.2.2.1
    · exact hposture

theorem signableMap_gather (platformName version arch : Str) (outputs : List Str)
    (hplatform : '\n' ∉ platformName) (hversion : '\n' ∉ version) (harch : '\n' ∉ arch) :
    SignableMap (gather platformName version arch outputs) := by
  have hunknown : SignableMap unknownPosture := by
    refine List.foldlRecOn postureKeys _ (fun e he => absurd he List.not_mem_nil) ?_
    intro m hm key hkey
    exact signableMap_insert m key _ hm hkey (by decide)
  refine List.foldlRecOn outputs applyLines ?_ fun m hm output _ =>
    signableMap_applyLines m output hm
  refine signableMap_insert _ _ _ (signableMap_insert _ _ _
    (signableMap_insert _ _ _ hunknown ?_ hplatform) ?_ hversion) ?_ harch
  · decide
  · decide
  · decide

/-! ### The server -/

/-- What `json_decode` gives: a text, an array with its keys, or anything else. -/
inductive JsonValue
  | text (s : Str)
  | array (entries : List (Str × JsonValue))
  | other

def maxPostureKeys : ℕ := 64

def maxKeyLen : ℕ := 64

def maxValueLen : ℕ := 256

def maxIdLen : ℕ := 128

def maxMacLen : ℕ := 128

def field (entries : List (Str × JsonValue)) (key : Str) : Option JsonValue :=
  (entries.find? fun e => decide (e.1 = key)).map Prod.snd

def strField (entries : List (Str × JsonValue)) (key : Str) (max : ℕ) (allowEmpty : Bool) :
    Option Str :=
  match field entries key with
  | some (.text s) =>
    if max < byteLength s ∨ (allowEmpty = false ∧ s = []) then none else some s
  | _ => none

def postureEntry (posture : PostureMap) (e : Str × JsonValue) : Option PostureMap :=
  if e.1 = [] ∨ maxKeyLen < byteLength e.1 then none
  else match e.2 with
    | .text v => if maxValueLen < byteLength v then none else some (posture.insert e.1 v)
    | _ => none

structure Request where
  hostId : Str
  challenge : Str
  peerVersion : Str
  peerPlatform : Str
  mac : Str
  signatureOnly : Bool
  posture : PostureMap

/-- The request as the server reads it; `none` is answered with `core:request`. -/
def parseRequest : JsonValue → Option Request
  | .array req =>
    match field req "posture".toList with
    | some (.array entries) =>
      if maxPostureKeys < entries.length then none
      else do
        let hostId ← strField req "host_id".toList maxIdLen false
        let challenge ← strField req "challenge".toList maxValueLen false
        let peerVersion ← strField req "peer_version".toList maxIdLen false
        let peerPlatform ← strField req "peer_platform".toList maxIdLen false
        let mac ← strField req "mac".toList maxMacLen false
        let signatureOnly := match field req "mode".toList with
          | some (.text mode) => decide (mode = "signature".toList)
          | _ => false
        let posture ← entries.foldlM postureEntry .empty
        some ⟨hostId, challenge, peerVersion, peerPlatform, mac, signatureOnly, posture⟩
    | _ => none
  | _ => none

def rebuiltMessage (r : Request) : Str :=
  signedText r.hostId r.challenge r.peerVersion (sortByKey r.posture.entries)

def coherent (r : Request) : Bool :=
  decide (r.posture.get "platform".toList = some r.peerPlatform ∧
    r.posture.get "client_version".toList = some r.peerVersion)

/-! ### The lines of the signed text -/

def entryLine (e : Str × Str) : Str := e.1 ++ '=' :: e.2

def textLines (hostId challenge version : Str) (entries : List (Str × Str)) : List Str :=
  hostId :: challenge :: version :: entries.map entryLine

theorem signedText_eq (hostId challenge version : Str) (entries : List (Str × Str)) :
    signedText hostId challenge version entries =
      "clanto-posture-v1\n".toList ++ unlines '\n'
          (textLines hostId challenge version entries) := by
  have hfold : ∀ (es : List (Str × Str)) (start : Str),
      es.foldl (fun message e => message ++ e.1 ++ ['='] ++ e.2 ++ ['\n']) start =
        start ++ unlines '\n' (es.map entryLine) := by
    intro es
    induction es with
    | nil => simp
    | cons e es ih =>
      intro start
      rw [List.foldl_cons, ih, List.map_cons, unlines_cons, entryLine]
      simp
  rw [signedText, hfold, textLines]
  simp

/-- No line has a newline, and no key an equals sign. -/
structure PlainText (hostId challenge version : Str) (posture : PostureMap) : Prop where
  hostId : '\n' ∉ hostId
  challenge : '\n' ∉ challenge
  version : '\n' ∉ version
  posture : ∀ e ∈ posture.entries, '\n' ∉ e.1 ∧ '=' ∉ e.1 ∧ '\n' ∉ e.2

theorem postureKeys_plain : ∀ key ∈ postureKeys, '\n' ∉ key ∧ '=' ∉ key := by
  decide

theorem Signable.plainText {s : Signed} (h : Signable s) :
    PlainText s.hostId s.challenge s.version s.posture := by
  refine ⟨h.hostId, h.challenge, h.version, fun e he => ?_⟩
  obtain ⟨hkey, hvalue⟩ := h.posture e he
  exact ⟨(postureKeys_plain e.1 hkey).1, (postureKeys_plain e.1 hkey).2, hvalue⟩

variable (r : Request) (s : Signed)

theorem mem_sortByKey (entries : List (Str × Str)) (e : Str × Str) :
    e ∈ sortByKey entries ↔ e ∈ entries :=
  (List.perm_insertionSort _ entries).mem_iff

theorem PlainText.lines {hostId challenge version : Str} {posture : PostureMap}
    (h : PlainText hostId challenge version posture) :
    ∀ l ∈ textLines hostId challenge version (sortByKey posture.entries), '\n' ∉ l := by
  intro l hl
  simp only [textLines, List.mem_cons] at hl
  rcases hl with rfl | rfl | rfl | hentry
  · exact h.hostId
  · exact h.challenge
  · exact h.version
  · obtain ⟨e, he, rfl⟩ := List.mem_map.mp hentry
    obtain ⟨hkey, -, hvalue⟩ := h.posture e ((mem_sortByKey posture.entries e).mp he)
    simp only [entryLine, List.mem_append, List.mem_cons, not_or]
    exact ⟨hkey, by decide, hvalue⟩

theorem map_entryLine_injective (a b : List (Str × Str)) (ha : ∀ e ∈ a, '=' ∉ e.1)
    (hb : ∀ e ∈ b, '=' ∉ e.1) (h : a.map entryLine = b.map entryLine) : a = b := by
  induction a generalizing b with
  | nil => exact (List.map_eq_nil_iff.mp h.symm).symm
  | cons e a ih =>
    cases b with
    | nil => cases h
    | cons d b =>
      rw [List.map_cons, List.map_cons, List.cons.injEq] at h
      obtain ⟨hline, hrest⟩ := h
      have he := splitOnce_append '=' e.1 e.2 (ha e (by simp))
      have hd := splitOnce_append '=' d.1 d.2 (hb d (by simp))
      rw [entryLine, entryLine] at hline
      rw [hline, hd, Option.some.injEq] at he
      have heq : d = e := he
      rw [heq, ih b (fun x hx => ha x (List.mem_cons_of_mem _ hx))
        (fun x hx => hb x (List.mem_cons_of_mem _ hx)) hrest]

theorem PlainText.injective {h c v h' c' v' : Str} {m m' : PostureMap}
    (hm : PlainText h c v m) (hm' : PlainText h' c' v' m')
    (heq : textLines h c v (sortByKey m.entries) = textLines h' c' v' (sortByKey m'.entries)) :
    m.Same m' ∧ h = h' ∧ c = c' ∧ v = v' := by
  simp only [textLines, List.cons.injEq] at heq
  obtain ⟨hhost, hchallenge, hversion, hentries⟩ := heq
  have hsorted : sortByKey m.entries = sortByKey m'.entries := by
    refine map_entryLine_injective _ _ (fun e he => ?_) (fun e he => ?_) hentries
    · exact (hm.posture e ((mem_sortByKey _ e).mp he)).2.1
    · exact (hm'.posture e ((mem_sortByKey _ e).mp he)).2.1
  refine ⟨?_, hhost, hchallenge, hversion⟩
  have hleft : (sortByKey m.entries).Perm m.entries := List.perm_insertionSort _ _
  have hright : (sortByKey m'.entries).Perm m'.entries := List.perm_insertionSort _ _
  exact hleft.symm.trans (hsorted ▸ hright)

/-! ### Requests that the signature binds -/

def Binds (r : Request) : Prop :=
  ∀ s, Signable s → rebuiltMessage r = s.message →
    r.posture.Same s.posture ∧ r.hostId = s.hostId ∧ r.challenge = s.challenge ∧
      r.peerVersion = s.version

/-- No field of the request has a newline, and no key of its map an equals sign. -/
def Request.Plain (r : Request) : Prop :=
  PlainText r.hostId r.challenge r.peerVersion r.posture

def Request.pieces (r : Request) : List Str :=
  cut '\n' (textLines r.hostId r.challenge r.peerVersion (sortByKey r.posture.entries))

/-- After the first three, the pieces are `key=value` with keys of the client, and the keys are
in the order of their bytes. -/
def Request.ReadsAsSigned (r : Request) : Prop :=
  ∃ entries : List (Str × Str), r.pieces.drop 3 = entries.map entryLine ∧
    (∀ e ∈ entries, e.1 ∈ postureKeys) ∧ entries.Pairwise fun a b => utf8 a.1 < utf8 b.1

theorem rebuiltMessage_eq_iff (hs : Signable s) :
    rebuiltMessage r = s.message ↔
      r.pieces = textLines s.hostId s.challenge s.version (sortByKey s.posture.entries) := by
  have hlines := hs.plainText.lines
  rw [rebuiltMessage, Signed.message, canonicalMessage, signedText_eq, signedText_eq,
    List.append_cancel_left_eq, Request.pieces]
  constructor
  · intro h
    exact cut_eq_of_unlines_eq '\n' _ _ hlines h
  · intro h
    rw [← unlines_cut, h]

theorem three_le_length_pieces : 3 ≤ r.pieces.length := by
  have hpiece : ∀ l : Str, 1 ≤ (l.splitOn '\n').length := by
    intro l
    exact List.length_pos_iff.mpr (List.splitOn_ne_nil '\n' l)
  have h1 := hpiece r.hostId
  have h2 := hpiece r.challenge
  have h3 := hpiece r.peerVersion
  simp only [Request.pieces, textLines, cut_cons, List.length_append]
  omega

/-- A request without such characters carries what was signed. -/
theorem binds_of_plain (hr : r.Plain) : Binds r := by
  intro s hs hmessage
  have hpieces := (rebuiltMessage_eq_iff r s hs).mp hmessage
  rw [Request.pieces, cut_eq_self '\n' _ hr.lines] at hpieces
  exact PlainText.injective hr hs.plainText hpieces

theorem utf8_injective (a b : Str) (h : utf8 a = utf8 b) : a = b := by
  have hmap : ∀ s : Str, utf8 s = (s.flatMap String.utf8EncodeChar).map UInt8.toNat := by
    intro s
    rw [List.map_flatMap]
    rfl
  rw [hmap, hmap] at h
  have hbytes := List.map_injective_iff.mpr (fun _ _ => UInt8.toNat_inj.mp) h
  have hstring : String.ofList a = String.ofList b := by
    rw [← String.toByteArray_inj, String.toByteArray_ofList, String.toByteArray_ofList]
    exact congrArg List.toByteArray hbytes
  have hlist := congrArg String.toList hstring
  rwa [String.toList_ofList, String.toList_ofList] at hlist

theorem pairwise_sortByKey (m : PostureMap) :
    (sortByKey m.entries).Pairwise fun a b => utf8 a.1 < utf8 b.1 := by
  have hsorted : (sortByKey m.entries).Pairwise fun a b => utf8 a.1 ≤ utf8 b.1 :=
    List.pairwise_insertionSort (fun a b : Str × Str => utf8 a.1 ≤ utf8 b.1) m.entries
  have hperm : (sortByKey m.entries).Perm m.entries := List.perm_insertionSort _ _
  have hdistinct : (sortByKey m.entries).Pairwise fun a b => a.1 ≠ b.1 :=
    List.pairwise_map.mp ((hperm.map Prod.fst).nodup_iff.mpr m.nodup)
  refine (hsorted.and hdistinct).imp fun {a b} hab => ?_
  refine lt_of_le_of_ne hab.1 fun heq => hab.2 ?_
  exact utf8_injective a.1 b.1 heq

theorem readsAsSigned_of_eq (hs : Signable s)
    (hmessage : rebuiltMessage r = s.message) : r.ReadsAsSigned := by
  have hpieces := (rebuiltMessage_eq_iff r s hs).mp hmessage
  refine ⟨sortByKey s.posture.entries, ?_, fun e he => ?_, pairwise_sortByKey _⟩
  · rw [hpieces]
    rfl
  · exact (hs.posture e ((mem_sortByKey _ e).mp he)).1

def ofSorted (entries : List (Str × Str))
    (h : entries.Pairwise fun a b => utf8 a.1 < utf8 b.1) : PostureMap where
  entries := entries
  nodup := List.pairwise_map.mpr (h.imp fun {a b} hab heq => by
    rw [heq] at hab
    exact lt_irrefl _ hab)

theorem exists_signed_of_readsAsSigned (h : r.ReadsAsSigned) :
    ∃ s, Signable s ∧ rebuiltMessage r = s.message := by
  obtain ⟨entries, hlines, hkeys, hincreasing⟩ := h
  have hlength := three_le_length_pieces r
  have hplain : ∀ l ∈ r.pieces, '\n' ∉ l := fun l hl => not_mem_of_mem_cut '\n' _ l hl
  match hpieces : r.pieces with
  | [] => simp [hpieces] at hlength
  | [_] => simp [hpieces] at hlength
  | [_, _] => simp [hpieces] at hlength
  | hostId :: challenge :: version :: rest =>
    rw [hpieces] at hlines hplain
    have hrest : rest = entries.map entryLine := hlines
    have hmap : SignableMap (ofSorted entries hincreasing) := by
      intro e he
      have hline : '\n' ∉ entryLine e := hplain _ (by
        rw [hrest]
        exact List.mem_cons_of_mem _ (List.mem_cons_of_mem _ (List.mem_cons_of_mem _
          (List.mem_map_of_mem he))))
      simp only [entryLine, List.mem_append, List.mem_cons, not_or] at hline
      exact ⟨hkeys e he, hline.2.2⟩
    have hs : Signable ⟨ofSorted entries hincreasing, hostId, challenge, version⟩ :=
      ⟨hmap, hplain _ (by simp), hplain _ (by simp), hplain _ (by simp)⟩
    refine ⟨_, hs, (rebuiltMessage_eq_iff r _ hs).mpr ?_⟩
    have hsort : sortByKey entries = entries :=
      (hincreasing.imp fun {a b} hab => le_of_lt hab).insertionSort_eq
    change r.pieces = textLines hostId challenge version (sortByKey entries)
    rw [hpieces, hsort, hrest, textLines]

theorem plain_of_same (hs : Signable s)
    (h : r.posture.Same s.posture ∧ r.hostId = s.hostId ∧ r.challenge = s.challenge ∧
      r.peerVersion = s.version) : r.Plain := by
  obtain ⟨hposture, hhost, hchallenge, hversion⟩ := h
  have hplain := hs.plainText
  refine ⟨hhost ▸ hplain.hostId, hchallenge ▸ hplain.challenge, hversion ▸ hplain.version,
    fun e he => ?_⟩
  exact hplain.posture e (hposture.mem_iff.mp he)

theorem take_headers_ne :
    "clanto-posture-cache-v2\n".toList.take 17 ≠ "clanto-posture-v1\n".toList.take 17 := by
  decide

theorem take_append_header (header rest : Str) (h : 17 ≤ header.length) :
    (header ++ rest).take 17 = header.take 17 :=
  List.take_append_of_le_length h

theorem diskCacheMessage_ne (seconds : UInt64) (posture : PostureMap) (version : Str)
    (login : PostureMap) (hostId challenge loginVersion : Str) :
    diskCacheMessage seconds posture version ≠
      canonicalMessage login hostId challenge loginVersion := by
  intro h
  rw [canonicalMessage, signedText_eq] at h
  have hcache : (diskCacheMessage seconds posture version).take 17 =
      "clanto-posture-cache-v2\n".toList.take 17 :=
    take_append_header _ _ (by decide)
  rw [h, take_append_header _ _ (by decide)] at hcache
  exact take_headers_ne hcache.symm

/-- The signature binds a request to what the client signed exactly when the request has none
of the characters that move a cut, or its text is none that a client signs; and a text signed
for the cache on disk is never that of a login. -/
theorem signature_binds_iff (r : Request) :
    (Binds r ↔ r.Plain ∨ ¬ r.ReadsAsSigned) ∧
      ∀ seconds posture version login hostId challenge loginVersion,
        diskCacheMessage seconds posture version ≠
          canonicalMessage login hostId challenge loginVersion := by
  refine ⟨⟨fun hbinds => ?_, ?_⟩, diskCacheMessage_ne⟩
  · by_cases hreads : r.ReadsAsSigned
    · obtain ⟨s, hs, hmessage⟩ := exists_signed_of_readsAsSigned r hreads
      exact Or.inl (plain_of_same r s hs (hbinds s hs hmessage))
    · exact Or.inr hreads
  · rintro (hplain | hreads)
    · exact binds_of_plain r hplain
    · intro s hs hmessage
      exact absurd (readsAsSigned_of_eq r s hs hmessage) hreads

/-! ### A field hidden in the value of another -/

def sampleVersion : Str := "1.5.2".toList

def sampleSigned : Signed where
  posture := gather "Linux".toList sampleVersion "x86_64".toList
    ["auto_update_enabled=true\nav_enabled=false\n".toList]
  hostId := "123456789".toList
  challenge := "challenge".toList
  version := sampleVersion

def sampleRecut : List (Str × Str) :=
  (sampleSigned.posture.entries.filter fun e => decide (e.1 ≠ "av_enabled".toList)).map fun e =>
    if e.1 = "auto_update_enabled".toList then (e.1, "true\nav_enabled=false".toList) else e

def sampleBody : JsonValue :=
  .array [("posture".toList, .array (sampleRecut.map fun e => (e.1, .text e.2))),
    ("mac".toList, .text "bWFj".toList), ("challenge".toList, .text "challenge".toList),
    ("host_id".toList, .text "123456789".toList), ("peer_platform".toList, .text "Linux".toList),
    ("peer_version".toList, .text sampleVersion)]

theorem sampleSigned_signable : Signable sampleSigned :=
  ⟨signableMap_gather _ _ _ _ (by decide) (by decide) (by decide), by decide, by decide, by decide⟩

theorem sampleBody_parsed :
    (parseRequest sampleBody).map (fun r =>
      (r.posture.entries, r.hostId, r.challenge, r.peerVersion, coherent r)) =
      some (sampleRecut, sampleSigned.hostId, sampleSigned.challenge, sampleSigned.version,
        true) := by
  decide +kernel

theorem sampleRecut_lines :
    unlines '\n' ((sortByKey sampleRecut).map entryLine) =
      unlines '\n' ((sortByKey sampleSigned.posture.entries).map entryLine) := by
  decide +kernel

theorem sample_entries :
    sampleSigned.posture.entries.length = 35 ∧
      sampleSigned.posture.get "av_enabled".toList = some "false".toList ∧
      sampleRecut.length = 34 ∧
      (sampleRecut.find? fun e => decide (e.1 = "av_enabled".toList)) = none := by
  decide +kernel

/-- The server accepts and finds coherent a request that has the signed text of a map with
`av_enabled=false`, but no key `av_enabled`. -/
theorem signature_hides_field :
    ∃ s body r, Signable s ∧ parseRequest body = some r ∧ rebuiltMessage r = s.message ∧
      coherent r = true ∧ s.posture.get "av_enabled".toList = some "false".toList ∧
      r.posture.get "av_enabled".toList = none ∧ ¬ r.posture.Same s.posture := by
  obtain ⟨r, hparse, hr⟩ := Option.map_eq_some_iff.mp sampleBody_parsed
  simp only [Prod.mk.injEq] at hr
  obtain ⟨hentries, hhost, hchallenge, hversion, hcoherent⟩ := hr
  obtain ⟨h35, hsigned, h34, hnone⟩ := sample_entries
  have hmessage : rebuiltMessage r = sampleSigned.message := by
    rw [rebuiltMessage, Signed.message, canonicalMessage, signedText_eq, signedText_eq, hentries,
      hhost, hchallenge, hversion]
    simp only [textLines, unlines_cons, sampleRecut_lines]
  refine ⟨sampleSigned, sampleBody, r, sampleSigned_signable, hparse, hmessage, hcoherent, hsigned,
    ?_, fun hsame => ?_⟩
  · rw [PostureMap.get, hentries, hnone]
    rfl
  · have heq := hsame.length_eq
    rw [hentries] at heq
    omega

end ClantoDesk.PostureSignature
