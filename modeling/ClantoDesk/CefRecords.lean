import ClantoDesk.Escapes
import ClantoDesk.SortedMap
import ClantoDesk.Text
import Mathlib.Data.Char
import Mathlib.Data.List.Lex

/-!
Audit records in the Common Event Format, src/clanto/audit_sink.rs. The header has seven fields
that end in a bar; the extension has pairs of a key, an equals sign and a value, with a space
between two of them. Keys have letters, digits and underscores only. In a value the backslash, the
equals sign and the ends of lines are escaped, spaces are not: a value ends at the last space before
the next key.
-/
namespace ClantoDesk.CefRecords

open Text Escapes

/-- A JSON value. A number is its text; an object has its fields in the order of their names. -/
inductive Json
  | null
  | bool (b : Bool)
  | number (text : Str)
  | string (s : Str)
  | array (items : List Json)
  | object (fields : List (Str × Json))

def escapeJsonChar (c : Char) : Str :=
  if c = '"' then ['\\', '"']
  else if c = '\\' then ['\\', '\\']
  else if c = Char.ofNat 8 then ['\\', 'b']
  else if c = Char.ofNat 9 then ['\\', 't']
  else if c = Char.ofNat 10 then ['\\', 'n']
  else if c = Char.ofNat 12 then ['\\', 'f']
  else if c = Char.ofNat 13 then ['\\', 'r']
  else if c.toNat < 32 then
    ['\\', 'u', '0', '0', Nat.digitChar (c.toNat / 16), Nat.digitChar (c.toNat % 16)]
  else [c]

def quoteJson (s : Str) : Str := '"' :: (s.flatMap escapeJsonChar ++ ['"'])

mutual

/-- `Value::to_string`. -/
def Json.text : Json → Str
  | .null => "null".toList
  | .bool b => if b then "true".toList else "false".toList
  | .number text => text
  | .string s => quoteJson s
  | .array [] => "[]".toList
  | .array (item :: items) => '[' :: (item.text ++ itemsText items)
  | .object [] => ['\x7b', '\x7d']
  | .object ((name, value) :: fields) =>
    '\x7b' :: (quoteJson name ++ ':' :: (value.text ++ fieldsText fields))

def itemsText : List Json → Str
  | [] => [']']
  | item :: items => ',' :: (item.text ++ itemsText items)

def fieldsText : List (Str × Json) → Str
  | [] => ['\x7d']
  | (name, value) :: fields => ',' :: (quoteJson name ++ ':' :: (value.text ++ fieldsText fields))

end

namespace Json

def asStr : Json → Option Str
  | .string s => some s
  | _ => none

def asObject : Json → Option (List (Str × Json))
  | .object fields => some fields
  | _ => none

end Json

def getField (name : String) (fields : List (Str × Json)) : Option Json :=
  (fields.find? fun e => decide (e.1 = name.toList)).map fun e => e.2

def jsonValueText (value : Json) : Str := value.asStr.getD value.text

def isKeyChar (c : Char) : Bool := c.isAlphanum || c == '_'

def cefExtensionKey (key : Str) : Str := key.map fun c => if isKeyChar c then c else '_'

abbrev Extensions := SortedMap Str Str

def orField (name key : String) (info : List (Str × Json)) (extensions : Extensions) : Extensions :=
  match getField name info with
  | some value => extensions.orInsert key.toList (jsonValueText value)
  | none => extensions

/-- The parser of the nested text is `serde_json::from_str`. -/
def cefExtensions (parse : Str → Option Json) : Json → Extensions
  | .object fields =>
    let extensions := fields.foldl (fun m e =>
      let key := if e.1 = "ip".toList then "src".toList else e.1
      m.insert (cefExtensionKey key) (jsonValueText e.2)) .empty
    let extensions := orField "peer_id" "peer" fields extensions
    match (((getField "info" fields).bind Json.asStr).bind parse).bind Json.asObject with
    | some info =>
      orField "reason" "reason" info (orField "id" "peer" info (orField "ip" "src" info extensions))
    | none => extensions
  | _ => .empty

/-- `str::replace` of one character. -/
def replaceChar (c : Char) (text : Str) (s : Str) : Str :=
  s.flatMap fun x => if x = c then text else [x]

def escapeCefHeader (value : Str) : Str :=
  replaceChar '|' ['\\', '|'] (replaceChar '\\' ['\\', '\\'] value)

def escapeCefExtension (value : Str) : Str :=
  replaceChar '\n' ['\\', 'n'] (replaceChar '\r' ['\\', 'r']
    (replaceChar '=' ['\\', '='] (replaceChar '\\' ['\\', '\\'] value)))

structure EventDefinition where
  id : ℕ
  name : String
  cefSeverity : ℕ

def EVENTS : List EventDefinition :=
  [⟨61100, "Connection opened", 3⟩, ⟨61101, "Session opened", 3⟩, ⟨61102, "Connection closed", 3⟩,
    ⟨61103, "Session completed", 3⟩, ⟨61104, "Controller identity received", 3⟩,
    ⟨61110, "File sent to peer", 5⟩, ⟨61111, "File received from peer", 5⟩,
    ⟨61120, "IP whitelist rejected", 7⟩, ⟨61121, "Login attempt limit exceeded", 7⟩,
    ⟨61122, "Login rate limit exceeded", 7⟩, ⟨61123, "IPv6 prefix attempt limit exceeded", 7⟩,
    ⟨61124, "Terminal OS login backoff", 7⟩, ⟨61125, "Terminal OS login concurrency rejected", 7⟩,
    ⟨61126, "Session scope violation", 7⟩, ⟨61127, "ID whitelist rejected", 7⟩,
    ⟨61128, "Device posture rejected", 7⟩, ⟨61129, "Password authentication failed", 7⟩,
    ⟨61130, "Two-factor authentication failed", 7⟩, ⟨61140, "Device posture passed", 3⟩,
    ⟨61141, "Device posture bypassed", 5⟩, ⟨61150, "Temporary password rotated", 5⟩,
    ⟨61160, "File malware detected", 7⟩, ⟨61161, "File could not be scanned", 7⟩,
    ⟨61162, "File transfer direction blocked", 7⟩, ⟨61163, "File extension blocked", 7⟩,
    ⟨61164, "File scanned clean", 3⟩,
    ⟨61180, "ClantoDesk binary tampered (not signed by Clanto)", 8⟩,
    ⟨61170, "Forwarding channel opened", 5⟩, ⟨61171, "Forwarding channel denied", 7⟩,
    ⟨61172, "Forwarding listener opened", 5⟩, ⟨61173, "Forwarding listener denied", 7⟩,
    ⟨61174, "Controller camera opened", 5⟩, ⟨61175, "Controller camera denied", 7⟩,
    ⟨61176, "Controller camera closed", 3⟩, ⟨61999, "Unknown audit event", 5⟩]

def EVENT_SOURCE : String := "ClantoDesk"

def CARGO_PKG_VERSION : String := "1.5.0"

def extensionText (e : Str × Str) : Str := e.1 ++ '=' :: escapeCefExtension e.2

def formatCef (parse : Str → Option Json) (event : EventDefinition) (value : Json) : Str :=
  let extensions :=
    List.intercalate [' '] ((cefExtensions parse value).entries.map extensionText)
  "CEF:0".toList ++ '|' :: (escapeCefHeader "Clanto Services".toList ++
    '|' :: (escapeCefHeader EVENT_SOURCE.toList ++
    '|' :: (escapeCefHeader CARGO_PKG_VERSION.toList ++
    '|' :: (Nat.toDigits 10 event.id ++
    '|' :: (escapeCefHeader event.name.toList ++
    '|' :: (Nat.toDigits 10 event.cefSeverity ++ '|' :: extensions))))))

/-! ### Reading a record -/

def extensionTable (c : Char) : Char :=
  if c = 'r' then '\r' else if c = 'n' then '\n' else c

def decodePairs : Str → List Str → List (Str × Str)
  | _, [] => []
  | key, [last] => [(key, unescape '\\' extensionTable last)]
  | key, between :: token :: tokens =>
    match splitLast ' ' between with
    | some (value, next) =>
      (key, unescape '\\' extensionTable value) :: decodePairs next (token :: tokens)
    | none => []

def decodeExtensions (text : Str) : List (Str × Str) :=
  if text = [] then []
  else
    match fields '\\' '=' text.length text with
    | [] => []
    | key :: tokens => decodePairs key tokens

/-- The fields of the header and the pairs of the extension. -/
def decodeCef (record : Str) : Option (List Str × List (Str × Str)) :=
  match fields '\\' '|' 7 record with
  | [version, vendor, product, release, event, name, severity, extension] =>
    some ([version, vendor, product, release, event, name, severity].map (unescape '\\' fun c => c),
      decodeExtensions extension)
  | _ => none

/-! ### Escaping -/

def escapeHeaderChar (c : Char) : Str :=
  if c = '\\' then ['\\', '\\'] else if c = '|' then ['\\', '|'] else [c]

def escapeExtensionChar (c : Char) : Str :=
  if c = '\\' then ['\\', '\\']
  else if c = '=' then ['\\', '=']
  else if c = '\r' then ['\\', 'r']
  else if c = '\n' then ['\\', 'n']
  else [c]

variable (n : ℕ) (c : Char) (key value : Str)

/-- The replacements one after the other are one replacement of each character: none of them meets
what an earlier one wrote. -/
theorem escapeCefHeader_eq : escapeCefHeader value = value.flatMap escapeHeaderChar := by
  unfold escapeCefHeader replaceChar
  rw [List.flatMap_assoc]
  congr 1
  funext c
  unfold escapeHeaderChar
  by_cases hslash : c = '\\'
  · subst hslash
    rfl
  · rw [if_neg hslash, if_neg hslash, List.flatMap_singleton]

theorem escapeCefExtension_eq : escapeCefExtension value = value.flatMap escapeExtensionChar := by
  unfold escapeCefExtension replaceChar
  rw [List.flatMap_assoc, List.flatMap_assoc, List.flatMap_assoc]
  congr 1
  funext c
  unfold escapeExtensionChar
  by_cases hslash : c = '\\'
  · subst hslash
    rfl
  by_cases hequals : c = '='
  · subst hequals
    rfl
  by_cases hreturn : c = '\r'
  · subst hreturn
    rfl
  · simp [hslash, hequals, hreturn]

theorem unescape_header : unescape '\\' (fun c => c) (escapeCefHeader value) = value := by
  rw [escapeCefHeader_eq]
  refine unescape_flatMap _ _ _ (fun c => ?_) value
  unfold escapeHeaderChar
  by_cases hslash : c = '\\'
  · exact Or.inr ⟨'\\', if_pos hslash, hslash.symm⟩
  rw [if_neg hslash]
  by_cases hbar : c = '|'
  · exact Or.inr ⟨'|', if_pos hbar, hbar.symm⟩
  · exact Or.inl ⟨if_neg hbar, hslash⟩

theorem unescape_extension : unescape '\\' extensionTable (escapeCefExtension value) = value := by
  rw [escapeCefExtension_eq]
  refine unescape_flatMap _ _ _ (fun c => ?_) value
  unfold escapeExtensionChar
  by_cases hslash : c = '\\'
  · exact Or.inr ⟨'\\', if_pos hslash, by rw [hslash]; rfl⟩
  rw [if_neg hslash]
  by_cases hequals : c = '='
  · exact Or.inr ⟨'=', if_pos hequals, by rw [hequals]; rfl⟩
  rw [if_neg hequals]
  by_cases hreturn : c = '\r'
  · exact Or.inr ⟨'r', if_pos hreturn, by rw [hreturn]; rfl⟩
  rw [if_neg hreturn]
  by_cases hnewline : c = '\n'
  · exact Or.inr ⟨'n', if_pos hnewline, by rw [hnewline]; rfl⟩
  · exact Or.inl ⟨if_neg hnewline, hslash⟩

theorem closed_header : Closed '\\' '|' (escapeCefHeader value) := by
  rw [escapeCefHeader_eq]
  refine closed_flatMap _ _ _ value fun c => ?_
  unfold escapeHeaderChar
  split
  · exact .escaped _ _ .nil
  split
  · exact .escaped _ _ .nil
  · rename_i hslash hbar
    exact .plain c [] hslash hbar .nil

theorem closed_extension : Closed '\\' '=' (escapeCefExtension value) := by
  rw [escapeCefExtension_eq]
  refine closed_flatMap _ _ _ value fun c => ?_
  unfold escapeExtensionChar
  split
  · exact .escaped _ _ .nil
  split
  · exact .escaped _ _ .nil
  split
  · exact .escaped _ _ .nil
  split
  · exact .escaped _ _ .nil
  · rename_i hslash hequals _ _
    exact .plain c [] hslash hequals .nil

theorem line_escapeCefExtension :
    '\r' ∉ escapeCefExtension value ∧ '\n' ∉ escapeCefExtension value := by
  rw [escapeCefExtension_eq]
  have hnone : ∀ c, '\r' ∉ escapeExtensionChar c ∧ '\n' ∉ escapeExtensionChar c := by
    intro c
    unfold escapeExtensionChar
    split
    · decide
    split
    · decide
    split
    · decide
    split
    · decide
    · rename_i hreturn hnewline
      simp [Ne.symm hreturn, Ne.symm hnewline]
  constructor
  · intro hmem
    obtain ⟨c, -, hc⟩ := List.mem_flatMap.mp hmem
    exact (hnone c).1 hc
  · intro hmem
    obtain ⟨c, -, hc⟩ := List.mem_flatMap.mp hmem
    exact (hnone c).2 hc

/-! ### Keys -/

def PlainKey (key : Str) : Prop := ∀ c ∈ key, isKeyChar c = true

theorem PlainKey.not_mem {key : Str} (h : PlainKey key) (c : Char) (hc : isKeyChar c = false) :
    c ∉ key :=
  fun hmem => absurd (h c hmem) (by rw [hc]; exact Bool.false_ne_true)

theorem plainKey_cefExtensionKey : PlainKey (cefExtensionKey key) := by
  intro c hc
  obtain ⟨x, -, rfl⟩ := List.mem_map.mp hc
  split
  · rename_i hx
    exact hx
  · decide

theorem plainKey_orField (name key : String) (info : List (Str × Json)) (extensions : Extensions)
    (hkey : PlainKey key.toList) (h : ∀ e ∈ extensions.entries, PlainKey e.1) :
    ∀ e ∈ (orField name key info extensions).entries, PlainKey e.1 := by
  unfold orField
  split
  · exact SortedMap.keys_orInsert PlainKey extensions key.toList _ h hkey
  · exact h

theorem plainKey_cefExtensions (parse : Str → Option Json) (value : Json) :
    ∀ e ∈ (cefExtensions parse value).entries, PlainKey e.1 := by
  have hempty : ∀ e ∈ (SortedMap.empty : Extensions).entries, PlainKey e.1 :=
    fun e he => absurd he List.not_mem_nil
  cases value with
  | object fields =>
    have hfields : ∀ e ∈ (fields.foldl (fun (m : Extensions) e =>
        m.insert (cefExtensionKey (if e.1 = "ip".toList then "src".toList else e.1))
          (jsonValueText e.2)) .empty).entries, PlainKey e.1 := by
      refine List.foldlRecOn (motive := fun m : Extensions => ∀ e ∈ m.entries, PlainKey e.1)
        fields _ hempty fun m hm e _ => ?_
      exact SortedMap.keys_insert PlainKey m _ _ hm (plainKey_cefExtensionKey _)
    have hpeer := plainKey_orField "peer_id" "peer" fields _ (List.all_eq_true.mp (by decide))
        hfields
    simp only [cefExtensions]
    split
    · refine plainKey_orField _ _ _ _ (List.all_eq_true.mp (by decide)) ?_
      refine plainKey_orField _ _ _ _ (List.all_eq_true.mp (by decide)) ?_
      exact plainKey_orField _ _ _ _ (List.all_eq_true.mp (by decide)) hpeer
    · exact hpeer
  | null => exact hempty
  | bool b => exact hempty
  | number text => exact hempty
  | string s => exact hempty
  | array items => exact hempty

/-! ### Pairs -/

theorem closed_key (h : PlainKey key) : Closed '\\' '=' key :=
  closed_of_not_mem _ _ key (h.not_mem _ (by decide)) (h.not_mem _ (by decide))

/-- From one key on, what is cut at the bare equals signs are the values, each with the next key. -/
theorem decodePairs_fields (rest : List (Str × Str))
    (hrest : ∀ e ∈ rest, PlainKey e.1) (n : ℕ) (hn : rest.length ≤ n) :
    decodePairs key (fields '\\' '=' n
      (escapeCefExtension value ++ (rest.flatMap fun e => ' ' :: extensionText e))) =
      (key, value) :: rest := by
  induction rest generalizing key value n with
  | nil =>
    rw [List.flatMap_nil, List.append_nil, fields_closed _ _ n _ (closed_extension value),
      decodePairs,
      unescape_extension]
  | cons e rest ih =>
    obtain ⟨next, nextValue⟩ := e
    obtain ⟨n, rfl⟩ : ∃ m, n = m + 1 := ⟨n - 1, by rw [List.length_cons] at hn; omega⟩
    have hnext : PlainKey next := hrest _ (List.mem_cons_self ..)
    have hclosed : Closed '\\' '=' (escapeCefExtension value ++ ' ' :: next) :=
      (closed_extension value).append (.plain ' ' next (by decide) (by decide)
        (closed_key next hnext))
    have htext : escapeCefExtension value ++
        (((next, nextValue) :: rest).flatMap fun e => ' ' :: extensionText e) =
        (escapeCefExtension value ++ ' ' :: next) ++ '=' :: (escapeCefExtension nextValue ++
          (rest.flatMap fun e => ' ' :: extensionText e)) := by
      simp [extensionText]
    have hmore := ih next nextValue (fun e he => hrest e (List.mem_cons_of_mem _ he)) n
      (by rw [List.length_cons] at hn; omega)
    rw [htext, fields_append '\\' '=' (by decide) n _ _ hclosed]
    cases htokens : fields '\\' '=' n (escapeCefExtension nextValue ++
        (rest.flatMap fun e => ' ' :: extensionText e)) with
    | nil =>
      rw [htokens] at hmore
      cases hmore
    | cons token tokens =>
      rw [htokens] at hmore
      rw [decodePairs, splitLast_append ' ' _ next (hnext.not_mem ' ' (by decide))]
      simp only [unescape_extension, hmore]

theorem intercalate_cons (sep x : Str) (xs : List Str) :
    List.intercalate sep (x :: xs) = x ++ xs.flatMap fun y => sep ++ y := by
  induction xs generalizing x with
  | nil => simp
  | cons y xs ih =>
    rw [List.intercalate_cons_cons, ih, List.flatMap_cons]
    simp

theorem decodeExtensions_spec (entries : List (Str × Str)) (h : ∀ e ∈ entries, PlainKey e.1) :
    decodeExtensions (List.intercalate [' '] (entries.map extensionText)) = entries := by
  cases entries with
  | nil => rfl
  | cons e rest =>
    obtain ⟨key, value⟩ := e
    have hkey : PlainKey key := h _ (List.mem_cons_self ..)
    have htext : List.intercalate [' '] (((key, value) :: rest).map extensionText) =
        key ++ '=' :: (escapeCefExtension value ++
          (rest.flatMap fun e => ' ' :: extensionText e)) := by
      rw [List.map_cons, intercalate_cons, List.flatMap_map]
      simp [extensionText]
    have hlength : rest.length ≤ (rest.flatMap fun e => ' ' :: extensionText e).length := by
      clear h htext
      induction rest with
      | nil => exact Nat.le_refl 0
      | cons e rest ih =>
        rw [List.flatMap_cons, List.length_append, List.length_cons, List.length_cons]
        omega
    rw [htext, decodeExtensions, if_neg (by simp)]
    obtain ⟨n, hn⟩ : ∃ n, (key ++ '=' :: (escapeCefExtension value ++
        (rest.flatMap fun e => ' ' :: extensionText e))).length = n + 1 ∧ rest.length ≤ n := by
      refine ⟨_, by rw [List.length_append, List.length_cons, ← Nat.add_assoc], ?_⟩
      rw [List.length_append]
      omega
    rw [hn.1, fields_append '\\' '=' (by decide) n key _ (closed_key key hkey)]
    exact decodePairs_fields key value rest (fun e he => h e (List.mem_cons_of_mem _ he)) n hn.2

/-! ### Records -/

theorem digit_of_mem (hc : c.isDigit = false) : c ∉ Nat.toDigits 10 n := by
  intro hmem
  have hdigit := Nat.isDigit_of_mem_toDigits (by decide) (by decide) hmem
  rw [hc] at hdigit
  cases hdigit

theorem closed_digits : Closed '\\' '|' (Nat.toDigits 10 n) :=
  closed_of_not_mem _ _ _ (digit_of_mem n _ (by decide)) (digit_of_mem n _ (by decide))

def headerOf (event : EventDefinition) : List Str :=
  ["CEF:0".toList, "Clanto Services".toList, EVENT_SOURCE.toList, CARGO_PKG_VERSION.toList,
    Nat.toDigits 10 event.id, event.name.toList, Nat.toDigits 10 event.cefSeverity]

theorem unescape_digits : unescape '\\' (fun c => c) (Nat.toDigits 10 n) = Nat.toDigits 10 n := by
  have hplain : ∀ s : Str, '\\' ∉ s → unescape '\\' (fun c => c) s = s := by
    intro s hs
    induction s with
    | nil => rfl
    | cons c s ih =>
      rw [List.mem_cons, not_or] at hs
      rw [unescape_cons _ _ c s (Ne.symm hs.1), ih hs.2]
  exact hplain _ (digit_of_mem n _ (by decide))

theorem not_mem_escapeCefHeader (hslash : c ≠ '\\') (hbar : c ≠ '|')
    (h : c ∉ value) : c ∉ escapeCefHeader value := by
  rw [escapeCefHeader_eq]
  intro hmem
  obtain ⟨x, hx, hc⟩ := List.mem_flatMap.mp hmem
  unfold escapeHeaderChar at hc
  split at hc
  · simp [hslash] at hc
  split at hc
  · simp [hslash, hbar] at hc
  · rw [List.mem_singleton.mp hc] at h
    exact h hx

theorem not_mem_extensions (hkey : isKeyChar c = false) (hspace : c ≠ ' ')
    (hequals : c ≠ '=') (hvalue : ∀ value, c ∉ escapeCefExtension value)
    (entries : List (Str × Str)) (h : ∀ e ∈ entries, PlainKey e.1) :
    c ∉ List.intercalate [' '] (entries.map extensionText) := by
  have htext : ∀ e ∈ entries, c ∉ extensionText e := by
    intro e he hmem
    rcases List.mem_append.mp hmem with hmem | hmem
    · exact (h e he).not_mem c hkey hmem
    · rcases List.mem_cons.mp hmem with hmem | hmem
      · exact hequals hmem
      · exact hvalue e.2 hmem
  cases entries with
  | nil => exact List.not_mem_nil
  | cons e rest =>
    rw [List.map_cons, intercalate_cons, List.mem_append, not_or]
    refine ⟨htext e (List.mem_cons_self ..), fun hmem => ?_⟩
    rw [List.flatMap_map] at hmem
    obtain ⟨x, hx, hc⟩ := List.mem_flatMap.mp hmem
    rcases List.mem_append.mp hc with hc | hc
    · exact hspace (List.mem_singleton.mp hc)
    · exact htext x (List.mem_cons_of_mem _ hx) hc

theorem line_formatCef (parse : Str → Option Json) (event : EventDefinition) (value : Json)
    (c : Char) (hc : c = '\r' ∨ c = '\n') (hname : c ∉ event.name.toList) :
    c ∉ formatCef parse event value := by
  have hplain : isKeyChar c = false ∧ c ≠ ' ' ∧ c ≠ '=' ∧ c ≠ '\\' ∧ c ≠ '|' ∧
      c.isDigit = false ∧ c ∉ "CEF:0".toList ∧ c ∉ "Clanto Services".toList ∧
      c ∉ EVENT_SOURCE.toList ∧ c ∉ CARGO_PKG_VERSION.toList := by
    rcases hc with rfl | rfl
    · decide
    · decide
  obtain ⟨hkey, hspace, hequals, hslash, hbar, hdigit, hcef, hvendor, hsource, hversion⟩ := hplain
  have hvalue : ∀ value, c ∉ escapeCefExtension value := by
    intro value
    rcases hc with rfl | rfl
    · exact (line_escapeCefExtension value).1
    · exact (line_escapeCefExtension value).2
  have hextensions := not_mem_extensions c hkey hspace hequals hvalue _
    (plainKey_cefExtensions parse value)
  unfold formatCef
  simp only [List.mem_append, List.mem_cons, not_or]
  exact ⟨hcef, hbar, not_mem_escapeCefHeader c _ hslash hbar hvendor, hbar,
    not_mem_escapeCefHeader c _ hslash hbar hsource, hbar,
    not_mem_escapeCefHeader c _ hslash hbar hversion, hbar, digit_of_mem _ c hdigit, hbar,
    not_mem_escapeCefHeader c _ hslash hbar hname, hbar, digit_of_mem _ c hdigit, hbar, hextensions⟩

theorem events_names : ∀ event ∈ EVENTS, '\r' ∉ event.name.toList ∧ '\n' ∉ event.name.toList := by
  -- the kernel is slow at decoding a literal, so its characters come from the lemma
  have hall : ∀ name ∈ EVENTS.map fun event => event.name.toList, '\r' ∉ name ∧ '\n' ∉ name := by
    simp only [EVENTS, List.map_cons, List.map_nil]
    repeat rw [String.toList_ofList]
    decide
  exact fun event hevent => hall _ (List.mem_map_of_mem hevent)

/-- Every record is read back as its header and exactly its pairs, and the record of every event is
one line. -/
theorem cef_decodes (parse : Str → Option Json) (event : EventDefinition) (value : Json) :
    decodeCef (formatCef parse event value) =
        some (headerOf event, (cefExtensions parse value).entries) ∧
      (event ∈ EVENTS →
        '\r' ∉ formatCef parse event value ∧ '\n' ∉ formatCef parse event value) := by
  constructor
  · have hpairs := decodeExtensions_spec _ (plainKey_cefExtensions parse value)
    have hne : '|' ≠ '\\' := by decide
    have hcef : Closed '\\' '|' "CEF:0".toList :=
      closed_of_not_mem _ _ _ (by decide) (by decide)
    unfold decodeCef formatCef
    rw [fields_append _ _ hne 6 _ _ hcef, fields_append _ _ hne 5 _ _ (closed_header _),
      fields_append _ _ hne 4 _ _ (closed_header _), fields_append _ _ hne 3 _ _ (closed_header _),
      fields_append _ _ hne 2 _ _ (closed_digits _), fields_append _ _ hne 1 _ _ (closed_header _),
      fields_append _ _ hne 0 _ _ (closed_digits _)]
    simp only [fields, hpairs, List.map_cons, List.map_nil, unescape_header, unescape_digits]
    rfl
  · intro hevent
    obtain ⟨hreturn, hnewline⟩ := events_names event hevent
    exact ⟨line_formatCef parse event value '\r' (Or.inl rfl) hreturn,
      line_formatCef parse event value '\n' (Or.inr rfl) hnewline⟩

example : decodeCef (formatCef (fun _ => none) ⟨61998, "Name|part\\tail", 5⟩
      (.object [("a b".toList, .string "x= y\n".toList), ("ip".toList, .number "1".toList)])) =
    some (["CEF:0", "Clanto Services", "ClantoDesk", "1.5.0", "61998", "Name|part\\tail", "5"].map
      String.toList, [("a_b".toList, "x= y\n".toList), ("src".toList, "1".toList)]) := by
  decide

end ClantoDesk.CefRecords
