import ClantoDesk.PostureSignature

/-!
The rules of a posture policy and their operators, api/clantodesk-posture.php. Values are what
`json_decode` gives: an array keeps its keys as texts, those of a list being its positions.
Regular expressions, versions, numbers, dates and the clock are the ones PHP has and are a
parameter. An operator satisfies a rule, does not, finds its parameters malformed, or throws.
Beside every operator stands what it asks of the value of a field.
-/
namespace ClantoDesk.PosturePolicy

open Text PostureSignature

variable {F D : Type}

inductive PhpValue (F : Type)
  | null
  | bool (b : Bool)
  | int (n : ℤ)
  | float (x : F)
  | text (s : Str)
  | array (entries : List (Str × PhpValue F))

/-- What PHP supplies. `preg` is `none` for a pattern it refuses and where matching fails,
`createDate` and `daysAgo` are `none` where they throw, `now` gives the ISO weekday and the minute
of the day in a time zone and is `none` for an unknown one. -/
structure Php (F D : Type) where
  preg : Str → Str → Option Bool
  versionCompare : Str → Str → Ordering
  number : Str → Option F
  ofInt : ℤ → F
  floatLe : F → F → Bool
  floatText : F → Str
  createDate : Str → Option (Option D)
  dateText : D → Str
  daysAgo : ℤ → Option D
  today : D
  dateLe : D → D → Bool
  now : Str → Option (ℕ × ℕ)

/-! ### Values -/

abbrev Entries (F : Type) := List (Str × PhpValue F)

def lookup (entries : Entries F) (key : Str) : Option (PhpValue F) :=
  (entries.find? fun e => decide (e.1 = key)).map Prod.snd

/-- `$a[$key] ?? $default`, which also passes over a null. -/
def coalesce (entries : Entries F) (key : String) (default : PhpValue F) : PhpValue F :=
  match lookup entries key.toList with
  | none => default
  | some .null => default
  | some value => value

def PhpValue.isText (s : Str) : PhpValue F → Bool
  | .text t => decide (t = s)
  | _ => false

theorem isText_iff (s : Str) (value : PhpValue F) : value.isText s = true ↔ value = .text s := by
  cases value <;> simp [PhpValue.isText]

/-- `in_array` with a text, strictly. -/
def inArray (s : Str) (entries : Entries F) : Bool := entries.any fun e => e.2.isText s

def Member (s : Str) (entries : Entries F) : Prop := ∃ e ∈ entries, e.2 = .text s

theorem inArray_iff (s : Str) (entries : Entries F) :
    inArray s entries = true ↔ Member s entries := by
  simp only [inArray, List.any_eq_true, isText_iff, Member]

/-- `strval` of a value that is not an array. -/
def strval (php : Php F D) : PhpValue F → Option Str
  | .null => some []
  | .bool b => some (if b then ['1'] else [])
  | .int n => some (toString n).toList
  | .float x => some (php.floatText x)
  | .text s => some s
  | .array _ => none

/-- `is_scalar` and the text of the scalar. -/
def scalarText (php : Php F D) : PhpValue F → Option Str
  | .null => none
  | value => strval php value

/-- `is_numeric` and the number. -/
def numeric (php : Php F D) : PhpValue F → Option F
  | .int n => some (php.ofInt n)
  | .float x => some x
  | .text s => php.number s
  | _ => none

/-! ### Operators -/

inductive Op where
  | eq | ne | isIn | notIn | regex | anyMatch | noneMatch | allMatch
  | versionGte | versionLt | numGte | numLte | dateWithinDays | present | notUnknown
  deriving DecidableEq

def Op.name : Op → String
  | .eq => "eq"
  | .ne => "ne"
  | .isIn => "in"
  | .notIn => "not_in"
  | .regex => "regex"
  | .anyMatch => "any_match"
  | .noneMatch => "none_match"
  | .allMatch => "all_match"
  | .versionGte => "version_gte"
  | .versionLt => "version_lt"
  | .numGte => "num_gte"
  | .numLte => "num_lte"
  | .dateWithinDays => "date_within_days"
  | .present => "present"
  | .notUnknown => "not_unknown"

def Op.all : List Op :=
  [.eq, .ne, .isIn, .notIn, .regex, .anyMatch, .noneMatch, .allMatch, .versionGte, .versionLt,
    .numGte, .numLte, .dateWithinDays, .present, .notUnknown]

def Op.ofName (name : Str) : Option Op := Op.all.find? fun op => decide (op.name.toList = name)

def Op.isList (op : Op) : Bool := op = .anyMatch || op = .noneMatch || op = .allMatch

def Op.isPresence (op : Op) : Bool := op = .present || op = .notUnknown

def unknown : Str := "unknown".toList

/-- The characters that PHP's `trim` takes away. -/
def isPhpSpace (c : Char) : Bool :=
  c = ' ' || c = '\t' || c = '\n' || c = '\r' || c.toNat = 0 || c.toNat = 11

def phpTrim (s : Str) : Str := (s.dropWhile isPhpSpace).rdropWhile isPhpSpace

def splitList (v : Str) : List Str :=
  if v = [] ∨ v = unknown then []
  else ((v.splitOn '|').map phpTrim).filter fun item => decide (item ≠ [])

inductive Verdict where
  | threw
  | malformed
  | decided (satisfied : Bool)

def texts (php : Php F D) (items : Entries F) : Option (List Str) :=
  items.mapM fun e => strval php e.2

def evalScalar (php : Php F D) (val : PhpValue F) (test : Str → Bool) : Verdict :=
  match scalarText php val with
  | none => .malformed
  | some t => .decided (test t)

def evalMember (php : Php F D) (val : PhpValue F) (test : List Str → Bool) : Verdict :=
  match val with
  | .array items =>
    match texts php items with
    | none => .threw
    | some ts => .decided (test ts)
  | _ => .malformed

def evalPattern (php : Php F D) (val : PhpValue F) (test : Str → Bool) : Verdict :=
  match val with
  | .text pattern =>
    match php.preg pattern [] with
    | none => .malformed
    | some _ => .decided (test pattern)
  | _ => .malformed

def evalNumber (php : Php F D) (v : Str) (val : PhpValue F) (test : F → F → Bool) : Verdict :=
  match numeric php val with
  | none => .malformed
  | some bound =>
    match php.number v with
    | none => .decided false
    | some x => .decided (test x bound)

def evalDateWithinDays (php : Php F D) (v : Str) (val : PhpValue F) : Verdict :=
  match val with
  | .int days =>
    if days ≤ 0 then .malformed
    else match php.createDate v with
      | none => .threw
      | some none => .decided false
      | some (some d) =>
        if php.dateText d ≠ v then .decided false
        else match php.daysAgo days with
          | none => .threw
          | some first => .decided (php.dateLe first d)
  | _ => .malformed

def hits (php : Php F D) (pattern : Str) (items : List Str) : ℕ :=
  items.countP fun item => decide (php.preg pattern item = some true)

def evalOp (php : Php F D) (op : Op) (v : Str) (val : PhpValue F) : Verdict :=
  match op with
  | .eq => evalScalar php val fun t => decide (v = t)
  | .ne => evalScalar php val fun t => decide (v ≠ t)
  | .isIn => evalMember php val fun ts => decide (v ∈ ts)
  | .notIn => evalMember php val fun ts => decide (v ∉ ts)
  | .regex => evalPattern php val fun p => decide (php.preg p v = some true)
  | .anyMatch => evalPattern php val fun p => decide (0 < hits php p (splitList v))
  | .noneMatch => evalPattern php val fun p => decide (hits php p (splitList v) = 0)
  | .allMatch => evalPattern php val fun p =>
      decide (splitList v ≠ [] ∧ hits php p (splitList v) = (splitList v).length)
  | .versionGte => evalScalar php val fun t => decide (php.versionCompare v t ≠ .lt)
  | .versionLt => evalScalar php val fun t => decide (php.versionCompare v t = .lt)
  | .numGte => evalNumber php v val fun x bound => php.floatLe bound x
  | .numLte => evalNumber php v val fun x bound => php.floatLe x bound
  | .dateWithinDays => evalDateWithinDays php v val
  | .present => .decided (decide (v ≠ [] ∧ v ≠ unknown))
  | .notUnknown => .decided (decide (v ≠ [] ∧ v ≠ unknown))

def Holds (php : Php F D) (v : Str) (val : PhpValue F) : Op → Prop
  | .eq => scalarText php val = some v
  | .ne => ∃ t, scalarText php val = some t ∧ v ≠ t
  | .isIn => ∃ items, val = .array items ∧ ∃ e ∈ items, strval php e.2 = some v
  | .notIn => ∃ items, val = .array items ∧ ∀ e ∈ items, strval php e.2 ≠ some v
  | .regex => ∃ p, val = .text p ∧ php.preg p v = some true
  | .anyMatch => ∃ p, val = .text p ∧ ∃ item ∈ splitList v, php.preg p item = some true
  | .noneMatch => ∃ p, val = .text p ∧ ∀ item ∈ splitList v, php.preg p item ≠ some true
  | .allMatch => ∃ p, val = .text p ∧ splitList v ≠ [] ∧
      ∀ item ∈ splitList v, php.preg p item = some true
  | .versionGte => ∃ t, scalarText php val = some t ∧ php.versionCompare v t ≠ .lt
  | .versionLt => ∃ t, scalarText php val = some t ∧ php.versionCompare v t = .lt
  | .numGte => ∃ x bound, php.number v = some x ∧ numeric php val = some bound ∧
      php.floatLe bound x = true
  | .numLte => ∃ x bound, php.number v = some x ∧ numeric php val = some bound ∧
      php.floatLe x bound = true
  | .dateWithinDays => ∃ days d first, val = .int days ∧ 0 < days ∧
      php.createDate v = some (some d) ∧ php.dateText d = v ∧ php.daysAgo days = some first ∧
      php.dateLe first d = true
  | .present => v ≠ [] ∧ v ≠ unknown
  | .notUnknown => v ≠ [] ∧ v ≠ unknown

variable (php : Php F D) (v : Str) (val : PhpValue F)

theorem evalScalar_true (test : Str → Bool) (h : evalScalar php val test = .decided true) :
    ∃ t, scalarText php val = some t ∧ test t = true := by
  unfold evalScalar at h
  split at h
  · cases h
  · rename_i t ht
    exact ⟨t, ht, by simpa using h⟩

theorem evalMember_true (test : List Str → Bool) (h : evalMember php val test = .decided true) :
    ∃ items ts, val = .array items ∧ texts php items = some ts ∧ test ts = true := by
  unfold evalMember at h
  split at h
  · rename_i items
    split at h
    · cases h
    · rename_i ts hts
      exact ⟨items, ts, rfl, hts, by simpa using h⟩
  · cases h

theorem evalPattern_true (test : Str → Bool) (h : evalPattern php val test = .decided true) :
    ∃ p, val = .text p ∧ test p = true := by
  unfold evalPattern at h
  split at h
  · rename_i p
    split at h
    · cases h
    · exact ⟨p, rfl, by simpa using h⟩
  · cases h

theorem evalNumber_true (test : F → F → Bool) (h : evalNumber php v val test = .decided true) :
    ∃ x bound, php.number v = some x ∧ numeric php val = some bound ∧ test x bound = true := by
  unfold evalNumber at h
  split at h
  · cases h
  · rename_i bound hbound
    split at h
    · simp at h
    · rename_i x hx
      exact ⟨x, bound, hx, hbound, by simpa using h⟩

theorem evalDateWithinDays_true
    (h : evalDateWithinDays php v val = .decided true) : Holds php v val .dateWithinDays := by
  unfold evalDateWithinDays at h
  split at h
  · rename_i days
    split at h
    · cases h
    · rename_i hdays
      split at h
      · cases h
      · simp at h
      · rename_i d hd
        split at h
        · simp at h
        · rename_i htext
          split at h
          · cases h
          · rename_i first hfirst
            exact ⟨days, d, first, rfl, by omega, hd, not_not.mp htext, hfirst, by simpa using h⟩
  · cases h

theorem mem_texts (items : Entries F) (ts : List Str) (h : texts php items = some ts) (v : Str) :
    v ∈ ts ↔ ∃ e ∈ items, strval php e.2 = some v := by
  induction items generalizing ts with
  | nil =>
    obtain rfl : ts = [] := by simpa [texts] using h.symm
    simp
  | cons e items ih =>
    simp only [texts, List.mapM_cons, Option.bind_eq_bind, Option.bind_eq_some_iff,
      Option.pure_def, Option.some.injEq] at h
    obtain ⟨t, ht, rest, hrest, rfl⟩ := h
    rw [List.mem_cons, ih rest hrest, List.exists_mem_cons_iff, ht, Option.some.injEq]
    exact or_congr_left eq_comm

/-- An operator that lets a rule pass does what it is there for. -/
theorem holds_of_evalOp (op : Op) (v : Str) (val : PhpValue F)
    (h : evalOp php op v val = .decided true) : Holds php v val op := by
  cases op with
  | eq =>
    obtain ⟨t, ht, heq⟩ := evalScalar_true php val _ h
    rw [of_decide_eq_true heq]
    exact ht
  | ne =>
    obtain ⟨t, ht, hne⟩ := evalScalar_true php val _ h
    exact ⟨t, ht, of_decide_eq_true hne⟩
  | isIn =>
    obtain ⟨items, ts, hval, hts, hmem⟩ := evalMember_true php val _ h
    exact ⟨items, hval, (mem_texts php items ts hts v).mp (of_decide_eq_true hmem)⟩
  | notIn =>
    obtain ⟨items, ts, hval, hts, hmem⟩ := evalMember_true php val _ h
    refine ⟨items, hval, fun e he htext => ?_⟩
    exact of_decide_eq_true hmem ((mem_texts php items ts hts v).mpr ⟨e, he, htext⟩)
  | regex =>
    obtain ⟨p, hval, hmatch⟩ := evalPattern_true php val _ h
    exact ⟨p, hval, of_decide_eq_true hmatch⟩
  | anyMatch =>
    obtain ⟨p, hval, hcount⟩ := evalPattern_true php val _ h
    obtain ⟨item, hitem, hmatch⟩ := List.countP_pos_iff.mp (of_decide_eq_true hcount)
    exact ⟨p, hval, item, hitem, of_decide_eq_true hmatch⟩
  | noneMatch =>
    obtain ⟨p, hval, hcount⟩ := evalPattern_true php val _ h
    have hnone := List.countP_eq_zero.mp (of_decide_eq_true hcount)
    exact ⟨p, hval, fun item hitem hmatch => hnone item hitem (decide_eq_true hmatch)⟩
  | allMatch =>
    obtain ⟨p, hval, hcount⟩ := evalPattern_true php val _ h
    obtain ⟨hne, hall⟩ := of_decide_eq_true hcount
    exact ⟨p, hval, hne, fun item hitem =>
      of_decide_eq_true (List.countP_eq_length.mp hall item hitem)⟩
  | versionGte =>
    obtain ⟨t, ht, hge⟩ := evalScalar_true php val _ h
    exact ⟨t, ht, of_decide_eq_true hge⟩
  | versionLt =>
    obtain ⟨t, ht, hlt⟩ := evalScalar_true php val _ h
    exact ⟨t, ht, of_decide_eq_true hlt⟩
  | numGte => exact evalNumber_true php v val _ h
  | numLte => exact evalNumber_true php v val _ h
  | dateWithinDays => exact evalDateWithinDays_true php v val h
  | present =>
    have hv : decide (v ≠ [] ∧ v ≠ unknown) = true := Verdict.decided.inj h
    simpa only [Holds, decide_eq_true_eq] using hv
  | notUnknown =>
    have hv : decide (v ≠ [] ∧ v ≠ unknown) = true := Verdict.decided.inj h
    simpa only [Holds, decide_eq_true_eq] using hv

/-! ### Schedules -/

def digit (c : Char) : Option ℕ :=
  if '0' ≤ c ∧ c ≤ '9' then some (c.toNat - '0'.toNat) else none

/-- Two digits, a colon and two digits; the pattern also lets a final newline through. -/
def hhmmDigits : Str → Option (ℕ × ℕ × ℕ × ℕ)
  | [a, b, ':', c, d] => do some (← digit a, ← digit b, ← digit c, ← digit d)
  | [a, b, ':', c, d, '\n'] => do some (← digit a, ← digit b, ← digit c, ← digit d)
  | _ => none

def parseHhmm : PhpValue F → Option ℕ
  | .text s =>
    if s = "24:00".toList then some 1440
    else (hhmmDigits s).bind fun m =>
      if m.1 * 10 + m.2.1 < 24 ∧ m.2.2.1 < 6 then
        some ((m.1 * 10 + m.2.1) * 60 + (m.2.2.1 * 10 + m.2.2.2))
      else none
  | _ => none

def isDay : PhpValue F → Bool
  | .int d => decide (1 ≤ d ∧ d ≤ 7)
  | _ => false

def isInt (n : ℤ) : PhpValue F → Bool
  | .int d => decide (d = n)
  | _ => false

def parseWindow : PhpValue F → Option (Entries F × ℕ × ℕ)
  | .array w =>
    match coalesce w "days" .null with
    | .array [] => none
    | .array days =>
      match parseHhmm (coalesce w "from" .null), parseHhmm (coalesce w "to" .null) with
      | some start, some stop =>
        if start < stop ∧ (days.all fun e => isDay e.2) then some (days, start, stop) else none
      | _, _ => none
    | _ => none
  | _ => none

def insideWindow (day minutes : ℕ) (w : Entries F × ℕ × ℕ) : Bool :=
  (w.1.any fun e => isInt day e.2) && decide (w.2.1 ≤ minutes) && decide (minutes < w.2.2)

def scheduleLoop (day minutes : ℕ) : Entries F → Bool → Verdict
  | [], inside => .decided inside
  | w :: rest, inside =>
    match parseWindow w.2 with
    | none => .malformed
    | some parsed => scheduleLoop day minutes rest (inside || insideWindow day minutes parsed)

def evalSchedule (php : Php F D) : PhpValue F → Verdict
  | .array val =>
    match coalesce val "tz" .null, coalesce val "windows" .null with
    | .text _, .array [] => .malformed
    | .text tz, .array windows =>
      match php.now tz with
      | none => .malformed
      | some (day, minutes) => scheduleLoop day minutes windows false
    | _, _ => .malformed
  | _ => .malformed

def InSchedule (php : Php F D) (val : PhpValue F) : Prop :=
  ∃ fields tz windows day minutes, val = .array fields ∧ coalesce fields "tz" .null = .text tz ∧
    coalesce fields "windows" .null = .array windows ∧ php.now tz = some (day, minutes) ∧
    ∃ w ∈ windows, ∃ parsed, parseWindow w.2 = some parsed ∧
      insideWindow day minutes parsed = true

theorem scheduleLoop_true (day minutes : ℕ) (windows : Entries F) (inside : Bool)
    (h : scheduleLoop day minutes windows inside = .decided true) :
    inside = true ∨ ∃ w ∈ windows, ∃ parsed, parseWindow w.2 = some parsed ∧
      insideWindow day minutes parsed = true := by
  induction windows generalizing inside with
  | nil => exact Or.inl (Verdict.decided.inj h)
  | cons w rest ih =>
    simp only [scheduleLoop] at h
    cases hw : parseWindow w.2 with
    | none => simp [hw] at h
    | some parsed =>
      rw [hw] at h
      rcases ih _ h with hhere | ⟨w', hmem, hin⟩
      · rcases Bool.or_eq_true_iff.mp hhere with hbefore | hnow
        · exact Or.inl hbefore
        · exact Or.inr ⟨w, List.mem_cons_self, parsed, hw, hnow⟩
      · exact Or.inr ⟨w', List.mem_cons_of_mem w hmem, hin⟩

theorem inSchedule_of_evalSchedule
    (h : evalSchedule php val = .decided true) : InSchedule php val := by
  unfold evalSchedule at h
  split at h
  · rename_i fields
    split at h
    · cases h
    · rename_i tz windows _ htz hwindows
      split at h
      · cases h
      · rename_i day minutes hnow
        rcases scheduleLoop_true day minutes windows false h with hfalse | hwindow
        · cases hfalse
        · exact ⟨fields, tz, windows, day, minutes, rfl, htz, hwindows, hnow, hwindow⟩
    · cases h
  · cases h

/-! ### End of life -/

def delimited (regex : Str) : Str :=
  '~' :: regex.flatMap (fun c => if c = '~' then ['\\', '~'] else [c]) ++ ['~']

structure EolEntry (D : Type) where
  field : Str
  regex : Str
  edition : Option Str
  date : D

inductive Reading (D : Type)
  | threw
  | malformed
  | read (entry : EolEntry D)

def optionalText : PhpValue F → Option (Option Str)
  | .null => some none
  | .text s => some (some s)
  | _ => none

def readEolEntry (php : Php F D) : PhpValue F → Reading D
  | .array e =>
    match coalesce e "field" .null, coalesce e "regex" .null, coalesce e "date" .null,
        optionalText (coalesce e "edition_regex" .null) with
    | .text field, .text regex, .text date, some edition =>
      if php.preg (delimited regex) [] = none ∨
          (∃ ed ∈ edition, php.preg (delimited ed) [] = none) then .malformed
      else match php.createDate date with
        | none => .threw
        | some none => .malformed
        | some (some d) =>
          if php.dateText d ≠ date then .malformed else .read ⟨field, regex, edition, d⟩
    | _, _, _, _ => .malformed
  | _ => .malformed

def eolMatches (php : Php F D) (posture : PostureMap) (e : EolEntry D) : Bool :=
  match posture.get e.field with
  | none => false
  | some v =>
    decide (php.preg (delimited e.regex) v = some true) &&
      match e.edition with
      | none => true
      | some ed =>
        let edition := (posture.get "os_edition".toList).getD []
        decide (edition ≠ [] ∧ edition ≠ unknown ∧ php.preg (delimited ed) edition = some true)

def eolLoop (php : Php F D) (posture : PostureMap) : Entries F → Option D → Verdict
  | [], none => .decided true
  | [], some date => .decided (php.dateLe php.today date)
  | e :: rest, found =>
    match readEolEntry php e.2 with
    | .threw => .threw
    | .malformed => .malformed
    | .read entry =>
      eolLoop php posture rest
        (if found.isNone && eolMatches php posture entry then some entry.date else found)

def eolEntries (posture : PostureMap) (eol : Entries F) : Option (Entries F) :=
  match lookup eol ((posture.get "platform".toList).getD []) with
  | none => some []
  | some .null => some []
  | some (.array entries) => some entries
  | some _ => none

def evalNotEol (php : Php F D) (posture : PostureMap) (eol : Entries F) : Verdict :=
  match eolEntries posture eol with
  | none => .malformed
  | some entries => eolLoop php posture entries none

/-- The first entry about this device has a date that is not past, if there is such an entry. -/
def NotEol (php : Php F D) (posture : PostureMap) (eol : Entries F) : Prop :=
  ∃ entries, eolEntries posture eol = some entries ∧
    ∃ table : List (EolEntry D), entries.map (fun e => readEolEntry php e.2) = table.map .read ∧
      ∀ e ∈ table.find? (eolMatches php posture), php.dateLe php.today e.date = true

theorem eolLoop_true (posture : PostureMap) (entries : Entries F)
    (found : Option D) (h : eolLoop php posture entries found = .decided true) :
    ∃ table : List (EolEntry D), entries.map (fun e => readEolEntry php e.2) = table.map .read ∧
      ∀ d ∈ found.or ((table.find? (eolMatches php posture)).map EolEntry.date),
        php.dateLe php.today d = true := by
  induction entries generalizing found with
  | nil =>
    refine ⟨[], rfl, fun d hd => ?_⟩
    cases found with
    | none => simp at hd
    | some date =>
      obtain rfl : date = d := by simpa using hd
      exact Verdict.decided.inj h
  | cons e rest ih =>
    simp only [eolLoop] at h
    cases he : readEolEntry php e.2 with
    | threw => simp [he] at h
    | malformed => simp [he] at h
    | read entry =>
      rw [he] at h
      obtain ⟨table, htable, hdate⟩ := ih _ h
      refine ⟨entry :: table, by rw [List.map_cons, List.map_cons, he, htable], fun d hd => ?_⟩
      apply hdate d
      cases found with
      | some date => simpa using hd
      | none =>
        cases hmatch : eolMatches php posture entry with
        | true => simpa [hmatch] using hd
        | false => simpa [hmatch] using hd

theorem notEol_of_evalNotEol (posture : PostureMap) (eol : Entries F)
    (h : evalNotEol php posture eol = .decided true) : NotEol php posture eol := by
  unfold evalNotEol at h
  split at h
  · cases h
  · rename_i entries hentries
    obtain ⟨table, htable, hdate⟩ := eolLoop_true php posture entries none h
    refine ⟨entries, hentries, table, htable, fun e he => hdate e.date ?_⟩
    rw [Option.none_or]
    exact Option.mem_map_of_mem EolEntry.date he

end ClantoDesk.PosturePolicy
