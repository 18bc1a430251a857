import ClantoDesk.Guards
import ClantoDesk.ForwardTargets

/-!
The hours at which a device may be reached, src/clanto/access_hours.rs. A window starts on each of
its days and may run into the next one; the day ranges and the windows both go around the week, so
they are intervals of a cycle. The grammar of the setting is stated on its own, without the
functions that parse it.
-/
namespace ClantoDesk.AccessHours

open Text Lines ForwardTargets

def OPT_ACCESS_HOURS : String := "clanto-access-hours"
def LOGIN_ERROR : String := "clanto_access_hours_error"
def DAY_MINUTES : ℕ := 24 * 60

abbrev Day := Fin 7

structure Window where
  days : Day → Bool
  start : ℕ
  stop : ℕ

def EN (d : Day) : Str := (["mon", "tue", "wed", "thu", "fri", "sat", "sun"].get d).toList
def IT (d : Day) : Str := (["lun", "mar", "mer", "gio", "ven", "sab", "dom"].get d).toList

def position (names : Day → Str) (name : Str) : Option Day :=
  (List.finRange 7).find? fun d => decide (names d = name)

def day (name : Str) : Option Day :=
  let name := (trim name).map Char.toLower
  (position EN name).or (position IT name)

/-- The loop over the days from `d` to `b`, around the week. -/
def fillDays (out : Day → Bool) (d b : Day) : Day → Bool :=
  let out := fun x => decide (x = d) || out x
  if h : d = b then out else fillDays out (d + 1) b
termination_by (b - d).val
decreasing_by
  revert d b
  decide

def fillPart (out : Day → Bool) (part : Str) : Option (Day → Bool) :=
  match splitOnce '-' part with
  | some (a, b) => do
    let a ← day a
    let b ← day b
    some (fillDays out a b)
  | none => (day part).map fun d x => decide (x = d) || out x

def days (spec : Str) : Option (Day → Bool) := (spec.splitOn ',').foldlM fillPart fun _ => false

def minutes (hhmm : Str) : Option ℕ := do
  let (h, m) ← splitOnce ':' (trim hhmm)
  let h ← parseUnsigned (2 ^ 32) h
  let m ← parseUnsigned (2 ^ 32) m
  if h * 60 < 2 ^ 32 ∧ h * 60 + m < 2 ^ 32 ∧ m < 60 ∧ h * 60 + m ≤ DAY_MINUTES then
    some (h * 60 + m)
  else none

def splitSpace (s : Str) : Option (Str × Str) :=
  match s.dropWhile fun c => !isWhitespace c with
  | [] => none
  | _ :: rest => some (s.takeWhile (fun c => !isWhitespace c), rest)

def parseRange (days : Day → Bool) (range : Str) : Option Window := do
  let (start, stop) ← splitOnce '-' (trim range)
  let start ← minutes start
  let stop ← minutes stop
  if start = stop ∨ start = DAY_MINUTES then none else some ⟨days, start, stop⟩

def parseEntry (entry : Str) : Option (List Window) :=
  if eqIgnoreAsciiCase entry "none".toList then some []
  else do
    let (spec, ranges) ← splitSpace entry
    let days ← days spec
    (ranges.splitOn ',').mapM (parseRange days)

def entries (value : Str) : List Str :=
  ((value.splitOn ';').map trim).filter fun entry => !entry.isEmpty

def parse (value : Str) : Option (List Window) := ((entries value).mapM parseEntry).map List.flatten

def allowedAt (windows : List Window) (weekday : Day) (minute : ℕ) : Bool :=
  let yesterday := weekday + 6
  windows.any fun w =>
    if w.start < w.stop then w.days weekday && decide (w.start ≤ minute ∧ minute < w.stop)
    else (w.days weekday && decide (w.start ≤ minute)) ||
      (w.days yesterday && decide (minute < w.stop))

/-- Why a login is refused now, if it is. -/
def loginBlock (value : Str) (weekday : Day) (minute : ℕ) : Option String :=
  if (trim value).isEmpty then none
  else
    let allowed := match parse value with
      | some windows => allowedAt windows weekday minute
      | none => false
    if allowed then none else some LOGIN_ERROR

example : (parse "mon-fri 08:00-13:00,14:00-18:00; sat 09:00-12:00".toList).map
    (fun w => (allowedAt w 0 480, allowedAt w 0 810, allowedAt w 5 600)) =
    some (true, false, true) := by decide +kernel

/-! ### The grammar -/

/-- `m` is one of the `len` numbers from `start` on, counted around a cycle of length `n`. -/
def InArc (n start len m : ℕ) : Prop := ∃ k, k < len ∧ (start + k) % n = m

/-- Going around the week from `a`, the day comes no later than `b`. -/
def Between (a b x : Day) : Prop := (x - a).val ≤ (b - a).val

def DayName (name : Str) (d : Day) : Prop :=
  (trim name).map Char.toLower = EN d ∨ (trim name).map Char.toLower = IT d

inductive PartDays (part : Str) : (Day → Prop) → Prop
  | single (d : Day) : '-' ∉ part → DayName part d → PartDays part fun x => x = d
  | range (a b : Str) (first last : Day) : part = a ++ '-' :: b → '-' ∉ a →
      DayName a first → DayName b last → PartDays part (Between first last)

def Numeral (s : Str) (n : ℕ) : Prop :=
  ∃ digits : Str, (s = digits ∧ s.head? ≠ some '+' ∨ s = '+' :: digits) ∧ digits ≠ [] ∧
    digits.all Char.isDigit = true ∧
    n = digits.foldl (fun n c => n * 10 + (c.toNat - '0'.toNat)) 0

/-- `HH:MM`, up to `24:00`. -/
def Time (s : Str) (n : ℕ) : Prop :=
  ∃ hours minutes h m, trim s = hours ++ ':' :: minutes ∧ ':' ∉ hours ∧ Numeral hours h ∧
    Numeral minutes m ∧ m < 60 ∧ n = h * 60 + m ∧ n ≤ DAY_MINUTES

/-- `HH:MM-HH:MM`, not empty and starting before midnight. -/
def Range (s : Str) (start stop : ℕ) : Prop :=
  ∃ a b, trim s = a ++ '-' :: b ∧ '-' ∉ a ∧ Time a start ∧ Time b stop ∧
    start ≠ stop ∧ start ≠ DAY_MINUTES

/-- An entry of the setting is the list of days and the list of windows, with white space
between. -/
structure Splits (entry spec ranges : Str) : Prop where
  parts : ∃ c, entry = spec ++ c :: ranges ∧ isWhitespace c = true ∧
    ∀ x ∈ spec, isWhitespace x = false

def IsNone (entry : Str) : Prop := entry.map Char.toLower = "none".toList

def WellFormed (entry : Str) : Prop :=
  IsNone entry ∨ ∃ spec ranges, Splits entry spec ranges ∧
    (∀ part ∈ spec.splitOn ',', ∃ ds, PartDays part ds) ∧
    ∀ range ∈ ranges.splitOn ',', ∃ start stop, Range range start stop

/-- The length of a window; one that does not end after its start runs into the next day. -/
def duration (start stop : ℕ) : ℕ :=
  if start < stop then stop - start else stop + DAY_MINUTES - start

/-- The minute of the week lies in a window of the entry, on one of its days. -/
def Covers (entry : Str) (m : ℕ) : Prop :=
  ¬ IsNone entry ∧ ∃ spec ranges, Splits entry spec ranges ∧
    ∃ part ∈ spec.splitOn ',', ∃ ds, PartDays part ds ∧ ∃ d : Day, ds d ∧
      ∃ range ∈ ranges.splitOn ',', ∃ start stop, Range range start stop ∧
        InArc (7 * DAY_MINUTES) (DAY_MINUTES * d.val + start) (duration start stop) m

/-! ### The days -/

variable (out : Day → Bool) (value entry : Str)

theorem position_iff (names : Day → Str) (hinj : ∀ a b, names a = names b → a = b) (name : Str)
    (d : Day) : position names name = some d ↔ names d = name := by
  constructor
  · intro h
    simpa using List.find?_some h
  · intro h
    cases hfind : position names name with
    | none => exact absurd (decide_eq_true h) (List.find?_eq_none.mp hfind d (List.mem_finRange d))
    | some b =>
      have hb : names b = name := by simpa using List.find?_some hfind
      rw [hinj b d (hb.trans h.symm)]

theorem day_iff (name : Str) (d : Day) : day name = some d ↔ DayName name d := by
  have hen : ∀ a b, EN a = EN b → a = b := by decide
  have hit : ∀ a b, IT a = IT b → a = b := by decide
  have hne : ∀ a b, EN a ≠ IT b := by decide
  rw [day, DayName]
  cases hposition : position EN ((trim name).map Char.toLower) with
  | some a =>
    have ha := (position_iff EN hen _ a).mp hposition
    rw [Option.some_or, Option.some.injEq]
    constructor
    · rintro rfl
      exact Or.inl ha.symm
    · rintro (h | h)
      · exact hen a d (ha.trans h)
      · exact absurd (ha.trans h) (hne a d)
  | none =>
    rw [Option.none_or, position_iff IT hit]
    constructor
    · exact fun h => Or.inr h.symm
    · rintro (h | h)
      · rw [(position_iff EN hen _ d).mpr h.symm] at hposition
        cases hposition
      · exact h.symm

theorem between_self (d x : Day) : Between d d x ↔ x = d := by
  revert d x
  unfold Between
  decide

theorem between_step (d b x : Day) (h : d ≠ b) : Between d b x ↔ x = d ∨ Between (d + 1) b x := by
  revert d b x
  unfold Between
  decide

theorem fillDays_iff (d b x : Day) : fillDays out d b x = true ↔ out x = true ∨ Between d b x := by
  induction out, d using fillDays.induct b with
  | case1 out =>
    rw [fillDays, dif_pos rfl, between_self, Bool.or_eq_true, decide_eq_true_eq, or_comm]
  | case2 out d out' h ih =>
    rw [fillDays, dif_neg h, ih, Bool.or_eq_true, decide_eq_true_eq, between_step d b x h, or_assoc]
    exact or_left_comm

theorem fillPart_of_partDays (part : Str) (ds : Day → Prop) (h : PartDays part ds) :
    ∃ out', fillPart out part = some out' ∧ ∀ x, out' x = true ↔ out x = true ∨ ds x := by
  cases h with
  | single d hmark hname =>
    refine ⟨fun x => decide (x = d) || out x, ?_, fun x => ?_⟩
    · rw [fillPart, (splitOnce_eq_none_iff '-' part).mpr hmark, (day_iff part d).mpr hname]
      rfl
    · rw [Bool.or_eq_true, decide_eq_true_eq, or_comm]
  | range a b first last heq hmark ha hb =>
    refine ⟨fillDays out first last, ?_, fillDays_iff out first last⟩
    rw [heq, fillPart, splitOnce_append '-' a b hmark]
    simp only [(day_iff a first).mpr ha, (day_iff b last).mpr hb, Option.bind_eq_bind,
      Option.bind_some]

theorem partDays_of_fillPart (out' : Day → Bool) (part : Str)
    (h : fillPart out part = some out') : ∃ ds, PartDays part ds := by
  rw [fillPart] at h
  cases hsplit : splitOnce '-' part with
  | none =>
    rw [hsplit] at h
    obtain ⟨d, hd, -⟩ := Option.map_eq_some_iff.mp h
    exact ⟨_, .single d ((splitOnce_eq_none_iff '-' part).mp hsplit) ((day_iff part d).mp hd)⟩
  | some parts =>
    obtain ⟨a, b⟩ := parts
    rw [hsplit] at h
    obtain ⟨heq, hmark⟩ := eq_append_of_splitOnce '-' _ _ _ hsplit
    obtain ⟨first, hfirst, hrest⟩ := Option.bind_eq_some_iff.mp h
    obtain ⟨last, hlast, -⟩ := Option.bind_eq_some_iff.mp hrest
    exact ⟨_, .range a b first last heq hmark ((day_iff a first).mp hfirst)
      ((day_iff b last).mp hlast)⟩

theorem fillParts_some (parts : List Str) (out out' : Day → Bool)
    (h : parts.foldlM fillPart out = some out') :
    (∀ part ∈ parts, ∃ ds, PartDays part ds) ∧
      ∀ x, out' x = true ↔ out x = true ∨ ∃ part ∈ parts, ∃ ds, PartDays part ds ∧ ds x := by
  induction parts generalizing out with
  | nil =>
    obtain rfl := Option.some.inj h
    simp
  | cons part parts ih =>
    rw [List.foldlM_cons] at h
    obtain ⟨middle, hpart, hrest⟩ := Option.bind_eq_some_iff.mp h
    obtain ⟨hall, hdays⟩ := ih middle hrest
    obtain ⟨ds, hds⟩ := partDays_of_fillPart out middle part hpart
    have hmiddle : ∀ ds', PartDays part ds' → ∀ x, middle x = true ↔ out x = true ∨ ds' x := by
      intro ds' hds' x
      obtain ⟨other, hother, hmem⟩ := fillPart_of_partDays out part ds' hds'
      rw [hpart, Option.some.injEq] at hother
      rw [hother, hmem x]
    refine ⟨?_, fun x => ?_⟩
    · intro q hq
      rcases List.mem_cons.mp hq with rfl | hq
      · exact ⟨ds, hds⟩
      · exact hall q hq
    · rw [hdays x, hmiddle ds hds x]
      constructor
      · rintro ((hout | hx) | ⟨q, hq, hcover⟩)
        · exact Or.inl hout
        · exact Or.inr ⟨part, List.mem_cons_self .., ds, hds, hx⟩
        · exact Or.inr ⟨q, List.mem_cons_of_mem _ hq, hcover⟩
      · rintro (hout | ⟨q, hq, ds', hds', hx⟩)
        · exact Or.inl (Or.inl hout)
        · rcases List.mem_cons.mp hq with rfl | hq
          · exact Or.inl ((hmiddle ds hds x).mp ((hmiddle ds' hds' x).mpr (Or.inr hx)))
          · exact Or.inr ⟨q, hq, ds', hds', hx⟩

theorem fillParts_exists (parts : List Str) (out : Day → Bool)
    (h : ∀ part ∈ parts, ∃ ds, PartDays part ds) :
    ∃ out', parts.foldlM fillPart out = some out' := by
  induction parts generalizing out with
  | nil => exact ⟨out, rfl⟩
  | cons part parts ih =>
    obtain ⟨ds, hds⟩ := h part (List.mem_cons_self ..)
    obtain ⟨middle, hmiddle, -⟩ := fillPart_of_partDays out part ds hds
    obtain ⟨out', hout'⟩ := ih middle fun q hq => h q (List.mem_cons_of_mem _ hq)
    refine ⟨out', ?_⟩
    rw [List.foldlM_cons, hmiddle]
    exact hout'

/-! ### The times -/

theorem parseUnsigned_iff (limit : ℕ) (s : Str) (n : ℕ) :
    parseUnsigned limit s = some n ↔ Numeral s n ∧ n < limit := by
  unfold parseUnsigned Numeral
  simp only
  constructor
  · intro h
    generalize hd : (if s.head? = some '+' then s.tail else s) = digits at h
    have hs : s = digits ∧ s.head? ≠ some '+' ∨ s = '+' :: digits := by
      by_cases hplus : s.head? = some '+'
      · obtain ⟨rest, rfl⟩ := List.head?_eq_some_iff.mp hplus
        rw [if_pos hplus] at hd
        exact Or.inr (by rw [← hd]; rfl)
      · rw [if_neg hplus] at hd
        exact Or.inl ⟨hd, hplus⟩
    by_cases hbad : (digits.isEmpty || !digits.all Char.isDigit) = true
    · rw [if_pos hbad] at h
      cases h
    · rw [if_neg hbad] at h
      obtain ⟨hne, hall⟩ := Bool.or_eq_false_iff.mp (Bool.not_eq_true _ ▸ hbad)
      obtain ⟨hlimit, rfl⟩ := of_guard h
      exact ⟨⟨digits, hs, List.isEmpty_eq_false_iff.mp hne, by simpa using hall, rfl⟩,
        hlimit⟩
  · rintro ⟨⟨digits, hs, hne, hall, rfl⟩, hlimit⟩
    have hread : (if s.head? = some '+' then s.tail else s) = digits := by
      rcases hs with ⟨rfl, hplus⟩ | rfl
      · rw [if_neg hplus]
      · rfl
    have hok : (digits.isEmpty || !digits.all Char.isDigit) = false := by
      rw [hall, List.isEmpty_eq_false_iff.mpr hne]
      rfl
    rw [hread, hok]
    simp only [Bool.false_eq_true, if_false]
    rw [if_pos hlimit]

/-- A time never reaches the bounds of the machine numbers. -/
theorem minutes_iff (s : Str) (n : ℕ) : minutes s = some n ↔ Time s n := by
  constructor
  · intro h
    obtain ⟨⟨a, b⟩, hsplit, hrest⟩ := Option.bind_eq_some_iff.mp h
    obtain ⟨hours, hhours, hrest⟩ := Option.bind_eq_some_iff.mp hrest
    obtain ⟨mins, hmins, hrest⟩ := Option.bind_eq_some_iff.mp hrest
    obtain ⟨heq, hmark⟩ := eq_append_of_splitOnce ':' _ _ _ hsplit
    obtain ⟨hbounds, rfl⟩ := of_guard hrest
    exact ⟨a, b, hours, mins, heq, hmark, ((parseUnsigned_iff _ _ _).mp hhours).1,
      ((parseUnsigned_iff _ _ _).mp hmins).1, hbounds.2.2.1, rfl, hbounds.2.2.2⟩
  · rintro ⟨a, b, hours, mins, heq, hmark, hhours, hmins, hlt, rfl, hle⟩
    have hbig : DAY_MINUTES < 2 ^ 32 := by decide
    have hparts : hours < 2 ^ 32 ∧ mins < 2 ^ 32 ∧ hours * 60 < 2 ^ 32 := by omega
    rw [minutes, heq, splitOnce_append ':' a b hmark]
    simp only [Option.bind_eq_bind, Option.bind_some,
      (parseUnsigned_iff _ a hours).mpr ⟨hhours, hparts.1⟩,
      (parseUnsigned_iff _ b mins).mpr ⟨hmins, hparts.2.1⟩]
    rw [if_pos ⟨hparts.2.2, by omega, hlt, hle⟩]

theorem parseRange_iff (days : Day → Bool) (range : Str) (w : Window) :
    parseRange days range = some w ↔
      ∃ start stop, Range range start stop ∧ w = ⟨days, start, stop⟩ := by
  constructor
  · intro h
    obtain ⟨⟨a, b⟩, hsplit, hrest⟩ := Option.bind_eq_some_iff.mp h
    obtain ⟨start, hstart, hrest⟩ := Option.bind_eq_some_iff.mp hrest
    obtain ⟨stop, hstop, hrest⟩ := Option.bind_eq_some_iff.mp hrest
    obtain ⟨heq, hmark⟩ := eq_append_of_splitOnce '-' _ _ _ hsplit
    obtain ⟨hne, rfl⟩ := of_guard_not hrest
    obtain ⟨hdiff, hmidnight⟩ := not_or.mp hne
    exact ⟨start, stop, ⟨a, b, heq, hmark, (minutes_iff a start).mp hstart,
      (minutes_iff b stop).mp hstop, hdiff, hmidnight⟩, rfl⟩
  · rintro ⟨start, stop, ⟨a, b, heq, hmark, hstart, hstop, hdiff, hmidnight⟩, rfl⟩
    rw [parseRange, heq, splitOnce_append '-' a b hmark]
    simp only [Option.bind_eq_bind, Option.bind_some, (minutes_iff a start).mpr hstart,
      (minutes_iff b stop).mpr hstop]
    rw [if_neg (not_or.mpr ⟨hdiff, hmidnight⟩)]

/-! ### The entries -/

theorem mapM_isSome_iff {α β : Type} (f : α → Option β) (l : List α) :
    (∃ r, l.mapM f = some r) ↔ ∀ a ∈ l, ∃ b, f a = some b := by
  induction l with
  | nil => simp
  | cons a l ih =>
    constructor
    · rintro ⟨r, hr⟩
      rw [List.mapM_cons] at hr
      obtain ⟨b, hb, hrest⟩ := Option.bind_eq_some_iff.mp hr
      obtain ⟨bs, hbs, -⟩ := Option.bind_eq_some_iff.mp hrest
      intro x hx
      rcases List.mem_cons.mp hx with rfl | hx
      · exact ⟨b, hb⟩
      · exact ih.mp ⟨bs, hbs⟩ x hx
    · intro h
      obtain ⟨b, hb⟩ := h a (List.mem_cons_self ..)
      obtain ⟨bs, hbs⟩ := ih.mpr fun x hx => h x (List.mem_cons_of_mem _ hx)
      exact ⟨b :: bs, by rw [List.mapM_cons, hb, hbs]; rfl⟩

theorem mem_mapM_iff {α β : Type} (f : α → Option β) (l : List α) (r : List β)
    (h : l.mapM f = some r) (b : β) : b ∈ r ↔ ∃ a ∈ l, f a = some b := by
  induction l generalizing r with
  | nil =>
    obtain rfl := Option.some.inj h
    simp
  | cons a l ih =>
    rw [List.mapM_cons] at h
    obtain ⟨c, hc, hrest⟩ := Option.bind_eq_some_iff.mp h
    obtain ⟨cs, hcs, hr⟩ := Option.bind_eq_some_iff.mp hrest
    obtain rfl := Option.some.inj hr
    rw [List.mem_cons, ih cs hcs]
    constructor
    · rintro (rfl | ⟨x, hx, hfx⟩)
      · exact ⟨a, List.mem_cons_self .., hc⟩
      · exact ⟨x, List.mem_cons_of_mem _ hx, hfx⟩
    · rintro ⟨x, hx, hfx⟩
      rcases List.mem_cons.mp hx with rfl | hx
      · exact Or.inl (Option.some.inj (hfx.symm.trans hc))
      · exact Or.inr ⟨x, hx, hfx⟩

theorem isNone_iff : eqIgnoreAsciiCase entry "none".toList = true ↔ IsNone entry := by
  have hlower : "none".toList.map Char.toLower = "none".toList := by decide
  rw [eqIgnoreAsciiCase_iff, hlower, IsNone]

theorem splitSpace_iff (spec ranges : Str) :
    splitSpace entry = some (spec, ranges) ↔ Splits entry spec ranges := by
  constructor
  · intro h
    rw [splitSpace] at h
    cases hdrop : entry.dropWhile (fun c => !isWhitespace c) with
    | nil =>
      rw [hdrop] at h
      cases h
    | cons c rest =>
      simp only [hdrop, Option.some.injEq, Prod.mk.injEq] at h
      obtain ⟨rfl, rfl⟩ := h
      have hjoin := List.takeWhile_append_dropWhile (p := fun c => !isWhitespace c) (l := entry)
      rw [hdrop] at hjoin
      refine ⟨c, hjoin.symm, ?_, fun x hx => by simpa using List.mem_takeWhile_imp hx⟩
      have hhead := List.head?_dropWhile_not (fun c => !isWhitespace c) entry
      rw [hdrop] at hhead
      simpa using hhead
  · rintro ⟨c, rfl, hc, hspec⟩
    have hpos : ∀ x ∈ spec, (!isWhitespace x) = true := fun x hx => by rw [hspec x hx]; rfl
    rw [splitSpace, List.dropWhile_append_of_pos hpos, List.takeWhile_append_of_pos hpos]
    simp [hc]

def Window.Holds (w : Window) (m : ℕ) : Prop :=
  ∃ d : Day, w.days d = true ∧
    InArc (7 * DAY_MINUTES) (DAY_MINUTES * d.val + w.start) (duration w.start w.stop) m

structure Window.Fits (w : Window) : Prop where
  start_lt : w.start < DAY_MINUTES
  stop_le : w.stop ≤ DAY_MINUTES
  ne : w.start ≠ w.stop

theorem fits_of_range (days : Day → Bool) (s : Str) (start stop : ℕ) (h : Range s start stop) :
    Window.Fits ⟨days, start, stop⟩ := by
  obtain ⟨a, b, -, -, ⟨_, _, _, _, -, -, -, -, -, -, hstart⟩, ⟨_, _, _, _, -, -, -, -, -, -, hstop⟩,
    hne, hmidnight⟩ := h
  exact ⟨lt_of_le_of_ne hstart hmidnight, hstop, hne⟩

theorem splits_unique (spec ranges spec' ranges' : Str) (h : Splits entry spec ranges)
    (h' : Splits entry spec' ranges') : spec = spec' ∧ ranges = ranges' := by
  have heq := (splitSpace_iff _ _ _).mpr h
  rw [(splitSpace_iff _ _ _).mpr h', Option.some.injEq, Prod.mk.injEq] at heq
  exact ⟨heq.1.symm, heq.2.symm⟩

theorem wellFormed_of_parseEntry (windows : List Window) (h : parseEntry entry = some windows) :
    WellFormed entry ∧ (∀ w ∈ windows, w.Fits) ∧
      ∀ m, (∃ w ∈ windows, w.Holds m) ↔ Covers entry m := by
  rw [parseEntry] at h
  by_cases hnone : IsNone entry
  · rw [if_pos ((isNone_iff entry).mpr hnone)] at h
    obtain rfl := Option.some.inj h
    refine ⟨Or.inl hnone, by simp, fun m => ?_⟩
    simp [Covers, hnone]
  · rw [if_neg (mt (isNone_iff entry).mp hnone)] at h
    obtain ⟨⟨spec, ranges⟩, hsplit, hrest⟩ := Option.bind_eq_some_iff.mp h
    obtain ⟨ds, hds, hmap⟩ := Option.bind_eq_some_iff.mp hrest
    have hsplits := (splitSpace_iff _ _ _).mp hsplit
    obtain ⟨hparts, hdays⟩ := fillParts_some _ _ _ hds
    have hwindows := mem_mapM_iff _ _ _ hmap
    have hranges := (mapM_isSome_iff _ _).mp ⟨windows, hmap⟩
    refine ⟨Or.inr ⟨spec, ranges, hsplits, hparts, ?_⟩, ?_, fun m => ?_⟩
    · intro range hrange
      obtain ⟨w, hw⟩ := hranges range hrange
      obtain ⟨start, stop, hr, -⟩ := (parseRange_iff ds range w).mp hw
      exact ⟨start, stop, hr⟩
    · intro w hw
      obtain ⟨range, -, hparse⟩ := (hwindows w).mp hw
      obtain ⟨start, stop, hr, rfl⟩ := (parseRange_iff ds range w).mp hparse
      exact fits_of_range ds range start stop hr
    · constructor
      · rintro ⟨w, hw, d, hd, harc⟩
        obtain ⟨range, hrange, hparse⟩ := (hwindows w).mp hw
        obtain ⟨start, stop, hr, rfl⟩ := (parseRange_iff ds range w).mp hparse
        obtain hfalse | ⟨part, hpart, days', hdays', hmem⟩ := (hdays d).mp hd
        · cases hfalse
        · exact ⟨hnone, spec, ranges, hsplits, part, hpart, days', hdays', d, hmem, range, hrange,
            start, stop, hr, harc⟩
      · rintro ⟨-, spec', ranges', hsplits', part, hpart, days', hdays', d, hmem, range, hrange,
          start, stop, hr, harc⟩
        obtain ⟨rfl, rfl⟩ := splits_unique _ _ _ _ _ hsplits hsplits'
        exact ⟨⟨ds, start, stop⟩, (hwindows _).mpr ⟨range, hrange,
          (parseRange_iff ds range _).mpr ⟨start, stop, hr, rfl⟩⟩, d,
          (hdays d).mpr (Or.inr ⟨part, hpart, days', hdays', hmem⟩), harc⟩

theorem parseEntry_exists (h : WellFormed entry) : ∃ windows, parseEntry entry = some windows := by
  rw [parseEntry]
  by_cases hnone : IsNone entry
  · rw [if_pos ((isNone_iff entry).mpr hnone)]
    exact ⟨[], rfl⟩
  · rw [if_neg (mt (isNone_iff entry).mp hnone)]
    rcases h with hin | ⟨spec, ranges, hsplit, hparts, hranges⟩
    · exact absurd hin hnone
    · obtain ⟨ds, hds⟩ := fillParts_exists (spec.splitOn ',') (fun _ => false) hparts
      have hwindows : ∀ range ∈ ranges.splitOn ',', ∃ w, parseRange ds range = some w := by
        intro range hrange
        obtain ⟨start, stop, hr⟩ := hranges range hrange
        exact ⟨_, (parseRange_iff ds range _).mpr ⟨start, stop, hr, rfl⟩⟩
      obtain ⟨windows, hmap⟩ := (mapM_isSome_iff _ _).mpr hwindows
      refine ⟨windows, ?_⟩
      simp only [(splitSpace_iff _ _ _).mpr hsplit, Option.bind_eq_bind, Option.bind_some]
      rw [days, hds]
      exact hmap

/-! ### The decision -/

def windowAllows (w : Window) (weekday : Day) (minute : ℕ) : Bool :=
  if w.start < w.stop then w.days weekday && decide (w.start ≤ minute ∧ minute < w.stop)
  else (w.days weekday && decide (w.start ≤ minute)) ||
    (w.days (weekday + 6) && decide (minute < w.stop))

theorem allowedAt_eq (windows : List Window) (weekday : Day) (minute : ℕ) :
    allowedAt windows weekday minute = windows.any fun w => windowAllows w weekday minute := rfl

/-- A window that started on `d` holds a minute of the same day or of the next one. -/
theorem inArc_iff (w : Window) (hw : w.Fits) (d weekday : Day) (minute : ℕ)
    (hm : minute < DAY_MINUTES) :
    InArc (7 * DAY_MINUTES) (DAY_MINUTES * d.val + w.start) (duration w.start w.stop)
        (DAY_MINUTES * weekday.val + minute) ↔
      (d = weekday ∧ w.start ≤ minute ∧ (w.start < w.stop → minute < w.stop)) ∨
        (d = weekday + 6 ∧ w.stop ≤ w.start ∧ minute < w.stop) := by
  obtain ⟨hstart, hstop, hne⟩ := hw
  have hd := d.isLt
  have hweekday := weekday.isLt
  have hyesterday : (weekday + 6).val = (weekday.val + 6) % 7 := Fin.val_add weekday 6
  rw [Fin.ext_iff, Fin.ext_iff, hyesterday, InArc, duration]
  rw [show DAY_MINUTES = 1440 from rfl] at *
  constructor
  · rintro ⟨k, hk, heq⟩
    split at hk
    · left
      omega
    · by_cases hday : d.val = weekday.val
      · left
        omega
      · right
        omega
  · rintro (⟨hday, hle, hlt⟩ | ⟨hday, hle, hlt⟩)
    · refine ⟨minute - w.start, ?_, by omega⟩
      split
      · rename_i h
        have := hlt h
        omega
      · omega
    · refine ⟨minute + 1440 - w.start, ?_, by omega⟩
      rw [if_neg (by omega)]
      omega

theorem windowAllows_iff (w : Window) (hw : w.Fits) (weekday : Day) (minute : ℕ)
    (hm : minute < DAY_MINUTES) :
    windowAllows w weekday minute = true ↔ w.Holds (DAY_MINUTES * weekday.val + minute) := by
  rw [Window.Holds]
  simp only [inArc_iff w hw _ weekday minute hm, windowAllows]
  split
  · rename_i hlt
    rw [Bool.and_eq_true, decide_eq_true_eq]
    constructor
    · rintro ⟨hd, hstart, hstop⟩
      exact ⟨weekday, hd, Or.inl ⟨rfl, hstart, fun _ => hstop⟩⟩
    · rintro ⟨d, hd, ⟨rfl, hstart, hstop⟩ | ⟨-, hle, -⟩⟩
      · exact ⟨hd, hstart, hstop hlt⟩
      · omega
  · rename_i hge
    simp only [Bool.or_eq_true, Bool.and_eq_true, decide_eq_true_eq]
    constructor
    · rintro (⟨hd, hstart⟩ | ⟨hd, hstop⟩)
      · exact ⟨weekday, hd, Or.inl ⟨rfl, hstart, fun hlt => absurd hlt hge⟩⟩
      · exact ⟨weekday + 6, hd, Or.inr ⟨rfl, by omega, hstop⟩⟩
    · rintro ⟨d, hd, ⟨rfl, hstart, -⟩ | ⟨rfl, -, hstop⟩⟩
      · exact Or.inl ⟨hd, hstart⟩
      · exact Or.inr ⟨hd, hstop⟩

theorem parse_spec :
    ((∃ windows, parse value = some windows) ↔ ∀ entry ∈ entries value, WellFormed entry) ∧
      ∀ windows, parse value = some windows → ∀ (weekday : Day) (minute : ℕ),
        minute < DAY_MINUTES →
        (allowedAt windows weekday minute = true ↔
          ∃ entry ∈ entries value, Covers entry (DAY_MINUTES * weekday.val + minute)) := by
  have hparse : ∀ windows, parse value = some windows →
      ∃ lists, (entries value).mapM parseEntry = some lists ∧ windows = lists.flatten := by
    intro windows h
    obtain ⟨lists, hlists, rfl⟩ := Option.map_eq_some_iff.mp h
    exact ⟨lists, hlists, rfl⟩
  constructor
  · constructor
    · rintro ⟨windows, h⟩ entry hentry
      obtain ⟨lists, hlists, -⟩ := hparse windows h
      obtain ⟨ws, hws⟩ := (mapM_isSome_iff _ _).mp ⟨lists, hlists⟩ entry hentry
      exact (wellFormed_of_parseEntry entry ws hws).1
    · intro h
      obtain ⟨lists, hlists⟩ := (mapM_isSome_iff _ _).mpr fun entry hentry =>
        parseEntry_exists entry (h entry hentry)
      exact ⟨lists.flatten, by rw [parse, hlists]; rfl⟩
  · intro windows h weekday minute hm
    obtain ⟨lists, hlists, rfl⟩ := hparse windows h
    have hmem := mem_mapM_iff _ _ _ hlists
    rw [allowedAt_eq, List.any_eq_true]
    constructor
    · rintro ⟨w, hw, hallows⟩
      obtain ⟨ws, hws, hin⟩ := List.mem_flatten.mp hw
      obtain ⟨entry, hentry, heq⟩ := (hmem ws).mp hws
      obtain ⟨-, hfits, hcovers⟩ := wellFormed_of_parseEntry entry ws heq
      exact ⟨entry, hentry, (hcovers _).mp ⟨w, hin,
        (windowAllows_iff w (hfits w hin) weekday minute hm).mp hallows⟩⟩
    · rintro ⟨entry, hentry, hcover⟩
      obtain ⟨ws, heq⟩ := (mapM_isSome_iff _ _).mp ⟨lists, hlists⟩ entry hentry
      obtain ⟨-, hfits, hcovers⟩ := wellFormed_of_parseEntry entry ws heq
      obtain ⟨w, hin, hholds⟩ := (hcovers _).mpr hcover
      exact ⟨w, List.mem_flatten.mpr ⟨ws, (hmem ws).mpr ⟨entry, hentry, heq⟩, hin⟩,
        (windowAllows_iff w (hfits w hin) weekday minute hm).mpr hholds⟩

theorem entries_blank (h : trim value = []) : entries value = [] := by
  have hmark : ';' ∉ value := fun hmem => trim_ne_nil value ';' hmem (by decide) h
  rw [entries, List.splitOn_eq_singleton hmark, List.map_singleton, h]
  rfl

theorem loginBlock_of_not_wellFormed (weekday : Day) (minute : ℕ)
    (h : ¬ ∀ entry ∈ entries value, WellFormed entry) :
    loginBlock value weekday minute = some LOGIN_ERROR := by
  have hblank : ¬ (trim value).isEmpty = true := by
    intro hempty
    rw [entries_blank value (List.isEmpty_iff.mp hempty)] at h
    exact h fun entry hentry => absurd hentry List.not_mem_nil
  have hnone : parse value = none := by
    cases hparse : parse value with
    | none => rfl
    | some windows => exact absurd ((parse_spec value).1.mp ⟨windows, hparse⟩) h
  rw [loginBlock, if_neg hblank, hnone]
  rfl

/-- A setting with a malformed entry is not read and refuses every login. Any other one is read, and
it admits exactly the minutes of the week that lie in a window of some entry, on one of its days. -/
theorem accessHours_spec (value : Str) :
    ((∃ windows, parse value = some windows) ↔ ∀ entry ∈ entries value, WellFormed entry) ∧
    (∀ windows, parse value = some windows → ∀ (weekday : Day) (minute : ℕ),
      minute < DAY_MINUTES →
      (allowedAt windows weekday minute = true ↔
        ∃ entry ∈ entries value, Covers entry (DAY_MINUTES * weekday.val + minute))) ∧
    (¬ (∀ entry ∈ entries value, WellFormed entry) →
      ∀ weekday minute, loginBlock value weekday minute = some LOGIN_ERROR) :=
  ⟨(parse_spec value).1, (parse_spec value).2,
    fun h weekday minute => loginBlock_of_not_wellFormed value weekday minute h⟩

/-- Five in the morning on Monday is in the night that starts on Sunday. -/
theorem accessHours_spec_sample :
    ∃ entry ∈ entries "dom 22:00-06:00".toList, Covers entry (DAY_MINUTES * 0 + 300) := by
  have hsome : (parse "dom 22:00-06:00".toList).any (fun w => allowedAt w 0 300) = true := by
    decide
  obtain ⟨windows, hparse, hallowed⟩ := (Option.any_eq_true _ _).mp hsome
  exact ((accessHours_spec "dom 22:00-06:00".toList).2.1 windows hparse 0 300 (by decide)).mp
    hallowed

end ClantoDesk.AccessHours
