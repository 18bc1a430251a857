import ClantoDesk.SessionLog
import ClantoDesk.SortedMap

/-!
The report on the sessions, `report_json` of src/clanto/session_log.rs. The lines are read once, in
the order of the files. A record that closes its session is replaced by another such record only,
and a session with a line that failed the verification is broken wherever that line stands. The
interval is applied to each record on its own, so a record outside it stands for no session; what
fails outside it still counts.
-/
namespace ClantoDesk.LogReport

open JsonObject SessionLog

/-- The order in which a hash map gives its values. -/
structure HashOrder where
  arrange : List Object → List Object
  perm : ∀ records, (arrange records).Perm records

def asStr : Option Field → Option String
  | some (.text s) => some s
  | _ => none

def sessionKey (record : Object) : Option String := asStr (record.get "session_key")

def closed (record : Object) : Bool := decide (record.get "closed" = some (.other "true"))

def timeText (record : Object) : Option String :=
  asStr ((record.get "started_at").or (record.get "occurred_at"))

/-- `millis` reads a time in the form of RFC 3339. -/
def inInterval (millis : String → Option Int) (fromMs toMs : Int) (record : Object) : Bool :=
  match (timeText record).bind millis with
  | some time =>
    (decide (fromMs ≤ 0) || decide (fromMs ≤ time)) && (decide (toMs ≤ 0) || decide (time ≤ toMs))
  | none => false

/-- A record as the interface gets it: without the chain, with what the verifier said. -/
def shown (o : Object) (verdict : Option Bool) : Object :=
  let record := ((o.remove "_seq").remove "_prev").remove "_hash"
  match verdict with
  | some ok => record.insert "integrity" (.text (if ok then "ok" else "broken"))
  | none => record

/-- `broken` are the keys of the sessions in which a line failed. -/
structure Report where
  sessions : SortedMap String Object
  broken : List String
  records : List Object

def noteBroken (self : Report) (record : Object) (verdict : Option Bool) : Report :=
  match verdict, sessionKey record with
  | some false, some key => { self with broken := key :: self.broken }
  | _, _ => self

def replaces (old : Option Object) (record : Object) : Bool :=
  !(old.elim false closed) || closed record

def keep (self : Report) (record : Object) : Report :=
  match sessionKey record with
  | some key =>
    if replaces (self.sessions.get key) record then
      { self with sessions := self.sessions.insert key record }
    else self
  | none => { self with records := self.records ++ [record] }

def addRecord (millis : String → Option Int) (fromMs toMs : Int) (self : Report) (o : Object)
    (verdict : Option Bool) : Report :=
  let record := shown o verdict
  let self := noteBroken self record verdict
  if inInterval millis fromMs toMs record then keep self record else self

def addLine (lib : Library) (key : Bool) (millis : String → Option Int) (fromMs toMs : Int)
    (self : ChainVerifier × Report) (line : String) : ChainVerifier × Report :=
  let opened := openLine lib key line
  let (verdict, verifier) := check lib self.1 opened
  match opened with
  | some (.object o) => (verifier, addRecord millis fromMs toMs self.2 o verdict)
  | _ => (verifier, self.2)

/-- The order of the report: the newest first, records without a time last. -/
def newer (left right : Object) : Bool :=
  match timeText left, timeText right with
  | _, none => true
  | none, some _ => false
  | some l, some r => decide (r ≤ l)

def markBroken (broken : List String) (session : String × Object) : Object :=
  if session.1 ∈ broken then session.2.insert "integrity" (.text "broken") else session.2

/-- A file that cannot be read is passed over. -/
def reportJson (lib : Library) (key : Bool) (millis : String → Option Int) (order : HashOrder)
    (files : List (Option (List String))) (fromMs toMs : Int) : List Object :=
  let lines := (files.filterMap id).flatten
  let report := (lines.foldl (addLine lib key millis fromMs toMs)
    (⟨none, false⟩, ⟨SortedMap.empty, [], []⟩)).2
  let sessions := report.sessions.entries.map (markBroken report.broken)
  (report.records ++ order.arrange sessions).insertionSort fun left right => newer left right = true

/-- The objects on the lines, each with the answer of the verifier to its line. -/
def judged (lib : Library) (self : ChainVerifier) (opened : List (Option Json)) :
    List (Object × Option Bool) :=
  (opened.zip (verify lib self opened)).filterMap fun p =>
    match p.1 with
    | some (.object o) => some (o, p.2)
    | _ => none

variable (broken : List String) (session : String × Object) (own : List (Object × Option Bool))
  (self : Report) (o record : Object) (verdict : Option Bool) (millis : String → Option Int)
  (fromMs toMs : Int)

theorem get_shown (key : String) (hkey : key ∉ ["_seq", "_prev", "_hash", "integrity"]) :
    (shown o verdict).get key = o.get key := by
  simp only [List.mem_cons, List.not_mem_nil, or_false, not_or] at hkey
  obtain ⟨hseq, hprev, hhash, hintegrity⟩ := hkey
  have hstrip : (((o.remove "_seq").remove "_prev").remove "_hash").get key = o.get key := by
    rw [Object.get_remove_other _ _ _ hhash, Object.get_remove_other _ _ _ hprev,
      Object.get_remove_other _ _ _ hseq]
  cases verdict with
  | none => exact hstrip
  | some ok => exact (Object.get_insert_other _ _ _ _ hintegrity).trans hstrip

@[simp] theorem sessionKey_shown (o : Object) (verdict : Option Bool) :
    sessionKey (shown o verdict) = sessionKey o := by
  rw [sessionKey, get_shown o verdict "session_key" (by decide), sessionKey]

@[simp] theorem closed_shown (o : Object) (verdict : Option Bool) :
    closed (shown o verdict) = closed o := by
  rw [closed, get_shown o verdict "closed" (by decide), closed]

@[simp] theorem inInterval_shown (millis : String → Option Int) (fromMs toMs : Int) (o : Object)
    (verdict : Option Bool) :
    inInterval millis fromMs toMs (shown o verdict) = inInterval millis fromMs toMs o := by
  have htime : timeText (shown o verdict) = timeText o := by
    rw [timeText, get_shown o verdict "started_at" (by decide),
      get_shown o verdict "occurred_at" (by decide), timeText]
  rw [inInterval, htime, inInterval]

/-- The loop over the lines is a loop over the objects on them. -/
theorem foldl_addLine (lib : Library) (key : Bool) (millis : String → Option Int)
    (fromMs toMs : Int) (lines : List String) (verifier : ChainVerifier) (report : Report) :
    (lines.foldl (addLine lib key millis fromMs toMs) (verifier, report)).2 =
      (judged lib verifier (lines.map (openLine lib key))).foldl
        (fun self p => addRecord millis fromMs toMs self p.1 p.2) report := by
  induction lines generalizing verifier report with
  | nil => rfl
  | cons line rest ih =>
    simp only [List.foldl_cons, List.map_cons, judged, verify, List.zip_cons_cons]
    cases hopen : openLine lib key line with
    | none =>
      simp only [addLine, hopen]
      exact ih _ _
    | some value =>
      cases value with
      | other json =>
        simp only [addLine, hopen]
        exact ih _ _
      | object o =>
        simp only [addLine, hopen]
        exact ih _ _

def ownRecords (millis : String → Option Int) (fromMs toMs : Int) (session : String)
    (judged : List (Object × Option Bool)) : List (Object × Option Bool) :=
  judged.filter fun p => decide (sessionKey p.1 = some session) && inInterval millis fromMs toMs p.1

/-- The last closing record, or the last record when none closes the session. -/
def lastRecord (own : List (Object × Option Bool)) : Option (Object × Option Bool) :=
  ((own.filter fun p => closed p.1).getLast?).or own.getLast?

def pick (old : Option Object) (record : Object) : Option Object :=
  if replaces old record then some record else old

theorem foldl_pick :
    (own.map fun p => shown p.1 p.2).foldl pick none =
      (lastRecord own).map fun p => shown p.1 p.2 := by
  induction own using List.reverseRecOn with
  | nil => rfl
  | append_singleton own p ih =>
    rw [List.map_append, List.foldl_append, ih]
    simp only [List.map_cons, List.map_nil, List.foldl_cons, List.foldl_nil, pick, replaces,
      closed_shown, lastRecord, List.filter_append, List.getLast?_concat]
    by_cases hclosed : closed p.1 = true
    · simp [hclosed]
    · have hlast : (own.filter fun p => closed p.1).getLast? = none ↔
          (own.filter fun p => closed p.1) = [] := List.getLast?_eq_none_iff
      cases hold : (own.filter fun p => closed p.1).getLast? with
      | some q =>
        have hq : closed q.1 = true := (List.mem_filter.mp (List.mem_of_getLast? hold)).2
        simp [hclosed, hq, hold]
      | none =>
        have hopen : ∀ q ∈ own.getLast?, closed q.1 = false := by
          intro q hq
          have hnot := List.filter_eq_nil_iff.mp (hlast.mp hold) q (List.mem_of_getLast? hq)
          simpa using hnot
        cases hown : own.getLast? with
        | none => simp [hclosed, hold]
        | some q =>
          have hq := hopen q hown
          simp [hclosed, hold, hq]

theorem sessions_noteBroken : (noteBroken self record verdict).sessions = self.sessions := by
  unfold noteBroken
  split
  · rfl
  · rfl

theorem records_noteBroken : (noteBroken self record verdict).records = self.records := by
  unfold noteBroken
  split
  · rfl
  · rfl

theorem broken_keep : (keep self record).broken = self.broken := by
  unfold keep
  split
  · split
    · rfl
    · rfl
  · rfl

theorem mem_broken_noteBroken
    (session : String) : session ∈ (noteBroken self record verdict).broken ↔
      session ∈ self.broken ∨ verdict = some false ∧ sessionKey record = some session := by
  unfold noteBroken
  split
  · rename_i key hkey
    simp only [List.mem_cons, hkey, Option.some.injEq, true_and]
    rw [or_comm, eq_comm]
  · rename_i hnone
    refine (or_iff_left ?_).symm
    intro h
    exact hnone session h.1 h.2

theorem mem_broken_addRecord (self : Report)
    (o : Object) (verdict : Option Bool) (session : String) :
    session ∈ (addRecord millis fromMs toMs self o verdict).broken ↔
      session ∈ self.broken ∨ verdict = some false ∧ sessionKey o = some session := by
  have hnoted := mem_broken_noteBroken self (shown o verdict) verdict session
  rw [sessionKey_shown] at hnoted
  rw [← hnoted, addRecord]
  split
  · rw [broken_keep]
  · rfl

theorem mem_broken_foldl (judged : List (Object × Option Bool)) (self : Report) (session : String) :
    session ∈ (judged.foldl (fun self p => addRecord millis fromMs toMs self p.1 p.2) self).broken ↔
      session ∈ self.broken ∨
        ∃ p ∈ judged, p.2 = some false ∧ sessionKey p.1 = some session := by
  induction judged generalizing self with
  | nil => simp
  | cons p rest ih =>
    rw [List.foldl_cons, ih, mem_broken_addRecord, or_assoc]
    simp only [List.mem_cons, exists_eq_or_imp]

theorem get_keep (session : String) :
    (keep self record).sessions.get session =
      if sessionKey record = some session then pick (self.sessions.get session) record
      else self.sessions.get session := by
  unfold keep
  split
  · rename_i key hkey
    rw [hkey]
    by_cases heq : key = session
    · subst heq
      rw [if_pos rfl, pick]
      split
      · exact SortedMap.get_insert_self ..
      · rfl
    · have hne : some key ≠ some session := by simpa using heq
      rw [if_neg hne]
      split
      · exact SortedMap.get_insert_other _ _ _ _ (Ne.symm heq)
      · rfl
  · rename_i hnone
    rw [hnone, if_neg (by simp)]

theorem get_foldl (judged : List (Object × Option Bool)) (self : Report) (session : String) :
    (judged.foldl (fun self p => addRecord millis fromMs toMs self p.1 p.2) self).sessions.get
        session =
      ((ownRecords millis fromMs toMs session judged).map fun p => shown p.1 p.2).foldl pick
        (self.sessions.get session) := by
  induction judged generalizing self with
  | nil => rfl
  | cons p rest ih =>
    have hone : (addRecord millis fromMs toMs self p.1 p.2).sessions.get session =
        if decide (sessionKey p.1 = some session) && inInterval millis fromMs toMs p.1 then
          pick (self.sessions.get session) (shown p.1 p.2)
        else self.sessions.get session := by
      rw [addRecord, inInterval_shown]
      by_cases hin : inInterval millis fromMs toMs p.1 = true
      · rw [if_pos hin, get_keep, sessions_noteBroken, sessionKey_shown]
        simp [hin]
      · rw [if_neg hin, sessions_noteBroken]
        simp [hin]
    rw [List.foldl_cons, ih, hone, ownRecords, ownRecords, List.filter_cons]
    split
    · rw [List.map_cons, List.foldl_cons]
    · rfl

structure Filed (report : Report) : Prop where
  sessions : ∀ e ∈ report.sessions.entries, sessionKey e.2 = some e.1
  records : ∀ record ∈ report.records, sessionKey record = none

theorem filed_keep (h : Filed self) : Filed (keep self record) := by
  unfold keep
  split
  · rename_i key hkey
    split
    · refine ⟨?_, h.records⟩
      intro e he
      rcases SortedMap.mem_insertEntry key record self.sessions.entries e he with rfl | hold
      · exact hkey
      · exact h.sessions e hold
    · exact h
  · rename_i hnone
    refine ⟨h.sessions, ?_⟩
    intro other hother
    rcases List.mem_append.mp hother with hold | hnew
    · exact h.records other hold
    · rw [List.mem_singleton.mp hnew]
      exact hnone

theorem filed_addRecord (self : Report) (o : Object) (verdict : Option Bool) (h : Filed self) :
    Filed (addRecord millis fromMs toMs self o verdict) := by
  have hnoted : Filed (noteBroken self (shown o verdict) verdict) := by
    refine ⟨?_, ?_⟩
    · rw [sessions_noteBroken]
      exact h.sessions
    · rw [records_noteBroken]
      exact h.records
  rw [addRecord]
  split
  · exact filed_keep _ _ hnoted
  · exact hnoted

theorem filed_foldl (judged : List (Object × Option Bool)) (self : Report) (h : Filed self) :
    Filed (judged.foldl (fun self p => addRecord millis fromMs toMs self p.1 p.2) self) := by
  induction judged generalizing self with
  | nil => exact h
  | cons p rest ih => exact ih _ (filed_addRecord millis fromMs toMs self p.1 p.2 h)

theorem sessionKey_markBroken : sessionKey (markBroken broken session) = sessionKey session.2 := by
  unfold markBroken
  split
  · rw [sessionKey, Object.get_insert_other _ _ _ _ (by decide), sessionKey]
  · rfl

theorem filter_collected (order : HashOrder) (report : Report) (h : Filed report)
    (session : String) :
    ((report.records ++ order.arrange (report.sessions.entries.map (markBroken report.broken))
        ).insertionSort fun left right => newer left right = true).filter
        (fun o => decide (sessionKey o = some session)) =
      ((report.sessions.get session).map fun o =>
        markBroken report.broken (session, o)).toList := by
  have hrecords : report.records.filter (fun o => decide (sessionKey o = some session)) = [] := by
    apply List.filter_eq_nil_iff.mpr
    intro record hrecord
    rw [h.records record hrecord]
    simp
  have hsessions : (report.sessions.entries.map (markBroken report.broken)).filter
      (fun o => decide (sessionKey o = some session)) =
      (report.sessions.entries.filter fun e => decide (e.1 = session)).map
        (markBroken report.broken) := by
    rw [List.filter_map]
    congr 1
    apply List.filter_congr
    intro e he
    simp only [Function.comp, sessionKey_markBroken, h.sessions e he, Option.some.injEq]
  have hperm := (List.perm_insertionSort (fun left right => newer left right = true)
    (report.records ++ order.arrange (report.sessions.entries.map
      (markBroken report.broken)))).filter fun o => decide (sessionKey o = some session)
  rw [List.filter_append, hrecords, List.nil_append] at hperm
  have harranged := (order.perm (report.sessions.entries.map (markBroken report.broken))).filter
    fun o => decide (sessionKey o = some session)
  rw [hsessions, SortedMap.filter_entries] at harranged
  have hall := hperm.trans harranged
  cases hget : report.sessions.get session with
  | none =>
    rw [hget] at hall
    exact hall.eq_nil
  | some o =>
    rw [hget] at hall
    exact hall.eq_singleton

def judgedLines (lib : Library) (key : Bool) (files : List (Option (List String))) :
    List (Object × Option Bool) :=
  judged lib ⟨none, false⟩ (((files.filterMap id).flatten).map (openLine lib key))

def Failed (judged : List (Object × Option Bool)) (session : String) : Prop :=
  ∃ p ∈ judged, p.2 = some false ∧ sessionKey p.1 = some session

instance (judged : List (Object × Option Bool)) (session : String) :
    Decidable (Failed judged session) :=
  inferInstanceAs (Decidable (∃ p ∈ judged, p.2 = some false ∧ sessionKey p.1 = some session))

def entriesOf (session : String) (report : List Object) : List Object :=
  report.filter fun o => decide (sessionKey o = some session)

def Flagged (o : Object) : Prop := o.get "integrity" = some (.text "broken")

instance (o : Object) : Decidable (Flagged o) :=
  inferInstanceAs (Decidable (o.get "integrity" = some (.text "broken")))

theorem lastRecord_eq_none (h : lastRecord own = none) : own = [] := by
  rw [lastRecord, Option.or_eq_none_iff] at h
  exact List.getLast?_eq_none_iff.mp h.2

/-- Lines of the chain say what the verifier said; others say what they brought. -/
theorem flagged_shown :
    Flagged (shown o verdict) ↔ verdict = some false ∨ verdict = none ∧ Flagged o := by
  cases verdict with
  | none =>
    have hget : (shown o none).get "integrity" = o.get "integrity" := by
      simp only [shown, Object.get_remove_other _ "_hash" "integrity" (by decide),
        Object.get_remove_other _ "_prev" "integrity" (by decide),
        Object.get_remove_other _ "_seq" "integrity" (by decide)]
    simp [Flagged, hget]
  | some ok => cases ok <;> simp [Flagged, shown]

theorem remove_shown :
    (shown o verdict).remove "integrity" = (shown o none).remove "integrity" := by
  cases verdict with
  | none => rfl
  | some ok => exact Object.remove_insert _ _ _

theorem remove_markBroken :
    (markBroken broken session).remove "integrity" = session.2.remove "integrity" := by
  unfold markBroken
  split
  · exact Object.remove_insert _ _ _
  · rfl

theorem flagged_markBroken :
    Flagged (markBroken broken session) ↔ session.1 ∈ broken ∨ Flagged session.2 := by
  unfold markBroken
  split
  · rename_i hmem
    simp [Flagged, hmem]
  · rename_i hnot
    exact (or_iff_right hnot).symm

def collected (millis : String → Option Int) (fromMs toMs : Int)
    (judged : List (Object × Option Bool)) : Report :=
  judged.foldl (fun self p => addRecord millis fromMs toMs self p.1 p.2) ⟨SortedMap.empty, [], []⟩

theorem filed_collected
    (judged : List (Object × Option Bool)) : Filed (collected millis fromMs toMs judged) := by
  apply filed_foldl
  refine ⟨?_, ?_⟩
  · intro e he
    cases he
  · intro record hrecord
    cases hrecord

theorem mem_broken_collected (judged : List (Object × Option Bool)) (session : String) :
    session ∈ (collected millis fromMs toMs judged).broken ↔ Failed judged session := by
  rw [collected, mem_broken_foldl]
  exact or_iff_right (List.not_mem_nil)

theorem entriesOf_reportJson (lib : Library) (key : Bool) (millis : String → Option Int)
    (order : HashOrder) (files : List (Option (List String))) (fromMs toMs : Int)
    (session : String) :
    entriesOf session (reportJson lib key millis order files fromMs toMs) =
      ((lastRecord (ownRecords millis fromMs toMs session (judgedLines lib key files))).map fun p =>
        markBroken (collected millis fromMs toMs (judgedLines lib key files)).broken
          (session, shown p.1 p.2)).toList := by
  have hget : (collected millis fromMs toMs (judgedLines lib key files)).sessions.get session =
      (lastRecord (ownRecords millis fromMs toMs session (judgedLines lib key files))).map
        fun p => shown p.1 p.2 := by
    rw [collected, get_foldl, SortedMap.get_empty, foldl_pick]
  have hall := filter_collected order _ (filed_collected millis fromMs toMs
    (judgedLines lib key files)) session
  rw [hget, Option.map_map] at hall
  rw [entriesOf, reportJson, foldl_addLine]
  exact hall

theorem mem_of_lastRecord (p : Object × Option Bool) (h : lastRecord own = some p) : p ∈ own := by
  rw [lastRecord, Option.or_eq_some_iff] at h
  rcases h with hclosing | ⟨-, hlast⟩
  · exact (List.mem_filter.mp (List.mem_of_getLast? hclosing)).1
  · exact List.mem_of_getLast? hlast

/-- A session has one entry in the report when some record of it passes the filter, and none
otherwise. The entry is the last closing record among those that pass, or else the last of them, and
it is flagged when some line of the session failed, wherever it is. A record outside the chain
keeps the flag it came with. -/
theorem reportJson_entry (lib : Library) (key : Bool) (millis : String → Option Int)
    (order : HashOrder) (files : List (Option (List String))) (fromMs toMs : Int)
    (session : String) :
    let judged := judgedLines lib key files
    let own := ownRecords millis fromMs toMs session judged
    let entries := entriesOf session (reportJson lib key millis order files fromMs toMs)
    (own = [] → entries = []) ∧
      (own ≠ [] → ∃ p o, lastRecord own = some p ∧ entries = [o] ∧
        o.remove "integrity" = (shown p.1 none).remove "integrity" ∧
        (Flagged o ↔ Failed judged session ∨ p.2 = none ∧ Flagged p.1)) := by
  intro judged own entries
  have hentries : entries = _ := entriesOf_reportJson lib key millis order files fromMs toMs session
  have hbroken := mem_broken_collected millis fromMs toMs judged session
  refine ⟨?_, ?_⟩
  · intro hnone
    change ownRecords millis fromMs toMs session (judgedLines lib key files) = [] at hnone
    rw [hentries, hnone]
    rfl
  · intro hsome
    obtain ⟨p, hp⟩ := Option.ne_none_iff_exists'.mp fun h => hsome (lastRecord_eq_none own h)
    change lastRecord (ownRecords millis fromMs toMs session (judgedLines lib key files)) = _ at hp
    rw [hp] at hentries
    obtain ⟨hin, hpassed⟩ := List.mem_filter.mp (mem_of_lastRecord own p hp)
    rw [Bool.and_eq_true, decide_eq_true_eq] at hpassed
    refine ⟨p, _, hp, hentries, ?_, ?_⟩
    · exact (remove_markBroken _ _).trans (remove_shown p.1 p.2)
    · rw [flagged_markBroken, hbroken, flagged_shown]
      constructor
      · intro h
        rcases h with hfailed | hbad | hcarried
        · exact Or.inl hfailed
        · exact Or.inl ⟨p, hin, hbad, hpassed.1⟩
        · exact Or.inr hcarried
      · intro h
        rcases h with hfailed | hcarried
        · exact Or.inl hfailed
        · exact Or.inr (Or.inr hcarried)

def sampleRecord (started : String) (close : String) (more : Fields) : Fields :=
  [("closed", .other close)] ++ more ++
    [("session_key", .text "7:a"), ("started_at", .text started)]

def closing : Object :=
  ⟨sampleRecord "2026-01-01T00:00:00+00:00" "true" [], by unfold Sorted; decide⟩

def reopened : Object :=
  ⟨sampleRecord "2026-01-02T00:00:00+00:00" "false" [], by unfold Sorted; decide⟩

def marked : Object :=
  ⟨sampleRecord "2026-01-02T00:00:00+00:00" "false" [("integrity", .text "broken")],
    by unfold Sorted; decide⟩

def sampleTable : List (String × Object) :=
  [("\x7b\"closed\":true,\"session_key\":\"7:a\",\"started_at\":\"2026-01-01T00:00:00+00:00\"\x7d",
      closing),
    ("\x7b\"closed\":false,\"session_key\":\"7:a\",\"started_at\":" ++
      "\"2026-01-02T00:00:00+00:00\"\x7d", reopened),
    ("\x7b\"closed\":false,\"integrity\":\"broken\",\"session_key\":\"7:a\",\"started_at\":" ++
      "\"2026-01-02T00:00:00+00:00\"\x7d", marked)]

def plainLibrary : Library where
  render o := ((sampleTable.find? fun p => decide (p.2 = o)).map fun p => p.1).getD ""
  parse text := (sampleTable.find? fun p => decide (p.1 = text)).map fun p => .object p.2
  encrypt text := text
  decrypt line := (line, false)
  sha256 text := text

def sampleMillis (text : String) : Option Int :=
  if text = "2026-01-01T00:00:00+00:00" then some 1767225600000
  else if text = "2026-01-02T00:00:00+00:00" then some 1767312000000
  else none

def sampleOrder : HashOrder := ⟨id, fun _ => List.Perm.refl _⟩

def sampleFile (objects : List Object) : Option (List String) :=
  some (objects.map plainLibrary.render)

/-- The closing record of the session is outside the interval and the entry is another record; a
record without a chain brings its own flag. -/
theorem closing_outside_interval :
    (lastRecord ((judgedLines plainLibrary true [sampleFile [closing, reopened]]).filter fun p =>
        decide (sessionKey p.1 = some "7:a")) = some (closing, none) ∧
      ∃ o, entriesOf "7:a" (reportJson plainLibrary true sampleMillis sampleOrder
          [sampleFile [closing, reopened]] 1767300000000 0) = [o] ∧
        o.remove "integrity" ≠ (shown closing none).remove "integrity") ∧
    ∃ o, entriesOf "7:a" (reportJson plainLibrary true sampleMillis sampleOrder
        [sampleFile [marked]] 0 0) = [o] ∧ Flagged o ∧
      ¬ Failed (judgedLines plainLibrary true [sampleFile [marked]]) "7:a" := by
  refine ⟨⟨by decide +kernel, reopened, by decide +kernel, by decide +kernel⟩,
    marked, by decide +kernel, by decide +kernel, by decide +kernel⟩

/-! ### The report on the log of the writer -/

end ClantoDesk.LogReport
