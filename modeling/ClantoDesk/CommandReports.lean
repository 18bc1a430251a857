import ClantoDesk.DeviceCommands
import ClantoDesk.Text
import Mathlib.Algebra.Order.Ring.Int

/-!
The reports of the command channel, src/clanto/device_commands.rs, over whole lists of commands.
The report cuts the detail of a result to 1024 bytes, which ends the channel when the cut
falls inside a character. Details that long come from the server alone: it names the error of an
upload. A command whose execution panics, or without an id, is not recorded either.
-/
namespace ClantoDesk.CommandReports

open Runs DeviceCommands Text TenantKeys

def Cuttable (text : String) : Prop :=
  byteLength text.toList ≤ 1024 ∨ ∃ front, front <+: text.toList ∧ byteLength front = 1024

theorem byteLength_cons (c : Char) (cs : Str) :
    byteLength (c :: cs) = c.utf8Size + byteLength cs := by
  simp [byteLength]

theorem truncate_succ (n : ℕ) (c : Char) (cs : Str) : truncate (n + 1) (c :: cs) =
    if c.utf8Size ≤ n + 1 then (truncate (n + 1 - c.utf8Size) cs).map (c :: ·) else none := by
  rfl

/-- The cut is possible exactly at the end of a character or of the text. -/
theorem truncate_isSome_iff (n : ℕ) (cs : Str) :
    (truncate n cs).isSome = true ↔
      byteLength cs ≤ n ∨ ∃ front, front <+: cs ∧ byteLength front = n := by
  induction cs generalizing n with
  | nil =>
    rw [truncate_nil]
    exact iff_of_true rfl (Or.inl (Nat.zero_le n))
  | cons c cs ih =>
    have hpos : 0 < c.utf8Size := c.utf8Size_pos
    cases n with
    | zero => exact iff_of_true rfl (Or.inr ⟨[], List.nil_prefix, rfl⟩)
    | succ n =>
      rw [truncate_succ, byteLength_cons]
      by_cases hfits : c.utf8Size ≤ n + 1
      · rw [if_pos hfits, Option.isSome_map, ih]
        constructor
        · intro h
          rcases h with hshort | ⟨front, hfront, hlength⟩
          · left
            omega
          · right
            refine ⟨c :: front, List.cons_prefix_cons.mpr ⟨rfl, hfront⟩, ?_⟩
            rw [byteLength_cons, hlength]
            omega
        · intro h
          rcases h with hshort | ⟨front, hfront, hlength⟩
          · left
            omega
          · right
            cases front with
            | nil =>
              simp [byteLength] at hlength
            | cons c' front =>
              obtain ⟨rfl, hrest⟩ := List.cons_prefix_cons.mp hfront
              refine ⟨front, hrest, ?_⟩
              rw [byteLength_cons] at hlength
              omega
      · rw [if_neg hfits]
        refine iff_of_false (by simp) ?_
        intro h
        rcases h with hshort | ⟨front, hfront, hlength⟩
        · omega
        · cases front with
          | nil =>
            simp [byteLength] at hlength
          | cons c' front =>
            obtain ⟨rfl, -⟩ := List.cons_prefix_cons.mp hfront
            rw [byteLength_cons] at hlength
            omega

theorem truncate_of_cuttable (text : String) (h : Cuttable text) :
    ∃ detail, truncate 1024 text.toList = some detail :=
  Option.isSome_iff_exists.mp ((truncate_isSome_iff 1024 text.toList).mpr h)

/-- Only the error of an upload of logs can be a text that the channel does not choose. -/
theorem cuttable_execute (d : Delivery) (cmd : Command)
    (h : cmd.kind = "collect_logs" → ∀ err, d.sendDiagnostics cmd.id = .error err → Cuttable err) :
    Cuttable (execute d cmd).1.detail := by
  have hshort : ∀ text ∈ ["update check started", "updater not available", "",
      "session not open on this device", "state not saved"], Cuttable text := by
    intro text htext
    left
    exact of_decide_eq_true (List.all_eq_true.mp (by decide : (["update check started",
      "updater not available", "", "session not open on this device", "state not saved"].all
      fun text => decide (byteLength text.toList ≤ 1024)) = true) text htext)
  unfold execute
  split
  · simp only
    split
    · exact hshort _ (by simp [Outcome.new])
    · exact hshort _ (by simp [Outcome.new])
  split
  · exact hshort _ (by simp [Outcome.new])
  split
  · exact hshort _ (by simp [Outcome.new])
  split
  · simp only
    split
    · exact hshort _ (by simp [Outcome.new])
    · exact hshort _ (by simp [Outcome.new])
  split
  · rename_i hkind
    split
    · exact hshort _ (by simp)
    · rename_i err herr
      exact h hkind err herr
  split
  · simp only
    split
    · exact hshort _ (by simp [Outcome.new])
    · exact hshort _ (by simp [Outcome.new])
  · exact hshort _ (by simp [Outcome.new])

theorem cuttable_openCommand (readCommand : Bytes → Option Command) (d : Delivery)
    (deviceId : String) (id : Option String) (outcome : Outcome)
    (h : openCommand readCommand d deviceId = .error (id, outcome)) : Cuttable outcome.detail := by
  have hshort : ∀ text ∈ ["unsigned", "signature", "invalid_payload", "device_mismatch", ""],
      Cuttable text := by
    intro text htext
    left
    exact of_decide_eq_true (List.all_eq_true.mp (by decide : (["unsigned", "signature",
      "invalid_payload", "device_mismatch", ""].all
      fun text => decide (byteLength text.toList ≤ 1024)) = true) text htext)
  have houtcome : ∀ state detail, detail ∈ ["unsigned", "signature", "invalid_payload",
      "device_mismatch", ""] → outcome = Outcome.new state detail → Cuttable outcome.detail := by
    intro state detail hmem heq
    rw [heq]
    exact hshort detail hmem
  unfold openCommand at h
  split at h
  · exact houtcome "rejected" "unsigned" (by simp) (Prod.mk.inj (Except.error.inj h)).2.symm
  split at h
  · exact houtcome "rejected" "signature" (by simp) (Prod.mk.inj (Except.error.inj h)).2.symm
  split at h
  · exact houtcome "rejected" "invalid_payload" (by simp) (Prod.mk.inj (Except.error.inj h)).2.symm
  unfold check at h
  split at h
  · exact houtcome "rejected" "device_mismatch" (by simp) (Prod.mk.inj (Except.error.inj h)).2.symm
  split at h
  · exact houtcome "expired" "" (by simp) (Prod.mk.inj (Except.error.inj h)).2.symm
  · cases h

/-- A report that can be cut adds a post when the address of the server is known. -/
theorem report_of_cuttable (d : Delivery) (id : String) (outcome : Outcome) (s : State)
    (h : d.apiUrl = true → Cuttable outcome.detail) :
    ∃ detail posts, report d id outcome s = { s with posts := s.posts ++ posts } ∧
      (d.apiUrl = true → truncate 1024 outcome.detail.toList = some detail ∧
        posts = [⟨id, outcome.state, d.now,
          if detail = [] then none else some (String.ofList detail), outcome.data⟩]) := by
  unfold report
  by_cases hurl : d.apiUrl = true
  · obtain ⟨detail, hdetail⟩ := truncate_of_cuttable outcome.detail (h hurl)
    rw [if_pos hurl, hdetail]
    exact ⟨detail, _, rfl, fun _ => ⟨rfl, rfl⟩⟩
  · rw [if_neg hurl]
    exact ⟨[], [], by simp, fun hon => absurd hon hurl⟩

variable (readCommand : Bytes → Option Command)

/-- The channel goes on, and the command asked for, if it is not among those done, is so now and
its result is the last that was posted. -/
def Recorded (s : State) (d : Delivery) : Prop :=
  (handle readCommand d s).running = true ∧
    ∀ cmd, asked readCommand d = some cmd → cmd.id ∉ s.done →
      cmd.id ∈ (handle readCommand d s).done ∧
        (d.apiUrl = true → ∃ detail,
          truncate 1024 (execute d cmd).1.detail.toList = some detail ∧
            (handle readCommand d s).posts.getLast? = some ⟨cmd.id, (execute d cmd).1.state, d.now,
              if detail = [] then none else some (String.ofList detail), (execute d cmd).1.data⟩)

/-- A command to be executed has an id and does not panic, and the error of an upload of logs can
be cut when there is a server to report it to. -/
def Reportable (s : State) (d : Delivery) : Prop :=
  ∀ cmd, asked readCommand d = some cmd → cmd.id ∉ s.done →
    d.panics = false ∧ cmd.id ≠ "" ∧
      (d.apiUrl = true → cmd.kind = "collect_logs" → ∀ err,
        d.sendDiagnostics cmd.id = .error err → Cuttable err)

variable (s : State) (d : Delivery) (cmd : Command)

theorem mem_remember (id : String) (done : List String) : id ∈ remember id done := by
  have hle : (done ++ [id]).length - REMEMBERED_IDS ≤ done.length := by
    rw [List.length_append, List.length_singleton, REMEMBERED_IDS]
    omega
  rw [remember, List.drop_append_of_le_length hle]
  simp

/-- A delivery that asks for no new command does not end the channel. -/
theorem running_of_done (hrunning : s.running = true)
    (h : ∀ cmd, asked readCommand d = some cmd → cmd.id ∈ s.done) :
    (handle readCommand d s).running = true := by
  cases henrolled : d.enrolled with
  | none =>
    simp only [handle, henrolled]
    exact hrunning
  | some deviceId =>
    cases hopen : openCommand readCommand d deviceId with
    | error e =>
      rcases e with ⟨id | id, outcome⟩
      · simp only [handle, henrolled, hopen]
        exact hrunning
      · obtain ⟨detail, posts, hreport, -⟩ := report_of_cuttable d id outcome s fun _ =>
          cuttable_openCommand readCommand d deviceId (some id) outcome hopen
        simp only [handle, henrolled, hopen, hreport]
        exact hrunning
    | ok cmd =>
      have hdone : cmd.id ∈ s.done := h cmd (by simp [asked, henrolled, hopen])
      simp only [handle, henrolled, hopen, if_pos hdone]
      exact hrunning

theorem handle_of_new (hasked : asked readCommand d = some cmd) (hnew : cmd.id ∉ s.done) :
    ∃ posts, handle readCommand d s = finish d cmd (execute d cmd).1
      { s with
        posts := posts
        executed := s.executed ++ [cmd]
        effects := s.effects ++ (execute d cmd).2 } := by
  unfold asked at hasked
  obtain ⟨deviceId, henrolled, hopened⟩ := Option.bind_eq_some_iff.mp hasked
  split at hopened
  · rename_i cmd' hopen
    obtain rfl := Option.some.inj hopened
    obtain ⟨posts, hposts⟩ := report_accepted d cmd'.id s
    refine ⟨posts, ?_⟩
    simp only [handle, henrolled, hopen, if_neg hnew, hposts]
  · cases hopened

/-- A command that can be reported is finished: its result is posted and it is remembered. -/
theorem finish_of_cuttable (outcome : Outcome) (s : State)
    (hrunning : s.running = true) (hpanics : d.panics = false) (hid : cmd.id ≠ "")
    (hcut : d.apiUrl = true → Cuttable outcome.detail) :
    let t := finish d cmd outcome s
    t.running = true ∧ t.done = remember cmd.id s.done ∧
      (d.apiUrl = true → ∃ detail, truncate 1024 outcome.detail.toList = some detail ∧
        t.posts.getLast? = some ⟨cmd.id, outcome.state, d.now,
          if detail = [] then none else some (String.ofList detail), outcome.data⟩) := by
  obtain ⟨detail, posts, hreport, hposted⟩ := report_of_cuttable d cmd.id outcome s hcut
  have hfinish : finish d cmd outcome s =
      { s with done := remember cmd.id s.done, posts := s.posts ++ posts } := by
    rw [finish, hpanics, if_neg Bool.false_ne_true, if_neg hid, hreport]
    exact if_pos hrunning
  simp only [hfinish]
  refine ⟨hrunning, trivial, ?_⟩
  intro hurl
  obtain ⟨hdetail, hposts⟩ := hposted hurl
  refine ⟨detail, hdetail, ?_⟩
  rw [hposts]
  exact List.getLast?_concat

/-- A command that panics or has no id is forgotten, and a text that cannot be cut ends the
channel. -/
theorem finish_lost (outcome : Outcome) (s : State)
    (hrunning : (finish d cmd outcome s).running = true)
    (hdone : cmd.id ∈ (finish d cmd outcome s).done) (hnew : cmd.id ∉ s.done) :
    d.panics = false ∧ cmd.id ≠ "" ∧ (d.apiUrl = true → Cuttable outcome.detail) := by
  have hlost : ¬ (d.panics = true ∨ cmd.id = "") := by
    intro hlost
    rw [finish_done d cmd outcome s hrunning, if_pos hlost] at hdone
    exact hnew hdone
  obtain ⟨hpanics, hid⟩ := not_or.mp hlost
  refine ⟨by simpa using hpanics, hid, ?_⟩
  intro hurl
  rw [finish, if_neg hpanics, if_neg hid] at hrunning
  have hreport : (report d cmd.id outcome s).running = true := by
    by_contra hstopped
    simp only [if_neg hstopped] at hrunning
    exact hstopped hrunning
  rw [report, if_pos hurl] at hreport
  apply (truncate_isSome_iff 1024 outcome.detail.toList).mp
  cases hcut : truncate 1024 outcome.detail.toList with
  | some detail => rfl
  | none =>
    rw [hcut] at hreport
    cases hreport

/-- A delivery is handled as it should exactly when its command can be reported. -/
theorem recorded_iff_reportable (hrunning : s.running = true) :
    Recorded readCommand s d ↔ Reportable readCommand s d := by
  by_cases hnone : ∀ cmd, asked readCommand d = some cmd → cmd.id ∈ s.done
  · refine iff_of_true ⟨running_of_done readCommand s d hrunning hnone, ?_⟩ ?_
    · intro cmd hasked hnew
      exact absurd (hnone cmd hasked) hnew
    · intro cmd hasked hnew
      exact absurd (hnone cmd hasked) hnew
  push Not at hnone
  obtain ⟨cmd, hasked, hnew⟩ := hnone
  have hone : ∀ other, asked readCommand d = some other → other = cmd := by
    intro other hother
    exact Option.some.inj (hother.symm.trans hasked)
  obtain ⟨posts, hhandle⟩ := handle_of_new readCommand s d cmd hasked hnew
  constructor
  · intro ⟨halive, hrecorded⟩ cmd' hasked' hnew'
    obtain rfl := hone cmd' hasked'
    have hmem := (hrecorded cmd' hasked hnew).1
    rw [hhandle] at halive hmem
    obtain ⟨hpanics, hid, hcut⟩ := finish_lost d cmd' _ _ halive hmem hnew
    refine ⟨hpanics, hid, ?_⟩
    intro hurl hkind err herr
    have hdetail : (execute d cmd').1.detail = err := by
      simp [execute, hkind, herr, Outcome.new]
    exact hdetail ▸ hcut hurl
  · intro hreportable
    obtain ⟨hpanics, hid, herror⟩ := hreportable cmd hasked hnew
    obtain ⟨halive, hdone, hposted⟩ := finish_of_cuttable d cmd (execute d cmd).1
      { s with
        posts := posts
        executed := s.executed ++ [cmd]
        effects := s.effects ++ (execute d cmd).2 } hrunning hpanics hid
      fun hurl => cuttable_execute d cmd (herror hurl)
    rw [← hhandle] at halive hdone hposted
    refine ⟨halive, ?_⟩
    intro cmd' hasked' hnew'
    obtain rfl := hone cmd' hasked'
    refine ⟨?_, hposted⟩
    rw [hdone]
    exact mem_remember cmd'.id s.done

/-- A list of commands is handled to its end, and each command of it that was not done is recorded
with its result, exactly if every command in it can be reported when it comes up. -/
theorem commands_recorded_iff (s : State) (commands : List Delivery) (hrunning : s.running = true) :
    ((∃ t, exec (step readCommand) s commands = some t ∧ t.running = true) ∧
        Meets (Recorded readCommand) (step readCommand) s commands) ↔
      Meets (Reportable readCommand) (step readCommand) s commands := by
  induction commands generalizing s with
  | nil => exact iff_of_true ⟨⟨s, rfl, hrunning⟩, trivial⟩ trivial
  | cons d rest ih =>
    have hstep : step readCommand s d = some (handle readCommand d s) := if_pos hrunning
    rw [meets_cons_of_some _ _ s _ d rest hstep, meets_cons_of_some _ _ s _ d rest hstep,
      recorded_iff_reportable readCommand s d hrunning]
    constructor
    · intro ⟨⟨t, hexec, halive⟩, hnow, hlater⟩
      obtain ⟨u, hu, hrest⟩ := (exec_cons _ s t d rest).mp hexec
      obtain rfl := Option.some.inj (hstep.symm.trans hu)
      have hnext := ((recorded_iff_reportable readCommand s d hrunning).mpr hnow).1
      exact ⟨hnow, (ih _ hnext).mp ⟨⟨t, hrest, halive⟩, hlater⟩⟩
    · intro ⟨hnow, hlater⟩
      have hnext := ((recorded_iff_reportable readCommand s d hrunning).mpr hnow).1
      obtain ⟨⟨t, hrest, halive⟩, hmeets⟩ := (ih _ hnext).mpr hlater
      exact ⟨⟨t, (exec_cons _ s t d rest).mpr ⟨_, hstep, hrest⟩, halive⟩, hnow, hmeets⟩

theorem commands_recorded_resync :
    (∃ t, exec (step readResync) start [resync 0] = some t ∧ t.running = true) ∧
      Meets (Recorded readResync) (step readResync) start [resync 0] := by
  apply (commands_recorded_iff readResync start [resync 0] rfl).mpr
  refine ⟨?_, fun _ _ => trivial⟩
  intro cmd hasked hnew
  rw [asked_resync] at hasked
  obtain rfl := Option.some.inj hasked
  refine ⟨rfl, resyncId_ne_empty 0, ?_⟩
  intro hurl
  cases hurl

/-- A payload of one byte asks for the logs, any other is a `resync_policy`. -/
def readSample (payload : Bytes) : Option Command :=
  if payload.length = 1 then some ⟨"c1", "collect_logs", none, "d1", 0⟩
  else some ⟨"c2", "resync_policy", none, "d1", 0⟩

def longError : Str := "HTTP 413: x".toList ++ List.replicate 600 'é'

def refused : Delivery :=
  { resync 1 with
    apiUrl := true
    sendDiagnostics := fun _ => .error (String.ofList longError) }

def summary (s : State) : Bool × List String × List String :=
  (s.running, s.done, s.executed.map Command.id)

/-- Nothing is handled after the channel has ended. -/
theorem exec_of_stopped (e : Delivery) (done ids : List String)
    (h : (exec (step readCommand) start [d]).map summary = some (false, done, ids)) :
    exec (step readCommand) start [d, e] = none := by
  obtain ⟨s, hs, hstate⟩ := Option.map_eq_some_iff.mp h
  have hstopped : s.running = false := congrArg Prod.fst hstate
  apply Option.eq_none_iff_forall_ne_some.mpr
  intro t ht
  obtain ⟨u, hu, hlast⟩ := (exec_append (step readCommand) start t [d] [e]).mp ht
  obtain rfl : s = u := Option.some.inj (hs.symm.trans hu)
  rw [exec, step, hstopped, if_neg Bool.false_ne_true] at hlast
  cases hlast

/-- A result whose detail cannot be cut ends the channel before the command is remembered. -/
theorem exec_of_uncut
    (hasked : asked readCommand d = some cmd) (hpanics : d.panics = false) (hid : cmd.id ≠ "")
    (hurl : d.apiUrl = true) (hcut : truncate 1024 (execute d cmd).1.detail.toList = none) :
    (exec (step readCommand) start [d]).map summary = some (false, [], [cmd.id]) := by
  obtain ⟨posts, hhandle⟩ := handle_of_new readCommand start d cmd hasked List.not_mem_nil
  have hexec : exec (step readCommand) start [d] = some (handle readCommand d start) := rfl
  rw [hexec, hhandle, finish, hpanics, if_neg Bool.false_ne_true, if_neg hid, report, if_pos hurl,
    hcut]
  rfl

/-- The channel ends with the first command, which is executed and not recorded, and the second is
lost. -/
theorem long_error_ends_channel :
    (exec (step readSample) start [refused]).map summary = some (false, [], ["c1"]) ∧
      exec (step readSample) start [refused, resync 2] = none := by
  have hcut : truncate 1024 longError = none := by decide +kernel
  have hasked : asked readSample refused = some ⟨"c1", "collect_logs", none, "d1", 0⟩ := by
    decide +kernel
  have hdetail : (execute refused ⟨"c1", "collect_logs", none, "d1", 0⟩).1.detail =
      String.ofList longError := by
    simp [execute, refused, Outcome.new]
  have hfirst := exec_of_uncut readSample refused _ hasked rfl (by decide) rfl
    (by rw [hdetail, String.toList_ofList, hcut])
  exact ⟨hfirst, exec_of_stopped readSample refused (resync 2) [] ["c1"] hfirst⟩

end ClantoDesk.CommandReports
