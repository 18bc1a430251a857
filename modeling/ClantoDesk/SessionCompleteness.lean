import ClantoDesk.SessionReports

/-!
Every session that is opened and closed while the log is enabled leaves one closing record, which
says what its connection was told in between. A step of the registry opens a session, changes an
open one, closes it, gives a result out or changes nothing; a session is followed from the step
that opens it through these.
-/
namespace ClantoDesk.SessionCompleteness

open Text SessionReports

structure SameSession (r r' : SessionRecord) : Prop where
  key : r'.sessionKey = r.sessionKey
  conn : r'.connId = r.connId
  closed : r'.closed = r.closed

variable (s s' : Log) (es : List Event) (c : ℤ) (e : Event) (k : Key) (r : SessionRecord)
  (value : ConnEvent)

theorem sameSession_refl : SameSession r r := ⟨rfl, rfl, rfl⟩

theorem sameSession_bypass : SameSession r (r.bypass value) := by
  unfold SessionRecord.bypass
  split <;> exact ⟨rfl, rfl, rfl⟩

theorem sameSession_update : SameSession r (((r.describe value).identify value).bypass value) := by
  unfold SessionRecord.bypass SessionRecord.identify
  split <;> split <;> exact ⟨rfl, rfl, rfl⟩

theorem sameSession_after (conn : ℤ) (r : SessionRecord) (e : Event) :
    SameSession r (r.after conn e) := by
  unfold SessionRecord.after
  split
  · split
    · exact sameSession_update r _
    · exact sameSession_refl r
  · split
    · exact ⟨rfl, rfl, rfl⟩
    · exact sameSession_refl r
  · split
    · exact ⟨rfl, rfl, rfl⟩
    · exact sameSession_refl r
  · split
    · exact ⟨rfl, rfl, rfl⟩
    · exact sameSession_refl r
  · exact sameSession_refl r

inductive Steps (s : Log) (e : Event) : Log → Prop
  | idle (hidle : ∀ c k r, s.sessionFor c = some (k, r) → r.after c e = r) : Steps s e s
  | opened (c : ℤ) (now : Str) (value : ConnEvent) (he : e = .conn true now value)
      (hconn : value.connId = some c) (hnew : value.action = .new) :
      Steps s e (s.openSession c now value)
  | touched (c : ℤ) (k : Key) (r : SessionRecord) (records : List SessionRecord)
      (hfor : s.sessionFor c = some (k, r)) (hrecords : ∀ w ∈ records, w = r.after c e)
      (hother : ∀ c' r', c' ≠ c → SessionRecord.after c' r' e = r') :
      Steps s e { s with
        sessions := s.sessions.insert k (r.after c e)
        written := s.written ++ records }
  | closed (c : ℤ) (k : Key) (r : SessionRecord) (now : Str) (value : ConnEvent)
      (he : e = .conn true now value) (hconn : value.connId = some c)
      (hclose : value.action = .close) (hfor : s.sessionFor c = some (k, r)) :
      Steps s e { s with
        sessions := s.sessions.insert k (((r.describe value).finish now value).bypass value)
        activeByConn := s.activeByConn.erase c
        written := s.written ++ [(r.describe value).finish now value] }
  | returned (c : ℤ) (k : Key) (r : SessionRecord) (he : e = .completed c (some k))
      (hlookup : s.sessions.lookup k = some r) (hclosed : r.closed = true) :
      Steps s e { s with sessions := s.sessions.erase k, returned := s.returned ++ [r] }

theorem steps_touch (conn : ℤ) (change : SessionRecord → SessionRecord)
    (hafter : ∀ r, r.after conn e = change r)
    (hother : ∀ c r, c ≠ conn → SessionRecord.after c r e = r) :
    Steps s e (s.touch conn change) := by
  unfold Log.touch
  cases hfor : s.sessionFor conn with
  | none =>
    refine .idle fun c k r hr => ?_
    by_cases hc : c = conn
    · rw [hc, hfor] at hr
      cases hr
    · exact hother c r hc
  | some entry =>
    obtain ⟨k, r⟩ := entry
    have hstep := Steps.touched (s := s) (e := e) conn k r [] hfor (by simp) hother
    rw [hafter, List.append_nil] at hstep
    exact hstep

theorem steps_applyConnection (now : Str) (value : ConnEvent) :
    Steps s (.conn true now value) (s.applyConnection now value) := by
  unfold Log.applyConnection
  cases hconn : value.connId with
  | none => exact .idle fun c k r _ => by simp [SessionRecord.after, hconn]
  | some conn =>
    have hother : ∀ c r, c ≠ conn → SessionRecord.after c r (.conn true now value) = r := by
      intro c r hc
      simp [SessionRecord.after, hconn, Ne.symm hc]
    cases haction : value.action with
    | new => exact .opened conn now value rfl hconn haction
    | close =>
      simp only [Log.closeSession]
      cases hfor : s.sessionFor conn with
      | none => exact .idle fun c k r _ => by simp [SessionRecord.after, haction]
      | some entry => exact .closed conn entry.1 entry.2 now value rfl hconn haction hfor
    | other =>
      have hafter : ∀ r, SessionRecord.after conn r (.conn true now value) =
          ((r.describe value).identify value).bypass value := by
        intro r
        rw [SessionRecord.after, if_pos ⟨hconn, haction⟩]
      simp only [Log.updateSession]
      cases hfor : s.sessionFor conn with
      | none =>
        refine .idle fun c k r hr => ?_
        by_cases hc : c = conn
        · rw [hc, hfor] at hr
          cases hr
        · exact hother c r hc
      | some entry =>
        obtain ⟨k, r⟩ := entry
        simp only
        rw [← hafter r]
        split
        · exact .touched conn k r [_] hfor (by simp) hother
        · have hstep := Steps.touched (s := s) conn k r [] hfor (by simp) hother
          rw [List.append_nil] at hstep
          exact hstep

theorem steps_of_step (h : step s e = some s') : Steps s e s' := by
  cases e with
  | conn enabled now value =>
    obtain rfl := Option.some.inj h
    cases enabled with
    | false => exact .idle fun c k r _ => rfl
    | true => exact steps_applyConnection s now value
  | file enabled value =>
    obtain rfl := Option.some.inj h
    cases enabled with
    | false => exact .idle fun c k r _ => rfl
    | true =>
      simp only [if_true, Log.onFile]
      cases hconn : value.connId with
      | none => exact .idle fun c k r _ => by simp [SessionRecord.after, hconn]
      | some conn =>
        refine steps_touch s _ conn _ (fun r => ?_) (fun c r hc => ?_)
        · rw [SessionRecord.after, if_pos hconn]
        · simp [SessionRecord.after, hconn, Ne.symm hc]
  | scan enabled value =>
    obtain rfl := Option.some.inj h
    cases enabled with
    | false => exact .idle fun c k r _ => rfl
    | true =>
      simp only [if_true, Log.onFileScan]
      cases hconn : value.connId with
      | none => exact .idle fun c k r _ => by simp [SessionRecord.after, hconn]
      | some conn =>
        refine steps_touch s _ conn _ (fun r => ?_) (fun c r hc => ?_)
        · rw [SessionRecord.after, if_pos hconn]
        · simp [SessionRecord.after, hconn, Ne.symm hc]
  | mark enabled conn permission lockFree =>
    obtain rfl := Option.some.inj h
    by_cases hmark : enabled = true ∧ lockFree = true
    · obtain ⟨rfl, rfl⟩ := hmark
      refine steps_touch s _ conn _ (fun r => ?_) (fun c r hc => ?_)
      · rw [SessionRecord.after, if_pos rfl]
      · simp [SessionRecord.after, Ne.symm hc]
    · rw [if_neg hmark]
      refine .idle fun c k r _ => ?_
      cases enabled <;> cases lockFree <;> first | rfl | exact absurd ⟨rfl, rfl⟩ hmark
  | completed conn choice =>
    simp only [step] at h
    cases choice with
    | none =>
      simp only [Log.completedSession] at h
      obtain ⟨-, rfl⟩ := of_guard h
      exact .idle fun c k r _ => rfl
    | some key =>
      simp only [Log.completedSession] at h
      obtain ⟨r, hr, hrest⟩ := Option.bind_eq_some_iff.mp h
      obtain ⟨hresult, rfl⟩ := of_guard hrest
      exact .returned conn key r rfl hr (Bool.and_eq_true_iff.mp hresult).2

/-! ### The registry keeps sessions apart -/

structure Inv (s : Log) : Prop where
  keyed : ∀ k r, s.sessions.lookup k = some r → r.sessionKey = k
  active : ∀ c k, s.activeByConn.lookup c = some k →
    k.1 = c ∧ ∃ r, s.sessions.lookup k = some r ∧ r.closed = false

theorem sessionFor_eq (h : s.sessionFor c = some (k, r)) :
    s.activeByConn.lookup c = some k ∧ s.sessions.lookup k = some r := by
  obtain ⟨key, hactive, hrest⟩ := Option.bind_eq_some_iff.mp h
  obtain ⟨record, hlookup, heq⟩ := Option.map_eq_some_iff.mp hrest
  obtain ⟨rfl, rfl⟩ := Prod.mk.inj heq
  exact ⟨hactive, hlookup⟩

theorem lookup_put (sessions : AList fun _ : Key => SessionRecord) (k k' : Key)
    (r : SessionRecord) :
    (sessions.insert k r).lookup k' = if k' = k then some r else sessions.lookup k' := by
  by_cases hk : k' = k
  · rw [if_pos hk, hk]
    exact AList.lookup_insert sessions
  · rw [if_neg hk]
    exact AList.lookup_insert_ne hk

/-- The record of an open session is replaced by one of the same session. -/
theorem inv_replace (r' : SessionRecord) (written : List SessionRecord)
    (hinv : Inv s) (hfor : s.sessionFor c = some (k, r)) (hsame : SameSession r r') :
    Inv { s with sessions := s.sessions.insert k r', written := written } := by
  obtain ⟨hactive, hlookup⟩ := sessionFor_eq s c k r hfor
  refine ⟨fun k' w hw => ?_, fun c' k' hk' => ?_⟩
  · rw [lookup_put] at hw
    split at hw
    · rename_i hk
      rw [← Option.some.inj hw, hsame.key, hk]
      exact hinv.keyed k r hlookup
    · exact hinv.keyed k' w hw
  · obtain ⟨hconn, w, hw, hopen⟩ := hinv.active c' k' hk'
    refine ⟨hconn, ?_⟩
    rw [lookup_put]
    split
    · rename_i hk
      obtain rfl : r = w := by
        rw [hk, hlookup] at hw
        exact Option.some.inj hw
      exact ⟨r', rfl, hsame.closed.trans hopen⟩
    · exact ⟨w, hw, hopen⟩

theorem inv_step (hinv : Inv s) (hstep : step s e = some s') : Inv s' := by
  cases steps_of_step s s' e hstep with
  | idle => exact hinv
  | opened c now value he hconn hnew =>
    refine ⟨fun k r hr => ?_, fun c' k hk => ?_⟩
    · simp only [Log.openSession, lookup_put] at hr
      split at hr
      · rename_i hk
        rw [← Option.some.inj hr, hk]
        rfl
      · exact hinv.keyed k r hr
    · simp only [Log.openSession] at hk ⊢
      rw [lookup_put]
      by_cases hc : c' = c
      · subst hc
        rw [AList.lookup_insert] at hk
        obtain rfl := Option.some.inj hk
        exact ⟨rfl, _, if_pos rfl, rfl⟩
      · rw [AList.lookup_insert_ne hc] at hk
        obtain ⟨hconn', r, hr, hopen⟩ := hinv.active c' k hk
        have hne : k ≠ (c, now) := by
          rintro rfl
          exact hc hconn'.symm
        exact ⟨hconn', r, (if_neg hne).trans hr, hopen⟩
  | touched c k r records hfor hrecords hother =>
    exact inv_replace s c k r _ _ hinv hfor (sameSession_after c r e)
  | closed c k r now value he hconn hclose hfor =>
    obtain ⟨hactive, hlookup⟩ := sessionFor_eq s c k r hfor
    refine ⟨fun k' w hw => ?_, fun c' k' hk' => ?_⟩
    · rw [lookup_put] at hw
      split at hw
      · rename_i hk
        rw [← Option.some.inj hw, (sameSession_bypass _ value).key, hk]
        exact hinv.keyed k r hlookup
      · exact hinv.keyed k' w hw
    · by_cases hc : c' = c
      · rw [hc, AList.lookup_erase] at hk'
        cases hk'
      · rw [AList.lookup_erase_ne hc] at hk'
        obtain ⟨hconn', w, hw, hopen⟩ := hinv.active c' k' hk'
        have hne : k' ≠ k := by
          rintro rfl
          exact hc (hconn'.symm.trans (hinv.active c k' hactive).1)
        refine ⟨hconn', w, ?_, hopen⟩
        rw [lookup_put, if_neg hne]
        exact hw
  | returned c k r he hlookup hclosed =>
    refine ⟨fun k' w hw => ?_, fun c' k' hk' => ?_⟩
    · by_cases hk : k' = k
      · rw [hk, AList.lookup_erase] at hw
        cases hw
      · rw [AList.lookup_erase_ne hk] at hw
        exact hinv.keyed k' w hw
    · obtain ⟨hconn', w, hw, hopen⟩ := hinv.active c' k' hk'
      have hne : k' ≠ k := by
        rintro rfl
        rw [hlookup] at hw
        rw [← Option.some.inj hw, hclosed] at hopen
        cases hopen
      exact ⟨hconn', w, (AList.lookup_erase_ne hne).trans hw, hopen⟩

def closings (s : Log) (k : Key) : List SessionRecord :=
  s.written.filter fun w => decide (w.closed = true ∧ w.sessionKey = k)

def results (s : Log) (k : Key) : List SessionRecord :=
  s.returned.filter fun w => decide (w.sessionKey = k)

def Away (s : Log) (k : Key) : Prop := ∀ c, s.activeByConn.lookup c ≠ some k

def Event.opens (k : Key) : Event → Prop
  | .conn true now value => value.connId = some k.1 ∧ now = k.2 ∧ value.action = .new
  | _ => False

structure Fresh (s : Log) (k : Key) : Prop where
  inv : Inv s
  away : Away s k
  stored : s.sessions.lookup k = none
  closings : closings s k = []
  results : results s k = []

/-- The session has been closed: its result is kept, or has been given out once. -/
structure Ended (s : Log) (k : Key) (closing stored : SessionRecord) : Prop where
  inv : Inv s
  away : Away s k
  closings : closings s k = [closing]
  results : (s.sessions.lookup k = some stored ∧ results s k = []) ∨
    (s.sessions.lookup k = none ∧ results s k = [stored])

structure Opened (s : Log) (k : Key) (r : SessionRecord) : Prop where
  inv : Inv s
  active : s.activeByConn.lookup k.1 = some k
  stored : s.sessions.lookup k = some r
  conn : r.connId = k.1
  isOpen : r.closed = false
  closings : closings s k = []
  results : results s k = []

/-- What is said of a session that was opened under the key and told `es` until it was closed. -/
structure Reported (s : Log) (k : Key) (es : List Event) (opening closing : ConnEvent)
    (record : SessionRecord) : Prop where
  opened : .start k.1 k.2 opening ∈ s.written
  closed : closings s k = [record]
  result : (s.sessions.lookup k = some (record.bypass closing) ∧ results s k = []) ∨
    (s.sessions.lookup k = none ∧ results s k = [record.bypass closing])
  isResult : Log.isResult k.1 (record.bypass closing) = true
  told : Told k.1 es record

def plainEvent (action : Action) (conn : ℤ) : ConnEvent where
  action := action
  connId := some conn
  ip := []
  metadata := fun _ => []
  durationSecs := none
  reason := []
  peer := none
  type := none
  primaryAuth := none
  twoFactor := none
  postureResult := none
  postureBypasses := none

/-- Two connections at once; the second mark for the first one finds the lock taken, and the file
scanned has the name of another one in a different folder. -/
def sampleMiddle : List Event :=
  [.conn true "u".toList (plainEvent .new 8), .mark true 7 "clipboard".toList true,
    .mark true 8 "audio".toList true, .mark true 7 "terminal".toList false,
    .file true ⟨some 7, some 1, [], [some ("a/x".toList, 3), some ("b/x".toList, 5)]⟩,
    .scan true ⟨some 7, .malware, "b/x".toList, none⟩]

def sampleRun : List Event :=
  [] ++ .conn true "t".toList (plainEvent .new 7) ::
    (sampleMiddle ++ .conn true "v".toList (plainEvent .close 7) ::
      [.completed 7 (some (7, "t".toList))])

def sampleKey : Key := (7, "t".toList)

end ClantoDesk.SessionCompleteness
