import ClantoDesk.Runs
import ClantoDesk.SortedMap
import ClantoDesk.Text
import Mathlib.Algebra.Order.Ring.Int
import Mathlib.Data.List.Perm.Basic

/-!
The watermark on a controlled screen, src/clanto/host_watermark.rs: several threads track the
sessions under one lock and draw the text under another. A thread that has changed the sessions
draws before its call ends, so between the calls the text is that of the sessions, as long as each
session that counts has a start time. There is a way to lose it: a session that is authorised but
of another kind becomes one that counts without being authorised again.
-/
namespace ClantoDesk.HostWatermark

open Text

-- the type of a local time
variable {Moment : Type}

/-! ### The text -/

inductive WatermarkAccessType where
  | fullControl
  | viewOnly
  | camera

inductive WatermarkPermission where
  | keyboard
  | clipboard
  | file
  | audio
  | restart
  | recording
  | blockInput
  | privacyMode

structure WatermarkSession (Moment : Type) where
  controllerId : Str
  controllerName : Str
  accountUser : Option Str
  osUser : Option Str
  pcName : Option Str
  sessionCode : Str
  accessType : WatermarkAccessType
  permissions : List WatermarkPermission
  startedAt : Moment

/-- When a time is, how it is written as hours and minutes, and the texts of the language. -/
structure Locale (Moment : Type) where
  instant : Moment → ℤ
  clock : Moment → Str
  translate : Str → Str

def oneLine (value : Str) : Str :=
  (trim value).map fun c => if c = '\r' ∨ c = '\n' then ' ' else c

def optionalOneLine (value : Str) : Option Str :=
  if oneLine value = [] then none else some (oneLine value)

def technician (session : WatermarkSession Moment) : Str :=
  let name := oneLine session.controllerName
  let id := oneLine session.controllerId
  if name ≠ [] ∧ id ≠ [] ∧ name ≠ id then name ++ " (".toList ++ id ++ ")".toList
  else if name ≠ [] then name
  else id

def watermarkLine (l : Locale Moment) (session : WatermarkSession Moment) : Str :=
  let technician := technician session
  let code := oneLine session.sessionCode
  List.intercalate " · ".toList
    (["● ".toList ++ l.translate "Remote session".toList] ++
      (if technician = [] then [] else [technician]) ++ (if code = [] then [] else [code]) ++
      [l.translate "Since label".toList ++ ' ' :: l.clock session.startedAt])

def textLe : Str → Str → Bool
  | [], _ => true
  | _ :: _, [] => false
  | a :: as, b :: bs =>
    if a.toNat < b.toNat then true else if b.toNat < a.toNat then false else textLe as bs

def startLe (l : Locale Moment) (a b : WatermarkSession Moment) : Bool :=
  if l.instant a.startedAt < l.instant b.startedAt then true
  else if l.instant b.startedAt < l.instant a.startedAt then false
  else textLe a.controllerId b.controllerId

def latest (l : Locale Moment) : WatermarkSession Moment → List (WatermarkSession Moment) →
    WatermarkSession Moment
  | session, [] => session
  | session, next :: rest =>
    if startLe l session next then latest l next rest else latest l session rest

def watermarkText (l : Locale Moment) : List (WatermarkSession Moment) → Option Str
  | [] => none
  | first :: rest =>
    let text := watermarkLine l (latest l first rest)
    some (if rest = [] then text else text ++ " · +".toList ++ rest.length.repr.toList)

theorem watermarkText_eq_none (l : Locale Moment) (sessions : List (WatermarkSession Moment)) :
    watermarkText l sessions = none ↔ sessions = [] := by
  cases sessions with
  | nil => exact iff_of_true rfl rfl
  | cons first rest => simp [watermarkText]

/-! ### The sessions -/

structure TrackedSession (Moment : Type) where
  controllerId : Str
  controllerName : Str
  accountUser : Option Str
  osUser : Option Str
  pcName : Option Str
  sessionCode : Str
  authorized : Bool
  eligible : Bool
  isViewCamera : Bool
  keyboard : Bool
  clipboard : Bool
  audio : Bool
  file : Bool
  restart : Bool
  recording : Bool
  blockInput : Bool
  privacyMode : Bool
  startedAt : Option Moment
  deriving DecidableEq

abbrev Sessions (Moment : Type) := SortedMap ℤ (TrackedSession Moment)

structure Client where
  id : ℤ
  peerId : Str
  name : Str
  sessionCode : Str
  isFileTransfer : Bool
  isViewCamera : Bool
  isTerminal : Bool
  portForward : Str
  authorized : Bool
  keyboard : Bool
  clipboard : Bool
  audio : Bool
  file : Bool
  restart : Bool
  recording : Bool
  blockInput : Bool
  privacyMode : Bool

structure Identity where
  accountUser : Str
  osUser : Str
  pcName : Str

def isWatermarkSession (isFileTransfer isViewCamera isTerminal isPortForward : Bool) : Bool :=
  let excluded := isFileTransfer || isTerminal || isPortForward
  let isCamera := isViewCamera && !excluded
  let isDesktop := !isViewCamera && !excluded
  isDesktop || isCamera

def Client.eligible (client : Client) : Bool :=
  isWatermarkSession client.isFileTransfer client.isViewCamera client.isTerminal
    (client.portForward ≠ [])

def Client.newSession (client : Client) (now : Moment) : TrackedSession Moment :=
  { controllerId := client.peerId, controllerName := client.name
    accountUser := none, osUser := none, pcName := none
    sessionCode := client.sessionCode
    authorized := client.authorized, eligible := client.eligible
    isViewCamera := client.isViewCamera
    keyboard := client.keyboard, clipboard := client.clipboard, audio := client.audio
    file := client.file, restart := client.restart, recording := client.recording
    blockInput := client.blockInput, privacyMode := client.privacyMode
    startedAt := if client.authorized && client.eligible then some now else none }

namespace TrackedSession

/-- What `connection_added` makes of an entry. -/
def added (session : TrackedSession Moment) (client : Client) (now : Moment) :
    TrackedSession Moment :=
  let started :=
    if client.authorized && !session.authorized then
      if client.eligible then some now else none
    else session.startedAt
  { session with
    controllerId := client.peerId
    controllerName := client.name
    sessionCode := if client.sessionCode ≠ [] then client.sessionCode else session.sessionCode
    eligible := client.eligible
    isViewCamera := client.isViewCamera
    keyboard := client.keyboard
    clipboard := client.clipboard
    audio := client.audio
    file := client.file
    restart := client.restart
    recording := client.recording
    blockInput := client.blockInput
    privacyMode := client.privacyMode
    authorized := client.authorized
    startedAt := if client.eligible then started else none }

def nowAuthorized (session : TrackedSession Moment) (now : Moment) : TrackedSession Moment :=
  if session.authorized then session
  else
    { session with
      authorized := true
      startedAt := if session.eligible then some now else none }

def withIdentity (session : TrackedSession Moment) (identity : Identity) : TrackedSession Moment :=
  { session with
    accountUser := optionalOneLine identity.accountUser
    osUser := optionalOneLine identity.osUser
    pcName := optionalOneLine identity.pcName }

def withPermission (session : TrackedSession Moment) (name : String) (enabled : Bool) :
    Option (TrackedSession Moment) :=
  if name = "keyboard" then some { session with keyboard := enabled }
  else if name = "clipboard" then some { session with clipboard := enabled }
  else if name = "audio" then some { session with audio := enabled }
  else if name = "file" then some { session with file := enabled }
  else if name = "restart" then some { session with restart := enabled }
  else if name = "recording" then some { session with recording := enabled }
  else if name = "block_input" then some { session with blockInput := enabled }
  else if name = "privacy_mode" then some { session with privacyMode := enabled }
  else none

def active (session : TrackedSession Moment) : Bool := session.authorized && session.eligible

/-- What is shown of a session; one without a start time is left out. -/
def watermarkSession (session : TrackedSession Moment) : Option (WatermarkSession Moment) :=
  session.startedAt.map fun startedAt =>
    { controllerId := session.controllerId
      controllerName := session.controllerName
      accountUser := session.accountUser
      osUser := session.osUser
      pcName := session.pcName
      sessionCode := session.sessionCode
      accessType :=
        if session.isViewCamera then .camera
        else if session.keyboard then .fullControl
        else .viewOnly
      permissions :=
        [(session.keyboard, WatermarkPermission.keyboard), (session.clipboard, .clipboard),
          (session.file, .file), (session.audio, .audio), (session.restart, .restart),
          (session.recording, .recording), (session.blockInput, .blockInput),
          (session.privacyMode, .privacyMode)].filterMap
          fun (enabled, permission) => if enabled then some permission else none
      startedAt := startedAt }

end TrackedSession

/-! ### Changes -/

inductive Change (Moment : Type) where
  | connectionAdded (client : Client) (now : Moment)
  | connectionAuthorized (id : ℤ) (now : Moment)
  | connectionIdentity (id : ℤ) (identity : Identity)
  | connectionSessionCode (id : ℤ) (sessionCode : Str)
  | connectionPermission (id : ℤ) (name : String) (enabled : Bool)
  | connectionEffectivePermissions (id : ℤ) (keyboard clipboard audio file : Bool)
  | connectionRemoved (id : ℤ)

def modify (sessions : Sessions Moment) (id : ℤ)
    (f : TrackedSession Moment → TrackedSession Moment) : Sessions Moment :=
  match sessions.get id with
  | some session => sessions.insert id (f session)
  | none => sessions

/-- The sessions after the change, or `none` when the call returns without drawing. -/
def Change.apply (sessions : Sessions Moment) : Change Moment → Option (Sessions Moment)
  | .connectionAdded client now =>
    some (sessions.insert client.id
      (((sessions.get client.id).getD (client.newSession now)).added client now))
  | .connectionAuthorized id now => some (modify sessions id fun s => s.nowAuthorized now)
  | .connectionIdentity id identity => some (modify sessions id fun s => s.withIdentity identity)
  | .connectionSessionCode id sessionCode =>
    some (modify sessions id fun s => { s with sessionCode := sessionCode })
  | .connectionPermission id name enabled =>
    match sessions.get id with
    | some session =>
      match session.withPermission name enabled with
      | some changed => some (sessions.insert id changed)
      | none => none
    | none => some sessions
  | .connectionEffectivePermissions id keyboard clipboard audio file =>
    some (modify sessions id fun s =>
      { s with keyboard := keyboard, clipboard := clipboard, audio := audio, file := file })
  | .connectionRemoved id => some (sessions.erase id)

/-! ### Start times -/

def Timed (sessions : Sessions Moment) : Prop :=
  ∀ id session, sessions.get id = some session → session.active = true →
    session.startedAt.isSome = true

variable (sessions : Sessions Moment)

theorem timed_insert (id : ℤ) (session : TrackedSession Moment)
    (h : Timed sessions) (hsession : session.active = true → session.startedAt.isSome = true) :
    Timed (sessions.insert id session) := by
  intro id' session' hget
  rw [SortedMap.get_insert] at hget
  split at hget
  · obtain rfl := Option.some.inj hget
    exact hsession
  · exact h id' session' hget

theorem timed_modify (id : ℤ)
    (f : TrackedSession Moment → TrackedSession Moment) (h : Timed sessions)
    (hf : ∀ session, (session.active = true → session.startedAt.isSome = true) →
      (f session).active = true → (f session).startedAt.isSome = true) :
    Timed (modify sessions id f) := by
  unfold modify
  split
  · rename_i session hget
    exact timed_insert sessions id _ h (hf session (h id session hget))
  · exact h

theorem added_timed (client : Client) (now : Moment) (h : Timed sessions)
    (hkeeps : ∀ session, sessions.get client.id = some session → session.authorized = true →
      client.authorized = true → client.eligible = true → session.eligible = true)
    (hactive : (((sessions.get client.id).getD (client.newSession now)).added client now).active =
      true) :
    (((sessions.get client.id).getD (client.newSession now)).added client
      now).startedAt.isSome = true := by
  simp only [TrackedSession.active, TrackedSession.added, Bool.and_eq_true] at hactive
  obtain ⟨hauthorized, heligible⟩ := hactive
  simp only [TrackedSession.added, hauthorized, heligible, Bool.true_and, if_true]
  cases hget : sessions.get client.id with
  | none => simp [Client.newSession, hauthorized, heligible]
  | some session =>
    simp only [Option.getD_some]
    cases hbefore : session.authorized with
    | false => simp
    | true =>
      have hcounted := hkeeps session hget hbefore hauthorized heligible
      have hstarted := h client.id session hget (by simp [TrackedSession.active, hbefore, hcounted])
      simpa using hstarted

theorem withPermission_active (session changed : TrackedSession Moment) (name : String)
    (enabled : Bool) (h : session.withPermission name enabled = some changed) :
    changed.active = session.active ∧ changed.startedAt = session.startedAt := by
  unfold TrackedSession.withPermission at h
  repeat' split at h
  all_goals simp only [Option.some.injEq, reduceCtorEq] at h
  all_goals exact h ▸ ⟨rfl, rfl⟩

theorem timed_apply (after : Sessions Moment) (c : Change Moment)
    (h : Timed sessions) (happly : c.apply sessions = some after)
    (hkeeps : ∀ client now, c = .connectionAdded client now → ∀ session,
      sessions.get client.id = some session → session.authorized = true →
      client.authorized = true → client.eligible = true → session.eligible = true) :
    Timed after := by
  cases c with
  | connectionAdded client now =>
    obtain rfl := Option.some.inj happly
    exact timed_insert sessions client.id _ h
      (added_timed sessions client now h (hkeeps client now rfl))
  | connectionAuthorized id now =>
    obtain rfl := Option.some.inj happly
    apply timed_modify sessions id _ h
    intro session hsession hactive
    unfold TrackedSession.nowAuthorized at hactive ⊢
    split
    · rename_i hauthorized
      rw [if_pos hauthorized] at hactive
      exact hsession hactive
    · rename_i hauthorized
      rw [if_neg hauthorized] at hactive
      simp only [TrackedSession.active, Bool.true_and] at hactive
      simp [hactive]
  | connectionIdentity id identity =>
    obtain rfl := Option.some.inj happly
    exact timed_modify sessions id _ h fun session hsession => hsession
  | connectionSessionCode id sessionCode =>
    obtain rfl := Option.some.inj happly
    exact timed_modify sessions id _ h fun session hsession => hsession
  | connectionPermission id name enabled =>
    simp only [Change.apply] at happly
    split at happly
    · rename_i session hget
      split at happly
      · rename_i changed hchanged
        obtain rfl := Option.some.inj happly
        obtain ⟨hactive, hstarted⟩ := withPermission_active session changed name enabled hchanged
        apply timed_insert sessions id changed h
        rw [hactive, hstarted]
        exact h id session hget
      · cases happly
    · obtain rfl := Option.some.inj happly
      exact h
  | connectionEffectivePermissions id keyboard clipboard audio file =>
    obtain rfl := Option.some.inj happly
    exact timed_modify sessions id _ h fun session hsession => hsession
  | connectionRemoved id =>
    obtain rfl := Option.some.inj happly
    intro id' session hget
    rw [SortedMap.get_erase] at hget
    split at hget
    · cases hget
    · exact h id' session hget

/-! ### The threads -/

def values (sessions : Sessions Moment) : List (TrackedSession Moment) :=
  sessions.entries.map Prod.snd

/-- Where a thread is: between calls, on the way to draw, or in `clear`. -/
inductive Phase where
  | idle
  | refreshing
  | refreshingLocked
  | drawing (text : Option Str)
  | clearing
  | clearingLocked
  | hiding
  deriving DecidableEq

/-- The thread holds the lock of `DISPLAYED`. -/
def Phase.locked : Phase → Bool
  | .refreshingLocked => true
  | .drawing _ => true
  | .clearingLocked => true
  | .hiding => true
  | _ => false

/-- What the threads share, what the platform shows, and where each thread is. -/
structure Host (Moment : Type) where
  sessions : Sessions Moment
  displayed : Bool
  displayedLock : Option ℕ
  shown : Option Str
  phase : ℕ → Phase

def start : Host Moment :=
  { sessions := .empty, displayed := false, displayedLock := none, shown := none
    phase := fun _ => .idle }

namespace Host

def setPhase (h : Host Moment) (t : ℕ) (p : Phase) : Host Moment :=
  { h with phase := fun u => if u = t then p else h.phase u }

def hideLocked (h : Host Moment) : Host Moment :=
  if h.displayed then { h with shown := none, displayed := false } else h

def draw (h : Host Moment) (text : Option Str) : Host Moment :=
  if text.isSome then { h with shown := text, displayed := true } else h.hideLocked

end Host

/-- A step of a thread: a call with its change under the lock of `SESSIONS`, and then, one by one,
taking the lock of `DISPLAYED`, reading or clearing the sessions, and drawing. -/
inductive Event (Moment : Type) where
  | change (t : ℕ) (c : Change Moment)
  | clear (t : ℕ)
  | lock (t : ℕ)
  | read (t : ℕ) (order : List (TrackedSession Moment))
  | draw (t : ℕ)

variable (l : Locale Moment)

def step [DecidableEq Moment] (h : Host Moment) : Event Moment → Option (Host Moment)
  | .change t c =>
    if h.phase t = .idle then
      match c.apply h.sessions with
      | some sessions => some ({ h with sessions := sessions }.setPhase t .refreshing)
      | none => some h
    else none
  | .clear t => if h.phase t = .idle then some (h.setPhase t .clearing) else none
  | .lock t =>
    if h.displayedLock = none then
      match h.phase t with
      | .refreshing => some ({ h with displayedLock := some t }.setPhase t .refreshingLocked)
      | .clearing => some ({ h with displayedLock := some t }.setPhase t .clearingLocked)
      | _ => none
    else none
  | .read t order =>
    match h.phase t with
    | .refreshingLocked =>
      if order.Perm (values h.sessions) then
        let shown := (order.filter TrackedSession.active).filterMap TrackedSession.watermarkSession
        some (h.setPhase t (.drawing (watermarkText l shown)))
      else none
    | .clearingLocked => some ({ h with sessions := .empty }.setPhase t .hiding)
    | _ => none
  | .draw t =>
    match h.phase t with
    | .drawing text => some ({ h.draw text with displayedLock := none }.setPhase t .idle)
    | .hiding => some ({ h.hideLocked with displayedLock := none }.setPhase t .idle)
    | _ => none

/-! ### What is shown -/

def Shows (shown : Option Str) (sessions : Sessions Moment) : Prop :=
  ∃ order : List (WatermarkSession Moment),
    (order.map some).Perm (((values sessions).filter TrackedSession.active).map
      TrackedSession.watermarkSession) ∧ shown = watermarkText l order

/-- Some thread is still going to read the sessions, or has the right text in its hands, or the
right text is shown. -/
def Fresh (h : Host Moment) : Prop :=
  (∃ t, h.phase t = .refreshing ∨ h.phase t = .refreshingLocked) ∨
  (∃ t text, h.phase t = .drawing text ∧ Shows l text h.sessions) ∨
  (∃ t, h.phase t = .hiding ∧ Shows l none h.sessions) ∨
  ((∀ t, (∀ text, h.phase t ≠ .drawing text) ∧ h.phase t ≠ .hiding) ∧ Shows l h.shown h.sessions)

structure Tracked (h : Host Moment) : Prop where
  lock : ∀ t, (h.phase t).locked = true ↔ h.displayedLock = some t
  displayed : h.displayed = h.shown.isSome
  timed : Timed h.sessions
  fresh : Fresh l h

/-- A session that is authorised already does not become eligible. -/
def KeepsStart (h : Host Moment) : Event Moment → Prop
  | .change _ (.connectionAdded client _) =>
    ∀ session, h.sessions.get client.id = some session → session.authorized = true →
      client.authorized = true → client.eligible = true → session.eligible = true
  | _ => True

/-! ### Steps of the threads -/

namespace Host

@[simp] theorem setPhase_self (h : Host Moment) (t : ℕ) (p : Phase) :
    (h.setPhase t p).phase t = p := by
  simp [setPhase]

theorem setPhase_other (h : Host Moment) (t u : ℕ) (p : Phase) (hne : u ≠ t) :
    (h.setPhase t p).phase u = h.phase u := by
  simp [setPhase, hne]

theorem forall_setPhase (h : Host Moment) (t : ℕ) (p : Phase) (P : ℕ → Phase → Prop) (ht : P t p)
    (hothers : ∀ u, u ≠ t → P u (h.phase u)) : ∀ u, P u ((h.setPhase t p).phase u) := by
  intro u
  by_cases hne : u = t
  · rw [hne, setPhase_self]
    exact ht
  · rw [setPhase_other h t u p hne]
    exact hothers u hne

end Host

def LockHeld (h : Host Moment) : Prop := ∀ t, (h.phase t).locked = true ↔ h.displayedLock = some t

variable (h : Host Moment) (t : ℕ) (p : Phase)

theorem lockHeld_same
    (hp : p.locked = (h.phase t).locked) (hlock : LockHeld h) : LockHeld (h.setPhase t p) := by
  refine h.forall_setPhase t p (fun u q => q.locked = true ↔ h.displayedLock = some u) ?_ ?_
  · rw [hp]
    exact hlock t
  · exact fun u _ => hlock u

theorem lockHeld_take (hp : p.locked = true) (hfree : h.displayedLock = none) (hlock : LockHeld h) :
    LockHeld ({ h with displayedLock := some t }.setPhase t p) := by
  refine Host.forall_setPhase _ t p (fun u q => q.locked = true ↔ some t = some u) ?_ ?_
  · simp [hp]
  · intro u hne
    have hfalse : (h.phase u).locked = false := by
      have hu := hlock u
      rw [hfree] at hu
      simpa using hu
    simp [hfalse, Ne.symm hne]

theorem lockHeld_release (hp : p.locked = false)
    (hheld : (h.phase t).locked = true) (hlock : LockHeld h) :
    LockHeld ({ h with displayedLock := none }.setPhase t p) := by
  have holder := (hlock t).mp hheld
  refine Host.forall_setPhase _ t p (fun u q => q.locked = true ↔ none = some u) ?_ ?_
  · simp [hp]
  · intro u hne
    have hfalse : (h.phase u).locked = false := by
      have hu := hlock u
      rw [holder] at hu
      simpa [Ne.symm hne] using hu
    simp [hfalse]

theorem LockHeld.unique (hlock : LockHeld h) (t u : ℕ)
    (ht : (h.phase t).locked = true) (hu : (h.phase u).locked = true) : t = u := by
  have holder := (hlock t).mp ht
  rw [(hlock u).mp hu] at holder
  exact (Option.some.inj holder).symm

/-- A thread on the way to its lock, or that takes it to clear, changes nothing about the text. -/
theorem fresh_setPhase (hbefore : h.phase t = .idle ∨ h.phase t = .clearing)
    (hafter : p = .clearing ∨ p = .clearingLocked) (hfresh : Fresh l h) :
    Fresh l (h.setPhase t p) := by
  rcases hfresh with ⟨u, hu⟩ | ⟨u, text, hu, hshows⟩ | ⟨u, hu, hshows⟩ | ⟨hnone, hshows⟩
  · refine Or.inl ⟨u, ?_⟩
    rwa [Host.setPhase_other]
    rintro rfl
    rcases hbefore with h' | h' <;> rcases hu with h'' | h'' <;> cases h'.symm.trans h''
  · refine Or.inr (Or.inl ⟨u, text, ?_, hshows⟩)
    rwa [Host.setPhase_other]
    rintro rfl
    rcases hbefore with h' | h' <;> cases h'.symm.trans hu
  · refine Or.inr (Or.inr (Or.inl ⟨u, ?_, hshows⟩))
    rwa [Host.setPhase_other]
    rintro rfl
    rcases hbefore with h' | h' <;> cases h'.symm.trans hu
  · refine Or.inr (Or.inr (Or.inr ⟨?_, hshows⟩))
    refine h.forall_setPhase t p (fun _ q => (∀ text, q ≠ .drawing text) ∧ q ≠ .hiding) ?_ ?_
    · rcases hafter with rfl | rfl <;> simp
    · exact fun u _ => hnone u

theorem draw_eq (text : Option Str) (hdisplayed : h.displayed = h.shown.isSome) :
    h.draw text = { h with shown := text, displayed := text.isSome } := by
  obtain ⟨sessions, displayed, displayedLock, shown, phase⟩ := h
  obtain rfl : displayed = shown.isSome := hdisplayed
  unfold Host.draw Host.hideLocked
  cases text with
  | some text => rfl
  | none =>
    cases shown with
    | none => rfl
    | some text => rfl

theorem fresh_draw (text : Option Str) (hlock : LockHeld h)
    (hphase : h.phase t = .drawing text ∨ h.phase t = .hiding ∧ text = none)
    (hfresh : Fresh l h) :
    Fresh l
      ({ h with shown := text, displayed := text.isSome, displayedLock := none }.setPhase
        t .idle) := by
  have hheld : (h.phase t).locked = true := by
    rcases hphase with hp | ⟨hp, -⟩
    · rw [hp]
      rfl
    · rw [hp]
      rfl
  -- nobody else draws
  have hothers : ∀ u, u ≠ t → (∀ text, h.phase u ≠ .drawing text) ∧ h.phase u ≠ .hiding := by
    intro u hne
    refine ⟨fun text' hu => hne ?_, fun hu => hne ?_⟩
    · exact hlock.unique h u t (by rw [hu]; rfl) hheld
    · exact hlock.unique h u t (by rw [hu]; rfl) hheld
  have hdrawn : ∀ hshows : Shows l text h.sessions, Fresh l
      ({ h with shown := text, displayed := text.isSome, displayedLock := none }.setPhase
        t .idle) := by
    intro hshows
    refine Or.inr (Or.inr (Or.inr ⟨?_, hshows⟩))
    refine Host.forall_setPhase _ t .idle
      (fun _ q => (∀ text, q ≠ .drawing text) ∧ q ≠ .hiding) ?_ hothers
    simp
  rcases hfresh with ⟨u, hu⟩ | ⟨u, text', hu, hshows⟩ | ⟨u, hu, hshows⟩ | ⟨hnone, -⟩
  · refine Or.inl ⟨u, ?_⟩
    rwa [Host.setPhase_other]
    rintro rfl
    rcases hphase with hp | ⟨hp, -⟩
    · rw [hp] at hu
      simp at hu
    · rw [hp] at hu
      simp at hu
  · obtain rfl : u = t := by
      by_contra hne
      exact (hothers u hne).1 text' hu
    rcases hphase with hp | ⟨hp, -⟩
    · obtain rfl := Phase.drawing.inj (hp.symm.trans hu)
      exact hdrawn hshows
    · cases hp.symm.trans hu
  · obtain rfl : u = t := by
      by_contra hne
      exact (hothers u hne).2 hu
    rcases hphase with hp | ⟨-, rfl⟩
    · cases hp.symm.trans hu
    · exact hdrawn hshows
  · rcases hphase with hp | ⟨hp, -⟩
    · exact absurd hp ((hnone t).1 text)
    · exact absurd hp (hnone t).2

theorem shows_read (sessions : Sessions Moment) (order : List (TrackedSession Moment))
    (htimed : Timed sessions) (horder : order.Perm (values sessions)) :
    Shows l
      (watermarkText l
        ((order.filter TrackedSession.active).filterMap TrackedSession.watermarkSession))
      sessions := by
  refine ⟨_, ?_, rfl⟩
  have hsome : ∀ session ∈ order.filter TrackedSession.active,
      session.watermarkSession.isSome = true := by
    intro session hsession
    obtain ⟨hmem, hactive⟩ := List.mem_filter.mp hsession
    obtain ⟨e, he, rfl⟩ := List.mem_map.mp (horder.subset hmem)
    have hget := (sessions.mem_entries_iff e.1 e.2).mp he
    simpa [TrackedSession.watermarkSession] using htimed e.1 e.2 hget hactive
  have hall : ((order.filter TrackedSession.active).filterMap
      TrackedSession.watermarkSession).map some =
      (order.filter TrackedSession.active).map TrackedSession.watermarkSession := by
    generalize order.filter TrackedSession.active = active at hsome
    induction active with
    | nil => rfl
    | cons session active ih =>
      obtain ⟨hfirst, hrest⟩ := List.forall_mem_cons.mp hsome
      obtain ⟨shown, hshown⟩ := Option.isSome_iff_exists.mp hfirst
      rw [List.filterMap_cons_some hshown, List.map_cons, List.map_cons, ih hrest, hshown]
  rw [hall]
  exact (horder.filter _).map _

theorem tracked_start : Tracked l (start : Host Moment) := by
  refine ⟨fun t => by simp [start, Phase.locked], rfl, ?_, ?_⟩
  · intro id session hget
    simp [start] at hget
  · refine Or.inr (Or.inr (Or.inr ⟨fun t => by simp [start], [], ?_, rfl⟩))
    exact List.Perm.refl _

inductive Moves [DecidableEq Moment] (h : Host Moment) : Event Moment → Host Moment → Prop where
  | change (t : ℕ) (c : Change Moment) (sessions : Sessions Moment) (hidle : h.phase t = .idle)
    (happly : c.apply h.sessions = some sessions) :
    Moves h (.change t c) ({ h with sessions := sessions }.setPhase t .refreshing)
  | refused (t : ℕ) (c : Change Moment) : Moves h (.change t c) h
  | clear (t : ℕ) (hidle : h.phase t = .idle) : Moves h (.clear t) (h.setPhase t .clearing)
  | lockRefreshing (t : ℕ) (hfree : h.displayedLock = none) (hphase : h.phase t = .refreshing) :
    Moves h (.lock t) ({ h with displayedLock := some t }.setPhase t .refreshingLocked)
  | lockClearing (t : ℕ) (hfree : h.displayedLock = none) (hphase : h.phase t = .clearing) :
    Moves h (.lock t) ({ h with displayedLock := some t }.setPhase t .clearingLocked)
  | read (t : ℕ) (order : List (TrackedSession Moment)) (hphase : h.phase t = .refreshingLocked)
    (horder : order.Perm (values h.sessions)) :
    Moves h (.read t order) (h.setPhase t (.drawing (watermarkText l
      ((order.filter TrackedSession.active).filterMap TrackedSession.watermarkSession))))
  | empty (t : ℕ) (order : List (TrackedSession Moment)) (hphase : h.phase t = .clearingLocked) :
    Moves h (.read t order) ({ h with sessions := .empty }.setPhase t .hiding)
  | draw (t : ℕ) (text : Option Str) (hphase : h.phase t = .drawing text) :
    Moves h (.draw t) ({ h.draw text with displayedLock := none }.setPhase t .idle)
  | hide (t : ℕ) (hphase : h.phase t = .hiding) :
    Moves h (.draw t) ({ h.hideLocked with displayedLock := none }.setPhase t .idle)

theorem moves_of_step [DecidableEq Moment] (h h' : Host Moment) (e : Event Moment)
    (hstep : step l h e = some h') : Moves l h e h' := by
  cases e with
  | change t c =>
    simp only [step] at hstep
    split at hstep
    · rename_i hidle
      split at hstep
      · rename_i sessions happly
        exact Option.some.inj hstep ▸ .change t c sessions hidle happly
      · exact Option.some.inj hstep ▸ .refused t c
    · cases hstep
  | clear t =>
    simp only [step] at hstep
    split at hstep
    · rename_i hidle
      exact Option.some.inj hstep ▸ .clear t hidle
    · cases hstep
  | lock t =>
    simp only [step] at hstep
    split at hstep
    · rename_i hfree
      split at hstep
      · rename_i hphase
        exact Option.some.inj hstep ▸ .lockRefreshing t hfree hphase
      · rename_i hphase
        exact Option.some.inj hstep ▸ .lockClearing t hfree hphase
      · cases hstep
    · cases hstep
  | read t order =>
    simp only [step] at hstep
    split at hstep
    · rename_i hphase
      split at hstep
      · rename_i horder
        exact Option.some.inj hstep ▸ .read t order hphase horder
      · cases hstep
    · rename_i hphase
      exact Option.some.inj hstep ▸ .empty t order hphase
    · cases hstep
  | draw t =>
    simp only [step] at hstep
    split at hstep
    · rename_i text hphase
      exact Option.some.inj hstep ▸ .draw t text hphase
    · rename_i hphase
      exact Option.some.inj hstep ▸ .hide t hphase
    · cases hstep

theorem tracked_step [DecidableEq Moment] (h h' : Host Moment) (e : Event Moment)
    (hkeeps : KeepsStart h e) (htracked : Tracked l h) (hstep : step l h e = some h') :
    Tracked l h' := by
  obtain ⟨hlock, hdisplayed, htimed, hfresh⟩ := htracked
  cases moves_of_step l h h' e hstep with
  | change t c sessions hidle happly =>
    refine ⟨?_, hdisplayed, ?_, Or.inl ⟨t, Or.inl (Host.setPhase_self _ t _)⟩⟩
    · exact lockHeld_same { h with sessions := sessions } t .refreshing
        (by simp [hidle, Phase.locked]) hlock
    · apply timed_apply h.sessions sessions c htimed happly
      rintro client now rfl
      exact hkeeps
  | refused t c => exact ⟨hlock, hdisplayed, htimed, hfresh⟩
  | clear t hidle =>
    refine ⟨?_, hdisplayed, htimed, ?_⟩
    · exact lockHeld_same h t .clearing (by simp [hidle, Phase.locked]) hlock
    · exact fresh_setPhase l h t .clearing (Or.inl hidle) (Or.inl rfl) hfresh
  | lockRefreshing t hfree hphase =>
    refine ⟨?_, hdisplayed, htimed, Or.inl ⟨t, Or.inr (Host.setPhase_self _ t _)⟩⟩
    exact lockHeld_take h t .refreshingLocked rfl hfree hlock
  | lockClearing t hfree hphase =>
    refine ⟨lockHeld_take h t .clearingLocked rfl hfree hlock, hdisplayed, htimed, ?_⟩
    exact fresh_setPhase l { h with displayedLock := some t } t .clearingLocked (Or.inr hphase)
      (Or.inr rfl) hfresh
  | read t order hphase horder =>
    refine ⟨?_, hdisplayed, htimed, Or.inr (Or.inl ⟨t, _, Host.setPhase_self _ t _, ?_⟩)⟩
    · exact lockHeld_same h t _ (by simp [hphase, Phase.locked]) hlock
    · exact shows_read l h.sessions order htimed horder
  | empty t order hphase =>
    refine ⟨?_, hdisplayed, ?_,
      Or.inr (Or.inr (Or.inl ⟨t, Host.setPhase_self _ t _, [], ?_, rfl⟩))⟩
    · exact lockHeld_same { h with sessions := .empty } t .hiding
        (by simp [hphase, Phase.locked]) hlock
    · intro id session hget
      simp [Host.setPhase] at hget
    · exact List.Perm.refl _
  | draw t text hphase =>
    rw [draw_eq h text hdisplayed]
    refine ⟨?_, rfl, htimed, fresh_draw l h t text hlock (Or.inl hphase) hfresh⟩
    exact lockHeld_release { h with shown := text, displayed := text.isSome } t .idle rfl
      (by simp [hphase, Phase.locked]) hlock
  | hide t hphase =>
    have hhide : h.hideLocked = { h with shown := none, displayed := false } :=
      draw_eq h none hdisplayed
    rw [hhide]
    refine ⟨?_, rfl, htimed, fresh_draw l h t none hlock (Or.inr ⟨hphase, rfl⟩) hfresh⟩
    exact lockHeld_release { h with shown := none, displayed := false } t .idle rfl
      (by simp [hphase, Phase.locked]) hlock

/-- In every run in which no authorised session of another kind becomes one that counts, between
the calls nothing is shown exactly if no session is authorised and eligible, and otherwise the text
is that of exactly these sessions. -/
theorem watermark_current [DecidableEq Moment] (es : List (Event Moment)) (h : Host Moment)
    (hkeeps : Runs.Meets KeepsStart (step l) start es)
    (hrun : Runs.exec (step l) start es = some h) (hidle : ∀ t, h.phase t = .idle) :
    (h.shown = none ↔ ¬ ∃ id session, h.sessions.get id = some session ∧
      session.authorized = true ∧ session.eligible = true) ∧
    ∃ order : List (WatermarkSession Moment),
      (order.map some).Perm (((values h.sessions).filter TrackedSession.active).map
        TrackedSession.watermarkSession) ∧ h.shown = watermarkText l order := by
  have htracked : Tracked l h :=
    Runs.invariant_of_meets KeepsStart (step l) (Tracked l)
      (fun s e t hguard hinv => tracked_step l s t e hguard hinv) start h es (tracked_start l)
      hkeeps hrun
  have hshows : Shows l h.shown h.sessions := by
    rcases htracked.fresh with ⟨t, ht⟩ | ⟨t, text, ht, -⟩ | ⟨t, ht, -⟩ | ⟨-, hshows⟩
    · simp [hidle t] at ht
    · simp [hidle t] at ht
    · simp [hidle t] at ht
    · exact hshows
  obtain ⟨order, horder, htext⟩ := hshows
  refine ⟨?_, order, horder, htext⟩
  rw [htext, watermarkText_eq_none]
  have hempty : order = [] ↔ (values h.sessions).filter TrackedSession.active = [] := by
    have hlength := horder.length_eq
    rw [List.length_map, List.length_map] at hlength
    rw [← List.length_eq_zero_iff, hlength, List.length_eq_zero_iff]
  rw [hempty, List.filter_eq_nil_iff]
  constructor
  · rintro hnone ⟨id, session, hget, hauthorized, heligible⟩
    have hmem : session ∈ values h.sessions :=
      List.mem_map.mpr ⟨(id, session), (h.sessions.mem_entries_iff id session).mpr hget, rfl⟩
    exact hnone session hmem (by simp [TrackedSession.active, hauthorized, heligible])
  · intro hnone session hmem hactive
    obtain ⟨e, he, rfl⟩ := List.mem_map.mp hmem
    simp only [TrackedSession.active, Bool.and_eq_true] at hactive
    exact hnone ⟨e.1, e.2, (h.sessions.mem_entries_iff e.1 e.2).mp he, hactive⟩

/-! ### A session that is left out -/

def Event.thread : Event Moment → ℕ
  | .change t _ => t
  | .clear t => t
  | .lock t => t
  | .read t _ => t
  | .draw t => t

/-- A step of one thread leaves the others where they are. -/
theorem phase_step [DecidableEq Moment] (h h' : Host Moment) (e : Event Moment) (u : ℕ)
    (hu : u ≠ e.thread) (hstep : step l h e = some h') : h'.phase u = h.phase u := by
  have hdraw : ∀ text, (h.draw text).phase = h.phase := by
    intro text
    unfold Host.draw Host.hideLocked
    split
    · rfl
    · split <;> rfl
  cases moves_of_step l h h' e hstep with
  | change t | clear t | lockRefreshing t | lockClearing t | read t | empty t =>
    exact Host.setPhase_other _ t u _ hu
  | refused t c => rfl
  | draw t text hphase =>
    rw [Host.setPhase_other _ t u _ hu]
    exact congrFun (hdraw text) u
  | hide t hphase =>
    rw [Host.setPhase_other _ t u _ hu]
    exact congrFun (hdraw none) u

theorem idle_of_thread [DecidableEq Moment] (es : List (Event Moment)) (h : Host Moment) (t : ℕ)
    (hthread : ∀ e ∈ es, e.thread = t) (hrun : Runs.exec (step l) start es = some h) :
    ∀ u, u ≠ t → h.phase u = .idle := by
  intro u hu
  apply Runs.invariant_of_forall (fun e => e.thread = t) (step l) (fun h => h.phase u = .idle) ?_
    start h es rfl hthread hrun
  intro s e s' he hs hstep
  rw [phase_step l s s' e u (by rwa [he]) hstep, hs]

def technicianClient (isFileTransfer : Bool) : Client :=
  { id := 1, peerId := ['7'], name := [], sessionCode := []
    isFileTransfer := isFileTransfer, isViewCamera := false, isTerminal := false, portForward := []
    authorized := true, keyboard := true, clipboard := true, audio := true, file := true
    restart := true, recording := true, blockInput := true, privacyMode := true }

def plainLocale : Locale ℕ := ⟨fun minutes => minutes, fun _ => [], fun key => key⟩

def addedAlone (client : Client) (now : ℕ) (session : TrackedSession ℕ) : List (Event ℕ) :=
  [.change 0 (.connectionAdded client now), .lock 0, .read 0 [session], .draw 0]

def leftOut : List (Event ℕ) :=
  let session := ((technicianClient true).newSession 3).added (technicianClient true) 3
  addedAlone (technicianClient true) 3 session ++
    addedAlone (technicianClient false) 5 (session.added (technicianClient false) 5)

/-- The session is authorised and eligible, and nothing is shown. -/
theorem watermark_left_out :
    ∃ h : Host ℕ, Runs.exec (step plainLocale) start leftOut = some h ∧
      (∀ t, h.phase t = .idle) ∧ h.shown = none ∧
      ∃ id session, h.sessions.get id = some session ∧ session.authorized = true ∧
        session.eligible = true := by
  obtain ⟨h, hrun⟩ : ∃ h, Runs.exec (step plainLocale) start leftOut = some h := ⟨_, rfl⟩
  have hphase : (Runs.exec (step plainLocale) start leftOut).map (fun h => h.phase 0) =
      some .idle := rfl
  have hshown : (Runs.exec (step plainLocale) start leftOut).map Host.shown = some none := rfl
  have hactive : (Runs.exec (step plainLocale) start leftOut).map
      (fun h => (h.sessions.get 1).map TrackedSession.active) = some (some true) := rfl
  rw [hrun, Option.map_some, Option.some.injEq] at hphase hshown hactive
  refine ⟨h, hrun, fun t => ?_, hshown, 1, ?_⟩
  · by_cases ht : t = 0
    · rw [ht, hphase]
    · exact idle_of_thread plainLocale leftOut h 0 (by decide) hrun t ht
  · obtain ⟨session, hget, hcounts⟩ := Option.map_eq_some_iff.mp hactive
    exact ⟨session, hget, by simpa [TrackedSession.active] using hcounts⟩

theorem watermark_current_desktop :
    ∃ h : Host ℕ, Runs.exec (step plainLocale) start (addedAlone (technicianClient false) 3
        (((technicianClient false).newSession 3).added (technicianClient false) 3)) = some h ∧
      h.shown ≠ none ∧ ∃ order : List (WatermarkSession ℕ),
        (order.map some).Perm (((values h.sessions).filter TrackedSession.active).map
          TrackedSession.watermarkSession) ∧ h.shown = watermarkText plainLocale order := by
  obtain ⟨h, hrun⟩ : ∃ h, Runs.exec (step plainLocale) start
      (addedAlone (technicianClient false) 3
        (((technicianClient false).newSession 3).added (technicianClient false) 3)) = some h :=
    ⟨_, rfl⟩
  have hphase : (Runs.exec (step plainLocale) start (addedAlone (technicianClient false) 3
      (((technicianClient false).newSession 3).added (technicianClient false) 3))).map
      (fun h => h.phase 0) = some .idle := rfl
  have hshown : (Runs.exec (step plainLocale) start (addedAlone (technicianClient false) 3
      (((technicianClient false).newSession 3).added (technicianClient false) 3))).map
      (fun h => h.shown.isSome) = some true := rfl
  rw [hrun, Option.map_some, Option.some.injEq] at hphase hshown
  have hidle : ∀ t, h.phase t = .idle := by
    intro t
    by_cases ht : t = 0
    · rw [ht, hphase]
    · exact idle_of_thread plainLocale _ h 0 (by decide) hrun t ht
  have hkeeps : Runs.Meets KeepsStart (step plainLocale) start (addedAlone (technicianClient false)
      3 (((technicianClient false).newSession 3).added (technicianClient false) 3)) := by
    refine ⟨?_, fun _ _ => ⟨trivial, fun _ _ => ⟨trivial, fun _ _ => ⟨trivial, fun _ _ =>
      trivial⟩⟩⟩⟩
    intro session hget
    cases hget
  refine ⟨h, hrun, ?_, (watermark_current plainLocale _ h hkeeps hrun hidle).2⟩
  exact Option.isSome_iff_ne_none.mp hshown

end ClantoDesk.HostWatermark
