import ClantoDesk.PolicyDocuments
import ClantoDesk.Text

/-!
Enrolment of the device in a tenant, src/clanto/enrollment.rs, with the store of tenant keys and
the policy that belong to it. Token enrolments, QR sessions, answers of the server, revocations,
policies and key documents run on threads of their own; a task is such a thread, between two of
its accesses to what they share. That the device is not enrolled is only checked before the
first request, and the generation of a QR session only when its view is read or written.
-/
namespace ClantoDesk.EnrollmentFlows

open TenantKeys KeyRotation ManagedConfig PolicyDocuments Text

structure Enrolled extends TenantKeys.Enrollment where
  tenantName : String
  enrolledAt : Int64
  api : String
  deriving DecidableEq

structure EnrollResponse where
  deviceId : String
  tenantId : String
  tenantName : String
  tenantKey : String
  policy : Option Signed

/-- The fields of an answer to a QR request; a missing one is empty or zero. -/
structure PollAnswer where
  session : String
  state : String
  code : String
  qr : String
  codeExpiresAt : Int64
  expiresAt : Int64
  tenantName : String
  claimedBy : String

/-- The libraries, with the parsers of the server's answers. `errorCode` is the field `error`. -/
structure EnrollLibraries extends PolicyLibraries where
  errorCode : String → Option String
  parseEnroll : String → Except String EnrollResponse
  parsePoll : String → Option PollAnswer

structure QrView where
  state : String := "idle"
  code : String := ""
  qr : String := ""
  codeExpiresAt : Int64 := 0
  expiresAt : Int64 := 0
  tenantName : String := ""
  claimedBy : String := ""
  error : String := ""

structure QrSession where
  view : QrView
  session : String
  generation : ℕ
  decision : Option Bool

inductive Source
  | interface
  | machine

inductive Flow
  | token (source : Source)
  | qr (generation : ℕ)

/-- What `finish_enrollment` does next, once the answer is read. -/
inductive FinishStage
  | stateFile | keys | keysFile | current

/-- What `clear` does next. -/
inductive ClearStage
  | stateFile | current | keys | keysFile | policyFile | policy

inductive Task
  | starting (source : Source) (token : Str)
  | posted (source : Source) (api : String)
  | qrStarting (generation : ℕ)
  | qrStartSent (generation : ℕ) (api : String)
  | qrPolling (generation : ℕ) (api session : String)
  | qrPollSent (generation : ℕ) (api session : String)
  | qrConfirmSent (generation : ℕ) (api session : String) (accept : Bool)
  | finishing (stage : FinishStage) (flow : Flow) (e : Enrolled) (policy : Option Signed)
  | policyArrived (after : Option (Flow × Enrolled)) (signed : Signed)
  | policyRead (after : Option (Flow × Enrolled)) (signed : Signed) (e : Enrolled)
  | policyVerifying (after : Option (Flow × Enrolled)) (signed : Signed) (e : Enrolled)
  | policyStore (after : Option (Flow × Enrolled)) (signed : Signed) (e found : Enrolled)
  | policyVerified (after : Option (Flow × Enrolled)) (signed : Signed) (e : Enrolled)
      (policy : Policy)
  | policySaving (after : Option (Flow × Enrolled)) (signed : Signed) (e : Enrolled)
      (policy : Policy)
  | policyApplying (after : Option (Flow × Enrolled)) (e : Enrolled) (policy : Policy)
  | policyReady (after : Option (Flow × Enrolled)) (e : Enrolled) (policy : Policy)
      (next : Settings)
  | documentArrived (doc : Received)
  | documentStore (doc : Received) (e : Enrolled)
  | useArrived (now : Int64)
  | useStore (now : Int64) (e : Enrolled)
  | clearing (stage : ClearStage)

structure System where
  current : Option Enrolled
  stateFile : Option Enrolled
  keys : Keys
  settings : State
  policyFile : Option Signed
  busy : Bool
  error : String
  qr : QrSession
  tasks : List Task

/-! ### What a task does in one access -/

inductive Answer
  | failed (error : String)
  | body (text : String)

/-- The outcomes of one access: the machine's configuration, the server's answer, whether a file
could be written or removed, and the clock. -/
structure Input where
  outgoingOnly : Bool := false
  api : Option String := none
  deviceKey : Bool := true
  answer : Answer := .failed ""
  ok : Bool := true
  now : Int64 := 0

def decodeKey (lib : EnrollLibraries) (b64 : String) : Option Bytes :=
  (lib.decode64 b64).bind lib.publicKeyFromSlice

def precheck (s : System) (input : Input) : Except String String :=
  if s.current.isSome then .error "already_enrolled"
  else if input.outgoingOnly then .error "outgoing_only"
  else match input.api with
    | none => .error "api_server_not_configured"
    | some api => if input.deviceKey then .ok api else .error "device_key_unavailable"

def readResponse (lib : EnrollLibraries) (api : String) (now : Int64) (body : String) :
    Except String (Enrolled × Option Signed) :=
  match lib.errorCode body with
  | some code => .error code
  | none => match lib.parseEnroll body with
    | .error text => .error text
    | .ok rsp =>
      if rsp.deviceId = "" ∨ decodeKey lib rsp.tenantKey = none then
        .error "invalid enrollment response"
      else .ok ({ deviceId := rsp.deviceId
                  tenantId := rsp.tenantId
                  tenantKey := rsp.tenantKey
                  tenantName := rsp.tenantName
                  enrolledAt := now
                  api := api }, rsp.policy)

def applyPoll (view : QrView) (v : PollAnswer) : QrView :=
  { view with
    state := v.state
    code := if v.code = "" then view.code else v.code
    qr := if v.qr = "" then view.qr else v.qr
    codeExpiresAt := if 0 < v.codeExpiresAt then v.codeExpiresAt else view.codeExpiresAt
    expiresAt := if 0 < v.expiresAt then v.expiresAt else view.expiresAt
    tenantName := v.tenantName
    claimedBy := v.claimedBy }

/-- `qr_update`, when the generation is still this one. -/
def System.qrUpdate (s : System) (generation : ℕ) (f : QrSession → QrSession) : System :=
  if s.qr.generation = generation then { s with qr := f s.qr } else s

def failView (error : String) (q : QrSession) : QrSession :=
  { q with view := { q.view with state := "error", error := error } }

def doneView (tenantName : String) (q : QrSession) : QrSession :=
  { q with view := { q.view with state := "done", tenantName := tenantName } }

def rejectedView (q : QrSession) : QrSession :=
  { q with view := { q.view with state := "rejected" } }

def waitingView (v : PollAnswer) (q : QrSession) : QrSession :=
  { q with
    session := v.session
    view := { applyPoll q.view v with state := "waiting" } }

def polledView (v : PollAnswer) (q : QrSession) : QrSession :=
  { q with view := applyPoll q.view v }

def System.setActivity (s : System) (busy : Bool) (error : String) : System :=
  { s with busy := busy, error := error }

def System.failFlow (s : System) (flow : Flow) (error : String) : System :=
  match flow with
  | .token .interface => s.setActivity false error
  | .token .machine => s
  | .qr generation => s.qrUpdate generation (failView error)

def System.endFlow (s : System) : Option (Flow × Enrolled) → System
  | none => s
  | some (.token .interface, _) => s.setActivity false ""
  | some (.token .machine, _) => s
  | some (.qr generation, e) => s.qrUpdate generation (doneView e.tenantName)

def System.setCurrent (s : System) (e : Option Enrolled) : System := { s with current := e }
def System.setStateFile (s : System) (e : Option Enrolled) : System := { s with stateFile := e }
def System.setKeys (s : System) (keys : Keys) : System := { s with keys := keys }
def System.setPolicyFile (s : System) (f : Option Signed) : System := { s with policyFile := f }

def System.applyPolicy (s : System) (next : Settings) (policy : Option Policy) : System :=
  { s with settings := applyEffective next policy s.settings }

/-- `finish_enrollment` after the answer is read: the file, the two parts of the reset of the
keys, and the enrolment in force. -/
def finishStep (s : System) (flow : Flow) (e : Enrolled) (policy : Option Signed) (ok : Bool) :
    FinishStage → System × Option Task
  | .stateFile =>
    if ok then (s.setStateFile (some e), some (.finishing .keys flow e policy))
    else (s.failFlow flow "cannot write the enrollment state", none)
  | .keys => (s.setKeys ⟨none, s.keys.file⟩, some (.finishing .keysFile flow e policy))
  | .keysFile =>
    (s.setKeys ⟨s.keys.cached, if ok then none else s.keys.file⟩,
      some (.finishing .current flow e policy))
  | .current =>
    match policy with
    | none => ((s.setCurrent (some e)).endFlow (some (flow, e)), none)
    | some signed => (s.setCurrent (some e), some (.policyArrived (some (flow, e)) signed))

def clearStep (s : System) (ok : Bool) : ClearStage → System × Option Task
  | .stateFile => (s.setStateFile (if ok then none else s.stateFile), some (.clearing .current))
  | .current => (s.setCurrent none, some (.clearing .keys))
  | .keys => (s.setKeys ⟨none, s.keys.file⟩, some (.clearing .keysFile))
  | .keysFile =>
    (s.setKeys ⟨s.keys.cached, if ok then none else s.keys.file⟩, some (.clearing .policyFile))
  | .policyFile => (s.setPolicyFile (if ok then none else s.policyFile), some (.clearing .policy))
  | .policy => (s.applyPolicy ∅ none, none)

def finished (state : String) : Bool :=
  state == "expired" || state == "rejected" || state == "done"

def qrStart (lib : EnrollLibraries) (s : System) (generation : ℕ) (api : String) :
    Answer → System × Option Task
  | .failed error => (s.failFlow (.qr generation) error, none)
  | .body text => match lib.errorCode text with
    | some code => (s.failFlow (.qr generation) code, none)
    | none => match lib.parsePoll text with
      | none => (s.failFlow (.qr generation) "invalid response", none)
      | some v =>
        if v.session = "" then (s.failFlow (.qr generation) "invalid response", none)
        else if s.qr.generation = generation then
          (s.qrUpdate generation (waitingView v), some (.qrPolling generation api v.session))
        else (s, none)

def qrLook (s : System) (generation : ℕ) (api session : String) (deviceKey : Bool) :
    System × Option Task :=
  if s.qr.generation = generation then
    if deviceKey then
      match s.qr.decision with
      | some accept => (s, some (.qrConfirmSent generation api session accept))
      | none => (s, some (.qrPollSent generation api session))
    else (s.failFlow (.qr generation) "device_key_unavailable", none)
  else (s, none)

def qrPolled (lib : EnrollLibraries) (s : System) (generation : ℕ) (api session : String) :
    Answer → System × Option Task
  | .failed _ => (s, some (.qrPolling generation api session))
  | .body text => match lib.errorCode text with
    | some code =>
      if code = "clock" then (s, some (.qrPolling generation api session))
      else (s.failFlow (.qr generation) code, none)
    | none => match lib.parsePoll text with
      | none => (s, some (.qrPolling generation api session))
      | some v =>
        if s.qr.generation = generation then
          (s.qrUpdate generation (polledView v),
            if finished v.state then none else some (.qrPolling generation api session))
        else (s, none)

def enrollAnswer (lib : EnrollLibraries) (s : System) (flow : Flow) (api : String) (now : Int64) :
    Answer → System × Option Task
  | .failed error => (s.failFlow flow error, none)
  | .body text => match readResponse lib api now text with
    | .error error => (s.failFlow flow error, none)
    | .ok (e, policy) => (s, some (.finishing .stateFile flow e policy))

def verified (s : System) (after : Option (Flow × Enrolled)) (signed : Signed) (e : Enrolled)
    (result : Except String Policy × Keys) : System × Option Task :=
  match result.1 with
  | .error _ => ((s.setKeys result.2).endFlow after, none)
  | .ok policy => (s.setKeys result.2, some (.policyVerified after signed e policy))

def advance (lib : EnrollLibraries) (s : System) (input : Input) : Task → System × Option Task
  | .starting source token =>
    match precheck s input with
    | .error error => (s.failFlow (.token source) error, none)
    | .ok api =>
      if trim token = [] ∨ 512 < byteLength (trim token) then
        (s.failFlow (.token source) "invalid_token", none)
      else (s, some (.posted source api))
  | .posted source api => enrollAnswer lib s (.token source) api input.now input.answer
  | .qrStarting generation =>
    match precheck s input with
    | .error error => (s.failFlow (.qr generation) error, none)
    | .ok api => (s, some (.qrStartSent generation api))
  | .qrStartSent generation api => qrStart lib s generation api input.answer
  | .qrPolling generation api session => qrLook s generation api session input.deviceKey
  | .qrPollSent generation api session => qrPolled lib s generation api session input.answer
  | .qrConfirmSent generation api _ accept =>
    if accept then enrollAnswer lib s (.qr generation) api input.now input.answer
    else (s.qrUpdate generation rejectedView, none)
  | .finishing stage flow e policy => finishStep s flow e policy input.ok stage
  | .policyArrived after signed =>
    match s.current with
    | none => (s.endFlow after, none)
    | some e => (s, some (.policyRead after signed e))
  | .policyRead after signed e =>
    match s.current with
    | none => verified s after signed e
        (verifyPolicy lib.toPolicyLibraries none s.keys input.now signed e.toEnrollment)
    | some _ => (s, some (.policyVerifying after signed e))
  | .policyVerifying after signed e =>
    match s.current with
    | none => (s.endFlow after, none)
    | some found => (s, some (.policyStore after signed e found))
  | .policyStore after signed e found =>
    verified s after signed e (verifyPolicy lib.toPolicyLibraries (some found.toEnrollment) s.keys
      input.now signed e.toEnrollment)
  | .policyVerified after signed e policy =>
    if policy.version < version s.settings then (s.endFlow after, none)
    else (s, some (.policySaving after signed e policy))
  | .policySaving after signed e policy =>
    (s.setPolicyFile (if input.ok then some signed else s.policyFile),
      some (.policyApplying after e policy))
  | .policyApplying after e policy =>
    (s, some (.policyReady after e policy (effectiveOptions policy (baselineOf s.settings))))
  | .policyReady after _ policy next => ((s.applyPolicy next (some policy)).endFlow after, none)
  | .documentArrived doc =>
    match s.current with
    | none => (s, none)
    | some e => (s, some (.documentStore doc e))
  | .documentStore doc e =>
    (s.setKeys (receive lib.toDocuments (some e.toEnrollment) doc s.keys).2, none)
  | .useArrived now =>
    match s.current with
    | none => (s, none)
    | some e => (s, some (.useStore now e))
  | .useStore now e =>
    (s.setKeys ⟨(withStore lib.toCrypto (some e.toEnrollment) s.keys.file now s.keys.cached
      fun st => ((), st)).2, s.keys.file⟩, none)
  | .clearing stage => clearStep s input.ok stage

/-! ### Threads and commands -/

def System.spawn (s : System) (task : Task) : System := { s with tasks := s.tasks ++ [task] }

def System.setTasks (s : System) (tasks : List Task) : System := { s with tasks := tasks }

def System.setQr (s : System) (q : QrSession) : System := { s with qr := q }

def startTokenEnrollment (s : System) (token : Str) : System :=
  if s.busy then s else (s.setActivity true "").spawn (.starting .interface token)

/-- The session after `start`: a new generation, and nothing of the one before. -/
def startedSession (q : QrSession) : QrSession :=
  { view := { state := "starting" }
    session := ""
    generation := q.generation + 1
    decision := none }

def cancelledSession (q : QrSession) : QrSession :=
  { q with generation := q.generation + 1, view := {} }

def decidedSession (accept : Bool) (q : QrSession) : QrSession :=
  { q with decision := some accept }

def qrCommand (s : System) (command : String) : System :=
  if command = "start" then
    (s.setQr (startedSession s.qr)).spawn (.qrStarting (s.qr.generation + 1))
  else if (command = "accept" ∨ command = "reject") ∧ s.qr.view.state = "claimed" then
    s.setQr (decidedSession (command == "accept") s.qr)
  else if command = "cancel" then s.setQr (cancelledSession s.qr)
  else s

inductive Event
  | token (token : Str)
  | gpoToken (token : Str)
  | qrCommand (command : String)
  | clear
  | policy (signed : Signed)
  | document (doc : Received)
  | useKeys (now : Int64)
  | advance (i : ℕ) (input : Input)

def replaceTask (tasks : List Task) (i : ℕ) : Option Task → List Task
  | none => tasks.eraseIdx i
  | some task => tasks.set i task

def step (lib : EnrollLibraries) (s : System) : Event → Option System
  | .token token => some (startTokenEnrollment s token)
  | .gpoToken token => some (s.spawn (.starting .machine token))
  | .qrCommand command => some (qrCommand s command)
  | .clear => some (s.spawn (.clearing .stateFile))
  | .policy signed => some (s.spawn (.policyArrived none signed))
  | .document doc => some (s.spawn (.documentArrived doc))
  | .useKeys now => some (s.spawn (.useArrived now))
  | .advance i input =>
    (s.tasks[i]?).map fun task =>
      let done := advance lib s input task
      done.1.setTasks (replaceTask s.tasks i done.2)

def start (lib : EnrollLibraries) (build : BuildSettings) (saved : Option Enrolled)
    (keysFile : Option Store) (policyFile : Option Signed) (now : Int64) : System :=
  let device : Device := ⟨⟨none, keysFile⟩, ManagedConfig.start build, policyFile, []⟩
  let device := match saved with
    | none => device
    | some e => applySaved lib.toPolicyLibraries e.toEnrollment now device
  { current := saved
    stateFile := saved
    keys := device.keys
    settings := device.settings
    policyFile := policyFile
    busy := false
    error := ""
    qr := ⟨{}, "", 0, none⟩
    tasks := [] }

/-! ### What the shared state is after one access -/

/-- What belongs to the tenant in force, and the generation, are as before. -/
structure Same (s t : System) : Prop where
  current : t.current = s.current
  cached : t.keys.cached = s.keys.cached
  policy : t.settings.policy = s.settings.policy
  generation : t.qr.generation = s.qr.generation

theorem Same.refl (s : System) : Same s s := ⟨rfl, rfl, rfl, rfl⟩

theorem same_qrUpdate (s : System) (generation : ℕ) (f : QrSession → QrSession)
    (hf : ∀ q, (f q).generation = q.generation) : Same s (s.qrUpdate generation f) := by
  rw [System.qrUpdate]
  split
  · exact ⟨rfl, rfl, rfl, hf s.qr⟩
  · exact Same.refl s

theorem same_failFlow (s : System) (flow : Flow) (error : String) :
    Same s (s.failFlow flow error) := by
  cases flow with
  | token source =>
    cases source with
    | interface => exact ⟨rfl, rfl, rfl, rfl⟩
    | machine => exact Same.refl s
  | qr generation => exact same_qrUpdate s generation _ fun _ => rfl

theorem same_endFlow (s : System) (after : Option (Flow × Enrolled)) :
    Same s (s.endFlow after) := by
  rcases after with _ | ⟨⟨_ | _⟩ | generation, e⟩
  · exact Same.refl s
  · exact ⟨rfl, rfl, rfl, rfl⟩
  · exact Same.refl s
  · exact same_qrUpdate s generation _ fun _ => rfl

variable (lib : EnrollLibraries)

variable (s : System) (keys : Keys) (flow : Flow) (event : Event) (i : ℕ) (input : Input)
  (task next : Task) (generation : ℕ) (api session : String) (now : Int64) (answer : Answer)

theorem same_enrollAnswer : Same s (enrollAnswer lib s flow api now answer).1 := by
  rw [enrollAnswer.eq_def]
  split
  · exact same_failFlow s flow _
  · split
    · exact same_failFlow s flow _
    · exact Same.refl s

theorem same_qrStart : Same s (qrStart lib s generation api answer).1 := by
  rw [qrStart.eq_def]
  split
  · exact same_failFlow s (.qr generation) _
  · split
    · exact same_failFlow s (.qr generation) _
    · split
      · exact same_failFlow s (.qr generation) _
      · split
        · exact same_failFlow s (.qr generation) _
        · split
          · exact same_qrUpdate s generation _ fun _ => rfl
          · exact Same.refl s

theorem same_qrLook (deviceKey : Bool) : Same s (qrLook s generation api session deviceKey).1 := by
  rw [qrLook]
  split
  · split
    · split
      · exact Same.refl s
      · exact Same.refl s
    · exact same_failFlow s (.qr generation) _
  · exact Same.refl s

theorem same_qrPolled : Same s (qrPolled lib s generation api session answer).1 := by
  rw [qrPolled.eq_def]
  split
  · exact Same.refl s
  · split
    · split
      · exact Same.refl s
      · exact same_failFlow s (.qr generation) _
    · split
      · exact Same.refl s
      · split
        · exact same_qrUpdate s generation _ fun _ => rfl
        · exact Same.refl s

def Task.quiet : Task → Bool
  | .finishing .keys _ _ _ => false
  | .finishing .current _ _ _ => false
  | .policyRead _ _ _ => false
  | .policyStore _ _ _ _ => false
  | .policyReady _ _ _ _ => false
  | .documentStore _ _ => false
  | .useStore _ _ => false
  | .clearing .current => false
  | .clearing .keys => false
  | .clearing .policy => false
  | _ => true

theorem same_advance (h : task.quiet = true) : Same s (advance lib s input task).1 := by
  cases task with
  | starting source token =>
    rw [advance]
    split
    · exact same_failFlow s (.token source) _
    · split
      · exact same_failFlow s (.token source) _
      · exact Same.refl s
  | posted source api => exact same_enrollAnswer lib s (.token source) api input.now input.answer
  | qrStarting generation =>
    rw [advance]
    split
    · exact same_failFlow s (.qr generation) _
    · exact Same.refl s
  | qrStartSent generation api => exact same_qrStart lib s generation api input.answer
  | qrPolling generation api session => exact same_qrLook s generation api session input.deviceKey
  | qrPollSent generation api session =>
    exact same_qrPolled lib s generation api session input.answer
  | qrConfirmSent generation api session accept =>
    rw [advance]
    split
    · exact same_enrollAnswer lib s (.qr generation) api input.now input.answer
    · exact same_qrUpdate s generation _ fun _ => rfl
  | finishing stage flow e policy =>
    cases stage with
    | stateFile =>
      rw [advance, finishStep]
      split
      · exact ⟨rfl, rfl, rfl, rfl⟩
      · exact same_failFlow s flow _
    | keysFile => exact ⟨rfl, rfl, rfl, rfl⟩
    | keys => cases h
    | current => cases h
  | policyArrived after signed =>
    rw [advance]
    split
    · exact same_endFlow s after
    · exact Same.refl s
  | policyVerifying after signed e =>
    rw [advance]
    split
    · exact same_endFlow s after
    · exact Same.refl s
  | policyVerified after signed e policy =>
    rw [advance]
    split
    · exact same_endFlow s after
    · exact Same.refl s
  | policySaving after signed e policy => exact ⟨rfl, rfl, rfl, rfl⟩
  | policyApplying after e policy => exact Same.refl s
  | documentArrived doc =>
    rw [advance]
    split
    · exact Same.refl s
    · exact Same.refl s
  | useArrived now =>
    rw [advance]
    split
    · exact Same.refl s
    · exact Same.refl s
  | clearing stage =>
    cases stage with
    | stateFile => exact ⟨rfl, rfl, rfl, rfl⟩
    | keysFile => exact ⟨rfl, rfl, rfl, rfl⟩
    | policyFile => exact ⟨rfl, rfl, rfl, rfl⟩
    | current => cases h
    | keys => cases h
    | policy => cases h
  | policyRead after signed e => cases h
  | policyStore after signed e found => cases h
  | policyReady after e policy next => cases h
  | documentStore doc e => cases h
  | useStore now e => cases h

/-! ### Keys and policies of a tenant -/

def StoreOf (tenantId : String) (keys : Keys) : Prop :=
  ∀ st, keys.cached = some st → st.tenantId = tenantId

theorem storeOf_withStore {α : Type*} (e : TenantKeys.Enrollment) (keys : Keys) (now : Int64)
    (f : Store → α × Store) (hf : ∀ st, (f st).2.tenantId = st.tenantId) (file : Option Store) :
    StoreOf e.tenantId
      ⟨(withStore lib.toCrypto (some e) keys.file now keys.cached f).2, file⟩ := by
  intro st hst
  have hcached : (withStore lib.toCrypto (some e) keys.file now keys.cached f).2 = some st := hst
  rw [withStore_enrolled lib.toDocuments e keys now f] at hcached
  cases hcurrent : KeyRotation.current lib.toDocuments e keys with
  | none =>
    rw [hcurrent] at hcached
    cases hcached
  | some old =>
    rw [hcurrent] at hcached
    obtain rfl := Option.some.inj hcached
    have hold : old.tenantId = e.tenantId := current_tenant hcurrent
    exact (hf _).trans hold

theorem storeOf_receive (e : TenantKeys.Enrollment) (doc : Received) (keys : Keys) :
    StoreOf e.tenantId (receive lib.toDocuments (some e) doc keys).2 := by
  intro st hst
  rcases receive_spec lib.toDocuments e doc keys with
    ⟨-, text, heq⟩ | ⟨old, hold, ⟨text, heq⟩ | ⟨new, haccepts, heq⟩⟩
  · rw [heq] at hst
    cases hst
  · rw [heq] at hst
    obtain rfl := Option.some.inj hst
    have htenant : old.tenantId = e.tenantId := current_tenant hold
    exact htenant
  · rw [heq] at hst
    obtain rfl := Option.some.inj hst
    have htenant : old.tenantId = e.tenantId := current_tenant hold
    exact haccepts.tenant.trans htenant

theorem verifyPolicy_tenant (enrolled : Option TenantKeys.Enrollment) (keys : Keys) (now : Int64)
    (signed : Signed) (e : TenantKeys.Enrollment) (policy : Policy)
    (h : (verifyPolicy lib.toPolicyLibraries enrolled keys now signed e).1 = .ok policy) :
    policy.tenantId = e.tenantId := by
  unfold verifyPolicy at h
  dsimp only at h
  split at h
  · cases h
  · split at h
    · cases h
    · split at h
      · cases h
      · rename_i hdevice
        rw [not_or, not_not, not_not] at hdevice
        obtain rfl := Except.ok.inj h
        exact hdevice.2

theorem verifyPolicy_none_keys (signed : Signed) (e : TenantKeys.Enrollment) :
    (verifyPolicy lib.toPolicyLibraries none keys now signed e).2 = keys := by
  unfold verifyPolicy
  dsimp only
  split
  · rfl
  · split
    · rfl
    · split <;> rfl

theorem storeOf_verifyPolicy (found e : TenantKeys.Enrollment) (keys : Keys) (now : Int64)
    (signed : Signed) :
    StoreOf found.tenantId
      (verifyPolicy lib.toPolicyLibraries (some found) keys now signed e).2 := by
  have hkeys : (verifyPolicy lib.toPolicyLibraries (some found) keys now signed e).2 =
      ⟨(verify lib.toCrypto (some found) keys.file now signed none keys.cached).2, keys.file⟩ := by
    unfold verifyPolicy
    dsimp only
    split
    · rfl
    · split
      · rfl
      · split <;> rfl
  have hverify : (verify lib.toCrypto (some found) keys.file now signed none keys.cached).2 =
      (withStore lib.toCrypto (some found) keys.file now keys.cached
        fun st => (verifyIn lib.toCrypto st signed none now, st)).2 := by
    unfold verify
    split
    · rename_i heq
      rw [heq]
    · rename_i heq
      rw [heq]
    · rename_i heq
      rw [heq]
  rw [hkeys, hverify]
  exact storeOf_withStore lib found keys now _ (fun _ => rfl) keys.file

/-! ### Runs -/

def Belongs (s : System) : Prop :=
  ∀ e, s.current = some e → StoreOf e.tenantId s.keys ∧
    ∀ policy, s.settings.policy = some policy → policy.tenantId = e.tenantId

def Task.Verified : Task → Prop
  | .policyVerified _ _ e policy => policy.tenantId = e.tenantId
  | .policySaving _ _ e policy => policy.tenantId = e.tenantId
  | .policyApplying _ e policy => policy.tenantId = e.tenantId
  | .policyReady _ e policy _ => policy.tenantId = e.tenantId
  | _ => True

def Task.confirms : Task → Option ℕ
  | .qrConfirmSent generation _ _ true => some generation
  | .finishing _ (.qr generation) _ _ => some generation
  | _ => none

/-- What the task read of the enrolment in force still holds; and an enrolment comes into force
where none is, with nothing left of an earlier one. -/
def Task.Fresh (s : System) : Task → Prop
  | .finishing .current _ _ _ =>
    s.current = none ∧ s.keys.cached = none ∧ s.settings.policy.isNone = true
  | .policyStore _ _ _ found => s.current = some found
  | .policyReady _ e _ _ => s.current = some e
  | .documentStore _ e => s.current = some e
  | .useStore _ e => s.current = some e
  | _ => True

/-- No task acts on what it read when that has changed, and no QR session is started or
cancelled while an accepted one is being carried out. -/
def Guard (s : System) : Event → Prop
  | .qrCommand command =>
    command = "start" ∨ command = "cancel" → ∀ task ∈ s.tasks, task.confirms = none
  | .advance i _ => match s.tasks[i]? with
    | none => True
    | some task => task.Fresh s
  | _ => True

/-- An enrolment comes into force where none is, by an enrolment that finished and, of a QR
session, is neither cancelled nor superseded; and it goes out of force by a clear. -/
def Exclusive (s : System) (event : Event) : Prop :=
  ∀ t, step lib s event = some t → t.current = s.current ∨ ∃ i input task,
    event = .advance i input ∧ s.tasks[i]? = some task ∧
      ((∃ flow e policy, task = .finishing .current flow e policy ∧ s.current = none ∧
          t.current = some e ∧ ∀ g, flow = .qr g → s.qr.generation = g) ∨
        (task = .clearing .current ∧ t.current = none))

structure Inv (s : System) : Prop where
  belongs : Belongs s
  verified : ∀ task ∈ s.tasks, task.Verified
  confirming : ∀ task ∈ s.tasks, ∀ g, task.confirms = some g → s.qr.generation = g

theorem belongs_same (t : System) (h : Same s t) (hs : Belongs s) : Belongs t := by
  intro e he
  rw [h.current] at he
  obtain ⟨hkeys, hpolicy⟩ := hs e he
  refine ⟨fun st hst => hkeys st (h.cached ▸ hst), fun policy hp => ?_⟩
  rw [h.policy] at hp
  exact hpolicy policy hp

theorem belongs_setKeys (hs : Belongs s)
    (hkeys : ∀ e, s.current = some e → StoreOf e.tenantId keys) : Belongs (s.setKeys keys) := by
  intro e he
  exact ⟨hkeys e he, (hs e he).2⟩

theorem belongs_applyPolicy (next : Settings) (policy : Option Policy) (hs : Belongs s)
    (hpolicy : ∀ e p, s.current = some e → policy = some p → p.tenantId = e.tenantId) :
    Belongs (s.applyPolicy next policy) := by
  intro e he
  exact ⟨(hs e he).1, fun p hp => hpolicy e p he hp⟩

theorem belongs_setCurrent (e : Enrolled) (hkeys : s.keys.cached = none)
    (hpolicy : s.settings.policy.isNone = true) : Belongs (s.setCurrent (some e)) := by
  intro _ _
  refine ⟨fun st hst => ?_, fun p hp => ?_⟩
  · have hcached : s.keys.cached = some st := hst
    rw [hkeys] at hcached
    cases hcached
  · have hsome : s.settings.policy = some p := hp
    rw [hsome] at hpolicy
    cases hpolicy

theorem same_verified (after : Option (Flow × Enrolled)) (signed : Signed)
    (e : Enrolled) (result : Except String Policy × Keys) :
    Same (s.setKeys result.2) (verified s after signed e result).1 := by
  rw [verified]
  split
  · exact same_endFlow _ after
  · exact Same.refl _

theorem belongs_clearStep (ok : Bool) (stage : ClearStage) (hs : Belongs s) :
    Belongs (clearStep s ok stage).1 := by
  cases stage with
  | stateFile => exact hs
  | policyFile => exact hs
  | keysFile => exact hs
  | current =>
    intro e he
    cases he
  | keys => exact belongs_setKeys s _ hs fun e _ st hst => by cases hst
  | policy => exact belongs_applyPolicy s _ _ hs fun e p _ hp => by cases hp

theorem belongs_advance (hs : Belongs s) (hfresh : task.Fresh s) (hverified : task.Verified) :
    Belongs (advance lib s input task).1 := by
  by_cases hquiet : task.quiet = true
  · exact belongs_same s _ (same_advance lib s input task hquiet) hs
  · cases task with
    | finishing stage flow e policy =>
      cases stage with
      | stateFile => exact absurd rfl hquiet
      | keysFile => exact absurd rfl hquiet
      | keys => exact belongs_setKeys s _ hs fun e _ st hst => by cases hst
      | current =>
        obtain ⟨-, hkeys, hpolicy⟩ := hfresh
        have hset := belongs_setCurrent s e hkeys hpolicy
        cases policy with
        | none => exact belongs_same _ _ (same_endFlow _ (some (flow, e))) hset
        | some signed => exact hset
    | policyRead after signed e =>
      rw [advance]
      split
      · refine belongs_same _ _ (same_verified s after signed e _) ?_
        rw [verifyPolicy_none_keys]
        exact hs
      · exact hs
    | policyStore after signed e found =>
      have hcurrent : s.current = some found := hfresh
      refine belongs_same _ _ (same_verified s after signed e _) (belongs_setKeys s _ hs ?_)
      intro e' he'
      obtain rfl := Option.some.inj (hcurrent.symm.trans he')
      exact storeOf_verifyPolicy lib found.toEnrollment e.toEnrollment s.keys input.now signed
    | policyReady after e policy next =>
      have hcurrent : s.current = some e := hfresh
      refine belongs_same _ _ (same_endFlow _ after) (belongs_applyPolicy s next _ hs ?_)
      intro e' p he' hp
      obtain rfl := Option.some.inj (hcurrent.symm.trans he')
      obtain rfl := Option.some.inj hp
      exact hverified
    | documentStore doc e =>
      have hcurrent : s.current = some e := hfresh
      refine belongs_setKeys s _ hs fun e' he' => ?_
      obtain rfl := Option.some.inj (hcurrent.symm.trans he')
      exact storeOf_receive lib e.toEnrollment doc s.keys
    | useStore now e =>
      have hcurrent : s.current = some e := hfresh
      refine belongs_setKeys s _ hs fun e' he' => ?_
      obtain rfl := Option.some.inj (hcurrent.symm.trans he')
      exact storeOf_withStore lib e.toEnrollment s.keys now _ (fun _ => rfl) s.keys.file
    | clearing stage => exact belongs_clearStep s input.ok stage hs
    | starting source token => exact absurd rfl hquiet
    | posted source api => exact absurd rfl hquiet
    | qrStarting generation => exact absurd rfl hquiet
    | qrStartSent generation api => exact absurd rfl hquiet
    | qrPolling generation api session => exact absurd rfl hquiet
    | qrPollSent generation api session => exact absurd rfl hquiet
    | qrConfirmSent generation api session accept => exact absurd rfl hquiet
    | policyArrived after signed => exact absurd rfl hquiet
    | policyVerifying after signed e => exact absurd rfl hquiet
    | policyVerified after signed e policy => exact absurd rfl hquiet
    | policySaving after signed e policy => exact absurd rfl hquiet
    | policyApplying after e policy => exact absurd rfl hquiet
    | documentArrived doc => exact absurd rfl hquiet
    | useArrived now => exact absurd rfl hquiet

/-- An access changes the enrolment in force only where it finishes an enrolment or clears. -/
theorem current_advance :
    (advance lib s input task).1.current = s.current ∨
      (∃ flow e policy, task = .finishing .current flow e policy ∧
        (advance lib s input task).1.current = some e) ∨
      (task = .clearing .current ∧ (advance lib s input task).1.current = none) := by
  by_cases hquiet : task.quiet = true
  · exact Or.inl (same_advance lib s input task hquiet).current
  · cases task with
    | finishing stage flow e policy =>
      cases stage with
      | stateFile => exact absurd rfl hquiet
      | keysFile => exact absurd rfl hquiet
      | keys => exact Or.inl rfl
      | current =>
        refine Or.inr (Or.inl ⟨flow, e, policy, rfl, ?_⟩)
        cases policy with
        | none => exact (same_endFlow _ (some (flow, e))).current
        | some signed => rfl
    | policyRead after signed e =>
      rw [advance]
      split
      · exact Or.inl (same_verified s after signed e _).current
      · exact Or.inl rfl
    | policyStore after signed e found => exact Or.inl (same_verified s after signed e _).current
    | policyReady after e policy next => exact Or.inl (same_endFlow _ after).current
    | documentStore doc e => exact Or.inl rfl
    | useStore now e => exact Or.inl rfl
    | clearing stage =>
      cases stage with
      | current => exact Or.inr (Or.inr ⟨rfl, rfl⟩)
      | stateFile => exact Or.inl rfl
      | keys => exact Or.inl rfl
      | keysFile => exact Or.inl rfl
      | policyFile => exact Or.inl rfl
      | policy => exact Or.inl rfl
    | _ => exact absurd rfl hquiet

theorem generation_advance : (advance lib s input task).1.qr.generation = s.qr.generation := by
  by_cases hquiet : task.quiet = true
  · exact (same_advance lib s input task hquiet).generation
  · cases task with
    | finishing stage flow e policy =>
      cases stage with
      | stateFile => exact absurd rfl hquiet
      | keysFile => exact absurd rfl hquiet
      | keys => rfl
      | current =>
        cases policy with
        | none => exact (same_endFlow _ (some (flow, e))).generation
        | some signed => rfl
    | policyRead after signed e =>
      rw [advance]
      split
      · exact (same_verified s after signed e _).generation
      · rfl
    | policyStore after signed e found => exact (same_verified s after signed e _).generation
    | policyReady after e policy next => exact (same_endFlow _ after).generation
    | documentStore doc e => rfl
    | useStore now e => rfl
    | clearing stage => cases stage <;> rfl
    | _ => exact absurd rfl hquiet

/-- What a task may do next: nothing unverified, and only the current QR session is confirmed
or what this task confirms already. -/
structure Follows (s : System) (task next : Task) : Prop where
  verified : task.Verified → next.Verified
  confirming : ∀ g, next.confirms = some g → s.qr.generation = g ∨ task.confirms = some g

theorem follows_plain (hverified : next.Verified)
    (hconfirms : next.confirms = none) : Follows s task next := by
  refine ⟨fun _ => hverified, fun g hg => ?_⟩
  rw [hconfirms] at hg
  cases hg

theorem follows_enrollAnswer (task next : Task)
    (htask : ∀ g, flow = .qr g → s.qr.generation = g ∨ task.confirms = some g)
    (h : (enrollAnswer lib s flow api now answer).2 = some next) : Follows s task next := by
  rw [enrollAnswer.eq_def] at h
  split at h
  · cases h
  · split at h
    · cases h
    · obtain rfl := Option.some.inj h
      refine ⟨fun _ => trivial, fun g hg => ?_⟩
      cases flow with
      | token source => cases hg
      | qr generation =>
        obtain rfl := Option.some.inj hg
        exact htask _ rfl

theorem follows_verified (after : Option (Flow × Enrolled)) (signed : Signed)
    (e : Enrolled) (result : Except String Policy × Keys) (task next : Task)
    (htenant : ∀ policy, result.1 = .ok policy → policy.tenantId = e.tenantId)
    (h : (verified s after signed e result).2 = some next) : Follows s task next := by
  rw [verified] at h
  split at h
  · cases h
  · rename_i policy hok
    obtain rfl := Option.some.inj h
    exact follows_plain s task _ (htenant policy hok) rfl

theorem follows_finishStep (e : Enrolled) (policy : Option Signed)
    (ok : Bool) (stage : FinishStage) (next : Task)
    (h : (finishStep s flow e policy ok stage).2 = some next) :
    Follows s (.finishing stage flow e policy) next := by
  have hsame : ∀ later, Follows s (.finishing stage flow e policy)
      (.finishing later flow e policy) := by
    intro later
    refine ⟨fun _ => trivial, fun g hg => Or.inr ?_⟩
    cases flow with
    | token source => cases hg
    | qr generation => exact hg
  cases stage with
  | stateFile =>
    rw [finishStep] at h
    split at h
    · obtain rfl := Option.some.inj h
      exact hsame .keys
    · cases h
  | keys =>
    obtain rfl := Option.some.inj h
    exact hsame .keysFile
  | keysFile =>
    obtain rfl := Option.some.inj h
    exact hsame .current
  | current =>
    cases policy with
    | none => cases h
    | some signed =>
      obtain rfl := Option.some.inj h
      exact follows_plain s _ _ trivial rfl

theorem follows_clearStep (ok : Bool) (stage : ClearStage) (next : Task)
    (h : (clearStep s ok stage).2 = some next) : Follows s (.clearing stage) next := by
  cases stage with
  | policy => cases h
  | stateFile => obtain rfl := Option.some.inj h; exact follows_plain s _ _ trivial rfl
  | current => obtain rfl := Option.some.inj h; exact follows_plain s _ _ trivial rfl
  | keys => obtain rfl := Option.some.inj h; exact follows_plain s _ _ trivial rfl
  | keysFile => obtain rfl := Option.some.inj h; exact follows_plain s _ _ trivial rfl
  | policyFile => obtain rfl := Option.some.inj h; exact follows_plain s _ _ trivial rfl

theorem follows_qrLook (deviceKey : Bool)
    (task next : Task) (h : (qrLook s generation api session deviceKey).2 = some next) :
    Follows s task next := by
  rw [qrLook] at h
  split at h
  · rename_i hgeneration
    split at h
    · split at h
      · rename_i accept _
        obtain rfl := Option.some.inj h
        refine ⟨fun _ => trivial, fun g hg => Or.inl ?_⟩
        cases accept with
        | false => cases hg
        | true =>
          obtain rfl := Option.some.inj hg
          exact hgeneration
      · obtain rfl := Option.some.inj h
        exact follows_plain s task _ trivial rfl
    · cases h
  · cases h

theorem follows_qrStart
    (task next : Task) (h : (qrStart lib s generation api answer).2 = some next) :
    Follows s task next := by
  rw [qrStart.eq_def] at h
  split at h
  · cases h
  · split at h
    · cases h
    · split at h
      · cases h
      · split at h
        · cases h
        · split at h
          · obtain rfl := Option.some.inj h
            exact follows_plain s task _ trivial rfl
          · cases h

theorem follows_qrPolled
    (task next : Task) (h : (qrPolled lib s generation api session answer).2 = some next) :
    Follows s task next := by
  have hpolling : ∀ t, some (Task.qrPolling generation api session) = some t →
      Follows s task t := by
    intro t ht
    obtain rfl := Option.some.inj ht
    exact follows_plain s task _ trivial rfl
  rw [qrPolled.eq_def] at h
  split at h
  · exact hpolling next h
  · split at h
    · split at h
      · exact hpolling next h
      · cases h
    · split at h
      · exact hpolling next h
      · split at h
        · dsimp only at h
          split at h
          · cases h
          · exact hpolling next h
        · cases h

theorem follows_advance (h : (advance lib s input task).2 = some next) : Follows s task next := by
  cases task with
  | starting source token =>
    rw [advance] at h
    split at h
    · cases h
    · split at h
      · cases h
      · obtain rfl := Option.some.inj h
        exact follows_plain s _ _ trivial rfl
  | posted source api =>
    exact follows_enrollAnswer lib s (.token source) api _ _ _ next (fun g hg => by cases hg) h
  | qrStarting generation =>
    rw [advance] at h
    split at h
    · cases h
    · obtain rfl := Option.some.inj h
      exact follows_plain s _ _ trivial rfl
  | qrStartSent generation api => exact follows_qrStart lib s generation api _ _ next h
  | qrPolling generation api session => exact follows_qrLook s generation api session _ _ next h
  | qrPollSent generation api session =>
    exact follows_qrPolled lib s generation api session _ _ next h
  | qrConfirmSent generation api session accept =>
    rw [advance] at h
    split at h
    · rename_i haccept
      subst haccept
      refine follows_enrollAnswer lib s (.qr generation) api _ _ _ next (fun g hg => ?_) h
      obtain rfl := Flow.qr.inj hg
      exact Or.inr rfl
    · cases h
  | finishing stage flow e policy => exact follows_finishStep s flow e policy _ stage next h
  | policyArrived after signed =>
    rw [advance] at h
    split at h
    · cases h
    · obtain rfl := Option.some.inj h
      exact follows_plain s _ _ trivial rfl
  | policyRead after signed e =>
    rw [advance] at h
    split at h
    · exact follows_verified s after signed e _ _ next
        (fun policy hok => verifyPolicy_tenant lib _ _ _ _ _ policy hok) h
    · obtain rfl := Option.some.inj h
      exact follows_plain s _ _ trivial rfl
  | policyVerifying after signed e =>
    rw [advance] at h
    split at h
    · cases h
    · obtain rfl := Option.some.inj h
      exact follows_plain s _ _ trivial rfl
  | policyStore after signed e found =>
    exact follows_verified s after signed e _ _ next
      (fun policy hok => verifyPolicy_tenant lib _ _ _ _ _ policy hok) h
  | policyVerified after signed e policy =>
    rw [advance] at h
    split at h
    · cases h
    · obtain rfl := Option.some.inj h
      exact ⟨fun hverified => hverified, fun g hg => by cases hg⟩
  | policySaving after signed e policy =>
    obtain rfl := Option.some.inj h
    exact ⟨fun hverified => hverified, fun g hg => by cases hg⟩
  | policyApplying after e policy =>
    obtain rfl := Option.some.inj h
    exact ⟨fun hverified => hverified, fun g hg => by cases hg⟩
  | policyReady after e policy next => cases h
  | documentArrived doc =>
    rw [advance] at h
    split at h
    · cases h
    · obtain rfl := Option.some.inj h
      exact follows_plain s _ _ trivial rfl
  | documentStore doc e => cases h
  | useArrived now =>
    rw [advance] at h
    split at h
    · cases h
    · obtain rfl := Option.some.inj h
      exact follows_plain s _ _ trivial rfl
  | useStore now e => cases h
  | clearing stage => exact follows_clearStep s input.ok stage next h

/-! ### One event -/

theorem mem_replaceTask (tasks : List Task) (i : ℕ) (next : Option Task) (task : Task)
    (h : task ∈ replaceTask tasks i next) : task ∈ tasks ∨ next = some task := by
  cases next with
  | none => exact Or.inl (List.mem_of_mem_eraseIdx h)
  | some n =>
    rcases List.mem_or_eq_of_mem_set h with hold | rfl
    · exact Or.inl hold
    · exact Or.inr rfl

theorem inv_spawn (hs : Inv s) (hverified : task.Verified)
    (hconfirms : task.confirms = none) : Inv (s.spawn task) := by
  refine ⟨hs.belongs, fun other hother => ?_, fun other hother g hg => ?_⟩
  · rcases List.mem_append.mp hother with hold | hnew
    · exact hs.verified other hold
    · rw [List.mem_singleton.mp hnew]
      exact hverified
  · rcases List.mem_append.mp hother with hold | hnew
    · exact hs.confirming other hold g hg
    · rw [List.mem_singleton.mp hnew, hconfirms] at hg
      cases hg

/-- A new generation leaves no session that is being confirmed behind. -/
theorem inv_setQr (q : QrSession) (hs : Inv s)
    (hq : q.generation = s.qr.generation ∨ ∀ task ∈ s.tasks, task.confirms = none) :
    Inv (s.setQr q) := by
  refine ⟨hs.belongs, hs.verified, fun task htask g hg => ?_⟩
  rcases hq with hsame | hnone
  · exact hsame.trans (hs.confirming task htask g hg)
  · rw [hnone task htask] at hg
    cases hg

theorem inv_qrCommand (command : String) (hs : Inv s)
    (hguard : Guard s (.qrCommand command)) : Inv (qrCommand s command) := by
  rw [qrCommand]
  split
  · rename_i hstart
    exact inv_spawn _ _ (inv_setQr s _ hs (Or.inr (hguard (Or.inl hstart)))) trivial rfl
  · split
    · exact inv_setQr s _ hs (Or.inl rfl)
    · split
      · rename_i hcancel
        exact inv_setQr s _ hs (Or.inr (hguard (Or.inr hcancel)))
      · exact hs

theorem inv_advance (hs : Inv s) (htask : s.tasks[i]? = some task) (hfresh : task.Fresh s) :
    Inv ((advance lib s input task).1.setTasks
      (replaceTask s.tasks i (advance lib s input task).2)) := by
  have hmem : task ∈ s.tasks := List.mem_of_getElem? htask
  have hverified := hs.verified task hmem
  refine ⟨belongs_advance lib s input task hs.belongs hfresh hverified, ?_, ?_⟩
  · intro other hother
    rcases mem_replaceTask _ _ _ other hother with hold | hnext
    · exact hs.verified other hold
    · exact (follows_advance lib s input task other hnext).verified hverified
  · intro other hother g hg
    refine (generation_advance lib s input task).trans ?_
    rcases mem_replaceTask _ _ _ other hother with hold | hnext
    · exact hs.confirming other hold g hg
    · rcases (follows_advance lib s input task other hnext).confirming g hg with hnow | hbefore
      · exact hnow
      · exact hs.confirming task hmem g hbefore

theorem guard_advance
    (hguard : Guard s (.advance i input)) (htask : s.tasks[i]? = some task) : task.Fresh s := by
  simpa only [Guard, htask] using hguard

theorem inv_step (t : System) (hguard : Guard s event) (hs : Inv s)
    (hstep : step lib s event = some t) : Inv t := by
  cases event with
  | token token =>
    obtain rfl := Option.some.inj hstep
    rw [startTokenEnrollment]
    split
    · exact hs
    · exact inv_spawn _ _ ⟨hs.belongs, hs.verified, hs.confirming⟩ trivial rfl
  | gpoToken token =>
    obtain rfl := Option.some.inj hstep
    exact inv_spawn s _ hs trivial rfl
  | qrCommand command =>
    obtain rfl := Option.some.inj hstep
    exact inv_qrCommand s command hs hguard
  | clear =>
    obtain rfl := Option.some.inj hstep
    exact inv_spawn s _ hs trivial rfl
  | policy signed =>
    obtain rfl := Option.some.inj hstep
    exact inv_spawn s _ hs trivial rfl
  | document doc =>
    obtain rfl := Option.some.inj hstep
    exact inv_spawn s _ hs trivial rfl
  | useKeys now =>
    obtain rfl := Option.some.inj hstep
    exact inv_spawn s _ hs trivial rfl
  | advance i input =>
    obtain ⟨task, htask, rfl⟩ := Option.map_eq_some_iff.mp hstep
    exact inv_advance lib s i input task hs htask (guard_advance s i input task hguard htask)

/-- Commands and arrivals leave the enrolment in force alone. -/
theorem exclusive_of_unchanged
    (h : ∀ t, step lib s event = some t → t.current = s.current) : Exclusive lib s event :=
  fun t ht => Or.inl (h t ht)

theorem current_qrCommand (command : String) : (qrCommand s command).current = s.current := by
  rw [qrCommand]
  split
  · rfl
  · split
    · rfl
    · split <;> rfl

theorem exclusive_step (hguard : Guard s event) (hs : Inv s) : Exclusive lib s event := by
  cases event with
  | token token =>
    refine exclusive_of_unchanged lib s _ fun t ht => ?_
    obtain rfl := Option.some.inj ht
    rw [startTokenEnrollment]
    split <;> rfl
  | gpoToken token =>
    exact exclusive_of_unchanged lib s _ fun t ht => by obtain rfl := Option.some.inj ht; rfl
  | qrCommand command =>
    refine exclusive_of_unchanged lib s _ fun t ht => ?_
    obtain rfl := Option.some.inj ht
    exact current_qrCommand s command
  | clear =>
    exact exclusive_of_unchanged lib s _ fun t ht => by obtain rfl := Option.some.inj ht; rfl
  | policy signed =>
    exact exclusive_of_unchanged lib s _ fun t ht => by obtain rfl := Option.some.inj ht; rfl
  | document doc =>
    exact exclusive_of_unchanged lib s _ fun t ht => by obtain rfl := Option.some.inj ht; rfl
  | useKeys now =>
    exact exclusive_of_unchanged lib s _ fun t ht => by obtain rfl := Option.some.inj ht; rfl
  | advance i input =>
    intro t ht
    obtain ⟨task, htask, rfl⟩ := Option.map_eq_some_iff.mp ht
    rcases current_advance lib s input task with
      hsame | ⟨flow, e, policy, rfl, hnew⟩ | ⟨rfl, hnone⟩
    · exact Or.inl hsame
    · have hfresh := guard_advance s i input _ hguard htask
      refine Or.inr ⟨i, input, _, rfl, htask, Or.inl ⟨flow, e, policy, rfl, hfresh.1, hnew, ?_⟩⟩
      rintro g rfl
      exact hs.confirming _ (List.mem_of_getElem? htask) g rfl
    · exact Or.inr ⟨i, input, _, rfl, htask, Or.inr ⟨rfl, hnone⟩⟩

theorem belongs_start (build : BuildSettings) (saved : Option Enrolled)
    (keysFile : Option Store) (policyFile : Option Signed) (now : Int64) :
    Belongs (start lib build saved keysFile policyFile now) := by
  intro e he
  have hsaved : saved = some e := he
  subst hsaved
  have hnone : ∀ policy, (ManagedConfig.start build).policy = some policy →
      policy.tenantId = e.tenantId := fun policy hp => by cases hp
  cases policyFile with
  | none => exact ⟨fun st hst => (by cases hst), hnone⟩
  | some signed =>
    have hstore :=
      storeOf_verifyPolicy lib e.toEnrollment e.toEnrollment ⟨none, keysFile⟩ now signed
    have htenant := verifyPolicy_tenant lib (some e.toEnrollment) ⟨none, keysFile⟩ now signed
      e.toEnrollment
    simp only [start, applySaved]
    split
    · rename_i policy keys hverify
      rw [hverify] at hstore htenant
      refine ⟨hstore, fun p hp => ?_⟩
      obtain rfl := Option.some.inj hp
      exact htenant policy rfl
    · rename_i text keys hverify
      rw [hverify] at hstore
      exact ⟨hstore, hnone⟩

theorem inv_start (build : BuildSettings) (saved : Option Enrolled) (keysFile : Option Store)
    (policyFile : Option Signed) (now : Int64) :
    Inv (start lib build saved keysFile policyFile now) :=
  ⟨belongs_start lib build saved keysFile policyFile now,
    fun task htask => absurd htask List.not_mem_nil,
    fun task htask => absurd htask List.not_mem_nil⟩

/-- Where no task acts on what it read and has changed, and no accepted QR session is overtaken
by a command, the enrolment in force only comes and goes, a QR session that is cancelled or
superseded brings none, and the keys and the policy are those of the tenant in force. -/
theorem enrollment_exclusive (build : BuildSettings) (saved : Option Enrolled)
    (keysFile : Option Store) (policyFile : Option Signed) (now : Int64) (es : List Event)
    (hmeets : Runs.Meets Guard (step lib) (start lib build saved keysFile policyFile now) es) :
    Runs.Meets (Exclusive lib) (step lib) (start lib build saved keysFile policyFile now) es ∧
      ∀ s, Runs.exec (step lib) (start lib build saved keysFile policyFile now) es = some s →
        Belongs s := by
  have hstart := inv_start lib build saved keysFile policyFile now
  constructor
  · exact Runs.meets_of_invariant Guard (Exclusive lib) (step lib) Inv
      (fun s e t hguard hs hstep => inv_step lib s e t hguard hs hstep)
      (fun s e hguard hs => exclusive_step lib s e hguard hs) _ es hstart hmeets
  · intro s hrun
    exact (Runs.invariant_of_meets Guard (step lib) Inv
      (fun s e t hguard hs hstep => inv_step lib s e t hguard hs hstep) _ s es hstart hmeets
      hrun).belongs

instance (s : System) (task : Task) : Decidable (task.Fresh s) := by
  unfold Task.Fresh
  split <;> infer_instance

instance (s : System) (event : Event) : Decidable (Guard s event) := by
  unfold Guard
  split
  · infer_instance
  · split <;> infer_instance
  · infer_instance

/-! ### Two flows at once, and a cancelled session -/

/-- The body that enrols in the tenant `t`, with its policy. -/
def answerT : String :=
  "\x7b\"device_id\":\"d\",\"tenant_id\":\"t\",\"tenant_name\":\"T\",\"tenant_key\":\"" ++
    oldKeyText ++ "\",\"policy\":\x7b\"payload\":\"" ++ policyFiveSigned.payload ++
    "\",\"signature\":\"" ++ policyFiveSigned.signature ++ "\"\x7d\x7d"

/-- The body that enrols in the tenant `u`. -/
def answerU : String :=
  "\x7b\"device_id\":\"e\",\"tenant_id\":\"u\",\"tenant_name\":\"U\",\"tenant_key\":\"" ++
    newKeyText ++ "\"\x7d"

def answerStarted : String := "\x7b\"session\":\"s-1\",\"code\":\"AAAA\",\"qr\":\"q\"\x7d"

def answerClaimed : String := "\x7b\"state\":\"claimed\",\"tenant_name\":\"U\"\x7d"

def sampleEnroll : EnrollLibraries :=
  { sampleLibraries with
    errorCode := fun _ => none
    parseEnroll := fun text =>
      if text = answerT then .ok ⟨"d", "t", "T", oldKeyText, some policyFiveSigned⟩
      else if text = answerU then .ok ⟨"e", "u", "U", newKeyText, none⟩
      else .error "missing field"
    parsePoll := fun text =>
      if text = answerStarted then some ⟨"s-1", "", "AAAA", "q", 0, 0, "", ""⟩
      else if text = answerClaimed then some ⟨"", "claimed", "", "", 0, 0, "U", ""⟩
      else none }

def sampleStart : System := start sampleEnroll noBuildSettings none none none 0

def sampleAccess (i : ℕ) (text : String) : Event :=
  .advance i { api := some "https://api.example", answer := .body text }

def sampleToken : List Event := [.token "token".toList, sampleAccess 0 ""]

/-- The thread `i` takes the answer and carries the enrolment out, but for the last access. -/
def sampleFinish (i : ℕ) (text : String) : List Event :=
  [sampleAccess i text, sampleAccess i "", sampleAccess i "", sampleAccess i ""]

/-- A QR session on the thread `i`, up to the confirmation of its acceptance. -/
def sampleQr (i : ℕ) : List Event :=
  [.qrCommand "start", sampleAccess i "", sampleAccess i answerStarted, sampleAccess i "",
    sampleAccess i answerClaimed, .qrCommand "accept", sampleAccess i ""]

def samplePolicy (i : ℕ) : List Event := List.replicate 9 (sampleAccess i "")

def sampleEnrolment : List Event := sampleToken ++ sampleFinish 0 answerT ++ samplePolicy 0

theorem enrollment_exclusive_sample :
    (Runs.exec (step sampleEnroll) sampleStart sampleEnrolment).map (fun s =>
      (s.current.map (fun e => e.tenantId), s.settings.policy.map (fun p => p.tenantId))) =
        some (some "t", some "t") ∧
      Runs.Meets (Exclusive sampleEnroll) (step sampleEnroll) sampleStart sampleEnrolment ∧
      ∀ s, Runs.exec (step sampleEnroll) sampleStart sampleEnrolment = some s → Belongs s :=
  ⟨by decide +kernel,
    enrollment_exclusive sampleEnroll noBuildSettings none none none 0 sampleEnrolment
      (by decide +kernel)⟩

/-- A QR session that was accepted while a token enrolment was on its way moves the device from
the tenant `t` to the tenant `u`, with the policy of `t`; and a session that was cancelled before
its confirmation is answered enrols the device. -/
theorem enrollments_overlap :
    (∃ es s event t, Runs.exec (step sampleEnroll) sampleStart es = some s ∧
      step sampleEnroll s event = some t ∧ s.current.map (fun e => e.tenantId) = some "t" ∧
      t.current.map (fun e => e.tenantId) = some "u" ∧ ¬ Belongs t) ∧
    ∃ es s event t, Runs.exec (step sampleEnroll) sampleStart es = some s ∧
      step sampleEnroll s event = some t ∧ s.current = none ∧ s.qr.view.state = "idle" ∧
      t.current.map (fun e => e.tenantId) = some "u" := by
  constructor
  · have hrun : (Runs.exec (step sampleEnroll) sampleStart
        (sampleToken ++ sampleQr 1 ++ sampleFinish 0 answerT ++ samplePolicy 0 ++
          sampleFinish 0 answerU)).bind (fun s =>
        (step sampleEnroll s (sampleAccess 0 "")).map fun t =>
          (s.current.map (fun e => e.tenantId), t.current.map (fun e => e.tenantId),
            t.settings.policy.map (fun p => p.tenantId))) =
        some (some "t", some "u", some "t") := by
      decide +kernel
    obtain ⟨s, hs, hlast⟩ := Option.bind_eq_some_iff.mp hrun
    obtain ⟨t, ht, hresult⟩ := Option.map_eq_some_iff.mp hlast
    rw [Prod.mk.injEq, Prod.mk.injEq] at hresult
    obtain ⟨hbefore, hafter, hpolicy⟩ := hresult
    refine ⟨_, s, _, t, hs, ht, hbefore, hafter, fun hbelongs => ?_⟩
    obtain ⟨e, he, hetenant⟩ := Option.map_eq_some_iff.mp hafter
    obtain ⟨p, hp, hptenant⟩ := Option.map_eq_some_iff.mp hpolicy
    have heq := (hbelongs e he).2 p hp
    rw [hptenant, hetenant] at heq
    exact absurd heq (by decide)
  · have hrun : (Runs.exec (step sampleEnroll) sampleStart
        (sampleQr 0 ++ [.qrCommand "cancel"] ++ sampleFinish 0 answerU)).bind (fun s =>
        (step sampleEnroll s (sampleAccess 0 "")).map fun t =>
          (s.current.map (fun e => e.tenantId), s.qr.view.state,
            t.current.map (fun e => e.tenantId))) =
        some (none, "idle", some "u") := by
      decide
    obtain ⟨s, hs, hlast⟩ := Option.bind_eq_some_iff.mp hrun
    obtain ⟨t, ht, hresult⟩ := Option.map_eq_some_iff.mp hlast
    rw [Prod.mk.injEq, Prod.mk.injEq] at hresult
    obtain ⟨hbefore, hview, hafter⟩ := hresult
    exact ⟨_, s, _, t, hs, ht, Option.map_eq_none_iff.mp hbefore, hview, hafter⟩

end ClantoDesk.EnrollmentFlows
