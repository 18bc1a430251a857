import ClantoDesk.Runs
import Mathlib.Algebra.Order.Ring.Int
import Mathlib.Logic.Function.Basic

/-!
The webcam of the host for a controller, src/clanto/forwarding/host.rs: requests, the consent of
the user of the host, its timeout, and the pulls that start a stream. The messages, answers and the
close of one connection are handled by one task, the timeouts by a thread each; what they share is
under a lock, so that the events of all connections come one after the other. Times
are in nanoseconds. The other direction, the engine for the network and the audit are left
out.
-/
namespace ClantoDesk.CameraConsent

structure Permissions where
  forward : Bool
  camera : Bool

structure CameraInfo where
  index : Int32
  name : String

def DENIED_WEBCAM : String := "Webcam forwarding is disabled on this device"
def DENIED_WEBCAM_CONSENT : String := "The remote user did not allow the webcam"
def DENIED_PERMISSION : String := "Forwarding is not allowed for this connection"

def CONSENT_TIMEOUT : ℕ := 60 * 10 ^ 9

structure Pending where
  requestId : Int32
  time : ℕ
  deriving DecidableEq

/-- A stream of the host's webcam; one that was stopped says nothing when it is dropped. -/
structure SendStream where
  streamId : Int32
  stopped : Bool

structure Share where
  pending : Option Pending
  granted : Bool
  sender : Option SendStream

def Share.new : Share := ⟨none, false, none⟩

inductive Sent
  | cameraGrant (requestId : Int32) (accepted : Bool) (message : String) (cameras : List CameraInfo)
  | mediaClose (streamId : Int32) (message : String)

/-- The thread that waits for the end of a request. -/
structure Timer where
  connId : Int32
  requestId : Int32
  due : ℕ
  deriving DecidableEq

/-- What the connections share, what was sent to the controllers, the connections for which the user
was asked, and the streams that were started, with their connections. -/
structure State where
  allowed : Int32 → Option Permissions
  shares : Int32 → Option Share
  timers : List Timer
  sent : List (Int32 × Sent)
  asked : List Int32
  started : List (Int32 × Int32)

def start : State := ⟨fun _ => none, fun _ => none, [], [], [], []⟩

/-- The clock, whether webcams are forwarded at all, and the cameras of the host. -/
structure Env where
  now : ℕ
  webcamOn : Bool
  cameras : Except String (List CameraInfo)

inductive Message
  | cameraRequest (requestId : Int32)
  | cameraPull (streamId index : Int32)
  | mediaOpened (streamId : Int32) (success : Bool)
  | mediaAck (streamId : Int32)
  | mediaClose (streamId : Int32)
  | other

/-- A message with the permissions of its connection, an answer of the user, the end of a
timeout, and the close of a connection. An answer does not say which request it is for: `question`
is the request that the user was shown, and no function reads it. -/
inductive Event
  | message (connId : Int32) (perms : Permissions) (message : Message)
  | answer (connId : Int32) (accepted : Bool) (question : Int32)
  | timer (connId requestId : Int32)
  | close (connId : Int32)

namespace State

def share (s : State) (connId : Int32) : Share := (s.shares connId).getD Share.new

def withShare (s : State) (connId : Int32) (f : Share → Share) : State :=
  { s with shares := Function.update s.shares connId (some (f (s.share connId))) }

def entry (s : State) (connId : Int32) : State := s.withShare connId fun share => share

def send (s : State) (connId : Int32) (message : Sent) : State :=
  { s with sent := s.sent ++ [(connId, message)] }

def permit (s : State) (connId : Int32) (perms : Permissions) : State :=
  { s with allowed := Function.update s.allowed connId (some perms) }

def ask (s : State) (timer : Timer) : State :=
  { s with timers := s.timers ++ [timer], asked := s.asked ++ [timer.connId] }

def startStream (s : State) (connId streamId : Int32) : State :=
  { s with started := s.started ++ [(connId, streamId)] }

def removeTimer (s : State) (timer : Timer) : State := { s with timers := s.timers.erase timer }

/-- `grant`. -/
def grant (s : State) (connId requestId : Int32) : Except String (List CameraInfo) → State
  | .ok cameras => s.send connId (.cameraGrant requestId true "" cameras)
  | .error e => s.send connId (.cameraGrant requestId false e [])

def dropSender (s : State) (connId : Int32) : Option SendStream → State
  | some sender => if sender.stopped then s else s.send connId (.mediaClose sender.streamId "")
  | none => s

end State

def permissions (s : State) (connId : Int32) : Permissions := (s.allowed connId).getD ⟨false, false⟩

def authorizeCamera (env : Env) : Except String Unit :=
  if !env.webcamOn then .error DENIED_WEBCAM else .ok ()

def cameraAllowed (env : Env) (s : State) (connId : Int32) : Except String Unit :=
  if !(permissions s connId).camera then .error DENIED_PERMISSION else authorizeCamera env

def onCameraRequest (env : Env) (connId requestId : Int32) (s : State) : State :=
  match cameraAllowed env s connId with
  | .error e => s.grant connId requestId (.error e)
  | .ok _ =>
    let s := s.entry connId
    if (s.share connId).granted then s.grant connId requestId env.cameras
    else
      (s.withShare connId fun share => { share with pending := some ⟨requestId, env.now⟩ }).ask
        ⟨connId, requestId, env.now + CONSENT_TIMEOUT⟩

def onCameraPull (env : Env) (connId streamId index : Int32) (s : State) : State :=
  let refuse (s : State) (e : String) : State := s.send connId (.mediaClose streamId e)
  match cameraAllowed env s connId with
  | .error e => refuse s e
  | .ok _ =>
    let s := s.entry connId
    if !(s.share connId).granted then refuse s DENIED_WEBCAM_CONSENT
    else if streamId ≤ 0 ∨ streamId % 2 ≠ 0 ∨ index < 0 then refuse s "Invalid camera"
    else
      let previous := (s.share connId).sender
      ((s.startStream connId streamId).withShare connId fun share =>
        { share with sender := some ⟨streamId, false⟩ }).dropSender connId previous

def Share.senderOf (share : Share) (streamId : Int32) : Option SendStream :=
  share.sender.filter fun sender => sender.streamId = streamId

def fromController (id : Int32) : Bool := id % 2 ≠ 0

def onMessage (env : Env) (connId : Int32) (perms : Permissions) (message : Message) (s : State) :
    State :=
  let s := s.permit connId perms
  match message with
  | .cameraRequest requestId => onCameraRequest env connId requestId s
  | .cameraPull streamId index => onCameraPull env connId streamId index s
  | .mediaOpened streamId success =>
    s.withShare connId fun share =>
      match share.senderOf streamId with
      | some sender =>
        { share with sender := some { sender with stopped := sender.stopped || !success } }
      | none => share
  | .mediaAck _ => s.entry connId
  | .mediaClose streamId =>
    if fromController streamId then s
    else
      -- the stream is stopped before it is dropped
      s.withShare connId fun share =>
        match share.senderOf streamId with
        | some _ => { share with sender := none }
        | none => share
  | .other => s

def cameraConsent (env : Env) (connId : Int32) (accepted : Bool) (s : State) : State :=
  let pending := (s.share connId).pending
  let s := s.withShare connId fun share =>
    { share with
      pending := none
      granted := share.granted || (pending.isSome && accepted) }
  match pending with
  | none => s
  | some request =>
    if accepted then s.grant connId request.requestId env.cameras
    else s.grant connId request.requestId (.error DENIED_WEBCAM_CONSENT)

def onTimer (env : Env) (connId requestId : Int32) (s : State) : State :=
  match s.timers.find? fun timer =>
    timer.connId = connId && timer.requestId = requestId && timer.due ≤ env.now with
  | none => s
  | some timer =>
    let s := s.removeTimer timer
    let stale := (s.share connId).pending.filter fun request =>
      request.requestId = requestId && CONSENT_TIMEOUT ≤ env.now - request.time
    match stale with
    | none => s.entry connId
    | some request =>
      (s.withShare connId fun share => { share with pending := none }).grant connId
        request.requestId (.error DENIED_WEBCAM_CONSENT)

def close (connId : Int32) (s : State) : State :=
  let sender := (s.shares connId).bind fun share => share.sender
  let s := { s with shares := Function.update s.shares connId none }
  let s := s.dropSender connId sender
  { s with allowed := Function.update s.allowed connId none }

def next (s : State) (event : Env × Event) : State :=
  match event.2 with
  | .message connId perms message => onMessage event.1 connId perms message s
  | .answer connId accepted _ => cameraConsent event.1 connId accepted s
  | .timer connId requestId => onTimer event.1 connId requestId s
  | .close connId => close connId s

def step (s : State) (event : Env × Event) : Option State := some (next s event)

section Shares

variable (s : State) (connId c : Int32)

@[simp] theorem share_withShare (f : Share → Share) :
    (s.withShare connId f).share c = if c = connId then f (s.share connId) else s.share c := by
  unfold State.withShare
  simp only [State.share, Function.update_apply]
  split <;> rfl

@[simp] theorem share_send (message : Sent) : (s.send connId message).share c = s.share c := rfl

@[simp] theorem started_send (message : Sent) : (s.send connId message).started = s.started := rfl

@[simp] theorem started_withShare (f : Share → Share) :
    (s.withShare connId f).started = s.started :=
  rfl

@[simp] theorem share_grant (requestId : Int32) (result : Except String (List CameraInfo)) :
    (s.grant connId requestId result).share c = s.share c := by
  cases result <;> rfl

@[simp] theorem started_grant (requestId : Int32) (result : Except String (List CameraInfo)) :
    (s.grant connId requestId result).started = s.started := by
  cases result <;> rfl

@[simp] theorem share_dropSender (sender : Option SendStream) :
    (s.dropSender connId sender).share c = s.share c := by
  unfold State.dropSender
  split
  · split <;> rfl
  · rfl

@[simp] theorem started_dropSender (sender : Option SendStream) :
    (s.dropSender connId sender).started = s.started := by
  unfold State.dropSender
  split
  · split <;> rfl
  · rfl

@[simp] theorem share_permit (perms : Permissions) :
    (s.permit connId perms).share c = s.share c := rfl

@[simp] theorem started_permit (perms : Permissions) :
    (s.permit connId perms).started = s.started := rfl

@[simp] theorem share_entry : (s.entry connId).share c = s.share c := by
  unfold State.entry
  rw [share_withShare]
  split
  · rename_i heq
    rw [heq]
  · rfl

@[simp] theorem started_entry : (s.entry connId).started = s.started := rfl

@[simp] theorem share_ask (timer : Timer) : (s.ask timer).share c = s.share c := rfl

@[simp] theorem started_ask (timer : Timer) : (s.ask timer).started = s.started := rfl

@[simp] theorem share_startStream (streamId : Int32) :
    (s.startStream connId streamId).share c = s.share c := rfl

@[simp] theorem share_removeTimer (timer : Timer) : (s.removeTimer timer).share c = s.share c := rfl

@[simp] theorem started_removeTimer (timer : Timer) :
    (s.removeTimer timer).started = s.started := rfl

end Shares

def Permitted (perms : Permissions) (env : Env) : Prop := perms.camera = true ∧ env.webcamOn = true

theorem permitted_of_cameraAllowed {env : Env} {s : State} {connId : Int32} {perms : Permissions}
    {u : Unit} (hperms : s.allowed connId = some perms) (h : cameraAllowed env s connId = .ok u) :
    Permitted perms env := by
  unfold cameraAllowed authorizeCamera permissions at h
  rw [hperms] at h
  simp only [Option.getD_some] at h
  split at h
  · cases h
  · rename_i hcamera
    split at h
    · cases h
    · rename_i hon
      exact ⟨by simpa using hcamera, by simpa using hon⟩

def Asks (connId requestId : Int32) (event : Env × Event) : Prop :=
  ∃ perms, event.2 = .message connId perms (.cameraRequest requestId) ∧ Permitted perms event.1

def Answers (connId : Int32) (event : Env × Event) : Prop :=
  ∃ accepted question, event.2 = .answer connId accepted question

inductive ShareStep (c : Int32) (old : Share) (event : Env × Event) : Share → Prop
  | kept (new : Share) (hpending : new.pending = old.pending) (hgranted : new.granted = old.granted)
      (hclose : event.2 ≠ .close c) (hanswer : ¬ Answers c event) : ShareStep c old event new
  | asked (requestId : Int32) (hasks : Asks c requestId event) :
      ShareStep c old event { old with pending := some ⟨requestId, event.1.now⟩ }
  | answered (accepted : Bool) (question : Int32) (hevent : event.2 = .answer c accepted question) :
      ShareStep c old event
        { old with
          pending := none
          granted := old.granted || (old.pending.isSome && accepted) }
  | expired (requestId : Int32) (hevent : event.2 = .timer c requestId) :
      ShareStep c old event { old with pending := none }
  | closed (hevent : event.2 = .close c) : ShareStep c old event Share.new

section Steps

variable (env : Env) (s : State) (connId c : Int32)

theorem shareStep_message (perms : Permissions) (message : Message) (new : Share)
    (hpending : new.pending = (s.share c).pending) (hgranted : new.granted = (s.share c).granted) :
    ShareStep c (s.share c) (env, .message connId perms message) new := by
  refine .kept new hpending hgranted ?_ ?_
  · intro heq
    cases heq
  · rintro ⟨accepted, question, heq⟩
    cases heq

theorem shareStep_onMessage (perms : Permissions) (message : Message) :
    ShareStep c (s.share c) (env, .message connId perms message)
      ((onMessage env connId perms message s).share c) := by
  have hkept := shareStep_message env s connId c perms message
  unfold onMessage
  cases message with
  | cameraRequest requestId =>
    simp only [onCameraRequest]
    split
    · exact hkept _ (by simp) (by simp)
    · rename_i hallowed
      have hperms : Permitted perms env :=
        permitted_of_cameraAllowed (Function.update_self ..) hallowed
      split
      · exact hkept _ (by simp) (by simp)
      · simp only [share_ask, share_withShare, share_entry, share_permit]
        split
        · rename_i heq
          subst heq
          exact .asked requestId ⟨perms, rfl, hperms⟩
        · exact hkept _ rfl rfl
  | cameraPull streamId index =>
    simp only [onCameraPull]
    split
    · exact hkept _ (by simp) (by simp)
    · split
      · exact hkept _ (by simp) (by simp)
      · split
        · exact hkept _ (by simp) (by simp)
        · simp only [share_dropSender, share_withShare, share_startStream, share_entry,
            share_permit]
          split
          · rename_i heq
            subst heq
            exact hkept _ rfl rfl
          · exact hkept _ rfl rfl
  | mediaOpened streamId success =>
    simp only [share_withShare, share_permit]
    split
    · rename_i heq
      subst heq
      split
      · exact hkept _ rfl rfl
      · exact hkept _ rfl rfl
    · exact hkept _ rfl rfl
  | mediaAck streamId => exact hkept _ (by simp) (by simp)
  | mediaClose streamId =>
    simp only
    split
    · exact hkept _ rfl rfl
    · simp only [share_withShare, share_permit]
      split
      · rename_i heq
        subst heq
        split
        · exact hkept _ rfl rfl
        · exact hkept _ rfl rfl
      · exact hkept _ rfl rfl
  | other => exact hkept _ rfl rfl

theorem shareStep_cameraConsent (accepted : Bool) (question : Int32) :
    ShareStep c (s.share c) (env, .answer connId accepted question)
      ((cameraConsent env connId accepted s).share c) := by
  have hshare : (cameraConsent env connId accepted s).share c =
      if c = connId then
        { s.share connId with
          pending := none
          granted := (s.share connId).granted || ((s.share connId).pending.isSome && accepted) }
      else s.share c := by
    unfold cameraConsent
    simp only
    split
    · exact share_withShare ..
    · split
      · rw [share_grant, share_withShare]
      · rw [share_grant, share_withShare]
  rw [hshare]
  split
  · rename_i heq
    subst heq
    exact .answered accepted question rfl
  · rename_i hne
    refine .kept _ rfl rfl ?_ ?_
    · intro heq
      cases heq
    · rintro ⟨a, q, heq⟩
      cases heq
      exact hne rfl

theorem shareStep_onTimer (requestId : Int32) :
    ShareStep c (s.share c) (env, .timer connId requestId)
    ((onTimer env connId requestId s).share c) := by
  have hkept : ∀ new : Share, new = s.share c →
      ShareStep c (s.share c) (env, .timer connId requestId) new := by
    rintro new rfl
    refine .kept _ rfl rfl ?_ ?_
    · intro heq
      cases heq
    · rintro ⟨accepted, question, heq⟩
      cases heq
  unfold onTimer
  split
  · exact hkept _ rfl
  · simp only
    split
    · exact hkept _ (by simp)
    · simp only [share_grant, share_withShare, share_removeTimer]
      split
      · rename_i heq
        subst heq
        exact .expired requestId rfl
      · exact hkept _ rfl

theorem shareStep_close :
    ShareStep c (s.share c) (env, .close connId) ((close connId s).share c) := by
  have hshare : (close connId s).share c = if c = connId then Share.new else s.share c := by
    have hremoved : State.share { s with shares := Function.update s.shares connId none } c =
        if c = connId then Share.new else s.share c := by
      simp only [State.share, Function.update_apply]
      split <;> rfl
    exact (share_dropSender _ connId c _).trans hremoved
  rw [hshare]
  split
  · rename_i heq
    subst heq
    exact .closed rfl
  · rename_i hne
    refine .kept _ rfl rfl ?_ ?_
    · intro heq
      cases heq
      exact hne rfl
    · rintro ⟨accepted, question, heq⟩
      cases heq

theorem shareStep_next (event : Env × Event) :
    ShareStep c (s.share c) event ((next s event).share c) := by
  obtain ⟨env, event⟩ := event
  cases event with
  | message connId perms message => exact shareStep_onMessage env s connId c perms message
  | answer connId accepted question =>
    exact shareStep_cameraConsent env s connId c accepted question
  | timer connId requestId => exact shareStep_onTimer env s connId c requestId
  | close connId => exact shareStep_close env s connId c

end Steps

def Pulls (connId streamId : Int32) (event : Env × Event) : Prop :=
  ∃ perms index, event.2 = .message connId perms (.cameraPull streamId index) ∧
    Permitted perms event.1

theorem started_next (s : State) (event : Env × Event) :
    (next s event).started = s.started ∨
      ∃ c streamId, (next s event).started = s.started ++ [(c, streamId)] ∧ Pulls c streamId event ∧
        (s.share c).granted = true := by
  obtain ⟨env, event⟩ := event
  cases event with
  | message connId perms message =>
    unfold next onMessage
    cases message with
    | cameraRequest requestId =>
      simp only [onCameraRequest]
      split
      · exact Or.inl (by simp)
      · split
        · exact Or.inl (by simp)
        · exact Or.inl (by simp)
    | cameraPull streamId index =>
      simp only [onCameraPull]
      split
      · exact Or.inl (by simp)
      · rename_i hallowed
        have hperms : Permitted perms env :=
          permitted_of_cameraAllowed (Function.update_self ..) hallowed
        split
        · exact Or.inl (by simp)
        · rename_i hgranted
          split
          · exact Or.inl (by simp)
          · refine Or.inr ⟨connId, streamId, ?_,
              ⟨perms, index, rfl, hperms⟩, by simpa using hgranted⟩
            simp [State.startStream]
    | mediaOpened streamId success => exact Or.inl (by simp)
    | mediaAck streamId => exact Or.inl (by simp)
    | mediaClose streamId =>
      simp only
      split
      · exact Or.inl (by simp)
      · exact Or.inl (by simp)
    | other => exact Or.inl (by simp)
  | answer connId accepted question =>
    unfold next cameraConsent
    simp only
    split
    · exact Or.inl (by simp)
    · split
      · exact Or.inl (by simp)
      · exact Or.inl (by simp)
  | timer connId requestId =>
    unfold next onTimer
    simp only
    split
    · exact Or.inl rfl
    · split
      · exact Or.inl (by simp)
      · exact Or.inl (by simp)
  | close connId =>
    unfold next close
    exact Or.inl (by simp)

/-- The connection asked with the webcam permitted, and since then it was not closed and the user
did not answer. -/
def Requested (past : List (Env × Event)) (c : Int32) (pending : Pending) : Prop :=
  ∃ before request after, past = before ++ request :: after ∧ Asks c pending.requestId request ∧
    request.1.now = pending.time ∧ ∀ event ∈ after, event.2 ≠ .close c ∧ ¬ Answers c event

/-- The user accepted while a request of the connection was pending, and since then the
connection was not closed. The request the user was shown and the pending one are related. -/
def Consented (related : Int32 → Int32 → Prop) (past : List (Env × Event)) (c : Int32) : Prop :=
  ∃ before answer after u pending question, past = before ++ answer :: after ∧
    Runs.exec step start before = some u ∧ answer.2 = .answer c true question ∧
    (u.share c).pending = some pending ∧ Requested before c pending ∧
    related question pending.requestId ∧ ∀ event ∈ after, event.2 ≠ .close c

theorem Requested.next {past : List (Env × Event)} {c : Int32} {pending : Pending}
    (h : Requested past c pending) {event : Env × Event} (hclose : event.2 ≠ .close c)
    (hanswer : ¬ Answers c event) : Requested (past ++ [event]) c pending := by
  obtain ⟨before, request, after, rfl, hasks, htime, hquiet⟩ := h
  refine ⟨before, request, after ++ [event], by simp, hasks, htime, ?_⟩
  intro x hx
  rcases List.mem_append.mp hx with hold | hnew
  · exact hquiet x hold
  · obtain rfl := List.mem_singleton.mp hnew
    exact ⟨hclose, hanswer⟩

theorem Consented.next {related : Int32 → Int32 → Prop} {past : List (Env × Event)} {c : Int32}
    (h : Consented related past c) {event : Env × Event} (hclose : event.2 ≠ .close c) :
    Consented related (past ++ [event]) c := by
  obtain ⟨before, answer, after, u, pending, question, rfl, hexec, hevent, hpending, hrequested,
    hrelated, hopen⟩ := h
  refine ⟨before, answer, after ++ [event], u, pending, question, by simp, hexec, hevent, hpending,
    hrequested, hrelated, ?_⟩
  intro x hx
  rcases List.mem_append.mp hx with hold | hnew
  · exact hopen x hold
  · obtain rfl := List.mem_singleton.mp hnew
    exact hclose

def Explained (past : List (Env × Event)) (s : State) : Prop :=
  ∀ c, (∀ pending, (s.share c).pending = some pending → Requested past c pending) ∧
    ((s.share c).granted = true → Consented (fun _ _ => True) past c)

theorem explained_next (past : List (Env × Event)) (s : State) (event : Env × Event)
    (hexec : Runs.exec step start past = some s) (h : Explained past s) :
    Explained (past ++ [event]) (next s event) := by
  intro c
  obtain ⟨hpending, hgranted⟩ := h c
  have hstep := shareStep_next s c event
  generalize (next s event).share c = new at hstep
  cases hstep with
  | kept new hsame hsame' hclose hanswer =>
    rw [hsame, hsame']
    exact ⟨fun pending hold => (hpending pending hold).next hclose hanswer,
      fun hold => (hgranted hold).next hclose⟩
  | asked requestId hasks =>
    obtain ⟨perms, hevent, hpermitted⟩ := hasks
    refine ⟨?_, fun hold => (hgranted hold).next (by rw [hevent]; exact fun heq => by cases heq)⟩
    intro pending hnew
    obtain rfl := Option.some.inj hnew
    exact ⟨past, event, [], rfl, ⟨perms, hevent, hpermitted⟩, rfl, fun x hx => by cases hx⟩
  | answered accepted question hevent =>
    have hclose : event.2 ≠ .close c := by
      rw [hevent]
      exact fun heq => by cases heq
    refine ⟨fun pending hnone => (by cases hnone), fun hnew => ?_⟩
    rw [Bool.or_eq_true] at hnew
    rcases hnew with hold | hnow
    · exact (hgranted hold).next hclose
    · rw [Bool.and_eq_true] at hnow
      obtain ⟨hsome, rfl⟩ := hnow
      obtain ⟨pending, hwaiting⟩ := Option.isSome_iff_exists.mp hsome
      exact ⟨past, event, [], s, pending, question, rfl, hexec, hevent, hwaiting,
        hpending pending hwaiting, trivial, fun x hx => by cases hx⟩
  | expired requestId hevent =>
    refine ⟨fun pending hnone => (by cases hnone), fun hold => (hgranted hold).next ?_⟩
    rw [hevent]
    exact fun heq => by cases heq
  | closed hevent => exact ⟨fun pending hnone => (by cases hnone), fun hnone => (by cases hnone)⟩

/-- A stream starts only with a pull of a connection to which the webcam is permitted, after the
user accepted while a request of the same connection was pending. -/
theorem stream_after_consent (past : List (Env × Event)) (s t : State) (event : Env × Event)
    (hexec : Runs.exec step start past = some s) (hstep : step s event = some t)
    (hstarts : t.started ≠ s.started) :
    ∃ c streamId, t.started = s.started ++ [(c, streamId)] ∧ Pulls c streamId event ∧
      Consented (fun _ _ => True) past c := by
  obtain rfl := Option.some.inj hstep
  have hexplained : Explained past s := by
    refine Runs.history_of_exec step Explained start ?_ ?_ past s hexec
    · exact fun c => ⟨fun pending hnone => (by cases hnone), fun hnone => (by cases hnone)⟩
    · rintro es u e v hu hpast hv
      obtain rfl := Option.some.inj hv
      exact explained_next es u e hu hpast
  rcases started_next s event with hsame | ⟨c, streamId, hstarted, hpulls, hgranted⟩
  · exact absurd hsame hstarts
  · exact ⟨c, streamId, hstarted, hpulls, (hexplained c).2 hgranted⟩

def sampleEnv (seconds : ℕ) : Env := ⟨seconds * 10 ^ 9, true, .ok []⟩

def sampleMessage (seconds : ℕ) (message : Message) : Env × Event :=
  (sampleEnv seconds, .message 1 ⟨false, true⟩ message)

theorem stream_after_consent_sample :
    ∃ s t, Runs.exec step start [sampleMessage 0 (.cameraRequest 5),
        (sampleEnv 1, .answer 1 true 5)] = some s ∧
      step s (sampleMessage 2 (.cameraPull 2 0)) = some t ∧
      ∃ c streamId, t.started = s.started ++ [(c, streamId)] ∧
        Pulls c streamId (sampleMessage 2 (.cameraPull 2 0)) ∧
        Consented (fun _ _ => True) [sampleMessage 0 (.cameraRequest 5),
          (sampleEnv 1, .answer 1 true 5)] c :=
  ⟨_, _, rfl, rfl, stream_after_consent _ _ _ _ rfl rfl (by decide)⟩

def lateAnswer : List (Env × Event) :=
  [sampleMessage 0 (.cameraRequest 5), (sampleEnv 60, .timer 1 5),
    sampleMessage 61 (.cameraRequest 6),
    (sampleEnv 62, .answer 1 true 5)]

/-- The answer to the first request comes when the second is pending, and a stream starts. -/
theorem late_answer_starts :
    ∃ s t, Runs.exec step start lateAnswer = some s ∧
      step s (sampleMessage 63 (.cameraPull 2 0)) = some t ∧ s.started = [] ∧ t.started = [(1, 2)] ∧
      ¬ Consented Eq lateAnswer 1 := by
  refine ⟨_, _, rfl, rfl, by decide, by decide, ?_⟩
  rintro ⟨before, answer, after, u, pending, question, hpast, hexec, hanswer, hpending,
    -, hrelated, -⟩
  -- the only answer is the last event
  have hlast : before = lateAnswer.take 3 ∧ question = 5 := by
    have hmessage : ∀ seconds message, (sampleMessage seconds message).2 ≠ .answer 1 true
        question := by
      intro seconds message heq
      cases heq
    rcases before with _ | ⟨first, _ | ⟨second, _ | ⟨third, _ | ⟨fourth, before⟩⟩⟩⟩
    all_goals
      simp only [lateAnswer, List.nil_append, List.cons_append, List.cons.injEq] at hpast
    · obtain ⟨rfl, -⟩ := hpast
      exact absurd hanswer (hmessage _ _)
    · obtain ⟨-, rfl, -⟩ := hpast
      cases hanswer
    · obtain ⟨-, -, rfl, -⟩ := hpast
      exact absurd hanswer (hmessage _ _)
    · obtain ⟨rfl, rfl, rfl, rfl, -⟩ := hpast
      cases hanswer
      exact ⟨rfl, rfl⟩
    · obtain ⟨-, -, -, -, hpast⟩ := hpast
      simp at hpast
  obtain ⟨rfl, rfl⟩ := hlast
  have hwaiting : (Runs.exec step start (lateAnswer.take 3)).map (fun u => (u.share 1).pending) =
      some (some ⟨6, 61 * 10 ^ 9⟩) := by decide
  rw [hexec, Option.map_some, hpending] at hwaiting
  obtain rfl := Option.some.inj (Option.some.inj hwaiting)
  cases hrelated

end ClantoDesk.CameraConsent
