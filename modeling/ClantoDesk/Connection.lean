import ClantoDesk.IdPermissions
import ClantoDesk.Runs
import ClantoDesk.SessionGrant
import Mathlib.Data.Int.Notation

/-!
One connection of the host up to its authorisation, src/server/connection.rs.
A peer sends login requests, codes of the second factor, an answer to a request to switch
sides and, once authorised, channel frames of a port forward. The connection
manager sends the click of the user at the host. Each message is handled as a whole
before the next one. What a message reads outside the connection is its environment.
-/
namespace ClantoDesk.Connection

open Text IdPermissions IdWhitelist SessionGrant

def require2faMsg : String := "2FA Required"
def loginMsgPasswordWrong : String := "Wrong Password"
def loginMsg2faWrong : String := "Wrong 2FA Code"
def loginMsgNoPasswordAccess : String := "No Password Access"
def loginMsgOffline : String := "Offline"

inductive ApproveMode
  | both | password | click
  deriving DecidableEq

/-- The field `union` of a login request. -/
inductive Kind
  | remote
  | fileTransfer (dir : String) (showHidden : Bool)
  | viewCamera
  | terminal (serviceId : String)
  | portForward (host : String) (port : ℤ) (multiplex : Bool)
  deriving DecidableEq

structure LoginRequest where
  myId : Str
  kind : Kind
  username : String
  password : List UInt8
  clantoGrant : String
  osUsername : Str
  deriving DecidableEq

inductive AuthConnType
  | remote | fileTransfer | portForward | viewCamera | terminal
  deriving DecidableEq

/-- The parsers and the cryptography the host relies on. -/
structure Libraries where
  codec : Codec
  parseProfiles : Str → Option (List (Str × ProfileConfig))

/-- What one message reads of the configuration, the operating system and the rest of the host.
A field with an optional text is the refusal of a check. -/
structure Env where
  idWhitelist : Str
  idPermissions : Str
  whitelistBudget : Option String
  host : Host
  times : Times
  translated : String → String
  accessHours : Option String
  twoFactorPolicy : Option String
  requireProtectedDevice : Bool
  requireControllerWatermark : Bool
  posture : Option String
  controlPermissions : Permission → Option Bool
  enabledLocally : Permission → Bool
  inPrivacyMode : Bool
  windows : Bool
  installed : Bool
  prelogin : Bool
  addressed : Bool
  approveMode : ApproveMode
  hasValidPassword : Bool
  allowLogonScreenPassword : Bool
  noPasswordNotice : Bool
  sessionPasswordMatches : Bool
  sessionTfa : Bool
  passwordBudget : Option String
  passwordValid : Bool
  trustedDevice : Bool
  tfaBudget : Option String
  codeValid : Option Bool
  terminalLogin : Option (Option String)
  portReachable : Option String
  sessionCode : Bool
  switchUuidMatches : Bool
  closeOnViolation : Bool

structure Gates where
  whitelist : Bool
  grant : Bool
  loginBlock : Bool
  posture : Bool
  deriving DecidableEq

def Gates.passed (g : Gates) : Prop :=
  g.whitelist = true ∧ g.grant = true ∧ g.loginBlock = true ∧ g.posture = true

instance Gates.decidablePassed (g : Gates) : Decidable g.passed := by
  unfold Gates.passed
  infer_instance

/-- What the account of a login is made of: the grant, the answers of the gates, what
the tenant asks for, and whether a password was presented and the user confirmed. -/
structure Account where
  gates : Gates
  needs : Requirements
  grant : Option GrantInfo
  passwordShown : Bool
  confirmed : Bool
  deriving DecidableEq

/-- The connection. `gates`, `needs`, `passwordShown`, `confirmed`, `admission` and
`served` only record; the code does not have them. -/
structure Conn where
  closed : Bool
  authorized : Bool
  awaiting2fa : Bool
  require2fa : Bool
  fromSwitch : Bool
  lr : LoginRequest
  loginScope : Option (Str × Kind)
  clantoGrant : Option GrantInfo
  idProfile : Option Profile
  perms : CustomPermissions
  clantoForwardProfile : Bool
  clantoCameraProfile : Bool
  fileTransfer : Option (String × Bool)
  viewCamera : Bool
  terminal : Bool
  terminalServiceId : String
  portForwardAddress : String
  terminalUserToken : Bool
  portForwardSocket : Bool
  portForwardMux : Option String
  authedConnType : Option AuthConnType
  cmStarted : Bool
  cmTold : Bool
  loginErrors : List String
  gates : Gates
  needs : Requirements
  passwordShown : Bool
  confirmed : Bool
  admission : Option Account
  served : List (Option GrantInfo)
  deriving DecidableEq

def start (require2fa : Bool) : Conn :=
  { closed := false
    authorized := false
    awaiting2fa := false
    require2fa := require2fa
    fromSwitch := false
    lr := ⟨[], .remote, "", [], "", []⟩
    loginScope := none
    clantoGrant := none
    idProfile := none
    perms := {}
    clantoForwardProfile := true
    clantoCameraProfile := true
    fileTransfer := none
    viewCamera := false
    terminal := false
    terminalServiceId := ""
    portForwardAddress := ""
    terminalUserToken := false
    portForwardSocket := false
    portForwardMux := none
    authedConnType := none
    cmStarted := false
    cmTold := false
    loginErrors := []
    gates := ⟨false, false, false, false⟩
    needs := ⟨false, false, false⟩
    passwordShown := false
    confirmed := false
    admission := none
    served := [] }

namespace Conn

def sendLoginError (c : Conn) (text : String) : Conn :=
  { c with loginErrors := c.loginErrors ++ [text] }

def refuse (c : Conn) (text : String) : Conn :=
  { c with loginErrors := c.loginErrors ++ [text], closed := true }

def tryStartCm (c : Conn) : Conn := { c with cmTold := true }

def tryStartCmIpc (c : Conn) : Conn := { c with cmStarted := true }

def resetSessionScopeForLogin (c : Conn) : Conn :=
  { c with fileTransfer := none, viewCamera := false, terminal := false, portForwardAddress := "" }

/-- `require_2fa.take()`. -/
def take2fa (c : Conn) : Conn := { c with require2fa := false }

def confirm (c : Conn) : Conn := { c with confirmed := true }

def isPortForward (c : Conn) : Bool := c.portForwardSocket || c.portForwardMux.isSome

def authConnType (c : Conn) : AuthConnType :=
  if c.fileTransfer.isSome then .fileTransfer
  else if c.isPortForward then .portForward
  else if c.viewCamera then .viewCamera
  else if c.terminal then .terminal
  else .remote

def account (c : Conn) : Account := ⟨c.gates, c.needs, c.clantoGrant, c.passwordShown, c.confirmed⟩

end Conn

def entries (text : Str) : List Str :=
  ((text.splitOn ',').map trim).filter fun x => !x.isEmpty

def checkIdWhitelist (env : Env) (myId : Str) : Option String :=
  if (entries env.idWhitelist).isEmpty then none
  else
    match env.whitelistBudget with
    | some text => some text
    | none =>
      if idWhitelistAllows (entries env.idWhitelist) myId then none
      else some "Your ID is blocked by the peer"

def clantoCheckGrant (lib : Libraries) (env : Env) (lr : LoginRequest) :
    Except String (Option GrantInfo) :=
  match (evaluate lib.codec env.host lr.clantoGrant env.times).1 with
  | .unmanaged => .ok none
  | .grant info => .ok (some info)
  | .refuse _ message _ _ => .error (env.translated message)

def loginBlock (env : Env) : Option String := env.accessHours.or env.twoFactorPolicy

inductive VerificationMode
  | none | signature | full
  deriving DecidableEq

def verificationMode (env : Env) : VerificationMode :=
  if env.requireProtectedDevice then .full
  else if env.requireControllerWatermark then .signature
  else .none

def checkPosture (env : Env) : Option String :=
  if verificationMode env = .none then none else env.posture

def gatesOf (lib : Libraries) (env : Env) (lr : LoginRequest) : Gates :=
  { whitelist := (checkIdWhitelist env lr.myId).isNone
    grant := (clantoCheckGrant lib env lr).isOk
    loginBlock := (loginBlock env).isNone
    posture := (checkPosture env).isNone }

def needsOf (lib : Libraries) (env : Env) (lr : LoginRequest) : Requirements :=
  match env.host.enrolled with
  | none => ⟨false, false, false⟩
  | some _ =>
    match clantoCheckGrant lib env lr with
    | .ok (some info) => info.needs
    | _ => requirements env.host.accessMode

def permission (env : Env) (p : Permission) : Bool :=
  (env.controlPermissions p).getD (env.enabledLocally p)

def grantPermission : Permission → Option String
  | .keyboard | .blockInput | .restart | .terminal | .tunnel => some "control"
  | .file => some "file"
  | .clipboard => some "clipboard"
  | .recording => some "record"
  | _ => none

def grantAllows (grant : Option GrantInfo) (p : Permission) : Bool :=
  match grant, grantPermission p with
  | some info, some name => info.allows name
  | _, _ => true

def ofPermissions (f : Permission → Bool) : CustomPermissions :=
  { keyboard := f .keyboard
    clipboard := f .clipboard
    file := f .file
    audio := f .audio
    camera := f .camera
    terminal := f .terminal
    tunnel := f .tunnel
    restart := f .restart
    recording := f .recording
    blockInput := f .blockInput
    privacyMode := f .privacyMode
    remotePrinter := f .remotePrinter }

def profileAllows (profile : Option ResolvedProfile) (p : Permission) : Bool :=
  match profile with
  | some profile => profile.allows p
  | none => true

def profileOf (lib : Libraries) (env : Env) (myId : Str) : Option ResolvedProfile :=
  (resolveProfile lib.parseProfiles (entries env.idWhitelist) env.idPermissions myId).profile

def applyIdPermissions (lib : Libraries) (env : Env) (c : Conn) : Conn :=
  let profile := profileOf lib env c.lr.myId
  { c with
    idProfile := profile.map fun p => p.profile
    clantoForwardProfile := profileAllows profile .tunnel
    clantoCameraProfile := profileAllows profile .camera
    perms := ofPermissions fun p =>
      permission env p && profileAllows profile p && grantAllows c.clantoGrant p &&
        (!decide (p = .recording) || !env.requireControllerWatermark) }

def profiledPermission (env : Env) (c : Conn) (p : Permission) : Bool :=
  permission env p && (c.idProfile.isNone || c.perms.allows p)

def normalizePortForwardTarget (host : String) (port : ℤ) : String :=
  let (host, port) := if host = "RDP" ∧ port = 0 then ("localhost", 3389) else (host, port)
  let host := if host = "" then "localhost" else host
  host ++ ":" ++ toString port

/-- `is_recent_session(true)`. -/
def recentTfa (env : Env) (c : Conn) : Bool := !c.lr.password.isEmpty && env.sessionTfa

/-- `is_recent_session(false)`. -/
def recentSession (env : Env) (lr : LoginRequest) : Bool :=
  !lr.password.isEmpty && env.sessionPasswordMatches

def shouldUseTerminalOsLoginScope (env : Env) (c : Conn) : Bool :=
  env.windows && c.terminal && !(trim c.lr.osUsername).isEmpty

def prepareTerminalLogin (env : Env) (c : Conn) : Except Conn Conn :=
  if !c.terminal || c.terminalUserToken then .ok c
  else
    match env.terminalLogin with
    | some (some text) => .error (c.refuse text)
    | some none => .error { c with closed := true }
    | none =>
      let c := { c with terminalUserToken := true }
      .ok (if shouldUseTerminalOsLoginScope env c then c.tryStartCmIpc else c)

def connectPortForwardIfNeeded (env : Env) (c : Conn) : Except Conn Conn :=
  if c.isPortForward then .ok c
  else
    match c.lr.kind with
    | .portForward host port multiplex =>
      if multiplex then .ok { c with portForwardMux := some c.portForwardAddress }
      else
        let c := { c with portForwardAddress := normalizePortForwardTarget host port }
        match env.portReachable with
        | some text => .error (c.refuse text)
        | none => .ok { c with portForwardSocket := true }
    | _ => .ok c

def authorize (c : Conn) : Conn :=
  { c with authorized := true, authedConnType := some c.authConnType, admission := some c.account }

def sendLogonResponse (env : Env) (c : Conn) : Conn :=
  if c.authorized then c
  else if c.require2fa && !recentTfa env c && !c.fromSwitch then
    { c with awaiting2fa := true }.sendLoginError require2faMsg
  else
    match prepareTerminalLogin env { c with awaiting2fa := false } with
    | .error c => c
    | .ok c =>
      match connectPortForwardIfNeeded env c with
      | .error c => c
      | .ok c =>
        if env.sessionCode then authorize c else c.refuse "Session code generation failed"

/-- The login is taken over; a trusted device or controller needs no second factor. -/
def handleLoginRequestWithoutValidation (lib : Libraries) (env : Env) (lr : LoginRequest)
    (c : Conn) : Conn :=
  { c with
    lr := lr
    require2fa := c.require2fa && !env.trustedDevice
    gates := gatesOf lib env lr
    needs := needsOf lib env lr }

def checkKind (env : Env) (c : Conn) : Conn :=
  match c.lr.kind with
  | .fileTransfer dir showHidden =>
    if profiledPermission env c .file then { c with fileTransfer := some (dir, showHidden) }
    else c.refuse "No permission of file transfer"
  | .viewCamera =>
    if profiledPermission env c .camera then { c with viewCamera := true }
    else c.refuse "No permission of viewing camera"
  | .terminal serviceId =>
    if !profiledPermission env c .terminal then c.refuse "No permission of terminal"
    else if env.windows && !c.lr.osUsername.isEmpty && !env.installed then
      c.refuse "Supported only in the installed version."
    else { c with terminal := true, terminalServiceId := serviceId }
  | .portForward host port _ =>
    if profiledPermission env c .tunnel then
      { c with portForwardAddress := normalizePortForwardTarget host port }
    else c.refuse "No permission of IP tunneling"
  | .remote =>
    if env.inPrivacyMode then c.refuse "Someone turns on privacy mode, exit" else c

def awaitClick (env : Env) (c : Conn) : Conn :=
  if shouldUseTerminalOsLoginScope env c then
    match prepareTerminalLogin env c with
    | .error c => c
    | .ok c => c.tryStartCm
  else c.tryStartCm

def finishLogin (env : Env) (c : Conn) : Conn :=
  let c := sendLogonResponse env c
  if c.closed then c else c.tryStartCm

def loginWithPassword (env : Env) (c : Conn) : Conn :=
  let required := c.clantoGrant.any fun g => g.needs.password
  if !required && ((decide (env.approveMode = .click) && !env.allowLogonScreenPassword) ||
      (decide (env.approveMode = .both) && !env.hasValidPassword)) then
    let c := awaitClick env c
    if !c.closed && env.noPasswordNotice then c.sendLoginError loginMsgNoPasswordAccess else c
  else if recentSession env c.lr then finishLogin env { c with passwordShown := true }
  else if c.lr.password.isEmpty then awaitClick env c
  else
    match env.passwordBudget with
    | some text => c.sendLoginError text
    | none =>
      if env.passwordValid then finishLogin env { c with passwordShown := true }
      else (c.sendLoginError loginMsgPasswordWrong).tryStartCm

def loginAccess (env : Env) (c : Conn) : Conn :=
  match c.clantoGrant with
  | some g =>
    if g.needs.confirm && !g.needs.password then c.tryStartCm
    else if !g.needs.password then finishLogin env c
    else loginWithPassword env c
  | none => loginWithPassword env c

def loginPassed (env : Env) (c : Conn) : Conn :=
  let c := checkKind env c
  if c.closed then c
  else if !env.addressed then c.refuse loginMsgOffline
  else if env.windows && c.terminal && (trim c.lr.osUsername).isEmpty && env.prelogin then
    c.refuse "No active console user logged on, please connect and logon first."
  else if shouldUseTerminalOsLoginScope env c then loginAccess env c
  else loginAccess env c.tryStartCmIpc

def takeLogin (lib : Libraries) (env : Env) (lr : LoginRequest) (c : Conn) : Conn :=
  let c := { c with loginScope := some (lr.myId, lr.kind), awaiting2fa := false }
  (handleLoginRequestWithoutValidation lib env lr c).resetSessionScopeForLogin

/-- `on_message` for a login request. -/
def onLogin (lib : Libraries) (env : Env) (lr : LoginRequest) (c : Conn) : Conn :=
  if c.authorized then c
  else if c.loginScope.any fun scope => scope ≠ (lr.myId, lr.kind) then
    c.refuse "Connection not allowed"
  else
    let c := takeLogin lib env lr c
    match checkIdWhitelist env lr.myId with
    | some text => c.refuse text
    | none =>
      match clantoCheckGrant lib env lr with
      | .error text => { c with clantoGrant := none }.refuse text
      | .ok grant =>
        let c := applyIdPermissions lib env { c with clantoGrant := grant }
        match loginBlock env with
        | some text => c.refuse text
        | none =>
          match checkPosture env with
          | some text => c.refuse text
          | none => loginPassed env c

def scopeViolation (env : Env) (c : Conn) : Conn :=
  if env.closeOnViolation then { c with closed := true } else c

/-- `on_message` for a code of the second factor. -/
def onAuth2fa (env : Env) (c : Conn) : Conn :=
  if c.authorized && c.authedConnType ≠ some .remote then scopeViolation env c
  else if !c.awaiting2fa then c
  else
    match env.tfaBudget with
    | some text => c.sendLoginError text
    | none =>
      if !c.require2fa then c
      else
        match env.codeValid with
        | none => c
        | some true => finishLogin env c.take2fa
        | some false => c.sendLoginError loginMsg2faWrong

/-- `on_message` for an answer to a request to switch sides. -/
def onSwitchSidesResponse (lib : Libraries) (env : Env) (lr : LoginRequest) (c : Conn) : Conn :=
  if c.authorized && c.authedConnType ≠ some .remote then scopeViolation env c
  else if !env.switchUuidMatches then c
  else if lr.kind ≠ .remote then c.refuse "Connection not allowed"
  else
    let c := handleLoginRequestWithoutValidation lib env lr c.resetSessionScopeForLogin
    match checkIdWhitelist env lr.myId with
    | some text => c.refuse text
    | none =>
      let c := { applyIdPermissions lib env c with fromSwitch := true }
      let c := sendLogonResponse env c
      if c.closed then c else c.tryStartCm.tryStartCmIpc

/-- The click of the user at the host, `ipc::Data::Authorize`. -/
def onAuthorize (env : Env) (c : Conn) : Conn :=
  sendLogonResponse env c.take2fa.confirm

/-- The `open` of a port forward channel; whether it is then served is decided in the table of
channels. -/
def onPortForwardOpen (env : Env) (c : Conn) : Conn :=
  if c.authorized && c.portForwardMux.isSome && profiledPermission env c .tunnel then
    { c with served := c.served ++ [c.clantoGrant] }
  else c

def setPermission (p : Permission) (enabled : Bool) (c : Conn) : Conn :=
  { c with perms := ofPermissions fun q => if q = p then enabled else c.perms.allows q }

def switchable : List Permission :=
  [.keyboard, .clipboard, .audio, .file, .restart, .recording, .blockInput, .privacyMode]

def onSwitchPermission (env : Env) (p : Permission) (enabled : Bool) (c : Conn) : Conn :=
  if p ∈ switchable then
    setPermission p (enabled && (p ≠ .recording || !env.requireControllerWatermark)) c
  else c

/-- The connection manager only knows a connection it was told about. -/
inductive Event
  | login (env : Env) (lr : LoginRequest)
  | auth2fa (env : Env)
  | switchSidesResponse (env : Env) (lr : LoginRequest)
  | authorize (env : Env)
  | switchPermission (env : Env) (p : Permission) (enabled : Bool)
  | portForwardOpen (env : Env)
  | close

def step (lib : Libraries) (c : Conn) (event : Event) : Option Conn :=
  if c.closed then none
  else
    match event with
    | .login env lr => some (onLogin lib env lr c)
    | .auth2fa env => some (onAuth2fa env c)
    | .switchSidesResponse env lr => some (onSwitchSidesResponse lib env lr c)
    | .authorize env => if c.cmStarted ∧ c.cmTold then some (onAuthorize env c) else none
    | .switchPermission env p enabled =>
      if c.cmStarted ∧ c.cmTold then some (onSwitchPermission env p enabled c) else none
    | .portForwardOpen env => some (onPortForwardOpen env c)
    | .close => some { c with closed := true }

/-- Everything about the login stays the same. -/
structure SameLogin (c r : Conn) : Prop where
  lr : r.lr = c.lr
  gates : r.gates = c.gates
  needs : r.needs = c.needs
  clantoGrant : r.clantoGrant = c.clantoGrant
  passwordShown : r.passwordShown = c.passwordShown
  confirmed : r.confirmed = c.confirmed
  idProfile : r.idProfile = c.idProfile
  perms : r.perms = c.perms
  served : r.served = c.served
  fileTransfer : r.fileTransfer = c.fileTransfer
  terminal : r.terminal = c.terminal

variable (lib : Libraries) (env : Env) (lr : LoginRequest) (c r : Conn) (text : String)

theorem SameLogin.refl : SameLogin c c :=
  ⟨rfl, rfl, rfl, rfl, rfl, rfl, rfl, rfl, rfl, rfl, rfl⟩

theorem SameLogin.account_eq {c r : Conn} (h : SameLogin c r) : r.account = c.account := by
  simp only [Conn.account, h.gates, h.needs, h.clantoGrant, h.passwordShown, h.confirmed]

def secondFactorDone (env : Env) (c : Conn) : Prop :=
  c.require2fa = false ∨ recentTfa env c = true ∨ c.fromSwitch = true

structure Answered (env : Env) (c r : Conn) : Prop where
  same : SameLogin c r
  admission : r.authorized = true → r.admission = some c.account
  secondFactor : r.authorized = true → secondFactorDone env c
  connType : r.authorized = true → r.authedConnType = some r.authConnType
  portForward : r.closed = false → r.isPortForward = true → r.authorized = true
  forwards : r.authorized = true → r.isPortForward = true →
    ∃ host port multiplex, c.lr.kind = .portForward host port multiplex
  asks : r.closed = false → r.authorized = false → ¬ secondFactorDone env c

structure Prepared (c r : Conn) : Prop where
  same : SameLogin c r
  authorized : r.authorized = c.authorized

theorem prepareTerminalLogin_ok (h : prepareTerminalLogin env c = .ok r) :
    Prepared c r ∧ r.isPortForward = c.isPortForward ∧ r.closed = c.closed := by
  unfold prepareTerminalLogin at h
  split at h
  · obtain rfl := Except.ok.inj h
    exact ⟨⟨SameLogin.refl _, rfl⟩, rfl, rfl⟩
  · split at h
    · cases h
    · cases h
    · obtain rfl := Except.ok.inj h
      split <;> exact ⟨⟨⟨rfl, rfl, rfl, rfl, rfl, rfl, rfl, rfl, rfl, rfl, rfl⟩, rfl⟩, rfl, rfl⟩

theorem prepareTerminalLogin_awaiting
    (h : prepareTerminalLogin env c = .ok r) : r.awaiting2fa = c.awaiting2fa := by
  unfold prepareTerminalLogin at h
  split at h
  · obtain rfl := Except.ok.inj h
    rfl
  · split at h
    · cases h
    · cases h
    · obtain rfl := Except.ok.inj h
      split <;> rfl

theorem prepareTerminalLogin_error
    (h : prepareTerminalLogin env c = .error r) : Prepared c r ∧ r.closed = true := by
  unfold prepareTerminalLogin at h
  split at h
  · cases h
  · split at h
    · obtain rfl := Except.error.inj h
      exact ⟨⟨⟨rfl, rfl, rfl, rfl, rfl, rfl, rfl, rfl, rfl, rfl, rfl⟩, rfl⟩, rfl⟩
    · obtain rfl := Except.error.inj h
      exact ⟨⟨⟨rfl, rfl, rfl, rfl, rfl, rfl, rfl, rfl, rfl, rfl, rfl⟩, rfl⟩, rfl⟩
    · cases h

theorem connectPortForward_ok (h : connectPortForwardIfNeeded env c = .ok r) :
    Prepared c r ∧ r.closed = c.closed ∧
      (r.isPortForward = true → c.isPortForward = true ∨
        ∃ host port multiplex, c.lr.kind = .portForward host port multiplex) := by
  unfold connectPortForwardIfNeeded at h
  split at h
  · rename_i hport
    obtain rfl := Except.ok.inj h
    exact ⟨⟨SameLogin.refl _, rfl⟩, rfl, fun _ => Or.inl hport⟩
  · split at h
    · rename_i host port multiplex hkind
      split at h
      · obtain rfl := Except.ok.inj h
        exact ⟨⟨⟨rfl, rfl, rfl, rfl, rfl, rfl, rfl, rfl, rfl, rfl, rfl⟩, rfl⟩, rfl,
          fun _ => Or.inr ⟨host, port, multiplex, hkind⟩⟩
      · simp only at h
        split at h
        · cases h
        · obtain rfl := Except.ok.inj h
          exact ⟨⟨⟨rfl, rfl, rfl, rfl, rfl, rfl, rfl, rfl, rfl, rfl, rfl⟩, rfl⟩, rfl,
            fun _ => Or.inr ⟨host, port, multiplex, hkind⟩⟩
    · obtain rfl := Except.ok.inj h
      exact ⟨⟨SameLogin.refl _, rfl⟩, rfl, Or.inl⟩

theorem connectPortForward_error
    (h : connectPortForwardIfNeeded env c = .error r) : Prepared c r ∧ r.closed = true := by
  unfold connectPortForwardIfNeeded at h
  split at h
  · cases h
  · split at h
    · split at h
      · cases h
      · simp only at h
        split at h
        · obtain rfl := Except.error.inj h
          exact ⟨⟨⟨rfl, rfl, rfl, rfl, rfl, rfl, rfl, rfl, rfl, rfl, rfl⟩, rfl⟩, rfl⟩
        · cases h
    · cases h

theorem SameLogin.trans {a b c : Conn} (hab : SameLogin a b) (hbc : SameLogin b c) :
    SameLogin a c :=
  ⟨hbc.lr.trans hab.lr, hbc.gates.trans hab.gates, hbc.needs.trans hab.needs,
    hbc.clantoGrant.trans hab.clantoGrant, hbc.passwordShown.trans hab.passwordShown,
    hbc.confirmed.trans hab.confirmed, hbc.idProfile.trans hab.idProfile,
    hbc.perms.trans hab.perms, hbc.served.trans hab.served,
    hbc.fileTransfer.trans hab.fileTransfer, hbc.terminal.trans hab.terminal⟩

theorem Prepared.trans {a b c : Conn} (hab : Prepared a b) (hbc : Prepared b c) : Prepared a c :=
  ⟨hab.same.trans hbc.same, hbc.authorized.trans hab.authorized⟩

theorem sameLogin_authorize : SameLogin c (authorize c) :=
  ⟨rfl, rfl, rfl, rfl, rfl, rfl, rfl, rfl, rfl, rfl, rfl⟩

theorem prepared_refuse : Prepared c (c.refuse text) :=
  ⟨⟨rfl, rfl, rfl, rfl, rfl, rfl, rfl, rfl, rfl, rfl, rfl⟩, rfl⟩

theorem Answered.of_closed (hprep : Prepared c r)
    (hnew : c.authorized = false) (hclosed : r.closed = true) : Answered env c r := by
  have hauth : r.authorized = false := hprep.authorized.trans hnew
  have hnever : ∀ p : Prop, r.authorized = true → p := by
    intro p htrue
    rw [hauth] at htrue
    cases htrue
  have hover : ∀ p : Prop, r.closed = false → p := by
    intro p hopen
    rw [hclosed] at hopen
    cases hopen
  exact ⟨hprep.same, hnever _, hnever _, hnever _, hover _, hnever _, hover _⟩

theorem sendLogonResponse_answered (hnew : c.authorized = false)
    (hport : c.isPortForward = false) : Answered env c (sendLogonResponse env c) := by
  unfold sendLogonResponse
  rw [if_neg (by rw [hnew]; decide)]
  split
  · rename_i hasked
    have hmissing : ¬ secondFactorDone env c := by
      simp only [Bool.and_eq_true, Bool.not_eq_true'] at hasked
      simp [secondFactorDone, hasked]
    have hnever : ∀ p : Prop, c.authorized = true → p := by
      intro p htrue
      rw [hnew] at htrue
      cases htrue
    refine ⟨⟨rfl, rfl, rfl, rfl, rfl, rfl, rfl, rfl, rfl, rfl, rfl⟩, hnever _, hnever _,
      hnever _, ?_, hnever _, fun _ _ => hmissing⟩
    intro _ htrue
    exact absurd (htrue.symm.trans hport) (by decide)
  · rename_i hasked
    have hdone : secondFactorDone env c := by
      simp only [Bool.and_eq_true, Bool.not_eq_true', not_and, Bool.not_eq_false] at hasked
      cases hrequired : c.require2fa with
      | false => exact Or.inl hrequired
      | true =>
        cases hrecent : recentTfa env c with
        | true => exact Or.inr (Or.inl hrecent)
        | false => exact Or.inr (Or.inr (hasked ⟨hrequired, hrecent⟩))
    have hstart : Prepared c { c with awaiting2fa := false } :=
      ⟨⟨rfl, rfl, rfl, rfl, rfl, rfl, rfl, rfl, rfl, rfl, rfl⟩, rfl⟩
    split
    · rename_i r hterminal
      obtain ⟨hprep, hclosed⟩ := prepareTerminalLogin_error _ _ _ hterminal
      exact Answered.of_closed env c r (hstart.trans hprep) hnew hclosed
    · rename_i t hterminal
      obtain ⟨hprep, hportT, -⟩ := prepareTerminalLogin_ok _ _ _ hterminal
      have hprepT := hstart.trans hprep
      split
      · rename_i r hconnect
        obtain ⟨hprep', hclosed⟩ := connectPortForward_error _ _ _ hconnect
        exact Answered.of_closed env c r (hprepT.trans hprep') hnew hclosed
      · rename_i r hconnect
        obtain ⟨hprep', -, hportR⟩ := connectPortForward_ok _ _ _ hconnect
        have hprepR := hprepT.trans hprep'
        split
        · refine ⟨hprepR.same.trans (sameLogin_authorize r), ?_, fun _ => hdone, fun _ => rfl,
            fun _ _ => rfl, ?_, ?_⟩
          · intro _
            show some r.account = some c.account
            rw [hprepR.same.account_eq]
          · intro _ htrue
            have htrue' : r.isPortForward = true := htrue
            rcases hportR htrue' with hold | ⟨host, port, multiplex, hkind⟩
            · exact absurd ((hportT.symm.trans hold).symm.trans hport) (by decide)
            · exact ⟨host, port, multiplex, hprepT.same.lr ▸ hkind⟩
          · intro _ hfalse
            cases hfalse
        · exact Answered.of_closed env c _ (hprepR.trans (prepared_refuse r _)) hnew rfl

theorem sendLogonResponse_of_authorized (hauth : c.authorized = true) :
    sendLogonResponse env c = c := by
  rw [sendLogonResponse, if_pos hauth]

/-- Telling the connection manager changes nothing else. -/
theorem Answered.tryStartCm {env : Env} {c r : Conn} (h : Answered env c r) :
    Answered env c r.tryStartCm :=
  ⟨h.same.trans ⟨rfl, rfl, rfl, rfl, rfl, rfl, rfl, rfl, rfl, rfl, rfl⟩, h.admission,
    h.secondFactor, h.connType, h.portForward, h.forwards, h.asks⟩

theorem Answered.tryStartCmIpc {env : Env} {c r : Conn} (h : Answered env c r) :
    Answered env c r.tryStartCmIpc :=
  ⟨h.same.trans ⟨rfl, rfl, rfl, rfl, rfl, rfl, rfl, rfl, rfl, rfl, rfl⟩, h.admission,
    h.secondFactor, h.connType, h.portForward, h.forwards, h.asks⟩

theorem finishLogin_answered (hnew : c.authorized = false)
    (hport : c.isPortForward = false) : Answered env c (finishLogin env c) := by
  have h := sendLogonResponse_answered env c hnew hport
  unfold finishLogin
  simp only
  split
  · exact h
  · exact h.tryStartCm

/-- The connection stays without authorisation and without a port forward. -/
structure Waits (c r : Conn) : Prop where
  same : SameLogin c r
  authorized : r.authorized = false
  portForward : r.closed = false → r.isPortForward = false
  awaiting2fa : r.closed = false → r.awaiting2fa = c.awaiting2fa

theorem awaitClick_waits (hnew : c.authorized = false)
    (hport : c.isPortForward = false) : Waits c (awaitClick env c) := by
  unfold awaitClick
  split
  · split
    · rename_i r hterminal
      obtain ⟨hprep, hclosed⟩ := prepareTerminalLogin_error _ _ _ hterminal
      refine ⟨hprep.same, hprep.authorized.trans hnew, ?_, ?_⟩
      · intro hopen
        rw [hclosed] at hopen
        cases hopen
      · intro hopen
        rw [hclosed] at hopen
        cases hopen
    · rename_i r hterminal
      obtain ⟨hprep, hportR, -⟩ := prepareTerminalLogin_ok _ _ _ hterminal
      exact ⟨hprep.same.trans ⟨rfl, rfl, rfl, rfl, rfl, rfl, rfl, rfl, rfl, rfl, rfl⟩,
        hprep.authorized.trans hnew, fun _ => hportR.trans hport,
        fun _ => prepareTerminalLogin_awaiting env c r hterminal⟩
  · exact ⟨⟨rfl, rfl, rfl, rfl, rfl, rfl, rfl, rfl, rfl, rfl, rfl⟩, hnew, fun _ => hport,
      fun _ => rfl⟩

def showPassword (c : Conn) : Conn := { c with passwordShown := true }

def passwordAccepted (env : Env) (lr : LoginRequest) : Prop :=
  recentSession env lr = true ∨
    lr.password ≠ [] ∧ env.passwordBudget = none ∧ env.passwordValid = true

theorem loginWithPassword_cases (hnew : c.authorized = false) (hport : c.isPortForward = false) :
    Waits c (loginWithPassword env c) ∨
      passwordAccepted env c.lr ∧ Answered env (showPassword c) (loginWithPassword env c) := by
  unfold loginWithPassword
  simp only
  split
  · have hwait := awaitClick_waits env c hnew hport
    refine Or.inl ?_
    split
    · exact ⟨hwait.same.trans ⟨rfl, rfl, rfl, rfl, rfl, rfl, rfl, rfl, rfl, rfl, rfl⟩,
        hwait.authorized, hwait.portForward, hwait.awaiting2fa⟩
    · exact hwait
  · split
    · rename_i hrecent
      exact Or.inr ⟨Or.inl hrecent, finishLogin_answered env (showPassword c) hnew hport⟩
    · split
      · exact Or.inl (awaitClick_waits env c hnew hport)
      · rename_i hne
        split
        · exact Or.inl ⟨⟨rfl, rfl, rfl, rfl, rfl, rfl, rfl, rfl, rfl, rfl, rfl⟩, hnew,
            fun _ => hport, fun _ => rfl⟩
        · rename_i hbudget
          split
          · rename_i hvalid
            refine Or.inr ⟨Or.inr ⟨?_, hbudget, hvalid⟩,
              finishLogin_answered env (showPassword c) hnew hport⟩
            intro hempty
            exact hne (by rw [hempty]; rfl)
          · exact Or.inl ⟨⟨rfl, rfl, rfl, rfl, rfl, rfl, rfl, rfl, rfl, rfl, rfl⟩, hnew,
              fun _ => hport, fun _ => rfl⟩

theorem loginAccess_cases (hnew : c.authorized = false) (hport : c.isPortForward = false) :
    Waits c (loginAccess env c) ∨
      (∃ g, c.clantoGrant = some g ∧ g.needs.password = false ∧ g.needs.confirm = false ∧
        Answered env c (loginAccess env c)) ∨
      (∀ g, c.clantoGrant = some g → g.needs.password = true) ∧ passwordAccepted env c.lr ∧
        Answered env (showPassword c) (loginAccess env c) := by
  unfold loginAccess
  cases hgrant : c.clantoGrant with
  | none =>
    rcases loginWithPassword_cases env c hnew hport with hwait | hpassword
    · exact Or.inl hwait
    · refine Or.inr (Or.inr ⟨?_, hpassword⟩)
      intro g hfalse
      cases hfalse
  | some g =>
    simp only
    split
    · exact Or.inl ⟨⟨rfl, rfl, rfl, rfl, rfl, rfl, rfl, rfl, rfl, rfl, rfl⟩, hnew, fun _ => hport,
        fun _ => rfl⟩
    · rename_i hconfirm
      split
      · rename_i hpassword
        have hfalse : g.needs.password = false := by simpa using hpassword
        have hno : g.needs.confirm = false := by simpa [hfalse] using hconfirm
        exact Or.inr (Or.inl ⟨g, rfl, hfalse, hno, finishLogin_answered env c hnew hport⟩)
      · rename_i hneeds
        rcases loginWithPassword_cases env c hnew hport with hwait | hpassword
        · exact Or.inl hwait
        · refine Or.inr (Or.inr ⟨?_, hpassword⟩)
          intro g' hg'
          obtain rfl := Option.some.inj hg'
          simpa using hneeds

structure KindPassed (env : Env) (c k : Conn) : Prop where
  account : k.account = c.account
  lr : k.lr = c.lr
  served : k.served = c.served
  authorized : k.authorized = c.authorized
  isPortForward : k.isPortForward = c.isPortForward
  require2fa : k.require2fa = c.require2fa
  fromSwitch : k.fromSwitch = c.fromSwitch
  awaiting2fa : k.awaiting2fa = c.awaiting2fa
  fileTransfer : k.fileTransfer.isSome = true →
    (∃ dir showHidden, c.lr.kind = .fileTransfer dir showHidden) ∧
      profiledPermission env c .file = true
  terminal : k.terminal = true →
    (∃ serviceId, c.lr.kind = .terminal serviceId) ∧ profiledPermission env c .terminal = true
  tunnel : ∀ host port multiplex, c.lr.kind = .portForward host port multiplex →
    profiledPermission env c .tunnel = true

structure Ended (c r : Conn) : Prop where
  closed : r.closed = true
  authorized : r.authorized = false
  served : r.served = c.served

theorem ended_refuse (hnew : c.authorized = false) : Ended c (c.refuse text) := ⟨rfl, hnew, rfl⟩

theorem checkKind_cases (hnew : c.authorized = false)
    (hfile : c.fileTransfer = none) (hterminal : c.terminal = false) :
    Ended c (checkKind env c) ∨ KindPassed env c (checkKind env c) := by
  have hnotFile : ∀ p : Prop, c.fileTransfer.isSome = true → p := by
    intro p htrue
    rw [hfile] at htrue
    cases htrue
  have hnotTerminal : ∀ p : Prop, c.terminal = true → p := by
    intro p htrue
    rw [hterminal] at htrue
    cases htrue
  unfold checkKind
  cases hkind : c.lr.kind with
  | remote =>
    simp only
    split
    · exact Or.inl (ended_refuse c _ hnew)
    · refine Or.inr ⟨rfl, rfl, rfl, rfl, rfl, rfl, rfl, rfl, hnotFile _, hnotTerminal _, ?_⟩
      intro host port multiplex heq
      rw [hkind] at heq
      cases heq
  | fileTransfer dir showHidden =>
    simp only
    split
    · rename_i hallowed
      refine Or.inr ⟨rfl, rfl, rfl, rfl, rfl, rfl, rfl, rfl,
        fun _ => ⟨⟨dir, showHidden, hkind⟩, hallowed⟩, hnotTerminal _, ?_⟩
      intro host port multiplex heq
      rw [hkind] at heq
      cases heq
    · exact Or.inl (ended_refuse c _ hnew)
  | viewCamera =>
    simp only
    split
    · refine Or.inr ⟨rfl, rfl, rfl, rfl, rfl, rfl, rfl, rfl, hnotFile _, hnotTerminal _, ?_⟩
      intro host port multiplex heq
      rw [hkind] at heq
      cases heq
    · exact Or.inl (ended_refuse c _ hnew)
  | terminal serviceId =>
    simp only
    split
    · exact Or.inl (ended_refuse c _ hnew)
    · rename_i hallowed
      split
      · exact Or.inl (ended_refuse c _ hnew)
      · refine Or.inr ⟨rfl, rfl, rfl, rfl, rfl, rfl, rfl, rfl, hnotFile _,
          fun _ => ⟨⟨serviceId, hkind⟩, by simpa using hallowed⟩, ?_⟩
        intro host port multiplex heq
        rw [hkind] at heq
        cases heq
  | portForward host port multiplex =>
    simp only
    split
    · rename_i hallowed
      exact Or.inr ⟨rfl, rfl, rfl, rfl, rfl, rfl, rfl, rfl, hnotFile _, hnotTerminal _,
        fun _ _ _ _ => hallowed⟩
    · exact Or.inl (ended_refuse c _ hnew)

theorem loginPassed_cases (hnew : c.authorized = false)
    (hfile : c.fileTransfer = none) (hterminal : c.terminal = false) :
    Ended c (loginPassed env c) ∨
      ∃ k, KindPassed env c k ∧ loginPassed env c = loginAccess env k := by
  unfold loginPassed
  simp only
  rcases checkKind_cases env c hnew hfile hterminal with hended | hpassed
  · rw [if_pos hended.closed]
    exact Or.inl hended
  · have hopen := hpassed.authorized.trans hnew
    split
    · rename_i hclosed
      exact Or.inl ⟨hclosed, hopen, hpassed.served⟩
    · split
      · exact Or.inl ⟨rfl, hopen, hpassed.served⟩
      · split
        · exact Or.inl ⟨rfl, hopen, hpassed.served⟩
        · split
          · exact Or.inr ⟨_, hpassed, rfl⟩
          · exact Or.inr ⟨(checkKind env c).tryStartCmIpc, ⟨hpassed.account, hpassed.lr,
              hpassed.served, hpassed.authorized,
              hpassed.isPortForward, hpassed.require2fa, hpassed.fromSwitch, hpassed.awaiting2fa,
              hpassed.fileTransfer, hpassed.terminal, hpassed.tunnel⟩, rfl⟩

def entered (lib : Libraries) (env : Env) (lr : LoginRequest) (grant : Option GrantInfo)
    (c : Conn) : Conn :=
  applyIdPermissions lib env { takeLogin lib env lr c with clantoGrant := grant }

theorem gatesOf_passed (grant : Option GrantInfo) (hwhitelist : checkIdWhitelist env lr.myId = none)
    (hgrant : clantoCheckGrant lib env lr = .ok grant) (hblock : loginBlock env = none)
    (hposture : checkPosture env = none) : (gatesOf lib env lr).passed := by
  simp [Gates.passed, gatesOf, hwhitelist, hgrant, hblock, hposture, Except.isOk, Except.toBool]

theorem onLogin_cases :
    c.authorized = true ∧ onLogin lib env lr c = c ∨
      c.authorized = false ∧ Ended c (onLogin lib env lr c) ∨
      c.authorized = false ∧ (gatesOf lib env lr).passed ∧
        ∃ grant k, clantoCheckGrant lib env lr = .ok grant ∧
          KindPassed env (entered lib env lr grant c) k ∧
          onLogin lib env lr c = loginAccess env k := by
  unfold onLogin
  split
  · rename_i hauth
    exact Or.inl ⟨hauth, rfl⟩
  · rename_i hauth
    have hnew : c.authorized = false := by simpa using hauth
    refine Or.inr ?_
    split
    · exact Or.inl ⟨hnew, ended_refuse c _ hnew⟩
    · simp only
      split
      · exact Or.inl ⟨hnew, rfl, hnew, rfl⟩
      · rename_i hwhitelist
        split
        · exact Or.inl ⟨hnew, rfl, hnew, rfl⟩
        · rename_i grant hgrant
          split
          · exact Or.inl ⟨hnew, rfl, hnew, rfl⟩
          · rename_i hblock
            split
            · exact Or.inl ⟨hnew, rfl, hnew, rfl⟩
            · rename_i hposture
              have hpassed := gatesOf_passed lib env lr grant hwhitelist hgrant hblock hposture
              have hentered : (entered lib env lr grant c).authorized = false := hnew
              rcases loginPassed_cases env (entered lib env lr grant c) hentered rfl rfl with
                hended | ⟨k, hkind, heq⟩
              · exact Or.inl ⟨hnew, hended.closed, hended.authorized, hended.served⟩
              · exact Or.inr ⟨hnew, hpassed, grant, k, hgrant, hkind, heq⟩

/-- Neither the login nor its authorisation changes. -/
structure Quiet (c r : Conn) : Prop where
  account : r.account = c.account
  served : r.served = c.served
  authorized : r.authorized = c.authorized
  admission : r.admission = c.admission
  awaiting2fa : r.awaiting2fa = c.awaiting2fa
  cmTold : r.cmTold = c.cmTold
  lr : r.lr = c.lr
  fileTransfer : r.fileTransfer = c.fileTransfer
  terminal : r.terminal = c.terminal
  isPortForward : r.isPortForward = c.isPortForward
  authedConnType : r.authedConnType = c.authedConnType

theorem quiet_closed (closed : Bool) : Quiet c { c with closed := closed } :=
  ⟨rfl, rfl, rfl, rfl, rfl, rfl, rfl, rfl, rfl, rfl, rfl⟩

theorem quiet_sendLoginError : Quiet c (c.sendLoginError text) :=
  ⟨rfl, rfl, rfl, rfl, rfl, rfl, rfl, rfl, rfl, rfl, rfl⟩

theorem quiet_scopeViolation : Quiet c (scopeViolation env c) := by
  unfold scopeViolation
  split
  · exact quiet_closed c true
  · exact quiet_closed c c.closed

theorem quiet_onSwitchPermission (p : Permission) (enabled : Bool) (c : Conn) :
    Quiet c (onSwitchPermission env p enabled c) := by
  unfold onSwitchPermission
  split
  · exact ⟨rfl, rfl, rfl, rfl, rfl, rfl, rfl, rfl, rfl, rfl, rfl⟩
  · exact quiet_closed c c.closed

theorem onAuth2fa_cases :
    Quiet c (onAuth2fa env c) ∨
      c.awaiting2fa = true ∧ env.tfaBudget = none ∧ c.require2fa = true ∧
        env.codeValid = some true ∧
        onAuth2fa env c = finishLogin env c.take2fa := by
  unfold onAuth2fa
  split
  · exact Or.inl (quiet_scopeViolation env c)
  · split
    · exact Or.inl (quiet_closed c c.closed)
    · rename_i hawaiting
      split
      · exact Or.inl (quiet_sendLoginError c _)
      · rename_i hbudget
        split
        · exact Or.inl (quiet_closed c c.closed)
        · rename_i hrequired
          split
          · exact Or.inl (quiet_closed c c.closed)
          · rename_i hcode
            exact Or.inr ⟨by simpa using hawaiting, hbudget, by simpa using hrequired, hcode, rfl⟩
          · exact Or.inl (quiet_sendLoginError c _)

def switched (lib : Libraries) (env : Env) (lr : LoginRequest) (c : Conn) : Conn :=
  { applyIdPermissions lib env
      (handleLoginRequestWithoutValidation lib env lr c.resetSessionScopeForLogin) with
    fromSwitch := true }

def switchAccepted (env : Env) (lr : LoginRequest) (c : Conn) : Prop :=
  env.switchUuidMatches = true ∧ lr.kind = .remote ∧ checkIdWhitelist env lr.myId = none ∧
    (c.authorized = true → c.authedConnType = some .remote)

theorem onSwitchSidesResponse_cases :
    Quiet c (onSwitchSidesResponse lib env lr c) ∨
      (onSwitchSidesResponse lib env lr c).closed = true ∧
        (onSwitchSidesResponse lib env lr c).authorized = c.authorized ∧
        (onSwitchSidesResponse lib env lr c).admission = c.admission ∧
        (onSwitchSidesResponse lib env lr c).authedConnType = c.authedConnType ∧
        (onSwitchSidesResponse lib env lr c).served = c.served ∨
      switchAccepted env lr c ∧
        ((onSwitchSidesResponse lib env lr c =
            sendLogonResponse env (switched lib env lr c) ∧
          (onSwitchSidesResponse lib env lr c).closed = true) ∨
        onSwitchSidesResponse lib env lr c =
          (sendLogonResponse env (switched lib env lr c)).tryStartCm.tryStartCmIpc) := by
  unfold onSwitchSidesResponse
  split
  · exact Or.inl (quiet_scopeViolation env c)
  · rename_i hscope
    split
    · exact Or.inl (quiet_closed c c.closed)
    · rename_i huuid
      split
      · exact Or.inr (Or.inl ⟨rfl, rfl, rfl, rfl, rfl⟩)
      · rename_i hkind
        simp only
        split
        · exact Or.inr (Or.inl ⟨rfl, rfl, rfl, rfl, rfl⟩)
        · rename_i hwhitelist
          refine Or.inr (Or.inr ⟨⟨by simpa using huuid, by simpa using hkind, hwhitelist, ?_⟩, ?_⟩)
          · intro hauth
            simpa [hauth] using hscope
          · split
            · rename_i hclosed
              exact Or.inl ⟨rfl, hclosed⟩
            · exact Or.inr rfl

theorem quiet_onPortForwardOpen :
    Quiet c (onPortForwardOpen env c) ∨
      c.authorized = true ∧ c.portForwardMux.isSome = true ∧
        profiledPermission env c .tunnel = true ∧
        onPortForwardOpen env c = { c with served := c.served ++ [c.clantoGrant] } := by
  unfold onPortForwardOpen
  split
  · rename_i hcond
    simp only [Bool.and_eq_true] at hcond
    exact Or.inr ⟨hcond.1.1, hcond.1.2, hcond.2, rfl⟩
  · exact Or.inl (quiet_closed c c.closed)

/-- The login of the connection was authorised before, and stays so. -/
structure Stays (c r : Conn) : Prop where
  before : c.authorized = true
  authorized : r.authorized = true
  admission : r.admission = c.admission
  served : r.served = c.served
  isPortForward : r.isPortForward = c.isPortForward
  clantoGrant : r.clantoGrant = c.clantoGrant
  authedConnType : r.authedConnType = c.authedConnType

inductive Access (env : Env) (k r : Conn) : Prop
  | waits (h : Waits k r)
  | byGrant (g : GrantInfo) (hgrant : k.clantoGrant = some g) (hpassword : g.needs.password = false)
      (hconfirm : g.needs.confirm = false) (h : Answered env k r)
  | byPassword (hneeds : ∀ g, k.clantoGrant = some g → g.needs.password = true)
      (hpassword : passwordAccepted env k.lr) (h : Answered env (showPassword k) r)

inductive Outcome (lib : Libraries) (c : Conn) : Event → Conn → Prop
  | quiet (event : Event) (r : Conn) (h : Quiet c r) : Outcome lib c event r
  | ended (event : Event) (r : Conn) (hclosed : r.closed = true)
      (hauth : r.authorized = true → c.authorized = true ∧ r.admission = c.admission ∧
        r.authedConnType = c.authedConnType)
      (hserved : r.served = c.served) : Outcome lib c event r
  | stays (event : Event) (r : Conn) (h : Stays c r) : Outcome lib c event r
  | login (env : Env) (lr : LoginRequest) (grant : Option GrantInfo) (k r : Conn)
      (hnew : c.authorized = false) (hgates : (gatesOf lib env lr).passed)
      (hgrant : clantoCheckGrant lib env lr = .ok grant)
      (hkind : KindPassed env (entered lib env lr grant c) k) (h : Access env k r) :
      Outcome lib c (.login env lr) r
  | auth2fa (env : Env) (r : Conn) (hnew : c.authorized = false) (hawaiting : c.awaiting2fa = true)
      (hbudget : env.tfaBudget = none) (hcode : env.codeValid = some true)
      (h : Answered env c.take2fa r) : Outcome lib c (.auth2fa env) r
  | click (env : Env) (r : Conn) (hnew : c.authorized = false) (htold : c.cmTold = true)
      (h : Answered env c.take2fa.confirm r) :
      Outcome lib c (.authorize env) r
  | switch (env : Env) (lr : LoginRequest) (r : Conn) (hnew : c.authorized = false)
      (haccepted : switchAccepted env lr c) (h : Answered env (switched lib env lr c) r) :
      Outcome lib c (.switchSidesResponse env lr) r
  | serves (env : Env) (hauth : c.authorized = true) (hmux : c.portForwardMux.isSome = true)
      (hallowed : profiledPermission env c .tunnel = true) :
      Outcome lib c (.portForwardOpen env) { c with served := c.served ++ [c.clantoGrant] }

def Unforwarded (c : Conn) : Prop :=
  c.closed = false → c.authorized = false → c.isPortForward = false

theorem outcome_onLogin (hport : c.authorized = false → c.isPortForward = false) :
    Outcome lib c (.login env lr) (onLogin lib env lr c) := by
  rcases onLogin_cases lib env lr c with ⟨hauth, heq⟩ | ⟨-, hended⟩ |
    ⟨hnew, hgates, grant, k, hgrant, hkind, heq⟩
  · rw [heq]
    exact .quiet _ _ (quiet_closed c c.closed)
  · refine .ended _ _ hended.closed ?_ hended.served
    intro htrue
    rw [hended.authorized] at htrue
    cases htrue
  · refine .login env lr grant k _ hnew hgates hgrant hkind ?_
    have hopen : k.authorized = false := hkind.authorized.trans hnew
    have hnot : k.isPortForward = false := hkind.isPortForward.trans (hport hnew)
    rw [heq]
    rcases loginAccess_cases env k hopen hnot with hwaits | ⟨g, hg, hpassword, hconfirm, h⟩ |
      ⟨hneeds, hpassword, h⟩
    · exact .waits hwaits
    · exact .byGrant g hg hpassword hconfirm h
    · exact .byPassword hneeds hpassword h

theorem outcome_onAuth2fa (hport : c.authorized = false → c.isPortForward = false) :
    Outcome lib c (.auth2fa env) (onAuth2fa env c) := by
  rcases onAuth2fa_cases env c with hquiet | ⟨hawaiting, hbudget, -, hcode, heq⟩
  · exact .quiet _ _ hquiet
  · rw [heq]
    cases hauth : c.authorized with
    | false =>
      exact .auth2fa env _ hauth hawaiting hbudget hcode
        (finishLogin_answered env _ hauth (hport hauth))
    | true =>
      have hsame := sendLogonResponse_of_authorized env c.take2fa hauth
      refine .stays _ _ ?_
      rw [finishLogin, hsame]
      split <;> exact ⟨hauth, hauth, rfl, rfl, rfl, rfl, rfl⟩

theorem outcome_onAuthorize (htold : c.cmTold = true)
    (hport : c.authorized = false → c.isPortForward = false) :
    Outcome lib c (.authorize env) (onAuthorize env c) := by
  cases hauth : c.authorized with
  | false =>
    exact .click env _ hauth htold (sendLogonResponse_answered env _ hauth (hport hauth))
  | true =>
    refine .stays _ _ ?_
    rw [onAuthorize, sendLogonResponse_of_authorized]
    · exact ⟨hauth, hauth, rfl, rfl, rfl, rfl, rfl⟩
    · exact hauth

theorem switched_stays (hauth : c.authorized = true) : Stays c (switched lib env lr c) := by
  refine ⟨hauth, hauth, rfl, rfl, ?_, rfl, rfl⟩
  unfold Conn.isPortForward
  rfl

theorem Stays.tryStartCm {c r : Conn} (h : Stays c r) : Stays c r.tryStartCm.tryStartCmIpc :=
  ⟨h.before, h.authorized, h.admission, h.served, h.isPortForward, h.clantoGrant,
    h.authedConnType⟩

theorem outcome_onSwitchSidesResponse (hport : c.authorized = false → c.isPortForward = false) :
    Outcome lib c (.switchSidesResponse env lr) (onSwitchSidesResponse lib env lr c) := by
  rcases onSwitchSidesResponse_cases lib env lr c with hquiet | ⟨hclosed, hauth, hadm,
    htype, hserved⟩ |
    ⟨haccepted, hresult⟩
  · exact .quiet _ _ hquiet
  · exact .ended _ _ hclosed (fun htrue => ⟨hauth.symm.trans htrue, hadm, htype⟩) hserved
  · cases hauth : c.authorized with
    | false =>
      have hanswered := sendLogonResponse_answered env (switched lib env lr c) hauth (hport hauth)
      refine .switch env lr _ hauth haccepted ?_
      rcases hresult with ⟨heq, -⟩ | heq
      · rw [heq]
        exact hanswered
      · rw [heq]
        exact hanswered.tryStartCm.tryStartCmIpc
    | true =>
      have hsame := sendLogonResponse_of_authorized env (switched lib env lr c) hauth
      rw [hsame] at hresult
      have hstays := switched_stays lib env lr c hauth
      refine .stays _ _ ?_
      rcases hresult with ⟨heq, -⟩ | heq
      · rw [heq]
        exact hstays
      · rw [heq]
        exact hstays.tryStartCm

theorem step_outcome (event : Event) (hbase : Unforwarded c)
    (hstep : step lib c event = some r) : c.closed = false ∧ Outcome lib c event r := by
  unfold step at hstep
  split at hstep
  · cases hstep
  · rename_i hclosed
    have hopen : c.closed = false := by simpa using hclosed
    have hport := hbase hopen
    refine ⟨hopen, ?_⟩
    cases event with
    | login env lr => exact Option.some.inj hstep ▸ outcome_onLogin lib env lr c hport
    | auth2fa env => exact Option.some.inj hstep ▸ outcome_onAuth2fa lib env c hport
    | switchSidesResponse env lr =>
      exact Option.some.inj hstep ▸ outcome_onSwitchSidesResponse lib env lr c hport
    | authorize env =>
      simp only at hstep
      split at hstep
      · rename_i hcm
        exact Option.some.inj hstep ▸ outcome_onAuthorize lib env c hcm.2 hport
      · cases hstep
    | switchPermission env p enabled =>
      simp only at hstep
      split at hstep
      · exact Option.some.inj hstep ▸ .quiet _ _ (quiet_onSwitchPermission env p enabled c)
      · cases hstep
    | portForwardOpen env =>
      obtain rfl := Option.some.inj hstep
      rcases quiet_onPortForwardOpen env c with hquiet | ⟨hauth, hmux, hallowed, heq⟩
      · exact .quiet _ _ hquiet
      · rw [heq]
        exact .serves env hauth hmux hallowed
    | close => exact Option.some.inj hstep ▸ .quiet _ _ (quiet_closed c true)

theorem Answered.unforwarded {env : Env} {c r : Conn} (h : Answered env c r) : Unforwarded r := by
  intro hopen hnew
  by_contra hne
  have htrue : r.isPortForward = true := by simpa using hne
  have hauth := h.portForward hopen htrue
  rw [hnew] at hauth
  cases hauth

theorem unforwarded_step (event : Event) (hbase : Unforwarded c)
    (hstep : step lib c event = some r) : Unforwarded r := by
  obtain ⟨hopen, houtcome⟩ := step_outcome lib c r event hbase hstep
  cases houtcome with
  | quiet event r h =>
    intro _ hnew
    exact h.isPortForward.trans (hbase hopen (h.authorized.symm.trans hnew))
  | ended event r hclosed hauth hserved =>
    intro hfalse
    rw [hclosed] at hfalse
    cases hfalse
  | stays event r h =>
    intro _ hnew
    rw [h.authorized] at hnew
    cases hnew
  | login env lr grant k r hnew hgates hgrant hkind h =>
    cases h with
    | waits h => exact fun hfalse _ => h.portForward hfalse
    | byGrant g hg hpassword hconfirm h => exact h.unforwarded
    | byPassword hneeds hpassword h => exact h.unforwarded
  | auth2fa env r hnew hawaiting hbudget hcode h => exact h.unforwarded
  | click env r hnew htold h => exact h.unforwarded
  | switch env lr r hnew haccepted h => exact h.unforwarded
  | serves env hauth hmux hallowed =>
    intro _ hnew
    rw [hauth] at hnew
    cases hnew

theorem unforwarded_start (require2fa : Bool) : Unforwarded (start require2fa) := fun _ _ => rfl

theorem onLogin_of_passed (grant : Option GrantInfo) (c : Conn) (hnew : c.authorized = false)
    (hscope : c.loginScope = none) (hwhitelist : checkIdWhitelist env lr.myId = none)
    (hgrant : clantoCheckGrant lib env lr = .ok grant) (hblock : loginBlock env = none)
    (hposture : checkPosture env = none) :
    onLogin lib env lr c = loginPassed env (entered lib env lr grant c) := by
  simp only [onLogin, hnew, hscope, hwhitelist, hgrant, hblock, hposture, Option.any_none,
    Bool.false_eq_true, if_false]
  rfl

section Sample

def sampleLib : Libraries := ⟨sampleCodec, fun _ => none⟩

def sampleEnv (host : Host) : Env :=
  { idWhitelist := []
    idPermissions := []
    whitelistBudget := none
    host := host
    times := ⟨900000, 900000, 900000, 900000⟩
    translated := id
    accessHours := none
    twoFactorPolicy := none
    requireProtectedDevice := false
    requireControllerWatermark := false
    posture := none
    controlPermissions := fun _ => none
    enabledLocally := fun _ => true
    inPrivacyMode := false
    windows := false
    installed := true
    prelogin := false
    addressed := true
    approveMode := .both
    hasValidPassword := true
    allowLogonScreenPassword := false
    noPasswordNotice := true
    sessionPasswordMatches := false
    sessionTfa := false
    passwordBudget := none
    passwordValid := true
    trustedDevice := false
    tfaBudget := none
    codeValid := none
    terminalLogin := none
    portReachable := none
    sessionCode := true
    switchUuidMatches := true
    closeOnViolation := false }

def sampleLogin (kind : Kind) (password : List UInt8) (grant : String) : LoginRequest :=
  { myId := "123456789".toList
    kind := kind
    username := "987654321"
    password := password
    clantoGrant := grant
    osUsername := [] }

theorem clantoCheckGrant_sample (kind : Kind) (password : List UInt8) :
    clantoCheckGrant sampleLib (sampleEnv (sampleHost [])) (sampleLogin kind password sampleGrant) =
      .ok (some sampleInfo) := by
  have htimes : (⟨900000, 900000, 900000, 900000⟩ : Times) =
      ⟨900 * 1000, 900 * 1000, 900 * 1000, 900 * 1000⟩ := by decide
  have hdecision : (evaluate sampleLib.codec (sampleEnv (sampleHost [])).host
      (sampleLogin kind password sampleGrant).clantoGrant (sampleEnv (sampleHost [])).times).1 =
      .grant sampleInfo := by
    show (evaluate sampleCodec (sampleHost []) sampleGrant ⟨900000, 900000, 900000, 900000⟩).1 = _
    rw [htimes, evaluate_sampleGrant]
  rw [clantoCheckGrant, hdecision]

def sampleEnd (require2fa : Bool) (kind : Kind) : Conn :=
  loginPassed (sampleEnv (sampleHost []))
    (entered sampleLib (sampleEnv (sampleHost [])) (sampleLogin kind [1] sampleGrant)
      (some sampleInfo) (start require2fa))

theorem step_sample (require2fa : Bool) (kind : Kind) :
    step sampleLib (start require2fa)
      (.login (sampleEnv (sampleHost [])) (sampleLogin kind [1] sampleGrant)) =
      some (sampleEnd require2fa kind) :=
  congrArg some (onLogin_of_passed sampleLib _ _ (some sampleInfo) (start require2fa) rfl rfl rfl
    (clantoCheckGrant_sample kind [1]) rfl rfl)

end Sample

end ClantoDesk.Connection
