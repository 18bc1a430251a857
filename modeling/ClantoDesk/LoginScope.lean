import ClantoDesk.Connection
import ClantoDesk.LittleEndian
import Mathlib.Data.Set.Function

/-!
The scope that the first login of a connection latches. Its digest is taken over the
id of the controller and the session it asks for, each text with its length in front. Until the
authorisation every further login has to ask for the same, so that what an answer to the second
factor or a click authorises is what the first login asked for. The connection keeps the
id and the kind of session where the code keeps their digest.
-/
namespace ClantoDesk.LoginScope

open Connection LittleEndian Runs Text

/-- The bytes of a text, as `as_bytes` gives them. -/
def textBytes (s : String) : Bytes := s.toByteArray.data.toList

/-- `port.to_le_bytes()` of a number of 32 bits. -/
def portBytes (port : ℤ) : Bytes := leBytes 4 (port % 2 ^ 32).toNat

def kindFields : Kind → List Bytes
  | .fileTransfer dir showHidden =>
    [textBytes "file_transfer", textBytes dir, [if showHidden then 1 else 0]]
  | .viewCamera => [textBytes "view_camera"]
  | .terminal serviceId => [textBytes "terminal", textBytes serviceId]
  | .portForward host port multiplex =>
    [textBytes "port_forward", textBytes host, portBytes port, [if multiplex then 1 else 0]]
  | .remote => [textBytes "remote"]

def loginScopeBytes (lr : LoginRequest) : Bytes :=
  ((textBytes (String.ofList lr.myId) :: kindFields lr.kind).map framed).flatten

/-- `login_scope_digest`. -/
def loginScopeDigest (sha256 : Bytes → Bytes) (lr : LoginRequest) : Bytes :=
  sha256 (loginScopeBytes lr)

structure Fits (lr : LoginRequest) : Prop where
  fields : ∀ field ∈ textBytes (String.ofList lr.myId) :: kindFields lr.kind,
    field.length < 2 ^ 64
  port : ∀ host port multiplex, lr.kind = .portForward host port multiplex →
    -2 ^ 31 ≤ port ∧ port < 2 ^ 31

theorem textBytes_inj (s t : String) (h : textBytes s = textBytes t) : s = t := by
  have hdata : s.toByteArray.data = t.toByteArray.data := Array.toList_inj.mp h
  exact String.toByteArray_inj.mp (ByteArray.ext hdata)

theorem portBytes_inj (p q : ℤ) (hp : -2 ^ 31 ≤ p ∧ p < 2 ^ 31) (hq : -2 ^ 31 ≤ q ∧ q < 2 ^ 31)
    (h : portBytes p = portBytes q) : p = q := by
  have hnat : (p % 2 ^ 32).toNat = (q % 2 ^ 32).toNat := leBytes_inj 4 _ _ (by omega) (by omega) h
  omega

theorem flagBytes_inj (a b : Bool)
    (h : ([if a then 1 else 0] : Bytes) = [if b then 1 else 0]) : a = b := by
  revert h
  cases a <;> cases b <;> decide

theorem framed_fields_inj (xs ys : List Bytes) (hxs : ∀ x ∈ xs, x.length < 2 ^ 64)
    (hys : ∀ y ∈ ys, y.length < 2 ^ 64)
    (h : (xs.map framed).flatten = (ys.map framed).flatten) : xs = ys := by
  induction xs generalizing ys with
  | nil =>
    cases ys with
    | nil => rfl
    | cons y ys =>
      have hlength := congrArg List.length h
      simp [framed] at hlength
      omega
  | cons x xs ih =>
    cases ys with
    | nil =>
      have hlength := congrArg List.length h
      simp [framed] at hlength
    | cons y ys =>
      simp only [List.map_cons, List.flatten_cons] at h
      obtain ⟨hhead, htail⟩ := framed_append_inj x y _ _ (hxs x (List.mem_cons_self ..))
        (hys y (List.mem_cons_self ..)) h
      rw [hhead, ih ys (fun z hz => hxs z (List.mem_cons_of_mem _ hz))
        (fun z hz => hys z (List.mem_cons_of_mem _ hz)) htail]

def kindName : Kind → String
  | .fileTransfer _ _ => "file_transfer"
  | .viewCamera => "view_camera"
  | .terminal _ => "terminal"
  | .portForward _ _ _ => "port_forward"
  | .remote => "remote"

theorem kindFields_head (kind : Kind) :
    ∃ rest, kindFields kind = textBytes (kindName kind) :: rest := by
  cases kind <;> exact ⟨_, rfl⟩

theorem kindFields_inj (a b : Kind)
    (ha : ∀ host port multiplex, a = .portForward host port multiplex →
      -2 ^ 31 ≤ port ∧ port < 2 ^ 31)
    (hb : ∀ host port multiplex, b = .portForward host port multiplex →
      -2 ^ 31 ≤ port ∧ port < 2 ^ 31)
    (h : kindFields a = kindFields b) : a = b := by
  obtain ⟨x, hx⟩ := kindFields_head a
  obtain ⟨y, hy⟩ := kindFields_head b
  have hname : kindName a = kindName b := by
    rw [hx, hy] at h
    exact textBytes_inj _ _ (List.cons.inj h).1
  cases a with
  | fileTransfer dir showHidden =>
    cases b <;> simp only [kindName, String.reduceEq] at hname
    simp only [kindFields, List.cons.injEq, and_true, true_and] at h
    rw [textBytes_inj _ _ h.1, flagBytes_inj _ _ (congrArg (fun b => [b]) h.2)]
  | viewCamera =>
    cases b <;> simp only [kindName, String.reduceEq] at hname
    rfl
  | terminal serviceId =>
    cases b <;> simp only [kindName, String.reduceEq] at hname
    simp only [kindFields, List.cons.injEq, and_true, true_and] at h
    rw [textBytes_inj _ _ h]
  | portForward host port multiplex =>
    cases b <;> simp only [kindName, String.reduceEq] at hname
    simp only [kindFields, List.cons.injEq, and_true, true_and] at h
    rw [textBytes_inj _ _ h.1, portBytes_inj _ _ (ha _ _ _ rfl) (hb _ _ _ rfl) h.2.1,
      flagBytes_inj _ _ (congrArg (fun b => [b]) h.2.2)]
  | remote =>
    cases b <;> simp only [kindName, String.reduceEq] at hname
    rfl

/-- The bytes under the digest tell the controller and the session. -/
theorem loginScopeBytes_inj (lr lr' : LoginRequest) (hfits : Fits lr) (hfits' : Fits lr')
    (h : loginScopeBytes lr = loginScopeBytes lr') : lr.myId = lr'.myId ∧ lr.kind = lr'.kind := by
  have hfields := framed_fields_inj _ _ hfits.fields hfits'.fields h
  obtain ⟨hid, hkind⟩ := List.cons.inj hfields
  exact ⟨String.ofList_injective (textBytes_inj _ _ hid),
    kindFields_inj _ _ hfits.port hfits'.port hkind⟩

/-- The requests whose scope can be latched. -/
def scopes : Set Bytes := loginScopeBytes '' {lr | Fits lr}

theorem loginScopeDigest_eq_iff (sha256 : Bytes → Bytes) (hsha : Set.InjOn sha256 scopes)
    (lr lr' : LoginRequest) (hfits : Fits lr) (hfits' : Fits lr') :
    loginScopeDigest sha256 lr = loginScopeDigest sha256 lr' ↔
      lr.myId = lr'.myId ∧ lr.kind = lr'.kind := by
  constructor
  · intro h
    exact loginScopeBytes_inj lr lr' hfits hfits' (hsha ⟨lr, hfits, rfl⟩ ⟨lr', hfits', rfl⟩ h)
  · rintro ⟨hid, hkind⟩
    rw [loginScopeDigest, loginScopeDigest, loginScopeBytes, loginScopeBytes, hid, hkind]

def filesOf : Kind → Option (String × Bool)
  | .fileTransfer dir showHidden => some (dir, showHidden)
  | _ => none

def cameraOf : Kind → Bool
  | .viewCamera => true
  | _ => false

def terminalOf : Kind → Bool
  | .terminal _ => true
  | _ => false

def addressOf : Kind → String
  | .portForward host port _ => normalizePortForwardTarget host port
  | _ => ""

def muxOf : Kind → Option String
  | .portForward host port true => some (normalizePortForwardTarget host port)
  | _ => none

def socketOf : Kind → Bool
  | .portForward _ _ false => true
  | _ => false

def connTypeOf : Kind → AuthConnType
  | .fileTransfer _ _ => .fileTransfer
  | .viewCamera => .viewCamera
  | .terminal _ => .terminal
  | .portForward _ _ _ => .portForward
  | .remote => .remote

/-- The fields that hold the session, up to the connection of a port forward. -/
structure ScopeSet (id : Str) (kind : Kind) (c : Conn) : Prop where
  scope : c.loginScope = some (id, kind)
  myId : c.lr.myId = id
  asked : c.lr.kind = kind
  files : c.fileTransfer = filesOf kind
  camera : c.viewCamera = cameraOf kind
  terminal : c.terminal = terminalOf kind
  service : ∀ serviceId, kind = .terminal serviceId → c.terminalServiceId = serviceId
  address : c.portForwardAddress = addressOf kind

structure Executes (id : Str) (kind : Kind) (c : Conn) : Prop extends ScopeSet id kind c where
  mux : c.portForwardMux = muxOf kind
  socket : c.portForwardSocket = socketOf kind
  connType : c.authedConnType = some (connTypeOf kind)

structure Pending (id : Str) (kind : Kind) (c : Conn) : Prop extends ScopeSet id kind c where
  authorized : c.authorized = false
  mux : c.portForwardMux = none
  socket : c.portForwardSocket = false

structure Over (id : Str) (kind : Kind) (c : Conn) : Prop where
  scope : c.loginScope = some (id, kind)
  closed : c.closed = true
  authorized : c.authorized = false

inductive Latched (id : Str) (kind : Kind) (c : Conn) : Prop
  | ended (h : Over id kind c)
  | pending (h : Pending id kind c)
  | executes (hauth : c.authorized = true) (h : Executes id kind c)

variable (id : Str) (kind : Kind) (env : Env)

variable (lib : Libraries) (c : Conn)

theorem prepareTerminalLogin_pending (h : Pending id kind c) :
    (∃ r, prepareTerminalLogin env c = .ok r ∧ Pending id kind r) ∨
      ∃ r, prepareTerminalLogin env c = .error r ∧ Over id kind r := by
  unfold prepareTerminalLogin
  split
  · exact Or.inl ⟨c, rfl, h⟩
  · split
    · exact Or.inr ⟨_, rfl, ⟨h.scope, rfl, h.authorized⟩⟩
    · exact Or.inr ⟨_, rfl, ⟨h.scope, rfl, h.authorized⟩⟩
    · refine Or.inl ⟨_, rfl, ?_⟩
      split
      · exact { h with }
      · exact { h with }

theorem connectPortForward_pending (h : Pending id kind c) :
    (∃ r, connectPortForwardIfNeeded env c = .ok r ∧ ScopeSet id kind r ∧
      r.portForwardMux = muxOf kind ∧ r.portForwardSocket = socketOf kind ∧
      r.authorized = false) ∨
      ∃ r, connectPortForwardIfNeeded env c = .error r ∧ Over id kind r := by
  have hclosed : c.isPortForward = false := by simp [Conn.isPortForward, h.mux, h.socket]
  unfold connectPortForwardIfNeeded
  rw [hclosed, h.asked]
  cases kind with
  | portForward host port multiplex =>
    cases multiplex with
    | true =>
      refine Or.inl ⟨_, rfl, { h.toScopeSet with }, ?_, h.socket, h.authorized⟩
      exact congrArg some h.address
    | false =>
      simp only [Bool.false_eq_true, if_false]
      split
      · exact Or.inr ⟨_, rfl, ⟨h.scope, rfl, h.authorized⟩⟩
      · exact Or.inl ⟨_, rfl, { h.toScopeSet with address := rfl }, h.mux, rfl, h.authorized⟩
  | _ => exact Or.inl ⟨c, rfl, h.toScopeSet, h.mux, h.socket, h.authorized⟩

theorem authConnType_of_scopeSet (h : ScopeSet id kind c)
    (hmux : c.portForwardMux = muxOf kind) (hsocket : c.portForwardSocket = socketOf kind) :
    c.authConnType = connTypeOf kind := by
  unfold Conn.authConnType Conn.isPortForward
  rw [h.files, h.camera, h.terminal, hmux, hsocket]
  cases kind with
  | portForward host port multiplex => cases multiplex <;> rfl
  | _ => rfl

theorem sendLogonResponse_latched (h : Pending id kind c) :
    Latched id kind (sendLogonResponse env c) := by
  unfold sendLogonResponse
  rw [if_neg (by rw [h.authorized]; decide)]
  split
  · exact .pending { h with }
  · have hwaiting : Pending id kind { c with awaiting2fa := false } := { h with }
    rcases prepareTerminalLogin_pending id kind env _ hwaiting with ⟨r, hr, hpending⟩ | ⟨r,
      hr, hover⟩
    · rw [hr]
      rcases connectPortForward_pending id kind env r hpending with
        ⟨t, ht, hset, hmux, hsocket, hauth⟩ | ⟨t, ht, hover⟩
      · simp only [ht]
        split
        · refine .executes rfl { hset with mux := hmux, socket := hsocket, connType := ?_ }
          exact congrArg some (authConnType_of_scopeSet id kind t hset hmux hsocket)
        · exact .ended ⟨hset.scope, rfl, hauth⟩
      · simp only [ht]
        exact .ended hover
    · rw [hr]
      exact .ended hover

theorem Latched.tryStartCm (h : Latched id kind c) : Latched id kind c.tryStartCm := by
  cases h with
  | ended h => exact .ended { h with }
  | pending h => exact .pending { h with }
  | executes hauth h => exact .executes hauth { h with }

theorem Latched.sendLoginError (text : String) (h : Latched id kind c) :
    Latched id kind (c.sendLoginError text) := by
  cases h with
  | ended h => exact .ended { h with }
  | pending h => exact .pending { h with }
  | executes hauth h => exact .executes hauth { h with }

theorem finishLogin_latched (h : Pending id kind c) : Latched id kind (finishLogin env c) := by
  have hlatched := sendLogonResponse_latched id kind env c h
  unfold finishLogin
  simp only
  split
  · exact hlatched
  · exact hlatched.tryStartCm

theorem awaitClick_latched (h : Pending id kind c) : Latched id kind (awaitClick env c) := by
  unfold awaitClick
  split
  · rcases prepareTerminalLogin_pending id kind env c h with ⟨r, hr, hpending⟩ | ⟨r, hr, hover⟩
    · rw [hr]
      exact (Latched.pending hpending).tryStartCm
    · rw [hr]
      exact .ended hover
  · exact (Latched.pending h).tryStartCm

theorem loginWithPassword_latched (h : Pending id kind c) :
    Latched id kind (loginWithPassword env c) := by
  have hclick := awaitClick_latched id kind env c h
  have hfinish : Latched id kind (finishLogin env { c with passwordShown := true }) :=
    finishLogin_latched id kind env _ { h with }
  unfold loginWithPassword
  simp only
  split
  · split
    · exact hclick.sendLoginError _ _ _ _
    · exact hclick
  · split
    · exact hfinish
    · split
      · exact hclick
      · split
        · exact (Latched.pending h).sendLoginError _ _ _ _
        · split
          · exact hfinish
          · exact ((Latched.pending h).sendLoginError _ _ _ _).tryStartCm

theorem loginAccess_latched (h : Pending id kind c) : Latched id kind (loginAccess env c) := by
  unfold loginAccess
  split
  · split
    · exact (Latched.pending h).tryStartCm
    · split
      · exact finishLogin_latched id kind env c h
      · exact loginWithPassword_latched id kind env c h
  · exact loginWithPassword_latched id kind env c h

/-- A login was taken over, and its kind is still to be checked. -/
structure Taken (c : Conn) : Prop where
  scope : c.loginScope = some (id, kind)
  myId : c.lr.myId = id
  asked : c.lr.kind = kind
  files : c.fileTransfer = none
  camera : c.viewCamera = false
  terminal : c.terminal = false
  address : c.portForwardAddress = ""
  authorized : c.authorized = false
  mux : c.portForwardMux = none
  socket : c.portForwardSocket = false

theorem over_refuse (text : String) (hscope : c.loginScope = some (id, kind))
    (hauth : c.authorized = false) : Over id kind (c.refuse text) := ⟨hscope, rfl, hauth⟩

/-- The check on the kind sets the fields of the session, or ends the connection. -/
theorem checkKind_taken (h : Taken id kind c) :
    Over id kind (checkKind env c) ∨ Pending id kind (checkKind env c) := by
  have hover := fun text => over_refuse id kind c text h.scope h.authorized
  unfold checkKind
  rw [h.asked]
  cases kind with
  | remote =>
    simp only
    split
    · exact Or.inl (hover _)
    · exact Or.inr { h with service := fun _ hkind => by cases hkind }
  | fileTransfer dir showHidden =>
    simp only
    split
    · exact Or.inr { h with files := rfl, service := fun _ hkind => by cases hkind }
    · exact Or.inl (hover _)
  | viewCamera =>
    simp only
    split
    · exact Or.inr { h with camera := rfl, service := fun _ hkind => by cases hkind }
    · exact Or.inl (hover _)
  | terminal serviceId =>
    simp only
    split
    · exact Or.inl (hover _)
    · split
      · exact Or.inl (hover _)
      · refine Or.inr { h with terminal := rfl, service := ?_ }
        intro other hkind
        cases hkind
        rfl
  | portForward host port multiplex =>
    simp only
    split
    · exact Or.inr { h with address := rfl, service := fun _ hkind => by cases hkind }
    · exact Or.inl (hover _)

theorem loginPassed_latched (h : Taken id kind c) : Latched id kind (loginPassed env c) := by
  unfold loginPassed
  simp only
  rcases checkKind_taken id kind env c h with hover | hpending
  · rw [if_pos hover.closed]
    exact .ended hover
  · split
    · exact .pending hpending
    · split
      · exact .ended (over_refuse id kind _ _ hpending.scope hpending.authorized)
      · split
        · exact .ended (over_refuse id kind _ _ hpending.scope hpending.authorized)
        · split
          · exact loginAccess_latched id kind env _ hpending
          · exact loginAccess_latched id kind env _ { hpending with }

theorem onLogin_latched (lr : LoginRequest) (c : Conn)
    (hnew : c.authorized = false) (hmux : c.portForwardMux = none)
    (hsocket : c.portForwardSocket = false)
    (hscope : c.loginScope = none ∨ c.loginScope = some (lr.myId, lr.kind)) :
    Latched lr.myId lr.kind (onLogin lib env lr c) := by
  have hsame : (c.loginScope.any fun scope => scope ≠ (lr.myId, lr.kind)) = false := by
    rcases hscope with hnone | hsome
    · simp [hnone]
    · simp [hsome]
  have hover := fun (r : Conn) text (hr : r.loginScope = some (lr.myId, lr.kind))
      (hauth : r.authorized = false) =>
    Latched.ended (over_refuse lr.myId lr.kind r text hr hauth)
  unfold onLogin
  rw [hnew, hsame]
  simp only [Bool.false_eq_true, if_false]
  split
  · exact hover _ _ rfl hnew
  · split
    · exact hover _ _ rfl hnew
    · split
      · exact hover _ _ rfl hnew
      · split
        · exact hover _ _ rfl hnew
        · exact loginPassed_latched _ _ env _
            ⟨rfl, rfl, rfl, rfl, rfl, rfl, rfl, hnew, hmux, hsocket⟩

structure Untouched (c : Conn) : Prop where
  scope : c.loginScope = none
  authorized : c.authorized = false
  mux : c.portForwardMux = none
  socket : c.portForwardSocket = false
  awaiting : c.awaiting2fa = false
  cmTold : c.cmTold = false

def isSwitchSides : Event → Bool
  | .switchSidesResponse _ _ => true
  | _ => false

theorem onSwitchPermission_latched (p : IdPermissions.Permission) (enabled : Bool)
    (h : Latched id kind c) : Latched id kind (onSwitchPermission env p enabled c) := by
  unfold onSwitchPermission setPermission
  split
  · cases h with
    | ended h => exact .ended { h with }
    | pending h => exact .pending { h with }
    | executes hauth h => exact .executes hauth { h with }
  · exact h

theorem Latched.close (h : Latched id kind c) : Latched id kind { c with closed := true } := by
  cases h with
  | ended h => exact .ended { h with closed := rfl }
  | pending h => exact .pending { h with }
  | executes hauth h => exact .executes hauth { h with }

theorem onPortForwardOpen_latched (h : Latched id kind c) :
    Latched id kind (onPortForwardOpen env c) := by
  unfold onPortForwardOpen
  split
  · cases h with
    | ended h => exact .ended { h with }
    | pending h => exact .pending { h with }
    | executes hauth h => exact .executes hauth { h with }
  · exact h

theorem onAuth2fa_latched (hopen : c.closed = false) (h : Latched id kind c) :
    Latched id kind (onAuth2fa env c) := by
  unfold onAuth2fa
  split
  · unfold scopeViolation
    split
    · exact h.close
    · exact h
  · split
    · exact h
    · split
      · exact h.sendLoginError _ _ _ _
      · split
        · exact h
        · split
          · exact h
          · cases h with
            | ended h => exact absurd (h.closed.symm.trans hopen) (by decide)
            | pending h => exact finishLogin_latched id kind env _ { h with }
            | executes hauth h =>
              unfold finishLogin
              simp only [sendLogonResponse_of_authorized env c.take2fa hauth]
              split
              · exact .executes hauth { h with }
              · exact .executes hauth { h with }
          · exact h.sendLoginError _ _ _ _

theorem onAuthorize_latched (hopen : c.closed = false) (h : Latched id kind c) :
    Latched id kind (onAuthorize env c) := by
  unfold onAuthorize
  cases h with
  | ended h => exact absurd (h.closed.symm.trans hopen) (by decide)
  | pending h => exact sendLogonResponse_latched id kind env _ { h with }
  | executes hauth h =>
    rw [sendLogonResponse_of_authorized env c.take2fa.confirm hauth]
    exact .executes hauth { h with }

theorem onLogin_again (lr : LoginRequest) (c : Conn) (hopen : c.closed = false)
    (h : Latched id kind c) : Latched id kind (onLogin lib env lr c) := by
  by_cases hauth : c.authorized = true
  · rw [onLogin, if_pos hauth]
    exact h
  · cases h with
    | ended h => exact absurd (h.closed.symm.trans hopen) (by decide)
    | executes htrue h => exact absurd htrue hauth
    | pending h =>
      by_cases hsame : (lr.myId, lr.kind) = (id, kind)
      · obtain ⟨rfl, rfl⟩ := Prod.mk.inj hsame
        exact onLogin_latched env lib lr c h.authorized h.mux h.socket (Or.inr h.scope)
      · have hother : (c.loginScope.any fun scope => scope ≠ (lr.myId, lr.kind)) = true := by
          have hne : (id, kind) ≠ (lr.myId, lr.kind) := fun heq => hsame heq.symm
          rw [h.scope, Option.any_some, decide_eq_true_eq]
          exact hne
        rw [onLogin, if_neg hauth, if_pos hother]
        exact .ended (over_refuse id kind c _ h.scope h.authorized)

/-- Once a scope is latched, no login, code or click changes it. -/
theorem step_latched (r : Conn) (event : Event)
    (hevent : isSwitchSides event = false) (h : Latched id kind c)
    (hstep : step lib c event = some r) : Latched id kind r := by
  unfold step at hstep
  by_cases hclosed : c.closed = true
  · rw [if_pos hclosed] at hstep
    cases hstep
  · rw [if_neg hclosed] at hstep
    have hopen : c.closed = false := by simpa using hclosed
    cases event with
    | login env lr => exact Option.some.inj hstep ▸ onLogin_again id kind env lib lr c hopen h
    | auth2fa env => exact Option.some.inj hstep ▸ onAuth2fa_latched id kind env c hopen h
    | switchSidesResponse env lr => cases hevent
    | authorize env =>
      obtain ⟨-, hr⟩ := Option.ite_none_right_eq_some.mp hstep
      exact Option.some.inj hr ▸ onAuthorize_latched id kind env c hopen h
    | switchPermission env p enabled =>
      obtain ⟨-, hr⟩ := Option.ite_none_right_eq_some.mp hstep
      exact Option.some.inj hr ▸ onSwitchPermission_latched id kind env c p enabled h
    | portForwardOpen env =>
      exact Option.some.inj hstep ▸ onPortForwardOpen_latched id kind env c h
    | close => exact Option.some.inj hstep ▸ h.close

def firstLogin : List Event → Option LoginRequest
  | [] => none
  | .login _ lr :: _ => some lr
  | _ :: events => firstLogin events

theorem untouched_start (require2fa : Bool) : Untouched (start require2fa) :=
  ⟨rfl, rfl, rfl, rfl, rfl, rfl⟩

/-- Before the first login neither a code nor a click does anything. -/
theorem step_untouched (r : Conn) (event : Event)
    (hevent : isSwitchSides event = false) (h : Untouched c)
    (hstep : step lib c event = some r) :
    Untouched r ∧ firstLogin [event] = none ∨
      ∃ lr, firstLogin [event] = some lr ∧ Latched lr.myId lr.kind r := by
  obtain ⟨-, hstep⟩ := Option.ite_none_left_eq_some.mp hstep
  cases event with
  | login env lr =>
    refine Or.inr ⟨lr, rfl, ?_⟩
    exact Option.some.inj hstep ▸
      onLogin_latched env lib lr c h.authorized h.mux h.socket (Or.inl h.scope)
  | auth2fa env =>
    have hr : onAuth2fa env c = c := by
      unfold onAuth2fa
      rw [h.authorized, h.awaiting]
      rfl
    exact Or.inl ⟨Option.some.inj hstep ▸ hr.symm ▸ h, rfl⟩
  | switchSidesResponse env lr => cases hevent
  | authorize env =>
    obtain ⟨hcm, -⟩ := Option.ite_none_right_eq_some.mp hstep
    exact absurd (h.cmTold.symm.trans hcm.2) (by decide)
  | switchPermission env p enabled =>
    obtain ⟨hcm, -⟩ := Option.ite_none_right_eq_some.mp hstep
    exact absurd (h.cmTold.symm.trans hcm.2) (by decide)
  | portForwardOpen env =>
    have hr : onPortForwardOpen env c = c := by
      unfold onPortForwardOpen
      rw [h.authorized]
      rfl
    exact Or.inl ⟨Option.some.inj hstep ▸ hr.symm ▸ h, rfl⟩
  | close => exact Or.inl ⟨Option.some.inj hstep ▸ { h with }, rfl⟩

theorem exec_latched (t : Conn) (events : List Event)
    (hevents : ∀ event ∈ events, isSwitchSides event = false) (h : Latched id kind c)
    (hexec : exec (step lib) c events = some t) : Latched id kind t := by
  induction events generalizing c with
  | nil =>
    have heq : c = t := by simpa using hexec
    exact heq ▸ h
  | cons event events ih =>
    obtain ⟨u, hu, hrest⟩ := (exec_cons _ c t event events).mp hexec
    have hlatched :=
      step_latched id kind lib c u event (hevents event (List.mem_cons_self ..)) h hu
    exact ih u (fun e he => hevents e (List.mem_cons_of_mem _ he)) hlatched hrest

theorem firstLogin_cons (event : Event) (events : List Event) :
    firstLogin (event :: events) = (firstLogin [event]).or (firstLogin events) := by
  cases event <;> rfl

theorem exec_untouched (t : Conn) (events : List Event)
    (hevents : ∀ event ∈ events, isSwitchSides event = false) (h : Untouched c)
    (hexec : exec (step lib) c events = some t) :
    Untouched t ∨ ∃ lr, firstLogin events = some lr ∧ Latched lr.myId lr.kind t := by
  induction events generalizing c with
  | nil =>
    have heq : c = t := by simpa using hexec
    exact Or.inl (heq ▸ h)
  | cons event events ih =>
    obtain ⟨u, hu, hrest⟩ := (exec_cons _ c t event events).mp hexec
    have hmore := fun e he => hevents e (List.mem_cons_of_mem event he)
    rw [firstLogin_cons]
    rcases step_untouched lib c u event (hevents event (List.mem_cons_self ..)) h hu with
      ⟨hsame, hnone⟩ | ⟨lr, hsome, hlatched⟩
    · rw [hnone, Option.none_or]
      exact ih u hmore hsame hrest
    · rw [hsome, Option.some_or]
      exact Or.inr ⟨lr, rfl, exec_latched lr.myId lr.kind lib u t events hmore hlatched hrest⟩

/-- Two requests have one digest exactly when they name one controller and ask for one session,
the flag of hidden files included. On a connection that receives logins, codes and clicks, the
controller and the session of the authorisation are those of the first login. -/
theorem login_scope_latched (sha256 : Bytes → Bytes) (hsha : Set.InjOn sha256 scopes) :
    (∀ lr lr', Fits lr → Fits lr' →
      (loginScopeDigest sha256 lr = loginScopeDigest sha256 lr' ↔
        lr.myId = lr'.myId ∧ lr.kind = lr'.kind)) ∧
    ∀ (lib : Libraries) (require2fa : Bool) (events : List Event) (t : Conn),
      (∀ event ∈ events, isSwitchSides event = false) →
      exec (step lib) (start require2fa) events = some t → t.authorized = true →
      ∃ lr, firstLogin events = some lr ∧ Executes lr.myId lr.kind t := by
  refine ⟨loginScopeDigest_eq_iff sha256 hsha, ?_⟩
  intro lib require2fa events t hevents hexec hauth
  have hstart := untouched_start require2fa
  rcases exec_untouched lib _ t events hevents hstart hexec with hsame | ⟨lr, hfirst, hlatched⟩
  · exact absurd (hsame.authorized.symm.trans hauth) (by decide)
  · refine ⟨lr, hfirst, ?_⟩
    cases hlatched with
    | ended h => exact absurd (h.authorized.symm.trans hauth) (by decide)
    | pending h => exact absurd (h.authorized.symm.trans hauth) (by decide)
    | executes _ h => exact h

/-- With a digest that keeps the bytes, a login for a directory executes that directory. -/
theorem login_scope_latched_sample :
    ∃ lr, firstLogin [.login (sampleEnv (SessionGrant.sampleHost []))
        (sampleLogin (.fileTransfer "/home" true) [1] SessionGrant.sampleGrant)] = some lr ∧
      Executes lr.myId lr.kind (sampleEnd false (.fileTransfer "/home" true)) := by
  refine (login_scope_latched id Function.injective_id.injOn).2 sampleLib false _ _ ?_ ?_ ?_
  · intro event hevent
    rw [List.mem_singleton.mp hevent]
    rfl
  · simp only [exec, step_sample, Option.bind_some]
  · decide

/-- The digests of two logins for one directory differ when only one shows hidden files. -/
theorem hidden_files_change_digest :
    ∃ lr lr' : LoginRequest, Fits lr ∧ Fits lr' ∧ lr.myId = lr'.myId ∧
      (∃ dir, lr.kind = .fileTransfer dir false ∧ lr'.kind = .fileTransfer dir true) ∧
      ∀ sha256 : Bytes → Bytes, Set.InjOn sha256 scopes →
        loginScopeDigest sha256 lr ≠ loginScopeDigest sha256 lr' := by
  have hfits : ∀ hidden, Fits (sampleLogin (.fileTransfer "/home" hidden) [] "") := by
    intro hidden
    refine ⟨?_, fun _ _ _ hkind => by cases hkind⟩
    cases hidden <;> decide
  refine ⟨_, _, hfits false, hfits true, rfl, ⟨"/home", rfl, rfl⟩, ?_⟩
  intro sha256 hsha heq
  have hkind := ((loginScopeDigest_eq_iff sha256 hsha _ _ (hfits false) (hfits true)).mp heq).2
  cases hkind

end ClantoDesk.LoginScope
