import ClantoDesk.Runs
import Mathlib.Data.Int.Notation
import Mathlib.Logic.Function.Basic

/-!
Logins of the mappings of one port-forward window, src/port_forward.rs and src/client.rs. All
mappings share the window's login handler: a login is built from its target, its hash and its
passwords, which every mapping overwrites. The tasks run on one thread, so a mapping runs from
one await to the next, and anything else of the window runs between two of them. The hash
function is a parameter. Passwords and texts are their bytes.
-/
namespace ClantoDesk.ForwardLogins

abbrev Bytes := List UInt8

/-- What the other side asks for first on a connection. -/
structure Hash where
  salt : Bytes
  challenge : Bytes
  deriving DecidableEq

/-- What a connection of a mapping is started with. `mux` tells the multiplexed login from the
raw one, and `password` is the preset of the window. -/
structure Mapping where
  remoteHost : String
  remotePort : ℤ
  mux : Bool
  password : Bytes
  deriving DecidableEq

inductive PasswordSource where
  | personalAb (password : Bytes)
  | sharedAb (password : Bytes)
  | undefined
  deriving DecidableEq

/-- The fields of the shared handler that logins read or write. `configPassword` is the password
of the loaded peer configuration. -/
structure LoginConfigHandler where
  portForward : String × ℤ
  portForwardMultiplex : Bool
  hash : Hash
  password : Bytes
  passwordSource : PasswordSource
  sharedPassword : Option Bytes
  switchUuid : Option String
  remember : Bool
  configPassword : Bytes

/-- Settings outside the handler, as they are when a hash is handled. -/
structure Settings where
  incomingOnly : Bool
  personalAb : Option Bytes
  defaultConnectPassword : Bytes

/-- The part of a login that depends on the connection. The device key and the posture are signed
over `signedChallenge`. -/
structure LoginRequest where
  host : String
  port : ℤ
  multiplex : Bool
  password : Bytes
  signedChallenge : Bytes
  deriving DecidableEq

def createLoginMsg (lc : LoginConfigHandler) (password : Bytes) : LoginRequest :=
  ⟨lc.portForward.1, lc.portForward.2, lc.portForwardMultiplex, password, lc.hash.challenge⟩

/-- What a login answers: the hash itself, the hash for a switch of sides, or a password typed
into the window. -/
inductive Job where
  | hash (hash : Hash)
  | switchSides (hash : Hash)
  | ui (hash : Hash) (password : Bytes) (remember : Bool)
  deriving DecidableEq

def Job.own : Job → Hash
  | .hash h => h
  | .switchSides h => h
  | .ui h _ _ => h

inductive Task where
  | reading
  | waiting (job : Job)
  | switching (hash : Hash)
  | sending (job : Job) (password : Bytes)
  | sent (job : Job)
  | ended
  deriving DecidableEq

def Task.held : Task → Option Hash
  | .switching h => some h
  | .sending job _ => some job.own
  | .sent job => some job.own
  | _ => none

/-- A connection. The lists record the hashes that came and the logins that were sent. -/
structure Conn where
  mapping : Mapping
  challenge : Option Hash
  pendingLogin : Option (Bytes × Bool)
  task : Task
  received : List Hash
  sent : List (Job × LoginRequest)
  deriving DecidableEq

/-- The window. The last two fields record the salts its connections were given and the salted
passwords that came from outside: from the peer configuration, the address book and the start of
the window. They decide nothing. -/
structure Window where
  lc : LoginConfigHandler
  turn : Option ℕ
  conns : ℕ → Option Conn
  salts : List Bytes
  stored : List Bytes

section Passwords

variable (sha : Bytes → Bytes)

def presetPassword (preset : Bytes) (hash : Hash) (p : Bytes × LoginConfigHandler) :
    Bytes × LoginConfigHandler :=
  if p.1 = [] ∧ preset ≠ [] then
    (sha (preset ++ hash.salt), { p.2 with passwordSource := .undefined })
  else p

def sharedPassword (hash : Hash) (p : Bytes × LoginConfigHandler) :
    Bytes × LoginConfigHandler :=
  match p.2.sharedPassword with
  | none => p
  | some shared =>
    if shared ≠ [] then
      (sha (shared ++ hash.salt),
        { p.2 with sharedPassword := none, passwordSource := .sharedAb shared })
    else (p.1, { p.2 with sharedPassword := none })

def peerConfigPassword (p : Bytes × LoginConfigHandler) : Bytes × LoginConfigHandler :=
  if p.1 = [] then
    if p.2.configPassword = [] then p
    else (p.2.configPassword, { p.2 with passwordSource := .undefined })
  else p

def personalAbPassword (settings : Settings) (p : Bytes × LoginConfigHandler) :
    Bytes × LoginConfigHandler :=
  if p.1 = [] then
    match settings.personalAb with
    | some hashPassword =>
      if hashPassword ≠ [] then
        (hashPassword, { p.2 with passwordSource := .personalAb hashPassword })
      else p
    | none => p
  else p

def defaultPassword (settings : Settings) (hash : Hash) (p : Bytes × LoginConfigHandler) :
    Bytes × LoginConfigHandler :=
  if p.1 = [] ∧ settings.defaultConnectPassword ≠ [] then
    (sha (settings.defaultConnectPassword ++ hash.salt),
      { p.2 with passwordSource := .sharedAb settings.defaultConnectPassword })
  else p

def choosePassword (settings : Settings) (preset : Bytes) (hash : Hash)
    (lc : LoginConfigHandler) : Bytes × LoginConfigHandler :=
  let p := defaultPassword sha settings hash (personalAbPassword settings
    (peerConfigPassword (sharedPassword sha hash (presetPassword sha preset hash
      (lc.password, lc)))))
  (p.1, { p.2 with password := p.1 })

/-- Without a password the login goes out empty, and the other side may click accept. -/
def answerChallenge (password : Bytes) (hash : Hash) : Bytes :=
  if password = [] then [] else sha (password ++ hash.challenge)

def typedPassword (password : Bytes) (remember : Bool) (lc : LoginConfigHandler) :
    Bytes × LoginConfigHandler :=
  if password = [] then
    if lc.password = [] then
      (lc.configPassword,
        { lc with
          password := lc.configPassword
          passwordSource := if lc.configPassword = [] then lc.passwordSource else .undefined })
    else (lc.password, lc)
  else
    (sha (password ++ lc.hash.salt),
      { lc with
        password := sha (password ++ lc.hash.salt)
        passwordSource := .undefined
        remember := remember })

end Passwords

def PasswordSource.isPersonalAb (source : PasswordSource) (password : Bytes) : Bool :=
  password ≠ [] ∧ source = .personalAb password

def PasswordSource.isSharedAb (sha : Bytes → Bytes) (source : PasswordSource) (password : Bytes)
    (hash : Hash) : Bool :=
  match source with
  | .sharedAb p => password ≠ [] ∧ password = sha (p ++ hash.salt)
  | _ => false

/-- What a successful login leaves in the peer configuration, where `saved` was in the file. -/
def rememberPassword (sha : Bytes → Bytes) (saved : Bytes) (lc : LoginConfigHandler) : Bytes :=
  if lc.remember then
    if lc.password ≠ [] ∧ lc.password ≠ saved ∧
        ¬ lc.passwordSource.isSharedAb sha lc.password lc.hash then lc.password
    else saved
  else if lc.passwordSource.isPersonalAb lc.password then lc.password
  else []

inductive LoginError where
  | passwordEmpty
  | passwordWrong
  | other (again : Bool)

inductive Event where
  | connect (c : ℕ) (mapping : Mapping)
  | hash (c : ℕ) (hash : Hash)
  | login (c : ℕ) (password : Bytes) (remember : Bool)
  | loginError (c : ℕ) (err : LoginError)
  | peerInfo (c : ℕ) (saved : Bytes)
  | takeTurn (c : ℕ) (settings : Settings)
  | switchAnswer (c : ℕ) (trusted : Bool) (settings : Settings)
  | send (c : ℕ)
  | finish (c : ℕ)
  | close (c : ℕ)

namespace Window

def put (w : Window) (c : ℕ) (conn : Conn) : Window :=
  { w with conns := Function.update w.conns c (some conn) }

def leaveTurn (w : Window) (c : ℕ) : Window :=
  { w with turn := if w.turn = some c then none else w.turn }

def connect (w : Window) (c : ℕ) (mapping : Mapping) : Window :=
  w.put c ⟨mapping, none, none, .reading, [], []⟩

def hashArrived (w : Window) (c : ℕ) (conn : Conn) (hash : Hash) : Window :=
  { w with salts := hash.salt :: w.salts }.put c
    { conn with
      challenge := some hash
      pendingLogin := none
      received := hash :: conn.received
      task := .waiting (match conn.pendingLogin with
        | some login => .ui hash login.1 login.2
        | none => .hash hash) }

def login (w : Window) (c : ℕ) (conn : Conn) (password : Bytes) (remember : Bool) : Window :=
  match conn.challenge with
  | some hash => w.put c { conn with task := .waiting (.ui hash password remember) }
  | none => w.put c { conn with pendingLogin := some (password, remember) }

def handleLoginError (w : Window) (c : ℕ) (conn : Conn) : LoginError → Window
  | .passwordEmpty => { w with lc := { w.lc with password := [] } }
  | .passwordWrong => { w with lc := { w.lc with password := [] } }
  | .other again => if again then w else w.put c { conn with task := .ended }

def handlePeerInfo (sha : Bytes → Bytes) (w : Window) (c : ℕ) (conn : Conn) (saved : Bytes) :
    Window :=
  { w with
    lc := { w.lc with configPassword := rememberPassword sha saved w.lc }
    stored := saved :: w.stored }.put c { conn with task := .ended }

/-- The end of `handle_hash`: passwords are chosen and the login waits for the posture. In
incoming-only mode the connection ends instead. -/
def answerHash (sha : Bytes → Bytes) (w : Window) (c : ℕ) (conn : Conn) (hash : Hash)
    (settings : Settings) : Window :=
  if settings.incomingOnly then (w.put c { conn with task := .ended }).leaveTurn c
  else
    let p := choosePassword sha settings conn.mapping.password hash w.lc
    { w with lc := p.2, stored := settings.personalAb.toList ++ w.stored }.put c
      { conn with task := .sending (.hash hash) (answerChallenge sha p.1 hash) }

def takeTurn (sha : Bytes → Bytes) (w : Window) (c : ℕ) (conn : Conn) (job : Job)
    (settings : Settings) : Window :=
  let lc := { w.lc with
    portForward := (conn.mapping.remoteHost, conn.mapping.remotePort)
    portForwardMultiplex := conn.mapping.mux
    hash := job.own }
  match job with
  | .ui hash password remember =>
    let p := typedPassword sha password remember lc
    { w with lc := p.2, turn := some c }.put c
      { conn with task := .sending (.ui hash password remember) (sha (p.1 ++ p.2.hash.challenge)) }
  | .hash hash | .switchSides hash =>
    match lc.switchUuid with
    | some _ =>
      { w with lc := { lc with switchUuid := none }, turn := some c }.put c
        { conn with task := .switching hash }
    | none => { w with lc := lc, turn := some c }.answerHash sha c conn hash settings

def switchAnswer (sha : Bytes → Bytes) (w : Window) (c : ℕ) (conn : Conn) (hash : Hash)
    (trusted : Bool) (settings : Settings) : Window :=
  if trusted then w.put c { conn with task := .sending (.switchSides hash) [] }
  else w.answerHash sha c conn hash settings

def send (w : Window) (c : ℕ) (conn : Conn) (job : Job) (password : Bytes) : Window :=
  w.put c
    { conn with
      task := .sent job
      sent := conn.sent ++ [(job, createLoginMsg w.lc password)] }

def finish (w : Window) (c : ℕ) (conn : Conn) (job : Job) : Window :=
  let lc := match job with
    | .hash hash => { w.lc with hash := hash }
    | .switchSides _ => { w.lc with passwordSource := .undefined }
    | .ui _ _ _ => w.lc
  ({ w with lc := lc }.put c { conn with task := .reading }).leaveTurn c

def close (w : Window) (c : ℕ) (conn : Conn) : Window :=
  (w.put c { conn with task := .ended }).leaveTurn c

end Window

def start (lc : LoginConfigHandler) : Window :=
  ⟨lc, none, fun _ => none, [], [lc.password, lc.configPassword]⟩

def step (sha : Bytes → Bytes) (w : Window) : Event → Option Window
  | .connect c mapping => if w.conns c = none then some (w.connect c mapping) else none
  | .hash c hash =>
    (w.conns c).bind fun conn =>
      if conn.task = .reading then some (w.hashArrived c conn hash) else none
  | .login c password remember =>
    (w.conns c).bind fun conn =>
      if conn.task = .reading then some (w.login c conn password remember) else none
  | .loginError c err =>
    (w.conns c).bind fun conn =>
      if conn.task = .reading then some (w.handleLoginError c conn err) else none
  | .peerInfo c saved =>
    (w.conns c).bind fun conn =>
      if conn.task = .reading then some (w.handlePeerInfo sha c conn saved) else none
  | .takeTurn c settings =>
    (w.conns c).bind fun conn =>
      match conn.task with
      | .waiting job =>
        if w.turn = none then some (w.takeTurn sha c conn job settings) else none
      | _ => none
  | .switchAnswer c trusted settings =>
    (w.conns c).bind fun conn =>
      match conn.task with
      | .switching hash => some (w.switchAnswer sha c conn hash trusted settings)
      | _ => none
  | .send c =>
    (w.conns c).bind fun conn =>
      match conn.task with
      | .sending job password => some (w.send c conn job password)
      | _ => none
  | .finish c =>
    (w.conns c).bind fun conn =>
      match conn.task with
      | .sent job => some (w.finish c conn job)
      | _ => none
  | .close c =>
    (w.conns c).bind fun conn => if conn.task = .ended then none else some (w.close c conn)

section Specification

variable (sha : Bytes → Bytes)

/-- A salted password the window may have at hand: none, one from outside, or one salted for some
connection of the window. -/
def Remembered (w : Window) (password : Bytes) : Prop :=
  password = [] ∨ password ∈ w.stored ∨
    ∃ text, ∃ salt ∈ w.salts, password = sha (text ++ salt)

def Answers (w : Window) : Job → Bytes → Prop
  | .switchSides _, password => password = []
  | .ui hash typed _, password =>
    ∃ salted, password = sha (salted ++ hash.challenge) ∧
      (typed ≠ [] → salted = sha (typed ++ hash.salt)) ∧
      (typed = [] → Remembered sha w salted)
  | .hash hash, password =>
    password = [] ∨ ∃ salted, password = sha (salted ++ hash.challenge) ∧
      ((∃ text, salted = sha (text ++ hash.salt)) ∨ Remembered sha w salted)

structure Own (w : Window) (conn : Conn) (job : Job) (request : LoginRequest) : Prop where
  host : request.host = conn.mapping.remoteHost
  port : request.port = conn.mapping.remotePort
  multiplex : request.multiplex = conn.mapping.mux
  received : job.own ∈ conn.received
  signed : request.signedChallenge = job.own.challenge
  answers : Answers sha w job request.password

structure Filled (lc : LoginConfigHandler) (mapping : Mapping) (hash : Hash) : Prop where
  target : lc.portForward = (mapping.remoteHost, mapping.remotePort)
  multiplex : lc.portForwardMultiplex = mapping.mux
  hash : lc.hash = hash

structure ConnOk (w : Window) (c : ℕ) (conn : Conn) : Prop where
  challenge : ∀ h, conn.challenge = some h → h ∈ conn.received
  waiting : ∀ job, conn.task = .waiting job → job.own ∈ conn.received
  salts : ∀ h ∈ conn.received, h.salt ∈ w.salts
  received : ∀ h, conn.task.held = some h → h ∈ conn.received
  turn : ∀ h, conn.task.held = some h → w.turn = some c
  filled : ∀ h, conn.task.held = some h → Filled w.lc conn.mapping h
  sending : ∀ job password, conn.task = .sending job password → Answers sha w job password
  sent : ∀ job request, (job, request) ∈ conn.sent → Own sha w conn job request

structure Inv (w : Window) : Prop where
  conns : ∀ c conn, w.conns c = some conn → ConnOk sha w c conn
  password : Remembered sha w w.lc.password
  config : Remembered sha w w.lc.configPassword

end Specification

section Growing

variable (sha : Bytes → Bytes)

def Grows (w v : Window) : Prop := w.salts ⊆ v.salts ∧ w.stored ⊆ v.stored

theorem grows_refl (w : Window) : Grows w w :=
  ⟨List.Subset.refl w.salts, List.Subset.refl w.stored⟩

theorem remembered_grows (w v : Window) (hgrows : Grows w v) (password : Bytes)
    (hold : Remembered sha w password) : Remembered sha v password := by
  rcases hold with hempty | hstored | ⟨text, salt, hsalt, heq⟩
  · exact Or.inl hempty
  · exact Or.inr (Or.inl (hgrows.2 hstored))
  · exact Or.inr (Or.inr ⟨text, salt, hgrows.1 hsalt, heq⟩)

theorem answers_grows (w v : Window) (hgrows : Grows w v) (job : Job) (password : Bytes)
    (hold : Answers sha w job password) : Answers sha v job password := by
  cases job with
  | switchSides hash => exact hold
  | ui hash typed remember =>
    obtain ⟨salted, heq, hfresh, hempty⟩ := hold
    exact ⟨salted, heq, hfresh, fun h => remembered_grows sha w v hgrows salted (hempty h)⟩
  | hash hash =>
    rcases hold with hnone | ⟨salted, heq, hfresh | hkept⟩
    · exact Or.inl hnone
    · exact Or.inr ⟨salted, heq, Or.inl hfresh⟩
    · exact Or.inr ⟨salted, heq, Or.inr (remembered_grows sha w v hgrows salted hkept)⟩

theorem own_grows (w v : Window) (hgrows : Grows w v) (conn : Conn) (job : Job)
    (request : LoginRequest) (hown : Own sha w conn job request) : Own sha v conn job request :=
  { hown with answers := answers_grows sha w v hgrows job request.password hown.answers }

def SameTarget (lc lc' : LoginConfigHandler) : Prop :=
  lc'.portForward = lc.portForward ∧ lc'.portForwardMultiplex = lc.portForwardMultiplex ∧
    lc'.hash = lc.hash

theorem filled_same (lc lc' : LoginConfigHandler) (mapping : Mapping) (hash : Hash)
    (hsame : SameTarget lc lc') (hfilled : Filled lc mapping hash) : Filled lc' mapping hash :=
  ⟨hsame.1.trans hfilled.target, hsame.2.1.trans hfilled.multiplex,
    hsame.2.2.trans hfilled.hash⟩

theorem connOk_other (w v : Window) (hgrows : Grows w v) (d : ℕ) (conn : Conn)
    (hkeep : w.turn = some d → v.turn = some d ∧ SameTarget w.lc v.lc)
    (hok : ConnOk sha w d conn) : ConnOk sha v d conn where
  challenge := hok.challenge
  waiting := hok.waiting
  salts := fun h hmem => hgrows.1 (hok.salts h hmem)
  received := hok.received
  turn := fun h hheld => (hkeep (hok.turn h hheld)).1
  filled := fun h hheld =>
    filled_same w.lc v.lc conn.mapping h (hkeep (hok.turn h hheld)).2 (hok.filled h hheld)
  sending := fun job password htask =>
    answers_grows sha w v hgrows job password (hok.sending job password htask)
  sent := fun job request hmem =>
    own_grows sha w v hgrows conn job request (hok.sent job request hmem)

/-- What a step of one connection has to keep. -/
theorem inv_of_put (w v : Window) (c : ℕ) (conn : Conn) (hinv : Inv sha w) (hgrows : Grows w v)
    (hconns : v.conns = Function.update w.conns c (some conn))
    (hkeep : ∀ d, d ≠ c → w.turn = some d → v.turn = some d ∧ SameTarget w.lc v.lc)
    (hown : ConnOk sha v c conn) (hpassword : Remembered sha v v.lc.password)
    (hconfig : Remembered sha v v.lc.configPassword) : Inv sha v := by
  refine ⟨?_, hpassword, hconfig⟩
  intro d other hother
  rw [hconns] at hother
  by_cases hd : d = c
  · subst d
    rw [Function.update_self] at hother
    exact Option.some.inj hother ▸ hown
  · rw [Function.update_of_ne hd] at hother
    exact connOk_other sha w v hgrows d other (hkeep d hd) (hinv.conns d other hother)

theorem connOk_task (w v : Window) (hgrows : Grows w v) (c : ℕ) (conn : Conn) (task : Task)
    (hok : ConnOk sha w c conn)
    (hwaiting : ∀ job, task = .waiting job → job.own ∈ conn.received)
    (hheld : ∀ h, task.held = some h →
      h ∈ conn.received ∧ v.turn = some c ∧ Filled v.lc conn.mapping h)
    (hsending : ∀ job password, task = .sending job password → Answers sha v job password) :
    ConnOk sha v c { conn with task := task } where
  challenge := hok.challenge
  waiting := hwaiting
  salts := fun h hmem => hgrows.1 (hok.salts h hmem)
  received := fun h hh => (hheld h hh).1
  turn := fun h hh => (hheld h hh).2.1
  filled := fun h hh => (hheld h hh).2.2
  sending := hsending
  sent := fun job request hmem => by
    have hold := own_grows sha w v hgrows conn job request (hok.sent job request hmem)
    exact { hold with }

theorem connOk_quiet (w v : Window) (hgrows : Grows w v) (c : ℕ) (conn : Conn) (task : Task)
    (hok : ConnOk sha w c conn) (hquiet : task = .reading ∨ task = .ended) :
    ConnOk sha v c { conn with task := task } := by
  refine connOk_task sha w v hgrows c conn task hok ?_ ?_ ?_
  · rintro job rfl
    simp at hquiet
  · intro h hheld
    rcases hquiet with rfl | rfl <;> simp [Task.held] at hheld
  · rintro job password rfl
    simp at hquiet

end Growing

section Choosing

variable (sha : Bytes → Bytes)

/-- What is known of a password while the sources are tried in turn. -/
structure Choice (w : Window) (hash : Hash) (lc : LoginConfigHandler)
    (p : Bytes × LoginConfigHandler) : Prop where
  password : (∃ text, p.1 = sha (text ++ hash.salt)) ∨ Remembered sha w p.1
  same : SameTarget lc p.2
  config : p.2.configPassword = lc.configPassword

variable (w : Window) (hash : Hash) (lc : LoginConfigHandler) (p : Bytes × LoginConfigHandler)

variable (settings : Settings) (password : Bytes) (remember : Bool)

theorem choice_preset (preset : Bytes) (hp : Choice sha w hash lc p) :
    Choice sha w hash lc (presetPassword sha preset hash p) := by
  unfold presetPassword
  split
  · exact ⟨Or.inl ⟨preset, rfl⟩, hp.same, hp.config⟩
  · exact hp

theorem choice_shared (hp : Choice sha w hash lc p) :
    Choice sha w hash lc (sharedPassword sha hash p) := by
  unfold sharedPassword
  split
  · exact hp
  · split
    · exact ⟨Or.inl ⟨_, rfl⟩, hp.same, hp.config⟩
    · exact ⟨hp.password, hp.same, hp.config⟩

theorem choice_config (hconfig : Remembered sha w lc.configPassword)
    (hp : Choice sha w hash lc p) : Choice sha w hash lc (peerConfigPassword p) := by
  unfold peerConfigPassword
  split
  · split
    · exact hp
    · refine ⟨Or.inr ?_, hp.same, hp.config⟩
      rw [hp.config]
      exact hconfig
  · exact hp

theorem choice_personalAb (hab : ∀ password ∈ settings.personalAb, password ∈ w.stored)
    (hp : Choice sha w hash lc p) : Choice sha w hash lc (personalAbPassword settings p) := by
  unfold personalAbPassword
  split
  · split
    · rename_i hashPassword hsome
      split
      · exact ⟨Or.inr (Or.inr (Or.inl (hab hashPassword hsome))), hp.same, hp.config⟩
      · exact hp
    · exact hp
  · exact hp

theorem choice_default (hp : Choice sha w hash lc p) :
    Choice sha w hash lc (defaultPassword sha settings hash p) := by
  unfold defaultPassword
  split
  · exact ⟨Or.inl ⟨_, rfl⟩, hp.same, hp.config⟩
  · exact hp

theorem choice_choosePassword (preset : Bytes)
    (hab : ∀ password ∈ settings.personalAb, password ∈ w.stored)
    (hpassword : Remembered sha w lc.password) (hconfig : Remembered sha w lc.configPassword) :
    Choice sha w hash lc (choosePassword sha settings preset hash lc) := by
  have hfirst : Choice sha w hash lc (lc.password, lc) := ⟨Or.inr hpassword, ⟨rfl, rfl, rfl⟩, rfl⟩
  have hlast := choice_default sha w hash lc _ settings
    (choice_personalAb sha w hash lc _ settings hab
      (choice_config sha w hash lc _ hconfig
        (choice_shared sha w hash lc _ (choice_preset sha w hash lc _ preset hfirst))))
  exact ⟨hlast.password, hlast.same, hlast.config⟩

theorem remembered_of_choice (hsalt : hash.salt ∈ w.salts) (hp : Choice sha w hash lc p) :
    Remembered sha w p.1 := by
  rcases hp.password with ⟨text, heq⟩ | hkept
  · exact Or.inr (Or.inr ⟨text, hash.salt, hsalt, heq⟩)
  · exact hkept

theorem answers_answerChallenge (hp : Choice sha w hash lc p) :
    Answers sha w (.hash hash) (answerChallenge sha p.1 hash) := by
  unfold answerChallenge
  split
  · exact Or.inl rfl
  · exact Or.inr ⟨p.1, rfl, hp.password⟩

/-- A login from the window keeps the target it was given. -/
theorem typedPassword_same : SameTarget lc (typedPassword sha password remember lc).2 := by
  unfold typedPassword
  split
  · split
    · exact ⟨rfl, rfl, rfl⟩
    · exact ⟨rfl, rfl, rfl⟩
  · exact ⟨rfl, rfl, rfl⟩

theorem typedPassword_config :
    (typedPassword sha password remember lc).2.configPassword = lc.configPassword := by
  unfold typedPassword
  split
  · split <;> rfl
  · rfl

theorem typedPassword_password :
    (typedPassword sha password remember lc).2.password =
      (typedPassword sha password remember lc).1 := by
  unfold typedPassword
  split
  · split <;> rfl
  · rfl

theorem typedPassword_fresh (htyped : password ≠ []) :
    (typedPassword sha password remember lc).1 = sha (password ++ lc.hash.salt) := by
  simp [typedPassword, htyped]

theorem typedPassword_empty (hpassword : Remembered sha w lc.password)
    (hconfig : Remembered sha w lc.configPassword) :
    Remembered sha w (typedPassword sha [] remember lc).1 := by
  simp only [typedPassword, if_pos]
  split
  · exact hconfig
  · exact hpassword

theorem remembered_rememberPassword (saved : Bytes) (hsaved : saved ∈ w.stored)
    (hpassword : Remembered sha w lc.password) :
    Remembered sha w (rememberPassword sha saved lc) := by
  unfold rememberPassword
  split
  · split
    · exact hpassword
    · exact Or.inr (Or.inl hsaved)
  · split
    · exact hpassword
    · exact Or.inl rfl

end Choosing

section Steps

variable (sha : Bytes → Bytes) (w : Window) (c : ℕ) (conn : Conn)

variable (lc : LoginConfigHandler) (job : Job) (password : Bytes)

theorem inv_start : Inv sha (start lc) := by
  refine ⟨?_, Or.inr (Or.inl ?_), Or.inr (Or.inl ?_)⟩
  · intro d other hother
    simp [start] at hother
  · simp [start]
  · simp [start]

theorem inv_connect (mapping : Mapping) (hinv : Inv sha w) : Inv sha (w.connect c mapping) := by
  refine inv_of_put sha w _ c _ hinv ?_ rfl ?_ ?_ hinv.password hinv.config
  · exact grows_refl w
  · intro d _ hturn
    exact ⟨hturn, rfl, rfl, rfl⟩
  · exact
      { challenge := fun h hsome => by simp at hsome
        waiting := fun job htask => by simp at htask
        salts := fun h hmem => by simp at hmem
        received := fun h hheld => by simp [Task.held] at hheld
        turn := fun h hheld => by simp [Task.held] at hheld
        filled := fun h hheld => by simp [Task.held] at hheld
        sending := fun job password htask => by simp at htask
        sent := fun job request hmem => by simp at hmem }

theorem own_hashArrived (hash : Hash) (hown : ConnOk sha w c conn) :
    ConnOk sha (w.hashArrived c conn hash) c
      { conn with
        challenge := some hash
        pendingLogin := none
        received := hash :: conn.received
        task := .waiting (match conn.pendingLogin with
          | some login => .ui hash login.1 login.2
          | none => .hash hash) } where
  challenge := fun h hsome => by
    rw [← Option.some.inj hsome]
    exact List.mem_cons_self
  waiting := fun job htask => by
    rw [← Task.waiting.inj htask]
    cases conn.pendingLogin <;> exact List.mem_cons_self
  salts := fun h hmem => by
    rcases List.mem_cons.mp hmem with rfl | hold
    · exact List.mem_cons_self
    · exact List.mem_cons_of_mem _ (hown.salts h hold)
  received := fun h hheld => by simp [Task.held] at hheld
  turn := fun h hheld => by simp [Task.held] at hheld
  filled := fun h hheld => by simp [Task.held] at hheld
  sending := fun job password htask => by simp at htask
  sent := fun job request hmem => by
    have hgrows : Grows w (w.hashArrived c conn hash) :=
      ⟨List.subset_cons_self hash.salt w.salts, List.Subset.refl w.stored⟩
    have hold := own_grows sha w _ hgrows conn job request (hown.sent job request hmem)
    exact { hold with received := List.mem_cons_of_mem _ hold.received }

theorem inv_hashArrived (hash : Hash) (hinv : Inv sha w) (hconn : w.conns c = some conn) :
    Inv sha (w.hashArrived c conn hash) := by
  have hgrows : Grows w (w.hashArrived c conn hash) :=
    ⟨List.subset_cons_self hash.salt w.salts, List.Subset.refl w.stored⟩
  refine inv_of_put sha w _ c _ hinv hgrows rfl ?_
    (own_hashArrived sha w c conn hash (hinv.conns c conn hconn))
    (remembered_grows sha w _ hgrows _ hinv.password)
    (remembered_grows sha w _ hgrows _ hinv.config)
  intro d _ hturn
  exact ⟨hturn, rfl, rfl, rfl⟩

theorem inv_login (remember : Bool) (hinv : Inv sha w) (hconn : w.conns c = some conn) :
    Inv sha (w.login c conn password remember) := by
  have hown := hinv.conns c conn hconn
  have hkeep : ∀ d, d ≠ c → w.turn = some d → w.turn = some d ∧ SameTarget w.lc w.lc :=
    fun d _ hturn => ⟨hturn, rfl, rfl, rfl⟩
  unfold Window.login
  split
  · rename_i hash hchallenge
    refine inv_of_put sha w _ c _ hinv ?_ rfl hkeep ?_ hinv.password hinv.config
    · exact grows_refl w
    refine connOk_task sha w _ ?_ c conn _ hown ?_ ?_ ?_
    · exact grows_refl w
    · intro job htask
      rw [← Task.waiting.inj htask]
      exact hown.challenge hash hchallenge
    · intro h hheld
      simp [Task.held] at hheld
    · intro job answer htask
      simp at htask
  · refine inv_of_put sha w _ c _ hinv ?_ rfl hkeep ?_ hinv.password hinv.config
    · exact grows_refl w
    · exact
        { challenge := hown.challenge
          waiting := hown.waiting
          salts := hown.salts
          received := hown.received
          turn := hown.turn
          filled := hown.filled
          sending := hown.sending
          sent := fun job request hmem => { hown.sent job request hmem with } }

/-- The connection stops, in its turn or not, and nothing else changes. -/
theorem inv_end (hinv : Inv sha w) (hconn : w.conns c = some conn) :
    Inv sha ((w.put c { conn with task := .ended }).leaveTurn c) := by
  have hown := hinv.conns c conn hconn
  refine inv_of_put sha w _ c _ hinv ?_ rfl ?_ ?_ hinv.password hinv.config
  · exact grows_refl w
  · intro d hd hturn
    refine ⟨?_, rfl, rfl, rfl⟩
    simp [Window.leaveTurn, Window.put, hturn, hd]
  · refine connOk_quiet sha w _ ?_ c conn _ hown (Or.inr rfl)
    exact grows_refl w

theorem inv_handleLoginError (err : LoginError) (hinv : Inv sha w)
    (hconn : w.conns c = some conn) : Inv sha (w.handleLoginError c conn err) := by
  have hreset : Inv sha { w with lc := { w.lc with password := [] } } := by
    refine ⟨?_, Or.inl rfl, hinv.config⟩
    intro d other hother
    refine connOk_other sha w _ ?_ d other ?_ (hinv.conns d other hother)
    · exact grows_refl w
    · exact fun hturn => ⟨hturn, rfl, rfl, rfl⟩
  cases err with
  | passwordEmpty => exact hreset
  | passwordWrong => exact hreset
  | other again =>
    cases again with
    | true => exact hinv
    | false =>
      have hown := hinv.conns c conn hconn
      refine inv_of_put sha w _ c _ hinv ?_ rfl ?_ ?_ hinv.password hinv.config
      · exact grows_refl w
      · exact fun d _ hturn => ⟨hturn, rfl, rfl, rfl⟩
      · refine connOk_quiet sha w _ ?_ c conn _ hown (Or.inr rfl)
        exact grows_refl w

theorem inv_handlePeerInfo (saved : Bytes) (hinv : Inv sha w) (hconn : w.conns c = some conn) :
    Inv sha (w.handlePeerInfo sha c conn saved) := by
  have hgrows : Grows w (w.handlePeerInfo sha c conn saved) :=
    ⟨List.Subset.refl w.salts, List.subset_cons_self saved w.stored⟩
  have hpassword := remembered_grows sha w _ hgrows _ hinv.password
  refine inv_of_put sha w _ c _ hinv hgrows rfl ?_ ?_ hpassword ?_
  · exact fun d _ hturn => ⟨hturn, rfl, rfl, rfl⟩
  · exact connOk_quiet sha w _ hgrows c conn _ (hinv.conns c conn hconn) (Or.inr rfl)
  · exact remembered_rememberPassword sha _ w.lc saved List.mem_cons_self hpassword

theorem inv_answerHash (hash : Hash) (settings : Settings) (hinv : Inv sha w)
    (hconn : w.conns c = some conn) (hmem : hash ∈ conn.received) (hturn : w.turn = some c)
    (hfilled : Filled w.lc conn.mapping hash) :
    Inv sha (w.answerHash sha c conn hash settings) := by
  have hown := hinv.conns c conn hconn
  unfold Window.answerHash
  split
  · exact inv_end sha w c conn hinv hconn
  · have hgrows : Grows w { w with stored := settings.personalAb.toList ++ w.stored } :=
      ⟨List.Subset.refl w.salts, List.subset_append_right _ w.stored⟩
    have hchoice := choice_choosePassword sha
      { w with stored := settings.personalAb.toList ++ w.stored } hash w.lc settings
      conn.mapping.password
      (fun password hsome => List.mem_append_left _ (Option.mem_toList.mpr hsome))
      (remembered_grows sha w _ hgrows _ hinv.password)
      (remembered_grows sha w _ hgrows _ hinv.config)
    have hkept := remembered_of_choice sha
      { w with stored := settings.personalAb.toList ++ w.stored } hash w.lc _
      (hown.salts hash hmem) hchoice
    have hanswer := answers_answerChallenge sha _ hash w.lc _ hchoice
    refine inv_of_put sha w _ c _ hinv hgrows rfl ?_ ?_ hkept ?_
    · intro d hd hother
      rw [hturn] at hother
      exact absurd (Option.some.inj hother).symm hd
    · refine connOk_task sha w _ ?_ c conn _ hown ?_ ?_ ?_
      · exact hgrows
      · intro job htask
        simp at htask
      · intro h hheld
        rw [← Option.some.inj hheld]
        exact ⟨hmem, hturn, filled_same _ _ _ _ hchoice.same hfilled⟩
      · intro job password htask
        obtain ⟨rfl, rfl⟩ := Task.sending.inj htask
        exact hanswer
    · change Remembered sha _ (choosePassword sha settings conn.mapping.password hash
        w.lc).2.configPassword
      rw [hchoice.config]
      exact remembered_grows sha w _ hgrows _ hinv.config

def fill (lc : LoginConfigHandler) (mapping : Mapping) (hash : Hash) : LoginConfigHandler :=
  { lc with
    portForward := (mapping.remoteHost, mapping.remotePort)
    portForwardMultiplex := mapping.mux
    hash := hash }

theorem filled_fill (mapping : Mapping) (hash : Hash) :
    Filled (fill lc mapping hash) mapping hash := ⟨rfl, rfl, rfl⟩

/-- While nobody has the turn, nobody relies on the target. -/
theorem inv_fill (hash : Hash) (hinv : Inv sha w) (hfree : w.turn = none) :
    Inv sha { w with lc := fill w.lc conn.mapping hash, turn := some c } := by
  refine ⟨?_, hinv.password, hinv.config⟩
  intro d other hother
  refine connOk_other sha w _ ?_ d other ?_ (hinv.conns d other hother)
  · exact grows_refl w
  · intro hturn
    simp [hfree] at hturn

theorem inv_takeTurn_hash (hash : Hash) (settings : Settings) (hinv : Inv sha w)
    (hconn : w.conns c = some conn) (hmem : hash ∈ conn.received) (hfree : w.turn = none) :
    Inv sha (w.takeTurn sha c conn (.hash hash) settings) := by
  have hfill := inv_fill sha w c conn hash hinv hfree
  have hfilled := filled_fill w.lc conn.mapping hash
  simp only [Window.takeTurn, Job.own]
  split
  · -- A switch of sides is asked for first, with the target already written.
    refine inv_of_put sha _ _ c _ hfill ?_ rfl ?_ ?_ hinv.password hinv.config
    · exact grows_refl w
    · intro d hd hother
      exact absurd (Option.some.inj hother).symm hd
    · refine connOk_task sha _ _ ?_ c conn _ (hfill.conns c conn hconn) ?_ ?_ ?_
      · exact grows_refl w
      · intro job htask
        simp at htask
      · intro h hheld
        rw [← Option.some.inj hheld]
        exact ⟨hmem, rfl, hfilled.target, hfilled.multiplex, hfilled.hash⟩
      · intro job password htask
        simp at htask
  · exact inv_answerHash sha _ c conn hash settings hfill hconn hmem rfl hfilled

theorem answers_typed (hash : Hash) (typed : Bytes) (remember : Bool) (lc : LoginConfigHandler)
    (hhash : lc.hash = hash) (hpassword : Remembered sha w lc.password)
    (hconfig : Remembered sha w lc.configPassword) :
    Answers sha w (.ui hash typed remember)
      (sha ((typedPassword sha typed remember lc).1 ++
        (typedPassword sha typed remember lc).2.hash.challenge)) := by
  have hkept := (typedPassword_same sha lc typed remember).2.2.trans hhash
  refine ⟨(typedPassword sha typed remember lc).1, by rw [hkept], ?_, ?_⟩
  · intro htyped
    rw [typedPassword_fresh sha lc typed remember htyped, hhash]
  · rintro rfl
    exact typedPassword_empty sha w lc remember hpassword hconfig

theorem remembered_typed (typed : Bytes) (remember : Bool) (lc : LoginConfigHandler)
    (hsalt : lc.hash.salt ∈ w.salts) (hpassword : Remembered sha w lc.password)
    (hconfig : Remembered sha w lc.configPassword) :
    Remembered sha w (typedPassword sha typed remember lc).2.password := by
  rw [typedPassword_password]
  by_cases htyped : typed = []
  · rw [htyped]
    exact typedPassword_empty sha w lc remember hpassword hconfig
  · rw [typedPassword_fresh sha lc typed remember htyped]
    exact Or.inr (Or.inr ⟨typed, lc.hash.salt, hsalt, rfl⟩)

theorem inv_takeTurn_ui (hash : Hash) (typed : Bytes) (remember : Bool) (settings : Settings)
    (hinv : Inv sha w) (hconn : w.conns c = some conn) (hmem : hash ∈ conn.received)
    (hfree : w.turn = none) :
    Inv sha (w.takeTurn sha c conn (.ui hash typed remember) settings) := by
  have hfill := inv_fill sha w c conn hash hinv hfree
  have hown := hfill.conns c conn hconn
  have hsame := typedPassword_same sha (fill w.lc conn.mapping hash) typed remember
  have hfilled := filled_same _ _ _ _ hsame (filled_fill w.lc conn.mapping hash)
  refine inv_of_put sha _ _ c _ hfill ?_ rfl ?_ ?_ ?_ ?_
  · exact grows_refl w
  · intro d hd hother
    exact absurd (Option.some.inj hother).symm hd
  · refine connOk_task sha _ _ ?_ c conn _ hown ?_ ?_ ?_
    · exact grows_refl w
    · intro job htask
      simp at htask
    · intro h hheld
      rw [← Option.some.inj hheld]
      exact ⟨hmem, rfl, hfilled⟩
    · intro job password htask
      obtain ⟨rfl, rfl⟩ := Task.sending.inj htask
      exact answers_typed sha w hash typed remember (fill w.lc conn.mapping hash) rfl
        hinv.password hinv.config
  · exact remembered_typed sha w typed remember (fill w.lc conn.mapping hash)
      (hown.salts hash hmem) hinv.password hinv.config
  · have hconfig := typedPassword_config sha (fill w.lc conn.mapping hash) typed remember
    exact hconfig ▸ hinv.config

theorem inv_switchAnswer (hash : Hash) (trusted : Bool) (settings : Settings) (hinv : Inv sha w)
    (hconn : w.conns c = some conn) (htask : conn.task = .switching hash) :
    Inv sha (w.switchAnswer sha c conn hash trusted settings) := by
  have hown := hinv.conns c conn hconn
  have hheld : conn.task.held = some hash := by rw [htask]; rfl
  unfold Window.switchAnswer
  split
  · refine inv_of_put sha w _ c _ hinv ?_ rfl ?_ ?_ hinv.password hinv.config
    · exact grows_refl w
    · exact fun d _ hturn => ⟨hturn, rfl, rfl, rfl⟩
    · refine connOk_task sha w _ ?_ c conn _ hown ?_ ?_ ?_
      · exact grows_refl w
      · intro job hnew
        simp at hnew
      · intro h hnew
        rw [← Option.some.inj hnew]
        exact ⟨hown.received hash hheld, hown.turn hash hheld, hown.filled hash hheld⟩
      · intro job password hnew
        obtain ⟨rfl, rfl⟩ := Task.sending.inj hnew
        exact rfl
  · exact inv_answerHash sha w c conn hash settings hinv hconn (hown.received hash hheld)
      (hown.turn hash hheld) (hown.filled hash hheld)

theorem own_createLoginMsg (hok : ConnOk sha w c conn) (htask : conn.task = .sending job password) :
    Own sha w conn job (createLoginMsg w.lc password) := by
  have hheld : conn.task.held = some job.own := by rw [htask]; rfl
  have hfilled := hok.filled job.own hheld
  exact
    { host := by simp [createLoginMsg, hfilled.target]
      port := by simp [createLoginMsg, hfilled.target]
      multiplex := hfilled.multiplex
      received := hok.received job.own hheld
      signed := by simp [createLoginMsg, hfilled.hash]
      answers := hok.sending job password htask }

theorem inv_send (hinv : Inv sha w) (hconn : w.conns c = some conn)
    (htask : conn.task = .sending job password) : Inv sha (w.send c conn job password) := by
  have hok := hinv.conns c conn hconn
  have hheld : conn.task.held = some job.own := by rw [htask]; rfl
  refine inv_of_put sha w _ c _ hinv ?_ rfl ?_ ?_ hinv.password hinv.config
  · exact grows_refl w
  · exact fun d _ hturn => ⟨hturn, rfl, rfl, rfl⟩
  · exact
      { challenge := hok.challenge
        waiting := fun job' hnew => by simp at hnew
        salts := hok.salts
        received := fun h hnew => hok.received h (hheld.trans hnew)
        turn := fun h hnew => hok.turn h (hheld.trans hnew)
        filled := fun h hnew => hok.filled h (hheld.trans hnew)
        sending := fun job' password' hnew => by simp at hnew
        sent := fun job' request hmem => by
          rcases List.mem_append.mp hmem with hold | hlast
          · exact { hok.sent job' request hold with }
          · obtain ⟨rfl, rfl⟩ := Prod.mk.inj (List.mem_singleton.mp hlast)
            exact { own_createLoginMsg sha w c conn job' password hok htask with } }

theorem inv_finish (hinv : Inv sha w) (hconn : w.conns c = some conn)
    (htask : conn.task = .sent job) : Inv sha (w.finish c conn job) := by
  have hok := hinv.conns c conn hconn
  have hturn : w.turn = some c := hok.turn job.own (by rw [htask]; rfl)
  have hquiet : ∀ v, Grows w v → ConnOk sha v c { conn with task := .reading } :=
    fun v hgrows => connOk_quiet sha w v hgrows c conn _ hok (Or.inl rfl)
  have hkeep : ∀ v : Window, ∀ d, d ≠ c → w.turn = some d →
      v.turn = some d ∧ SameTarget w.lc v.lc := by
    intro v d hd hother
    rw [hturn] at hother
    exact absurd (Option.some.inj hother).symm hd
  cases job with
  | hash hash =>
    exact inv_of_put sha w _ c _ hinv (grows_refl w) rfl (hkeep _) (hquiet _ (grows_refl w))
      hinv.password hinv.config
  | switchSides hash =>
    exact inv_of_put sha w _ c _ hinv (grows_refl w) rfl (hkeep _) (hquiet _ (grows_refl w))
      hinv.password hinv.config
  | ui hash typed remember =>
    exact inv_of_put sha w _ c _ hinv (grows_refl w) rfl (hkeep _) (hquiet _ (grows_refl w))
      hinv.password hinv.config

theorem inv_takeTurn (settings : Settings) (hinv : Inv sha w)
    (hconn : w.conns c = some conn) (htask : conn.task = .waiting job) (hfree : w.turn = none) :
    Inv sha (w.takeTurn sha c conn job settings) := by
  have hmem := (hinv.conns c conn hconn).waiting job htask
  cases job with
  | hash hash => exact inv_takeTurn_hash sha w c conn hash settings hinv hconn hmem hfree
  | switchSides hash => exact inv_takeTurn_hash sha w c conn hash settings hinv hconn hmem hfree
  | ui hash typed remember =>
    exact inv_takeTurn_ui sha w c conn hash typed remember settings hinv hconn hmem hfree

end Steps

theorem inv_step (sha : Bytes → Bytes) (w v : Window) (e : Event) (hinv : Inv sha w)
    (hstep : step sha w e = some v) : Inv sha v := by
  cases e with
  | connect c mapping =>
    obtain ⟨-, heq⟩ := Option.ite_none_right_eq_some.mp hstep
    exact Option.some.inj heq ▸ inv_connect sha w c mapping hinv
  | hash c hash =>
    obtain ⟨conn, hconn, hrest⟩ := Option.bind_eq_some_iff.mp hstep
    obtain ⟨-, heq⟩ := Option.ite_none_right_eq_some.mp hrest
    exact Option.some.inj heq ▸ inv_hashArrived sha w c conn hash hinv hconn
  | login c password remember =>
    obtain ⟨conn, hconn, hrest⟩ := Option.bind_eq_some_iff.mp hstep
    obtain ⟨-, heq⟩ := Option.ite_none_right_eq_some.mp hrest
    exact Option.some.inj heq ▸ inv_login sha w c conn password remember hinv hconn
  | loginError c err =>
    obtain ⟨conn, hconn, hrest⟩ := Option.bind_eq_some_iff.mp hstep
    obtain ⟨-, heq⟩ := Option.ite_none_right_eq_some.mp hrest
    exact Option.some.inj heq ▸ inv_handleLoginError sha w c conn err hinv hconn
  | peerInfo c saved =>
    obtain ⟨conn, hconn, hrest⟩ := Option.bind_eq_some_iff.mp hstep
    obtain ⟨-, heq⟩ := Option.ite_none_right_eq_some.mp hrest
    exact Option.some.inj heq ▸ inv_handlePeerInfo sha w c conn saved hinv hconn
  | takeTurn c settings =>
    obtain ⟨conn, hconn, hrest⟩ := Option.bind_eq_some_iff.mp hstep
    cases htask : conn.task with
    | waiting job =>
      rw [htask] at hrest
      obtain ⟨hfree, heq⟩ := Option.ite_none_right_eq_some.mp hrest
      exact Option.some.inj heq ▸ inv_takeTurn sha w c conn job settings hinv hconn htask hfree
    | _ => simp [htask] at hrest
  | switchAnswer c trusted settings =>
    obtain ⟨conn, hconn, hrest⟩ := Option.bind_eq_some_iff.mp hstep
    cases htask : conn.task with
    | switching hash =>
      rw [htask] at hrest
      exact Option.some.inj hrest ▸
        inv_switchAnswer sha w c conn hash trusted settings hinv hconn htask
    | _ => simp [htask] at hrest
  | send c =>
    obtain ⟨conn, hconn, hrest⟩ := Option.bind_eq_some_iff.mp hstep
    cases htask : conn.task with
    | sending job password =>
      rw [htask] at hrest
      exact Option.some.inj hrest ▸ inv_send sha w c conn job password hinv hconn htask
    | _ => simp [htask] at hrest
  | finish c =>
    obtain ⟨conn, hconn, hrest⟩ := Option.bind_eq_some_iff.mp hstep
    cases htask : conn.task with
    | sent job =>
      rw [htask] at hrest
      exact Option.some.inj hrest ▸ inv_finish sha w c conn job hinv hconn htask
    | _ => simp [htask] at hrest
  | close c =>
    obtain ⟨conn, hconn, hrest⟩ := Option.bind_eq_some_iff.mp hstep
    obtain ⟨-, heq⟩ := Option.ite_none_left_eq_some.mp hrest
    exact Option.some.inj heq ▸ inv_end sha w c conn hinv hconn

/-- Whatever the mappings of a window do to the handler they share, a login carries the target of
the connection it is sent on and answers a hash of that connection. -/
theorem logins_do_not_mix (sha : Bytes → Bytes) (lc : LoginConfigHandler) (es : List Event)
    (w : Window) (hexec : Runs.exec (step sha) (start lc) es = some w) (c : ℕ) (conn : Conn)
    (hconn : w.conns c = some conn) (job : Job) (request : LoginRequest)
    (hsent : (job, request) ∈ conn.sent) : Own sha w conn job request := by
  have hinv : Inv sha w := Runs.invariant_of_exec (step sha) (Inv sha)
    (fun v e u => inv_step sha v u e) (start lc) w es (inv_start sha lc) hexec
  exact (hinv.conns c conn hconn).sent job request hsent

def mark (bytes : Bytes) : Bytes := 35 :: bytes

def freshHandler : LoginConfigHandler :=
  ⟨("", 0), false, ⟨[], []⟩, [], .undefined, none, none, false, []⟩

def plain : Settings := ⟨false, none, []⟩

/-- The password is typed after the first connection has asked for it; the hash of the second
connection, with another salt, comes later and is answered with the password then at hand. -/
def twoSalts : List Event :=
  [.connect 0 ⟨"a", 1, false, []⟩, .connect 1 ⟨"b", 2, true, []⟩,
    .hash 0 ⟨[1], [7]⟩, .takeTurn 0 plain, .send 0, .finish 0, .loginError 0 .passwordEmpty,
    .login 0 [112] false, .takeTurn 0 plain, .send 0, .finish 0,
    .hash 1 ⟨[2], [9]⟩, .takeTurn 1 plain, .send 1]

theorem twoSalts_conns : (Runs.exec (step mark) (start freshHandler) twoSalts).map
      (fun w => (w.conns 0, w.conns 1)) =
    some (some ⟨⟨"a", 1, false, []⟩, some ⟨[1], [7]⟩, none, .reading, [⟨[1], [7]⟩],
        [(.hash ⟨[1], [7]⟩, ⟨"a", 1, false, [], [7]⟩),
          (.ui ⟨[1], [7]⟩ [112] false, ⟨"a", 1, false, [35, 35, 112, 1, 7], [7]⟩)]⟩,
      some ⟨⟨"b", 2, true, []⟩, some ⟨[2], [9]⟩, none, .sent (.hash ⟨[2], [9]⟩), [⟨[2], [9]⟩],
        [(.hash ⟨[2], [9]⟩, ⟨"b", 2, true, [35, 35, 112, 1, 9], [9]⟩)]⟩) := by
  decide

theorem twoSalts_run : ∃ w, Runs.exec (step mark) (start freshHandler) twoSalts = some w ∧
    (∃ conn, w.conns 0 = some conn ∧
      conn.sent = [(.hash ⟨[1], [7]⟩, ⟨"a", 1, false, [], [7]⟩),
        (.ui ⟨[1], [7]⟩ [112] false, ⟨"a", 1, false, [35, 35, 112, 1, 7], [7]⟩)]) ∧
    ∃ conn, w.conns 1 = some conn ∧ conn.received = [⟨[2], [9]⟩] ∧
      conn.sent = [(.hash ⟨[2], [9]⟩, ⟨"b", 2, true, [35, 35, 112, 1, 9], [9]⟩)] := by
  obtain ⟨w, hexec, hconns⟩ := Option.map_eq_some_iff.mp twoSalts_conns
  obtain ⟨hfirst, hsecond⟩ := Prod.mk.inj hconns
  exact ⟨w, hexec, ⟨_, hfirst, rfl⟩, _, hsecond, rfl, rfl⟩

theorem logins_do_not_mix_twoSalts :
    ∃ w conn job request, Runs.exec (step mark) (start freshHandler) twoSalts = some w ∧
      w.conns 1 = some conn ∧ (job, request) ∈ conn.sent ∧ Own mark w conn job request := by
  obtain ⟨w, hexec, -, conn, hconn, -, hsent⟩ := twoSalts_run
  have hmem : (Job.hash ⟨[2], [9]⟩, ⟨"b", 2, true, [35, 35, 112, 1, 9], [9]⟩) ∈ conn.sent := by
    rw [hsent]
    exact List.mem_singleton_self _
  exact ⟨w, conn, _, _, hexec, hconn, hmem,
    logins_do_not_mix mark freshHandler twoSalts w hexec 1 conn hconn _ _ hmem⟩

def ForOwnHash (sha : Bytes → Bytes) (conn : Conn) (request : LoginRequest) : Prop :=
  ∃ h ∈ conn.received, ∃ text, request.password = sha (sha (text ++ h.salt) ++ h.challenge)

/-- The first login of one connection has no password, and the login of the other one answers its
own challenge with a password salted for the first. -/
theorem password_at_hand_not_salted_again :
    ∃ w first second, Runs.exec (step mark) (start freshHandler) twoSalts = some w ∧
      w.conns 0 = some first ∧ w.conns 1 = some second ∧
      (∃ sent ∈ first.sent, sent.2.password = [] ∧ ¬ ForOwnHash mark first sent.2) ∧
      ∃ sent ∈ second.sent, ¬ ForOwnHash mark second sent.2 := by
  obtain ⟨w, hexec, ⟨first, hfirst, hsent⟩, second, hsecond, hreceived', hsent'⟩ := twoSalts_run
  refine ⟨w, first, second, hexec, hfirst, hsecond, ?_, ?_⟩
  · rw [hsent]
    refine ⟨_, List.mem_cons_self, rfl, ?_⟩
    rintro ⟨h, hmem, text, heq⟩
    simp [mark] at heq
  · rw [hsent']
    refine ⟨_, List.mem_cons_self, ?_⟩
    rintro ⟨h, hmem, text, heq⟩
    rw [hreceived'] at hmem
    rw [List.mem_singleton.mp hmem] at heq
    -- Both sides end with the challenge; before it stand two different salts.
    have hbytes : [112, 1] ++ [9] = (text ++ [2]) ++ [9] := by
      simpa [mark] using heq
    have hsalted : [112] ++ [1] = text ++ [2] := (List.append_inj' hbytes rfl).1
    have hsalt : ([1] : Bytes) = [2] := (List.append_inj' hsalted rfl).2
    exact absurd hsalt (by decide)

end ClantoDesk.ForwardLogins
