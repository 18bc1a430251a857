import ClantoDesk.Connection

/-!
Password and confirmation. A grant and the policy of the tenant each may ask for the
password of the host and for the consent of the user at it, and the host asks for what
either of them wants. The password branch of a login forgets the confirmation, and the
click forgets the password.
-/
namespace ClantoDesk.AccessRequirements

open Connection
open SessionGrant (GrantInfo evaluate requirements_confirm evaluateGrant_ne_unmanaged sampleHost
  sampleGrant sampleInfo)

def NeedsMet (a : Account) : Prop :=
  (a.needs.password = true → a.passwordShown = true) ∧
    (a.needs.confirm = true → a.confirmed = true)

/-- The connection is only authorised when the needs are met, and waits for the second factor
only when the password is settled. -/
structure Heeded (c : Conn) : Prop where
  admitted : c.authorized = true → ∃ a, c.admission = some a ∧ NeedsMet a
  factor : c.closed = false → c.authorized = false → c.awaiting2fa = true →
    c.needs.password = true → c.passwordShown = true

/-- No step takes a branch that forgets one of two needs: a login that needs both is not yet
complete with its password, a code completes no login that needs an outstanding confirmation, a
click no login that needs an outstanding password, and a switch of sides asks for
neither. -/
def NothingForgotten (lib : Libraries) (c : Conn) : Event → Prop
  | .login env lr =>
    (needsOf lib env lr).password = true → (needsOf lib env lr).confirm = true →
      c.confirmed = false → passwordAccepted env lr →
      ¬ secondFactorDone env (takeLogin lib env lr c)
  | .auth2fa env =>
    c.authorized = false → c.awaiting2fa = true → env.tfaBudget = none →
      env.codeValid = some true → c.needs.confirm = true → c.confirmed = true
  | .authorize _ =>
    c.authorized = false → c.needs.password = true → c.passwordShown = true
  | .switchSidesResponse env lr =>
    c.authorized = false → switchAccepted env lr c →
      ((needsOf lib env lr).password = true → c.passwordShown = true) ∧
        ((needsOf lib env lr).confirm = true → c.confirmed = true)
  | _ => True

theorem needsOf_confirm_of_none (lib : Libraries) (env : Env) (lr : LoginRequest)
    (h : clantoCheckGrant lib env lr = .ok none) : (needsOf lib env lr).confirm = false := by
  unfold needsOf
  cases henrolled : env.host.enrolled with
  | none => rfl
  | some e =>
    simp only [h]
    apply requirements_confirm
    unfold clantoCheckGrant at h
    cases hdecision : (evaluate lib.codec env.host lr.clantoGrant env.times).1 with
    | grant info =>
      rw [hdecision] at h
      cases h
    | refuse code message sessionId nonce =>
      rw [hdecision] at h
      cases h
    | unmanaged =>
      unfold evaluate at hdecision
      simp only [henrolled] at hdecision
      split at hdecision
      · cases hdecision
      · split at hdecision
        · split at hdecision
          · cases hdecision
          · rename_i haccount
            simpa using haccount
        · exact absurd hdecision (evaluateGrant_ne_unmanaged _ _ _ _ _ _)

theorem needsOf_of_some (lib : Libraries) (env : Env) (lr : LoginRequest) (g : GrantInfo)
    (h : clantoCheckGrant lib env lr = .ok (some g)) : needsOf lib env lr = g.needs := by
  unfold needsOf
  cases henrolled : env.host.enrolled with
  | some e => simp only [h]
  | none =>
    simp [clantoCheckGrant, evaluate, henrolled] at h

theorem heeded_start (require2fa : Bool) : Heeded (start require2fa) := by
  refine ⟨?_, ?_⟩
  · intro hfalse
    cases hfalse
  · intro _ _ hfalse
    cases hfalse

/-- An attempt to authorise a login that either is completed with its needs met or asks for the
second factor with its password settled. -/
theorem heeded_of_answered {env : Env} {c r : Conn} (h : Answered env c r)
    (hmet : r.authorized = true → NeedsMet c.account)
    (hpassword : ¬ secondFactorDone env c → c.needs.password = true → c.passwordShown = true) :
    Heeded r := by
  refine ⟨?_, ?_⟩
  · intro hauth
    exact ⟨c.account, h.admission hauth, hmet hauth⟩
  · intro hopen hnew _ hneeds
    rw [h.same.passwordShown]
    rw [h.same.needs] at hneeds
    exact hpassword (h.asks hopen hnew) hneeds

theorem heeded_of_access {lib : Libraries} {env : Env} {lr : LoginRequest}
    {grant : Option GrantInfo} {c k r : Conn} (hguard : NothingForgotten lib c (.login env lr))
    (hgrant : clantoCheckGrant lib env lr = .ok grant)
    (hkind : KindPassed env (entered lib env lr grant c) k) (h : Access env k r) : Heeded r := by
  have hneeds : k.needs = needsOf lib env lr := congrArg Account.needs hkind.account
  have hclanto : k.clantoGrant = grant := congrArg Account.grant hkind.account
  have hconfirmed : k.confirmed = c.confirmed := congrArg Account.confirmed hkind.account
  have hawaiting : k.awaiting2fa = false := hkind.awaiting2fa
  have hlr : k.lr = lr := hkind.lr
  cases h with
  | waits h =>
    refine ⟨?_, ?_⟩
    · intro hauth
      rw [h.authorized] at hauth
      cases hauth
    · intro hopen _ htrue
      rw [h.awaiting2fa hopen, hawaiting] at htrue
      cases htrue
  | byGrant g hg hpassword hconfirm h =>
    rw [hclanto.symm.trans hg] at hgrant
    have heq : k.needs = g.needs := hneeds.trans (needsOf_of_some lib env lr g hgrant)
    refine heeded_of_answered h ?_ ?_
    · intro _
      refine ⟨?_, ?_⟩
      · intro hfalse
        have hfalse' : k.needs.password = true := hfalse
        rw [heq, hpassword] at hfalse'
        cases hfalse'
      · intro hfalse
        have hfalse' : k.needs.confirm = true := hfalse
        rw [heq, hconfirm] at hfalse'
        cases hfalse'
    · intro _ hfalse
      rw [heq, hpassword] at hfalse
      cases hfalse
  | byPassword hboth hpassword h =>
    refine heeded_of_answered h ?_ (fun _ _ => rfl)
    intro hauth
    refine ⟨fun _ => rfl, ?_⟩
    intro hconfirm
    have hconfirm' : k.needs.confirm = true := hconfirm
    rw [hneeds] at hconfirm'
    -- a grant is in force, and it needs the password too
    have hrequired : (needsOf lib env lr).password = true := by
      cases grant with
      | none =>
        rw [needsOf_confirm_of_none lib env lr hgrant] at hconfirm'
        cases hconfirm'
      | some g =>
        rw [needsOf_of_some lib env lr g hgrant]
        exact hboth g hclanto
    show k.confirmed = true
    rw [hconfirmed]
    by_contra hne
    have hfalse : c.confirmed = false := by simpa using hne
    rw [hlr] at hpassword
    refine hguard hrequired hconfirm' hfalse hpassword ?_
    have hdone := h.secondFactor hauth
    have hrecent : recentTfa env (showPassword k) = recentTfa env (takeLogin lib env lr c) := by
      show (!k.lr.password.isEmpty && env.sessionTfa) = (!lr.password.isEmpty && env.sessionTfa)
      rw [hlr]
    rcases hdone with hrequire | htfa | hswitch
    · exact Or.inl (hkind.require2fa.symm.trans hrequire)
    · exact Or.inr (Or.inl (hrecent.symm.trans htfa))
    · exact Or.inr (Or.inr (hkind.fromSwitch.symm.trans hswitch))

theorem heeded_step (lib : Libraries) (c r : Conn) (event : Event)
    (hguard : NothingForgotten lib c event) (hbase : Unforwarded c) (h : Heeded c)
    (hstep : step lib c event = some r) : Heeded r := by
  obtain ⟨hopen, houtcome⟩ := step_outcome lib c r event hbase hstep
  cases houtcome with
  | quiet event r hquiet =>
    have hneeds : r.needs = c.needs := congrArg Account.needs hquiet.account
    have hshown : r.passwordShown = c.passwordShown := congrArg Account.passwordShown hquiet.account
    refine ⟨?_, ?_⟩
    · rw [hquiet.authorized, hquiet.admission]
      exact h.admitted
    · rw [hquiet.authorized, hquiet.awaiting2fa, hneeds, hshown]
      exact fun _ => h.factor hopen
  | ended event r hclosed hauth hserved =>
    refine ⟨?_, ?_⟩
    · intro htrue
      obtain ⟨hbefore, hadmission, -⟩ := hauth htrue
      rw [hadmission]
      exact h.admitted hbefore
    · intro hfalse
      rw [hclosed] at hfalse
      cases hfalse
  | stays event r hstays =>
    refine ⟨?_, ?_⟩
    · rw [hstays.admission]
      exact fun _ => h.admitted hstays.before
    · intro _ hnew
      rw [hstays.authorized] at hnew
      cases hnew
  | login env lr grant k r hnew hgates hgrant hkind haccess =>
    exact heeded_of_access hguard hgrant hkind haccess
  | auth2fa env r hnew hawaiting hbudget hcode hanswered =>
    refine heeded_of_answered hanswered ?_ ?_
    · intro _
      exact ⟨h.factor hopen hnew hawaiting, hguard hnew hawaiting hbudget hcode⟩
    · intro hmissing
      exact absurd (Or.inl rfl) hmissing
  | click env r hnew htold hanswered =>
    refine heeded_of_answered hanswered ?_ ?_
    · intro _
      exact ⟨hguard hnew, fun _ => rfl⟩
    · intro hmissing
      exact absurd (Or.inl rfl) hmissing
  | switch env lr r hnew haccepted hanswered =>
    refine heeded_of_answered hanswered ?_ ?_
    · intro _
      exact hguard hnew haccepted
    · intro hmissing
      exact absurd (Or.inr (Or.inr rfl)) hmissing
  | serves env hauth hmux hallowed =>
    refine ⟨h.admitted, ?_⟩
    intro _ hnew
    rw [hauth] at hnew
    cases hnew

/-- In a run in which no step forgets one of two needs, the connection is only authorised
after a valid password, where that is asked for, and after the click of the user, where that is
asked for. -/
theorem authorized_needs_met (lib : Libraries) (require2fa : Bool) (events : List Event)
    (c : Conn) (hmeets : Runs.Meets (NothingForgotten lib) (step lib) (start require2fa) events)
    (hexec : Runs.exec (step lib) (start require2fa) events = some c)
    (hauth : c.authorized = true) :
    ∃ a, c.admission = some a ∧ (a.needs.password = true → a.passwordShown = true) ∧
      (a.needs.confirm = true → a.confirmed = true) := by
  have hinv : Unforwarded c ∧ Heeded c :=
    Runs.invariant_of_meets (NothingForgotten lib) (step lib) (fun c => Unforwarded c ∧ Heeded c)
      (fun a event b hguard ha hstep =>
        ⟨unforwarded_step lib a b event ha.1 hstep,
          heeded_step lib a b event hguard ha.1 ha.2 hstep⟩)
      (start require2fa) c events ⟨unforwarded_start require2fa, heeded_start require2fa⟩
      hmeets hexec
  exact hinv.2.admitted hauth

theorem needsOf_sample (kind : Kind) (password : List UInt8) :
    needsOf sampleLib (sampleEnv (sampleHost [])) (sampleLogin kind password sampleGrant) =
      ⟨true, true, true⟩ :=
  needsOf_of_some _ _ _ _ (clantoCheckGrant_sample kind password)

/-- The password is accepted while the second factor is outstanding, and then the user at the
host clicks. -/
def bothRun : List Event :=
  [.login (sampleEnv (sampleHost [])) (sampleLogin .remote [1] sampleGrant),
    .authorize (sampleEnv (sampleHost []))]

theorem bothRun_end :
    Runs.exec (step sampleLib) (start true) bothRun =
      some (onAuthorize (sampleEnv (sampleHost [])) (sampleEnd true .remote)) := by
  refine (Runs.exec_cons _ _ _ _ _).mpr ⟨_, step_sample true .remote, ?_⟩
  rfl

theorem authorized_needs_met_sample :
    ∃ c, Runs.exec (step sampleLib) (start true) bothRun = some c ∧ c.authorized = true ∧
      ∃ a, c.admission = some a ∧ (a.needs.password = true → a.passwordShown = true) ∧
        (a.needs.confirm = true → a.confirmed = true) := by
  refine ⟨_, bothRun_end, rfl,
    authorized_needs_met sampleLib true bothRun _ ?_ bothRun_end rfl⟩
  refine ⟨?_, ?_⟩
  · intro _ _ _ _ hdone
    rcases hdone with hfalse | hfalse | hfalse <;> cases hfalse
  · intro t ht
    obtain rfl := Option.some.inj ((step_sample true .remote).symm.trans ht)
    exact ⟨fun _ _ => rfl, fun _ _ => trivial⟩

/-- Without a second factor the password alone authorises a login that needs the confirmation
too. -/
theorem password_without_confirmation :
    ∃ c, Runs.exec (step sampleLib) (start false)
        [.login (sampleEnv (sampleHost [])) (sampleLogin .remote [1] sampleGrant)] = some c ∧
      c.authorized = true ∧
      ∃ a, c.admission = some a ∧ a.needs.password = true ∧ a.needs.confirm = true ∧
        a.confirmed = false := by
  have hend : Runs.exec (step sampleLib) (start false)
      [.login (sampleEnv (sampleHost [])) (sampleLogin .remote [1] sampleGrant)] =
      some (sampleEnd false .remote) :=
    (Runs.exec_cons _ _ _ _ _).mpr ⟨_, step_sample false .remote, rfl⟩
  have hneeds := needsOf_sample .remote [1]
  refine ⟨_, hend, rfl, _, rfl, ?_, ?_, rfl⟩
  · show (needsOf _ _ _).password = true
    rw [hneeds]
  · show (needsOf _ _ _).confirm = true
    rw [hneeds]

end ClantoDesk.AccessRequirements
