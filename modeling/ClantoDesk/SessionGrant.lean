import ClantoDesk.Runs
import ClantoDesk.TenantKeys
import ClantoDesk.Text

/-!
Session grants on the host, src/clanto/session_grant.rs. A login carries a grant
signed by the tenant; the host checks signature, device, validity and
revocation and then uses the grant up by remembering its nonce. Remembered
nonces are dropped once their time has passed, so single use rests on the
expiry check refusing every grant whose nonce may be gone. The reads of the clock
during one call are separate inputs.
-/
namespace ClantoDesk.SessionGrant

open TenantKeys

def clockSkewSecs : Int64 := 120

def msgGrantRequired : String := "clanto_grant_required"
def msgGrantInvalid : String := "clanto_grant_invalid"
def msgSessionsBlocked : String := "clanto_sessions_blocked"

structure Requirements where
  account : Bool
  password : Bool
  confirm : Bool
  deriving DecidableEq, Repr

def requirements (accessMode : String) : Requirements :=
  if accessMode = "account_password" ∨ accessMode = "account_2fa_password" then ⟨true, true, false⟩
  else if accessMode = "account_2fa" then ⟨true, false, false⟩
  else if accessMode = "account_2fa_confirm" then ⟨true, false, true⟩
  else ⟨false, true, false⟩

structure GrantInfo where
  sessionId : String
  userId : String
  username : String
  nonce : String
  permissions : List String
  maxDurationS : UInt64
  needs : Requirements
  deriving DecidableEq

def GrantInfo.allows (self : GrantInfo) (permission : String) : Bool :=
  self.permissions.isEmpty || self.permissions.any fun p => p == permission

inductive Decision
  | unmanaged
  | refuse (code message sessionId nonce : String)
  | grant (info : GrantInfo)

structure Constraints where
  maxDurationS : UInt64
  permissions : List String
  notBefore : Int64
  expiresAt : Int64

structure GrantPayload where
  kind : String
  kid : Option String
  tenantId : String
  deviceId : String
  sessionId : String
  userId : String
  username : String
  requires : List String
  constraints : Constraints
  nonce : String

/-- The libraries behind a login: signatures and the two JSON parsers. -/
structure Codec extends Crypto where
  parseSigned : String → Option Signed
  parsePayload : Bytes → Option GrantPayload

/-- What a login reads on the host. `seen` holds the nonces of used grants. -/
structure Host where
  enrolled : Option Enrollment
  accessMode : String
  sessionsBlocked : Bool
  keysFile : Option Store
  keys : Option Store
  seen : List (String × Int64)

/-- The clock in milliseconds at each place where one call reads it. -/
structure Times where
  verifyMs : Int64
  kidMs : Int64
  nowMs : Int64
  revokedMs : Int64
  deriving DecidableEq

def secs (ms : Int64) : Int64 := ms / 1000

def markSeen (seen : List (String × Int64)) (nonce : String) (expiresAt now : Int64) :
    Bool × List (String × Int64) :=
  let seen := seen.filter fun e => decide (now < e.2)
  if seen.any (fun e => e.1 == nonce) then (false, seen)
  else (true, seen ++ [(nonce, expiresAt + clockSkewSecs)])

def checkPayload (p : GrantPayload) (e : Enrollment) (localNeeds : Requirements) (now : Int64) :
    Except String GrantInfo :=
  if p.kind ≠ "session_grant" then .error "signature_invalid"
  else if p.tenantId ≠ e.tenantId ∨ p.deviceId ≠ e.deviceId then .error "device_mismatch"
  else if now + clockSkewSecs < p.constraints.notBefore ∨
      p.constraints.expiresAt < now - clockSkewSecs then .error "expired"
  else if p.nonce.isEmpty || p.sessionId.isEmpty then .error "signature_invalid"
  else
    let wants := fun r => p.requires.any fun x => x == r
    .ok
      { sessionId := p.sessionId
        userId := p.userId
        username := p.username
        nonce := p.nonce
        permissions := p.constraints.permissions
        maxDurationS := p.constraints.maxDurationS
        needs :=
          { account := true
            password := localNeeds.password || wants "password"
            confirm := localNeeds.confirm || wants "confirm" || wants "consent" } }

def isBlank (s : String) : Bool := (Text.trim s.toList).isEmpty

def refuseInvalid (code : String) : Decision := .refuse code msgGrantInvalid "" ""

def refuseKnown (p : GrantPayload) (code : String) : Decision :=
  .refuse code msgGrantInvalid p.sessionId p.nonce

def evaluatePayload (codec : Codec) (host : Host) (e : Enrollment) (localNeeds : Requirements)
    (p : GrantPayload) (times : Times) : Decision × Host :=
  let now := secs times.nowMs
  match checkPayload p e localNeeds now with
  | .error code =>
    -- a grant for another device is refused without naming its session
    if code = "device_mismatch" then (refuseInvalid code, host) else (refuseKnown p code, host)
  | .ok info =>
    let (revoked, keys) := isRevoked codec.toCrypto host.enrolled host.keysFile
      (secs times.revokedMs) info.nonce info.sessionId info.userId host.keys
    let host := { host with keys := keys }
    if revoked then (refuseKnown p "revoked", host)
    else
      let (fresh, seen) := markSeen host.seen info.nonce p.constraints.expiresAt now
      let host := { host with seen := seen }
      if fresh then (.grant info, host) else (refuseKnown p "replayed", host)

def evaluateGrant (codec : Codec) (host : Host) (e : Enrollment) (localNeeds : Requirements)
    (grant : String) (times : Times) : Decision × Host :=
  match codec.parseSigned grant with
  | none => (refuseInvalid "signature_invalid", host)
  | some signed =>
    let (verified, keys) := verify codec.toCrypto host.enrolled host.keysFile
      (secs times.verifyMs) signed none host.keys
    let host := { host with keys := keys }
    match verified with
    | .error _ => (refuseInvalid "signature_invalid", host)
    | .ok payload =>
      match codec.parsePayload payload with
      | none => (refuseInvalid "signature_invalid", host)
      | some p =>
        match p.kid with
        | none => evaluatePayload codec host e localNeeds p times
        | some kid =>
          let (verified, keys) := verify codec.toCrypto host.enrolled host.keysFile
            (secs times.kidMs) signed (some kid) host.keys
          let host := { host with keys := keys }
          match verified with
          | .error _ => (refuseKnown p "kid_unknown", host)
          | .ok _ => evaluatePayload codec host e localNeeds p times

/-- The decision on a login; `grant` is the field of the login request. -/
def evaluate (codec : Codec) (host : Host) (grant : String) (times : Times) : Decision × Host :=
  match host.enrolled with
  | none => (.unmanaged, host)
  | some e =>
    let localNeeds := requirements host.accessMode
    if host.sessionsBlocked then
      (.refuse "sessions_blocked" msgSessionsBlocked "" "", host)
    else if isBlank grant then
      if localNeeds.account then (.refuse "grant_required" msgGrantRequired "" "", host)
      else (.unmanaged, host)
    else evaluateGrant codec host e localNeeds grant times

def presented (codec : Codec) (grant : String) : Option GrantPayload :=
  (codec.parseSigned grant).bind fun signed =>
    (codec.decode64 signed.payload).bind codec.parsePayload

/-- The call refuses, or lets the login through, without touching the used nonces. -/
def LeavesSeen (host : Host) (out : Decision × Host) : Prop :=
  (∀ info, out.1 ≠ .grant info) ∧ out.2.seen = host.seen

def LooksUp (host : Host) (p : GrantPayload) (now : Int64) (out : Decision × Host) : Prop :=
  ¬ p.constraints.expiresAt < now - clockSkewSecs ∧
    out.2.seen = (markSeen host.seen p.nonce p.constraints.expiresAt now).2 ∧
    ∀ info, out.1 = .grant info →
      info.nonce = p.nonce ∧
        (markSeen host.seen p.nonce p.constraints.expiresAt now).1 = true

theorem checkPayload_ok (p : GrantPayload) (e : Enrollment) (localNeeds : Requirements)
    (now : Int64) (info : GrantInfo) (h : checkPayload p e localNeeds now = .ok info) :
    ¬ p.constraints.expiresAt < now - clockSkewSecs ∧ info.nonce = p.nonce := by
  unfold checkPayload at h
  split at h
  · cases h
  · split at h
    · cases h
    · split at h
      · cases h
      · rename_i hexpired
        split at h
        · cases h
        · refine ⟨fun hlt => hexpired (Or.inr hlt), ?_⟩
          simp only [Except.ok.injEq] at h
          rw [← h]

theorem evaluatePayload_cases (codec : Codec) (host : Host) (e : Enrollment)
    (localNeeds : Requirements) (p : GrantPayload) (times : Times) :
    LeavesSeen host (evaluatePayload codec host e localNeeds p times) ∨
      LooksUp host p (secs times.nowMs) (evaluatePayload codec host e localNeeds p times) := by
  unfold evaluatePayload
  cases hcheck : checkPayload p e localNeeds (secs times.nowMs) with
  | error code =>
    refine Or.inl ?_
    simp only [hcheck]
    split <;> simp [LeavesSeen, refuseInvalid, refuseKnown]
  | ok info =>
    obtain ⟨hexpired, hnonce⟩ := checkPayload_ok p e localNeeds _ info hcheck
    simp only [hcheck]
    split
    · exact Or.inl (by simp [LeavesSeen, refuseKnown])
    · refine Or.inr ⟨hexpired, ?_, ?_⟩
      · rw [hnonce]
        split <;> rfl
      · intro info' hinfo
        rw [hnonce] at hinfo
        split at hinfo
        · rename_i hfresh
          simp only [Decision.grant.injEq] at hinfo
          exact ⟨hinfo ▸ hnonce, hfresh⟩
        · simp [refuseKnown] at hinfo

/-- Everything one call can do to the used nonces. -/
theorem evaluate_cases (codec : Codec) (host : Host) (grant : String) (times : Times) :
    LeavesSeen host (evaluate codec host grant times) ∨
      ∃ p, presented codec grant = some p ∧
        LooksUp host p (secs times.nowMs) (evaluate codec host grant times) := by
  unfold evaluate
  cases henrolled : host.enrolled with
  | none => exact Or.inl (by simp [LeavesSeen])
  | some e =>
    simp only
    split
    · exact Or.inl (by simp [LeavesSeen])
    · split
      · refine Or.inl ?_
        split <;> simp [LeavesSeen]
      · unfold evaluateGrant
        cases hsigned : codec.parseSigned grant with
        | none => exact Or.inl (by simp [LeavesSeen, refuseInvalid])
        | some signed =>
          simp only
          split
          · exact Or.inl (by simp [LeavesSeen, refuseInvalid])
          · rename_i payload hverified
            cases hpayload : codec.parsePayload payload with
            | none => exact Or.inl (by simp [LeavesSeen, refuseInvalid])
            | some p =>
              have hpresented : presented codec grant = some p := by
                have hbytes := verify_payload _ _ _ _ _ _ _ _ hverified
                simp [presented, hsigned, hbytes, hpayload]
              simp only
              split
              · rcases evaluatePayload_cases codec _ e _ p times with hleave | hlook
                · exact Or.inl hleave
                · exact Or.inr ⟨p, hpresented, hlook⟩
              · split
                · exact Or.inl (by simp [LeavesSeen, refuseKnown])
                · rcases evaluatePayload_cases codec _ e _ p times with hleave | hlook
                  · exact Or.inl hleave
                  · exact Or.inr ⟨p, hpresented, hlook⟩

theorem evaluatePayload_ne_unmanaged (codec : Codec) (host : Host) (e : Enrollment)
    (localNeeds : Requirements) (p : GrantPayload) (times : Times) :
    (evaluatePayload codec host e localNeeds p times).1 ≠ .unmanaged := by
  unfold evaluatePayload
  simp only
  split
  · split <;> simp [refuseInvalid, refuseKnown]
  · split
    · simp [refuseKnown]
    · split <;> simp [refuseKnown]

theorem evaluateGrant_ne_unmanaged (codec : Codec) (host : Host) (e : Enrollment)
    (localNeeds : Requirements) (grant : String) (times : Times) :
    (evaluateGrant codec host e localNeeds grant times).1 ≠ .unmanaged := by
  unfold evaluateGrant
  split
  · simp [refuseInvalid]
  · simp only
    split
    · simp [refuseInvalid]
    · split
      · simp [refuseInvalid]
      · split
        · exact evaluatePayload_ne_unmanaged _ _ _ _ _ _
        · split
          · simp [refuseKnown]
          · exact evaluatePayload_ne_unmanaged _ _ _ _ _ _

theorem requirements_confirm (accessMode : String) (h : (requirements accessMode).account = false) :
    (requirements accessMode).confirm = false := by
  unfold requirements at *
  split
  · rfl
  · split
    · rfl
    · split
      · simp_all
      · rfl

/-- One process of the host, with the nonces and expiry times of the grants it accepted,
the latest first. -/
structure Process where
  host : Host
  accepted : List (String × Int64)
  clockMs : Int64

inductive Event
  | call (grant : String) (times : Times)
  /-- Anything else the process does to what `evaluate` reads, the used nonces apart. -/
  | change (enrolled : Option Enrollment) (accessMode : String) (sessionsBlocked : Bool)
      (keysFile keys : Option Store)

def acceptedBy (codec : Codec) (grant : String) : Decision → Option (String × Int64)
  | .grant info => (presented codec grant).map fun p => (info.nonce, p.constraints.expiresAt)
  | _ => none

def step (codec : Codec) (p : Process) : Event → Option Process
  | .call grant times =>
    if times.nowMs < p.clockMs then none
    else
      let (decision, host) := evaluate codec p.host grant times
      some
        { host := host
          accepted := (acceptedBy codec grant decision).toList ++ p.accepted
          clockMs := times.nowMs }
  | .change enrolled accessMode sessionsBlocked keysFile keys =>
    some { p with host := ⟨enrolled, accessMode, sessionsBlocked, keysFile, keys, p.host.seen⟩ }

/-- A nonce accepted before is not presented again at the very second at which it is
forgotten, nor under a later expiry, nor after its time of expiry overflowed. -/
def NotAtForgetting (codec : Codec) (p : Process) : Event → Prop
  | .call grant times =>
    ∀ payload, presented codec grant = some payload →
      ∀ expiresAt, (payload.nonce, expiresAt) ∈ p.accepted →
        expiresAt.toInt + 120 < 2 ^ 63 ∧
          payload.constraints.expiresAt ≤ expiresAt ∧
          (secs times.nowMs).toInt ≠ expiresAt.toInt + 120
  | .change .. => True

/-- Accepted nonces are distinct, and one whose grant has not run out is remembered. -/
structure Remembers (p : Process) : Prop where
  nodup : (p.accepted.map Prod.fst).Nodup
  seen : ∀ nonce expiresAt, (nonce, expiresAt) ∈ p.accepted →
    expiresAt.toInt + 120 < 2 ^ 63 →
    (secs p.clockMs).toInt < expiresAt.toInt + 120 →
    (nonce, expiresAt + clockSkewSecs) ∈ p.host.seen

variable (ms : Int64) (codec : Codec) (p : Process) (grant : String) (seen : List (String × Int64))
  (times : Times)

theorem secs_toInt : (secs ms).toInt = ms.toInt.tdiv 1000 :=
  Int64.toInt_div_of_ne_right ms 1000 (by decide)

theorem tdiv_thousand (n : ℤ) :
    0 ≤ n ∧ n.tdiv 1000 = n / 1000 ∨ n < 0 ∧ n.tdiv 1000 = -(-n / 1000) := by
  rcases Int.le_total 0 n with h | h
  · exact Or.inl ⟨h, Int.tdiv_eq_ediv_of_nonneg h⟩
  · by_cases hzero : n = 0
    · exact Or.inl ⟨by omega, by simp [hzero]⟩
    · refine Or.inr ⟨by omega, ?_⟩
      rw [← Int.tdiv_eq_ediv_of_nonneg (by omega : 0 ≤ -n), Int.neg_tdiv, Int.neg_neg]

theorem secs_mono (a b : Int64) (h : a ≤ b) : (secs a).toInt ≤ (secs b).toInt := by
  rw [secs_toInt, secs_toInt]
  rw [Int64.le_iff_toInt_le] at h
  have ha := tdiv_thousand a.toInt
  have hb := tdiv_thousand b.toInt
  omega

theorem secs_bounds : -(2 ^ 62) ≤ (secs ms).toInt ∧ (secs ms).toInt ≤ 2 ^ 62 := by
  rw [secs_toInt]
  have hlow := ms.le_toInt
  have hhigh := ms.toInt_lt
  have hdiv := tdiv_thousand ms.toInt
  omega

theorem toInt_add_skew (a : Int64) (h : a.toInt + 120 < 2 ^ 63) :
    (a + clockSkewSecs).toInt = a.toInt + 120 := by
  have hlow := a.le_toInt
  rw [Int64.toInt_add, show clockSkewSecs.toInt = 120 by decide]
  apply Int.bmod_eq_of_le <;> omega

theorem toInt_secs_sub_skew : (secs ms - clockSkewSecs).toInt = (secs ms).toInt - 120 := by
  obtain ⟨hlow, hhigh⟩ := secs_bounds ms
  rw [Int64.toInt_sub, show clockSkewSecs.toInt = 120 by decide]
  apply Int.bmod_eq_of_le <;> omega

/-- A nonce that is looked up stays remembered, or was dropped because its time had passed. -/
theorem mem_markSeen (nonce : String) (expiresAt now : Int64)
    (e : String × Int64) (he : e ∈ seen) (hnow : now < e.2) :
    e ∈ (markSeen seen nonce expiresAt now).2 := by
  have hkept : e ∈ seen.filter fun e => decide (now < e.2) := by
    simp [he, hnow]
  unfold markSeen
  simp only
  split
  · exact hkept
  · exact List.mem_append_left _ hkept

theorem markSeen_fresh (nonce : String) (expiresAt now : Int64)
    (hfresh : (markSeen seen nonce expiresAt now).1 = true) :
    (∀ e ∈ seen, now < e.2 → e.1 ≠ nonce) ∧
      (nonce, expiresAt + clockSkewSecs) ∈ (markSeen seen nonce expiresAt now).2 := by
  unfold markSeen at hfresh ⊢
  simp only at hfresh ⊢
  split at hfresh
  · cases hfresh
  · rename_i hany
    refine ⟨?_, ?_⟩
    · intro e he hnow heq
      apply hany
      simp only [List.any_eq_true, List.mem_filter]
      exact ⟨e, ⟨he, by simpa using hnow⟩, by simpa using heq⟩
    · rw [if_neg hany]
      exact List.mem_append_right _ (List.mem_singleton.mpr rfl)

theorem not_mem_accepted (hinv : Remembers p) (hguard : NotAtForgetting codec p (.call grant times))
    (hclock : ¬ times.nowMs < p.clockMs) (payload : GrantPayload)
    (hpresented : presented codec grant = some payload)
    (hexpired : ¬ payload.constraints.expiresAt < secs times.nowMs - clockSkewSecs)
    (hfresh : (markSeen p.host.seen payload.nonce payload.constraints.expiresAt
      (secs times.nowMs)).1 = true) :
    payload.nonce ∉ p.accepted.map Prod.fst := by
  intro hmem
  obtain ⟨⟨nonce, expiresAt⟩, hacc, rfl⟩ := List.mem_map.mp hmem
  obtain ⟨hover, hle, hne⟩ := hguard payload hpresented expiresAt hacc
  rw [Int64.lt_iff_toInt_lt, toInt_secs_sub_skew] at hexpired
  rw [Int64.le_iff_toInt_le] at hle
  have hmono := secs_mono _ _ (Int64.not_lt.mp hclock)
  have hremembered := hinv.seen _ expiresAt hacc hover (by omega)
  have hstill : secs times.nowMs < expiresAt + clockSkewSecs := by
    rw [Int64.lt_iff_toInt_lt, toInt_add_skew _ hover]
    omega
  exact (markSeen_fresh _ _ _ _ hfresh).1 _ hremembered hstill rfl

theorem seen_of_looksUp (payload : GrantPayload)
    (hinv : Remembers p) (hclock : ¬ times.nowMs < p.clockMs) (nonce : String)
    (expiresAt : Int64) (hacc : (nonce, expiresAt) ∈ p.accepted)
    (hover : expiresAt.toInt + 120 < 2 ^ 63)
    (hlater : (secs times.nowMs).toInt < expiresAt.toInt + 120) :
    (nonce, expiresAt + clockSkewSecs) ∈
      (markSeen p.host.seen payload.nonce payload.constraints.expiresAt (secs times.nowMs)).2 := by
  have hmono := secs_mono _ _ (Int64.not_lt.mp hclock)
  apply mem_markSeen
  · exact hinv.seen nonce expiresAt hacc hover (by omega)
  · rw [Int64.lt_iff_toInt_lt, toInt_add_skew _ hover]
    exact hlater

theorem acceptedBy_eq_none (decision : Decision)
    (h : ∀ info, decision ≠ .grant info) : acceptedBy codec grant decision = none := by
  cases decision with
  | unmanaged => rfl
  | refuse => rfl
  | grant info => exact absurd rfl (h info)

theorem remembers_call (hguard : NotAtForgetting codec p (.call grant times)) (hinv : Remembers p)
    (hclock : ¬ times.nowMs < p.clockMs) :
    Remembers
      { host := (evaluate codec p.host grant times).2
        accepted :=
          (acceptedBy codec grant (evaluate codec p.host grant times).1).toList ++ p.accepted
        clockMs := times.nowMs } := by
  have hmono := secs_mono _ _ (Int64.not_lt.mp hclock)
  rcases evaluate_cases codec p.host grant times with ⟨hnot, hseen⟩ | ⟨payload, hpresented, hlook⟩
  · rw [acceptedBy_eq_none codec grant _ hnot]
    refine ⟨hinv.nodup, ?_⟩
    intro nonce expiresAt hacc hover hlater
    rw [hseen]
    exact hinv.seen nonce expiresAt hacc hover (by simp only at hlater; omega)
  · obtain ⟨hexpired, hseen, hgrant⟩ := hlook
    have hold := seen_of_looksUp p times payload hinv hclock
    cases hdecision : (evaluate codec p.host grant times).1 with
    | grant info =>
      obtain ⟨hnonce, hfresh⟩ := hgrant info hdecision
      have hnew := not_mem_accepted codec p grant times hinv hguard hclock payload hpresented
        hexpired hfresh
      have haccepted : (acceptedBy codec grant (.grant info)).toList =
          [(payload.nonce, payload.constraints.expiresAt)] := by
        simp [acceptedBy, hpresented, hnonce]
      rw [haccepted]
      refine ⟨List.nodup_cons.mpr ⟨hnew, hinv.nodup⟩, ?_⟩
      intro nonce expiresAt hacc hover hlater
      rw [hseen]
      rcases List.mem_cons.mp hacc with heq | hacc
      · obtain ⟨rfl, rfl⟩ := Prod.mk.injEq .. ▸ heq
        exact (markSeen_fresh _ _ _ _ hfresh).2
      · exact hold nonce expiresAt hacc hover hlater
    | unmanaged =>
      refine ⟨hinv.nodup, ?_⟩
      intro nonce expiresAt hacc hover hlater
      rw [hseen]
      exact hold nonce expiresAt hacc hover hlater
    | refuse =>
      refine ⟨hinv.nodup, ?_⟩
      intro nonce expiresAt hacc hover hlater
      rw [hseen]
      exact hold nonce expiresAt hacc hover hlater

theorem remembers_step (q : Process) (e : Event)
    (hguard : NotAtForgetting codec p e) (hinv : Remembers p) (hstep : step codec p e = some q) :
    Remembers q := by
  cases e with
  | call grant times =>
    simp only [step] at hstep
    obtain ⟨hclock, rfl⟩ := of_guard_not hstep
    exact remembers_call codec p grant times hguard hinv hclock
  | change enrolled accessMode sessionsBlocked keysFile keys =>
    obtain rfl := Option.some.inj hstep
    exact ⟨hinv.nodup, hinv.seen⟩

def start (host : Host) (clockMs : Int64) : Process := ⟨{ host with seen := [] }, [], clockMs⟩

/-- As long as no nonce comes back at the moment it is forgotten, every nonce
is accepted at most once. -/
theorem accepted_nonces_nodup (codec : Codec) (host : Host) (clockMs : Int64) (p : Process)
    (es : List Event)
    (hmeets : Runs.Meets (NotAtForgetting codec) (step codec) (start host clockMs) es)
    (hexec : Runs.exec (step codec) (start host clockMs) es = some p) :
    (p.accepted.map Prod.fst).Nodup := by
  have hstart : Remembers (start host clockMs) := ⟨List.nodup_nil, by simp [start]⟩
  exact (Runs.invariant_of_meets (NotAtForgetting codec) (step codec) Remembers
    (fun s e t hguard hinv hstep => remembers_step codec s t e hguard hinv hstep)
    _ p es hstart hmeets hexec).nodup

/-! A grant for the device `d` of the tenant `t`, valid until the second 1000, for viewing only
and with password and confirmation, signed with the key of the first test vector of Ed25519. The
libraries answer for it as the real ones do. -/
section Sample

def samplePayload : Bytes :=
  ("\x7b\"type\":\"session_grant\",\"tenant_id\":\"t\",\"device_id\":\"d\"," ++
    "\"session_id\":\"s\",\"requires\":[\"password\",\"confirm\"]," ++
    "\"constraints\":\x7b\"permissions\":[\"view\"],\"expires_at\":1000\x7d," ++
    "\"nonce\":\"n\"\x7d").toList.map fun c => UInt8.ofNat c.toNat

@[irreducible] def samplePayloadText : String :=
  "eyJ0eXBlIjoic2Vzc2lvbl9ncmFudCIsInRlbmFudF9pZCI6InQiLCJkZXZpY2VfaWQiOiJkIiwic2Vzc2lvbl9p" ++
    "ZCI6InMiLCJyZXF1aXJlcyI6WyJwYXNzd29yZCIsImNvbmZpcm0iXSwiY29uc3RyYWludHMiOnsicGVybWlzc2lv" ++
    "bnMiOlsidmlldyJdLCJleHBpcmVzX2F0IjoxMDAwfSwibm9uY2UiOiJuIn0="

def sampleSignature : Bytes :=
  [25, 190, 99, 239, 201, 135, 71, 192, 239, 222, 131, 118, 255, 104, 62, 216, 103, 172, 152, 252,
    61, 39, 66, 63, 22, 192, 72, 158, 11, 210, 150, 161, 112, 24, 234, 196, 249, 198, 35, 252, 109,
    153, 25, 107, 37, 30, 31, 165, 147, 133, 48, 106, 199, 28, 113, 10, 17, 30, 224, 19, 159, 78,
    44, 10]

@[irreducible] def sampleSignatureText : String :=
  "Gb5j78mHR8Dv3oN2/2g+2GesmPw9J0I/FsBIngvSlqFwGOrE+cYj/G2ZGWslHh+lk4UwascccQoRHuATn04sCg=="

def samplePublicKey : Bytes :=
  [215, 90, 152, 1, 130, 177, 10, 183, 213, 75, 254, 211, 201, 100, 7, 58, 14, 225, 114, 243,
    218, 166, 35, 37, 175, 2, 26, 104, 247, 7, 81, 26]

@[irreducible] def samplePublicKeyText : String := "11qYAYKxCrfVS/7TyWQHOg7hcvPapiMlrwIaaPcHURo="

@[irreducible] def sampleGrant : String :=
  "\x7b" ++ "\"payload\":\"" ++ samplePayloadText ++ "\",\"signature\":\"" ++ sampleSignatureText ++
    "\"\x7d"

def sampleParsed : GrantPayload :=
  ⟨"session_grant", none, "t", "d", "s", "", "", ["password", "confirm"],
    ⟨0, ["view"], 0, 1000⟩, "n"⟩

def sampleCodec : Codec where
  decode64 s :=
    if s = samplePayloadText then some samplePayload
    else if s = sampleSignatureText then some sampleSignature
    else if s = samplePublicKeyText then some samplePublicKey
    else none
  encode64 _ := "If4x36FUomE="
  sha256 _ := []
  publicKeyFromSlice b := if b.length = 32 then some b else none
  signatureFromBytes b := if b.length = 64 then some b else none
  verifyDetached signature payload pk :=
    signature = sampleSignature ∧ payload = samplePayload ∧ pk = samplePublicKey
  parseSigned s :=
    if s = sampleGrant then some ⟨samplePayloadText, sampleSignatureText⟩ else none
  parsePayload b := if b = samplePayload then some sampleParsed else none

def sampleStore : Store :=
  { tenantId := "t", keys := [⟨"If4x36FUomE=", samplePublicKeyText, .active, none⟩] }

def sampleHost (seen : List (String × Int64)) : Host :=
  { enrolled := some ⟨"d", "t", samplePublicKeyText⟩
    accessMode := "account_2fa"
    sessionsBlocked := false
    keysFile := none
    keys := some sampleStore
    seen := seen }

theorem decode64_samplePayloadText : sampleCodec.decode64 samplePayloadText = some samplePayload :=
  if_pos rfl

theorem decode64_sampleSignatureText :
    sampleCodec.decode64 sampleSignatureText = some sampleSignature := by
  have hpayload : sampleSignatureText ≠ samplePayloadText := by decide +kernel
  exact (if_neg hpayload).trans (if_pos rfl)

theorem decode64_samplePublicKeyText :
    sampleCodec.decode64 samplePublicKeyText = some samplePublicKey := by
  have hpayload : samplePublicKeyText ≠ samplePayloadText := by decide +kernel
  have hsignature : samplePublicKeyText ≠ sampleSignatureText := by decide +kernel
  exact (if_neg hpayload).trans ((if_neg hsignature).trans (if_pos rfl))

theorem parseSigned_sampleGrant :
    sampleCodec.parseSigned sampleGrant = some ⟨samplePayloadText, sampleSignatureText⟩ :=
  if_pos rfl

theorem parsePayload_samplePayload :
    sampleCodec.parsePayload samplePayload = some sampleParsed := by
  simp [sampleCodec]

theorem verifyWith_of (crypto : Crypto) (publicKey : String) (signed : Signed)
    (pk payload signature : Bytes) (hkey : crypto.decode64 publicKey = some pk)
    (hpk : crypto.publicKeyFromSlice pk = some pk)
    (hpayload : crypto.decode64 signed.payload = some payload)
    (hdecoded : crypto.decode64 signed.signature = some signature)
    (hsignature : crypto.signatureFromBytes signature = some signature)
    (hverified : crypto.verifyDetached signature payload pk = true) :
    verifyWith crypto publicKey signed = some payload := by
  simp [verifyWith, hkey, hpk, hpayload, hdecoded, hsignature, hverified]

theorem verifyWith_sample : verifyWith sampleCodec.toCrypto samplePublicKeyText
    ⟨samplePayloadText, sampleSignatureText⟩ = some samplePayload := by
  refine verifyWith_of _ _ _ samplePublicKey samplePayload sampleSignature
    decode64_samplePublicKeyText ?_ decode64_samplePayloadText decode64_sampleSignatureText ?_ ?_
  · show (if samplePublicKey.length = 32 then some samplePublicKey else none) = _
    exact if_pos (by decide)
  · show (if sampleSignature.length = 64 then some sampleSignature else none) = _
    exact if_pos (by decide)
  · simp [sampleCodec]

theorem verify_of (crypto : Crypto) (e : Enrollment) (file : Option Store) (now : Int64)
    (signed : Signed) (kid : Option String) (store : Store) (payload : Bytes)
    (htenant : store.tenantId = e.tenantId) (hprune : prune store now = store)
    (hin : verifyIn crypto store signed kid now = some payload) :
    verify crypto (some e) file now signed kid (some store) = (.ok payload, some store) := by
  simp [verify, withStore, htenant, hprune, hin]

theorem verify_sample (now : Int64) :
    verify sampleCodec.toCrypto (some ⟨"d", "t", samplePublicKeyText⟩) none now
      ⟨samplePayloadText, sampleSignatureText⟩ none (some sampleStore) =
      (.ok samplePayload, some sampleStore) := by
  refine verify_of _ _ _ _ _ _ _ _ rfl rfl ?_
  simp [verifyIn, sampleStore, usable, verifyWith_sample]

theorem presented_sampleGrant : presented sampleCodec sampleGrant = some sampleParsed := by
  rw [presented, parseSigned_sampleGrant, Option.bind_some, decode64_samplePayloadText,
    Option.bind_some, parsePayload_samplePayload]

theorem isBlank_sampleGrant : isBlank sampleGrant = false := by
  have hbrace : '{' ∈ "\x7b".toList := by decide
  have hmem : '{' ∈ sampleGrant.toList := by
    rw [sampleGrant]
    simp only [String.toList_append, List.mem_append]
    exact Or.inl (Or.inl (Or.inl (Or.inl (Or.inl hbrace))))
  rw [isBlank, List.isEmpty_eq_false_iff]
  exact Text.trim_ne_nil _ _ hmem (by decide)

theorem evaluate_of (host : Host) (e : Enrollment) (grant : String) (times : Times)
    (signed : Signed) (payload : Bytes) (p : GrantPayload) (henrolled : host.enrolled = some e)
    (hblocked : host.sessionsBlocked = false) (hblank : isBlank grant = false)
    (hparse : codec.parseSigned grant = some signed)
    (hverify : verify codec.toCrypto (some e) host.keysFile (secs times.verifyMs) signed none
      host.keys = (.ok payload, host.keys))
    (hpayload : codec.parsePayload payload = some p) (hkid : p.kid = none) :
    evaluate codec host grant times =
      evaluatePayload codec host e (requirements host.accessMode) p times := by
  rw [evaluate, henrolled]
  simp only [hblocked, hblank, Bool.false_eq_true, if_false]
  rw [evaluateGrant, hparse, henrolled]
  simp only [hverify, hpayload, hkid]
  rw [← henrolled]

theorem evaluate_sample :
    evaluate sampleCodec (sampleHost seen) sampleGrant times =
      evaluatePayload sampleCodec (sampleHost seen) ⟨"d", "t", samplePublicKeyText⟩
        ⟨true, false, false⟩ sampleParsed times := by
  have hneeds : requirements (sampleHost seen).accessMode = ⟨true, false, false⟩ := by
    show requirements "account_2fa" = ⟨true, false, false⟩
    decide
  rw [← hneeds]
  exact evaluate_of _ _ _ _ _ _ samplePayload _ rfl rfl isBlank_sampleGrant parseSigned_sampleGrant
    (verify_sample _) parsePayload_samplePayload rfl

def sampleCall (second : Int64) : Event :=
  .call sampleGrant ⟨second * 1000, second * 1000, second * 1000, second * 1000⟩

def sampleInfo : GrantInfo :=
  ⟨"s", "", "", "n", ["view"], 0, ⟨true, true, true⟩⟩

/-- On the sample host only the clock and the used nonces decide. -/
theorem evaluate_sample_of (seen' : List (String × Int64)) (second : Int64) (fresh : Bool)
    (hcheck : checkPayload sampleParsed ⟨"d", "t", samplePublicKeyText⟩ ⟨true, false, false⟩
      (secs (second * 1000)) = .ok sampleInfo)
    (hseen : markSeen seen "n" 1000 (secs (second * 1000)) = (fresh, seen')) :
    evaluate sampleCodec (sampleHost seen) sampleGrant
      ⟨second * 1000, second * 1000, second * 1000, second * 1000⟩ =
      (if fresh then .grant sampleInfo else refuseKnown sampleParsed "replayed",
        sampleHost seen') := by
  have hrevoked : isRevoked sampleCodec.toCrypto (some ⟨"d", "t", samplePublicKeyText⟩) none
      (secs (second * 1000)) "n" "s" "" (some sampleStore) = (false, some sampleStore) := by
    have htenant : sampleStore.tenantId = "t" := rfl
    have hprune : prune sampleStore (secs (second * 1000)) = sampleStore := rfl
    have hnone : sampleStore.revocations = [] := rfl
    simp [isRevoked, withStore, htenant, hprune, hnone]
  rw [evaluate_sample, evaluatePayload]
  simp only [hcheck]
  have hexpires : sampleParsed.constraints.expiresAt = 1000 := rfl
  simp only [hexpires, sampleHost, sampleInfo, hrevoked, hseen]
  cases fresh <;> rfl

theorem evaluate_sampleGrant :
    evaluate sampleCodec (sampleHost []) sampleGrant
      ⟨900 * 1000, 900 * 1000, 900 * 1000, 900 * 1000⟩ =
      (.grant sampleInfo, sampleHost [("n", 1120)]) :=
  evaluate_sample_of [] [("n", 1120)] 900 true (by decide) (by decide)

/-- The process after the grant was used `n` times, most recently at the given second. -/
def sampleUsed (n : ℕ) (second : Int64) : Process :=
  ⟨sampleHost [("n", 1120)], List.replicate n ("n", 1000), second * 1000⟩

theorem step_sampleCall (seen' : List (String × Int64)) (second : Int64)
    (fresh : Bool) (hhost : p.host = sampleHost seen) (hclock : ¬ second * 1000 < p.clockMs)
    (hcheck : checkPayload sampleParsed ⟨"d", "t", samplePublicKeyText⟩ ⟨true, false, false⟩
      (secs (second * 1000)) = .ok sampleInfo)
    (hseen : markSeen seen "n" 1000 (secs (second * 1000)) = (fresh, seen')) :
    step sampleCodec p (sampleCall second) =
      some ⟨sampleHost seen', (if fresh then [("n", 1000)] else []) ++ p.accepted,
        second * 1000⟩ := by
  rw [sampleCall, step, if_neg hclock, hhost,
    evaluate_sample_of seen seen' second fresh hcheck hseen]
  cases fresh with
  | true => simp [acceptedBy, presented_sampleGrant, sampleInfo, sampleParsed]
  | false => rfl

theorem step_sampleUsed :
    step sampleCodec (start (sampleHost []) 0) (sampleCall 900) = some (sampleUsed 1 900) :=
  step_sampleCall _ [] [("n", 1120)] 900 true rfl (by decide) (by decide)
    (by decide)

/-- The grant is used at the second 900 and refused one second later. -/
theorem accepted_nonces_nodup_sample :
    ∃ p, Runs.exec (step sampleCodec) (start (sampleHost []) 0) [sampleCall 900, sampleCall 901] =
      some p ∧ p.accepted = [("n", 1000)] ∧ (p.accepted.map Prod.fst).Nodup := by
  have hrefused : step sampleCodec (sampleUsed 1 900) (sampleCall 901) = some (sampleUsed 1 901) :=
    step_sampleCall _ [("n", 1120)] [("n", 1120)] 901 false rfl (by decide) (by decide)
      (by decide)
  have hrun : Runs.exec (step sampleCodec) (start (sampleHost []) 0)
      [sampleCall 900, sampleCall 901] = some (sampleUsed 1 901) := by
    refine (Runs.exec_cons _ _ _ _ _).mpr ⟨_, step_sampleUsed, ?_⟩
    exact (Runs.exec_cons _ _ _ _ _).mpr ⟨_, hrefused, Runs.exec_nil _ _⟩
  refine ⟨_, hrun, rfl, ?_⟩
  apply accepted_nonces_nodup sampleCodec (sampleHost []) 0 _ [sampleCall 900,
    sampleCall 901] _ hrun
  refine ⟨?_, ?_⟩
  · intro payload _ expiresAt hacc
    cases hacc
  · intro t ht
    obtain rfl := Option.some.inj (step_sampleUsed.symm.trans ht)
    refine ⟨?_, fun _ _ => trivial⟩
    intro payload hpayload expiresAt hacc
    obtain rfl := Option.some.inj (presented_sampleGrant.symm.trans hpayload)
    obtain rfl : expiresAt = 1000 := by simpa [sampleUsed, sampleParsed] using hacc
    decide

/-- At the second 1120, the expiry plus the tolerated skew, the grant is accepted twice. -/
theorem sampleGrant_accepted_twice :
    ∃ p, Runs.exec (step sampleCodec) (start (sampleHost []) 0)
      [sampleCall 1120, sampleCall 1120] = some p ∧ ¬ (p.accepted.map Prod.fst).Nodup := by
  have hfirst : step sampleCodec (start (sampleHost []) 0) (sampleCall 1120) =
      some (sampleUsed 1 1120) :=
    step_sampleCall _ [] [("n", 1120)] 1120 true rfl (by decide) (by decide)
      (by decide)
  have hsecond : step sampleCodec (sampleUsed 1 1120) (sampleCall 1120) =
      some (sampleUsed 2 1120) :=
    step_sampleCall _ [("n", 1120)] [("n", 1120)] 1120 true rfl (by decide) (by decide)
      (by decide)
  refine ⟨sampleUsed 2 1120, ?_, by decide⟩
  refine (Runs.exec_cons _ _ _ _ _).mpr ⟨_, hfirst, ?_⟩
  exact (Runs.exec_cons _ _ _ _ _).mpr ⟨_, hsecond, Runs.exec_nil _ _⟩

end Sample

end ClantoDesk.SessionGrant
