import ClantoDesk.Guards
import ClantoDesk.PosturePolicy

/-!
The verdict on a posture: the rules of the policy one by one, the response of the verification
server (api/clantodesk-posture.php) and what the host makes of it (src/clanto/posture.rs). What
the server answers in JSON is read back by the host as it was, except that a text cut inside a
character cannot be encoded and the answer is then empty. The check of the signature is a
parameter.
-/
namespace ClantoDesk.PostureDecision

open Text PostureSignature PosturePolicy

variable {F D : Type}

/-- A text that may end inside a character. -/
structure Reported where
  text : Str
  cut : Bool

/-- `substr` from the start, which counts bytes. -/
def takeBytes : ℕ → Str → Reported
  | _, [] => ⟨[], false⟩
  | n, c :: rest =>
    if c.utf8Size ≤ n then
      ⟨c :: (takeBytes (n - c.utf8Size) rest).text, (takeBytes (n - c.utf8Size) rest).cut⟩
    else ⟨[], decide (n ≠ 0)⟩

def prefixed (front : String) (id : Reported) : Reported := ⟨front.toList ++ id.text, id.cut⟩

structure Failure where
  id : Reported
  message : Reported
  bypassable : Bool

def ruleId : PhpValue F → Reported
  | .array rule =>
    match coalesce rule "id" .null with
    | .text s => takeBytes maxIdLen s
    | _ => ⟨['?'], false⟩
  | _ => ⟨['?'], false⟩

def policyError (id : Reported) : Failure :=
  ⟨prefixed "core:policy:" id, prefixed "policy non valida: " id, false⟩

def scopeList : PhpValue F → Option (Entries F)
  | .null => some []
  | .array entries =>
    if entries.all fun e => (match e.2 with | .text _ => true | _ => false) then some entries
    else none
  | _ => none

def isNull : PhpValue F → Bool
  | .null => true
  | _ => false

def inGroup (groups : Entries F) (hostId name : Str) : Bool :=
  match lookup groups name with
  | some (.array members) => inArray hostId members
  | _ => false

def inNamedGroup (groups : Entries F) (hostId : Str) : PhpValue F → Bool
  | .text name => inGroup groups hostId name
  | _ => false

def inHostScope (rule groups : Entries F) (hostId : Str) : Option Bool :=
  let hosts := coalesce rule "hosts" .null
  let names := coalesce rule "groups" .null
  if isNull hosts && isNull names then some true
  else match scopeList hosts, scopeList names with
    | some hs, some ns =>
      some (inArray hostId hs || ns.any fun n => inNamedGroup groups hostId n.2)
    | _, _ => none

def platformScope (rule : Entries F) (posture : PostureMap) : Option Bool :=
  match coalesce rule "platforms" (.array []) with
  | .array [] => some true
  | .array platforms =>
    (posture.get "platform".toList).map fun platform => inArray platform platforms
  | _ => some true

/-- `unknown_is`: absent, "pass" or "fail"; anything else is malformed. -/
def readUnknownIs : PhpValue F → Option (Option Bool)
  | .null => some none
  | .text s =>
    if s = "pass".toList then some (some true)
    else if s = "fail".toList then some (some false)
    else none
  | _ => none

def isTrue : PhpValue F → Bool
  | .bool b => b
  | _ => false

def opVerdict (php : Php F D) (op v : Str) (val : PhpValue F) : Verdict :=
  match Op.ofName op with
  | none => .malformed
  | some o => evalOp php o v val

/-- `unknown_is` decides about this value. -/
def unknownDecides (op v : Str) (unknownIs : Option Bool) : Bool :=
  decide (v = unknown) && !((Op.ofName op).any Op.isPresence) &&
    (unknownIs.isSome || !((Op.ofName op).any Op.isList))

def fieldVerdict (php : Php F D) (posture : PostureMap) (rule : Entries F) (op : Str)
    (unknownIs : Option Bool) : Verdict :=
  match coalesce rule "field" .null with
  | .text field =>
    match posture.get field with
    | none => .decided (isTrue (coalesce rule "allow_missing" (.bool false)))
    | some v =>
      if unknownDecides op v unknownIs then
        match opVerdict php op v (coalesce rule "value" .null) with
        | .decided _ => .decided (decide (unknownIs = some true))
        | other => other
      else opVerdict php op v (coalesce rule "value" .null)
  | _ => .malformed

def ruleVerdict (php : Php F D) (eol : Entries F) (posture : PostureMap) (rule : Entries F)
    (op : Str) (unknownIs : Option Bool) : Verdict :=
  if op = "schedule".toList then evalSchedule php (coalesce rule "value" .null)
  else if op = "not_eol".toList then evalNotEol php posture eol
  else fieldVerdict php posture rule op unknownIs

def failureMessage (id : Reported) (rule : Entries F) : Reported :=
  match coalesce rule "message" .null with
  | .text s => if s ≠ [] then ⟨s, false⟩ else prefixed "requisito non soddisfatto: " id
  | _ => prefixed "requisito non soddisfatto: " id

inductive Outcome where
  | threw
  | skipped
  | malformed
  | passed
  | failed (failure : Failure)

structure Settings where
  scope : Bool
  bypassable : Bool
  op : Str
  unknownIs : Option Bool

def readSettings (rule groups : Entries F) (hostId : Str) : Option Settings :=
  match inHostScope rule groups hostId, coalesce rule "bypassable" (.bool true),
      coalesce rule "op" .null, readUnknownIs (coalesce rule "unknown_is" .null) with
  | some scope, .bool bypassable, .text op, some unknownIs =>
    some ⟨scope, bypassable, op, unknownIs⟩
  | _, _, _, _ => none

def outcomeOf (id : Reported) (rule : Entries F) (bypassable : Bool) : Verdict → Outcome
  | .threw => .threw
  | .malformed => .malformed
  | .decided true => .passed
  | .decided false => .failed ⟨id, failureMessage id rule, bypassable⟩

structure Policy (F : Type) where
  rules : Entries F
  revoked : Entries F
  groups : Entries F
  eol : Entries F

def evaluateRule (php : Php F D) (policy : Policy F) (posture : PostureMap) (hostId : Str) :
    PhpValue F → Outcome
  | .array rule =>
    if !isTrue (coalesce rule "enabled" (.bool true)) then .skipped
    else match platformScope rule posture with
      | none => .threw
      | some false => .skipped
      | some true =>
        match readSettings rule policy.groups hostId with
        | none => .malformed
        | some settings =>
          if settings.scope then
            outcomeOf (ruleId (.array rule)) rule settings.bypassable
              (ruleVerdict php policy.eol posture rule settings.op settings.unknownIs)
          else .skipped
  | _ => .malformed

def evaluateStep (php : Php F D) (policy : Policy F) (posture : PostureMap) (hostId : Str)
    (acc : List Failure × List Failure) (rule : PhpValue F) :
    Option (List Failure × List Failure) :=
  match evaluateRule php policy posture hostId rule with
  | .threw => none
  | .malformed => some (acc.1, acc.2 ++ [policyError (ruleId rule)])
  | .failed failure => some (acc.1 ++ [failure], acc.2)
  | .skipped => some acc
  | .passed => some acc

def evaluateRules (php : Php F D) (policy : Policy F) (posture : PostureMap) (hostId : Str) :
    Option (List Failure × List Failure) :=
  (policy.rules.map Prod.snd).foldlM (evaluateStep php policy posture hostId) ([], [])

/-! ### The response -/

structure FailedRule where
  id : Str
  message : Str
  bypassable : Bool
  deriving DecidableEq

structure Response where
  ok : Bool
  failed : List FailedRule
  deriving DecidableEq

def Failure.wire (f : Failure) : FailedRule := ⟨f.id.text, f.message.text, f.bypassable⟩

/-- `none` is an answer the host cannot read. -/
def respond (failed : List Failure) : Option Response :=
  if failed.any fun f => f.id.cut || f.message.cut then none
  else some ⟨failed.isEmpty, failed.map Failure.wire⟩

def respondCore (id message : String) : Option Response :=
  respond [⟨⟨id.toList, false⟩, ⟨message.toList, false⟩, false⟩]

def optionalArray : PhpValue F → Option (Entries F)
  | .null => some []
  | .array entries => some entries
  | _ => none

def loadPolicy : Option (PhpValue F) → Option (Policy F)
  | some (.array p) =>
    match coalesce p "rules" .null, optionalArray (coalesce p "revoked_versions" .null),
        optionalArray (coalesce p "groups" .null), optionalArray (coalesce p "eol" .null) with
    | .array rules, some revoked, some groups, some eol => some ⟨rules, revoked, groups, eol⟩
    | _, _, _, _ => none
  | _ => none

structure Server (F : Type) where
  configured : Bool
  signatureValid : Request → Bool
  policy : Option (PhpValue F)

def revokedVersions (php : Php F D) (policy : Policy F) : List Str :=
  policy.revoked.filterMap fun e => scalarText php e.2

def handle (php : Php F D) (server : Server F) (body : Option JsonValue) : Option Response :=
  if server.configured = false then respondCore "core:config" "verifica non configurata"
  else match body.bind parseRequest with
    | none => respondCore "core:request" "richiesta non valida"
    | some r =>
      if server.signatureValid r = false then
        respondCore "core:signature" "client non riconosciuto: usare ClantoDesk ufficiale"
      else if coherent r = false then
        respondCore "core:coherence"
          "dati del dispositivo incoerenti: usare ClantoDesk ufficiale"
      else match loadPolicy server.policy with
        | none => respondCore "core:config" "policy non leggibile"
        | some policy =>
          if r.peerVersion ∈ revokedVersions php policy then
            respondCore "core:revoked" "versione di ClantoDesk non più ammessa, aggiornare"
          else if r.signatureOnly then respond []
          else match evaluateRules php policy r.posture r.hostId with
            | none => respondCore "core:unavailable" "verifica non disponibile"
            | some (failed, policyErrors) =>
              if policyErrors ≠ [] then respond policyErrors else respond failed

/-! ### The host -/

def isCore (id : Str) : Bool := decide ("core:".toList <+: id)

/-- `posture::decide`: the rules that were bypassed, or why the device is refused. -/
def postureDecide (ok : Bool) (failed : List FailedRule) (bypass : List Str) :
    Except Str (List Str) :=
  if ok = true ∧ failed = [] then .ok []
  else if ok = false ∧ failed ≠ [] ∧
      ∀ rule ∈ failed, rule.bypassable = true ∧ isCore rule.id = false ∧ rule.id ∈ bypass then
    .ok (failed.map FailedRule.id)
  else
    let messages := ((failed.filter fun rule =>
        isCore rule.id || !rule.bypassable || decide (rule.id ∉ bypass)).map
      FailedRule.message).filter fun message => decide (message ≠ [])
    .error (if messages = [] then "requisiti di sicurezza non soddisfatti".toList
      else List.intercalate "; ".toList messages)

/-! ### When a device is let in -/

def Accepted (resp : Option Response) (bypass : List Str) : Prop :=
  ∃ response ids, resp = some response ∧
    postureDecide response.ok response.failed bypass = .ok ids

structure Waived (f : Failure) (bypass : List Str) : Prop where
  whole : f.id.cut = false ∧ f.message.cut = false
  bypassable : f.bypassable = true
  notCore : isCore f.id.text = false
  listed : f.id.text ∈ bypass

variable (rule groups : Entries F) (php : Php F D) (policy : Policy F) (posture : PostureMap)

theorem postureDecide_ok (failed : List FailedRule) (bypass ids : List Str)
    (h : postureDecide failed.isEmpty failed bypass = .ok ids) :
    ∀ rule ∈ failed, rule.bypassable = true ∧ isCore rule.id = false ∧ rule.id ∈ bypass := by
  unfold postureDecide at h
  split at h
  · rename_i hnone
    intro rule hrule
    simp [hnone.2] at hrule
  · split at h
    · rename_i hall
      exact hall.2.2
    · cases h

theorem postureDecide_of_waived (failed : List FailedRule) (bypass : List Str)
    (h : ∀ rule ∈ failed, rule.bypassable = true ∧ isCore rule.id = false ∧ rule.id ∈ bypass) :
    ∃ ids, postureDecide failed.isEmpty failed bypass = .ok ids := by
  unfold postureDecide
  cases failed with
  | nil => exact ⟨[], rfl⟩
  | cons rule rest =>
    rw [if_neg (by simp), if_pos ⟨rfl, List.cons_ne_nil rule rest, h⟩]
    exact ⟨_, rfl⟩

theorem accepted_respond_iff (failed : List Failure) (bypass : List Str) :
    Accepted (respond failed) bypass ↔ ∀ f ∈ failed, Waived f bypass := by
  have hempty : (failed.map Failure.wire).isEmpty = failed.isEmpty := List.isEmpty_map
  constructor
  · rintro ⟨response, ids, hresp, hdecide⟩ f hf
    unfold respond at hresp
    split at hresp
    · cases hresp
    · rename_i hwhole
      rw [← Option.some.inj hresp, ← hempty] at hdecide
      obtain ⟨hbypassable, hcore, hlisted⟩ := postureDecide_ok _ bypass ids hdecide _
        (List.mem_map_of_mem hf)
      simp only [List.any_eq_true, not_exists, not_and, Bool.or_eq_true, not_or,
        Bool.not_eq_true] at hwhole
      exact ⟨hwhole f hf, hbypassable, hcore, hlisted⟩
  · intro hall
    have hwhole : (failed.any fun f => f.id.cut || f.message.cut) = false := by
      rw [List.any_eq_false]
      intro f hf
      simp [(hall f hf).whole.1, (hall f hf).whole.2]
    have hwaived : ∀ rule ∈ failed.map Failure.wire,
        rule.bypassable = true ∧ isCore rule.id = false ∧ rule.id ∈ bypass := by
      intro rule hrule
      obtain ⟨f, hf, rfl⟩ := List.mem_map.mp hrule
      exact ⟨(hall f hf).bypassable, (hall f hf).notCore, (hall f hf).listed⟩
    obtain ⟨ids, hids⟩ := postureDecide_of_waived (failed.map Failure.wire) bypass hwaived
    rw [hempty] at hids
    refine ⟨⟨failed.isEmpty, failed.map Failure.wire⟩, ids, ?_, hids⟩
    unfold respond
    rw [hwhole]
    rfl

theorem not_accepted_respondCore (id message : String) (bypass : List Str) :
    ¬ Accepted (respondCore id message) bypass := by
  intro h
  have hwaived := (accepted_respond_iff _ bypass).mp h _ (List.mem_singleton_self _)
  exact absurd hwaived.bypassable (by simp)

def Admits (bypass : List Str) : Outcome → Prop
  | .skipped => True
  | .passed => True
  | .failed f => Waived f bypass
  | .threw => False
  | .malformed => False

theorem evaluateStep_admits (hostId : Str) (bypass : List Str) (rules : List (PhpValue F))
    (acc : List Failure × List Failure) (result : List Failure × List Failure)
    (h : rules.foldlM (evaluateStep php policy posture hostId) acc = some result) :
    (result.2 = [] ∧ ∀ f ∈ result.1, Waived f bypass) ↔
      (acc.2 = [] ∧ ∀ f ∈ acc.1, Waived f bypass) ∧
        ∀ rule ∈ rules, Admits bypass (evaluateRule php policy posture hostId rule) := by
  induction rules generalizing acc with
  | nil =>
    obtain rfl : acc = result := by simpa using h
    simp
  | cons rule rest ih =>
    rw [List.foldlM_cons, Option.bind_eq_bind, Option.bind_eq_some_iff] at h
    obtain ⟨next, hnext, hrest⟩ := h
    rw [ih next hrest, List.forall_mem_cons]
    unfold evaluateStep at hnext
    cases hrule : evaluateRule php policy posture hostId rule with
    | threw => simp [hrule] at hnext
    | malformed =>
      rw [hrule] at hnext
      rw [← Option.some.inj hnext]
      simp [Admits]
    | skipped =>
      rw [hrule] at hnext
      rw [← Option.some.inj hnext]
      simp [Admits]
    | passed =>
      rw [hrule] at hnext
      rw [← Option.some.inj hnext]
      simp [Admits]
    | failed f =>
      rw [hrule] at hnext
      rw [← Option.some.inj hnext]
      simp only [Admits, List.mem_append, List.mem_singleton, or_imp, forall_and, forall_eq]
      tauto

theorem evaluateStep_total (hostId : Str) (bypass : List Str) (rules : List (PhpValue F))
    (acc : List Failure × List Failure)
    (h : ∀ rule ∈ rules, Admits bypass (evaluateRule php policy posture hostId rule)) :
    ∃ result, rules.foldlM (evaluateStep php policy posture hostId) acc = some result := by
  induction rules generalizing acc with
  | nil => exact ⟨acc, rfl⟩
  | cons rule rest ih =>
    obtain ⟨hfirst, hrest⟩ := List.forall_mem_cons.mp h
    have hnext : ∃ next, evaluateStep php policy posture hostId acc rule = some next := by
      unfold evaluateStep
      cases hrule : evaluateRule php policy posture hostId rule with
      | threw =>
        rw [hrule] at hfirst
        exact hfirst.elim
      | malformed =>
        rw [hrule] at hfirst
        exact hfirst.elim
      | skipped => exact ⟨acc, rfl⟩
      | passed => exact ⟨acc, rfl⟩
      | failed f => exact ⟨_, rfl⟩
    obtain ⟨next, hnext⟩ := hnext
    obtain ⟨result, hresult⟩ := ih next hrest
    refine ⟨result, ?_⟩
    rw [List.foldlM_cons, hnext]
    exact hresult

theorem evaluateStep_errors
    (hostId : Str) (rules : List (PhpValue F)) (acc result : List Failure × List Failure)
    (hacc : ∀ f ∈ acc.2, f.bypassable = false)
    (h : rules.foldlM (evaluateStep php policy posture hostId) acc = some result) :
    ∀ f ∈ result.2, f.bypassable = false := by
  induction rules generalizing acc with
  | nil =>
    obtain rfl : acc = result := by simpa using h
    exact hacc
  | cons rule rest ih =>
    rw [List.foldlM_cons, Option.bind_eq_bind, Option.bind_eq_some_iff] at h
    obtain ⟨next, hnext, hrest⟩ := h
    refine ih next ?_ hrest
    unfold evaluateStep at hnext
    split at hnext
    · cases hnext
    · rw [← Option.some.inj hnext]
      intro f hf
      rcases List.mem_append.mp hf with hold | hnew
      · exact hacc f hold
      · rw [List.mem_singleton.mp hnew]
        rfl
    · exact Option.some.inj hnext ▸ hacc
    · exact Option.some.inj hnext ▸ hacc
    · exact Option.some.inj hnext ▸ hacc

/-- Nothing of the core stands in the way, and the policy could be read. -/
structure CorePassed (php : Php F D) (server : Server F) (r : Request) (policy : Policy F) :
    Prop where
  configured : server.configured = true
  signed : server.signatureValid r = true
  coherent : coherent r = true
  loaded : loadPolicy server.policy = some policy
  current : r.peerVersion ∉ revokedVersions php policy

/-- A device is let in exactly when the core checks pass and every rule admits it. -/
theorem accepted_iff (server : Server F) (body : Option JsonValue)
    (bypass : List Str) (r : Request) (hbody : body.bind parseRequest = some r)
    (hfull : r.signatureOnly = false) :
    Accepted (handle php server body) bypass ↔ ∃ policy, CorePassed php server r policy ∧
      ∀ rule ∈ policy.rules.map Prod.snd,
        Admits bypass (evaluateRule php policy r.posture r.hostId rule) := by
  have hcore : ∀ id message, Accepted (respondCore id message) bypass → False :=
    fun id message => not_accepted_respondCore id message bypass
  constructor
  · intro h
    unfold handle at h
    rw [hbody] at h
    split at h
    · exact (hcore _ _ h).elim
    rename_i hconfigured
    simp only at h
    split at h
    · exact (hcore _ _ h).elim
    rename_i hsigned
    split at h
    · exact (hcore _ _ h).elim
    rename_i hcoherent
    split at h
    · exact (hcore _ _ h).elim
    rename_i policy hpolicy
    split at h
    · exact (hcore _ _ h).elim
    rename_i hcurrent
    rw [hfull, if_neg Bool.false_ne_true] at h
    split at h
    · exact (hcore _ _ h).elim
    rename_i failed policyErrors heval
    refine ⟨policy, ⟨by simpa using hconfigured, by simpa using hsigned, by simpa using hcoherent,
      hpolicy, hcurrent⟩, ?_⟩
    refine ((evaluateStep_admits php policy r.posture r.hostId bypass _ _ _ heval).mp ?_).2
    split at h
    · -- A policy error is never bypassable.
      rename_i herrors
      obtain ⟨f, hf⟩ := List.exists_mem_of_ne_nil policyErrors herrors
      have hwaived := (accepted_respond_iff policyErrors bypass).mp h f hf
      have hfalse := evaluateStep_errors php policy r.posture r.hostId _ _ _ (by simp) heval f hf
      rw [hwaived.bypassable] at hfalse
      exact absurd hfalse (by decide)
    · rename_i herrors
      exact ⟨not_not.mp herrors, (accepted_respond_iff failed bypass).mp h⟩
  · rintro ⟨policy, hpassed, hrules⟩
    obtain ⟨⟨failed, policyErrors⟩, heval⟩ := evaluateStep_total php policy r.posture r.hostId
      bypass _ ([], []) hrules
    have hall := (evaluateStep_admits php policy r.posture r.hostId bypass _ _ _ heval).mpr
      ⟨⟨rfl, by simp⟩, hrules⟩
    obtain rfl : policyErrors = [] := hall.1
    have hrun : evaluateRules php policy r.posture r.hostId = some (failed, []) := heval
    unfold handle
    rw [hbody]
    simp only [hpassed.configured, hpassed.signed, hpassed.coherent, hpassed.loaded,
      hpassed.current, hfull, hrun, Bool.true_eq_false, Bool.false_eq_true, if_false,
      ne_eq, not_true_eq_false]
    exact (accepted_respond_iff failed bypass).mpr hall.2

/-! ### What it means for the rules -/

def InScope (rule groups : Entries F) (hostId : Str) : Prop :=
  (coalesce rule "hosts" .null = .null ∧ coalesce rule "groups" .null = .null) ∨
    (∃ hosts, coalesce rule "hosts" .null = .array hosts ∧ Member hostId hosts) ∨
    ∃ names name members, coalesce rule "groups" .null = .array names ∧ Member name names ∧
      lookup groups name = some (.array members) ∧ Member hostId members

structure Applies (rule groups : Entries F) (posture : PostureMap) (hostId : Str) : Prop where
  enabled : coalesce rule "enabled" (.bool true) = .bool true
  platform : ∀ platforms, coalesce rule "platforms" (.array []) = .array platforms →
    platforms = [] ∨
      ∃ platform, posture.get "platform".toList = some platform ∧ Member platform platforms
  scope : InScope rule groups hostId

/-- `unknown_is` is asked about the value: the device does not know it, the operator is not one
about presence, and either the rule says what then or the operator is not one on lists. -/
def AsksUnknown (rule : Entries F) (v : Str) (o : Op) : Prop :=
  v = unknown ∧ o.isPresence = false ∧
    (coalesce rule "unknown_is" .null ≠ .null ∨ o.isList = false)

def FieldSatisfied (php : Php F D) (posture : PostureMap) (rule : Entries F) (op : Str) : Prop :=
  ∃ field, coalesce rule "field" .null = .text field ∧
    ((posture.get field = none ∧ coalesce rule "allow_missing" (.bool false) = .bool true) ∨
      ∃ v o, posture.get field = some v ∧ Op.ofName op = some o ∧
        ((AsksUnknown rule v o ∧ coalesce rule "unknown_is" .null = .text "pass".toList) ∨
          (¬ AsksUnknown rule v o ∧ Holds php v (coalesce rule "value" .null) o)))

def Satisfied (php : Php F D) (eol : Entries F) (posture : PostureMap) (rule : Entries F) : Prop :=
  ∃ op, coalesce rule "op" .null = .text op ∧
    ((op = "schedule".toList ∧ InSchedule php (coalesce rule "value" .null)) ∨
      (op = "not_eol".toList ∧ NotEol php posture eol) ∨
      (op ≠ "schedule".toList ∧ op ≠ "not_eol".toList ∧ FieldSatisfied php posture rule op))

/-- The host bypasses the rule under the id it is reported with. -/
structure Bypassed (rule : Entries F) (bypass : List Str) : Prop where
  bypassable : coalesce rule "bypassable" (.bool true) = .bool true
  whole : (ruleId (.array rule)).cut = false
  notCore : ¬ "core:".toList <+: (ruleId (.array rule)).text
  listed : (ruleId (.array rule)).text ∈ bypass

theorem isTrue_iff (value : PhpValue F) : isTrue value = true ↔ value = .bool true := by
  cases value <;> simp [isTrue]

theorem platformScope_of_applies
    (h : ∀ platforms, coalesce rule "platforms" (.array []) = .array platforms → platforms = [] ∨
      ∃ platform, posture.get "platform".toList = some platform ∧ Member platform platforms) :
    platformScope rule posture = some true := by
  unfold platformScope
  split
  · rfl
  · rename_i platforms hne hplatforms
    rcases h platforms hplatforms with hempty | ⟨platform, hplatform, hmember⟩
    · exact absurd hempty hne
    · rw [hplatform, Option.map_some, (inArray_iff platform platforms).mpr hmember]
  · rfl

theorem inGroup_of_member (members : Entries F) (hostId name : Str)
    (hlookup : lookup groups name = some (.array members)) (hmember : Member hostId members) :
    inGroup groups hostId name = true := by
  unfold inGroup
  rw [hlookup]
  exact (inArray_iff hostId members).mpr hmember

theorem inHostScope_of_inScope (hostId : Str) (scope : Bool)
    (hscope : InScope rule groups hostId) (h : inHostScope rule groups hostId = some scope) :
    scope = true := by
  have hlist : ∀ entries es : Entries F, scopeList (.array entries) = some es → es = entries := by
    intro entries es hes
    unfold scopeList at hes
    simp only at hes
    split at hes
    · exact (Option.some.inj hes).symm
    · cases hes
  unfold inHostScope at h
  simp only at h
  split at h
  · exact (Option.some.inj h).symm
  · rename_i hnot
    split at h
    · rename_i hs ns hhs hns
      rw [← Option.some.inj h, Bool.or_eq_true]
      rcases hscope with ⟨hhosts, hnames⟩ | ⟨hosts, hhosts, hmember⟩ |
          ⟨names, name, members, hnames, hname, hlookup, hmember⟩
      · rw [hhosts, hnames] at hnot
        exact absurd rfl hnot
      · rw [hhosts] at hhs
        rw [hlist hosts hs hhs]
        exact Or.inl ((inArray_iff hostId hosts).mpr hmember)
      · rw [hnames] at hns
        rw [hlist names ns hns]
        obtain ⟨e, he, htext⟩ := hname
        refine Or.inr (List.any_eq_true.mpr ⟨e, he, ?_⟩)
        rw [htext]
        exact inGroup_of_member groups members hostId name hlookup hmember
    · cases h

theorem readSettings_eq (hostId : Str) (settings : Settings)
    (h : readSettings rule groups hostId = some settings) :
    inHostScope rule groups hostId = some settings.scope ∧
      coalesce rule "bypassable" (.bool true) = .bool settings.bypassable ∧
      coalesce rule "op" .null = .text settings.op ∧
      readUnknownIs (coalesce rule "unknown_is" .null) = some settings.unknownIs := by
  unfold readSettings at h
  split at h
  · rename_i scope bypassable op unknownIs hscope hbypassable hop hunknown
    rw [← Option.some.inj h]
    exact ⟨hscope, hbypassable, hop, hunknown⟩
  · cases h

theorem readUnknownIs_eq (value : PhpValue F) (unknownIs : Option Bool)
    (h : readUnknownIs value = some unknownIs) :
    (unknownIs.isSome = true ↔ value ≠ .null) ∧
      (unknownIs = some true → value = .text "pass".toList) := by
  cases value with
  | null =>
    obtain rfl : none = unknownIs := Option.some.inj h
    simp
  | text s =>
    simp only [readUnknownIs] at h
    split at h
    · rename_i hpass
      obtain rfl : some true = unknownIs := Option.some.inj h
      simp [hpass]
    · obtain ⟨-, rfl : some false = unknownIs⟩ := of_guard h
      simp
  | bool b => cases h
  | int n => cases h
  | float x => cases h
  | array entries => cases h

theorem unknownDecides_iff (op v : Str) (o : Op) (unknownIs : Option Bool)
    (hop : Op.ofName op = some o)
    (hread : readUnknownIs (coalesce rule "unknown_is" .null) = some unknownIs) :
    unknownDecides op v unknownIs = true ↔ AsksUnknown rule v o := by
  rw [AsksUnknown, ← (readUnknownIs_eq _ unknownIs hread).1]
  simp [unknownDecides, hop, and_assoc]

theorem fieldSatisfied_of_verdict (rule : Entries F) (op : Str) (unknownIs : Option Bool)
    (hread : readUnknownIs (coalesce rule "unknown_is" .null) = some unknownIs)
    (h : fieldVerdict php posture rule op unknownIs = .decided true) :
    FieldSatisfied php posture rule op := by
  unfold fieldVerdict at h
  split at h
  · rename_i field hfield
    refine ⟨field, hfield, ?_⟩
    split at h
    · rename_i hmissing
      exact Or.inl ⟨hmissing, (isTrue_iff _).mp (Verdict.decided.inj h)⟩
    · rename_i v hv
      cases hop : Op.ofName op with
      | none => simp [opVerdict, hop] at h
      | some o =>
        have hasks := unknownDecides_iff rule op v o unknownIs hop hread
        have hverdict : opVerdict php op v (coalesce rule "value" .null) =
            evalOp php o v (coalesce rule "value" .null) := by
          unfold opVerdict
          rw [hop]
        refine Or.inr ⟨v, o, hv, rfl, ?_⟩
        split at h
        · rename_i hdecides
          refine Or.inl ⟨hasks.mp hdecides, ?_⟩
          split at h
          · exact (readUnknownIs_eq _ unknownIs hread).2 (of_decide_eq_true (Verdict.decided.inj h))
          · rename_i hother
            exact absurd h (hother true)
        · rename_i hdecides
          rw [hverdict] at h
          exact Or.inr ⟨fun hasked => hdecides (hasks.mpr hasked), holds_of_evalOp php o v _ h⟩
  · cases h

theorem satisfied_of_ruleVerdict (eol : Entries F) (posture : PostureMap)
    (rule : Entries F) (op : Str) (unknownIs : Option Bool)
    (hop : coalesce rule "op" .null = .text op)
    (hread : readUnknownIs (coalesce rule "unknown_is" .null) = some unknownIs)
    (h : ruleVerdict php eol posture rule op unknownIs = .decided true) :
    Satisfied php eol posture rule := by
  refine ⟨op, hop, ?_⟩
  unfold ruleVerdict at h
  split at h
  · rename_i hschedule
    exact Or.inl ⟨hschedule, inSchedule_of_evalSchedule php _ h⟩
  · rename_i hschedule
    split at h
    · rename_i heol
      exact Or.inr (Or.inl ⟨heol, notEol_of_evalNotEol php posture eol h⟩)
    · rename_i heol
      exact Or.inr (Or.inr ⟨hschedule, heol,
        fieldSatisfied_of_verdict php posture rule op unknownIs hread h⟩)

theorem satisfied_or_bypassed (hostId : Str) (bypass : List Str) (rule : Entries F)
    (happlies : Applies rule policy.groups posture hostId)
    (hadmits : Admits bypass (evaluateRule php policy posture hostId (.array rule))) :
    Satisfied php policy.eol posture rule ∨ Bypassed rule bypass := by
  have henabled : isTrue (coalesce rule "enabled" (.bool true)) = true :=
    (isTrue_iff _).mpr happlies.enabled
  have hplatform := platformScope_of_applies rule posture happlies.platform
  simp only [evaluateRule, henabled, Bool.not_true, Bool.false_eq_true, if_false, hplatform]
    at hadmits
  split at hadmits
  · exact hadmits.elim
  · rename_i settings hsettings
    obtain ⟨hscope, hbypassable, hop, hunknown⟩ := readSettings_eq rule policy.groups hostId
      settings hsettings
    have hin := inHostScope_of_inScope rule policy.groups hostId settings.scope happlies.scope
      hscope
    rw [hin, if_pos rfl] at hadmits
    cases hverdict : ruleVerdict php policy.eol posture rule settings.op settings.unknownIs with
    | threw =>
      rw [hverdict] at hadmits
      exact hadmits.elim
    | malformed =>
      rw [hverdict] at hadmits
      exact hadmits.elim
    | decided satisfied =>
      rw [hverdict] at hadmits
      cases satisfied with
      | true =>
        exact Or.inl (satisfied_of_ruleVerdict php policy.eol posture rule settings.op
          settings.unknownIs hop hunknown hverdict)
      | false =>
        have hwaived : Waived ⟨ruleId (.array rule), failureMessage (ruleId (.array rule)) rule,
            settings.bypassable⟩ bypass := hadmits
        refine Or.inr ⟨?_, hwaived.whole.1, of_decide_eq_false hwaived.notCore, hwaived.listed⟩
        have hyes : settings.bypassable = true := hwaived.bypassable
        rw [hbypassable, hyes]

theorem array_of_admits (hostId : Str) (bypass : List Str) (value : PhpValue F)
    (h : Admits bypass (evaluateRule php policy posture hostId value)) :
    ∃ fields, value = .array fields := by
  cases value with
  | array fields => exact ⟨fields, rfl⟩
  | _ => exact h.elim

/-- The rules of the policy have let the device through. -/
structure PolicyMet (php : Php F D) (policy : Policy F) (posture : PostureMap) (hostId : Str)
    (bypass : List Str) : Prop where
  wellFormed : ∀ rule ∈ policy.rules, evaluateRule php policy posture hostId rule.2 ≠ .malformed
  rules : ∀ rule ∈ policy.rules, ∃ fields, rule.2 = .array fields ∧
    (Applies fields policy.groups posture hostId →
      Satisfied php policy.eol posture fields ∨ Bypassed fields bypass)

theorem policyMet_of_admits (hostId : Str)
    (bypass : List Str) (h : ∀ rule ∈ policy.rules.map Prod.snd,
      Admits bypass (evaluateRule php policy posture hostId rule)) :
    PolicyMet php policy posture hostId bypass := by
  have hrule : ∀ rule ∈ policy.rules,
      Admits bypass (evaluateRule php policy posture hostId rule.2) :=
    fun rule hmem => h rule.2 (List.mem_map_of_mem hmem)
  refine ⟨fun rule hmem hmalformed => ?_, fun rule hmem => ?_⟩
  · have hadmits := hrule rule hmem
    rw [hmalformed] at hadmits
    exact hadmits
  · have hadmits := hrule rule hmem
    obtain ⟨fields, hfields⟩ := array_of_admits php policy posture hostId bypass rule.2 hadmits
    rw [hfields] at hadmits
    exact ⟨fields, hfields, fun happlies =>
      satisfied_or_bypassed php policy posture hostId bypass fields happlies hadmits⟩

/-- `doc'` is the document `doc` with one more rule somewhere. -/
structure InsertsRule (doc doc' : Entries F) : Prop where
  others : ∀ key, key ≠ "rules".toList → lookup doc' key = lookup doc key
  rules : ∃ rules rules' before rule after,
    lookup doc "rules".toList = some (.array rules) ∧
      lookup doc' "rules".toList = some (.array rules') ∧
      rules.map Prod.snd = before ++ after ∧ rules'.map Prod.snd = before ++ rule :: after

theorem coalesce_congr (a b : Entries F) (key : String) (default : PhpValue F)
    (h : lookup a key.toList = lookup b key.toList) :
    coalesce a key default = coalesce b key default := by
  unfold coalesce
  rw [h]

theorem loadPolicy_of_insert (doc doc' rules rules' : Entries F) (policy : Policy F)
    (hothers : ∀ key, key ≠ "rules".toList → lookup doc' key = lookup doc key)
    (hrules : lookup doc "rules".toList = some (.array rules))
    (hrules' : lookup doc' "rules".toList = some (.array rules'))
    (h : loadPolicy (some (.array doc')) = some policy) :
    policy.rules = rules' ∧ loadPolicy (some (.array doc)) = some { policy with
    rules := rules } := by
  have hdoc : coalesce doc "rules" .null = .array rules := by
    unfold coalesce
    rw [hrules]
  have hdoc' : coalesce doc' "rules" .null = .array rules' := by
    unfold coalesce
    rw [hrules']
  have hrevoked := coalesce_congr doc' doc "revoked_versions" .null (hothers _ (by decide))
  have hgroups := coalesce_congr doc' doc "groups" .null (hothers _ (by decide))
  have heol := coalesce_congr doc' doc "eol" .null (hothers _ (by decide))
  simp only [loadPolicy, hdoc', hrevoked, hgroups, heol] at h
  simp only [loadPolicy, hdoc]
  split at h
  · rename_i parsed revoked groups eol hparsed hr hg he
    rw [hr, hg, he, ← Option.some.inj h]
    exact ⟨(PhpValue.array.inj hparsed).symm, rfl⟩
  · cases h

theorem accepted_of_insert (server : Server F) (body : Option JsonValue)
    (bypass : List Str) (r : Request) (hbody : body.bind parseRequest = some r)
    (hfull : r.signatureOnly = false) (doc doc' : Entries F) (hinsert : InsertsRule doc doc')
    (h : Accepted (handle php { server with policy := some (.array doc') } body) bypass) :
    Accepted (handle php { server with policy := some (.array doc) } body) bypass := by
  obtain ⟨rules, rules', before, rule, after, hrules, hrules', hold, hnew⟩ := hinsert.rules
  obtain ⟨policy, hpassed, hadmits⟩ :=
    (accepted_iff php _ body bypass r hbody hfull).mp h
  obtain ⟨hpolicy, hloaded⟩ := loadPolicy_of_insert doc doc' rules rules' policy hinsert.others
    hrules hrules' hpassed.loaded
  refine (accepted_iff php _ body bypass r hbody hfull).mpr ⟨{ policy with rules := rules },
    ⟨hpassed.configured, hpassed.signed, hpassed.coherent, hloaded, hpassed.current⟩, ?_⟩
  rw [hpolicy, hnew] at hadmits
  change ∀ value ∈ rules.map Prod.snd, _
  rw [hold]
  intro value hvalue
  refine hadmits value ?_
  rcases List.mem_append.mp hvalue with hbefore | hafter
  · exact List.mem_append_left _ hbefore
  · exact List.mem_append_right _ (List.mem_cons_of_mem rule hafter)

/-- In full mode a device is only let in when no core check failed and every rule that applies to
it is satisfied or bypassed, and another rule in the policy lets no further device in. -/
theorem posture_fails_closed (php : Php F D) (server : Server F) (body : Option JsonValue)
    (bypass : List Str) (r : Request) (hbody : body.bind parseRequest = some r)
    (hfull : r.signatureOnly = false) :
    (∀ response ids, handle php server body = some response →
      postureDecide response.ok response.failed bypass = .ok ids →
        (∀ rule ∈ response.failed, isCore rule.id = false) ∧
          ∃ policy, CorePassed php server r policy ∧
            PolicyMet php policy r.posture r.hostId bypass) ∧
    ∀ doc doc' : Entries F, InsertsRule doc doc' →
      ¬ Accepted (handle php { server with policy := some (.array doc) } body) bypass →
        ¬ Accepted (handle php { server with policy := some (.array doc') } body) bypass := by
  refine ⟨fun response ids hresponse hdecide => ⟨?_, ?_⟩, fun doc doc' hinsert hrefused haccepted =>
    hrefused (accepted_of_insert php server body bypass r hbody hfull doc doc' hinsert haccepted)⟩
  · unfold postureDecide at hdecide
    split at hdecide
    · rename_i hnone
      intro rule hrule
      simp [hnone.2] at hrule
    · split at hdecide
      · rename_i hall
        exact fun rule hrule => (hall.2.2 rule hrule).2.1
      · cases hdecide
  · obtain ⟨policy, hpassed, hadmits⟩ :=
      (accepted_iff php server body bypass r hbody hfull).mp ⟨response, ids, hresponse, hdecide⟩
    exact ⟨policy, hpassed, policyMet_of_admits php policy r.posture r.hostId bypass hadmits⟩

def plainPhp : Php ℕ ℕ where
  preg := fun _ _ => none
  versionCompare := fun _ _ => .eq
  number := fun _ => none
  ofInt := Int.toNat
  floatLe := fun x y => decide (x ≤ y)
  floatText := fun _ => []
  createDate := fun _ => some none
  dateText := fun _ => []
  daysAgo := fun _ => none
  today := 0
  dateLe := fun x y => decide (x ≤ y)
  now := fun _ => none

def object (entries : List (String × PhpValue ℕ)) : PhpValue ℕ :=
  .array (entries.map fun e => (e.1.toList, e.2))

def sampleRules : List (Str × PhpValue ℕ) :=
  [(['0'], object [("id", .text "av".toList), ("field", .text "av_enabled".toList),
      ("op", .text "eq".toList), ("value", .text "true".toList)]),
    (['1'], object [("id", .text "disk".toList), ("field", .text "disk_encrypted".toList),
      ("op", .text "eq".toList), ("value", .text "true".toList)])]

def sampleServer : Server ℕ where
  configured := true
  signatureValid := fun _ => true
  policy := some (object [("rules", .array sampleRules)])

def sampleBody : JsonValue :=
  .array [("posture".toList, .array [("platform".toList, .text "windows".toList),
      ("client_version".toList, .text "1".toList), ("av_enabled".toList, .text "true".toList),
      ("disk_encrypted".toList, .text "unknown".toList)]),
    ("host_id".toList, .text "h".toList), ("challenge".toList, .text "c".toList),
    ("peer_version".toList, .text "1".toList), ("peer_platform".toList, .text "windows".toList),
    ("mac".toList, .text "m".toList)]

def sampleResponse : Response where
  ok := false
  failed := [⟨"disk".toList, "requisito non soddisfatto: disk".toList, true⟩]

theorem sampleBody_full : (parseRequest sampleBody).map Request.signatureOnly = some false := by
  decide

theorem posture_fails_closed_sample : ∃ r, parseRequest sampleBody = some r ∧
    handle plainPhp sampleServer (some sampleBody) = some sampleResponse ∧
    postureDecide false sampleResponse.failed ["disk".toList] = .ok ["disk".toList] ∧
    ∃ policy, CorePassed plainPhp sampleServer r policy ∧
      PolicyMet plainPhp policy r.posture r.hostId ["disk".toList] := by
  obtain ⟨r, hparse, hfull⟩ := Option.map_eq_some_iff.mp sampleBody_full
  have hhandle : handle plainPhp sampleServer (some sampleBody) = some sampleResponse := by
    decide
  have hdecide : postureDecide false sampleResponse.failed ["disk".toList] =
      .ok ["disk".toList] := by rfl
  have hsound := (posture_fails_closed plainPhp sampleServer (some sampleBody) ["disk".toList] r
    hparse hfull).1 sampleResponse ["disk".toList] hhandle hdecide
  exact ⟨r, hparse, hhandle, hdecide, hsound.2⟩

end ClantoDesk.PostureDecision
