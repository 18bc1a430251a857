import ClantoDesk.KeyRotation
import ClantoDesk.ManagedConfig
import Mathlib.Data.List.Pairwise

/-!
The signed policies of a device, src/clanto/policy.rs. A policy is applied when a usable key of the
tenant has signed it, it is for this device and its version is not older than the one in
force. It is saved as received and verified again after a restart, with the keys of that moment.
The version is only kept with the policy in force.
-/
namespace ClantoDesk.PolicyDocuments

open TenantKeys KeyRotation ManagedConfig

structure PolicyLibraries extends Documents where
  parsePolicy : Bytes → Except String Policy

def verifyPolicy (lib : PolicyLibraries) (enrolled : Option Enrollment) (keys : Keys) (now : Int64)
    (signed : Signed) (e : Enrollment) : Except String Policy × Keys :=
  let (payload, keys) :=
    match enrolled with
    | some _ =>
      let (payload, cached) := verify lib.toCrypto enrolled keys.file now signed none keys.cached
      (payload, { keys with cached := cached })
    | none =>
      (match (lib.decode64 e.tenantKey).bind lib.publicKeyFromSlice with
        | none => .error "invalid tenant key"
        | some key =>
          match lib.decode64 signed.payload, lib.decode64 signed.signature with
          | none, _ => .error (lib.decodeError signed.payload)
          | _, none => .error (lib.decodeError signed.signature)
          | some payload, some bytes =>
            match lib.signatureFromBytes bytes with
            | none => .error "invalid signature"
            | some signature =>
              if lib.verifyDetached signature payload key then .ok payload
              else .error "policy signature mismatch", keys)
  match payload with
  | .error text => (.error text, keys)
  | .ok payload =>
    match lib.parsePolicy payload with
    | .error text => (.error text, keys)
    | .ok policy =>
      if policy.deviceId ≠ e.deviceId ∨ policy.tenantId ≠ e.tenantId then
        (.error "policy issued for another device", keys)
      else (.ok policy, keys)

/-- The keys, the managed settings with the policy in force and the file with the last document.
`accepted` are the policies accepted so far, the latest last. -/
structure Device where
  keys : Keys
  settings : State
  file : Option Signed
  accepted : List Policy

def version (s : State) : UInt64 :=
  match s.policy with
  | some policy => policy.version
  | none => 0

def apply (policy : Policy) (s : State) : State :=
  applyEffective (effectiveOptions policy (baselineOf s)) (some policy) s

/-- A policy from the server. `saved` says whether the file could be written. -/
def receive (lib : PolicyLibraries) (e : Enrollment) (signed : Signed) (now : Int64) (saved : Bool)
    (d : Device) : Device :=
  match verifyPolicy lib (some e) d.keys now signed e with
  | (.error _, keys) => { d with keys := keys }
  | (.ok policy, keys) =>
    if policy.version < version d.settings then { d with keys := keys }
    else
      { keys := keys
        settings := apply policy d.settings
        file := if saved then some signed else d.file
        accepted := d.accepted ++ [policy] }

def applySaved (lib : PolicyLibraries) (e : Enrollment) (now : Int64) (d : Device) : Device :=
  match d.file with
  | none => d
  | some signed =>
    match verifyPolicy lib (some e) d.keys now signed e with
    | (.ok policy, keys) => { d with keys := keys, settings := apply policy d.settings }
    | (.error _, keys) => { d with keys := keys }

inductive Event
  | policy (signed : Signed) (now : Int64) (saved : Bool)
  | document (doc : Received)
  | used (now : Int64)
  | restart (now : Int64)

def step (lib : PolicyLibraries) (build : BuildSettings) (e : Enrollment) (d : Device) :
    Event → Option Device
  | .policy signed now saved => some (receive lib e signed now saved d)
  | .document doc =>
    some { d with keys := (KeyRotation.receive lib.toDocuments (some e) doc d.keys).2 }
  | .used now => (KeyRotation.step lib.toDocuments e d.keys (.used now)).map fun keys =>
      { d with keys := keys }
  | .restart now =>
    some (applySaved lib e now
      { d with keys := { d.keys with cached := none }, settings := ManagedConfig.start build })

def start (build : BuildSettings) : Device :=
  ⟨KeyRotation.start, ManagedConfig.start build, none, []⟩

/-- A policy that is accepted can be saved. A restart finds the saved policy signed by a key that
is usable then. -/
def Guard (lib : PolicyLibraries) (e : Enrollment) (d : Device) : Event → Prop
  | .policy signed now saved => ∀ policy keys,
      verifyPolicy lib (some e) d.keys now signed e = (.ok policy, keys) →
        version d.settings ≤ policy.version → saved = true
  | .restart now => ∀ signed, d.file = some signed → ∃ st,
      current lib.toDocuments e { d.keys with cached := none } = some st ∧
        (verifyIn lib.toCrypto (prune st now) signed none now).isSome = true
  | _ => True

def Carries (lib : PolicyLibraries) (e : Enrollment) (signed : Signed) (policy : Policy) : Prop :=
  ∃ payload, lib.decode64 signed.payload = some payload ∧ lib.parsePolicy payload = .ok policy ∧
    policy.deviceId = e.deviceId ∧ policy.tenantId = e.tenantId

variable {lib : PolicyLibraries} {e : Enrollment}

theorem verifyPolicy_ok {keys keys' : Keys} {now : Int64}
    {signed : Signed} {policy : Policy}
    (h : verifyPolicy lib (some e) keys now signed e = (.ok policy, keys')) :
    Carries lib e signed policy := by
  unfold verifyPolicy at h
  simp only at h
  split at h
  · cases h
  · rename_i payload hpayload
    split at h
    · cases h
    · rename_i parsed hparse
      split at h
      · cases h
      · rename_i hdevice
        rw [not_or, not_not, not_not] at hdevice
        obtain rfl := Except.ok.inj (Prod.mk.inj h).1
        exact ⟨payload, verify_payload lib.toCrypto (some e) keys.file keys.cached now signed none
          payload hpayload, hparse, hdevice⟩

theorem verifyPolicy_of_carries {keys : Keys} {now : Int64}
    {signed : Signed} {policy : Policy} {st : Store} (h : Carries lib e signed policy)
    (hst : current lib.toDocuments e keys = some st)
    (hverify : (verifyIn lib.toCrypto (prune st now) signed none now).isSome = true) :
    ∃ keys', verifyPolicy lib (some e) keys now signed e = (.ok policy, keys') := by
  obtain ⟨payload, hdecode, hparse, hdevice⟩ := h
  obtain ⟨bytes, hbytes⟩ := Option.isSome_iff_exists.mp hverify
  have hsame := verifyIn_payload lib.toCrypto _ signed none now bytes hbytes
  obtain rfl := Option.some.inj (hdecode.symm.trans hsame)
  have hok : verify lib.toCrypto (some e) keys.file now signed none keys.cached =
      (.ok payload, some (prune st now)) := by
    rw [verify, withStore_enrolled lib.toDocuments e keys now, hst]
    simp only [hbytes]
  simp only [verifyPolicy, hok, hparse, hdevice, ne_eq, not_true_eq_false, or_self, if_false]
  exact ⟨_, rfl⟩

structure Inv (lib : PolicyLibraries) (e : Enrollment) (d : Device) : Prop where
  inForce : d.settings.policy = d.accepted.getLast?
  sorted : d.accepted.Pairwise fun p q => p.version ≤ q.version
  saved : ∀ policy, d.accepted.getLast? = some policy →
    ∃ signed, d.file = some signed ∧ Carries lib e signed policy
  unsaved : d.accepted = [] → d.file = none

/-- No policy accepted so far is newer than the one in force. -/
theorem Inv.newest {d : Device} (h : Inv lib e d) :
    ∀ p ∈ d.accepted, p.version ≤ version d.settings := by
  intro p hp
  have hne := List.ne_nil_of_mem hp
  have hlast : d.settings.policy = some (d.accepted.getLast hne) :=
    h.inForce.trans (List.getLast?_eq_some_getLast hne)
  rw [version, hlast]
  exact h.sorted.rel_getLast_of_rel_getLast_getLast hp (UInt64.le_refl _)

theorem Inv.withKeys {d : Device} (h : Inv lib e d)
    (keys : Keys) : Inv lib e { d with keys := keys } :=
  ⟨h.inForce, h.sorted, h.saved, h.unsaved⟩

theorem inv_receive (lib : PolicyLibraries) (e : Enrollment) (d : Device) (signed : Signed)
    (now : Int64) (saved : Bool) (h : Inv lib e d)
    (hguard : Guard lib e d (.policy signed now saved)) :
    Inv lib e (receive lib e signed now saved d) ∧
      version d.settings ≤ version (receive lib e signed now saved d).settings := by
  unfold receive
  split
  · exact ⟨h.withKeys _, UInt64.le_refl _⟩
  · rename_i policy keys hverify
    split
    · exact ⟨h.withKeys _, UInt64.le_refl _⟩
    · rename_i hversion
      have hnewer := UInt64.not_lt.mp hversion
      obtain rfl := hguard policy keys hverify hnewer
      refine ⟨⟨?_, ?_, ?_, ?_⟩, hnewer⟩
      · exact List.getLast?_concat.symm
      · refine List.pairwise_append.mpr ⟨h.sorted, List.pairwise_singleton _ _, ?_⟩
        intro p hp q hq
        obtain rfl := List.mem_singleton.mp hq
        exact UInt64.le_trans (h.newest p hp) hnewer
      · intro last hlast
        obtain rfl := Option.some.inj (List.getLast?_concat.symm.trans hlast)
        exact ⟨signed, rfl, verifyPolicy_ok hverify⟩
      · intro hnil
        simp at hnil

theorem inv_restart (lib : PolicyLibraries) (build : BuildSettings) (e : Enrollment) (d : Device)
    (now : Int64) (h : Inv lib e d) (hguard : Guard lib e d (.restart now)) :
    Inv lib e (applySaved lib e now
      { d with keys := { d.keys with
          cached := none }, settings := ManagedConfig.start build }) := by
  unfold applySaved
  cases hlast : d.accepted.getLast? with
  | none =>
    have hnil : d.accepted = [] := List.getLast?_eq_none_iff.mp hlast
    simp only [h.unsaved hnil]
    refine ⟨hlast.symm, h.sorted, ?_, fun _ => rfl⟩
    intro policy hpolicy
    cases hlast.symm.trans hpolicy
  | some policy =>
    obtain ⟨signed, hfile, hcarries⟩ := h.saved policy hlast
    obtain ⟨st, hst, hverify⟩ := hguard signed hfile
    obtain ⟨keys', hok⟩ := verifyPolicy_of_carries hcarries hst hverify
    simp only [hfile, hok]
    refine ⟨hlast.symm, h.sorted, ?_, ?_⟩
    · intro p hp
      obtain rfl := Option.some.inj (hlast.symm.trans hp)
      exact ⟨signed, rfl, hcarries⟩
    · intro hnil
      rw [show d.accepted = [] from hnil] at hlast
      cases hlast

theorem inv_step (lib : PolicyLibraries) (build : BuildSettings) (e : Enrollment) (d : Device)
    (event : Event) (t : Device) (hguard : Guard lib e d event) (h : Inv lib e d)
    (hstep : step lib build e d event = some t) :
    Inv lib e t ∧ version d.settings ≤ version t.settings := by
  cases event with
  | policy signed now saved =>
    obtain rfl := Option.some.inj hstep
    exact inv_receive lib e d signed now saved h hguard
  | document doc =>
    obtain rfl := Option.some.inj hstep
    exact ⟨h.withKeys _, UInt64.le_refl _⟩
  | used now =>
    obtain rfl := Option.some.inj hstep
    exact ⟨h.withKeys _, UInt64.le_refl _⟩
  | restart now =>
    obtain rfl := Option.some.inj hstep
    have hinv := inv_restart lib build e d now h hguard
    refine ⟨hinv, ?_⟩
    have hsame : (applySaved lib e now { d with
        keys := { d.keys with cached := none }, settings := ManagedConfig.start build }).accepted =
          d.accepted := by
      unfold applySaved
      split
      · rfl
      · split <;> rfl
    rw [version, version, hinv.inForce, hsame, h.inForce]
    exact UInt64.le_refl _

/-- When policies can be saved and their keys are usable at restarts, the last accepted policy is in
force in every state, no accepted policy is older than one before, and the version in force never
decreases. -/
theorem policy_in_force (lib : PolicyLibraries) (build : BuildSettings) (e : Enrollment)
    (events : List Event) (d : Device)
    (hmeets : Runs.Meets (Guard lib e) (step lib build e) (start build) events)
    (hexec : Runs.exec (step lib build e) (start build) events = some d) :
    d.settings.policy = d.accepted.getLast? ∧
      d.accepted.Pairwise (fun p q => p.version ≤ q.version) ∧
      ∀ event t, Guard lib e d event → step lib build e d event = some t →
        version d.settings ≤ version t.settings := by
  have hstart : Inv lib e (start build) :=
    ⟨rfl, List.Pairwise.nil, fun policy hpolicy => (by cases hpolicy), fun _ => rfl⟩
  have hinv := Runs.invariant_of_meets (Guard lib e) (step lib build e) (Inv lib e)
    (fun s event t hguard h hstep => (inv_step lib build e s event t hguard h hstep).1)
    (start build) d events hstart hmeets hexec
  exact ⟨hinv.inForce, hinv.sorted, fun event t hguard hstep =>
    (inv_step lib build e d event t hguard hinv hstep).2⟩

section Sample

def policyFive : Policy := ⟨"t", "d", 5, ∅⟩

def policyThree : Policy := ⟨"t", "d", 3, ∅⟩

def policyFivePayload : Bytes :=
  [123, 34, 116, 101, 110, 97, 110, 116, 95, 105, 100, 34, 58, 34, 116, 34, 44, 34, 100, 101,
    118, 105, 99, 101, 95, 105, 100, 34, 58, 34, 100, 34, 44, 34, 118, 101, 114, 115, 105, 111,
    110, 34, 58, 53, 125]

def policyThreePayload : Bytes :=
  [123, 34, 116, 101, 110, 97, 110, 116, 95, 105, 100, 34, 58, 34, 116, 34, 44, 34, 100, 101,
    118, 105, 99, 101, 95, 105, 100, 34, 58, 34, 100, 34, 44, 34, 118, 101, 114, 115, 105, 111,
    110, 34, 58, 51, 125]

def policyFiveSignature : Bytes :=
  [167, 104, 47, 4, 207, 100, 22, 231, 153, 53, 27, 73, 112, 60, 239, 21, 127, 87, 108, 92, 133,
    0, 47, 199, 66, 97, 22, 50, 134, 37, 161, 46, 49, 220, 150, 170, 220, 141, 129, 192, 141, 16,
    43, 29, 121, 10, 104, 21, 217, 175, 56, 143, 240, 229, 174, 130, 37, 109, 101, 185, 18, 112,
    209, 14]

def policyThreeSignature : Bytes :=
  [121, 213, 61, 110, 179, 207, 21, 10, 108, 154, 222, 180, 166, 46, 152, 32, 160, 57, 0, 175,
    177, 176, 208, 196, 199, 215, 179, 36, 201, 146, 117, 46, 11, 96, 169, 135, 188, 227, 67,
    105, 194, 110, 32, 7, 190, 130, 25, 177, 131, 166, 217, 23, 77, 97, 85, 245, 52, 58, 14, 31,
    148, 178, 255, 2]

def policyFiveSigned : Signed :=
  ⟨"eyJ0ZW5hbnRfaWQiOiJ0IiwiZGV2aWNlX2lkIjoiZCIsInZlcnNpb24iOjV9",
    "p2gvBM9kFueZNRtJcDzvFX9XbFyFAC/HQmEWMoYloS4x3Jaq3I2BwI0QKx15CmgV2a84j/DlroIlbWW5EnDRDg=="⟩

def policyThreeSigned : Signed :=
  ⟨"eyJ0ZW5hbnRfaWQiOiJ0IiwiZGV2aWNlX2lkIjoiZCIsInZlcnNpb24iOjN9",
    "edU9brPPFQpsmt60pi6YIKA5AK+xsNDEx9ezJMmSdS4LYKmHvONDacJuIAe+ghmxg6bZF01hVfU0Og4flLL/Ag=="⟩

def sampleLibraries : PolicyLibraries where
  toDocuments := { sampleDocs none with
    decode64 := fun text =>
      if text = policyFiveSigned.payload then some policyFivePayload
      else if text = policyFiveSigned.signature then some policyFiveSignature
      else if text = policyThreeSigned.payload then some policyThreePayload
      else if text = policyThreeSigned.signature then some policyThreeSignature
      else (sampleDocs none).decode64 text
    verifyDetached := fun signature payload pk =>
      decide (pk = oldKey ∧ signature = policyFiveSignature ∧ payload = policyFivePayload) ||
        decide (pk = newKey ∧ signature = policyThreeSignature ∧ payload = policyThreePayload) ||
        (sampleDocs none).verifyDetached signature payload pk }
  parsePolicy payload :=
    if payload = policyFivePayload then .ok policyFive
    else if payload = policyThreePayload then .ok policyThree
    else .error "invalid JSON"

def noBuildSettings : BuildSettings := ⟨∅, fun _ _ => rfl⟩

def versionsAfter (events : List Event) : Option (UInt64 × List UInt64) :=
  (Runs.exec (step sampleLibraries noBuildSettings sampleEnrollment) (start noBuildSettings)
    events).map fun d => (version d.settings, d.accepted.map Policy.version)

/-- A policy is saved and in force again after a restart. -/
theorem policy_in_force_sample :
    ∃ d, Runs.exec (step sampleLibraries noBuildSettings sampleEnrollment) (start noBuildSettings)
        [.policy policyFiveSigned 0 true, .restart 10] = some d ∧
      d.settings.policy = d.accepted.getLast? ∧ d.accepted.map Policy.version = [5] := by
  have hversions : versionsAfter [.policy policyFiveSigned 0 true, .restart 10] =
      some (5, [5]) := by
    decide
  obtain ⟨d, hexec, hd⟩ := Option.map_eq_some_iff.mp hversions
  refine ⟨d, hexec, ?_, (Prod.mk.inj hd).2⟩
  refine (policy_in_force sampleLibraries noBuildSettings sampleEnrollment _ d ?_ hexec).1
  refine ⟨fun _ _ _ _ => rfl, fun d₁ h₁ => ⟨?_, fun _ _ => trivial⟩⟩
  obtain rfl := Option.some.inj h₁
  intro signed hfile
  have hsaved : (receive sampleLibraries sampleEnrollment policyFiveSigned 0 true
      (start noBuildSettings)).file = some policyFiveSigned := by decide
  obtain rfl := Option.some.inj (hsaved.symm.trans hfile)
  exact ⟨initialStore, by decide, by decide⟩

/-- The key of the policy in force is retired. After seven days a restart finds no policy, and one
of an older version is applied. -/
theorem restart_forgets_policy :
    versionsAfter [.policy policyFiveSigned 0 true,
      .document ⟨.rotation, toNewKeySigned, 0, 0, true⟩] = some (5, [5]) ∧
    versionsAfter [.policy policyFiveSigned 0 true,
      .document ⟨.rotation, toNewKeySigned, 0, 0, true⟩, .restart 604800] = some (0, [5]) ∧
    versionsAfter [.policy policyFiveSigned 0 true,
      .document ⟨.rotation, toNewKeySigned, 0, 0, true⟩, .restart 604800,
      .policy policyThreeSigned 604800 true] = some (3, [5, 3]) := by
  decide +kernel

end Sample

end ClantoDesk.PolicyDocuments
