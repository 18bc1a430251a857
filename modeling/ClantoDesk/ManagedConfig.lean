import ClantoDesk.Runs
import ClantoDesk.Text
import Mathlib.Data.List.AList

/-!
Two writers of the managed settings. The configuration of the device, src/clanto/managed_config.rs,
removes the keys it wrote before and writes its new ones. The policy of the tenant,
src/clanto/policy.rs, combines its options with the values that were there before the first policy,
the baseline, and puts those back where it withdraws. An apply reads the baseline and writes the
settings in two critical sections, so pushes of the configuration may fall in between.
-/
namespace ClantoDesk.ManagedConfig

abbrev Settings := AList fun _ : String => String

def gpoKeys : List String :=
  ["enable-remote-printer", "enable-clipboard", "enable-file-transfer", "enable-camera",
    "enable-terminal", "enable-tunnel", "enable-remote-restart", "enable-record-session",
    "enable-keyboard", "enable-audio", "enable-lan-discovery", "allow-auto-disconnect",
    "auto-disconnect-timeout", "verification-method", "approve-mode", "id-whitelist",
    "clanto-id-permissions", "clanto-trusted-controllers", "clanto-require-2fa",
    "clanto-access-hours", "clanto-share-device-identity", "clanto-forward-enabled",
    "clanto-forward-services-host", "clanto-forward-services-controller",
    "clanto-forward-custom-host", "clanto-forward-custom-host-targets", "clanto-forward-reverse",
    "clanto-forward-custom-controller", "clanto-forward-custom-controller-targets",
    "clanto-forward-webcam", "clanto-forward-webcam-send", "clanto-forward-webcam-receive",
    "clanto-forward-camera-device", "clanto-temp-password-rotate-minutes",
    "clanto-require-protected-device", "clanto-posture-bypass", "clanto-file-scan",
    "clanto-file-scan-clamd", "clanto-file-scan-max-mb", "clanto-file-direction",
    "clanto-file-blocked-ext", "clanto-eventlog-enabled", "clanto-syslog-enabled",
    "clanto-syslog-host", "clanto-syslog-port", "clanto-syslog-protocol", "clanto-syslog-facility",
    "clanto-syslog-tls-ca", "clanto-syslog-format", "clanto-session-log-days",
    "clanto-privacy-prompt", "allow-auto-update", "clanto-outgoing-file-transfer",
    "clanto-outgoing-clipboard", "clanto-outgoing-tunnel", "clanto-outgoing-terminal",
    "clanto-outgoing-remote-printer", "clanto-outgoing-record",
    "clanto-require-controller-watermark", "clanto-host-watermark", "clanto-lock-settings",
    "clanto-enroll-token", "clanto-unenroll"]

def enrollmentKeys : List String := ["clanto-enroll-token", "clanto-unenroll"]

def requireWins : List String := ["clanto-host-watermark", "clanto-lock-settings"]

def policyKeyAllowed (key : String) : Bool := decide (key ∈ gpoKeys ∧ key ∉ enrollmentKeys)

def startsWith (key start : String) : Bool := start.toList.isPrefixOf key.toList

def merge (key : String) (gpo : Option String) (policy : String) : String :=
  match gpo with
  | none => policy
  | some gpo =>
    if startsWith key "enable-" then if gpo = "N" ∨ policy = "N" then "N" else gpo
    else if startsWith key "clanto-require-" || key ∈ requireWins then
      if gpo = "Y" ∨ policy = "Y" then "Y" else gpo
    else gpo

inductive Value
  | string (text : String)
  | bool (b : Bool)
  | number (text : String)
  | other

def valueString : Value → Option String
  | .string s =>
    let trimmed := Text.trim s.toList
    if trimmed.isEmpty then none else some (String.ofList trimmed)
  | .bool b => some (if b then "Y" else "N")
  | .number text => some text
  | .other => none

/-- The pairs of a configuration; `none` is a text that is no JSON object. -/
def managedPairs (json : Option (List (String × Value))) : List (String × String) :=
  match json with
  | none => []
  | some map => map.filterMap fun e =>
      if e.1 ∈ gpoKeys then (valueString e.2).map fun v => (e.1, v) else none

structure Policy where
  tenantId : String
  deviceId : String
  version : UInt64
  options : Settings

def writeOverwrite (overwrite baseline previous next : Settings) : Settings :=
  let restored := (previous.keys.filter fun k => (next.lookup k).isNone).foldl
    (fun m key =>
      match baseline.lookup key with
      | some v => m.insert key v
      | none => m.erase key) overwrite
  next.entries.foldl (fun m e => m.insert e.1 e.2) restored

def effectiveOptions (policy : Policy) (baseline : Settings) : Settings :=
  policy.options.entries.foldl
    (fun m e =>
      if policyKeyAllowed e.1 then m.insert e.1 (merge e.1 (baseline.lookup e.1) e.2) else m) ∅

def allowedPart (overwrite : Settings) : Settings :=
  overwrite.entries.foldl (fun m e => if policyKeyAllowed e.1 then m.insert e.1 e.2 else m) ∅

/-- The managed settings and what the two writers remember: the keys of the last configuration, and
the baseline, the values and the policy of the last apply. `pushed` is the last configuration
itself and `pending` are the applies between their two critical sections. -/
structure State where
  overwrite : Settings
  applied : List String
  baseline : Option Settings
  effective : Settings
  policy : Option Policy
  pushed : Settings
  pending : List (Policy × Settings)

def applyJson (json : Option (List (String × Value))) (s : State) : State :=
  let pairs := managedPairs json
  let cleared := s.applied.foldl (fun m key => m.erase key) s.overwrite
  { s with
    overwrite := pairs.foldl (fun m e => m.insert e.1 e.2) cleared
    applied := pairs.map Prod.fst
    pushed := pairs.foldl (fun m e => m.insert e.1 e.2) ∅ }

def applyEffective (next : Settings) (policy : Option Policy) (s : State) : State :=
  let baseline := s.baseline.getD (allowedPart s.overwrite)
  { s with
    overwrite := writeOverwrite s.overwrite baseline s.effective next
    baseline := some baseline
    effective := next
    policy := policy }

/-- The first half of `apply_and_ack`. -/
def beginApply (policy : Policy) (s : State) : State :=
  let baseline := s.baseline.getD (allowedPart s.overwrite)
  { s with pending := s.pending ++ [(policy, effectiveOptions policy baseline)] }

inductive Event
  | push (json : Option (List (String × Value)))
  | beginApply (policy : Policy)
  | endApply (i : ℕ)
  | clear

def step (s : State) : Event → Option State
  | .push json => some (applyJson json s)
  | .beginApply policy => some (beginApply policy s)
  | .endApply i =>
    (s.pending[i]?).map fun p =>
      { applyEffective p.2 (some p.1) s with pending := s.pending.eraseIdx i }
  | .clear => some (applyEffective ∅ none s)

/-- The settings a build fixes. None of them can be managed. -/
structure BuildSettings where
  settings : Settings
  unmanaged : ∀ key ∈ gpoKeys, settings.lookup key = none

def start (build : BuildSettings) : State := ⟨build.settings, [], none, ∅, none, ∅, []⟩

def policyValue (policy : Option Policy) (key : String) : Option String :=
  policy.bind fun p => if policyKeyAllowed key then p.options.lookup key else none

def managedValue (build : BuildSettings) (s : State) (key : String) : Option String :=
  (s.pushed.lookup key).or (build.settings.lookup key)

def merged (build : BuildSettings) (s : State) (key : String) : Option String :=
  match policyValue s.policy key with
  | none => managedValue build s key
  | some v => some (merge key (managedValue build s key) v)

def Merged (build : BuildSettings) (s : State) : Prop :=
  ∀ key, s.overwrite.lookup key = merged build s key

variable (build : BuildSettings) (s : State) (json : Option (List (String × Value)))

theorem lookup_collect (p : String → Bool) (f : String → String → String)
    (l : List (Σ _ : String, String)) (hl : l.NodupKeys) (m : Settings) (key : String) :
    (l.foldl (fun m e => if p e.1 then m.insert e.1 (f e.1 e.2) else m) m).lookup key =
      if p key then ((l.dlookup key).map (f key)).or (m.lookup key) else m.lookup key := by
  induction l generalizing m with
  | nil => simp
  | cons e l ih =>
    obtain ⟨a, b⟩ := e
    obtain ⟨hfresh, hrest⟩ := List.nodupKeys_cons.mp hl
    rw [List.foldl_cons, ih hrest]
    by_cases hkey : key = a
    · subst hkey
      rw [List.dlookup_cons_eq, List.dlookup_eq_none.mpr hfresh]
      by_cases hp : p key = true
      · simp [hp]
      · simp [hp]
    · rw [List.dlookup_cons_ne l ⟨a, b⟩ hkey]
      have hsame : (if p a then m.insert a (f a b) else m).lookup key = m.lookup key := by
        split
        · exact AList.lookup_insert_ne hkey
        · rfl
      simp only [hsame]

theorem lookup_foldl_insert (pairs : List (String × String)) (m : Settings) (key : String) :
    (pairs.foldl (fun m e => m.insert e.1 e.2) m).lookup key =
      (AList.lookup key (pairs.foldl (fun m e => m.insert e.1 e.2) (∅ : Settings))).or
        (m.lookup key) := by
  induction pairs generalizing m with
  | nil => simp
  | cons e pairs ih =>
    rw [List.foldl_cons, List.foldl_cons, ih (m.insert e.1 e.2), ih (AList.insert e.1 e.2 ∅),
      Option.or_assoc]
    by_cases hkey : key = e.1
    · subst hkey
      rw [AList.lookup_insert, AList.lookup_insert, Option.some_or]
    · rw [AList.lookup_insert_ne hkey, AList.lookup_insert_ne hkey, AList.lookup_empty,
        Option.none_or]

theorem lookup_restored (baseline : Settings) (keys : List String) (m : Settings) (key : String) :
    (keys.foldl (fun m k =>
      match baseline.lookup k with
      | some v => m.insert k v
      | none => m.erase k) m).lookup key =
      if key ∈ keys then baseline.lookup key else m.lookup key := by
  induction keys generalizing m with
  | nil => simp
  | cons k keys ih =>
    rw [List.foldl_cons, ih]
    by_cases hmem : key ∈ keys
    · simp [hmem]
    · rw [if_neg hmem]
      by_cases hkey : key = k
      · subst hkey
        rw [if_pos List.mem_cons_self]
        cases hbase : baseline.lookup key with
        | none => exact AList.lookup_erase key m
        | some v => exact AList.lookup_insert m
      · rw [if_neg (by simp [hkey, hmem])]
        cases hbase : baseline.lookup k with
        | none => exact AList.lookup_erase_ne hkey
        | some v => exact AList.lookup_insert_ne hkey

theorem lookup_foldl_erase (keys : List String) (m : Settings) (key : String) :
    (keys.foldl (fun m k => m.erase k) m).lookup key =
      if key ∈ keys then none else m.lookup key := by
  induction keys generalizing m with
  | nil => simp
  | cons k keys ih =>
    rw [List.foldl_cons, ih]
    by_cases hmem : key ∈ keys
    · simp [hmem]
    · rw [if_neg hmem]
      by_cases hkey : key = k
      · subst hkey
        simp
      · rw [if_neg (by simp [hkey, hmem])]
        exact AList.lookup_erase_ne hkey

theorem lookup_writeOverwrite (overwrite baseline previous next : Settings) (key : String) :
    (writeOverwrite overwrite baseline previous next).lookup key =
      (next.lookup key).or
        (if key ∈ previous then baseline.lookup key else overwrite.lookup key) := by
  have hinsert := lookup_collect (fun _ => true) (fun _ v => v) next.entries next.nodupKeys
    ((previous.keys.filter fun k => (next.lookup k).isNone).foldl
      (fun m k =>
        match baseline.lookup k with
        | some v => m.insert k v
        | none => m.erase k) overwrite) key
  simp only [if_true, Option.map_id'] at hinsert
  rw [writeOverwrite, hinsert, lookup_restored]
  change (next.lookup key).or _ = _
  cases hnext : next.lookup key with
  | some v => rfl
  | none => simp [hnext, AList.mem_keys]

theorem lookup_effectiveOptions (policy : Policy) (baseline : Settings) (key : String) :
    (effectiveOptions policy baseline).lookup key =
      (policyValue (some policy) key).map (merge key (baseline.lookup key)) := by
  rw [effectiveOptions, lookup_collect policyKeyAllowed
    (fun k v => merge k (baseline.lookup k) v) _ policy.options.nodupKeys]
  simp only [policyValue, Option.bind_some]
  split
  · simp [AList.lookup]
  · simp

theorem lookup_allowedPart (overwrite : Settings) (key : String) :
    (allowedPart overwrite).lookup key =
      if policyKeyAllowed key then overwrite.lookup key else none := by
  rw [allowedPart, lookup_collect policyKeyAllowed (fun _ v => v) _ overwrite.nodupKeys]
  simp [AList.lookup]

/-- What the two writers remember agrees with what they wrote last. -/
structure Inv (s : State) : Prop where
  applied : ∀ key, key ∈ s.applied ↔ key ∈ s.pushed
  gpo : ∀ key ∈ s.pushed, key ∈ gpoKeys
  effective : ∀ key, key ∈ s.effective ↔ (policyValue s.policy key).isSome = true
  pending : ∀ p ∈ s.pending, ∀ key, key ∈ p.2 ↔ (policyValue (some p.1) key).isSome = true

def pushedBy (json : Option (List (String × Value))) : Settings :=
  (managedPairs json).foldl (fun m e => m.insert e.1 e.2) ∅

def baselineOf (s : State) : Settings := s.baseline.getD (allowedPart s.overwrite)

/-- A push leaves what it writes to the policy's keys as restrictive as the policy, and withdraws
none of them. An apply was computed from values that merge as those pushed now do.
Keys that an apply or a clear takes from the policy have their pushed values in the baseline. -/
def Guard (build : BuildSettings) (s : State) : Event → Prop
  | .push json => ∀ key v, policyValue s.policy key = some v →
      match (pushedBy json).lookup key with
      | some g => merge key (some g) v = g
      | none => key ∉ s.pushed
  | .beginApply _ => True
  | .endApply i => ∀ p, s.pending[i]? = some p →
      (∀ key v, policyValue (some p.1) key = some v →
        p.2.lookup key = some (merge key (managedValue build s key) v)) ∧
      ∀ key, policyValue (some p.1) key = none → (policyValue s.policy key).isSome = true →
        (baselineOf s).lookup key = managedValue build s key
  | .clear => ∀ key, (policyValue s.policy key).isSome = true →
      (baselineOf s).lookup key = managedValue build s key

theorem mem_iff_lookup (m : Settings) (key : String) : key ∈ m ↔ (m.lookup key).isSome = true :=
  AList.lookup_isSome.symm

theorem mem_pushedBy (key : String) :
    key ∈ pushedBy json ↔ key ∈ (managedPairs json).map Prod.fst := by
  have hfold : ∀ (pairs : List (String × String)) (m : Settings),
      key ∈ pairs.foldl (fun m e => m.insert e.1 e.2) m ↔ key ∈ pairs.map Prod.fst ∨ key ∈ m := by
    intro pairs
    induction pairs with
    | nil => simp
    | cons e pairs ih =>
      intro m
      rw [List.foldl_cons, ih, AList.mem_insert, List.map_cons, List.mem_cons]
      tauto
  rw [pushedBy, hfold]
  simp

theorem pushedBy_gpo (key : String) (h : key ∈ pushedBy json) : key ∈ gpoKeys := by
  obtain ⟨e, he, rfl⟩ := List.mem_map.mp ((mem_pushedBy json key).mp h)
  cases json with
  | none => cases he
  | some map =>
    obtain ⟨entry, -, hsome⟩ := List.mem_filterMap.mp he
    split at hsome
    · rename_i hgpo
      obtain ⟨v, -, rfl⟩ := Option.map_eq_some_iff.mp hsome
      exact hgpo
    · cases hsome

theorem mem_effectiveOptions (policy : Policy) (baseline : Settings) (key : String) :
    key ∈ effectiveOptions policy baseline ↔ (policyValue (some policy) key).isSome = true := by
  rw [mem_iff_lookup, lookup_effectiveOptions, Option.isSome_map]

theorem inv_step (event : Event) (t : State) (h : Inv s) (hstep : step s event = some t) :
    Inv t := by
  cases event with
  | push json =>
    obtain rfl := Option.some.inj hstep
    exact ⟨fun key => (mem_pushedBy json key).symm, pushedBy_gpo json, h.effective, h.pending⟩
  | beginApply policy =>
    obtain rfl := Option.some.inj hstep
    refine ⟨h.applied, h.gpo, h.effective, ?_⟩
    intro p hp
    rcases List.mem_append.mp hp with hold | hnew
    · exact h.pending p hold
    · obtain rfl := List.mem_singleton.mp hnew
      exact mem_effectiveOptions policy _
  | endApply i =>
    obtain ⟨p, hp, rfl⟩ := Option.map_eq_some_iff.mp hstep
    refine ⟨h.applied, h.gpo, h.pending p (List.mem_of_getElem? hp), ?_⟩
    intro q hq
    exact h.pending q (List.mem_of_mem_eraseIdx hq)
  | clear =>
    obtain rfl := Option.some.inj hstep
    refine ⟨h.applied, h.gpo, ?_, h.pending⟩
    intro key
    simp [applyEffective, policyValue]

theorem policyValue_gpo {policy : Option Policy} {key v : String}
    (h : policyValue policy key = some v) : key ∈ gpoKeys := by
  obtain ⟨p, -, hp⟩ := Option.bind_eq_some_iff.mp h
  split at hp
  · rename_i hallowed
    exact (of_decide_eq_true hallowed).1
  · cases hp

theorem managedValue_of_not_mem {build : BuildSettings} {s : State} {key : String}
    (h : key ∉ s.pushed) : managedValue build s key = build.settings.lookup key := by
  rw [managedValue, AList.lookup_eq_none.mpr h, Option.none_or]

theorem lookup_applyJson (s : State) (key : String) :
    (applyJson json s).overwrite.lookup key =
      ((pushedBy json).lookup key).or
        (if key ∈ s.applied then none else s.overwrite.lookup key) := by
  rw [applyJson, lookup_foldl_insert, lookup_foldl_erase]
  rfl

theorem merged_push (h : Inv s) (hmerged : Merged build s) :
    Merged build (applyJson json s) ↔ Guard build s (.push json) := by
  have hkey : ∀ key, (applyJson json s).overwrite.lookup key = merged build (applyJson json s) key ↔
      ∀ v, policyValue s.policy key = some v →
        match (pushedBy json).lookup key with
        | some g => merge key (some g) v = g
        | none => key ∉ s.pushed := by
    intro key
    have hold := hmerged key
    have hnew : merged build (applyJson json s) key =
        match policyValue s.policy key with
        | none => ((pushedBy json).lookup key).or (build.settings.lookup key)
        | some v =>
            some (merge key (((pushedBy json).lookup key).or (build.settings.lookup key)) v) :=
      rfl
    rw [lookup_applyJson, hnew]
    unfold merged at hold
    cases hpolicy : policyValue s.policy key with
    | none =>
      refine iff_of_true ?_ (fun v hv => by cases hv)
      rw [hpolicy] at hold
      cases hpushed : (pushedBy json).lookup key with
      | some g => rfl
      | none =>
        rw [Option.none_or, Option.none_or]
        split
        · rename_i hmem
          exact (build.unmanaged key (h.gpo key ((h.applied key).mp hmem))).symm
        · rename_i hmem
          rw [hold, managedValue_of_not_mem fun hin => hmem ((h.applied key).mpr hin)]
    | some v =>
      have hbuild := build.unmanaged key (policyValue_gpo hpolicy)
      rw [hpolicy] at hold
      cases hpushed : (pushedBy json).lookup key with
      | some g => simp [hbuild, eq_comm]
      | none =>
        simp only [Option.none_or, hbuild]
        by_cases hmem : key ∈ s.applied
        · simp [hmem, (h.applied key).mp hmem]
        · have hnot : key ∉ s.pushed := fun hin => hmem ((h.applied key).mpr hin)
          rw [managedValue_of_not_mem hnot, hbuild] at hold
          simp [hmem, hnot, hold]
  exact ⟨fun hall key => (hkey key).mp (hall key), fun hall key => (hkey key).mpr (hall key)⟩

theorem merged_applyEffective (next : Settings)
    (policy : Option Policy) (pending : List (Policy × Settings)) (h : Inv s)
    (hmerged : Merged build s)
    (hnext : ∀ key, key ∈ next ↔ (policyValue policy key).isSome = true) :
    Merged build { applyEffective next policy s with pending := pending } ↔
      (∀ key v, policyValue policy key = some v →
        next.lookup key = some (merge key (managedValue build s key) v)) ∧
      ∀ key, policyValue policy key = none → (policyValue s.policy key).isSome = true →
        (baselineOf s).lookup key = managedValue build s key := by
  have hkey : ∀ key, (writeOverwrite s.overwrite (baselineOf s) s.effective next).lookup key =
      (match policyValue policy key with
        | none => managedValue build s key
        | some v => some (merge key (managedValue build s key) v)) ↔
      (∀ v, policyValue policy key = some v →
        next.lookup key = some (merge key (managedValue build s key) v)) ∧
      (policyValue policy key = none → (policyValue s.policy key).isSome = true →
        (baselineOf s).lookup key = managedValue build s key) := by
    intro key
    rw [lookup_writeOverwrite]
    cases hpolicy : policyValue policy key with
    | some v =>
      obtain ⟨w, hw⟩ := Option.isSome_iff_exists.mp
        ((mem_iff_lookup next key).mp ((hnext key).mpr (by rw [hpolicy]; rfl)))
      simp [hw]
    | none =>
      have hnone : next.lookup key = none := by
        rw [AList.lookup_eq_none, hnext, hpolicy]
        simp
      simp only [hnone, Option.none_or]
      by_cases hmem : key ∈ s.effective
      · have hsome := (h.effective key).mp hmem
        simp [hmem, hsome]
      · have hnot : policyValue s.policy key = none := by
          rw [h.effective] at hmem
          simpa using hmem
        have hold := hmerged key
        rw [merged, hnot] at hold
        simp [hmem, hnot, hold]
  constructor
  · intro hall
    exact ⟨fun key => ((hkey key).mp (hall key)).1, fun key => ((hkey key).mp (hall key)).2⟩
  · rintro ⟨hset, hkept⟩ key
    exact (hkey key).mpr ⟨hset key, hkept key⟩

theorem merged_step (event : Event) (t : State) (h : Inv s)
    (hmerged : Merged build s) (hstep : step s event = some t) :
    Merged build t ↔ Guard build s event := by
  cases event with
  | push json =>
    obtain rfl := Option.some.inj hstep
    exact merged_push build s json h hmerged
  | beginApply policy =>
    obtain rfl := Option.some.inj hstep
    exact iff_of_true hmerged trivial
  | endApply i =>
    obtain ⟨p, hp, rfl⟩ := Option.map_eq_some_iff.mp hstep
    rw [merged_applyEffective build s p.2 (some p.1) _ h hmerged
      (h.pending p (List.mem_of_getElem? hp))]
    constructor
    · intro hguard q hq
      obtain rfl := Option.some.inj (hp.symm.trans hq)
      exact hguard
    · intro hguard
      exact hguard p hp
  | clear =>
    obtain rfl := Option.some.inj hstep
    have happly := merged_applyEffective build s ∅ none s.pending h hmerged
      (fun key => by simp [policyValue])
    constructor
    · intro hall key hkey
      exact (happly.mp hall).2 key rfl hkey
    · intro hguard
      exact happly.mpr ⟨fun key v hv => (by cases hv), fun key _ hkey => hguard key hkey⟩

/-- A run keeps every setting at the merge of what is pushed and what is applied exactly if all its
steps meet the guard. -/
theorem settings_merged_iff (build : BuildSettings) (events : List Event) :
    Runs.Along (Merged build) step (start build) events ↔
      Runs.Meets (Guard build) step (start build) events := by
  refine Runs.along_iff_meets (Guard build) step (Merged build) Inv inv_step
    (merged_step build) ?_ (start build) events ?_ ?_
  · intro s event hnone
    cases event with
    | push json => cases hnone
    | beginApply policy => trivial
    | endApply i =>
      intro p hp
      rw [step, hp] at hnone
      cases hnone
    | clear => cases hnone
  · refine ⟨fun key => ?_, fun key hkey => ?_, fun key => ?_, fun p hp => (by cases hp)⟩
    · simp [start]
    · simp [start] at hkey
    · simp [start, policyValue]
  · intro key
    simp [start, merged, policyValue, managedValue]

/-- A policy forbids the clipboard, and then the configuration allows it. -/
theorem push_overrides_policy :
    ∃ build s, Runs.exec step (start build)
        [.beginApply ⟨"t", "d", 1, AList.singleton "enable-clipboard" "N"⟩, .endApply 0,
          .push (some [("enable-clipboard", .string "Y")])] = some s ∧
      s.overwrite.lookup "enable-clipboard" = some "Y" ∧
      merged build s "enable-clipboard" = some "N" := by
  refine ⟨⟨∅, fun _ _ => rfl⟩, _, rfl, ?_, ?_⟩
  · decide
  · decide

end ClantoDesk.ManagedConfig
