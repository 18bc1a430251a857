import ClantoDesk.PolicyDocuments

/-!
The managed settings over receptions of policies and clears, src/clanto/policy.rs. The baseline is
taken at the first of them and then kept, so what a policy withdraws gets the value it had before
all policies. Of two values for one key the more restrictive is in force where the key has such a
value, and the one that was there first elsewhere.
-/
namespace ClantoDesk.PolicyOverwrite

open ManagedConfig PolicyDocuments Runs

/-! ### The merge -/

def requires (key : String) : Bool := startsWith key "clanto-require-" || key ∈ requireWins

variable (key : String) (gpo : Option String) (policy : String) (initial : Settings)

/-- `N` on either side forbids. -/
theorem merge_enable (hkey : startsWith key "enable-" = true) :
    merge key gpo policy = "N" ↔ gpo = some "N" ∨ policy = "N" := by
  cases gpo with
  | none => simp [merge]
  | some gpo =>
    rw [merge, if_pos hkey]
    by_cases h : gpo = "N" ∨ policy = "N"
    · simp [h]
    · rw [if_neg h]
      rw [not_or] at h
      simp [h.1, h.2]

/-- `Y` on either side requires. -/
theorem merge_require (henable : startsWith key "enable-" = false) (hkey : requires key = true) :
    merge key gpo policy = "Y" ↔ gpo = some "Y" ∨ policy = "Y" := by
  cases gpo with
  | none => simp [merge]
  | some gpo =>
    rw [merge, henable, if_neg Bool.false_ne_true]
    rw [requires] at hkey
    rw [if_pos hkey]
    by_cases h : gpo = "Y" ∨ policy = "Y"
    · simp [h]
    · rw [if_neg h]
      rw [not_or] at h
      simp [h.1, h.2]

theorem merge_other (henable : startsWith key "enable-" = false) (hkey : requires key = false) :
    merge key gpo policy = gpo.getD policy := by
  cases gpo with
  | none => rfl
  | some gpo =>
    rw [requires] at hkey
    rw [merge, henable, if_neg Bool.false_ne_true, hkey, if_neg Bool.false_ne_true]
    rfl

/-! ### Receptions and clears -/

inductive Event
  | receive (verified : Except String Policy)
  | clear

def receive (verified : Except String Policy) (s : State) : State :=
  match verified with
  | .error _ => s
  | .ok policy => if policy.version < version s then s else apply policy s

def step (s : State) : Event → Option State
  | .receive verified => some (receive verified s)
  | .clear => some (applyEffective ∅ none s)

def start (initial : Settings) : State := ⟨initial, [], none, ∅, none, ∅, []⟩

def expected (initial : Settings) (policy : Option Policy) (key : String) : Option String :=
  match policyValue policy key with
  | none => initial.lookup key
  | some v => some (merge key (initial.lookup key) v)

structure Inv (initial : Settings) (s : State) : Prop where
  baseline : ∀ key, (baselineOf s).lookup key =
    if policyKeyAllowed key then initial.lookup key else none
  effective : ∀ key, key ∈ s.effective ↔ (policyValue s.policy key).isSome = true
  settings : ∀ key, s.overwrite.lookup key = expected initial s.policy key

theorem policyValue_allowed (policy : Option Policy) (key v : String)
    (h : policyValue policy key = some v) : policyKeyAllowed key = true := by
  obtain ⟨p, -, hp⟩ := Option.bind_eq_some_iff.mp h
  split at hp
  · rename_i hallowed
    exact hallowed
  · cases hp

/-- Values merged with the baseline keep the invariant, whatever was in force. -/
theorem inv_applyEffective (s : State) (next : Settings)
    (policy : Option Policy) (h : Inv initial s)
    (hnext : ∀ key, next.lookup key =
      (policyValue policy key).map (merge key ((baselineOf s).lookup key))) :
    Inv initial (applyEffective next policy s) := by
  have hbase : ∀ key v, policyValue policy key = some v ∨ policyValue s.policy key = some v →
      (baselineOf s).lookup key = initial.lookup key := by
    intro key v hv
    rw [h.baseline, if_pos]
    exact hv.elim (policyValue_allowed policy key v) (policyValue_allowed s.policy key v)
  refine ⟨h.baseline, ?_, ?_⟩
  · intro key
    show key ∈ next ↔ _
    rw [mem_iff_lookup, hnext, Option.isSome_map]
    rfl
  · intro key
    show (writeOverwrite s.overwrite (baselineOf s) s.effective next).lookup key =
      expected initial policy key
    rw [lookup_writeOverwrite, hnext, expected]
    cases hpolicy : policyValue policy key with
    | some v =>
      rw [hbase key v (Or.inl hpolicy)]
      rfl
    | none =>
      -- the key is given back, or no policy has it
      rw [Option.map_none, Option.none_or]
      by_cases hmem : key ∈ s.effective
      · obtain ⟨v, hv⟩ := Option.isSome_iff_exists.mp ((h.effective key).mp hmem)
        rw [if_pos hmem, hbase key v (Or.inr hv)]
      · have hnone : policyValue s.policy key = none := by
          rw [h.effective] at hmem
          simpa using hmem
        rw [if_neg hmem, h.settings, expected, hnone]

theorem inv_step (s : State) (event : Event) (t : State) (h : Inv initial s)
    (hstep : step s event = some t) : Inv initial t := by
  cases event with
  | receive verified =>
    rw [← Option.some.inj hstep]
    unfold receive
    split
    · exact h
    · rename_i policy
      split
      · exact h
      · exact inv_applyEffective initial s _ (some policy) h
          fun key => lookup_effectiveOptions policy (baselineOf s) key
  | clear =>
    rw [← Option.some.inj hstep]
    refine inv_applyEffective initial s ∅ none h fun key => ?_
    rw [AList.lookup_empty]
    rfl

theorem inv_start : Inv initial (start initial) where
  baseline := lookup_allowedPart initial
  effective := by
    intro key
    simp [start, policyValue]
  settings := fun key => rfl

/-- In every run the settings are the initial ones, merged with the policy in force on its keys, and
after a clear they are the initial ones; the merge is as restrictive as both values on the
keys with a restrictive value. -/
theorem overwrite_spec (initial : Settings) (events : List Event) (s : State)
    (hexec : exec step (start initial) events = some s) :
    (∀ key, policyKeyAllowed key = false → s.overwrite.lookup key = initial.lookup key) ∧
    (∀ key v, policyValue s.policy key = some v →
      s.overwrite.lookup key = some (merge key (initial.lookup key) v)) ∧
    (∀ key, policyValue s.policy key = none → s.overwrite.lookup key = initial.lookup key) ∧
    (∀ t, step s .clear = some t → t.policy = none ∧
      ∀ key, t.overwrite.lookup key = initial.lookup key) ∧
    ∀ key gpo policy,
      (startsWith key "enable-" = true →
        (merge key gpo policy = "N" ↔ gpo = some "N" ∨ policy = "N")) ∧
      (startsWith key "enable-" = false → requires key = true →
        (merge key gpo policy = "Y" ↔ gpo = some "Y" ∨ policy = "Y")) ∧
      (startsWith key "enable-" = false → requires key = false →
        merge key gpo policy = gpo.getD policy) := by
  have hinv := invariant_of_exec step (Inv initial) (inv_step initial) (start initial) s events
    (inv_start initial) hexec
  have hnone : ∀ key, policyValue s.policy key = none →
      s.overwrite.lookup key = initial.lookup key := by
    intro key hkey
    rw [hinv.settings, expected, hkey]
  refine ⟨?_, ?_, hnone, ?_, ?_⟩
  · intro key hkey
    refine hnone key ?_
    by_contra hsome
    obtain ⟨v, hv⟩ := Option.ne_none_iff_exists'.mp hsome
    rw [policyValue_allowed s.policy key v hv] at hkey
    cases hkey
  · intro key v hv
    rw [hinv.settings, expected, hv]
  · intro t ht
    have hpolicy : t.policy = none := by rw [← Option.some.inj ht]; rfl
    refine ⟨hpolicy, fun key => ?_⟩
    rw [(inv_step initial s .clear t hinv ht).settings, expected, hpolicy]
    rfl
  · intro key gpo policy
    exact ⟨merge_enable key gpo policy, merge_require key gpo policy, merge_other key gpo policy⟩

def sampleInitial : Settings :=
  (AList.singleton "enable-clipboard" "Y").insert "relay-server" ""

/-- A policy that forbids the clipboard and the sound, and a later one that requires a second
factor. -/
def sampleEvents : List Event :=
  [.receive (.ok ⟨"t", "d", 1, (AList.singleton "enable-clipboard" "N").insert "enable-audio" "N"⟩),
    .receive (.error "policy signature mismatch"),
    .receive (.ok ⟨"t", "d", 2, AList.singleton "clanto-require-2fa" "Y"⟩)]

theorem overwrite_spec_sample :
    ∃ s, exec step (start sampleInitial) sampleEvents = some s ∧
      s.overwrite.lookup "clanto-require-2fa" = some "Y" ∧
      s.overwrite.lookup "enable-clipboard" = some "Y" ∧
      s.overwrite.lookup "enable-audio" = none ∧ s.overwrite.lookup "relay-server" = some "" := by
  obtain ⟨hfixed, hmerged, hkept, -⟩ := overwrite_spec sampleInitial sampleEvents _ rfl
  refine ⟨_, rfl, ?_, ?_, ?_, ?_⟩
  · exact (hmerged "clanto-require-2fa" "Y" (by decide)).trans (by decide)
  · exact (hkept "enable-clipboard" (by decide)).trans (by decide)
  · exact (hkept "enable-audio" (by decide)).trans (by decide)
  · exact (hfixed "relay-server" (by decide)).trans (by decide)

/-- `outgoing::allowed_value` -/
def allowedValue (value : String) : Bool := value ≠ "N"

/-- A key of a policy whose merged value allows what the policy forbids. -/
theorem merge_keeps_gpo :
    ¬ ∀ key gpo policy, policyKeyAllowed key = true → startsWith key "clanto-outgoing-" = true →
      allowedValue (merge key (some gpo) policy) = true →
        allowedValue gpo = true ∧ allowedValue policy = true := by
  intro h
  have hboth := h "clanto-outgoing-clipboard" "Y" "N" (by decide) (by decide)
    (by decide)
  exact absurd hboth.2 (by decide)

end ClantoDesk.PolicyOverwrite
