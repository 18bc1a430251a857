import ClantoDesk.VideoQos

/-!
Without adaptive bitrate a viewer's rate and delay state are a function of its own events and of
the latest image quality. A run is reduced to the log of one viewer's own events; replaying that
log without the other viewers gives the states the run went through.
-/
namespace ClantoDesk.ViewerIsolation

open VideoQos VideoQoS

variable {F : Type} [F32 F]

def ofViewer (id : ℤ) : Event → Bool
  | .onConnectionOpen i _ => decide (i = id)
  | .onConnectionClose i => decide (i = id)
  | .userCustomFps i _ => decide (i = id)
  | .userAutoAdjustFps i _ => decide (i = id)
  | .userNetworkDelay i _ => decide (i = id)
  | .userDelayResponseElapsed i _ => decide (i = id)
  | _ => false

/-- The option is `N` whenever it is read. -/
def abrOff : Event → Bool
  | .onConnectionOpen _ enableAbr => decide (enableAbr = "N")
  | _ => true

/-- The viewer's own events, each with the latest image quality at that time. -/
def ownLog (build : Build) (id : ℤ) : VideoQoS F → List (Moment F × Event) →
    List (Event × Quality F)
  | _, [] => []
  | q, (m, e) :: rest =>
    let later := ownLog build id (step build q m e) rest
    if ofViewer id e then (e, q.latestQuality m.order) :: later else later

/-- The viewer's delay state, which its target is part of, after each of its own events. -/
def observed (build : Build) (id : ℤ) : VideoQoS F → List (Moment F × Event) →
    List (Option UserDelay)
  | _, [] => []
  | q, (m, e) :: rest =>
    let after := step build q m e
    let later := observed build id after rest
    if ofViewer id e then ((after.users.get id).map fun user => user.delay) :: later else later

def personal {F : Type} (user : UserData F) : UserData F :=
  { user with quality := none, record := false, joinedAt := none }

def replay (build : Build) (id : ℤ) : Option (UserData F) → List (Event × Quality F) →
    List (Option UserDelay)
  | _, [] => []
  | user, (e, quality) :: rest =>
    let after := (respond build 0 quality.ratio false id e user).map personal
    (after.map fun user => user.delay) :: replay build id after rest

variable (build : Build) (q : VideoQoS F) (m : Moment F) (e : Event) (now : ℕ) (ratio : F)
  (bitrateFirst : Bool) (id : ℤ)

theorem personal_respond (e : Event) (user : Option (UserData F)) :
    (respond build now ratio bitrateFirst id e user).map personal =
      (respond build 0 ratio bitrateFirst id e (user.map personal)).map personal := by
  cases e <;> simp only [respond] <;> try split
  all_goals cases user <;> rfl

theorem personal_respond_other (e : Event) (user : Option (UserData F)) (he : ofViewer id e = false) :
    (respond build now ratio bitrateFirst id e user).map personal = user.map personal := by
  cases e with
  | userImageQuality i time imageQuality =>
    simp only [respond]
    split <;> cases user <;> rfl
  | userRecord i v =>
    simp only [respond]
    split <;> cases user <;> rfl
  | _ =>
    first
      | rfl
      | (have hne : ¬id = _ := Ne.symm (of_decide_eq_false he)
         simp [respond, hne])

def Off (q : VideoQoS F) : Prop := ∀ i, (q.users.get i).isSome = true → q.abrConfig = false

theorem off_default : Off (VideoQoS.default build now : VideoQoS F) := by
  intro i h
  exact absurd h Bool.false_ne_true

theorem respond_isSome
    (e : Event) (user : Option (UserData F)) (hopen : ∀ i s, e ≠ .onConnectionOpen i s)
    (h : (respond build now ratio bitrateFirst id e user).isSome = true) :
    user.isSome = true := by
  cases e with
  | onConnectionOpen i s => exact absurd rfl (hopen i s)
  | onConnectionClose i =>
    simp only [respond] at h
    split at h
    · exact absurd h Bool.false_ne_true
    · exact h
  | _ =>
    simp only [respond] at h
    first
      | exact h
      | (split at h
         · simpa using h
         · exact h)

/-- Only a join changes the setting while there are viewers. -/
theorem abrConfig_step (i : ℤ) (hopen : ∀ id s, e ≠ .onConnectionOpen id s)
    (h : ((step build q m e).users.get i).isSome = true) :
    (step build q m e).abrConfig = q.abrConfig := by
  have hmodify (id : ℤ) (f : UserData F → UserData F) :
      (q.modifyUser id f).abrConfig = q.abrConfig := by
    unfold modifyUser
    split <;> rfl
  cases e with
  | onConnectionOpen id s => exact absurd rfl (hopen id s)
  | onConnectionClose id =>
    revert h
    simp only [step, onConnectionClose]
    split
    · intro h
      exact absurd h Bool.false_ne_true
    · exact fun _ => rfl
  | userCustomFps id fps =>
    simp only [step, userCustomFps]
    split
    · rfl
    · exact hmodify id _
  | userAutoAdjustFps id fps =>
    simp only [step, userAutoAdjustFps]
    split
    · rfl
    · exact hmodify id _
  | userImageQuality id time imageQuality =>
    simp only [step, userImageQuality]
    split <;> rfl
  | userRecord id v => exact hmodify id _
  | userNetworkDelay id delay =>
    exact (userNetworkDelay_ratioOnly q m id delay).2.1.trans (hmodify id _)
  | userDelayResponseElapsed id elapsed =>
    simp only [step, userDelayResponseElapsed]
    split
    · split <;> rfl
    · rfl
  | updateDisplayData name sendCounter => exact (updateDisplayData_ratioOnly q m name _).2.1
  | setSupportChangingQuality name support =>
    simp only [step, setSupportChangingQuality]
    split <;> rfl
  | readRatio =>
    simp only [step, readRatio]
    split <;> rfl
  | _ => rfl

theorem off_step (hoff : abrOff e = true) (h : Off q) : Off (step build q m e) := by
  intro i hi
  by_cases hopen : ∀ id s, e ≠ .onConnectionOpen id s
  · rw [abrConfig_step build q m e i hopen hi]
    obtain ⟨f, -, hget⟩ := get_step build q m e
    rw [hget, Option.isSome_map] at hi
    exact h i (respond_isSome build m.now _ _ i e _ hopen hi)
  · push Not at hopen
    obtain ⟨id, s, rfl⟩ := hopen
    have hN : s = "N" := of_decide_eq_true hoff
    simp [step, onConnectionOpen, hN]

/-- Without adaptive bitrate nothing but the event acts on a viewer. -/
theorem get_step_of_off (h : Off q) :
    (step build q m e).users.get id =
      respond build m.now (q.latestQuality m.order).ratio false id e (q.users.get id) := by
  obtain ⟨f, hf, hget⟩ := get_step build q m e
  cases habr : q.abrConfig with
  | false =>
    have hfloor : q.canReduceBitrate m.order = false := by
      simp [canReduceBitrate, inVbrState, habr]
    rw [hget, hf.1 habr, Option.map_id_fun, hfloor]
    rfl
  | true =>
    have hnone : q.users.get id = none := by
      apply Option.not_isSome_iff_eq_none.mp
      intro hsome
      exact absurd (h id hsome) (by simp [habr])
    by_cases hopen : ∀ i s, e ≠ .onConnectionOpen i s
    · have hrespond (bitrateFirst : Bool) : respond build m.now
          (q.latestQuality m.order).ratio bitrateFirst id e none = none := by
        apply Option.not_isSome_iff_eq_none.mp
        intro hsome
        exact Bool.false_ne_true (respond_isSome build m.now _ _ id e none hopen hsome)
      rw [hget, hnone, hrespond, hrespond, Option.map_none]
    · push Not at hopen
      obtain ⟨i, s, rfl⟩ := hopen
      exact SortedMap.get_insert q.users i id _

theorem observed_eq_replay (calls : List (Moment F × Event))
    (q : VideoQoS F) (h : Off q) (hoff : ∀ call ∈ calls, abrOff call.2 = true) :
    observed build id q calls =
      replay build id ((q.users.get id).map personal) (ownLog build id q calls) := by
  induction calls generalizing q with
  | nil => rfl
  | cons call rest ih =>
    obtain ⟨m, e⟩ := call
    obtain ⟨hfirst, hrest⟩ := List.forall_mem_cons.mp hoff
    have hlater := ih (step build q m e) (off_step build q m e hfirst h) hrest
    have hget := get_step_of_off build q m e id h
    rw [observed, ownLog]
    cases hown : ofViewer id e with
    | false =>
      have hsame := personal_respond_other build m.now (q.latestQuality m.order).ratio false id e
        (q.users.get id) hown
      rw [if_neg Bool.false_ne_true, if_neg Bool.false_ne_true, hlater, hget, hsame]
    | true =>
      have hpersonal := personal_respond build m.now (q.latestQuality m.order).ratio false id e
        (q.users.get id)
      rw [if_pos rfl, if_pos rfl, replay, hlater, hget, ← hpersonal, Option.map_map]
      rfl

/-- Two runs in which one viewer does the same, with the same latest image quality, show that
viewer the same targets and the same delay states, whatever else happens in them. -/
theorem viewer_isolated (build : Build) (id : ℤ) (now now' : ℕ)
    (calls calls' : List (Moment F × Event)) (hoff : ∀ call ∈ calls, abrOff call.2 = true)
    (hoff' : ∀ call ∈ calls', abrOff call.2 = true)
    (hsame : ownLog build id (VideoQoS.default build now) calls =
      ownLog build id (VideoQoS.default build now') calls') :
    observed build id (VideoQoS.default build now) calls =
      observed build id (VideoQoS.default build now') calls' := by
  rw [observed_eq_replay build id calls _ (off_default build now) hoff,
    observed_eq_replay build id calls' _ (off_default build now') hoff', hsame]
  rfl

def alone : List (Moment ℚ × Event) :=
  timed [(0, .onConnectionOpen 1 "N"), (5, .userNetworkDelay 1 40),
    (9, .userDelayResponseElapsed 1 3000)]

def withCompany : List (Moment ℚ × Event) :=
  timed [(2, .onConnectionOpen 2 "N"), (4, .onConnectionOpen 1 "N"),
    (6, .userNetworkDelay 2 900), (7, .userNetworkDelay 1 40), (8, .userCustomFps 2 3),
    (11, .userDelayResponseElapsed 1 3000), (12, .onConnectionClose 2)]

theorem viewer_isolated_with_company :
    observed linuxBuild 1 (VideoQoS.default linuxBuild 0) alone =
      observed linuxBuild 1 (VideoQoS.default linuxBuild 1) withCompany := by
  have hoff : ∀ call ∈ alone, abrOff call.2 = true := List.all_eq_true.mp rfl
  have hoff' : ∀ call ∈ withCompany, abrOff call.2 = true := List.all_eq_true.mp rfl
  exact viewer_isolated linuxBuild 1 0 1 alone withCompany hoff hoff' rfl

end ClantoDesk.ViewerIsolation
