import ClantoDesk.VideoQos
import Mathlib.Order.Bounds.Basic

/-!
The rate of the stream as a minimum over the viewers. The minimum is stated with the sets of the
viewers' rates and limits, so that a join and a leave are a larger and a smaller set.
-/
namespace ClantoDesk.StreamAggregation

open VideoQos VideoQoS

variable {F : Type}

variable (now : ℕ) (q : VideoQoS F)

theorem foldl_min_isLeast (n : ℕ) (rest : List ℕ) :
    IsLeast {x | x ∈ n :: rest} (rest.foldl min n) := by
  induction rest generalizing n with
  | nil => exact ⟨List.mem_cons_self .., fun x hx => (List.mem_singleton.mp hx).ge⟩
  | cons m rest ih =>
    obtain ⟨hmem, hlower⟩ := ih (min n m)
    refine ⟨?_, fun x hx => ?_⟩
    · rcases List.mem_cons.mp hmem with heq | hrest
      · rw [List.foldl_cons, Set.mem_ofPred_eq, heq]
        rcases min_choice n m with hn | hm
        · simp [hn]
        · simp [hm]
      · exact List.mem_cons_of_mem _ (List.mem_cons_of_mem _ hrest)
    · have hfirst : rest.foldl min (min n m) ≤ min n m := hlower (List.mem_cons_self ..)
      rcases List.mem_cons.mp hx with rfl | hx
      · exact hfirst.trans (min_le_left _ _)
      rcases List.mem_cons.mp hx with rfl | hx
      · exact hfirst.trans (min_le_right _ _)
      · exact hlower (List.mem_cons_of_mem _ hx)

theorem lowest_isLeast (l : List ℕ) (h : l ≠ []) :
    ∃ n, lowest l = some n ∧ IsLeast {x | x ∈ l} n := by
  obtain ⟨n, rest, rfl⟩ := List.exists_cons_of_ne_nil h
  exact ⟨_, rfl, foldl_min_isLeast n rest⟩

/-- What the stream may not exceed: the viewers' targets, and `INIT_FPS` in a first second. -/
def rates (now : ℕ) (q : VideoQoS F) : Set ℕ :=
  {n | ∃ i user, q.users.get i = some user ∧
    (n = user.delay.fps.getD initFps ∨ (starting now user = true ∧ n = initFps))}

def caps (q : VideoQoS F) : Set ℕ := {n | ∃ i user, q.users.get i = some user ∧ n = user.fpsCap}

def Aggregated (now : ℕ) (q : VideoQoS F) : Prop :=
  ∃ rate cap, IsLeast (rates now q) rate ∧ IsLeast (caps q) cap ∧
    q.streamFps = clamp minFps cap rate

def Follows (now : ℕ) (q : VideoQoS F) : Prop :=
  Aggregated now q ∨ ((∀ i, q.users.get i = none) ∧ q.streamFps = initFps)

theorem mem_entries (e : ℤ × UserData F) : e ∈ q.users.entries ↔ q.users.get e.1 = some e.2 := by
  exact q.users.mem_entries_iff e.1 e.2

theorem caps_eq : {x | x ∈ q.users.entries.map fun e => e.2.fpsCap} = caps q := by
  ext n
  simp only [Set.mem_ofPred_eq, List.mem_map, caps, mem_entries, Prod.exists]
  constructor
  · rintro ⟨i, user, huser, rfl⟩
    exact ⟨i, user, huser, rfl⟩
  · rintro ⟨i, user, huser, rfl⟩
    exact ⟨i, user, huser, rfl⟩

/-- The limit of the stream is the lowest limit of a viewer. -/
theorem highestFps_isLeast (h : q.users.entries ≠ []) : IsLeast (caps q) q.highestFps := by
  obtain ⟨cap, hcap, hleast⟩ := lowest_isLeast (q.users.entries.map fun e => e.2.fpsCap)
    (by simpa using h)
  rw [caps_eq] at hleast
  obtain ⟨i, user, huser, rfl⟩ := hleast.1
  have hbounds := user.fpsCap_bounds
  have hsame : q.highestFps = user.fpsCap := by
    rw [highestFps, hcap]
    show max minFps (min user.fpsCap maxFps) = user.fpsCap
    omega
  rwa [hsame]

/-- The rate that `adjust_fps` chooses, before the limit. -/
theorem rate_isLeast (h : q.users.entries ≠ []) :
    ∃ rate, IsLeast (rates now q) rate ∧
      (q.adjustFps now).fps = clamp minFps q.highestFps rate := by
  obtain ⟨target, htarget, hmem, hlower⟩ :=
    lowest_isLeast (q.users.entries.map fun e => e.2.delay.fps.getD initFps) (by simpa using h)
  obtain ⟨e, he, htargetOf⟩ := List.mem_map.mp hmem
  have hbelow (i : ℤ) (user : UserData F) (huser : q.users.get i = some user) :
      target ≤ user.delay.fps.getD initFps :=
    hlower (List.mem_map.mpr ⟨(i, user), (mem_entries q (i, user)).mpr huser, rfl⟩)
  have hfps : (q.adjustFps now).fps = clamp minFps q.highestFps
      (if q.users.entries.any fun e => starting now e.2 then min target initFps else target) := by
    dsimp only [adjustFps]
    rw [htarget]
    rfl
  cases hany : q.users.entries.any fun e => starting now e.2 with
  | true =>
    obtain ⟨e', he', hstarting⟩ := List.any_eq_true.mp hany
    rw [hany, if_pos rfl] at hfps
    refine ⟨_, ⟨?_, fun n hn => ?_⟩, hfps⟩
    · rcases min_choice target initFps with hmin | hmin
      · exact ⟨e.1, e.2, (mem_entries q e).mp he, Or.inl (hmin.trans htargetOf.symm)⟩
      · exact ⟨e'.1, e'.2, (mem_entries q e').mp he', Or.inr ⟨hstarting, hmin⟩⟩
    · obtain ⟨i, user, huser, rfl | ⟨-, rfl⟩⟩ := hn
      · exact (min_le_left _ _).trans (hbelow i user huser)
      · exact min_le_right _ _
  | false =>
    rw [hany, if_neg Bool.false_ne_true] at hfps
    refine ⟨_, ⟨⟨e.1, e.2, (mem_entries q e).mp he, Or.inl htargetOf.symm⟩, fun n hn => ?_⟩, hfps⟩
    obtain ⟨i, user, huser, rfl | ⟨hstarting, rfl⟩⟩ := hn
    · exact hbelow i user huser
    · have hnone := List.any_eq_false.mp hany (i, user) ((mem_entries q (i, user)).mpr huser)
      exact absurd hstarting hnone

theorem streamFps_of_clamp (cap rate : ℕ) (h : q.fps = clamp minFps cap rate)
    (hcap : cap ≤ maxFps) : q.streamFps = clamp minFps cap rate := by
  rw [← h]
  apply if_pos
  rw [h]
  show 1 ≤ max 1 (min rate cap) ∧ max 1 (min rate cap) ≤ 120
  have hcap' : cap ≤ 120 := hcap
  omega

theorem adjustFps_follows : Follows now (q.adjustFps now) := by
  by_cases h : q.users.entries = []
  · refine Or.inr ⟨fun i => ?_, ?_⟩
    · show q.users.get i = none
      rw [SortedMap.get, h]
      rfl
    · simp [streamFps, adjustFps, highestFps, h, lowest, clamp, minFps, maxFps, initFps,
        fpsDefault]
  · obtain ⟨rate, hrate, hfps⟩ := rate_isLeast now q h
    have hcap := highestFps_isLeast q h
    obtain ⟨i, user, -, huser⟩ := hcap.1
    exact Or.inl ⟨rate, q.highestFps, hrate, hcap,
      streamFps_of_clamp _ _ _ hfps (huser ▸ user.fpsCap_bounds.2)⟩

theorem fields_of_withoutWait (user user' : UserData F) (h : user'.withoutWait = user.withoutWait) :
    user'.delay.fps = user.delay.fps ∧ user'.fpsCap = user.fpsCap ∧
      user'.joinedAt = user.joinedAt := by
  have hfps := congrArg (fun u : UserData F => u.delay.fps) h
  have hcap := congrArg UserData.fpsCap h
  have hjoined := congrArg UserData.joinedAt h
  exact ⟨hfps, hcap, hjoined⟩

theorem rates_of_ratioOnly (q' : VideoQoS F) (h : RatioOnly q q') :
    rates now q' = rates now q ∧ caps q' = caps q := by
  obtain ⟨-, -, f, hf, hget⟩ := h
  constructor
  · ext n
    simp only [rates, Set.mem_ofPred_eq, hget, Option.map_eq_some_iff]
    constructor
    · rintro ⟨i, _, ⟨user, huser, rfl⟩, hn⟩
      obtain ⟨hfps, -, hjoined⟩ := fields_of_withoutWait user (f user) (hf.2 user)
      rw [hfps, starting, hjoined] at hn
      exact ⟨i, user, huser, hn⟩
    · rintro ⟨i, user, huser, hn⟩
      obtain ⟨hfps, -, hjoined⟩ := fields_of_withoutWait user (f user) (hf.2 user)
      refine ⟨i, f user, ⟨user, huser, rfl⟩, ?_⟩
      rw [hfps, starting, hjoined]
      exact hn
  · ext n
    simp only [caps, Set.mem_ofPred_eq, hget, Option.map_eq_some_iff]
    constructor
    · rintro ⟨i, _, ⟨user, huser, rfl⟩, hn⟩
      exact ⟨i, user, huser, hn.trans (fields_of_withoutWait user (f user) (hf.2 user)).2.1⟩
    · rintro ⟨i, user, huser, hn⟩
      exact ⟨i, f user, ⟨user, huser, rfl⟩,
        hn.trans (fields_of_withoutWait user (f user) (hf.2 user)).2.1.symm⟩

theorem Follows.of_ratioOnly (q' : VideoQoS F) (hfollows : Follows now q)
    (h : RatioOnly q q') : Follows now q' := by
  obtain ⟨hrates, hcaps⟩ := rates_of_ratioOnly now q q' h
  have hfps : q'.streamFps = q.streamFps := by
    rw [streamFps, streamFps, h.1]
  rcases hfollows with ⟨rate, cap, hrate, hcap, hclamp⟩ | ⟨hnone, hinit⟩
  · exact Or.inl ⟨rate, cap, hrates ▸ hrate, hcaps ▸ hcap, hfps.trans hclamp⟩
  · obtain ⟨-, -, f, -, hget⟩ := h
    refine Or.inr ⟨fun i => ?_, hfps.trans hinit⟩
    rw [hget, hnone, Option.map_none]

theorem Follows.aggregated (h : Follows now q) (i : ℤ)
    (hi : (q.users.get i).isSome = true) : Aggregated now q := by
  rcases h with haggregated | ⟨hnone, -⟩
  · exact haggregated
  · rw [hnone] at hi
    exact absurd hi Bool.false_ne_true

section

variable [F32 F]

omit [F32 F] in
theorem adjustFps_join_le (id : ℤ) (enableAbr : String) (hnew : q.users.get id = none) :
    ((q.onConnectionOpen now id enableAbr).adjustFps now).streamFps ≤
      (q.adjustFps now).streamFps := by
  have hget (i : ℤ) : (q.onConnectionOpen now id enableAbr).users.get i =
      if i = id then some { joinedAt := some now } else q.users.get i :=
    SortedMap.get_insert _ _ _ _
  have hself : (q.onConnectionOpen now id enableAbr).users.get id =
      some { joinedAt := some now } := by
    rw [hget, if_pos rfl]
  have hother (i : ℤ) (user : UserData F) (huser : q.users.get i = some user) :
      (q.onConnectionOpen now id enableAbr).users.get i = some user := by
    rw [hget, if_neg, huser]
    intro heq
    rw [heq, hnew] at huser
    exact absurd huser (by simp)
  obtain ⟨rate', cap', hrate', hcap', hfps'⟩ :=
    (adjustFps_follows now (q.onConnectionOpen now id enableAbr)).aggregated now _ id
      (Option.isSome_iff_exists.mpr ⟨_, hself⟩)
  have hinit : rate' ≤ initFps := hrate'.2 ⟨id, _, hself, Or.inl rfl⟩
  rw [hfps']
  rcases adjustFps_follows now q with ⟨rate, cap, hrate, hcap, hfps⟩ | ⟨-, hfps⟩
  · obtain ⟨i, user, huser, hn⟩ := hrate.1
    obtain ⟨j, user', huser', hc⟩ := hcap.1
    have hlower : rate' ≤ rate := hrate'.2 ⟨i, user, hother i user huser, hn⟩
    have hlimit : cap' ≤ cap := hcap'.2 ⟨j, user', hother j user' huser', hc⟩
    rw [hfps]
    exact max_le_max_left _ (min_le_min hlower hlimit)
  · rw [hfps]
    exact max_le (by decide) ((min_le_left _ _).trans hinit)

/-- What an event does to the stream and to the viewers it is not about. -/
def StreamLaw (m : Moment F) (before after : VideoQoS F) : Event → Prop
  | .onConnectionOpen id _ =>
    after.streamFps = before.streamFps ∧
      (before.users.get id = none →
        (after.adjustFps m.now).streamFps ≤ (before.adjustFps m.now).streamFps) ∧
      ∀ i, i ≠ id → after.users.get i = before.users.get i
  | .onConnectionClose id =>
    (∀ i, (after.users.get i).isSome = true → Aggregated m.now after) ∧
      ∀ i, i ≠ id → after.users.get i = before.users.get i
  | .userNetworkDelay id _ =>
    Follows m.now after ∧ ∀ user, after.users.get id = some user →
      ∃ target, user.delay.fps = some target ∧ minFps ≤ target ∧ target ≤ user.fpsCap
  | .userDelayResponseElapsed id elapsed =>
    2000 < elapsed → (before.users.get id).isSome = true → Aggregated m.now after
  | .updateDisplayData _ _ => Follows m.now after
  | _ => True

omit [F32 F] in
theorem fpsCap_of_delay (user : UserData F) (d : UserDelay) :
    { user with delay := d }.fpsCap = user.fpsCap := by
  rfl

theorem reply_fps (d : UserDelay) (ratio : F) (bitrateFirst : Bool) (cap delay : ℕ) :
    ∃ n, (d.reply ratio bitrateFirst cap delay).fps = some (clamp minFps cap n) := by
  exact ⟨_, rfl⟩

theorem reply_within (build : Build) (q : VideoQoS F) (m : Moment F) (id : ℤ) (delay : ℕ)
    (after : UserData F)
    (hafter : (step build q m (.userNetworkDelay id delay)).users.get id = some after) :
    ∃ target, after.delay.fps = some target ∧ minFps ≤ target ∧ target ≤ after.fpsCap := by
  obtain ⟨f, hf, hget⟩ := get_step build q m (.userNetworkDelay id delay)
  rw [hget, respond, if_pos rfl, Option.map_map] at hafter
  obtain ⟨user, -, hmade⟩ := Option.map_eq_some_iff.mp hafter
  obtain ⟨n, hreply⟩ := reply_fps user.delay (q.latestQuality m.order).ratio
    (q.canReduceBitrate m.order) user.fpsCap delay
  simp only [Function.comp_apply] at hmade
  generalize user.delay.reply (q.latestQuality m.order).ratio (q.canReduceBitrate m.order)
    user.fpsCap delay = answered at hmade hreply
  obtain ⟨hfps, hcap, -⟩ := fields_of_withoutWait _ _ (hf.2 { user with delay := answered })
  rw [hmade] at hfps hcap
  refine ⟨_, hfps.trans hreply, le_max_left _ _, ?_⟩
  rw [hcap, fpsCap_of_delay]
  exact max_le user.fpsCap_bounds.1 (min_le_right _ _)

/-- After any events, the stream is what the viewers' targets, limits and first seconds make it,
and joins and leaves change no other viewer. -/
theorem stream_aggregates (build : Build) (start : ℕ) (calls : List (Moment F × Event))
    (m : Moment F) (e : Event) :
    StreamLaw m (run build (VideoQoS.default build start) calls)
      (step build (run build (VideoQoS.default build start) calls) m e) e := by
  generalize run build (VideoQoS.default build start) calls = q
  cases e with
  | onConnectionOpen id enableAbr =>
    refine ⟨rfl, adjustFps_join_le m.now q id enableAbr, fun i hi => ?_⟩
    exact SortedMap.get_insert_other _ _ _ _ hi
  | onConnectionClose id =>
    refine ⟨fun i hi => ?_, fun i hi => ?_⟩
    · revert hi
      simp only [step, onConnectionClose]
      split
      · intro hi
        exact absurd hi Bool.false_ne_true
      · intro hi
        exact (adjustFps_follows m.now _).aggregated m.now _ i hi
    · exact (get_onConnectionClose q build m.now id i).trans (if_neg hi)
  | userNetworkDelay id delay =>
    refine ⟨?_, fun user huser => reply_within build q m id delay user huser⟩
    exact (adjustFps_follows m.now _).of_ratioOnly m.now _ _
      (userNetworkDelay_ratioOnly q m id delay)
  | userDelayResponseElapsed id elapsed =>
    intro hlate hpresent
    obtain ⟨user, huser⟩ := Option.isSome_iff_exists.mp hpresent
    simp only [step, userDelayResponseElapsed, huser, if_neg (Nat.not_le.mpr hlate)]
    refine (adjustFps_follows m.now _).aggregated m.now _ id ?_
    show ((q.users.insert id _).get id).isSome = true
    rw [SortedMap.get_insert_self, Option.isSome_some]
  | updateDisplayData name sendCounter =>
    exact (adjustFps_follows m.now q).of_ratioOnly m.now _ _
      (updateDisplayData_ratioOnly q m name sendCounter)
  | _ => trivial

end

end ClantoDesk.StreamAggregation
