import ClantoDesk.VideoQos

/-!
What a reduction of a viewer's rate rests on. The evidence is read off the viewer's history of
replies and timeouts, the latest first, and not off the controller: the invariant says that each
counter of the delay state is backed by that history.
-/
namespace ClantoDesk.ReductionEvidence

open VideoQos

inductive Note where
  | reply (excess : ℕ) (reduced restored : Bool)
  | timeout
deriving DecidableEq

def Note.isReply : Note → Bool
  | .reply .. => true
  | .timeout => false

def Note.restored : Note → Bool
  | .reply _ _ restored => restored
  | .timeout => false

def Note.pending : Note → Bool
  | .reply excess reduced _ => decide (150 ≤ excess) && !reduced
  | .timeout => false

def braked (notes : List Note) : Prop := notes.head? = some .timeout

def badReplies (notes : List Note) : ℕ := (notes.takeWhile Note.pending).length

def recentlyRestored (notes : List Note) : Prop :=
  ∃ k < 5, ∃ note, (notes.filter Note.isReply)[k]? = some note ∧ note.restored = true

def restores (target : ℕ) (before after : UserDelay) : Bool :=
  (before.fpsBeforeCongestion.any fun level => decide (target < level)) &&
    after.fpsBeforeCongestion.isNone

def reduces (cap : ℕ) (before after : UserDelay) : Bool :=
  decide (after.currentFps cap < min (before.currentFps cap) cap)

def replyNote (cap delay : ℕ) (before after : UserDelay) : Note :=
  .reply (after.excess delay) (reduces cap before after)
    (restores (before.currentFps cap) before after)

def Severe (notes : List Note) (excess : ℕ) : Prop :=
  1000 ≤ excess ∨ (600 ≤ excess ∧ recentlyRestored notes)

/-- What a reply may do to a viewer with a history. -/
structure ReplyLaw (notes : List Note) (cap delay : ℕ) (before after : UserDelay) : Prop where
  unbraked : reduces cap before after = true → ¬braked notes
  evidence : reduces cap before after = true →
    Severe notes (after.excess delay) ∨
      (150 ≤ after.excess delay ∧ 3 ≤ badReplies notes + 1)
  half : reduces cap before after = true → before.currentFps cap ≤ 2 * after.currentFps cap
  fifth : reduces cap before after = true → ¬Severe notes (after.excess delay) →
    before.currentFps cap ≤ after.currentFps cap + max 1 (before.currentFps cap / 5)
  floor : reduces cap before after = true →
    min (before.currentFps cap) (min minAutoFps cap) ≤ after.currentFps cap
  bad : 150 ≤ after.excess delay → after.currentFps cap ≤ before.currentFps cap

/-- The counters of a delay state are backed by the history. -/
structure Tracks (notes : List Note) (d : UserDelay) : Prop where
  stall : d.stallReferenceFps.isSome = true ↔ braked notes
  target : d.stallReferenceFps.isSome = true → d.fps.isSome = true
  bad : d.fpsBadSamples ≤ badReplies notes
  restore : ∀ k, d.samplesSinceRestore = some k → k < u8Max →
    ∃ note, (notes.filter Note.isReply)[k]? = some note ∧ note.restored = true
  positive : ∀ fps, d.fps = some fps → 1 ≤ fps

theorem tracks_new : Tracks [] {} := by
  refine ⟨?_, ?_, Nat.le_refl 0, ?_, ?_⟩
  · simp [braked]
  · simp
  · simp
  · simp

variable (build : Build) (notes : List Note) (d : UserDelay) (cap current fps delay : ℕ)

theorem recover_spec :
    current < (d.recover current fps).1 ∧
      (d.recover current fps).2.rttCalculator = d.rttCalculator ∧
      (d.recover current fps).2.stallReferenceFps = d.stallReferenceFps ∧
      (d.recover current fps).2.fpsBadSamples = d.fpsBadSamples ∧
      ((d.recover current fps).2.samplesSinceRestore = d.samplesSinceRestore ∨
        (d.recover current fps).2.samplesSinceRestore = some 0 ∧
          restores current d (d.recover current fps).2 = true) := by
  unfold UserDelay.recover
  dsimp only
  split
  · rename_i level hlevel
    obtain ⟨hsome, habove⟩ := Option.filter_eq_some_iff.mp hlevel
    have hup : current < level := of_decide_eq_true habove
    split
    · refine ⟨lt_max_of_lt_right hup, rfl, rfl, rfl, Or.inr ⟨rfl, ?_⟩⟩
      simp [restores, hsome, hup]
    · refine ⟨?_, rfl, rfl, rfl, Or.inl rfl⟩
      show current < current + max (current / 10) 1
      omega
  · split
    · refine ⟨?_, rfl, rfl, rfl, Or.inl rfl⟩
      show current < max fps (current + max (current / 5) 2)
      omega
    · refine ⟨?_, rfl, rfl, rfl, Or.inl rfl⟩
      show current < current + max (current / 10) 1
      omega

theorem lowerLevel_spec :
    (d.lowerLevel current delay).rttCalculator = d.rttCalculator ∧
      (d.lowerLevel current delay).stallReferenceFps = d.stallReferenceFps ∧
      (d.lowerLevel current delay).fpsBadSamples = d.fpsBadSamples ∧
      ((d.lowerLevel current delay).samplesSinceRestore = d.samplesSinceRestore ∨
        (d.lowerLevel current delay).samplesSinceRestore = none) := by
  unfold UserDelay.lowerLevel
  split
  · exact ⟨rfl, rfl, rfl, Or.inr rfl⟩
  · exact ⟨rfl, rfl, rfl, Or.inl rfl⟩

theorem reduce_spec (bitrateFirst braked failed : Bool) :
    d.reduce current fps delay bitrateFirst braked failed = (current, d) ∨
      (braked = false ∧ fps < current ∧
        (1000 ≤ delay ∨ failed = true ∨ 3 ≤ d.fpsBadSamples) ∧
        d.reduce current fps delay bitrateFirst braked failed =
          (max fps (current - max (current / if 1000 ≤ delay ∨ failed = true then 2 else 5) 1),
            d.onReduction current)) := by
  unfold UserDelay.reduce
  split
  · exact Or.inl rfl
  rename_i hlower
  split
  · exact Or.inl rfl
  rename_i hcertain
  rw [not_or, Bool.not_eq_true, Nat.not_le] at hlower
  refine Or.inr ⟨hlower.2, hlower.1, ?_, rfl⟩
  by_contra hnone
  simp only [not_or, Nat.not_le, Bool.not_eq_true] at hnone
  apply hcertain
  simp [hnone.1, hnone.2.1, UserDelay.waits, hnone.2.2]

/-- What the limit on the change makes of a target, and of the counters. -/
structure Limited (d : UserDelay) (current fps delay : ℕ) (braked : Bool)
    (res : ℕ × UserDelay) : Prop where
  rtt : res.2.rttCalculator = d.rttCalculator
  stall : res.2.stallReferenceFps = d.stallReferenceFps
  up : d.excess delay < 150 → current < res.1 ∧ res.2.fpsBadSamples = 0
  down : 150 ≤ d.excess delay →
    (res.1 = current ∧ res.2.fpsBadSamples ≤ d.fpsBadSamples + 1) ∨
      (braked = false ∧ res.1 < current ∧ res.2.fpsBadSamples = 0 ∧ fps ≤ res.1 ∧
        ((current ≤ res.1 + max (current / 2) 1 ∧
          (1000 ≤ d.excess delay ∨ (600 ≤ d.excess delay ∧ d.countReply.guarded = true))) ∨
        (current ≤ res.1 + max (current / 5) 1 ∧ 3 ≤ d.fpsBadSamples + 1)))
  samples : res.2.samplesSinceRestore = d.countReply.samplesSinceRestore ∨
    res.2.samplesSinceRestore = none ∨
    (res.2.samplesSinceRestore = some 0 ∧ restores current d res.2 = true)

theorem limitFpsChange_limited (bitrateFirst braked : Bool) (hpos : 1 ≤ current) :
    Limited d current fps delay braked
      (d.limitFpsChange current fps delay bitrateFirst braked) := by
  unfold UserDelay.limitFpsChange
  dsimp only
  split
  · rename_i hgood
    obtain ⟨hup, hrtt, hstall, hbad, hsamples⟩ := recover_spec d.countReply.good current fps
    refine ⟨hrtt, hstall, fun _ => ⟨hup, hbad⟩, fun hbad => ?_, ?_⟩
    · exact absurd hbad (Nat.not_le.mpr hgood)
    · rcases hsamples with hsame | hrestored
      · exact Or.inl hsame
      · exact Or.inr (Or.inr hrestored)
  · rename_i hbad
    have hbad' : 150 ≤ d.excess delay := Nat.le_of_not_lt hbad
    obtain ⟨hrtt, hstall, hcount, hsamples⟩ :=
      lowerLevel_spec d.countReply.bad current (d.excess delay)
    have hlevel : (d.countReply.bad.lowerLevel current (d.excess delay)).samplesSinceRestore =
        d.countReply.samplesSinceRestore ∨
        (d.countReply.bad.lowerLevel current (d.excess delay)).samplesSinceRestore = none :=
      hsamples
    have hbelow : (d.countReply.bad.lowerLevel current (d.excess delay)).fpsBadSamples ≤
        d.fpsBadSamples + 1 := by
      rw [hcount]
      exact Nat.min_le_left _ _
    rcases reduce_spec (d.countReply.bad.lowerLevel current (d.excess delay)) current fps
      (d.excess delay) bitrateFirst braked (d.countReply.bad.failedRestore (d.excess delay))
      with hkeep | ⟨hbraked, hless, hwhy, hreduce⟩
    · rw [hkeep]
      refine ⟨hrtt, hstall, fun h => absurd h hbad, fun _ => Or.inl ⟨rfl, hbelow⟩, ?_⟩
      exact hlevel.imp_right Or.inl
    · rw [hreduce]
      refine ⟨hrtt, hstall, fun h => absurd h hbad, fun _ => Or.inr ?_, hlevel.imp_right Or.inl⟩
      refine ⟨hbraked, ?_, rfl, le_max_left _ _, ?_⟩
      · show max fps (current - max _ 1) < current
        omega
      · by_cases hsevere : 1000 ≤ d.excess delay ∨
          d.countReply.bad.failedRestore (d.excess delay) = true
        · refine Or.inl ⟨?_, hsevere.imp_right fun hfailed => ?_⟩
          · rw [if_pos hsevere]
            exact Nat.le_trans (Nat.le_add_of_sub_le (Nat.le_refl _))
              (Nat.add_le_add_right (le_max_right _ _) _)
          · simp only [UserDelay.failedRestore, Bool.and_eq_true, decide_eq_true_eq] at hfailed
            exact hfailed
        · refine Or.inr ⟨?_, ?_⟩
          · rw [if_neg hsevere]
            exact Nat.le_trans (Nat.le_add_of_sub_le (Nat.le_refl _))
              (Nat.add_le_add_right (le_max_right _ _) _)
          · rw [← or_assoc] at hwhy
            exact Nat.le_trans (hwhy.resolve_left hsevere) hbelow

/-- The acceleration at the start never lowers a rate below the limit, and ends with the queue. -/
theorem accelerateStartup_spec (cap delay : ℕ) (braked : Bool) :
    (∃ n, (d.accelerateStartup current fps cap delay braked).2 =
        { d with startupGoodSamples := n }) ∧
      min fps cap ≤ (d.accelerateStartup current fps cap delay braked).1 ∧
      (50 ≤ d.excess delay → (d.accelerateStartup current fps cap delay braked).1 = fps) := by
  unfold UserDelay.accelerateStartup
  split
  · exact ⟨⟨_, rfl⟩, min_le_left _ _, fun _ => rfl⟩
  split
  · exact ⟨⟨_, rfl⟩, min_le_left _ _, fun _ => rfl⟩
  rename_i hclean
  split
  · exact ⟨⟨_, rfl⟩, min_le_left _ _, fun _ => rfl⟩
  · refine ⟨⟨_, rfl⟩, min_le_min_right _ (le_max_left _ _), fun hqueue => ?_⟩
    exact absurd (Or.inr (Or.inl hqueue)) hclean

theorem received_fields :
    ∃ rtt history, d.received delay =
      { d with
        stallTicks := 0
        stallReferenceFps := none
        rttCalculator := rtt
        delayHistory := history } := by
  unfold UserDelay.received
  dsimp only
  split
  · exact ⟨_, _, rfl⟩
  · exact ⟨_, _, rfl⟩

section

variable {F : Type} [F32 F]

/-- Noting a delay and choosing a rate leave the counters of the limit alone. -/
theorem aimed_spec (ratio : F) (bitrateFirst : Bool) (cap current old delay : ℕ) :
    (∃ rtt history quick increase,
      ((d.received delay).aimFps ratio bitrateFirst cap current old).2 =
        { d with
          stallTicks := 0
          stallReferenceFps := none
          rttCalculator := rtt
          delayHistory := history
          quickIncreaseFpsCount := quick
          increaseFpsCount := increase }) ∧
      min minAutoFps cap ≤ ((d.received delay).aimFps ratio bitrateFirst cap current old).1 := by
  refine ⟨?_, le_max_right _ _⟩
  obtain ⟨rtt, history, hreceived⟩ := received_fields d delay
  rw [hreceived]
  exact ⟨rtt, history, _, _, rfl⟩

/-- What a reply makes of a delay state, before the rate is brought within its limits. -/
structure Answered (d : UserDelay) (cap delay : ℕ) (res : ℕ × UserDelay) (after : UserDelay) :
    Prop where
  stall : after.stallReferenceFps = none
  fps : ∃ n, after.fps = some (clamp minFps cap n) ∧ min res.1 cap ≤ n ∧
    (150 ≤ after.excess delay → n = res.1)
  up : after.excess delay < 150 → d.currentFps cap < res.1 ∧ after.fpsBadSamples = 0
  down : 150 ≤ after.excess delay →
    (res.1 = d.currentFps cap ∧ after.fpsBadSamples ≤ d.fpsBadSamples + 1) ∨
      (d.stallReferenceFps.isSome = false ∧ res.1 < d.currentFps cap ∧
        after.fpsBadSamples = 0 ∧ min minAutoFps cap ≤ res.1 ∧
        ((d.currentFps cap ≤ res.1 + max (d.currentFps cap / 2) 1 ∧
          (1000 ≤ after.excess delay ∨
            (600 ≤ after.excess delay ∧ d.countReply.guarded = true))) ∨
        (d.currentFps cap ≤ res.1 + max (d.currentFps cap / 5) 1 ∧ 3 ≤ d.fpsBadSamples + 1)))
  samples : after.samplesSinceRestore = d.countReply.samplesSinceRestore ∨
    after.samplesSinceRestore = none ∨
    (after.samplesSinceRestore = some 0 ∧ restores (d.currentFps cap) d after = true)

theorem reply_answered (ratio : F) (bitrateFirst : Bool) (cap delay : ℕ)
    (hpos : 1 ≤ d.currentFps cap) :
    ∃ res, Answered d cap delay res (d.reply ratio bitrateFirst cap delay) := by
  obtain ⟨⟨rtt, history, quick, increase, haimed⟩, haim⟩ := aimed_spec d ratio bitrateFirst cap
    (d.currentFps cap) d.avgDelay (max delay 10)
  have hlimited := limitFpsChange_limited
    ((d.received (max delay 10)).aimFps ratio bitrateFirst cap (d.currentFps cap) d.avgDelay).2
    (d.currentFps cap)
    ((d.received (max delay 10)).aimFps ratio bitrateFirst cap (d.currentFps cap) d.avgDelay).1
    (max delay 10) bitrateFirst d.stallReferenceFps.isSome hpos
  unfold UserDelay.reply
  dsimp only
  generalize (d.received (max delay 10)).aimFps ratio bitrateFirst cap (d.currentFps cap)
    d.avgDelay = aim at haimed haim hlimited ⊢
  generalize aim.2.limitFpsChange (d.currentFps cap) aim.1 (max delay 10) bitrateFirst
    d.stallReferenceFps.isSome = res at hlimited ⊢
  obtain ⟨⟨n, hstarted⟩, hkeep, hqueue⟩ := accelerateStartup_spec res.2 (d.currentFps cap) res.1
    cap (max delay 10) d.stallReferenceFps.isSome
  rw [hstarted]
  obtain ⟨goal, state⟩ := aim
  dsimp only at haimed haim hlimited
  have hexcess (x : ℕ) : state.excess x = res.2.excess x := by
    rw [UserDelay.excess, UserDelay.excess, hlimited.rtt]
  have hup := hlimited.up
  have hdown := hlimited.down
  rw [hexcess] at hup hdown
  subst haimed
  have hlong (bound : ℕ) (hbound : 150 ≤ bound) :
      bound ≤ res.2.excess (max delay 10) ↔ bound ≤ res.2.excess delay := by
    rw [UserDelay.excess, UserDelay.excess]
    omega
  refine ⟨res, hlimited.stall, ⟨_, rfl, hkeep, fun h => hqueue ?_⟩, fun h => hup ?_, fun h => ?_,
    hlimited.samples⟩
  · exact Nat.le_trans (by omega) ((hlong 150 (Nat.le_refl _)).mpr h)
  · exact Nat.lt_of_not_le fun hbad => Nat.not_le.mpr h ((hlong 150 (Nat.le_refl _)).mp hbad)
  · rcases hdown ((hlong 150 (Nat.le_refl _)).mpr h) with
      hsame | ⟨hbraked, hless, hreset, hgoal, hwhy⟩
    · exact Or.inl hsame
    · refine Or.inr ⟨hbraked, hless, hreset, Nat.le_trans haim hgoal, hwhy.imp_left ?_⟩
      rintro ⟨hhalf, hsevere⟩
      refine ⟨hhalf, hsevere.imp (hlong 1000 (by omega)).mp ?_⟩
      rintro ⟨hlate, hguarded⟩
      exact ⟨(hlong 600 (by omega)).mp hlate, hguarded⟩

theorem currentFps_pos (h : Tracks notes d) (hcap : 1 ≤ cap) : 1 ≤ d.currentFps cap := by
  unfold UserDelay.currentFps
  cases hfps : d.fps with
  | none =>
    show 1 ≤ min 15 cap
    omega
  | some fps => exact h.positive fps hfps

theorem recentlyRestored_of_guarded (h : Tracks notes d)
    (hguarded : d.countReply.guarded = true) : recentlyRestored notes := by
  simp only [UserDelay.guarded, UserDelay.countReply, Option.any_map, Option.any_eq_true,
    decide_eq_true_eq] at hguarded
  obtain ⟨k, hk, hsoon⟩ := hguarded
  have hsmall : k < 5 := by
    simp only [restoreGuardSamples, u8Max] at hsoon
    omega
  obtain ⟨note, hnote, hrestored⟩ := h.restore k hk (by simp only [u8Max]; omega)
  exact ⟨k, hsmall, note, hnote, hrestored⟩

theorem reply_law (ratio : F) (bitrateFirst : Bool)
    (cap delay : ℕ) (h : Tracks notes d) (hcap : 1 ≤ cap) :
    ReplyLaw notes cap delay d (d.reply ratio bitrateFirst cap delay) := by
  have hpos := currentFps_pos notes d cap h hcap
  obtain ⟨res, ha⟩ := reply_answered d ratio bitrateFirst cap delay hpos
  generalize d.reply ratio bitrateFirst cap delay = after at ha
  obtain ⟨n, hfps, hmin, hn⟩ := ha.fps
  have hnew : after.currentFps cap = max 1 (min n cap) := by
    rw [UserDelay.currentFps, hfps]
    rfl
  -- a reduction comes from the second case of `down`, with the rate below the limit
  have hreason (hreduces : reduces cap d after = true) : 150 ≤ after.excess delay ∧
      after.currentFps cap = max 1 res.1 ∧ d.stallReferenceFps.isSome = false ∧
      min minAutoFps cap ≤ res.1 ∧
      ((d.currentFps cap ≤ res.1 + max (d.currentFps cap / 2) 1 ∧
          (1000 ≤ after.excess delay ∨
            (600 ≤ after.excess delay ∧ d.countReply.guarded = true))) ∨
        (d.currentFps cap ≤ res.1 + max (d.currentFps cap / 5) 1 ∧
          3 ≤ d.fpsBadSamples + 1)) := by
    have hless : after.currentFps cap < min (d.currentFps cap) cap := of_decide_eq_true hreduces
    have hbad : 150 ≤ after.excess delay := by
      by_contra hgood
      have hup := (ha.up (Nat.lt_of_not_le hgood)).1
      omega
    have hsame := hn hbad
    refine ⟨hbad, by omega, ?_⟩
    rcases ha.down hbad with ⟨hkeep, -⟩ | ⟨hbraked, -, -, hgoal, hwhy⟩
    · omega
    · exact ⟨hbraked, hgoal, hwhy⟩
  refine ⟨fun hr => ?_, fun hr => ?_, fun hr => ?_, fun hr hmild => ?_, fun hr => ?_, fun hb => ?_⟩
  · obtain ⟨-, -, hbraked, -, -⟩ := hreason hr
    rw [← h.stall, hbraked]
    exact Bool.false_ne_true
  · obtain ⟨hbad, -, -, -, hwhy⟩ := hreason hr
    rcases hwhy with ⟨-, hlong | ⟨hlate, hguarded⟩⟩ | ⟨-, hthird⟩
    · exact Or.inl (Or.inl hlong)
    · exact Or.inl (Or.inr ⟨hlate, recentlyRestored_of_guarded notes d h hguarded⟩)
    · exact Or.inr ⟨hbad, Nat.le_trans hthird (Nat.add_le_add_right h.bad 1)⟩
  · obtain ⟨-, hrate, -, -, hwhy⟩ := hreason hr
    rcases hwhy with ⟨hhalf, -⟩ | ⟨hfifth, -⟩ <;> omega
  · obtain ⟨-, hrate, -, -, hwhy⟩ := hreason hr
    rcases hwhy with ⟨-, hlong | ⟨hlate, hguarded⟩⟩ | ⟨hfifth, -⟩
    · exact absurd (Or.inl hlong) hmild
    · exact absurd (Or.inr ⟨hlate, recentlyRestored_of_guarded notes d h hguarded⟩) hmild
    · omega
  · obtain ⟨-, hrate, -, hgoal, -⟩ := hreason hr
    omega
  · have hsame := hn hb
    rcases ha.down hb with ⟨hkeep, -⟩ | ⟨-, hless, -⟩ <;> omega

theorem reply_tracks (ratio : F) (bitrateFirst : Bool)
    (cap delay : ℕ) (h : Tracks notes d) (hcap : 1 ≤ cap) :
    Tracks (replyNote cap delay d (d.reply ratio bitrateFirst cap delay) :: notes)
      (d.reply ratio bitrateFirst cap delay) := by
  have hpos := currentFps_pos notes d cap h hcap
  obtain ⟨res, ha⟩ := reply_answered d ratio bitrateFirst cap delay hpos
  generalize d.reply ratio bitrateFirst cap delay = after at ha ⊢
  obtain ⟨n, hfps, hmin, hn⟩ := ha.fps
  refine ⟨?_, ?_, ?_, ?_, ?_⟩
  · simp [ha.stall, braked, replyNote]
  · simp [ha.stall]
  · by_cases hbad : 150 ≤ after.excess delay
    · rcases ha.down hbad with ⟨hkeep, hcount⟩ | ⟨-, -, hreset, -⟩
      · have hkept : reduces cap d after = false := by
          apply decide_eq_false
          rw [UserDelay.currentFps, hfps]
          show ¬max 1 (min n cap) < _
          omega
        have hpending : badReplies (replyNote cap delay d after :: notes) =
            badReplies notes + 1 := by
          simp [badReplies, replyNote, Note.pending, hbad, hkept]
        have hold := h.bad
        omega
      · exact hreset ▸ Nat.zero_le _
    · exact (ha.up (Nat.lt_of_not_le hbad)).2 ▸ Nat.zero_le _
  · intro k hk hsmall
    rcases ha.samples with hcount | hnone | ⟨hzero, hrestored⟩
    · rw [hcount] at hk
      obtain ⟨k', hk', hnext⟩ := Option.map_eq_some_iff.mp hk
      have hsucc : k = k' + 1 := by
        simp only [u8Max] at hnext hsmall
        omega
      obtain ⟨note, hnote, hmark⟩ := h.restore k' hk' (by omega)
      exact ⟨note, by rw [hsucc]; exact hnote, hmark⟩
    · rw [hnone] at hk
      exact absurd hk (by simp)
    · rw [hzero] at hk
      rw [← Option.some.inj hk]
      exact ⟨_, rfl, hrestored⟩
  · intro fps hsome
    rw [hfps] at hsome
    rw [← Option.some.inj hsome]
    exact le_max_left _ _

end

/-- The first timeout of a probe notes the target as the reference and reduces. -/
theorem timeout_spec (elapsed : ℕ) :
    (d.timeout cap elapsed).stallReferenceFps =
        some (d.stallReferenceFps.getD (d.currentFps cap)) ∧
      (d.timeout cap elapsed).samplesSinceRestore = d.samplesSinceRestore ∧
      (d.timeout cap elapsed).fpsBadSamples =
        (if d.stallReferenceFps.isSome then d.fpsBadSamples else 0) ∧
      ∃ fps, (d.timeout cap elapsed).fps =
        some (min (clamp (min minAutoFps cap) cap fps)
          (d.fps.getD (d.stallReferenceFps.getD (d.currentFps cap)))) := by
  have hstall : (UserDelay.addDelay { d with stallTicks := min (d.stallTicks + 1) u8Max }
      (elapsed % (u32Max + 1))).stallReferenceFps = d.stallReferenceFps := rfl
  unfold UserDelay.timeout
  dsimp only
  rw [hstall]
  split
  · rename_i hsome
    obtain ⟨reference, href⟩ := Option.isSome_iff_exists.mp hsome
    refine ⟨?_, rfl, rfl, _, rfl⟩
    rw [hstall, href]
    rfl
  · exact ⟨rfl, rfl, rfl, _, rfl⟩

/-- A timeout never raises the target, and the next reply finds the probe braked. -/
theorem timeout_tracks (elapsed : ℕ) (h : Tracks notes d) (hcap : 1 ≤ cap) :
    Tracks (.timeout :: notes) (d.timeout cap elapsed) ∧
      (d.timeout cap elapsed).currentFps cap ≤ d.currentFps cap := by
  have hpos := currentFps_pos notes d cap h hcap
  have hcurrent : d.fps.getD (d.stallReferenceFps.getD (d.currentFps cap)) =
      d.currentFps cap := by
    cases hfps : d.fps with
    | some fps => simp [UserDelay.currentFps, hfps]
    | none =>
      have hstall : d.stallReferenceFps = none := by
        apply Option.not_isSome_iff_eq_none.mp
        intro hsome
        simpa [hfps] using h.target hsome
      rw [hstall]
      rfl
  obtain ⟨hreference, hsamples, hcount, fps, hfps⟩ := timeout_spec d cap elapsed
  rw [hcurrent] at hfps
  refine ⟨⟨?_, ?_, ?_, ?_, ?_⟩, ?_⟩
  · simp [hreference, braked]
  · simp [hfps]
  · rw [hcount]
    split
    · rename_i hstall
      -- the history begins with the probe's first timeout, and has no bad reply since
      have hhead := h.stall.mp hstall
      have hnone : badReplies notes = 0 := by
        cases notes with
        | nil => rfl
        | cons note rest =>
          rw [Option.some.inj hhead]
          rfl
      have hold := h.bad
      omega
    · exact Nat.zero_le _
  · rw [hsamples]
    exact h.restore
  · intro n hn
    rw [hfps] at hn
    rw [← Option.some.inj hn]
    show 1 ≤ min (max (min 5 cap) (min fps cap)) _
    omega
  · rw [UserDelay.currentFps, hfps]
    exact min_le_right _ _

section

variable {F : Type} [F32 F]

def noted (build : Build) (id : ℤ) (q : VideoQoS F) (m : Moment F) (notes : List Note) :
    Event → List Note
  | .onConnectionOpen i _ => if id = i then [] else notes
  | .onConnectionClose i => if id = i then [] else notes
  | .userNetworkDelay i delay =>
    if id = i then
      match q.users.get id, (step build q m (.userNetworkDelay i delay)).users.get id with
      | some before, some after =>
        replyNote before.fpsCap delay before.delay after.delay :: notes
      | _, _ => notes
    else notes
  | .userDelayResponseElapsed i elapsed =>
    if id = i ∧ 2000 < elapsed then .timeout :: notes else notes
  | _ => notes

def history (build : Build) (id : ℤ) : VideoQoS F → List Note → List (Moment F × Event) →
    List Note
  | _, notes, [] => notes
  | q, notes, (m, e) :: rest =>
    history build id (step build q m e) (noted build id q m notes e) rest

def Backed (id : ℤ) (notes : List Note) (q : VideoQoS F) : Prop :=
  ∀ user, q.users.get id = some user → Tracks notes user.delay

omit [F32 F] in
theorem delay_of_withoutWait (user user' : UserData F) (h : user'.withoutWait = user.withoutWait) :
    ∃ wait, user'.delay = { user.delay with repliesAfterBitrateReduction := wait } := by
  refine ⟨user'.delay.repliesAfterBitrateReduction, ?_⟩
  exact congrArg (fun u : UserData F =>
    { u.delay with
      repliesAfterBitrateReduction := user'.delay.repliesAfterBitrateReduction }) h

theorem Tracks.of_wait (wait : Option ℕ)
    (h : Tracks notes d) : Tracks notes { d with repliesAfterBitrateReduction := wait } := by
  exact ⟨h.stall, h.target, h.bad, h.restore, h.positive⟩

theorem replyNote_of_wait (before after : UserDelay) (wait : Option ℕ) :
    replyNote cap delay before { after with repliesAfterBitrateReduction := wait } =
      replyNote cap delay before after := by
  rfl

theorem ReplyLaw.of_wait (before after : UserDelay)
    (wait : Option ℕ) (h : ReplyLaw notes cap delay before after) :
    ReplyLaw notes cap delay before { after with repliesAfterBitrateReduction := wait } := by
  exact ⟨h.unbraked, h.evidence, h.half, h.fifth, h.floor, h.bad⟩

theorem get_reply (q : VideoQoS F) (m : Moment F) (id : ℤ) (delay : ℕ)
    (user : UserData F) (huser : q.users.get id = some user) :
    ∃ after wait, (step build q m (.userNetworkDelay id delay)).users.get id = some after ∧
      after.delay =
        { user.delay.reply (q.latestQuality m.order).ratio (q.canReduceBitrate m.order)
            user.fpsCap delay with
          repliesAfterBitrateReduction := wait } := by
  obtain ⟨f, hf, hget⟩ := get_step build q m (.userNetworkDelay id delay)
  have hid := hget id
  rw [huser, respond, if_pos rfl, Option.map_some, Option.map_some] at hid
  obtain ⟨wait, hwait⟩ := delay_of_withoutWait _ _ (hf.2 _)
  exact ⟨_, wait, hid, hwait⟩

theorem backed_step (id : ℤ) (notes : List Note) (q : VideoQoS F)
    (m : Moment F) (e : Event) (h : Backed id notes q) :
    Backed id (noted build id q m notes e) (step build q m e) := by
  intro user' huser'
  obtain ⟨f, hf, hget⟩ := get_step build q m e
  rw [hget] at huser'
  obtain ⟨user, huser, rfl⟩ := Option.map_eq_some_iff.mp huser'
  obtain ⟨wait, hwait⟩ := delay_of_withoutWait _ _ (hf.2 user)
  rw [hwait]
  apply Tracks.of_wait
  have hkept (p : Prop) [Decidable p] (g : UserData F → UserData F)
      (hg : ∀ u, (g u).delay = u.delay)
      (hp : (if p then (q.users.get id).map g else q.users.get id) = some user) :
      Tracks notes user.delay := by
    split at hp
    · obtain ⟨before, hbefore, rfl⟩ := Option.map_eq_some_iff.mp hp
      rw [hg]
      exact h before hbefore
    · exact h user hp
  cases e with
  | onConnectionOpen i s =>
    simp only [respond] at huser
    simp only [noted]
    split at huser
    · rw [if_pos ‹_›, ← Option.some.inj huser]
      exact tracks_new
    · rw [if_neg ‹_›]
      exact h user huser
  | onConnectionClose i =>
    simp only [respond] at huser
    simp only [noted]
    split at huser
    · exact absurd huser (by simp)
    · rw [if_neg ‹_›]
      exact h user huser
  | userCustomFps i fps =>
    simp only [respond] at huser
    refine hkept _ _ ?_ huser
    exact fun _ => rfl
  | userAutoAdjustFps i fps =>
    simp only [respond] at huser
    refine hkept _ _ ?_ huser
    exact fun _ => rfl
  | userImageQuality i time imageQuality =>
    simp only [respond] at huser
    refine hkept _ _ ?_ huser
    exact fun _ => rfl
  | userRecord i v =>
    simp only [respond] at huser
    refine hkept _ _ ?_ huser
    exact fun _ => rfl
  | userNetworkDelay i delay =>
    simp only [respond] at huser
    simp only [noted]
    split at huser
    · rename_i heq
      subst heq
      obtain ⟨before, hbefore, rfl⟩ := Option.map_eq_some_iff.mp huser
      obtain ⟨after, wait', hafter, hdelay⟩ := get_reply build q m id delay before hbefore
      rw [if_pos rfl, hbefore, hafter]
      dsimp only
      rw [hdelay, replyNote_of_wait]
      exact reply_tracks notes before.delay _ _ before.fpsCap delay (h before hbefore)
        before.fpsCap_bounds.1
    · rw [if_neg ‹_›]
      exact h user huser
  | userDelayResponseElapsed i elapsed =>
    simp only [respond] at huser
    simp only [noted]
    split at huser
    · obtain ⟨before, hbefore, rfl⟩ := Option.map_eq_some_iff.mp huser
      rw [if_pos ‹_›]
      exact (timeout_tracks notes before.delay before.fpsCap elapsed (h before hbefore)
        before.fpsCap_bounds.1).1
    · rw [if_neg ‹_›]
      exact h user huser
  | _ => exact h user huser

theorem backed_run (id : ℤ) (calls : List (Moment F × Event))
    (notes : List Note) (q : VideoQoS F) (h : Backed id notes q) :
    Backed id (history build id q notes calls) (run build q calls) := by
  induction calls generalizing notes q with
  | nil => exact h
  | cons call rest ih => exact ih _ _ (backed_step build id notes q call.1 call.2 h)

/-- After any events, a reply reduces a viewer's target on evidence only, within bounds, and
neither a bad reply nor a timeout raises it. -/
theorem reductions_need_evidence (build : Build) (start : ℕ) (calls : List (Moment F × Event))
    (m : Moment F) (id : ℤ) (user : UserData F)
    (huser : (run build (VideoQoS.default build start) calls).users.get id = some user) :
    (∀ delay, ∃ after,
      (step build (run build (VideoQoS.default build start) calls) m
        (.userNetworkDelay id delay)).users.get id = some after ∧
      ReplyLaw (history build id (VideoQoS.default build start) [] calls) user.fpsCap delay
        user.delay after.delay) ∧
    ∀ elapsed, ∃ after,
      (step build (run build (VideoQoS.default build start) calls) m
        (.userDelayResponseElapsed id elapsed)).users.get id = some after ∧
      after.delay.currentFps user.fpsCap ≤ user.delay.currentFps user.fpsCap := by
  have hnew : Backed id [] (VideoQoS.default build start : VideoQoS F) := by
    intro none hnone
    exact absurd hnone (by simp [VideoQoS.default])
  have htracks := backed_run build id calls [] _ hnew user huser
  refine ⟨fun delay => ?_, fun elapsed => ?_⟩
  · obtain ⟨after, wait, hafter, hdelay⟩ := get_reply build _ m id delay user huser
    refine ⟨after, hafter, ?_⟩
    rw [hdelay]
    exact ReplyLaw.of_wait _ _ _ _ _ wait
      (reply_law _ user.delay _ _ user.fpsCap delay htracks user.fpsCap_bounds.1)
  · obtain ⟨f, hf, hget⟩ := get_step build (run build (VideoQoS.default build start) calls) m
      (.userDelayResponseElapsed id elapsed)
    have hid := hget id
    rw [huser] at hid
    by_cases hlate : 2000 < elapsed
    · rw [respond, if_pos ⟨rfl, hlate⟩, Option.map_some, Option.map_some] at hid
      obtain ⟨wait, hwait⟩ := delay_of_withoutWait _ _ (hf.2 _)
      refine ⟨_, hid, ?_⟩
      rw [hwait]
      exact (timeout_tracks _ user.delay user.fpsCap elapsed htracks user.fpsCap_bounds.1).2
    · rw [respond, if_neg fun hp => hlate hp.2, Option.map_some] at hid
      obtain ⟨wait, hwait⟩ := delay_of_withoutWait _ _ (hf.2 user)
      refine ⟨_, hid, ?_⟩
      rw [hwait]
      exact Nat.le_refl _

end

def stalled : UserData ℚ where
  joinedAt := some 0
  delay :=
    { stallTicks := 1, delayHistory := [3000], fps := some 5, fpsBeforeCongestion := some 15,
      stallReferenceFps := some 15, startupGoodSamples := 255 }

def stall : List (Moment ℚ × Event) :=
  timed [(0, .onConnectionOpen 1 "Y"), (9, .userDelayResponseElapsed 1 3000)]

theorem reductions_need_evidence_stalled :
    (∀ delay, ∃ after,
      (step linuxBuild (run linuxBuild (VideoQoS.default linuxBuild 0) stall)
        (momentAt 10) (.userNetworkDelay 1 delay)).users.get 1 =
          some after ∧
      ReplyLaw (history linuxBuild 1 (VideoQoS.default linuxBuild 0) [] stall) stalled.fpsCap
        delay stalled.delay after.delay) ∧
    ∀ elapsed, ∃ after,
      (step linuxBuild (run linuxBuild (VideoQoS.default linuxBuild 0) stall)
        (momentAt 10) (.userDelayResponseElapsed 1 elapsed)).users.get 1 =
          some after ∧
      after.delay.currentFps stalled.fpsCap ≤ stalled.delay.currentFps stalled.fpsCap := by
  exact reductions_need_evidence linuxBuild 0 stall _ 1 stalled rfl

end ClantoDesk.ReductionEvidence
