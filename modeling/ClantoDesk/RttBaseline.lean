import ClantoDesk.VideoQos
import Mathlib.Data.List.Induction

/-!
The round trip time that is held against a viewer's delays. The baseline follows a lower delay at
once. It rises only when the two halves of a full window have settled, by half of the gap and at
most fifty milliseconds. The gap to a delay that stays the same is followed here until it is
closed.
-/
namespace ClantoDesk.RttBaseline

open VideoQos RttCalculator

variable (self : RttCalculator) (xs delays : List ℕ) (d n gap delay : ℕ)

theorem foldl_min_le : xs.foldl min n ≤ n ∧ ∀ x ∈ xs, xs.foldl min n ≤ x := by
  induction xs generalizing n with
  | nil => exact ⟨le_refl n, by simp⟩
  | cons y ys ih =>
    obtain ⟨hfirst, hrest⟩ := ih (min n y)
    simp only [List.foldl_cons, List.mem_cons, forall_eq_or_imp]
    refine ⟨by omega, by omega, hrest⟩

theorem lowest_le (m : ℕ) (hm : lowest xs = some m) : ∀ x ∈ xs, m ≤ x := by
  cases xs with
  | nil => simp
  | cons y ys =>
    obtain ⟨hfirst, hrest⟩ := foldl_min_le ys y
    simp only [lowest, Option.some.injEq] at hm
    subst hm
    simpa using ⟨hfirst, hrest⟩

theorem lowest_replicate (d : ℕ) (hn : 0 < n) : lowest (List.replicate n d) = some d := by
  obtain ⟨k, rfl⟩ := Nat.exists_eq_succ_of_ne_zero (by omega : n ≠ 0)
  have hfold : ∀ k, (List.replicate k d).foldl min d = d := by
    intro k
    induction k with
    | zero => rfl
    | succ k ih => simpa [List.replicate_succ] using ih
  simp [List.replicate_succ, lowest, hfold]

/-- A full window moves its baseline only after it has settled, by half of the gap. -/
theorem settle_cases (baseline : ℕ) (older recent : List ℕ) :
    settle baseline older recent = baseline ∨
      ∃ olderMin recentMin, lowest older = some olderMin ∧ lowest recent = some recentMin ∧
        recentMin ≤ olderMin + 10 ∧ baseline < min olderMin recentMin ∧
        settle baseline older recent =
          baseline + clamp 1 maxIncreaseMs ((min olderMin recentMin - baseline) / 2) := by
  cases holder : lowest older with
  | none => exact Or.inl (by simp [settle, holder])
  | some olderMin =>
    cases hrecent : lowest recent with
    | none => exact Or.inl (by simp [settle, holder, hrecent])
    | some recentMin =>
      simp only [settle, holder, hrecent]
      split
      · exact Or.inl rfl
      · split
        · refine Or.inr ⟨olderMin, recentMin, rfl, rfl, ?_, ?_, rfl⟩ <;> omega
        · exact Or.inl rfl

/-- The step up stays within the gap. -/
theorem clamp_half_le (rise : ℕ) (hrise : 0 < rise) : clamp 1 maxIncreaseMs (rise / 2) ≤ rise := by
  unfold clamp maxIncreaseMs
  omega

theorem clamp_half_le_max (rise : ℕ) : clamp 1 maxIncreaseMs (rise / 2) ≤ maxIncreaseMs := by
  unfold clamp maxIncreaseMs
  omega

theorem update_samples :
    (self.update delay).samples =
      (if windowSamples ≤ self.samples.length then self.samples.drop 1 else self.samples) ++
        [delay] := by
  unfold update
  dsimp only
  split <;> split <;> rfl

def floorOf (self : RttCalculator) (delay : ℕ) : ℕ := min (self.baseline.getD delay) delay

theorem update_baseline :
    (self.update delay).baseline =
      if (self.update delay).samples.length < windowSamples then some (floorOf self delay)
      else some (settle (floorOf self delay)
        ((self.update delay).samples.take (windowSamples / 2))
        ((self.update delay).samples.drop (windowSamples / 2))) := by
  rw [update_samples]
  unfold update floorOf
  dsimp only
  split <;> split <;> rfl

def updates (self : RttCalculator) (delays : List ℕ) : RttCalculator := delays.foldl update self

theorem updates_concat : updates self (delays ++ [delay]) = (updates self delays).update delay := by
  simp [updates]

theorem updates_samples :
    (updates self delays).samples =
      (self.samples ++ delays).drop
        (self.samples.length + delays.length - max windowSamples self.samples.length) := by
  induction delays using List.reverseRecOn with
  | nil => simp [updates]
  | append_singleton delays delay ih =>
    obtain ⟨kept, hkept⟩ : ∃ kept, max windowSamples self.samples.length = kept := ⟨_, rfl⟩
    have hsize : 0 < kept ∧ self.samples.length ≤ kept ∧
        (kept = windowSamples ∨ kept = self.samples.length ∧ windowSamples ≤ kept) := by
      unfold windowSamples at hkept ⊢
      omega
    have hlast : ∀ n ≤ (self.samples ++ delays).length,
        (self.samples ++ (delays ++ [delay])).drop n = (self.samples ++ delays).drop n ++ [delay] := by
      intro n hn
      rw [← List.append_assoc, List.drop_append_of_le_length hn]
    rw [updates_concat, update_samples, ih, hkept, hlast, List.drop_drop]
    · simp only [List.length_drop, List.length_append, List.length_singleton]
      split
      · congr 2
        omega
      · congr 2
        omega
    · simp only [List.length_append, List.length_singleton]
      omega

theorem updates_length_le : (updates {} delays).samples.length ≤ windowSamples := by
  rw [updates_samples]
  simp only [List.length_drop, List.length_append, List.length_nil]
  unfold windowSamples
  omega

def BelowWindow (self : RttCalculator) : Prop :=
  ∀ b, self.baseline = some b → ∀ sample ∈ self.samples, b ≤ sample

theorem floorOf_le (hself : BelowWindow self) (hempty : self.baseline = none → self.samples = []) :
    ∀ sample ∈ (self.update delay).samples, floorOf self delay ≤ sample := by
  intro sample hsample
  rw [update_samples, List.mem_append, List.mem_singleton] at hsample
  rcases hsample with hold | rfl
  · have hmem : sample ∈ self.samples := by
      split at hold
      · exact List.mem_of_mem_drop hold
      · exact hold
    cases hbaseline : self.baseline with
    | none =>
      rw [hempty hbaseline] at hmem
      exact absurd hmem (by simp)
    | some b =>
      have hb := hself b hbaseline sample hmem
      simp only [floorOf, hbaseline, Option.getD_some]
      omega
  · exact Nat.min_le_right _ _

/-- The baseline after an update, and what a rise takes. -/
theorem update_spec :
    ∃ b, (self.update delay).baseline = some b ∧
      (b = floorOf self delay ∨
        b ≤ floorOf self delay + maxIncreaseMs ∧ windowSamples ≤ (self.update delay).samples.length ∧
        ∃ olderMin recentMin,
          lowest ((self.update delay).samples.take (windowSamples / 2)) = some olderMin ∧
          lowest ((self.update delay).samples.drop (windowSamples / 2)) = some recentMin ∧
          recentMin ≤ olderMin + 10 ∧ b ≤ min olderMin recentMin) := by
  rw [update_baseline]
  split
  · exact ⟨floorOf self delay, rfl, Or.inl rfl⟩
  · refine ⟨_, rfl, ?_⟩
    obtain hsame | ⟨olderMin, recentMin, holder, hrecent, hsettled, hgap, hrise⟩ :=
      settle_cases (floorOf self delay) ((self.update delay).samples.take (windowSamples / 2))
        ((self.update delay).samples.drop (windowSamples / 2))
    · exact Or.inl hsame
    · rw [hrise]
      have hwithin := clamp_half_le (min olderMin recentMin - floorOf self delay) (by omega)
      have hmax := clamp_half_le_max (min olderMin recentMin - floorOf self delay)
      exact Or.inr ⟨by omega, by omega, olderMin, recentMin, holder, hrecent, hsettled, by omega⟩

theorem min_le_sample (k olderMin recentMin : ℕ)
    (holder : lowest (xs.take k) = some olderMin) (hrecent : lowest (xs.drop k) = some recentMin) :
    ∀ x ∈ xs, min olderMin recentMin ≤ x := by
  intro x hx
  rw [← List.take_append_drop k xs, List.mem_append] at hx
  rcases hx with hold | hnew
  · exact le_trans (Nat.min_le_left _ _) (lowest_le _ olderMin holder x hold)
  · exact le_trans (Nat.min_le_right _ _) (lowest_le _ recentMin hrecent x hnew)

theorem update_below (hself : BelowWindow self)
    (hempty : self.baseline = none → self.samples = []) : BelowWindow (self.update delay) := by
  intro b hb sample hsample
  obtain ⟨b', hb', hcase⟩ := update_spec self delay
  obtain rfl := Option.some.inj (hb'.symm.trans hb)
  rcases hcase with rfl | ⟨-, -, olderMin, recentMin, holder, hrecent, -, hle⟩
  · exact floorOf_le self delay hself hempty sample hsample
  · exact le_trans hle (min_le_sample _ _ olderMin recentMin holder hrecent sample hsample)

theorem updates_below :
    BelowWindow (updates {} delays) ∧
      ((updates {} delays).baseline = none → (updates {} delays).samples = []) := by
  induction delays using List.reverseRecOn with
  | nil => exact ⟨by intro b hb; simp [updates] at hb, by intro _; rfl⟩
  | append_singleton delays delay ih =>
    obtain ⟨b, hb, -⟩ := update_spec (updates {} delays) delay
    rw [updates_concat]
    refine ⟨update_below _ delay ih.1 ih.2, ?_⟩
    intro hnone
    rw [hb] at hnone
    exact absurd hnone (by simp)

def closeGap (gap : ℕ) : ℕ := gap - clamp 1 maxIncreaseMs (gap / 2)

theorem closeGap_half (k gap : ℕ) (hgap : gap ≤ 2 ^ k) (hsmall : gap ≤ 100) :
    closeGap^[k + 1] gap = 0 := by
  induction k generalizing gap with
  | zero =>
    simp only [Nat.zero_add, Function.iterate_one]
    unfold closeGap clamp maxIncreaseMs
    omega
  | succ k ih =>
    rw [Function.iterate_succ_apply]
    have hstep : closeGap gap ≤ (gap + 1) / 2 := by
      unfold closeGap clamp maxIncreaseMs
      omega
    rw [pow_succ] at hgap
    exact ih (closeGap gap) (by omega) (by omega)

theorem closeGap_zero : closeGap^[n] 0 = 0 := by
  induction n with
  | zero => rfl
  | succ n ih =>
    rw [Function.iterate_succ_apply]
    exact ih

/-- A large gap shrinks by the largest step, a small one by half. -/
theorem closeGap_iterate (hn : gap / 50 + 8 ≤ n) : closeGap^[n] gap = 0 := by
  induction n generalizing gap with
  | zero => omega
  | succ n ih =>
    by_cases hsmall : gap ≤ 100
    · obtain ⟨rest, hrest⟩ : ∃ rest, n + 1 = rest + 8 := ⟨n + 1 - 8, by omega⟩
      rw [hrest, Function.iterate_add_apply, closeGap_half 7 gap (by omega) hsmall]
      exact closeGap_zero rest
    · rw [Function.iterate_succ_apply]
      refine ih (closeGap gap) ?_
      unfold closeGap clamp maxIncreaseMs
      omega

/-- A window that holds one delay only, and a baseline that is not above it. -/
structure Steady (rtt : RttCalculator) (d gap : ℕ) : Prop where
  window : ∃ m, windowSamples ≤ m ∧ rtt.samples = List.replicate m d
  baseline : rtt.baseline = some (d - gap)
  gap_le : gap ≤ d

theorem steady_update (hd : d ≤ u32Max)
    (hself : Steady self d gap) : Steady (self.update d) d (closeGap gap) := by
  obtain ⟨⟨m, hm, hsamples⟩, hbaseline, hgap⟩ := hself
  have hwindow : (self.update d).samples = List.replicate m d := by
    rw [update_samples, hsamples, List.length_replicate, if_pos hm, List.drop_replicate,
      ← List.replicate_succ']
    congr 1
    unfold windowSamples at hm
    omega
  have hfloor : floorOf self d = d - gap := by
    simp only [floorOf, hbaseline, Option.getD_some]
    omega
  refine ⟨⟨m, hm, hwindow⟩, ?_, le_trans (Nat.sub_le _ _) hgap⟩
  rw [update_baseline, hwindow, List.length_replicate, if_neg (by omega), hfloor,
    List.take_replicate, List.drop_replicate]
  unfold windowSamples at hm ⊢
  rw [settle, lowest_replicate _ d (by omega), lowest_replicate _ d (by omega)]
  dsimp only
  rw [if_neg (by omega), Nat.min_self, show d - (d - gap) = gap by omega]
  unfold closeGap
  split
  · have := clamp_half_le gap (by omega)
    congr 1
    omega
  · congr 1
    omega

theorem steady_updates (n : ℕ) (hd : d ≤ u32Max) (hself : Steady self d gap) :
    Steady (updates self (List.replicate n d)) d (closeGap^[n] gap) := by
  induction n generalizing self gap with
  | zero => exact hself
  | succ n ih =>
    rw [List.replicate_succ, Function.iterate_succ_apply]
    exact ih _ _ (steady_update self d gap hd hself)

/-- Once the window has been replaced it holds the delay, and the baseline is not above it. -/
theorem steady_after (hn : max windowSamples self.samples.length ≤ n) :
    ∃ gap, Steady (updates self (List.replicate n d)) d gap := by
  obtain ⟨k, rfl⟩ : ∃ k, n = k + 1 := by
    unfold windowSamples at hn
    exact ⟨n - 1, by omega⟩
  have hsamples : (updates self (List.replicate (k + 1) d)).samples =
      List.replicate (max windowSamples self.samples.length) d := by
    rw [updates_samples, List.length_replicate, List.drop_append, List.drop_eq_nil_of_le (by omega),
      List.nil_append, List.drop_replicate]
    congr 1
    omega
  rw [List.replicate_succ', updates_concat] at hsamples ⊢
  obtain ⟨b, hb, hcase⟩ := update_spec (updates self (List.replicate k d)) d
  have hle : b ≤ d := by
    rcases hcase with rfl | ⟨-, -, olderMin, recentMin, holder, hrecent, -, hle⟩
    · exact Nat.min_le_right _ _
    · refine le_trans hle (min_le_sample _ _ olderMin recentMin holder hrecent d ?_)
      rw [update_samples]
      simp
  refine ⟨d - b, ⟨_, le_max_left _ _, hsamples⟩, ?_, Nat.sub_le _ _⟩
  rw [hb]
  congr 1
  omega

theorem updates_append (ys : List ℕ) : updates self (xs ++ ys) = updates (updates self xs) ys := by
  simp [updates]

theorem constant_delay (hd : d ≤ u32Max)
    (hn : max windowSamples self.samples.length + d / 50 + 16 ≤ n) :
    (updates self (List.replicate n d)).baseline = some d := by
  obtain ⟨rest, rfl⟩ := Nat.exists_eq_add_of_le
    (show max windowSamples self.samples.length ≤ n by omega)
  obtain ⟨gap, hsteady⟩ := steady_after self d _ (le_refl _)
  have hlast := steady_updates _ d gap rest hd hsteady
  have hquotient := Nat.div_le_div_right (c := 50) hsteady.gap_le
  rw [closeGap_iterate rest gap (by omega), ← updates_append, ← List.replicate_add] at hlast
  exact hlast.baseline

/-- After every sequence of delays from the start, one more delay leaves the last twenty in the
window and a baseline that is at most each of them; it is above the old one by at most fifty and
only when the window is full and has settled. From every state, a delay that stays the same is
the baseline in the end. -/
theorem baseline_follows_delays :
    (∀ (delays : List ℕ) (delay : ℕ),
      ((updates {} delays).update delay).samples =
        (delays ++ [delay]).drop ((delays ++ [delay]).length - windowSamples) ∧
      ∃ b, ((updates {} delays).update delay).baseline = some b ∧
        (∀ sample ∈ ((updates {} delays).update delay).samples, b ≤ sample) ∧
        ∀ a, (updates {} delays).baseline = some a → a < b →
          b ≤ a + maxIncreaseMs ∧
          ((updates {} delays).update delay).samples.length = windowSamples ∧
          ∃ olderMin recentMin,
            lowest (((updates {} delays).update delay).samples.take 10) = some olderMin ∧
            lowest (((updates {} delays).update delay).samples.drop 10) = some recentMin ∧
            recentMin ≤ olderMin + 10) ∧
    ∀ (self : RttCalculator) (d n : ℕ), d ≤ u32Max →
      max windowSamples self.samples.length + d / 50 + 16 ≤ n →
      (updates self (List.replicate n d)).baseline = some d := by
  refine ⟨?_, constant_delay⟩
  intro delays delay
  obtain ⟨hbelow, hempty⟩ := updates_below delays
  have hlength := updates_length_le (delays ++ [delay])
  rw [updates_concat] at hlength
  constructor
  · rw [← updates_concat, updates_samples]
    simp
  · obtain ⟨b, hb, hcase⟩ := update_spec (updates {} delays) delay
    refine ⟨b, hb, update_below _ delay hbelow hempty b hb, ?_⟩
    intro a ha hab
    have hfloor : floorOf (updates {} delays) delay ≤ a := by
      simp only [floorOf, ha, Option.getD_some]
      exact Nat.min_le_left _ _
    rcases hcase with rfl | ⟨hrise, hfull, olderMin, recentMin, holder, hrecent, hsettled, -⟩
    · omega
    · exact ⟨by omega, by omega, olderMin, recentMin, holder, hrecent, hsettled⟩

/-- A path that moves from 10 ms to 310 ms is learned. -/
theorem baseline_follows_delays_path_change :
    (updates ⟨some 10, List.replicate 20 10⟩ (List.replicate 42 310)).baseline = some 310 :=
  baseline_follows_delays.2 ⟨some 10, List.replicate 20 10⟩ 310 42 (by decide) (by decide)

end ClantoDesk.RttBaseline
