import ClantoDesk.WaylandLayout

/-!
Capturers on the layout of the desktop. Every capturer of the current generation is accounted for:
its layout is in memory, or flagged, or a promotion is owed. A poll that reads the layout settles
the account, when no capturer records its layout between the poll's observation and the present.
-/
namespace ClantoDesk.CapturerLayouts

open WaylandLayout

def current (s : System) : List DisplayRect := logicalRectsOf s.displays

/-- Every capturer of the current generation was built on the layout of the compositor. -/
def OnLayout (s : System) : Prop :=
  ∀ b displays, s.builds b = some (.built s.generation displays) →
    logicalRectsOf displays = current s

/-! ### Every capturer is accounted for -/

def promotes : Poll → Bool
  | .observed _ liveChanged => liveChanged
  | .clearing _ => true
  | .bumping _ => true
  | _ => false

def Owed (s : System) : Prop := s.promotionOwed = true ∨ promotes s.poll = true

def Alarmed (s : System) : Prop := Owed s ∨ s.unrotatedPending = true

def Remembers (s : System) (builtOn : List DisplayRect) : Prop :=
  Owed s ∨ s.layout.seen = builtOn ∨ s.layout.unseenBuild = some s.generation

def BuildOk (s : System) : Build → Prop
  | .started g => g ≤ s.generation
  | .snapshot g _ => g ≤ s.generation
  | .oriented g displays => g ≤ s.generation ∧ (g = s.generation → displays = [] → Alarmed s)
  | .built g displays => g ≤ s.generation ∧ (g = s.generation →
      (displays = [] → Alarmed s) ∧ (displays ≠ [] → Remembers s (logicalRectsOf displays)))

structure Inv (s : System) : Prop where
  unseen : ∀ g, s.layout.unseenBuild = some g → g ≤ s.generation
  builds : ∀ b build, s.builds b = some build → BuildOk s build

/-- What is accounted for stays so. -/
structure Keeps (s s' : System) : Prop where
  generation : s'.generation = s.generation
  alarmed : Alarmed s → Alarmed s'
  remembers : ∀ builtOn, builtOn ≠ [] → Remembers s builtOn → Remembers s' builtOn

variable (s s' : System) (builtOn : List DisplayRect) (g : ℕ) (found : Bool)
  (live : List DisplayRect)

theorem inv_start (displays : List WaylandDisplayInfo) : Inv (start displays) := by
  refine ⟨fun g h => ?_, fun b build h => ?_⟩ <;> cases h

theorem buildOk_keeps (build : Build) (hkeeps : Keeps s s')
    (hok : BuildOk s build) : BuildOk s' build := by
  cases build with
  | started g =>
    unfold BuildOk
    rw [hkeeps.generation]
    exact hok
  | snapshot g displays =>
    unfold BuildOk
    rw [hkeeps.generation]
    exact hok
  | oriented g displays =>
    unfold BuildOk
    rw [hkeeps.generation]
    exact ⟨hok.1, fun hg hnone => hkeeps.alarmed (hok.2 hg hnone)⟩
  | built g displays =>
    unfold BuildOk
    rw [hkeeps.generation]
    refine ⟨hok.1, fun hg => ⟨fun hnone => hkeeps.alarmed ((hok.2 hg).1 hnone), fun hsome => ?_⟩⟩
    exact hkeeps.remembers _ (fun h => hsome ((logicalRectsOf_eq_nil displays).mp h))
      ((hok.2 hg).2 hsome)

/-- A step that leaves the builds keeps the account. -/
theorem inv_keeps (hinv : Inv s) (hkeeps : Keeps s s') (hbuilds : s'.builds = s.builds)
    (hunseen : ∀ g, s'.layout.unseenBuild = some g → g ≤ s.generation) : Inv s' := by
  refine ⟨fun g h => ?_, fun b build hbuild => ?_⟩
  · rw [hkeeps.generation]
    exact hunseen g h
  · rw [hbuilds] at hbuild
    exact buildOk_keeps s s' build hkeeps (hinv.builds b build hbuild)

/-- So does one that takes a build further. -/
theorem inv_put (b : ℕ) (build : Build) (hinv : Inv s) (hkeeps : Keeps s s')
    (hbuilds : s'.builds = s.builds)
    (hunseen : ∀ g, s'.layout.unseenBuild = some g → g ≤ s.generation)
    (hok : BuildOk s' build) : Inv (s'.put b build) := by
  have hmid := inv_keeps s s' hinv hkeeps hbuilds hunseen
  refine ⟨hmid.unseen, fun c other hother => ?_⟩
  have hsame : Keeps s' (s'.put b build) := ⟨rfl, id, fun _ _ h => h⟩
  simp only [System.put] at hother
  by_cases hc : c = b
  · subst hc
    rw [Function.update_self] at hother
    exact Option.some.inj hother ▸ buildOk_keeps s' _ build hsame hok
  · rw [Function.update_of_ne hc] at hother
    exact buildOk_keeps s' _ other hsame (hmid.builds c other hother)

theorem keeps_of_memory (hgen : s'.generation = s.generation)
    (hpending : s'.unrotatedPending = s.unrotatedPending)
    (howed : s'.promotionOwed = s.promotionOwed)
    (hpoll : promotes s.poll = true → promotes s'.poll = true)
    (hseen : s.layout.seen ≠ [] → s'.layout.seen = s.layout.seen)
    (hunseen : s'.layout.unseenBuild = s.layout.unseenBuild) : Keeps s s' := by
  have howes : Owed s → Owed s' := by
    rintro (h | h)
    · exact Or.inl (howed.trans h)
    · exact Or.inr (hpoll h)
  refine ⟨hgen, fun h => ?_, fun builtOn hbuilt h => ?_⟩
  · unfold Alarmed
    rw [hpending]
    exact h.imp_left howes
  · rcases h with h | h | h
    · exact Or.inl (howes h)
    · have hsome : s.layout.seen ≠ [] := by
        rw [h]
        exact hbuilt
      exact Or.inr (Or.inl ((hseen hsome).trans h))
    · exact Or.inr (Or.inr (by rw [hunseen, hgen, h]))

theorem keeps_of_same (hgen : s'.generation = s.generation)
    (hlayout : s'.layout = s.layout) (hpending : s'.unrotatedPending = s.unrotatedPending)
    (howed : s'.promotionOwed = s.promotionOwed) (hpoll : s'.poll = s.poll) : Keeps s s' :=
  keeps_of_memory s s' hgen hpending howed (fun h => hpoll ▸ h) (fun _ => hlayout ▸ rfl)
    (hlayout ▸ rfl)

theorem keeps_noteCapturer (hg : g ≤ s.generation) :
    Keeps s { s with layout := s.layout.noteCapturer builtOn g } := by
  refine ⟨rfl, id, fun other hother h => ?_⟩
  rcases h with howed | hseen | hunseen
  · exact Or.inl howed
  · have hsome : s.layout.seen ≠ [] := by
      rw [hseen]
      exact hother
    exact Or.inr (Or.inl ((s.layout.noteCapturer_seen builtOn g hsome).trans hseen))
  · refine Or.inr (Or.inr ?_)
    rcases s.layout.noteCapturer_unseenBuild builtOn g with hsame | hraised
    · exact hsame.trans hunseen
    · rw [hraised, hunseen]
      exact congrArg some (Nat.max_eq_left hg)

theorem noteCapturer_le (hinv : Inv s) (hg : g ≤ s.generation) (m : ℕ)
    (hm : (s.layout.noteCapturer builtOn g).unseenBuild = some m) : m ≤ s.generation := by
  rcases s.layout.noteCapturer_unseenBuild builtOn g with hsame | hraised
  · exact hinv.unseen m (hsame.symm.trans hm)
  · rw [hraised] at hm
    obtain rfl := Option.some.inj hm
    cases hunseen : s.layout.unseenBuild with
    | none => exact hg
    | some k => exact Nat.max_le.mpr ⟨hinv.unseen k hunseen, hg⟩

theorem remembers_noteCapturer (hinv : Inv s) (hbuilt : builtOn ≠ []) :
    Remembers { s with layout := s.layout.noteCapturer builtOn s.generation } builtOn := by
  rcases s.layout.noteCapturer_records builtOn s.generation hbuilt with hseen | hraised
  · exact Or.inr (Or.inl hseen)
  · refine Or.inr (Or.inr (hraised.trans (congrArg some ?_)))
    cases hunseen : s.layout.unseenBuild with
    | none => rfl
    | some k => exact Nat.max_eq_right (hinv.unseen k hunseen)

/-! ### The poll -/

theorem keeps_observe (hpoll : s.poll = .read live) : Keeps s (s.pollStep found) := by
  have hnot : ¬ promotes s.poll = true := by
    rw [hpoll]
    exact Bool.false_ne_true
  unfold System.pollStep
  rw [hpoll]
  refine ⟨rfl, fun h => ?_, fun builtOn hbuilt h => ?_⟩
  · exact h.imp_left fun howed => Or.inl (howed.resolve_right hnot)
  · rcases h with howed | hseen | hunseen
    · exact Or.inl (Or.inl (howed.resolve_right hnot))
    · cases hedge : s.layout.edge live s.cache.isNone s.generation with
      | true => exact Or.inl (Or.inr hedge)
      | false =>
        have hsome : s.layout.seen ≠ [] := by
          rw [hseen]
          exact hbuilt
        have hlive := s.layout.seen_of_edge_false live _ _ hsome hedge
        exact Or.inr (Or.inl (hlive.symm.trans hseen))
    · exact Or.inl (Or.inr (s.layout.edge_of_unseenBuild live _ _ hunseen))

/-- An edge and a build without a snapshot become owed. -/
theorem keeps_take (liveChanged : Bool)
    (hpoll : s.poll = .observed live liveChanged) : Keeps s (s.pollStep found) := by
  have howes : Owed s → (s.promotionOwed || (liveChanged || s.unrotatedPending)) = true := by
    rintro (howed | hpromotes)
    · rw [howed, Bool.true_or]
    · rw [hpoll] at hpromotes
      have hchanged : liveChanged = true := hpromotes
      rw [hchanged, Bool.true_or, Bool.or_true]
  unfold System.pollStep
  rw [hpoll]
  refine ⟨rfl, fun h => ?_, fun builtOn _ h => h.imp_left fun howed => Or.inl (howes howed)⟩
  rcases h with howed | hpending
  · exact Or.inl (Or.inl (howes howed))
  · refine Or.inl (Or.inl ?_)
    change (s.promotionOwed || (liveChanged || s.unrotatedPending)) = true
    rw [hpending, Bool.or_true, Bool.or_true]

theorem keeps_decide (hpoll : s.poll = .taken live) : Keeps s (s.pollStep found) := by
  have howed : Owed s → Owed (s.pollStep found) := by
    intro h
    have hnot : ¬ promotes s.poll = true := by
      rw [hpoll]
      exact Bool.false_ne_true
    unfold System.pollStep
    rw [hpoll]
    simp only
    split
    · exact Or.inr rfl
    · exact Or.inl (h.resolve_right hnot)
  have hsame : (s.pollStep found).layout = s.layout ∧
      (s.pollStep found).generation = s.generation ∧
      (s.pollStep found).unrotatedPending = s.unrotatedPending := by
    unfold System.pollStep
    rw [hpoll]
    simp only
    split <;> exact ⟨rfl, rfl, rfl⟩
  obtain ⟨hlayout, hgen, hpending⟩ := hsame
  refine ⟨hgen, fun h => ?_, fun builtOn _ h => ?_⟩
  · unfold Alarmed
    rw [hpending]
    exact h.imp_left howed
  · unfold Remembers
    rw [hlayout, hgen]
    exact h.imp_left howed

/-- Raising the generation lets every capturer go. -/
theorem inv_bump (poll : Poll) (hinv : Inv s) :
    Inv { s with poll := poll, generation := s.generation + 1 } := by
  refine ⟨fun g h => Nat.le_succ_of_le (hinv.unseen g h), fun b build hbuild => ?_⟩
  have hok := hinv.builds b build hbuild
  have hold : ∀ g, g ≤ s.generation → g ≠ s.generation + 1 := by
    intro g hg
    omega
  cases build with
  | started g => exact Nat.le_succ_of_le hok
  | snapshot g displays => exact Nat.le_succ_of_le hok
  | oriented g displays =>
    exact ⟨Nat.le_succ_of_le hok.1, fun hg => absurd hg (hold g hok.1)⟩
  | built g displays =>
    exact ⟨Nat.le_succ_of_le hok.1, fun hg => absurd hg (hold g hok.1)⟩

theorem inv_pollStep (hinv : Inv s) : Inv (s.pollStep found) := by
  have hkeep : Keeps s (s.pollStep found) → (s.pollStep found).builds = s.builds →
      ((s.pollStep found).layout.unseenBuild = s.layout.unseenBuild ∨
        (s.pollStep found).layout.unseenBuild = none) → Inv (s.pollStep found) := by
    intro hkeeps hbuilds hunseen
    refine inv_keeps s _ hinv hkeeps hbuilds fun g h => ?_
    rcases hunseen with hsame | hnone
    · exact hinv.unseen g (hsame.symm.trans h)
    · rw [hnone] at h
      cases h
  have hnot : ∀ at', s.poll = at' → promotes at' = false →
      promotes s.poll = true → promotes (s.pollStep found).poll = true := by
    rintro at' rfl hfalse htrue
    exact absurd (hfalse.symm.trans htrue) Bool.false_ne_true
  cases hpoll : s.poll with
  | idle =>
    refine hkeep (keeps_of_memory s _ ?_ ?_ ?_ (hnot _ hpoll rfl) ?_ ?_) ?_ (Or.inl ?_)
    all_goals
      unfold System.pollStep
      rw [hpoll]
      simp only
      split
    all_goals simp
  | read live =>
    refine hkeep (keeps_observe s found live hpoll) ?_ (Or.inr ?_)
    all_goals
      unfold System.pollStep
      rw [hpoll]
    rfl
  | observed live liveChanged =>
    refine hkeep (keeps_take s found live liveChanged hpoll) ?_ (Or.inl ?_)
    all_goals
      unfold System.pollStep
      rw [hpoll]
  | taken live =>
    refine hkeep (keeps_decide s found live hpoll) ?_ (Or.inl ?_)
    all_goals
      unfold System.pollStep
      rw [hpoll]
      simp only
      split <;> rfl
  | clearing live =>
    unfold System.pollStep
    rw [hpoll]
    exact inv_keeps s _ hinv (keeps_of_memory s _ rfl rfl rfl (fun _ => rfl) (fun _ => rfl) rfl) rfl
      hinv.unseen
  | bumping live =>
    unfold System.pollStep
    rw [hpoll]
    exact inv_bump s (.baselining live) hinv
  | baselining live =>
    have hstill := hnot _ hpoll rfl
    unfold System.pollStep at hstill ⊢
    rw [hpoll] at hstill ⊢
    exact inv_keeps s _ hinv (keeps_of_memory s _ rfl rfl rfl (by simpa [hpoll] using hstill)
      (s.layout.resetBaseline_seen live) rfl) rfl hinv.unseen
  | settling live =>
    have hstill := hnot _ hpoll rfl
    unfold System.pollStep at hstill ⊢
    rw [hpoll] at hstill ⊢
    exact inv_keeps s _ hinv (keeps_of_memory s _ rfl rfl rfl (by simpa [hpoll] using hstill)
      (fun _ => rfl) rfl) rfl hinv.unseen

theorem inv_step (e : Event) (hinv : Inv s) (hstep : step s e = some s') : Inv s' := by
  have hsame : ∀ t : System, t.generation = s.generation → t.layout = s.layout →
      t.unrotatedPending = s.unrotatedPending → t.promotionOwed = s.promotionOwed →
      t.poll = s.poll → t.builds = s.builds → Inv t := by
    intro t hgen hlayout hpending howed hpoll hbuilds
    refine inv_keeps s t hinv (keeps_of_same s t hgen hlayout hpending howed hpoll) hbuilds ?_
    rw [hlayout]
    exact hinv.unseen
  cases e with
  | change displays =>
    obtain rfl := Option.some.inj hstep
    exact hsame _ rfl rfl rfl rfl rfl rfl
  | lookup found =>
    obtain rfl := Option.some.inj hstep
    exact hsame _ rfl rfl rfl rfl rfl rfl
  | clearCache =>
    obtain rfl := Option.some.inj hstep
    exact hsame _ rfl rfl rfl rfl rfl rfl
  | initRead i found =>
    obtain rfl := Option.some.inj hstep
    exact hsame _ rfl rfl rfl rfl rfl rfl
  | initReset i =>
    obtain ⟨baseline, -, rfl⟩ := Option.map_eq_some_iff.mp hstep
    exact inv_keeps s _ hinv (keeps_of_memory s _ rfl rfl rfl id
      (s.layout.resetBaseline_seen baseline) rfl) rfl hinv.unseen
  | startBuild b =>
    obtain ⟨-, heq⟩ := Option.ite_none_right_eq_some.mp hstep
    exact Option.some.inj heq ▸ inv_put s s b _ hinv (keeps_of_same s s rfl rfl rfl rfl rfl) rfl
      hinv.unseen (Nat.le_refl s.generation)
  | readSnapshot b found =>
    obtain ⟨g, hbuild, rfl⟩ := step_readSnapshot s s' b found hstep
    exact inv_put s _ b _ hinv (keeps_of_same s _ rfl rfl rfl rfl rfl) rfl hinv.unseen
      (show g ≤ s.generation from hinv.builds b _ hbuild)
  | findTransform b =>
    obtain ⟨g, displays, hbuild, rfl⟩ := step_findTransform s s' b hstep
    refine inv_put s _ b _ hinv ⟨rfl, fun h => ?_, fun _ _ h => h⟩ rfl hinv.unseen
      ⟨hinv.builds b _ hbuild, fun _ hnone => Or.inr ?_⟩
    · refine h.imp_right fun hpending => ?_
      change (s.unrotatedPending || displays.isEmpty) = true
      rw [hpending, Bool.true_or]
    · change (s.unrotatedPending || displays.isEmpty) = true
      rw [hnone, List.isEmpty_nil, Bool.or_true]
  | noteCapturer b =>
    obtain ⟨g, displays, hbuild, rfl⟩ := step_noteCapturer s s' b hstep
    have hok := hinv.builds b _ hbuild
    refine inv_put s _ b _ hinv (keeps_noteCapturer s _ g hok.1) rfl
      (noteCapturer_le s _ g hinv hok.1) ⟨hok.1, fun hg => ⟨hok.2 hg, fun hsome => ?_⟩⟩
    obtain rfl : g = s.generation := hg
    exact remembers_noteCapturer s _ hinv fun h => hsome ((logicalRectsOf_eq_nil displays).mp h)
  | drop b =>
    obtain rfl := Option.some.inj hstep
    refine ⟨hinv.unseen, fun c other hother => ?_⟩
    have hkeeps : Keeps s { s with builds := Function.update s.builds b none } :=
      keeps_of_same s _ rfl rfl rfl rfl rfl
    simp only at hother
    by_cases hc : c = b
    · subst hc
      rw [Function.update_self] at hother
      cases hother
    · rw [Function.update_of_ne hc] at hother
      exact buildOk_keeps s _ other hkeeps (hinv.builds c other hother)
  | poll found =>
    obtain rfl := Option.some.inj hstep
    exact inv_pollStep s found hinv

/-! ### A poll settles the account -/

/-- Nothing is owed, and the memory has the layout of the compositor. -/
structure Settled (s : System) : Prop where
  nonempty : current s ≠ []
  seen : s.layout.seen = current s
  unseen : s.layout.unseenBuild ≠ some s.generation
  pending : s.unrotatedPending = false
  owed : s.promotionOwed = false
  poll : s.poll = .idle ∨ s.poll = .read (current s) ∨ s.poll = .observed (current s) false ∨
    s.poll = .taken (current s)

theorem not_owed_of_settled (hsettled : Settled s) : ¬ Owed s := by
  rintro (howed | hpoll)
  · rw [hsettled.owed] at howed
    cases howed
  · rcases hsettled.poll with h | h | h | h <;> rw [h] at hpoll <;> cases hpoll

theorem onLayout_of_settled (hinv : Inv s) (hsettled : Settled s) : OnLayout s := by
  intro b displays hbuild
  have hnot := not_owed_of_settled s hsettled
  obtain ⟨hnone, hsome⟩ := (hinv.builds b _ hbuild).2 rfl
  have hdisplays : displays ≠ [] := by
    intro h
    rcases hnone h with howed | hpending
    · exact hnot howed
    · rw [hsettled.pending] at hpending
      cases hpending
  rcases hsome hdisplays with howed | hseen | hunseen
  · exact absurd howed hnot
  · exact hseen.symm.trans hsettled.seen
  · exact absurd hunseen hsettled.unseen

/-- The layout stays, no build comes without a snapshot, and no capturer of the current generation
records another layout. -/
def Undisturbed (s : System) : Event → Prop
  | .change _ => False
  | .findTransform b => ∀ g displays, s.builds b = some (.snapshot g displays) → displays ≠ []
  | .noteCapturer b => ∀ displays, s.builds b = some (.oriented s.generation displays) →
      displays = [] ∨ logicalRectsOf displays = current s
  | _ => True

theorem settled_of_same (hdisplays : s'.displays = s.displays)
    (hgen : s'.generation = s.generation) (hlayout : s'.layout = s.layout)
    (hpending : s'.unrotatedPending = s.unrotatedPending)
    (howed : s'.promotionOwed = s.promotionOwed) (hpoll : s'.poll = s.poll)
    (hsettled : Settled s) : Settled s' := by
  have hcurrent : current s' = current s := congrArg logicalRectsOf hdisplays
  refine ⟨?_, ?_, ?_, ?_, ?_, ?_⟩
  · rw [hcurrent]
    exact hsettled.nonempty
  · rw [hlayout, hcurrent]
    exact hsettled.seen
  · rw [hlayout, hgen]
    exact hsettled.unseen
  · exact hpending.trans hsettled.pending
  · exact howed.trans hsettled.owed
  · rw [hpoll, hcurrent]
    exact hsettled.poll

theorem settled_pollStep (hsettled : Settled s) :
    Settled (s.pollStep found) ∧ (s.pollStep found).generation = s.generation := by
  obtain ⟨hsome, hseen, hunseen, hpending, howed, hpoll⟩ := hsettled
  rcases hpoll with hpoll | hpoll | hpoll | hpoll
  · unfold System.pollStep
    rw [hpoll]
    simp only
    split
    · exact ⟨⟨hsome, hseen, hunseen, hpending, howed, Or.inr (Or.inl rfl)⟩, rfl⟩
    · exact ⟨⟨hsome, hseen, hunseen, hpending, howed, Or.inl hpoll⟩, rfl⟩
  · have hedge : s.layout.edge (current s) s.cache.isNone s.generation = false := by
      rw [← hseen] at hsome ⊢
      exact s.layout.edge_same _ _ hunseen hsome
    unfold System.pollStep
    rw [hpoll]
    simp only [hedge]
    exact ⟨⟨hsome, rfl, Option.some_ne_none s.generation |>.symm, hpending, howed,
      Or.inr (Or.inr (Or.inl rfl))⟩, trivial⟩
  · unfold System.pollStep
    rw [hpoll]
    simp only [howed, hpending, Bool.or_false]
    exact ⟨⟨hsome, hseen, hunseen, rfl, rfl, Or.inr (Or.inr (Or.inr rfl))⟩, trivial⟩
  · unfold System.pollStep
    rw [hpoll]
    simp only [howed, Bool.false_eq_true, false_and, if_false]
    exact ⟨⟨hsome, hseen, hunseen, hpending, rfl, Or.inl rfl⟩, trivial⟩

theorem not_raised (hinv : Inv s) (hunseen : s.layout.unseenBuild ≠ some s.generation)
    (hsame : g = s.generation → builtOn = [] ∨ builtOn = s.layout.seen) :
    (s.layout.noteCapturer builtOn g).unseenBuild ≠ some s.generation := by
  by_cases hcurrent : g = s.generation
  · rcases hsame hcurrent with hnone | hseen
    · rw [hnone]
      exact hunseen
    · rw [hseen, s.layout.noteCapturer_same]
      exact hunseen
  · rcases s.layout.noteCapturer_unseenBuild builtOn g with hkept | hraised
    · rw [hkept]
      exact hunseen
    · rw [hraised]
      intro h
      have heq := Option.some.inj h
      cases hflag : s.layout.unseenBuild with
      | none =>
        rw [hflag] at heq
        exact hcurrent heq
      | some k =>
        rw [hflag] at heq hunseen
        have hk := hinv.unseen k hflag
        have hne : k ≠ s.generation := fun hk => hunseen (congrArg some hk)
        have hmax : max k g = s.generation := heq
        omega

theorem settled_step (e : Event) (hundisturbed : Undisturbed s e) (hinv : Inv s)
    (hsettled : Settled s) (hstep : step s e = some s') :
    Settled s' ∧ s'.generation = s.generation := by
  have hsame : ∀ t : System, t.displays = s.displays → t.generation = s.generation →
      t.layout = s.layout → t.unrotatedPending = s.unrotatedPending →
      t.promotionOwed = s.promotionOwed → t.poll = s.poll →
      Settled t ∧ t.generation = s.generation := by
    intro t hdisplays hgen hlayout hpending howed hpoll
    exact ⟨settled_of_same s t hdisplays hgen hlayout hpending howed hpoll hsettled, hgen⟩
  have hmemory : s.layout.seen ≠ [] := by
    rw [hsettled.seen]
    exact hsettled.nonempty
  cases e with
  | change displays => exact hundisturbed.elim
  | lookup found =>
    obtain rfl := Option.some.inj hstep
    exact hsame _ rfl rfl rfl rfl rfl rfl
  | clearCache =>
    obtain rfl := Option.some.inj hstep
    exact hsame _ rfl rfl rfl rfl rfl rfl
  | initRead i found =>
    obtain rfl := Option.some.inj hstep
    exact hsame _ rfl rfl rfl rfl rfl rfl
  | initReset i =>
    obtain ⟨baseline, -, rfl⟩ := Option.map_eq_some_iff.mp hstep
    exact ⟨⟨hsettled.nonempty, (s.layout.resetBaseline_seen baseline hmemory).trans hsettled.seen,
      hsettled.unseen, hsettled.pending, hsettled.owed, hsettled.poll⟩, rfl⟩
  | startBuild b =>
    obtain ⟨-, heq⟩ := Option.ite_none_right_eq_some.mp hstep
    exact Option.some.inj heq ▸ hsame _ rfl rfl rfl rfl rfl rfl
  | readSnapshot b found =>
    obtain ⟨g, -, rfl⟩ := step_readSnapshot s s' b found hstep
    exact hsame _ rfl rfl rfl rfl rfl rfl
  | findTransform b =>
    obtain ⟨g, displays, hbuild, rfl⟩ := step_findTransform s s' b hstep
    refine hsame _ rfl rfl rfl ?_ rfl rfl
    change (s.unrotatedPending || displays.isEmpty) = s.unrotatedPending
    rw [List.isEmpty_eq_false_iff.mpr (hundisturbed g displays hbuild), Bool.or_false]
  | noteCapturer b =>
    obtain ⟨g, displays, hbuild, rfl⟩ := step_noteCapturer s s' b hstep
    refine ⟨⟨hsettled.nonempty, (s.layout.noteCapturer_seen _ g hmemory).trans hsettled.seen,
      not_raised s (logicalRectsOf displays) g hinv hsettled.unseen ?_,
      hsettled.pending, hsettled.owed, hsettled.poll⟩, rfl⟩
    rintro rfl
    rw [hsettled.seen]
    exact (hundisturbed displays hbuild).imp_left (logicalRectsOf_eq_nil displays).mpr
  | drop b =>
    obtain rfl := Option.some.inj hstep
    exact hsame _ rfl rfl rfl rfl rfl rfl
  | poll found =>
    obtain rfl := Option.some.inj hstep
    exact settled_pollStep s found hsettled

/-! ### Counting polls -/

/-- How many complete polls made with DRM available count, and whether the one under way does so
far. -/
structure Watch where
  counts : Bool
  polls : ℕ

def Watch.poll (w : Watch) (s : System) (found : Bool) : Watch :=
  match s.poll with
  | .idle => ⟨true, w.polls⟩
  | .taken _ =>
    if found then if s.promotionOwed then w else ⟨false, w.polls + w.counts.toNat⟩
    else ⟨false, w.polls⟩
  | .settling _ => ⟨false, w.polls + w.counts.toNat⟩
  | _ => w

def sinceStart (s : System) (w : Watch) : Event → Watch
  | .change _ => ⟨false, 0⟩
  | .startBuild _ => ⟨false, 0⟩
  | .poll found => w.poll s found
  | _ => w

def records (s : System) : Event → Bool
  | .findTransform b => (s.builds b matches some (.snapshot _ []))
  | .noteCapturer b => (s.builds b matches some (.oriented _ (_ :: _)))
  | _ => false

/-- Polls since the layout changed, and whose observation came after every record. -/
def sinceRecord (s : System) (w : Watch) : Event → Watch
  | .change _ => ⟨false, 0⟩
  | .poll found => w.poll s found
  | e => if records s e then ⟨w.counts && s.poll matches .read _, 0⟩ else w

def watched (count : System → Watch → Event → Watch) (sw : System × Watch) (e : Event) :
    Option (System × Watch) := (step sw.1 e).map fun s' => (s', count sw.1 sw.2 e)

structure Observed (s : System) (live : List DisplayRect) : Prop where
  live : live = current s
  nonempty : current s ≠ []
  seen : s.layout.seen = current s
  unseen : s.layout.unseenBuild ≠ some s.generation

def SettlingAt (s : System) : Poll → Prop
  | .idle => True
  | .read live => live = current s ∧ current s ≠ []
  | .observed live _ => Observed s live
  | .taken live => Observed s live ∧ s.unrotatedPending = false
  | .clearing live => Observed s live ∧ s.unrotatedPending = false ∧ s.promotionOwed = false
  | .bumping live => Observed s live ∧ s.unrotatedPending = false ∧ s.promotionOwed = false
  | .baselining live => Observed s live ∧ s.unrotatedPending = false ∧ s.promotionOwed = false
  | .settling live => Observed s live ∧ s.unrotatedPending = false ∧ s.promotionOwed = false

def Settling (s : System) : Prop := SettlingAt s s.poll

structure Counted (s : System) (w : Watch) : Prop where
  counts : w.counts = true → Settling s
  polls : 0 < w.polls → Settled s

theorem settling_congr (hdisplays : s'.displays = s.displays)
    (hgen : s'.generation = s.generation) (hpending : s'.unrotatedPending = s.unrotatedPending)
    (howed : s'.promotionOwed = s.promotionOwed) (hpoll : s'.poll = s.poll)
    (hseen : s.layout.seen ≠ [] → s'.layout.seen = s.layout.seen)
    (hunseen : s'.layout.unseenBuild = s.layout.unseenBuild) (hsettling : Settling s) :
    Settling s' := by
  have hcurrent : current s' = current s := congrArg logicalRectsOf hdisplays
  have hobserved : ∀ live, Observed s live → Observed s' live := by
    rintro live ⟨hlive, hnonempty, hmemory, hflag⟩
    have hsome : s.layout.seen ≠ [] := by
      rw [hmemory]
      exact hnonempty
    refine ⟨hlive.trans hcurrent.symm, ?_, ?_, ?_⟩
    · rw [hcurrent]
      exact hnonempty
    · rw [hseen hsome, hcurrent, hmemory]
    · rw [hunseen, hgen]
      exact hflag
  unfold Settling at hsettling ⊢
  rw [hpoll]
  cases hat : s.poll with
  | idle => trivial
  | read live =>
    rw [hat] at hsettling
    unfold SettlingAt
    rw [hcurrent]
    exact hsettling
  | observed live liveChanged =>
    rw [hat] at hsettling
    exact hobserved live hsettling
  | taken live =>
    rw [hat] at hsettling
    unfold SettlingAt
    rw [hpending]
    exact hsettling.imp_left (hobserved live)
  | _ =>
    rw [hat] at hsettling
    unfold SettlingAt
    rw [hpending, howed]
    exact hsettling.imp_left (hobserved _)

theorem settling_pollStep (hinv : Inv s) (hsettling : Settling s) :
    Settling (s.pollStep found) := by
  unfold System.pollStep
  cases hpoll : s.poll with
  | idle =>
    simp only
    split
    · rename_i hread
      exact ⟨rfl, fun h => hread.2 ((logicalRectsOf_eq_nil s.displays).mp h)⟩
    · exact hsettling
  | read live =>
    obtain ⟨hlive, hnonempty⟩ : SettlingAt s (.read live) := hpoll ▸ hsettling
    exact ⟨hlive, hnonempty, hlive, (Option.some_ne_none s.generation).symm⟩
  | observed live liveChanged =>
    obtain ⟨hlive, hnonempty, hseen, hunseen⟩ : SettlingAt s (.observed live liveChanged) :=
      hpoll ▸ hsettling
    exact ⟨⟨hlive, hnonempty, hseen, hunseen⟩, rfl⟩
  | taken live =>
    obtain ⟨⟨hlive, hnonempty, hseen, hunseen⟩, hpending⟩ : SettlingAt s (.taken live) :=
      hpoll ▸ hsettling
    simp only
    split
    · exact ⟨⟨hlive, hnonempty, hseen, hunseen⟩, hpending, rfl⟩
    · trivial
  | clearing live =>
    obtain ⟨⟨hlive, hnonempty, hseen, hunseen⟩, hpending, howed⟩ : SettlingAt s (.clearing live) :=
      hpoll ▸ hsettling
    exact ⟨⟨hlive, hnonempty, hseen, hunseen⟩, hpending, howed⟩
  | bumping live =>
    obtain ⟨⟨hlive, hnonempty, hseen, -⟩, hpending, howed⟩ : SettlingAt s (.bumping live) :=
      hpoll ▸ hsettling
    refine ⟨⟨hlive, hnonempty, hseen, fun h => ?_⟩, hpending, howed⟩
    have hle := hinv.unseen (s.generation + 1) h
    omega
  | baselining live =>
    obtain ⟨⟨hlive, hnonempty, hseen, hunseen⟩, hpending, howed⟩ :
      SettlingAt s (.baselining live) := hpoll ▸ hsettling
    have hsome : s.layout.seen ≠ [] := by
      rw [hseen]
      exact hnonempty
    exact ⟨⟨hlive, hnonempty, (s.layout.resetBaseline_seen live hsome).trans hseen, hunseen⟩,
      hpending, howed⟩
  | settling live => trivial

theorem settled_of_settling (hsettling : Settling s)
    (hlast : (∃ live, s.poll = .taken live ∧ s.promotionOwed = false) ∨
      ∃ live, s.poll = .settling live) : Settled (s.pollStep found) := by
  unfold System.pollStep
  rcases hlast with ⟨live, hpoll, howed⟩ | ⟨live, hpoll⟩
  · obtain ⟨⟨-, hnonempty, hseen, hunseen⟩, hpending⟩ : SettlingAt s (.taken live) :=
      hpoll ▸ hsettling
    rw [hpoll]
    simp only [howed, Bool.false_eq_true, false_and, if_false]
    exact ⟨hnonempty, hseen, hunseen, hpending, rfl, Or.inl rfl⟩
  · obtain ⟨⟨-, hnonempty, hseen, hunseen⟩, hpending, howed⟩ : SettlingAt s (.settling live) :=
      hpoll ▸ hsettling
    rw [hpoll]
    exact ⟨hnonempty, hseen, hunseen, hpending, howed, Or.inl rfl⟩

theorem counted_poll (w : Watch) (found : Bool) (hinv : Inv s)
    (hcounted : Counted s w) : Counted (s.pollStep found) (w.poll s found) := by
  have hmore : 0 < w.polls → Settled (s.pollStep found) := fun h =>
    (settled_pollStep s found (hcounted.polls h)).1
  have hfurther : w.counts = true → Settling (s.pollStep found) := fun h =>
    settling_pollStep s found hinv (hcounted.counts h)
  have hend : ((∃ live, s.poll = .taken live ∧ s.promotionOwed = false) ∨
      ∃ live, s.poll = .settling live) → 0 < w.polls + w.counts.toNat →
      Settled (s.pollStep found) := by
    intro hlast hpos
    cases hcounts : w.counts with
    | true => exact settled_of_settling s found (hcounted.counts hcounts) hlast
    | false =>
      rw [hcounts] at hpos
      exact hmore hpos
  unfold Watch.poll
  cases hpoll : s.poll with
  | idle =>
    refine ⟨fun _ => settling_pollStep s found hinv ?_, hmore⟩
    unfold Settling
    rw [hpoll]
    trivial
  | taken live =>
    simp only
    split
    · split
      · exact ⟨hfurther, hmore⟩
      · rename_i howed
        refine ⟨fun h => absurd h Bool.false_ne_true, hend (Or.inl ⟨live, hpoll, ?_⟩)⟩
        exact Bool.eq_false_iff.mpr howed
    · exact ⟨fun h => absurd h Bool.false_ne_true, hmore⟩
  | settling live =>
    exact ⟨fun h => absurd h Bool.false_ne_true, hend (Or.inr ⟨live, hpoll⟩)⟩
  | _ => exact ⟨hfurther, hmore⟩

/-- A record of a capturer lets only a poll count that has yet to observe. -/
theorem counted_record (w : Watch) (hdisplays : s'.displays = s.displays)
    (hpoll : s'.poll = s.poll) (hcounted : Counted s w) :
    Counted s' ⟨w.counts && s.poll matches .read _, 0⟩ := by
  refine ⟨fun h => ?_, fun h => absurd h (Nat.lt_irrefl 0)⟩
  obtain ⟨hcounts, hread⟩ := Bool.and_eq_true_iff.mp h
  have hsettling := hcounted.counts hcounts
  have hcurrent : current s' = current s := congrArg logicalRectsOf hdisplays
  unfold Settling at hsettling ⊢
  rw [hpoll]
  cases hat : s.poll with
  | read live =>
    rw [hat] at hsettling
    unfold SettlingAt
    rw [hcurrent]
    exact hsettling
  | _ =>
    rw [hat] at hread
    cases hread

theorem counted_step (w : Watch) (e : Event) (hinv : Inv s)
    (hcounted : Counted s w) (hstep : step s e = some s') : Counted s' (sinceRecord s w e) := by
  have hnone : ∀ t : System, Counted t ⟨false, 0⟩ := fun t =>
    ⟨fun h => absurd h Bool.false_ne_true, fun h => absurd h (Nat.lt_irrefl 0)⟩
  have hsame : Undisturbed s e → s'.displays = s.displays → s'.generation = s.generation →
      s'.unrotatedPending = s.unrotatedPending → s'.promotionOwed = s.promotionOwed →
      s'.poll = s.poll → (s.layout.seen ≠ [] → s'.layout.seen = s.layout.seen) →
      s'.layout.unseenBuild = s.layout.unseenBuild → Counted s' w := by
    intro hundisturbed hdisplays hgen hpending howed hpoll hseen hunseen
    exact ⟨fun h => settling_congr s s' hdisplays hgen hpending howed hpoll hseen hunseen
        (hcounted.counts h),
      fun h => (settled_step s s' e hundisturbed hinv (hcounted.polls h) hstep).1⟩
  cases e with
  | change displays => exact hnone s'
  | lookup found =>
    obtain rfl := Option.some.inj hstep
    exact hsame trivial rfl rfl rfl rfl rfl (fun _ => rfl) rfl
  | clearCache =>
    obtain rfl := Option.some.inj hstep
    exact hsame trivial rfl rfl rfl rfl rfl (fun _ => rfl) rfl
  | initRead i found =>
    obtain rfl := Option.some.inj hstep
    exact hsame trivial rfl rfl rfl rfl rfl (fun _ => rfl) rfl
  | initReset i =>
    obtain ⟨baseline, -, rfl⟩ := Option.map_eq_some_iff.mp hstep
    exact hsame trivial rfl rfl rfl rfl rfl (s.layout.resetBaseline_seen baseline) rfl
  | startBuild b =>
    obtain ⟨-, rfl⟩ := of_guard hstep
    exact hsame trivial rfl rfl rfl rfl rfl (fun _ => rfl) rfl
  | readSnapshot b found =>
    obtain ⟨g, -, rfl⟩ := step_readSnapshot s s' b found hstep
    exact hsame trivial rfl rfl rfl rfl rfl (fun _ => rfl) rfl
  | findTransform b =>
    obtain ⟨g, displays, hbuild, rfl⟩ := step_findTransform s s' b hstep
    cases displays with
    | nil =>
      have hrecords : records s (.findTransform b) = true := by simp [records, hbuild]
      have hwatch : sinceRecord s w (.findTransform b) = _ := if_pos hrecords
      rw [hwatch]
      exact counted_record s _ w rfl rfl hcounted
    | cons d rest =>
      have hrecords : ¬ records s (.findTransform b) = true := by simp [records, hbuild]
      have hwatch : sinceRecord s w (.findTransform b) = w := if_neg hrecords
      rw [hwatch]
      refine hsame (fun k displays hother => ?_) rfl rfl (Bool.or_false _) rfl rfl
        (fun _ => rfl) rfl
      obtain ⟨-, rfl⟩ := Build.snapshot.inj (Option.some.inj (hbuild.symm.trans hother))
      exact List.cons_ne_nil d rest
  | noteCapturer b =>
    obtain ⟨g, displays, hbuild, rfl⟩ := step_noteCapturer s s' b hstep
    cases displays with
    | nil =>
      have hrecords : ¬ records s (.noteCapturer b) = true := by simp [records, hbuild]
      have hwatch : sinceRecord s w (.noteCapturer b) = w := if_neg hrecords
      rw [hwatch]
      refine hsame (fun displays hother => ?_) rfl rfl rfl rfl rfl (fun _ => rfl) rfl
      obtain ⟨-, rfl⟩ := Build.oriented.inj (Option.some.inj (hbuild.symm.trans hother))
      exact Or.inl rfl
    | cons d rest =>
      have hrecords : records s (.noteCapturer b) = true := by simp [records, hbuild]
      have hwatch : sinceRecord s w (.noteCapturer b) = _ := if_pos hrecords
      rw [hwatch]
      exact counted_record s _ w rfl rfl hcounted
  | drop b =>
    obtain rfl := Option.some.inj hstep
    exact hsame trivial rfl rfl rfl rfl rfl (fun _ => rfl) rfl
  | poll found =>
    obtain rfl := Option.some.inj hstep
    exact counted_poll s w found hinv hcounted

/-- The account and what the polls have settled of it, in every state that is reached. -/
theorem inv_of_exec (displays : List WaylandDisplayInfo) (es : List Event) (s : System) (w : Watch)
    (hexec : Runs.exec (watched sinceRecord) (start displays, ⟨false, 0⟩) es = some (s, w)) :
    Inv s ∧ Counted s w := by
  refine Runs.invariant_of_exec (watched sinceRecord) (fun sw => Inv sw.1 ∧ Counted sw.1 sw.2)
    ?_ (start displays, ⟨false, 0⟩) (s, w) es ⟨inv_start displays, ?_⟩ hexec
  · rintro ⟨s, w⟩ e ⟨t, u⟩ ⟨hinv, hcounted⟩ hstep
    obtain ⟨s', hs', heq⟩ := Option.map_eq_some_iff.mp hstep
    obtain ⟨rfl, rfl⟩ := Prod.mk.inj heq
    exact ⟨inv_step s s' e hinv hs', counted_step s s' w e hinv hcounted hs'⟩
  · exact ⟨fun h => absurd h Bool.false_ne_true, fun h => absurd h (Nat.lt_irrefl 0)⟩

/-- Once a poll that counts is complete, every capturer of the current generation is on the layout,
and as long as nothing disturbs that, no poll raises the generation. -/
theorem capturers_on_layout (displays : List WaylandDisplayInfo) (es : List Event) (s : System)
    (w : Watch)
    (hexec : Runs.exec (watched sinceRecord) (start displays, ⟨false, 0⟩) es = some (s, w))
    (hpolls : 0 < w.polls) :
    OnLayout s ∧ ∀ fs t, Runs.Meets Undisturbed step s fs → Runs.exec step s fs = some t →
      OnLayout t ∧ t.generation = s.generation := by
  obtain ⟨hinv, hcounted⟩ := inv_of_exec displays es s w hexec
  have hsettled := hcounted.polls hpolls
  refine ⟨onLayout_of_settled s hinv hsettled, fun fs t hmeets hrun => ?_⟩
  have hall := Runs.invariant_of_meets Undisturbed step
    (fun u => Inv u ∧ Settled u ∧ u.generation = s.generation) ?_ s t fs ⟨hinv, hsettled, rfl⟩
    hmeets hrun
  · exact ⟨onLayout_of_settled t hall.1 hall.2.1, hall.2.2⟩
  · rintro u e v hundisturbed ⟨hu, husettled, hugen⟩ hstep
    obtain ⟨hv, hvgen⟩ := settled_step u v e hundisturbed hu husettled hstep
    exact ⟨inv_step u v e hu hstep, hv, hvgen.trans hugen⟩

def output (transform : ℤ) : WaylandDisplayInfo := ⟨"DP-1", 0, 0, 1920, 1080, none, 60, transform⟩

/-- A capturer is built, the output is rotated, a poll promotes it, a second capturer is built and
the next poll finds nothing to do. -/
def rotation : List Event :=
  [.startBuild 0, .readSnapshot 0 true, .findTransform 0, .noteCapturer 0, .change [output 90]] ++
    List.replicate 8 (.poll true) ++
    [.startBuild 1, .readSnapshot 1 true, .findTransform 1, .noteCapturer 1] ++
    List.replicate 4 (.poll true)

theorem capturers_on_layout_sample :
    ∃ s w, Runs.exec (watched sinceRecord) (start [output 0], ⟨false, 0⟩) rotation = some (s, w) ∧
      s.builds 1 = some (.built s.generation [output 90]) ∧ OnLayout s ∧
      ∀ t, Runs.exec step s [.poll true] = some t → t.generation = s.generation := by
  refine ⟨_, _, rfl, rfl, ?_⟩
  have h := capturers_on_layout [output 0] rotation _ _ rfl (by decide)
  exact ⟨h.1, fun t ht => (h.2 [.poll true] t ⟨trivial, fun _ _ => trivial⟩ ht).2⟩

/-- The output is rotated while a capturer is built that has its snapshot. Two polls pass before it
records its layout. -/
def lateRecord : List Event :=
  [.initRead 0 false, .initReset 0, .startBuild 0, .readSnapshot 0 true, .change [output 90]] ++
    List.replicate 8 (.poll true) ++ [.findTransform 0, .noteCapturer 0]

/-- The capturer is on the old layout, and the next poll raises the generation. -/
theorem late_record_on_old_layout :
    ∃ s w, Runs.exec (watched sinceStart) (start [output 0], ⟨false, 0⟩) lateRecord = some (s, w) ∧
      w.polls = 2 ∧ ¬ OnLayout s ∧
      ∃ t, Runs.exec step s (List.replicate 8 (.poll true)) = some t ∧
        t.generation ≠ s.generation := by
  refine ⟨_, _, rfl, rfl, fun h => ?_, _, rfl, by decide⟩
  exact absurd (h 0 [output 0] rfl) (by decide)

end ClantoDesk.CapturerLayouts
