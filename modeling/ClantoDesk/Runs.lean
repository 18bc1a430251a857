import ClantoDesk.Guards
import Mathlib.Data.List.Basic

/-!
Runs of a labelled transition system given by a partial step function.
An event that cannot occur in a state has no successor there. A run is
followed event by event, and a guard may restrict the states in which an event
is taken. The rules below turn facts about one step into facts about a whole run.
Nothing in this module refers to a particular program.
-/
namespace ClantoDesk.Runs

variable {S E : Type*}

/-- The state after the events, or `none` when some event could not occur. -/
def exec (step : S → E → Option S) : S → List E → Option S
  | s, [] => some s
  | s, e :: es => (step s e).bind fun t => exec step t es

/-- Every step of the run is taken in a state that meets the guard. -/
def Meets (guard : S → E → Prop) (step : S → E → Option S) : S → List E → Prop
  | _, [] => True
  | s, e :: es => guard s e ∧ ∀ t, step s e = some t → Meets guard step t es

variable (guard : S → E → Prop) (step : S → E → Option S) (P inv : S → Prop)

theorem meets_cons_of_none (s : S) (e : E)
    (es : List E) (hstep : step s e = none) : Meets guard step s (e :: es) ↔ guard s e := by
  simp [Meets, hstep]

theorem meets_cons_of_some (s t : S) (e : E) (es : List E) (hstep : step s e = some t) :
    Meets guard step s (e :: es) ↔ guard s e ∧ Meets guard step t es := by
  simp [Meets, hstep]

instance decidableMeets (guard : S → E → Prop) (step : S → E → Option S)
    [hguard : ∀ s e, Decidable (guard s e)] : ∀ s es, Decidable (Meets guard step s es)
  | _, [] => isTrue trivial
  | s, e :: es =>
    match hstep : step s e with
    | none => decidable_of_iff _ (meets_cons_of_none guard step s e es hstep).symm
    | some t =>
      have := decidableMeets guard step t es
      decidable_of_iff _ (meets_cons_of_some guard step s t e es hstep).symm

@[simp] theorem exec_nil (step : S → E → Option S) (s : S) : exec step s [] = some s := rfl

theorem exec_cons (s t : S) (e : E) (es : List E) :
    exec step s (e :: es) = some t ↔ ∃ u, step s e = some u ∧ exec step u es = some t := by
  simp only [exec, Option.bind_eq_some_iff]

theorem exec_append (s t : S) (es fs : List E) :
    exec step s (es ++ fs) = some t ↔
      ∃ u, exec step s es = some u ∧ exec step u fs = some t := by
  induction es generalizing s with
  | nil => simp
  | cons e es ih =>
    rw [List.cons_append, exec_cons]
    constructor
    · rintro ⟨u, hu, hrest⟩
      obtain ⟨v, hv, hlast⟩ := (ih u).mp hrest
      exact ⟨v, (exec_cons step s v e es).mpr ⟨u, hu, hv⟩, hlast⟩
    · rintro ⟨v, hv, hlast⟩
      obtain ⟨u, hu, hrest⟩ := (exec_cons step s v e es).mp hv
      exact ⟨u, hu, (ih u).mpr ⟨v, hrest, hlast⟩⟩

theorem invariant_of_meets (hstep : ∀ s e t, guard s e → inv s → step s e = some t → inv t)
    (s t : S) (es : List E) (hinv : inv s) (hmeets : Meets guard step s es)
    (hexec : exec step s es = some t) : inv t := by
  induction es generalizing s with
  | nil =>
    have heq : s = t := by simpa using hexec
    exact heq ▸ hinv
  | cons e es ih =>
    obtain ⟨u, hu, hrest⟩ := (exec_cons step s t e es).mp hexec
    obtain ⟨hguard, hmore⟩ := hmeets
    exact ih u (hstep s e u hguard hinv hu) (hmore u hu) hrest

/-- A guard on events alone is met by every run of events that satisfy it. -/
theorem meets_of_forall (P : E → Prop) (step : S → E → Option S) (s : S) (es : List E)
    (h : ∀ e ∈ es, P e) : Meets (fun _ e => P e) step s es := by
  induction es generalizing s with
  | nil => trivial
  | cons e es ih =>
    obtain ⟨he, hes⟩ := List.forall_mem_cons.mp h
    exact ⟨he, fun t _ => ih t hes⟩

/-- An invariant kept by every event of a kind holds at the end of every run of such events. -/
theorem invariant_of_forall (P : E → Prop) (step : S → E → Option S) (inv : S → Prop)
    (hstep : ∀ s e t, P e → inv s → step s e = some t → inv t) (s t : S) (es : List E)
    (hinv : inv s) (hes : ∀ e ∈ es, P e) (hexec : exec step s es = some t) : inv t :=
  invariant_of_meets (fun _ e => P e) step inv hstep s t es hinv (meets_of_forall P step s es hes)
    hexec

theorem meets_of_invariant (P : S → E → Prop) (step : S → E → Option S) (inv : S → Prop)
    (hstep : ∀ s e t, guard s e → inv s → step s e = some t → inv t)
    (hP : ∀ s e, guard s e → inv s → P s e)
    (s : S) (es : List E) (hinv : inv s) (hmeets : Meets guard step s es) : Meets P step s es := by
  induction es generalizing s with
  | nil => trivial
  | cons e es ih =>
    obtain ⟨hguard, hmore⟩ := hmeets
    refine ⟨hP s e hguard hinv, ?_⟩
    intro t ht
    exact ih t (hstep s e t hguard hinv ht) (hmore t ht)

/-- Two guards that agree at every step, by an invariant and what every step may be assumed to meet,
are met by the same runs. -/
theorem meets_iff_meets (assumed guard P : S → E → Prop) (step : S → E → Option S) (inv : S → Prop)
    (hinv : ∀ s e t, inv s → step s e = some t → inv t)
    (hiff : ∀ s e, assumed s e → inv s → (guard s e ↔ P s e)) (s : S) (es : List E)
    (hassumed : Meets assumed step s es) (hs : inv s) :
    Meets guard step s es ↔ Meets P step s es := by
  induction es generalizing s with
  | nil => exact Iff.rfl
  | cons e es ih =>
    obtain ⟨hnow, hlater⟩ := hassumed
    have hrest : ∀ t, step s e = some t → (Meets guard step t es ↔ Meets P step t es) :=
      fun t ht => ih t (hlater t ht) (hinv s e t hs ht)
    constructor
    · rintro ⟨hguard, hmore⟩
      exact ⟨(hiff s e hnow hs).mp hguard, fun t ht => (hrest t ht).mp (hmore t ht)⟩
    · rintro ⟨hP, hmore⟩
      exact ⟨(hiff s e hnow hs).mpr hP, fun t ht => (hrest t ht).mpr (hmore t ht)⟩

/-- A guard met all along is met by the events after a part of the run. -/
theorem meets_append (s t : S) (es fs : List E)
    (hmeets : Meets guard step s (es ++ fs)) (hexec : exec step s es = some t) :
    Meets guard step t fs := by
  induction es generalizing s with
  | nil =>
    have heq : s = t := by simpa using hexec
    exact heq ▸ hmeets
  | cons e es ih =>
    obtain ⟨u, hu, hrest⟩ := (exec_cons step s t e es).mp hexec
    exact ih u (hmeets.2 u hu) hrest

/-- The same rule for a system without a guard. -/
theorem invariant_of_exec (hstep : ∀ s e t, inv s → step s e = some t → inv t)
    (s t : S) (es : List E) (hinv : inv s) (hexec : exec step s es = some t) : inv t := by
  induction es generalizing s with
  | nil =>
    have heq : s = t := by simpa using hexec
    exact heq ▸ hinv
  | cons e es ih =>
    obtain ⟨u, hu, hrest⟩ := (exec_cons step s t e es).mp hexec
    exact ih u (hstep s e u hinv hu) hrest

/-- A relation between the events so far and the state, kept by every step, holds at the end. -/
theorem history_of_exec (P : List E → S → Prop) (start : S) (hstart : P [] start)
    (hstep : ∀ es s e t, exec step start es = some s → P es s → step s e = some t → P (es ++ [e]) t)
    (es : List E) (t : S) (hexec : exec step start es = some t) : P es t := by
  have hfrom : ∀ fs past s, exec step start past = some s → P past s →
      exec step s fs = some t → P (past ++ fs) t := by
    intro fs
    induction fs with
    | nil =>
      intro past s _ hpast hrest
      obtain rfl : s = t := by simpa using hrest
      simpa using hpast
    | cons e fs ih =>
      intro past s hs hpast hrest
      obtain ⟨u, hu, hmore⟩ := (exec_cons step s t e fs).mp hrest
      have hnext : exec step start (past ++ [e]) = some u :=
        (exec_append step start u past [e]).mpr ⟨s, hs, by simp [exec, hu]⟩
      have hall := ih (past ++ [e]) u hnext (hstep past s e u hs hpast hu) hmore
      rwa [List.append_assoc] at hall
  exact hfrom es [] start rfl hstart hexec

/-- Every state of the run, the first one included, satisfies `P`. -/
def Along (P : S → Prop) (step : S → E → Option S) : S → List E → Prop
  | s, [] => P s
  | s, e :: es => P s ∧ ∀ t, step s e = some t → Along P step t es

/-- When a step from a state with `P` leads to one with `P` exactly if it meets the guard, a run has
`P` all along exactly if its steps all meet the guard. Every step may be assumed to meet another
guard, and the invariant is only needed as long as `P` holds. -/
theorem along_iff_meets_of_meets (assumed guard : S → E → Prop) (step : S → E → Option S)
    (P inv : S → Prop)
    (hinv : ∀ s e t, assumed s e → inv s → P s → P t → step s e = some t → inv t)
    (hstep : ∀ s e t, assumed s e → inv s → P s → step s e = some t → (P t ↔ guard s e))
    (hnone : ∀ s e, step s e = none → guard s e) (s : S) (es : List E)
    (hassumed : Meets assumed step s es) (hs : inv s) (hP : P s) :
    Along P step s es ↔ Meets guard step s es := by
  induction es generalizing s with
  | nil => exact iff_of_true hP trivial
  | cons e es ih =>
    obtain ⟨hnow, hlater⟩ := hassumed
    cases he : step s e with
    | none =>
      rw [meets_cons_of_none guard step s e es he]
      refine iff_of_true ⟨hP, fun t ht => ?_⟩ (hnone s e he)
      rw [he] at ht
      cases ht
    | some t =>
      rw [meets_cons_of_some guard step s t e es he]
      constructor
      · rintro ⟨-, hrest⟩
        have halong := hrest t he
        have hPt : P t := by
          cases es with
          | nil => exact halong
          | cons e' es' => exact halong.1
        have hnext := hinv s e t hnow hs hP hPt he
        exact ⟨(hstep s e t hnow hs hP he).mp hPt, (ih t (hlater t he) hnext hPt).mp halong⟩
      · rintro ⟨hguard, hmeets⟩
        refine ⟨hP, fun t' ht' => ?_⟩
        obtain rfl := Option.some.inj (he.symm.trans ht')
        have hPt := (hstep s e t hnow hs hP he).mpr hguard
        have hnext := hinv s e t hnow hs hP hPt he
        exact (ih t (hlater t he) hnext hPt).mpr hmeets

/-- The same rule without an assumption, for an invariant of all runs. -/
theorem along_iff_meets (hinv : ∀ s e t, inv s → step s e = some t → inv t)
    (hstep : ∀ s e t, inv s → P s → step s e = some t → (P t ↔ guard s e))
    (hnone : ∀ s e, step s e = none → guard s e) (s : S) (es : List E) (hs : inv s) (hP : P s) :
    Along P step s es ↔ Meets guard step s es := by
  have htrue : Meets (fun _ _ => True) step s es :=
    meets_of_forall (fun _ => True) step s es fun _ _ => trivial
  exact along_iff_meets_of_meets (fun _ _ => True) guard step P inv
    (fun s e t _ hs _ _ => hinv s e t hs) (fun s e t _ => hstep s e t) hnone s es htrue hs hP

/-- What an invariant kept by every guarded step gives, holds all along a run that meets the
guard. -/
theorem along_of_meets (P : S → Prop)
    (hstep : ∀ s e t, guard s e → inv s → step s e = some t → inv t) (hP : ∀ s, inv s → P s)
    (s : S) (es : List E) (hinv : inv s) (hmeets : Meets guard step s es) :
    Along P step s es := by
  induction es generalizing s with
  | nil => exact hP s hinv
  | cons e es ih =>
    obtain ⟨hguard, hmore⟩ := hmeets
    refine ⟨hP s hinv, fun t ht => ?_⟩
    exact ih t (hstep s e t hguard hinv ht) (hmore t ht)

/-- Some step of the run satisfies `P` in the state in which it is taken. -/
def Sometime (P : S → E → Prop) (step : S → E → Option S) : S → List E → Prop
  | _, [] => False
  | s, e :: es => P s e ∨ ∃ t, step s e = some t ∧ Sometime P step t es

/-- When `Q` entails `R` at every step of a run, either `R` occurs or `Q` never does. -/
theorem sometime_or_meets_not (Q R : S → E → Prop) (step : S → E → Option S) (s : S) (es : List E)
    (h : Meets (fun s e => Q s e → R s e) step s es) :
    Sometime R step s es ∨ Meets (fun s e => ¬ Q s e) step s es := by
  induction es generalizing s with
  | nil => exact Or.inr trivial
  | cons e es ih =>
    obtain ⟨hnow, hrest⟩ := h
    by_cases hq : Q s e
    · exact Or.inl (Or.inl (hnow hq))
    · cases hstep : step s e with
      | none =>
        refine Or.inr ⟨hq, fun t ht => ?_⟩
        rw [hstep] at ht
        cases ht
      | some t =>
        rcases ih t (hrest t hstep) with hr | hnot
        · exact Or.inl (Or.inr ⟨t, hstep, hr⟩)
        · refine Or.inr ⟨hq, fun t' ht' => ?_⟩
          obtain rfl := Option.some.inj (hstep.symm.trans ht')
          exact hnot

/-! ### Records of a run -/

variable {R : Type*}

/-- Every entry of the record is right after the entries before it. -/
def Always (P : List R → R → Prop) (record : List R) : Prop :=
  ∀ before entry after, record = before ++ entry :: after → P before entry

theorem always_nil (P : List R → R → Prop) : Always P [] := by
  intro before entry after heq
  cases before <;> cases heq

theorem always_append (P : List R → R → Prop) (record block : List R) (h : Always P record)
    (hblock : ∀ front entry rest, block = front ++ entry :: rest → P (record ++ front) entry) :
    Always P (record ++ block) := by
  intro before entry after heq
  rcases List.append_eq_append_iff.mp heq with ⟨front, rfl, hright⟩ | ⟨front, rfl, hright⟩
  · exact hblock front entry after hright
  · cases front with
    | nil =>
      have hhere := hblock [] entry after hright.symm
      rwa [List.append_nil, List.append_nil] at hhere
    | cons r front =>
      obtain ⟨rfl, -⟩ := List.cons.inj hright
      exact h before entry front rfl

theorem always_concat (P : List R → R → Prop) (record : List R) (entry : R) (h : Always P record)
    (hentry : P record entry) : Always P (record ++ [entry]) := by
  refine always_append P record [entry] h ?_
  intro front r rest heq
  cases front with
  | nil =>
    obtain ⟨rfl, -⟩ := List.cons.inj heq
    rwa [List.append_nil]
  | cons x front =>
    have hlength := congrArg List.length heq
    simp at hlength

/-- Some entry of the log has `p`, and every later one has `q`. -/
def Since (p q : E → Prop) (log : List E) : Prop :=
  ∃ pre x post, log = pre ++ x :: post ∧ p x ∧ ∀ y ∈ post, q y

theorem not_since_nil (p q : E → Prop) : ¬ Since p q [] := by
  rintro ⟨pre, x, post, h, -⟩
  cases pre with
  | nil => cases h
  | cons _ _ => cases h

/-- A longer log: the last entry has `p` itself, or it goes on having `q`. -/
theorem since_concat (p q : E → Prop) (log : List E) (x : E) :
    Since p q (log ++ [x]) ↔ p x ∨ Since p q log ∧ q x := by
  constructor
  · rintro ⟨pre, y, post, heq, hp, hq⟩
    cases hpost : post.getLast? with
    | none =>
      rw [List.getLast?_eq_none_iff.mp hpost] at heq
      exact Or.inl ((List.append_singleton_inj.mp heq).2 ▸ hp)
    | some z =>
      obtain ⟨init, rfl⟩ := List.getLast?_eq_some_iff.mp hpost
      rw [← List.cons_append, ← List.append_assoc] at heq
      obtain ⟨hlog, rfl⟩ := List.append_singleton_inj.mp heq
      refine Or.inr ⟨⟨pre, y, init, hlog, hp, fun w hw => hq w (List.mem_append_left _ hw)⟩, ?_⟩
      exact hq x (List.mem_append_right _ (List.mem_singleton_self x))
  · rintro (hp | ⟨⟨pre, y, post, rfl, hp, hq⟩, hx⟩)
    · exact ⟨log, x, [], rfl, hp, by simp⟩
    · refine ⟨pre, y, post ++ [x], by simp, hp, fun w hw => ?_⟩
      rcases List.mem_append.mp hw with hw | hw
      · exact hq w hw
      · rw [List.mem_singleton.mp hw]
        exact hx

end ClantoDesk.Runs
