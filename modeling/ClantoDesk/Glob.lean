import ClantoDesk.Text

/-!
Glob patterns: a star stands for any sequence of characters, a question mark
for one. The matcher is the usual loop over two indices that remembers the
last star it passed and returns to it on a mismatch. It decides
the inductive meaning of a pattern because the segment after the last star
has no star of its own, so a match that gives an earlier star more text also
gives it to the last one. Nothing in this module refers to a particular program.
-/
namespace ClantoDesk.Glob

open Text

inductive Matches : Str → Str → Prop
  | nil : Matches [] []
  | starSkip {p t : Str} : Matches p t → Matches ('*' :: p) t
  | starTake {p t : Str} {c : Char} : Matches ('*' :: p) t → Matches ('*' :: p) (c :: t)
  | any {p t : Str} {c : Char} : Matches p t → Matches ('?' :: p) (c :: t)
  | char {p t : Str} {c : Char} : c ≠ '*' → Matches p t → Matches (c :: p) (c :: t)

theorem matches_star_iff (p t : Str) :
    Matches ('*' :: p) t ↔ ∃ k, k ≤ t.length ∧ Matches p (t.drop k) := by
  constructor
  · intro h
    induction t with
    | nil =>
      cases h with
      | starSkip h => exact ⟨0, by simp, h⟩
    | cons c t ih =>
      cases h with
      | starSkip h => exact ⟨0, by simp, by simpa using h⟩
      | starTake h =>
        obtain ⟨k, hk, hm⟩ := ih h
        exact ⟨k + 1, by simpa using hk, by simpa using hm⟩
      | char hc _ => exact absurd rfl hc
  · rintro ⟨k, hk, hm⟩
    induction t generalizing k with
    | nil => exact Matches.starSkip (by simpa using hm)
    | cons c t ih =>
      cases k with
      | zero => exact Matches.starSkip (by simpa using hm)
      | succ k => exact Matches.starTake (ih k (by simpa using hk) (by simpa using hm))

theorem matches_cons_iff (a c : Char) (p t : Str) (ha : a ≠ '*') :
    Matches (a :: p) (c :: t) ↔ (a = '?' ∨ a = c) ∧ Matches p t := by
  constructor
  · intro h
    cases h with
    | starSkip _ => exact absurd rfl ha
    | starTake _ => exact absurd rfl ha
    | any h => exact ⟨Or.inl rfl, h⟩
    | char _ h => exact ⟨Or.inr rfl, h⟩
  · rintro ⟨rfl | rfl, h⟩
    · exact Matches.any h
    · exact Matches.char ha h

theorem not_matches_cons_nil (a : Char) (p : Str) (ha : a ≠ '*') : ¬ Matches (a :: p) [] := by
  intro h
  cases h with
  | starSkip _ => exact ha rfl

theorem matches_nil_left (t : Str) : Matches [] t ↔ t = [] := by
  constructor
  · intro h
    cases h with
    | nil => rfl
  · rintro rfl
    exact Matches.nil

theorem matches_nil_right (p : Str) : Matches p [] ↔ ∀ c ∈ p, c = '*' := by
  induction p with
  | nil => simp [matches_nil_left]
  | cons a p ih =>
    by_cases ha : a = '*'
    · subst ha
      rw [matches_star_iff]
      simp [ih]
    · simp [not_matches_cons_nil a p ha, ha]

/-- A pattern without wildcards matches itself only. -/
theorem matches_plain_iff (p t : Str) (hstar : '*' ∉ p) (hany : '?' ∉ p) : Matches p t ↔ p = t := by
  induction p generalizing t with
  | nil => rw [matches_nil_left, eq_comm]
  | cons a p ih =>
    simp only [List.mem_cons, not_or] at hstar hany
    have ha : a ≠ '*' := Ne.symm hstar.1
    cases t with
    | nil => simp [not_matches_cons_nil a p ha]
    | cons c t =>
      rw [matches_cons_iff a c p t ha, ih t hstar.2 hany.2, List.cons.injEq]
      have ha' : a ≠ '?' := Ne.symm hany.1
      simp [ha']

/-- A segment without a star takes exactly its own length of text. -/
theorem matches_segment (seg q t : Str) (hseg : '*' ∉ seg) (h : Matches (seg ++ q) t) :
    seg.length ≤ t.length ∧ Matches q (t.drop seg.length) := by
  induction seg generalizing t with
  | nil => exact ⟨Nat.zero_le _, by simpa using h⟩
  | cons a seg ih =>
    simp only [List.mem_cons, not_or] at hseg
    have ha : a ≠ '*' := Ne.symm hseg.1
    cases t with
    | nil => exact absurd h (not_matches_cons_nil a (seg ++ q) ha)
    | cons c t =>
      obtain ⟨-, hrest⟩ := (matches_cons_iff a c (seg ++ q) t ha).mp h
      obtain ⟨hlen, hm⟩ := ih t hseg.2 hrest
      exact ⟨by simpa using hlen, by simpa using hm⟩

def Behind (star : Option (ℕ × ℕ)) (pi ti : ℕ) : Prop :=
  ∀ s ∈ star, s.1 ≤ pi ∧ s.2 ≤ ti

theorem behind_none (pi ti : ℕ) : Behind none pi ti := by
  simp [Behind]

theorem behind_self (pi ti : ℕ) : Behind (some (pi, ti)) pi ti := by
  simp [Behind]

theorem behind_succ {star : Option (ℕ × ℕ)} {pi ti : ℕ} (h : Behind star pi ti) :
    Behind star (pi + 1) (ti + 1) := by
  intro s hs
  have := h s hs
  omega

/-- The loop at the indices `pi` and `ti`; `star` holds the index after the last star
and the text index from which that star was last tried. -/
def globLoop (p t : Str) (pi ti : ℕ) (star : Option (ℕ × ℕ)) (h : Behind star pi ti) : Bool :=
  if _ht : ti < t.length then
    if _hs : p[pi]? = some '*' then
      globLoop p t (pi + 1) ti (some (pi + 1, ti)) (behind_self _ _)
    else if _hc : pi < p.length ∧ (p[pi]? = some '?' ∨ p[pi]? = t[ti]?) then
      globLoop p t (pi + 1) (ti + 1) star (behind_succ h)
    else
      match star with
      | some (sp, st) => globLoop p t sp (st + 1) (some (sp, st + 1)) (behind_self _ _)
      | none => false
  else
    ((p.drop pi).dropWhile (· == '*')).isEmpty
termination_by (match star with | some s => p.length - s.1 | none => p.length + 1,
  match star with | some s => t.length - s.2 | none => 0, t.length - ti)
decreasing_by
  · obtain ⟨hpi, -⟩ := List.getElem?_eq_some_iff.mp _hs
    apply Prod.Lex.left
    cases star with
    | none => simp <;> omega
    | some s =>
      have := (h s rfl).1
      simp only
      omega
  · apply Prod.Lex.right
    apply Prod.Lex.right
    omega
  · have := (h _ rfl).2
    apply Prod.Lex.right
    apply Prod.Lex.left
    simp only at *
    omega

def glob (p t : Str) : Bool := globLoop p t 0 0 none (behind_none 0 0)

/-- The rest of the pattern matches the rest of the text, or some later try of
the last star does. -/
def Accepts (p t : Str) (pi ti : ℕ) (star : Option (ℕ × ℕ)) : Prop :=
  Matches (p.drop pi) (t.drop ti) ∨
    ∃ s ∈ star, ∃ k, s.2 < k ∧ k ≤ t.length ∧ Matches (p.drop s.1) (t.drop k)

/-- Since the last star, pattern and text advanced together and met no other star. -/
def InStep (p : Str) (pi ti : ℕ) (star : Option (ℕ × ℕ)) : Prop :=
  ∀ s ∈ star, s.1 + (ti - s.2) = pi ∧ '*' ∉ (p.drop s.1).take (pi - s.1)

/-- A later try of the last star leaves the text for the rest of the pattern. -/
theorem matches_later (p t : Str) (pi ti sp st k : ℕ) (hp : pi ≤ p.length)
    (hst : st ≤ ti) (hlen : sp + (ti - st) = pi) (hseg : '*' ∉ (p.drop sp).take (pi - sp))
    (hk : st < k) (hkt : k ≤ t.length) (hm : Matches (p.drop sp) (t.drop k)) :
    ∃ j, ti < j ∧ j ≤ t.length ∧ Matches (p.drop pi) (t.drop j) := by
  have hsplit : p.drop sp = (p.drop sp).take (pi - sp) ++ p.drop pi := by
    conv_lhs => rw [← List.take_append_drop (pi - sp) (p.drop sp)]
    rw [List.drop_drop, show sp + (pi - sp) = pi by omega]
  have hseglen : ((p.drop sp).take (pi - sp)).length = pi - sp := by
    simp only [List.length_take, List.length_drop]
    omega
  rw [hsplit] at hm
  obtain ⟨hle, hrest⟩ := matches_segment _ _ _ hseg hm
  rw [hseglen] at hle hrest
  rw [List.length_drop] at hle
  rw [List.drop_drop] at hrest
  exact ⟨k + (pi - sp), by omega, by omega, hrest⟩

theorem accepts_star (p t : Str) (pi ti : ℕ) (star : Option (ℕ × ℕ)) (h : Behind star pi ti)
    (hstep : InStep p pi ti star) (hs : p[pi]? = some '*') (ht : ti ≤ t.length) :
    Accepts p t (pi + 1) ti (some (pi + 1, ti)) ↔ Accepts p t pi ti star := by
  obtain ⟨hpi, hget⟩ := List.getElem?_eq_some_iff.mp hs
  have hdrop : p.drop pi = '*' :: p.drop (pi + 1) := by
    rw [List.drop_eq_getElem_cons hpi, hget]
  have hfirst : Matches (p.drop pi) (t.drop ti) ↔
      ∃ j, ti ≤ j ∧ j ≤ t.length ∧ Matches (p.drop (pi + 1)) (t.drop j) := by
    rw [hdrop, matches_star_iff]
    constructor
    · rintro ⟨k, hk, hm⟩
      rw [List.length_drop] at hk
      rw [List.drop_drop] at hm
      exact ⟨ti + k, by omega, by omega, hm⟩
    · rintro ⟨j, hle, hj, hm⟩
      refine ⟨j - ti, ?_, ?_⟩
      · rw [List.length_drop]
        omega
      · rwa [List.drop_drop, show ti + (j - ti) = j by omega]
  constructor
  · intro hacc
    refine Or.inl (hfirst.mpr ?_)
    rcases hacc with hm | ⟨s, hmem, k, hk, hkt, hm⟩
    · exact ⟨ti, le_refl _, ht, hm⟩
    · obtain rfl := Option.mem_some_iff.mp hmem
      exact ⟨k, by omega, hkt, hm⟩
  · intro hacc
    have hfrom : ∃ j, ti ≤ j ∧ j ≤ t.length ∧ Matches (p.drop (pi + 1)) (t.drop j) := by
      rcases hacc with hm | ⟨s, hmem, k, hk, hkt, hm⟩
      · exact hfirst.mp hm
      · obtain ⟨hlen, hseg⟩ := hstep s hmem
        obtain ⟨i, hi, hit, hmi⟩ := matches_later p t pi ti s.1 s.2 k (by omega)
          (h s hmem).2 hlen hseg hk hkt hm
        rw [hdrop, matches_star_iff] at hmi
        obtain ⟨d, hd, hmd⟩ := hmi
        rw [List.length_drop] at hd
        rw [List.drop_drop] at hmd
        exact ⟨i + d, by omega, by omega, hmd⟩
    obtain ⟨j, hle, hj, hm⟩ := hfrom
    by_cases heq : j = ti
    · exact Or.inl (heq ▸ hm)
    · exact Or.inr ⟨(pi + 1, ti), rfl, j, by simp only; omega, hj, hm⟩

theorem not_matches_of_mismatch (p t : Str) (pi ti : ℕ) (ht : ti < t.length)
    (hs : ¬ p[pi]? = some '*')
    (hc : ¬ (pi < p.length ∧ (p[pi]? = some '?' ∨ p[pi]? = t[ti]?))) :
    ¬ Matches (p.drop pi) (t.drop ti) := by
  rw [List.drop_eq_getElem_cons ht]
  by_cases hp : pi < p.length
  · have hpget : p[pi]? = some p[pi] := List.getElem?_eq_getElem hp
    rw [List.drop_eq_getElem_cons hp, matches_cons_iff _ _ _ _ (by simpa [hpget] using hs)]
    intro hm
    apply hc
    simpa [hp, hpget, List.getElem?_eq_getElem ht] using hm.1
  · rw [List.drop_eq_nil_of_le (by omega), matches_nil_left]
    exact List.cons_ne_nil _ _

/-- The loop decides whether the rest of the run can still succeed. -/
theorem globLoop_iff (p t : Str) (pi ti : ℕ) (star : Option (ℕ × ℕ)) (h : Behind star pi ti)
    (hp : pi ≤ p.length) (ht : ti ≤ t.length) (hstep : InStep p pi ti star) :
    globLoop p t pi ti star h = true ↔ Accepts p t pi ti star := by
  induction pi, ti, star, h using globLoop.induct p t with
  | case1 pi ti star h hti hs ih =>
    rw [globLoop.eq_def, dif_pos hti, dif_pos hs]
    obtain ⟨hpi, -⟩ := List.getElem?_eq_some_iff.mp hs
    rw [ih (by omega) ht (by simp [InStep])]
    exact accepts_star p t pi ti star h hstep hs ht
  | case2 pi ti star h hti hs hc ih =>
    rw [globLoop.eq_def, dif_pos hti, dif_neg hs, dif_pos hc]
    have hnext : InStep p (pi + 1) (ti + 1) star := by
      intro s hmem
      obtain ⟨hlen, hseg⟩ := hstep s hmem
      have hle := h s hmem
      refine ⟨by omega, ?_⟩
      rw [show pi + 1 - s.1 = (pi - s.1) + 1 by omega, List.take_add_one, List.mem_append, not_or]
      refine ⟨hseg, ?_⟩
      rw [List.getElem?_drop, show s.1 + (pi - s.1) = pi by omega]
      simpa using hs
    rw [ih (by omega) (by omega) hnext, Accepts, Accepts]
    have hhead : Matches (p.drop pi) (t.drop ti) ↔
        Matches (p.drop (pi + 1)) (t.drop (ti + 1)) := by
      have hpget : p[pi]? = some p[pi] := List.getElem?_eq_getElem hc.1
      rw [List.drop_eq_getElem_cons hc.1, List.drop_eq_getElem_cons hti, matches_cons_iff]
      · have hone : p[pi] = '?' ∨ p[pi] = t[ti] := by
          simpa [hpget, List.getElem?_eq_getElem hti] using hc.2
        simp [hone]
      · simpa [hpget] using hs
    rw [hhead]
  | case3 pi ti hti hs hc sp st _ h ih =>
    rw [globLoop.eq_def, dif_pos hti, dif_neg hs, dif_neg hc]
    have hle := h (sp, st) rfl
    simp only at hle ⊢
    rw [ih (by omega) (by omega) (by simp [InStep]), Accepts, Accepts]
    have hno := not_matches_of_mismatch p t pi ti hti hs hc
    constructor
    · rintro (hm | ⟨s, hmem, k, hk, hkt, hm⟩)
      · exact Or.inr ⟨(sp, st), rfl, st + 1, by simp only; omega, by omega, hm⟩
      · obtain rfl := Option.mem_some_iff.mp hmem
        exact Or.inr ⟨(sp, st), rfl, k, by simp only at *; omega, hkt, hm⟩
    · rintro (hm | ⟨s, hmem, k, hk, hkt, hm⟩)
      · exact absurd hm hno
      · obtain rfl := Option.mem_some_iff.mp hmem
        by_cases heq : k = st + 1
        · exact Or.inl (heq ▸ hm)
        · exact Or.inr ⟨(sp, st + 1), rfl, k, by simp only at *; omega, hkt, hm⟩
  | case4 pi ti hti hs hc h =>
    rw [globLoop.eq_def, dif_pos hti, dif_neg hs, dif_neg hc]
    have hno := not_matches_of_mismatch p t pi ti hti hs hc
    simp [Accepts, hno]
  | case5 pi ti star h hti =>
    rw [globLoop.eq_def, dif_neg hti]
    have hend : t.drop ti = [] := List.drop_eq_nil_of_le (by omega)
    have hstars : ((p.drop pi).dropWhile (· == '*')).isEmpty = true ↔
        Matches (p.drop pi) (t.drop ti) := by
      rw [hend, matches_nil_right, List.isEmpty_iff, List.dropWhile_eq_nil_iff]
      simp
    rw [hstars, Accepts]
    constructor
    · exact Or.inl
    · rintro (hm | ⟨s, hmem, k, hk, hkt, hm⟩)
      · exact hm
      · obtain ⟨hlen, hseg⟩ := hstep s hmem
        obtain ⟨j, hj, hjt, -⟩ := matches_later p t pi ti s.1 s.2 k hp
          (h s hmem).2 hlen hseg hk hkt hm
        omega

theorem glob_iff (p t : Str) : glob p t = true ↔ Matches p t := by
  rw [glob, globLoop_iff p t 0 0 none _ (Nat.zero_le _) (Nat.zero_le _) (by simp [InStep])]
  simp [Accepts]

/-- The text is an instance of the pattern when characters are compared by `same`. -/
inductive MatchesBy (same : Char → Char → Prop) : Str → Str → Prop
  | nil : MatchesBy same [] []
  | starSkip {p t : Str} : MatchesBy same p t → MatchesBy same ('*' :: p) t
  | starTake {p t : Str} {c : Char} : MatchesBy same ('*' :: p) t →
      MatchesBy same ('*' :: p) (c :: t)
  | any {p t : Str} {c : Char} : MatchesBy same p t → MatchesBy same ('?' :: p) (c :: t)
  | char {p t : Str} {a c : Char} : a ≠ '*' → a ≠ '?' → same a c → MatchesBy same p t →
      MatchesBy same (a :: p) (c :: t)

/-- Comparing images of characters is matching the images, when the wildcards are kept apart. -/
theorem matches_map_iff (f : Char → Char) (p t : Str)
    (hstar : ∀ c ∈ p, f c = '*' ↔ c = '*') (hany : ∀ c ∈ p, f c = '?' ↔ c = '?') :
    Matches (p.map f) (t.map f) ↔ MatchesBy (fun a c => f a = f c) p t := by
  constructor
  · intro h
    induction p generalizing t with
    | nil =>
      rw [List.map_nil, matches_nil_left, List.map_eq_nil_iff] at h
      rw [h]
      exact .nil
    | cons a p ih =>
      have ha := hstar a (List.mem_cons_self ..)
      have ha' := hany a (List.mem_cons_self ..)
      have ihp := fun t h => ih t (fun c hc => hstar c (List.mem_cons_of_mem _ hc))
        (fun c hc => hany c (List.mem_cons_of_mem _ hc)) h
      by_cases hs : a = '*'
      · subst hs
        rw [List.map_cons, ha.mpr rfl] at h
        induction t with
        | nil =>
          cases h with
          | starSkip h => exact .starSkip (ihp [] h)
        | cons c t iht =>
          obtain ⟨k, hk, hm⟩ := (matches_star_iff _ _).mp h
          cases k with
          | zero => exact .starSkip (ihp (c :: t) (by simpa using hm))
          | succ k =>
            refine .starTake (iht ((matches_star_iff _ _).mpr ⟨k, ?_, ?_⟩))
            · simpa using hk
            · simpa using hm
      · have hs' : f a ≠ '*' := fun heq => hs (ha.mp heq)
        cases t with
        | nil => exact absurd h (not_matches_cons_nil _ _ hs')
        | cons c t =>
          rw [List.map_cons, List.map_cons, matches_cons_iff _ _ _ _ hs'] at h
          by_cases hq : a = '?'
          · subst hq
            exact .any (ihp t h.2)
          · rcases h.1 with heq | heq
            · exact absurd (ha'.mp heq) hq
            · exact .char hs hq heq (ihp t h.2)
  · intro h
    induction h with
    | nil => exact .nil
    | starSkip _ ih =>
      rw [List.map_cons, (hstar '*' (List.mem_cons_self ..)).mpr rfl]
      exact .starSkip (ih (fun c hc => hstar c (List.mem_cons_of_mem _ hc))
        fun c hc => hany c (List.mem_cons_of_mem _ hc))
    | starTake _ ih =>
      have hrest := ih hstar hany
      rw [List.map_cons, (hstar '*' (List.mem_cons_self ..)).mpr rfl] at hrest ⊢
      exact .starTake hrest
    | any _ ih =>
      rw [List.map_cons, (hany '?' (List.mem_cons_self ..)).mpr rfl]
      exact .any (ih (fun c hc => hstar c (List.mem_cons_of_mem _ hc))
        fun c hc => hany c (List.mem_cons_of_mem _ hc))
    | @char p t a c hs _ hsame _ ih =>
      have hs' : f a ≠ '*' := fun heq => hs ((hstar a (List.mem_cons_self ..)).mp heq)
      rw [List.map_cons, List.map_cons, matches_cons_iff _ _ _ _ hs']
      exact ⟨Or.inr hsame, ih (fun c hc => hstar c (List.mem_cons_of_mem _ hc))
        fun c hc => hany c (List.mem_cons_of_mem _ hc)⟩

end ClantoDesk.Glob
