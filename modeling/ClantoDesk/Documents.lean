import Mathlib.Data.List.Basic
import Mathlib.Tactic.Push

/-!
Documents: trees of arrays and tables with leaves of any kind. A walk rewrites the leaves, and
arrays of some kind as a whole; it knows the place of each, may fail, and says whether it
changed anything. What is true of a rewritten leaf at its place is lifted to documents, as is
what is read off the leaves. Nothing in this module refers to a particular program.
-/
namespace ClantoDesk.Documents

inductive Doc (α : Type) where
  | leaf (a : α)
  | array (items : List (Doc α))
  | table (entries : List (List Char × Doc α))

/-- The places of the items of an array and of the entries of a table. -/
structure Steps (P : Type) where
  item : P → ℕ → P
  entry : P → ℕ → List Char → P

variable {α γ P : Type} (steps : Steps P) (isWhole : List (Doc α) → Bool)

/-- What a walk does to a leaf, and to an array that it takes as a whole. -/
structure Rewriter (α P : Type) where
  leaf : P → α → Option (α × Bool)
  whole : P → List (Doc α) → Option (List (Doc α) × Bool)

section
variable (r : Rewriter α P)

mutual

def walk (p : P) : Doc α → Option (Doc α × Bool)
  | .leaf a => (r.leaf p a).map fun b => (.leaf b.1, b.2)
  | .array items =>
    if isWhole items then (r.whole p items).map fun b => (.array b.1, b.2)
    else (walkItems p 0 items).map fun b => (.array b.1, b.2)
  | .table entries => (walkEntries p 0 entries).map fun b => (.table b.1, b.2)

def walkItems (p : P) (i : ℕ) : List (Doc α) → Option (List (Doc α) × Bool)
  | [] => some ([], false)
  | d :: rest => (walk (steps.item p i) d).bind fun b =>
    (walkItems p (i + 1) rest).map fun c => (b.1 :: c.1, b.2 || c.2)

def walkEntries (p : P) (i : ℕ) :
    List (List Char × Doc α) → Option (List (List Char × Doc α) × Bool)
  | [] => some ([], false)
  | (name, d) :: rest => (walk (steps.entry p i name) d).bind fun b =>
    (walkEntries p (i + 1) rest).map fun c => ((name, b.1) :: c.1, b.2 || c.2)

end
end

section
variable (R : P → α → α → Prop) (W : P → List (Doc α) → List (Doc α) → Prop)

mutual

def Related (p : P) : Doc α → Doc α → Prop
  | .leaf a, .leaf b => R p a b
  | .array xs, .array ys => if isWhole xs then W p xs ys else RelatedItems p 0 xs ys
  | .table xs, .table ys => RelatedEntries p 0 xs ys
  | _, _ => False

def RelatedItems (p : P) (i : ℕ) : List (Doc α) → List (Doc α) → Prop
  | [], [] => True
  | x :: xs, y :: ys => Related (steps.item p i) x y ∧ RelatedItems p (i + 1) xs ys
  | _, _ => False

def RelatedEntries (p : P) (i : ℕ) :
    List (List Char × Doc α) → List (List Char × Doc α) → Prop
  | [], [] => True
  | (m, x) :: xs, (n, y) :: ys =>
    n = m ∧ Related (steps.entry p i m) x y ∧ RelatedEntries p (i + 1) xs ys
  | _, _ => False

end
end

abbrev Everywhere (Q : P → α → Prop) (V : P → List (Doc α) → Prop) (p : P) (d : Doc α) : Prop :=
  Related steps isWhole (fun q a _ => Q q a) (fun q xs _ => V q xs) p d d

/-- What a rewriter does, place by place. -/
structure Rewrites (r : Rewriter α P) (R : P → α → α → Prop)
    (W : P → List (Doc α) → List (Doc α) → Prop) : Prop where
  leaf : ∀ p a b flag, r.leaf p a = some (b, flag) → R p a b
  whole : ∀ p xs ys flag, isWhole xs = true → r.whole p xs = some (ys, flag) → W p xs ys

/-- Where a rewriter says that it changed nothing. -/
structure Flags (r : Rewriter α P) (Q : P → α → Prop) (V : P → List (Doc α) → Prop) : Prop where
  leaf : ∀ p a b flag, r.leaf p a = some (b, flag) → (flag = false ↔ Q p a)
  whole : ∀ p xs ys flag, isWhole xs = true → r.whole p xs = some (ys, flag) →
    (flag = false ↔ V p xs)

section
variable (r : Rewriter α P)

section
variable (R : P → α → α → Prop) (W : P → List (Doc α) → List (Doc α) → Prop)

mutual

/-- What holds of each rewritten leaf at its place holds of the documents. -/
theorem walk_related (hr : Rewrites isWhole r R W) (p : P) (d e : Doc α) (flag : Bool)
    (h : walk steps isWhole r p d = some (e, flag)) : Related steps isWhole R W p d e := by
  cases d with
  | leaf a =>
    simp only [walk, Option.map_eq_some_iff, Prod.mk.injEq] at h
    obtain ⟨⟨b, fb⟩, hb, rfl, -⟩ := h
    exact hr.leaf p a b fb hb
  | array items =>
    cases hw : isWhole items with
    | true =>
      simp only [walk, hw, if_true, Option.map_eq_some_iff, Prod.mk.injEq] at h
      obtain ⟨⟨ys, fb⟩, hb, rfl, -⟩ := h
      simpa only [Related, hw, if_true] using hr.whole p items ys fb hw hb
    | false =>
      simp only [walk, hw, Bool.false_eq_true, if_false, Option.map_eq_some_iff,
        Prod.mk.injEq] at h
      obtain ⟨⟨ys, fb⟩, hb, rfl, -⟩ := h
      simpa only [Related, hw, Bool.false_eq_true, if_false] using
        walkItems_related hr p 0 items ys fb hb
  | table entries =>
    simp only [walk, Option.map_eq_some_iff, Prod.mk.injEq] at h
    obtain ⟨⟨ys, fb⟩, hb, rfl, -⟩ := h
    exact walkEntries_related hr p 0 entries ys fb hb

theorem walkItems_related (hr : Rewrites isWhole r R W) (p : P) (i : ℕ) (xs ys : List (Doc α))
    (flag : Bool) (h : walkItems steps isWhole r p i xs = some (ys, flag)) :
    RelatedItems steps isWhole R W p i xs ys := by
  cases xs with
  | nil =>
    simp only [walkItems, Option.some.injEq, Prod.mk.injEq] at h
    obtain ⟨rfl, -⟩ := h
    trivial
  | cons x xs =>
    simp only [walkItems, Option.bind_eq_some_iff, Option.map_eq_some_iff, Prod.mk.injEq] at h
    obtain ⟨⟨y, fy⟩, hy, ⟨zs, fz⟩, hz, rfl, -⟩ := h
    exact ⟨walk_related hr _ x y fy hy, walkItems_related hr p (i + 1) xs zs fz hz⟩

theorem walkEntries_related (hr : Rewrites isWhole r R W) (p : P) (i : ℕ)
    (xs ys : List (List Char × Doc α)) (flag : Bool)
    (h : walkEntries steps isWhole r p i xs = some (ys, flag)) :
    RelatedEntries steps isWhole R W p i xs ys := by
  cases xs with
  | nil =>
    simp only [walkEntries, Option.some.injEq, Prod.mk.injEq] at h
    obtain ⟨rfl, -⟩ := h
    trivial
  | cons x xs =>
    obtain ⟨name, x⟩ := x
    simp only [walkEntries, Option.bind_eq_some_iff, Option.map_eq_some_iff, Prod.mk.injEq] at h
    obtain ⟨⟨y, fy⟩, hy, ⟨zs, fz⟩, hz, rfl, -⟩ := h
    exact ⟨rfl, walk_related hr _ x y fy hy, walkEntries_related hr p (i + 1) xs zs fz hz⟩

end
end

section
variable (Q : P → α → Prop) (V : P → List (Doc α) → Prop)

mutual

/-- A walk says that it changed nothing when no leaf and no whole array was changed. -/
theorem walk_flag (hr : Flags isWhole r Q V) (p : P) (d e : Doc α) (flag : Bool)
    (h : walk steps isWhole r p d = some (e, flag)) :
    flag = false ↔ Everywhere steps isWhole Q V p d := by
  cases d with
  | leaf a =>
    simp only [walk, Option.map_eq_some_iff, Prod.mk.injEq] at h
    obtain ⟨⟨b, fb⟩, hb, -, rfl⟩ := h
    exact hr.leaf p a b fb hb
  | array items =>
    cases hw : isWhole items with
    | true =>
      simp only [walk, hw, if_true, Option.map_eq_some_iff, Prod.mk.injEq] at h
      obtain ⟨⟨ys, fb⟩, hb, -, rfl⟩ := h
      simpa only [Everywhere, Related, hw, if_true] using hr.whole p items ys fb hw hb
    | false =>
      simp only [walk, hw, Bool.false_eq_true, if_false, Option.map_eq_some_iff,
        Prod.mk.injEq] at h
      obtain ⟨⟨ys, fb⟩, hb, -, rfl⟩ := h
      simpa only [Everywhere, Related, hw, Bool.false_eq_true, if_false] using
        walkItems_flag hr p 0 items ys fb hb
  | table entries =>
    simp only [walk, Option.map_eq_some_iff, Prod.mk.injEq] at h
    obtain ⟨⟨ys, fb⟩, hb, -, rfl⟩ := h
    simpa only [Everywhere, Related] using walkEntries_flag hr p 0 entries ys fb hb

theorem walkItems_flag (hr : Flags isWhole r Q V) (p : P) (i : ℕ) (xs ys : List (Doc α))
    (flag : Bool) (h : walkItems steps isWhole r p i xs = some (ys, flag)) :
    flag = false ↔ RelatedItems steps isWhole (fun q a _ => Q q a) (fun q xs _ => V q xs)
      p i xs xs := by
  cases xs with
  | nil =>
    simp only [walkItems, Option.some.injEq, Prod.mk.injEq] at h
    simp [RelatedItems, ← h.2]
  | cons x xs =>
    simp only [walkItems, Option.bind_eq_some_iff, Option.map_eq_some_iff, Prod.mk.injEq] at h
    obtain ⟨⟨y, fy⟩, hy, ⟨zs, fz⟩, hz, -, rfl⟩ := h
    rw [Bool.or_eq_false_iff, RelatedItems, walk_flag hr _ x y fy hy,
      walkItems_flag hr p (i + 1) xs zs fz hz]

theorem walkEntries_flag (hr : Flags isWhole r Q V) (p : P) (i : ℕ)
    (xs ys : List (List Char × Doc α)) (flag : Bool)
    (h : walkEntries steps isWhole r p i xs = some (ys, flag)) :
    flag = false ↔ RelatedEntries steps isWhole (fun q a _ => Q q a) (fun q xs _ => V q xs)
      p i xs xs := by
  cases xs with
  | nil =>
    simp only [walkEntries, Option.some.injEq, Prod.mk.injEq] at h
    simp [RelatedEntries, ← h.2]
  | cons x xs =>
    obtain ⟨name, x⟩ := x
    simp only [walkEntries, Option.bind_eq_some_iff, Option.map_eq_some_iff, Prod.mk.injEq] at h
    obtain ⟨⟨y, fy⟩, hy, ⟨zs, fz⟩, hz, -, rfl⟩ := h
    rw [Bool.or_eq_false_iff, RelatedEntries, walk_flag hr _ x y fy hy,
      walkEntries_flag hr p (i + 1) xs zs fz hz, eq_self_iff_true, true_and]

end
end
end

inductive Step
  | item (i : ℕ)
  | entry (name : List Char)

def entryAt (p : P) (i : ℕ) (name : List Char) : List (List Char × Doc α) → Option (P × Doc α)
  | [] => none
  | (n, d) :: rest =>
    if n = name then some (steps.entry p i n, d) else entryAt p (i + 1) name rest

def child (p : P) : Doc α → Step → Option (P × Doc α)
  | .array items, .item i => (items[i]?).map fun d => (steps.item p i, d)
  | .table entries, .entry name => entryAt steps p 0 name entries
  | _, _ => none

def reach (p : P) (d : Doc α) : List Step → Option (P × Doc α)
  | [] => some (p, d)
  | step :: path => (child steps p d step).bind fun c => reach c.1 c.2 path

section
variable (R : P → α → α → Prop) (W : P → List (Doc α) → List (Doc α) → Prop)

theorem relatedItems_get (p : P) (i k : ℕ) (xs ys : List (Doc α)) (x : Doc α)
    (h : RelatedItems steps isWhole R W p i xs ys) (hx : xs[k]? = some x) :
    ∃ y, ys[k]? = some y ∧ Related steps isWhole R W (steps.item p (i + k)) x y := by
  induction k generalizing i xs ys with
  | zero =>
    cases xs with
    | nil => simp at hx
    | cons a xs =>
      cases ys with
      | nil => exact h.elim
      | cons b ys =>
        simp only [List.getElem?_cons_zero, Option.some.injEq] at hx ⊢
        exact ⟨b, rfl, hx ▸ h.1⟩
  | succ k ih =>
    cases xs with
    | nil => simp at hx
    | cons a xs =>
      cases ys with
      | nil => exact h.elim
      | cons b ys =>
        simp only [List.getElem?_cons_succ] at hx ⊢
        rw [show i + (k + 1) = i + 1 + k by omega]
        exact ih (i + 1) xs ys h.2 hx

theorem relatedEntries_at (p q : P) (i : ℕ) (name : List Char)
    (xs ys : List (List Char × Doc α)) (x : Doc α)
    (h : RelatedEntries steps isWhole R W p i xs ys)
    (hx : entryAt steps p i name xs = some (q, x)) :
    ∃ y, entryAt steps p i name ys = some (q, y) ∧ Related steps isWhole R W q x y := by
  induction xs generalizing i ys with
  | nil => simp [entryAt] at hx
  | cons a xs ih =>
    obtain ⟨m, a⟩ := a
    cases ys with
    | nil => exact h.elim
    | cons b ys =>
      obtain ⟨n, b⟩ := b
      obtain ⟨rfl, hab, hrest⟩ := h
      by_cases hname : n = name
      · simp only [entryAt, hname, if_true, Option.some.injEq, Prod.mk.injEq] at hx ⊢
        obtain ⟨rfl, rfl⟩ := hx
        exact ⟨b, ⟨rfl, rfl⟩, hname ▸ hab⟩
      · simp only [entryAt, hname, if_false] at hx ⊢
        exact ih (i + 1) ys hrest hx

theorem related_child (p q : P) (d e x : Doc α) (step : Step)
    (h : Related steps isWhole R W p d e) (hx : child steps p d step = some (q, x))
    (hd : ∀ items, d = .array items → isWhole items = false) :
    ∃ y, child steps p e step = some (q, y) ∧ Related steps isWhole R W q x y := by
  cases d with
  | leaf a => cases step <;> simp [child] at hx
  | array xs =>
    cases e with
    | leaf b => exact h.elim
    | table ys => exact h.elim
    | array ys =>
      cases step with
      | entry name => simp [child] at hx
      | item k =>
        simp only [Related, hd xs rfl, Bool.false_eq_true, if_false] at h
        simp only [child, Option.map_eq_some_iff, Prod.mk.injEq] at hx ⊢
        obtain ⟨x', hx', rfl, rfl⟩ := hx
        obtain ⟨y, hy, hxy⟩ := relatedItems_get steps isWhole R W p 0 k xs ys x' h hx'
        rw [Nat.zero_add] at hxy
        exact ⟨y, ⟨y, hy, rfl, rfl⟩, hxy⟩
  | table xs =>
    cases e with
    | leaf b => exact h.elim
    | array ys => exact h.elim
    | table ys =>
      cases step with
      | item k => simp [child] at hx
      | entry name => exact relatedEntries_at steps isWhole R W p q 0 name xs ys x h hx

/-- A path leads to related parts of related documents, unless it leads into an array
that is taken as a whole. -/
theorem related_reach (p q : P) (d e x : Doc α) (path : List Step)
    (h : Related steps isWhole R W p d e) (hx : reach steps p d path = some (q, x)) :
    (∃ y, reach steps p e path = some (q, y) ∧ Related steps isWhole R W q x y) ∨
      ∃ items, isWhole items = true ∧
        ∃ item ∈ items, ∃ p' rest, reach steps p' item rest = some (q, x) := by
  induction path generalizing p d e with
  | nil =>
    simp only [reach, Option.some.injEq, Prod.mk.injEq] at hx ⊢
    obtain ⟨rfl, rfl⟩ := hx
    exact Or.inl ⟨e, ⟨rfl, rfl⟩, h⟩
  | cons step path ih =>
    simp only [reach, Option.bind_eq_some_iff] at hx ⊢
    obtain ⟨⟨p', d'⟩, hchild, hrest⟩ := hx
    by_cases hd : ∀ items, d = .array items → isWhole items = false
    · obtain ⟨e', he', hde⟩ := related_child steps isWhole R W p p' d e d' step h hchild hd
      rcases ih p' d' e' hde hrest with ⟨y, hy, hxy⟩ | hinto
      · exact Or.inl ⟨y, ⟨(p', e'), he', hy⟩, hxy⟩
      · exact Or.inr hinto
    · push Not at hd
      obtain ⟨items, rfl, hw⟩ := hd
      cases step with
      | entry name => simp [child] at hchild
      | item k =>
        simp only [child, Option.map_eq_some_iff, Prod.mk.injEq] at hchild
        obtain ⟨item, hitem, rfl, rfl⟩ := hchild
        exact Or.inr ⟨items, by simpa using hw, item, List.mem_of_getElem? hitem, _, path, hrest⟩

end

end ClantoDesk.Documents
