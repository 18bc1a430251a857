import ClantoDesk.Proportion
import ClantoDesk.WaylandLayout
import Mathlib

/-!
The pointer of a client on a Wayland desktop whose layout has changed,
libs/scrap/src/wayland/display.rs. The client sends coordinates of the layout it knows. They are
carried into the display's live rectangle, axis by axis. An operation on machine integers gives its
exact result when that is in range; what it gives otherwise depends on the build, which may panic
or wrap.
-/
namespace ClantoDesk.PointerRemap

open WaylandLayout Proportion

def InI32 (n : ℤ) : Prop := -2147483648 ≤ n ∧ n ≤ 2147483647

def InI64 (n : ℤ) : Prop := -9223372036854775808 ≤ n ∧ n ≤ 9223372036854775807

instance decidableInI32 (n : ℤ) : Decidable (InI32 n) := inferInstanceAs (Decidable (_ ∧ _))

instance decidableInI64 (n : ℤ) : Decidable (InI64 n) := inferInstanceAs (Decidable (_ ∧ _))

/-- What an operation gives for its exact result; `none` is a panic. -/
structure Arithmetic where
  i32 : ℤ → Option ℤ
  i64 : ℤ → Option ℤ
  i32_exact : ∀ n, InI32 n → i32 n = some n
  i64_exact : ∀ n, InI64 n → i64 n = some n

def checked : Arithmetic where
  i32 n := if InI32 n then some n else none
  i64 n := if InI64 n then some n else none
  i32_exact _ hn := if_pos hn
  i64_exact _ hn := if_pos hn

theorem bmod_i32 (n : ℤ) (hn : InI32 n) : n.bmod 4294967296 = n := by
  unfold InI32 at hn
  exact Int.bmod_eq_of_le (by omega) (by omega)

theorem bmod_i64 (n : ℤ) (hn : InI64 n) : n.bmod 18446744073709551616 = n := by
  unfold InI64 at hn
  exact Int.bmod_eq_of_le (by omega) (by omega)

def wrapping : Arithmetic where
  i32 n := some (n.bmod 4294967296)
  i64 n := some (n.bmod 18446744073709551616)
  i32_exact n hn := by rw [bmod_i32 n hn]
  i64_exact n hn := by rw [bmod_i64 n hn]

variable (arith : Arithmetic)

def sizeOf (d : WaylandDisplayInfo) : ℤ × ℤ :=
  match d.logicalSize with
  | some logicalSize => logicalSize
  | none =>
    if d.transform = 90 ∨ d.transform = 270 then orientedPhysical d else (d.width, d.height)

def growRect : List WaylandDisplayInfo → ℤ × ℤ × ℤ × ℤ → Option (ℤ × ℤ × ℤ × ℤ)
  | [], rect => some rect
  | d :: displays, (minX, maxX, minY, maxY) => do
    let right ← arith.i32 (d.x + (sizeOf d).1)
    let bottom ← arith.i32 (d.y + (sizeOf d).2)
    growRect displays (min minX d.x, max maxX right, min minY d.y, max maxY bottom)

def desktopRectOf : List WaylandDisplayInfo → Option (Option (ℤ × ℤ × ℤ × ℤ))
  | [] => some none
  | [d] => do
    let right ← arith.i32 (d.x + (orientedPhysical d).1)
    let bottom ← arith.i32 (d.y + (orientedPhysical d).2)
    some (some (d.x, right, d.y, bottom))
  | displays => do
    let rect ← growRect arith displays (2147483647, -2147483648, 2147483647, -2147483648)
    some (some rect)

def holds (r : DisplayRect) (x y : ℤ) : Option Bool := do
  if x < r.x then return false
  let right ← arith.i32 (r.x + r.w)
  if right ≤ x then return false
  if y < r.y then return false
  let bottom ← arith.i32 (r.y + r.h)
  return decide (y < bottom)

def findDisplay (x y : ℤ) : ℕ → List DisplayRect → Option (Option (ℕ × DisplayRect))
  | _, [] => some none
  | i, r :: rest => do
    if ← holds arith r x y then return some (i, r)
    findDisplay x y (i + 1) rest

/-- A nameless display is matched by its index, while there are as many displays. -/
def matched (baseline live : List DisplayRect) (bi : ℕ) (b : DisplayRect) : Option DisplayRect :=
  if b.name = "" then
    if baseline.length = live.length then live[bi]? else none
  else live.find? fun r => r.name = b.name

def mapAxis (v baseOrigin baseExtent liveOrigin liveExtent : ℤ) : Option ℤ :=
  if baseExtent ≤ 1 ∨ liveExtent ≤ 1 then some liveOrigin
  else do
    let offset ← arith.i32 (v - baseOrigin)
    let liveSteps ← arith.i32 (liveExtent - 1)
    let product ← arith.i64 (offset * liveSteps)
    let baseSteps ← arith.i32 (baseExtent - 1)
    arith.i32 (liveOrigin + (product.tdiv baseSteps).bmod 4294967296)

def remapToLiveLayout (x y : ℤ) (baseline live : List DisplayRect) : Option (ℤ × ℤ) := do
  match ← findDisplay arith x y 0 baseline with
  | none => return (x, y)
  | some (bi, b) =>
    match matched baseline live bi b with
    | none => return (x, y)
    | some l =>
      let nx ← mapAxis arith x b.x b.w l.x l.w
      let ny ← mapAxis arith y b.y b.h l.y l.h
      return (nx, ny)

/-- The rectangle's fields are numbers of type `i32`, and so are its edges. -/
structure Fits (r : DisplayRect) : Prop where
  left : InI32 r.x
  width : InI32 r.w
  right : InI32 (r.x + r.w)
  top : InI32 r.y
  height : InI32 r.h
  bottom : InI32 (r.y + r.h)

/-- The smallest and the largest edges of the rectangles. -/
structure IsBoundingBox (rects : List DisplayRect) (box : ℤ × ℤ × ℤ × ℤ) : Prop where
  left : IsLeast {v | ∃ r ∈ rects, r.x = v} box.1
  right : IsGreatest {v | ∃ r ∈ rects, r.x + r.w = v} box.2.1
  top : IsLeast {v | ∃ r ∈ rects, r.y = v} box.2.2.1
  bottom : IsGreatest {v | ∃ r ∈ rects, r.y + r.h = v} box.2.2.2

section Extremes

variable {α : Type} [LinearOrder α] (s : Set α)

theorem isLeast_insert_of_min (a b m : α) (h : IsLeast (insert (min a b) s) m) :
    IsLeast (insert a (insert b s)) m := by
  obtain ⟨hmem, hlower⟩ := h
  have hmin : m ≤ min a b := hlower (Set.mem_insert _ _)
  constructor
  · rcases hmem with rfl | hs
    · rcases min_choice a b with ha | hb
      · exact Or.inl ha
      · exact Or.inr (Or.inl hb)
    · exact Or.inr (Or.inr hs)
  · rintro v (rfl | rfl | hv)
    · exact le_trans hmin (min_le_left _ _)
    · exact le_trans hmin (min_le_right _ _)
    · exact hlower (Or.inr hv)

/-- An element of the range may be left out when there is a smaller one. -/
theorem isLeast_of_insert (a b m : α) (h : IsLeast (insert a s) m) (hb : b ∈ s) (hab : b ≤ a) :
    IsLeast s m := by
  obtain ⟨hmem, hlower⟩ := h
  refine ⟨?_, fun v hv => hlower (Or.inr hv)⟩
  rcases hmem with rfl | hs
  · rw [le_antisymm (hlower (Or.inr hb)) hab]
    exact hb
  · exact hs

-- The greatest element is the least one of the dual order.
theorem isGreatest_insert_of_max (a b m : α) (h : IsGreatest (insert (max a b) s) m) :
    IsGreatest (insert a (insert b s)) m :=
  isLeast_insert_of_min (α := αᵒᵈ) s a b m h

theorem isGreatest_of_insert (a b m : α) (h : IsGreatest (insert a s) m) (hb : b ∈ s)
    (hab : a ≤ b) : IsGreatest s m :=
  isLeast_of_insert (α := αᵒᵈ) s a b m h hb hab

end Extremes

variable (d : WaylandDisplayInfo) (baseOrigin liveOrigin : ℤ) (displays : List WaylandDisplayInfo)

theorem sizeOf_eq : sizeOf d = d.logicalSize.getD (orientedPhysical d) := by
  unfold sizeOf orientedPhysical
  cases d.logicalSize with
  | some logicalSize => rfl
  | none =>
    simp only [Option.getD_none]
    split <;> rfl

/-- The values that a display takes under `f`. -/
def valuesOf (f : WaylandDisplayInfo → ℤ) (displays : List WaylandDisplayInfo) : Set ℤ :=
  {v | ∃ d ∈ displays, f d = v}

theorem valuesOf_cons (f : WaylandDisplayInfo → ℤ) (d : WaylandDisplayInfo)
    (displays : List WaylandDisplayInfo) :
    valuesOf f (d :: displays) = insert (f d) (valuesOf f displays) := by
  ext v
  simp [valuesOf, eq_comm]

theorem growRect_extremes (rect : ℤ × ℤ × ℤ × ℤ)
    (hfit : ∀ d ∈ displays, InI32 (d.x + (sizeOf d).1) ∧ InI32 (d.y + (sizeOf d).2)) :
    ∃ box, growRect arith displays rect = some box ∧
      IsLeast (insert rect.1 (valuesOf (·.x) displays)) box.1 ∧
      IsGreatest (insert rect.2.1 (valuesOf (fun d => d.x + (sizeOf d).1) displays)) box.2.1 ∧
      IsLeast (insert rect.2.2.1 (valuesOf (·.y) displays)) box.2.2.1 ∧
      IsGreatest (insert rect.2.2.2 (valuesOf (fun d => d.y + (sizeOf d).2) displays))
        box.2.2.2 := by
  induction displays generalizing rect with
  | nil =>
    refine ⟨rect, rfl, ?_, ?_, ?_, ?_⟩ <;>
      simp [valuesOf, IsLeast, IsGreatest, lowerBounds, upperBounds]
  | cons d displays ih =>
    obtain ⟨minX, maxX, minY, maxY⟩ := rect
    obtain ⟨hright, hbottom⟩ := hfit d (List.mem_cons_self ..)
    obtain ⟨box, hbox, hleft, hright', htop, hbottom'⟩ :=
      ih (min minX d.x, max maxX (d.x + (sizeOf d).1), min minY d.y, max maxY (d.y + (sizeOf d).2))
        fun e he => hfit e (List.mem_cons_of_mem _ he)
    refine ⟨box, ?_, ?_⟩
    · simp only [growRect, arith.i32_exact _ hright, arith.i32_exact _ hbottom, Option.bind_eq_bind,
        Option.bind_some]
      exact hbox
    · simp only [valuesOf_cons]
      exact ⟨isLeast_insert_of_min _ _ _ _ hleft, isGreatest_insert_of_max _ _ _ _ hright',
        isLeast_insert_of_min _ _ _ _ htop, isGreatest_insert_of_max _ _ _ _ hbottom'⟩

theorem rects_of_several (hlength : displays.length ≠ 1) :
    logicalRectsOf displays =
      displays.map fun d => ⟨d.name, d.x, d.y, (sizeOf d).1, (sizeOf d).2, d.transform⟩ := by
  unfold logicalRectsOf
  simp only [if_neg hlength, sizeOf_eq]

theorem isBoundingBox_several (box : ℤ × ℤ × ℤ × ℤ)
    (hlength : displays.length ≠ 1) (hleft : IsLeast (valuesOf (·.x) displays) box.1)
    (hright : IsGreatest (valuesOf (fun d => d.x + (sizeOf d).1) displays) box.2.1)
    (htop : IsLeast (valuesOf (·.y) displays) box.2.2.1)
    (hbottom : IsGreatest (valuesOf (fun d => d.y + (sizeOf d).2) displays) box.2.2.2) :
    IsBoundingBox (logicalRectsOf displays) box := by
  rw [rects_of_several displays hlength]
  constructor <;> simpa [valuesOf]

theorem growRect_boundingBox (hne : displays ≠ [])
    (hlength : displays.length ≠ 1) (hfit : ∀ r ∈ logicalRectsOf displays, Fits r) :
    ∃ box, growRect arith displays (2147483647, -2147483648, 2147483647, -2147483648) = some box ∧
      IsBoundingBox (logicalRectsOf displays) box := by
  have hdisplays : ∀ d ∈ displays,
      Fits ⟨d.name, d.x, d.y, (sizeOf d).1, (sizeOf d).2, d.transform⟩ := by
    intro d hd
    apply hfit
    rw [rects_of_several displays hlength]
    exact List.mem_map_of_mem hd
  obtain ⟨box, hbox, hleft, hright, htop, hbottom⟩ :=
    growRect_extremes arith displays (2147483647, -2147483648, 2147483647, -2147483648)
      fun d hd => ⟨(hdisplays d hd).right, (hdisplays d hd).bottom⟩
  obtain ⟨d, hd⟩ := List.exists_mem_of_ne_nil displays hne
  obtain ⟨hx, -, hright', hy, -, hbottom'⟩ := hdisplays d hd
  exact ⟨box, hbox, isBoundingBox_several displays box hlength
    (isLeast_of_insert _ _ d.x _ hleft ⟨d, hd, rfl⟩ hx.2)
    (isGreatest_of_insert _ _ _ _ hright ⟨d, hd, rfl⟩ hright'.1)
    (isLeast_of_insert _ _ d.y _ htop ⟨d, hd, rfl⟩ hy.2)
    (isGreatest_of_insert _ _ _ _ hbottom ⟨d, hd, rfl⟩ hbottom'.1)⟩

theorem rects_of_single :
    logicalRectsOf [d] =
      [⟨d.name, d.x, d.y, (orientedPhysical d).1, (orientedPhysical d).2, d.transform⟩] := rfl

theorem desktopRectOf_boundingBox (hne : displays ≠ [])
    (hfit : ∀ r ∈ logicalRectsOf displays, Fits r) :
    ∃ box, desktopRectOf arith displays = some (some box) ∧
      IsBoundingBox (logicalRectsOf displays) box := by
  rcases displays with _ | ⟨d, _ | ⟨e, rest⟩⟩
  · exact absurd rfl hne
  · rw [rects_of_single] at hfit ⊢
    obtain ⟨-, -, hright, -, -, hbottom⟩ := hfit _ (List.mem_cons_self ..)
    refine ⟨(d.x, d.x + (orientedPhysical d).1, d.y, d.y + (orientedPhysical d).2), ?_, ?_⟩
    · simp only [desktopRectOf, arith.i32_exact _ hright, arith.i32_exact _ hbottom,
        Option.bind_eq_bind, Option.bind_some]
    · constructor <;> simp [IsLeast, IsGreatest, lowerBounds, upperBounds]
  · obtain ⟨box, hbox, hbounds⟩ :=
      growRect_boundingBox arith (d :: e :: rest) hne (by simp) hfit
    refine ⟨box, ?_, hbounds⟩
    simp only [desktopRectOf, hbox, Option.bind_eq_bind, Option.bind_some]

def Contains (r : DisplayRect) (x y : ℤ) : Prop :=
  (r.x ≤ x ∧ x < r.x + r.w) ∧ r.y ≤ y ∧ y < r.y + r.h

instance decidableContains (r : DisplayRect) (x y : ℤ) : Decidable (Contains r x y) :=
  inferInstanceAs (Decidable (_ ∧ _))

theorem holds_eq (r : DisplayRect) (x y : ℤ) (hr : Fits r) :
    holds arith r x y = some (decide (Contains r x y)) := by
  by_cases hin : Contains r x y
  · obtain ⟨⟨hleft, hright⟩, htop, hbottom⟩ := hin
    simp only [holds, arith.i32_exact _ hr.right, arith.i32_exact _ hr.bottom, Option.bind_eq_bind,
      Option.bind_some, Option.pure_def]
    rw [if_neg (by omega), if_neg (by omega), if_neg (by omega)]
    simp [Contains, hleft, hright, htop, hbottom]
  · rw [decide_eq_false hin]
    unfold Contains at hin
    simp only [holds, arith.i32_exact _ hr.right, arith.i32_exact _ hr.bottom, Option.bind_eq_bind,
      Option.bind_some, Option.pure_def]
    split
    · rfl
    · split
      · rfl
      · split
        · rfl
        · congr 1
          exact decide_eq_false (by omega)

def FirstAt (baseline : List DisplayRect) (x y : ℤ) (bi : ℕ) (b : DisplayRect) : Prop :=
  baseline[bi]? = some b ∧ Contains b x y ∧
    ∀ (j : ℕ) (r : DisplayRect), j < bi → baseline[j]? = some r → ¬ Contains r x y

theorem findDisplay_none (x y : ℤ) (i : ℕ) (baseline : List DisplayRect)
    (hfit : ∀ r ∈ baseline, Fits r) (hout : ∀ r ∈ baseline, ¬ Contains r x y) :
    findDisplay arith x y i baseline = some none := by
  induction baseline generalizing i with
  | nil => rfl
  | cons r rest ih =>
    rw [findDisplay, holds_eq arith r x y (hfit r (List.mem_cons_self ..)),
      decide_eq_false (hout r (List.mem_cons_self ..))]
    exact ih (i + 1) (fun s hs => hfit s (List.mem_cons_of_mem _ hs))
      fun s hs => hout s (List.mem_cons_of_mem _ hs)

theorem findDisplay_first (x y : ℤ) (i bi : ℕ) (b : DisplayRect) (baseline : List DisplayRect)
    (hfit : ∀ r ∈ baseline, Fits r) (hfirst : FirstAt baseline x y bi b) :
    findDisplay arith x y i baseline = some (some (i + bi, b)) := by
  induction baseline generalizing i bi with
  | nil => exact absurd hfirst.1 (by simp)
  | cons r rest ih =>
    obtain ⟨hb, hin, hbefore⟩ := hfirst
    rw [findDisplay, holds_eq arith r x y (hfit r (List.mem_cons_self ..))]
    cases bi with
    | zero =>
      obtain rfl := Option.some.inj hb
      rw [decide_eq_true hin]
      rfl
    | succ bi =>
      rw [decide_eq_false (hbefore 0 r (by omega) rfl)]
      rw [show i + (bi + 1) = i + 1 + bi by omega]
      refine ih (i + 1) bi (fun s hs => hfit s (List.mem_cons_of_mem _ hs)) ⟨hb, hin, ?_⟩
      intro j s hj hs
      exact hbefore (j + 1) s (by omega) hs

structure AxisMap (baseOrigin baseExtent liveOrigin liveExtent : ℤ) (f : ℤ → ℤ) : Prop where
  mono : MonotoneOn f (Set.Ico baseOrigin (baseOrigin + baseExtent))
  inside : ∀ v ∈ Set.Ico baseOrigin (baseOrigin + baseExtent),
    f v ∈ Set.Ico liveOrigin (liveOrigin + liveExtent)
  near : f baseOrigin = liveOrigin
  far : 1 < baseExtent → f (baseOrigin + baseExtent - 1) = liveOrigin + liveExtent - 1
  shift : baseExtent = liveExtent →
    ∀ v ∈ Set.Ico baseOrigin (baseOrigin + baseExtent), f v = liveOrigin + (v - baseOrigin)

def place (baseOrigin baseExtent liveOrigin liveExtent v : ℤ) : ℤ :=
  if baseExtent ≤ 1 ∨ liveExtent ≤ 1 then liveOrigin
  else liveOrigin + part (v - baseOrigin).toNat (baseExtent - 1).toNat (liveExtent - 1).toNat

theorem place_of_nat (n k m : ℕ) (hk : 0 < k) (hm : 0 < m) :
    place baseOrigin (k + 1) liveOrigin (m + 1) (baseOrigin + n) = liveOrigin + part n k m := by
  rw [place, if_neg (by omega), add_sub_cancel_left, add_sub_cancel_right, add_sub_cancel_right]
  rfl

theorem steps_of_extent (extent : ℤ) (h : ¬extent ≤ 1) : ∃ k : ℕ, 0 < k ∧ extent = k + 1 :=
  ⟨(extent - 1).toNat, by omega, by omega⟩

theorem offset_of_mem (v : ℤ) (k : ℕ) (hv : v ∈ Set.Ico baseOrigin (baseOrigin + (k + 1))) :
    ∃ n : ℕ, n ≤ k ∧ v = baseOrigin + n := by
  obtain ⟨hlow, hhigh⟩ := hv
  exact ⟨(v - baseOrigin).toNat, by omega, by omega⟩

/-- A product of two numbers of steps is far from the end of its range. -/
theorem product_inI64 (n m : ℕ) (hn : n ≤ 2147483646) (hm : m ≤ 2147483646) :
    InI64 ((n : ℤ) * m) := by
  have hproduct : n * m ≤ 2147483646 * 2147483646 := Nat.mul_le_mul hn hm
  rw [← Int.natCast_mul]
  unfold InI64
  omega

theorem mapAxis_of_nat (n k m : ℕ) (hk : 0 < k) (hm : 0 < m)
    (hn : n ≤ k) (hbase : InI32 ((k : ℤ) + 1)) (hlive : InI32 ((m : ℤ) + 1))
    (hleft : InI32 liveOrigin) (hright : InI32 (liveOrigin + (m + 1))) :
    mapAxis arith (baseOrigin + n) baseOrigin (k + 1) liveOrigin (m + 1) =
      some (liveOrigin + part n k m) := by
  have hpart : part n k m ≤ m := part_le n k m hn
  have hquotient : ((n : ℤ) * m).tdiv k = (part n k m : ℕ) := by
    rw [← Int.natCast_mul, ← Int.ofNat_tdiv]
    rfl
  unfold InI32 at hbase hlive hleft hright
  rw [mapAxis, if_neg (by omega), add_sub_cancel_left, add_sub_cancel_right, add_sub_cancel_right,
    arith.i32_exact n (by unfold InI32; omega), arith.i32_exact m (by unfold InI32; omega),
    arith.i32_exact k (by unfold InI32; omega)]
  simp only [Option.bind_eq_bind, Option.bind_some]
  rw [arith.i64_exact _ (product_inI64 n m (by omega) (by omega)), Option.bind_some, hquotient,
    bmod_i32 _ (by unfold InI32; omega), arith.i32_exact _ (by unfold InI32; omega)]

theorem mapAxis_eq (v baseOrigin baseExtent liveOrigin liveExtent : ℤ)
    (hv : v ∈ Set.Ico baseOrigin (baseOrigin + baseExtent)) (hbase : InI32 baseExtent)
    (hlive : InI32 liveExtent) (hleft : InI32 liveOrigin)
    (hright : InI32 (liveOrigin + liveExtent)) :
    mapAxis arith v baseOrigin baseExtent liveOrigin liveExtent =
      some (place baseOrigin baseExtent liveOrigin liveExtent v) := by
  by_cases hone : baseExtent ≤ 1 ∨ liveExtent ≤ 1
  · rw [mapAxis, place, if_pos hone, if_pos hone]
  · obtain ⟨k, hk, rfl⟩ := steps_of_extent baseExtent (fun h => hone (Or.inl h))
    obtain ⟨m, hm, rfl⟩ := steps_of_extent liveExtent (fun h => hone (Or.inr h))
    obtain ⟨n, hn, rfl⟩ := offset_of_mem baseOrigin v k hv
    rw [place_of_nat baseOrigin liveOrigin n k m hk hm]
    exact mapAxis_of_nat arith baseOrigin liveOrigin n k m hk hm hn hbase hlive hleft hright

theorem axisMap_place (baseExtent liveOrigin liveExtent : ℤ) (hbase : 0 < baseExtent)
    (hlive : 0 < liveExtent) :
    AxisMap baseOrigin baseExtent liveOrigin liveExtent
      (place baseOrigin baseExtent liveOrigin liveExtent) := by
  by_cases hone : baseExtent ≤ 1 ∨ liveExtent ≤ 1
  · have hplace : ∀ v, place baseOrigin baseExtent liveOrigin liveExtent v = liveOrigin :=
      fun v => if_pos hone
    constructor
    · intro v _ w _ _
      rw [hplace, hplace]
    · intro v _
      rw [hplace]
      exact ⟨le_refl _, by omega⟩
    · exact hplace _
    · intro _
      rw [hplace]
      omega
    · rintro hsame v ⟨hlow, hhigh⟩
      rw [hplace]
      omega
  · obtain ⟨k, hk, rfl⟩ := steps_of_extent baseExtent (fun h => hone (Or.inl h))
    obtain ⟨m, hm, rfl⟩ := steps_of_extent liveExtent (fun h => hone (Or.inr h))
    have hplace := place_of_nat baseOrigin liveOrigin
    constructor
    · intro v hv w hw hvw
      obtain ⟨n, hn, rfl⟩ := offset_of_mem baseOrigin v k hv
      obtain ⟨n', hn', rfl⟩ := offset_of_mem baseOrigin w k hw
      have := part_mono n n' k m (by omega)
      rw [hplace n k m hk hm, hplace n' k m hk hm]
      omega
    · intro v hv
      obtain ⟨n, hn, rfl⟩ := offset_of_mem baseOrigin v k hv
      have := part_le n k m hn
      rw [hplace n k m hk hm]
      exact ⟨by omega, by omega⟩
    · have := hplace 0 k m hk hm
      simpa using this
    · intro _
      have := hplace k k m hk hm
      rw [part_full k m hk] at this
      rw [show baseOrigin + ((k : ℤ) + 1) - 1 = baseOrigin + k by omega, this]
      omega
    · intro hsame v hv
      obtain ⟨n, hn, rfl⟩ := offset_of_mem baseOrigin v k hv
      obtain rfl : k = m := by omega
      rw [hplace n k k hk hk, part_same n k hk]
      omega

theorem matched_mem (baseline live : List DisplayRect) (bi : ℕ) (b l : DisplayRect)
    (hl : matched baseline live bi b = some l) : l ∈ live := by
  unfold matched at hl
  split at hl
  · split at hl
    · exact List.mem_of_getElem? hl
    · exact absurd hl (by simp)
  · exact List.mem_of_find?_eq_some hl

theorem remap_outside (x y : ℤ) (baseline live : List DisplayRect) (hfit : ∀ r ∈ baseline, Fits r)
    (hout : ∀ r ∈ baseline, ¬ Contains r x y) :
    remapToLiveLayout arith x y baseline live = some (x, y) := by
  unfold remapToLiveLayout
  rw [findDisplay_none arith x y 0 baseline hfit hout]
  rfl

theorem remap_gone (x y : ℤ) (baseline live : List DisplayRect) (bi : ℕ) (b : DisplayRect)
    (hfit : ∀ r ∈ baseline, Fits r) (hfirst : FirstAt baseline x y bi b)
    (hgone : matched baseline live bi b = none) :
    remapToLiveLayout arith x y baseline live = some (x, y) := by
  unfold remapToLiveLayout
  rw [findDisplay_first arith x y 0 bi b baseline hfit hfirst, Nat.zero_add]
  simp only [Option.bind_eq_bind, Option.bind_some, hgone, Option.pure_def]

theorem remap_matched (x y : ℤ) (baseline live : List DisplayRect) (bi : ℕ) (b l : DisplayRect)
    (hfit : ∀ r ∈ baseline, Fits r) (hfirst : FirstAt baseline x y bi b)
    (hl : matched baseline live bi b = some l) (hlive : Fits l) :
    remapToLiveLayout arith x y baseline live =
      some (place b.x b.w l.x l.w x, place b.y b.h l.y l.h y) := by
  obtain ⟨⟨hx, hx'⟩, hy, hy'⟩ := hfirst.2.1
  have hb : Fits b := hfit b (List.mem_of_getElem? hfirst.1)
  unfold remapToLiveLayout
  rw [findDisplay_first arith x y 0 bi b baseline hfit hfirst, Nat.zero_add]
  simp only [Option.bind_eq_bind, Option.bind_some, hl, Option.pure_def]
  rw [mapAxis_eq arith x b.x b.w l.x l.w ⟨hx, hx'⟩ hb.width hlive.width hlive.left hlive.right,
    mapAxis_eq arith y b.y b.h l.y l.h ⟨hy, hy'⟩ hb.height hlive.height hlive.top hlive.bottom]
  rfl

theorem box_of_contains (rects : List DisplayRect) (box : ℤ × ℤ × ℤ × ℤ) (l : DisplayRect)
    (x y : ℤ) (hbox : IsBoundingBox rects box) (hl : l ∈ rects) (hin : Contains l x y) :
    (box.1 ≤ x ∧ x < box.2.1) ∧ box.2.2.1 ≤ y ∧ y < box.2.2.2 := by
  obtain ⟨⟨hx, hx'⟩, hy, hy'⟩ := hin
  have hleft := hbox.left.2 ⟨l, hl, rfl⟩
  have hright := hbox.right.2 ⟨l, hl, rfl⟩
  have htop := hbox.top.2 ⟨l, hl, rfl⟩
  have hbottom := hbox.bottom.2 ⟨l, hl, rfl⟩
  refine ⟨⟨?_, ?_⟩, ?_, ?_⟩ <;> omega

/-- A point of the desktop rectangle that `desktopRectOf` gives for the outputs. -/
def InDesktop (outputs : List WaylandDisplayInfo) (x y : ℤ) : Prop :=
  ∃ box, desktopRectOf arith outputs = some (some box) ∧
    (box.1 ≤ x ∧ x < box.2.1) ∧ box.2.2.1 ≤ y ∧ y < box.2.2.2

theorem inDesktop_of_contains (outputs : List WaylandDisplayInfo) (l : DisplayRect) (x y : ℤ)
    (hfit : ∀ r ∈ logicalRectsOf outputs, Fits r) (hl : l ∈ logicalRectsOf outputs)
    (hin : Contains l x y) : InDesktop arith outputs x y := by
  have hne : outputs ≠ [] := by
    rintro rfl
    exact absurd hl (by simp [logicalRectsOf])
  obtain ⟨box, hbox, hbounds⟩ := desktopRectOf_boundingBox arith outputs hne hfit
  exact ⟨box, hbox, box_of_contains _ box l x y hbounds hl hin⟩

/-- A rectangle with positive extents whose edges are in range. -/
def Proper (r : DisplayRect) : Prop := Fits r ∧ 0 < r.w ∧ 0 < r.h

/-- While the edges are in range, the desktop rectangle is the bounding box, and a point follows
the first baseline display that has it: it stays when there is none or the display has gone, and
otherwise it goes with both axes of the display into the live rectangle, inside the live desktop.
No operation overflows, as every arithmetic gives the same. -/
theorem pointer_follows_display :
    (∀ displays : List WaylandDisplayInfo, (∀ r ∈ logicalRectsOf displays, Fits r) →
      (displays = [] → desktopRectOf arith displays = some none) ∧
      (displays ≠ [] → ∃ box, desktopRectOf arith displays = some (some box) ∧
        IsBoundingBox (logicalRectsOf displays) box)) ∧
    ∀ baseline live : List DisplayRect, (∀ r ∈ baseline, Proper r) → (∀ r ∈ live, Proper r) →
      (∀ x y, (∀ r ∈ baseline, ¬ Contains r x y) →
        remapToLiveLayout arith x y baseline live = some (x, y)) ∧
      ∀ (bi : ℕ) (b : DisplayRect), baseline[bi]? = some b →
        (matched baseline live bi b = none → ∀ x y, FirstAt baseline x y bi b →
          remapToLiveLayout arith x y baseline live = some (x, y)) ∧
        ∀ l, matched baseline live bi b = some l →
          ∃ f g, AxisMap b.x b.w l.x l.w f ∧ AxisMap b.y b.h l.y l.h g ∧
            ∀ x y, FirstAt baseline x y bi b →
              remapToLiveLayout arith x y baseline live = some (f x, g y) ∧
              (l ∈ live ∧ Contains l (f x) (g y)) ∧
              (∀ outputs, logicalRectsOf outputs = live → InDesktop arith outputs (f x) (g y)) ∧
              (l.x = b.x → l.y = b.y → l.w = b.w → l.h = b.h → f x = x ∧ g y = y) := by
  constructor
  · intro displays hfit
    refine ⟨?_, fun hne => desktopRectOf_boundingBox arith displays hne hfit⟩
    rintro rfl
    rfl
  · intro baseline live hbaseline hlive
    have hfit : ∀ r ∈ baseline, Fits r := fun r hr => (hbaseline r hr).1
    refine ⟨fun x y hout => remap_outside arith x y baseline live hfit hout, ?_⟩
    intro bi b hb
    obtain ⟨-, hbw, hbh⟩ := hbaseline b (List.mem_of_getElem? hb)
    refine ⟨fun hgone x y hfirst => remap_gone arith x y baseline live bi b hfit hfirst hgone, ?_⟩
    intro l hl
    have hmem := matched_mem baseline live bi b l hl
    obtain ⟨hlfit, hlw, hlh⟩ := hlive l hmem
    have hhor := axisMap_place b.x b.w l.x l.w hbw hlw
    have hver := axisMap_place b.y b.h l.y l.h hbh hlh
    refine ⟨_, _, hhor, hver, ?_⟩
    intro x y hfirst
    have hin := hfirst.2.1
    have hcontains : Contains l (place b.x b.w l.x l.w x) (place b.y b.h l.y l.h y) :=
      ⟨hhor.inside x hin.1, hver.inside y hin.2⟩
    refine ⟨remap_matched arith x y baseline live bi b l hfit hfirst hl hlfit, ⟨hmem, hcontains⟩,
      ?_, ?_⟩
    · rintro outputs rfl
      exact inDesktop_of_contains arith outputs l _ _ (fun r hr => (hlive r hr).1) hmem hcontains
    · intro hx hy hw hh
      have hx' := hhor.shift hw.symm x hin.1
      have hy' := hver.shift hh.symm y hin.2
      exact ⟨by omega, by omega⟩

def namedRect (name : String) (x y w h : ℤ) : DisplayRect := ⟨name, x, y, w, h, 0⟩

def layoutBefore : List DisplayRect :=
  [namedRect "DP-1" 0 0 2560 1440, namedRect "DP-2" 2560 0 2560 1440]

def layoutAfter : List DisplayRect :=
  [namedRect "DP-1" 0 0 2048 1440, namedRect "DP-2" 2048 0 2560 1440]

theorem layouts_proper : (∀ r ∈ layoutBefore, Proper r) ∧ ∀ r ∈ layoutAfter, Proper r := by
  have hproper : ∀ name x w, x ∈ [(0 : ℤ), 2048, 2560] → w ∈ [(2048 : ℤ), 2560] →
      Proper (namedRect name x 0 w 1440) := by
    intro name x w hx hw
    simp only [List.mem_cons, List.not_mem_nil, or_false] at hx hw
    refine ⟨⟨?_, ?_, ?_, ?_, ?_, ?_⟩, ?_, ?_⟩ <;> simp only [namedRect, InI32] <;> omega
  constructor <;> simp only [layoutBefore, layoutAfter, List.forall_mem_cons]
  · exact ⟨hproper _ 0 2560 (by decide) (by decide), hproper _ 2560 2560 (by decide) (by decide),
      by simp⟩
  · exact ⟨hproper _ 0 2048 (by decide) (by decide), hproper _ 2048 2560 (by decide) (by decide),
      by simp⟩

theorem pointer_follows_display_rescale :
    remapToLiveLayout checked 3840 720 layoutBefore layoutAfter = some (3328, 720) := by
  obtain ⟨f, g, hf, hg, hmap⟩ :=
    (((pointer_follows_display checked).2 layoutBefore layoutAfter layouts_proper.1
      layouts_proper.2).2 1 (namedRect "DP-2" 2560 0 2560 1440) rfl).2
      (namedRect "DP-2" 2048 0 2560 1440) (by decide)
  have hfirst : FirstAt layoutBefore 3840 720 1 (namedRect "DP-2" 2560 0 2560 1440) := by
    refine ⟨rfl, by decide, ?_⟩
    intro j r hj hr
    obtain rfl : j = 0 := by omega
    obtain rfl := Option.some.inj hr
    decide
  rw [(hmap 3840 720 hfirst).1, hf.shift rfl 3840 hfirst.2.1.1, hg.shift rfl 720 hfirst.2.1.2]
  rfl

/-- An output whose right edge is past the numbers of type `i32`. -/
def farOutput : WaylandDisplayInfo := ⟨"DP-1", 2147483647, 0, 1920, 1080, none, 60000, 0⟩

/-- The edge wraps to the left of the origin, or the computation panics. -/
theorem far_edge_wraps :
    desktopRectOf checked [farOutput] = none ∧
      ∃ box, desktopRectOf wrapping [farOutput] = some (some box) ∧
        ¬ IsBoundingBox (logicalRectsOf [farOutput]) box := by
  refine ⟨by decide, (2147483647, -2147481729, 0, 1080), by decide, ?_⟩
  intro hbox
  have hright := hbox.right.2 ⟨_, List.mem_cons_self .., rfl⟩
  exact absurd hright (by decide)

end ClantoDesk.PointerRemap
