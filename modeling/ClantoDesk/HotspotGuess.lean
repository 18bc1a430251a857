import ClantoDesk.Passes

/-!
The guess of a cursor's click point from its bitmap, libs/scrap/src/common/drm_reader.rs. The box
of the opaque pixels is compared with its mirror images, and its halves are weighed. Counters and
coordinates are plain numbers: while the sides are below 2^30, no operation of the code on its
32-bit coordinates overflows, and the 64-bit counters count pixels of a buffer in memory.
-/
namespace ClantoDesk.HotspotGuess

open Passes

def mirrorAgreementPercent : ℕ := 88

/-- `n as i32`. -/
def asI32 (n : ℕ) : ℤ := (n : ℤ).bmod 4294967296

/-- The box of a picture, its columns and its rows. -/
structure Box where
  x : Extent
  y : Extent

def size (e : Extent) : ℤ := e.hi - e.lo + 1

def centre (e : Extent) : ℤ := (e.lo + e.hi).tdiv 2

def opaqueAt (rgba : List UInt8) (i : ℕ) : Bool :=
  match rgba[i * 4 + 3]? with
  | some a => decide (128 ≤ a)
  | none => false

def grow (w : ℕ) (b : Box) (i : ℕ) : Box := ⟨b.x.grow (i % w : ℕ), b.y.grow (i / w : ℕ)⟩

def boxOf (rgba : List UInt8) (w h : ℕ) : Box :=
  (List.range (min (rgba.length / 4) (w * h))).foldl
    (fun b i => if opaqueAt rgba i then grow w b i else b) ⟨⟨asI32 w, -1⟩, ⟨asI32 h, -1⟩⟩

def isOpaque (rgba : List UInt8) (w : ℕ) (x y : ℤ) : Bool := opaqueAt rgba (y.toNat * w + x.toNat)

def agrees (counts : ℕ × ℕ) : Bool :=
  decide (counts.2 = 0 ∨ counts.2 * mirrorAgreementPercent ≤ counts.1 * 100)

def overlap (here other : Bool) : ℕ × ℕ := ((here && other).toNat, (here || other).toNat)

def halves (here : Bool) (e : Extent) (v : ℤ) : ℕ × ℕ :=
  if here then
    if v - e.lo < (size e).tdiv 2 then (1, 0)
    else if e.hi - v < (size e).tdiv 2 then (0, 1) else (0, 0)
  else (0, 0)

/-- The counts of the left-right mirror, of the top-bottom mirror and of the half turn, then the
weights of the left and the right half and those of the upper and the lower half. -/
abbrev Tallies := (ℕ × ℕ) × (ℕ × ℕ) × (ℕ × ℕ) × (ℕ × ℕ) × (ℕ × ℕ)

variable (ink : ℤ → ℤ → Bool) (b : Box)

def tallies : Tallies :=
  pass (span b.x.lo b.x.hi) (span b.y.lo b.y.hi) fun x y =>
    let fx := b.x.hi - (x - b.x.lo)
    let fy := b.y.hi - (y - b.y.lo)
    let here := ink x y
    (overlap here (ink fx y), overlap here (ink x fy), overlap here (ink fx fy),
      halves here b.x x, halves here b.y y)

def cell (dx dy r c : ℤ) : Bool :=
  let x := c - dx
  let y := r - dy
  decide (0 ≤ x ∧ x < size b.x) && decide (0 ≤ y ∧ y < size b.y) &&
    ink (b.x.lo + x) (b.y.lo + y)

def side : ℤ := max (size b.x) (size b.y)

def diagonalTallies (dx dy : ℤ) : (ℕ × ℕ) × (ℕ × ℕ) :=
  pass (span 0 (side b - 1)) (span 0 (side b - 1)) fun c r =>
    let here := cell ink b dx dy r c
    (overlap here (cell ink b dx dy c r),
      overlap here (cell ink b dx dy (side b - 1 - c) (side b - 1 - r)))

def placedMirrors (dx dy : ℤ) : Bool :=
  agrees (diagonalTallies ink b dx dy).1 || agrees (diagonalTallies ink b dx dy).2

def mirrorsAboutADiagonal : Bool :=
  placedMirrors ink b 0 0 ||
    placedMirrors ink b (side b - size b.x) (side b - size b.y)

/-- The coordinate on one axis: whether this axis mirrors, whether the other one does or a
diagonal, and the weights of the two ends. -/
def axisGuess (e : Extent) (own other : Bool) (ends : ℕ × ℕ) : ℤ :=
  if own then centre e else if other then (if ends.1 < ends.2 then e.hi else e.lo) else e.lo

def guessFrom (diagonal : Bool) (t : Tallies) : ℤ × ℤ :=
  match t with
  | (across, down, turned, sides, ends) =>
    if agrees turned then (centre b.x, centre b.y)
    else
      (axisGuess b.x (agrees across) (agrees down || diagonal) sides,
        axisGuess b.y (agrees down) (agrees across || diagonal) ends)

def guess : ℤ × ℤ :=
  if size b.x * 2 < size b.y ∨ size b.y * 2 < size b.x then
    (centre b.x, centre b.y)
  else guessFrom b (mirrorsAboutADiagonal ink b) (tallies ink b)

def inferHotspot (rgba : List UInt8) (w h : ℕ) : ℤ × ℤ :=
  let b := boxOf rgba w h
  if b.x.hi < b.x.lo ∨ b.y.hi < b.y.lo then (0, 0) else guess (isOpaque rgba w) b

example : inferHotspot [0, 0, 0, 0, 9, 9, 9, 255] 2 1 = (1, 0) := by decide

def Within (x y : ℤ) : Prop := (b.x.lo ≤ x ∧ x ≤ b.x.hi) ∧ (b.y.lo ≤ y ∧ y ≤ b.y.hi)

variable (e : Extent) (d : ℤ)

theorem guess_congr (ink' : ℤ → ℤ → Bool) (h : ∀ x y, Within b x y → ink' x y = ink x y) :
    guess ink' b = guess ink b := by
  have htallies : tallies ink' b = tallies ink b := by
    refine pass_congr _ _ _ _ fun x hx y hy => ?_
    obtain ⟨hxlo, hxhi⟩ := (mem_span ..).mp hx
    obtain ⟨hylo, hyhi⟩ := (mem_span ..).mp hy
    have hhere := h x y ⟨⟨hxlo, hxhi⟩, hylo, hyhi⟩
    have hacross := h (b.x.hi - (x - b.x.lo)) y ⟨⟨by omega, by omega⟩, hylo, hyhi⟩
    have hdown := h x (b.y.hi - (y - b.y.lo)) ⟨⟨hxlo, hxhi⟩, by omega, by omega⟩
    have hturned := h (b.x.hi - (x - b.x.lo)) (b.y.hi - (y - b.y.lo))
      ⟨⟨by omega, by omega⟩, by omega, by omega⟩
    simp only [hhere, hacross, hdown, hturned]
  have hcell : cell ink' b = cell ink b := by
    funext dx dy r c
    simp only [cell]
    by_cases hin : (0 ≤ c - dx ∧ c - dx < size b.x) ∧ (0 ≤ r - dy ∧ r - dy < size b.y)
    · rw [size, size] at hin
      rw [h _ _ ⟨⟨by omega, by omega⟩, by omega, by omega⟩]
    · rcases not_and_or.mp hin with hout | hout <;>
        simp only [decide_eq_false hout, Bool.false_and, Bool.and_false]
  have hdiagonal : mirrorsAboutADiagonal ink' b = mirrorsAboutADiagonal ink b := by
    simp only [mirrorsAboutADiagonal, placedMirrors, diagonalTallies, hcell]
  rw [guess, guess, htallies, hdiagonal]

def Box.shift (dx dy : ℤ) : Box := ⟨b.x.shift dx, b.y.shift dy⟩

theorem size_shift : size (e.shift d) = size e := by
  simp only [size, Extent.shift_lo, Extent.shift_hi]
  omega

theorem centre_shift (he : 0 ≤ e.lo + e.hi) (hd : 0 ≤ d) : centre (e.shift d) = centre e + d := by
  simp only [centre, Extent.shift_lo, Extent.shift_hi]
  rw [Int.tdiv_eq_ediv_of_nonneg he, Int.tdiv_eq_ediv_of_nonneg (by omega)]
  omega

theorem halves_shift (here : Bool) (e : Extent) (v d : ℤ) :
    halves here (e.shift d) (v + d) = halves here e v := by
  have hlo : v + d - (e.lo + d) = v - e.lo := by omega
  have hhi : e.hi + d - (v + d) = e.hi - v := by omega
  simp only [halves, size_shift, Extent.shift_lo, Extent.shift_hi, hlo, hhi]

theorem axisGuess_shift (own other : Bool) (ends : ℕ × ℕ) (he : 0 ≤ e.lo + e.hi) (hd : 0 ≤ d) :
    axisGuess (e.shift d) own other ends = axisGuess e own other ends + d := by
  simp only [axisGuess, centre_shift e d he hd, Extent.shift_lo, Extent.shift_hi]
  split_ifs <;> rfl

theorem tallies_shift (dx dy : ℤ) :
    tallies (fun x y => ink (x - dx) (y - dy)) (b.shift dx dy) = tallies ink b := by
  simp only [tallies, Box.shift, Extent.shift_lo, Extent.shift_hi]
  rw [span_add, span_add, pass_map]
  refine pass_congr _ _ _ _ fun x _ y _ => ?_
  have hfx : b.x.hi + dx - (x + dx - (b.x.lo + dx)) - dx = b.x.hi - (x - b.x.lo) := by omega
  have hfy : b.y.hi + dy - (y + dy - (b.y.lo + dy)) - dy = b.y.hi - (y - b.y.lo) := by omega
  simp only [hfx, hfy, add_sub_cancel_right, halves_shift]

theorem guess_shift (dx dy : ℤ) (hx : 0 ≤ b.x.lo + b.x.hi) (hy : 0 ≤ b.y.lo + b.y.hi)
    (hdx : 0 ≤ dx) (hdy : 0 ≤ dy) :
    guess (fun x y => ink (x - dx) (y - dy)) (b.shift dx dy) =
      ((guess ink b).1 + dx, (guess ink b).2 + dy) := by
  have hcell : cell (fun x y => ink (x - dx) (y - dy)) (b.shift dx dy) = cell ink b := by
    funext dx' dy' r c
    simp only [cell, Box.shift, size_shift, Extent.shift_lo]
    congr 2 <;> omega
  have hdiagonal : mirrorsAboutADiagonal (fun x y => ink (x - dx) (y - dy)) (b.shift dx dy) =
      mirrorsAboutADiagonal ink b := by
    have hwidth : size (b.shift dx dy).x = size b.x := size_shift ..
    have hheight : size (b.shift dx dy).y = size b.y := size_shift ..
    simp only [mirrorsAboutADiagonal, placedMirrors, diagonalTallies, hcell, side, hwidth, hheight]
  rw [guess, guess, tallies_shift, hdiagonal]
  obtain ⟨across, down, turned, sides, ends⟩ := tallies ink b
  simp only [Box.shift, size_shift, guessFrom, axisGuess_shift _ _ _ _ _ hx hdx,
    axisGuess_shift _ _ _ _ _ hy hdy, centre_shift _ _ hx hdx, centre_shift _ _ hy hdy]
  split_ifs <;> rfl

def Box.swap : Box := ⟨b.y, b.x⟩

def swapTallies : Tallies →+ Tallies where
  toFun t := (t.2.1, t.1, t.2.2.1, t.2.2.2.2, t.2.2.2.1)
  map_zero' := rfl
  map_add' _ _ := rfl

theorem tallies_swap : tallies (fun x y => ink y x) b.swap = swapTallies (tallies ink b) := by
  rw [tallies, tallies, map_pass, ← pass_swap]
  rfl

theorem cell_swap (dx dy r c : ℤ) :
    cell (fun x y => ink y x) b.swap dx dy r c = cell ink b dy dx c r := by
  rw [cell, Bool.and_comm (decide _)]
  rfl

theorem placedMirrors_swap (dx dy : ℤ) :
    placedMirrors (fun x y => ink y x) b.swap dx dy = placedMirrors ink b dy dx := by
  have hside : side b.swap = side b := max_comm ..
  have htallies : diagonalTallies (fun x y => ink y x) b.swap dx dy =
      diagonalTallies ink b dy dx := by
    simp only [diagonalTallies, cell_swap, hside]
    exact pass_swap ..
  rw [placedMirrors, placedMirrors, htallies]

theorem swapTallies_mk (across down turned sides ends : ℕ × ℕ) :
    swapTallies (across, down, turned, sides, ends) = (down, across, turned, ends, sides) := rfl

theorem guessFrom_swap (diagonal : Bool) (t : Tallies) :
    guessFrom b.swap diagonal (swapTallies t) = (guessFrom b diagonal t).swap := by
  obtain ⟨across, down, turned, sides, ends⟩ := t
  by_cases hturned : agrees turned = true <;> simp [guessFrom, swapTallies_mk, Box.swap, hturned]

theorem guess_swap : guess (fun x y => ink y x) b.swap = (guess ink b).swap := by
  have hdiagonal : mirrorsAboutADiagonal (fun x y => ink y x) b.swap =
      mirrorsAboutADiagonal ink b := by
    have hside : side b.swap = side b := max_comm ..
    simp only [mirrorsAboutADiagonal, placedMirrors_swap, hside]
    rfl
  rw [guess, guess, hdiagonal, tallies_swap, guessFrom_swap]
  split_ifs with hswap hlong hlong
  · rfl
  · exact absurd (Or.symm hswap) hlong
  · exact absurd (Or.symm hlong) hswap
  · rfl

theorem centre_within (hlo : 0 ≤ e.lo) (hle : e.lo ≤ e.hi) : e.lo ≤ centre e ∧ centre e ≤ e.hi := by
  rw [centre, Int.tdiv_eq_ediv_of_nonneg (by omega)]
  omega

theorem axisGuess_within (own other : Bool) (ends : ℕ × ℕ) (hlo : 0 ≤ e.lo) (hle : e.lo ≤ e.hi) :
    e.lo ≤ axisGuess e own other ends ∧ axisGuess e own other ends ≤ e.hi := by
  rw [axisGuess]
  split_ifs
  · exact centre_within e hlo hle
  · exact ⟨hle, le_rfl⟩
  · exact ⟨le_rfl, hle⟩
  · exact ⟨le_rfl, hle⟩

theorem guess_within (hx : 0 ≤ b.x.lo) (hy : 0 ≤ b.y.lo) (hxle : b.x.lo ≤ b.x.hi)
    (hyle : b.y.lo ≤ b.y.hi) : Within b (guess ink b).1 (guess ink b).2 := by
  have hcentre : Within b (centre b.x) (centre b.y) :=
    ⟨centre_within b.x hx hxle, centre_within b.y hy hyle⟩
  rw [guess]
  split_ifs
  · exact hcentre
  · rw [guessFrom]
    split_ifs
    · exact hcentre
    · exact ⟨axisGuess_within b.x _ _ _ hx hxle, axisGuess_within b.y _ _ _ hy hyle⟩

/-- The opaque pixels of a bitmap of this size, whose buffer may be shorter. -/
def Ink (rgba : List UInt8) (w h : ℕ) (x y : ℤ) : Prop :=
  ((0 ≤ x ∧ x < w) ∧ (0 ≤ y ∧ y < h)) ∧ isOpaque rgba w x y = true

instance decidableInk (rgba : List UInt8) (w h : ℕ) (x y : ℤ) : Decidable (Ink rgba w h x y) :=
  inferInstanceAs (Decidable (_ ∧ _))

def IsBox (P : ℤ → ℤ → Prop) (b : Box) : Prop :=
  Extent.Hull {x | ∃ y, P x y} b.x ∧ Extent.Hull {y | ∃ x, P x y} b.y

variable {b} in
theorem IsBox.unique {P : ℤ → ℤ → Prop} {b' : Box} (hb : IsBox P b) (hb' : IsBox P b') :
    b = b' := by
  obtain ⟨x, y⟩ := b
  obtain ⟨x', y'⟩ := b'
  obtain rfl : x = x' := hb.1.unique hb'.1
  obtain rfl : y = y' := hb.2.unique hb'.2
  rfl

section Bitmap

variable (rgba : List UInt8) (w h : ℕ)

theorem lt_of_opaqueAt (i : ℕ) (hi : opaqueAt rgba i = true) : i < rgba.length / 4 := by
  rw [opaqueAt] at hi
  split at hi
  · rename_i a heq
    obtain ⟨hlt, -⟩ := List.getElem?_eq_some_iff.mp heq
    omega
  · cases hi

/-- The pass over the chunks meets exactly the opaque pixels. -/
theorem ink_iff (x y : ℤ) :
    Ink rgba w h x y ↔ ∃ i ∈ List.range (min (rgba.length / 4) (w * h)),
      opaqueAt rgba i = true ∧ ((i % w : ℕ) : ℤ) = x ∧ ((i / w : ℕ) : ℤ) = y := by
  constructor
  · rintro ⟨⟨⟨hx, hxw⟩, hy, hyh⟩, hop⟩
    lift x to ℕ using hx
    lift y to ℕ using hy
    have hxw : x < w := by omega
    have hyh : y < h := by omega
    have hlt : y * w + x < w * h := by
      calc y * w + x < (y + 1) * w := by rw [Nat.succ_mul]; omega
        _ ≤ h * w := Nat.mul_le_mul_right w hyh
        _ = w * h := Nat.mul_comm h w
    refine ⟨y * w + x, ?_, hop, ?_, ?_⟩
    · exact List.mem_range.mpr (lt_min (lt_of_opaqueAt rgba _ hop) hlt)
    · rw [Nat.mul_add_mod', Nat.mod_eq_of_lt hxw]
    · rw [Nat.mul_comm, Nat.mul_add_div (by omega), Nat.div_eq_of_lt hxw, Nat.add_zero]
  · rintro ⟨i, hi, hop, rfl, rfl⟩
    have hlt : i < w * h := (lt_min_iff.mp (List.mem_range.mp hi)).2
    have hw : 0 < w := Nat.pos_of_mul_pos_right (by omega : 0 < w * h)
    have hx := Nat.mod_lt i hw
    have hy := Nat.div_lt_of_lt_mul hlt
    refine ⟨⟨⟨Int.natCast_nonneg _, by omega⟩, Int.natCast_nonneg _, by exact_mod_cast hy⟩, ?_⟩
    rw [isOpaque, Int.toNat_natCast, Int.toNat_natCast, Nat.div_add_mod']
    exact hop

theorem boxOf_x : (boxOf rgba w h).x = Extent.grown (opaqueAt rgba) (fun i => ((i % w : ℕ) : ℤ))
    (List.range (min (rgba.length / 4) (w * h))) ⟨asI32 w, -1⟩ :=
  (List.foldl_hom Box.x fun b i => by cases opaqueAt rgba i <;> rfl).symm

theorem boxOf_y : (boxOf rgba w h).y = Extent.grown (opaqueAt rgba) (fun i => ((i / w : ℕ) : ℤ))
    (List.range (min (rgba.length / 4) (w * h))) ⟨asI32 h, -1⟩ :=
  (List.foldl_hom Box.y fun b i => by cases opaqueAt rgba i <;> rfl).symm

theorem asI32_eq (n : ℕ) (hn : n < 1073741824) : asI32 n = n :=
  Int.bmod_eq_of_le (by omega) (by omega)

theorem IsBox.bounds (hb : IsBox (Ink rgba w h) b) :
    (0 ≤ b.x.lo ∧ b.x.lo ≤ b.x.hi ∧ b.x.hi < w) ∧ 0 ≤ b.y.lo ∧ b.y.lo ≤ b.y.hi ∧ b.y.hi < h := by
  obtain ⟨⟨⟨_, ⟨⟨hxlo, -⟩, -⟩, -⟩, hxleast⟩, ⟨_, ⟨⟨-, hxhi⟩, -⟩, -⟩, -⟩ := hb.1
  obtain ⟨⟨⟨_, ⟨-, ⟨hylo, -⟩⟩, -⟩, hyleast⟩, ⟨_, ⟨-, ⟨-, hyhi⟩⟩, -⟩, -⟩ := hb.2
  exact ⟨⟨hxlo, hxleast hb.1.2.1, hxhi⟩, hylo, hyleast hb.2.2.1, hyhi⟩

variable (hw : w < 1073741824)

include hw

/-- Without ink the loop leaves the box as it started. -/
theorem inferHotspot_blank (hnone : ∀ x y, ¬Ink rgba w h x y) : inferHotspot rgba w h = (0, 0) := by
  have hblank : ∀ i ∈ List.range (min (rgba.length / 4) (w * h)), opaqueAt rgba i = false :=
    fun i hi => Bool.eq_false_iff.mpr fun hop =>
      hnone _ _ ((ink_iff rgba w h _ _).mpr ⟨i, hi, hop, rfl, rfl⟩)
  have hx : (boxOf rgba w h).x = ⟨w, -1⟩ := by
    rw [boxOf_x, Extent.grown_none _ _ _ _ hblank, asI32_eq w hw]
  have hempty : (boxOf rgba w h).x.hi < (boxOf rgba w h).x.lo := by
    rw [hx]
    exact lt_of_lt_of_le neg_one_lt_zero (Int.natCast_nonneg w)
  rw [inferHotspot, if_pos (Or.inl hempty)]

variable (hh : h < 1073741824)

include hh

theorem isBox_boxOf (hsome : ∃ x y, Ink rgba w h x y) : IsBox (Ink rgba w h) (boxOf rgba w h) := by
  have hmeets : ∃ i ∈ List.range (min (rgba.length / 4) (w * h)), opaqueAt rgba i = true := by
    obtain ⟨x, y, hink⟩ := hsome
    obtain ⟨i, hi, hop, -⟩ := (ink_iff rgba w h x y).mp hink
    exact ⟨i, hi, hop⟩
  have hink : ∀ i ∈ List.range (min (rgba.length / 4) (w * h)), opaqueAt rgba i = true →
      Ink rgba w h (i % w : ℕ) (i / w : ℕ) :=
    fun i hi hop => (ink_iff rgba w h _ _).mpr ⟨i, hi, hop, rfl, rfl⟩
  constructor
  · rw [boxOf_x, asI32_eq w hw]
    convert Extent.hull_grown _ _ _ _ (fun i hi hop => ?_) hmeets using 1
    · ext x
      simp only [Set.mem_ofPred_eq, ink_iff]
      exact ⟨fun ⟨y, i, hi, hop, hx, _⟩ => ⟨i, hi, hop, hx⟩,
        fun ⟨i, hi, hop, hx⟩ => ⟨_, i, hi, hop, hx, rfl⟩⟩
    · obtain ⟨⟨hx, -⟩, -⟩ := hink i hi hop
      exact ⟨lt_of_lt_of_le neg_one_lt_zero hx.1, hx.2⟩
  · rw [boxOf_y, asI32_eq h hh]
    convert Extent.hull_grown _ _ _ _ (fun i hi hop => ?_) hmeets using 1
    · ext y
      simp only [Set.mem_ofPred_eq, ink_iff]
      exact ⟨fun ⟨x, i, hi, hop, _, hy⟩ => ⟨i, hi, hop, hy⟩,
        fun ⟨i, hi, hop, hy⟩ => ⟨_, i, hi, hop, rfl, hy⟩⟩
    · obtain ⟨⟨-, hy⟩, -⟩ := hink i hi hop
      exact ⟨lt_of_lt_of_le neg_one_lt_zero hy.1, hy.2⟩

theorem inferHotspot_eq (hsome : ∃ x y, Ink rgba w h x y) :
    inferHotspot rgba w h = guess (fun x y => decide (Ink rgba w h x y)) (boxOf rgba w h) := by
  obtain ⟨⟨hxlo, hxle, hxhi⟩, hylo, hyle, hyhi⟩ :=
    IsBox.bounds _ rgba w h (isBox_boxOf rgba w h hw hh hsome)
  rw [inferHotspot, if_neg (by omega)]
  refine guess_congr _ _ _ fun x y ⟨hx, hy⟩ => ?_
  have hin : (0 ≤ x ∧ x < w) ∧ (0 ≤ y ∧ y < h) := ⟨⟨by omega, by omega⟩, by omega, by omega⟩
  simp only [Ink, hin, true_and, Bool.decide_eq_true]

end Bitmap

/-- A click point in the least box of the ink. -/
def OnBox (P : ℤ → ℤ → Prop) (p : ℤ × ℤ) : Prop := ∃ b, IsBox P b ∧ Within b p.1 p.2

/-- The second bitmap is the first one placed at this offset, with nothing opaque around it. -/
structure Placed (rgba : List UInt8) (w h : ℕ) (rgba' : List UInt8) (w' h' dx dy : ℕ) : Prop where
  width : dx + w ≤ w'
  height : dy + h ≤ h'
  ink : ∀ x y, Ink rgba' w' h' x y ↔ Ink rgba w h (x - dx) (y - dy)

def Transposed (rgba : List UInt8) (w h : ℕ) (rgba' : List UInt8) : Prop :=
  ∀ x y, Ink rgba' h w x y ↔ Ink rgba w h y x

theorem IsBox.shift {P Q : ℤ → ℤ → Prop} (dx dy : ℤ) (hb : IsBox P b)
    (hQ : ∀ x y, Q x y ↔ P (x - dx) (y - dy)) : IsBox Q (b.shift dx dy) := by
  refine ⟨hb.1.shift dx fun x => ?_, hb.2.shift dy fun y => ?_⟩
  · simp only [Set.mem_ofPred_eq, hQ]
    exact ⟨fun ⟨y, hy⟩ => ⟨y - dy, hy⟩, fun ⟨y, hy⟩ => ⟨y + dy, by rwa [add_sub_cancel_right]⟩⟩
  · simp only [Set.mem_ofPred_eq, hQ]
    exact ⟨fun ⟨x, hx⟩ => ⟨x - dx, hx⟩, fun ⟨x, hx⟩ => ⟨x + dx, by rwa [add_sub_cancel_right]⟩⟩

theorem inferHotspot_onBox (rgba : List UInt8) (w h : ℕ) (hw : w < 1073741824)
    (hh : h < 1073741824) (hsome : ∃ x y, Ink rgba w h x y) :
    OnBox (Ink rgba w h) (inferHotspot rgba w h) := by
  have hbox := isBox_boxOf rgba w h hw hh hsome
  obtain ⟨⟨hxlo, hxle, -⟩, hylo, hyle, -⟩ := IsBox.bounds _ rgba w h hbox
  rw [inferHotspot_eq rgba w h hw hh hsome]
  exact ⟨_, hbox, guess_within _ _ hxlo hylo hxle hyle⟩

theorem inferHotspot_placed (rgba rgba' : List UInt8) (w h w' h' dx dy : ℕ)
    (hw : w' < 1073741824) (hh : h' < 1073741824) (hplaced : Placed rgba w h rgba' w' h' dx dy)
    (hsome : ∃ x y, Ink rgba w h x y) :
    inferHotspot rgba' w' h' =
      ((inferHotspot rgba w h).1 + dx, (inferHotspot rgba w h).2 + dy) := by
  obtain ⟨hwidth, hheight, hink⟩ := hplaced
  have hsome' : ∃ x y, Ink rgba' w' h' x y := by
    obtain ⟨x, y, hxy⟩ := hsome
    exact ⟨x + dx, y + dy, (hink _ _).mpr (by simpa using hxy)⟩
  have hbox := isBox_boxOf rgba w h (by omega) (by omega) hsome
  obtain ⟨⟨hxlo, hxle, -⟩, hylo, hyle, -⟩ := IsBox.bounds _ rgba w h hbox
  have hmoved := (isBox_boxOf rgba' w' h' hw hh hsome').unique (hbox.shift _ dx dy hink)
  rw [inferHotspot_eq rgba' w' h' hw hh hsome', inferHotspot_eq rgba w h (by omega) (by omega) hsome,
    hmoved, ← guess_shift _ _ dx dy (by omega) (by omega) (by omega) (by omega)]
  congr 1
  funext x y
  exact decide_eq_decide.mpr (hink x y)

theorem inferHotspot_transposed (rgba rgba' : List UInt8) (w h : ℕ) (hw : w < 1073741824)
    (hh : h < 1073741824) (hink : Transposed rgba w h rgba') :
    inferHotspot rgba' h w = (inferHotspot rgba w h).swap := by
  by_cases hsome : ∃ x y, Ink rgba w h x y
  · have hsome' : ∃ x y, Ink rgba' h w x y := by
      obtain ⟨x, y, hxy⟩ := hsome
      exact ⟨y, x, (hink y x).mpr hxy⟩
    have hbox := isBox_boxOf rgba w h hw hh hsome
    have hswapped : IsBox (Ink rgba' h w) (boxOf rgba w h).swap := by
      have hflip : Ink rgba' h w = fun x y => Ink rgba w h y x := by
        funext x y
        exact propext (hink x y)
      rw [hflip]
      exact ⟨hbox.2, hbox.1⟩
    have hturned := (isBox_boxOf rgba' h w hh hw hsome').unique hswapped
    rw [inferHotspot_eq rgba' h w hh hw hsome', inferHotspot_eq rgba w h hw hh hsome, hturned,
      ← guess_swap]
    congr 1
    funext x y
    exact decide_eq_decide.mpr (hink x y)
  · have hnone : ∀ x y, ¬Ink rgba w h x y := fun x y hxy => hsome ⟨x, y, hxy⟩
    rw [inferHotspot_blank rgba w h hw hnone,
      inferHotspot_blank rgba' h w hh fun x y hxy => hnone y x ((hink x y).mp hxy)]
    rfl

/-- A blank bitmap has its click point in the corner, any other one in the box of its ink. An
inked sprite takes the click point with it where it is placed, and a transposed one transposes
it. -/
theorem hotspot_laws (rgba : List UInt8) (w h : ℕ) (hw : w < 1073741824) (hh : h < 1073741824) :
    ((∀ x y, ¬Ink rgba w h x y) → inferHotspot rgba w h = (0, 0)) ∧
    ((∃ x y, Ink rgba w h x y) →
      OnBox (Ink rgba w h) (inferHotspot rgba w h) ∧
      ∀ (rgba' : List UInt8) (w' h' dx dy : ℕ), w' < 1073741824 → h' < 1073741824 →
        Placed rgba w h rgba' w' h' dx dy →
        inferHotspot rgba' w' h' =
          ((inferHotspot rgba w h).1 + dx, (inferHotspot rgba w h).2 + dy)) ∧
    ∀ rgba', Transposed rgba w h rgba' →
      inferHotspot rgba' h w = (inferHotspot rgba w h).swap := by
  refine ⟨inferHotspot_blank rgba w h hw, fun hsome => ⟨?_, ?_⟩, ?_⟩
  · exact inferHotspot_onBox rgba w h hw hh hsome
  · intro rgba' w' h' dx dy hw' hh' hplaced
    exact inferHotspot_placed rgba rgba' w h w' h' dx dy hw' hh' hplaced hsome
  · intro rgba' hink
    exact inferHotspot_transposed rgba rgba' w h hw hh hink

/-- A dot and a blank pixel to its left. -/
theorem hotspot_laws_dot :
    inferHotspot [0, 0, 0, 0, 0, 0, 0, 255] 2 1 =
      ((inferHotspot [0, 0, 0, 255] 1 1).1 + (1 : ℕ),
        (inferHotspot [0, 0, 0, 255] 1 1).2 + (0 : ℕ)) ∧
    inferHotspot [0, 0, 0, 255] 1 1 = (inferHotspot [0, 0, 0, 255] 1 1).swap ∧
    inferHotspot [] 1 1 = (0, 0) := by
  have hink : ∀ x y, Ink [0, 0, 0, 0, 0, 0, 0, 255] 2 1 x y ↔
      Ink [0, 0, 0, 255] 1 1 (x - (1 : ℕ)) (y - (0 : ℕ)) := by
    intro x y
    constructor
    · rintro ⟨⟨⟨hx, hx'⟩, hy, hy'⟩, hop⟩
      obtain rfl : y = 0 := by omega
      obtain rfl | rfl : x = 0 ∨ x = 1 := by omega
      · exact absurd hop (by decide)
      · decide
    · rintro ⟨⟨⟨hx, hx'⟩, hy, hy'⟩, -⟩
      obtain rfl : y = 0 := by omega
      obtain rfl : x = 1 := by omega
      decide
  have hsame : Transposed [0, 0, 0, 255] 1 1 [0, 0, 0, 255] := by
    intro x y
    constructor <;>
    · rintro ⟨⟨⟨hx, hx'⟩, hy, hy'⟩, -⟩
      obtain rfl : y = 0 := by omega
      obtain rfl : x = 0 := by omega
      decide
  obtain ⟨-, hinked, hturned⟩ := hotspot_laws [0, 0, 0, 255] 1 1 (by decide) (by decide)
  have hblank := (hotspot_laws [] 1 1 (by decide) (by decide)).1 fun x y hxy =>
    absurd hxy.2 (by simp [isOpaque, opaqueAt])
  exact ⟨(hinked ⟨0, 0, by decide⟩).2 _ 2 1 1 0 (by decide) (by decide)
    ⟨by decide, by decide, hink⟩, hturned _ hsame, hblank⟩

/-- A blank sprite keeps its click point where it is placed, and a width that does not fit the
32-bit coordinates puts the click point off the box. -/
theorem blank_and_wide_bitmaps :
    (Placed [0, 0, 0, 0] 1 1 [0, 0, 0, 0, 0, 0, 0, 0] 2 1 1 0 ∧
      inferHotspot [0, 0, 0, 0, 0, 0, 0, 0] 2 1 ≠
        ((inferHotspot [0, 0, 0, 0] 1 1).1 + 1, (inferHotspot [0, 0, 0, 0] 1 1).2)) ∧
    Ink (List.replicate 23 0 ++ [255]) 4294967297 1 5 0 ∧
    ¬OnBox (Ink (List.replicate 23 0 ++ [255]) 4294967297 1)
      (inferHotspot (List.replicate 23 0 ++ [255]) 4294967297 1) := by
  refine ⟨⟨⟨by decide, by decide, ?_⟩, by decide⟩, by decide, ?_⟩
  · intro x y
    constructor
    · rintro ⟨⟨⟨hx, hx'⟩, hy, hy'⟩, hop⟩
      obtain rfl : y = 0 := by omega
      obtain rfl | rfl : x = 0 ∨ x = 1 := by omega
      · exact absurd hop (by decide)
      · exact absurd hop (by decide)
    · rintro ⟨⟨⟨hx, hx'⟩, hy, hy'⟩, hop⟩
      obtain rfl : y = 0 := by omega
      obtain rfl : x = 1 := by omega
      exact absurd hop (by decide)
  · have hguess : inferHotspot (List.replicate 23 0 ++ [255]) 4294967297 1 = (3, 0) := by decide
    rw [hguess]
    rintro ⟨b, ⟨⟨⟨⟨y, ⟨⟨hx, -⟩, hy, hy'⟩, hop⟩, -⟩, -⟩, -⟩, ⟨hlo, -⟩, -⟩
    have hlo' : b.x.lo ≤ 3 := hlo
    obtain rfl : y = 0 := by omega
    obtain hlo | hlo | hlo | hlo : b.x.lo = 0 ∨ b.x.lo = 1 ∨ b.x.lo = 2 ∨ b.x.lo = 3 := by omega
    all_goals
      rw [hlo] at hop
      exact absurd hop (by decide)

end ClantoDesk.HotspotGuess
