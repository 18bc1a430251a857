import ClantoDesk.Painting
import ClantoDesk.Proportion

/-!
The frames of the virtual camera, libs/clanto-vcam/src/frame.rs. A writer copies a frame into
memory that is shared with the camera server of the system, under a sequence number that is odd
meanwhile. A reader tries four times and fits the frame to the size of the application. The writer
may be any program of the user, so that each value a reader loads is a value of its own. An index
out of range panics, which is `none`.
-/
namespace ClantoDesk.VirtualCamera

open Painting Proportion

def maxLong : ℕ := 1920

def maxShort : ℕ := 1080

def capacity : ℕ := maxLong * maxShort * 3 / 2

def SizeOk (w h : ℕ) : Prop := 0 < w ∧ 0 < h ∧ max w h ≤ maxLong ∧ min w h ≤ maxShort

instance decidableSizeOk (w h : ℕ) : Decidable (SizeOk w h) :=
  inferInstanceAs (Decidable (_ ∧ _ ∧ _ ∧ _))

def nv12Len (width height : ℕ) : ℕ := width * height * 3 / 2

theorem nv12Len_le_capacity (w h : ℕ) (hsize : SizeOk w h) : nv12Len w h ≤ capacity := by
  obtain ⟨-, -, hlong, hshort⟩ := hsize
  have harea : w * h ≤ maxLong * maxShort := by
    rcases le_total w h with hwh | hwh
    · rw [max_eq_right hwh, min_eq_left hwh] at *
      rw [Nat.mul_comm w h]
      exact Nat.mul_le_mul hlong hshort
    · rw [max_eq_left hwh, min_eq_right hwh] at *
      exact Nat.mul_le_mul hlong hshort
  unfold nv12Len capacity
  omega

/-- The shared memory: its header, and the bytes behind the header. -/
structure View where
  magic : UInt32
  version : UInt32
  width : UInt32
  height : UInt32
  seq : UInt64
  active : UInt32
  data : List UInt8
  data_length : data.length = capacity

namespace View

def init (self : View) : View := { self with magic := 0x4D414356, version := 1, active := 0 }

def valid (self : View) : Bool := self.magic == 0x4D414356 && self.version == 1

/-- `none` when the frame is refused. -/
def write (self : View) (width height : ℕ) (nv12 : List UInt8) : Option View :=
  if h : (SizeOk width height ∧ width % 2 = 0 ∧ height % 2 = 0) ∧
      nv12.length = nv12Len width height then
    some { self with
      width := UInt32.ofNat width
      height := UInt32.ofNat height
      seq := (self.seq ||| 1) + 1
      active := 1
      data := nv12 ++ self.data.drop nv12.length
      data_length := by
        have hle := nv12Len_le_capacity width height h.1.1
        rw [List.length_append, List.length_drop, self.data_length, h.2]
        omega }
  else none

end View

/-- What a reader loads in one try. -/
structure Attempt where
  before : UInt64
  width : UInt32
  height : UInt32
  data : List UInt8
  data_length : data.length = capacity
  after : UInt64

structure Frame where
  width : ℕ
  height : ℕ
  seq : UInt64
  bytes : List UInt8

def readAttempts : List Attempt → Option Frame
  | [] => none
  | a :: rest =>
    if a.before = 0 ∨ a.before % 2 = 1 then readAttempts rest
    else if ¬SizeOk a.width.toNat a.height.toNat then none
    else if a.after = a.before then
      some ⟨a.width.toNat, a.height.toNat, a.before,
        a.data.take (nv12Len a.width.toNat a.height.toNat)⟩
    else readAttempts rest

/-- `View::read` for what it loads. -/
def readLoaded (valid active : Bool) (attempts : List Attempt) : Option Frame :=
  if valid && active then readAttempts (attempts.take 4) else none

namespace View

def attempt (self : View) : Attempt :=
  ⟨self.seq, self.width, self.height, self.data, self.data_length, self.seq⟩

/-- `View::read` while nobody writes. -/
def read (self : View) : Option Frame :=
  readLoaded self.valid (self.active != 0) (List.replicate 4 self.attempt)

end View

def black (dst : List UInt8) (width height : ℕ) : Option (List UInt8) :=
  let y := width * height
  if nv12Len width height ≤ dst.length then
    some (List.replicate y 16 ++ List.replicate (nv12Len width height - y) 128 ++
      dst.drop (nv12Len width height))
  else none

def area (sw sh dw dh : ℕ) : ℕ × ℕ :=
  let size := if sh * dw < sw * dh then (dw, sh * dw / sw) else (sw * dh / sh, dh)
  (min (max (size.1 / 2 * 2) 2) dw, min (max (size.2 / 2 * 2) 2) dh)

def offset (d t : ℕ) : ℕ := (d - t) / 2 / 2 * 2

def slice (xs : List UInt8) (a b : ℕ) : Option (List UInt8) :=
  if a ≤ b ∧ b ≤ xs.length then some ((xs.take b).drop a) else none

def fitLuma (srcY : List UInt8) (sw sh tw th dw ox oy : ℕ) : List UInt8 → Option (List UInt8) :=
  steps (fun y dstY => do
    let sy := part y th sh
    let srow ← slice srcY (sy * sw) ((sy + 1) * sw)
    if dstY.length < (oy + y) * dw + ox + tw then none
    steps (fun x dstY => do
      let v ← srow[part x tw sw]?
      put ((oy + y) * dw + ox + x) v dstY) tw dstY) th

def fitChroma (srcUv : List UInt8) (sw sh tw th dw ox oy : ℕ) :
    List UInt8 → Option (List UInt8) :=
  steps (fun y dstUv =>
    steps (fun x dstUv => do
      let s := part y (th / 2) (sh / 2) * sw + part x (tw / 2) (sw / 2) * 2
      let d := (oy / 2 + y) * dw + ox + x * 2
      let u ← srcUv[s]?
      let dstUv ← put d u dstUv
      let v ← srcUv[s + 1]?
      put (d + 1) v dstUv) (tw / 2) dstUv) (th / 2)

def fit (src : List UInt8) (sw sh : ℕ) (dst : List UInt8) (dw dh : ℕ) : Option (List UInt8) := do
  let dst ← black dst dw dh
  if sw = 0 ∨ sh = 0 ∨ dw = 0 ∨ dh = 0 then return dst
  let (tw, th) := area sw sh dw dh
  let ox := offset dw tw
  let oy := offset dh th
  if src.length < sw * sh ∨ dst.length < dw * dh then none
  let dstY ← fitLuma (src.take (sw * sh)) sw sh tw th dw ox oy (dst.take (dw * dh))
  let dstUv ← fitChroma (src.drop (sw * sh)) sw sh tw th dw ox oy (dst.drop (dw * dh))
  return dstY ++ dstUv

/-- The sizes that the media source offers. -/
def formats : List (ℕ × ℕ) := [(1280, 720), (640, 480)]

theorem or_one (n : ℕ) : n ||| 1 = n / 2 * 2 + 1 := by
  have hdiv : (n ||| 1) / 2 = n / 2 := by
    rw [Nat.or_div_two]
    simp
  have hmod : (n ||| 1) % 2 = 1 := by
    rw [Nat.or_mod_two_eq_one]
    simp
  omega

/-- The next sequence number is even; it is zero at the end of its range. -/
theorem next_seq (seq : UInt64) :
    ((seq ||| 1) + 1).toNat = (seq.toNat / 2 * 2 + 2) % 18446744073709551616 := by
  rw [UInt64.toNat_add, UInt64.toNat_or]
  simp only [UInt64.toNat_one, or_one]

theorem readAttempts_complete (a : Attempt) (rest : List Attempt) (hzero : a.before ≠ 0)
    (heven : a.before % 2 ≠ 1) (hsize : SizeOk a.width.toNat a.height.toNat)
    (hafter : a.after = a.before) :
    readAttempts (a :: rest) = some ⟨a.width.toNat, a.height.toNat, a.before,
      a.data.take (nv12Len a.width.toNat a.height.toNat)⟩ := by
  rw [readAttempts, if_neg (by tauto), if_neg (not_not_intro hsize), if_pos hafter]

theorem read_sound (attempts : List Attempt) (frame : Frame)
    (hread : readAttempts attempts = some frame) :
    SizeOk frame.width frame.height ∧ frame.bytes.length = nv12Len frame.width frame.height := by
  induction attempts with
  | nil => exact absurd hread (by simp [readAttempts])
  | cons a rest ih =>
    rw [readAttempts] at hread
    split at hread
    · exact ih hread
    · split at hread
      · exact absurd hread (by simp)
      · rename_i hsize
        have hok := not_not.mp hsize
        split at hread
        · obtain rfl := Option.some.inj hread
          refine ⟨hok, ?_⟩
          have hle := nv12Len_le_capacity _ _ hok
          rw [List.length_take, a.data_length]
          exact Nat.min_eq_left hle
        · exact ih hread

theorem sides_of_size (w h : ℕ) (hsize : SizeOk w h) : w ≤ 1920 ∧ h ≤ 1920 := by
  obtain ⟨-, -, hlong, -⟩ := hsize
  unfold maxLong at hlong
  omega

/-- What a write leaves in the memory. -/
theorem write_spec (view view' : View) (w h : ℕ) (nv12 : List UInt8)
    (hwrite : view.write w h nv12 = some view') :
    SizeOk w h ∧ (view'.width.toNat = w ∧ view'.height.toNat = h) ∧
      view'.seq = (view.seq ||| 1) + 1 ∧ view'.valid = view.valid ∧ view'.active = 1 ∧
      view'.data.take (nv12Len w h) = nv12 := by
  by_cases hok : (SizeOk w h ∧ w % 2 = 0 ∧ h % 2 = 0) ∧ nv12.length = nv12Len w h
  · obtain rfl := Option.some.inj ((dif_pos hok).symm.trans hwrite)
    obtain ⟨⟨hsize, -⟩, hlength⟩ := hok
    obtain ⟨hw, hh⟩ := sides_of_size w h hsize
    have hfits : ∀ n ≤ 1920, (UInt32.ofNat n).toNat = n := by
      intro n hn
      exact UInt32.toNat_ofNat_of_lt' (lt_of_le_of_lt hn (by decide))
    refine ⟨hsize, ⟨hfits w hw, hfits h hh⟩, rfl, rfl, rfl, ?_⟩
    exact List.take_left' hlength
  · exact absurd ((dif_neg hok).symm.trans hwrite) (by simp)

/-- Without another write, the frame is read back unless the sequence number has wrapped. -/
theorem read_write (view view' : View) (w h : ℕ) (nv12 : List UInt8)
    (hwrite : view.write w h nv12 = some view') :
    view'.read = some ⟨w, h, view'.seq, nv12⟩ ↔
      view.valid = true ∧ view.seq.toNat < 18446744073709551614 := by
  obtain ⟨hsize, ⟨hw, hh⟩, hseq, hvalid, hactive, hdata⟩ := write_spec view view' w h nv12 hwrite
  have hnext := next_seq view.seq
  have hlt := view.seq.toNat_lt
  rw [← hseq] at hnext
  unfold View.read readLoaded
  rw [hvalid, hactive]
  cases hv : view.valid with
  | false => simp
  | true =>
    rw [if_pos (by decide), List.take_of_length_le (by simp)]
    by_cases hwrap : view.seq.toNat < 18446744073709551614
    · have heven : view'.seq.toNat % 2 = 0 ∧ view'.seq.toNat ≠ 0 := by omega
      refine iff_of_true ?_ ⟨rfl, hwrap⟩
      have hzero : view'.attempt.before ≠ 0 := by
        intro h0
        exact heven.2 (congrArg UInt64.toNat h0)
      have hodd : view'.attempt.before % 2 ≠ 1 := by
        intro h1
        have := congrArg UInt64.toNat h1
        rw [UInt64.toNat_mod] at this
        exact absurd this (by
          change view'.seq.toNat % 2 ≠ 1
          omega)
      have hcomplete := readAttempts_complete view'.attempt (List.replicate 3 view'.attempt) hzero
        hodd (by
          change SizeOk view'.width.toNat view'.height.toNat
          rw [hw, hh]
          exact hsize) rfl
      refine hcomplete.trans ?_
      change some (Frame.mk view'.width.toNat view'.height.toNat view'.seq
        (view'.data.take (nv12Len view'.width.toNat view'.height.toNat))) = _
      rw [hw, hh, hdata]
    · have hzero : view'.seq = 0 := by
        apply UInt64.toNat_inj.mp
        rw [hnext, UInt64.toNat_zero]
        omega
      refine iff_of_false ?_ (fun h => hwrap h.2)
      simp [readAttempts, View.attempt, hzero, List.replicate]

theorem slice_row (xs : List UInt8) (w h y : ℕ) (hxs : xs.length = w * h) (hy : y < h) :
    ∃ row, slice xs (y * w) ((y + 1) * w) = some row ∧
      ∀ x < w, row[x]? = xs[y * w + x]? := by
  have hend : (y + 1) * w ≤ w * h := by
    rw [Nat.mul_comm w h]
    exact Nat.mul_le_mul_right w hy
  refine ⟨_, if_pos ⟨Nat.mul_le_mul_right w (by omega), by omega⟩, ?_⟩
  intro x hx
  rw [List.getElem?_drop, List.getElem?_take, if_pos]
  rw [Nat.add_mul, Nat.one_mul]
  omega

def LumaRow (srcY : List UInt8) (sw sh tw th dw ox oy y i : ℕ) (v : UInt8) : Prop :=
  ∃ x < tw, i = (oy + y) * dw + (ox + x) ∧ srcY[part y th sh * sw + part x tw sw]? = some v

theorem fitLuma_spec (srcY dstY : List UInt8) (sw sh tw th dw dh ox oy : ℕ)
    (hsrc : srcY.length = sw * sh) (hdst : dstY.length = dw * dh) (hsw : 0 < sw) (hsh : 0 < sh)
    (hx : ox + tw ≤ dw) (hy : oy + th ≤ dh) :
    ∃ out, fitLuma srcY sw sh tw th dw ox oy dstY = some out ∧
      Painted (fun i v => ∃ y < th, LumaRow srcY sw sh tw th dw ox oy y i v) dstY out := by
  refine painted_steps _ _ th dstY ?_ ?_
  · intro y hyth cells hcells
    obtain ⟨row, hrow, hcell⟩ :=
      slice_row srcY sw sh (part y th sh) hsrc (part_lt y th sh hyth hsh)
    have hend : (oy + y) * dw + ox + tw ≤ cells.length := by
      rw [hcells, hdst]
      have hrows : (oy + y + 1) * dw ≤ dh * dw := Nat.mul_le_mul_right dw (by omega)
      rw [Nat.add_mul, Nat.one_mul, Nat.mul_comm dh dw] at hrows
      omega
    simp only [hrow, Option.bind_eq_bind, Option.bind_some]
    rw [if_neg (by omega)]
    refine (painted_steps _ (fun x i v => i = (oy + y) * dw + (ox + x) ∧
      srcY[part y th sh * sw + part x tw sw]? = some v) tw cells ?_ ?_).imp
      fun out hout => ⟨hout.1, hout.2⟩
    · intro x hxtw cells' hcells'
      have hpart := part_lt x tw sw hxtw hsw
      rw [hcell _ hpart]
      have hin : part y th sh * sw + part x tw sw < srcY.length := by
        rw [hsrc]
        exact cell_lt sw sh _ _ hpart (part_lt y th sh hyth hsh)
      rw [List.getElem?_eq_getElem hin, Option.bind_some]
      obtain ⟨out, hout, hpainted⟩ := painted_put ((oy + y) * dw + ox + x)
        (srcY[part y th sh * sw + part x tw sw]) cells' (by omega)
      refine ⟨out, hout, hpainted.congr _ _ _ _ fun i v => ?_⟩
      rw [Nat.add_assoc, Option.some.injEq, eq_comm (a := v)]
    · rintro x x' hxx' - i v w ⟨rfl, -⟩ ⟨heq, -⟩
      omega
  · rintro y y' hyy' - i v w ⟨x, hxtw, rfl, -⟩ ⟨x', hxtw', heq, -⟩
    have := (cell_inj dw _ _ _ _ (by omega) (by omega) heq).1
    omega

def ChromaRow (srcUv : List UInt8) (sw sh tw th dw ox oy y i : ℕ) (v : UInt8) : Prop :=
  ∃ x < tw / 2, ∃ k < 2, i = (oy / 2 + y) * dw + (ox + x * 2 + k) ∧
    srcUv[part y (th / 2) (sh / 2) * sw + part x (tw / 2) (sw / 2) * 2 + k]? = some v

theorem put_pair (srcUv cells : List UInt8) (s d : ℕ) (hs : s + 1 < srcUv.length)
    (hd : d + 1 < cells.length) :
    ∃ out, (do
        let u ← srcUv[s]?
        let dstUv ← put d u cells
        let v ← srcUv[s + 1]?
        put (d + 1) v dstUv) = some out ∧
      Painted (fun i v => ∃ k < 2, i = d + k ∧ srcUv[s + k]? = some v) cells out := by
  obtain ⟨middle, hmiddle, hfirst⟩ := painted_put d srcUv[s] cells (by omega)
  obtain ⟨out, hout, hsecond⟩ := painted_put (d + 1) srcUv[s + 1] middle
    (by rw [hfirst.length]; exact hd)
  refine ⟨out, ?_, ?_⟩
  · simp only [List.getElem?_eq_getElem (show s < srcUv.length by omega),
      List.getElem?_eq_getElem hs, Option.bind_eq_bind, Option.bind_some, hmiddle, hout]
  · refine (hfirst.trans _ _ _ _ _ hsecond ?_).congr _ _ _ _ fun i v => ?_
    · rintro i v w ⟨rfl, -⟩ ⟨heq, -⟩
      omega
    · constructor
      · rintro ⟨k, hk, rfl, hv⟩
        rcases (show k = 0 ∨ k = 1 by omega) with rfl | rfl
        · rw [Nat.add_zero, List.getElem?_eq_getElem (by omega)] at hv
          exact Or.inl ⟨rfl, (Option.some.inj hv).symm⟩
        · rw [List.getElem?_eq_getElem hs] at hv
          exact Or.inr ⟨rfl, (Option.some.inj hv).symm⟩
      · rintro (⟨rfl, rfl⟩ | ⟨rfl, rfl⟩)
        · exact ⟨0, by omega, rfl, List.getElem?_eq_getElem _⟩
        · exact ⟨1, by omega, rfl, List.getElem?_eq_getElem _⟩

theorem fitChroma_spec (srcUv dstUv : List UInt8) (sw sh tw th dw rows ox oy : ℕ)
    (hsrc : sw * (sh / 2) ≤ srcUv.length) (hdst : dstUv.length = dw * rows) (hsw : 2 ≤ sw)
    (hsh : 2 ≤ sh) (hx : ox + tw ≤ dw) (hy : oy / 2 + th / 2 ≤ rows) :
    ∃ out, fitChroma srcUv sw sh tw th dw ox oy dstUv = some out ∧
      Painted (fun i v => ∃ y < th / 2, ChromaRow srcUv sw sh tw th dw ox oy y i v) dstUv out := by
  refine painted_steps _ _ (th / 2) dstUv ?_ ?_
  · intro y hyth cells hcells
    have hrow := part_lt y (th / 2) (sh / 2) hyth (by omega)
    refine painted_steps _ (fun x i v => ∃ k < 2, i = (oy / 2 + y) * dw + (ox + x * 2 + k) ∧
      srcUv[part y (th / 2) (sh / 2) * sw + part x (tw / 2) (sw / 2) * 2 + k]? = some v)
      (tw / 2) cells ?_ ?_
    · intro x hxtw cells' hcells'
      have hcolumn := part_lt x (tw / 2) (sw / 2) hxtw (by omega)
      have hs := cell_lt sw (sh / 2) (part x (tw / 2) (sw / 2) * 2 + 1) _ (by omega) hrow
      have hd := cell_lt dw rows (ox + x * 2 + 1) (oy / 2 + y) (by omega) (by omega)
      obtain ⟨out, hout, hpainted⟩ := put_pair srcUv cells'
        (part y (th / 2) (sh / 2) * sw + part x (tw / 2) (sw / 2) * 2)
        ((oy / 2 + y) * dw + ox + x * 2) (by omega) (by omega)
      refine ⟨out, hout, hpainted.congr _ _ _ _ fun i v => ?_⟩
      simp only [Nat.add_assoc]
    · rintro x x' hxx' - i v w ⟨k, hk, rfl, -⟩ ⟨k', hk', heq, -⟩
      omega
  · rintro y y' hyy' - i v w ⟨x, hxtw, k, hk, rfl, -⟩ ⟨x', hxtw', k', hk', heq, -⟩
    have := (cell_inj dw _ _ _ _ (by omega) (by omega) heq).1
    omega

/-- Position `n` of `k` is in place `q` of `m`. -/
structure Nearest (n k m q : ℕ) : Prop where
  inside : q < m
  low : q * k ≤ n * m
  high : n * m < (q + 1) * k

theorem nearest_part (n k m : ℕ) (hn : n < k) (hm : 0 < m) : Nearest n k m (part n k m) :=
  ⟨part_lt n k m hn hm, (part_bounds n k m (by omega)).1, (part_bounds n k m (by omega)).2⟩

theorem nearest_same (n k q : ℕ) (h : Nearest n k k q) : q = n := by
  have hle := Nat.le_of_mul_le_mul_right h.low (Nat.zero_lt_of_lt h.inside)
  have hlt := Nat.lt_of_mul_lt_mul_right h.high
  omega

def InArea (tw th ox oy x y : ℕ) : Prop := (ox ≤ x ∧ x < ox + tw) ∧ oy ≤ y ∧ y < oy + th

/-- The picture shows the source in an area, and black around it. -/
structure Shows (src : List UInt8) (sw sh dw dh tw th ox oy : ℕ) (out : List UInt8) : Prop where
  length : out.length = nv12Len dw dh
  luma : ∀ x y, x < dw → y < dh → InArea tw th ox oy x y →
    ∃ sx sy, Nearest (x - ox) tw sw sx ∧ Nearest (y - oy) th sh sy ∧
      out[y * dw + x]? = src[sy * sw + sx]?
  lumaBlack : ∀ x y, x < dw → y < dh → ¬InArea tw th ox oy x y → out[y * dw + x]? = some 16
  chroma : ∀ x y k, x < dw / 2 → y < dh / 2 → k < 2 → InArea (tw / 2) (th / 2) (ox / 2) (oy / 2) x y →
    ∃ sx sy, Nearest (x - ox / 2) (tw / 2) (sw / 2) sx ∧ Nearest (y - oy / 2) (th / 2) (sh / 2) sy ∧
      out[dw * dh + (y * dw + x * 2 + k)]? = src[sw * sh + (sy * sw + sx * 2 + k)]?
  chromaBlack : ∀ x y k, x < dw / 2 → y < dh / 2 → k < 2 →
    ¬InArea (tw / 2) (th / 2) (ox / 2) (oy / 2) x y →
    out[dw * dh + (y * dw + x * 2 + k)]? = some 128

def Centred (d t o : ℕ) : Prop := o + t ≤ d ∧ 2 * o ≤ d - t ∧ d - t < 2 * o + 4

/-- What is expected of `fit`. -/
structure Fitted (src : List UInt8) (sw sh dw dh : ℕ) (out : List UInt8) : Prop where
  shows : Shows src sw sh dw dh (area sw sh dw dh).1 (area sw sh dw dh).2
    (offset dw (area sw sh dw dh).1) (offset dh (area sw sh dw dh).2) out
  horizontal : Centred dw (area sw sh dw dh).1 (offset dw (area sw sh dw dh).1)
  vertical : Centred dh (area sw sh dw dh).2 (offset dh (area sw sh dw dh).2)
  same : sw = dw → sh = dh → out = src

theorem area_even (sw sh a b : ℕ) (ha : 0 < a) (hb : 0 < b) :
    ∃ c e, area sw sh (2 * a) (2 * b) = (2 * c, 2 * e) ∧ (0 < c ∧ c ≤ a) ∧ 0 < e ∧ e ≤ b := by
  have heven : ∀ n d, 0 < d → min (max (n / 2 * 2) 2) (2 * d) = 2 * min (max (n / 2) 1) d := by
    intro n d hd
    omega
  refine ⟨_, _, Prod.ext (heven _ a ha) (heven _ b hb), ?_, ?_⟩ <;> omega

theorem area_same (a b : ℕ) (hb : 0 < b) :
    area (2 * a) (2 * b) (2 * a) (2 * b) = (2 * a, 2 * b) := by
  rw [area, if_neg (by rw [Nat.mul_comm]; exact lt_irrefl _), Nat.mul_div_cancel _ (by omega)]
  simp only [Prod.mk.injEq]
  omega

theorem offset_even (a c : ℕ) : offset (2 * a) (2 * c) = 2 * ((a - c) / 2) := by
  unfold offset
  omega

theorem centred_offset (a c : ℕ) (hc : c ≤ a) :
    Centred (2 * a) (2 * c) (offset (2 * a) (2 * c)) := by
  rw [offset_even]
  unfold Centred
  omega

theorem nv12Len_planes (w h : ℕ) : w * h + w * (h / 2) ≤ nv12Len w h := by
  have hhalf : 2 * (w * (h / 2)) ≤ w * h := by
    rw [Nat.mul_left_comm]
    exact Nat.mul_le_mul_left w (Nat.mul_div_le h 2)
  unfold nv12Len
  omega

theorem nv12Len_even (w b : ℕ) : nv12Len w (2 * b) = w * (2 * b) + w * b := by
  unfold nv12Len
  rw [Nat.mul_left_comm]
  omega

theorem black_eq (dst : List UInt8) (dw b : ℕ) (hdst : dst.length = nv12Len dw (2 * b)) :
    black dst dw (2 * b) =
      some (List.replicate (dw * (2 * b)) 16 ++ List.replicate (dw * b) 128) := by
  rw [black, if_pos (by omega), ← hdst, List.drop_length, List.append_nil, hdst, nv12Len_even,
    Nat.add_sub_cancel_left]

/-- The loops give the picture, for a source with both sides at least two. -/
theorem fit_planes (src dst : List UInt8) (sw sh a b c e : ℕ) (hsw : 2 ≤ sw) (hsh : 2 ≤ sh)
    (hsrc : src.length = nv12Len sw sh) (hdst : dst.length = nv12Len (2 * a) (2 * b))
    (harea : area sw sh (2 * a) (2 * b) = (2 * c, 2 * e)) (hc : 0 < c ∧ c ≤ a)
    (he : 0 < e ∧ e ≤ b) :
    ∃ outY outUv, fit src sw sh dst (2 * a) (2 * b) = some (outY ++ outUv) ∧
      Painted (fun i v => ∃ y < 2 * e, LumaRow (src.take (sw * sh)) sw sh (2 * c) (2 * e) (2 * a)
        (2 * ((a - c) / 2)) (2 * ((b - e) / 2)) y i v)
        (List.replicate (2 * a * (2 * b)) 16) outY ∧
      Painted (fun i v => ∃ y < 2 * e / 2, ChromaRow (src.drop (sw * sh)) sw sh (2 * c) (2 * e)
        (2 * a) (2 * ((a - c) / 2)) (2 * ((b - e) / 2)) y i v)
        (List.replicate (2 * a * b) 128) outUv := by
  have hplanes := nv12Len_planes sw sh
  obtain ⟨outY, houtY, hluma⟩ := fitLuma_spec (src.take (sw * sh))
    (List.replicate (2 * a * (2 * b)) 16) sw sh (2 * c) (2 * e) (2 * a) (2 * b)
    (2 * ((a - c) / 2)) (2 * ((b - e) / 2)) (by rw [List.length_take]; omega)
    List.length_replicate (by omega) (by omega) (by omega) (by omega)
  obtain ⟨outUv, houtUv, hchroma⟩ := fitChroma_spec (src.drop (sw * sh))
    (List.replicate (2 * a * b) 128) sw sh (2 * c) (2 * e) (2 * a) b
    (2 * ((a - c) / 2)) (2 * ((b - e) / 2)) (by rw [List.length_drop]; omega)
    List.length_replicate hsw hsh (by omega) (by omega)
  refine ⟨outY, outUv, ?_, hluma, hchroma⟩
  unfold fit
  rw [black_eq dst (2 * a) b hdst]
  simp only [Option.bind_eq_bind, Option.bind_some, harea, offset_even]
  rw [if_neg (by omega), if_neg (by
    rw [List.length_append, List.length_replicate]
    omega)]
  rw [List.take_left' List.length_replicate, List.drop_left' List.length_replicate, houtY]
  simp only [Option.bind_some, houtUv, Option.pure_def]

theorem luma_inside (src outY cells : List UInt8) (sw sh tw th dw ox oy x y : ℕ)
    (hsrc : sw * sh ≤ src.length) (hsw : 0 < sw) (hsh : 0 < sh)
    (hluma : Painted (fun i v => ∃ y < th, LumaRow (src.take (sw * sh)) sw sh tw th dw ox oy y i v)
      cells outY) (hin : InArea tw th ox oy x y) :
    outY[y * dw + x]? = src[part (y - oy) th sh * sw + part (x - ox) tw sw]? := by
  obtain ⟨⟨hx, hx'⟩, hy, hy'⟩ := hin
  have hcell := cell_lt sw sh _ _ (part_lt (x - ox) tw sw (by omega) hsw)
    (part_lt (y - oy) th sh (by omega) hsh)
  have hvalue := List.getElem?_eq_getElem (show _ < src.length from lt_of_lt_of_le hcell hsrc)
  rw [hvalue]
  refine hluma.painted _ _ ⟨y - oy, by omega, x - ox, by omega, ?_, ?_⟩
  · rw [show oy + (y - oy) = y by omega, show ox + (x - ox) = x by omega]
  · rw [List.getElem?_take_of_lt hcell, hvalue]

theorem luma_outside (srcY outY : List UInt8) (sw sh tw th dw dh ox oy x y : ℕ)
    (hluma : Painted (fun i v => ∃ y < th, LumaRow srcY sw sh tw th dw ox oy y i v)
      (List.replicate (dw * dh) 16) outY) (hx : x < dw) (hy : y < dh) (harea : ox + tw ≤ dw)
    (hout : ¬InArea tw th ox oy x y) : outY[y * dw + x]? = some 16 := by
  rw [hluma.kept, List.getElem?_replicate_of_lt (cell_lt dw dh x y hx hy)]
  rintro v ⟨y', hy', x', hx', heq, -⟩
  obtain ⟨rfl, rfl⟩ := cell_inj dw _ _ _ _ hx (by omega) heq
  exact hout ⟨by omega, by omega⟩

theorem chroma_inside (src outUv cells : List UInt8) (sw sh tw th dw ox oy x y k : ℕ)
    (hsrc : sw * sh + sw * (sh / 2) ≤ src.length) (hsw : 2 ≤ sw) (hsh : 2 ≤ sh) (hox : ox % 2 = 0)
    (hchroma : Painted (fun i v => ∃ y < th / 2,
      ChromaRow (src.drop (sw * sh)) sw sh tw th dw ox oy y i v) cells outUv) (hk : k < 2)
    (hin : InArea (tw / 2) (th / 2) (ox / 2) (oy / 2) x y) :
    outUv[y * dw + x * 2 + k]? =
      src[sw * sh + (part (y - oy / 2) (th / 2) (sh / 2) * sw +
        part (x - ox / 2) (tw / 2) (sw / 2) * 2 + k)]? := by
  obtain ⟨⟨hx, hx'⟩, hy, hy'⟩ := hin
  have hcolumn := part_lt (x - ox / 2) (tw / 2) (sw / 2) (by omega) (by omega)
  have hcell := cell_lt sw (sh / 2) (part (x - ox / 2) (tw / 2) (sw / 2) * 2 + k) _ (by omega)
    (part_lt (y - oy / 2) (th / 2) (sh / 2) (by omega) (by omega))
  have hvalue := List.getElem?_eq_getElem (show sw * sh + (part (y - oy / 2) (th / 2) (sh / 2) * sw +
    part (x - ox / 2) (tw / 2) (sw / 2) * 2 + k) < src.length by omega)
  rw [hvalue]
  refine hchroma.painted _ _ ⟨y - oy / 2, by omega, x - ox / 2, by omega, k, hk, ?_, ?_⟩
  · rw [show oy / 2 + (y - oy / 2) = y by omega]
    omega
  · rw [List.getElem?_drop, hvalue]

theorem chroma_outside (srcUv outUv : List UInt8) (sw sh tw th dw rows ox oy x y k : ℕ)
    (hchroma : Painted (fun i v => ∃ y < th / 2, ChromaRow srcUv sw sh tw th dw ox oy y i v)
      (List.replicate (dw * rows) 128) outUv) (hx : x < dw / 2) (hy : y < rows) (hk : k < 2)
    (harea : ox + tw ≤ dw) (hox : ox % 2 = 0)
    (hout : ¬InArea (tw / 2) (th / 2) (ox / 2) (oy / 2) x y) :
    outUv[y * dw + x * 2 + k]? = some 128 := by
  have hlt := cell_lt dw rows (x * 2 + k) y (by omega) hy
  rw [hchroma.kept, List.getElem?_replicate_of_lt (by omega)]
  rintro v ⟨y', hy', x', hx', k', hk', heq, -⟩
  obtain ⟨rfl, hcolumn⟩ := cell_inj dw (x * 2 + k) (ox + x' * 2 + k') y (oy / 2 + y') (by omega)
    (by omega) (by omega)
  exact hout ⟨by omega, by omega⟩

theorem shows_of_painted (src outY outUv : List UInt8) (sw sh a b c e p q : ℕ) (hsw : 2 ≤ sw)
    (hsh : 2 ≤ sh) (hsrc : src.length = nv12Len sw sh) (hpc : p + c ≤ a)
    (hluma : Painted (fun i v => ∃ y < 2 * e, LumaRow (src.take (sw * sh)) sw sh (2 * c) (2 * e)
      (2 * a) (2 * p) (2 * q) y i v) (List.replicate (2 * a * (2 * b)) 16) outY)
    (hchroma : Painted (fun i v => ∃ y < 2 * e / 2, ChromaRow (src.drop (sw * sh)) sw sh (2 * c)
      (2 * e) (2 * a) (2 * p) (2 * q) y i v) (List.replicate (2 * a * b) 128) outUv) :
    Shows src sw sh (2 * a) (2 * b) (2 * c) (2 * e) (2 * p) (2 * q) (outY ++ outUv) := by
  have hplanes := nv12Len_planes sw sh
  have hY : outY.length = 2 * a * (2 * b) := by rw [hluma.length, List.length_replicate]
  have hleft : ∀ x y, x < 2 * a → y < 2 * b →
      (outY ++ outUv)[y * (2 * a) + x]? = outY[y * (2 * a) + x]? := by
    intro x y hx hy
    exact List.getElem?_append_left (by rw [hY]; exact cell_lt _ _ _ _ hx hy)
  have hright : ∀ j : ℕ, (outY ++ outUv)[2 * a * (2 * b) + j]? = outUv[j]? := by
    intro j
    rw [List.getElem?_append_right (by omega), hY, Nat.add_sub_cancel_left]
  constructor
  · rw [List.length_append, hY, hchroma.length, List.length_replicate, nv12Len_even]
  · intro x y hx hy hin
    refine ⟨_, _, nearest_part _ _ _ ?_ (by omega), nearest_part _ _ _ ?_ (by omega), ?_⟩
    · exact Nat.sub_lt_left_of_lt_add hin.1.1 hin.1.2
    · exact Nat.sub_lt_left_of_lt_add hin.2.1 hin.2.2
    · rw [hleft x y hx hy]
      exact luma_inside src outY _ sw sh _ _ _ _ _ x y (by omega) (by omega) (by omega) hluma hin
  · intro x y hx hy hout
    rw [hleft x y hx hy]
    exact luma_outside _ outY sw sh _ _ _ _ _ _ x y hluma hx hy (by omega) hout
  · intro x y k hx hy hk hin
    refine ⟨_, _, nearest_part _ _ _ ?_ (by omega), nearest_part _ _ _ ?_ (by omega), ?_⟩
    · exact Nat.sub_lt_left_of_lt_add hin.1.1 hin.1.2
    · exact Nat.sub_lt_left_of_lt_add hin.2.1 hin.2.2
    · rw [hright]
      exact chroma_inside src outUv _ sw sh _ _ _ _ _ x y k (by omega) hsw hsh (by omega) hchroma
        hk hin
  · intro x y k hx hy hk hout
    rw [hright]
    exact chroma_outside _ outUv sw sh _ _ _ b _ _ x y k hchroma hx (by omega) hk (by omega)
      (by omega) hout

theorem Shows.eq_src (src out : List UInt8) (a b : ℕ) (hsrc : src.length = nv12Len (2 * a) (2 * b))
    (h : Shows src (2 * a) (2 * b) (2 * a) (2 * b) (2 * a) (2 * b) 0 0 out) : out = src := by
  apply List.ext_getElem?
  intro i
  by_cases hi : i < nv12Len (2 * a) (2 * b)
  · rw [nv12Len_even] at hi
    by_cases hluma : i < 2 * a * (2 * b)
    · obtain ⟨x, y, hx, hy, rfl⟩ := exists_cell (2 * a) (2 * b) i hluma
      obtain ⟨sx, sy, hsx, hsy, heq⟩ := h.luma x y hx hy ⟨by omega, by omega⟩
      rw [heq, nearest_same _ _ sx hsx, nearest_same _ _ sy hsy, Nat.sub_zero, Nat.sub_zero]
    · obtain ⟨j, rfl⟩ := Nat.exists_eq_add_of_le (Nat.le_of_not_lt hluma)
      obtain ⟨x, y, hx, hy, rfl⟩ := exists_cell (2 * a) b j (by omega)
      obtain ⟨sx, sy, hsx, hsy, heq⟩ := h.chroma (x / 2) y (x % 2) (by omega) (by omega) (by omega)
        ⟨by omega, by omega⟩
      have hsx' := nearest_same _ _ sx hsx
      have hsy' := nearest_same _ _ sy hsy
      rw [show y * (2 * a) + x = y * (2 * a) + x / 2 * 2 + x % 2 by omega, heq, hsx', hsy']
      simp only [Nat.zero_div, Nat.sub_zero]
  · rw [List.getElem?_eq_none (by rw [h.length]; omega), List.getElem?_eq_none (by omega)]

theorem fitted_of_sides (src dst : List UInt8) (sw sh a b : ℕ) (ha : 0 < a) (hb : 0 < b)
    (hsw : 2 ≤ sw) (hsh : 2 ≤ sh) (hsrc : src.length = nv12Len sw sh)
    (hdst : dst.length = nv12Len (2 * a) (2 * b)) :
    ∃ out, fit src sw sh dst (2 * a) (2 * b) = some out ∧
      Fitted src sw sh (2 * a) (2 * b) out := by
  obtain ⟨c, e, harea, hc, he⟩ := area_even sw sh a b ha hb
  obtain ⟨outY, outUv, hfit, hluma, hchroma⟩ :=
    fit_planes src dst sw sh a b c e hsw hsh hsrc hdst harea hc he
  have hshows := shows_of_painted src outY outUv sw sh a b c e _ _ hsw hsh hsrc (by omega) hluma
    hchroma
  refine ⟨outY ++ outUv, hfit, ?_⟩
  constructor
  · rw [harea, offset_even, offset_even]
    exact hshows
  · rw [harea]
    exact centred_offset a c hc.2
  · rw [harea]
    exact centred_offset b e he.2
  · rintro rfl rfl
    rw [area_same a b hb, Prod.mk.injEq] at harea
    obtain ⟨rfl, rfl⟩ : a = c ∧ b = e := by omega
    rw [Nat.sub_self, Nat.sub_self] at hshows
    exact hshows.eq_src src _ a b hsrc

/-- A fitted picture has a pair of colours in its area, which the source must have. -/
theorem sides_of_fitted (src out : List UInt8) (sw sh a b : ℕ) (ha : 0 < a) (hb : 0 < b)
    (h : Fitted src sw sh (2 * a) (2 * b) out) : 2 ≤ sw ∧ 2 ≤ sh := by
  obtain ⟨c, e, harea, hc, he⟩ := area_even sw sh a b ha hb
  have hshows := h.shows
  rw [harea, offset_even, offset_even] at hshows
  obtain ⟨sx, sy, hsx, hsy, -⟩ := hshows.chroma ((a - c) / 2) ((b - e) / 2) 0 (by omega) (by omega)
    (by omega) ⟨by omega, by omega⟩
  have hcolumn := hsx.inside
  have hrow := hsy.inside
  omega

/-- With less than two bytes of colours the first pair is out of range. -/
theorem fit_none (src dst : List UInt8) (sw sh a b : ℕ) (ha : 0 < a) (hb : 0 < b) (hsw : 0 < sw)
    (hsh : 0 < sh) (hsrc : sw * sh ≤ src.length) (hfew : src.length < sw * sh + 2)
    (hdst : dst.length = nv12Len (2 * a) (2 * b)) :
    fit src sw sh dst (2 * a) (2 * b) = none := by
  obtain ⟨c, e, harea, hc, he⟩ := area_even sw sh a b ha hb
  have hchroma : ∀ dstUv, fitChroma (src.drop (sw * sh)) sw sh (2 * c) (2 * e) (2 * a)
      (offset (2 * a) (2 * c)) (offset (2 * b) (2 * e)) dstUv = none := by
    intro dstUv
    refine steps_none _ _ dstUv (by omega) (steps_none _ _ dstUv (by omega) ?_)
    have hsecond : (src.drop (sw * sh))[1]? = none :=
      List.getElem?_eq_none (by rw [List.length_drop]; omega)
    simp only [part_zero, Nat.zero_mul, Nat.zero_add, hsecond, Option.bind_eq_bind,
      Option.bind_none, Option.bind_fun_none]
  unfold fit
  rw [black_eq dst (2 * a) b hdst]
  simp only [Option.bind_eq_bind, Option.bind_some, harea]
  rw [if_neg (by omega), if_neg (by
    rw [List.length_append, List.length_replicate]
    omega)]
  simp only [hchroma, Option.bind_none, Option.bind_fun_none]

theorem formats_even (w h : ℕ) (hformat : (w, h) ∈ formats) :
    ∃ a b, 0 < a ∧ 0 < b ∧ w = 2 * a ∧ h = 2 * b := by
  simp only [formats, List.mem_cons, Prod.mk.injEq, List.not_mem_nil, or_false] at hformat
  rcases hformat with ⟨rfl, rfl⟩ | ⟨rfl, rfl⟩
  · exact ⟨640, 360, by omega, by omega, rfl, rfl⟩
  · exact ⟨320, 240, by omega, by omega, rfl, rfl⟩

theorem loaded_sound (valid active : Bool) (attempts : List Attempt) (frame : Frame)
    (hread : readLoaded valid active attempts = some frame) :
    SizeOk frame.width frame.height ∧ frame.bytes.length = nv12Len frame.width frame.height := by
  unfold readLoaded at hread
  split at hread
  · exact read_sound _ frame hread
  · exact absurd hread (by simp)

/-- Every frame that a reader takes is fitted as expected exactly when both of its sides are at
least two; a frame that is written is read back exactly when the memory is valid and its sequence
number does not wrap. -/
theorem camera_frames (w h : ℕ) (hformat : (w, h) ∈ formats) (dst : List UInt8)
    (hdst : dst.length = nv12Len w h) :
    (∀ valid active attempts frame, readLoaded valid active attempts = some frame →
      ((∃ out, fit frame.bytes frame.width frame.height dst w h = some out ∧
        Fitted frame.bytes frame.width frame.height w h out) ↔
        2 ≤ frame.width ∧ 2 ≤ frame.height)) ∧
    ∀ view view' : View, ∀ w h nv12, view.write w h nv12 = some view' →
      (view'.read = some ⟨w, h, view'.seq, nv12⟩ ↔
        view.valid = true ∧ view.seq.toNat < 18446744073709551614) := by
  refine ⟨?_, read_write⟩
  intro valid active attempts frame hread
  obtain ⟨-, hbytes⟩ := loaded_sound valid active attempts frame hread
  obtain ⟨a, b, ha, hb, rfl, rfl⟩ := formats_even w h hformat
  constructor
  · rintro ⟨out, -, hfitted⟩
    exact sides_of_fitted _ out _ _ a b ha hb hfitted
  · rintro ⟨hwidth, hheight⟩
    exact fitted_of_sides _ dst _ _ a b ha hb hwidth hheight hbytes hdst

/-- A try that loads a size under an even sequence number, from memory of zeros. -/
def zeroAttempt (width height : UInt32) : Attempt :=
  ⟨2, width, height, List.replicate capacity 0, List.length_replicate, 2⟩

theorem read_zeroAttempt (width height : UInt32) (hsize : SizeOk width.toNat height.toNat) :
    readLoaded true true [zeroAttempt width height] =
      some ⟨width.toNat, height.toNat, 2,
        List.replicate (nv12Len width.toNat height.toNat) 0⟩ := by
  have hcomplete := readAttempts_complete (zeroAttempt width height) [] (by simp [zeroAttempt])
    (by simp [zeroAttempt]) hsize rfl
  have hle := nv12Len_le_capacity _ _ hsize
  refine hcomplete.trans ?_
  simp only [zeroAttempt, List.take_replicate, Nat.min_eq_left hle]

theorem camera_frames_small : ∃ out,
    fit (List.replicate 12 0) 4 2 (List.replicate (nv12Len 640 480) 0) 640 480 = some out ∧
      Fitted (List.replicate 12 0) 4 2 640 480 out :=
  ((camera_frames 640 480 (by decide) _ List.length_replicate).1 true true _ _
    (read_zeroAttempt 4 2 (by decide))).mpr ⟨by decide, by decide⟩

/-- The reader takes a frame of one pixel, which has no colours, and the scaler panics. -/
theorem one_pixel_panics :
    ∃ frame, readLoaded true true [zeroAttempt 1 1] = some frame ∧
      ∀ dst : List UInt8, dst.length = nv12Len 1280 720 →
        fit frame.bytes frame.width frame.height dst 1280 720 = none := by
  refine ⟨_, read_zeroAttempt 1 1 (by decide), ?_⟩
  intro dst hdst
  exact fit_none [0] dst 1 1 640 360 (by omega) (by omega) (by omega) (by omega) (by decide)
    (by decide) hdst

end ClantoDesk.VirtualCamera
