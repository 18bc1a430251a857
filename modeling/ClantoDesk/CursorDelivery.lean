import ClantoDesk.CapturerFrames
import ClantoDesk.CursorCalibration
import ClantoDesk.DrmStream
import ClantoDesk.HotspotGuess

/-!
The cursor shapes on their way to the viewers, `deliver_drm_cursor` of src/server/drm_capturer.rs.
The compositor turns the sprite with its output, so on a rotated output the bitmap is turned back
and the hotspot with it, and the rotation becomes part of the id, by which viewers keep bitmaps. The
rotation of libyuv is a parameter.
-/
namespace ClantoDesk.CursorDelivery

open CapturerFrames CursorCalibration DrmGeometry DrmStream HotspotGuess

structure DrmCursorData where
  id : UInt64
  width : ℤ
  height : ℤ
  hotx : ℤ
  hoty : ℤ
  colors : Buf

/-- A shape on the wire, and the rotation of the output. -/
structure Shape where
  id : UInt64
  width : ℕ
  height : ℕ
  hotx : ℤ
  hoty : ℤ
  hotMeasured : Bool
  raw : Buf
  t : ℤ

def hidden : UInt64 := UInt64.ofNat HIDDEN_CURSOR_ID

def unrotateHotspot (transform w h hotx hoty : ℤ) : ℤ × ℤ :=
  if transform = 90 then (i32 (h - 1 - hoty), hotx)
  else if transform = 180 then (i32 (w - 1 - hotx), i32 (h - 1 - hoty))
  else if transform = 270 then (hoty, i32 (w - 1 - hotx))
  else (hotx, hoty)

def asU64 (t : ℤ) : UInt64 := UInt64.ofNat (t % 4294967296).toNat

def foldCursorId (id : UInt64) (t : ℤ) : UInt64 :=
  if id = hidden then id else (id ^^^ asU64 t) * 1099511628211

section Delivery

variable (argbRotate : Buf → ℕ → Buf → ℕ → ℕ → ℕ → RotationMode → Buf)

def deliverDrmCursor (c : Shape) : DrmCursorData :=
  if c.t ≠ 0 then
    let turned := unrotateBgra argbRotate c.raw c.width c.height c.t []
    let (dw, dh) := rotatedDims c.t c.width c.height
    let (hx, hy) :=
      if c.hotMeasured then unrotateHotspot c.t (i32 c.width) (i32 c.height) c.hotx c.hoty
      else inferHotspot turned dw dh
    ⟨foldCursorId c.id c.t, i32 dw, i32 dh, hx, hy, turned⟩
  else ⟨foldCursorId c.id c.t, i32 c.width, i32 c.height, c.hotx, c.hoty, c.raw⟩

end Delivery

/-- The four octets of a pixel, in rows of the given length. -/
def pixel (buf : Buf) (stride x y : ℕ) : Buf := (buf.drop (y * stride + 4 * x)).take 4

/-- Where a rotation puts the pixel of a bitmap. -/
def placed (mode : RotationMode) (w h x y : ℕ) : ℕ × ℕ :=
  match mode with
  | .kRotate0 => (x, y)
  | .kRotate90 => (h - 1 - y, x)
  | .kRotate180 => (w - 1 - x, h - 1 - y)
  | .kRotate270 => (y, w - 1 - x)

def modeOf (t : ℤ) : RotationMode :=
  if t = 90 then .kRotate90
  else if t = 180 then .kRotate180
  else if t = 270 then .kRotate270
  else .kRotate0

section Upright

variable (argbRotate : Buf → ℕ → Buf → ℕ → ℕ → ℕ → RotationMode → Buf)

/-- `ARGBRotate` fills a target of the size of the bitmap, and puts every pixel at its place. -/
structure Rotates (src : Buf) (w h : ℕ) (t : ℤ) : Prop where
  length : ∀ dst : Buf, dst.length = w * h * 4 →
    (argbRotate src (src.length / h) dst ((rotatedDims t w h).1 * 4) w h (modeOf t)).length =
      w * h * 4
  pixel : ∀ dst : Buf, dst.length = w * h * 4 → ∀ x y, x < w → y < h →
    pixel (argbRotate src (src.length / h) dst ((rotatedDims t w h).1 * 4) w h (modeOf t))
        ((rotatedDims t w h).1 * 4) (placed (modeOf t) w h x y).1 (placed (modeOf t) w h x y).2 =
      pixel src (src.length / h) x y

variable (c : Shape)

/-- A bitmap with the body that the receiving thread insists on, and a rotated output. -/
structure Checked (c : Shape) : Prop where
  angle : c.t = 90 ∨ c.t = 180 ∨ c.t = 270
  width : 0 < c.width
  height : 0 < c.height
  body : c.width * c.height * 4 ≤ c.raw.length
  bound : c.raw.length ≤ maxDrmRawBytes

theorem area_rotatedDims (t : ℤ) (w h : ℕ) :
    (rotatedDims t w h).1 * (rotatedDims t w h).2 = w * h := by
  rw [rotatedDims]
  split_ifs
  · exact Nat.mul_comm h w
  · rfl

theorem unrotateBgra_eq (hc : Checked c) : ∃ dst : Buf, dst.length = c.width * c.height * 4 ∧
    unrotateBgra argbRotate c.raw c.width c.height c.t [] =
      argbRotate c.raw (c.raw.length / c.height) dst ((rotatedDims c.t c.width c.height).1 * 4)
        c.width c.height (modeOf c.t) := by
  have harea : 0 < c.width * c.height := Nat.mul_pos hc.width hc.height
  have hsize : c.width * c.height * 4 < 18446744073709551616 := by
    have hbound := hc.bound
    have hbody := hc.body
    rw [maxDrmRawBytes] at hbound
    omega
  have hstride : ¬c.raw.length / c.height < c.width * 4 := by
    rw [not_lt, Nat.le_div_iff_mul_le hc.height]
    have hbody := hc.body
    rwa [Nat.mul_right_comm] at hbody
  refine ⟨List.replicate (c.width * c.height * 4) 0, List.length_replicate, ?_⟩
  have hne : List.replicate (c.width * c.height * 4) (0 : UInt8) ≠ [] := by
    simp only [ne_eq, List.replicate_eq_nil_iff]
    omega
  simp only [unrotateBgra, area_rotatedDims, hsize, if_true, List.take_nil, List.nil_append,
    List.length_nil, Nat.sub_zero, hne, hstride, hc.height, or_self, if_false, modeOf]

theorem Checked.small (hc : Checked c) : c.width < 2147483648 ∧ c.height < 2147483648 := by
  have hwidth : c.width ≤ c.width * c.height := Nat.le_mul_of_pos_right _ hc.height
  have hheight : c.height ≤ c.width * c.height := Nat.le_mul_of_pos_left _ hc.width
  have hbound := hc.bound
  have hbody := hc.body
  rw [maxDrmRawBytes] at hbound
  omega

theorem i32_small (n : ℕ) (h : n < 2147483648) : i32 n = n := by
  rw [i32, Int.bmod_eq_of_le] <;> omega

/-- The hotspot goes where its pixel goes. -/
theorem unrotateHotspot_eq (hc : Checked c) (x y : ℕ) (hx : x < c.width) (hy : y < c.height) :
    let at' := placed (modeOf c.t) c.width c.height x y
    unrotateHotspot c.t (i32 c.width) (i32 c.height) x y = ((at'.1 : ℤ), (at'.2 : ℤ)) ∧
      at'.1 < (rotatedDims c.t c.width c.height).1 ∧
      at'.2 < (rotatedDims c.t c.width c.height).2 := by
  obtain ⟨hwidth, hheight⟩ := hc.small
  have hleft : i32 ((c.width : ℤ) - 1 - x) = ((c.width - 1 - x : ℕ) : ℤ) := by
    rw [← i32_small (c.width - 1 - x) (by omega)]
    congr 1
    omega
  have hup : i32 ((c.height : ℤ) - 1 - y) = ((c.height - 1 - y : ℕ) : ℤ) := by
    rw [← i32_small (c.height - 1 - y) (by omega)]
    congr 1
    omega
  rw [i32_small _ hwidth, i32_small _ hheight]
  rcases hc.angle with h | h | h
  · simp [h, unrotateHotspot, modeOf, rotatedDims, placed, hup, hx]
    omega
  · simp [h, unrotateHotspot, modeOf, rotatedDims, placed, hleft, hup]
    omega
  · simp [h, unrotateHotspot, modeOf, rotatedDims, placed, hleft, hy]
    omega

def InRange (t : ℤ) : Prop := -2147483648 ≤ t ∧ t < 2147483648

instance decidableInRange (t : ℤ) : Decidable (InRange t) := inferInstanceAs (Decidable (_ ∧ _))

theorem asU64_inj (t t' : ℤ) (ht : InRange t) (ht' : InRange t') (h : asU64 t = asU64 t') :
    t = t' := by
  obtain ⟨hlow, hhigh⟩ := ht
  obtain ⟨hlow', hhigh'⟩ := ht'
  have hnat := congrArg UInt64.toNat h
  rw [asU64, asU64, UInt64.toNat_ofNat_of_lt', UInt64.toNat_ofNat_of_lt'] at hnat
  · omega
  · simp only [UInt64.size]
    omega
  · simp only [UInt64.size]
    omega

/-- The multiplier is odd, so a shape has one id for each rotation. -/
theorem foldCursorId_inj (id : UInt64) (t t' : ℤ) (hid : id ≠ hidden) (ht : InRange t)
    (ht' : InRange t') (h : foldCursorId id t = foldCursorId id t') : t = t' := by
  have hinverse : (1099511628211 * 14886173955864302971 : UInt64) = 1 := by decide
  rw [foldCursorId, foldCursorId, if_neg hid, if_neg hid] at h
  have hback := congrArg (· * 14886173955864302971) h
  simp only [UInt64.mul_assoc, hinverse, UInt64.mul_one] at hback
  exact asU64_inj t t' ht ht' (by simpa using hback)

theorem id_deliverDrmCursor : (deliverDrmCursor argbRotate c).id = foldCursorId c.id c.t := by
  rw [deliverDrmCursor]
  split
  · rfl
  · rfl

/-- On a rotated output the bitmap that is served has the size that goes with it, a measured
hotspot names the pixel that it named on the wire, and no two rotations of a shape share an id. -/
theorem cursor_upright (c : Shape) (hc : Checked c)
    (hrotate : Rotates argbRotate c.raw c.width c.height c.t) :
    let d := deliverDrmCursor argbRotate c
    d.width * d.height * 4 = d.colors.length ∧
      (∀ x y : ℕ, c.hotMeasured = true → x < c.width → y < c.height → c.hotx = x → c.hoty = y →
        ∃ x' y' : ℕ, d.hotx = x' ∧ d.hoty = y' ∧ (x' : ℤ) < d.width ∧ (y' : ℤ) < d.height ∧
          pixel d.colors (d.width.toNat * 4) x' y' =
            pixel c.raw (c.raw.length / c.height) x y) ∧
      (c.id = hidden → d.id = hidden) ∧
      ∀ c' : Shape, c'.id = c.id → c.id ≠ hidden → InRange c'.t →
        (deliverDrmCursor argbRotate c').id = d.id → c'.t = c.t := by
  intro d
  obtain ⟨dst, hlength, hturned⟩ := unrotateBgra_eq argbRotate c hc
  obtain ⟨hwidth, hheight⟩ := hc.small
  have hangle : c.t ≠ 0 := by
    rcases hc.angle with h | h | h <;> omega
  have hsize : d.width = (rotatedDims c.t c.width c.height).1 ∧
      d.height = (rotatedDims c.t c.width c.height).2 ∧
      d.colors = unrotateBgra argbRotate c.raw c.width c.height c.t [] := by
    have hdims : (rotatedDims c.t c.width c.height).1 < 2147483648 ∧
        (rotatedDims c.t c.width c.height).2 < 2147483648 := by
      rw [rotatedDims]
      split_ifs
      · exact ⟨hheight, hwidth⟩
      · exact ⟨hwidth, hheight⟩
    simp only [d, deliverDrmCursor, if_pos hangle, i32_small _ hdims.1, i32_small _ hdims.2,
      and_self]
  obtain ⟨hw, hh, hcolors⟩ := hsize
  refine ⟨?_, fun x y hmeasured hx hy hhotx hhoty => ?_, fun hhidden => ?_, ?_⟩
  · rw [hw, hh, hcolors, hturned, hrotate.length dst hlength,
      ← area_rotatedDims c.t c.width c.height]
    push_cast
    rfl
  · obtain ⟨hplace, hinx, hiny⟩ := unrotateHotspot_eq c hc x y hx hy
    have hhot : (d.hotx, d.hoty) = unrotateHotspot c.t (i32 c.width) (i32 c.height) x y := by
      simp only [d, deliverDrmCursor, if_pos hangle, if_pos hmeasured, hhotx, hhoty]
    obtain ⟨hhx, hhy⟩ := Prod.mk.inj (hhot.trans hplace)
    refine ⟨_, _, hhx, hhy, ?_, ?_, ?_⟩
    · rw [hw]
      exact_mod_cast hinx
    · rw [hh]
      exact_mod_cast hiny
    · rw [hw, hcolors, hturned, Int.toNat_natCast]
      exact hrotate.pixel dst hlength x y hx hy
  · rw [id_deliverDrmCursor, foldCursorId, if_pos hhidden, hhidden]
  · intro c' hid hshown hrange hsame
    rw [id_deliverDrmCursor, id_deliverDrmCursor, hid] at hsame
    refine foldCursorId_inj c.id c'.t c.t hshown hrange ?_ hsame
    rcases hc.angle with h | h | h <;> rw [h] <;> decide

/-- Two pixels, and a rotation that turns them clockwise. -/
def sampleShape : Shape := ⟨7, 2, 1, 1, 0, true, [1, 2, 3, 4, 5, 6, 7, 8], 90⟩

def sampleRotate : Buf → ℕ → Buf → ℕ → ℕ → ℕ → RotationMode → Buf := fun src _ _ _ _ _ _ => src

theorem cursor_upright_sample :
    let d := deliverDrmCursor sampleRotate sampleShape
    d.width * d.height * 4 = d.colors.length ∧ ∃ x' y' : ℕ, d.hotx = x' ∧ d.hoty = y' ∧
      pixel d.colors (d.width.toNat * 4) x' y' = [5, 6, 7, 8] := by
  have hplaced : ∀ x < 2, ∀ y < 1,
      pixel [1, 2, 3, 4, 5, 6, 7, 8] 4 (placed .kRotate90 2 1 x y).1 (placed .kRotate90 2 1 x y).2 =
        pixel [1, 2, 3, 4, 5, 6, 7, 8] 8 x y := by decide
  obtain ⟨hsize, hhot, -⟩ := cursor_upright sampleRotate sampleShape
    ⟨Or.inl rfl, by decide, by decide, by decide, by decide⟩
    ⟨fun _ _ => rfl, fun _ _ x y hx hy => hplaced x hx y hy⟩
  obtain ⟨x', y', hx', hy', -, -, hpixel⟩ := hhot 1 0 rfl (by decide) (by decide) rfl rfl
  exact ⟨hsize, x', y', hx', hy', hpixel⟩

end Upright

end ClantoDesk.CursorDelivery
