import ClantoDesk.Runs
import ClantoDesk.SortedMap
import Mathlib.Algebra.Order.Ring.Int
import Mathlib.Logic.Function.Basic

/-!
The calibration of the cursor's hotspot, src/server/drm_capturer.rs. A stream compares where the
peer's pointer was put with where the cursor plane came to rest; two measurements that agree
correct the hotspot that the producer guessed. Corrections are cached by the wire id of the shape,
with the generation of the layout they were confirmed under, and the cache is shared by all
streams. What is served is what is handed to `deliver_drm_cursor`, which on a rotated output turns
it together with the bitmap.
-/
namespace ClantoDesk.CursorCalibration

-- `((d as f64) * p as f64 / a as f64).round() as i32`
variable (scale : ℤ → ℤ → ℤ → ℤ)

abbrev Pos := ℤ × ℤ

abbrev Hotspot := ℤ × ℤ

/-- What an `i32` keeps of a result. -/
def i32 (z : ℤ) : ℤ := z.bmod 4294967296

def HIDDEN_CURSOR_ID : ℕ := 18446744073709551615

def CURSOR_CAL_STABLE_TICKS : ℕ := 3

def CURSOR_CAL_WINDOW_TICKS : ℕ := 33

def CURSOR_CAL_TOLERANCE : ℤ := 2

def CURSOR_CAL_MIN_INPUT_AGE_MS : ℕ := 150

def CURSOR_CAL_MAX_INPUT_AGE_MS : ℕ := 10000

def CURSOR_CAL_CACHE_CAP : ℕ := 64

structure CalContext where
  rect : ℤ × ℤ × ℤ × ℤ
  physicalSize : ℤ × ℤ
  builtGen : ℕ

structure PeerAbsSample where
  pos : Pos
  ageMs : ℕ
  seq : ℕ
  gen : ℕ
  mapEpoch : ℕ

def measureHotspot (ctx : CalContext) (injected plane : Pos) (cursorSize : ℤ × ℤ) :
    Option Hotspot :=
  let (ax, ay, aw, ah) := ctx.rect
  let (px, py) := ctx.physicalSize
  let (ix, iy) := injected
  if ix < ax ∨ i32 (ax + aw) ≤ ix ∨ iy < ay ∨ i32 (ay + ah) ≤ iy then none
  else
    let tipx := scale (i32 (ix - ax)) px aw
    let tipy := scale (i32 (iy - ay)) py ah
    let h := (i32 (tipx - plane.1), i32 (tipy - plane.2))
    if h.1 < 0 ∨ h.2 < 0 ∨ cursorSize.1 ≤ h.1 ∨ cursorSize.2 ≤ h.2 then none
    else some h

/-- What a stream knows of the shape that it shows; for the account also whether the producer
measured the hotspot, and the reported positions of the plane, the last one first. -/
structure CursorCal where
  id : ℕ
  width : ℕ
  height : ℕ
  ctx : CalContext
  wireHot : Hotspot
  currentHot : Hotspot
  candidate : Option (Hotspot × ℕ × ℕ)
  plane : Option Pos
  stableTicks : ℕ
  measuredThisPosition : Bool
  hotMeasured : Bool
  reports : List Pos

def calibratable (id : ℕ) (hotMeasured : Bool) : Bool :=
  id != HIDDEN_CURSOR_ID && !hotMeasured

def updatePlaneStability (c : CursorCal) (p : Pos) : CursorCal :=
  if c.plane ≠ some p then
    { c with
      plane := some p, stableTicks := 0, measuredThisPosition := false
      reports := p :: c.reports }
  else { c with stableTicks := min (c.stableTicks + 1) 4294967295, reports := p :: c.reports }

def settledUnmeasured (c : CursorCal) : Bool :=
  !c.measuredThisPosition && decide (CURSOR_CAL_STABLE_TICKS ≤ c.stableTicks) &&
    decide (c.stableTicks ≤ CURSOR_CAL_WINDOW_TICKS)

def usableSample (ctx : CalContext) (s : Option PeerAbsSample) (drifted : Bool)
    (currentGen mapGen mapEpoch : ℕ) : Option (Pos × ℕ × ℕ) :=
  if drifted = true ∨ currentGen ≠ ctx.builtGen ∨ mapGen ≠ ctx.builtGen then none
  else
    match s with
    | none => none
    | some s =>
      if s.gen ≠ ctx.builtGen ∨ s.mapEpoch ≠ mapEpoch then none
      else if s.ageMs < CURSOR_CAL_MIN_INPUT_AGE_MS ∨ CURSOR_CAL_MAX_INPUT_AGE_MS < s.ageMs then
        none
      else some (s.pos, s.seq, s.mapEpoch)

/-- `abs` of a difference of two `i32`. -/
def distance (a b : ℤ) : ℤ := i32 |i32 (a - b)|

def near (a b : Hotspot) : Bool :=
  decide (distance a.1 b.1 ≤ CURSOR_CAL_TOLERANCE) &&
    decide (distance a.2 b.2 ≤ CURSOR_CAL_TOLERANCE)

def observeMeasurement (c : CursorCal) (m : Hotspot) (seq mapEpoch : ℕ) :
    CursorCal × Option Hotspot :=
  match c.candidate with
  | some (k, kseq, kepoch) =>
    if kseq = seq then (c, none)
    else if kepoch = mapEpoch ∧ near k m = true then ({ c with candidate := none }, some k)
    else ({ c with candidate := some (m, seq, mapEpoch) }, none)
  | none => ({ c with candidate := some (m, seq, mapEpoch) }, none)

/-! ### The cache -/

abbrev Cache := SortedMap ℕ (Hotspot × ℕ)

def storeCursorCal (cache : Cache) (wireId : ℕ) (h : Hotspot) (gen : ℕ) : Cache :=
  if (cache.get wireId).any (fun e => decide (gen < e.2)) then cache
  else if CURSOR_CAL_CACHE_CAP ≤ cache.entries.length ∧ cache.get wireId = none then
    let kept := cache.retain fun e => decide (gen < e.2)
    if CURSOR_CAL_CACHE_CAP ≤ kept.entries.length then kept else kept.insert wireId (h, gen)
  else cache.insert wireId (h, gen)

def forgetCursorCal (cache : Cache) (wireId gen : ℕ) : Cache :=
  if (cache.get wireId).any (fun e => decide (e.2 ≤ gen)) then cache.erase wireId else cache

def cachedCursorCal (cache : Cache) (wireId gen : ℕ) : Option Hotspot :=
  ((cache.get wireId).filter fun e => decide (e.2 = gen)).map fun e => e.1

def remixCoordinate (id : UInt64) (v : ℤ) : UInt64 :=
  (id ^^^ UInt64.ofNat (v % 4294967296).toNat) * 1099511628211

def remixCursorId (wireId : ℕ) (hotx hoty : ℤ) : ℕ :=
  (remixCoordinate (remixCoordinate (UInt64.ofNat wireId ^^^ 0x9e3779b97f4a7c15) hotx)
    hoty).toNat

/-! ### Shapes and frames -/

/-- What is handed to `deliver_drm_cursor`, and for the account what the producer had sent and the
generation of the stream's layout. -/
structure Delivery where
  servedId : ℕ
  served : Hotspot
  id : ℕ
  wireHot : Hotspot
  hotMeasured : Bool
  gen : Option ℕ

/-- A measurement of a shape, with the generation at that time, the positions of the plane reported
until then, and the peer sample it was taken against. -/
structure Measurement where
  id : ℕ
  width : ℕ
  height : ℕ
  gen : ℕ
  reports : List Pos
  seq : ℕ
  mapEpoch : ℕ
  hot : Hotspot

inductive Entry where
  | measured (m : Measurement)
  | delivered (d : Delivery)

def CursorCal.delivery (c : CursorCal) : Delivery :=
  { servedId := if c.currentHot = c.wireHot then c.id
      else remixCursorId c.id c.currentHot.1 c.currentHot.2
    served := c.currentHot, id := c.id, wireHot := c.wireHot, hotMeasured := c.hotMeasured
    gen := some c.ctx.builtGen }

def applyConfirmedHotspot (cache : Cache) (c : CursorCal) (accepted : Hotspot) :
    Cache × CursorCal × List Entry :=
  if near accepted c.currentHot = true then
    if c.currentHot = c.wireHot then (forgetCursorCal cache c.id c.ctx.builtGen, c, [])
    else if cachedCursorCal cache c.id c.ctx.builtGen ≠ some c.currentHot then
      (storeCursorCal cache c.id c.currentHot c.ctx.builtGen, c, [])
    else (cache, c, [])
  else if near accepted c.wireHot = true then
    let c' := { c with currentHot := c.wireHot }
    (forgetCursorCal cache c.id c.ctx.builtGen, c', [.delivered c'.delivery])
  else
    let c' := { c with currentHot := accepted }
    (storeCursorCal cache c.id accepted c.ctx.builtGen, c', [.delivered c'.delivery])

def onCursorShape (cache : Cache) (ctx : Option CalContext) (id width height : ℕ) (hot : Hotspot)
    (hotMeasured : Bool) : Option CursorCal × Entry :=
  match ctx with
  | some ctx =>
    if calibratable id hotMeasured = true then
      let c : CursorCal :=
        { id := id, width := width, height := height, ctx := ctx, wireHot := hot
          currentHot := (cachedCursorCal cache id ctx.builtGen).getD hot, candidate := none
          plane := none, stableTicks := 0, measuredThisPosition := false
          hotMeasured := hotMeasured, reports := [] }
      (some c, .delivered c.delivery)
    else (none, .delivered ⟨id, hot, id, hot, hotMeasured, some ctx.builtGen⟩)
  | none => (none, .delivered ⟨id, hot, id, hot, hotMeasured, none⟩)

def onCursorPlane (cache : Cache) (c : CursorCal) (p : Pos) (sample : Option PeerAbsSample)
    (drifted : Bool) (currentGen mapGen mapEpoch : ℕ) : Cache × CursorCal × List Entry :=
  let c := updatePlaneStability c p
  if settledUnmeasured c = true then
    match usableSample c.ctx sample drifted currentGen mapGen mapEpoch with
    | none => (cache, c, [])
    | some (injected, seq, epoch) =>
      let c := { c with measuredThisPosition := true }
      match measureHotspot scale c.ctx injected p (i32 c.width, i32 c.height) with
      | none => (cache, c, [])
      | some m =>
        let entry :=
          Entry.measured ⟨c.id, c.width, c.height, currentGen, c.reports, seq, epoch, m⟩
        match observeMeasurement c m seq epoch with
        | (c, none) => (cache, c, [entry])
        | (c, some accepted) =>
          let (cache, c, entries) := applyConfirmedHotspot cache c accepted
          (cache, c, entry :: entries)
  else (cache, c, [])

structure State where
  cals : ℕ → Option CursorCal
  cache : Cache
  log : List Entry

def start : State := ⟨fun _ => none, SortedMap.empty, []⟩

inductive Event where
  | shape (i : ℕ) (ctx : Option CalContext) (id width height : ℕ) (hot : Hotspot)
    (hotMeasured : Bool)
  | frame (i : ℕ) (pos : Option Pos) (sample : Option PeerAbsSample) (drifted : Bool)
    (currentGen mapGen mapEpoch : ℕ)

def step (s : State) : Event → State
  | .shape i ctx id width height hot hotMeasured =>
    let (cal, entry) := onCursorShape s.cache ctx id width height hot hotMeasured
    { s with cals := Function.update s.cals i cal, log := s.log ++ [entry] }
  | .frame i pos sample drifted currentGen mapGen mapEpoch =>
    match s.cals i, pos with
    | some c, some p =>
      let (cache, c, entries) :=
        onCursorPlane scale s.cache c p sample drifted currentGen mapGen mapEpoch
      ⟨Function.update s.cals i (some c), cache, s.log ++ entries⟩
    | _, _ => s

def run (es : List Event) : State := es.foldl (step scale) start

/-! ### Arithmetic on `i32` -/

variable (log entries : List Entry) (gen : ℕ) (cache : Cache) (wireId : ℕ) (h : Hotspot)
  (c : CursorCal) (p : Pos) (m : Measurement)

theorem i32_of_range (z : ℤ) (hlow : -2147483648 ≤ z) (hhigh : z < 2147483648) : i32 z = z := by
  unfold i32
  rw [Int.bmod_def]
  split <;> omega

theorem i32_lt (z : ℤ) : i32 z < 2147483648 := by
  unfold i32
  rw [Int.bmod_def]
  split <;> omega

theorem i32_natCast_le (n : ℕ) : i32 n ≤ n := by
  unfold i32
  rw [Int.bmod_def]
  split <;> omega

theorem distance_eq (a b : ℤ) (ha : 0 ≤ a ∧ a < 2147483648) (hb : 0 ≤ b ∧ b < 2147483648) :
    distance a b = |a - b| := by
  unfold distance
  rw [i32_of_range (a - b) (by omega) (by omega)]
  refine i32_of_range _ ?_ ?_
  · exact le_trans (by decide) (abs_nonneg (a - b))
  · exact abs_lt.mpr ⟨by omega, by omega⟩

/-! ### What the cache keeps -/

theorem get_storeCursorCal (gen key : ℕ)
    (e : Hotspot × ℕ) (hget : (storeCursorCal cache wireId h gen).get key = some e) :
    cache.get key = some e ∨ key = wireId ∧ e = (h, gen) := by
  have hinsert : ∀ m : Cache, (m.insert wireId (h, gen)).get key = some e →
      m.get key = some e ∨ key = wireId ∧ e = (h, gen) := by
    intro m hm
    rw [SortedMap.get_insert] at hm
    split at hm
    next hkey => exact Or.inr ⟨hkey, (Option.some.inj hm).symm⟩
    next => exact Or.inl hm
  have hretain : ∀ keep : Hotspot × ℕ → Bool, (cache.retain keep).get key = some e →
      cache.get key = some e := by
    intro keep hm
    rw [SortedMap.get_retain, Option.filter_eq_some_iff] at hm
    exact hm.1
  unfold storeCursorCal at hget
  split at hget
  · exact Or.inl hget
  · split at hget
    · dsimp only at hget
      split at hget
      · exact Or.inl (hretain _ hget)
      · exact (hinsert _ hget).imp_left (hretain _)
    · exact hinsert cache hget

/-- An entry is replaced or dropped only by its own generation or a newer one. -/
theorem storeCursorCal_keeps (gen key g : ℕ)
    (k : Hotspot) (hget : cache.get key = some (k, g)) (hnewer : gen < g) :
    (storeCursorCal cache wireId h gen).get key = some (k, g) := by
  unfold storeCursorCal
  split
  · exact hget
  next hany =>
    have hne : key ≠ wireId := by
      rintro rfl
      rw [hget] at hany
      exact hany (decide_eq_true hnewer)
    have hretain : (cache.retain fun e => decide (gen < e.2)).get key = some (k, g) := by
      rw [SortedMap.get_retain, hget]
      exact Option.filter_eq_some_iff.mpr ⟨rfl, decide_eq_true hnewer⟩
    split
    · dsimp only
      split
      · exact hretain
      · rw [SortedMap.get_insert, if_neg hne]
        exact hretain
    · rw [SortedMap.get_insert, if_neg hne]
      exact hget

theorem length_storeCursorCal (gen : ℕ) (hcap : cache.entries.length ≤ CURSOR_CAL_CACHE_CAP) :
    (storeCursorCal cache wireId h gen).entries.length ≤ CURSOR_CAL_CACHE_CAP := by
  unfold storeCursorCal
  split
  · exact hcap
  split
  · have hretain := cache.length_retain_le fun e => decide (gen < e.2)
    dsimp only
    split
    · exact hretain.trans hcap
    next hroom => exact (SortedMap.length_insert_le _ _ _).trans (not_le.mp hroom)
  next hroom =>
    cases hget : cache.get wireId with
    | none =>
      have hless := not_le.mp fun hfull => hroom ⟨hfull, hget⟩
      exact (SortedMap.length_insert_le _ _ _).trans hless
    | some old =>
      rw [SortedMap.length_insert_of_get cache wireId (h, gen) old hget]
      exact hcap

theorem get_forgetCursorCal (gen key : ℕ) (e : Hotspot × ℕ)
    (hget : (forgetCursorCal cache wireId gen).get key = some e) : cache.get key = some e := by
  unfold forgetCursorCal at hget
  split at hget
  · rw [SortedMap.get_erase] at hget
    split at hget
    · cases hget
    · exact hget
  · exact hget

theorem forgetCursorCal_keeps (gen key g : ℕ) (k : Hotspot)
    (hget : cache.get key = some (k, g)) (hnewer : gen < g) :
    (forgetCursorCal cache wireId gen).get key = some (k, g) := by
  unfold forgetCursorCal
  split
  next hany =>
    have hne : key ≠ wireId := by
      rintro rfl
      rw [hget] at hany
      exact absurd (of_decide_eq_true hany) (not_le.mpr hnewer)
    rw [SortedMap.get_erase, if_neg hne]
    exact hget
  next => exact hget

theorem length_forgetCursorCal (gen : ℕ) :
    (forgetCursorCal cache wireId gen).entries.length ≤ cache.entries.length := by
  unfold forgetCursorCal
  split
  · exact cache.length_erase_le wireId
  · exact le_rfl

theorem get_of_cachedCursorCal (gen : ℕ) (h : Hotspot)
    (hcached : cachedCursorCal cache wireId gen = some h) : cache.get wireId = some (h, gen) := by
  obtain ⟨e, he, rfl⟩ := Option.map_eq_some_iff.mp hcached
  obtain ⟨hget, hgen⟩ := Option.filter_eq_some_iff.mp he
  rw [hget, ← of_decide_eq_true hgen]

/-! ### Measurements -/

def Settled (reports : List Pos) : Prop :=
  ∃ p k rest, reports = List.replicate (k + 1) p ++ rest ∧ rest.head? ≠ some p ∧
    CURSOR_CAL_STABLE_TICKS ≤ k ∧ k ≤ CURSOR_CAL_WINDOW_TICKS

def InBitmap (m : Measurement) : Prop :=
  0 ≤ m.hot.1 ∧ m.hot.1 < m.width ∧ 0 ≤ m.hot.2 ∧ m.hot.2 < m.height

structure Confirms (first second : Measurement) : Prop where
  id : first.id = second.id
  gen : first.gen = second.gen
  settled : Settled first.reports ∧ Settled second.reports
  inBitmap : InBitmap first ∧ InBitmap second
  moved : ∃ front, second.reports = front ++ first.reports ∧
    ∃ q ∈ front, first.reports.head? ≠ some q
  seq : first.seq ≠ second.seq
  mapEpoch : first.mapEpoch = second.mapEpoch
  near : |first.hot.1 - second.hot.1| ≤ CURSOR_CAL_TOLERANCE ∧
    |first.hot.2 - second.hot.2| ≤ CURSOR_CAL_TOLERANCE

/-- The hotspot is the first of two measurements of the wire id, made under the generation, of which
the second one confirms it. -/
def Confirmed (log : List Entry) (id gen : ℕ) (hot : Hotspot) : Prop :=
  ∃ first second, .measured first ∈ log ∧ .measured second ∈ log ∧ Confirms first second ∧
    first.id = id ∧ first.gen = gen ∧ first.hot = hot

theorem Confirmed.mono (id gen : ℕ) (hot : Hotspot)
    (h : Confirmed log id gen hot) : Confirmed (log ++ entries) id gen hot := by
  obtain ⟨first, second, hfirst, hsecond, h⟩ := h
  exact ⟨first, second, List.mem_append_left _ hfirst, List.mem_append_left _ hsecond, h⟩

/-- A measurement that can be a candidate: settled, inside the bitmap and in the range of `i32`. -/
structure Sound (m : Measurement) : Prop where
  settled : Settled m.reports
  inBitmap : InBitmap m
  range : m.hot.1 < 2147483648 ∧ m.hot.2 < 2147483648

theorem measureHotspot_inside (ctx : CalContext) (injected plane : Pos) (width height : ℕ)
    (hot : Hotspot)
    (hmeasured : measureHotspot scale ctx injected plane (i32 width, i32 height) = some hot) :
    (0 ≤ hot.1 ∧ hot.1 < width ∧ 0 ≤ hot.2 ∧ hot.2 < height) ∧
      hot.1 < 2147483648 ∧ hot.2 < 2147483648 := by
  unfold measureHotspot at hmeasured
  dsimp only at hmeasured
  split at hmeasured
  · cases hmeasured
  split at hmeasured
  · cases hmeasured
  next hinside =>
    push Not at hinside
    obtain rfl := Option.some.inj hmeasured
    obtain ⟨hx, hy, hwidth, hheight⟩ := hinside
    exact ⟨⟨hx, hwidth.trans_le (i32_natCast_le width), hy,
      hheight.trans_le (i32_natCast_le height)⟩, i32_lt _, i32_lt _⟩

theorem gen_of_usableSample (ctx : CalContext) (sample : Option PeerAbsSample) (drifted : Bool)
    (currentGen mapGen mapEpoch : ℕ) (used : Pos × ℕ × ℕ)
    (h : usableSample ctx sample drifted currentGen mapGen mapEpoch = some used) :
    currentGen = ctx.builtGen := by
  unfold usableSample at h
  split at h
  · cases h
  next hgood =>
    push Not at hgood
    exact hgood.2.1

theorem near_exact (first second : Measurement) (hfirst : Sound first) (hsecond : Sound second)
    (hnear : near first.hot second.hot = true) :
    |first.hot.1 - second.hot.1| ≤ CURSOR_CAL_TOLERANCE ∧
      |first.hot.2 - second.hot.2| ≤ CURSOR_CAL_TOLERANCE := by
  rw [near, Bool.and_eq_true, decide_eq_true_iff, decide_eq_true_iff] at hnear
  obtain ⟨hx, -, hy, -⟩ := hfirst.inBitmap
  obtain ⟨hx', -, hy', -⟩ := hsecond.inBitmap
  rwa [distance_eq _ _ ⟨hx, hfirst.range.1⟩ ⟨hx', hsecond.range.1⟩,
    distance_eq _ _ ⟨hy, hfirst.range.2⟩ ⟨hy', hsecond.range.2⟩] at hnear

/-! ### What a stream knows of its shape -/

def Counted (c : CursorCal) : Prop :=
  c.plane = c.reports.head? ∧
    ∀ p, c.plane = some p → ∃ k rest, c.reports = List.replicate (k + 1) p ++ rest ∧
      rest.head? ≠ some p ∧ c.stableTicks = min k 4294967295

def MovedSince (c : CursorCal) (m : Measurement) : Prop :=
  ∃ front, c.reports = front ++ m.reports ∧
    ((∃ q ∈ front, m.reports.head? ≠ some q) ∨
      c.measuredThisPosition = true ∧ c.reports.head? = m.reports.head?)

structure Trusted (log : List Entry) (c : CursorCal) : Prop where
  calibratable : calibratable c.id c.hotMeasured = true
  counted : Counted c
  served : c.currentHot ≠ c.wireHot → Confirmed log c.id c.ctx.builtGen c.currentHot
  candidate : ∀ k seq epoch, c.candidate = some (k, seq, epoch) →
    ∃ m, .measured m ∈ log ∧ Sound m ∧ MovedSince c m ∧ m.id = c.id ∧ m.gen = c.ctx.builtGen ∧
      m.hot = k ∧ m.seq = seq ∧ m.mapEpoch = epoch

theorem Trusted.mono (h : Trusted log c) : Trusted (log ++ entries) c := by
  refine ⟨h.calibratable, h.counted, fun hne => (h.served hne).mono _ _ _ _ _, ?_⟩
  intro k seq epoch hcandidate
  obtain ⟨m, hm, hrest⟩ := h.candidate k seq epoch hcandidate
  exact ⟨m, List.mem_append_left _ hm, hrest⟩

theorem counted_updatePlaneStability (h : Counted c) : Counted (updatePlaneStability c p) := by
  obtain ⟨hplane, hticks⟩ := h
  unfold updatePlaneStability
  split
  next hmoved =>
    refine ⟨rfl, ?_⟩
    rintro q hq
    obtain rfl := Option.some.inj hq
    exact ⟨0, c.reports, rfl, hplane ▸ hmoved, rfl⟩
  next hstill =>
    push Not at hstill
    obtain ⟨k, rest, hreports, hrest, hk⟩ := hticks p hstill
    refine ⟨hstill, ?_⟩
    rintro q hq
    obtain rfl : p = q := Option.some.inj (hstill.symm.trans hq)
    refine ⟨k + 1, rest, ?_, hrest, ?_⟩
    · rw [List.replicate_succ, List.cons_append, ← hreports]
    · show min (c.stableTicks + 1) 4294967295 = min (k + 1) 4294967295
      rw [hk]
      omega

theorem movedSince_updatePlaneStability
    (hcounted : Counted c) (h : MovedSince c m) : MovedSince (updatePlaneStability c p) m := by
  obtain ⟨front, hreports, hsince⟩ := h
  unfold updatePlaneStability
  split
  next hmoved =>
    refine ⟨p :: front, by rw [hreports, List.cons_append], Or.inl ?_⟩
    rcases hsince with ⟨q, hq, hne⟩ | ⟨-, hhead⟩
    · exact ⟨q, List.mem_cons_of_mem _ hq, hne⟩
    · exact ⟨p, List.mem_cons_self .., by rw [← hhead, ← hcounted.1]; exact hmoved⟩
  next hstill =>
    push Not at hstill
    refine ⟨p :: front, by rw [hreports, List.cons_append], ?_⟩
    rcases hsince with ⟨q, hq, hne⟩ | ⟨hmeasured, hhead⟩
    · exact Or.inl ⟨q, List.mem_cons_of_mem _ hq, hne⟩
    · exact Or.inr ⟨hmeasured, by rw [← hhead, ← hcounted.1, hstill]; rfl⟩

theorem Trusted.updatePlaneStability
    (h : Trusted log c) : Trusted log (updatePlaneStability c p) := by
  have hsame : (CursorCalibration.updatePlaneStability c p).id = c.id ∧
      (CursorCalibration.updatePlaneStability c p).ctx = c.ctx ∧
      (CursorCalibration.updatePlaneStability c p).wireHot = c.wireHot ∧
      (CursorCalibration.updatePlaneStability c p).currentHot = c.currentHot ∧
      (CursorCalibration.updatePlaneStability c p).candidate = c.candidate ∧
      (CursorCalibration.updatePlaneStability c p).hotMeasured = c.hotMeasured := by
    unfold CursorCalibration.updatePlaneStability
    split <;> exact ⟨rfl, rfl, rfl, rfl, rfl, rfl⟩
  obtain ⟨hid, hctx, hwire, hcurrent, hcandidate, hmeasured⟩ := hsame
  refine ⟨?_, counted_updatePlaneStability c p h.counted, ?_, ?_⟩
  · rw [hid, hmeasured]
    exact h.calibratable
  · rw [hid, hctx, hwire, hcurrent]
    exact h.served
  · rw [hid, hctx, hcandidate]
    intro k seq epoch hk
    obtain ⟨m, hm, hsound, hsince, hrest⟩ := h.candidate k seq epoch hk
    exact ⟨m, hm, hsound, movedSince_updatePlaneStability c p m h.counted hsince, hrest⟩

theorem settled_of_settledUnmeasured (hcounted : Counted c)
    (hplane : c.plane = some p) (h : settledUnmeasured c = true) :
    Settled c.reports ∧ c.measuredThisPosition = false := by
  rw [settledUnmeasured, Bool.and_eq_true, Bool.and_eq_true, decide_eq_true_iff,
    decide_eq_true_iff, Bool.not_eq_true'] at h
  obtain ⟨⟨hmeasured, hstable⟩, hwindow⟩ := h
  obtain ⟨k, rest, hreports, hrest, hk⟩ := hcounted.2 p hplane
  have hexact : c.stableTicks = k := by
    have hsmall : CURSOR_CAL_WINDOW_TICKS < 4294967295 := by decide
    omega
  exact ⟨⟨p, k, rest, hreports, hrest, hexact ▸ hstable, hexact ▸ hwindow⟩, hmeasured⟩

/-- What a stream's cache operations may do: only entries that were there, or that are confirmed,
remain; the cap is kept; entries of newer generations stay. -/
structure Kept (log : List Entry) (gen : ℕ) (cache cache' : Cache) : Prop where
  confirmed : ∀ key e, cache'.get key = some e →
    cache.get key = some e ∨ Confirmed log key e.2 e.1
  cap : cache.entries.length ≤ CURSOR_CAL_CACHE_CAP →
    cache'.entries.length ≤ CURSOR_CAL_CACHE_CAP
  newer : ∀ key k g, cache.get key = some (k, g) → gen < g → cache'.get key = some (k, g)

theorem kept_refl : Kept log gen cache cache :=
  ⟨fun _ _ h => Or.inl h, id, fun _ _ _ h _ => h⟩

theorem kept_store (id gen : ℕ) (h : Hotspot) (hconfirmed : Confirmed log id gen h) :
    Kept log gen cache (storeCursorCal cache id h gen) := by
  refine ⟨?_, length_storeCursorCal cache id h gen, ?_⟩
  · intro key e hget
    rcases get_storeCursorCal cache id h gen key e hget with hold | ⟨rfl, rfl⟩
    · exact Or.inl hold
    · exact Or.inr hconfirmed
  · intro key k g hget hnewer
    exact storeCursorCal_keeps cache id h gen key g k hget hnewer

theorem kept_forget (id gen : ℕ) : Kept log gen cache (forgetCursorCal cache id gen) := by
  refine ⟨?_, (length_forgetCursorCal cache id gen).trans, ?_⟩
  · intro key e hget
    exact Or.inl (get_forgetCursorCal cache id gen key e hget)
  · intro key k g hget hnewer
    exact forgetCursorCal_keeps cache id gen key g k hget hnewer

/-- What may be handed out: a hotspot other than the producer's is a confirmed one, and a hidden or
kernel-measured cursor is handed out as it came. -/
def Right (log : List Entry) (d : Delivery) : Prop :=
  (d.served ≠ d.wireHot → ∃ gen, d.gen = some gen ∧ Confirmed log d.id gen d.served) ∧
    (d.id = HIDDEN_CURSOR_ID ∨ d.hotMeasured = true → d.served = d.wireHot ∧ d.servedId = d.id)

theorem Trusted.right (h : Trusted log c) : Right log c.delivery := by
  refine ⟨fun hne => ⟨c.ctx.builtGen, rfl, h.served hne⟩, ?_⟩
  intro hfixed
  have hcal := h.calibratable
  rw [CursorCalibration.calibratable, Bool.and_eq_true, bne_iff_ne, Bool.not_eq_true'] at hcal
  rcases hfixed with hhidden | hmeasured
  · exact absurd hhidden hcal.1
  · exact absurd (hcal.2.symm.trans hmeasured) Bool.false_ne_true

/-- A confirmed hotspot: what is served and cached from then on is confirmed as well. -/
theorem applyConfirmedHotspot_spec (accepted : Hotspot) (htrusted : Trusted log c)
    (hconfirmed : Confirmed log c.id c.ctx.builtGen accepted) :
    Kept log c.ctx.builtGen cache (applyConfirmedHotspot cache c accepted).1 ∧
      Trusted log (applyConfirmedHotspot cache c accepted).2.1 ∧
      (applyConfirmedHotspot cache c accepted).2.1.ctx = c.ctx ∧
      ∀ entry ∈ (applyConfirmedHotspot cache c accepted).2.2,
        ∃ d, entry = .delivered d ∧ Right log d := by
  have hserve : ∀ hot, (hot ≠ c.wireHot → Confirmed log c.id c.ctx.builtGen hot) →
      Trusted log { c with currentHot := hot } := fun hot hhot =>
    ⟨htrusted.calibratable, htrusted.counted, hhot, htrusted.candidate⟩
  unfold applyConfirmedHotspot
  split
  · split
    · exact ⟨kept_forget log cache c.id c.ctx.builtGen, htrusted, rfl, by simp⟩
    next hne =>
      split
      · exact ⟨kept_store log cache c.id c.ctx.builtGen c.currentHot (htrusted.served hne),
          htrusted, rfl, by simp⟩
      · exact ⟨kept_refl log c.ctx.builtGen cache, htrusted, rfl, by simp⟩
  split
  · have hwire := hserve c.wireHot fun h => absurd rfl h
    refine ⟨kept_forget log cache c.id c.ctx.builtGen, hwire, rfl, ?_⟩
    intro entry hentry
    exact ⟨_, List.mem_singleton.mp hentry, hwire.right⟩
  · have haccepted := hserve accepted fun _ => hconfirmed
    refine ⟨kept_store log cache c.id c.ctx.builtGen accepted hconfirmed, haccepted, rfl, ?_⟩
    intro entry hentry
    exact ⟨_, List.mem_singleton.mp hentry, haccepted.right⟩

/-- A measurement at a position that was not measured yet: the plane has moved since the candidate
was. -/
theorem MovedSince.front (c : CursorCal) (m : Measurement)
    (hunmeasured : c.measuredThisPosition = false) (hsince : MovedSince c m) :
    ∃ front, c.reports = front ++ m.reports ∧ ∃ q ∈ front, m.reports.head? ≠ some q := by
  obtain ⟨front, hreports, hmoved | ⟨hmeasured, -⟩⟩ := hsince
  · exact ⟨front, hreports, hmoved⟩
  · exact absurd (hunmeasured.symm.trans hmeasured) Bool.false_ne_true

theorem Trusted.measured (h : Trusted log c) (hunmeasured : c.measuredThisPosition = false) :
    Trusted log { c with measuredThisPosition := true } := by
  refine ⟨h.calibratable, h.counted, h.served, ?_⟩
  intro k seq epoch hk
  obtain ⟨m, hm, hsound, hsince, hrest⟩ := h.candidate k seq epoch hk
  obtain ⟨front, hfront, hq⟩ := MovedSince.front c m hunmeasured hsince
  exact ⟨m, hm, hsound, ⟨front, hfront, Or.inl hq⟩, hrest⟩

theorem observeMeasurement_spec
    (htrusted : Trusted log c) (hm : Sound m) (hunmeasured : c.measuredThisPosition = false)
    (hid : m.id = c.id) (hgen : m.gen = c.ctx.builtGen) (hreports : m.reports = c.reports)
    (c' : CursorCal) (accepted : Option Hotspot)
    (hobserved : observeMeasurement { c with measuredThisPosition := true } m.hot m.seq
      m.mapEpoch = (c', accepted)) :
    Trusted (log ++ [.measured m]) c' ∧ c'.id = c.id ∧ c'.ctx = c.ctx ∧
      ∀ k, accepted = some k → Confirmed (log ++ [.measured m]) c.id c.ctx.builtGen k := by
  have hlog : Trusted (log ++ [.measured m]) c := htrusted.mono log [.measured m] c
  have hmem : Entry.measured m ∈ log ++ [.measured m] := by simp
  have hreplaced : Trusted (log ++ [.measured m])
      { c with measuredThisPosition := true, candidate := some (m.hot, m.seq, m.mapEpoch) } := by
    refine ⟨hlog.calibratable, hlog.counted, hlog.served, ?_⟩
    intro k seq epoch hk
    obtain ⟨rfl, rfl, rfl⟩ : m.hot = k ∧ m.seq = seq ∧ m.mapEpoch = epoch := by simpa using hk
    exact ⟨m, hmem, hm, ⟨[], hreports.symm, Or.inr ⟨rfl, congrArg List.head? hreports.symm⟩⟩, hid,
      hgen, rfl, rfl, rfl⟩
  unfold observeMeasurement at hobserved
  dsimp only at hobserved
  split at hobserved
  next k kseq kepoch hcandidate =>
    obtain ⟨first, hfirst, hsound, hsince, hfid, hfgen, hfhot, hfseq, hfepoch⟩ :=
      hlog.candidate k kseq kepoch hcandidate
    have hmoved := MovedSince.front c first hunmeasured hsince
    split at hobserved
    next =>
      obtain ⟨rfl, rfl⟩ := Prod.mk.inj hobserved
      exact ⟨hlog.measured _ c hunmeasured, rfl, rfl, by simp⟩
    next hseq =>
      split at hobserved
      next hagrees =>
        obtain ⟨rfl, rfl⟩ := Prod.mk.inj hobserved
        refine ⟨⟨hlog.calibratable, hlog.counted, hlog.served, by simp⟩, rfl, rfl, ?_⟩
        intro k' hk'
        obtain rfl := Option.some.inj hk'
        refine ⟨first, m, hfirst, hmem, ?_, hfid, hfgen, hfhot⟩
        exact
          { id := hfid.trans hid.symm
            gen := hfgen.trans hgen.symm
            settled := ⟨hsound.settled, hm.settled⟩
            inBitmap := ⟨hsound.inBitmap, hm.inBitmap⟩
            moved := hreports ▸ hmoved
            seq := by
              rw [hfseq]
              exact hseq
            mapEpoch := hfepoch.trans hagrees.1
            near := near_exact first m hsound hm (hfhot ▸ hagrees.2) }
      next =>
        obtain ⟨rfl, rfl⟩ := Prod.mk.inj hobserved
        exact ⟨hreplaced, rfl, rfl, by simp⟩
  next =>
    obtain ⟨rfl, rfl⟩ := Prod.mk.inj hobserved
    exact ⟨hreplaced, rfl, rfl, by simp⟩

theorem Right.mono (d : Delivery) (h : Right log d) : Right (log ++ entries) d := by
  refine ⟨fun hne => ?_, h.2⟩
  obtain ⟨gen, hgen, hconfirmed⟩ := h.1 hne
  exact ⟨gen, hgen, hconfirmed.mono _ _ _ _ _⟩

theorem plane_updatePlaneStability :
    (updatePlaneStability c p).plane = some p ∧ (updatePlaneStability c p).ctx = c.ctx := by
  unfold updatePlaneStability
  split
  · exact ⟨rfl, rfl⟩
  next hstill =>
    push Not at hstill
    exact ⟨hstill, rfl⟩

/-- What a frame report does: the stream stays trusted, the cache keeps what it must, and what is
delivered is right. -/
structure Reported (log : List Entry) (gen : ℕ) (cache : Cache)
    (after : Cache × CursorCal × List Entry) : Prop where
  kept : Kept (log ++ after.2.2) gen cache after.1
  trusted : Trusted (log ++ after.2.2) after.2.1
  right : ∀ front entry rest, after.2.2 = front ++ entry :: rest →
    ∀ d, entry = .delivered d → Right (log ++ front) d

theorem reported_unchanged (h : Trusted log c) : Reported log gen cache (cache, c, []) := by
  refine ⟨kept_refl _ gen cache, h.mono _ _ _, ?_⟩
  intro front entry rest hnil
  simp at hnil

theorem reported_measured (cache' : Cache) (c : CursorCal) (m : Measurement) (entries : List Entry)
    (hkept : Kept (log ++ [.measured m]) gen cache cache')
    (htrusted : Trusted (log ++ [.measured m]) c)
    (hright : ∀ entry ∈ entries, ∃ d, entry = .delivered d ∧ Right (log ++ [.measured m]) d) :
    Reported log gen cache (cache', c, .measured m :: entries) := by
  have hlog : log ++ .measured m :: entries = log ++ [.measured m] ++ entries := by simp
  refine ⟨⟨?_, hkept.cap, hkept.newer⟩, ?_, ?_⟩
  · intro key e hget
    rw [hlog]
    exact (hkept.confirmed key e hget).imp_right fun h => h.mono _ _ _ _ _
  · rw [hlog]
    exact htrusted.mono _ _ _
  · intro front entry rest heq d hd
    cases front with
    | nil =>
      rw [List.nil_append] at heq
      rw [← (List.cons.inj heq).1] at hd
      cases hd
    | cons first front =>
      obtain ⟨rfl, htail⟩ := List.cons.inj heq
      have hmem : entry ∈ entries := by rw [htail]; simp
      obtain ⟨d', hd', hd'right⟩ := hright entry hmem
      obtain rfl : d' = d := by rw [hd'] at hd; exact Entry.delivered.inj hd
      rw [← List.singleton_append, ← List.append_assoc]
      exact hd'right.mono _ _ _

theorem reported_onCursorPlane
    (sample : Option PeerAbsSample) (drifted : Bool) (currentGen mapGen mapEpoch : ℕ)
    (h : Trusted log c) :
    Reported log c.ctx.builtGen cache
      (onCursorPlane scale cache c p sample drifted currentGen mapGen mapEpoch) := by
  have htrusted := h.updatePlaneStability log c p
  obtain ⟨hplane, hctx⟩ := plane_updatePlaneStability c p
  rw [← hctx]
  unfold onCursorPlane
  dsimp only
  generalize updatePlaneStability c p = c at htrusted hplane ⊢
  split
  swap
  · exact reported_unchanged log _ cache c htrusted
  next hdue =>
    obtain ⟨hsettled, hunmeasured⟩ :=
      settled_of_settledUnmeasured c p htrusted.counted hplane hdue
    split
    · exact reported_unchanged log _ cache c htrusted
    next injected seq epoch hsample =>
      have hgen := gen_of_usableSample _ _ _ _ _ _ _ hsample
      split
      · exact reported_unchanged log _ cache _ (htrusted.measured log c hunmeasured)
      next hot hmeasured =>
        obtain ⟨hinside, hrange⟩ := measureHotspot_inside scale _ _ _ _ _ _ hmeasured
        have hspec := observeMeasurement_spec log c
          ⟨c.id, c.width, c.height, currentGen, c.reports, seq, epoch, hot⟩ htrusted
          ⟨hsettled, hinside, hrange⟩ hunmeasured rfl hgen rfl
        split
        next c' hobserved =>
          obtain ⟨hnow, -⟩ := hspec c' none hobserved
          exact reported_measured log _ cache cache c' _ [] (kept_refl _ _ cache) hnow (by simp)
        next c' accepted hobserved =>
          obtain ⟨hnow, hid, hctx', hconfirmed⟩ := hspec c' (some accepted) hobserved
          obtain ⟨hkept, hlater, -, hright⟩ := applyConfirmedHotspot_spec _ cache c' accepted hnow
            (by rw [hid, hctx']; exact hconfirmed accepted rfl)
          rw [hctx'] at hkept
          exact reported_measured log _ cache _ _ _ _ hkept hlater hright

/-! ### All streams -/

structure Inv (s : State) : Prop where
  trusted : ∀ i c, s.cals i = some c → Trusted s.log c
  confirmed : ∀ key e, s.cache.get key = some e → Confirmed s.log key e.2 e.1
  cap : s.cache.entries.length ≤ CURSOR_CAL_CACHE_CAP
  log : Runs.Always (fun before entry => ∀ d, entry = .delivered d → Right before d) s.log

theorem inv_start : Inv start := by
  refine ⟨?_, ?_, Nat.zero_le _, Runs.always_nil _⟩
  · intro i c hc
    cases hc
  · intro key e he
    rw [start, SortedMap.get_empty] at he
    cases he

/-- What a stream knows of a new shape is to be trusted, and the shape is handed out rightly. -/
theorem onCursorShape_spec
    (hconfirmed : ∀ key e, cache.get key = some e → Confirmed log key e.2 e.1)
    (ctx : Option CalContext) (id width height : ℕ) (hot : Hotspot) (hotMeasured : Bool) :
    (∀ c, (onCursorShape cache ctx id width height hot hotMeasured).1 = some c →
      Trusted log c) ∧
    ∀ d, (onCursorShape cache ctx id width height hot hotMeasured).2 = .delivered d →
      Right log d := by
  -- a shape that is handed out as it came
  have hplain : ∀ gen d, Entry.delivered ⟨id, hot, id, hot, hotMeasured, gen⟩ = .delivered d →
      Right log d := by
    intro gen d hd
    obtain rfl := Entry.delivered.inj hd
    exact ⟨fun hne => absurd rfl hne, fun _ => ⟨rfl, rfl⟩⟩
  unfold onCursorShape
  split
  next ctx =>
    split
    next hcal =>
      refine (fun htrusted => ?_ :
        Trusted log
          { id := id, width := width, height := height, ctx := ctx, wireHot := hot
            currentHot := (cachedCursorCal cache id ctx.builtGen).getD hot, candidate := none
            plane := none, stableTicks := 0, measuredThisPosition := false
            hotMeasured := hotMeasured, reports := [] } → _) ?_
      · refine ⟨fun c hc => Option.some.inj hc ▸ htrusted, fun d hd => ?_⟩
        exact Entry.delivered.inj hd ▸ htrusted.right
      · refine ⟨hcal, ⟨rfl, by simp⟩, ?_, by simp⟩
        intro hne
        cases hcached : cachedCursorCal cache id ctx.builtGen with
        | none => exact absurd (by rw [hcached]; rfl) hne
        | some h =>
          exact hconfirmed id (h, ctx.builtGen) (get_of_cachedCursorCal cache id _ h hcached)
    next => exact ⟨by simp, hplain _⟩
  next => exact ⟨by simp, hplain _⟩

theorem inv_step (s : State) (e : Event) (h : Inv s) : Inv (step scale s e) := by
  cases e with
  | shape i ctx id width height hot hotMeasured =>
    obtain ⟨htrusted, hright⟩ :=
      onCursorShape_spec s.log s.cache h.confirmed ctx id width height hot hotMeasured
    unfold step
    refine ⟨?_, ?_, h.cap, Runs.always_concat _ _ _ h.log hright⟩
    · intro j c hc
      refine Trusted.mono _ _ _ ?_
      by_cases hj : j = i
      · subst hj
        exact htrusted c (by simpa using hc)
      · exact h.trusted j c (by simpa [hj] using hc)
    · intro key e he
      exact (h.confirmed key e he).mono _ _ _ _ _
  | frame i pos sample drifted currentGen mapGen mapEpoch =>
    unfold step
    dsimp only
    split
    swap
    · exact h
    next c p hcal =>
      have hreported := reported_onCursorPlane scale s.log s.cache c p sample drifted currentGen
        mapGen mapEpoch (h.trusted i c hcal)
      generalize onCursorPlane scale s.cache c p sample drifted currentGen mapGen mapEpoch = after
        at *
      refine ⟨?_, ?_, hreported.kept.cap h.cap, Runs.always_append _ _ _ h.log hreported.right⟩
      · intro j c' hc'
        by_cases hj : j = i
        · subst hj
          obtain rfl : after.2.1 = c' := by simpa using hc'
          exact hreported.trusted
        · exact (h.trusted j c' (by simpa [hj] using hc')).mono _ _ _
      · intro key e he
        rcases hreported.kept.confirmed key e he with hold | hnew
        · exact (h.confirmed key e hold).mono _ _ _ _ _
        · exact hnew

theorem inv_run (es : List Event) : Inv (run scale es) := by
  have hfrom : ∀ s, Inv s → Inv (es.foldl (step scale) s) := by
    induction es with
    | nil => exact fun s h => h
    | cons e es ih => exact fun s h => ih _ (inv_step scale s e h)
  exact hfrom start inv_start

def Event.stream : Event → ℕ
  | .shape i _ _ _ _ _ _ | .frame i _ _ _ _ _ _ => i

theorem cache_step (s : State) (e : Event) (h : Inv s) (key g : ℕ) (k : Hotspot)
    (hget : s.cache.get key = some (k, g)) :
    (step scale s e).cache.get key = some (k, g) ∨
      ∃ c, s.cals e.stream = some c ∧ g ≤ c.ctx.builtGen := by
  cases e with
  | shape i ctx id width height hot hotMeasured => exact Or.inl hget
  | frame i pos sample drifted currentGen mapGen mapEpoch =>
    unfold step
    dsimp only
    split
    swap
    · exact Or.inl hget
    next c p hcal =>
      have hkept := (reported_onCursorPlane scale s.log s.cache c p sample drifted currentGen
        mapGen mapEpoch (h.trusted i c hcal)).kept
      by_cases hgen : g ≤ c.ctx.builtGen
      · exact Or.inr ⟨c, hcal, hgen⟩
      · exact Or.inl (hkept.newer key k g hget (not_le.mp hgen))

/-- Whatever shapes arrive and frames are reported: what is delivered is right by the measurements
until then, the cache stays within its cap, and an entry is lost only to a stream of its own
generation or a newer one. -/
theorem hotspots_served (es : List Event) :
    Runs.Always (fun before entry => ∀ d, entry = .delivered d → Right before d)
      (run scale es).log ∧
    (run scale es).cache.entries.length ≤ CURSOR_CAL_CACHE_CAP ∧
    ∀ e key k g, (run scale es).cache.get key = some (k, g) →
      (step scale (run scale es) e).cache.get key = some (k, g) ∨
        ∃ c, (run scale es).cals e.stream = some c ∧ g ≤ c.ctx.builtGen := by
  have hinv := inv_run scale es
  exact ⟨hinv.log, hinv.cap, fun e key k g => cache_step scale (run scale es) e hinv key g k⟩

-- two stops of the plane under two moves of the peer: the second one confirms the first
example :
    let ctx : CalContext := ⟨(0, 0, 100, 100), (100, 100), 1⟩
    let frames := fun plane peer seq => List.replicate 4
      (Event.frame 0 (some plane) (some ⟨peer, 500, seq, 1, 7⟩) false 1 1 7)
    let s := run (fun d p a => d * p / a) (.shape 0 (some ctx) 5 64 64 (4, 4) false ::
      (frames (30, 30) (42, 42) 1 ++ frames (50, 50) (61, 62) 2))
    s.log.filterMap (fun | .delivered d => some d.served | .measured _ => none) =
      [(4, 4), (12, 12)] ∧ s.cache.get 5 = some ((12, 12), 1) := by
  decide

end ClantoDesk.CursorCalibration
