import ClantoDesk.DrmGeometry
import ClantoDesk.Runs
import ClantoDesk.SortedMap
import Mathlib.Data.String.Basic

/-!
The capturer of a display and its frames, src/server/drm_capturer.rs. `get_capturer_info` builds a
capturer on the list that the service sent and one snapshot of the outputs. The receive thread
publishes the frames of the producer, of any size, and `frame` delivers the newest one or fails.
What the receive thread does while `frame` waits or works comes before or after it here: the slot
is all that they share. The health of the displays is shared by all capturers.
-/
namespace ClantoDesk.CapturerFrames

open WaylandLayout ConnectorMatching DrmGeometry

inductive Pixfmt
  | BGRA
  | RGBA
  | RGB565LE
  | I420
  | NV12
  | I444
  deriving DecidableEq

def Pixfmt.debug : Pixfmt → String
  | .BGRA => "BGRA"
  | .RGBA => "RGBA"
  | .RGB565LE => "RGB565LE"
  | .I420 => "I420"
  | .NV12 => "NV12"
  | .I444 => "I444"

abbrev Buf := List UInt8

structure RawFrame where
  w : ℕ
  h : ℕ
  fmt : Pixfmt
  planeRotation : Option UInt32
  buf : Buf

structure FrameSlot where
  latest : Option RawFrame
  free : Option Buf × Option Buf
  ended : Option String

namespace FrameSlot

def recycle (slot : FrameSlot) (buf : Buf) : FrameSlot :=
  match slot.free with
  | (none, second) => { slot with free := (some buf, second) }
  | (some first, none) => { slot with free := (some first, some buf) }
  | (some _, some _) => slot

def publish (slot : FrameSlot) (f : RawFrame) : FrameSlot :=
  match slot.latest with
  | some old => { slot.recycle old.buf with latest := some f }
  | none => { slot with latest := some f }

def takeFree (slot : FrameSlot) : Option Buf × FrameSlot :=
  match slot.free with
  | (some first, second) => (some first, { slot with free := (none, second) })
  | (none, second) => (second, { slot with free := (none, none) })

end FrameSlot

structure PixelBuffer where
  data : Buf
  pixfmt : Pixfmt
  width : ℕ
  height : ℕ
  stride : List ℕ

def PixelBuffer.new (data : Buf) (pixfmt : Pixfmt) (width height : ℕ) : Option PixelBuffer :=
  if height = 0 then none
  else some ⟨data, pixfmt, width, height, [data.length / height]⟩

/-! ### The health of the displays -/

structure DisplayHealth where
  zeroFrameStreak : UInt32
  since : ℕ
  demotes : UInt32
  lastBuild : Option ℕ
  rapidBuilds : UInt32
  fallbackRejected : Bool

def DRM_GRAB_MAX_FAILURES : UInt32 := 4

def DEMOTE_COOLDOWN : ℕ := 30000000000

def DEMOTE_BACKOFF_MAX_SHIFT : ℕ := 4

def RAPID_REBUILD_WINDOW : ℕ := 3000000000

def RAPID_REBUILD_MAX : UInt32 := 6

def demoteCooldown (demotes : UInt32) : ℕ :=
  DEMOTE_COOLDOWN * 2 ^ min (demotes.toNat - 1) DEMOTE_BACKOFF_MAX_SHIFT

namespace DisplayHealth

def new (now : ℕ) : DisplayHealth := ⟨0, now, 0, none, 0, false⟩

def demoted (h : DisplayHealth) (now : ℕ) : Bool :=
  decide (DRM_GRAB_MAX_FAILURES ≤ h.zeroFrameStreak) &&
    decide (now - h.since < demoteCooldown h.demotes)

end DisplayHealth

abbrev Health := SortedMap String DisplayHealth

def connectorKey (d : DrmDisplayInfo) : String := d.device ++ ":" ++ d.name

def noteSessionWithoutFrame (connector : Option String) (now : ℕ) (health : Health) : Health :=
  match connector with
  | none => health
  | some key =>
    let h := (health.get key).getD (.new now)
    let h := { h with zeroFrameStreak := h.zeroFrameStreak + 1, since := now }
    health.insert key
      (if h.zeroFrameStreak = DRM_GRAB_MAX_FAILURES then { h with demotes := h.demotes + 1 } else h)

def noteFirstFrame (connector : Option String) (now : ℕ) (health : Health) : Health :=
  match connector with
  | none => health
  | some key =>
    match health.get key with
    | none => health
    | some h =>
      health.insert key
        { h with zeroFrameStreak := 0, demotes := 0, since := now, fallbackRejected := false }

/-! ### The frames -/

structure IpcDrmCapturer where
  display : ℤ
  connector : Option String
  sessionSize : Option (ℕ × ℕ)
  transform : ℤ
  snapshotGen : UInt64
  cur : Buf
  curW : ℕ
  curH : ℕ
  curFmt : Pixfmt
  gotFrame : Bool

def PLANE_ROTATE_0 : UInt32 := 1

def frameTransform (wlTransform : ℤ) (planeRotation : Option UInt32) : ℤ :=
  match planeRotation with
  | some mask => if mask ≠ PLANE_ROTATE_0 then 0 else wlTransform
  | none => if wlTransform = 90 ∨ wlTransform = 270 then wlTransform else 0

inductive RotationMode
  | kRotate0
  | kRotate90
  | kRotate180
  | kRotate270

-- the source with its stride, the target with its stride, the size of the source
variable (argbRotate : Buf → ℕ → Buf → ℕ → ℕ → ℕ → RotationMode → Buf)

def unrotateBgra (src : Buf) (w h : ℕ) (transform : ℤ) (dst : Buf) : Buf :=
  let stride := if 0 < h then src.length / h else 0
  let (dw, dh) := rotatedDims transform w h
  let size := if dw * dh * 4 < 18446744073709551616 then dw * dh * 4 else 0
  let dst := dst.take size ++ List.replicate (size - dst.length) 0
  if dst = [] ∨ stride < w * 4 then dst
  else
    let mode : RotationMode :=
      if transform = 90 then .kRotate90
      else if transform = 180 then .kRotate180
      else if transform = 270 then .kRotate270
      else .kRotate0
    argbRotate src stride dst (dw * 4) w h mode

inductive FrameError
  | wouldBlock
  | divisionByZero
  | other (text : String)

/-- What a call of `frame` reads and writes. -/
structure World where
  slot : FrameSlot
  health : Health
  generation : UInt64
  capturer : IpcDrmCapturer

namespace World

def recycle (s : World) (buf : Buf) : World := { s with slot := s.slot.recycle buf }

def noteFailure (s : World) (now : ℕ) : World :=
  if s.capturer.gotFrame then s
  else { s with health := noteSessionWithoutFrame s.capturer.connector now s.health }

def keep (s : World) (now : ℕ) (fw fh : ℕ) (fmt : Pixfmt) : World :=
  let c := { s.capturer with curW := fw, curH := fh, curFmt := fmt, gotFrame := true }
  if s.capturer.gotFrame then { s with capturer := c }
  else { s with capturer := c, health := noteFirstFrame s.capturer.connector now s.health }

def handOut (s : World) : Except FrameError PixelBuffer × World :=
  let c := s.capturer
  match PixelBuffer.new c.cur c.curFmt c.curW c.curH with
  | some p => (.ok p, s)
  | none => (.error .divisionByZero, s)

end World

def layoutChanged (display : ℤ) : String :=
  s!"drm: display {display} layout changed; rebuilding"

def geometryChanged (display : ℤ) (gotFrame : Bool) (sw sh fw fh : ℕ) : String :=
  let what :=
    if gotFrame then "changed geometry mid-session" else "never matched its advertised geometry"
  s!"drm: display {display} {what} ({sw}x{sh} -> {fw}x{fh}); rebuilding"

def formatRefused (display : ℤ) (fmt : Pixfmt) : String :=
  s!"drm: display {display} delivered {fmt.debug} on a rotated output; rebuilding"

/-- What `frame` does with a frame that it took from the slot. -/
def takeFrame (now : ℕ) (s : World) (f : RawFrame) : Except FrameError PixelBuffer × World :=
  let c := s.capturer
  if s.generation ≠ c.snapshotGen then
    (.error (.other (layoutChanged c.display)), s.recycle f.buf)
  else
    let t := frameTransform c.transform f.planeRotation
    let (fw, fh) := rotatedDims t f.w f.h
    if c.sessionSize.any fun size => decide (size ≠ (fw, fh)) then
      let (sw, sh) := c.sessionSize.getD (0, 0)
      (.error (.other (geometryChanged c.display c.gotFrame sw sh fw fh)),
        (s.recycle f.buf).noteFailure now)
    else if t = 0 then
      (({ s with capturer := { c with cur := f.buf } }.recycle c.cur).keep now fw fh f.fmt).handOut
    else if f.fmt ≠ .BGRA ∧ f.fmt ≠ .RGBA then
      (.error (.other (formatRefused c.display f.fmt)), (s.recycle f.buf).noteFailure now)
    else
      let turned := unrotateBgra argbRotate f.buf f.w f.h t c.cur
      (({ s with capturer := { c with cur := turned } }.recycle f.buf).keep now fw fh
        f.fmt).handOut

/-- A call that finds neither a frame nor an end until its deadline changes nothing. -/
def frame (now : ℕ) (s : World) : Except FrameError PixelBuffer × World :=
  match s.slot.latest with
  | some f => takeFrame argbRotate now { s with slot := { s.slot with latest := none } } f
  | none =>
    match s.slot.ended with
    | some err => (.error (.other err), s.noteFailure now)
    | none => (.error .wouldBlock, s)

inductive Event
  | publish (f : RawFrame)
  | takeFree
  | streamEnded (reason : String)
  | layout (generation : UInt64)
  | health (h : Health)
  | frame (now : ℕ)

def step (s : World) : Event → Option World
  | .publish f => some { s with slot := s.slot.publish f }
  | .takeFree => some { s with slot := s.slot.takeFree.2 }
  | .streamEnded reason =>
    some { s with slot := { s.slot with ended := some s!"drm stream ended ({reason})" } }
  | .layout generation => some { s with generation := generation }
  | .health h => some { s with health := h }
  | .frame now => some (frame argbRotate now s).2

/-! ### The capturer of a display -/

structure CapturerInfo where
  origin : ℤ × ℤ
  width : ℕ
  height : ℕ
  ndisplay : ℕ
  current : ℕ
  capturer : IpcDrmCapturer

variable (changedResolutions : String → Option (ℤ × ℤ))

def displayInfoOf (available : Option (List DrmDisplayInfo)) (display : ℤ) :
    Option DrmDisplayInfo :=
  available.bind fun list => list[(max display 0).toNat]?

def wireIndex (display : ℤ) (expected : Option DrmDisplayInfo) (displays : List DrmDisplayInfo) :
    Except String ℕ :=
  match expected with
  | some e =>
    match displays.findIdx? fun d => decide (d.device = e.device) && decide (d.name = e.name) with
    | some i => .ok i
    | none => .error (s!"display {display} ({e.name}) is no longer in the service's list; " ++
        "the video service will rebuild against the fresh topology")
  | none =>
    .error s!"display {display} is not in the advertised list; not guessing a monitor for it"

/-- The capturer for an entry of the list, its origin and the flag of a missing snapshot. -/
def newCapturer (display : ℤ) (displays : List DrmDisplayInfo) (wireIdx : ℕ)
    (wl : List WaylandDisplayInfo) (snapshotGen : UInt64) (pending : Bool) :
    IpcDrmCapturer × Option (ℤ × ℤ) × Bool :=
  let (wlTransform, origin, pending) :=
    transformAndOrigin changedResolutions displays wireIdx wl pending
  ({ display := display
     connector := displays[wireIdx]?.map connectorKey
     sessionSize :=
       displays[wireIdx]?.map fun d => rotatedDims wlTransform d.width.toNat d.height.toNat
     transform := wlTransform
     snapshotGen := snapshotGen
     cur := []
     curW := 0
     curH := 0
     curFmt := .BGRA
     gotFrame := false }, origin, pending)

/-- The size and the origin are those of the entry that the stream is bound to. -/
def capturerInfo (displayIdx : ℕ) (displays : List DrmDisplayInfo) (wireIdx : ℕ)
    (capturer : IpcDrmCapturer) (origin : Option (ℤ × ℤ)) : Except String CapturerInfo :=
  match displays[wireIdx]? with
  | none => .error s!"drm display index {wireIdx} out of range ({displays.length})"
  | some d =>
    let origin := origin.getD (d.x, d.y)
    let (capW, capH) := rotatedDims capturer.transform d.width.toNat d.height.toNat
    .ok ⟨origin, capW, capH, displays.length, displayIdx, capturer⟩

def rearm (displayIdx : ℕ) (key : Option String) (asked now : ℕ) (health : Health) :
    Except String Health :=
  match key with
  | none => .ok health
  | some k =>
    match health.get k with
    | none => .ok health
    | some h =>
      if DRM_GRAB_MAX_FAILURES ≤ h.zeroFrameStreak then
        if h.demoted asked = true then
          .error (s!"drm capture for display {displayIdx} repeatedly produced no frame; " ++
            "using PipeWire")
        else
          .ok (health.insert k
            { h with zeroFrameStreak := 0, since := now, fallbackRejected := false })
      else .ok health

def noteBuild (displayIdx : ℕ) (key : Option String) (now : ℕ) (health : Health) :
    Option String × Health :=
  match key with
  | none => (none, health)
  | some k =>
    let h := (health.get k).getD (.new now)
    let rapid :=
      match h.lastBuild with
      | some last => if now - last < RAPID_REBUILD_WINDOW then h.rapidBuilds + 1 else 0
      | none => 0
    let h := { h with rapidBuilds := rapid, lastBuild := some now }
    if RAPID_REBUILD_MAX ≤ rapid then
      (some s!"drm capture for display {displayIdx} is flapping; using PipeWire",
        health.insert k
          { h with
            zeroFrameStreak := DRM_GRAB_MAX_FAILURES, since := now, demotes := h.demotes + 1 })
    else (none, health.insert k h)

/-- What a build finds: the list of the probe, the list that the service sends or why it does not,
the generation and the snapshot of the outputs, and the times at which it looks at the clock. -/
structure Build where
  available : Option (List DrmDisplayInfo)
  handshake : Except String (List DrmDisplayInfo)
  generation : UInt64
  outputs : List WaylandDisplayInfo
  asked : ℕ
  rearmed : ℕ
  built : ℕ

def getCapturerInfo (displayIdx : ℕ) (b : Build) (health : Health) (pending : Bool) :
    Except String CapturerInfo × Health × Bool :=
  let display := (displayIdx : ℤ).bmod 4294967296
  let expected := displayInfoOf b.available display
  let key := expected.map connectorKey
  match rearm displayIdx key b.asked b.rearmed health with
  | .error e => (.error e, health, pending)
  | .ok health =>
    match b.handshake with
    | .error e => (.error e, health, pending)
    | .ok displays =>
      match wireIndex display expected displays with
      | .error e => (.error e, health, pending)
      | .ok wireIdx =>
        let (capturer, origin, pending) :=
          newCapturer changedResolutions display displays wireIdx b.outputs b.generation pending
        match noteBuild displayIdx key b.built health with
        | (some e, health) => (.error e, health, pending)
        | (none, health) =>
          (capturerInfo displayIdx displays wireIdx capturer origin, health, pending)

/-! ### What is delivered -/

variable (now : ℕ) (s : World) (p : PixelBuffer)

theorem handOut_ok (h : s.handOut.1 = .ok p) :
    p.width = s.capturer.curW ∧ p.height = s.capturer.curH := by
  unfold World.handOut PixelBuffer.new at h
  dsimp only at h
  by_cases hzero : s.capturer.curH = 0
  · simp [hzero] at h
  · rw [if_neg hzero] at h
    obtain rfl := Except.ok.inj h
    exact ⟨rfl, rfl⟩

theorem handOut_snd : s.handOut.2 = s := by
  unfold World.handOut
  dsimp only
  split
  · rfl
  · rfl

@[simp] theorem noteFailure_capturer (s : World) (now : ℕ) :
    (s.noteFailure now).capturer = s.capturer := by
  unfold World.noteFailure
  split
  · rfl
  · rfl

theorem keep_capturer (now fw fh : ℕ) (fmt : Pixfmt) :
    (s.keep now fw fh fmt).capturer =
      { s.capturer with curW := fw, curH := fh, curFmt := fmt, gotFrame := true } := by
  unfold World.keep
  dsimp only
  split
  · rfl
  · rfl

theorem takeFrame_ok (f : RawFrame) (p : PixelBuffer) (size : ℕ × ℕ)
    (hsize : s.capturer.sessionSize = some size)
    (h : (takeFrame argbRotate now s f).1 = .ok p) : (p.width, p.height) = size := by
  unfold takeFrame at h
  dsimp only at h
  split at h
  · cases h
  rw [hsize] at h
  simp only [Option.any_some] at h
  split at h
  · cases h
  next hsame =>
  have heq : size = rotatedDims (frameTransform s.capturer.transform f.planeRotation) f.w f.h := by
    simpa using hsame
  split at h
  · obtain ⟨hw, hh⟩ := handOut_ok _ p h
    rw [keep_capturer] at hw hh
    rw [hw, hh, heq]
  split at h
  · cases h
  · obtain ⟨hw, hh⟩ := handOut_ok _ p h
    rw [keep_capturer] at hw hh
    rw [hw, hh, heq]

theorem takeFrame_sessionSize (f : RawFrame) :
    (takeFrame argbRotate now s f).2.capturer.sessionSize = s.capturer.sessionSize := by
  unfold takeFrame
  dsimp only
  split
  · rfl
  split
  · exact congrArg _ (noteFailure_capturer _ now)
  split
  · rw [handOut_snd, keep_capturer]
    rfl
  split
  · exact congrArg _ (noteFailure_capturer _ now)
  · rw [handOut_snd, keep_capturer]
    rfl

theorem frame_ok (size : ℕ × ℕ)
    (hsize : s.capturer.sessionSize = some size) (h : (frame argbRotate now s).1 = .ok p) :
    (p.width, p.height) = size := by
  unfold frame at h
  split at h
  · refine takeFrame_ok argbRotate now _ _ p size ?_ h
    exact hsize
  split at h
  · cases h
  · cases h

theorem frame_sessionSize :
    (frame argbRotate now s).2.capturer.sessionSize = s.capturer.sessionSize := by
  unfold frame
  split
  · exact takeFrame_sessionSize argbRotate now _ _
  split
  · exact congrArg _ (noteFailure_capturer s now)
  · rfl

theorem step_sessionSize (t : World) (e : Event) (h : step argbRotate s e = some t) :
    t.capturer.sessionSize = s.capturer.sessionSize := by
  cases e with
  | publish f => rw [← Option.some.inj h]
  | takeFree => rw [← Option.some.inj h]
  | streamEnded reason => rw [← Option.some.inj h]
  | layout generation => rw [← Option.some.inj h]
  | health h' => rw [← Option.some.inj h]
  | frame now =>
    rw [← Option.some.inj h]
    exact frame_sessionSize argbRotate now s

def Delivers (c : IpcDrmCapturer) (width height : ℕ) : Prop :=
  ∀ (s t : World) (es : List Event), s.capturer = c → Runs.exec (step argbRotate) s es = some t →
    ∀ (now : ℕ) (p : PixelBuffer), (frame argbRotate now t).1 = .ok p →
      p.width = width ∧ p.height = height

theorem delivers_sessionSize (c : IpcDrmCapturer) (width height : ℕ)
    (hsize : c.sessionSize = some (width, height)) : Delivers argbRotate c width height := by
  intro s t es hs hrun now p hp
  have hstart : s.capturer.sessionSize = some (width, height) := by rw [hs, hsize]
  have hsame : t.capturer.sessionSize = some (width, height) :=
    Runs.invariant_of_exec (step argbRotate)
      (fun u => u.capturer.sessionSize = some (width, height))
      (fun u e v hu hstep => (step_sessionSize argbRotate u v e hstep).trans hu) s t es hstart hrun
  exact Prod.mk.inj (frame_ok argbRotate now t p _ hsame hp)

/-! ### The two paths agree -/

structure Agree (d : DrmDisplayInfo) (info : DisplayInfo) (cap : CapturerInfo) : Prop where
  origin : cap.origin = (info.x, info.y)
  size : (info.width = cap.width ∧ info.height = cap.height) ↔
    d.width.toNat < 2147483648 ∧ d.height.toNat < 2147483648
  delivers : Delivers argbRotate cap.capturer cap.width cap.height

theorem asI32_eq_iff (n : UInt32) : asI32 n = n.toNat ↔ n.toNat < 2147483648 := by
  have hn : n.toNat < 4294967296 := n.toNat_lt
  unfold asI32
  generalize n.toNat = m at hn
  rw [Int.bmod_def]
  split <;> omega

/-- The advertised numbers are those of the capturer as long as they fit. -/
theorem orient_eq_iff (transform : ℤ) (w h : UInt32) :
    ((orient transform (asI32 w) (asI32 h)).1 = (rotatedDims transform w.toNat h.toNat).1 ∧
      (orient transform (asI32 w) (asI32 h)).2 = (rotatedDims transform w.toNat h.toNat).2) ↔
        w.toNat < 2147483648 ∧ h.toNat < 2147483648 := by
  rw [← asI32_eq_iff w, ← asI32_eq_iff h, orient, rotatedDims]
  split
  · dsimp only
    exact and_comm
  · dsimp only
    exact Iff.rfl

theorem capturerInfo_newCapturer (display : ℤ) (displayIdx : ℕ) (drm : List DrmDisplayInfo)
    (wl : List WaylandDisplayInfo) (i : ℕ) (d : DrmDisplayInfo) (hd : drm[i]? = some d)
    (gen : UInt64) (pending : Bool) :
    ∃ info cap, (augmentWithWaylandGeometryFrom changedResolutions drm wl
        (assignWaylandOutputs drm wl))[i]? = some info ∧
      capturerInfo displayIdx drm i
        (newCapturer changedResolutions display drm i wl gen pending).1
        (newCapturer changedResolutions display drm i wl gen pending).2.1 = .ok cap ∧
      Agree argbRotate d info cap := by
  obtain ⟨htransform, horigin⟩ := transformAndOrigin_eq changedResolutions drm wl i d hd pending
  obtain ⟨info, hinfo, hgeometry⟩ :=
    Option.map_eq_some_iff.mp (geometry_advertised changedResolutions drm wl i d hd)
  obtain ⟨hplace, hsize⟩ := Prod.mk.inj hgeometry
  have hsession : (newCapturer changedResolutions display drm i wl gen pending).1.sessionSize =
      some (rotatedDims (placedTransform drm wl i) d.width.toNat d.height.toNat) := by
    rw [← htransform]
    exact congrArg (Option.map _) hd
  have hcap : capturerInfo displayIdx drm i
      (newCapturer changedResolutions display drm i wl gen pending).1
      (newCapturer changedResolutions display drm i wl gen pending).2.1 =
        .ok ⟨placedOrigin drm wl i d,
          (rotatedDims (placedTransform drm wl i) d.width.toNat d.height.toNat).1,
          (rotatedDims (placedTransform drm wl i) d.width.toNat d.height.toNat).2,
          drm.length, displayIdx,
          (newCapturer changedResolutions display drm i wl gen pending).1⟩ := by
    rw [← htransform, ← horigin, capturerInfo, hd]
    rfl
  refine ⟨info, _, hinfo, hcap, hplace.symm, ?_, ?_⟩
  · obtain ⟨hwidth, hheight⟩ := Prod.mk.inj (hsize.trans (Prod.eta _).symm)
    rw [hwidth, hheight]
    exact orient_eq_iff (placedTransform drm wl i) d.width d.height
  · exact delivers_sessionSize argbRotate _ _ _ hsession

/-- What `get_capturer_info` returns comes from the list and the snapshot of its build. -/
theorem getCapturerInfo_ok (displayIdx : ℕ) (b : Build) (health : Health) (pending : Bool)
    (cap : CapturerInfo)
    (h : (getCapturerInfo changedResolutions displayIdx b health pending).1 = .ok cap) :
    ∃ drm i display, b.handshake = .ok drm ∧
      capturerInfo displayIdx drm i
        (newCapturer changedResolutions display drm i b.outputs b.generation pending).1
        (newCapturer changedResolutions display drm i b.outputs b.generation pending).2.1 =
          .ok cap := by
  unfold getCapturerInfo at h
  dsimp only at h
  split at h
  · cases h
  split at h
  · cases h
  next drm hdrm =>
  split at h
  · cases h
  next i hi =>
  split at h
  · cases h
  · exact ⟨drm, i, _, hdrm, h⟩

/-- For every display the advertised geometry and the capturer's agree, the sizes if and only if
they fit, and `get_capturer_info` returns such a capturer. -/
theorem geometry_agrees (drm : List DrmDisplayInfo) (wl : List WaylandDisplayInfo) :
    (∀ (i : ℕ) (d : DrmDisplayInfo), drm[i]? = some d → ∀ (display : ℤ) (displayIdx : ℕ)
      (gen : UInt64) (pending : Bool), ∃ info cap,
        (augmentWithWaylandGeometryFrom changedResolutions drm wl
          (assignWaylandOutputs drm wl))[i]? = some info ∧
        capturerInfo displayIdx drm i
          (newCapturer changedResolutions display drm i wl gen pending).1
          (newCapturer changedResolutions display drm i wl gen pending).2.1 = .ok cap ∧
        Agree argbRotate d info cap) ∧
      ∀ (displayIdx : ℕ) (b : Build) (health : Health) (pending : Bool) (cap : CapturerInfo),
        b.handshake = .ok drm → b.outputs = wl →
        (getCapturerInfo changedResolutions displayIdx b health pending).1 = .ok cap →
        ∃ (i : ℕ) (d : DrmDisplayInfo) (info : DisplayInfo), drm[i]? = some d ∧
          (augmentWithWaylandGeometryFrom changedResolutions drm wl
            (assignWaylandOutputs drm wl))[i]? = some info ∧
          Agree argbRotate d info cap := by
  refine ⟨?_, ?_⟩
  · intro i d hd display displayIdx gen pending
    exact capturerInfo_newCapturer argbRotate changedResolutions display displayIdx drm wl i d hd
      gen pending
  · intro displayIdx b health pending cap hdrm hwl h
    obtain ⟨drm', i, display, hdrm', hcap⟩ :=
      getCapturerInfo_ok changedResolutions displayIdx b health pending cap h
    obtain rfl := Except.ok.inj (hdrm.symm.trans hdrm')
    subst hwl
    cases hd : drm[i]? with
    | none =>
      rw [capturerInfo, hd] at hcap
      cases hcap
    | some d =>
      obtain ⟨info, cap', hinfo, hcap', hagree⟩ := capturerInfo_newCapturer argbRotate
        changedResolutions display displayIdx drm b.outputs i d hd b.generation pending
      obtain rfl := Except.ok.inj (hcap.symm.trans hcap')
      exact ⟨i, d, info, hd, hinfo, hagree⟩

def panel : DrmDisplayInfo := ⟨"eDP-1", 0, 0, 1920, 1080, true, "/dev/dri/card0"⟩

def panelOutput : WaylandDisplayInfo := ⟨"eDP-1", 640, 480, 1920, 1080, none, 60, 90⟩

def panelBuild : Build := ⟨some [panel], .ok [panel], 0, [panelOutput], 0, 0, 0⟩

theorem geometry_agrees_panel :
    ∃ (i : ℕ) (d : DrmDisplayInfo) (info : DisplayInfo) (cap : CapturerInfo),
      (getCapturerInfo (fun _ => none) 0 panelBuild .empty false).1 = .ok cap ∧
        [panel][i]? = some d ∧
        (augmentWithWaylandGeometryFrom (fun _ => none) [panel] [panelOutput]
          (assignWaylandOutputs [panel] [panelOutput]))[i]? = some info ∧
        Agree (fun _ _ dst _ _ _ _ => dst) d info cap := by
  obtain ⟨cap, hcap⟩ : ∃ cap,
      (getCapturerInfo (fun _ => none) 0 panelBuild .empty false).1 = .ok cap := ⟨_, rfl⟩
  obtain ⟨i, d, info, hd, hinfo, hagree⟩ := (geometry_agrees (fun _ _ dst _ _ _ _ => dst)
    (fun _ => none) [panel] [panelOutput]).2 0 panelBuild .empty false cap rfl rfl hcap
  exact ⟨i, d, info, cap, hcap, hd, hinfo, hagree⟩

def hugeDisplay : DrmDisplayInfo :=
  ⟨"HDMI-A-1", 0, 0, 2147483648, 1080, true, "/dev/dri/card0"⟩

theorem size_wrapped :
    ∃ info cap, (augmentWithWaylandGeometryFrom (fun _ => none) [hugeDisplay] []
        (assignWaylandOutputs [hugeDisplay] []))[0]? = some info ∧
      capturerInfo 0 [hugeDisplay] 0
        (newCapturer (fun _ => none) 0 [hugeDisplay] 0 [] 0 false).1
        (newCapturer (fun _ => none) 0 [hugeDisplay] 0 [] 0 false).2.1 = .ok cap ∧
      info.width = -2147483648 ∧ cap.width = 2147483648 := by
  refine ⟨_, _, rfl, rfl, ?_, ?_⟩
  · decide
  · decide

end ClantoDesk.CapturerFrames
