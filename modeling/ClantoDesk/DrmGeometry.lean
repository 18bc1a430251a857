import ClantoDesk.ConnectorMatching

/-!
Size and origin of a display that is captured through DRM, src/server/drm_capturer.rs. One path
advertises them to the client, for all displays at once; the other one derives them for the
capturer of one display. Both read the connectors and a snapshot of the compositor's outputs, and
both have early returns of their own. What they agree on is the placement of a connector. The width
of the scanout over the logical width, a floating-point number, is kept as the two numbers.
-/
namespace ClantoDesk.DrmGeometry

open WaylandLayout ConnectorMatching

structure DisplayInfo where
  x : ℤ
  y : ℤ
  width : ℤ
  height : ℤ
  name : String
  online : Bool
  cursorEmbedded : Bool
  originalResolution : ℤ × ℤ
  scale : ℤ × ℤ

-- the original sizes of the displays whose resolution was changed, by name
variable (changedResolutions : String → Option (ℤ × ℤ))

def getOriginalResolution (displayName : String) (w h : ℤ) : ℤ × ℤ :=
  (changedResolutions displayName).getD (w.bmod 4294967296, h.bmod 4294967296)

def displayInfoFromDrm (d : DrmDisplayInfo) : DisplayInfo where
  x := d.x
  y := d.y
  width := asI32 d.width
  height := asI32 d.height
  name := d.name
  online := d.active
  cursorEmbedded := false
  originalResolution :=
    getOriginalResolution changedResolutions d.name d.width.toNat d.height.toNat
  scale := (1, 1)

def swapSize (name : String) (info : DisplayInfo) : DisplayInfo :=
  { info with
    width := info.height
    height := info.width
    originalResolution :=
      getOriginalResolution changedResolutions name info.height info.width }

def adoptScale (name : String) (w : WaylandDisplayInfo) (info : DisplayInfo) : DisplayInfo :=
  match w.logicalSize with
  | some (lw, lh) =>
    if 0 < lw ∧ 0 < lh then
      { info with
        scale := (info.width, lw)
        originalResolution := getOriginalResolution changedResolutions name lw lh }
    else info
  | none => info

def augmentEntry (originOnly : Bool) (d : DrmDisplayInfo) (w : WaylandDisplayInfo)
    (isIdentity : Bool) : DisplayInfo :=
  let info := { displayInfoFromDrm changedResolutions d with x := w.x, y := w.y }
  let info :=
    if isIdentity = true ∧ (w.transform = 90 ∨ w.transform = 270) then
      swapSize changedResolutions d.name info
    else info
  if originOnly then info else adoptScale changedResolutions d.name w info

/-- An entry of `matched` that is no output would end the program; here it counts as none. -/
def augmentWithWaylandGeometryFrom (drm : List DrmDisplayInfo) (wl : List WaylandDisplayInfo)
    (matched : List (Option ℕ)) : List DisplayInfo :=
  let infos := drm.map (displayInfoFromDrm changedResolutions)
  if drm = [] then infos
  else if wl = [] then infos
  else
    let originOnly := decide (wl.length = 1)
    if originOnly = true ∧ 1 < drm.length then infos
    else
      let identity := identityMatches drm wl
      drm.zipIdx.map fun e =>
        match matched[e.2]?.join.bind fun j => wl[j]? with
        | none => displayInfoFromDrm changedResolutions e.1
        | some w =>
          let isIdentity :=
            identity[e.2]?.join.isSome && decide (identity[e.2]?.join = matched[e.2]?.join)
          augmentEntry changedResolutions originOnly e.1 w isIdentity

/-- The transform and the origin of a connector; the last value is the flag that a capturer was
built without a snapshot. -/
def transformAndOrigin (drm : List DrmDisplayInfo) (wireIdx : ℕ) (wl : List WaylandDisplayInfo)
    (unrotatedSnapshotPending : Bool) : ℤ × Option (ℤ × ℤ) × Bool :=
  if wl = [] ∨ (wl.length = 1 ∧ 1 < drm.length) then
    (0, none, unrotatedSnapshotPending || (wl.isEmpty && !drm.isEmpty))
  else
    let assignment := assignWaylandOutputs drm wl
    let transform :=
      ((identityMatches drm wl)[wireIdx]?.join.bind fun j =>
        wl[j]?.map WaylandDisplayInfo.transform).getD 0
    let origin :=
      (augmentWithWaylandGeometryFrom changedResolutions drm wl assignment)[wireIdx]?.map fun di =>
        (di.x, di.y)
    (transform, origin, unrotatedSnapshotPending)

def rotatedDims (transform : ℤ) (w h : ℕ) : ℕ × ℕ :=
  if transform = 90 ∨ transform = 270 then (h, w) else (w, h)

/-! ### The placement of a connector -/

def Blind (drm : List DrmDisplayInfo) (wl : List WaylandDisplayInfo) : Prop :=
  wl = [] ∨ (wl.length = 1 ∧ 1 < drm.length)

instance (drm : List DrmDisplayInfo) (wl : List WaylandDisplayInfo) : Decidable (Blind drm wl) := by
  unfold Blind
  infer_instance

def assignedOutput (drm : List DrmDisplayInfo) (wl : List WaylandDisplayInfo) (i : ℕ) :
    Option WaylandDisplayInfo :=
  if Blind drm wl then none
  else (assignWaylandOutputs drm wl)[i]?.join.bind fun j => wl[j]?

def identifiedOutput (drm : List DrmDisplayInfo) (wl : List WaylandDisplayInfo) (i : ℕ) :
    Option WaylandDisplayInfo :=
  if Blind drm wl then none
  else (identityMatches drm wl)[i]?.join.bind fun j => wl[j]?

def placedOrigin (drm : List DrmDisplayInfo) (wl : List WaylandDisplayInfo) (i : ℕ)
    (d : DrmDisplayInfo) : ℤ × ℤ :=
  ((assignedOutput drm wl i).map fun w => (w.x, w.y)).getD (d.x, d.y)

def placedTransform (drm : List DrmDisplayInfo) (wl : List WaylandDisplayInfo) (i : ℕ) : ℤ :=
  ((identifiedOutput drm wl i).map WaylandDisplayInfo.transform).getD 0

def orient (transform w h : ℤ) : ℤ × ℤ :=
  if transform = 90 ∨ transform = 270 then (h, w) else (w, h)

/-! ### What is advertised -/

def geometry (info : DisplayInfo) : (ℤ × ℤ) × (ℤ × ℤ) :=
  ((info.x, info.y), (info.width, info.height))

variable (drm : List DrmDisplayInfo) (wl : List WaylandDisplayInfo)

theorem geometry_adoptScale (name : String) (w : WaylandDisplayInfo) (info : DisplayInfo) :
    geometry (adoptScale changedResolutions name w info) = geometry info := by
  unfold adoptScale
  split
  · split
    · rfl
    · rfl
  · rfl

theorem geometry_augmentEntry (originOnly : Bool) (d : DrmDisplayInfo) (w : WaylandDisplayInfo)
    (isIdentity : Bool) :
    geometry (augmentEntry changedResolutions originOnly d w isIdentity) =
      ((w.x, w.y),
        orient (if isIdentity then w.transform else 0) (asI32 d.width) (asI32 d.height)) := by
  have hscaled : ∀ info : DisplayInfo,
      geometry (if originOnly then info else adoptScale changedResolutions d.name w info) =
        geometry info := by
    intro info
    cases originOnly with
    | true => rfl
    | false => exact geometry_adoptScale changedResolutions d.name w info
  rw [augmentEntry, hscaled]
  cases isIdentity with
  | false => simp [geometry, orient, displayInfoFromDrm]
  | true =>
    by_cases hturned : w.transform = 90 ∨ w.transform = 270
    · simp [geometry, orient, displayInfoFromDrm, swapSize, hturned]
    · simp [geometry, orient, displayInfoFromDrm, hturned]

theorem assigned_of_identified (i j : ℕ) (hij : (identityMatches drm wl)[i]?.join = some j) :
    (assignWaylandOutputs drm wl)[i]?.join = some j := by
  rw [getElem?_assign_of_identity drm wl i j (Option.join_eq_some_iff.mp hij)]
  rfl

theorem geometry_advertised (i : ℕ) (d : DrmDisplayInfo) (hd : drm[i]? = some d) :
    ((augmentWithWaylandGeometryFrom changedResolutions drm wl
      (assignWaylandOutputs drm wl))[i]?).map geometry =
        some (placedOrigin drm wl i d,
          orient (placedTransform drm wl i) (asI32 d.width) (asI32 d.height)) := by
  have hne : drm ≠ [] := by
    rintro rfl
    cases hd
  by_cases hblind : Blind drm wl
  · have hplain : augmentWithWaylandGeometryFrom changedResolutions drm wl
        (assignWaylandOutputs drm wl) = drm.map (displayInfoFromDrm changedResolutions) := by
      rw [augmentWithWaylandGeometryFrom, if_neg hne]
      rcases hblind with hempty | hlone
      · rw [if_pos hempty]
      · split
        · rfl
        · rw [if_pos (by simpa using hlone)]
    rw [hplain]
    simp [hd, geometry, orient, displayInfoFromDrm, placedOrigin, placedTransform, assignedOutput,
      identifiedOutput, hblind]
  have hseen := hblind
  rw [Blind, not_or] at hseen
  have hentry : (augmentWithWaylandGeometryFrom changedResolutions drm wl
      (assignWaylandOutputs drm wl))[i]? = some
        (match (assignWaylandOutputs drm wl)[i]?.join.bind fun j => wl[j]? with
        | none => displayInfoFromDrm changedResolutions d
        | some w => augmentEntry changedResolutions (decide (wl.length = 1)) d w
          ((identityMatches drm wl)[i]?.join.isSome && decide
            ((identityMatches drm wl)[i]?.join = (assignWaylandOutputs drm wl)[i]?.join))) := by
    rw [augmentWithWaylandGeometryFrom, if_neg hne, if_neg hseen.1,
      if_neg (by simpa using hseen.2)]
    simp [hd]
  rw [hentry, Option.map_some, Option.some.injEq, placedOrigin, placedTransform, assignedOutput,
    identifiedOutput, if_neg hblind, if_neg hblind]
  cases hidentity : (identityMatches drm wl)[i]?.join with
  | none =>
    split
    next hnone => simp [hnone, geometry, orient, displayInfoFromDrm]
    next w hw => simp [hw, geometry_augmentEntry]
  | some j =>
    rw [assigned_of_identified drm wl i j hidentity]
    simp only [Option.bind_some]
    split
    next hnone => simp [hnone, geometry, orient, displayInfoFromDrm]
    next w hw => simp [hw, geometry_augmentEntry]

theorem transformAndOrigin_eq (i : ℕ)
    (d : DrmDisplayInfo) (hd : drm[i]? = some d) (pending : Bool) :
    (transformAndOrigin changedResolutions drm i wl pending).1 = placedTransform drm wl i ∧
      (transformAndOrigin changedResolutions drm i wl pending).2.1.getD (d.x, d.y) =
        placedOrigin drm wl i d := by
  by_cases hblind : Blind drm wl
  · rw [transformAndOrigin, if_pos (show wl = [] ∨ _ from hblind)]
    simp [placedOrigin, placedTransform, assignedOutput, identifiedOutput, hblind]
  · rw [transformAndOrigin, if_neg (show ¬ (wl = [] ∨ _) from hblind)]
    refine ⟨?_, ?_⟩
    · rw [placedTransform, identifiedOutput, if_neg hblind, Option.map_bind]
      rfl
    · have hgeometry := geometry_advertised changedResolutions drm wl i d hd
      obtain ⟨info, hinfo, heq⟩ := Option.map_eq_some_iff.mp hgeometry
      simp only [hinfo]
      exact (Prod.mk.inj heq).1

end ClantoDesk.DrmGeometry
