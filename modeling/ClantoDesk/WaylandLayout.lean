import ClantoDesk.Runs
import Mathlib.Data.Int.Notation
import Mathlib.Logic.Function.Basic

/-!
The layout of a Wayland desktop as the server keeps it, src/server/display_service.rs,
src/server/drm_capturer.rs and libs/scrap/src/wayland/display.rs. A snapshot of the outputs is
cached. A capturer reads the generation, then a snapshot, marks that it found none, and records the
layout it is built on. A session init replaces the baseline. The layout poll reads the compositor,
compares with what it has in memory, and promotes a change: it clears the cache, raises the
generation, and makes the layout the new baseline. The build with DRM capture is modelled. A lookup
of the outputs under the lock of the cache happens at one moment, and so does what the poll does
under the lock of the layout.
-/
namespace ClantoDesk.WaylandLayout

structure WaylandDisplayInfo where
  name : String
  x : ℤ
  y : ℤ
  width : ℤ
  height : ℤ
  logicalSize : Option (ℤ × ℤ)
  refreshRate : ℤ
  transform : ℤ
  deriving DecidableEq

structure DisplayRect where
  name : String
  x : ℤ
  y : ℤ
  w : ℤ
  h : ℤ
  transform : ℤ
  deriving DecidableEq

def orientedPhysical (d : WaylandDisplayInfo) : ℤ × ℤ :=
  if d.transform = 90 ∨ d.transform = 270 then (d.height, d.width) else (d.width, d.height)

def logicalRectsOf (displays : List WaylandDisplayInfo) : List DisplayRect :=
  displays.map fun d =>
    let size :=
      if displays.length = 1 then orientedPhysical d
      else d.logicalSize.getD (orientedPhysical d)
    ⟨d.name, d.x, d.y, size.1, size.2, d.transform⟩

theorem logicalRectsOf_eq_nil (displays : List WaylandDisplayInfo) :
    logicalRectsOf displays = [] ↔ displays = [] := List.map_eq_nil_iff

structure Layout where
  baseline : List DisplayRect
  live : List DisplayRect
  seen : List DisplayRect
  unseenBuild : Option ℕ

namespace Layout

/-- The outgoing baseline is what the capturers were built on, when nothing else has been seen. -/
def resetBaseline (l : Layout) (baseline : List DisplayRect) : Layout :=
  { l with
    seen := if l.seen = [] then l.baseline else l.seen
    baseline := baseline
    live := [] }

def edge (l : Layout) (live : List DisplayRect) (snapshotMissing : Bool) (generation : ℕ) : Bool :=
  if l.unseenBuild = some generation then true
  else if l.seen ≠ [] then decide (l.seen ≠ live)
  else if l.baseline = [] then snapshotMissing
  else decide (l.baseline ≠ live)

def observe (l : Layout) (live : List DisplayRect) : Layout :=
  { l with live := live, seen := live, unseenBuild := none }

def noteCapturer (l : Layout) (builtOn : List DisplayRect) (builtGen : ℕ) : Layout :=
  if builtOn = [] then l
  else if l.seen = [] then { l with seen := builtOn }
  else if l.seen ≠ builtOn then
    { l with unseenBuild := some (l.unseenBuild.elim builtGen fun g => max g builtGen) }
  else l

variable (l : Layout) (builtOn : List DisplayRect) (builtGen : ℕ)

theorem resetBaseline_seen (baseline : List DisplayRect) (hseen : l.seen ≠ []) :
    (l.resetBaseline baseline).seen = l.seen := if_neg hseen

theorem noteCapturer_seen
    (hseen : l.seen ≠ []) : (l.noteCapturer builtOn builtGen).seen = l.seen := by
  unfold noteCapturer
  split
  · rfl
  · split <;> rfl

/-- A record leaves the flag, or raises it to the generation of the capturer. -/
theorem noteCapturer_unseenBuild :
    (l.noteCapturer builtOn builtGen).unseenBuild = l.unseenBuild ∨
      (l.noteCapturer builtOn builtGen).unseenBuild =
        some (l.unseenBuild.elim builtGen fun g => max g builtGen) := by
  unfold noteCapturer
  split
  · exact Or.inl rfl
  · split
    · exact Or.inl rfl
    · split
      · exact Or.inr rfl
      · exact Or.inl rfl

theorem noteCapturer_records (hbuilt : builtOn ≠ []) :
    (l.noteCapturer builtOn builtGen).seen = builtOn ∨
      (l.noteCapturer builtOn builtGen).unseenBuild =
        some (l.unseenBuild.elim builtGen fun g => max g builtGen) := by
  unfold noteCapturer
  rw [if_neg hbuilt]
  split
  · exact Or.inl rfl
  · split
    · exact Or.inr rfl
    · rename_i hsame
      exact Or.inl (not_not.mp hsame)

/-- A layout that is in memory is recorded without a trace. -/
theorem noteCapturer_same : l.noteCapturer l.seen builtGen = l := by
  by_cases hseen : l.seen = [] <;> simp [noteCapturer, hseen]

theorem seen_of_edge_false (live : List DisplayRect) (snapshotMissing : Bool)
    (generation : ℕ) (hseen : l.seen ≠ [])
    (hedge : l.edge live snapshotMissing generation = false) : l.seen = live := by
  unfold edge at hedge
  split at hedge
  · cases hedge
  · exact not_not.mp (of_decide_eq_false hedge)

theorem edge_of_unseenBuild (live : List DisplayRect) (snapshotMissing : Bool)
    (generation : ℕ) (hunseen : l.unseenBuild = some generation) :
    l.edge live snapshotMissing generation = true := if_pos hunseen

theorem edge_same (snapshotMissing : Bool) (generation : ℕ)
    (hunseen : l.unseenBuild ≠ some generation) (hseen : l.seen ≠ []) :
    l.edge l.seen snapshotMissing generation = false := by
  unfold edge
  rw [if_neg hunseen, if_pos hseen]
  exact decide_eq_false (not_not.mpr rfl)

end Layout

/-! ### The threads -/

inductive Poll where
  | idle
  | read (live : List DisplayRect)
  | observed (live : List DisplayRect) (liveChanged : Bool)
  | taken (live : List DisplayRect)
  | clearing (live : List DisplayRect)
  | bumping (live : List DisplayRect)
  | baselining (live : List DisplayRect)
  | settling (live : List DisplayRect)

inductive Build where
  | started (snapshotGen : ℕ)
  | snapshot (snapshotGen : ℕ) (displays : List WaylandDisplayInfo)
  | oriented (snapshotGen : ℕ) (displays : List WaylandDisplayInfo)
  | built (snapshotGen : ℕ) (displays : List WaylandDisplayInfo)

/-- The compositor's outputs, what the server keeps of them, the session inits that have read a
baseline and the capturers. -/
structure System where
  displays : List WaylandDisplayInfo
  cache : Option (List WaylandDisplayInfo)
  generation : ℕ
  layout : Layout
  unrotatedPending : Bool
  promotionOwed : Bool
  poll : Poll
  inits : ℕ → Option (List DisplayRect)
  builds : ℕ → Option Build

inductive Event where
  | change (displays : List WaylandDisplayInfo)
  | lookup (found : Bool)
  | clearCache
  | initRead (i : ℕ) (found : Bool)
  | initReset (i : ℕ)
  | startBuild (b : ℕ)
  | readSnapshot (b : ℕ) (found : Bool)
  | findTransform (b : ℕ)
  | noteCapturer (b : ℕ)
  | drop (b : ℕ)
  | poll (found : Bool)

namespace System

def put (s : System) (b : ℕ) (build : Build) : System :=
  { s with builds := Function.update s.builds b (some build) }

/-- The snapshot of `get_displays`: the cached one, or what the compositor answers. -/
def snapshot (s : System) (found : Bool) : List WaylandDisplayInfo :=
  s.cache.getD (if found then s.displays else [])

def getDisplays (s : System) (found : Bool) : System :=
  { s with cache := if s.cache.isNone ∧ found then some s.displays else s.cache }

/-- The next thing the poll does: read, compare and observe, take the record of a build without a
snapshot, decide whether to promote, and promote step by step. `found` says whether the compositor
answers, and whether DRM is available when the poll decides. -/
def pollStep (s : System) (found : Bool) : System :=
  match s.poll with
  | .idle =>
    if found ∧ s.displays ≠ [] then { s with poll := .read (logicalRectsOf s.displays) } else s
  | .read live =>
    { s with
      poll := .observed live (s.layout.edge live s.cache.isNone s.generation)
      layout := s.layout.observe live }
  | .observed live liveChanged =>
    { s with
      poll := .taken live
      unrotatedPending := false
      promotionOwed := s.promotionOwed || (liveChanged || s.unrotatedPending) }
  | .taken live =>
    if s.promotionOwed ∧ found then { s with poll := .clearing live, promotionOwed := false }
    else { s with poll := .idle }
  | .clearing live => { s with poll := .bumping live, cache := none }
  | .bumping live => { s with poll := .baselining live, generation := s.generation + 1 }
  | .baselining live =>
    { s with poll := .settling live, layout := s.layout.resetBaseline live }
  | .settling live => { s with poll := .idle, layout := { s.layout with live := live } }

end System

/-- `IpcDrmCapturer::new` from the generation on, `update_uinput_resolution` and `check_init` as far
as they concern the layout, and the poll. -/
def step (s : System) : Event → Option System
  | .change displays => some { s with displays := displays }
  | .lookup found => some (s.getDisplays found)
  | .clearCache => some { s with cache := none }
  | .initRead i found =>
    some { s.getDisplays found with
      inits := Function.update s.inits i (some (logicalRectsOf (s.snapshot found))) }
  | .initReset i =>
    (s.inits i).map fun baseline =>
      { s with
        layout := s.layout.resetBaseline baseline
        inits := Function.update s.inits i none }
  | .startBuild b => if (s.builds b).isNone then some (s.put b (.started s.generation)) else none
  | .readSnapshot b found =>
    match s.builds b with
    | some (.started g) => some ((s.getDisplays found).put b (.snapshot g (s.snapshot found)))
    | _ => none
  | .findTransform b =>
    match s.builds b with
    | some (.snapshot g displays) =>
      some ({ s with unrotatedPending := s.unrotatedPending || displays.isEmpty }.put b
        (.oriented g displays))
    | _ => none
  | .noteCapturer b =>
    match s.builds b with
    | some (.oriented g displays) =>
      some ({ s with layout := s.layout.noteCapturer (logicalRectsOf displays) g }.put b
        (.built g displays))
    | _ => none
  | .drop b => some { s with builds := Function.update s.builds b none }
  | .poll found => some (s.pollStep found)

def start (displays : List WaylandDisplayInfo) : System :=
  ⟨displays, none, 0, ⟨[], [], [], none⟩, false, false, .idle, fun _ => none, fun _ => none⟩

/-! ### What a step of a build does -/

theorem step_readSnapshot (s s' : System) (b : ℕ) (found : Bool)
    (hstep : step s (.readSnapshot b found) = some s') :
    ∃ g, s.builds b = some (.started g) ∧
      s' = (s.getDisplays found).put b (.snapshot g (s.snapshot found)) := by
  simp only [step] at hstep
  split at hstep
  · rename_i g hbuild
    exact ⟨g, hbuild, (Option.some.inj hstep).symm⟩
  · cases hstep

theorem step_findTransform (s s' : System) (b : ℕ) (hstep : step s (.findTransform b) = some s') :
    ∃ g displays, s.builds b = some (.snapshot g displays) ∧
      s' = { s with unrotatedPending := s.unrotatedPending || displays.isEmpty }.put b
        (.oriented g displays) := by
  simp only [step] at hstep
  split at hstep
  · rename_i g displays hbuild
    exact ⟨g, displays, hbuild, (Option.some.inj hstep).symm⟩
  · cases hstep

theorem step_noteCapturer (s s' : System) (b : ℕ) (hstep : step s (.noteCapturer b) = some s') :
    ∃ g displays, s.builds b = some (.oriented g displays) ∧
      s' = { s with layout := s.layout.noteCapturer (logicalRectsOf displays) g }.put b
        (.built g displays) := by
  simp only [step] at hstep
  split at hstep
  · rename_i g displays hbuild
    exact ⟨g, displays, hbuild, (Option.some.inj hstep).symm⟩
  · cases hstep

end ClantoDesk.WaylandLayout
