import ClantoDesk.SortedMap
import Mathlib.Algebra.Order.Field.Rat
import Mathlib.Data.Rat.Floor
import Mathlib.Data.String.Basic

/-!
The quality controller of the video, src/server/video_qos.rs. Every viewer has a target for the
frame rate, which its own replies and timeouts move, and the stream runs at the lowest target. A
viewer's delay state is a value of its own here, so that what an event does to it is a function
of that state. An event reads the clock once, in nanoseconds.
-/
namespace ClantoDesk.VideoQos

/-- The operations on numbers of type `f32`. None of their laws is used. -/
class F32 (F : Type) extends OfScientific F, NatCast F, Mul F, Div F, Min F, Max F, LT F, LE F where
  decLt : ∀ a b : F, Decidable (a < b)
  decLe : ∀ a b : F, Decidable (a ≤ b)
  /-- Rounded up, as a number of type `u32`. -/
  ceil : F → ℕ

instance F32.instDecidableLt {F : Type} [F32 F] (a b : F) : Decidable (a < b) := F32.decLt a b

instance F32.instDecidableLe {F : Type} [F32 F] (a b : F) : Decidable (a ≤ b) := F32.decLe a b

/-- Exact numbers, in place of rounded ones. -/
instance : F32 ℚ where
  toOfScientific := inferInstance
  toNatCast := inferInstance
  toMul := inferInstance
  toDiv := inferInstance
  toMin := inferInstance
  toMax := inferInstance
  toLT := inferInstance
  toLE := inferInstance
  decLt := fun _ _ => inferInstance
  decLe := fun _ _ => inferInstance
  ceil := fun q => ⌈q⌉.toNat

/-- What the build fixes: the target, and the values of the enumeration `ImageQuality`. -/
structure Build where
  linux : Bool
  low : ℤ
  balanced : ℤ
  best : ℤ

def fpsDefault : ℕ := 30
def minFps : ℕ := 1
def maxFps : ℕ := 120
def initFps : ℕ := 15
def minAutoFps : ℕ := 5
def historyDelayLen : ℕ := 2
def adjustRatioInterval : ℕ := 3
def dynamicScreenThreshold : ℕ := 2
def delayThreshold : ℕ := 150
def restoreGuardSamples : ℕ := 5
def u8Max : ℕ := 255
def u32Max : ℕ := 4294967295

/-- For `lo ≤ hi`, the closest number to `x` between the two. -/
def clamp (lo hi x : ℕ) : ℕ := max lo (min x hi)

def lowest : List ℕ → Option ℕ
  | [] => none
  | n :: rest => some (rest.foldl min n)

structure RttCalculator where
  baseline : Option ℕ := none
  samples : List ℕ := []
deriving DecidableEq

namespace RttCalculator

def windowSamples : ℕ := 20
def maxIncreaseMs : ℕ := 50

/-- The baseline of a full window, which `older` and `recent` are the halves of. -/
def settle (baseline : ℕ) (older recent : List ℕ) : ℕ :=
  match lowest older, lowest recent with
  | some olderMin, some recentMin =>
    if min (olderMin + 10) u32Max < recentMin then baseline
    else
      let rise := min olderMin recentMin - baseline
      if 0 < rise then baseline + clamp 1 maxIncreaseMs (rise / 2) else baseline
  | _, _ => baseline

def update (self : RttCalculator) (delay : ℕ) : RttCalculator :=
  let kept := if windowSamples ≤ self.samples.length then self.samples.drop 1 else self.samples
  let samples := kept ++ [delay]
  let baseline := min (self.baseline.getD delay) delay
  let half := windowSamples / 2
  if samples.length < windowSamples then ⟨some baseline, samples⟩
  else ⟨some (settle baseline (samples.take half) (samples.drop half)), samples⟩

def getRtt (self : RttCalculator) : Option ℕ := self.baseline

end RttCalculator

structure UserDelay where
  stallTicks : ℕ := 0
  delayHistory : List ℕ := []
  fps : Option ℕ := none
  rttCalculator : RttCalculator := {}
  quickIncreaseFpsCount : ℕ := 0
  increaseFpsCount : ℕ := 0
  consecutiveBadSamples : ℕ := 0
  fpsBadSamples : ℕ := 0
  goodSamples : ℕ := 0
  repliesAfterBitrateReduction : Option ℕ := none
  fpsBeforeCongestion : Option ℕ := none
  samplesSinceRestore : Option ℕ := none
  stallReferenceFps : Option ℕ := none
  startupGoodSamples : ℕ := 0
deriving DecidableEq

namespace UserDelay

def addDelay (self : UserDelay) (delay : ℕ) : UserDelay :=
  let kept :=
    if historyDelayLen ≤ self.delayHistory.length then self.delayHistory.drop 1
    else self.delayHistory
  { self with delayHistory := kept ++ [delay] }

def excess (self : UserDelay) (delay : ℕ) : ℕ := delay - self.rttCalculator.getRtt.getD 0

def onReduction (self : UserDelay) (currentFps : ℕ) : UserDelay :=
  { self with
    startupGoodSamples := u8Max
    goodSamples := 0
    fpsBadSamples := 0
    fpsBeforeCongestion := some (self.fpsBeforeCongestion.getD currentFps) }

def recover (self : UserDelay) (currentFps fps : ℕ) : ℕ × UserDelay :=
  let gradual := currentFps + max (currentFps / 10) 1
  match self.fpsBeforeCongestion.filter fun level => decide (currentFps < level) with
  | some level =>
    if self.goodSamples = 2 ∨ self.goodSamples = 3 then
      (max fps level, { self with fpsBeforeCongestion := none, samplesSinceRestore := some 0 })
    else (gradual, self)
  | none =>
    if self.goodSamples = 3 then
      (max fps (currentFps + max (currentFps / 5) 2), { self with fpsBeforeCongestion := none })
    else (gradual, self)

def good (self : UserDelay) : UserDelay :=
  { self with
    consecutiveBadSamples := 0
    fpsBadSamples := 0
    repliesAfterBitrateReduction := none
    goodSamples := min (self.goodSamples + 1) 3 }

def bad (self : UserDelay) : UserDelay :=
  { self with
    consecutiveBadSamples := min (self.consecutiveBadSamples + 1) 3
    fpsBadSamples := min (self.fpsBadSamples + 1) 3
    repliesAfterBitrateReduction := self.repliesAfterBitrateReduction.map fun n => min (n + 1) 2 }

def guarded (self : UserDelay) : Bool :=
  self.samplesSinceRestore.any fun samples => decide (samples ≤ restoreGuardSamples)

def failedRestore (self : UserDelay) (delay : ℕ) : Bool := decide (600 ≤ delay) && self.guarded

def lowerLevel (self : UserDelay) (currentFps delay : ℕ) : UserDelay :=
  if self.guarded ∧ (self.failedRestore delay ∨ 3 ≤ self.consecutiveBadSamples) then
    { self with
      fpsBeforeCongestion := some (currentFps - currentFps / 4)
      samplesSinceRestore := none }
  else self

def waits (self : UserDelay) (bitrateFirst : Bool) : Bool :=
  decide (self.fpsBadSamples < 3) ||
    (bitrateFirst && decide (self.repliesAfterBitrateReduction.getD 0 < 2))

/-- The rest of `limit_fps_change` for a bad reply. `failed` is a failed restore. -/
def reduce (self : UserDelay) (currentFps fps delay : ℕ) (bitrateFirst braked failed : Bool) :
    ℕ × UserDelay :=
  if currentFps ≤ fps ∨ braked then (currentFps, self)
  else if !failed ∧ delay < 1000 ∧ self.waits bitrateFirst then (currentFps, self)
  else
    let divisor := if 1000 ≤ delay ∨ failed then 2 else 5
    (max fps (currentFps - max (currentFps / divisor) 1), self.onReduction currentFps)

def countReply (self : UserDelay) : UserDelay :=
  { self with
    samplesSinceRestore := self.samplesSinceRestore.map fun samples => min (samples + 1) u8Max }

def limitFpsChange (self : UserDelay) (currentFps fps delay : ℕ) (bitrateFirst braked : Bool) :
    ℕ × UserDelay :=
  let delay := self.excess delay
  let self := self.countReply
  if delay < delayThreshold then self.good.recover currentFps fps
  else
    let self := self.bad
    (self.lowerLevel currentFps delay).reduce currentFps fps delay bitrateFirst braked
      (self.failedRestore delay)

def accelerateStartup (self : UserDelay) (currentFps fps cap delay : ℕ) (braked : Bool) :
    ℕ × UserDelay :=
  if self.startupGoodSamples = u8Max then (fps, self)
  else if braked ∨ 50 ≤ self.excess delay ∨ cap ≤ currentFps then
    (fps, { self with startupGoodSamples := u8Max })
  else if self.startupGoodSamples + 1 < 2 then
    (fps, { self with startupGoodSamples := self.startupGoodSamples + 1 })
  else
    let accelerated := min (max fps (min (currentFps * 2) u32Max)) cap
    (accelerated, { self with startupGoodSamples := if cap ≤ accelerated then u8Max else 0 })

def needsBitrateReduction (self : UserDelay) : Bool :=
  decide (2 ≤ self.consecutiveBadSamples) || decide (2 ≤ self.stallTicks)

def avgDelay (self : UserDelay) : ℕ :=
  if self.delayHistory.isEmpty then delayThreshold
  else self.excess (self.delayHistory.foldl (· + ·) 0 % (u32Max + 1) / self.delayHistory.length)

section

variable {F : Type} [F32 F]

def ratioReduction (self : UserDelay) : Option F :=
  if self.needsBitrateReduction then
    let excess := self.avgDelay
    let confirmed := 3 ≤ self.consecutiveBadSamples
    some (
      if excess < 200 then 0.95
      else if excess < 300 then 0.9
      else if excess < 500 then if confirmed then 0.7 else 0.85
      else if confirmed then 0.5 else 0.8)
  else none

/-- `min_fps` and `normal_fps` of `user_network_delay`. -/
def fpsRange (targetRatio : F) : ℕ × ℕ :=
  if (1.5 : F) ≤ targetRatio then (8, 16)
  else if (0.67 : F) ≤ targetRatio then (10, 20)
  else (12, 24)

def devideFps (F : Type) [F32 F] (fps avgDelay : ℕ) : ℕ :=
  F32.ceil ((fps : F) / ((avgDelay : F) / (delayThreshold : F)))

/-- The rate for an average delay, with `quick_increase_fps_count` after it. -/
def delayFps (F : Type) [F32 F] (range : ℕ × ℕ) (fps avgDelay oldAvgDelay quick : ℕ) : ℕ × ℕ :=
  let step := if fps < range.2 then 1 else 0
  let dividend := delayThreshold * range.1
  if avgDelay < 50 then
    if 3 ≤ quick + 1 then (max range.1 (fps + 5), 0) else (max range.1 (fps + step), quick + 1)
  else if avgDelay < 100 then
    (max range.1 (fps + if avgDelay < oldAvgDelay then step else 0), quick)
  else if avgDelay < delayThreshold then (max range.1 fps, quick)
  else if avgDelay < 200 then (max range.1 (devideFps F fps avgDelay), quick)
  else if avgDelay < 300 then (min range.1 (devideFps F fps avgDelay), quick)
  else if avgDelay < 600 then (dividend / avgDelay, quick)
  else (min (dividend / avgDelay) (devideFps F fps avgDelay), quick)

def aimFps (self : UserDelay) (targetRatio : F) (bitrateFirst : Bool)
    (cap currentFps oldAvgDelay : ℕ) : ℕ × UserDelay :=
  let range := fpsRange targetRatio
  let avgDelay := max self.avgDelay 10
  let (fps, quick) := delayFps F range currentFps avgDelay oldAvgDelay self.quickIncreaseFpsCount
  let increase := if avgDelay < delayThreshold then self.increaseFpsCount + 1 else 0
  let fps := if 3 ≤ increase then fps + 1 else fps
  let fps := if bitrateFirst then max fps range.1 else fps
  (max fps (min minAutoFps cap),
    { self with
      increaseFpsCount := if 3 ≤ increase then 0 else increase
      quickIncreaseFpsCount := if 50 < avgDelay then 0 else quick })

def received (self : UserDelay) (delay : ℕ) : UserDelay :=
  let self :=
    if self.stallReferenceFps.isSome then self
    else { self with rttCalculator := self.rttCalculator.update delay }
  addDelay { self with stallTicks := 0, stallReferenceFps := none } delay

def currentFps (self : UserDelay) (cap : ℕ) : ℕ := self.fps.getD (min initFps cap)

/-- The part of `user_network_delay` that is about the viewer who replied. -/
def reply (self : UserDelay) (targetRatio : F) (bitrateFirst : Bool) (cap delay : ℕ) :
    UserDelay :=
  let delay := max delay 10
  let braked := self.stallReferenceFps.isSome
  let current := self.currentFps cap
  let aim := (self.received delay).aimFps targetRatio bitrateFirst cap current self.avgDelay
  let limited := aim.2.limitFpsChange current aim.1 delay bitrateFirst braked
  let started := limited.2.accelerateStartup current limited.1 cap delay braked
  { started.2 with fps := some (clamp minFps cap started.1) }

end

/-- The part of `user_delay_response_elapsed` that is about the viewer who does not reply. -/
def timeout (self : UserDelay) (cap elapsed : ℕ) : UserDelay :=
  let self := addDelay { self with stallTicks := min (self.stallTicks + 1) u8Max }
    (elapsed % (u32Max + 1))
  let reference := self.stallReferenceFps.getD (self.currentFps cap)
  let self :=
    if self.stallReferenceFps.isSome then self
    else onReduction { self with stallReferenceFps := some reference } reference
  let divisor := 2 ^ min (elapsed / 1000 % (u32Max + 1) - 1) 5
  let current := self.fps.getD reference
  { self with fps := some (min (clamp (min minAutoFps cap) cap (reference / divisor)) current) }

end UserDelay

inductive Quality (F : Type) where
  | best
  | balanced
  | low
  | custom (v : F)

structure UserData (F : Type) where
  autoAdjustFps : Option ℕ := none
  customFps : Option ℕ := none
  quality : Option (ℤ × Quality F) := none
  delay : UserDelay := {}
  record : Bool := false
  joinedAt : Option ℕ := none

def UserData.fpsCap {F : Type} (self : UserData F) : ℕ :=
  let fps := self.customFps.getD fpsDefault
  let fps :=
    match self.autoAdjustFps with
    | some autoAdjustFps => if fps = 0 ∨ autoAdjustFps < fps then autoAdjustFps else fps
    | none => fps
  clamp minFps maxFps fps

theorem UserData.fpsCap_bounds {F : Type} (self : UserData F) :
    minFps ≤ self.fpsCap ∧ self.fpsCap ≤ maxFps := by
  refine ⟨le_max_left _ _, ?_⟩
  show max 1 (min _ 120) ≤ 120
  omega

structure DisplayData where
  sendCounter : ℕ := 0
  supportChangingQuality : Bool := false

structure VideoQoS (F : Type) where
  fps : ℕ
  ratio : F
  users : SortedMap ℤ (UserData F)
  displays : SortedMap String DisplayData
  bitrateStore : ℕ
  adjustRatioInstant : ℕ
  abrConfig : Bool
  firstReplyAdjustsRatio : Bool

/-- The order in which the map of the viewers gives its entries. -/
structure HashOrder (F : Type) where
  arrange : List (ℤ × UserData F) → List (ℤ × UserData F)
  perm : ∀ entries, (arrange entries).Perm entries

/-- The clock and the order of the map at an event. -/
structure Moment (F : Type) where
  now : ℕ
  order : HashOrder F

def secsSince (now instant : ℕ) : ℕ := (now - instant) / 1000000000

section

variable {F : Type} [F32 F]

def Quality.ratio : Quality F → F
  | .best => 1.5
  | .balanced => 0.67
  | .low => 0.5
  | .custom v => v

def F32.clamp (lo hi v : F) : F :=
  let v := if v < lo then lo else v
  if hi < v then hi else v

def convertQuality (build : Build) (q : ℤ) : Quality F :=
  if q = build.balanced then .balanced
  else if q = build.low then .low
  else if q = build.best then .best
  else .custom (F32.clamp 0.2 40.0 (((q / 256 % 4096).toNat * 2 : ℕ) / (100.0 : F)))

/-- The last of the greatest times, as `max_by` gives it. -/
def latest (qualities : List (ℤ × Quality F)) : Option (ℤ × Quality F) :=
  qualities.foldl (fun best q =>
    match best with
    | none => some q
    | some b => if q.1 < b.1 then some b else some q) none

namespace VideoQoS

variable (self : VideoQoS F)

def default (build : Build) (now : ℕ) : VideoQoS F where
  fps := fpsDefault
  ratio := 0.67
  users := SortedMap.empty
  displays := SortedMap.empty
  bitrateStore := 0
  adjustRatioInstant := now
  abrConfig := true
  firstReplyAdjustsRatio := !build.linux

def inVbrState : Bool :=
  self.abrConfig && self.displays.entries.all fun e => e.2.supportChangingQuality

def latestQuality (order : HashOrder F) : Quality F :=
  let qualities := (order.arrange self.users.entries).filterMap fun e => e.2.quality
  (latest qualities).elim .balanced fun q => q.2

def minRatio (order : HashOrder F) : F :=
  let lower (least : F) : F :=
    if 0 < self.bitrateStore then
      let ratio1mbps := max (self.ratio * 1000.0 / (self.bitrateStore : F)) 0.1
      if ratio1mbps < least then ratio1mbps else least
    else least
  match self.latestQuality order with
  | .best => max (lower (1.5 / 2.5)) 0.2
  | .balanced => max (lower (min (0.67 / 2.0) 0.4)) 0.1
  | .low => 0.1
  | .custom _ => 0.1

def canReduceBitrate (order : HashOrder F) : Bool :=
  self.inVbrState && !self.displays.entries.isEmpty &&
    decide (self.minRatio order * 1.02 < self.ratio)

def resetSendCounters : VideoQoS F :=
  { self with displays := self.displays.mapValues fun d => { d with sendCounter := 0 } }

def highestFps : ℕ :=
  clamp minFps maxFps ((lowest (self.users.entries.map fun e => e.2.fpsCap)).getD fpsDefault)

def starting (now : ℕ) (user : UserData F) : Bool :=
  user.joinedAt.any fun joined => decide (secsSince now joined < 1)

def adjustFps (now : ℕ) : VideoQoS F :=
  let targets := self.users.entries.map fun e => e.2.delay.fps.getD initFps
  let fps := (lowest targets).getD initFps
  let fps := if self.users.entries.any fun e => starting now e.2 then min fps initFps else fps
  { self with fps := clamp minFps self.highestFps fps }

def reduction (order : HashOrder F) : Option F :=
  match (order.arrange self.users.entries).filterMap fun e => e.2.delay.ratioReduction with
  | [] => none
  | factor :: rest => some (rest.foldl min factor)

/-- `v` of `adjust_ratio` before the limit on its increase. -/
def steppedRatio (reduction : Option F) (maxDelay : ℕ) (dynamicScreen : Bool) : F :=
  match reduction with
  | some factor => self.ratio * factor
  | none =>
    if dynamicScreen then
      self.ratio * if maxDelay < 50 then 1.15 else if maxDelay < 100 then 1.1 else 1.05
    else self.ratio

def limitedRatio (v : F) : F :=
  if 0 < self.bitrateStore then
    let ratioAdd150kbps :=
      (((self.bitrateStore + 150) % (u32Max + 1) : ℕ) : F) * self.ratio / (self.bitrateStore : F)
    if ratioAdd150kbps < v ∧ self.ratio < ratioAdd150kbps ∧ (0.5 : F) ≤ self.ratio then
      ratioAdd150kbps
    else v
  else v

def noteReduction (reduced : Bool) (user : UserData F) : UserData F :=
  if user.delay.needsBitrateReduction ∧ user.delay.repliesAfterBitrateReduction.isNone then
    let replies := if reduced then 0 else 2
    { user with delay := { user.delay with repliesAfterBitrateReduction := some replies } }
  else user

def adjustRatio (m : Moment F) (dynamicScreen : Bool) : VideoQoS F :=
  if !self.inVbrState then self
  else
    match self.users.entries.map fun e => e.2.delay.avgDelay with
    | [] => self
    | first :: rest =>
      let maxDelay := rest.foldl max first
      let reduction := self.reduction m.order
      if reduction.isNone ∧ delayThreshold ≤ maxDelay then self.resetSendCounters
      else
        let target := (self.latestQuality m.order).ratio
        let v := self.limitedRatio (self.steppedRatio reduction maxDelay dynamicScreen)
        let ratio := F32.clamp (self.minRatio m.order) (target * 1.0) v
        let users :=
          if reduction.isSome then
            self.users.mapValues (noteReduction (decide (ratio < self.ratio)))
          else self.users
        { self with users, ratio, adjustRatioInstant := m.now }.resetSendCounters

def onConnectionOpen (now : ℕ) (id : ℤ) (enableAbr : String) : VideoQoS F :=
  { self with
    users := self.users.insert id { joinedAt := some now }
    abrConfig := decide (enableAbr ≠ "N") }

def onConnectionClose (build : Build) (now : ℕ) (id : ℤ) : VideoQoS F :=
  let users := self.users.erase id
  if users.entries.isEmpty then default build now else { self with users }.adjustFps now

def modifyUser (id : ℤ) (f : UserData F → UserData F) : VideoQoS F :=
  match self.users.get id with
  | some user => { self with users := self.users.insert id (f user) }
  | none => self

def userCustomFps (id : ℤ) (fps : ℕ) : VideoQoS F :=
  if fps < minFps ∨ maxFps < fps then self
  else self.modifyUser id fun user => { user with customFps := some fps }

def userAutoAdjustFps (id : ℤ) (fps : ℕ) : VideoQoS F :=
  if fps < minFps ∨ maxFps < fps then self
  else self.modifyUser id fun user => { user with autoAdjustFps := some fps }

/-- `time` is the clock of hbb_common. -/
def userImageQuality (build : Build) (order : HashOrder F) (id time imageQuality : ℤ) :
    VideoQoS F :=
  match self.users.get id with
  | some user =>
    let quality := some (time, convertQuality build imageQuality)
    let self := { self with users := self.users.insert id { user with quality } }
    { self with ratio := (self.latestQuality order).ratio }
  | none => self

def userRecord (id : ℤ) (v : Bool) : VideoQoS F :=
  self.modifyUser id fun user => { user with record := v }

def mayAdjustRatio (now : ℕ) : Bool :=
  decide (adjustRatioInterval ≤ secsSince now self.adjustRatioInstant)

def userNetworkDelay (m : Moment F) (id : ℤ) (delay : ℕ) : VideoQoS F :=
  let targetRatio := (self.latestQuality m.order).ratio
  let bitrateFirst := self.canReduceBitrate m.order
  match self.users.get id with
  | some user =>
    let answered := user.delay.reply targetRatio bitrateFirst user.fpsCap delay
    let reduceBitrate := bitrateFirst && answered.needsBitrateReduction &&
      answered.repliesAfterBitrateReduction.isNone
    let users := self.users.insert id { user with delay := answered }
    let self := { self with users }.adjustFps m.now
    let self :=
      if user.delay.fps.isNone ∧ self.firstReplyAdjustsRatio ∧ self.mayAdjustRatio m.now then
        self.adjustRatio m false
      else self
    if reduceBitrate ∧ self.mayAdjustRatio m.now then self.adjustRatio m false else self
  | none => self.adjustFps m.now

def userDelayResponseElapsed (now : ℕ) (id : ℤ) (elapsed : ℕ) : VideoQoS F :=
  match self.users.get id with
  | some user =>
    if elapsed ≤ 2000 then self
    else
      let delay := user.delay.timeout user.fpsCap elapsed
      { self with users := self.users.insert id { user with delay } }.adjustFps now
  | none => self

def tickRatio (m : Moment F) : VideoQoS F :=
  if self.inVbrState then
    if self.mayAdjustRatio m.now then
      self.adjustRatio m (self.displays.entries.any fun e =>
        decide (adjustRatioInterval * dynamicScreenThreshold ≤ e.2.sendCounter))
    else self
  else { self with ratio := (self.latestQuality m.order).ratio }

def updateDisplayData (m : Moment F) (name : String) (sendCounter : ℕ) : VideoQoS F :=
  let displays :=
    match self.displays.get name with
    | some d => self.displays.insert name { d with sendCounter := d.sendCounter + sendCounter }
    | none => self.displays
  ({ self with displays }.adjustFps m.now).tickRatio m

def setSupportChangingQuality (name : String) (support : Bool) : VideoQoS F :=
  match self.displays.get name with
  | some d =>
    { self with displays := self.displays.insert name { d with supportChangingQuality := support } }
  | none => self

/-- The method `fps`. -/
def streamFps : ℕ := if minFps ≤ self.fps ∧ self.fps ≤ maxFps then self.fps else fpsDefault

/-- The method `ratio`, which also repairs what it reads. -/
def readRatio : VideoQoS F :=
  if self.ratio < (0.1 : F) ∨ (40.0 : F) < self.ratio then { self with ratio := 0.67 } else self

end VideoQoS

end

inductive Event where
  | onConnectionOpen (id : ℤ) (enableAbr : String)
  | onConnectionClose (id : ℤ)
  | userCustomFps (id : ℤ) (fps : ℕ)
  | userAutoAdjustFps (id : ℤ) (fps : ℕ)
  | userImageQuality (id time imageQuality : ℤ)
  | userRecord (id : ℤ) (v : Bool)
  | userNetworkDelay (id : ℤ) (delay : ℕ)
  | userDelayResponseElapsed (id : ℤ) (elapsed : ℕ)
  | newDisplay (name : String)
  | removeDisplay (name : String)
  | updateDisplayData (name : String) (sendCounter : ℕ)
  | setSupportChangingQuality (name : String) (support : Bool)
  | storeBitrate (bitrate : ℕ)
  | readRatio
deriving DecidableEq

def momentAt (now : ℕ) : Moment ℚ := ⟨now, ⟨id, fun _ => List.Perm.refl _⟩⟩

def timed (events : List (ℕ × Event)) : List (Moment ℚ × Event) :=
  events.map fun e => (momentAt e.1, e.2)

def linuxBuild : Build := ⟨true, 2, 3, 4⟩

variable {F : Type} [F32 F]

def step (build : Build) (q : VideoQoS F) (m : Moment F) : Event → VideoQoS F
  | .onConnectionOpen id enableAbr => q.onConnectionOpen m.now id enableAbr
  | .onConnectionClose id => q.onConnectionClose build m.now id
  | .userCustomFps id fps => q.userCustomFps id fps
  | .userAutoAdjustFps id fps => q.userAutoAdjustFps id fps
  | .userImageQuality id time imageQuality =>
    q.userImageQuality build m.order id time imageQuality
  | .userRecord id v => q.userRecord id v
  | .userNetworkDelay id delay => q.userNetworkDelay m id delay
  | .userDelayResponseElapsed id elapsed => q.userDelayResponseElapsed m.now id elapsed
  | .newDisplay name => { q with displays := q.displays.insert name {} }
  | .removeDisplay name => { q with displays := q.displays.erase name }
  | .updateDisplayData name sendCounter => q.updateDisplayData m name sendCounter
  | .setSupportChangingQuality name support => q.setSupportChangingQuality name support
  | .storeBitrate bitrate => { q with bitrateStore := bitrate }
  | .readRatio => q.readRatio

def run (build : Build) (q : VideoQoS F) (calls : List (Moment F × Event)) : VideoQoS F :=
  calls.foldl (fun q call => step build q call.1 call.2) q

/-- What an event makes of the entry of the viewer `id`. -/
def respond (build : Build) (now : ℕ) (ratio : F) (bitrateFirst : Bool) (id : ℤ) :
    Event → Option (UserData F) → Option (UserData F)
  | .onConnectionOpen i _, user => if id = i then some { joinedAt := some now } else user
  | .onConnectionClose i, user => if id = i then none else user
  | .userCustomFps i fps, user =>
    if id = i ∧ ¬(fps < minFps ∨ maxFps < fps) then
      user.map fun user => { user with customFps := some fps }
    else user
  | .userAutoAdjustFps i fps, user =>
    if id = i ∧ ¬(fps < minFps ∨ maxFps < fps) then
      user.map fun user => { user with autoAdjustFps := some fps }
    else user
  | .userImageQuality i time imageQuality, user =>
    if id = i then
      user.map fun user => { user with quality := some (time, convertQuality build imageQuality) }
    else user
  | .userRecord i v, user =>
    if id = i then user.map fun user => { user with record := v } else user
  | .userNetworkDelay i delay, user =>
    if id = i then
      user.map fun user =>
        { user with delay := user.delay.reply ratio bitrateFirst user.fpsCap delay }
    else user
  | .userDelayResponseElapsed i elapsed, user =>
    if id = i ∧ 2000 < elapsed then
      user.map fun user => { user with delay := user.delay.timeout user.fpsCap elapsed }
    else user
  | _, user => user

def UserData.withoutWait {F : Type} (user : UserData F) : UserData F :=
  { user with delay := { user.delay with repliesAfterBitrateReduction := none } }

/-- A change that is at most to the wait, and none while `off` holds. -/
def WaitOnly {F : Type} (off : Prop) (f : UserData F → UserData F) : Prop :=
  (off → f = id) ∧ ∀ user, (f user).withoutWait = user.withoutWait

theorem WaitOnly.comp {F : Type} (off : Prop) (f g : UserData F → UserData F)
    (hf : WaitOnly off f) (hg : WaitOnly off g) : WaitOnly off (g ∘ f) := by
  refine ⟨fun hoff => ?_, fun user => (hg.2 (f user)).trans (hf.2 user)⟩
  rw [hf.1 hoff, hg.1 hoff, Function.id_comp]

theorem waitOnly_id {F : Type} (off : Prop) : WaitOnly (F := F) off id := by
  exact ⟨fun _ => rfl, fun _ => rfl⟩

theorem waitOnly_noteReduction {F : Type} (off : Prop) (reduced : Bool) (hoff : ¬off) :
    WaitOnly (F := F) off (VideoQoS.noteReduction reduced) := by
  refine ⟨fun h => absurd h hoff, fun user => ?_⟩
  unfold VideoQoS.noteReduction
  split <;> rfl

namespace VideoQoS

variable (q : VideoQoS F)

/-- From `q` to `q'` the rates are left alone, and the viewers too without adaptive bitrate. -/
def RatioOnly (q q' : VideoQoS F) : Prop :=
  q'.fps = q.fps ∧ q'.abrConfig = q.abrConfig ∧
    ∃ f, WaitOnly (q.abrConfig = false) f ∧ ∀ i, q'.users.get i = (q.users.get i).map f

omit [F32 F] in
theorem RatioOnly.of_users (q' : VideoQoS F) (hfps : q'.fps = q.fps)
    (habr : q'.abrConfig = q.abrConfig) (husers : q'.users = q.users) : RatioOnly q q' := by
  refine ⟨hfps, habr, id, waitOnly_id _, fun i => ?_⟩
  rw [husers, Option.map_id_fun]
  rfl

omit [F32 F] in
theorem RatioOnly.trans (q' q'' : VideoQoS F) (h : RatioOnly q q') (h' : RatioOnly q' q'') :
    RatioOnly q q'' := by
  obtain ⟨hfps, habr, f, hf, hget⟩ := h
  obtain ⟨hfps', habr', g, hg, hget'⟩ := h'
  refine ⟨hfps'.trans hfps, habr'.trans habr, g ∘ f, hf.comp _ f g (habr ▸ hg), fun i => ?_⟩
  rw [hget', hget, Option.map_map]

theorem adjustRatio_ratioOnly (m : Moment F) (dynamicScreen : Bool) :
    RatioOnly q (q.adjustRatio m dynamicScreen) := by
  unfold adjustRatio
  split
  · exact RatioOnly.of_users q q rfl rfl rfl
  rename_i hvbr
  split
  · exact RatioOnly.of_users q q rfl rfl rfl
  dsimp only
  split
  · exact RatioOnly.of_users q _ rfl rfl rfl
  split
  · refine ⟨rfl, rfl, _, waitOnly_noteReduction _ _ ?_, fun i => SortedMap.get_mapValues _ _ i⟩
    intro hoff
    simp [inVbrState, hoff] at hvbr
  · exact RatioOnly.of_users q _ rfl rfl rfl

omit [F32 F] in
theorem get_modifyUser (id i : ℤ) (f : UserData F → UserData F) :
    (q.modifyUser id f).users.get i = if i = id then (q.users.get i).map f else q.users.get i := by
  unfold modifyUser
  split
  · rename_i user huser
    rw [SortedMap.get_insert]
    split
    · rename_i heq
      rw [heq, huser, Option.map_some]
    · rfl
  · rename_i hnone
    split
    · rename_i heq
      rw [heq, hnone, Option.map_none]
    · rfl

def answered (m : Moment F) (id : ℤ) (delay : ℕ) : VideoQoS F :=
  q.modifyUser id fun user =>
    { user with
      delay := user.delay.reply (q.latestQuality m.order).ratio (q.canReduceBitrate m.order)
        user.fpsCap delay }

theorem userNetworkDelay_ratioOnly (m : Moment F) (id : ℤ) (delay : ℕ) :
    RatioOnly ((q.answered m id delay).adjustFps m.now) (q.userNetworkDelay m id delay) := by
  have hmaybe (p : Prop) [Decidable p] (r : VideoQoS F) :
      RatioOnly r (if p then r.adjustRatio m false else r) := by
    split
    · exact adjustRatio_ratioOnly r m false
    · exact RatioOnly.of_users r r rfl rfl rfl
  unfold userNetworkDelay answered modifyUser
  split
  · exact RatioOnly.trans _ _ _ (hmaybe _ _) (hmaybe _ _)
  · exact RatioOnly.of_users _ _ rfl rfl rfl

theorem updateDisplayData_ratioOnly (m : Moment F) (name : String) (sendCounter : ℕ) :
    RatioOnly (q.adjustFps m.now) (q.updateDisplayData m name sendCounter) := by
  have htick (r : VideoQoS F) : RatioOnly r (r.tickRatio m) := by
    unfold tickRatio
    split
    · split
      · exact adjustRatio_ratioOnly r m _
      · exact RatioOnly.of_users r r rfl rfl rfl
    · exact RatioOnly.of_users r _ rfl rfl rfl
  exact RatioOnly.trans _ _ _ (RatioOnly.of_users _ _ rfl rfl rfl) (htick _)

/-- With the last viewer everything is reset, otherwise the stream follows the others. -/
theorem get_onConnectionClose (build : Build) (now : ℕ) (id i : ℤ) :
    (q.onConnectionClose build now id).users.get i =
      if i = id then none else q.users.get i := by
  rw [← SortedMap.get_erase]
  unfold onConnectionClose
  dsimp only
  split
  · rename_i hempty
    simp [SortedMap.get, List.isEmpty_iff.mp hempty, default, SortedMap.empty]
  · rfl

end VideoQoS

open VideoQoS

theorem get_step (build : Build) (q : VideoQoS F) (m : Moment F) (e : Event) :
    ∃ f, WaitOnly (q.abrConfig = false) f ∧ ∀ i, (step build q m e).users.get i =
      (respond build m.now (q.latestQuality m.order).ratio (q.canReduceBitrate m.order) i e
        (q.users.get i)).map f := by
  have hexact (q' : VideoQoS F) (user : ℤ → Option (UserData F))
      (h : ∀ i, q'.users.get i = user i) :
      ∃ f, WaitOnly (q.abrConfig = false) f ∧ ∀ i, q'.users.get i = (user i).map f := by
    refine ⟨id, waitOnly_id _, fun i => ?_⟩
    rw [h, Option.map_id_fun]
    rfl
  cases e with
  | onConnectionOpen id enableAbr => exact hexact _ _ fun i => SortedMap.get_insert _ _ _ _
  | onConnectionClose id => exact hexact _ _ fun i => get_onConnectionClose q build m.now id i
  | userCustomFps id fps =>
    refine hexact _ _ fun i => ?_
    simp only [step, userCustomFps, respond]
    split
    · rename_i hout
      rw [if_neg fun h => h.2 hout]
    · rename_i hin
      simp only [hin, not_false_eq_true, and_true]
      exact get_modifyUser q id i _
  | userAutoAdjustFps id fps =>
    refine hexact _ _ fun i => ?_
    simp only [step, userAutoAdjustFps, respond]
    split
    · rename_i hout
      rw [if_neg fun h => h.2 hout]
    · rename_i hin
      simp only [hin, not_false_eq_true, and_true]
      exact get_modifyUser q id i _
  | userImageQuality id time imageQuality =>
    refine hexact _ _ fun i => ?_
    rw [respond, ← get_modifyUser]
    simp only [step, userImageQuality, modifyUser]
    split <;> rfl
  | userRecord id v => exact hexact _ _ fun i => get_modifyUser q id i _
  | userNetworkDelay id delay =>
    obtain ⟨-, -, f, hf, hget⟩ := userNetworkDelay_ratioOnly q m id delay
    have habr : (q.answered m id delay).abrConfig = q.abrConfig := by
      unfold answered modifyUser
      split <;> rfl
    refine ⟨f, habr ▸ hf, fun i => (hget i).trans (congrArg (Option.map f) ?_)⟩
    exact get_modifyUser q id i _
  | userDelayResponseElapsed id elapsed =>
    refine hexact _ _ fun i => ?_
    simp only [step, userDelayResponseElapsed, respond]
    by_cases hlate : 2000 < elapsed
    · simp only [hlate, and_true, if_neg (Nat.not_le.mpr hlate)]
      rw [← get_modifyUser]
      unfold modifyUser
      split <;> rfl
    · simp only [hlate, and_false, if_false, if_pos (Nat.le_of_not_lt hlate)]
      split <;> rfl
  | newDisplay name => exact hexact _ _ fun i => rfl
  | removeDisplay name => exact hexact _ _ fun i => rfl
  | updateDisplayData name sendCounter =>
    obtain ⟨-, -, f, hf, hget⟩ := updateDisplayData_ratioOnly q m name sendCounter
    exact ⟨f, hf, hget⟩
  | setSupportChangingQuality name support =>
    refine hexact _ _ fun i => ?_
    simp only [step, setSupportChangingQuality]
    split <;> rfl
  | storeBitrate bitrate => exact hexact _ _ fun i => rfl
  | readRatio =>
    refine hexact _ _ fun i => ?_
    simp only [step, readRatio]
    split <;> rfl

end ClantoDesk.VideoQos
