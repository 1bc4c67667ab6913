import DukeX.Lib.Effect

/-!
# Visibility reports

The renderer counts the samples of draws with occlusion queries (`vk/draw.c`) and answers the
guest's reports when it flushes (`vk/reports.c`).
-/

namespace DukeX.Nv2a.Reports

open Lib

/-! ## State -/

inductive Failure where
  | assertion
  | tooManyQueries
  | reportType
  | reportOffset
deriving DecidableEq

structure QueryReport where
  clear : Bool
  parameter : Nat
  queryCount : Nat
deriving DecidableEq

structure WrittenReport where
  dma : Nat
  parameter : Nat
  result : Nat
deriving DecidableEq

/-- The fields of `PGRAPHState` and `PGRAPHVkState` that queries and reports depend on, the query pool
and the query that is active in the command buffer, and the reports written so far. -/
structure RendererState where
  dmaReport : Nat
  zpassPixelCountEnable : Bool
  clearing : Bool
  inCommandBuffer : Bool
  inRenderPass : Bool
  inDraw : Bool
  reportQueue : List QueryReport
  numQueriesInFlight : Nat
  newQueryNeeded : Bool
  queryInFlight : Bool
  zpassPixelCountResult : Nat
  queryPool : Nat → Nat
  activeQuery : Option Nat
  written : List WrittenReport

abbrev Vk := EStateM Failure RendererState

structure Setup where
  dmaLen : Nat → Nat
  surfaceScale : Int

def Setup.surfaceScaleFactor (setup : Setup) : Nat := (max setup.surfaceScale 1).toNat

def maxQueriesInFlight : Nat := 1024

def check (c : Bool) (e : Failure) : Vk Unit := if c then pure () else throw e

def onlyIf (c : Bool) (m : Vk Unit) : Vk Unit := if c then m else pure ()

def vkCmdResetQueryPool (query : Nat) : Vk Unit :=
  modify fun r => { r with queryPool := Function.update r.queryPool query 0 }

def vkCmdBeginQuery (query : Nat) : Vk Unit := modify fun r => { r with activeQuery := some query }

def vkCmdEndQuery : Vk Unit := modify fun r => { r with activeQuery := none }

def vkCmdDraw (samples : Nat) : Vk Unit :=
  modify fun r =>
    match r.activeQuery with
    | some query =>
      { r with queryPool := Function.update r.queryPool query (r.queryPool query + samples) }
    | none => r

def beginQuery : Vk Unit := do
  let r ← get
  check r.inCommandBuffer .assertion
  check (!r.inRenderPass) .assertion
  check (!r.queryInFlight) .assertion
  check (r.numQueriesInFlight < maxQueriesInFlight) .tooManyQueries
  vkCmdResetQueryPool r.numQueriesInFlight
  vkCmdBeginQuery r.numQueriesInFlight
  modify fun r => { r with
    queryInFlight := true
    newQueryNeeded := false
    numQueriesInFlight := r.numQueriesInFlight + 1 }

def endQuery : Vk Unit := do
  let r ← get
  check r.inCommandBuffer .assertion
  check (!r.inRenderPass) .assertion
  check r.queryInFlight .assertion
  vkCmdEndQuery
  modify fun r => { r with queryInFlight := false }

def beginRenderPass : Vk Unit := do
  let r ← get
  check r.inCommandBuffer .assertion
  check (!r.inRenderPass) .assertion
  modify fun r => { r with inRenderPass := true }

def endRenderPass : Vk Unit :=
  modify fun r => if r.inRenderPass then { r with inRenderPass := false } else r

def ensureNotInRenderPass : Vk Unit := do
  endRenderPass
  let r ← get
  onlyIf r.queryInFlight endQuery

def ensureCommandBuffer : Vk Unit :=
  modify fun r => if r.inCommandBuffer then r else { r with inCommandBuffer := true }

/-! ## Reports -/

def clearReportValue : Vk Unit :=
  modify fun r => { r with
    reportQueue := r.reportQueue ++ [⟨true, 0, r.numQueriesInFlight⟩]
    newQueryNeeded := true }

def reportType (parameter : Nat) : Nat := parameter / 2 ^ 24 % 2 ^ 8

def reportOffset (parameter : Nat) : Nat := parameter % 2 ^ 24

def getReport (parameter : Nat) : Vk Unit := do
  check (reportType parameter == 1) .reportType
  modify fun r => { r with
    reportQueue := r.reportQueue ++ [⟨false, parameter, r.numQueriesInFlight⟩]
    newQueryNeeded := true }

def writeZpassPixelCntReport (setup : Setup) (parameter result : Nat) : Vk Unit := do
  let r ← get
  check (reportOffset parameter < setup.dmaLen r.dmaReport) .reportOffset
  modify fun r => { r with written := r.written ++ [⟨r.dmaReport, parameter, result⟩] }

def resultDivisor (setup : Setup) : Nat :=
  setup.surfaceScaleFactor * setup.surfaceScaleFactor % 2 ^ 32

def addResults (results : Nat → Nat) (numResultsCounted stop : Nat) : Vk Unit :=
  modify fun r => { r with
    zpassPixelCountResult := (List.range' numResultsCounted (stop - numResultsCounted)).foldl
      (fun total i => (total + results i) % 2 ^ 32) r.zpassPixelCountResult }

def settleReport (setup : Setup) (report : QueryReport) : Vk Unit := do
  let r ← get
  if report.clear then modify fun r => { r with zpassPixelCountResult := 0 }
  else
    writeZpassPixelCntReport setup report.parameter (r.zpassPixelCountResult / resultDivisor setup)

def processReports (setup : Setup) (results : Nat → Nat) : List QueryReport → Nat → Vk Nat
  | [], numResultsCounted => pure numResultsCounted
  | report :: reports, numResultsCounted => do
    let r ← get
    check (numResultsCounted ≤ report.queryCount) .assertion
    check (report.queryCount ≤ r.numQueriesInFlight) .assertion
    addResults results numResultsCounted report.queryCount
    settleReport setup report
    modify fun r => { r with reportQueue := reports }
    processReports setup results reports report.queryCount

def processPendingReportsInternal (setup : Setup) : Vk Unit := do
  let r ← get
  check (!r.inCommandBuffer) .assertion
  let numResultsCounted ← processReports setup r.queryPool r.reportQueue 0
  addResults r.queryPool numResultsCounted r.numQueriesInFlight
  modify fun r => { r with numQueriesInFlight := 0 }

def submitCommandBuffer : Vk Unit := do
  endRenderPass
  let r ← get
  onlyIf r.queryInFlight endQuery
  modify fun r => { r with inCommandBuffer := false }

def finish (setup : Setup) : Vk Unit := do
  let r ← get
  check (!r.inDraw) .assertion
  onlyIf r.inCommandBuffer submitCommandBuffer
  processPendingReportsInternal setup

def processPendingReports (setup : Setup) (dmaGet dmaPut : Nat) : Vk Unit := do
  let r ← get
  onlyIf (dmaGet == dmaPut && r.inCommandBuffer && r.reportQueue != []) (finish setup)

/-! ## Draws -/

/-- `begin_pre_draw`: `dirty` if the framebuffer or the render pass changes, `full` if the descriptor
sets need space that only a flush gives. -/
def beginPreDraw (setup : Setup) (dirty full : Bool) : Vk Unit := do
  onlyIf dirty ensureNotInRenderPass
  let r ← get
  onlyIf (!r.clearing && full) (finish setup)
  ensureCommandBuffer

def beginDrawQuery : Vk Unit := do
  let r ← get
  if !r.clearing && r.zpassPixelCountEnable then
    onlyIf (r.newQueryNeeded && r.queryInFlight) do
      endRenderPass
      endQuery
    let r ← get
    onlyIf (!r.queryInFlight) do
      endRenderPass
      beginQuery
  else
    onlyIf r.queryInFlight do
      endRenderPass
      endQuery

def beginDraw : Vk Unit := do
  let r ← get
  check r.inCommandBuffer .assertion
  beginDrawQuery
  onlyIf r.clearing endRenderPass
  let r ← get
  onlyIf (!r.inRenderPass) beginRenderPass
  modify fun r => { r with inDraw := true }

def endDraw : Vk Unit := do
  let r ← get
  check r.inCommandBuffer .assertion
  check r.inRenderPass .assertion
  onlyIf r.clearing endRenderPass
  modify fun r => { r with inDraw := false }

def recordDraw (setup : Setup) (dirty full : Bool) (samples : Nat) : Vk Unit := do
  beginPreDraw setup dirty full
  beginDraw
  vkCmdDraw samples
  endDraw

def clearSurface (setup : Setup) (dirty : Bool) (samples : Nat) : Vk Unit := do
  modify fun r => { r with clearing := true }
  recordDraw setup dirty false samples
  modify fun r => { r with clearing := false }

inductive Op where
  | setContextDmaReport (dma dmaGet dmaPut : Nat)
  | setZpassPixelCountEnable (enable : Bool)
  | draw (dirty full : Bool) (samples : Nat)
  | clearSurface (dirty : Bool) (samples : Nat)
  | clearReportValue
  | getReport (parameter : Nat)
  | processPendingReports (dmaGet dmaPut : Nat)
  | ensureNotInRenderPass
  | finish

def Op.run (setup : Setup) : Op → Vk Unit
  | .setContextDmaReport dma dmaGet dmaPut => do
    Reports.processPendingReports setup dmaGet dmaPut
    modify fun r => { r with dmaReport := dma }
  | .setZpassPixelCountEnable enable => modify fun r => { r with zpassPixelCountEnable := enable }
  | .draw dirty full samples => recordDraw setup dirty full samples
  | .clearSurface dirty samples => Reports.clearSurface setup dirty samples
  | .clearReportValue => Reports.clearReportValue
  | .getReport parameter => Reports.getReport parameter
  | .processPendingReports dmaGet dmaPut => Reports.processPendingReports setup dmaGet dmaPut
  | .ensureNotInRenderPass => Reports.ensureNotInRenderPass
  | .finish => Reports.finish setup

def run (setup : Setup) (ops : List Op) : Vk Unit := ops.forM (Op.run setup)

def initReports (dmaReport : Nat) (zpassPixelCountEnable : Bool) : RendererState where
  dmaReport := dmaReport
  zpassPixelCountEnable := zpassPixelCountEnable
  clearing := false
  inCommandBuffer := false
  inRenderPass := false
  inDraw := false
  reportQueue := []
  numQueriesInFlight := 0
  newQueryNeeded := false
  queryInFlight := false
  zpassPixelCountResult := 0
  queryPool := fun _ => 0
  activeQuery := none
  written := []

end DukeX.Nv2a.Reports
