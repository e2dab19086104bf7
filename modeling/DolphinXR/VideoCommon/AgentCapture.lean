import DolphinXR.Lib.Transition
import Mathlib.Data.List.Basic

/- The frame captures of the agent server and of draw picks (VideoCommon/VR/AgentCapture.cpp):
   a capture is requested, recorded over some frames, and published when its draw-ID map has
   been read back. One capture is recorded at a time, one waits for its map, and the last
   one published is all that `GetLastCapture` tells.

   Captures have a number here by which they are told apart, and a map has the number of the
   capture that its readback has been queued in. What is drawn is left out. -/
namespace DolphinXR.AgentCapture
open Lib

def maxCaptureFrames : Nat := 300

def drawIdReadbackWaitFrames : Nat := 3

structure CapturedFrame where
  serial : Nat
  id : Nat
  frames : Nat
  drawIds : Bool
  /-- The capture whose readback has filled the map. -/
  idMap : Option Nat
  idMapError : String
  headCulled : Nat
  flatMode : Bool
  patchFlags : List (List String)
  /-- The number of frame ends before the one that has ended the recording. -/
  recordedAt : Nat

structure State where
  pendingCaptureId : Nat
  pendingCaptureFrames : Nat
  pendingCaptureDrawIds : Bool
  current : Option CapturedFrame
  currentTargetFrames : Nat
  drawIdFrame : Bool
  drawIdReadbackPending : Bool
  finishing : Option CapturedFrame
  finishingFrames : Nat
  published : Option CapturedFrame
  /-- The capture that the readback textures have been filled in. -/
  readback : Option Nat
  /-- How many captures have been started, and how many frames have ended. -/
  started : Nat
  frameEnds : Nat
  /-- The captures whose recording has finished: their number and when. -/
  recorded : List (Nat × Nat)
  publishedAll : List CapturedFrame
  /-- What `GetLastCapture` has returned after each frame end. -/
  seen : List CapturedFrame

def initial : State :=
  ⟨0, 1, false, none, 1, false, false, none, 0, none, none, 0, 0, [], [], []⟩

structure FrameEnd where
  headCulledDraws : Nat
  flatMode : Bool
  patchFlags : List String
  /-- Whether there is a framebuffer manager, and a video backend. -/
  framebufferManager : Bool
  gfx : Bool
  /-- What `IsDrawIdFrame`, `QueueDrawIdReadback` and `MapDrawIdReadback` answer. -/
  isDrawIdFrame : Bool
  queued : Bool
  mapped : Bool
  /-- Whether `IsDrawIdReadbackReady` says so without waiting. -/
  ready : Bool

def requestCapture (id frames : Nat) (drawIds : Bool) (s : State) : State :=
  { s with
    pendingCaptureId := id
    pendingCaptureFrames := max 1 (min frames maxCaptureFrames)
    pendingCaptureDrawIds := drawIds }

def readDrawIdMap (e : FrameEnd) (readback : Option Nat) (frame : CapturedFrame) : CapturedFrame :=
  if e.mapped then { frame with idMap := readback }
  else { frame with idMap := none, idMapError := "The draw-ID readback could not be mapped." }

def publish (frame : CapturedFrame) (s : State) : State :=
  { s with
    drawIdReadbackPending := false
    finishing := none
    published := some frame
    publishedAll := s.publishedAll ++ [frame] }

def publishFinishing (e : FrameEnd) (wait : Bool) (s : State) : State :=
  match s.finishing with
  | none => s
  | some frame =>
    if s.drawIdReadbackPending && e.framebufferManager then
      if wait || e.ready then publish (readDrawIdMap e s.readback frame) s else s
    else publish frame s

/-- The end of the draw-ID frame, which queues its readback. -/
def endDrawIdFrame (e : FrameEnd) (s : State) : State :=
  if s.drawIdFrame then
    let s := { s with drawIdFrame := false }
    if e.framebufferManager then
      let s := publishFinishing e true s
      match s.current with
      | none => s
      | some frame =>
        if e.isDrawIdFrame && e.queued then
          { s with drawIdReadbackPending := true, readback := some frame.serial }
        else
          { s with
            current := some
              { frame with
                idMapError := "The draw-ID pass did not run to the end of the frame (the " ++
                  "EFB was recreated, or a state was loaded)." } }
    else s
  else s

/-- The recording is over. -/
def finishRecording (e : FrameEnd) (frame : CapturedFrame) (s : State) : State :=
  let s := publishFinishing e true s
  { s with
    finishing := some { frame with recordedAt := s.frameEnds }
    finishingFrames := 0
    current := none
    recorded := s.recorded ++ [(frame.serial, s.frameEnds)] }

def publishIfReady (e : FrameEnd) (s : State) : State :=
  match s.finishing with
  | none => s
  | some _ =>
    publishFinishing e (decide (drawIdReadbackWaitFrames ≤ s.finishingFrames + 1))
      { s with finishingFrames := s.finishingFrames + 1 }

def startPending (e : FrameEnd) (s : State) : State :=
  if s.pendingCaptureId ≠ 0 then
    let ids := s.pendingCaptureDrawIds
    let pass := e.framebufferManager && e.gfx && !e.flatMode
    { s with
      current := some
        { serial := s.started
          id := s.pendingCaptureId
          frames := 0
          drawIds := ids
          idMap := none
          idMapError := if ids && !pass then
            "No draw-ID pass: the video backend is not running, or the game is shown as a flat " ++
            "screen." else ""
          headCulled := 0
          flatMode := false
          patchFlags := [e.patchFlags]
          recordedAt := 0 }
      currentTargetFrames := s.pendingCaptureFrames
      pendingCaptureId := 0
      pendingCaptureDrawIds := false
      drawIdFrame := s.drawIdFrame || (ids && pass)
      started := s.started + 1 }
  else s

def onEndFrame (e : FrameEnd) (s : State) : State :=
  let s := endDrawIdFrame e s
  match s.current with
  | none => startPending e (publishIfReady e s)
  | some frame =>
    let frame :=
      { frame with
        headCulled := frame.headCulled + e.headCulledDraws
        flatMode := e.flatMode
        frames := frame.frames + 1 }
    if frame.frames < s.currentTargetFrames then
      { s with current := some { frame with patchFlags := frame.patchFlags ++ [e.patchFlags] } }
    else startPending e (publishIfReady e (finishRecording e frame s))

def getLastCapture (s : State) : Option CapturedFrame := s.published

inductive Action where
  | requestCapture (id frames : Nat) (drawIds : Bool)
  | endFrame (e : FrameEnd)

def step (s : State) : Action → Option State
  | .requestCapture id frames drawIds =>
    if id = 0 then none else some (requestCapture id frames drawIds s)
  | .endFrame e =>
    let s := onEndFrame e s
    some { s with frameEnds := s.frameEnds + 1, seen := s.seen ++ (getLastCapture s).toList }

def captures : System State Action where
  init s := s = initial
  step := step

end DolphinXR.AgentCapture
