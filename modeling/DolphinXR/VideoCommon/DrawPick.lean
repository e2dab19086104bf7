import DolphinXR.Lib.Transition

/- Picking a draw for the hunters (VideoCommon/VR/DrawPick.cpp): a pick captures the frame and
   selects the draw in the hunter; while a pick is armed in the headset, resting the laser on
   an element previews it, for which the hunter's option is changed to pink. What is changed
   for previews is kept in one record, what a capture needs in the pending pick.

   Points of the image and their distances are parameters, as is what a capture shows at a
   point. The messages of the results are left out. -/
namespace DolphinXR.DrawPick
open Lib

inductive Target where
  | auto
  | shader
  | elements
  | texture
  | hideCode
  deriving DecidableEq

inductive HuntingOption where
  | skip
  | pink
  deriving DecidableEq

structure Options (E : Type) where
  shaderOption : HuntingOption
  elementsOption : HuntingOption
  texturePink : Bool
  /-- Of the hide code engine: whether vertex data is captured, and what is painted pink. -/
  captureEnabled : Bool
  pinkPreview : List E
  /-- How often the Elements popup is open. -/
  popupOpenCount : Nat
  deriving DecidableEq

namespace Options
variable {E : Type}

def isPopupOpen (o : Options E) : Bool := decide (0 < o.popupOpenCount)

/-- `SetPopupOpen`, without the hunt that ends when the last popup is closed. -/
def setPopupOpen (o : Options E) (opened : Bool) : Options E :=
  { o with popupOpenCount := if opened then o.popupOpenCount + 1 else o.popupOpenCount - 1 }

end Options

def pickCaptureIdBase : Nat := 0x7069636B00000000

def pickTimeoutFrames : Nat := 120

def hoverDwellUs : Nat := 250000

structure Pending (P : Type) where
  captureId : Nat
  target : Target
  layer : Nat
  point : P
  frames : Nat
  /-- A hover preview. -/
  preview : Bool
  closeElementsPopup : Bool
  stopHideCapture : Bool

/-- What the previews of an armed pick have changed, and where the laser rests. -/
structure Hover (P : Type) where
  forced : Option Target
  shaderOption : HuntingOption
  texturePink : Bool
  elementsOption : HuntingOption
  resting : P
  restingSinceUs : Nat
  previewed : Option P

/-- Points of the image: where no laser rests, and whether two points are more, or no more, than
    `HOVER_STILL` apart. -/
structure Laser (P : Type) where
  away : P
  moved : P → P → Bool
  still : P → P → Bool

structure Result (E : Type) where
  serial : Nat
  target : Target
  ok : Bool
  hideEntries : List E
  preview : Bool

structure State (P E : Type) where
  pending : Option (Pending P)
  nextCapture : Nat
  armedVRPick : Option Target
  hover : Hover P
  result : Result E
  options : Options E
  /-- Which hunters run. -/
  shaderEnabled : Bool
  huntEnabled : Bool
  textureActive : Bool

structure Captured (E : Type) where
  id : Nat
  hasMap : Bool
  /-- Whether something is drawn there. -/
  drawn : Bool
  /-- Whether the shader is in the Shader Hunter's list, the draw has a seed, and a texture. -/
  shaderListed : Bool
  seedFound : Bool
  textured : Bool
  /-- The vertex data that has been captured. -/
  entries : List E

section
variable {P E : Type} (l : Laser P)

def noHover : Hover P := ⟨none, .skip, false, .skip, l.away, 0, none⟩

def finish (result : Result E) (s : State P E) : State P E :=
  { s with result := { result with serial := s.result.serial + 1 } }

def fail (target : Target) (s : State P E) : State P E := finish ⟨0, target, false, [], false⟩ s

/-- Before the first preview of a pick, the hunter's option is kept and pink is chosen. -/
def forcePinkPreview (target : Target) (s : State P E) : State P E :=
  match s.hover.forced with
  | some _ => s
  | none =>
    let s := { s with hover := { s.hover with forced := some target } }
    match target with
    | .shader =>
      { s with
        hover := { s.hover with shaderOption := s.options.shaderOption }
        options := { s.options with shaderOption := .pink } }
    | .texture =>
      { s with
        hover := { s.hover with texturePink := s.options.texturePink }
        options := { s.options with texturePink := true } }
    | .elements =>
      { s with
        hover := { s.hover with elementsOption := s.options.elementsOption }
        options := { s.options with elementsOption := .pink } }
    | .hideCode => s
    | .auto => s

/-- The options that come back when the previews end. -/
def undoHover (h : Hover P) (o : Options E) : Options E :=
  match h.forced with
  | some .shader => { o with shaderOption := h.shaderOption }
  | some .texture => { o with texturePink := h.texturePink }
  | some .elements => { o with elementsOption := h.elementsOption }
  | some .hideCode => { o with pinkPreview := [] }
  | some .auto => o
  | none => o

def restoreHover (s : State P E) : State P E :=
  { s with hover := noHover l, options := undoHover s.hover s.options }

def undoPending (p : Pending P) (o : Options E) : Options E :=
  let o := if p.stopHideCapture then { o with captureEnabled := false } else o
  if p.closeElementsPopup then o.setPopupOpen false else o

def restore (p : Pending P) (s : State P E) : State P E :=
  let options := undoPending p s.options
  { s with
    options
    huntEnabled := s.huntEnabled && (!p.closeElementsPopup || options.isPopupOpen) }

def resolve (p : Pending P) (c : Captured E) (s : State P E) : Result E × State P E :=
  let result : Result E := ⟨0, p.target, false, [], p.preview⟩
  if !c.hasMap || !c.drawn then (result, s)
  else
    match p.target with
    | .shader => ({ result with ok := c.shaderListed }, s)
    | .elements => ({ result with ok := c.seedFound }, s)
    | .texture => ({ result with ok := c.textured }, s)
    | .hideCode =>
      let ok := !c.entries.isEmpty
      let result := { result with hideEntries := c.entries, ok }
      if p.preview && ok then
        (result, { s with options := { s.options with pinkPreview := c.entries } })
      else (result, s)
    | .auto => (result, s)

def resolveAutoTarget (shaderHunting elementsHunting textureHunting : Bool) : Target :=
  if shaderHunting then .shader
  else if elementsHunting then .elements
  else if textureHunting then .texture
  else .shader

/-- The target of a request. -/
def requestTarget (s : State P E) : Target → Target
  | .auto =>
    resolveAutoTarget s.shaderEnabled (s.options.isPopupOpen && s.huntEnabled) s.textureActive
  | target => target

/-- The pick that a request replaces is undone. -/
def dropPending (s : State P E) : State P E :=
  match s.pending with
  | none => s
  | some p => { restore p s with pending := none }

/-- A capture is requested for the pick. -/
def requestCapture (p : Pending P) (s : State P E) : State P E :=
  { s with
    nextCapture := s.nextCapture + 1
    pending := some { p with captureId := pickCaptureIdBase ||| (s.nextCapture + 1) } }

def requestNow (flatScreen : Bool) (target : Target) (layer : Nat) (point : P) (preview : Bool)
    (s : State P E) : State P E :=
  let s := dropPending s
  let target := requestTarget s target
  if flatScreen then fail target s
  else
    let p : Pending P := ⟨0, target, layer, point, 0, preview, false, false⟩
    let s := if preview then forcePinkPreview target s else s
    match target with
    | .shader => requestCapture p { s with shaderEnabled := true }
    | .texture => requestCapture p { s with textureActive := true }
    | .elements =>
      if s.options.isPopupOpen then requestCapture p { s with huntEnabled := true }
      else fail target s
    | .hideCode =>
      let close := !s.options.isPopupOpen
      let stop := !s.options.captureEnabled
      let options := if close then s.options.setPopupOpen true else s.options
      let options := { options with captureEnabled := true }
      requestCapture { p with closeElementsPopup := close, stopHideCapture := stop }
        { s with options }
    | .auto => requestCapture p s

def armVRPick (target : Target) (s : State P E) : State P E :=
  { restoreHover l s with armedVRPick := some target }

def disarmVRPick (s : State P E) : State P E := { restoreHover l s with armedVRPick := none }

/-- The time between two readings of the clock, which has 64 bits. -/
def elapsed (now since : Nat) : Nat := (now + 18446744073709551616 - since) % 18446744073709551616

def updateVRHover (flatScreen : Bool) (now : Nat) (point : P) (s : State P E) : State P E :=
  match s.armedVRPick with
  | none => s
  | some target =>
    if l.moved point s.hover.resting then
      { s with hover := { s.hover with resting := point, restingSinceUs := now } }
    else if elapsed now s.hover.restingSinceUs < hoverDwellUs ∨ s.pending.isSome then s
    else if s.hover.previewed.any (l.still point) then s
    else
      requestNow flatScreen target 0 point true
        { s with hover := { s.hover with previewed := some point } }

def confirmVRPick (flatScreen : Bool) (point : P) (s : State P E) : State P E :=
  match s.armedVRPick with
  | none => s
  | some target => requestNow flatScreen target 0 point false { s with armedVRPick := none }

/-- The end of a frame, with the last capture that has been published. -/
def onEndFrame (capture : Option (Captured E)) (s : State P E) : State P E :=
  match s.pending with
  | none => s
  | some p =>
    match capture.filter (·.id == p.captureId) with
    | none =>
      if pickTimeoutFrames < p.frames + 1 then
        fail p.target (restore p { s with pending := none })
      else { s with pending := some { p with frames := p.frames + 1 } }
    | some c =>
      let resolved := resolve p c { s with pending := none }
      let s := restore p resolved.2
      finish resolved.1 (if p.preview then s else restoreHover l s)

inductive Action (P E : Type) where
  | armVRPick (target : Target)
  | disarmVRPick
  | updateVRHover (flatScreen : Bool) (now : Nat) (point : P)
  | confirmVRPick (flatScreen : Bool) (point : P)
  | requestNow (flatScreen : Bool) (target : Target) (layer : Nat) (point : P) (preview : Bool)
  | onEndFrame (capture : Option (Captured E))

def step (s : State P E) : Action P E → State P E
  | .armVRPick target => armVRPick l target s
  | .disarmVRPick => disarmVRPick l s
  | .updateVRHover flatScreen now point => updateVRHover l flatScreen now point s
  | .confirmVRPick flatScreen point => confirmVRPick flatScreen point s
  | .requestNow flatScreen target layer point preview =>
    requestNow flatScreen target layer point preview s
  | .onEndFrame capture => onEndFrame l capture s

/-- Picks from the first one on. Nobody else paints pink what hide codes would hide. -/
def picks (before : Options E) : System (State P E) (Action P E) where
  init s := s.pending = none ∧ s.armedVRPick = none ∧ s.hover = noHover l ∧ s.options = before ∧
    before.pinkPreview = []
  step s a := some (step l s a)

end

end DolphinXR.DrawPick
