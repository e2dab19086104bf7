import Mathlib.Data.Bool.Basic

/- How shader overrides decide what becomes of a draw (VideoCommon/ShaderHunter.cpp). A list of
   overrides is put into tables: an override with a condition (a flag, textures, a shader family,
   depth limits) goes to a list that is scanned in order, one without a condition to a set of hashes
   for its handling.

   Numbers are a parameter, and a draw comes with all that is known of it: its hashes and families,
   its textures, its depth, and the flags that are active. Of the tables that map hashes to values
   the keys are kept, as the decisions ask for no more. Left out: the entries' other values, the
   flags that draws raise, messages and what is logged. -/
namespace DolphinXR.ShaderHunter

abbrev Hash := UInt64

inductive ShaderType where
  | pixel | vertex | geometry | count
  deriving DecidableEq

inductive HandlingType where
  | skip | screen | fullscreen | fullscreenMono | headLocked | flag | unitsPerMeter | passthrough
  | cameraAnchor | controllerAnchor | screenPane
  deriving DecidableEq

inductive MatchMode where
  | exactHash | shaderFamily | runtimeElement
  deriving DecidableEq

def familySchemeVersion : Nat := 2

structure Floats (F : Type) where
  /-- `> 0.0f`. -/
  positive : F → Bool
  le : F → F → Bool

structure ShaderOverride (F : Type) where
  name : String
  hash : Hash
  type : ShaderType
  handling : HandlingType
  unitsPerMeter : F
  minDepth : F
  maxDepth : F
  textureHashes : List Hash := []
  textureHashesExcluded : Bool := false
  hashFamilyMatch : Bool := false
  familySignature : Hash := 0
  familyVersion : Nat := familySchemeVersion
  enabled : Bool := true
  conditionFlag : String := ""
  conditionInverted : Bool := false

structure ConditionalOverride (F : Type) where
  hash : Hash
  handling : HandlingType
  type : ShaderType
  textureHashes : List Hash
  textureHashesExcluded : Bool
  hashFamilyMatch : Bool
  familySignature : Hash
  familyVersion : Nat
  conditionFlag : String
  conditionInverted : Bool
  minDepth : F
  maxDepth : F

structure Tables (F : Type) where
  overrides : List (ShaderOverride F) := []
  overridePsHashes : List Hash := []
  overrideVsHashes : List Hash := []
  overrideGsHashes : List Hash := []
  screenHashes : List Hash := []
  fullscreenHashes : List Hash := []
  headlockedHashes : List Hash := []
  unitsPerMeterOverrides : List Hash := []
  passthroughOpacities : List Hash := []
  cameraAnchors : List Hash := []
  controllerAnchors : List Hash := []
  conditionalOverrides : List (ConditionalOverride F) := []

structure DrawDepthRange (F : Type) where
  valid : Bool
  min : F
  max : F

/-- The shader that is hunted, and whether its textures are looked at. -/
structure Hunting where
  enabled : Bool
  textureToolActive : Bool
  activeType : ShaderType
  selectedPos : ShaderType → Int
  selectedHash : ShaderType → Hash
  matchMode : MatchMode

structure Draw (F : Type) where
  vsHash : Hash
  psHash : Hash
  gsHash : Hash
  vsFamily : Hash
  psFamily : Hash
  gsFamily : Hash
  textures : List Hash
  /-- `none` where the depth cannot be asked for. -/
  depth : Option (DrawDepthRange F)
  flagAge : List String
  patchFlags : List String
  shaderFamilySignatures : ShaderType → Hash → Option Hash
  hunting : Hunting

variable {F : Type} (floats : Floats F)

/-! ### The tables -/

def ShaderOverride.isConditional (ovr : ShaderOverride F) : Bool :=
  ovr.conditionFlag != "" || !ovr.textureHashes.isEmpty || ovr.hashFamilyMatch ||
    floats.positive ovr.minDepth || floats.positive ovr.maxDepth

def ShaderOverride.conditional (ovr : ShaderOverride F) : ConditionalOverride F where
  hash := ovr.hash
  handling := ovr.handling
  type := ovr.type
  textureHashes := ovr.textureHashes
  textureHashesExcluded := ovr.textureHashesExcluded
  hashFamilyMatch := ovr.hashFamilyMatch
  familySignature := ovr.familySignature
  familyVersion := ovr.familyVersion
  conditionFlag := ovr.conditionFlag
  conditionInverted := ovr.conditionInverted
  minDepth := ovr.minDepth
  maxDepth := ovr.maxDepth

/-- The fast sets of hashes. -/
def insertUnconditional (ovr : ShaderOverride F) (t : Tables F) : Tables F :=
  match ovr.handling with
  | .skip =>
    match ovr.type with
    | .pixel => { t with overridePsHashes := ovr.hash :: t.overridePsHashes }
    | .vertex => { t with overrideVsHashes := ovr.hash :: t.overrideVsHashes }
    | .geometry => { t with overrideGsHashes := ovr.hash :: t.overrideGsHashes }
    | .count => t
  | .screen => { t with screenHashes := ovr.hash :: t.screenHashes }
  | .fullscreen => { t with fullscreenHashes := ovr.hash :: t.fullscreenHashes }
  | .fullscreenMono => { t with fullscreenHashes := ovr.hash :: t.fullscreenHashes }
  | .headLocked => { t with headlockedHashes := ovr.hash :: t.headlockedHashes }
  | .unitsPerMeter =>
    if floats.positive ovr.unitsPerMeter then
      { t with unitsPerMeterOverrides := ovr.hash :: t.unitsPerMeterOverrides }
    else t
  | .passthrough => { t with passthroughOpacities := ovr.hash :: t.passthroughOpacities }
  | .cameraAnchor => { t with cameraAnchors := ovr.hash :: t.cameraAnchors }
  | .controllerAnchor => { t with controllerAnchors := ovr.hash :: t.controllerAnchors }
  | .flag | .screenPane => t

/-- One override of the list; `suppressed` says of which names a VR patch suppresses the
    overrides. -/
def addOverride (suppressed : String → Bool) (t : Tables F) (ovr : ShaderOverride F) : Tables F :=
  if !ovr.enabled || suppressed ovr.name then t
  else if ovr.handling = .flag then { t with overrides := t.overrides ++ [ovr] }
  else if ovr.isConditional floats then
    { t with
      conditionalOverrides := t.conditionalOverrides ++ [ovr.conditional]
      overrides := t.overrides ++ [ovr] }
  else
    let t := insertUnconditional floats ovr t
    { t with overrides := t.overrides ++ [ovr] }

def applyOverrideList (suppressed : String → Bool) (gameId : String)
    (all : List (ShaderOverride F)) : Tables F :=
  if gameId = "" then {} else all.foldl (addOverride floats suppressed) {}

/-! ### Conditions -/

namespace Draw
variable (draw : Draw F)

/-- The draw's hash and family for a type of shader. -/
def current : ShaderType → Option (Hash × Hash)
  | .vertex => some (draw.vsHash, draw.vsFamily)
  | .pixel => some (draw.psHash, draw.psFamily)
  | .geometry => some (draw.gsHash, draw.gsFamily)
  | .count => none

def isFlagActiveLocked (flagName : String) : Bool :=
  draw.flagAge.contains flagName || draw.patchFlags.contains flagName

def isConditionFlagMatch (cond : ConditionalOverride F) : Bool :=
  if cond.conditionFlag = "" then true
  else
    let isActive := draw.isFlagActiveLocked cond.conditionFlag
    if cond.conditionInverted then !isActive else isActive

/-- The signature, and whether it is of the legacy scheme. -/
def resolveConditionalFamilySignature (cond : ConditionalOverride F) : Hash × Bool :=
  if !cond.hashFamilyMatch then (0, false)
  else if cond.familySignature ≠ 0 then
    (cond.familySignature,
      decide (cond.familyVersion < familySchemeVersion) && decide (cond.type ≠ .pixel))
  else ((draw.shaderFamilySignatures cond.type cond.hash).getD 0, false)

def isConditionalHashMatch (cond : ConditionalOverride F) : Bool :=
  match draw.current cond.type with
  | none => false
  | some (currentHash, currentFamily) =>
    let family := draw.resolveConditionalFamilySignature cond
    let comparand := if family.2 then currentHash else currentFamily
    if cond.hashFamilyMatch && family.1 ≠ 0 && comparand ≠ 0 then family.1 == comparand
    else currentHash == cond.hash

def doesTextureFilterPass (filterHashes : List Hash) (excludeMode : Bool) : Bool :=
  if filterHashes.isEmpty then true
  else
    let anyMatch := draw.textures.any fun hash => hash != 0 && filterHashes.contains hash
    if excludeMode then !anyMatch else anyMatch

def passesDepthConstraints (minDepth maxDepth : F) : Bool :=
  let hasMin := floats.positive minDepth
  let hasMax := floats.positive maxDepth
  if !hasMin && !hasMax then true
  else
    match draw.depth with
    | none => false
    | some range =>
      if !range.valid then false
      else if hasMax && !floats.le range.max maxDepth then false
      else if hasMin && !floats.le minDepth range.min then false
      else true

/-- All conditions of an override that is scanned for. -/
def matchesConditional (cond : ConditionalOverride F) : Bool :=
  draw.isConditionalHashMatch cond && draw.isConditionFlagMatch cond &&
    draw.doesTextureFilterPass cond.textureHashes cond.textureHashesExcluded &&
    draw.passesDepthConstraints floats cond.minDepth cond.maxDepth

def shouldBypassSelectedOverrideForTextureTool : Bool :=
  let hunting := draw.hunting
  if !hunting.enabled || !hunting.textureToolActive then false
  else
    match draw.current hunting.activeType with
    | none => false
    | some (currentHash, currentFamily) =>
      if hunting.selectedPos hunting.activeType < 0 then false
      else
        let selectedHash := hunting.selectedHash hunting.activeType
        match draw.shaderFamilySignatures hunting.activeType selectedHash with
        | some family =>
          if hunting.matchMode = .shaderFamily ∧ family ≠ 0 ∧ currentFamily ≠ 0 then
            family == currentFamily
          else currentHash == selectedHash
        | none => currentHash == selectedHash

def anyHashIn (hashes : List Hash) : Bool :=
  hashes.contains draw.vsHash || hashes.contains draw.psHash || hashes.contains draw.gsHash

def shouldSkipByOverride (t : Tables F) : Bool :=
  if t.overrides.isEmpty then false
  else if draw.shouldBypassSelectedOverrideForTextureTool then false
  else if t.overridePsHashes.contains draw.psHash || t.overrideVsHashes.contains draw.vsHash ||
      t.overrideGsHashes.contains draw.gsHash then true
  else
    t.conditionalOverrides.any fun cond =>
      decide (cond.handling = .skip) && draw.matchesConditional floats cond

def getOverrideHandling (t : Tables F) : HandlingType :=
  if draw.shouldBypassSelectedOverrideForTextureTool then .skip
  else if draw.anyHashIn t.screenHashes then .screen
  else if draw.anyHashIn t.fullscreenHashes then .fullscreen
  else if draw.anyHashIn t.headlockedHashes then .headLocked
  else if draw.anyHashIn t.unitsPerMeterOverrides then .unitsPerMeter
  else if draw.anyHashIn t.passthroughOpacities then .passthrough
  else if draw.anyHashIn t.cameraAnchors then .cameraAnchor
  else if draw.anyHashIn t.controllerAnchors then .controllerAnchor
  else
    match t.conditionalOverrides.find? fun cond =>
      decide (cond.handling ≠ .skip) && draw.matchesConditional floats cond with
    | some cond => cond.handling
    | none => .skip

end Draw

end DolphinXR.ShaderHunter
