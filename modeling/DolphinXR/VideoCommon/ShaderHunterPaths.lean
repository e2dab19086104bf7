import DolphinXR.VideoCommon.ShaderHunter
import Mathlib.Data.List.Induction

/- Whether an override means the same in the sets of hashes as in the list that is scanned. What the
   tables decide is said of the list of overrides itself: a draw is skipped if an override applies
   to it that skips, and its handling is that of the first kind of set with one of the draw's
   hashes, or else of the first conditional override that applies. The sets, but for those of skips,
   are asked for all three hashes of the draw whatever the type of the override, and they have no
   place for some kinds of handling. -/
namespace DolphinXR.ShaderHunter

/-- The handling of the set that an unconditional override is put in. -/
def ShaderOverride.fastHandling {F : Type} (floats : Floats F) (ovr : ShaderOverride F) :
    Option HandlingType :=
  match ovr.handling with
  | .fullscreenMono => some .fullscreen
  | .unitsPerMeter => if floats.positive ovr.unitsPerMeter then some .unitsPerMeter else none
  | .skip | .flag | .screenPane => none
  | handling => some handling

/-- The set for a kind of handling. -/
def Tables.hashesOf {F : Type} (t : Tables F) : HandlingType → List Hash
  | .screen => t.screenHashes
  | .fullscreen => t.fullscreenHashes
  | .headLocked => t.headlockedHashes
  | .unitsPerMeter => t.unitsPerMeterOverrides
  | .passthrough => t.passthroughOpacities
  | .cameraAnchor => t.cameraAnchors
  | .controllerAnchor => t.controllerAnchors
  | .skip | .flag | .fullscreenMono | .screenPane => []

def fastOrder : List HandlingType :=
  [.screen, .fullscreen, .headLocked, .unitsPerMeter, .passthrough, .cameraAnchor,
    .controllerAnchor]

/-- What the decisions rest on besides the list: which names are suppressed, and the game. -/
structure Setting (F : Type) where
  floats : Floats F
  suppressed : String → Bool
  gameId : String

section Decisions
variable {F : Type} (s : Setting F) (draw : Draw F)

namespace ShaderOverride

def isLive (ovr : ShaderOverride F) : Bool :=
  s.gameId != "" && ovr.enabled && !s.suppressed ovr.name

def hashMatches (ovr : ShaderOverride F) : Bool :=
  (draw.current ovr.type).any fun x => x.1 == ovr.hash

def isTouched (ovr : ShaderOverride F) : Bool := draw.anyHashIn [ovr.hash]

def applies (ovr : ShaderOverride F) : Bool := draw.matchesConditional s.floats ovr.conditional

def skips (ovr : ShaderOverride F) : Bool :=
  ovr.isLive s && decide (ovr.handling = .skip) && ovr.applies s draw

def isFast (handling : HandlingType) (ovr : ShaderOverride F) : Bool :=
  ovr.isLive s && !ovr.isConditional s.floats && ovr.fastHandling s.floats == some handling &&
    ovr.isTouched draw

def scanned (ovr : ShaderOverride F) : Option HandlingType :=
  if ovr.isLive s && ovr.isConditional s.floats && decide (ovr.handling ≠ .flag) &&
    (decide (ovr.handling ≠ .skip) && ovr.applies s draw) then some ovr.handling else none

variable {s draw}

theorem isConditionalHashMatch_eq {ovr : ShaderOverride F} (h : ovr.hashFamilyMatch = false) :
    draw.isConditionalHashMatch ovr.conditional = ovr.hashMatches draw := by
  unfold Draw.isConditionalHashMatch hashMatches
  rw [show ovr.conditional.type = ovr.type from rfl]
  cases draw.current ovr.type with
  | none => rfl
  | some x => simp [conditional, h]

theorem applies_of_unconditional {ovr : ShaderOverride F}
    (h : ovr.isConditional s.floats = false) : ovr.applies s draw = ovr.hashMatches draw := by
  unfold isConditional at h
  simp only [Bool.or_eq_false_iff, bne_eq_false_iff_eq, Bool.not_eq_eq_eq_not, Bool.not_false] at h
  obtain ⟨⟨⟨⟨hflag, htextures⟩, hfamily⟩, hmin⟩, hmax⟩ := h
  unfold applies Draw.matchesConditional
  rw [isConditionalHashMatch_eq hfamily]
  simp [Draw.isConditionFlagMatch, Draw.doesTextureFilterPass, Draw.passesDepthConstraints,
    conditional, hflag, htextures, hmin, hmax]

theorem isTouched_of_hashMatches {ovr : ShaderOverride F} (h : ovr.hashMatches draw = true) :
    ovr.isTouched draw = true := by
  unfold hashMatches Draw.current at h
  unfold isTouched Draw.anyHashIn
  cases htype : ovr.type with
  | pixel => simp_all
  | vertex => simp_all
  | geometry => simp_all
  | count => simp_all

theorem not_applies {ovr : ShaderOverride F} (hfamily : ovr.hashFamilyMatch = false)
    (h : ovr.hashMatches draw = false) : ovr.applies s draw = false := by
  unfold applies Draw.matchesConditional
  rw [isConditionalHashMatch_eq hfamily, h]
  rfl

theorem fastHandling_mem {floats : Floats F} {ovr : ShaderOverride F} {handling : HandlingType}
    (h : ovr.fastHandling floats = some handling) : handling ∈ fastOrder := by
  unfold fastHandling at h
  cases hovr : ovr.handling with
  | unitsPerMeter =>
    rw [hovr] at h
    cases hpos : floats.positive ovr.unitsPerMeter with
    | true => simp_all [fastOrder]
    | false => simp_all
  | _ => simp_all [fastOrder]

end ShaderOverride

variable {s draw}

/-! ### What is in the tables -/

theorem anyHashIn_cons (hash : Hash) (hashes : List Hash) :
    draw.anyHashIn (hash :: hashes) = (draw.anyHashIn [hash] || draw.anyHashIn hashes) := by
  simp only [Draw.anyHashIn, List.contains_cons, List.contains_nil, Bool.or_false]
  generalize (draw.vsHash == hash) = a
  generalize (draw.psHash == hash) = b
  generalize (draw.gsHash == hash) = c
  cases a <;> cases b <;> cases c <;> simp

theorem hashesOf_insertUnconditional (ovr : ShaderOverride F) (t : Tables F)
    (handling : HandlingType) :
    draw.anyHashIn ((insertUnconditional s.floats ovr t).hashesOf handling) =
      ((ovr.fastHandling s.floats == some handling && ovr.isTouched draw) ||
        draw.anyHashIn (t.hashesOf handling)) := by
  unfold insertUnconditional ShaderOverride.fastHandling ShaderOverride.isTouched
  cases ovr.handling with
  | skip =>
    cases ovr.type with
    | _ => cases handling with
      | _ => rfl
  | unitsPerMeter =>
    cases s.floats.positive ovr.unitsPerMeter with
    | false => rfl
    | true => cases handling with
      | unitsPerMeter => exact anyHashIn_cons ..
      | _ => rfl
  | screen => cases handling with
    | screen => exact anyHashIn_cons ..
    | _ => rfl
  | fullscreen => cases handling with
    | fullscreen => exact anyHashIn_cons ..
    | _ => rfl
  | fullscreenMono => cases handling with
    | fullscreen => exact anyHashIn_cons ..
    | _ => rfl
  | headLocked => cases handling with
    | headLocked => exact anyHashIn_cons ..
    | _ => rfl
  | passthrough => cases handling with
    | passthrough => exact anyHashIn_cons ..
    | _ => rfl
  | cameraAnchor => cases handling with
    | cameraAnchor => exact anyHashIn_cons ..
    | _ => rfl
  | controllerAnchor => cases handling with
    | controllerAnchor => exact anyHashIn_cons ..
    | _ => rfl
  | flag => rfl
  | screenPane => rfl

def inSkipSets (draw : Draw F) (t : Tables F) : Bool :=
  t.overridePsHashes.contains draw.psHash || t.overrideVsHashes.contains draw.vsHash ||
    t.overrideGsHashes.contains draw.gsHash

theorem inSkipSets_insertUnconditional (ovr : ShaderOverride F) (t : Tables F) :
    inSkipSets draw (insertUnconditional s.floats ovr t) =
      (decide (ovr.handling = .skip) && ovr.hashMatches draw || inSkipSets draw t) := by
  unfold insertUnconditional
  cases ovr.handling with
  | skip =>
    unfold ShaderOverride.hashMatches
    cases ovr.type with
    | count => rfl
    | pixel =>
      simp only [inSkipSets, List.contains_cons, Draw.current, Option.any_some, Bool.or_assoc]
      rfl
    | vertex =>
      simp only [inSkipSets, List.contains_cons, Draw.current, Option.any_some]
      simp [Bool.or_assoc, Bool.or_left_comm]
    | geometry =>
      simp only [inSkipSets, List.contains_cons, Draw.current, Option.any_some]
      simp [Bool.or_assoc, Bool.or_left_comm]
  | unitsPerMeter => cases s.floats.positive ovr.unitsPerMeter <;> rfl
  | _ => rfl

theorem insertUnconditional_lists (ovr : ShaderOverride F) (t : Tables F) :
    (insertUnconditional s.floats ovr t).overrides = t.overrides ∧
      (insertUnconditional s.floats ovr t).conditionalOverrides = t.conditionalOverrides := by
  unfold insertUnconditional
  cases ovr.handling with
  | skip => cases ovr.type <;> exact ⟨rfl, rfl⟩
  | unitsPerMeter => cases s.floats.positive ovr.unitsPerMeter <;> exact ⟨rfl, rfl⟩
  | _ => exact ⟨rfl, rfl⟩

/-- A set of skips or a conditional override skips the draw. -/
def isSkipped (floats : Floats F) (draw : Draw F) (t : Tables F) : Bool :=
  inSkipSets draw t ||
    t.conditionalOverrides.any fun cond =>
      decide (cond.handling = .skip) && draw.matchesConditional floats cond

/-- The handling of the first conditional override that applies. -/
def scanIn (floats : Floats F) (draw : Draw F) (t : Tables F) : Option HandlingType :=
  (t.conditionalOverrides.find? fun cond =>
    decide (cond.handling ≠ .skip) && draw.matchesConditional floats cond).map
      ConditionalOverride.handling

structure Adds (s : Setting F) (draw : Draw F) (t t' : Tables F) (ovr : ShaderOverride F) :
    Prop where
  kept : t'.overrides = t.overrides ++ [ovr].filter (ShaderOverride.isLive s)
  hashesOf : ∀ handling, draw.anyHashIn (t'.hashesOf handling) =
    (draw.anyHashIn (t.hashesOf handling) || ovr.isFast s draw handling)
  isSkipped : isSkipped s.floats draw t' = (isSkipped s.floats draw t || ovr.skips s draw)
  scanIn : scanIn s.floats draw t' = (scanIn s.floats draw t).or (ovr.scanned s draw)

theorem adds_live {ovr : ShaderOverride F} (hlive : ovr.isLive s = true) (t : Tables F) :
    Adds s draw t (addOverride s.floats s.suppressed t ovr) ovr := by
  have hkept : [ovr] = [ovr].filter (ShaderOverride.isLive s) := by simp [hlive]
  have hactive : (s.gameId ≠ "" ∧ ovr.enabled = true) ∧ s.suppressed ovr.name = false := by
    simpa [ShaderOverride.isLive] using hlive
  have hadd : addOverride s.floats s.suppressed t ovr =
      if ovr.handling = .flag then { t with overrides := t.overrides ++ [ovr] }
      else if ovr.isConditional s.floats then
        { t with
          conditionalOverrides := t.conditionalOverrides ++ [ovr.conditional]
          overrides := t.overrides ++ [ovr] }
      else
        let t := insertUnconditional s.floats ovr t
        { t with overrides := t.overrides ++ [ovr] } := by
    rw [addOverride, if_neg (by simp [hactive.1.2, hactive.2])]
  rw [hadd]
  split
  case isTrue hflag =>
    have hfast : ovr.fastHandling s.floats = none := by simp [ShaderOverride.fastHandling, hflag]
    refine ⟨congrArg _ hkept, fun handling => ?_, ?_, ?_⟩
    · simp only [ShaderOverride.isFast, hfast]
      simp
      rfl
    · simp [hflag, isSkipped, inSkipSets, ShaderOverride.skips]
    · simp [hflag, scanIn, ShaderOverride.scanned]
  case isFalse hflag =>
    split
    case isTrue hcond =>
      refine ⟨congrArg _ hkept, fun handling => ?_, ?_, ?_⟩
      · simp only [ShaderOverride.isFast, hcond]
        simp
        rfl
      · simp only [isSkipped, List.any_append, List.any_cons, List.any_nil, Bool.or_false]
        rw [← Bool.or_assoc, ShaderOverride.skips, hlive, Bool.true_and]
        rfl
      · simp only [scanIn, List.find?_append, Option.map_or]
        refine congrArg _ ?_
        simp only [ShaderOverride.scanned, hcond, hlive, List.find?_singleton]
        have hne : decide (ovr.handling ≠ .flag) = true := decide_eq_true hflag
        simp only [hne, Bool.true_and]
        change Option.map _ (if (decide (ovr.handling ≠ .skip) && ovr.applies s draw) = true then
          some ovr.conditional else none) = _
        rw [apply_ite (Option.map ConditionalOverride.handling)]
        rfl
    case isFalse hcond =>
      obtain ⟨hoverrides, hlist⟩ := insertUnconditional_lists (s := s) ovr t
      have hfalse : ovr.isConditional s.floats = false := Bool.eq_false_iff.2 hcond
      refine ⟨(congrArg (· ++ [ovr]) hoverrides).trans (congrArg _ hkept), fun handling => ?_,
        ?_, ?_⟩
      · refine (hashesOf_insertUnconditional (s := s) ovr t handling).trans ?_
        rw [ShaderOverride.isFast, hfalse, hlive, Bool.or_comm]
        rfl
      · have hskip : inSkipSets draw _ = _ := inSkipSets_insertUnconditional (s := s) ovr t
        rw [ShaderOverride.skips, ShaderOverride.applies_of_unconditional hfalse, hlive]
        change (inSkipSets draw (insertUnconditional s.floats ovr t) ||
          (insertUnconditional s.floats ovr t).conditionalOverrides.any _) = _
        rw [hskip, hlist, isSkipped, Bool.or_assoc, Bool.or_comm]
        rfl
      · change (((insertUnconditional s.floats ovr t).conditionalOverrides.find? _).map _) = _
        rw [hlist, ShaderOverride.scanned, hfalse, hlive]
        exact (Option.or_none).symm

theorem adds_addOverride (hgame : s.gameId ≠ "") (t : Tables F) (ovr : ShaderOverride F) :
    Adds s draw t (addOverride s.floats s.suppressed t ovr) ovr := by
  cases hlive : ovr.isLive s with
  | true => exact adds_live hlive t
  | false =>
    have hinactive : (!ovr.enabled || s.suppressed ovr.name) = true := by
      unfold ShaderOverride.isLive at hlive
      rw [bne_iff_ne.2 hgame] at hlive
      cases henabled : ovr.enabled <;> simp_all
    rw [addOverride, if_pos hinactive]
    exact ⟨by simp [hlive], fun handling => by simp [ShaderOverride.isFast, hlive],
      by simp [ShaderOverride.skips, hlive], by simp [ShaderOverride.scanned, hlive]⟩

/-! ### The decisions on a list -/

structure Lists (s : Setting F) (draw : Draw F) (t : Tables F) (all : List (ShaderOverride F)) :
    Prop where
  kept : t.overrides = all.filter (ShaderOverride.isLive s)
  hashesOf : ∀ handling, draw.anyHashIn (t.hashesOf handling) =
    all.any (ShaderOverride.isFast s draw handling)
  isSkipped : isSkipped s.floats draw t = all.any (ShaderOverride.skips s draw)
  scanIn : scanIn s.floats draw t = all.findSome? (ShaderOverride.scanned s draw)

theorem lists_nil : Lists s draw {} [] :=
  ⟨rfl, fun handling => by cases handling <;> rfl, rfl, rfl⟩

theorem lists_foldl (hgame : s.gameId ≠ "") (all : List (ShaderOverride F)) :
    Lists s draw (all.foldl (addOverride s.floats s.suppressed) {}) all := by
  induction all using List.reverseRecOn with
  | nil => exact lists_nil
  | append_singleton all ovr ih =>
    have hadds : Adds s draw _ _ ovr := adds_addOverride hgame
      (all.foldl (addOverride s.floats s.suppressed) {}) ovr
    rw [List.foldl_append, List.foldl_cons, List.foldl_nil]
    refine ⟨?_, fun handling => ?_, ?_, ?_⟩
    · rw [hadds.kept, ih.kept, List.filter_append]
    · rw [hadds.hashesOf, ih.hashesOf, List.any_append]
      simp
    · rw [hadds.isSkipped, ih.isSkipped, List.any_append]
      simp
    · rw [hadds.scanIn, ih.scanIn, List.findSome?_append]
      simp

def Setting.tables (s : Setting F) (all : List (ShaderOverride F)) : Tables F :=
  applyOverrideList s.floats s.suppressed s.gameId all

theorem lists_tables (all : List (ShaderOverride F)) : Lists s draw (s.tables all) all := by
  unfold Setting.tables applyOverrideList
  split
  case isFalse hgame => exact lists_foldl hgame all
  case isTrue hgame =>
    have hlive (ovr : ShaderOverride F) : ovr.isLive s = false := by
      simp [ShaderOverride.isLive, hgame]
    refine ⟨?_, fun handling => ?_, ?_, ?_⟩
    · simp [hlive]
    · rw [lists_nil.hashesOf (s := s) handling]
      simp [ShaderOverride.isFast, hlive]
    · rw [lists_nil.isSkipped]
      simp [ShaderOverride.skips, hlive]
    · rw [lists_nil.scanIn]
      refine (List.findSome?_eq_none_iff.2 fun ovr _ => ?_).symm
      simp [ShaderOverride.scanned, hlive]

theorem no_bypass (htool : draw.hunting.textureToolActive = false) :
    draw.shouldBypassSelectedOverrideForTextureTool = false := by
  unfold Draw.shouldBypassSelectedOverrideForTextureTool
  dsimp only
  rw [htool, Bool.not_false, Bool.or_true, if_pos rfl]

theorem shouldSkip_eq (htool : draw.hunting.textureToolActive = false)
    (all : List (ShaderOverride F)) :
    draw.shouldSkipByOverride s.floats (s.tables all) = all.any (ShaderOverride.skips s draw) := by
  have hlists : Lists s draw _ all := lists_tables all
  unfold Draw.shouldSkipByOverride
  rw [← hlists.isSkipped, no_bypass htool]
  split
  case isTrue hempty =>
    rw [hlists.kept, List.isEmpty_iff, List.filter_eq_nil_iff] at hempty
    rw [hlists.isSkipped]
    refine (List.any_eq_false.2 fun ovr hmem => ?_).symm
    simp [ShaderOverride.skips, hempty ovr hmem]
  case isFalse =>
    rw [if_neg (by decide), isSkipped, inSkipSets]
    split
    case isTrue h => rw [h, Bool.true_or]
    case isFalse h => rw [Bool.eq_false_iff.2 h, Bool.false_or]

theorem getOverrideHandling_eq (htool : draw.hunting.textureToolActive = false) (t : Tables F) :
    draw.getOverrideHandling s.floats t =
      ((fastOrder.find? fun handling => draw.anyHashIn (t.hashesOf handling)).or
        (scanIn s.floats draw t)).getD .skip := by
  unfold Draw.getOverrideHandling scanIn
  rw [no_bypass htool, if_neg (by decide)]
  simp only [fastOrder, List.find?_cons, List.find?_nil, Tables.hashesOf]
  cases draw.anyHashIn t.screenHashes with
  | true => rfl
  | false => cases draw.anyHashIn t.fullscreenHashes with
    | true => rfl
    | false => cases draw.anyHashIn t.headlockedHashes with
      | true => rfl
      | false => cases draw.anyHashIn t.unitsPerMeterOverrides with
        | true => rfl
        | false => cases draw.anyHashIn t.passthroughOpacities with
          | true => rfl
          | false => cases draw.anyHashIn t.cameraAnchors with
            | true => rfl
            | false => cases draw.anyHashIn t.controllerAnchors with
              | true => rfl
              | false => cases t.conditionalOverrides.find? _ <;> rfl

theorem handling_eq (htool : draw.hunting.textureToolActive = false)
    (all : List (ShaderOverride F)) :
    draw.getOverrideHandling s.floats (s.tables all) =
      ((fastOrder.find? fun handling => all.any (ShaderOverride.isFast s draw handling)).or
        (all.findSome? (ShaderOverride.scanned s draw))).getD .skip := by
  have hlists : Lists s draw _ all := lists_tables all
  rw [getOverrideHandling_eq htool, hlists.scanIn]
  simp only [hlists.hashesOf]

end Decisions

end DolphinXR.ShaderHunter
