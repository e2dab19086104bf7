import DolphinXR.VideoCommon.DrawPick

/- What picks leave behind. Undoing what the previews and the pending pick have changed gives
   the options that were there before, in every run without a preview that paints a hide code
   pink when nothing is there to end it; and once no pick is armed or pending, there is nothing
   to undo, if no pick has failed that had previews. -/
namespace DolphinXR.DrawPick
open Lib
variable {P E : Type} {l : Laser P}

/-- The options after all that picks have changed is undone. -/
def undone (s : State P E) : Options E :=
  match s.pending with
  | some p => undoPending p (undoHover s.hover s.options)
  | none => undoHover s.hover s.options

def HoverIdle (s : State P E) : Prop := undoHover s.hover s.options = s.options

/-- A request that is refused: the game is shown flat, or Elements hunting is not open. -/
def FailsAtOnce (flatScreen : Bool) (target : Target) (s : State P E) : Prop :=
  flatScreen = true ∨ (requestTarget (dropPending s) target = .elements ∧
    (dropPending s).options.isPopupOpen = false)

def PaintsPink (p : Pending P) (c : Captured E) : Prop :=
  p.preview = true ∧ p.target = .hideCode ∧ c.hasMap = true ∧ c.drawn = true ∧ c.entries ≠ []

/-- Previews are taken while a pick is armed, one of a hide code ends in the pick that has started it,
    and a pick that is not armed any more does not fail after previews. -/
def Undisturbed (s : State P E) : Action P E → Prop
  | .requestNow flatScreen target _ _ preview =>
    (preview = true → s.armedVRPick ≠ none) ∧
      (s.armedVRPick = none → FailsAtOnce flatScreen target s → HoverIdle s)
  | .confirmVRPick flatScreen _ => ∀ target, s.armedVRPick = some target →
    FailsAtOnce flatScreen target { s with armedVRPick := none } → HoverIdle s
  | .onEndFrame capture => ∀ p, s.pending = some p →
    (capture.filter (·.id == p.captureId) = none → pickTimeoutFrames < p.frames + 1 →
      p.preview = false → s.armedVRPick = none → HoverIdle s) ∧
    ∀ c, capture.filter (·.id == p.captureId) = some c → PaintsPink p c →
      s.armedVRPick ≠ none ∧ s.hover.forced = some .hideCode
  | _ => True

section
variable [DecidableEq E]

instance (s : State P E) : Decidable (HoverIdle s) := inferInstanceAs (Decidable (_ = _))

instance (flatScreen : Bool) (target : Target) (s : State P E) :
    Decidable (FailsAtOnce flatScreen target s) := inferInstanceAs (Decidable (_ ∨ _ ∧ _))

instance (p : Pending P) (c : Captured E) : Decidable (PaintsPink p c) :=
  inferInstanceAs (Decidable (_ ∧ _ ∧ _ ∧ _ ∧ _))

/-- As a test of one step. -/
def undisturbed (s : State P E) : Action P E → Bool
  | .requestNow flatScreen target _ _ preview =>
    s.armedVRPick.isSome || !preview && decide (FailsAtOnce flatScreen target s → HoverIdle s)
  | .confirmVRPick flatScreen _ => s.armedVRPick.all fun target =>
    decide (FailsAtOnce flatScreen target { s with armedVRPick := none } → HoverIdle s)
  | .onEndFrame capture => s.pending.all fun p =>
    match capture.filter (·.id == p.captureId) with
    | none => p.preview || s.armedVRPick.isSome ||
        decide (pickTimeoutFrames < p.frames + 1 → HoverIdle s)
    | some c => decide (PaintsPink p c →
        s.armedVRPick ≠ none ∧ s.hover.forced = some .hideCode)
  | _ => true

theorem undisturbed_of_check (s : State P E) (a : Action P E) (h : undisturbed s a = true) :
    Undisturbed s a := by
  cases a with
  | requestNow flatScreen target layer point preview =>
    rw [undisturbed, Bool.or_eq_true, Bool.and_eq_true, decide_eq_true_iff,
      Option.isSome_iff_ne_none] at h
    rcases h with harmed | ⟨hplain, hfails⟩
    · exact ⟨fun _ => harmed, fun hnone => absurd hnone harmed⟩
    · refine ⟨fun hpreview => ?_, fun _ => hfails⟩
      rw [hpreview] at hplain
      exact absurd hplain Bool.false_ne_true
  | confirmVRPick flatScreen point =>
    intro target harmed
    rw [undisturbed, harmed] at h
    exact of_decide_eq_true h
  | onEndFrame capture =>
    intro p hpending
    rw [undisturbed, hpending, Option.all_some] at h
    constructor
    · intro hlate htimeout hplain hnone
      rw [hlate] at h
      simp only [hplain, hnone, Option.isSome_none, Bool.or_self, Bool.false_or,
        decide_eq_true_iff] at h
      exact h htimeout
    · intro c hcapture
      rw [hcapture] at h
      exact of_decide_eq_true h
  | armVRPick target => trivial
  | disarmVRPick => trivial
  | updateVRHover flatScreen now point => trivial

end

theorem undoHover_undoPending (h : Hover P) (p : Pending P) (o : Options E) :
    undoHover h (undoPending p o) = undoPending p (undoHover h o) := by
  unfold undoHover undoPending Options.setPopupOpen
  rcases h.forced with _ | _ | _ | _ | _ | _
  all_goals
    cases p.stopHideCapture
    all_goals
      cases p.closeElementsPopup
      all_goals rfl

theorem undoHover_noHover (l : Laser P) (o : Options E) : undoHover (noHover l) o = o := rfl

theorem undone_of_none {s : State P E} (h : s.pending = none) :
    undone s = undoHover s.hover s.options := by
  unfold undone
  rw [h]

theorem undone_of_some {s : State P E} {p : Pending P} (h : s.pending = some p) :
    undone s = undoPending p (undoHover s.hover s.options) := by
  unfold undone
  rw [h]

theorem pinkPreview_undoPending (p : Pending P) (o : Options E) :
    (undoPending p o).pinkPreview = o.pinkPreview := by
  unfold undoPending Options.setPopupOpen
  cases p.stopHideCapture
  all_goals
    cases p.closeElementsPopup
    all_goals rfl

theorem pinkPreview_of_undone {s : State P E} (hpink : (undone s).pinkPreview = [])
    (hforced : s.hover.forced = none) : s.options.pinkPreview = [] := by
  have hidle : undoHover s.hover s.options = s.options := by
    unfold undoHover
    rw [hforced]
  cases hpending : s.pending with
  | none =>
    rw [undone_of_none hpending, hidle] at hpink
    exact hpink
  | some p =>
    rw [undone_of_some hpending, pinkPreview_undoPending, hidle] at hpink
    exact hpink

/-! ### Requests -/

theorem dropPending_spec (s : State P E) :
    (dropPending s).pending = none ∧ (dropPending s).armedVRPick = s.armedVRPick ∧
    (dropPending s).hover = s.hover ∧ undone (dropPending s) = undone s ∧
    (HoverIdle s → HoverIdle (dropPending s)) := by
  unfold dropPending
  cases hpending : s.pending with
  | none => exact ⟨hpending, rfl, rfl, rfl, id⟩
  | some p =>
    refine ⟨rfl, rfl, rfl, ?_, fun hidle => ?_⟩
    · rw [undone_of_some hpending]
      exact undoHover_undoPending s.hover p s.options
    · have hcommute := undoHover_undoPending s.hover p s.options
      rw [HoverIdle] at hidle
      rw [hidle] at hcommute
      exact hcommute

theorem forcePinkPreview_spec (target : Target) {s : State P E} (hpending : s.pending = none)
    (hpink : (undone s).pinkPreview = []) :
    (forcePinkPreview target s).pending = none ∧
    (forcePinkPreview target s).armedVRPick = s.armedVRPick ∧
    undone (forcePinkPreview target s) = undone s := by
  unfold forcePinkPreview
  cases hforced : s.hover.forced with
  | some forced => exact ⟨hpending, rfl, rfl⟩
  | none =>
    have hnone : undone s = s.options := by
      rw [undone_of_none hpending, undoHover, hforced]
    cases target with
    | hideCode =>
      refine ⟨hpending, rfl, ?_⟩
      rw [hnone]
      dsimp only
      rw [undone_of_none]
      · dsimp only [undoHover]
        rw [← pinkPreview_of_undone hpink hforced]
      · exact hpending
    | _ =>
      refine ⟨hpending, rfl, ?_⟩
      rw [hnone]
      dsimp only
      exact undone_of_none hpending

theorem requestCapture_spec (p : Pending P) (s : State P E) :
    (∃ p', (requestCapture p s).pending = some p' ∧ p'.preview = p.preview) ∧
    (requestCapture p s).armedVRPick = s.armedVRPick ∧
    undone (requestCapture p s) = undoPending p (undoHover s.hover s.options) :=
  ⟨⟨_, rfl, rfl⟩, rfl, rfl⟩

theorem undoPending_plain {p : Pending P} (hstop : p.stopHideCapture = false)
    (hclose : p.closeElementsPopup = false) (o : Options E) : undoPending p o = o := by
  unfold undoPending
  rw [hstop, hclose]
  rfl

theorem undoPending_hideCode (h : Hover P) (p : Pending P) (o : Options E) :
    undoPending { p with closeElementsPopup := !o.isPopupOpen, stopHideCapture := !o.captureEnabled }
      (undoHover h { (if !o.isPopupOpen then o.setPopupOpen true else o) with
        captureEnabled := true }) = undoHover h o := by
  rw [← undoHover_undoPending]
  apply congrArg
  obtain ⟨_, _, _, captureEnabled, _, popupOpenCount⟩ := o
  unfold undoPending Options.isPopupOpen Options.setPopupOpen
  cases captureEnabled
  all_goals
    by_cases hopen : 0 < popupOpenCount
    · simp [hopen]
    · simp [hopen]

theorem requestNow_spec (flatScreen : Bool) (target : Target) (layer : Nat) (point : P)
    (preview : Bool) {s : State P E} (hpink : (undone s).pinkPreview = []) :
    (requestNow flatScreen target layer point preview s).armedVRPick = s.armedVRPick ∧
    undone (requestNow flatScreen target layer point preview s) = undone s ∧
    ((∃ p, (requestNow flatScreen target layer point preview s).pending = some p ∧
        p.preview = preview) ∨
      (FailsAtOnce flatScreen target s ∧ (preview = false → HoverIdle s →
        HoverIdle (requestNow flatScreen target layer point preview s)))) := by
  obtain ⟨hnone, harmed, -, hsame, hkeep⟩ := dropPending_spec s
  unfold requestNow
  dsimp only
  by_cases hflat : flatScreen = true
  · rw [if_pos hflat]
    exact ⟨harmed, hsame, .inr ⟨.inl hflat, fun _ => hkeep⟩⟩
  rw [if_neg hflat]
  have hforced : ∃ t : State P E, (if preview = true then
      forcePinkPreview (requestTarget (dropPending s) target) (dropPending s) else dropPending s) = t ∧
      t.pending = none ∧ t.armedVRPick = s.armedVRPick ∧ undone t = undone s ∧
      (preview = false → t = dropPending s) ∧
      t.options.isPopupOpen = (dropPending s).options.isPopupOpen := by
    cases preview with
    | false => exact ⟨_, rfl, hnone, harmed, hsame, fun _ => rfl, rfl⟩
    | true =>
      obtain ⟨hpending, harmed', hundone⟩ := forcePinkPreview_spec
        (requestTarget (dropPending s) target) hnone (hsame ▸ hpink)
      refine ⟨_, rfl, hpending, harmed'.trans harmed, hundone.trans hsame, nofun, ?_⟩
      unfold forcePinkPreview
      cases (dropPending s).hover.forced with
      | some _ => rfl
      | none =>
        cases requestTarget (dropPending s) target
        all_goals rfl
  obtain ⟨t, ht, hpending, harmed', hundone, hplain, hpopup⟩ := hforced
  rw [ht]
  have hundo := undone_of_none hpending
  rw [hundone] at hundo
  cases htarget : requestTarget (dropPending s) target with
  | elements =>
    dsimp only
    by_cases hopen : t.options.isPopupOpen = true
    · rw [if_pos hopen]
      refine ⟨harmed', (requestCapture_spec _ _).2.2.trans ?_, .inl ⟨_, rfl, rfl⟩⟩
      exact (undoPending_plain rfl rfl _).trans hundo.symm
    · rw [if_neg hopen]
      refine ⟨harmed', hundone, .inr ⟨.inr ⟨htarget, ?_⟩, fun hpreview hidle => ?_⟩⟩
      · rw [← hpopup]
        exact Bool.eq_false_iff.2 hopen
      · rw [hplain hpreview]
        exact hkeep hidle
  | hideCode =>
    dsimp only
    refine ⟨harmed', (requestCapture_spec _ _).2.2.trans ?_, .inl ⟨_, rfl, rfl⟩⟩
    exact (undoPending_hideCode t.hover ⟨0, .hideCode, layer, point, 0, preview, false, false⟩
      t.options).trans hundo.symm
  | _ =>
    dsimp only
    refine ⟨harmed', (requestCapture_spec _ _).2.2.trans ?_, .inl ⟨_, rfl, rfl⟩⟩
    exact (undoPending_plain rfl rfl _).trans hundo.symm

theorem resolve_spec (p : Pending P) (c : Captured E) (s : State P E) :
    (resolve p c s).2 = s ∨ (PaintsPink p c ∧
      (resolve p c s).2 = { s with options := { s.options with pinkPreview := c.entries } }) := by
  unfold resolve
  dsimp only
  by_cases hshown : (!c.hasMap || !c.drawn) = true
  · rw [if_pos hshown]
    exact .inl rfl
  rw [if_neg hshown]
  cases htarget : p.target with
  | hideCode =>
    dsimp only
    by_cases hpaints : (p.preview && !c.entries.isEmpty) = true
    · rw [if_pos hpaints]
      obtain ⟨hpreview, hentries⟩ := Bool.and_eq_true_iff.1 hpaints
      refine .inr ⟨⟨hpreview, htarget, ?_, ?_, ?_⟩, rfl⟩
      · cases hmap : c.hasMap with
        | true => rfl
        | false => simp [hmap] at hshown
      · cases hdrawn : c.drawn with
        | true => rfl
        | false => simp [hdrawn] at hshown
      · rintro hempty
        rw [hempty] at hentries
        exact absurd hentries nofun
    · rw [if_neg hpaints]
      exact .inl rfl
  | _ => exact .inl rfl

/-! ### What stays restorable -/

/-- Undoing gives the options from before the picks, and where no pick is armed or pending there is
    nothing to undo. A pending preview of a pick that is not armed any more has nothing to undo either. -/
structure Restorable (before : Options E) (s : State P E) : Prop where
  undone : undone s = before
  pink : before.pinkPreview = []
  idle : s.armedVRPick = none → (∀ p, s.pending = some p → p.preview = true) → HoverIdle s

namespace Restorable
variable {before : Options E} {s : State P E}

theorem of_init (hinit : (picks l before).init s) : Restorable before s := by
  obtain ⟨hpending, -, hhover, hoptions, hpink⟩ := hinit
  have hidle : HoverIdle s := by
    rw [HoverIdle, hhover]
    exact undoHover_noHover l s.options
  refine ⟨?_, hpink, fun _ _ => hidle⟩
  rw [undone_of_none hpending, hidle]
  exact hoptions

theorem restoreHover (h : Restorable before s) (armed : Option Target) :
    Restorable before { DrawPick.restoreHover l s with armedVRPick := armed } := by
  refine ⟨?_, h.pink, fun _ _ => undoHover_noHover l _⟩
  refine Eq.trans ?_ h.undone
  cases hpending : s.pending with
  | none =>
    rw [undone_of_none hpending]
    exact undone_of_none hpending
  | some p =>
    rw [undone_of_some hpending]
    exact undone_of_some hpending

theorem rest (h : Restorable before s) (hover : Hover P)
    (hsame : ∀ o : Options E, undoHover hover o = undoHover s.hover o) :
    Restorable before { s with hover } := by
  refine ⟨?_, h.pink, fun harmed hpending => (hsame _).trans (h.idle harmed hpending)⟩
  refine Eq.trans ?_ h.undone
  unfold DrawPick.undone
  dsimp only
  cases s.pending with
  | none => exact hsame _
  | some p => exact congrArg (undoPending p) (hsame _)

theorem of_requestNow {flatScreen : Bool} {target : Target} {layer : Nat} {point : P}
    {preview : Bool} (hsame : DrawPick.undone s = before) (hpink : before.pinkPreview = [])
    (harmed : preview = true → s.armedVRPick ≠ none)
    (hfails : s.armedVRPick = none → FailsAtOnce flatScreen target s → HoverIdle s) :
    Restorable before (requestNow flatScreen target layer point preview s) := by
  have hpinkUndone : (DrawPick.undone s).pinkPreview = [] := by
    rw [hsame]
    exact hpink
  obtain ⟨harmed', hundone, hended⟩ :=
    requestNow_spec flatScreen target layer point preview hpinkUndone
  refine ⟨hundone.trans hsame, hpink, fun hnone hpreviews => ?_⟩
  rw [harmed'] at hnone
  have hplain : preview = false := by
    cases preview with
    | false => rfl
    | true => exact absurd hnone (harmed rfl)
  obtain ⟨p, hp, hpreview⟩ | ⟨hfailed, hidle⟩ := hended
  · -- The pick is pending, and it is no preview.
    exact absurd ((hpreviews p hp).symm.trans (hpreview.trans hplain)) nofun
  · exact hidle hplain (hfails hnone hfailed)

theorem timeout (h : Restorable before s) {p : Pending P} (hpending : s.pending = some p)
    (hfails : p.preview = false → s.armedVRPick = none → HoverIdle s) :
    Restorable before (fail p.target (restore p { s with pending := none })) := by
  have hcommute := undoHover_undoPending s.hover p s.options
  refine ⟨?_, h.pink, fun harmed _ => ?_⟩
  · refine Eq.trans ?_ h.undone
    rw [undone_of_some hpending]
    exact hcommute
  · have hidle : HoverIdle s := by
      cases hpreview : p.preview with
      | false => exact hfails hpreview harmed
      | true =>
        refine h.idle harmed fun p' hp' => ?_
        cases hpending.symm.trans hp'
        exact hpreview
    rw [HoverIdle] at hidle
    rw [hidle] at hcommute
    exact hcommute

theorem resolved (h : Restorable before s) {p : Pending P} {c : Captured E}
    (hpending : s.pending = some p)
    (hpaints : PaintsPink p c → s.armedVRPick ≠ none ∧ s.hover.forced = some .hideCode)
    {t : State P E} (ht : (resolve p c { s with pending := none }).2 = t) :
    Restorable before (if p.preview then restore p t else DrawPick.restoreHover l (restore p t)) := by
  have hcommute := undoHover_undoPending s.hover p s.options
  have hsame : undoPending p (undoHover s.hover s.options) = before := by
    rw [← undone_of_some hpending]
    exact h.undone
  obtain hresolved | ⟨hpink, hresolved⟩ := resolve_spec p c { s with pending := none }
  · rw [← ht, hresolved]
    cases hpreview : p.preview with
    | false => exact ⟨hcommute.trans hsame, h.pink, fun _ _ => undoHover_noHover l _⟩
    | true =>
      refine ⟨hcommute.trans hsame, h.pink, fun harmed _ => ?_⟩
      have hidle := h.idle harmed fun p' hp' => by
        cases hpending.symm.trans hp'
        exact hpreview
      rw [HoverIdle] at hidle
      rw [hidle] at hcommute
      exact hcommute
  · obtain ⟨harmed, hforced⟩ := hpaints hpink
    rw [← ht, hresolved, hpink.1]
    refine ⟨?_, h.pink, fun hnone _ => absurd hnone harmed⟩
    refine Eq.trans ?_ hsame
    refine (undoHover_undoPending s.hover p _).trans (congrArg (undoPending p) ?_)
    unfold undoHover
    rw [hforced]

theorem onEndFrame (h : Restorable before s) {capture : Option (Captured E)}
    (hok : Undisturbed s (.onEndFrame capture)) :
    Restorable before (DrawPick.onEndFrame l capture s) := by
  unfold DrawPick.onEndFrame
  cases hpending : s.pending with
  | none => exact h
  | some p =>
    obtain ⟨hlate, hpaints⟩ := hok p hpending
    dsimp only
    cases hcapture : capture.filter (·.id == p.captureId) with
    | none =>
      dsimp only
      by_cases htimeout : pickTimeoutFrames < p.frames + 1
      · rw [if_pos htimeout]
        exact h.timeout hpending (hlate hcapture htimeout)
      · rw [if_neg htimeout]
        refine ⟨?_, h.pink, fun harmed hpreviews => ?_⟩
        · refine Eq.trans ?_ h.undone
          rw [undone_of_some hpending]
          rfl
        · refine h.idle harmed fun p' hp' => ?_
          cases hpending.symm.trans hp'
          exact hpreviews { p with frames := p.frames + 1 } rfl
    | some c =>
      dsimp only
      have hresolved : Restorable before (if p.preview then _ else DrawPick.restoreHover l _) :=
        h.resolved hpending (hpaints c hcapture) rfl
      exact ⟨hresolved.undone, hresolved.pink, hresolved.idle⟩

theorem step {a : Action P E} (h : Restorable before s) (hok : Undisturbed s a) :
    Restorable before (DrawPick.step l s a) := by
  cases a with
  | armVRPick target => exact h.restoreHover (some target)
  | disarmVRPick => exact h.restoreHover none
  | updateVRHover flatScreen now point =>
    dsimp only [DrawPick.step]
    unfold updateVRHover
    split
    · exact h
    next target harmed =>
    split
    · exact h.rest { s.hover with resting := point, restingSinceUs := now } fun o => rfl
    split
    · exact h
    split
    · exact h
    · -- The preview is of the pick that is armed.
      have hrest := h.rest { s.hover with previewed := some point } fun o => rfl
      refine of_requestNow hrest.undone h.pink ?_ ?_
      · exact fun _ hnone => absurd (harmed.symm.trans hnone) nofun
      · exact fun hnone => absurd (harmed.symm.trans hnone) nofun
  | confirmVRPick flatScreen point =>
    dsimp only [DrawPick.step]
    unfold confirmVRPick
    split
    · exact h
    next target harmed =>
    exact of_requestNow h.undone h.pink nofun fun _ => hok target harmed
  | requestNow flatScreen target layer point preview => 
    exact of_requestNow h.undone h.pink hok.1 hok.2
  | onEndFrame capture => exact h.onEndFrame hok

end Restorable

theorem restorable {before : Options E} {s : State P E}
    (h : (picks l before).ReachableBy Undisturbed s) : Restorable before s := by
  refine h.invariant (fun _ hinit => .of_init hinit) fun s a s' hs hok hstep => ?_
  cases Option.some.inj hstep
  exact hs.step hok

/-- With no pick armed and none pending, the hunters are as they were found. -/
theorem options_restored {before : Options E} {s : State P E}
    (h : (picks l before).ReachableBy Undisturbed s) (harmed : s.armedVRPick = none)
    (hpending : s.pending = none) : s.options = before := by
  have hs := restorable h
  have hidle : HoverIdle s := by
    apply hs.idle harmed
    intro p hp
    exact absurd (hpending.symm.trans hp) nofun
  calc s.options = undoHover s.hover s.options := hidle.symm
    _ = undone s := (undone_of_none hpending).symm
    _ = before := hs.undone

/-! ### A preview that paints after its pick -/

def pixels : Laser Nat := ⟨0, (· != ·), (· == ·)⟩

def unhunted : Options Nat := ⟨.skip, .skip, false, false, [], 0⟩

def unpicked : State Nat Nat :=
  ⟨none, 0, none, noHover pixels, ⟨0, .auto, false, [], false⟩, unhunted, false, false, false⟩

def painted : Captured Nat := ⟨pickCaptureIdBase ||| 1, true, true, false, false, false, [5]⟩

/-- A shader is previewed and picked, with a frame that shows no capture; then a hide code. -/
def twoPicks : List (Action Nat Nat) :=
  [.armVRPick .shader, .updateVRHover false 1000000 7, .updateVRHover false 1250000 7,
    .onEndFrame none, .onEndFrame (some { painted with shaderListed := true }),
    .confirmVRPick false 7, .onEndFrame (some { painted with id := pickCaptureIdBase ||| 2 }),
    .armVRPick .hideCode, .updateVRHover false 2000000 9, .updateVRHover false 2250000 9,
    .onEndFrame (some { painted with id := pickCaptureIdBase ||| 3 }), .confirmVRPick false 9,
    .onEndFrame (some { painted with id := pickCaptureIdBase ||| 4 })]

/-- Pink is chosen while the shader is previewed, and the hide code is painted pink. -/
example : ((picks pixels unhunted).run unpicked (twoPicks.take 3)).map
      (·.options.shaderOption) = some .pink ∧
    ((picks pixels unhunted).run unpicked (twoPicks.take 11)).map (·.options.pinkPreview) =
      some [5] := by decide +kernel

/-- Four results later everything is as it was. -/
theorem options_restored_twoPicks : ∃ s, (picks pixels unhunted).ReachableBy Undisturbed s ∧
    s.result.serial = 4 ∧ s.options = unhunted := by
  have hrun : ((picks pixels unhunted).runIf undisturbed unpicked twoPicks).map (fun s =>
      (s.armedVRPick, s.pending.isSome, s.result.serial)) = some (none, false, 4) := by
    decide +kernel
  obtain ⟨s, hs, hfacts⟩ := Option.map_eq_some_iff.1 hrun
  simp only [Prod.mk.injEq] at hfacts
  obtain ⟨harmed, hpending, hserial⟩ := hfacts
  have hinit : (picks pixels unhunted).ReachableBy Undisturbed unpicked :=
    .init ⟨rfl, rfl, rfl, rfl, rfl⟩
  have hreach := hinit.runIf undisturbed_of_check hs
  refine ⟨s, hreach, hserial, options_restored hreach harmed ?_⟩
  exact Option.not_isSome_iff_eq_none.1 (Bool.eq_false_iff.1 hpending)

/-- The laser rests on an element, and the pick of a hide code is disarmed before its preview is
    captured. -/
def disarmedPreview : List (Action Nat Nat) :=
  [.armVRPick .hideCode, .updateVRHover false 1000000 7, .updateVRHover false 1250000 7,
    .disarmVRPick, .onEndFrame (some painted)]

theorem disarmedPreview_not_restored :
    ∃ s, (picks pixels unhunted).Reachable s ∧ s.armedVRPick = none ∧ s.pending = none ∧
      s.options ≠ unhunted := by
  obtain ⟨s, hrun⟩ : ∃ s, (picks pixels unhunted).run unpicked disarmedPreview = some s :=
    ⟨_, rfl⟩
  have hinit : (picks pixels unhunted).Reachable unpicked := .init ⟨rfl, rfl, rfl, rfl, rfl⟩
  refine ⟨s, hinit.run hrun, ?_, ?_, ?_⟩
  · exact System.run_eval hrun State.armedVRPick (by decide +kernel)
  · have hpending := System.run_eval hrun (fun s => s.pending.isSome)
      (show _ = some false by decide +kernel)
    exact Option.not_isSome_iff_eq_none.1 (Bool.eq_false_iff.1 hpending)
  · intro hoptions
    have hpink := System.run_eval hrun (fun s => s.options.pinkPreview)
      (show _ = some [5] by decide +kernel)
    exact absurd ((congrArg Options.pinkPreview hoptions).symm.trans hpink) nofun

end DolphinXR.DrawPick
