import Mathlib.Data.List.Induction
import Mathlib.Data.List.Perm.Basic
import Mathlib.Order.Lattice

/- Clears of EFB copies (VideoCommon/ElementsGroupManager.cpp). A draw that matches an override with
   `clear_efb` asks that the next copy be cleared, of any width or within bounds; the next copy
   looks at one pair of bounds, which stands for all requests since the last one.

   That pair is zero where nothing is pending and where a request has no bounds, and it is zero too
   once one request without a lower and one without an upper bound are merged. The request behind
   such a one is taken as the first. So requests add up in every order exactly if none of this
   happens between two of them. An override's other fields are a parameter, and which draws it
   matches is another. -/
namespace DolphinXR.ElementsGroup

/-- The bounds of a request; what is not positive is no bound. -/
structure ClearBounds where
  minWidth : Int
  maxWidth : Int
  deriving DecidableEq

structure ElementGroupOverride (E : Type) where
  element : E
  clearEfb : Bool
  clearEfbWidth : ClearBounds

structure PendingClear where
  clearNextEfb : Bool := false
  pendingClearMin : Int := 0
  pendingClearMax : Int := 0
  deriving DecidableEq

namespace PendingClear

/-- A request, as `CheckClearEFBForDrawLocked` notes it. -/
def arm (s : PendingClear) (r : ClearBounds) : PendingClear :=
  if r.minWidth > 0 ∨ r.maxWidth > 0 then
    -- If several clear_efb elements precede the copy, widen the bounds to their union.
    if s.pendingClearMin = 0 ∧ s.pendingClearMax = 0 then
      { clearNextEfb := true
        pendingClearMin := r.minWidth
        pendingClearMax := r.maxWidth }
    else
      { clearNextEfb := true
        pendingClearMin := min s.pendingClearMin r.minWidth
        pendingClearMax :=
          if s.pendingClearMax = 0 ∨ r.maxWidth = 0 then 0
          else max s.pendingClearMax r.maxWidth }
  else
    -- No bounds = any size.
    { clearNextEfb := true }

/-- The answer to a copy, and what is pending behind it. -/
def shouldClearEFBCopy (s : PendingClear) (width : Int) : Bool × PendingClear :=
  if !s.clearNextEfb then (false, s)
  else
    let minW := s.pendingClearMin
    let maxW := s.pendingClearMax
    let answer :=
      if minW = 0 ∧ maxW = 0 then true
      else if minW > 0 ∧ width < minW then false
      else if maxW > 0 ∧ width > maxW then false
      else true
    (answer, {})

end PendingClear

section Draws
variable {E D : Type} (doesEntryMatch : ElementGroupOverride E → D → Bool)
  (overrides : List (ElementGroupOverride E))

/-- The bounds of the first `clear_efb` override that matches. -/
def clearRequest (draw : D) : Option ClearBounds :=
  (overrides.find? fun entry => entry.clearEfb && doesEntryMatch entry draw).map
    ElementGroupOverride.clearEfbWidth

def checkClearEFBForDraw (s : PendingClear) (draw : D) : PendingClear :=
  match clearRequest doesEntryMatch overrides draw with
  | none => s
  | some r => s.arm r

inductive Event (D : Type) where
  | draw (draw : D)
  | copy (width : Int)

def step (s : PendingClear) : Event D → PendingClear
  | .draw draw => checkClearEFBForDraw doesEntryMatch overrides s draw
  | .copy width => (s.shouldClearEFBCopy width).2

def clears (history : List (Event D)) (lastWidth : Int) (draws : List D) (width : Int) : Bool :=
  let s := (history ++ [Event.copy lastWidth]).foldl (step doesEntryMatch overrides) {}
  ((draws.foldl (checkClearEFBForDraw doesEntryMatch overrides) s).shouldClearEFBCopy width).1

def clearRequests (draws : List D) : List ClearBounds :=
  draws.filterMap (clearRequest doesEntryMatch overrides)

end Draws

namespace ClearBounds

def Admits (r : ClearBounds) (width : Int) : Prop :=
  (0 < r.minWidth → r.minWidth ≤ width) ∧ (0 < r.maxWidth → width ≤ r.maxWidth)

def Bounded (r : ClearBounds) : Prop := 0 < r.minWidth ∨ 0 < r.maxWidth

instance (r : ClearBounds) : Decidable r.Bounded := inferInstanceAs (Decidable (_ ∨ _))

end ClearBounds

/-- The requests add up: what one of them admits is cleared, in whatever order they come. -/
structure AddUp {E D : Type} (doesEntryMatch : ElementGroupOverride E → D → Bool)
    (overrides : List (ElementGroupOverride E)) (history : List (Event D)) (lastWidth : Int)
    (draws : List D) : Prop where
  admitted : ∀ width, (∃ r ∈ clearRequests doesEntryMatch overrides draws, r.Admits width) →
    clears doesEntryMatch overrides history lastWidth draws width = true
  order : ∀ draws', draws'.Perm draws → ∀ width,
    clears doesEntryMatch overrides history lastWidth draws' width =
      clears doesEntryMatch overrides history lastWidth draws width

def NoReset (requests : List ClearBounds) : Prop :=
  (∃ r ∈ requests, r.minWidth = 0) → (∃ r ∈ requests, r.maxWidth = 0) → requests.length ≤ 2

/-- No negative maximum meets a positive one, unless a zero sets the bound aside. -/
def SameSign (requests : List ClearBounds) : Prop :=
  (∃ r ∈ requests, r.maxWidth < 0) → (∃ r ∈ requests, 0 < r.maxWidth) →
    ∃ r ∈ requests, r.maxWidth = 0

/-- All requests are without bounds, or all have some and their union is never taken for none. -/
def Compatible (requests : List ClearBounds) : Prop :=
  (∀ r ∈ requests, ¬ r.Bounded) ∨
    (∀ r ∈ requests, r.Bounded) ∧ NoReset requests ∧ SameSign requests

/-! ### What is pending behind a copy -/

section Answers
variable {s : PendingClear} {r : ClearBounds} {width : Int}

theorem answer_eq (harmed : s.clearNextEfb = true) :
    (s.shouldClearEFBCopy width).1 = true ↔
      (0 < s.pendingClearMin → s.pendingClearMin ≤ width) ∧
        (0 < s.pendingClearMax → width ≤ s.pendingClearMax) := by
  unfold PendingClear.shouldClearEFBCopy
  rw [harmed, Bool.not_true, if_neg (by decide)]
  dsimp only
  split
  case isTrue h => simp [h]
  case isFalse =>
    split
    case isTrue h => simpa using fun hmin => absurd (hmin h.1) (by omega)
    case isFalse hmin =>
      split
      case isTrue h => simpa using fun _ => ⟨h.1, h.2⟩
      case isFalse hmax =>
        simp only [true_iff]
        omega

theorem arm_clearNextEfb (s : PendingClear) (r : ClearBounds) : (s.arm r).clearNextEfb = true := by
  unfold PendingClear.arm
  split
  · split <;> rfl
  · rfl

theorem arm_unbounded (h : ¬ r.Bounded) : s.arm r = { clearNextEfb := true } := if_neg h

theorem arm_reset (h : r.Bounded) (hmin : s.pendingClearMin = 0) (hmax : s.pendingClearMax = 0) :
    s.arm r =
      { clearNextEfb := true
        pendingClearMin := r.minWidth
        pendingClearMax := r.maxWidth } := by
  have h : r.minWidth > 0 ∨ r.maxWidth > 0 := h
  rw [PendingClear.arm, if_pos h, if_pos ⟨hmin, hmax⟩]

theorem arm_merge (h : r.Bounded) (hpending : ¬ (s.pendingClearMin = 0 ∧ s.pendingClearMax = 0)) :
    s.arm r =
      { clearNextEfb := true
        pendingClearMin := min s.pendingClearMin r.minWidth
        pendingClearMax :=
          if s.pendingClearMax = 0 ∨ r.maxWidth = 0 then 0
          else max s.pendingClearMax r.maxWidth } := by
  have h : r.minWidth > 0 ∨ r.maxWidth > 0 := h
  rw [PendingClear.arm, if_pos h, if_neg hpending]

end Answers

/-! ### The state behind a copy -/

section History
variable {E D : Type} {doesEntryMatch : ElementGroupOverride E → D → Bool}
  {overrides : List (ElementGroupOverride E)}

def Idle (s : PendingClear) : Prop := s.clearNextEfb = false → s = {}

theorem idle_step {s : PendingClear} (h : Idle s) (event : Event D) :
    Idle (step doesEntryMatch overrides s event) := by
  cases event with
  | draw draw =>
    unfold step checkClearEFBForDraw
    dsimp only
    cases clearRequest doesEntryMatch overrides draw with
    | none => exact h
    | some r =>
      intro hfalse
      rw [arm_clearNextEfb] at hfalse
      contradiction
  | copy width =>
    unfold step PendingClear.shouldClearEFBCopy
    dsimp only
    split
    · exact h
    · exact fun _ => rfl

theorem idle_run (history : List (Event D)) :
    Idle (history.foldl (step doesEntryMatch overrides) {}) := by
  induction history using List.reverseRecOn with
  | nil => exact fun _ => rfl
  | append_singleton history event ih =>
    rw [List.foldl_append]
    exact idle_step ih event

theorem settled (history : List (Event D)) (lastWidth : Int) :
    (history ++ [Event.copy lastWidth]).foldl (step doesEntryMatch overrides) {} = {} := by
  rw [List.foldl_append]
  change ((history.foldl (step doesEntryMatch overrides) {}).shouldClearEFBCopy lastWidth).2 = {}
  have hidle : Idle (history.foldl (step doesEntryMatch overrides) {}) := idle_run history
  unfold PendingClear.shouldClearEFBCopy
  split
  case isTrue h => exact hidle (by simpa using h)
  case isFalse => rfl

theorem foldl_draws (s : PendingClear) (draws : List D) :
    draws.foldl (checkClearEFBForDraw doesEntryMatch overrides) s =
      (clearRequests doesEntryMatch overrides draws).foldl PendingClear.arm s := by
  induction draws generalizing s with
  | nil => rfl
  | cons draw draws ih =>
    rw [List.foldl_cons, ih]
    unfold clearRequests checkClearEFBForDraw
    rw [List.filterMap_cons]
    cases clearRequest doesEntryMatch overrides draw with
    | none => rfl
    | some r => rfl

def clearsFor (requests : List ClearBounds) (width : Int) : Bool :=
  ((requests.foldl PendingClear.arm {}).shouldClearEFBCopy width).1

theorem clears_eq (history : List (Event D)) (lastWidth : Int) (draws : List D) (width : Int) :
    clears doesEntryMatch overrides history lastWidth draws width =
      clearsFor (clearRequests doesEntryMatch overrides draws) width := by
  unfold clears clearsFor
  rw [settled]
  dsimp only
  rw [foldl_draws]

end History

/-! ### The union of the bounds -/

/-- The pending bounds are the union of some requests with bounds. -/
structure Union (s : PendingClear) (requests : List ClearBounds) : Prop where
  armed : s.clearNextEfb = true
  min_le : ∀ r ∈ requests, s.pendingClearMin ≤ r.minWidth
  min_mem : ∃ r ∈ requests, s.pendingClearMin = r.minWidth
  max_zero : (∃ r ∈ requests, r.maxWidth = 0) → s.pendingClearMax = 0
  le_max : (∀ r ∈ requests, r.maxWidth ≠ 0) → ∀ r ∈ requests, r.maxWidth ≤ s.pendingClearMax
  max_mem : (∀ r ∈ requests, r.maxWidth ≠ 0) → ∃ r ∈ requests, s.pendingClearMax = r.maxWidth

section Union
variable {s s' : PendingClear} {requests requests' : List ClearBounds} {r : ClearBounds}

theorem Union.zeros (h : Union s requests) (hmin : s.pendingClearMin = 0)
    (hmax : s.pendingClearMax = 0) :
    (∃ r ∈ requests, r.minWidth = 0) ∧ ∃ r ∈ requests, r.maxWidth = 0 := by
  obtain ⟨r, hmem, hr⟩ := h.min_mem
  refine ⟨⟨r, hmem, hr ▸ hmin⟩, ?_⟩
  by_contra hnot
  have hne : ∀ r ∈ requests, r.maxWidth ≠ 0 := fun r hmem hzero => hnot ⟨r, hmem, hzero⟩
  obtain ⟨r, hmem, hr⟩ := h.max_mem hne
  exact hne r hmem (hr ▸ hmax)

theorem union_single {s : PendingClear} {r : ClearBounds} (h : r.Bounded)
    (hmin : s.pendingClearMin = 0) (hmax : s.pendingClearMax = 0) : Union (s.arm r) [r] := by
  rw [arm_reset h hmin hmax]
  exact ⟨rfl, by simp, by simp, by simp, by simp, by simp⟩

theorem union_append (h : Union s requests) (hr : r.Bounded)
    (hpending : ¬ (s.pendingClearMin = 0 ∧ s.pendingClearMax = 0)) :
    Union (s.arm r) (requests ++ [r]) := by
  rw [arm_merge hr hpending]
  have hsplit {p : ClearBounds → Prop} :
      (∀ q ∈ requests ++ [r], p q) ↔ (∀ q ∈ requests, p q) ∧ p r := by
    simp [or_imp, forall_and]
  refine ⟨rfl, ?_, ?_, ?_, ?_, ?_⟩
  · refine hsplit.2 ⟨fun q hmem => ?_, min_le_right _ _⟩
    exact (min_le_left _ _).trans (h.min_le q hmem)
  · obtain ⟨q, hmem, hq⟩ := h.min_mem
    dsimp only
    obtain hle | hle := le_total s.pendingClearMin r.minWidth
    · exact ⟨q, by simp [hmem], by rw [min_eq_left hle, hq]⟩
    · exact ⟨r, by simp, min_eq_right hle⟩
  · rintro ⟨q, hmem, hzero⟩
    refine if_pos ?_
    obtain hmem | hmem := List.mem_append.1 hmem
    · exact .inl (h.max_zero ⟨q, hmem, hzero⟩)
    · rw [List.mem_singleton.1 hmem] at hzero
      exact .inr hzero
  · intro hne
    obtain ⟨hrequests, hrne⟩ := hsplit.1 hne
    obtain ⟨q, hmem, hq⟩ := h.max_mem hrequests
    have hif : ¬ (s.pendingClearMax = 0 ∨ r.maxWidth = 0) := by
      rw [hq]
      exact not_or.2 ⟨hrequests q hmem, hrne⟩
    dsimp only
    rw [if_neg hif]
    exact hsplit.2 ⟨fun q hmem => (h.le_max hrequests q hmem).trans (le_max_left _ _),
      le_max_right _ _⟩
  · intro hne
    obtain ⟨hrequests, hrne⟩ := hsplit.1 hne
    obtain ⟨q, hmem, hq⟩ := h.max_mem hrequests
    have hif : ¬ (s.pendingClearMax = 0 ∨ r.maxWidth = 0) := by
      rw [hq]
      exact not_or.2 ⟨hrequests q hmem, hrne⟩
    dsimp only
    rw [if_neg hif]
    obtain hle | hle := le_total s.pendingClearMax r.maxWidth
    · exact ⟨r, by simp, max_eq_right hle⟩
    · exact ⟨q, by simp [hmem], by rw [max_eq_left hle, hq]⟩

theorem Union.unique (h : Union s requests) (h' : Union s' requests')
    (hperm : requests'.Perm requests) : s' = s := by
  have hmem (r : ClearBounds) : r ∈ requests' ↔ r ∈ requests := hperm.mem_iff
  have hmin : s'.pendingClearMin = s.pendingClearMin := by
    obtain ⟨r, hr, heq⟩ := h.min_mem
    obtain ⟨r', hr', heq'⟩ := h'.min_mem
    have hle := h.min_le r' ((hmem r').1 hr')
    have hle' := h'.min_le r ((hmem r).2 hr)
    omega
  have hmax : s'.pendingClearMax = s.pendingClearMax := by
    by_cases hzero : ∃ r ∈ requests, r.maxWidth = 0
    · rw [h.max_zero hzero]
      obtain ⟨r, hr, heq⟩ := hzero
      exact h'.max_zero ⟨r, (hmem r).2 hr, heq⟩
    · have hne : ∀ r ∈ requests, r.maxWidth ≠ 0 := fun r hr heq => hzero ⟨r, hr, heq⟩
      have hne' : ∀ r ∈ requests', r.maxWidth ≠ 0 := fun r hr => hne r ((hmem r).1 hr)
      obtain ⟨r, hr, heq⟩ := h.max_mem hne
      obtain ⟨r', hr', heq'⟩ := h'.max_mem hne'
      have hle := h.le_max hne r' ((hmem r').1 hr')
      have hle' := h'.le_max hne' r ((hmem r).2 hr)
      omega
  cases s
  cases s'
  have harmed := h.armed
  have harmed' := h'.armed
  simp_all

theorem noReset_of_subset (h : NoReset requests)
    (hsub : requests'.Sublist requests) : NoReset requests' := by
  rintro ⟨r, hr, hmin⟩ ⟨q, hq, hmax⟩
  exact hsub.length_le.trans (h ⟨r, hsub.subset hr, hmin⟩ ⟨q, hsub.subset hq, hmax⟩)

theorem union_foldl (hmin : s.pendingClearMin = 0) (hmax : s.pendingClearMax = 0)
    (hne : requests ≠ []) (hbounded : ∀ r ∈ requests, r.Bounded) (hreset : NoReset requests) :
    Union (requests.foldl PendingClear.arm s) requests := by
  induction requests using List.reverseRecOn with
  | nil => exact absurd rfl hne
  | append_singleton requests r ih =>
    obtain ⟨hrequests, hr⟩ := List.forall_mem_append.1 hbounded
    have hr : r.Bounded := hr r (List.mem_singleton.2 rfl)
    rw [List.foldl_append, List.foldl_cons, List.foldl_nil]
    cases requests with
    | nil => exact union_single hr hmin hmax
    | cons first requests =>
      have hunion := ih (by simp) hrequests
        (noReset_of_subset hreset (List.sublist_append_left _ _))
      refine union_append hunion hr fun hzero => ?_
      -- Two requests are needed to come to zero, so this one is the third.
      obtain ⟨⟨q, hq, hqmin⟩, ⟨q', hq', hqmax⟩⟩ := hunion.zeros hzero.1 hzero.2
      have hlength := hreset ⟨q, List.mem_append_left _ hq, hqmin⟩
        ⟨q', List.mem_append_left _ hq', hqmax⟩
      have hnil : requests = [] := by
        rw [← List.length_eq_zero_iff]
        simp only [List.length_append, List.length_cons, List.length_nil] at hlength
        omega
      rw [hnil] at hq hq' hrequests
      rw [List.mem_singleton.1 hq] at hqmin
      rw [List.mem_singleton.1 hq'] at hqmax
      have hbounds := hrequests first (List.mem_singleton.2 rfl)
      unfold ClearBounds.Bounded at hbounds
      omega

end Union

/-! ### Compatible requests add up -/

section AddUp
variable {requests requests' : List ClearBounds}

theorem foldl_unbounded (h : ∀ r ∈ requests, ¬ r.Bounded) (hne : requests ≠ []) :
    requests.foldl PendingClear.arm {} = { clearNextEfb := true } := by
  rw [← List.dropLast_append_getLast hne, List.foldl_append]
  exact arm_unbounded (h _ (List.getLast_mem hne))

theorem clearsFor_order (h : Compatible requests) (hperm : requests'.Perm requests) (width : Int) :
    clearsFor requests' width = clearsFor requests width := by
  by_cases hnil : requests = []
  · subst hnil
    rw [hperm.eq_nil]
  have hnil' : requests' ≠ [] := fun heq => hnil (by
    subst heq
    exact hperm.symm.eq_nil)
  unfold clearsFor
  obtain hunbounded | ⟨hbounded, hreset, -⟩ := h
  · rw [foldl_unbounded hunbounded hnil,
      foldl_unbounded (fun r hmem => hunbounded r (hperm.mem_iff.1 hmem)) hnil']
  · have hreset' : NoReset requests' := by
      rintro ⟨r, hr, hmin⟩ ⟨q, hq, hmax⟩
      rw [hperm.length_eq]
      exact hreset ⟨r, hperm.mem_iff.1 hr, hmin⟩ ⟨q, hperm.mem_iff.1 hq, hmax⟩
    have hunion := union_foldl (s := {}) rfl rfl hnil hbounded hreset
    have hunion' := union_foldl (s := {}) rfl rfl hnil'
      (fun r hmem => hbounded r (hperm.mem_iff.1 hmem)) hreset'
    rw [hunion.unique hunion' hperm]

theorem clearsFor_admitted (h : Compatible requests) {width : Int}
    (hadmits : ∃ r ∈ requests, r.Admits width) : clearsFor requests width = true := by
  obtain ⟨r, hmem, hmin, hmax⟩ := hadmits
  have hnil : requests ≠ [] := List.ne_nil_of_mem hmem
  unfold clearsFor
  obtain hunbounded | ⟨hbounded, hreset, hsign⟩ := h
  · rw [foldl_unbounded hunbounded hnil]
    rfl
  · have hunion := union_foldl (s := {}) rfl rfl hnil hbounded hreset
    rw [answer_eq hunion.armed]
    have hle := hunion.min_le r hmem
    refine ⟨fun hpositive => by have := hmin (by omega); omega, fun hpositive => ?_⟩
    have hne : ∀ q ∈ requests, q.maxWidth ≠ 0 := fun q hq hzero => by
      rw [hunion.max_zero ⟨q, hq, hzero⟩] at hpositive
      omega
    obtain ⟨q, hq, heq⟩ := hunion.max_mem hne
    have hmaxle := hunion.le_max hne r hmem
    have hnonneg : ¬ r.maxWidth < 0 := fun hneg => by
      obtain ⟨z, hz, hzero⟩ := hsign ⟨r, hmem, hneg⟩ ⟨q, hq, heq ▸ hpositive⟩
      exact hne z hz hzero
    have := hne r hmem
    have := hmax (by omega)
    omega

/-! ### Others do not -/

def Good (requests : List ClearBounds) : Prop :=
  ∀ requests', requests'.Perm requests → ∀ width, (∃ r ∈ requests, r.Admits width) →
    clearsFor requests' width = true

theorem union_suffix {before after : List ClearBounds}
    (hmin : (before.foldl PendingClear.arm {}).pendingClearMin = 0)
    (hmax : (before.foldl PendingClear.arm {}).pendingClearMax = 0) (hne : after ≠ [])
    (hbounded : ∀ r ∈ after, r.Bounded) (hreset : NoReset after) :
    Union ((before ++ after).foldl PendingClear.arm {}) after := by
  rw [List.foldl_append]
  exact union_foldl hmin hmax hne hbounded hreset

theorem Good.within (h : Good requests) {order after : List ClearBounds}
    (hperm : order.Perm requests) (hunion : Union (order.foldl PendingClear.arm {}) after)
    {r : ClearBounds} (hr : r ∈ requests) {width : Int} (hadmits : r.Admits width) :
    (0 < (order.foldl PendingClear.arm {}).pendingClearMin →
        (order.foldl PendingClear.arm {}).pendingClearMin ≤ width) ∧
      (0 < (order.foldl PendingClear.arm {}).pendingClearMax →
        width ≤ (order.foldl PendingClear.arm {}).pendingClearMax) := by
  have hclears := h order hperm width ⟨r, hr, hadmits⟩
  unfold clearsFor at hclears
  rwa [answer_eq hunion.armed] at hclears

theorem not_mixed (h : Good requests) {r q : ClearBounds} (hr : r ∈ requests) (hq : q ∈ requests)
    (hunbounded : ¬ r.Bounded) (hbounded : q.Bounded) : False := by
  have hne : r ≠ q := fun heq => hunbounded (heq ▸ hbounded)
  have hmem : r ∈ requests.erase q := (List.mem_erase_of_ne hne).2 hr
  have hperm : (((requests.erase q).erase r ++ [r]) ++ [q]).Perm requests := by
    refine (List.perm_append_singleton q _).trans ?_
    refine (List.Perm.cons q (List.perm_append_singleton r _)).trans ?_
    exact (List.Perm.cons q (List.perm_cons_erase hmem).symm).trans (List.perm_cons_erase hq).symm
  have hzero : ((requests.erase q).erase r ++ [r]).foldl PendingClear.arm {} =
      { clearNextEfb := true } := by
    rw [List.foldl_append]
    exact arm_unbounded hunbounded
  have hunion : Union (((requests.erase q).erase r ++ [r] ++ [q]).foldl PendingClear.arm {}) [q] :=
    union_suffix (by rw [hzero]) (by rw [hzero]) (by simp) (by simpa using hbounded)
      (by intro _ _; simp)
  have hadmits (width : Int) : r.Admits width := by
    unfold ClearBounds.Bounded at hunbounded
    exact ⟨fun h => absurd (.inl h) hunbounded, fun h => absurd (.inr h) hunbounded⟩
  -- The bounds of the last request leave out a width on one side.
  obtain hmin | hmax := hbounded
  · have hwithin := h.within hperm hunion hr (hadmits (q.minWidth - 1))
    obtain ⟨z, hz, heq⟩ := hunion.min_mem
    rw [List.mem_singleton.1 hz] at heq
    omega
  · have hwithin := h.within hperm hunion hr (hadmits (q.maxWidth + 1))
    have hqne : ∀ z ∈ [q], z.maxWidth ≠ 0 := by
      intro z hz
      rw [List.mem_singleton.1 hz]
      omega
    obtain ⟨z, hz, heq⟩ := hunion.max_mem hqne
    rw [List.mem_singleton.1 hz] at heq
    omega

theorem sameSign_of_good (h : Good requests) (hbounded : ∀ r ∈ requests, r.Bounded) :
    SameSign requests := by
  rintro ⟨r, hr, hneg⟩ ⟨q, hq, hpos⟩
  by_contra hnone
  have hne : ∀ r ∈ requests, r.maxWidth ≠ 0 := fun r hr hzero => hnone ⟨r, hr, hzero⟩
  have hreset : NoReset requests := fun _ hzero => absurd hzero hnone
  have hunion := union_foldl (s := {}) rfl rfl (List.ne_nil_of_mem hr) hbounded hreset
  have hle := hunion.le_max hne q hq
  have hadmits : r.Admits (max r.minWidth
      ((requests.foldl PendingClear.arm {}).pendingClearMax + 1)) :=
    ⟨fun _ => le_max_left _ _, fun h => by omega⟩
  have hwithin := (h.within (List.Perm.refl _) hunion hr hadmits).2 (by omega)
  omega

theorem zeros_of_lower {before : List ClearBounds} {r q : ClearBounds} (hq : q ∈ before)
    (hqmax : q.maxWidth = 0) (hbefore : ∀ x ∈ before, 0 < x.minWidth) (hr : r.Bounded)
    (hrmin : r.minWidth = 0) :
    ((before ++ [r]).foldl PendingClear.arm {}).pendingClearMin = 0 ∧
      ((before ++ [r]).foldl PendingClear.arm {}).pendingClearMax = 0 := by
  have hreset : NoReset before := by
    rintro ⟨x, hx, hzero⟩ -
    have := hbefore x hx
    omega
  have hunion := union_foldl (s := {}) rfl rfl (List.ne_nil_of_mem hq)
    (fun x hx => .inl (hbefore x hx)) hreset
  obtain ⟨x, hx, heq⟩ := hunion.min_mem
  have hpositive := hbefore x hx
  have hmax := hunion.max_zero ⟨q, hq, hqmax⟩
  rw [List.foldl_append, List.foldl_cons, List.foldl_nil, arm_merge hr (by omega), hmax]
  dsimp only
  rw [if_pos (.inl rfl)]
  omega

theorem noReset_of_good (h : Good requests) (hbounded : ∀ r ∈ requests, r.Bounded) :
    NoReset requests := by
  rintro ⟨r, hr, hrmin⟩ ⟨q, hq, hqmax⟩
  by_contra hlength
  have hrmax : 0 < r.maxWidth := by
    have := hbounded r hr
    unfold ClearBounds.Bounded at this
    omega
  have hqmin : 0 < q.minWidth := by
    have := hbounded q hq
    unfold ClearBounds.Bounded at this
    omega
  -- The requests with a lower bound, `q` among them, and those without, `r` among them.
  let lower := requests.filter fun x => decide (0 < x.minWidth)
  let others := requests.filter fun x => !decide (0 < x.minWidth)
  have hqmem : q ∈ lower := List.mem_filter.2 ⟨hq, by simpa using hqmin⟩
  have hrmem : r ∈ others := List.mem_filter.2 ⟨hr, by simp [hrmin]⟩
  have hlower : ∀ x ∈ lower, 0 < x.minWidth := fun x hx => by
    simpa using (List.mem_filter.1 hx).2
  have hperm : ((lower ++ [r]) ++ others.erase r).Perm requests := by
    rw [List.append_assoc]
    refine (List.Perm.append_left lower ?_).trans (List.filter_append_perm _ requests)
    exact (List.perm_cons_erase hrmem).symm
  by_cases hrest : others.erase r = []
  · -- Only `r` has no lower bound: it comes with `q` first, and then the others leave out a width.
    have horder : (([q] ++ [r]) ++ lower.erase q).Perm requests := by
      rw [hrest, List.append_nil] at hperm
      refine List.Perm.trans (List.Perm.trans ?_ (List.perm_append_singleton r lower).symm) hperm
      exact (List.Perm.swap r q _).trans (List.Perm.cons r (List.perm_cons_erase hqmem).symm)
    have hne : lower.erase q ≠ [] := fun hnil => by
      have hcount := horder.length_eq
      rw [hnil] at hcount
      simp only [List.length_append, List.length_cons, List.length_nil] at hcount
      omega
    have hpositive : ∀ x ∈ lower.erase q, 0 < x.minWidth :=
      fun x hx => hlower x (List.mem_of_mem_erase hx)
    obtain ⟨hmin, hmax⟩ := zeros_of_lower (List.mem_singleton.2 rfl) hqmax
      (by simpa using hqmin) (hbounded r hr) hrmin
    have hunion := union_suffix hmin hmax hne (fun x hx => .inl (hpositive x hx)) (by
      rintro ⟨x, hx, hzero⟩ -
      have := hpositive x hx
      omega)
    obtain ⟨x, hx, heq⟩ := hunion.min_mem
    have hx := hpositive x hx
    have hadmits : r.Admits (min r.maxWidth
        ((([q] ++ [r] ++ lower.erase q).foldl PendingClear.arm {}).pendingClearMin - 1)) :=
      ⟨fun h => by omega, fun _ => min_le_left _ _⟩
    have hwithin := (h.within horder hunion hr hadmits).1 (by omega)
    omega
  · -- The others have an upper bound, and leave out a width that `q` admits.
    have hpositive : ∀ x ∈ others.erase r, 0 < x.maxWidth := fun x hx => by
      obtain ⟨hmem, hnot⟩ := List.mem_filter.1 (List.mem_of_mem_erase hx)
      have hx := hbounded x hmem
      have hnot : ¬ 0 < x.minWidth := by simpa using hnot
      unfold ClearBounds.Bounded at hx
      omega
    obtain ⟨hmin, hmax⟩ := zeros_of_lower hqmem hqmax hlower (hbounded r hr) hrmin
    have hunion := union_suffix hmin hmax hrest (fun x hx => .inr (hpositive x hx)) (by
      rintro - ⟨x, hx, hzero⟩
      have := hpositive x hx
      omega)
    obtain ⟨x, hx, heq⟩ := hunion.max_mem fun x hx hzero => by
      have := hpositive x hx
      omega
    have hx := hpositive x hx
    have hadmits : q.Admits (max q.minWidth
        (((lower ++ [r] ++ others.erase r).foldl PendingClear.arm {}).pendingClearMax + 1)) :=
      ⟨fun _ => le_max_left _ _, fun h => by omega⟩
    have hwithin := (h.within hperm hunion hq hadmits).2 (by omega)
    omega

theorem compatible_of_good (h : Good requests) : Compatible requests := by
  by_cases hunbounded : ∀ r ∈ requests, ¬ r.Bounded
  · exact .inl hunbounded
  · obtain ⟨q, hq, hbounded⟩ : ∃ q ∈ requests, q.Bounded := by simpa using hunbounded
    have hall : ∀ r ∈ requests, r.Bounded := fun r hr => by
      by_contra hnot
      exact not_mixed h hr hq hnot hbounded
    exact .inr ⟨hall, noReset_of_good h hall, sameSign_of_good h hall⟩

end AddUp

/-! ### Requests of draws -/

section Requests
variable {E D : Type} {doesEntryMatch : ElementGroupOverride E → D → Bool}
  {overrides : List (ElementGroupOverride E)}

theorem exists_perm_draws {draws : List D} {order : List ClearBounds}
    (h : order.Perm (clearRequests doesEntryMatch overrides draws)) :
    ∃ draws', draws'.Perm draws ∧ clearRequests doesEntryMatch overrides draws' = order := by
  induction draws generalizing order with
  | nil =>
    have hnil : order = [] := h.eq_nil
    exact ⟨[], List.Perm.refl _, hnil.symm⟩
  | cons draw draws ih =>
    unfold clearRequests at h
    rw [List.filterMap_cons] at h
    cases hrequest : clearRequest doesEntryMatch overrides draw with
    | none =>
      rw [hrequest] at h
      obtain ⟨draws', hperm, heq⟩ := ih h
      refine ⟨draw :: draws', hperm.cons draw, ?_⟩
      unfold clearRequests at heq ⊢
      rw [List.filterMap_cons, hrequest]
      exact heq
    | some r =>
      rw [hrequest] at h
      have hmem : r ∈ order := h.mem_iff.2 List.mem_cons_self
      obtain ⟨before, after, rfl⟩ := List.append_of_mem hmem
      have hrest := List.Perm.cons_inv (List.perm_middle.symm.trans h)
      obtain ⟨draws', hperm, heq⟩ := ih hrest
      unfold clearRequests at heq
      rw [List.filterMap_eq_append_iff] at heq
      obtain ⟨front, back, rfl, hfront, hback⟩ := heq
      refine ⟨front ++ draw :: back, List.perm_middle.trans (hperm.cons draw), ?_⟩
      unfold clearRequests
      rw [List.filterMap_append, List.filterMap_cons, hrequest, hfront, hback]

/-- Requests add up exactly if they are compatible. -/
theorem requests_add_up (doesEntryMatch : ElementGroupOverride E → D → Bool)
    (overrides : List (ElementGroupOverride E)) (history : List (Event D)) (lastWidth : Int)
    (draws : List D) :
    AddUp doesEntryMatch overrides history lastWidth draws ↔
      Compatible (clearRequests doesEntryMatch overrides draws) := by
  constructor
  case mp =>
    intro h
    refine compatible_of_good fun order hperm width hadmits => ?_
    obtain ⟨draws', hdraws, heq⟩ := exists_perm_draws hperm
    rw [← heq, ← clears_eq history lastWidth, h.order draws' hdraws]
    exact h.admitted width hadmits
  case mpr =>
    intro h
    refine ⟨fun width hadmits => ?_, fun draws' hperm width => ?_⟩
    · rw [clears_eq]
      exact clearsFor_admitted h hadmits
    · rw [clears_eq, clears_eq]
      exact clearsFor_order h (hperm.filterMap _) width

end Requests

def sameElement (entry : ElementGroupOverride Nat) (draw : Nat) : Bool := entry.element == draw

/-- Element 0 clears copies of any width, element 1 those of at least 640. -/
def twoOverrides : List (ElementGroupOverride Nat) :=
  [{ element := 0, clearEfb := true, clearEfbWidth := ⟨0, 0⟩ },
    { element := 1, clearEfb := true, clearEfbWidth := ⟨640, 0⟩ }]

theorem unbounded_then_bounded : ¬ AddUp sameElement twoOverrides [] 0 [0, 1] := by
  intro h
  have hclears := h.admitted 320 ⟨⟨0, 0⟩, by decide, by unfold ClearBounds.Admits; decide⟩
  revert hclears
  decide

end DolphinXR.ElementsGroup
