import DolphinXR.VideoCommon.ShaderHunterPaths

/- When the sets of hashes and the list that is scanned give an override one meaning: an override of
   another hash decides nothing, and an override with a condition flag that holds decides what it
   decides without it. Two things stand in the way. A set that does not keep the type of the shader
   finds a draw by a hash of another type; and `fullscreenMono`, `screenPane` and `unitsPerMeter`
   without positive units have a set of another handling or none. Overrides of neither kind are
   faithful. In a list an override that is not faithful does no harm where another one decides
   before it; `Settled` says of a list just when that is so. -/
namespace DolphinXR.ShaderHunter

section Meaning
variable {F : Type} (s : Setting F) (draw : Draw F)

def shouldSkip (all : List (ShaderOverride F)) : Bool :=
  draw.shouldSkipByOverride s.floats (s.tables all)

def handlingOf (all : List (ShaderOverride F)) : HandlingType :=
  draw.getOverrideHandling s.floats (s.tables all)

namespace ShaderOverride

def withFlag (ovr : ShaderOverride F) (flag : String) (inverted : Bool) : ShaderOverride F :=
  { ovr with conditionFlag := flag, conditionInverted := inverted }

def flagHolds (ovr : ShaderOverride F) : Bool := draw.isConditionFlagMatch ovr.conditional

/-- There is a set for the override's handling. -/
def hasSet (floats : Floats F) (ovr : ShaderOverride F) : Bool :=
  match ovr.handling with
  | .skip | .flag | .screenPane => false
  | .unitsPerMeter => floats.positive ovr.unitsPerMeter
  | _ => true

end ShaderOverride

structure Means (all : List (ShaderOverride F)) : Prop where
  /-- An override of another hash changes neither decision. -/
  stranger : ∀ before ovr after, all = before ++ ovr :: after → ovr.hashFamilyMatch = false →
    ovr.hashMatches draw = false →
    shouldSkip s draw all = shouldSkip s draw (before ++ after) ∧
      handlingOf s draw all = handlingOf s draw (before ++ after)
  /-- A condition flag that holds leaves the skip decision. -/
  skipKept : ∀ before ovr after flag inverted, all = before ++ ovr :: after → flag ≠ "" →
    ovr.flagHolds draw = true → (ovr.withFlag flag inverted).flagHolds draw = true →
    shouldSkip s draw (before ++ ovr.withFlag flag inverted :: after) = shouldSkip s draw all
  /-- And the handling, when at most one override applies. -/
  handlingKept : ∀ before ovr after flag inverted, all = before ++ ovr :: after → flag ≠ "" →
    ovr.flagHolds draw = true → (ovr.withFlag flag inverted).flagHolds draw = true →
    (all.filter fun ovr => ovr.isLive s && ovr.applies s draw).length ≤ 1 →
    handlingOf s draw (before ++ ovr.withFlag flag inverted :: after) = handlingOf s draw all

/-- A set of the list has the draw and is asked no later than the set of a handling. -/
def Forestalled (rest : List (ShaderOverride F)) (handling : HandlingType) : Prop :=
  ∃ earlier, rest.any (ShaderOverride.isFast s draw earlier) = true ∧
    fastOrder.idxOf earlier ≤ fastOrder.idxOf handling

def Unasked (rest : List (ShaderOverride F)) : Prop :=
  ∀ handling, rest.any (ShaderOverride.isFast s draw handling) = false

structure Settled (all : List (ShaderOverride F)) : Prop where
  /-- Where a set has the draw by a hash of another type, one that is asked no later has it too, or
      no other has it and the scan finds the same handling. -/
  typed : ∀ before ovr after handling, all = before ++ ovr :: after →
    ovr.isFast s draw handling = true → ovr.hashMatches draw = false →
    Forestalled s draw (before ++ after) handling ∨ Unasked s draw (before ++ after) ∧
      (before ++ after).findSome? (ShaderOverride.scanned s draw) = some handling
  /-- The one override that applies has a set of its own handling where no other set has the draw;
      where another has it, one has it that is asked no later. -/
  known : ∀ before ovr after, all = before ++ ovr :: after → ovr.isLive s = true →
    ovr.isConditional s.floats = false → ovr.hashMatches draw = true →
    (all.filter fun ovr => ovr.isLive s && ovr.applies s draw).length ≤ 1 →
    ovr.handling ≠ .skip → ovr.handling ≠ .flag →
    (Unasked s draw (before ++ after) → ovr.fastHandling s.floats = some ovr.handling) ∧
      (¬ Unasked s draw (before ++ after) → ∀ handling,
        ovr.fastHandling s.floats = some handling → Forestalled s draw (before ++ after) handling)

variable {s draw}

/-! ### The first set that has the draw -/

theorem find?_or_of_le {α : Type} [BEq α] [LawfulBEq α] {p : α → Bool} {x y : α} {l : List α}
    (hy : p y = true) (hmem : y ∈ l) (hle : l.idxOf y ≤ l.idxOf x) :
    (l.find? fun z => p z || z == x) = l.find? p := by
  induction l with
  | nil => cases hmem
  | cons a l ih =>
    rw [List.find?_cons, List.find?_cons]
    cases ha : p a with
    | true => simp
    | false =>
      have hya : a ≠ y := fun h => by rw [h, hy] at ha; cases ha
      have hxa : a ≠ x := by
        rintro rfl
        rw [List.idxOf_cons_self, List.idxOf_cons, beq_false_of_ne hya, cond_false] at hle
        omega
      rw [List.idxOf_cons, List.idxOf_cons, beq_false_of_ne hya, beq_false_of_ne hxa, cond_false,
        cond_false] at hle
      rw [Bool.false_or, beq_false_of_ne hxa]
      exact ih ((List.mem_cons.1 hmem).resolve_left hya.symm) (by omega)

theorem find?_or_of_lt {α : Type} [BEq α] [LawfulBEq α] {p : α → Bool} {x : α} {l : List α}
    (hmem : x ∈ l) (hlt : ∀ y, p y = true → l.idxOf x < l.idxOf y) :
    (l.find? fun z => p z || z == x) = some x := by
  induction l with
  | nil => cases hmem
  | cons a l ih =>
    rw [List.find?_cons]
    by_cases hxa : a = x
    · simp [hxa]
    · have ha : p a = false := by
        by_contra ha
        have hfirst := hlt a (Bool.eq_true_of_not_eq_false ha)
        rw [List.idxOf_cons_self] at hfirst
        omega
      rw [ha, beq_false_of_ne hxa]
      refine ih ((List.mem_cons.1 hmem).resolve_left (Ne.symm hxa)) fun y hy => ?_
      have hya : a ≠ y := fun h => by rw [h, hy] at ha; cases ha
      have hlater := hlt y hy
      rw [List.idxOf_cons, List.idxOf_cons, beq_false_of_ne hya, beq_false_of_ne hxa, cond_false,
        cond_false] at hlater
      omega

def firstSet (s : Setting F) (draw : Draw F) (all : List (ShaderOverride F)) :
    Option HandlingType :=
  fastOrder.find? fun handling => all.any (ShaderOverride.isFast s draw handling)

theorem isFast_iff {ovr : ShaderOverride F} {handling : HandlingType} :
    ovr.isFast s draw handling = true ↔ ovr.isLive s = true ∧ ovr.isConditional s.floats = false ∧
      ovr.fastHandling s.floats = some handling ∧ ovr.isTouched draw = true := by
  simp [ShaderOverride.isFast, and_assoc]

theorem mem_fastOrder_of_isFast {all : List (ShaderOverride F)} {handling : HandlingType}
    (h : all.any (ShaderOverride.isFast s draw handling) = true) : handling ∈ fastOrder := by
  obtain ⟨ovr, -, hfast⟩ := List.any_eq_true.1 h
  exact ShaderOverride.fastHandling_mem (isFast_iff.1 hfast).2.2.1

theorem firstSet_eq_none_iff {all : List (ShaderOverride F)} :
    firstSet s draw all = none ↔ Unasked s draw all := by
  rw [firstSet, List.find?_eq_none]
  refine ⟨fun h handling => ?_, fun h handling _ => by simp [h handling]⟩
  by_contra hany
  have hany := Bool.eq_true_of_not_eq_false hany
  exact h handling (mem_fastOrder_of_isFast hany) hany

section Insert
variable {before after : List (ShaderOverride F)} {ovr : ShaderOverride F}
  {handling : HandlingType}

theorem firstSet_insert (hfast : ovr.isFast s draw handling = true) :
    firstSet s draw (before ++ ovr :: after) = fastOrder.find? fun other =>
      (before ++ after).any (ShaderOverride.isFast s draw other) || other == handling := by
  obtain ⟨hlive, hcond, hset, htouched⟩ := isFast_iff.1 hfast
  have hown (other : HandlingType) : ovr.isFast s draw other = (other == handling) := by
    rw [ShaderOverride.isFast, hlive, hcond, hset, htouched]
    cases handling <;> cases other <;> rfl
  simp only [firstSet, List.any_append, List.any_cons, hown]
  refine congrArg (fastOrder.find? ·) (funext fun other => ?_)
  rw [Bool.or_comm (other == handling), Bool.or_assoc]

theorem firstSet_of_forestalled (hfast : ovr.isFast s draw handling = true)
    (h : Forestalled s draw (before ++ after) handling) :
    firstSet s draw (before ++ ovr :: after) = firstSet s draw (before ++ after) := by
  obtain ⟨earlier, hearlier, hle⟩ := h
  rw [firstSet_insert hfast]
  exact find?_or_of_le hearlier (mem_fastOrder_of_isFast hearlier) hle

theorem firstSet_of_not_forestalled (hfast : ovr.isFast s draw handling = true)
    (h : ¬ Forestalled s draw (before ++ after) handling) :
    firstSet s draw (before ++ ovr :: after) = some handling := by
  rw [firstSet_insert hfast]
  exact find?_or_of_lt (ShaderOverride.fastHandling_mem (isFast_iff.1 hfast).2.2.1)
    fun other hother => Nat.lt_of_not_le fun hle => h ⟨other, hother, hle⟩

theorem firstSet_remove (hfast : ∀ handling, ovr.isFast s draw handling = false) :
    firstSet s draw (before ++ ovr :: after) = firstSet s draw (before ++ after) := by
  simp only [firstSet, List.any_append, List.any_cons, hfast, Bool.false_or]

theorem firstSet_ne {rest : List (ShaderOverride F)} (h : ¬ Forestalled s draw rest handling) :
    firstSet s draw rest ≠ some handling :=
  fun hfirst => h ⟨handling, by simpa using List.find?_some hfirst, Nat.le_refl _⟩

end Insert

/-! ### One override among others -/

section Lists
variable (htool : draw.hunting.textureToolActive = false) {before after : List (ShaderOverride F)}
  {ovr ovr' : ShaderOverride F}
include htool

theorem shouldSkip_congr (h : ovr'.skips s draw = ovr.skips s draw) :
    shouldSkip s draw (before ++ ovr' :: after) = shouldSkip s draw (before ++ ovr :: after) := by
  rw [shouldSkip, shouldSkip, shouldSkip_eq htool, shouldSkip_eq htool]
  simp only [List.any_append, List.any_cons, h]

theorem shouldSkip_remove (h : ovr.skips s draw = false) :
    shouldSkip s draw (before ++ ovr :: after) = shouldSkip s draw (before ++ after) := by
  rw [shouldSkip, shouldSkip, shouldSkip_eq htool, shouldSkip_eq htool]
  simp only [List.any_append, List.any_cons, h, Bool.false_or]

theorem handlingOf_eq (all : List (ShaderOverride F)) :
    handlingOf s draw all =
      ((firstSet s draw all).or (all.findSome? (ShaderOverride.scanned s draw))).getD .skip :=
  handling_eq htool all

theorem handlingOf_congr (hfast : ∀ handling, ovr'.isFast s draw handling =
      ovr.isFast s draw handling) (hscanned : ovr'.scanned s draw = ovr.scanned s draw) :
    handlingOf s draw (before ++ ovr' :: after) = handlingOf s draw (before ++ ovr :: after) := by
  rw [handlingOf_eq htool, handlingOf_eq htool, firstSet, firstSet]
  simp only [List.any_append, List.any_cons, List.findSome?_append, List.findSome?_cons, hfast,
    hscanned]

theorem handlingOf_insert (hscanned : ovr.scanned s draw = none) :
    handlingOf s draw (before ++ ovr :: after) =
      ((firstSet s draw (before ++ ovr :: after)).or
        ((before ++ after).findSome? (ShaderOverride.scanned s draw))).getD .skip := by
  rw [handlingOf_eq htool]
  simp only [List.findSome?_append, List.findSome?_cons, hscanned]

theorem handlingOf_remove (hfast : ∀ handling, ovr.isFast s draw handling = false)
    (hscanned : ovr.scanned s draw = none) :
    handlingOf s draw (before ++ ovr :: after) = handlingOf s draw (before ++ after) := by
  rw [handlingOf_insert htool hscanned, firstSet_remove hfast, handlingOf_eq htool]

theorem handlingOf_remove_iff {handling : HandlingType}
    (hfast : ovr.isFast s draw handling = true) :
    handlingOf s draw (before ++ ovr :: after) = handlingOf s draw (before ++ after) ↔
      Forestalled s draw (before ++ after) handling ∨ Unasked s draw (before ++ after) ∧
        (before ++ after).findSome? (ShaderOverride.scanned s draw) = some handling := by
  have hset := isFast_iff.1 hfast
  have hscanned : ovr.scanned s draw = none := by simp [ShaderOverride.scanned, hset.2.1]
  rw [handlingOf_insert htool hscanned, handlingOf_eq htool]
  by_cases hforestalled : Forestalled s draw (before ++ after) handling
  · rw [firstSet_of_forestalled hfast hforestalled]
    exact iff_of_true rfl (.inl hforestalled)
  · rw [firstSet_of_not_forestalled hfast hforestalled, ← firstSet_eq_none_iff]
    change handling = _ ↔ _
    rw [or_iff_right hforestalled]
    cases hfirst : firstSet s draw (before ++ after) with
    | none =>
      rw [Option.none_or, eq_self, true_and]
      cases (before ++ after).findSome? (ShaderOverride.scanned s draw) with
      | none =>
        refine iff_of_false (fun hskip : handling = .skip => ?_) (by simp)
        have hmem := ShaderOverride.fastHandling_mem hset.2.2.1
        rw [hskip] at hmem
        exact absurd hmem (by decide)
      | some found => exact eq_comm.trans Option.some_inj.symm
    | some first =>
      refine iff_of_false (fun hsame : handling = first => ?_) (by simp)
      exact firstSet_ne hforestalled (hsame ▸ hfirst)

end Lists

section Flag
variable {ovr : ShaderOverride F} {flag : String} {inverted : Bool}

theorem withFlag_isConditional (hflag : flag ≠ "") :
    (ovr.withFlag flag inverted).isConditional s.floats = true := by
  simp [ShaderOverride.isConditional, ShaderOverride.withFlag, hflag]

theorem withFlag_applies (hold : ovr.flagHolds draw = true)
    (hnew : (ovr.withFlag flag inverted).flagHolds draw = true) :
    (ovr.withFlag flag inverted).applies s draw = ovr.applies s draw := by
  unfold ShaderOverride.flagHolds at hold hnew
  unfold ShaderOverride.applies Draw.matchesConditional
  rw [hold, hnew]
  rfl

theorem withFlag_skips (hold : ovr.flagHolds draw = true)
    (hnew : (ovr.withFlag flag inverted).flagHolds draw = true) :
    (ovr.withFlag flag inverted).skips s draw = ovr.skips s draw := by
  unfold ShaderOverride.skips
  rw [withFlag_applies hold hnew]
  rfl

theorem withFlag_flagHolds (ovr : ShaderOverride F) (hflag : flag ≠ "") :
    (ovr.withFlag flag (!draw.isFlagActiveLocked flag)).flagHolds draw = true := by
  unfold ShaderOverride.flagHolds Draw.isConditionFlagMatch
  change (if flag = "" then true else _) = true
  rw [if_neg hflag]
  change (if (!draw.isFlagActiveLocked flag) = true then !draw.isFlagActiveLocked flag
    else draw.isFlagActiveLocked flag) = true
  cases draw.isFlagActiveLocked flag <;> rfl

theorem flagHolds_of_unconditional {ovr : ShaderOverride F}
    (hcond : ovr.isConditional s.floats = false) : ovr.flagHolds draw = true := by
  unfold ShaderOverride.isConditional at hcond
  simp only [Bool.or_eq_false_iff, bne_eq_false_iff_eq] at hcond
  unfold ShaderOverride.flagHolds Draw.isConditionFlagMatch
  exact if_pos hcond.1.1.1.1

end Flag

/-! ### The lists that are settled -/

theorem others_of_length {p : ShaderOverride F → Bool} {before after : List (ShaderOverride F)}
    {ovr : ShaderOverride F} (hlength : ((before ++ ovr :: after).filter p).length ≤ 1)
    (hovr : p ovr = true) : ∀ other ∈ before ++ after, p other = false := by
  rw [List.filter_append, List.filter_cons_of_pos hovr, List.length_append,
    List.length_cons] at hlength
  have hbefore : before.filter p = [] := List.length_eq_zero_iff.1 (by omega)
  have hafter : after.filter p = [] := List.length_eq_zero_iff.1 (by omega)
  rw [List.filter_eq_nil_iff] at hbefore hafter
  intro other hmem
  exact Bool.eq_false_iff.2 ((List.mem_append.1 hmem).elim (hbefore other) (hafter other))

theorem findSome?_scanned_of_not_applies {rest : List (ShaderOverride F)}
    (h : ∀ other ∈ rest, (other.isLive s && other.applies s draw) = false) :
    rest.findSome? (ShaderOverride.scanned s draw) = none := by
  refine List.findSome?_eq_none_iff.2 fun other hmem => ?_
  have hother := h other hmem
  rw [ShaderOverride.scanned, if_neg]
  simp only [Bool.and_eq_true, not_and, Bool.and_eq_false_iff] at hother ⊢
  rintro ⟨⟨hlive, -⟩, -⟩ - happlies
  simp_all

section Agree
variable {all before after : List (ShaderOverride F)} {ovr : ShaderOverride F}
  (htool : draw.hunting.textureToolActive = false)
include htool

theorem handlingOf_withFlag_iff (hlive : ovr.isLive s = true)
    (hcond : ovr.isConditional s.floats = false) (hmatches : ovr.hashMatches draw = true)
    (hothers : ∀ other ∈ before ++ after, (other.isLive s && other.applies s draw) = false)
    (hskip : ovr.handling ≠ .skip) (hflagKind : ovr.handling ≠ .flag) {flag : String}
    {inverted : Bool} (hflag : flag ≠ "")
    (hnew : (ovr.withFlag flag inverted).flagHolds draw = true) :
    handlingOf s draw (before ++ ovr.withFlag flag inverted :: after) =
        handlingOf s draw (before ++ ovr :: after) ↔
      (Unasked s draw (before ++ after) → ovr.fastHandling s.floats = some ovr.handling) ∧
        (¬ Unasked s draw (before ++ after) → ∀ handling,
          ovr.fastHandling s.floats = some handling →
            Forestalled s draw (before ++ after) handling) := by
  have hnone := findSome?_scanned_of_not_applies hothers
  have happlies : (ovr.withFlag flag inverted).applies s draw = true := by
    rw [withFlag_applies (flagHolds_of_unconditional hcond) hnew,
      ShaderOverride.applies_of_unconditional hcond, hmatches]
  -- With the flag the override is scanned, and found unless a set has the draw.
  have hwith : handlingOf s draw (before ++ ovr.withFlag flag inverted :: after) =
      (firstSet s draw (before ++ after)).getD ovr.handling := by
    have hcond' : (ovr.withFlag flag inverted).isConditional s.floats = true :=
      withFlag_isConditional hflag
    have hscanned : (ovr.withFlag flag inverted).scanned s draw = some ovr.handling := by
      have hlive' : (ovr.withFlag flag inverted).isLive s = true := hlive
      have hskip' : decide ((ovr.withFlag flag inverted).handling ≠ .skip) = true :=
        decide_eq_true hskip
      have hflagKind' : decide ((ovr.withFlag flag inverted).handling ≠ .flag) = true :=
        decide_eq_true hflagKind
      rw [ShaderOverride.scanned, hlive', hcond', hskip', hflagKind', happlies]
      rfl
    rw [handlingOf_eq htool, firstSet_remove fun handling => by
      simp [ShaderOverride.isFast, hcond']]
    rw [List.findSome?_append, Option.or_eq_none_iff] at hnone
    rw [List.findSome?_append, List.findSome?_cons, hscanned, hnone.1]
    cases firstSet s draw (before ++ after) <;> rfl
  have hwithout : handlingOf s draw (before ++ ovr :: after) = _ :=
    handlingOf_insert htool (by simp [ShaderOverride.scanned, hcond])
  rw [hwith, hwithout, hnone, Option.or_none]
  cases hset : ovr.fastHandling s.floats with
  | none =>
    rw [firstSet_remove fun handling => by simp [ShaderOverride.isFast, hset],
      ← firstSet_eq_none_iff]
    cases firstSet s draw (before ++ after) with
    | none => simpa using hskip
    | some first => simp
  | some handling =>
    have hfast : ovr.isFast s draw handling = true :=
      isFast_iff.2 ⟨hlive, hcond, hset, ShaderOverride.isTouched_of_hashMatches hmatches⟩
    by_cases hforestalled : Forestalled s draw (before ++ after) handling
    · have hasked : ¬ Unasked s draw (before ++ after) := fun h => by
        obtain ⟨earlier, hearlier, -⟩ := hforestalled
        rw [h earlier] at hearlier
        cases hearlier
      rw [firstSet_of_forestalled hfast hforestalled]
      have hfirst := mt firstSet_eq_none_iff.1 hasked
      refine iff_of_true ?_ ⟨fun h => absurd h hasked, fun _ other hother => ?_⟩
      · cases hsome : firstSet s draw (before ++ after) with
        | none => exact absurd hsome hfirst
        | some first => rfl
      · exact Option.some_inj.1 hother ▸ hforestalled
    · rw [firstSet_of_not_forestalled hfast hforestalled]
      by_cases hasked : Unasked s draw (before ++ after)
      · rw [firstSet_eq_none_iff.2 hasked]
        simp only [Option.getD_none, Option.getD_some, hasked, not_true, false_imp_iff,
          true_imp_iff, and_true, Option.some_inj]
        exact eq_comm
      · have hfirst := mt firstSet_eq_none_iff.1 hasked
        obtain ⟨first, hfirst⟩ := Option.ne_none_iff_exists'.1 hfirst
        rw [hfirst]
        refine iff_of_false (fun hsame : first = handling => ?_) fun h => ?_
        · exact firstSet_ne hforestalled (hsame ▸ hfirst)
        · exact hforestalled (h.2 hasked handling rfl)

theorem handlingOf_withFlag_of_out {flag : String} {inverted : Bool} (hflag : flag ≠ "")
    (hfast : ∀ handling, ovr.isFast s draw handling = false) (hscanned : ovr.scanned s draw = none)
    (hscanned' : (ovr.withFlag flag inverted).scanned s draw = none) :
    handlingOf s draw (before ++ ovr.withFlag flag inverted :: after) =
      handlingOf s draw (before ++ ovr :: after) := by
  have hcond : (ovr.withFlag flag inverted).isConditional s.floats = true :=
    withFlag_isConditional hflag
  rw [handlingOf_remove htool hfast hscanned, handlingOf_remove htool (fun handling => ?_) hscanned']
  simp [ShaderOverride.isFast, hcond]

theorem Settled.means (h : Settled s draw all) : Means s draw all where
  stranger before ovr after hall hfamily hmatches := by
    subst hall
    have happlies : ovr.applies s draw = false := ShaderOverride.not_applies hfamily hmatches
    refine ⟨shouldSkip_remove htool (by simp [ShaderOverride.skips, happlies]), ?_⟩
    by_cases hfast : ∃ handling, ovr.isFast s draw handling = true
    · obtain ⟨handling, hfast⟩ := hfast
      exact (handlingOf_remove_iff htool hfast).2 (h.typed _ _ _ _ rfl hfast hmatches)
    · exact handlingOf_remove htool (fun handling => Bool.eq_false_iff.2 fun hset =>
        hfast ⟨handling, hset⟩) (by simp [ShaderOverride.scanned, happlies])
  skipKept before ovr after flag inverted hall hflag hold hnew := by
    subst hall
    exact shouldSkip_congr htool (withFlag_skips hold hnew)
  handlingKept before ovr after flag inverted hall hflag hold hnew hlength := by
    subst hall
    have hcond' : (ovr.withFlag flag inverted).isConditional s.floats = true :=
      withFlag_isConditional hflag
    have happlies' := withFlag_applies (s := s) hold hnew
    cases hlive : ovr.isLive s with
    | false =>
      have hlive' : (ovr.withFlag flag inverted).isLive s = false := hlive
      exact handlingOf_withFlag_of_out htool hflag
        (fun handling => by simp [ShaderOverride.isFast, hlive])
        (by simp [ShaderOverride.scanned, hlive]) (by simp [ShaderOverride.scanned, hlive'])
    | true =>
      cases hcond : ovr.isConditional s.floats with
      | true =>
        refine handlingOf_congr htool (fun handling => ?_) ?_
        · rw [ShaderOverride.isFast, ShaderOverride.isFast, hcond, hcond']
          simp
        · rw [ShaderOverride.scanned, ShaderOverride.scanned, hcond, hcond', happlies']
          rfl
      | false =>
        have happlies : ovr.applies s draw = _ := ShaderOverride.applies_of_unconditional hcond
        have hscanned : ovr.scanned s draw = none := by simp [ShaderOverride.scanned, hcond]
        cases hmatches : ovr.hashMatches draw with
        | false =>
          -- Alone it would be a stranger, and with the flag it is neither in a set nor scanned.
          rw [happlies, hmatches] at happlies'
          rw [handlingOf_remove htool (fun handling => by simp [ShaderOverride.isFast, hcond'])
            (by simp [ShaderOverride.scanned, happlies'])]
          by_cases hfast : ∃ handling, ovr.isFast s draw handling = true
          · obtain ⟨handling, hfast⟩ := hfast
            exact ((handlingOf_remove_iff htool hfast).2 (h.typed _ _ _ _ rfl hfast hmatches)).symm
          · exact (handlingOf_remove htool (fun handling => Bool.eq_false_iff.2 fun hset =>
              hfast ⟨handling, hset⟩) hscanned).symm
        | true =>
          by_cases hplace : ovr.handling = .skip ∨ ovr.handling = .flag
          · -- Neither a set nor the scan has a place for it.
            have hset : ovr.fastHandling s.floats = none := by
              unfold ShaderOverride.fastHandling
              obtain h | h := hplace <;> rw [h]
            refine handlingOf_withFlag_of_out htool hflag
              (fun handling => by simp [ShaderOverride.isFast, hset]) hscanned ?_
            rw [ShaderOverride.scanned]
            change (if _ && _ && decide (ovr.handling ≠ .flag) &&
              (decide (ovr.handling ≠ .skip) && _) then _ else _) = _
            obtain h | h := hplace <;> simp [h]
          · obtain ⟨hskip, hflagKind⟩ := not_or.1 hplace
            have hothers := others_of_length hlength
              (by rw [hlive, happlies, hmatches]; rfl)
            exact (handlingOf_withFlag_iff htool hlive hcond hmatches hothers hskip hflagKind hflag
              hnew).2 (h.known _ _ _ rfl hlive hcond hmatches hlength hskip hflagKind)

theorem Means.settled (h : Means s draw all) : Settled s draw all where
  typed before ovr after handling hall hfast hmatches := by
    have hfamily : ovr.hashFamilyMatch = false := by
      have hcond := (isFast_iff.1 hfast).2.1
      unfold ShaderOverride.isConditional at hcond
      simp only [Bool.or_eq_false_iff] at hcond
      exact hcond.1.1.2
    have hsame := (h.stranger before ovr after hall hfamily hmatches).2
    rw [hall] at hsame
    exact (handlingOf_remove_iff htool hfast).1 hsame
  known before ovr after hall hlive hcond hmatches hlength hskip hflagKind := by
    have hflag : "flag" ≠ "" := by decide
    have hnew : (ovr.withFlag "flag" _).flagHolds draw = true := withFlag_flagHolds ovr hflag
    have hsame := h.handlingKept before ovr after "flag" _ hall hflag
      (flagHolds_of_unconditional hcond) hnew hlength
    rw [hall] at hsame hlength
    have happlies : (ovr.isLive s && ovr.applies s draw) = true := by
      rw [hlive, ShaderOverride.applies_of_unconditional hcond, hmatches]
      rfl
    exact (handlingOf_withFlag_iff htool hlive hcond hmatches (others_of_length hlength happlies)
      hskip hflagKind hflag hnew).1 hsame

end Agree

/-- What an unconditional override has to be for the sets to keep its meaning. -/
structure Faithful (s : Setting F) (draw : Draw F) (ovr : ShaderOverride F) : Prop where
  /-- Where one of the draw's hashes is the override's, so is that of its type. -/
  typed : ovr.hasSet s.floats = true → ovr.isTouched draw = true → ovr.hashMatches draw = true
  /-- Where it matches, its handling is one that the sets know. -/
  known : ovr.hashMatches draw = true → ovr.handling ≠ .fullscreenMono ∧
    ovr.handling ≠ .screenPane ∧
    (ovr.handling = .unitsPerMeter → s.floats.positive ovr.unitsPerMeter = true)

def AllFaithful (s : Setting F) (draw : Draw F) (all : List (ShaderOverride F)) : Prop :=
  ∀ ovr ∈ all, ovr.isLive s = true → ovr.isConditional s.floats = false → Faithful s draw ovr

/-- A list means the same on both paths for a draw exactly when every override that does not is
    forestalled by others. -/
theorem override_paths_agree (s : Setting F) (draw : Draw F)
    (htool : draw.hunting.textureToolActive = false) (all : List (ShaderOverride F)) :
    Means s draw all ↔ Settled s draw all :=
  ⟨Means.settled htool, Settled.means htool⟩

end Meaning

/-! ### A hash of another type -/

def natFloats : Floats Nat where
  positive x := decide (0 < x)
  le x y := decide (x ≤ y)

def someGame : Setting Nat where
  floats := natFloats
  suppressed _ := false
  gameId := "GALE01"

/-- An override without conditions that puts a draw on the screen. -/
def screenOverride (hash : Hash) : ShaderOverride Nat where
  name := "menu"
  hash := hash
  type := .pixel
  handling := .screen
  unitsPerMeter := 0
  minDepth := 0
  maxDepth := 0

/-- A draw of the vertex shader 1 and the pixel shader 2. -/
def someDraw : Draw Nat where
  vsHash := 1
  psHash := 2
  gsHash := 3
  vsFamily := 0
  psFamily := 0
  gsFamily := 0
  textures := []
  depth := none
  flagAge := []
  patchFlags := []
  shaderFamilySignatures _ _ := none
  hunting :=
    { enabled := false
      textureToolActive := false
      activeType := .pixel
      selectedPos := fun _ => -1
      selectedHash := fun _ => 0
      matchMode := .exactHash }

/-- The pixel shader 1 is not the draw's, but the vertex shader 1 is. -/
theorem pixelHash_of_vertexShader :
    (screenOverride 1).enabled = true ∧ someDraw.hunting.textureToolActive = false ∧
      ¬ Means someGame someDraw [screenOverride 1] := by
  refine ⟨rfl, rfl, fun h => ?_⟩
  have hsame := (h.stranger [] (screenOverride 1) [] rfl rfl (by decide)).2
  revert hsame
  decide

theorem pair_eq_append {α : Type} {x y ovr : α} {before after : List α}
    (h : [x, y] = before ++ ovr :: after) :
    before = [] ∧ ovr = x ∧ after = [y] ∨ before = [x] ∧ ovr = y ∧ after = [] := by
  rcases before with - | ⟨b, - | ⟨c, before⟩⟩
  all_goals simp_all

/-- Next to an override that puts the draw on the screen, the hash of the vertex shader does no
    harm, though it is that of another type. -/
theorem override_paths_agree_twoScreens :
    Means someGame someDraw [screenOverride 1, screenOverride 2] ∧
      ¬ AllFaithful someGame someDraw [screenOverride 1, screenOverride 2] := by
  have hforestalled : Forestalled someGame someDraw [screenOverride 2] .screen :=
    ⟨.screen, by decide, by decide⟩
  have hforestalled' : Forestalled someGame someDraw [screenOverride 1] .screen :=
    ⟨.screen, by decide, by decide⟩
  have hsettled : Settled someGame someDraw [screenOverride 1, screenOverride 2] := by
    refine ⟨fun before ovr after handling hall hfast hmatches => ?_,
      fun before ovr after hall _ _ hmatches _ _ _ => ?_⟩
    · rcases pair_eq_append hall with ⟨rfl, rfl, rfl⟩ | ⟨rfl, rfl, rfl⟩
      · obtain rfl : .screen = handling := Option.some.inj (isFast_iff.1 hfast).2.2.1
        exact .inl hforestalled
      · cases hmatches
    · rcases pair_eq_append hall with ⟨rfl, rfl, rfl⟩ | ⟨rfl, rfl, rfl⟩
      · cases hmatches
      · refine ⟨fun _ => rfl, fun _ handling hset => ?_⟩
        obtain rfl : .screen = handling := Option.some.inj hset
        exact hforestalled'
  refine ⟨(override_paths_agree someGame someDraw rfl _).2 hsettled, fun hfaithful => ?_⟩
  have htyped := (hfaithful (screenOverride 1) List.mem_cons_self rfl rfl).typed rfl rfl
  revert htyped
  decide

end DolphinXR.ShaderHunter
