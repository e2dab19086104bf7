import Mathlib.Data.BitVec

/- Scratch blocks for VR patches (Core/VRPatch/GeckoRegion.cpp). A block is looked for from the top
   down; a candidate that overlaps ranges in use gives way to the lowest of them. No admissible
   block is jumped over, because each one that lies below the candidate's top lies below every range
   that the candidate overlaps. -/
namespace DolphinXR.VRPatch

abbrev Address := BitVec 32

def scratchTop : Address := 0x80002FF8#32

def scratchFloor : Address := 0x80002800#32

def maxScratchBytes : Address := scratchTop - scratchFloor

def scratchAlignment : Address := 16#32

structure AddressRange where
  start : Address
  stop : Address
  deriving DecidableEq

def AddressRange.overlaps (range other : AddressRange) : Bool :=
  decide (range.start < other.stop) && decide (other.start < range.stop)

/-- One range of the inner loop: the lowest start of an overlapping range so far, and whether there
    has been one. -/
def noteOverlap (candidate : AddressRange) (found : Address × Bool) (range : AddressRange) :
    Address × Bool :=
  if candidate.overlaps range then
    (if range.start < found.1 then range.start else found.1, true)
  else
    found

def lowestOverlap (candidate : AddressRange) (top : Address) (used : List AddressRange) :
    Address × Bool :=
  used.foldl (noteOverlap candidate) (top, false)

/-- The loop of `AllocateScratch`, for as many rounds as are given. -/
def allocateLoop (used : List AddressRange) (size : Address) :
    Nat → Address → Option (Option Address)
  | 0, _ => none
  | rounds + 1, top =>
    if top ≥ scratchFloor + size then
      let base := (top - size) &&& ~~~(scratchAlignment - 1)
      if base < scratchFloor then
        some none
      else
        let found := lowestOverlap ⟨base, base + size⟩ top used
        if !found.2 then
          some (some base)
        else if found.1 ≥ top then
          some none
        else
          allocateLoop used size rounds found.1
    else
      some none

def allocateScratch (rounds : Nat) (used : List AddressRange) (size : Address) :
    Option (Option Address) :=
  if size = 0 ∨ size > maxScratchBytes then some none
  else allocateLoop used size rounds scratchTop

/-! The range arithmetic. -/

section
variable {used : List AddressRange} {size top base : Address} {range : AddressRange}

theorem overlaps_iff (hwrap : base.toNat + size.toNat < 2 ^ 32) :
    AddressRange.overlaps ⟨base, base + size⟩ range = true ↔
      base.toNat < range.stop.toNat ∧ range.start.toNat < base.toNat + size.toNat := by
  have hsum : (base + size).toNat = base.toNat + size.toNat := by
    rw [BitVec.toNat_add, Nat.mod_eq_of_lt hwrap]
  rw [AddressRange.overlaps, Bool.and_eq_true, decide_eq_true_eq, decide_eq_true_eq,
    BitVec.lt_def, BitVec.lt_def, hsum]

theorem toNat_alignDown (x : Address) :
    (x &&& ~~~(scratchAlignment - 1)).toNat = x.toNat / 16 * 16 := by
  have hmask : ~~~(scratchAlignment - 1) = BitVec.allOnes 32 <<< 4 := by decide
  have hx := x.isLt
  have hsplit : x &&& ~~~(scratchAlignment - 1) = (x >>> 4) <<< 4 := by
    rw [hmask]
    ext i hi
    simp only [BitVec.getElem_and, BitVec.getElem_shiftLeft, BitVec.getElem_ushiftRight,
      BitVec.getElem_allOnes]
    by_cases h : i < 4
    · simp [h]
    · simp [h, BitVec.getLsbD_eq_getElem hi, Nat.add_sub_cancel' (Nat.le_of_not_lt h)]
  rw [hsplit, BitVec.toNat_shiftLeft, BitVec.toNat_ushiftRight, Nat.shiftLeft_eq,
    Nat.shiftRight_eq_div_pow, Nat.mod_eq_of_lt]
  omega

theorem foldl_noteOverlap (candidate : AddressRange) (used : List AddressRange)
    (found : Address × Bool) :
    ((used.foldl (noteOverlap candidate) found).2 = false ↔
      found.2 = false ∧ ∀ range ∈ used, candidate.overlaps range = false) ∧
    ((used.foldl (noteOverlap candidate) found).1 = found.1 ∨
      ∃ range ∈ used, candidate.overlaps range = true ∧
        (used.foldl (noteOverlap candidate) found).1 = range.start) ∧
    (used.foldl (noteOverlap candidate) found).1 ≤ found.1 ∧
    ∀ range ∈ used, candidate.overlaps range = true →
      (used.foldl (noteOverlap candidate) found).1 ≤ range.start := by
  induction used generalizing found with
  | nil => simp
  | cons range used ih =>
    obtain ⟨hnone, hfrom, hle, hall⟩ := ih (noteOverlap candidate found range)
    rw [List.foldl_cons]
    cases hover : candidate.overlaps range with
    | false =>
      have hnote : noteOverlap candidate found range = found := by rw [noteOverlap, hover]; rfl
      rw [hnote] at hnone hfrom hle hall ⊢
      refine ⟨?_, ?_, hle, ?_⟩
      · simp [hnone, hover]
      · exact hfrom.imp_right fun ⟨r, hr, h⟩ => ⟨r, List.mem_cons_of_mem _ hr, h⟩
      · intro r hr hr'
        rcases List.mem_cons.1 hr with rfl | hr
        · exact absurd (hover.symm.trans hr') Bool.false_ne_true
        · exact hall r hr hr'
    | true =>
      have hnote : noteOverlap candidate found range =
          (if range.start < found.1 then range.start else found.1, true) := by
        rw [noteOverlap, hover]
        rfl
      rw [hnote] at hnone hfrom hle hall ⊢
      have hmin : (if range.start < found.1 then range.start else found.1) ≤ found.1 ∧
          (if range.start < found.1 then range.start else found.1) ≤ range.start := by
        split
        · rename_i hlt
          exact ⟨BitVec.le_of_lt hlt, BitVec.le_refl _⟩
        · rename_i hge
          exact ⟨BitVec.le_refl _, BitVec.not_lt.1 hge⟩
      refine ⟨?_, ?_, BitVec.le_trans hle hmin.1, ?_⟩
      · simp [hnone, hover]
      · rcases hfrom with hfrom | ⟨r, hr, h⟩
        · rw [hfrom]
          dsimp only
          split
          · exact .inr ⟨range, List.mem_cons_self, hover, rfl⟩
          · exact .inl rfl
        · exact .inr ⟨r, List.mem_cons_of_mem _ hr, h⟩
      · intro r hr hr'
        rcases List.mem_cons.1 hr with rfl | hr
        · exact BitVec.le_trans hle hmin.2
        · exact hall r hr hr'

/-! The search. -/

/-- A block that may be handed out: aligned, between the floor and the top, without an address of
    the ranges in use. -/
structure Admissible (used : List AddressRange) (size base : Address) : Prop where
  aligned : 16 ∣ base.toNat
  floor : scratchFloor.toNat ≤ base.toNat
  top : base.toNat + size.toNat ≤ scratchTop.toNat
  free : ∀ range ∈ used, ∀ address, base.toNat ≤ address → address < base.toNat + size.toNat →
    ¬(range.start.toNat ≤ address ∧ address < range.stop.toNat)

theorem exists_common_iff {a b c d : Nat} (hab : a < b) (hcd : c < d) :
    (∃ x, (a ≤ x ∧ x < b) ∧ c ≤ x ∧ x < d) ↔ a < d ∧ c < b := by
  constructor
  · rintro ⟨x, hx⟩
    omega
  · intro h
    exact ⟨max a c, by omega⟩

def NonEmpty (used : List AddressRange) : Prop := ∀ range ∈ used, range.start.toNat < range.stop.toNat

theorem Admissible.below_of_overlaps {b : Address} (h : Admissible used size b)
    (hused : NonEmpty used) (hsize : 0 < size.toNat) (hle : b.toNat ≤ base.toNat)
    (hrange : range ∈ used)
    (hover : base.toNat < range.stop.toNat ∧ range.start.toNat < base.toNat + size.toNat) :
    b.toNat + size.toNat ≤ range.start.toNat := by
  by_contra hlt
  obtain ⟨x, hx, hin⟩ := (exists_common_iff (a := b.toNat) (b := b.toNat + size.toNat) (by omega)
    (hused range hrange)).2 (by omega)
  exact h.free range hrange x hx.1 hx.2 hin

def Below (used : List AddressRange) (size top : Address) : Prop :=
  ∀ b, Admissible used size b → b.toNat + size.toNat ≤ top.toNat

def Answers (used : List AddressRange) (size : Address) : Option Address → Prop
  | some base => Admissible used size base ∧ ∀ b, Admissible used size b → b.toNat ≤ base.toNat
  | none => ∀ b, ¬Admissible used size b

theorem allocateLoop_spec (hused : NonEmpty used) (hsize : 0 < size.toNat)
    (hmax : size.toNat ≤ maxScratchBytes.toNat) (rounds : Nat) (htop : top.toNat ≤ scratchTop.toNat)
    (hbelow : Below used size top) (hrounds : top.toNat < rounds) :
    ∃ answer, allocateLoop used size rounds top = some answer ∧ Answers used size answer := by
  induction rounds generalizing top with
  | zero => exact absurd hrounds (Nat.not_lt_zero _)
  | succ rounds ih =>
    have hfloor : scratchFloor.toNat = 2147493888 := rfl
    have htop' : scratchTop.toNat = 2147495928 := rfl
    have hmax' : maxScratchBytes.toNat = 2040 := rfl
    have hsum : (scratchFloor + size).toNat = scratchFloor.toNat + size.toNat := by
      rw [BitVec.toNat_add, Nat.mod_eq_of_lt (by omega)]
    rw [allocateLoop]
    by_cases hroom : top ≥ scratchFloor + size
    · rw [if_pos hroom]
      have hroom' : scratchFloor.toNat + size.toNat ≤ top.toNat := hsum ▸ hroom
      have hsub : (top - size).toNat = top.toNat - size.toNat :=
        BitVec.toNat_sub_of_le (BitVec.le_def.2 (by omega))
      generalize hbase : (top - size) &&& ~~~(scratchAlignment - 1) = base
      have hbase' : base.toNat = (top.toNat - size.toNat) / 16 * 16 := by
        rw [← hbase, toNat_alignDown, hsub]
      -- the candidate is the highest aligned block below the top
      have hhighest : ∀ b, Admissible used size b → b.toNat ≤ base.toNat := by
        intro b hb
        have hend := hbelow b hb
        obtain ⟨k, hk⟩ := hb.aligned
        omega
      by_cases hlow : base < scratchFloor
      · rw [if_pos hlow]
        refine ⟨none, rfl, fun b hb => ?_⟩
        exact absurd (hb.floor.trans (hhighest b hb)) (Nat.not_le.2 hlow)
      · rw [if_neg hlow]
        have hwrap : base.toNat + size.toNat < 2 ^ 32 := by omega
        obtain ⟨hnone, hfrom, hle, hall⟩ :=
          foldl_noteOverlap ⟨base, base + size⟩ used (top, false)
        change ∃ answer, (if !(lowestOverlap ⟨base, base + size⟩ top used).2 then _ else _) =
          some answer ∧ _
        rw [lowestOverlap]
        generalize used.foldl (noteOverlap ⟨base, base + size⟩) (top, false) = found at *
        obtain ⟨lowest, overlaps⟩ := found
        cases overlaps with
        | false =>
          refine ⟨some base, rfl, ⟨?_, ?_, ?_, ?_⟩, hhighest⟩
          · exact ⟨_, by rw [hbase', Nat.mul_comm]⟩
          · exact BitVec.not_lt.1 hlow
          · omega
          · intro range hrange address hstart hstop hin
            have hover := (hnone.1 rfl).2 range hrange
            rw [Bool.eq_false_iff, ne_eq, overlaps_iff hwrap] at hover
            omega
        | true =>
          have hsome : ∃ range ∈ used, AddressRange.overlaps ⟨base, base + size⟩ range = true := by
            by_contra hnot
            refine Bool.false_ne_true (hnone.2 ⟨rfl, fun range hrange => ?_⟩).symm
            exact Bool.eq_false_iff.2 fun hover => hnot ⟨range, hrange, hover⟩
          obtain ⟨range, hrange, hover⟩ := hsome
          have hlt : lowest.toNat < top.toNat := by
            have hstart : lowest.toNat ≤ range.start.toNat := hall range hrange hover
            have := ((overlaps_iff hwrap).1 hover).2
            omega
          have hnext : Below used size lowest := by
            intro b hb
            rcases hfrom with hfrom | ⟨r, hr, hr', hfrom⟩
            · exact absurd (congrArg BitVec.toNat hfrom) hlt.ne
            · rw [show lowest = r.start from hfrom]
              exact hb.below_of_overlaps hused hsize (hhighest b hb) hr ((overlaps_iff hwrap).1 hr')
          obtain ⟨answer, hloop, hanswer⟩ := ih (by omega) hnext (by omega)
          refine ⟨answer, ?_, hanswer⟩
          have hnot : ¬lowest ≥ top := Nat.not_le.2 hlt
          simp only [Bool.not_true, Bool.false_eq_true, if_false, if_neg hnot]
          exact hloop
    · rw [if_neg hroom]
      refine ⟨none, rfl, fun b hb => ?_⟩
      have hend := hbelow b hb
      have hstart := hb.floor
      have hlt : top.toNat < scratchFloor.toNat + size.toNat := hsum ▸ Nat.not_le.1 hroom
      omega

theorem allocateLoop_more {rounds : Nat} {answer : Option Address}
    (h : allocateLoop used size rounds top = some answer) {more : Nat} (hmore : rounds ≤ more) :
    allocateLoop used size more top = some answer := by
  induction rounds generalizing top more with
  | zero => cases h
  | succ rounds ih =>
    obtain ⟨more, rfl⟩ := Nat.exists_eq_add_of_le' (Nat.le_trans (Nat.le_add_left 1 rounds) hmore)
    rw [allocateLoop] at h ⊢
    split at h
    · rename_i hroom
      rw [if_pos hroom]
      dsimp only at h ⊢
      split at h
      · rename_i hlow
        rw [if_pos hlow]
        exact h
      · rename_i hlow
        rw [if_neg hlow]
        split at h
        · rename_i hnone
          rw [if_pos hnone]
          exact h
        · rename_i hsome
          rw [if_neg hsome]
          split at h
          · rename_i hover
            rw [if_pos hover]
            exact h
          · rename_i hover
            rw [if_neg hover]
            exact ih h (Nat.le_of_succ_le_succ hmore)
    · rename_i hroom
      rw [if_neg hroom]
      exact h

/-- The search ends, with the highest block that may be handed out. -/
theorem allocateScratch_spec (hused : NonEmpty used) (hsize : 1 ≤ size.toNat)
    (hmax : size.toNat ≤ maxScratchBytes.toNat) :
    ∃ answer enough, (∀ rounds, enough ≤ rounds →
      allocateScratch rounds used size = some answer) ∧ Answers used size answer := by
  have hguard : ¬(size = 0 ∨ size > maxScratchBytes) := by
    rintro (rfl | hlarge)
    · exact absurd hsize (by decide)
    · exact absurd hlarge (Nat.not_lt.2 hmax)
  obtain ⟨answer, hloop, hanswer⟩ := allocateLoop_spec hused hsize hmax _
    (le_refl scratchTop.toNat) (fun b hb => hb.top) (Nat.lt_succ_self _)
  refine ⟨answer, scratchTop.toNat + 1, fun rounds hrounds => ?_, hanswer⟩
  rw [allocateScratch, if_neg hguard]
  exact allocateLoop_more hloop hrounds

/-- Below a range at the top of the region. -/
theorem allocateScratch_spec_reserved :
    allocateScratch 3 [⟨0x80002F00#32, 0x80002FF8#32⟩] 0x100#32 = some (some 0x80002E00#32) ∧
      ∃ answer enough, (∀ rounds, enough ≤ rounds →
        allocateScratch rounds [⟨0x80002F00#32, 0x80002FF8#32⟩] 0x100#32 = some answer) ∧
        Answers [⟨0x80002F00#32, 0x80002FF8#32⟩] 0x100#32 answer := by
  have hused : NonEmpty [⟨0x80002F00#32, 0x80002FF8#32⟩] := by
    intro range hrange
    rw [List.mem_singleton.1 hrange]
    decide
  exact ⟨by decide, allocateScratch_spec hused (by decide) (by decide)⟩

end
end DolphinXR.VRPatch
