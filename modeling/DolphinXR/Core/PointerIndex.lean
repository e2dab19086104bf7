import DolphinXR.Core.PointerScan

/- The index of the pointer scan: it has the words of the regions that are pointers and in no
   excluded range, although the loop jumps over the ranges and never looks back at one that it has
   passed. What leads to an address is a run of the index. -/
namespace DolphinXR.AgentServer.PointerScan

def IsWord (regions : List Region) (location value : Address) : Prop :=
  ∃ region ∈ regions, ∃ offset, 4 ∣ offset ∧ offset + 4 ≤ region.bytes.length ∧
    location = region.base + BitVec.ofNat 32 offset ∧ value = readBE32 region.bytes offset

def isPointer (regions : List Region) (value : Address) : Bool :=
  value &&& 3 == 0 && isTarget regions value

/-- A pointer that no excluded range holds. -/
def IsPointerWord (regions : List Region) (excluded : List Range) (location value : Address) :
    Prop :=
  IsWord regions location value ∧ isPointer regions value = true ∧
    inRanges excluded location = false

section
variable {regions : List Region} {region : Region} {skipped skip : List Range} {offset : Nat}

instance : IsTrans Range startLe := ⟨fun _ _ _ h h' => BitVec.le_trans h h'⟩

instance : Std.Total startLe := ⟨fun a b => BitVec.le_total a.start b.start⟩

theorem not_contains_of_stop_le {range : Range} {location : Address} (h : range.stop ≤ location) :
    range.contains location = false := by
  have hlt : ¬location < range.stop := BitVec.not_lt.2 h
  rw [Range.contains, decide_eq_false hlt, Bool.and_false]

/-- The ranges that were passed end at or before the location, and the others are the rest of all in
    their order. -/
structure Passed (skipped skip : List Range) (location : Address) : Prop where
  suffix : ∃ passed, skipped = passed ++ skip ∧ ∀ range ∈ passed, range.stop ≤ location

theorem Passed.mono {location location' : Address} (h : Passed skipped skip location)
    (hle : location ≤ location') : Passed skipped skip location' := by
  obtain ⟨passed, hskipped, hpassed⟩ := h.suffix
  exact ⟨passed, hskipped, fun range hmem => BitVec.le_trans (hpassed range hmem) hle⟩

theorem Passed.dropWhile {location : Address} (h : Passed skipped skip location) :
    Passed skipped (skip.dropWhile fun range => range.stop ≤ location) location := by
  obtain ⟨passed, rfl, hpassed⟩ := h.suffix
  refine ⟨passed ++ skip.takeWhile fun range => range.stop ≤ location, ?_, ?_⟩
  · rw [List.append_assoc, List.takeWhile_append_dropWhile]
  · intro range hmem
    rcases List.mem_append.1 hmem with hmem | hmem
    · exact hpassed range hmem
    · have hstop := List.mem_takeWhile_imp hmem
      exact of_decide_eq_true hstop

theorem Passed.inRanges_iff {location : Address} (hsorted : skipped.Pairwise startLe)
    (h : Passed skipped skip location)
    (hhead : ∀ range ∈ skip.head?, ¬range.stop ≤ location) :
    inRanges skipped location = true ↔ ∃ range ∈ skip.head?, range.contains location = true := by
  obtain ⟨passed, rfl, hpassed⟩ := h.suffix
  rw [inRanges, List.any_eq_true]
  constructor
  · rintro ⟨range, hmem, hcontains⟩
    rcases List.mem_append.1 hmem with hmem | hmem
    · rw [not_contains_of_stop_le (hpassed range hmem)] at hcontains
      cases hcontains
    · cases skip with
      | nil => exact absurd hmem List.not_mem_nil
      | cons first skip =>
        have hfirst : location < first.stop := BitVec.not_le.1 (hhead first rfl)
        rcases List.mem_cons.1 hmem with rfl | hmem
        · exact ⟨range, rfl, hcontains⟩
        · -- A later range begins no earlier than the first one.
          have hstart : first.start ≤ range.start :=
            List.rel_of_pairwise_cons (List.pairwise_append.1 hsorted).2.1 hmem
          rw [Range.contains, Bool.and_eq_true, decide_eq_true_eq] at hcontains
          refine ⟨first, rfl, ?_⟩
          rw [Range.contains, decide_eq_true (BitVec.le_trans hstart hcontains.1),
            decide_eq_true hfirst]
          rfl
  · rintro ⟨range, hmem, hcontains⟩
    exact ⟨range, List.mem_append_right _ (List.mem_of_mem_head? hmem), hcontains⟩

/-- What the loop finds from an offset on. -/
def FoundFrom (regions : List Region) (region : Region) (skipped : List Range) (offset : Nat)
    (value location : Address) : Prop :=
  ∃ offset', offset ≤ offset' ∧ 4 ∣ offset' ∧ offset' + 4 ≤ region.bytes.length ∧
    location = region.base + BitVec.ofNat 32 offset' ∧ value = readBE32 region.bytes offset' ∧
    isPointer regions value = true ∧ inRanges skipped location = false

theorem mem_pointerAt_iff {value location : Address} :
    (value, location) ∈ pointerAt regions region offset ↔
      location = region.base + BitVec.ofNat 32 offset ∧ value = readBE32 region.bytes offset ∧
        isPointer regions value = true := by
  have hpointer : (readBE32 region.bytes offset &&& 3 = 0 ∧
      isTarget regions (readBE32 region.bytes offset)) ↔
        isPointer regions (readBE32 region.bytes offset) = true := by
    rw [isPointer, Bool.and_eq_true, beq_iff_eq]
  simp only [pointerAt, hpointer]
  split
  · rename_i h
    rw [List.mem_singleton, Prod.mk.injEq]
    constructor
    · rintro ⟨rfl, rfl⟩
      exact ⟨rfl, rfl, h⟩
    · rintro ⟨rfl, rfl, -⟩
      exact ⟨rfl, rfl⟩
  · rename_i h
    refine iff_of_false List.not_mem_nil ?_
    rintro ⟨-, rfl, hvalue⟩
    exact h hvalue

theorem contains_of_lt_pastRange {range : Range} {offset' : Nat}
    (h : offset + 4 ≤ region.bytes.length) (h' : offset' + 4 ≤ region.bytes.length)
    (hcontains : range.contains (region.base + BitVec.ofNat 32 offset) = true)
    (hle : offset ≤ offset') (hdvd : 4 ∣ offset') (hlt : offset' < region.pastRange range) :
    range.contains (region.base + BitVec.ofNat 32 offset') = true := by
  have hlocation := region.toNat_location (show offset < region.bytes.length by omega)
  have hlocation' := region.toNat_location (show offset' < region.bytes.length by omega)
  rw [Range.contains, Bool.and_eq_true, decide_eq_true_eq, decide_eq_true_eq, BitVec.le_def,
    BitVec.lt_def] at hcontains ⊢
  have hstop : region.base ≤ range.stop := BitVec.le_def.2 (by omega)
  rw [Region.pastRange, BitVec.toNat_sub_of_le hstop] at hlt
  obtain ⟨k, rfl⟩ := hdvd
  omega

theorem FoundFrom.mono {value location : Address} {offset' : Nat} (hle : offset ≤ offset')
    (h : FoundFrom regions region skipped offset' value location) :
    FoundFrom regions region skipped offset value location := by
  obtain ⟨at', hat, hrest⟩ := h
  exact ⟨at', hle.trans hat, hrest⟩

theorem mem_pointersFrom_iff {value location : Address} (hsorted : skipped.Pairwise startLe)
    (hdvd : 4 ∣ offset)
    (hpassed : offset < region.bytes.length →
      Passed skipped skip (region.base + BitVec.ofNat 32 offset)) :
    (value, location) ∈ pointersFrom regions region skip offset ↔
      FoundFrom regions region skipped offset value location := by
  generalize hn : region.bytes.length - offset = n
  induction n using Nat.strongRecOn generalizing offset skip with
  | ind n ih =>
    rw [pointersFrom]
    split
    · rename_i hlength
      have hlt : offset < region.bytes.length := by omega
      have hdropped := (hpassed hlt).dropWhile
      have hhead : ∀ range ∈ (skip.dropWhile fun range =>
          range.stop ≤ region.base + BitVec.ofNat 32 offset).head?,
            ¬range.stop ≤ region.base + BitVec.ofNat 32 offset := by
        intro range hmem hstop
        have hnot := List.head?_dropWhile_not
          (fun range : Range => decide (range.stop ≤ region.base + BitVec.ofNat 32 offset)) skip
        rw [hmem] at hnot
        exact of_decide_eq_false hnot hstop
      have hin := hdropped.inRanges_iff hsorted hhead
      -- What has been passed here has been passed at any later word.
      have hlater : ∀ offset', offset ≤ offset' → offset' < region.bytes.length →
          Passed skipped (skip.dropWhile fun range =>
            range.stop ≤ region.base + BitVec.ofNat 32 offset)
              (region.base + BitVec.ofNat 32 offset') := by
        intro offset' hle hlt'
        refine hdropped.mono (BitVec.le_def.2 ?_)
        rw [region.toNat_location hlt, region.toNat_location hlt']
        omega
      dsimp only
      split
      · rename_i range hskip
        obtain ⟨hmem, hcontains⟩ := Option.filter_eq_some_iff.1 hskip
        have hpast := region.lt_pastRange hlt hcontains
        have hdvd' : 4 ∣ region.pastRange range := Nat.dvd_mul_left ..
        rw [ih _ (by omega) hdvd' (hlater _ hpast.le) rfl]
        refine ⟨FoundFrom.mono hpast.le, ?_⟩
        rintro ⟨offset', hle, hdvd', hlength', rfl, hrest, hpointer, hfree⟩
        refine ⟨offset', ?_, hdvd', hlength', rfl, hrest, hpointer, hfree⟩
        by_contra hwithin
        have hcontains' := contains_of_lt_pastRange hlength hlength' hcontains hle hdvd'
          (Nat.lt_of_not_le hwithin)
        have hmem' : range ∈ skipped := by
          obtain ⟨passed, hskipped, -⟩ := hdropped.suffix
          rw [hskipped]
          exact List.mem_append_right _ (List.mem_of_mem_head? hmem)
        rw [inRanges, List.any_eq_false] at hfree
        exact hfree range hmem' hcontains'
      · rename_i hskip
        have hfree : inRanges skipped (region.base + BitVec.ofNat 32 offset) = false := by
          rw [Bool.eq_false_iff, Ne, hin]
          rintro ⟨range, hmem, hcontains⟩
          rw [Option.mem_def.1 hmem, Option.filter_some, if_pos hcontains] at hskip
          cases hskip
        rw [List.mem_append, mem_pointerAt_iff,
          ih _ (by omega) ((Nat.dvd_add_right hdvd).2 (Nat.dvd_refl 4)) (hlater _ (by omega)) rfl]
        constructor
        · rintro (⟨rfl, hvalue, hpointer⟩ | hfound)
          · exact ⟨offset, le_rfl, hdvd, hlength, rfl, hvalue, hpointer, hfree⟩
          · exact hfound.mono (by omega)
        · rintro ⟨offset', hle, hdvd', hlength', hlocation, hvalue, hpointer, hfree'⟩
          rcases Nat.eq_or_lt_of_le hle with rfl | hlt'
          · exact .inl ⟨hlocation, hvalue, hpointer⟩
          · refine .inr ⟨offset', ?_, hdvd', hlength', hlocation, hvalue, hpointer, hfree'⟩
            obtain ⟨k, rfl⟩ := hdvd
            obtain ⟨k', rfl⟩ := hdvd'
            omega
    · rename_i hlength
      refine iff_of_false List.not_mem_nil ?_
      rintro ⟨offset', hle, -, hlength', -⟩
      omega

end

section
variable {regions : List Region} {excluded : List Range} {value location : Address}

theorem mem_pointerIndex_iff : (value, location) ∈ pointerIndex regions excluded ↔
    IsPointerWord regions excluded location value := by
  have hsorted := List.pairwise_insertionSort startLe excluded
  have hranges : inRanges (excluded.insertionSort startLe) location = inRanges excluded location := by
    rw [Bool.eq_iff_iff, inRanges, inRanges, List.any_eq_true, List.any_eq_true]
    simp only [List.mem_insertionSort]
  rw [pointerIndex, List.mem_insertionSort, List.mem_flatMap]
  constructor
  · rintro ⟨region, hregion, hmem⟩
    obtain ⟨offset, -, hdvd, hlength, hlocation, hvalue, hpointer, hfree⟩ :=
      (mem_pointersFrom_iff hsorted (Nat.dvd_zero 4) (fun _ => ⟨[], rfl, nofun⟩)).1 hmem
    exact ⟨⟨region, hregion, offset, hdvd, hlength, hlocation, hvalue⟩, hpointer,
      hranges ▸ hfree⟩
  · rintro ⟨⟨region, hregion, offset, hdvd, hlength, hlocation, hvalue⟩, hpointer, hfree⟩
    refine ⟨region, hregion, ?_⟩
    refine (mem_pointersFrom_iff hsorted (Nat.dvd_zero 4) (fun _ => ⟨[], rfl, nofun⟩)).2 ?_
    exact ⟨offset, Nat.zero_le _, hdvd, hlength, hlocation, hvalue, hpointer, hranges.trans hfree⟩

end

/-! Looking up. -/

theorem pairLe_iff (a b : Address × Address) : pairLe a b ↔
    a.1.toNat < b.1.toNat ∨ (a.1.toNat = b.1.toNat ∧ a.2.toNat ≤ b.2.toNat) := by
  rw [pairLe, BitVec.lt_def, BitVec.le_def, ← BitVec.toNat_inj]

instance : IsTrans (Address × Address) pairLe := by
  constructor
  intro a b c h h'
  rw [pairLe_iff] at *
  omega

instance : Std.Total pairLe := by
  constructor
  intro a b
  rw [pairLe_iff, pairLe_iff]
  omega

theorem mem_dropWhile_iff {α : Type} {le : α → α → Prop} [DecidableRel le] [IsTrans α le]
    {l : List α} (h : l.Pairwise le) (low x : α) :
    x ∈ l.dropWhile (fun it => ¬le low it) ↔ x ∈ l ∧ le low x := by
  induction l with
  | nil => simp
  | cons first l ih =>
    rw [List.pairwise_cons] at h
    by_cases hfirst : le low first
    · rw [List.dropWhile_cons_of_neg (by simpa using hfirst)]
      refine ⟨fun hmem => ⟨hmem, ?_⟩, And.left⟩
      rcases List.mem_cons.1 hmem with rfl | hmem
      · exact hfirst
      · exact trans_of le hfirst (h.1 x hmem)
    · rw [List.dropWhile_cons_of_pos (by simpa using hfirst), ih h.2, List.mem_cons]
      refine ⟨fun ⟨hmem, hle⟩ => ⟨.inr hmem, hle⟩, ?_⟩
      rintro ⟨rfl | hmem, hle⟩
      · exact absurd hle hfirst
      · exact ⟨hmem, hle⟩

theorem mem_takeWhile_iff {α : Type} {le : α → α → Prop} {keep : α → Bool} {l : List α}
    (h : l.Pairwise le) (hkeep : ∀ a b, le a b → keep b = true → keep a = true) (x : α) :
    x ∈ l.takeWhile keep ↔ x ∈ l ∧ keep x = true := by
  induction l with
  | nil => simp
  | cons first l ih =>
    rw [List.pairwise_cons] at h
    by_cases hfirst : keep first = true
    · rw [List.takeWhile_cons_of_pos hfirst, List.mem_cons, List.mem_cons, ih h.2]
      constructor
      · rintro (rfl | ⟨hmem, hx⟩)
        · exact ⟨.inl rfl, hfirst⟩
        · exact ⟨.inr hmem, hx⟩
      · rintro ⟨rfl | hmem, hx⟩
        · exact .inl rfl
        · exact .inr ⟨hmem, hx⟩
    · rw [List.takeWhile_cons_of_neg hfirst]
      refine iff_of_false List.not_mem_nil ?_
      rintro ⟨hmem, hx⟩
      rcases List.mem_cons.1 hmem with rfl | hmem
      · exact hfirst hx
      · exact hfirst (hkeep first x (h.1 x hmem) hx)

theorem mem_hits_iff {scan : Scan} (hsorted : scan.index.Pairwise pairLe)
    {address value location : Address} : (value, location) ∈ scan.hits address ↔
      (value, location) ∈ scan.index ∧ value ≤ address ∧
        address - value ≤ scan.options.maxOffset := by
  have hlow : ∀ low : Address, pairLe (low, 0) (value, location) ↔ low ≤ value := by
    intro low
    rw [pairLe_iff, BitVec.le_def]
    simp
    omega
  have hkeep : ∀ a b : Address × Address, pairLe a b → decide (b.1 ≤ address) = true →
      decide (a.1 ≤ address) = true := by
    intro a b h hb
    rw [decide_eq_true_eq, BitVec.le_def] at hb ⊢
    rw [pairLe_iff] at h
    omega
  have hrange : value ≤ address →
      ((if scan.options.maxOffset ≤ address then address - scan.options.maxOffset else 0) ≤ value ↔
        address - value ≤ scan.options.maxOffset) := by
    intro hle
    have hsub := BitVec.toNat_sub_of_le hle
    rw [BitVec.le_def] at hle
    split
    · rename_i hmax
      rw [BitVec.le_def, BitVec.le_def, hsub, BitVec.toNat_sub_of_le hmax]
      rw [BitVec.le_def] at hmax
      omega
    · rename_i hmax
      rw [BitVec.le_def] at hmax
      rw [BitVec.le_def, BitVec.le_def, hsub]
      refine iff_of_true (Nat.zero_le _) ?_
      omega
  rw [Scan.hits, mem_takeWhile_iff (hsorted.sublist (List.dropWhile_sublist _)) hkeep,
    mem_dropWhile_iff hsorted, hlow, decide_eq_true_eq]
  constructor
  · rintro ⟨⟨hmem, hle⟩, hvalue⟩
    exact ⟨hmem, hvalue, (hrange hvalue).1 hle⟩
  · rintro ⟨hmem, hvalue, hoffset⟩
    exact ⟨⟨hmem, (hrange hvalue).2 hoffset⟩, hvalue⟩

end DolphinXR.AgentServer.PointerScan
