import Mathlib.Data.List.Nodup
import DolphinXR.Core.PageTable

/- Where a page may stand in the page table. A page hashes to two PTEGs, and the words that say
   it is for the page are read there as its own page index. Elsewhere they may not:
   `getPageIndex` compares the bits of the hash that are in the API too, but not those above the
   page index, so with a hash mask of more than six bits an entry in a PTEG of another page can
   pass. -/
namespace DolphinXR.PowerPC
open Common
namespace Mmu
variable (mmu : Mmu)

def reach : BitVec 32 := mmu.pagetableMask &&& ~~~mmu.pagetableBase

theorem or_sub_self (x b : BitVec 32) : (x ||| b) - b = x &&& ~~~b := by
  have hdisjoint : (x &&& ~~~b) &&& b = 0#32 := by
    ext i hi
    simp
  have hor : x ||| b = (x &&& ~~~b) ||| b := by
    ext i hi
    simp
    cases x[i] <;> cases b[i] <;> rfl
  rw [hor, ← BitVec.add_eq_or_of_and_eq_zero _ _ hdisjoint, BitVec.add_sub_cancel]

theorem ptegAt_eq (address : BitVec 32) : mmu.ptegAt address = (address &&& mmu.reach) >>> 6 := by
  rw [ptegAt, or_sub_self, BitVec.and_assoc, reach]

theorem getLsbD_hashBits (i : Nat) : (0xffc0#32).getLsbD i = decide (6 ≤ i ∧ i < 16) := by
  rcases Nat.lt_or_ge i 32 with h | h
  · have hall : ∀ i < 32, (0xffc0#32).getLsbD i = decide (6 ≤ i ∧ i < 16) := by decide
    exact hall i h
  · rw [BitVec.getLsbD_of_ge _ _ h, decide_eq_false (by omega)]

theorem getLsbD_reach_low {i : Nat} (h : i < 16) : mmu.reach.getLsbD i = decide (6 ≤ i) := by
  unfold reach pagetableMask pagetableBase
  simp [getLsbD_hashBits, h]
  omega

theorem getLsbD_reach_high {i : Nat} (h : 25 ≤ i) : mmu.reach.getLsbD i = false := by
  unfold reach pagetableMask pagetableBase
  have hmask : mmu.htabmask.getLsbD (i - 16) = false := BitVec.getLsbD_of_ge _ _ (by omega)
  simp [getLsbD_hashBits, hmask]
  omega

theorem getLsbD_ptegAt (address : BitVec 32) (i : Nat) :
    (mmu.ptegAt address).getLsbD i =
      (address.getLsbD (i + 6) && mmu.reach.getLsbD (i + 6)) := by
  rw [ptegAt_eq, BitVec.getLsbD_ushiftRight, BitVec.getLsbD_and, Nat.add_comm]

def hash (page : EffectivePage) (h : Bool) : BitVec 32 :=
  let hash := (mmu.sr page.sr).vsid.setWidth 32 ^^^ page.pageIndex.setWidth 32
  if h then ~~~hash else hash

def ptegOf (page : EffectivePage) (h : Bool) : BitVec 32 := mmu.ptegAt (mmu.hash page h <<< 6)

def pattern (page : EffectivePage) (h : Bool) : UpteLo := ⟨page.api, h, (mmu.sr page.sr).vsid, true⟩

theorem getLsbD_hash (page : EffectivePage) (h : Bool) {i : Nat} (hi : i < 32) :
    (mmu.hash page h).getLsbD i =
      (h ^^ ((mmu.sr page.sr).vsid.getLsbD i ^^ page.pageIndex.getLsbD i)) := by
  unfold hash
  cases h with
  | false => simp [hi]
  | true => simp [hi]

theorem getLsbD_ptegOf (page : EffectivePage) (h : Bool) (i : Nat) :
    (mmu.ptegOf page h).getLsbD i =
      ((mmu.hash page h).getLsbD i && mmu.reach.getLsbD (i + 6)) := by
  rw [ptegOf, getLsbD_ptegAt]
  rcases Nat.lt_or_ge (i + 6) 25 with hi | hi
  · rw [BitVec.getLsbD_shiftLeft, decide_eq_true (by omega), decide_eq_false (by omega),
      Nat.add_sub_cancel]
    rfl
  · rw [getLsbD_reach_high mmu hi, Bool.and_false, Bool.and_false]

theorem ptegAt_ptegOf (page : EffectivePage) :
    mmu.ptegAt (~~~(mmu.ptegOf page false <<< 6)) = mmu.ptegOf page true := by
  refine BitVec.eq_of_getLsbD_eq fun i hi => ?_
  rw [getLsbD_ptegAt, getLsbD_ptegOf, getLsbD_hash _ _ _ hi]
  cases hreach : mmu.reach.getLsbD (i + 6) with
  | false => rw [Bool.and_false, Bool.and_false]
  | true =>
    have hlt : i + 6 < 32 := by
      by_contra hge
      exact absurd (hreach.symm.trans (getLsbD_reach_high mmu (by omega))) nofun
    rw [BitVec.getLsbD_not, BitVec.getLsbD_shiftLeft, Nat.add_sub_cancel, getLsbD_ptegOf, hreach,
      getLsbD_hash _ _ _ hi, decide_eq_true hlt, decide_eq_false (by omega)]
    simp

/-! ### Page indices -/

def fromHash (h : Bool) (vsid : BitVec 24) (pteg : BitVec 32) : BitVec 32 :=
  if h then ~~~(pteg ^^^ vsid.setWidth 32) else pteg ^^^ vsid.setWidth 32

theorem getLsbD_fromHash (h : Bool) (vsid : BitVec 24) (pteg : BitVec 32) {i : Nat} (hi : i < 32) :
    (fromHash h vsid pteg).getLsbD i = (h ^^ (pteg.getLsbD i ^^ vsid.getLsbD i)) := by
  unfold fromHash
  cases h with
  | false => simp [hi]
  | true => simp [hi]

theorem getPageIndex_eq (pte1 : UpteLo) (pteg : BitVec 32) :
    mmu.getPageIndex pte1 pteg =
      if ∀ i < 6, mmu.reach.getLsbD (16 + i) = true →
          pte1.api.getLsbD i = (fromHash pte1.h pte1.vsid pteg).getLsbD (10 + i) then
        some (pte1.api ++ (fromHash pte1.h pte1.vsid pteg).setWidth 10)
      else none := by
  have hsplit : mmu.getPageIndex pte1 pteg =
      if pte1.api &&& (mmu.reach >>> 16).setWidth 6 ≠
          ((fromHash pte1.h pte1.vsid pteg) >>> 10).setWidth 6 &&& (mmu.reach >>> 16).setWidth 6 then
        none
      else some (pte1.api ++ (fromHash pte1.h pte1.vsid pteg).setWidth 10) := rfl
  rw [hsplit, ite_not]
  refine if_congr ?_ rfl rfl
  constructor
  · intro heq i hi hreach
    have hbit := congrArg (fun x : BitVec 6 => x.getLsbD i) heq
    simpa [hi, hreach] using hbit
  · intro hbits
    refine BitVec.eq_of_getLsbD_eq fun i hi => ?_
    rw [BitVec.getLsbD_and, BitVec.getLsbD_and, BitVec.getLsbD_setWidth, BitVec.getLsbD_setWidth,
      BitVec.getLsbD_ushiftRight, BitVec.getLsbD_ushiftRight, decide_eq_true hi]
    cases hreach : mmu.reach.getLsbD (16 + i) with
    | true => rw [hbits i hi hreach, Bool.true_and, Bool.true_and]
    | false => rw [Bool.true_and, Bool.and_false, Bool.and_false]

theorem getLsbD_fromHash_ptegOf (page : EffectivePage) (h : Bool) {i : Nat} (hi : i < 32)
    (hreach : mmu.reach.getLsbD (i + 6) = true) :
    (fromHash h (mmu.sr page.sr).vsid (mmu.ptegOf page h)).getLsbD i =
      page.pageIndex.getLsbD i := by
  rw [getLsbD_fromHash _ _ _ hi, getLsbD_ptegOf, hreach, Bool.and_true, getLsbD_hash _ _ _ hi]
  cases h <;> cases (mmu.sr page.sr).vsid.getLsbD i <;> cases page.pageIndex.getLsbD i <;> rfl

theorem getPageIndex_pattern (page : EffectivePage) (h : Bool) :
    mmu.getPageIndex (mmu.pattern page h) (mmu.ptegOf page h) = some page.pageIndex := by
  rw [getPageIndex_eq, if_pos]
  · refine congrArg some (BitVec.eq_of_getLsbD_eq fun i hi => ?_)
    rw [BitVec.getLsbD_append]
    rcases Nat.lt_or_ge i 10 with hlow | hhigh
    · have hreach : mmu.reach.getLsbD (i + 6) = true := by
        rw [getLsbD_reach_low mmu (by omega), decide_eq_true (by omega)]
      rw [if_pos hlow, BitVec.getLsbD_setWidth, decide_eq_true hlow, Bool.true_and]
      exact getLsbD_fromHash_ptegOf mmu page h (by omega) hreach
    · have hnot : ¬ i < 10 := by omega
      have hi6 : i - 10 < 6 := by omega
      simp [hnot, hi6, pattern, EffectivePage.api, Nat.add_sub_cancel' hhigh]
  · intro i hi hreach
    have hfrom := getLsbD_fromHash_ptegOf mmu page h (i := 10 + i) (by omega)
      (by rw [← hreach]; congr 1; omega)
    exact (by simp [pattern, EffectivePage.api, hi] : _ = _).trans hfrom.symm

theorem api_of_getPageIndex {pte1 : UpteLo} {pteg : BitVec 32} {page : EffectivePage}
    (h : mmu.getPageIndex pte1 pteg = some page.pageIndex) : page.api = pte1.api := by
  rw [getPageIndex_eq] at h
  split at h
  · rw [EffectivePage.api, ← Option.some.inj h]
    refine BitVec.eq_of_getLsbD_eq fun i hi => ?_
    rw [BitVec.getLsbD_extractLsb', decide_eq_true hi, Bool.true_and, BitVec.getLsbD_append,
      if_neg (by omega), Nat.add_sub_cancel_left]
  · cases h

def Reads (pte1 : UpteLo) (pteg : BitVec 32) (page : EffectivePage) : Prop :=
  pte1.v = true ∧ (mmu.sr page.sr).vsid = pte1.vsid ∧ (mmu.sr page.sr).t = false ∧
    mmu.getPageIndex pte1 pteg = some page.pageIndex

theorem pattern_of_reads {pte1 : UpteLo} {pteg : BitVec 32} {page : EffectivePage}
    (h : mmu.Reads pte1 pteg page) : pte1 = mmu.pattern page pte1.h := by
  obtain ⟨hv, hvsid, -, hindex⟩ := h
  obtain ⟨api, side, vsid, v⟩ := pte1
  rw [pattern, mmu.api_of_getPageIndex hindex, hvsid]
  exact congrArg (UpteLo.mk api side vsid) hv

theorem reads_pattern {page : EffectivePage} (ht : (mmu.sr page.sr).t = false) (h : Bool) :
    mmu.Reads (mmu.pattern page h) (mmu.ptegOf page h) page :=
  ⟨rfl, rfl, ht, mmu.getPageIndex_pattern page h⟩

/-! ### The walk through the table -/

def slots (size : Nat) : List Slot :=
  (mmu.ptegs size).flatMap fun pteg => (List.finRange 8).map fun place => ⟨pteg, place⟩

theorem mem_slots {size : Nat} {slot : Slot} :
    slot ∈ mmu.slots size ↔ slot.pteg ∈ mmu.ptegs size := by
  simp only [slots, List.mem_flatMap, List.mem_map, List.mem_finRange, true_and]
  constructor
  · rintro ⟨pteg, hpteg, place, rfl⟩
    exact hpteg
  · exact fun h => ⟨slot.pteg, h, slot.place, rfl⟩

theorem pagetableBase_toNat : mmu.pagetableBase.toNat = mmu.htaborg.toNat * 2 ^ 16 := by
  have hlt := mmu.htaborg.isLt
  rw [pagetableBase, BitVec.toNat_shiftLeft, BitVec.toNat_setWidth, Nat.shiftLeft_eq]
  omega

theorem reach_toNat : mmu.reach.toNat =
    (mmu.pagetableBase ||| mmu.pagetableMask).toNat - mmu.pagetableBase.toNat := by
  have hle : mmu.pagetableBase ≤ mmu.pagetableMask ||| mmu.pagetableBase := by
    rw [BitVec.le_def, BitVec.toNat_or]
    exact Nat.right_le_or
  rw [reach, ← or_sub_self, BitVec.toNat_sub_of_le hle, BitVec.or_comm]

theorem tableSize_spec {top base : Nat} (hle : base ≤ top) (hbase : pageTableMinSize ∣ base)
    (hbit : top.testBit 6 = true) (htop : top < 2 ^ 32) :
    top - base < alignUp top pageTableMinSize - base ∧
      pageTableMinSize ∣ alignUp top pageTableMinSize - base ∧
      alignUp top pageTableMinSize - base ≤ 2 ^ 32 := by
  have hup : top ≤ alignUp top pageTableMinSize := le_alignUp (by decide)
  have hdvd : pageTableMinSize ∣ alignUp top pageTableMinSize := dvd_alignUp _ _
  have hne : alignUp top pageTableMinSize ≠ top := by
    intro heq
    rw [heq] at hdvd
    obtain ⟨k, rfl⟩ := hdvd
    have hzero : (2 ^ 16 * k).testBit 6 = false := by
      rw [Nat.testBit_two_pow_mul]
      rfl
    exact absurd (hbit.symm.trans hzero) nofun
  have hend : alignUp top pageTableMinSize ≤ 2 ^ 32 :=
    alignUp_le_of_dvd (by decide) (by decide) (Nat.le_of_lt htop)
  exact ⟨by omega, Nat.dvd_sub hdvd hbase, by omega⟩

theorem pageTableSize_spec :
    mmu.reach.toNat < mmu.pageTableSize ∧ pageTableMinSize ∣ mmu.pageTableSize ∧
      mmu.pageTableSize ≤ 2 ^ 32 := by
  have hle : mmu.pagetableBase.toNat ≤ (mmu.pagetableBase ||| mmu.pagetableMask).toNat := by
    rw [BitVec.toNat_or]
    exact Nat.left_le_or
  have hbase : pageTableMinSize ∣ mmu.pagetableBase.toNat :=
    ⟨mmu.htaborg.toNat, by rw [pagetableBase_toNat, Nat.mul_comm]; rfl⟩
  have hbit : (mmu.pagetableBase ||| mmu.pagetableMask).getLsbD 6 = true := by
    have hmask : mmu.pagetableMask.getLsbD 6 = true := by
      have hhash := getLsbD_hashBits 6
      rw [pagetableMask, BitVec.getLsbD_or]
      exact Bool.or_eq_true_iff.2 (.inr hhash)
    rw [BitVec.getLsbD_or, hmask, Bool.or_true]
  rw [reach_toNat]
  exact tableSize_spec hle hbase hbit (BitVec.isLt _)

theorem ptegOf_toNat_lt (page : EffectivePage) (h : Bool) :
    (mmu.ptegOf page h).toNat < mmu.pageTableSize / 64 := by
  obtain ⟨hreach, hdvd, -⟩ := mmu.pageTableSize_spec
  have hle : (mmu.hash page h <<< 6 &&& mmu.reach).toNat ≤ mmu.reach.toNat := by
    rw [BitVec.toNat_and]
    exact Nat.and_le_right
  rw [ptegOf, ptegAt_eq, BitVec.toNat_ushiftRight, Nat.shiftRight_eq_div_pow]
  obtain ⟨k, hk⟩ := hdvd
  rw [hk] at hreach ⊢
  unfold pageTableMinSize at hreach ⊢
  omega

theorem ptegOf_mem_ptegs (page : EffectivePage) (h : Bool) :
    mmu.ptegOf page h ∈ mmu.ptegs mmu.pageTableSize := by
  refine List.mem_filter.2 ⟨List.mem_map.2 ⟨_, List.mem_range.2 (mmu.ptegOf_toNat_lt page h), ?_⟩, ?_⟩
  · exact BitVec.ofNat_toNat ..
  have hbit : ∀ i, ((mmu.ptegOf page h <<< 6) &&& ~~~0xffff).getLsbD i = true →
      mmu.reach.getLsbD i = true := by
    intro i hset
    rw [BitVec.getLsbD_and, BitVec.getLsbD_shiftLeft, getLsbD_ptegOf] at hset
    simp only [Bool.and_eq_true, Bool.not_eq_true', decide_eq_false_iff_not, not_lt] at hset
    obtain ⟨⟨⟨-, hi⟩, -, hreach⟩, -⟩ := hset
    rwa [Nat.sub_add_cancel hi] at hreach
  have hmask : ∀ i, mmu.reach.getLsbD i = true →
      mmu.pagetableMask.getLsbD i = true ∧ mmu.pagetableBase.getLsbD i = false := by
    intro i hreach
    rw [reach, BitVec.getLsbD_and, BitVec.getLsbD_not] at hreach
    obtain ⟨hm, hb⟩ := Bool.and_eq_true_iff.1 hreach
    exact ⟨hm, (by simpa using hb : _ ∧ _).2⟩
  refine decide_eq_true ⟨BitVec.eq_of_getLsbD_eq fun i hi => ?_, BitVec.eq_of_getLsbD_eq fun i hi => ?_⟩
  · rw [BitVec.getLsbD_and]
    cases hset : ((mmu.ptegOf page h <<< 6) &&& ~~~0xffff).getLsbD i with
    | false => rfl
    | true => rw [(hmask i (hbit i hset)).1]; rfl
  · rw [BitVec.getLsbD_and]
    cases hset : ((mmu.ptegOf page h <<< 6) &&& ~~~0xffff).getLsbD i with
    | false => exact BitVec.getLsbD_zero.symm
    | true => rw [(hmask i (hbit i hset)).2]; exact BitVec.getLsbD_zero.symm

theorem getLsbD_of_mem_ptegs {size : Nat} {pteg : BitVec 32} (h : pteg ∈ mmu.ptegs size)
    {i : Nat} (hi : 10 ≤ i) (hlt : i + 6 < 32) (hset : pteg.getLsbD i = true) :
    mmu.reach.getLsbD (i + 6) = true := by
  obtain ⟨hmask, hbase⟩ := of_decide_eq_true (List.mem_filter.1 h).2
  have hbit : ((pteg <<< 6) &&& ~~~0xffff).getLsbD (i + 6) = true := by
    have hhigh : (0xffff : BitVec 32).getLsbD (i + 6) = false := by
      have hall : ∀ j < 32, 16 ≤ j → (0xffff : BitVec 32).getLsbD j = false := by decide
      exact hall _ hlt (by omega)
    rw [BitVec.getLsbD_and, BitVec.getLsbD_shiftLeft, BitVec.getLsbD_not, Nat.add_sub_cancel, hset,
      hhigh, decide_eq_true hlt, decide_eq_false (by omega)]
    rfl
  have h1 := congrArg (fun x : BitVec 32 => x.getLsbD (i + 6)) hmask
  have h2 := congrArg (fun x : BitVec 32 => x.getLsbD (i + 6)) hbase
  rw [BitVec.getLsbD_and, hbit, Bool.true_and] at h1 h2
  rw [reach, BitVec.getLsbD_and, BitVec.getLsbD_not, h1, h2.trans BitVec.getLsbD_zero,
    decide_eq_true hlt]
  rfl

theorem getLsbD_of_mem_ptegs_high {size : Nat} {pteg : BitVec 32} (h : pteg ∈ mmu.ptegs size)
    (hsize : size ≤ 2 ^ 32) {i : Nat} (hi : 26 ≤ i) : pteg.getLsbD i = false := by
  obtain ⟨n, hn, rfl⟩ := List.mem_map.1 (List.mem_filter.1 h).1
  have hn' := List.mem_range.1 hn
  have hlt : (BitVec.ofNat 32 n).toNat < 2 ^ i := by
    have hpow : 2 ^ 26 ≤ 2 ^ i := Nat.pow_le_pow_right (by decide) hi
    rw [BitVec.toNat_ofNat, Nat.mod_eq_of_lt (by omega)]
    omega
  exact Nat.testBit_lt_two_pow hlt

theorem placed_of_small (hsmall : mmu.htabmask.toNat < 2 ^ 6) {size : Nat} (hsize : size ≤ 2 ^ 32)
    {pte1 : UpteLo} {pteg : BitVec 32} {page : EffectivePage} (hmem : pteg ∈ mmu.ptegs size)
    (hreads : mmu.Reads pte1 pteg page) : pteg = mmu.ptegOf page pte1.h := by
  obtain ⟨-, hvsid, -, hindex⟩ := hreads
  rw [getPageIndex_eq] at hindex
  split at hindex
  case isFalse => cases hindex
  case isTrue hagree =>
    have hbits : ∀ i < 16, mmu.reach.getLsbD (i + 6) = true →
        page.pageIndex.getLsbD i = (fromHash pte1.h pte1.vsid pteg).getLsbD i := by
      intro i hi hreach
      rw [← Option.some.inj hindex, BitVec.getLsbD_append]
      split
      case isTrue hlow => rw [BitVec.getLsbD_setWidth, decide_eq_true hlow, Bool.true_and]
      case isFalse hhigh =>
        have hbit := hagree (i - 10) (by omega) (by rw [← hreach]; congr 1; omega)
        rwa [Nat.add_sub_cancel' (by omega)] at hbit
    have hout : ∀ i, 16 ≤ i → mmu.reach.getLsbD (i + 6) = false := by
      intro i hi
      have hmask : mmu.htabmask.getLsbD (i - 10) = false :=
        Nat.testBit_lt_two_pow
          (Nat.lt_of_lt_of_le hsmall (Nat.pow_le_pow_right (by decide) (by omega)))
      rw [reach, BitVec.getLsbD_and, pagetableMask]
      simp [getLsbD_hashBits, hmask]
      omega
    refine BitVec.eq_of_getLsbD_eq fun i hi => ?_
    rw [getLsbD_ptegOf, getLsbD_hash _ _ _ hi, hvsid]
    cases hreach : mmu.reach.getLsbD (i + 6) with
    | false =>
      rw [Bool.and_false]
      by_contra hset
      rw [Bool.not_eq_false] at hset
      rcases Nat.lt_or_ge i 26 with hlt | hge
      · rcases Nat.lt_or_ge i 10 with hlow | hhigh
        · rw [getLsbD_reach_low mmu (by omega), decide_eq_true (by omega)] at hreach
          cases hreach
        · have hyes := mmu.getLsbD_of_mem_ptegs hmem hhigh (by omega) hset
          exact absurd (hyes.symm.trans hreach) nofun
      · exact absurd (hset.symm.trans (mmu.getLsbD_of_mem_ptegs_high hmem hsize hge)) nofun
    | true =>
      have hlow : i < 16 := by
        by_contra hge
        exact absurd (hreach.symm.trans (hout i (by omega))) nofun
      rw [hbits i hlow hreach, getLsbD_fromHash _ _ _ hi, Bool.and_true]
      cases pte1.h <;> cases pte1.vsid.getLsbD i <;> cases pteg.getLsbD i <;> rfl

theorem nodup_ptegs {size : Nat} (h : size ≤ 2 ^ 32) : (mmu.ptegs size).Nodup := by
  refine (List.Nodup.map_on ?_ List.nodup_range).sublist List.filter_sublist
  intro n hn m hm heq
  have hn' := List.mem_range.1 hn
  have hm' := List.mem_range.1 hm
  have hnat := congrArg BitVec.toNat heq
  rw [BitVec.toNat_ofNat, BitVec.toNat_ofNat, Nat.mod_eq_of_lt (by omega),
    Nat.mod_eq_of_lt (by omega)] at hnat
  exact hnat

theorem slots_order {size : Nat} (h : size ≤ 2 ^ 32) :
    (mmu.slots size).Pairwise fun t s => t.pteg = s.pteg → t.place < s.place := by
  refine List.pairwise_flatMap.2 ⟨fun pteg _ => ?_, (mmu.nodup_ptegs h).imp fun hne => ?_⟩
  · refine List.pairwise_map.2 ((List.pairwise_lt_finRange 8).imp ?_)
    exact fun hlt _ => hlt
  · intro t ht s hs heq
    obtain ⟨place, -, rfl⟩ := List.mem_map.1 ht
    obtain ⟨place', -, rfl⟩ := List.mem_map.1 hs
    exact absurd heq hne

/-! ### The places of a page -/

/-- The place of a page with a priority: eight in its primary PTEG, then eight in the other. -/
def slotOf (page : EffectivePage) (p : Nat) : Slot :=
  ⟨mmu.ptegOf page (decide (8 ≤ p)), Fin.ofNat 8 p⟩

def Stands (entries : Entries) (page : EffectivePage) (p : Nat) : Prop :=
  (entries (mmu.slotOf page p)).lo = mmu.pattern page (decide (8 ≤ p))

theorem slotOf_mem_slots (page : EffectivePage) (p : Nat) :
    mmu.slotOf page p ∈ mmu.slots mmu.pageTableSize :=
  mmu.mem_slots.2 (mmu.ptegOf_mem_ptegs page _)

theorem priority_lt (slot : Slot) (pte1 : UpteLo) : priority slot pte1 < 16 := by
  have hplace := slot.place.isLt
  have hbit := pte1.h.toNat_le
  unfold priority
  omega

theorem decide_priority (slot : Slot) (pte1 : UpteLo) :
    decide (8 ≤ priority slot pte1) = pte1.h := by
  have hplace := slot.place.isLt
  unfold priority
  cases pte1.h with
  | false => exact decide_eq_false (by simp)
  | true => exact decide_eq_true (by simp)

theorem slotOf_priority {slot : Slot} {pte1 : UpteLo} {page : EffectivePage}
    (h : slot.pteg = mmu.ptegOf page pte1.h) : mmu.slotOf page (priority slot pte1) = slot := by
  obtain ⟨pteg, place⟩ := slot
  have hplace : Fin.ofNat 8 (priority ⟨pteg, place⟩ pte1) = place := by
    apply Fin.ext
    have hlt := place.isLt
    change (place.val + 8 * pte1.h.toNat) % 8 = place.val
    omega
  rw [slotOf, decide_priority, hplace]
  exact congrArg (Slot.mk · place) h.symm

theorem priority_slotOf (page : EffectivePage) {p : Nat} (hp : p < 16) :
    priority (mmu.slotOf page p) (mmu.pattern page (decide (8 ≤ p))) = p := by
  change p % 8 + 8 * (decide (8 ≤ p)).toNat = p
  rcases Nat.lt_or_ge p 8 with h | h
  · rw [decide_eq_false (by omega)]
    simp
    omega
  · rw [decide_eq_true h]
    simp
    omega

theorem stands_of_reads {entries : Entries} {slot : Slot} {page : EffectivePage}
    (hreads : mmu.Reads (entries slot).lo slot.pteg page)
    (hplaced : slot.pteg = mmu.ptegOf page (entries slot).lo.h) :
    mmu.Stands entries page (priority slot (entries slot).lo) := by
  rw [Stands, slotOf_priority mmu hplaced, decide_priority]
  exact mmu.pattern_of_reads hreads

theorem find?_finRange {n : Nat} {f : Fin n → Bool} {a : Fin n} :
    (List.finRange n).find? f = some a ↔ f a = true ∧ ∀ b < a, f b = false := by
  rw [List.find?_eq_some_iff_getElem]
  constructor
  · rintro ⟨ha, i, hi, rfl, hbefore⟩
    refine ⟨ha, fun b hb => ?_⟩
    have hlt : b.val < i := by simpa [Fin.lt_def] using hb
    simpa using hbefore b.val hlt
  · rintro ⟨ha, hbefore⟩
    refine ⟨ha, a.val, by simp, by simp, fun j hj => ?_⟩
    have hlt : j < n := Nat.lt_trans hj a.isLt
    simpa using hbefore ⟨j, hlt⟩ hj

theorem findInPteg_eq_some {entries : Entries} {pte1 : UpteLo} {pteg : BitVec 32} {place : Fin 8}
    (hat : (entries ⟨pteg, place⟩).lo = pte1)
    (hbefore : ∀ i < place, (entries ⟨pteg, i⟩).lo ≠ pte1) :
    findInPteg entries pte1 pteg = some (place.val, (entries ⟨pteg, place⟩).hi) := by
  have hfound := (find?_finRange (f := fun i => (entries ⟨pteg, i⟩).lo = pte1)).2
    ⟨decide_eq_true hat, fun i hi => decide_eq_false (hbefore i hi)⟩
  rw [findInPteg, hfound]
  rfl

theorem findInPteg_eq_none {entries : Entries} {pte1 : UpteLo} {pteg : BitVec 32}
    (h : ∀ i, (entries ⟨pteg, i⟩).lo ≠ pte1) : findInPteg entries pte1 pteg = none := by
  have hnone : (List.finRange 8).find? (fun i => (entries ⟨pteg, i⟩).lo = pte1) = none :=
    List.find?_eq_none.2 fun i _ => by simpa using h i
  rw [findInPteg, hnone]
  rfl

theorem translatePageAddress_eq {entries : Entries} {page : EffectivePage}
    (ht : (mmu.sr page.sr).t = false) :
    mmu.translatePageAddress entries page =
      match findInPteg entries (mmu.pattern page false) (mmu.ptegOf page false) with
      | some found => some found
      | none =>
        (findInPteg entries (mmu.pattern page true) (mmu.ptegOf page true)).map fun found =>
          (found.1 + 8, found.2) := by
  rw [translatePageAddress, ht, if_neg nofun]
  rfl

theorem translatePageAddress_eq_some {entries : Entries} {page : EffectivePage} {p : Nat}
    (ht : (mmu.sr page.sr).t = false) (hp : p < 16) (hstands : mmu.Stands entries page p)
    (hfirst : ∀ q < p, ¬ mmu.Stands entries page q) :
    mmu.translatePageAddress entries page = some (p, (entries (mmu.slotOf page p)).hi) := by
  rw [translatePageAddress_eq mmu ht]
  rcases Nat.lt_or_ge p 8 with hlow | hhigh
  · have hside : decide (8 ≤ p) = false := decide_eq_false (by omega)
    have hplace : (Fin.ofNat 8 p).val = p := Nat.mod_eq_of_lt hlow
    rw [Stands, slotOf, hside] at hstands
    have hfound := findInPteg_eq_some hstands fun i hi hat => hfirst i.val (by omega) (by
      rw [Stands, slotOf, decide_eq_false (by omega), Fin.ofNat_val_eq_self]
      exact hat)
    rw [hfound, slotOf, hside, hplace]
  · have hside : decide (8 ≤ p) = true := decide_eq_true hhigh
    have hplace : (Fin.ofNat 8 p).val = p - 8 := by
      change p % 8 = p - 8
      omega
    rw [Stands, slotOf, hside] at hstands
    have hmissing := findInPteg_eq_none fun i hat => hfirst i.val (by omega) (by
      rw [Stands, slotOf, decide_eq_false (by omega), Fin.ofNat_val_eq_self]
      exact hat)
    have hfound := findInPteg_eq_some hstands fun i hi hat => hfirst (i.val + 8) (by omega) (by
      have hi8 : Fin.ofNat 8 (i.val + 8) = i := Fin.ext (by change (i.val + 8) % 8 = i.val; omega)
      rw [Stands, slotOf, decide_eq_true (by omega), hi8]
      exact hat)
    rw [hmissing, hfound, slotOf, hside, hplace]
    exact congrArg (fun n => some (n, _)) (Nat.sub_add_cancel hhigh)

end Mmu
end DolphinXR.PowerPC
