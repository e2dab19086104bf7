import DolphinXR.Core.PPCCache

/- What the ways of the cache hold. `Consistent` says that the lookup tables name just the valid ways
   that hold a line, and that an unmodified block has the bytes of memory; `contents` are the bytes
   that a program finds, in the cache or behind it. Cleaning a way, dropping a clean one and loading
   a line into a free one keep both. -/
namespace DolphinXR.PowerPC
open Lib

namespace Cached
variable {mm : MemoryManager} {s : Cached} {a b x set way : Nat}

def Holds (s : Cached) (a way : Nat) : Prop :=
  way < 8 ∧ s.isValid (setOf a) way ∧ s.addrs (setOf a) way = a

theorem Holds.lt (h : s.Holds a way) : way < 8 := h.1

theorem Holds.valid (h : s.Holds a way) : s.isValid (setOf a) way := h.2.1

theorem Holds.addr (h : s.Holds a way) : s.addrs (setOf a) way = a := h.2.2

theorem Holds.ne_noWay (h : s.Holds a way) : way ≠ noWay := by
  have hlt := h.lt
  unfold noWay
  omega

structure Consistent (mm : MemoryManager) (s : Cached) : Prop where
  names : ∀ a, IsLine mm a → ∀ way, way ≠ noWay → (s.lookupOf mm a = way ↔ s.Holds a way)
  lines : ∀ set way, way < 8 → s.isValid set way →
    IsLine mm (s.addrs set way) ∧ setOf (s.addrs set way) = set
  clean : ∀ set way, way < 8 → s.isValid set way → ¬ s.isModified set way →
    Copyable mm (s.addrs set way) → ∀ i, i < 32 →
    s.data set way i = byteAt s.memory (s.addrs set way + i)
  dirty : ∀ set way, way < 8 → s.isValid set way → s.isModified set way →
    Copyable mm (s.addrs set way)

def contents (mm : MemoryManager) (s : Cached) (x : Nat) : UInt8 :=
  if s.lookupOf mm (lineOf x) = noWay then byteAt s.memory x
  else s.data (setOf x) (s.lookupOf mm (lineOf x)) (x % 32)

def SameContents (mm : MemoryManager) (s s' : Cached) : Prop :=
  ∀ x, InRegion mm x → Copyable mm x → s'.contents mm x = s.contents mm x

theorem SameContents.trans {s' s'' : Cached} (h : SameContents mm s s')
    (h' : SameContents mm s' s'') : SameContents mm s s'' :=
  fun x hx hc => (h' x hx hc).trans (h x hx hc)

/-! ### Bits and entries -/

theorem getLsbD_wayBit (hway : way < 8) (i : Nat) : (wayBit way).getLsbD i = decide (i = way) := by
  have hpow : wayBit way = BitVec.twoPow 8 way := rfl
  rw [hpow, BitVec.getLsbD_twoPow, decide_eq_true hway, Bool.true_and]
  exact decide_eq_decide.2 eq_comm

theorem getLsbD_or_wayBit (hway : way < 8) (v : BitVec 8) (i : Nat) :
    (v ||| wayBit way).getLsbD i = (v.getLsbD i || decide (i = way)) := by
  rw [BitVec.getLsbD_or, getLsbD_wayBit hway]

theorem getLsbD_and_not_wayBit (hway : way < 8) (v : BitVec 8) (i : Nat) :
    (v &&& ~~~wayBit way).getLsbD i = (v.getLsbD i && decide (i ≠ way)) := by
  rw [BitVec.getLsbD_and, BitVec.getLsbD_not, getLsbD_wayBit hway]
  by_cases hi : i < 8
  · simp [hi]
  · simp [BitVec.getLsbD_of_ge v i (by omega)]

theorem lookupOf_setLookup (ha : IsLine mm a) (hb : IsLine mm b) (way : Nat) :
    (setLookup mm a way s).lookupOf mm b = if b = a then way else s.lookupOf mm b := by
  simp only [lookupOf, setLookup]
  by_cases hab : b = a
  · subst hab
    simp
  · rw [if_neg hab]
    have hne : tableIndex mm b ≠ tableIndex mm a := fun h => hab (tableIndex_injective hb ha h)
    by_cases htable : (tableIndex mm b).1 = (tableIndex mm a).1
    · have hindex : (tableIndex mm b).2 ≠ (tableIndex mm a).2 := fun h => hne (Prod.ext htable h)
      rw [htable, Function.update_self, Function.update_of_ne hindex]
    · rw [Function.update_of_ne htable]

theorem Consistent.unique (h : s.Consistent mm) (ha : IsLine mm a) {way way' : Nat}
    (hway : s.Holds a way) (hway' : s.Holds a way') : way = way' :=
  ((h.names a ha way hway.ne_noWay).2 hway).symm.trans
    ((h.names a ha way' hway'.ne_noWay).2 hway')

theorem Consistent.lookupOf_eq (h : s.Consistent mm) (ha : IsLine mm a) (hway : s.Holds a way) :
    s.lookupOf mm a = way := (h.names a ha way hway.ne_noWay).2 hway

theorem Consistent.holds (h : s.Consistent mm) (hway : way < 8) (hvalid : s.isValid set way) :
    s.Holds (s.addrs set way) way := by
  obtain ⟨-, hset⟩ := h.lines set way hway hvalid
  exact ⟨hway, by rw [hset]; exact hvalid, by rw [hset]⟩

theorem Consistent.contents_of_holds (h : s.Consistent mm) (hx : InRegion mm x)
    (hway : s.Holds (lineOf x) way) : s.contents mm x = s.data (setOf x) way (x % 32) := by
  rw [contents, h.lookupOf_eq hx.isLine hway, if_neg hway.ne_noWay]

theorem contents_of_absent (h : s.lookupOf mm (lineOf x) = noWay) :
    s.contents mm x = byteAt s.memory x := by rw [contents, if_pos h]

theorem Consistent.contents_of_clean (h : s.Consistent mm) (hx : InRegion mm x)
    (hc : Copyable mm x) (hway : s.Holds (lineOf x) way) (hclean : ¬ s.isModified (setOf x) way) :
    s.contents mm x = byteAt s.memory x := by
  have hset : setOf (lineOf x) = setOf x := setOf_lineOf x
  have haddr : s.addrs (setOf x) way = lineOf x := by rw [← hset, hway.addr]
  have hvalid : s.isValid (setOf x) way := by rw [← hset]; exact hway.valid
  have hcopy : Copyable mm (lineOf x) := by
    unfold Copyable
    rw [lineOf_lineOf]
    exact hc
  have hbyte := h.clean (setOf x) way hway.lt hvalid hclean (by rw [haddr]; exact hcopy) (x % 32)
    (Nat.mod_lt x (by decide))
  have hsplit : lineOf x + x % 32 = x := by
    unfold lineOf
    omega
  rw [h.contents_of_holds hx hway, hbyte, haddr, hsplit]

/-! ### A way is cleaned, dropped or loaded -/

def cleanWay (mm : MemoryManager) (set way : Nat) (s : Cached) : Cached :=
  let s := writeBack mm (s.addrs set way) set way s
  { s with modified := Function.update s.modified set (s.modified set &&& ~~~wayBit way) }

/-- A way is forgotten. -/
def dropWay (mm : MemoryManager) (set way : Nat) (s : Cached) : Cached :=
  let s := setLookup mm (s.addrs set way) noWay s
  { s with
    valid := Function.update s.valid set (s.valid set &&& ~~~wayBit way)
    modified := Function.update s.modified set (s.modified set &&& ~~~wayBit way) }

theorem length_block (s : Cached) (set way : Nat) : (s.block set way).length = 32 := by
  simp [block]

theorem getD_block (s : Cached) (set way : Nat) {i : Nat} (h : i < 32) :
    (s.block set way).getD i 0 = s.data set way i := by
  simp [block, h]

theorem Consistent.byteAt_writeBack (h : s.Consistent mm) (hway : way < 8)
    (hvalid : s.isValid set way) (x : Nat) :
    byteAt (writeBack mm (s.addrs set way) set way s).memory x =
      if s.isModified set way ∧ lineOf x = s.addrs set way then s.data set way (x % 32)
      else byteAt s.memory x := by
  obtain ⟨hline, -⟩ := h.lines set way hway hvalid
  have haligned := hline.aligned
  unfold writeBack
  by_cases hmodified : s.isModified set way
  · have hcopy := h.dirty set way hway hvalid hmodified
    rw [if_pos hmodified, byteAt_copyToEmu hline.inRegion hcopy (by
      rw [length_block, hline.lineOf]), length_block]
    by_cases hx : lineOf x = s.addrs set way
    · have hle := lineOf_le x
      have hlt := lt_lineOf_add x
      have hoffset : x - s.addrs set way = x % 32 := by
        rw [← hx]
        unfold lineOf
        omega
      rw [if_pos (by omega), if_pos ⟨hmodified, hx⟩, hoffset,
        getD_block s set way (Nat.mod_lt x (by decide))]
    · have hout : ¬ (s.addrs set way ≤ x ∧ x < s.addrs set way + 32) := fun hin =>
        hx (lineOf_of_mem haligned hin.1 hin.2)
      rw [if_neg hout, if_neg fun hin => hx hin.2]
  · rw [if_neg hmodified, if_neg fun hin => hmodified hin.1]

theorem writeBack_eq (mm : MemoryManager) (a set way : Nat) (s : Cached) :
    ∃ memory, writeBack mm a set way s = { s with memory } := by
  unfold writeBack
  split
  · exact ⟨_, rfl⟩
  · exact ⟨s.memory, rfl⟩

theorem Consistent.place_unique (h : s.Consistent mm) {set' way' : Nat} (hway : way < 8)
    (hvalid : s.isValid set way) (hway' : way' < 8) (hvalid' : s.isValid set' way')
    (heq : s.addrs set' way' = s.addrs set way) : set' = set ∧ way' = way := by
  obtain ⟨hline, hset⟩ := h.lines set way hway hvalid
  obtain ⟨-, hset'⟩ := h.lines set' way' hway' hvalid'
  have hholds := h.holds hway hvalid
  have hholds' := h.holds hway' hvalid'
  rw [heq] at hholds' hset'
  exact ⟨hset'.symm.trans hset, h.unique hline hholds' hholds⟩

theorem getLsbD_clear (set : Nat) (hway : way < 8) (v : Nat → BitVec 8) (set' way' : Nat) :
    (Function.update v set (v set &&& ~~~wayBit way) set').getLsbD way' =
      ((v set').getLsbD way' && !decide (set' = set ∧ way' = way)) := by
  by_cases hset : set' = set
  · subst hset
    rw [Function.update_self, getLsbD_and_not_wayBit hway]
    simp
  · rw [Function.update_of_ne hset]
    simp [hset]

theorem Consistent.cleanWay (h : s.Consistent mm) (hway : way < 8) (hvalid : s.isValid set way) :
    (cleanWay mm set way s).Consistent mm ∧ SameContents mm s (cleanWay mm set way s) := by
  obtain ⟨memory, hmemory⟩ := writeBack_eq mm (s.addrs set way) set way s
  have hbyte := h.byteAt_writeBack hway hvalid
  rw [hmemory] at hbyte
  simp only [Cached.cleanWay, hmemory]
  obtain ⟨hline, -⟩ := h.lines set way hway hvalid
  refine ⟨⟨h.names, h.lines, ?_, ?_⟩, ?_⟩
  · intro set' way' hway' hvalid' hclean hcopy i hi
    have hmem : lineOf (s.addrs set' way' + i) = s.addrs set' way' :=
      lineOf_of_mem (h.lines set' way' hway' hvalid').1.aligned (by omega) (by omega)
    have hmod : (s.addrs set' way' + i) % 32 = i := by
      have haligned := (h.lines set' way' hway' hvalid').1.aligned
      omega
    show s.data set' way' i = byteAt memory (s.addrs set' way' + i)
    rw [hbyte, hmem, hmod]
    by_cases hplace : set' = set ∧ way' = way
    · obtain ⟨rfl, rfl⟩ := hplace
      split
      · rfl
      · next hmodified =>
        exact h.clean _ _ hway' hvalid' (fun hm => hmodified ⟨hm, rfl⟩) hcopy i hi
    · rw [if_neg fun hin => hplace (h.place_unique hway hvalid hway' hvalid' hin.2)]
      refine h.clean _ _ hway' hvalid' (fun hm => hclean ?_) hcopy i hi
      show (Function.update s.modified set _ set').getLsbD way' = true
      rw [getLsbD_clear set hway s.modified set' way', show (s.modified set').getLsbD way' = true from hm]
      simp [hplace]
  · intro set' way' hway' hvalid' hmodified
    refine h.dirty _ _ hway' hvalid' ?_
    have hm : (Function.update s.modified set _ set').getLsbD way' = true := hmodified
    rw [getLsbD_clear set hway s.modified set' way', Bool.and_eq_true] at hm
    exact hm.1
  · intro x hx hc
    by_cases hlookup : s.lookupOf mm (lineOf x) = noWay
    · rw [contents_of_absent hlookup, contents]
      refine (if_pos hlookup).trans ((hbyte x).trans (if_neg ?_))
      rintro ⟨-, heq⟩
      have hholds := h.holds hway hvalid
      exact hholds.ne_noWay ((h.lookupOf_eq hline hholds).symm.trans (heq ▸ hlookup))
    · rw [contents, contents, if_neg hlookup]
      exact if_neg hlookup

theorem isValid_dropWay (hway : way < 8) (set' way' : Nat) :
    (dropWay mm set way s).isValid set' way' ↔
      s.isValid set' way' ∧ ¬ (set' = set ∧ way' = way) := by
  have hbit : (dropWay mm set way s).isValid set' way' =
    (s.isValid set' way' && !decide (set' = set ∧ way' = way)) :=
    getLsbD_clear set hway s.valid set' way'
  rw [hbit, Bool.and_eq_true, Bool.not_eq_true', decide_eq_false_iff_not]

theorem isModified_dropWay (hway : way < 8) (set' way' : Nat) :
    (dropWay mm set way s).isModified set' way' ↔
      s.isModified set' way' ∧ ¬ (set' = set ∧ way' = way) := by
  have hbit : (dropWay mm set way s).isModified set' way' =
    (s.isModified set' way' && !decide (set' = set ∧ way' = way)) :=
    getLsbD_clear set hway s.modified set' way'
  rw [hbit, Bool.and_eq_true, Bool.not_eq_true', decide_eq_false_iff_not]

theorem holds_dropWay (hway : way < 8) (b way' : Nat) :
    (dropWay mm set way s).Holds b way' ↔ s.Holds b way' ∧ ¬ (setOf b = set ∧ way' = way) := by
  unfold Holds
  rw [isValid_dropWay hway]
  exact ⟨fun ⟨h1, ⟨h2, h3⟩, h4⟩ => ⟨⟨h1, h2, h4⟩, h3⟩, fun ⟨⟨h1, h2, h4⟩, h3⟩ => ⟨h1, ⟨h2, h3⟩, h4⟩⟩

theorem Consistent.dropWay (h : s.Consistent mm) (hway : way < 8) (hvalid : s.isValid set way)
    (hclean : ¬ s.isModified set way) :
    (dropWay mm set way s).Consistent mm ∧ SameContents mm s (dropWay mm set way s) ∧
      (dropWay mm set way s).lookupOf mm (s.addrs set way) = noWay := by
  obtain ⟨hline, hset⟩ := h.lines set way hway hvalid
  have hlookup : ∀ b, IsLine mm b → (Cached.dropWay mm set way s).lookupOf mm b =
      if b = s.addrs set way then noWay else s.lookupOf mm b :=
    fun b hb => lookupOf_setLookup hline hb noWay
  have hholds := h.holds hway hvalid
  refine ⟨⟨?_, ?_, ?_, ?_⟩, ?_, ?_⟩
  · intro b hb way' hne
    rw [hlookup b hb, holds_dropWay hway]
    by_cases hb' : b = s.addrs set way
    · subst hb'
      rw [if_pos rfl]
      refine iff_of_false (Ne.symm hne) ?_
      rintro ⟨hother, hplace⟩
      exact hplace ⟨hset, h.unique hb hother hholds⟩
    · rw [if_neg hb', h.names b hb way' hne]
      refine (and_iff_left_of_imp fun hb'' hplace => hb' ?_).symm
      obtain ⟨hset', rfl⟩ := hplace
      rw [← hset', hb''.addr]
  · intro set' way' hway' hvalid'
    exact h.lines set' way' hway' ((isValid_dropWay hway set' way').1 hvalid').1
  · intro set' way' hway' hvalid' hnot
    obtain ⟨hold, hplace⟩ := (isValid_dropWay hway set' way').1 hvalid'
    exact h.clean set' way' hway' hold fun hm =>
      hnot ((isModified_dropWay hway set' way').2 ⟨hm, hplace⟩)
  · intro set' way' hway' hvalid' hmodified
    exact h.dirty set' way' hway' ((isValid_dropWay hway set' way').1 hvalid').1
      ((isModified_dropWay hway set' way').1 hmodified).1
  · intro x hx hc
    have hthere := hlookup (lineOf x) hx.isLine
    by_cases heq : lineOf x = s.addrs set way
    · have hx_holds : s.Holds (lineOf x) way := heq ▸ hholds
      have hset_eq : setOf x = set := by rw [← setOf_lineOf, heq, hset]
      rw [h.contents_of_clean hx hc hx_holds (hset_eq ▸ hclean)]
      exact contents_of_absent (by rw [hthere, if_pos heq])
    · rw [contents, contents, hthere, if_neg heq]
      rfl
  · rw [hlookup _ hline, if_pos rfl]

theorem getLsbD_set (set : Nat) (hway : way < 8) (v : Nat → BitVec 8) (set' way' : Nat) :
    (Function.update v set (v set ||| wayBit way) set').getLsbD way' =
      ((v set').getLsbD way' || decide (set' = set ∧ way' = way)) := by
  by_cases hset : set' = set
  · subst hset
    rw [Function.update_self, getLsbD_or_wayBit hway]
    simp
  · rw [Function.update_of_ne hset]
    simp [hset]

theorem update_place {β : Type} (f : Nat → Nat → β) (set way : Nat) (v : β) (set' way' : Nat) :
    Function.update f set (Function.update (f set) way v) set' way' =
      if set' = set ∧ way' = way then v else f set' way' := by
  by_cases hset : set' = set
  · subst hset
    rw [Function.update_self, Function.update_apply]
    simp
  · rw [Function.update_of_ne hset]
    simp [hset]

theorem addrs_load (mm : MemoryManager) (a set way : Nat) (s : Cached) (set' way' : Nat) :
    (load mm a set way s).addrs set' way' =
      if set' = set ∧ way' = way then a else s.addrs set' way' :=
  update_place s.addrs set way a set' way'

theorem data_load (mm : MemoryManager) (a set way : Nat) (s : Cached) (set' way' : Nat) :
    (load mm a set way s).data set' way' =
      if set' = set ∧ way' = way then
        fun i => (mm.copyFromEmu (s.block set way) a s.memory).getD i 0
      else s.data set' way' :=
  update_place s.data set way _ set' way'

theorem isValid_load (hway : way < 8) (set' way' : Nat) :
    (load mm a set way s).isValid set' way' ↔ s.isValid set' way' ∨ set' = set ∧ way' = way := by
  have hbit : (load mm a set way s).isValid set' way' =
    (s.isValid set' way' || decide (set' = set ∧ way' = way)) :=
    getLsbD_set set hway s.valid set' way'
  rw [hbit, Bool.or_eq_true, decide_eq_true_eq]

theorem isModified_load (hway : way < 8) (set' way' : Nat) :
    (load mm a set way s).isModified set' way' ↔
      s.isModified set' way' ∧ ¬ (set' = set ∧ way' = way) := by
  have hbit : (load mm a set way s).isModified set' way' =
    (s.isModified set' way' && !decide (set' = set ∧ way' = way)) :=
    getLsbD_clear set hway s.modified set' way'
  rw [hbit, Bool.and_eq_true, Bool.not_eq_true', decide_eq_false_iff_not]

theorem holds_load (hway : way < 8) (hfree : ¬ s.isValid (setOf a) way) (b way' : Nat) :
    (load mm a (setOf a) way s).Holds b way' ↔ s.Holds b way' ∨ b = a ∧ way' = way := by
  unfold Holds
  rw [isValid_load hway, addrs_load]
  by_cases hplace : setOf b = setOf a ∧ way' = way
  · rw [if_pos hplace]
    refine ⟨fun ⟨_, _, heq⟩ => .inr ⟨heq.symm, hplace.2⟩, ?_⟩
    rintro (⟨-, hvalid, -⟩ | ⟨rfl, rfl⟩)
    · exact absurd (hplace.1 ▸ hplace.2 ▸ hvalid) hfree
    · exact ⟨hway, .inr hplace, rfl⟩
  · rw [if_neg hplace]
    refine ⟨fun ⟨h1, h2, h3⟩ => .inl ⟨h1, h2.resolve_right hplace, h3⟩, ?_⟩
    rintro (⟨h1, h2, h3⟩ | ⟨rfl, rfl⟩)
    · exact ⟨h1, .inl h2, h3⟩
    · exact absurd ⟨rfl, rfl⟩ hplace

theorem getD_loaded (hline : IsLine mm a) (hc : Copyable mm a) {i : Nat} (hi : i < 32) :
    (mm.copyFromEmu (s.block set way) a s.memory).getD i 0 = byteAt s.memory (a + i) := by
  rw [copyFromEmu_eq hline.inRegion hc (by rw [length_block, hline.lineOf]), length_block]
  simp [hi]

theorem Consistent.load (h : s.Consistent mm) (hline : IsLine mm a) (hway : way < 8)
    (hfree : ¬ s.isValid (setOf a) way) (habsent : s.lookupOf mm a = noWay) :
    (load mm a (setOf a) way s).Consistent mm ∧ SameContents mm s (load mm a (setOf a) way s) ∧
      (load mm a (setOf a) way s).Holds a way := by
  have hlookup : ∀ b, IsLine mm b → (Cached.load mm a (setOf a) way s).lookupOf mm b =
      if b = a then way else s.lookupOf mm b := fun b hb => lookupOf_setLookup hline hb way
  have hnot : ∀ way', ¬ s.Holds a way' := fun way' hb =>
    hb.ne_noWay ((h.lookupOf_eq hline hb).symm.trans habsent)
  have hholds : (Cached.load mm a (setOf a) way s).Holds a way :=
    (holds_load hway hfree a way).2 (.inr ⟨rfl, rfl⟩)
  refine ⟨⟨?_, ?_, ?_, ?_⟩, ?_, hholds⟩
  · intro b hb way' hne
    rw [hlookup b hb, holds_load hway hfree]
    by_cases hba : b = a
    · subst hba
      rw [if_pos rfl]
      exact ⟨fun heq => .inr ⟨rfl, heq.symm⟩, fun hor => (hor.resolve_left (hnot way')).2.symm⟩
    · rw [if_neg hba, h.names b hb way' hne]
      exact ⟨.inl, fun hor => hor.resolve_right fun heq => hba heq.1⟩
  · intro set' way' hway' hvalid'
    rw [addrs_load]
    by_cases hplace : set' = setOf a ∧ way' = way
    · rw [if_pos hplace]
      exact ⟨hline, hplace.1.symm⟩
    · rw [if_neg hplace]
      exact h.lines set' way' hway' (((isValid_load hway set' way').1 hvalid').resolve_right hplace)
  · intro set' way' hway' hvalid' hclean
    rw [addrs_load, data_load]
    by_cases hplace : set' = setOf a ∧ way' = way
    · rw [if_pos hplace, if_pos hplace]
      exact fun hc i hi => getD_loaded hline hc hi
    · rw [if_neg hplace, if_neg hplace]
      exact h.clean set' way' hway' (((isValid_load hway set' way').1 hvalid').resolve_right hplace)
        fun hm => hclean ((isModified_load hway set' way').2 ⟨hm, hplace⟩)
  · intro set' way' hway' hvalid' hmodified
    obtain ⟨hm, hplace⟩ := (isModified_load hway set' way').1 hmodified
    rw [addrs_load, if_neg hplace]
    exact h.dirty set' way' hway'
      (((isValid_load hway set' way').1 hvalid').resolve_right hplace) hm
  · intro x hx hc
    have hthere := hlookup (lineOf x) hx.isLine
    by_cases heq : lineOf x = a
    · have habsent' : s.lookupOf mm (lineOf x) = noWay := by rw [heq, habsent]
      have hset : setOf x = setOf a := by rw [← setOf_lineOf, heq]
      have hcopy : Copyable mm a := by
        rw [Copyable, hline.lineOf, ← heq]
        exact hc
      have hsplit : a + x % 32 = x := by
        rw [← heq]
        unfold lineOf
        omega
      rw [contents_of_absent habsent', contents, hthere, if_pos heq, if_neg hholds.ne_noWay,
        data_load, if_pos ⟨hset, rfl⟩, getD_loaded hline hcopy (Nat.mod_lt x (by decide)), hsplit]
    · rw [contents, contents, hthere, if_neg heq]
      by_cases hnone : s.lookupOf mm (lineOf x) = noWay
      · rw [if_pos hnone, if_pos hnone]
        rfl
      · have hb := (h.names (lineOf x) hx.isLine _ hnone).1 rfl
        have hplace : ¬ (setOf x = setOf a ∧ s.lookupOf mm (lineOf x) = way) := by
          rintro ⟨hset, heq'⟩
          exact hfree (by rw [← hset, ← heq', ← setOf_lineOf]; exact hb.valid)
        rw [if_neg hnone, if_neg hnone, data_load, if_neg hplace]

/-! ### A way is taken from its line -/

theorem or_clear (v b : BitVec 8) : v &&& ~~~b ||| b = v ||| b := by
  apply BitVec.eq_of_getLsbD_eq
  intro i hi
  rw [BitVec.getLsbD_or, BitVec.getLsbD_and, BitVec.getLsbD_not, BitVec.getLsbD_or]
  cases v.getLsbD i <;> cases b.getLsbD i <;> simp [hi]

theorem clear_clear (v b : BitVec 8) : v &&& ~~~b &&& ~~~b = v &&& ~~~b := by
  rw [BitVec.and_assoc, BitVec.and_self]

def evictWay (mm : MemoryManager) (set way : Nat) (s : Cached) : Cached :=
  dropWay mm set way (cleanWay mm set way s)

theorem evictWay_eq (mm : MemoryManager) (set way : Nat) (s : Cached) :
    evictWay mm set way s =
      let t := setLookup mm (s.addrs set way) noWay (writeBack mm (s.addrs set way) set way s)
      { t with
        valid := Function.update t.valid set (t.valid set &&& ~~~wayBit way)
        modified := Function.update t.modified set (t.modified set &&& ~~~wayBit way) } := by
  obtain ⟨memory, hmemory⟩ := writeBack_eq mm (s.addrs set way) set way s
  simp only [evictWay, dropWay, cleanWay, setLookup, hmemory, Function.update_idem,
    Function.update_self, clear_clear]

theorem load_evictWay (mm : MemoryManager) (a set way : Nat) (s : Cached) :
    load mm a set way (evictWay mm set way s) = load mm a set way
      (setLookup mm (s.addrs set way) noWay (writeBack mm (s.addrs set way) set way s)) := by
  rw [evictWay_eq]
  simp only [load, setLookup, block, Function.update_idem, Function.update_self, clear_clear,
    or_clear]

theorem Consistent.evictWay (h : s.Consistent mm) (hway : way < 8) (hvalid : s.isValid set way) :
    (evictWay mm set way s).Consistent mm ∧ SameContents mm s (evictWay mm set way s) ∧
      ¬ (evictWay mm set way s).isValid set way ∧
      ∀ b, IsLine mm b → s.lookupOf mm b = noWay →
        (evictWay mm set way s).lookupOf mm b = noWay := by
  obtain ⟨hclean, hsame⟩ := h.cleanWay hway hvalid
  obtain ⟨memory, hmemory⟩ := writeBack_eq mm (s.addrs set way) set way s
  have hvalid' : (Cached.cleanWay mm set way s).isValid set way := by
    simp only [Cached.cleanWay, hmemory]
    exact hvalid
  have hlookup : ∀ b, (Cached.cleanWay mm set way s).lookupOf mm b = s.lookupOf mm b := by
    intro b
    simp only [Cached.cleanWay, hmemory]
    rfl
  have hmodified : ¬ (Cached.cleanWay mm set way s).isModified set way := by
    simp only [Cached.cleanWay, hmemory]
    show ¬ (Function.update s.modified set _ set).getLsbD way = true
    rw [getLsbD_clear set hway s.modified set way]
    simp
  obtain ⟨hdrop, hsame', -⟩ := hclean.dropWay hway hvalid' hmodified
  refine ⟨hdrop, hsame.trans hsame', ?_, fun b hb hnone => ?_⟩
  · show ¬ (Cached.dropWay mm set way (Cached.cleanWay mm set way s)).isValid set way = true
    rw [isValid_dropWay hway]
    simp
  · have hthere := lookupOf_setLookup (s := Cached.cleanWay mm set way s)
      (hclean.lines set way hway hvalid').1 hb noWay
    refine hthere.trans ?_
    rw [hlookup, hnone]
    exact ite_self noWay

end Cached
end DolphinXR.PowerPC
