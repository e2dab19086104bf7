import DolphinXR.Core.PageTableUpdates

/- The two passes of an update. Each keeps the invariant from entry to entry, in the order of the
   walk, so that in the end the copy is the new table and the mappings are those of the entries
   with priority.

   On the host the memory manager has nothing but pages that are to be mapped, which removing and
   adding pages keeps, also where a page of the host has many of the guest: that is mapped only
   while all of them lie behind one another. -/
namespace DolphinXR.PowerPC

namespace Mmu

section
variable {mmu : Mmu} {new : Entries} {seen : List Slot}
  {before : EffectivePage → Option (BitVec 20 × Bool)} {u : Update} {slot : Slot}
  {page : EffectivePage}

/-! ### From entry to entry -/

def done1 (mmu : Mmu) (seen : List Slot) (page : EffectivePage) (p : Nat) : Prop :=
  p < 8 ∧ mmu.slotOf page p ∈ seen

def done2 (mmu : Mmu) (seen : List Slot) (page : EffectivePage) (p : Nat) : Prop :=
  p < 8 ∨ mmu.slotOf page p ∈ seen

theorem lt_of_order {p q : Nat} (horder : ∀ t ∈ seen, t.pteg = slot.pteg → t.place < slot.place)
    (hq : mmu.slotOf page q ∈ seen) (hat : mmu.slotOf page p = slot) (hq16 : q < 16)
    (hside : 8 ≤ q ↔ 8 ≤ p) : q < p := by
  have hlt : q % 8 < (Fin.ofNat 8 p).val := by
    have hpteg : (mmu.slotOf page q).pteg = slot.pteg := by
      rw [← hat]
      exact congrArg (mmu.ptegOf page) (decide_eq_decide.2 hside)
    have hplace := horder _ hq hpteg
    rw [← hat] at hplace
    exact hplace
  have hval : (Fin.ofNat 8 p).val = p % 8 := rfl
  omega

theorem visit1_invariant (hu : mmu.Invariant new seen (mmu.done1 seen) before u)
    (hnew : mmu.Placed new) (hslot : slot ∈ mmu.slots mmu.pageTableSize)
    (horder : ∀ t ∈ seen, t.pteg = slot.pteg → t.place < slot.place) :
    mmu.Invariant new (seen ++ [slot]) (mmu.done1 (seen ++ [slot])) before
      (mmu.visit1 new u slot) := by
  have hmono : ∀ page p, mmu.done1 seen page p → mmu.done1 (seen ++ [slot]) page p :=
    fun page p h => ⟨h.1, List.mem_append_left _ h.2⟩
  have hfresh : slot ∉ seen := fun hmem => Nat.lt_irrefl _ (horder slot hmem rfl)
  -- Where nothing is stored the entry is visited all the same.
  have hleave : ∀ v, mmu.Invariant new seen (mmu.done1 seen) before v → mmu.Visited new v slot →
      mmu.Invariant new (seen ++ [slot]) (mmu.done1 (seen ++ [slot])) before v := by
    intro v hv hvisited
    refine ⟨hv.consistent, ⟨hv.tracked.kept, fun page rpn w hlisted => ?_⟩, fun t ht => ?_⟩
    · obtain ⟨hhost, m, hm, hmdone⟩ := hv.tracked.listed page rpn w hlisted
      exact ⟨hhost, m, hm, hmono page _ hmdone⟩
    · rcases List.mem_append.1 ht with ht | ht
      · exact hv.visited t ht
      · rw [List.mem_singleton.1 ht]
        exact hvisited
  unfold visit1
  split
  case isTrue hequal => exact hleave u hu (.inl hequal)
  case isFalse hne =>
    obtain ⟨v, hremove, hv, hold, hgone⟩ := removeMappings_spec hu hslot hne horder fun page p hat h =>
      hfresh (hat ▸ h.2)
    rw [hremove]
    dsimp only
    have hquiet : ∀ page m, v.mappings page = some m → mmu.slotOf page m.priority = slot →
        (v.old slot).quiet = (new slot).quiet := fun page m hm hat => absurd hat (hgone page m hm)
    cases hnv : (new slot).lo.v with
    | false =>
      rw [if_neg Bool.false_ne_true]
      refine (stored_copyEntry hnv).invariant hv hnew hslot hquiet ?_ hmono ?_
      · intro page p q _ hat hstands
        rw [Stands, hat] at hstands
        rw [hstands] at hnv
        cases hnv
      · intro page p hat hstands
        rw [Stands, hat] at hstands
        rw [hstands] at hnv
        cases hnv
    | true =>
      rw [if_pos rfl]
      have hprimary : ∀ page p, mmu.slotOf page p = slot → mmu.Stands new page p →
          (new slot).lo.h = decide (8 ≤ p) := by
        intro page p hat hstands
        rw [Stands, hat] at hstands
        rw [hstands]
        rfl
      cases hnh : (new slot).lo.h with
      | true =>
        rw [if_pos rfl]
        have hc := hv.consistent
        refine hleave _ ⟨⟨hc.placed, hc.mapped, hc.shadowed, hc.changed⟩,
          ⟨hv.tracked.kept, hv.tracked.listed⟩, fun t ht => ?_⟩ (.inr ⟨hnv, hnh, rfl, hquiet⟩)
        exact (hv.visited t ht).imp_right fun h => ⟨h.1, h.2.1, rfl, h.2.2.2⟩
      | false =>
        rw [if_neg Bool.false_ne_true]
        refine (stored_tryAddMapping hnv).invariant hv hnew hslot hquiet ?_ hmono ?_
        · intro page p q hq hat hstands hdone
          have hp := of_decide_eq_false ((hprimary page p hat hstands).symm.trans hnh)
          have hlow := hdone.1
          exact lt_of_order horder hdone.2 hat hq (by omega)
        · intro page p hat hstands
          have hp := of_decide_eq_false ((hprimary page p hat hstands).symm.trans hnh)
          exact ⟨by omega, List.mem_append_right _ (List.mem_singleton.2 hat)⟩

theorem visit2_invariant
    (hu : mmu.Invariant new (mmu.slots mmu.pageTableSize) (mmu.done2 seen) before u)
    (hequal : ∀ t ∈ seen, u.old t = new t)
    (hnew : mmu.Placed new) (hslot : slot ∈ mmu.slots mmu.pageTableSize)
    (horder : ∀ t ∈ seen, t.pteg = slot.pteg → t.place < slot.place) :
    mmu.Invariant new (mmu.slots mmu.pageTableSize) (mmu.done2 (seen ++ [slot])) before
        (mmu.visit2 new u slot) ∧
      ∀ t ∈ seen ++ [slot], (mmu.visit2 new u slot).old t = new t := by
  have hmono : ∀ page p, mmu.done2 seen page p → mmu.done2 (seen ++ [slot]) page p :=
    fun page p h => h.imp_right (List.mem_append_left _)
  unfold visit2
  split
  case isTrue hsame =>
    refine ⟨⟨hu.consistent, ⟨hu.tracked.kept, fun page rpn w hlisted => ?_⟩, hu.visited⟩, ?_⟩
    · obtain ⟨hhost, m, hm, hmdone⟩ := hu.tracked.listed page rpn w hlisted
      exact ⟨hhost, m, hm, hmono page _ hmdone⟩
    · intro t ht
      rcases List.mem_append.1 ht with ht | ht
      · exact hequal t ht
      · rwa [List.mem_singleton.1 ht]
  case isFalse hne =>
    obtain ⟨hnv, hnh, -, hquiet⟩ := (hu.visited slot hslot).resolve_left hne
    have hsecondary : ∀ page p, mmu.slotOf page p = slot → mmu.Stands new page p → 8 ≤ p := by
      intro page p hat hstands
      rw [Stands, hat] at hstands
      rw [hstands] at hnh
      exact of_decide_eq_true hnh
    have hstored : Stored mmu new slot u (copyEntry new slot (mmu.tryAddMapping (new slot) slot u)) :=
      stored_tryAddMapping hnv
    have hinv := @Stored.invariant mmu new _ _ (mmu.done2 (seen ++ [slot])) _ _ _ _ hstored hu hnew
      hslot hquiet (fun page p q hq hat hstands hdone => ?_) hmono
      (fun page p hat _ => .inr (List.mem_append_right _ (List.mem_singleton.2 hat)))
    · refine ⟨⟨hinv.consistent, hinv.tracked, fun t ht => ?_⟩, fun t ht => ?_⟩
      · exact hinv.visited t (List.mem_append_left _ ht)
      · rcases eq_or_ne t slot with rfl | hother
        · exact hstored.old_self
        · rw [hstored.old_of_ne hother]
          refine hequal t ((List.mem_append.1 ht).resolve_right fun h => ?_)
          exact hother (List.mem_singleton.1 h)
    · have hp := hsecondary page p hat hstands
      rcases Nat.lt_or_ge q 8 with hlow | hhigh
      · omega
      · rcases hdone with hdone | hdone
        · omega
        · exact lt_of_order horder hdone hat hq (by omega)

theorem pairwise_slots : (mmu.slots mmu.pageTableSize).Pairwise
    fun t s => t.pteg = s.pteg → t.place < s.place :=
  mmu.slots_order mmu.pageTableSize_spec.2.2

theorem bothPasses_invariant (hu : mmu.Consistent new u) (hnew : mmu.Placed new)
    (hreadonly : u.addedReadonly = []) (hreadwrite : u.addedReadwrite = []) :
    mmu.Consistent new (mmu.bothPasses mmu.pageTableSize new u) ∧
      mmu.Tracked (fun _ _ => True) (mmu.host u) (mmu.bothPasses mmu.pageTableSize new u) ∧
      ∀ slot ∈ mmu.slots mmu.pageTableSize,
        (mmu.bothPasses mmu.pageTableSize new u).old slot = new slot := by
  have hstart : mmu.Tracked (mmu.done1 []) (mmu.host u) u := by
    refine ⟨fun _ => .inl rfl, fun page rpn w hlisted => ?_⟩
    unfold Update.Listed at hlisted
    rw [hreadonly, hreadwrite, ite_self] at hlisted
    exact absurd hlisted List.not_mem_nil
  have hfirst := foldl_done
    (motive := fun seen v => mmu.Invariant new seen (mmu.done1 seen) (mmu.host u) v)
    pairwise_slots (f := mmu.visit1 new) (b := u)
    ⟨hu, hstart, fun _ h => absurd h List.not_mem_nil⟩
    (fun seen slot v hslot horder hv => visit1_invariant hv hnew hslot horder)
  rw [← @pass_eq mmu new _ fun _ _ => mmu.visit1_of_equal] at hfirst
  unfold bothPasses
  dsimp only
  split
  case isFalse hrun =>
    refine ⟨hfirst.consistent, ⟨hfirst.tracked.kept, fun page rpn w hlisted => ?_⟩, ?_⟩
    · obtain ⟨hhost, m, hm, -⟩ := hfirst.tracked.listed page rpn w hlisted
      exact ⟨hhost, m, hm, trivial⟩
    · intro slot hslot
      exact (hfirst.visited slot hslot).resolve_right fun h => hrun h.2.2.1
  case isTrue =>
    have hmiddle : mmu.Tracked (mmu.done2 []) (mmu.host u)
        (mmu.pass (mmu.visit1 new) mmu.pageTableSize new u) := by
      refine ⟨hfirst.tracked.kept, fun page rpn w hlisted => ?_⟩
      obtain ⟨hhost, m, hm, hmdone⟩ := hfirst.tracked.listed page rpn w hlisted
      exact ⟨hhost, m, hm, .inl hmdone.1⟩
    have hsecond := foldl_done
      (motive := fun seen v =>
        mmu.Invariant new (mmu.slots mmu.pageTableSize) (mmu.done2 seen) (mmu.host u) v ∧
          ∀ t ∈ seen, v.old t = new t)
      pairwise_slots (f := mmu.visit2 new)
      (b := mmu.pass (mmu.visit1 new) mmu.pageTableSize new u)
      ⟨⟨hfirst.consistent, hmiddle, hfirst.visited⟩, fun _ h => absurd h List.not_mem_nil⟩
      (fun seen slot v hslot horder hv => visit2_invariant hv.1 hv.2 hnew hslot horder)
    rw [← @pass_eq mmu new _ fun _ _ => mmu.visit2_of_equal] at hsecond
    obtain ⟨hlast, hequal⟩ := hsecond
    refine ⟨hlast.consistent, ⟨hlast.tracked.kept, fun page rpn w hlisted => ?_⟩, hequal⟩
    obtain ⟨hhost, m, hm, -⟩ := hlast.tracked.listed page rpn w hlisted
    exact ⟨hhost, m, hm, trivial⟩

/-! ### The mappings of a table -/

def firstStanding (mmu : Mmu) (entries : Entries) (page : EffectivePage) : Option Nat :=
  (List.range 16).find? fun p => (entries (mmu.slotOf page p)).lo = mmu.pattern page (decide (8 ≤ p))

/-- The mappings of a table: for each page that of the entry with priority. -/
def tracked (mmu : Mmu) (entries : Entries) (page : EffectivePage) : Option PageMapping :=
  if (mmu.sr page.sr).t then none
  else
    (mmu.firstStanding entries page).map fun p =>
      mmu.mappingOf (entries (mmu.slotOf page p)).hi page p

theorem firstStanding_eq_some {entries : Entries} {p : Nat} :
    mmu.firstStanding entries page = some p ↔
      p < 16 ∧ mmu.Stands entries page p ∧ ∀ q < p, ¬ mmu.Stands entries page q := by
  unfold firstStanding
  rw [List.find?_range_eq_some, List.mem_range, decide_eq_true_iff]
  simp only [Bool.not_eq_true', decide_eq_false_iff_not]
  exact ⟨fun ⟨h, hp, hq⟩ => ⟨hp, h, hq⟩, fun ⟨hp, h, hq⟩ => ⟨h, hp, hq⟩⟩

theorem firstStanding_eq_none {entries : Entries} :
    mmu.firstStanding entries page = none ↔ ∀ p < 16, ¬ mmu.Stands entries page p := by
  unfold firstStanding
  rw [List.find?_range_eq_none]
  simp only [Bool.not_eq_true', decide_eq_false_iff_not]
  rfl

theorem Consistent.mappings_eq (hu : mmu.Consistent new u)
    (hequal : ∀ slot ∈ mmu.slots mmu.pageTableSize, u.old slot = new slot) :
    u.mappings = mmu.tracked new := by
  have hold : ∀ page p, u.old (mmu.slotOf page p) = new (mmu.slotOf page p) :=
    fun page p => hequal _ (mmu.slotOf_mem_slots page p)
  funext page
  unfold tracked
  cases hm : u.mappings page with
  | some m =>
    have hmaps := hu.mapped page m hm
    have hstands : mmu.Stands new page m.priority := by
      rw [Stands, ← hold]
      exact hmaps.stands
    have hfirst : mmu.firstStanding new page = some m.priority := by
      refine firstStanding_eq_some.2 ⟨hmaps.priority, hstands, fun q hq hs => ?_⟩
      rcases hu.shadowed page q hmaps.segment (Nat.lt_trans hq hmaps.priority) hs (hold page q) with
        ⟨m', hm', hle⟩ | ⟨q', -, -, hne⟩
      · cases hm.symm.trans hm'
        omega
      · exact hne (hold page q')
    rw [hmaps.segment, if_neg Bool.false_ne_true, hfirst, Option.map_some, ← hold]
    exact congrArg some hmaps.eq
  | none =>
    split
    case isTrue => rfl
    case isFalse ht =>
      rw [Bool.not_eq_true] at ht
      have hnone : mmu.firstStanding new page = none := by
        refine firstStanding_eq_none.2 fun p hp hs => ?_
        rcases hu.shadowed page p ht hp hs (hold page p) with ⟨m', hm', -⟩ | ⟨q, -, -, hne⟩
        · cases hm.symm.trans hm'
        · exact hne (hold page q)
      rw [hnone, Option.map_none]

theorem consistent_tracked {old : Entries} (hold : mmu.Placed old)
    (hchanged : ∀ slot ∈ mmu.slots mmu.pageTableSize, old slot ≠ new slot →
      (old slot).lo.v = true → mmu.getPageIndex (old slot).lo slot.pteg ≠ none) :
    mmu.Consistent new { old := old, mappings := mmu.tracked old } where
  placed := hold
  mapped := by
    intro page m hm
    change mmu.tracked old page = some m at hm
    unfold tracked at hm
    split at hm
    case isTrue => cases hm
    case isFalse ht =>
      obtain ⟨p, hp, rfl⟩ := Option.map_eq_some_iff.1 hm
      obtain ⟨hlt, hstands, -⟩ := firstStanding_eq_some.1 hp
      exact ⟨Bool.eq_false_iff.2 ht, hlt, hstands, rfl⟩
  shadowed := by
    intro page p ht hp hstands hequal
    refine .inl ?_
    have hstands' : mmu.Stands old page p := by
      rw [Stands] at hstands ⊢
      rwa [show old (mmu.slotOf page p) = new (mmu.slotOf page p) from hequal]
    cases hfirst : mmu.firstStanding old page with
    | none => exact absurd hstands' (firstStanding_eq_none.1 hfirst p hp)
    | some q =>
      obtain ⟨-, -, hno⟩ := firstStanding_eq_some.1 hfirst
      refine ⟨mmu.mappingOf (old (mmu.slotOf page q)).hi page q, ?_, ?_⟩
      · change mmu.tracked old page = _
        rw [tracked, ht, if_neg Bool.false_ne_true, hfirst]
        rfl
      · exact Nat.not_lt.1 fun hlt => hno p hlt hstands'
  changed := hchanged

end

/-! ### What the host maps -/

variable {mmu : Mmu}

/-- What the memory manager has is for pages that are to be mapped. -/
structure Backed (mmu : Mmu) (maps : Nat → BitVec 20 → Bool → Prop) (memory : Memory) : Prop where
  readable : ∀ n rpn, memory.readable n = some rpn → ∃ c, maps n rpn c
  writeable : ∀ n rpn, memory.writeable n = some rpn → maps n rpn true
  mapped : ∀ host first w, memory.mapped host = some (first, w) →
    ∀ i < 2 ^ mmu.hostPageBits, ∃ c,
      maps (host * 2 ^ mmu.hostPageBits + i) (first + BitVec.ofNat 20 i) c ∧ (w = true → c = true)

variable {maps maps' : Nat → BitVec 20 → Bool → Prop} {memory : Memory}

theorem Backed.mono (h : mmu.Backed maps memory) (hle : ∀ n rpn c, maps n rpn c → maps' n rpn c) :
    mmu.Backed maps' memory where
  readable := fun n rpn hn => (h.readable n rpn hn).imp (hle n rpn)
  writeable := fun n rpn hn => hle _ _ _ (h.writeable n rpn hn)
  mapped := fun host first w hm i hi => (h.mapped host first w hm i hi).imp fun _ hc =>
    ⟨hle _ _ _ hc.1, hc.2⟩

theorem hostPage_eq {host page i : Nat} (hi : i < 2 ^ mmu.hostPageBits)
    (h : host * 2 ^ mmu.hostPageBits + i = page) : mmu.hostPage page = host := by
  have hpos : 0 < 2 ^ mmu.hostPageBits := Nat.two_pow_pos _
  rw [hostPage, ← h, Nat.mul_comm, Nat.mul_add_div hpos, Nat.div_eq_of_lt hi, Nat.add_zero]

theorem Backed.remove (h : mmu.Backed maps memory) (page : Nat) :
    mmu.Backed (fun n rpn c => n ≠ page ∧ maps n rpn c) (mmu.removePageTableMapping page memory) where
  readable := by
    intro n rpn hn
    change Function.update memory.readable page none n = some rpn at hn
    rcases eq_or_ne n page with rfl | hne
    · rw [Function.update_self] at hn
      cases hn
    · rw [Function.update_of_ne hne] at hn
      exact (h.readable n rpn hn).imp fun c hc => ⟨hne, hc⟩
  writeable := by
    intro n rpn hn
    change Function.update memory.writeable page none n = some rpn at hn
    rcases eq_or_ne n page with rfl | hne
    · rw [Function.update_self] at hn
      cases hn
    · rw [Function.update_of_ne hne] at hn
      exact ⟨hne, h.writeable n rpn hn⟩
  mapped := by
    intro host first w hm i hi
    change Function.update memory.mapped (mmu.hostPage page) none host = some (first, w) at hm
    rcases eq_or_ne host (mmu.hostPage page) with rfl | hne
    · rw [Function.update_self] at hm
      cases hm
    · rw [Function.update_of_ne hne] at hm
      refine (h.mapped host first w hm i hi).imp fun c hc => ⟨⟨?_, hc.1⟩, hc.2⟩
      exact fun heq => hne (hostPage_eq hi heq).symm

theorem Backed.removeAll (h : mmu.Backed maps memory) (removed : List EffectivePage) :
    mmu.Backed (fun n rpn c => (∀ page ∈ removed, n ≠ page.number) ∧ maps n rpn c)
      (removed.foldl (fun m page => mmu.removePageTableMapping page.number m) memory) := by
  induction removed generalizing maps memory with
  | nil => exact h.mono fun n rpn c hc => ⟨fun _ hmem => absurd hmem List.not_mem_nil, hc⟩
  | cons page rest ih =>
    refine (ih (h.remove page.number)).mono fun n rpn c hc => ⟨fun page' hmem => ?_, hc.2.2⟩
    rcases List.mem_cons.1 hmem with rfl | hmem
    · exact hc.2.1
    · exact hc.1 page' hmem

theorem canCreateHostMapping_spec {entries : Nat → Option (BitVec 20)} {host : Nat}
    (h : mmu.canCreateHostMapping entries host = true) :
    ∃ first : BitVec 20, 2 ^ mmu.hostPageBits ∣ first.toNat ∧ ∀ i < 2 ^ mmu.hostPageBits,
      entries (host * 2 ^ mmu.hostPageBits + i) = some (first + BitVec.ofNat 20 i) := by
  unfold canCreateHostMapping at h
  dsimp only at h
  split at h
  case h_1 => cases h
  case h_2 first _ =>
    obtain ⟨haligned, hall⟩ := Bool.and_eq_true_iff.1 h
    refine ⟨first, Nat.dvd_of_mod_eq_zero (of_decide_eq_true haligned), fun i hi => ?_⟩
    exact beq_iff_eq.1 (List.all_eq_true.1 hall i (List.mem_range.2 hi))

theorem first_of_aligned {first : BitVec 20} {i : Nat} (hi : i < 2 ^ mmu.hostPageBits)
    (hdvd : 2 ^ mmu.hostPageBits ∣ first.toNat) :
    BitVec.ofNat 20 ((first + BitVec.ofNat 20 i).toNat / 2 ^ mmu.hostPageBits *
      2 ^ mmu.hostPageBits) = first := by
  have hpos : 0 < 2 ^ mmu.hostPageBits := Nat.two_pow_pos _
  have hpow : 2 ^ mmu.hostPageBits ∣ 2 ^ 20 := Nat.pow_dvd_pow 2 mmu.hostPageBits_le
  obtain ⟨k, hk⟩ := hdvd
  obtain ⟨l, hl⟩ := hpow
  have hlt := first.isLt
  have hkl : k < l := by
    rw [hk, hl] at hlt
    exact Nat.lt_of_mul_lt_mul_left hlt
  have hsum : first.toNat + i < 2 ^ 20 := by
    have hle : 2 ^ mmu.hostPageBits * (k + 1) ≤ 2 ^ mmu.hostPageBits * l := Nat.mul_le_mul_left _ hkl
    rw [hk, hl]
    rw [Nat.mul_add, Nat.mul_one] at hle
    omega
  have hi20 : i < 2 ^ 20 := by omega
  have hval : (first + BitVec.ofNat 20 i).toNat = first.toNat + i := by
    rw [BitVec.toNat_add, BitVec.toNat_ofNat, Nat.mod_eq_of_lt hi20, Nat.mod_eq_of_lt hsum]
  rw [hval, hk, Nat.mul_add_div hpos, Nat.div_eq_of_lt hi, Nat.add_zero, Nat.mul_comm, ← hk]
  exact BitVec.ofNat_toNat ..

theorem Backed.addHost (h : mmu.Backed maps memory) {host : Nat} {first : BitVec 20} {w : Bool}
    (hmaps : ∀ i < 2 ^ mmu.hostPageBits, ∃ c,
      maps (host * 2 ^ mmu.hostPageBits + i) (first + BitVec.ofNat 20 i) c ∧ (w = true → c = true))
    (hunique : ∀ n r r' c c', maps n r c → maps n r' c' → r = r' ∧ c = c') :
    mmu.Backed maps (mmu.addHostPageTableMapping host first w memory) := by
  unfold addHostPageTableMapping
  split
  case isTrue => exact h
  case isFalse =>
    refine ⟨h.readable, h.writeable, fun host' first' w' hm i hi => ?_⟩
    dsimp only at hm
    rcases eq_or_ne host' host with rfl | hne
    · rw [Function.update_self] at hm
      cases hold : memory.mapped host' with
      | none =>
        rw [hold] at hm
        cases hm
        exact hmaps i hi
      | some existing =>
        rw [hold] at hm
        cases hm
        obtain ⟨c, hc, -⟩ := h.mapped host' existing.1 existing.2 hold i hi
        obtain ⟨c', hc', hw⟩ := hmaps i hi
        obtain ⟨-, rfl⟩ := hunique _ _ _ _ _ hc hc'
        exact ⟨c, hc, hw⟩
    · rw [Function.update_of_ne hne] at hm
      exact h.mapped host' first' w' hm i hi

theorem maps_of_canCreate {entries : Nat → Option (BitVec 20)} {page : Nat} {rpn : BitVec 20}
    (hpage : entries page = some rpn)
    (hcan : mmu.canCreateHostMapping entries (mmu.hostPage page) = true) :
    ∀ i < 2 ^ mmu.hostPageBits, entries (mmu.hostPage page * 2 ^ mmu.hostPageBits + i) =
      some (BitVec.ofNat 20 (rpn.toNat / 2 ^ mmu.hostPageBits * 2 ^ mmu.hostPageBits) +
        BitVec.ofNat 20 i) := by
  obtain ⟨first, hdvd, hall⟩ := canCreateHostMapping_spec hcan
  have hpos : 0 < 2 ^ mmu.hostPageBits := Nat.two_pow_pos _
  have hi := Nat.mod_lt page hpos
  have hself : mmu.hostPage page * 2 ^ mmu.hostPageBits + page % 2 ^ mmu.hostPageBits = page := by
    rw [hostPage, Nat.mul_comm]
    exact Nat.div_add_mod ..
  have hrpn := hall _ hi
  rw [hself, hpage] at hrpn
  rw [Option.some.inj hrpn, first_of_aligned hi hdvd]
  exact hall

theorem Backed.add (h : mmu.Backed maps memory) {page : Nat} {rpn : BitVec 20} {w : Bool}
    (hpage : maps page rpn w)
    (hunique : ∀ n r r' c c', maps n r c → maps n r' c' → r = r' ∧ c = c') :
    mmu.Backed maps (mmu.addPageTableMapping page rpn w memory) := by
  unfold addPageTableMapping
  split
  case isTrue => exact h
  case isFalse =>
    dsimp only
    have hreadable : ∀ n r, Function.update memory.readable page (some rpn) n = some r →
        ∃ c, maps n r c := by
      intro n r hn
      rcases eq_or_ne n page with rfl | hne
      · rw [Function.update_self] at hn
        cases hn
        exact ⟨w, hpage⟩
      · rw [Function.update_of_ne hne] at hn
        exact h.readable n r hn
    have hwriteable : ∀ n r, (if w then Function.update memory.writeable page (some rpn)
        else memory.writeable) n = some r → maps n r true := by
      intro n r hn
      cases w with
      | false => exact h.writeable n r hn
      | true =>
        rw [if_pos rfl] at hn
        rcases eq_or_ne n page with rfl | hne
        · rw [Function.update_self] at hn
          cases hn
          exact hpage
        · rw [Function.update_of_ne hne] at hn
          exact h.writeable n r hn
    have hself : w = true → (if w then Function.update memory.writeable page (some rpn)
        else memory.writeable) page = some rpn := by
      rintro rfl
      rw [if_pos rfl, Function.update_self]
    generalize (if w then Function.update memory.writeable page (some rpn)
      else memory.writeable) = pages at hwriteable hself ⊢
    have hbase : mmu.Backed maps { memory with
        readable := Function.update memory.readable page (some rpn), writeable := pages } :=
      ⟨hreadable, hwriteable, h.mapped⟩
    split
    case isFalse => exact hbase
    case isTrue hadd =>
      refine hbase.addHost ?_ hunique
      intro i hi
      cases hw : (w && mmu.canCreateHostMapping pages (mmu.hostPage page)) with
      | true =>
        obtain ⟨hw, hcan⟩ := Bool.and_eq_true_iff.1 hw
        exact ⟨true, hwriteable _ _ (maps_of_canCreate (hself hw) hcan i hi), fun _ => rfl⟩
      | false =>
        rw [hw, Bool.or_false] at hadd
        obtain ⟨c, hc⟩ := hreadable _ _
          (maps_of_canCreate (Function.update_self ..) hadd i hi)
        exact ⟨c, hc, nofun⟩

def mapsOf (entries : EffectivePage → Option (BitVec 20 × Bool)) (n : Nat) (rpn : BitVec 20)
    (c : Bool) : Prop := ∃ page : EffectivePage, page.number = n ∧ entries page = some (rpn, c)

theorem number_injective {page page' : EffectivePage} (h : page.number = page'.number) :
    page = page' := by
  obtain ⟨sr, index⟩ := page
  obtain ⟨sr', index'⟩ := page'
  have hi := index.isLt
  have hi' := index'.isLt
  change sr.val * 2 ^ 16 + index.toNat = sr'.val * 2 ^ 16 + index'.toNat at h
  have hsr : sr = sr' := Fin.ext (by omega)
  have hindex : index = index' := BitVec.eq_of_toNat_eq (by omega)
  rw [hsr, hindex]

theorem mapsOf_unique {entries : EffectivePage → Option (BitVec 20 × Bool)} (n : Nat)
    (r r' : BitVec 20) (c c' : Bool) (h : mapsOf entries n r c) (h' : mapsOf entries n r' c') :
    r = r' ∧ c = c' := by
  obtain ⟨page, rfl, he⟩ := h
  obtain ⟨page', hn, he'⟩ := h'
  rw [number_injective hn, he] at he'
  exact Prod.mk.inj (Option.some.inj he')

theorem Backed.addAll {entries : EffectivePage → Option (BitVec 20 × Bool)}
    (h : mmu.Backed (mapsOf entries) memory) (w : Bool) (added : List (EffectivePage × BitVec 20))
    (hadded : ∀ x ∈ added, entries x.1 = some (x.2, w)) :
    mmu.Backed (mapsOf entries)
      (added.foldl (fun m x => mmu.addPageTableMapping x.1.number x.2 w m) memory) := by
  refine List.foldlRecOn (motive := fun m => mmu.Backed (mapsOf entries) m) _ _ h ?_
  exact fun m hm x hx => hm.add ⟨x.1, rfl, hadded x hx⟩ mapsOf_unique

theorem mem_inOrder {α : Type} {page : α → EffectivePage} {xs : List α} {x : α} :
    x ∈ inOrder page xs ↔ x ∈ xs :=
  List.mem_mergeSort

theorem updateHost_backed {done : EffectivePage → Nat → Prop}
    {before : EffectivePage → Option (BitVec 20 × Bool)} {u : Update}
    (hu : mmu.Tracked done before u) (h : mmu.Backed (mapsOf before) memory) :
    mmu.Backed (mapsOf (mmu.host u)) (mmu.updateHost u memory) := by
  have hremoved := @Backed.mono mmu _ (mapsOf (mmu.host u)) _ (h.removeAll (inOrder id u.removed)) ?_
  · refine (hremoved.addAll false (inOrder Prod.fst u.addedReadonly) ?_).addAll true
      (inOrder Prod.fst u.addedReadwrite) ?_
    · exact fun x hx => (hu.listed x.1 x.2 false (mem_inOrder.1 hx)).1
    · exact fun x hx => (hu.listed x.1 x.2 true (mem_inOrder.1 hx)).1
  · rintro n rpn c ⟨hkeep, page, rfl, hpage⟩
    refine ⟨page, rfl, ?_⟩
    rcases hu.kept page with hsame | hmem | hnone
    · exact hsame.trans hpage
    · exact absurd rfl (hkeep page (mem_inOrder.2 hmem))
    · exact absurd (hpage.symm.trans hnone) nofun

end Mmu
end DolphinXR.PowerPC
