import DolphinXR.Core.PPCCacheWays

/- Reading and writing through the cache. `GetCache` finds or loads the line of an address and shows
   a program the same bytes as before; on lines that can be copied `Read` returns those bytes and
   `Write` changes just those that it is given, however the access straddles lines and whether or
   not the cache is locked. -/
namespace DolphinXR.PowerPC
open Lib

namespace Cached
variable {mm : MemoryManager} {s : Cached} {addr x set way : Nat}

theorem victim_lt (s : Cached) (set : Nat) : s.victim set < 8 := by
  unfold victim
  split
  · unfold wayFromValid
    cases hfind : (List.range cacheWays).find? fun w => !(s.valid set).getLsbD w with
    | none => decide
    | some w => exact List.mem_range.1 (List.mem_of_find?_eq_some hfind)
  · unfold wayFromPlru
    repeat' split
    all_goals decide

/-- What `GetCache` returns: the way of the line, if the cache has the line then. -/
structure Found (mm : MemoryManager) (addr : Nat) (s : Cached) (r : Cached × Nat × Nat) : Prop where
  set : r.2.1 = setOf addr
  consistent : r.1.Consistent mm
  same : SameContents mm s r.1
  way : r.2.2 = noWay ∧ r.1.lookupOf mm (lineOf addr) = noWay ∨ r.1.Holds (lineOf addr) r.2.2

theorem Found.updatePlru {r : Cached × Nat × Nat} (h : Found mm addr s r) (set way : Nat) :
    Found mm addr s (updatePlru set way r.1, r.2) :=
  ⟨h.set, ⟨h.consistent.names, h.consistent.lines, h.consistent.clean, h.consistent.dirty⟩,
    h.same, h.way⟩

theorem Consistent.getCache (h : s.Consistent mm) (hr : InRegion mm addr) (locked : Bool) :
    Found mm addr s (getCache mm addr locked s) := by
  have hline := hr.isLine
  have hset := setOf_lineOf addr
  unfold Cached.getCache
  simp only []
  split
  · next hmiss =>
    obtain ⟨-, hnone⟩ : _ ∧ s.lookupOf mm (lineOf addr) = noWay := by simpa using hmiss
    have hlt := victim_lt s (setOf (lineOf addr))
    by_cases hvalid : s.isValid (setOf (lineOf addr)) (s.victim (setOf (lineOf addr)))
    · obtain ⟨hevict, hsame, hfree, habsent⟩ := h.evictWay hlt hvalid
      obtain ⟨hload, hsame', hholds⟩ := hevict.load hline hlt hfree (habsent _ hline hnone)
      rw [load_evictWay] at hload hsame' hholds
      rw [if_pos hvalid]
      exact Found.updatePlru (r := (_, _, _)) ⟨hset, hload, hsame.trans hsame', .inr hholds⟩ _ _
    · obtain ⟨hload, hsame, hholds⟩ := h.load hline hlt hvalid hnone
      rw [if_neg hvalid]
      exact Found.updatePlru (r := (_, _, _)) ⟨hset, hload, hsame, .inr hholds⟩ _ _
  · split
    · next hhit =>
      refine Found.updatePlru (r := (_, _, _)) ⟨hset, h, fun _ _ _ => rfl, .inr ?_⟩ _ _
      exact (h.names _ hline _ hhit).1 rfl
    · next hmiss =>
      exact ⟨hset, h, fun _ _ _ => rfl, .inl ⟨Decidable.not_not.1 hmiss, Decidable.not_not.1 hmiss⟩⟩

/-! ### Reading -/

def Accessible (mm : MemoryManager) (addr len : Nat) : Prop :=
  ∀ i, i < len → InRegion mm (addr + i) ∧ Copyable mm (addr + i)

theorem Accessible.head {len : Nat} (h : Accessible mm addr len) (hpos : 0 < len) :
    InRegion mm addr ∧ Copyable mm addr := h 0 hpos

def bytesAt (mm : MemoryManager) (s : Cached) (addr len : Nat) : Bytes :=
  (List.range len).map fun i => s.contents mm (addr + i)

theorem Found.piece {r : Cached × Nat × Nat} (h : Found mm addr s r) {data : Bytes}
    (hreach : Accessible mm addr data.length) (hlen : addr + data.length ≤ lineOf addr + 32) :
    (if r.2.2 ≠ noWay then
        (List.range data.length).map fun i => r.1.data r.2.1 r.2.2 (addr - lineOf addr + i)
      else mm.copyFromEmu data addr r.1.memory) = s.bytesAt mm addr data.length := by
  have hle := lineOf_le addr
  rcases h.way with ⟨hnone, hlookup⟩ | hholds
  · rw [if_neg (not_not_intro hnone)]
    cases hd : data.length with
    | zero =>
      obtain rfl := List.eq_nil_of_length_eq_zero hd
      simp [bytesAt, MemoryManager.copyFromEmu]
      split <;> rfl
    | succ k =>
      obtain ⟨hr, hc⟩ := hreach.head (by omega)
      rw [copyFromEmu_eq hr hc hlen, bytesAt, hd]
      refine List.map_congr_left fun i hi => ?_
      have hi' : i < data.length := by
        rw [hd]
        exact List.mem_range.1 hi
      obtain ⟨hir, hic⟩ := hreach i hi'
      rw [← h.same _ hir hic, contents_of_absent]
      rw [lineOf_of_mem (lineOf_mod addr) (by omega) (by omega), hlookup]
  · rw [if_pos hholds.ne_noWay]
    refine List.map_congr_left fun i hi => ?_
    have hi' := List.mem_range.1 hi
    obtain ⟨hir, hic⟩ := hreach i hi'
    have hsame : lineOf (addr + i) = lineOf addr :=
      lineOf_of_mem (lineOf_mod addr) (by omega) (by omega)
    have hset : setOf (addr + i) = setOf addr := by rw [← setOf_lineOf, hsame, setOf_lineOf]
    have hoffset : (addr + i) % 32 = addr - lineOf addr + i := by
      have hdiv : lineOf (addr + i) = (addr + i) / 32 * 32 := rfl
      omega
    rw [← h.same _ hir hic, h.consistent.contents_of_holds hir (hsame ▸ hholds), h.set, hset,
      hoffset]

theorem Accessible.take {len : Nat} (h : Accessible mm addr len) {k : Nat} (hk : k ≤ len) :
    Accessible mm addr k := fun i hi => h i (by omega)

theorem Accessible.drop {len : Nat} (h : Accessible mm addr len) (k : Nat) :
    Accessible mm (addr + k) (len - k) := by
  intro i hi
  rw [Nat.add_assoc]
  exact h (k + i) (by omega)

theorem bytesAt_add (s : Cached) (addr a b : Nat) :
    s.bytesAt mm addr (a + b) = s.bytesAt mm addr a ++ s.bytesAt mm (addr + a) b := by
  simp only [bytesAt, List.range_add, List.map_append, List.map_map]
  congr 1
  exact List.map_congr_left fun i _ => by rw [Function.comp_apply, Nat.add_assoc]

theorem bytesAt_congr {s' : Cached} {len : Nat} (h : SameContents mm s s')
    (hreach : Accessible mm addr len) : s'.bytesAt mm addr len = s.bytesAt mm addr len :=
  List.map_congr_left fun i hi =>
    h _ (hreach i (List.mem_range.1 hi)).1 (hreach i (List.mem_range.1 hi)).2

theorem lineOf_add_line (addr : Nat) : lineOf (addr + 32) = lineOf addr + 32 := by
  unfold lineOf
  omega

theorem Consistent.readLoop {fuel : Nat} (h : s.Consistent mm) {buffer : Bytes}
    (hfuel : buffer.length ≤ fuel) (hreach : Accessible mm addr buffer.length) (locked : Bool) :
    (readLoop mm fuel addr buffer locked s).1 = s.bytesAt mm addr buffer.length ∧
      (readLoop mm fuel addr buffer locked s).2.Consistent mm ∧
      SameContents mm s (readLoop mm fuel addr buffer locked s).2 := by
  induction fuel generalizing addr buffer s with
  | zero =>
    obtain rfl := List.eq_nil_of_length_eq_zero (Nat.le_zero.1 hfuel)
    exact ⟨rfl, h, fun _ _ _ => rfl⟩
  | succ fuel ih =>
    cases hb : buffer with
    | nil => exact ⟨rfl, h, fun _ _ _ => rfl⟩
    | cons b rest =>
      have hpos : 0 < buffer.length := by simp [hb]
      have hlt := lt_lineOf_add addr
      have hfound := h.getCache (hreach.head hpos).1 locked
      rw [← hb]
      simp only [Cached.readLoop, List.isEmpty_iff, hb ▸ List.cons_ne_nil b rest, if_false]
      have hlen := lineOf_add_line addr
      generalize hl : min buffer.length (lineOf (addr + 32) - addr) = len
      have hle : len ≤ buffer.length := by omega
      have htake : (buffer.take len).length = len := by simpa using hle
      have hdrop : (buffer.drop len).length = buffer.length - len := List.length_drop
      have htaken : Accessible mm addr (buffer.take len).length := by
        rw [htake]
        exact hreach.take hle
      have hpiece := hfound.piece htaken (by omega)
      rw [htake] at hpiece
      have hrest : Accessible mm (addr + len) (buffer.drop len).length := by
        rw [hdrop]
        exact hreach.drop len
      have hfuel' : (buffer.drop len).length ≤ fuel := by omega
      obtain ⟨hbytes, hconsistent, hsame⟩ := ih hfound.consistent hfuel' hrest
      refine ⟨?_, hconsistent, hfound.same.trans hsame⟩
      rw [hbytes, hpiece, bytesAt_congr hfound.same hrest, hdrop, ← bytesAt_add]
      congr 1
      omega

theorem Consistent.read (h : s.Consistent mm) {buffer : Bytes}
    (hreach : Accessible mm addr buffer.length) (locked : Bool) :
    (read mm addr buffer locked s).1 = s.bytesAt mm addr buffer.length ∧
      (read mm addr buffer locked s).2.Consistent mm ∧
      SameContents mm s (read mm addr buffer locked s).2 :=
  h.readLoop le_rfl hreach locked

/-! ### Writing -/

def Wrote (mm : MemoryManager) (s s' : Cached) (addr : Nat) (value : Bytes) : Prop :=
  ∀ x, InRegion mm x → Copyable mm x → s'.contents mm x =
    if addr ≤ x ∧ x < addr + value.length then value.getD (x - addr) 0 else s.contents mm x

theorem Consistent.writePiece (h : s.Consistent mm) (hholds : s.Holds (lineOf addr) way)
    (hc : Copyable mm addr) {piece : Bytes} (hlen : addr + piece.length ≤ lineOf addr + 32) :
    (writePiece addr (setOf addr) way piece s).Consistent mm ∧
      Wrote mm s (writePiece addr (setOf addr) way piece s) addr piece := by
  have hle := lineOf_le addr
  have haddr : s.addrs (setOf addr) way = lineOf addr := by
    rw [← setOf_lineOf]
    exact hholds.addr
  have hmodified : ∀ set' way',
      (Cached.writePiece addr (setOf addr) way piece s).isModified set' way' ↔
        s.isModified set' way' ∨ set' = setOf addr ∧ way' = way := by
    intro set' way'
    have hbit : (Cached.writePiece addr (setOf addr) way piece s).isModified set' way' =
      (s.isModified set' way' || decide (set' = setOf addr ∧ way' = way)) :=
      getLsbD_set (setOf addr) hholds.lt s.modified set' way'
    rw [hbit, Bool.or_eq_true, decide_eq_true_eq]
  have hdata : ∀ set' way', (Cached.writePiece addr (setOf addr) way piece s).data set' way' =
      if set' = setOf addr ∧ way' = way then fun i =>
        if addr - lineOf addr ≤ i ∧ i < addr - lineOf addr + piece.length then
          piece.getD (i - (addr - lineOf addr)) 0
        else s.data (setOf addr) way i
      else s.data set' way' :=
    fun set' way' => update_place s.data (setOf addr) way _ set' way'
  refine ⟨⟨h.names, h.lines, ?_, ?_⟩, ?_⟩
  · intro set' way' hway' hvalid' hclean
    have hplace : ¬ (set' = setOf addr ∧ way' = way) := fun heq =>
      hclean ((hmodified set' way').2 (.inr heq))
    rw [hdata, if_neg hplace]
    exact h.clean set' way' hway' hvalid' fun hm => hclean ((hmodified set' way').2 (.inl hm))
  · intro set' way' hway' hvalid' hm
    rcases (hmodified set' way').1 hm with hm | ⟨rfl, rfl⟩
    · exact h.dirty set' way' hway' hvalid' hm
    · show Copyable mm (s.addrs (setOf addr) way')
      rw [haddr, Copyable, lineOf_lineOf]
      exact hc
  · intro x hx hcx
    have hlookup : (Cached.writePiece addr (setOf addr) way piece s).lookupOf mm (lineOf x) =
      s.lookupOf mm (lineOf x) := rfl
    by_cases heq : lineOf x = lineOf addr
    · have hset : setOf x = setOf addr := by rw [← setOf_lineOf, heq, setOf_lineOf]
      have hway : s.lookupOf mm (lineOf x) = way := h.lookupOf_eq hx.isLine (heq ▸ hholds)
      have hoffset : x % 32 = x - lineOf addr := by
        rw [← heq]
        unfold lineOf
        omega
      have hlex : lineOf addr ≤ x := heq ▸ lineOf_le x
      have hsub : x - lineOf addr - (addr - lineOf addr) = x - addr := by omega
      rw [contents, hlookup, hway, if_neg hholds.ne_noWay, hdata, if_pos ⟨hset, rfl⟩, contents,
        hway, if_neg hholds.ne_noWay, hset, hoffset]
      simp only [hsub]
      exact if_congr (by omega) rfl rfl
    · have hout : ¬ (addr ≤ x ∧ x < addr + piece.length) := fun hin =>
        heq (lineOf_of_mem (lineOf_mod addr) (by omega) (by omega))
      rw [if_neg hout, contents, contents, hlookup]
      by_cases hnone : s.lookupOf mm (lineOf x) = noWay
      · rw [if_pos hnone, if_pos hnone]
        rfl
      · have hb := (h.names (lineOf x) hx.isLine _ hnone).1 rfl
        have hplace : ¬ (setOf x = setOf addr ∧ s.lookupOf mm (lineOf x) = way) := by
          rintro ⟨hset, hway⟩
          have haddr' := hb.addr
          rw [setOf_lineOf, hset, hway, haddr] at haddr'
          exact heq haddr'.symm
        rw [if_neg hnone, if_neg hnone, hdata, if_neg hplace]

theorem Consistent.copyToEmu (h : s.Consistent mm) (habsent : s.lookupOf mm (lineOf addr) = noWay)
    (hr : InRegion mm addr) (hc : Copyable mm addr) {piece : Bytes}
    (hlen : addr + piece.length ≤ lineOf addr + 32) :
    ({ s with memory := mm.copyToEmu addr piece s.memory } : Cached).Consistent mm ∧
      Wrote mm s { s with memory := mm.copyToEmu addr piece s.memory } addr piece := by
  have hle := lineOf_le addr
  have hbyte := byteAt_copyToEmu hr hc hlen s.memory
  refine ⟨⟨h.names, h.lines, ?_, h.dirty⟩, ?_⟩
  · intro set' way' hway' hvalid' hclean hcopy i hi
    have hline := (h.lines set' way' hway' hvalid').1
    have hout : ¬ (addr ≤ s.addrs set' way' + i ∧ s.addrs set' way' + i < addr + piece.length) := by
      intro hin
      have heq : lineOf (s.addrs set' way' + i) = lineOf addr :=
        lineOf_of_mem (lineOf_mod addr) (by omega) (by omega)
      rw [lineOf_of_mem hline.aligned (by omega) (by omega)] at heq
      have hholds := h.holds hway' hvalid'
      exact hholds.ne_noWay ((h.lookupOf_eq hline hholds).symm.trans (heq ▸ habsent))
    exact (h.clean set' way' hway' hvalid' hclean hcopy i hi).trans
      ((hbyte _).trans (if_neg hout)).symm
  · intro x hx hcx
    have hlookup : ({ s with memory := mm.copyToEmu addr piece s.memory } : Cached).lookupOf mm
      (lineOf x) = s.lookupOf mm (lineOf x) := rfl
    rw [contents, hlookup]
    by_cases hnone : s.lookupOf mm (lineOf x) = noWay
    · rw [if_pos hnone, contents_of_absent hnone]
      exact hbyte x
    · have hout : ¬ (addr ≤ x ∧ x < addr + piece.length) := by
        intro hin
        have heq : lineOf x = lineOf addr :=
          lineOf_of_mem (lineOf_mod addr) (by omega) (by omega)
        exact hnone (heq ▸ habsent)
      rw [if_neg hnone, if_neg hout, contents, if_neg hnone]

theorem Found.write {r : Cached × Nat × Nat} (h : Found mm addr s r) {piece : Bytes}
    (hr : InRegion mm addr) (hc : Copyable mm addr)
    (hlen : addr + piece.length ≤ lineOf addr + 32) :
    let s' := if r.2.2 ≠ noWay then Cached.writePiece addr r.2.1 r.2.2 piece r.1
      else { r.1 with memory := mm.copyToEmu addr piece r.1.memory }
    s'.Consistent mm ∧ Wrote mm s s' addr piece := by
  have hsame : ∀ s', Wrote mm r.1 s' addr piece → Wrote mm s s' addr piece := by
    intro s' hwrote x hx hcx
    rw [hwrote x hx hcx, h.same x hx hcx]
  rcases h.way with ⟨hnone, hlookup⟩ | hholds
  · simp only [hnone, ne_eq, not_true_eq_false, if_false]
    obtain ⟨hconsistent, hwrote⟩ := h.consistent.copyToEmu hlookup hr hc hlen
    exact ⟨hconsistent, hsame _ hwrote⟩
  · simp only [hholds.ne_noWay, ne_eq, not_false_eq_true, if_true, h.set]
    obtain ⟨hconsistent, hwrote⟩ := h.consistent.writePiece hholds hc hlen
    exact ⟨hconsistent, hsame _ hwrote⟩

theorem Consistent.writeLoop {fuel : Nat} (h : s.Consistent mm) {value : Bytes}
    (hfuel : value.length ≤ fuel) (hreach : Accessible mm addr value.length) (locked : Bool) :
    (writeLoop mm fuel addr value locked s).Consistent mm ∧
      Wrote mm s (writeLoop mm fuel addr value locked s) addr value := by
  have hnothing : ∀ (s : Cached) (addr : Nat), Wrote mm s s addr [] := fun s addr x _ _ => by
    rw [if_neg (by simp only [List.length_nil]; omega)]
  induction fuel generalizing addr value s with
  | zero =>
    obtain rfl := List.eq_nil_of_length_eq_zero (Nat.le_zero.1 hfuel)
    exact ⟨h, hnothing s addr⟩
  | succ fuel ih =>
    cases hb : value with
    | nil => exact ⟨h, hnothing s addr⟩
    | cons b rest =>
      have hpos : 0 < value.length := by simp [hb]
      have hlt := lt_lineOf_add addr
      obtain ⟨hr, hc⟩ := hreach.head hpos
      have hfound := h.getCache hr locked
      rw [← hb]
      simp only [Cached.writeLoop, List.isEmpty_iff, hb ▸ List.cons_ne_nil b rest, if_false]
      have hlen := lineOf_add_line addr
      generalize hl : min value.length (lineOf (addr + 32) - addr) = len
      have hle : len ≤ value.length := by omega
      have htake : (value.take len).length = len := by simpa using hle
      have hdrop : (value.drop len).length = value.length - len := List.length_drop
      have hroom : addr + (value.take len).length ≤ lineOf addr + 32 := by omega
      obtain ⟨hconsistent, hwrote⟩ := hfound.write hr hc hroom
      have hrest : Accessible mm (addr + len) (value.drop len).length := by
        rw [hdrop]
        exact hreach.drop len
      have hfuel' : (value.drop len).length ≤ fuel := by omega
      obtain ⟨hconsistent', hwrote'⟩ := ih hconsistent hfuel' hrest
      refine ⟨hconsistent', fun x hx hcx => ?_⟩
      rw [hwrote' x hx hcx, hwrote x hx hcx, hdrop, htake]
      rcases Nat.lt_or_ge x (addr + len) with hx1 | hx1
      · rw [if_neg (by omega)]
        by_cases hge : addr ≤ x
        · rw [if_pos ⟨hge, hx1⟩, if_pos ⟨hge, by omega⟩, List.getD_eq_getElem?_getD,
            List.getElem?_take_of_lt (by omega), ← List.getD_eq_getElem?_getD]
        · rw [if_neg (by omega), if_neg (by omega)]
      · by_cases hlast : x < addr + value.length
        · have hsub : len + (x - (addr + len)) = x - addr := by omega
          rw [if_pos (by omega), if_pos (by omega), List.getD_eq_getElem?_getD,
            List.getElem?_drop, hsub, ← List.getD_eq_getElem?_getD]
        · rw [if_neg (by omega), if_neg (by omega), if_neg (by omega)]

theorem Consistent.write (h : s.Consistent mm) {value : Bytes}
    (hreach : Accessible mm addr value.length) (locked : Bool) :
    (write mm addr value locked s).Consistent mm ∧
      Wrote mm s (write mm addr value locked s) addr value :=
  h.writeLoop le_rfl hreach locked

end Cached
end DolphinXR.PowerPC
