import DolphinXR.Core.GCMemcardOperations
import Mathlib.Order.Interval.Finset.Nat

/- What the operations on the BAT do: its entries as a function of the block, the free
   blocks of the card, and the chain of a file as a walk along the BAT that ends with
   0xFFFF, or with 0 where it is broken. -/
namespace DolphinXR.GCMemcard
open Lib

/-! ### Entries -/

namespace BlockAlloc

def value (b : BlockAlloc) (block : Nat) : Nat := b.map.toList.getD (block - 5) 0

theorem value_eq (b : BlockAlloc) {block : Nat} (h : block - 5 < 4091) :
    b.map[block - 5] = b.value block := by
  have hlength : block - 5 < b.map.toList.length := by
    rwa [Vector.length_toList]
  rw [value, List.getD_eq_getElem?_getD, List.getElem?_eq_getElem hlength, Option.getD_some,
    Vector.getElem_toList]

theorem mapAt_eq (b : BlockAlloc) {block : Nat} (h : 5 ≤ block ∧ block < 4096) :
    b.mapAt block = .ok (b.value block) := by
  rw [mapAt, dif_pos h, value_eq b (by omega)]

theorem getNextBlock_eq (b : BlockAlloc) {block : Nat} (h : 5 ≤ block ∧ block ≤ 4091) :
    b.getNextBlock block = b.value block := by
  rw [getNextBlock, dif_pos h, value_eq b (by omega)]

theorem getNextBlock_of_not (b : BlockAlloc) {block : Nat} (h : ¬(5 ≤ block ∧ block ≤ 4091)) :
    b.getNextBlock block = 0 := dif_neg h

theorem range_of_getNextBlock {b : BlockAlloc} {block : Nat} (h : b.getNextBlock block ≠ 0) :
    5 ≤ block ∧ block ≤ 4091 := by
  by_contra hrange
  exact h (b.getNextBlock_of_not hrange)

theorem getNextBlock_congr {b b' : BlockAlloc} {x : Nat} (h : 5 ≤ x → b'.value x = b.value x) :
    b'.getNextBlock x = b.getNextBlock x := by
  by_cases hrange : 5 ≤ x ∧ x ≤ 4091
  · rw [b'.getNextBlock_eq hrange, b.getNextBlock_eq hrange, h hrange.1]
  · rw [b'.getNextBlock_of_not hrange, b.getNextBlock_of_not hrange]

theorem setMap_spec (b : BlockAlloc) (block v : Nat) (h : 5 ≤ block ∧ block < 4096) :
    ∃ m, b.setMap block v = .ok { b with map := m } ∧
      ∀ x, 5 ≤ x → BlockAlloc.value { b with map := m } x = if x = block then v else b.value x := by
  refine ⟨b.map.set (block - 5) v, ?_, fun x hx => ?_⟩
  · rw [setMap, dif_pos h]
  · simp only [value, Vector.toList_set, List.getD_eq_getElem?_getD, List.getElem?_set]
    by_cases heq : x = block
    · subst heq
      rw [if_pos rfl, if_pos rfl, if_pos (by simp; omega)]
      rfl
    · rw [if_neg heq, if_neg (by omega)]

/-- The blocks of a card of `size` blocks that are free. -/
def freeSet (b : BlockAlloc) (size : Nat) : Finset Nat :=
  (Finset.Ico 5 size).filter fun x => b.value x = 0

theorem mem_freeSet {b : BlockAlloc} {size x : Nat} :
    x ∈ b.freeSet size ↔ (5 ≤ x ∧ x < size) ∧ b.value x = 0 := by
  rw [freeSet, Finset.mem_filter, Finset.mem_Ico]

/-! ### The search for a free block -/

theorem firstFree_spec (b : BlockAlloc) (n i : Nat) (hi : 5 ≤ i) (hn : i + n ≤ 4096) :
    (b.firstFree n i = .ok none ∧ ∀ x, i ≤ x → x < i + n → b.value x ≠ 0) ∨
    ∃ r, b.firstFree n i = .ok (some r) ∧ i ≤ r ∧ r < i + n ∧ b.value r = 0 ∧
      ∀ x, i ≤ x → x < r → b.value x ≠ 0 := by
  induction n generalizing i with
  | zero => exact .inl ⟨rfl, fun x hle hlt => absurd hlt (by omega)⟩
  | succ n ih =>
    have hat : b.mapAt i = .ok (b.value i) := b.mapAt_eq ⟨hi, by omega⟩
    by_cases hzero : b.value i = 0
    · refine .inr ⟨i, ?_, Nat.le_refl i, by omega, hzero, fun x hle hlt => absurd hlt (by omega)⟩
      simp only [firstFree, hat, bind, Except.bind, if_pos hzero]
    · have hstep : b.firstFree (n + 1) i = b.firstFree n (i + 1) := by
        simp only [firstFree, hat, bind, Except.bind, if_neg hzero]
      rw [hstep]
      rcases ih (i + 1) (by omega) (by omega) with ⟨hnone, hused⟩ | ⟨r, hsome, hle, hlt, hfree, hused⟩
      · refine .inl ⟨hnone, fun x hle hlt => ?_⟩
        by_cases hx : x = i
        · exact hx ▸ hzero
        · exact hused x (by omega) (by omega)
      · refine .inr ⟨r, hsome, by omega, by omega, hfree, fun x hle hlt => ?_⟩
        by_cases hx : x = i
        · exact hx ▸ hzero
        · exact hused x (by omega) (by omega)

/-- If the card has a free block, `NextFreeBlock` finds one: the first from the start, or if there is
    none, the first of all. -/
theorem nextFreeBlock_spec (b : BlockAlloc) {size : Nat} (start : Nat) (hsize : 5 ≤ size ∧ size ≤ 4096)
    (hcount : b.freeBlocks ≠ 0) (hfree : (b.freeSet size).Nonempty) :
    ∃ r ∈ b.freeSet size, b.nextFreeBlock size start = .ok r ∧
      (clampBlock start ≤ r ∨ ∀ x ∈ b.freeSet size, x < clampBlock start ∧ r ≤ x) := by
  have hstart : 5 ≤ clampBlock start ∧ clampBlock start ≤ 4096 := by
    unfold clampBlock
    omega
  have hmax : clampBlock size = size := by
    unfold clampBlock
    omega
  unfold nextFreeBlock
  rw [if_neg hcount, hmax]
  generalize clampBlock start = s at hstart
  rcases b.firstFree_spec (size - s) s hstart.1 (by omega) with
    ⟨hnone, hused⟩ | ⟨r, hsome, hle, hlt, hzero, -⟩
  · -- no block from the start on is free
    have hbefore : ∀ x ∈ b.freeSet size, x < s := by
      intro x hx
      obtain ⟨⟨-, hlt⟩, hzero⟩ := mem_freeSet.1 hx
      by_contra hge
      exact hused x (by omega) (by omega) hzero
    obtain ⟨x, hx⟩ := hfree
    obtain ⟨⟨hx5, -⟩, hxzero⟩ := mem_freeSet.1 hx
    have hxs := hbefore x hx
    rcases b.firstFree_spec (s - 5) 5 (Nat.le_refl 5) (by omega) with
      ⟨-, hused'⟩ | ⟨r, hsome, hle, hlt, hzero, hfirst⟩
    · exact absurd hxzero (hused' x hx5 (by omega))
    · have hmin : ∀ x ∈ b.freeSet size, r ≤ x := by
        intro y hy
        obtain ⟨⟨hy5, -⟩, hyzero⟩ := mem_freeSet.1 hy
        by_contra hlt'
        exact hfirst y hy5 (by omega) hyzero
      obtain ⟨⟨-, hxlt⟩, -⟩ := mem_freeSet.1 hx
      have hrx := hmin x hx
      refine ⟨r, mem_freeSet.2 ⟨⟨hle, by omega⟩, hzero⟩, ?_,
        .inr fun y hy => ⟨hbefore y hy, hmin y hy⟩⟩
      simp only [hnone, hsome, bind, Except.bind]
  · refine ⟨r, mem_freeSet.2 ⟨⟨by omega, by omega⟩, hzero⟩, ?_, .inl hle⟩
    simp only [hsome, bind, Except.bind]

theorem nextFreeBlock_ne (b : BlockAlloc) {size block other : Nat} (hsize : 5 ≤ size ∧ size ≤ 4096)
    (hcount : b.freeBlocks ≠ 0) (hblock : block ∈ b.freeSet size)
    (hother : other ∈ b.freeSet size) (hne : other ≠ block) :
    ∃ r ∈ b.freeSet size, b.nextFreeBlock size (block + 1) = .ok r ∧ r ≠ block := by
  obtain ⟨r, hr, heq, hplace⟩ := b.nextFreeBlock_spec (block + 1) hsize hcount ⟨other, hother⟩
  refine ⟨r, hr, heq, ?_⟩
  rintro rfl
  have hclamp : clampBlock (r + 1) = r + 1 := by
    have hrange := (mem_freeSet.1 hblock).1
    unfold clampBlock
    omega
  rw [hclamp] at hplace
  rcases hplace with hle | hall
  · omega
  · have hlast := hall other hother
    omega

/-! ### Chains -/

def IsEnd (block : Nat) : Prop := block = 0xFFFF ∨ block = 0

abbrev Chain (b : BlockAlloc) : Nat → List Nat → Nat → Prop := Walk b.getNextBlock IsEnd

theorem getNextBlock_ne_zero {b : BlockAlloc} {first : Nat} {l : List Nat}
    (h : b.Chain first l 0xFFFF) : ∀ x ∈ l, b.getNextBlock x ≠ 0 := by
  intro x hx hzero
  rcases h.next_mem x hx with hmem | hend
  · rw [hzero] at hmem
    exact h.not_stop 0 hmem (.inr rfl)
  · rw [hzero] at hend
    cases hend

theorem value_ne_zero_of_chain {b : BlockAlloc} {first : Nat} {l : List Nat}
    (h : b.Chain first l 0xFFFF) : ∀ x ∈ l, b.value x ≠ 0 := by
  intro x hx
  have hne := getNextBlock_ne_zero h x hx
  rw [b.getNextBlock_eq (range_of_getNextBlock hne)] at hne
  exact hne

theorem length_chain_le {b : BlockAlloc} {size first last : Nat} {l : List Nat}
    (h : b.Chain first l last) (hcard : ∀ x ∈ l, 5 ≤ x ∧ x < size) : l.length ≤ size := by
  calc l.length
      = l.toFinset.card := (List.toFinset_card_of_nodup h.nodup).symm
    _ ≤ (Finset.Ico 5 size).card := Finset.card_le_card fun x hx =>
      Finset.mem_Ico.2 (hcard x (List.mem_toFinset.1 hx))
    _ ≤ size := by
      rw [Nat.card_Ico]
      omega

theorem clearAll_spec (size : Nat) (hsize : size ≤ 4096) (l : List Nat) (hnodup : l.Nodup)
    (b : BlockAlloc) (hcard : ∀ x ∈ l, 5 ≤ x ∧ x < size) (hused : ∀ x ∈ l, b.value x ≠ 0) :
    ∃ m, b.clearAll l = .ok { b with map := m } ∧
      (∀ x, 5 ≤ x → BlockAlloc.value { b with map := m } x = if x ∈ l then 0 else b.value x) ∧
      (BlockAlloc.freeSet { b with map := m } size).card = (b.freeSet size).card + l.length := by
  induction l generalizing b with
  | nil => exact ⟨b.map, rfl, fun x _ => by simp, by simp⟩
  | cons block l ih =>
    obtain ⟨hblock, hnodup⟩ := List.nodup_cons.1 hnodup
    have hin := hcard block (List.mem_cons_self ..)
    obtain ⟨m, hset, hvalue⟩ := b.setMap_spec block 0 ⟨hin.1, by omega⟩
    have hother : ∀ x ∈ l, BlockAlloc.value { b with map := m } x = b.value x := by
      intro x hx
      rw [hvalue x (hcard x (List.mem_cons_of_mem _ hx)).1, if_neg]
      rintro rfl
      exact hblock hx
    obtain ⟨m', hclear, hvalue', hcount⟩ := ih hnodup { b with map := m }
      (fun x hx => hcard x (List.mem_cons_of_mem _ hx)) fun x hx => by
        rw [hother x hx]
        exact hused x (List.mem_cons_of_mem _ hx)
    have hfreed : BlockAlloc.freeSet { b with map := m } size = insert block (b.freeSet size) := by
      ext x
      rw [Finset.mem_insert, mem_freeSet, mem_freeSet]
      constructor
      · rintro ⟨hrange, hzero⟩
        by_cases hx : x = block
        · exact .inl hx
        · rw [hvalue x hrange.1, if_neg hx] at hzero
          exact .inr ⟨hrange, hzero⟩
      · rintro (rfl | ⟨hrange, hzero⟩)
        · exact ⟨hin, by rw [hvalue _ hin.1, if_pos rfl]⟩
        · refine ⟨hrange, ?_⟩
          rw [hvalue x hrange.1]
          split
          · rfl
          · exact hzero
    refine ⟨m', ?_, fun x hx => ?_, ?_⟩
    · simp only [clearAll, hset, bind, Except.bind]
      exact hclear
    · rw [hvalue' x hx, hvalue x hx]
      by_cases hx' : x = block
      · simp [hx']
      · simp [hx']
    · rw [hcount, hfreed, Finset.card_insert_of_notMem, List.length_cons]
      · omega
      · intro hmem
        exact hused block (List.mem_cons_self ..) (mem_freeSet.1 hmem).2

theorem collectBlocks_eq {b : BlockAlloc} {first last : Nat} {l : List Nat}
    (h : b.Chain first l last) {fuel : Nat} (hfuel : l.length < fuel) :
    b.collectBlocks fuel first = .ok (l, last) := by
  induction h generalizing fuel with
  | nil hend =>
    obtain ⟨fuel, rfl⟩ := Nat.exists_eq_add_of_lt hfuel
    exact if_pos hend
  | @cons block l last hnot _ ih =>
    cases fuel with
    | zero => exact absurd hfuel (Nat.not_lt_zero _)
    | succ fuel =>
      have hrest := ih (Nat.lt_of_succ_lt_succ hfuel)
      have hcond : ¬(block = 0xFFFF ∨ block = 0) := hnot
      simp only [collectBlocks, if_neg hcond, hrest, bind, Except.bind]

/-- `ClearBlocks` on a chain: if it ends with 0xFFFF after as many blocks as it should have and lies
    on the card, its blocks are freed; otherwise nothing is done. -/
theorem clearBlocks_spec {b : BlockAlloc} {size first last count : Nat} {l : List Nat}
    (hsize : size ≤ 4096) (h : b.Chain first l last)
    (hcard : last = 0xFFFF → l.length = count → ∀ x ∈ l, 5 ≤ x ∧ x < size)
    {fuel : Nat} (hfuel : l.length < fuel) :
    (¬(last = 0xFFFF ∧ l.length = count) ∧ b.clearBlocks fuel first count = .ok none) ∨
    (last = 0xFFFF ∧ l.length = count ∧ ∃ m,
      b.clearBlocks fuel first count =
        .ok (some { b with map := m, freeBlocks := (b.freeBlocks + count) % 65536 }) ∧
      (∀ x, 5 ≤ x → BlockAlloc.value { b with map := m } x = if x ∈ l then 0 else b.value x) ∧
      (BlockAlloc.freeSet { b with map := m } size).card = (b.freeSet size).card + count) := by
  have hcollect := collectBlocks_eq h hfuel
  by_cases hmatch : last = 0xFFFF ∧ l.length = count
  · obtain ⟨rfl, hlength⟩ := hmatch
    have hon := hcard rfl hlength
    obtain ⟨m, hclear, hvalue, hcount⟩ :=
      b.clearAll_spec size hsize l h.nodup hon (value_ne_zero_of_chain h)
    refine .inr ⟨rfl, hlength, m, ?_, hvalue, hlength ▸ hcount⟩
    have hcond : ¬((0xFFFF : Nat) = 0 ∨ l.length ≠ count) := by
      rintro (hzero | hne)
      · cases hzero
      · exact hne hlength
    simp only [clearBlocks, hcollect, bind, Except.bind, if_neg hcond, hclear]
  · refine .inl ⟨hmatch, ?_⟩
    have hcond : last = 0 ∨ l.length ≠ count := by
      rcases h.stop_end with hend | hend
      · exact .inr fun hlength => hmatch ⟨hend, hlength⟩
      · exact .inl hend
    simp only [clearBlocks, hcollect, bind, Except.bind, if_pos hcond]

theorem freeSet_erase {b b' : BlockAlloc} {size block v : Nat} (hv : v ≠ 0)
    (hvalue : ∀ x, 5 ≤ x → b'.value x = if x = block then v else b.value x) :
    b'.freeSet size = (b.freeSet size).erase block := by
  ext x
  rw [Finset.mem_erase, mem_freeSet, mem_freeSet]
  constructor
  · rintro ⟨hrange, hzero⟩
    rw [hvalue x hrange.1] at hzero
    by_cases hx : x = block
    · rw [if_pos hx] at hzero
      exact absurd hzero hv
    · rw [if_neg hx] at hzero
      exact ⟨hx, hrange, hzero⟩
  · rintro ⟨hx, hrange, hzero⟩
    exact ⟨hrange, by rw [hvalue x hrange.1, if_neg hx, hzero]⟩

end BlockAlloc

theorem fileBlock_eq {blocks : List Block} {i : Nat} (h : i < blocks.length) :
    fileBlock blocks i = .ok blocks[i] := by
  rw [fileBlock, List.getElem?_eq_getElem h]

theorem setDataBlock_eq {dataBlocks : List Block} {size block : Nat}
    (hlength : dataBlocks.length = size - 5) (h : 5 ≤ block ∧ block < size) (b : Block) :
    setDataBlock dataBlocks block b = .ok (dataBlocks.set (block - 5) b) := by
  have hcond : ¬(block < mcFstBlocks ∨ dataBlocks.length ≤ block - mcFstBlocks) := by
    unfold mcFstBlocks
    omega
  exact if_neg hcond

def blockAt (dataBlocks : List Block) (block : Nat) : Block :=
  dataBlocks.getD (block - 5) (Vector.replicate 0x2000 0)

theorem blockAt_set {dataBlocks : List Block} {block x : Nat} (b : Block)
    (hblock : 5 ≤ block ∧ block - 5 < dataBlocks.length) (hx : 5 ≤ x) :
    blockAt (dataBlocks.set (block - 5) b) x = if x = block then b else blockAt dataBlocks x := by
  rw [blockAt, blockAt, List.getD_eq_getElem?_getD, List.getD_eq_getElem?_getD, List.getElem?_set]
  by_cases heq : x = block
  · subst heq
    rw [if_pos rfl, if_pos rfl, if_pos hblock.2, Option.getD_some]
  · rw [if_neg heq, if_neg (by omega)]

open BlockAlloc in
/-- The loop of `ImportFile` takes as many free blocks as the file has, makes a chain of them and
    writes the file there. -/
theorem importLoop_spec {size : Nat} (hsize : 5 ≤ size ∧ size ≤ 2048) (blocks : List Block) (n i : Nat)
    (block : Nat) (bat : BlockAlloc) (dataBlocks : List Block) (hblocks : i + n ≤ blocks.length)
    (hlength : dataBlocks.length = size - 5) (hlast : n = 0 → block = 0xFFFF)
    (hblock : n ≠ 0 → block ∈ bat.freeSet size) (hcard : n ≤ (bat.freeSet size).card)
    (hcount : n ≠ 0 → bat.freeBlocks ≠ 0) :
    ∃ m last data chain,
      importLoop size blocks n i block bat dataBlocks =
        .ok ({ bat with map := m, lastAllocatedBlock := last }, data) ∧
      data.length = dataBlocks.length ∧ chain.length = n ∧ (∀ x ∈ chain, x ∈ bat.freeSet size) ∧
      (∀ x, 5 ≤ x → x ∉ chain → BlockAlloc.value { bat with map := m } x = bat.value x) ∧
      BlockAlloc.Chain { bat with map := m } block chain 0xFFFF ∧
      (BlockAlloc.freeSet { bat with map := m } size).card + n = (bat.freeSet size).card ∧
      chain.map (blockAt data) = (blocks.drop i).take n ∧
      ∀ x, 5 ≤ x → x ∉ chain → blockAt data x = blockAt dataBlocks x := by
  induction n generalizing i block bat dataBlocks with
  | zero =>
    refine ⟨bat.map, bat.lastAllocatedBlock, dataBlocks, [], rfl, rfl, rfl,
      fun x hx => absurd hx List.not_mem_nil, fun x _ _ => rfl, ?_, rfl, rfl, fun x _ _ => rfl⟩
    rw [hlast rfl]
    exact .nil (.inl rfl)
  | succ n ih =>
    have hmem := hblock (Nat.succ_ne_zero n)
    obtain ⟨hrange, hzero⟩ := mem_freeSet.1 hmem
    -- the block after this one
    have hnext : ∃ next, followingBlock bat size n block = .ok next ∧ next ≠ 0 ∧
        (n = 0 → next = 0xFFFF) ∧ (n ≠ 0 → next ∈ bat.freeSet size ∧ next ≠ block) := by
      by_cases hn : n = 0
      · exact ⟨0xFFFF, if_pos hn, by decide, fun _ => rfl, fun hne => absurd hn hne⟩
      · obtain ⟨other, hother, hne⟩ :=
          Finset.exists_mem_ne (show 1 < (bat.freeSet size).card by omega) block
        obtain ⟨r, hr, heq, hrne⟩ := bat.nextFreeBlock_ne ⟨hsize.1, by omega⟩
          (hcount (Nat.succ_ne_zero n)) hmem hother hne
        refine ⟨r, by rw [followingBlock, if_neg hn, heq], ?_, fun h => absurd h hn, fun _ => ⟨hr, hrne⟩⟩
        have hrange' := (mem_freeSet.1 hr).1
        omega
    obtain ⟨next, hnexteq, hnext0, hnextlast, hnextmem⟩ := hnext
    obtain ⟨m, hset, hvalue⟩ := bat.setMap_spec block next ⟨hrange.1, by omega⟩
    have hfree : BlockAlloc.freeSet { bat with map := m } size = (bat.freeSet size).erase block :=
      freeSet_erase hnext0 hvalue
    obtain ⟨m', last, data, chain, hloop, hdata, hchain, hsub, hkeep, hwalk, hfinal, hwritten,
      hblocksKept⟩ :=
      ih (i + 1) next { bat with map := m, lastAllocatedBlock := block }
        (dataBlocks.set (block - 5) blocks[i]) (by omega) (by rw [List.length_set, hlength])
        hnextlast (fun hn => by
          obtain ⟨hmem', hne⟩ := hnextmem hn
          exact hfree ▸ Finset.mem_erase.2 ⟨hne, hmem'⟩)
        (by
          rw [show BlockAlloc.freeSet { bat with map := m, lastAllocatedBlock := block } size =
            (bat.freeSet size).erase block from hfree, Finset.card_erase_of_mem hmem]
          omega)
        fun _ => hcount (Nat.succ_ne_zero n)
    have hsub' : ∀ x ∈ chain, x ≠ block ∧ x ∈ bat.freeSet size := fun x hx =>
      Finset.mem_erase.1 (hfree ▸ hsub x hx)
    have hrangeBlocks : 5 ≤ block ∧ block - 5 < dataBlocks.length := ⟨hrange.1, by omega⟩
    refine ⟨m', last, data, block :: chain, ?_, ?_, ?_, fun x hx => ?_, fun x hx hnot => ?_, ?_, ?_,
      ?_, fun x hx hnot => ?_⟩
    · simp only [importLoop, fileBlock_eq (show i < blocks.length by omega),
        setDataBlock_eq hlength hrange, hnexteq, hset, bind, Except.bind]
      exact hloop
    · rw [hdata, List.length_set]
    · rw [List.length_cons, hchain]
    · rcases List.mem_cons.1 hx with rfl | hx
      · exact hmem
      · exact (hsub' x hx).2
    · obtain ⟨hne, hnot⟩ := List.ne_and_not_mem_of_not_mem_cons hnot
      have hkept := hkeep x hx hnot
      refine hkept.trans ?_
      have hset' := hvalue x hx
      rw [if_neg hne] at hset'
      exact hset'
    · refine .cons (by unfold IsEnd; omega) ?_
      have hkept := hkeep block hrange.1 fun hmem' => (hsub' block hmem').1 rfl
      have hset' := hvalue block hrange.1
      rw [if_pos rfl] at hset'
      have hfirst : BlockAlloc.getNextBlock { bat with map := m' } block = next := by
        rw [BlockAlloc.getNextBlock_eq _ ⟨hrange.1, by omega⟩]
        exact hkept.trans hset'
      rw [hfirst]
      exact hwalk
    · have hcards : (BlockAlloc.freeSet { bat with map := m, lastAllocatedBlock := block } size).card =
          ((bat.freeSet size).erase block).card := congrArg Finset.card hfree
      rw [Finset.card_erase_of_mem hmem] at hcards
      have hpos := Finset.card_pos.2 ⟨block, hmem⟩
      have hfinal' := hfinal
      rw [hcards] at hfinal'
      have hsame : (BlockAlloc.freeSet { bat with map := m' } size).card + n =
          (bat.freeSet size).card - 1 := hfinal'
      omega
    · have hi : i < blocks.length := by omega
      have hkept := hblocksKept block hrange.1 fun hmem' => (hsub' block hmem').1 rfl
      rw [blockAt_set _ hrangeBlocks hrange.1, if_pos rfl] at hkept
      rw [List.map_cons, hkept, hwritten, List.drop_eq_getElem_cons hi, List.take_succ_cons]
    · obtain ⟨hne, hnot⟩ := List.ne_and_not_mem_of_not_mem_cons hnot
      rw [hblocksKept x hx hnot, blockAt_set _ hrangeBlocks hx, if_neg hne]

end DolphinXR.GCMemcard
