import Mathlib.Data.Nat.Bitwise
import DolphinXR.Lib.Bytes
import DolphinXR.Lib.Transition

/- The emulated cache (Core/PowerPC/PPCCache.cpp) over the memory manager's copies
   (Core/HW/Memmap.cpp). Addresses are numbers below `2 ^ 32`; a block of a set and a way is a
   function of the offset in it, and the three lookup tables are one function of the table and the
   index. A copy for which the memory manager has no span raises an alert and copies nothing, which
   the cache does not notice.

   Below the sizes of the regions an address has one entry in one table, of its own line; a line
   that the memory manager can copy has its 32 bytes in one region, and copying in and out of it is
   reading and writing them. -/
namespace DolphinXR.PowerPC
open Lib

/-! ### The memory manager -/

inductive Region where
  | ram
  | exRam
  deriving DecidableEq

/-- The sizes of the memory manager: a region is addressed by a power of two that is at least its
    real size. -/
structure MemoryManager where
  ramSizeReal : Nat
  ramBits : Nat
  haveExRam : Bool
  exRamSizeReal : Nat
  exRamBits : Nat
  ram_le : ramSizeReal ≤ 2 ^ ramBits
  ramBits_le : ramBits ≤ 28
  exRam_le : exRamSizeReal ≤ 2 ^ exRamBits
  exRamBits_le : exRamBits ≤ 28

abbrev Memory := Region → Nat → UInt8

/-- `GetFakeVMemMask`, of 32 MiB. -/
def fakeVMemMask : Nat := 0x02000000 - 1

namespace MemoryManager
variable (mm : MemoryManager)

def getRamMask : Nat := 2 ^ mm.ramBits - 1

def getExRamMask : Nat := 2 ^ mm.exRamBits - 1

/-- The region, the place in it and the size of what is left of it. -/
def getSpanForAddress (address : Nat) : Option (Region × Nat × Nat) :=
  let address := address &&& 0x3FFFFFFF
  if address < mm.ramSizeReal then some (.ram, address, mm.ramSizeReal - address)
  else if mm.haveExRam ∧ address >>> 28 = 1 ∧ (address &&& 0x0fffffff) < mm.exRamSizeReal then
    some (.exRam, address &&& mm.getExRamMask, mm.exRamSizeReal - (address &&& mm.getExRamMask))
  else none

/-- What is in the buffer `data` after the copy. -/
def copyFromEmu (data : Bytes) (address : Nat) (memory : Memory) : Bytes :=
  match mm.getSpanForAddress address with
  | none => data
  | some (region, start, size) =>
    if size < data.length then data
    else (List.range data.length).map fun i => memory region (start + i)

def copyToEmu (address : Nat) (data : Bytes) (memory : Memory) : Memory :=
  match mm.getSpanForAddress address with
  | none => memory
  | some (region, start, size) =>
    if size < data.length then memory
    else Function.update memory region fun i =>
      if start ≤ i ∧ i < start + data.length then data.getD (i - start) 0 else memory region i

end MemoryManager

/-! ### The cache -/

def cacheSets : Nat := 128

def cacheWays : Nat := 8

def plruMask : Nat → BitVec 8
  | 0 | 1 => 11
  | 2 | 3 => 19
  | 4 | 5 => 37
  | _ => 69

def plruValue : Nat → BitVec 8
  | 0 => 11
  | 1 => 3
  | 2 => 17
  | 3 => 1
  | 4 => 36
  | 5 => 4
  | 6 => 64
  | _ => 0

/-- `s_way_from_valid`: the first way that is not valid. -/
def wayFromValid (valid : BitVec 8) : Nat :=
  ((List.range cacheWays).find? fun w => !valid.getLsbD w).getD 0

def wayFromPlru (plru : BitVec 8) : Nat :=
  if plru.getLsbD 0 then
    if plru.getLsbD 2 then if plru.getLsbD 6 then 7 else 6
    else if plru.getLsbD 5 then 5 else 4
  else if plru.getLsbD 1 then if plru.getLsbD 4 then 3 else 2
  else if plru.getLsbD 3 then 1 else 0

inductive Table where
  | ram
  | ex
  | vmem
  deriving DecidableEq

def noWay : Nat := 0xff

structure Cached where
  memory : Memory
  data : Nat → Nat → Nat → UInt8 := fun _ _ _ => 0
  addrs : Nat → Nat → Nat := fun _ _ => 0
  plru : Nat → BitVec 8 := fun _ => 0
  valid : Nat → BitVec 8 := fun _ => 0
  modified : Nat → BitVec 8 := fun _ => 0
  lookup : Table → Nat → Nat := fun _ _ => noWay

def wayBit (way : Nat) : BitVec 8 := (1 : BitVec 8) <<< way

def lineOf (addr : Nat) : Nat := addr / 32 * 32

def setOf (addr : Nat) : Nat := (addr >>> 5) &&& 0x7f

/-- The table of an address and the index in it. -/
def tableIndex (mm : MemoryManager) (addr : Nat) : Table × Nat :=
  if addr.testBit 29 then (.vmem, (addr &&& fakeVMemMask) >>> 5)
  else if addr.testBit 28 then (.ex, (addr &&& mm.getExRamMask) >>> 5)
  else (.ram, (addr &&& mm.getRamMask) >>> 5)

namespace Cached
variable (mm : MemoryManager)

def block (s : Cached) (set way : Nat) : Bytes := (List.range 32).map (s.data set way)

def isValid (s : Cached) (set way : Nat) : Bool := (s.valid set).getLsbD way

def isModified (s : Cached) (set way : Nat) : Bool := (s.modified set).getLsbD way

def lookupOf (addr : Nat) (s : Cached) : Nat :=
  s.lookup (tableIndex mm addr).1 (tableIndex mm addr).2

def setLookup (addr way : Nat) (s : Cached) : Cached :=
  let (table, index) := tableIndex mm addr
  { s with
    lookup := Function.update s.lookup table (Function.update (s.lookup table) index way) }

/-- A modified block is copied to its line in memory. -/
def writeBack (addr set way : Nat) (s : Cached) : Cached :=
  if s.isModified set way then
    { s with memory := mm.copyToEmu addr (s.block set way) s.memory }
  else s

/-- The way that is taken for a line: one that is not valid, or the one of the tree. -/
def victim (s : Cached) (set : Nat) : Nat :=
  if s.valid set ≠ 0xff then wayFromValid (s.valid set) else wayFromPlru (s.plru set)

/-- A line is loaded into a way. -/
def load (addr set way : Nat) (s : Cached) : Cached :=
  let loaded := mm.copyFromEmu (s.block set way) addr s.memory
  let s := setLookup mm addr way { s with
    data := Function.update s.data set
      (Function.update (s.data set) way fun i => loaded.getD i 0) }
  { s with
    addrs := Function.update s.addrs set (Function.update (s.addrs set) way addr)
    valid := Function.update s.valid set (s.valid set ||| wayBit way)
    modified := Function.update s.modified set (s.modified set &&& ~~~wayBit way) }

def updatePlru (set way : Nat) (s : Cached) : Cached :=
  { s with plru := Function.update s.plru set (s.plru set &&& ~~~plruMask way ||| plruValue way) }

/-- `GetCache`: the set and the way of an address, if its line is in the cache or may be loaded. -/
def getCache (addr : Nat) (locked : Bool) (s : Cached) : Cached × Nat × Nat :=
  let addr := lineOf addr
  let set := setOf addr
  let way := s.lookupOf mm addr
  if !locked && way = noWay then
    let way := s.victim set
    let s := if s.isValid set way then
        setLookup mm (s.addrs set way) noWay (writeBack mm (s.addrs set way) set way s)
      else s
    (updatePlru set way (load mm addr set way s), set, way)
  else if way ≠ noWay then (updatePlru set way s, set, way)
  else (s, set, way)

def store (addr : Nat) (s : Cached) : Cached :=
  let (s, set, way) := getCache mm addr true s
  if way = noWay then s
  else
    let s := if s.isValid set way then writeBack mm (lineOf addr) set way s else s
    { s with modified := Function.update s.modified set (s.modified set &&& ~~~wayBit way) }

def flush (addr : Nat) (s : Cached) : Cached :=
  let (s, set, way) := getCache mm addr true s
  if way = noWay then s
  else if s.isValid set way then
    let s := setLookup mm (s.addrs set way) noWay (writeBack mm (lineOf addr) set way s)
    { s with
      valid := Function.update s.valid set (s.valid set &&& ~~~wayBit way)
      modified := Function.update s.modified set (s.modified set &&& ~~~wayBit way) }
  else s

def touch (addr : Nat) (s : Cached) : Cached := (getCache mm addr false s).1

def reset (s : Cached) : Cached :=
  { s with valid := fun _ => 0, plru := fun _ => 0, modified := fun _ => 0,
           lookup := fun _ _ => noWay }

def places : List (Nat × Nat) :=
  (List.range cacheSets).flatMap fun set => (List.range cacheWays).map fun way => (set, way)

def flushAll (s : Cached) : Cached :=
  reset (places.foldl (fun s p =>
    if s.isValid p.1 p.2 then writeBack mm (s.addrs p.1 p.2) p.1 p.2 s else s) s)

/-- The loop of `Read`: what is in the buffer after it. -/
def readLoop : Nat → Nat → Bytes → Bool → Cached → Bytes × Cached
  | 0, _, buffer, _, s => (buffer, s)
  | fuel + 1, addr, buffer, locked, s =>
    if buffer.isEmpty then (buffer, s)
    else
      let (s, set, way) := getCache mm addr locked s
      let offset := addr - lineOf addr
      let len := min buffer.length (lineOf (addr + 32) - addr)
      let piece := if way ≠ noWay then (List.range len).map fun i => s.data set way (offset + i)
        else mm.copyFromEmu (buffer.take len) addr s.memory
      let (rest, s) := readLoop fuel (addr + len) (buffer.drop len) locked s
      (piece ++ rest, s)

def read (addr : Nat) (buffer : Bytes) (locked : Bool) (s : Cached) : Bytes × Cached :=
  readLoop mm buffer.length addr buffer locked s

def writePiece (addr set way : Nat) (piece : Bytes) (s : Cached) : Cached :=
  let offset := addr - lineOf addr
  { s with
    data := Function.update s.data set (Function.update (s.data set) way fun i =>
      if offset ≤ i ∧ i < offset + piece.length then piece.getD (i - offset) 0
      else s.data set way i)
    modified := Function.update s.modified set (s.modified set ||| wayBit way) }

/-- The loop of `Write`. -/
def writeLoop : Nat → Nat → Bytes → Bool → Cached → Cached
  | 0, _, _, _, s => s
  | fuel + 1, addr, value, locked, s =>
    if value.isEmpty then s
    else
      let (s, set, way) := getCache mm addr locked s
      let len := min value.length (lineOf (addr + 32) - addr)
      let s := if way ≠ noWay then writePiece addr set way (value.take len) s
        else { s with memory := mm.copyToEmu addr (value.take len) s.memory }
      writeLoop fuel (addr + len) (value.drop len) locked s

def write (addr : Nat) (value : Bytes) (locked : Bool) (s : Cached) : Cached :=
  writeLoop mm value.length addr value locked s

def setEntries (entry : Nat → Nat) (s : Cached) : Cached :=
  places.foldl (fun s p =>
    if s.isValid p.1 p.2 then setLookup mm (s.addrs p.1 p.2) (entry p.2) s else s) s

/-- `DoState` of a saved state that is loaded, its memory with it. -/
def loadState (saved s : Cached) : Cached :=
  let s := setEntries mm (fun _ => noWay) s
  setEntries mm id { saved with lookup := s.lookup }

end Cached

/-! ### Lines and their bytes -/

variable {mm : MemoryManager} {a b x : Nat}

def InRegion (mm : MemoryManager) (a : Nat) : Prop :=
  a < 2 ^ mm.ramBits ∨ (2 ^ 28 ≤ a ∧ a < 2 ^ 28 + 2 ^ mm.exRamBits) ∨
    (0x7E000000 ≤ a ∧ a < 0x80000000)

instance (mm : MemoryManager) (a : Nat) : Decidable (InRegion mm a) :=
  inferInstanceAs (Decidable (_ ∨ _))

def Copyable (mm : MemoryManager) (a : Nat) : Prop :=
  ∃ span ∈ mm.getSpanForAddress (lineOf a), 32 ≤ span.2.2

instance (mm : MemoryManager) (a : Nat) : Decidable (Copyable mm a) :=
  inferInstanceAs (Decidable (∃ span ∈ _, _))

structure IsLine (mm : MemoryManager) (a : Nat) : Prop where
  aligned : a % 32 = 0
  inRegion : InRegion mm a

theorem ramSize_le (mm : MemoryManager) : 2 ^ mm.ramBits ≤ 2 ^ 28 :=
  Nat.pow_le_pow_right (by decide) mm.ramBits_le

theorem exRamSize_le (mm : MemoryManager) : 2 ^ mm.exRamBits ≤ 2 ^ 28 :=
  Nat.pow_le_pow_right (by decide) mm.exRamBits_le

theorem lineOf_le (a : Nat) : lineOf a ≤ a := Nat.div_mul_le_self a 32

theorem lt_lineOf_add (a : Nat) : a < lineOf a + 32 := by
  unfold lineOf
  omega

theorem lineOf_of_mem (h : a % 32 = 0) (hle : a ≤ x) (hlt : x < a + 32) : lineOf x = a := by
  unfold lineOf
  omega

@[simp] theorem lineOf_lineOf (a : Nat) : lineOf (lineOf a) = lineOf a := by
  unfold lineOf
  omega

theorem lineOf_mod (a : Nat) : lineOf a % 32 = 0 := Nat.mul_mod_left ..

theorem setOf_eq (a : Nat) : setOf a = a / 32 % 128 := by
  unfold setOf
  rw [Nat.shiftRight_eq_div_pow]
  exact Nat.and_two_pow_sub_one_eq_mod (a / 32) 7

@[simp] theorem setOf_lineOf (a : Nat) : setOf (lineOf a) = setOf a := by
  rw [setOf_eq, setOf_eq, lineOf, Nat.mul_div_cancel _ (by decide)]

theorem InRegion.isLine (h : InRegion mm a) : IsLine mm (lineOf a) := by
  refine ⟨lineOf_mod a, ?_⟩
  have hle := lineOf_le a
  rcases h with h | h | h
  · exact .inl (by omega)
  · exact .inr (.inl (by unfold lineOf; omega))
  · exact .inr (.inr (by unfold lineOf; omega))

theorem IsLine.lineOf (h : IsLine mm a) : lineOf a = a :=
  lineOf_of_mem h.aligned le_rfl (by omega)

theorem tableIndex_eq (h : InRegion mm a) : tableIndex mm a =
    if a < 2 ^ 28 then (.ram, a / 32)
    else if a < 2 ^ 29 then (.ex, (a - 2 ^ 28) / 32)
    else (.vmem, (a - 0x7E000000) / 32) := by
  have hram := ramSize_le mm
  have hex := exRamSize_le mm
  unfold tableIndex
  rw [Nat.testBit_eq_decide_div_mod_eq, Nat.testBit_eq_decide_div_mod_eq]
  simp only [Nat.shiftRight_eq_div_pow, decide_eq_true_eq]
  rcases h with h | ⟨hle, hlt⟩ | ⟨hle, hlt⟩
  · rw [if_neg (by omega), if_neg (by omega), if_pos (by omega), MemoryManager.getRamMask,
      Nat.and_two_pow_sub_one_eq_mod, Nat.mod_eq_of_lt h]
  · have hoffset : a % 2 ^ mm.exRamBits = a - 2 ^ 28 := by
      have hdvd : 2 ^ mm.exRamBits ∣ 2 ^ 28 := Nat.pow_dvd_pow 2 mm.exRamBits_le
      obtain ⟨k, hk⟩ := hdvd
      obtain ⟨r, rfl⟩ := Nat.exists_eq_add_of_le hle
      rw [hk, Nat.mul_add_mod, Nat.mod_eq_of_lt (by omega)]
      omega
    rw [if_neg (by omega), if_pos (by omega), if_neg (by omega), if_pos (by omega),
      MemoryManager.getExRamMask, Nat.and_two_pow_sub_one_eq_mod, hoffset]
  · have hmask : a &&& fakeVMemMask = a % 2 ^ 25 := Nat.and_two_pow_sub_one_eq_mod a 25
    rw [if_pos (by omega), if_neg (by omega), if_neg (by omega), hmask]
    have hoffset : a % 2 ^ 25 = a - 0x7E000000 := by omega
    rw [hoffset]

theorem tableIndex_injective (ha : IsLine mm a) (hb : IsLine mm b)
    (h : tableIndex mm a = tableIndex mm b) : a = b := by
  have hram := ramSize_le mm
  have hex := exRamSize_le mm
  have haligned := ha.aligned
  have hbligned := hb.aligned
  rw [tableIndex_eq ha.inRegion, tableIndex_eq hb.inRegion] at h
  have hra := ha.inRegion
  have hrb := hb.inRegion
  unfold InRegion at hra hrb
  split at h <;> split at h <;> (try split at h) <;> (try split at h) <;>
    simp only [Prod.mk.injEq, reduceCtorEq, false_and, true_and] at h <;> omega

/-! ### The bytes of a line -/

def byteAt (memory : Memory) (x : Nat) : UInt8 :=
  if x < 2 ^ 28 then memory .ram x else memory .exRam (x - 2 ^ 28)

theorem getSpan_eq (h : a < 2 ^ 29) : mm.getSpanForAddress a =
    if a < mm.ramSizeReal then some (.ram, a, mm.ramSizeReal - a)
    else if mm.haveExRam ∧ 2 ^ 28 ≤ a ∧ a < 2 ^ 28 + mm.exRamSizeReal then
      some (.exRam, a - 2 ^ 28, mm.exRamSizeReal - (a - 2 ^ 28))
    else none := by
  have hexReal := mm.exRam_le
  have hmask : a &&& 0x3FFFFFFF = a := by
    rw [show 0x3FFFFFFF = 2 ^ 30 - 1 from rfl, Nat.and_two_pow_sub_one_eq_mod]
    exact Nat.mod_eq_of_lt (by omega)
  have hlow : a &&& 0x0fffffff = a % 2 ^ 28 := Nat.and_two_pow_sub_one_eq_mod a 28
  simp only [MemoryManager.getSpanForAddress, hmask, hlow, Nat.shiftRight_eq_div_pow]
  split
  · rfl
  · by_cases hle : 2 ^ 28 ≤ a
    · have hoffset : a % 2 ^ 28 = a - 2 ^ 28 := by omega
      have hhigh : a / 2 ^ 28 = 1 := by omega
      rw [hoffset, hhigh]
      refine if_ctx_congr (and_congr_right fun _ => by omega) (fun hin => ?_) fun _ => rfl
      have hexMask : a &&& mm.getExRamMask = a - 2 ^ 28 := by
        rw [MemoryManager.getExRamMask, Nat.and_two_pow_sub_one_eq_mod]
        obtain ⟨k, hk⟩ : 2 ^ mm.exRamBits ∣ 2 ^ 28 := Nat.pow_dvd_pow 2 mm.exRamBits_le
        obtain ⟨r, rfl⟩ := Nat.exists_eq_add_of_le hle
        rw [hk, Nat.mul_add_mod, Nat.mod_eq_of_lt (by omega)]
        omega
      rw [hexMask]
    · have hhigh : a / 2 ^ 28 = 0 := by omega
      rw [hhigh, if_neg (by simp), if_neg (by omega)]

theorem getSpan_fakeVMem (hle : 0x7E000000 ≤ a) (hlt : a < 0x80000000) :
    mm.getSpanForAddress a = none := by
  have hram := ramSize_le mm
  have hreal := mm.ram_le
  have hmask : a &&& 0x3FFFFFFF = a - 0x40000000 := by
    rw [show 0x3FFFFFFF = 2 ^ 30 - 1 from rfl, Nat.and_two_pow_sub_one_eq_mod]
    omega
  have hhigh : (a - 0x40000000) / 2 ^ 28 = 3 := by omega
  simp only [MemoryManager.getSpanForAddress, hmask, Nat.shiftRight_eq_div_pow, hhigh]
  rw [if_neg (by omega), if_neg (by simp)]

theorem Copyable.cases (hr : InRegion mm a) (h : Copyable mm a) :
    (a < 2 ^ 28 ∧ lineOf a + 32 ≤ mm.ramSizeReal) ∨
      (2 ^ 28 ≤ a ∧ a < 2 ^ 29 ∧ mm.haveExRam ∧ lineOf a + 32 ≤ 2 ^ 28 + mm.exRamSizeReal) := by
  have hram := ramSize_le mm
  have hex := exRamSize_le mm
  have hreal := mm.ram_le
  have hle := lineOf_le a
  have hlt := lt_lineOf_add a
  have haligned := lineOf_mod a
  obtain ⟨⟨region, start, size⟩, hspan, (hsize : 32 ≤ size)⟩ := h
  by_cases hlow : a < 2 ^ 29
  · rw [Option.mem_def, getSpan_eq (by omega)] at hspan
    split at hspan
    · simp only [Option.some.injEq, Prod.mk.injEq] at hspan
      exact .inl ⟨by omega, by omega⟩
    · split at hspan
      · next hin =>
        simp only [Option.some.injEq, Prod.mk.injEq] at hspan
        exact .inr ⟨by omega, hlow, hin.1, by omega⟩
      · cases hspan
  · have hvmem : 0x7E000000 ≤ lineOf a ∧ lineOf a < 0x80000000 := by
      unfold InRegion at hr
      omega
    rw [Option.mem_def, getSpan_fakeVMem hvmem.1 hvmem.2] at hspan
    cases hspan

theorem Copyable.span (hr : InRegion mm a) (h : Copyable mm a) :
    ∃ region start size, mm.getSpanForAddress a = some (region, start, size) ∧
      lineOf a + 32 ≤ a + size ∧
      ∀ memory i, a + i < lineOf a + 32 → byteAt memory (a + i) = memory region (start + i) := by
  have hle := lineOf_le a
  have hlt := lt_lineOf_add a
  have haligned := lineOf_mod a
  rcases h.cases hr with ⟨hlow, hroom⟩ | ⟨hhigh, hbound, hhave, hroom⟩
  · refine ⟨.ram, a, mm.ramSizeReal - a, ?_, by omega, fun memory i hi => ?_⟩
    · rw [getSpan_eq (by omega), if_pos (by omega)]
    · rw [byteAt, if_pos (by omega)]
  · have hreal := mm.ram_le
    have hram := ramSize_le mm
    refine ⟨.exRam, a - 2 ^ 28, mm.exRamSizeReal - (a - 2 ^ 28), ?_, by omega,
      fun memory i hi => ?_⟩
    · rw [getSpan_eq hbound, if_neg (by omega), if_pos ⟨hhave, hhigh, by omega⟩]
    · have hshift : a + i - 2 ^ 28 = a - 2 ^ 28 + i := by omega
      rw [byteAt, if_neg (by omega), hshift]

theorem copyFromEmu_eq (hr : InRegion mm a) (h : Copyable mm a) {data : Bytes}
    (hlen : a + data.length ≤ lineOf a + 32) (memory : Memory) :
    mm.copyFromEmu data a memory = (List.range data.length).map fun i => byteAt memory (a + i) := by
  obtain ⟨region, start, size, hspan, hsize, hbyte⟩ := h.span hr
  simp only [MemoryManager.copyFromEmu, hspan]
  rw [if_neg (by omega)]
  refine List.map_congr_left fun i hi => ?_
  rw [hbyte memory i (by have := List.mem_range.1 hi; omega)]

theorem byteAt_copyToEmu (hr : InRegion mm a) (h : Copyable mm a) {data : Bytes}
    (hlen : a + data.length ≤ lineOf a + 32) (memory : Memory) (x : Nat) :
    byteAt (mm.copyToEmu a data memory) x =
      if a ≤ x ∧ x < a + data.length then data.getD (x - a) 0 else byteAt memory x := by
  have hle := lineOf_le a
  have hlt := lt_lineOf_add a
  have haligned := lineOf_mod a
  have hreal := mm.ram_le
  have hram := ramSize_le mm
  simp only [MemoryManager.copyToEmu]
  rcases h.cases hr with ⟨hlow, hroom⟩ | ⟨hhigh, hbound, hhave, hroom⟩
  · rw [getSpan_eq (by omega), if_pos (by omega)]
    simp only []
    rw [if_neg (by omega)]
    by_cases hxlow : x < 2 ^ 28
    · simp only [byteAt, if_pos hxlow, Function.update_self]
    · rw [byteAt, if_neg hxlow, byteAt, if_neg hxlow, if_neg (by omega),
        Function.update_of_ne (by decide)]
  · rw [getSpan_eq hbound, if_neg (by omega), if_pos ⟨hhave, hhigh, by omega⟩]
    simp only []
    rw [if_neg (by omega)]
    by_cases hxlow : x < 2 ^ 28
    · rw [byteAt, if_pos hxlow, byteAt, if_pos hxlow, if_neg (by omega),
        Function.update_of_ne (by decide)]
    · have hsame : x - 2 ^ 28 - (a - 2 ^ 28) = x - a := by omega
      simp only [byteAt, if_neg hxlow, Function.update_self, hsame]
      exact if_congr (by omega) rfl rfl

end DolphinXR.PowerPC
