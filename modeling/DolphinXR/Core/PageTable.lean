import Mathlib.Logic.Function.Basic
import DolphinXR.Common.Align
import Mathlib.Algebra.Group.Nat.Defs

/- The host's view of the page table (Core/PowerPC/MMU.cpp). The page table is a hash table of
   groups of eight entries (PTEGs), which the emulated processor searches at every TLB miss. For
   fast accesses the pages are mapped on the host too: whenever the table may have changed,
   `PageTableUpdated` compares it with its copy of the last table and brings the mappings up to
   date entry by entry.

   A word of an entry is the record of its bit fields, which cover all of its 32 bits. A place in
   the table is the number of its PTEG and the place in it, offset / 64 and offset % 64 / 8. What
   is held fixed is in `Mmu`: SDR1, the segment registers, the DBAT table, the memory checks and
   the host. Sets and maps that are only filled and then walked are lists.

   The JIT is one that wants page table mappings. Left out: the TLB in front of the search and
   the access bits it sets, and the panic alerts of the memory manager. -/
namespace DolphinXR.PowerPC
open Common

structure UpteLo where
  api : BitVec 6
  h : Bool
  vsid : BitVec 24
  v : Bool
  deriving DecidableEq

structure UpteHi where
  pp : BitVec 2
  reserved1 : Bool
  wimg : BitVec 4
  c : Bool
  r : Bool
  reserved2 : BitVec 3
  rpn : BitVec 20
  deriving DecidableEq

structure Pte where
  lo : UpteLo
  hi : UpteHi
  deriving DecidableEq

def Pte.zero : Pte := ⟨⟨0, false, 0, false⟩, ⟨0, false, 0, false, false, 0, 0⟩⟩

structure Slot where
  pteg : BitVec 32
  place : Fin 8
  deriving DecidableEq

abbrev Entries := Slot → Pte

structure PageTable where
  size : Nat := 0
  entries : Entries := fun _ => Pte.zero

/-- The page of an effective address: its segment register and its index in the segment. -/
structure EffectivePage where
  sr : Fin 16
  pageIndex : BitVec 16
  deriving DecidableEq

namespace EffectivePage

def api (page : EffectivePage) : BitVec 6 := page.pageIndex.extractLsb' 10 6

def number (page : EffectivePage) : Nat := page.sr.val * 2 ^ 16 + page.pageIndex.toNat

def address (page : EffectivePage) : BitVec 32 := BitVec.ofNat 32 (page.number * 2 ^ 12)

end EffectivePage

structure SegmentRegister where
  vsid : BitVec 24
  t : Bool

structure PageMapping where
  rpn : BitVec 20
  hostMapping : Bool
  priority : Nat
  deriving DecidableEq

structure Mmu where
  htaborg : BitVec 16
  htabmask : BitVec 9
  sr : Fin 16 → SegmentRegister
  /-- Whether an entry of the DBAT table has `BAT_MAPPED_BIT`, by address >> 17. -/
  dbatMapped : BitVec 32 → Bool
  overlapsMemcheck : BitVec 32 → Bool
  /-- Whether there is an arena for fast accesses. -/
  fastmem : Bool
  /-- The guest pages in a page of the host, 2 ^ n. -/
  hostPageBits : Nat
  hostPageBits_le : hostPageBits ≤ 20
  /-- Whether memory is behind a physical page. -/
  backed : BitVec 20 → Bool

namespace Mmu

def pagetableBase (mmu : Mmu) : BitVec 32 := mmu.htaborg.setWidth 32 <<< 16

def pagetableMask (mmu : Mmu) : BitVec 32 := mmu.htabmask.setWidth 32 <<< 16 ||| 0xffc0

def pageTableMinSize : Nat := 0x10000

/-- The size `PageTableUpdated()` reads. -/
def pageTableSize (mmu : Mmu) : Nat :=
  alignUp (mmu.pagetableBase ||| mmu.pagetableMask).toNat pageTableMinSize -
    mmu.pagetableBase.toNat

def ptegAt (mmu : Mmu) (address : BitVec 32) : BitVec 32 :=
  (((address &&& mmu.pagetableMask) ||| mmu.pagetableBase) - mmu.pagetableBase) >>> 6

def findInPteg (entries : Entries) (pte1 : UpteLo) (pteg : BitVec 32) : Option (Nat × UpteHi) :=
  ((List.finRange 8).find? fun place => (entries ⟨pteg, place⟩).lo = pte1).map fun place =>
    (place.val, (entries ⟨pteg, place⟩).hi)

/-- The search of `TranslatePageAddress`: the place it finds the page at, the places of the
    secondary PTEG behind those of the primary. -/
def translatePageAddress (mmu : Mmu) (entries : Entries) (page : EffectivePage) :
    Option (Nat × UpteHi) :=
  let sr := mmu.sr page.sr
  if sr.t then none
  else
    let hash := sr.vsid.setWidth 32 ^^^ page.pageIndex.setWidth 32
    let pte1 : UpteLo := ⟨page.api, false, sr.vsid, true⟩
    match findInPteg entries pte1 (mmu.ptegAt (hash <<< 6)) with
    | some found => some found
    | none =>
      (findInPteg entries { pte1 with h := true } (mmu.ptegAt ((~~~hash) <<< 6))).map fun found =>
        (found.1 + 8, found.2)

/-! ### The memory manager -/

/-- The guest pages that can be read and that can be written, by number, and what is mapped, by
    number of the host's page: the first physical page, and whether it is writeable. -/
structure Memory where
  readable : Nat → Option (BitVec 20) := fun _ => none
  writeable : Nat → Option (BitVec 20) := fun _ => none
  mapped : Nat → Option (BitVec 20 × Bool) := fun _ => none

def hostPage (mmu : Mmu) (page : Nat) : Nat := page / 2 ^ mmu.hostPageBits

/-- The guest pages of a page of the host lie behind one another, from an aligned one on. -/
def canCreateHostMapping (mmu : Mmu) (entries : Nat → Option (BitVec 20)) (host : Nat) : Bool :=
  let guestPages := 2 ^ mmu.hostPageBits
  match entries (host * guestPages) with
  | none => false
  | some first =>
    decide (first.toNat % guestPages = 0) &&
      (List.range guestPages).all fun i =>
        entries (host * guestPages + i) == some (first + BitVec.ofNat 20 i)

/-- A new mapping, or another protection for the one that is there. -/
def addHostPageTableMapping (mmu : Mmu) (host : Nat) (first : BitVec 20) (writeable : Bool)
    (memory : Memory) : Memory :=
  if !mmu.backed first then memory
  else
    let mapping :=
      match memory.mapped host with
      | some existing => (existing.1, writeable)
      | none => (first, writeable)
    { memory with mapped := Function.update memory.mapped host (some mapping) }

def addPageTableMapping (mmu : Mmu) (page : Nat) (rpn : BitVec 20) (writeable : Bool)
    (memory : Memory) : Memory :=
  if !mmu.fastmem then memory
  else
    let host := mmu.hostPage page
    let readable := Function.update memory.readable page (some rpn)
    let addReadable := mmu.canCreateHostMapping readable host
    let writeablePages :=
      if writeable then Function.update memory.writeable page (some rpn) else memory.writeable
    let addWriteable := writeable && mmu.canCreateHostMapping writeablePages host
    let memory := { memory with readable, writeable := writeablePages }
    if addReadable || addWriteable then
      let guestPages := 2 ^ mmu.hostPageBits
      let first := BitVec.ofNat 20 (rpn.toNat / guestPages * guestPages)
      mmu.addHostPageTableMapping host first addWriteable memory
    else memory

def removePageTableMapping (mmu : Mmu) (page : Nat) (memory : Memory) : Memory where
  readable := Function.update memory.readable page none
  writeable := Function.update memory.writeable page none
  mapped := Function.update memory.mapped (mmu.hostPage page) none

/-- The physical page an effective page has on the host, and whether it is writeable there. -/
def hostMapping (mmu : Mmu) (memory : Memory) (page : EffectivePage) : Option (BitVec 20 × Bool) :=
  (memory.mapped (mmu.hostPage page.number)).map fun x =>
    (x.1 + BitVec.ofNat 20 (page.number % 2 ^ mmu.hostPageBits), x.2)

/-! ### Updates -/

/-- What an update works on: the copy of the table, `m_page_mappings`, and what is to be done on
    the host afterwards. -/
structure Update where
  old : Entries
  mappings : EffectivePage → Option PageMapping
  removed : List EffectivePage := []
  addedReadonly : List (EffectivePage × BitVec 20) := []
  addedReadwrite : List (EffectivePage × BitVec 20) := []
  runPass2 : Bool := false

/-- The page index an entry is for, where the bits of its hash and of its API that say the same
    agree. -/
def getPageIndex (mmu : Mmu) (pte1 : UpteLo) (hash : BitVec 32) : Option (BitVec 16) :=
  let fromHash := hash ^^^ pte1.vsid.setWidth 32
  let fromHash := if pte1.h then ~~~fromHash else fromHash
  -- The API replaces the upper bits, which the hash mask may have cut off.
  let pageIndex : BitVec 16 := pte1.api ++ fromHash.setWidth 10
  let apiMask : BitVec 6 := ((mmu.pagetableMask &&& ~~~mmu.pagetableBase) >>> 16).setWidth 6
  if pte1.api &&& apiMask ≠ (fromHash >>> 10).setWidth 6 &&& apiMask then none else some pageIndex

def priority (slot : Slot) (pte1 : UpteLo) : Nat := slot.place.val + 8 * pte1.h.toNat

/-- `emplace` of a set. -/
def insertPage (page : EffectivePage) (pages : List EffectivePage) : List EffectivePage :=
  if page ∈ pages then pages else pages ++ [page]

/-- `emplace` of a map: what is there stays. -/
def emplacePage (page : EffectivePage) (rpn : BitVec 20) (pages : List (EffectivePage × BitVec 20)) :
    List (EffectivePage × BitVec 20) :=
  if page ∈ pages.map Prod.fst then pages else pages ++ [(page, rpn)]

/-- An entry that compares equal to the new one is changed in a bit that is not used, so that it
    is looked at again. -/
def recheck (new : Entries) (slot : Slot) (switchedToSecondary : Bool) (u : Update) : Update :=
  if u.old slot = new slot then
    let hi := (u.old slot).hi
    { u with
      old := Function.update u.old slot
        { u.old slot with hi := { hi with reserved1 := !hi.reserved1 } }
      runPass2 := u.runPass2 || switchedToSecondary }
  else u

def scan (new : Entries) (pte1 : UpteLo) (pteg : BitVec 32) (place : Nat) : Option Slot :=
  ((List.finRange 8).find? fun i => place ≤ i.val ∧ (new ⟨pteg, i⟩).lo = pte1).map fun i => ⟨pteg, i⟩

/-- `fixup_shadowed_mappings`: the entry that a removed one had priority over. -/
def fixupShadowedMappings (mmu : Mmu) (new : Entries) (pte1 : UpteLo) (slot : Slot) (u : Update) :
    Update :=
  match scan new pte1 slot.pteg slot.place with
  | some found => recheck new found false u
  | none =>
    if pte1.h then u
    else
      match scan new { pte1 with h := true } (mmu.ptegAt (~~~(slot.pteg <<< 6))) 0 with
      | some found => recheck new found true u
      | none => u

/-- Uncached memory, memory that a block translation maps and memory with checks is not mapped on
    the host. -/
def mapsOnHost (mmu : Mmu) (pte2 : UpteHi) (page : EffectivePage) : Bool :=
  if pte2.wimg &&& 0b1100 ≠ 0 then false
  else if mmu.dbatMapped (page.address >>> 17) then false
  else !mmu.overlapsMemcheck page.address

/-- A mapping takes its place; the host mapping itself waits for the R bit. -/
def setMapping (page : EffectivePage) (pte2 : UpteHi) (mapping : PageMapping) (u : Update) :
    Update :=
  let u := { u with mappings := Function.update u.mappings page (some mapping) }
  if mapping.hostMapping && pte2.r then
    if pte2.c then { u with addedReadwrite := emplacePage page pte2.rpn u.addedReadwrite }
    else { u with addedReadonly := emplacePage page pte2.rpn u.addedReadonly }
  else u

/-- `try_add_mapping` in one segment. -/
def tryAddInSegment (mmu : Mmu) (pte : Pte) (slot : Slot) (pageIndex : BitVec 16) (u : Update)
    (i : Fin 16) : Update :=
  let sr := mmu.sr i
  if sr.vsid ≠ pte.lo.vsid ∨ sr.t then u
  else
    let page : EffectivePage := ⟨i, pageIndex⟩
    let mapping : PageMapping :=
      ⟨pte.hi.rpn, mmu.mapsOnHost pte.hi page, priority slot pte.lo⟩
    match u.mappings page with
    | none => setMapping page pte.hi mapping u
    | some existing =>
      if existing.priority < mapping.priority then u
      else if existing.hostMapping then
        setMapping page pte.hi mapping { u with removed := insertPage page u.removed }
      else setMapping page pte.hi mapping u

def tryAddMapping (mmu : Mmu) (pte : Pte) (slot : Slot) (u : Update) : Update :=
  match mmu.getPageIndex pte.lo slot.pteg with
  | none => u
  | some pageIndex => (List.finRange 16).foldl (mmu.tryAddInSegment pte slot pageIndex) u

/-- The old mapping of an entry goes from one segment. -/
def removeInSegment (mmu : Mmu) (new : Entries) (pte1 : UpteLo) (slot : Slot)
    (pageIndex : BitVec 16) (u : Update) (i : Fin 16) : Update :=
  let sr := mmu.sr i
  if sr.vsid ≠ pte1.vsid ∨ sr.t then u
  else
    let page : EffectivePage := ⟨i, pageIndex⟩
    match u.mappings page with
    | none => u
    | some existing =>
      if existing.priority = priority slot pte1 then
        mmu.fixupShadowedMappings new pte1 slot
          { u with
            removed := if existing.hostMapping then insertPage page u.removed else u.removed
            mappings := Function.update u.mappings page none }
      else u

/-- The old mappings of an entry go; `none` where the loop goes on to the next entry. -/
def removeMappings (mmu : Mmu) (new : Entries) (slot : Slot) (u : Update) : Option Update :=
  let pte1 := (u.old slot).lo
  if pte1.v then
    (mmu.getPageIndex pte1 slot.pteg).map fun pageIndex =>
      (List.finRange 16).foldl (mmu.removeInSegment new pte1 slot pageIndex) u
  else some u

def copyEntry (new : Entries) (slot : Slot) (u : Update) : Update :=
  { u with old := Function.update u.old slot (new slot) }

/-- An entry in the first pass. -/
def visit1 (mmu : Mmu) (new : Entries) (u : Update) (slot : Slot) : Update :=
  if u.old slot = new slot then u
  else
    match mmu.removeMappings new slot u with
    | none => u
    | some u =>
      if (new slot).lo.v then
        if (new slot).lo.h then { u with runPass2 := true }
        else copyEntry new slot (mmu.tryAddMapping (new slot) slot u)
      else copyEntry new slot u

def visit2 (mmu : Mmu) (new : Entries) (u : Update) (slot : Slot) : Update :=
  if u.old slot = new slot then u
  else copyEntry new slot (mmu.tryAddMapping (new slot) slot u)

/-- The PTEGs of a table that the hash reaches, in order. -/
def ptegs (mmu : Mmu) (size : Nat) : List (BitVec 32) :=
  ((List.range (size / 64)).map (BitVec.ofNat 32)).filter fun pteg =>
    let i := (pteg <<< 6) &&& ~~~0xffff
    i &&& mmu.pagetableMask = i ∧ i &&& mmu.pagetableBase = 0

/-- The eight entries of a PTEG, if not all are equal. -/
def visitPteg (visit : Update → Slot → Update) (new : Entries) (u : Update) (pteg : BitVec 32) :
    Update :=
  if ∀ place, u.old ⟨pteg, place⟩ = new ⟨pteg, place⟩ then u
  else (List.finRange 8).foldl (fun u place => visit u ⟨pteg, place⟩) u

def pass (mmu : Mmu) (visit : Update → Slot → Update) (size : Nat) (new : Entries) (u : Update) :
    Update :=
  (mmu.ptegs size).foldl (visitPteg visit new) u

/-- Pass 1 removes old mappings and adds new primary ones, pass 2 adds new secondary ones. -/
def bothPasses (mmu : Mmu) (size : Nat) (new : Entries) (u : Update) : Update :=
  let u := mmu.pass (mmu.visit1 new) size new u
  if u.runPass2 then mmu.pass (mmu.visit2 new) size new u else u

def inOrder {α : Type} (page : α → EffectivePage) (xs : List α) : List α :=
  xs.mergeSort fun x y => decide ((page x).number ≤ (page y).number)

/-- The host follows: what is removed first. -/
def updateHost (mmu : Mmu) (u : Update) (memory : Memory) : Memory :=
  let memory := (inOrder id u.removed).foldl
    (fun m page => mmu.removePageTableMapping page.number m) memory
  let memory := (inOrder Prod.fst u.addedReadonly).foldl
    (fun m x => mmu.addPageTableMapping x.1.number x.2 false m) memory
  (inOrder Prod.fst u.addedReadwrite).foldl
    (fun m x => mmu.addPageTableMapping x.1.number x.2 true m) memory

/-- `m_page_table`, `m_page_mappings` and what is mapped on the host. -/
structure State where
  pageTable : PageTable := {}
  mappings : EffectivePage → Option PageMapping := fun _ => none
  memory : Memory := {}

/-- `PageTableUpdated` of a table. -/
def pageTableUpdated (mmu : Mmu) (table : PageTable) (s : State) : State :=
  if table.size % pageTableMinSize ≠ 0 then {}
  else
    let s : State :=
      if s.pageTable.size ≠ table.size then { pageTable := { size := table.size } } else s
    let u := mmu.bothPasses table.size table.entries
      { old := s.pageTable.entries, mappings := s.mappings }
    { pageTable := { s.pageTable with entries := u.old }
      mappings := u.mappings
      memory := mmu.updateHost u s.memory }

/-- `ReloadPageTable`: the last table, from an empty copy on. -/
def reloadPageTable (mmu : Mmu) (s : State) : State :=
  mmu.pageTableUpdated s.pageTable { s with pageTable := {}, mappings := fun _ => none }

end Mmu
end DolphinXR.PowerPC
