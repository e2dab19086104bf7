import Mathlib.Data.Int.ModEq
import DolphinXR.Lib.Bytes

/- The memory patches of Riivolution that look for their place (DiscIO/RiivolutionPatcher.cpp).
   `ApplySearchMemoryPatch` tries every `align`th address of a range and writes over the first
   match. Its index and its bound `length - (align - 1)` are 32 bit values: where `align` exceeds
   `length + 1` the bound wraps to nearly 2^32, and the loop leaves the range or does not end.

   The guest's memory is what the MMU makes of it: an address is translated, or cannot be
   accessed. The achievement and HLE side is the flag and the addresses that the patches look at.
   A pattern is shorter than 2^32 bytes, as the u32 that counts its bytes needs. -/
namespace DolphinXR.DiscIO.Riivolution
open Lib

/-- `Memory`, a patch of the memory. -/
structure MemoryPatch where
  offset : BitVec 32
  value : Bytes
  valuefile : String
  original : Bytes
  ocarina : Bool
  search : Bool
  align : BitVec 32
  original_lt : original.length < 2 ^ 32

structure Guest where
  isHardcoreModeActive : Bool
  translate : BitVec 32 → Option Nat
  memory : Nat → UInt8
  hookedAddresses : List (BitVec 32)

namespace Guest

def hostTryRead (g : Guest) (address : BitVec 32) : Option UInt8 :=
  (g.translate address).map g.memory

def hostTryWrite (g : Guest) (value : UInt8) (address : BitVec 32) : Guest :=
  match g.translate address with
  | none => g
  | some place => { g with memory := Function.update g.memory place value }

/-- `HLE::UnpatchRange`, without the count it logs. -/
def unpatchRange (g : Guest) (startAddr endAddr : BitVec 32) : Guest :=
  { g with hookedAddresses :=
      g.hookedAddresses.filter fun hook => ¬(startAddr ≤ hook ∧ hook < endAddr) }

def memoryMatchesAt (g : Guest) (offset : BitVec 32) (value : Bytes) : Bool :=
  (List.range value.length).all fun i =>
    g.hostTryRead (offset + BitVec.ofNat 32 i) == some (value.getD i 0)

def applyMemoryPatchAt (g : Guest) (offset : BitVec 32) (value original : Bytes) : Guest :=
  if g.isHardcoreModeActive then g
  else if value.isEmpty then g
  else if !original.isEmpty && !g.memoryMatchesAt offset original then g
  else
    let size := BitVec.ofNat 32 value.length
    let g := (List.range size.toNat).foldl
      (fun g i => g.hostTryWrite (value.getD i 0) (offset + BitVec.ofNat 32 i)) g
    g.unpatchRange offset (offset + size)

end Guest

/-- `GetFileContents` of the patch's loader. -/
abbrev FileDataLoader := String → Bytes

def getMemoryPatchValue (loader : FileDataLoader) (m : MemoryPatch) : Bytes :=
  if m.valuefile ≠ "" then loader m.valuefile else m.value

def applyMemoryPatch (g : Guest) (loader : FileDataLoader) (m : MemoryPatch) : Guest :=
  if m.offset = 0 then g
  else g.applyMemoryPatchAt (m.offset ||| 0x80000000#32) (getMemoryPatchValue loader m) m.original

/-- The loop's bound, in 32 bits. -/
def searchBound (length stride : BitVec 32) : BitVec 32 := length - (stride - 1)

/-- The loop from the index `i` on: `none` when the rounds do not suffice, else where the pattern
    was found, if anywhere. -/
def searchLoop (g : Guest) (original : Bytes) (ramStart bound stride : BitVec 32) :
    Nat → BitVec 32 → Option (Option (BitVec 32))
  | 0, _ => none
  | rounds + 1, i =>
    if i < bound then
      let address := ramStart + i
      if g.memoryMatchesAt address original then some (some address)
      else searchLoop g original ramStart bound stride rounds (i + stride)
    else some none

/-- The patch is applied at the address that was found. -/
def applyFound (g : Guest) (loader : FileDataLoader) (m : MemoryPatch) :
    Option (BitVec 32) → Guest × Option (BitVec 32)
  | none => (g, none)
  | some address =>
    (g.applyMemoryPatchAt address (getMemoryPatchValue loader m) [], some address)

/-- The guest afterwards, and the address at which the patch was applied. -/
def applySearchMemoryPatch (rounds : Nat) (g : Guest) (loader : FileDataLoader) (m : MemoryPatch)
    (ramStart length : BitVec 32) : Option (Guest × Option (BitVec 32)) :=
  if m.original.isEmpty || m.align == 0#32 then some (g, none)
  else
    let stride := m.align
    (searchLoop g m.original ramStart (searchBound length stride) stride rounds 0#32).map
      (applyFound g loader m)

/-! ### The rounds of the loop -/

/-- The index in round `n`. -/
def index (stride : BitVec 32) (n : Nat) : BitVec 32 := BitVec.ofNat 32 n * stride

@[simp] theorem index_zero (stride : BitVec 32) : index stride 0 = 0#32 := by
  simp [index]

theorem index_succ (stride : BitVec 32) (n : Nat) :
    index stride (n + 1) = index stride n + stride := by
  rw [index, index, BitVec.ofNat_add, BitVec.add_mul, BitVec.one_mul]

section Search
variable {g : Guest} {original : Bytes} {ramStart bound stride : BitVec 32}

/-- Round `n` neither ends the loop nor finds the pattern. -/
def Passes (g : Guest) (original : Bytes) (ramStart bound stride : BitVec 32) (n : Nat) : Prop :=
  index stride n < bound ∧ g.memoryMatchesAt (ramStart + index stride n) original = false

def outcome (ramStart bound stride : BitVec 32) (n : Nat) : Option (BitVec 32) :=
  if index stride n < bound then some (ramStart + index stride n) else none

theorem searchLoop_of_passes {k n : Nat}
    (h : ∀ j < n, Passes g original ramStart bound stride (k + j)) (rounds : Nat) :
    searchLoop g original ramStart bound stride (n + rounds) (index stride k) =
      searchLoop g original ramStart bound stride rounds (index stride (k + n)) := by
  induction n generalizing k with
  | zero => simp
  | succ n ih =>
    have hk : Passes g original ramStart bound stride k := h 0 (Nat.succ_pos n)
    have hrest : ∀ j < n, Passes g original ramStart bound stride (k + 1 + j) := by
      intro j hj
      have := h (j + 1) (Nat.succ_lt_succ hj)
      rwa [← Nat.add_assoc, Nat.add_right_comm] at this
    calc searchLoop g original ramStart bound stride (n + 1 + rounds) (index stride k)
        = searchLoop g original ramStart bound stride (n + rounds) (index stride (k + 1)) := by
          rw [Nat.add_right_comm, searchLoop, if_pos hk.1, index_succ]
          simp [hk.2]
      _ = searchLoop g original ramStart bound stride rounds (index stride (k + (n + 1))) := by
          rw [ih hrest, Nat.add_right_comm, Nat.add_assoc]

theorem searchLoop_of_first {n : Nat} (h : ∀ j < n, Passes g original ramStart bound stride j)
    (hn : ¬Passes g original ramStart bound stride n) (rounds : Nat) :
    searchLoop g original ramStart bound stride (n + (rounds + 1)) 0#32 =
      some (outcome ramStart bound stride n) := by
  have hstart := searchLoop_of_passes (k := 0) (n := n) (by simpa using h) (rounds + 1)
  rw [index_zero, Nat.zero_add] at hstart
  rw [hstart, searchLoop, outcome]
  by_cases hlt : index stride n < bound
  · have hfound : g.memoryMatchesAt (ramStart + index stride n) original = true := by
      by_contra hne
      exact hn ⟨hlt, by simpa using hne⟩
    simp [hlt, hfound]
  · simp [hlt]

theorem searchLoop_eq_none (h : ∀ n, Passes g original ramStart bound stride n) (rounds : Nat) :
    searchLoop g original ramStart bound stride rounds 0#32 = none := by
  have := searchLoop_of_passes (k := 0) (n := rounds) (fun j _ => h (0 + j)) 0
  rwa [index_zero, Nat.add_zero] at this

theorem searchLoop_eq_some_iff {r : Option (BitVec 32)} :
    (∃ rounds, searchLoop g original ramStart bound stride rounds 0#32 = some r) ↔
      ∃ n, (∀ j < n, Passes g original ramStart bound stride j) ∧
        ¬Passes g original ramStart bound stride n ∧ r = outcome ramStart bound stride n := by
  constructor
  · rintro ⟨rounds, hr⟩
    by_cases hall : ∀ n, Passes g original ramStart bound stride n
    · rw [searchLoop_eq_none hall] at hr
      cases hr
    · classical
      have hex : ∃ n, ¬Passes g original ramStart bound stride n := not_forall.1 hall
      have hbefore : ∀ j < Nat.find hex, Passes g original ramStart bound stride j :=
        fun j hj => not_not.1 (Nat.find_min hex hj)
      refine ⟨Nat.find hex, hbefore, Nat.find_spec hex, ?_⟩
      by_cases hle : rounds ≤ Nat.find hex
      · -- all rounds are passed, so nothing is returned yet
        have := searchLoop_of_passes (k := 0) (n := rounds)
          (fun j hj => (Nat.zero_add j).symm ▸ hbefore j (Nat.lt_of_lt_of_le hj hle)) 0
        rw [index_zero, Nat.add_zero, hr] at this
        cases this
      · obtain ⟨more, rfl⟩ := Nat.exists_eq_add_of_lt (Nat.lt_of_not_le hle)
        have := searchLoop_of_first hbefore (Nat.find_spec hex) more
        rw [← Nat.add_assoc, hr] at this
        exact Option.some.inj this
  · rintro ⟨n, hbefore, hn, rfl⟩
    exact ⟨_, searchLoop_of_first hbefore hn 0⟩

end Search

/-! ### Where the index goes -/

theorem toNat_index (stride : BitVec 32) (n : Nat) :
    (index stride n).toNat = n * stride.toNat % 2 ^ 32 := by
  rw [index, BitVec.toNat_mul, BitVec.toNat_ofNat, Nat.mod_mul_mod]

theorem toNat_searchBound {length stride : BitVec 32} (hstride : stride ≠ 0#32)
    (hle : stride.toNat ≤ length.toNat + 1) :
    (searchBound length stride).toNat = length.toNat + 1 - stride.toNat := by
  have hpos : 0 < stride.toNat := Nat.pos_of_ne_zero fun h => hstride (BitVec.eq_of_toNat_eq h)
  have hl := length.isLt
  have hs := stride.isLt
  have hone : (1 : BitVec 32).toNat = 1 := rfl
  rw [searchBound, BitVec.toNat_sub, BitVec.toNat_sub, hone]
  omega

theorem toNat_searchBound_of_wrap {length stride : BitVec 32}
    (hlt : length.toNat + 1 < stride.toNat) :
    (searchBound length stride).toNat = 2 ^ 32 + length.toNat + 1 - stride.toNat := by
  have hl := length.isLt
  have hs := stride.isLt
  have hone : (1 : BitVec 32).toNat = 1 := rfl
  rw [searchBound, BitVec.toNat_sub, BitVec.toNat_sub, hone]
  omega

/-- An address of the range, which goes around the end of the address space, at a multiple of the
    alignment. -/
def InRange (ramStart length align address : BitVec 32) : Prop :=
  address - ramStart < length ∧ align.toNat ∣ (address - ramStart).toNat

/-- The search ends and applies its patch, if at all, where it should. -/
def StaysInRange (g : Guest) (loader : FileDataLoader) (m : MemoryPatch)
    (ramStart length : BitVec 32) : Prop :=
  ∃ rounds g' applied,
    applySearchMemoryPatch rounds g loader m ramStart length = some (g', applied) ∧
      ∀ address ∈ applied, InRange ramStart length m.align address

theorem applyFound_snd (g : Guest) (loader : FileDataLoader) (m : MemoryPatch)
    (found : Option (BitVec 32)) : (applyFound g loader m found).2 = found := by
  cases found with
  | none => rfl
  | some address => rfl

theorem staysInRange_of_not_made {g : Guest} {loader : FileDataLoader} {m : MemoryPatch}
    {ramStart length : BitVec 32} (h : m.original = [] ∨ m.align = 0#32) :
    StaysInRange g loader m ramStart length := by
  refine ⟨0, g, none, ?_, nofun⟩
  rw [applySearchMemoryPatch, if_pos (by simpa using h)]

theorem staysInRange_iff_first {g : Guest} {loader : FileDataLoader} {m : MemoryPatch}
    {ramStart length : BitVec 32} (horiginal : m.original ≠ []) (halign : m.align ≠ 0#32) :
    StaysInRange g loader m ramStart length ↔
      ∃ n, (∀ j < n, Passes g m.original ramStart (searchBound length m.align) m.align j) ∧
        ¬Passes g m.original ramStart (searchBound length m.align) m.align n ∧
        ∀ address ∈ outcome ramStart (searchBound length m.align) m.align n,
          InRange ramStart length m.align address := by
  have hrun : ∀ rounds, applySearchMemoryPatch rounds g loader m ramStart length =
      (searchLoop g m.original ramStart (searchBound length m.align) m.align rounds 0#32).map
        (applyFound g loader m) := by
    intro rounds
    rw [applySearchMemoryPatch, if_neg (by simpa [horiginal] using halign)]
  constructor
  · rintro ⟨rounds, g', applied, happly, hin⟩
    rw [hrun, Option.map_eq_some_iff] at happly
    obtain ⟨found, hfound, hout⟩ := happly
    obtain ⟨n, hbefore, hn, rfl⟩ := searchLoop_eq_some_iff.1 ⟨rounds, hfound⟩
    have happlied : applied = outcome ramStart (searchBound length m.align) m.align n := by
      rw [← applyFound_snd g loader m (outcome _ _ _ n), hout]
    exact ⟨n, hbefore, hn, happlied ▸ hin⟩
  · rintro ⟨n, hbefore, hn, hin⟩
    obtain ⟨rounds, hfound⟩ := searchLoop_eq_some_iff.2 ⟨n, hbefore, hn, rfl⟩
    obtain ⟨g', hg'⟩ : ∃ g', applyFound g loader m
        (outcome ramStart (searchBound length m.align) m.align n) = (g', outcome _ _ _ n) :=
      ⟨_, Prod.ext rfl (applyFound_snd g loader m _)⟩
    exact ⟨rounds, g', _, by rw [hrun, hfound, Option.map_some, hg'], hin⟩

section Bounds
variable {g : Guest} {original : Bytes} {ramStart length stride : BitVec 32}

theorem index_of_passes (hstride : stride ≠ 0#32) (hle : stride.toNat ≤ length.toNat + 1) {n : Nat}
    (h : ∀ j < n, Passes g original ramStart (searchBound length stride) stride j) :
    (index stride n).toNat = n * stride.toNat ∧ n * stride.toNat ≤ length.toNat := by
  have hl := length.isLt
  cases n with
  | zero => simp
  | succ n =>
    have hprev := index_of_passes hstride hle (n := n) fun j hj => h j (Nat.lt_succ_of_lt hj)
    have hlt : (index stride n).toNat < (searchBound length stride).toNat := (h n n.lt_succ_self).1
    rw [toNat_searchBound hstride hle, hprev.1] at hlt
    have hnext : (n + 1) * stride.toNat ≤ length.toNat := by
      rw [Nat.succ_mul]
      omega
    exact ⟨by rw [toNat_index, Nat.mod_eq_of_lt (by omega)], hnext⟩

theorem inRange_add {i : BitVec 32} (hlt : i < length) (hdvd : stride.toNat ∣ i.toNat) :
    InRange ramStart length stride (ramStart + i) := by
  have hi : ramStart + i - ramStart = i := by
    rw [BitVec.add_comm, BitVec.add_sub_cancel]
  exact ⟨hi.symm ▸ hlt, hi.symm ▸ hdvd⟩

theorem exists_first_of_le (hstride : stride ≠ 0#32) (hle : stride.toNat ≤ length.toNat + 1) :
    ∃ n, (∀ j < n, Passes g original ramStart (searchBound length stride) stride j) ∧
      ¬Passes g original ramStart (searchBound length stride) stride n ∧
      ∀ address ∈ outcome ramStart (searchBound length stride) stride n,
        InRange ramStart length stride address := by
  classical
  have hpos : 0 < stride.toNat := Nat.pos_of_ne_zero fun h => hstride (BitVec.eq_of_toNat_eq h)
  have hex : ∃ n, ¬Passes g original ramStart (searchBound length stride) stride n := by
    by_contra hall
    have hpass := index_of_passes hstride hle (n := length.toNat + 1)
      fun j _ => not_not.1 (not_exists.1 hall j)
    have : length.toNat + 1 ≤ (length.toNat + 1) * stride.toNat := Nat.le_mul_of_pos_right _ hpos
    omega
  have hbefore : ∀ j < Nat.find hex, Passes g original ramStart (searchBound length stride) stride j :=
    fun j hj => not_not.1 (Nat.find_min hex hj)
  refine ⟨Nat.find hex, hbefore, Nat.find_spec hex, fun address haddress => ?_⟩
  obtain ⟨hindex, -⟩ := index_of_passes hstride hle hbefore
  rw [outcome] at haddress
  split at haddress
  case isTrue hlt =>
    cases haddress
    have hlt : (index stride (Nat.find hex)).toNat < (searchBound length stride).toNat := hlt
    rw [toNat_searchBound hstride hle] at hlt
    refine inRange_add ?_ (hindex ▸ Nat.dvd_mul_left _ _)
    show (index stride (Nat.find hex)).toNat < length.toNat
    omega
  case isFalse => cases haddress

theorem index_eq_zero_of_inRange (hlt : length.toNat + 1 < stride.toNat) {i : BitVec 32}
    (h : InRange ramStart length stride (ramStart + i)) : i = 0#32 ∧ 0 < length := by
  have hi : ramStart + i - ramStart = i := by
    rw [BitVec.add_comm, BitVec.add_sub_cancel]
  obtain ⟨hbelow, hdvd⟩ := h
  rw [hi] at hbelow hdvd
  have hbelow : i.toNat < length.toNat := hbelow
  have hzero : i.toNat = 0 := Nat.eq_zero_of_dvd_of_lt hdvd (by omega)
  refine ⟨BitVec.eq_of_toNat_eq hzero, ?_⟩
  show 0 < length.toNat
  omega

theorem index_zero_lt_bound (hlt : length.toNat + 1 < stride.toNat) :
    index stride 0 < searchBound length stride := by
  have := stride.isLt
  show (index stride 0).toNat < (searchBound length stride).toNat
  rw [index_zero, toNat_searchBound_of_wrap hlt]
  show 0 < _
  omega

theorem index_one_lt_bound_iff (hlt : length.toNat + 1 < stride.toNat) :
    index stride 1 < searchBound length stride ↔
      2 * stride.toNat < 2 ^ 32 + length.toNat + 1 := by
  have := stride.isLt
  have hone : (index stride 1).toNat = stride.toNat := by
    rw [toNat_index, Nat.one_mul, Nat.mod_eq_of_lt this]
  show (index stride 1).toNat < (searchBound length stride).toNat ↔ _
  rw [hone, toNat_searchBound_of_wrap hlt]
  omega

end Bounds

/-- The search does what it should exactly when it is not made, when the alignment does not exceed
    the range by more than one, when the pattern is at the start of the range, or when the index
    reaches the wrapped bound before the pattern is anywhere that it comes to. -/
theorem staysInRange_iff (g : Guest) (loader : FileDataLoader) (m : MemoryPatch)
    (ramStart length : BitVec 32) :
    StaysInRange g loader m ramStart length ↔
      m.original = [] ∨ m.align.toNat ≤ length.toNat + 1 ∨
      (0 < length ∧ g.memoryMatchesAt ramStart m.original = true) ∨
      ∃ n, ¬index m.align n < searchBound length m.align ∧
        ∀ k < n, g.memoryMatchesAt (ramStart + index m.align k) m.original = false := by
  by_cases horiginal : m.original = []
  · exact iff_of_true (staysInRange_of_not_made (.inl horiginal)) (.inl horiginal)
  by_cases halign : m.align = 0#32
  · exact iff_of_true (staysInRange_of_not_made (.inr halign)) (.inr (.inl (by simp [halign])))
  by_cases hle : m.align.toNat ≤ length.toNat + 1
  · exact iff_of_true ((staysInRange_iff_first horiginal halign).2 (exists_first_of_le halign hle))
      (.inr (.inl hle))
  have hlt : length.toNat + 1 < m.align.toNat := Nat.lt_of_not_le hle
  have hbound : index m.align 0 < searchBound length m.align := index_zero_lt_bound hlt
  rw [staysInRange_iff_first horiginal halign]
  constructor
  · rintro ⟨n, hbefore, hn, hin⟩
    refine .inr (.inr ?_)
    by_cases hend : index m.align n < searchBound length m.align
    · -- the pattern was found, which is in range only at the start
      have hfound := hin (ramStart + index m.align n) (by rw [outcome, if_pos hend]; rfl)
      obtain ⟨hzero, hlength⟩ := index_eq_zero_of_inRange hlt hfound
      refine .inl ⟨hlength, ?_⟩
      by_contra hmatch
      refine hn ⟨hend, ?_⟩
      rw [hzero, BitVec.add_zero]
      simpa using hmatch
    · exact .inr ⟨n, hend, fun k hk => (hbefore k hk).2⟩
  · rintro (h | h | ⟨hlength, hmatch⟩ | ⟨n, hend, hbefore⟩)
    · exact absurd h horiginal
    · exact absurd h hle
    · refine ⟨0, nofun, fun h => ?_, fun address haddress => ?_⟩
      · rw [Passes, index_zero, BitVec.add_zero, hmatch] at h
        exact absurd h.2 (by decide)
      · rw [outcome, if_pos hbound, index_zero] at haddress
        cases haddress
        exact inRange_add hlength (Nat.dvd_zero _)
    · classical
      have hex : ∃ n, ¬Passes g m.original ramStart (searchBound length m.align) m.align n :=
        ⟨n, fun h => hend h.1⟩
      have hfirst : Nat.find hex ≤ n := Nat.find_min' hex fun h => hend h.1
      refine ⟨Nat.find hex, fun j hj => not_not.1 (Nat.find_min hex hj), Nat.find_spec hex, ?_⟩
      have hout : ¬index m.align (Nat.find hex) < searchBound length m.align := by
        intro hgoes
        obtain heq | hbelow := Nat.eq_or_lt_of_le hfirst
        · exact hend (heq ▸ hgoes)
        · exact Nat.find_spec hex ⟨hgoes, hbefore _ hbelow⟩
      rw [outcome, if_neg hout]
      exact nofun

/-- All of MEM1 is zero. -/
def zeroedGuest : Guest where
  isHardcoreModeActive := false
  translate address :=
    if 0x80000000#32 ≤ address ∧ address < 0x81800000#32 then some (address - 0x80000000#32).toNat
    else none
  memory _ := 0
  hookedAddresses := []

/-- A search for a byte of one in steps of 2 GiB. -/
def wideSearch : MemoryPatch where
  offset := 0
  value := [2]
  valuefile := ""
  original := [1]
  ocarina := false
  search := true
  align := 0x80000000#32
  original_lt := by decide

/-- In the 32 MiB that the emulator sets aside for MEM1 the index goes from zero to 2^31 and back,
    below the wrapped bound, and never ends. -/
theorem wideSearch_not_staysInRange :
    ¬StaysInRange zeroedGuest (fun _ => []) wideSearch 0x80000000#32 0x02000000#32 := by
  rw [staysInRange_iff_first (by decide) (by decide)]
  rintro ⟨n, -, hn, -⟩
  refine hn ⟨?_, ?_⟩
  · show (index 0x80000000#32 n).toNat < 0x82000001
    rw [toNat_index]
    show n * 2 ^ 31 % 2 ^ 32 < 0x82000001
    omega
  · simp only [Guest.memoryMatchesAt, Guest.hostTryRead, wideSearch, List.all_eq_false]
    refine ⟨0, by simp, ?_⟩
    cases zeroedGuest.translate _ with
    | none => simp
    | some place => simp [zeroedGuest]

/-! ### Which alignments are safe -/

/-- A guest with one byte at one address. -/
def byteAt (place : BitVec 32) : Guest where
  isHardcoreModeActive := false
  translate address := if address = place then some 0 else none
  memory _ := 0
  hookedAddresses := []

theorem byteAt_matches (place address : BitVec 32) :
    (byteAt place).memoryMatchesAt address [0] = decide (address = place) := by
  by_cases h : address = place
  · simp [Guest.memoryMatchesAt, Guest.hostTryRead, byteAt, h]
  · simp [Guest.memoryMatchesAt, Guest.hostTryRead, byteAt, h]

/-- A search for a byte. -/
def byteSearch (align : BitVec 32) : MemoryPatch where
  offset := 0
  value := []
  valuefile := ""
  original := [0]
  ocarina := false
  search := true
  align := align
  original_lt := by decide

theorem inRange_of_byteAt {length align : BitVec 32} {loader : FileDataLoader} {k : Nat}
    (halign : align ≠ 0#32) (hbelow : ∀ j ≤ k, index align j < searchBound length align)
    (h : StaysInRange (byteAt (index align k)) loader (byteSearch align) 0#32 length) :
    InRange 0#32 length align (index align k) := by
  obtain ⟨n, hbefore, hn, hin⟩ :=
    (staysInRange_iff_first (m := byteSearch align) (List.cons_ne_nil _ _) halign).1 h
  have hmatches : ∀ j, (byteAt (index align k)).memoryMatchesAt (0#32 + index align j) [0] =
      decide (index align j = index align k) := by
    intro j
    rw [BitVec.zero_add, byteAt_matches]
  have hle : n ≤ k := by
    by_contra hgt
    have := (hbefore k (Nat.lt_of_not_le hgt)).2
    rw [byteSearch, hmatches] at this
    simp at this
  have hplace : index align n = index align k := by
    by_contra hne
    refine hn ⟨hbelow n hle, ?_⟩
    rw [byteSearch, hmatches]
    exact decide_eq_false hne
  have hfound := hin (0#32 + index align n) (by rw [outcome]; exact if_pos (hbelow n hle))
  rwa [BitVec.zero_add, hplace] at hfound

/-- Whatever the memory and the pattern are, the search is safe exactly for the alignments that
    exceed the range by at most one, and for those that are so large that the first step already
    passes the wrapped bound. -/
theorem staysInRange_forall_iff (length align : BitVec 32) :
    (∀ (g : Guest) (loader : FileDataLoader) (m : MemoryPatch) (ramStart : BitVec 32),
      m.align = align → StaysInRange g loader m ramStart length) ↔
      align.toNat ≤ length.toNat + 1 ∨
        (0 < length.toNat ∧ 2 ^ 32 + length.toNat + 1 ≤ 2 * align.toNat) := by
  by_cases hle : align.toNat ≤ length.toNat + 1
  · refine iff_of_true ?_ (.inl hle)
    rintro g loader m ramStart rfl
    by_cases hmade : m.original = [] ∨ m.align = 0#32
    · exact staysInRange_of_not_made hmade
    · obtain ⟨horiginal, halign⟩ := not_or.1 hmade
      exact (staysInRange_iff_first horiginal halign).2 (exists_first_of_le halign hle)
  have hlt : length.toNat + 1 < align.toNat := Nat.lt_of_not_le hle
  have halign : align ≠ 0#32 := by
    rintro rfl
    exact absurd hlt (Nat.not_lt_zero _)
  constructor
  · intro hall
    refine .inr ?_
    by_contra hcond
    have hzero := index_zero_lt_bound hlt
    by_cases hlength : length.toNat = 0
    · -- an empty range, and the byte at its start
      have hfound := inRange_of_byteAt (k := 0) halign
        (fun j hj => Nat.le_zero.1 hj ▸ hzero) (hall _ (fun _ => []) (byteSearch align) _ rfl)
      have : (index align 0 - 0#32).toNat < length.toNat := hfound.1
      omega
    · -- the byte one step behind the start
      have hone := (index_one_lt_bound_iff hlt).2 (by omega)
      have hfound := inRange_of_byteAt (k := 1) halign
        (fun j hj => by
          obtain rfl | rfl := Nat.le_one_iff_eq_zero_or_eq_one.1 hj
          · exact hzero
          · exact hone) (hall _ (fun _ => []) (byteSearch align) _ rfl)
      have hdist : (index align 1 - 0#32).toNat < length.toNat := hfound.1
      rw [BitVec.sub_zero, toNat_index, Nat.one_mul, Nat.mod_eq_of_lt align.isLt] at hdist
      omega
  · rintro (h | ⟨hlength, hlarge⟩)
    · exact absurd h hle
    rintro g loader m ramStart rfl
    by_cases horiginal : m.original = []
    · exact staysInRange_of_not_made (.inl horiginal)
    rw [staysInRange_iff_first horiginal halign]
    have hexit : ¬index m.align 1 < searchBound length m.align := by
      rw [index_one_lt_bound_iff hlt]
      omega
    by_cases hzero : Passes g m.original ramStart (searchBound length m.align) m.align 0
    · refine ⟨1, fun j hj => ?_, fun h => hexit h.1, ?_⟩
      · obtain rfl : j = 0 := Nat.lt_one_iff.1 hj
        exact hzero
      · rw [outcome, if_neg hexit]
        exact nofun
    · refine ⟨0, nofun, hzero, fun address haddress => ?_⟩
      rw [outcome, if_pos (index_zero_lt_bound hlt)] at haddress
      cases haddress
      rw [index_zero]
      exact inRange_add hlength (Nat.dvd_zero _)

end DolphinXR.DiscIO.Riivolution
