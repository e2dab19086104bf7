import DolphinXR.Lib.HexNumerals

/- The code a patch writes (`mem.write_code` and `mem.ensure_code` of Core/VRPatch/BindingsMem.cpp
   over the guarded memory of Core/VRPatch/MemoryAccess.cpp). The words are written one by one, and
   the range is invalidated once, at the end. A call leaves a log of its effects: the words it wrote,
   with what they held, and the ranges it passed to `InvalidateCode`, with the lines that were
   reached. -/
namespace DolphinXR.VRPatch.CodeWrites
open Lib.HexNumerals

/-! ### The guarded memory -/

/-- The host's accessors of aligned words. Reads and writes may fail anywhere, whether or not the
    ends of the word are RAM. -/
structure HostMemory where
  word : BitVec 32 → BitVec 32
  isRAMAddress : BitVec 32 → Bool
  readFails : BitVec 32 → Bool
  writeFails : BitVec 32 → Bool

inductive Effect where
  | write (address old new : BitVec 32)
  | invalidateCode (address size : BitVec 32) (lines : List (BitVec 32))
  deriving DecidableEq

/-- `GuardMemoryAccess`, with the log of what was done through it. -/
structure GuardMemoryAccess where
  memory : HostMemory
  effects : List Effect := []

namespace HostMemory
variable (m : HostMemory)

def isRAM (address size : BitVec 32) : Bool :=
  if size = 0 then false
  else
    let last := address + (size - 1)
    if last < address then false else m.isRAMAddress address && m.isRAMAddress last

/-- `TryRead<u32>`. -/
def read32 (address : BitVec 32) : Option (BitVec 32) :=
  if !m.isRAM address 4 || m.readFails address then none else some (m.word address)

/-- `TryWrite<u32>` would write. -/
def canWrite32 (address : BitVec 32) : Bool := m.isRAM address 4 && !m.writeFails address

def setWord (address value : BitVec 32) : HostMemory :=
  { m with word := Function.update m.word address value }

@[simp] theorem isRAM_setWord (address value a size : BitVec 32) :
    (m.setWord address value).isRAM a size = m.isRAM a size := rfl

@[simp] theorem canWrite32_setWord (address value a : BitVec 32) :
    (m.setWord address value).canWrite32 a = m.canWrite32 a := rfl

theorem word_setWord_of_ne {address a : BitVec 32} (value : BitVec 32) (h : a ≠ address) :
    (m.setWord address value).word a = m.word a :=
  Function.update_of_ne h _ _

theorem read32_setWord_of_ne {address a : BitVec 32} (value : BitVec 32) (h : a ≠ address) :
    (m.setWord address value).read32 a = m.read32 a := by
  unfold read32
  rw [isRAM_setWord, word_setWord_of_ne m value h]
  rfl

end HostMemory

/-- The lines the loop of `InvalidateCode` reaches from `line` on. There are `2 ^ 27` lines. -/
def linesFrom (first last : BitVec 32) : Nat → BitVec 32 → List (BitVec 32)
  | 0, _ => []
  | fuel + 1, line =>
    if line < last ∧ line ≥ first then line :: linesFrom first last fuel (line + 32) else []

def lineOf (address : BitVec 32) : BitVec 32 := address &&& ~~~31#32

def invalidatedLines (address size : BitVec 32) : List (BitVec 32) :=
  if size = 0 then []
  else linesFrom (lineOf address) (address + size) (2 ^ 27) (lineOf address)

namespace GuardMemoryAccess

/-- `Write32`: nothing is written where it gives false. -/
def write32 (g : GuardMemoryAccess) (address value : BitVec 32) : Option GuardMemoryAccess :=
  if g.memory.canWrite32 address then
    some ⟨g.memory.setWord address value, g.effects ++ [.write address (g.memory.word address) value]⟩
  else none

def invalidateCode (g : GuardMemoryAccess) (address size : BitVec 32) : GuardMemoryAccess :=
  { g with effects := g.effects ++ [.invalidateCode address size (invalidatedLines address size)] }

end GuardMemoryAccess

/-! ### The bindings -/

/-- The word is found as it is to be, which only `mem.ensure_code` asks for. -/
def keeps (m : HostMemory) (onlyChanged : Bool) (address word : BitVec 32) : Bool :=
  onlyChanged && m.read32 address == some word

/-- The loop of `WriteCode`: the number of words written, none where one could not be. -/
def writeWords (onlyChanged : Bool) :
    BitVec 32 → List (BitVec 32) → Nat → GuardMemoryAccess → Option Nat × GuardMemoryAccess
  | _, [], written, g => (some written, g)
  | address, word :: words, written, g =>
    if keeps g.memory onlyChanged address word then
      writeWords onlyChanged (address + 4) words written g
    else
      match g.write32 address word with
      | none => (none, g)
      | some g => writeWords onlyChanged (address + 4) words (written + 1) g

def sizeOf (words : List (BitVec 32)) : BitVec 32 := BitVec.ofNat 32 words.length * 4

def writeCode (g : GuardMemoryAccess) (address : BitVec 32) (words : List (BitVec 32))
    (onlyChanged : Bool) : Option Nat × GuardMemoryAccess :=
  if address.toNat % 4 ≠ 0 ∨ g.memory.isRAM address (sizeOf words) = false then (none, g)
  else
    match writeWords onlyChanged address words 0 g with
    | (some (written + 1), g) => (some (written + 1), g.invalidateCode address (sizeOf words))
    | result => result

inductive LuaError where
  | argument (arg : Nat) (message : String)
  | message (text : String)

def checkAddress (arg : Nat) (value : Int) : Except LuaError (BitVec 32) :=
  if value < 0 ∨ value > 0xFFFFFFFF then .error (.argument arg "not a 32-bit address")
  else .ok (BitVec.ofInt 32 value)

/-- What `CheckWords` tells apart: an integer, a table with its items, of which those that are no
    integers stand for nothing, and anything else, with the name of its type. -/
inductive LuaValue where
  | integer (value : Int)
  | table (items : List (Option Int))
  | other (typeName : String)

def maxWords : Nat := 4096

/-- The words of a table, of which the next one is the `i`-th. -/
def checkItems : Nat → List (Option Int) → Except LuaError (List (BitVec 32))
  | _, [] => .ok []
  | i, none :: _ => .error (.message ("word " ++ toString i ++ " is not an integer"))
  | i, some value :: items =>
    match checkItems (i + 1) items with
    | .error e => .error e
    | .ok words => .ok (BitVec.ofInt 32 value :: words)

def checkWords (arg : Nat) : LuaValue → Except LuaError (List (BitVec 32))
  | .integer value => .ok [BitVec.ofInt 32 value]
  | .table items =>
    if 1 ≤ items.length ∧ items.length ≤ maxWords then checkItems 1 items
    else .error (.argument arg "1 to 4096 words")
  | .other typeName => .error (.argument arg ("table expected, got " ++ typeName))

/-- What `CheckLowMemory` reads of the script's context: the scratch memory and the manifest's
    reserve ranges, each with its start and its end. -/
structure ScriptBlocks where
  scratchBase : BitVec 32
  scratchSize : BitVec 32
  reserve : List (BitVec 32 × BitVec 32)

def lowMemoryEnd : Nat := 0x3100

def physical (address : BitVec 32) : Nat := (address &&& 0x3FFFFFFF#32).toNat

def inside (start last : Nat) (block : BitVec 32) (blockSize : Nat) : Bool :=
  decide (blockSize ≠ 0 ∧ start ≥ physical block ∧ last ≤ physical block + blockSize)

def hex8 (n : Nat) : String := String.ofList (upperHex8 n)

def lowMemoryError (context : ScriptBlocks) (function : String) (address : BitVec 32) (size : Nat) :
    String :=
  let scratch :=
    if context.scratchSize ≠ 0 then
      "its scratch memory " ++ hex8 context.scratchBase.toNat ++ "-"
        ++ hex8 (context.scratchBase.toNat + context.scratchSize.toNat)
    else "its scratch memory (none)"
  "mem." ++ function ++ ": " ++ hex8 address.toNat ++ "-" ++ hex8 (address.toNat + size)
    ++ " is in low memory (OS globals, exception vectors, Gecko code handler), outside "
    ++ scratch ++ " and its reserve ranges"

def checkLowMemory (context : ScriptBlocks) (function : String) (address : BitVec 32) (size : Nat) :
    Except LuaError Unit :=
  let start := physical address
  let last := start + size
  if address < 0x80000000 ∨ start ≥ lowMemoryEnd then .ok ()
  else if inside start last context.scratchBase context.scratchSize.toNat then .ok ()
  else if context.reserve.any fun range =>
      decide (range.2 > range.1) && inside start last range.1 (range.2 - range.1).toNat then .ok ()
  else .error (.message (lowMemoryError context function address size))

/-- The arguments of a call of either binding, after they have been checked. -/
def checkCode (context : ScriptBlocks) (function : String) (address : Int) (words : LuaValue) :
    Except LuaError (BitVec 32 × List (BitVec 32)) := do
  let address ← checkAddress 1 address
  let words ← checkWords 2 words
  checkLowMemory context function address (words.length * 4)
  return (address, words)

/-- A call of `WriteCode`, where the script has memory, with the log of its effects. -/
def runCode (memory : Option HostMemory) (address : BitVec 32) (words : List (BitVec 32))
    (onlyChanged : Bool) : Option Nat × List Effect :=
  match memory with
  | none => (none, [])
  | some m =>
    let (written, g) := writeCode ⟨m, []⟩ address words onlyChanged
    (written, g.effects)

/-- `mem.write_code(address, word | words)`. -/
def memWriteCode (context : ScriptBlocks) (memory : Option HostMemory) (address : Int)
    (words : LuaValue) : Except LuaError Bool × List Effect :=
  match checkCode context "write_code" address words with
  | .error e => (.error e, [])
  | .ok (address, words) =>
    let (written, effects) := runCode memory address words false
    (.ok written.isSome, effects)

/-- `mem.ensure_code(address, word | words)`: whether something was written, nothing for nil. -/
def memEnsureCode (context : ScriptBlocks) (memory : Option HostMemory) (address : Int)
    (words : LuaValue) : Except LuaError (Option Bool) × List Effect :=
  match checkCode context "ensure_code" address words with
  | .error e => (.error e, [])
  | .ok (address, words) =>
    let (written, effects) := runCode memory address words true
    (.ok (written.map (0 < ·)), effects)

end DolphinXR.VRPatch.CodeWrites
