import DolphinXR.Core.MemoryPatches

/- Action Replay codes (Core/ActionReplay.cpp): `RunCodeLocked` runs a code line by line. A line is
   skipped, is the second line of a zero code, is a zero code itself or is a normal code, which
   writes memory or decides which lines are skipped.

   Memory is that of the debugger's patches: every write goes through `ApplyMemoryPatch`. `patched`
   has the values that were given to it and their addresses, in order. `addFloat` is the addition of
   an integer to a single that memory holds. Left out: the log, which only reads. -/
namespace DolphinXR.ActionReplay
open Lib Debug

abbrev Word := BitVec 32

/-! ### Lines -/

structure AREntry where
  cmdAddr : Word
  value : Word
  deriving DecidableEq

/-- The fields of `ARAddr`. -/
def gcaddr (address : Word) : Word := address &&& 0x01FFFFFF#32
def sizeField (address : Word) : Nat := ((address >>> 25) &&& 0x3#32).toNat
def typeField (address : Word) : Nat := ((address >>> 27) &&& 0x7#32).toNat
def subtypeField (address : Word) : Nat := (address >>> 30).toNat

def gcAddress (address : Word) : Word := gcaddr address ||| 0x80000000#32

inductive Alert where
  | invalidSizeInRamWriteAndFill (size : Nat) (address : Word)
  | invalidSizeInWriteToPointer (size : Nat) (address : Word)
  | invalidSizeInAddCode (size : Nat) (address : Word)
  | masterCodeNotImplemented
  | invalidSizeInFillAndSlide (size : Nat) (address : Word)
  | invalidValueInMemoryCopy (value : Word)
  | invalidNormalCode0Subtype (subtype : Nat)
  | invalidNormalCodeType (type : Nat)
  | invalidSizeInConditionalCode (size : Nat)
  | invalidConditionalSubtype (subtype : Nat)
  | modifiesActionReplay
  | zero3NotSupported
  | zeroCodeUnknown (zcode : Nat)
  deriving DecidableEq

structure Target (κ : Type) where
  memory : κ → UInt8
  patched : List (Address × Bytes) := []
  alerts : List Alert := []

section
variable {κ : Type} [DecidableEq κ] (locate : Address → Option κ)

/-- `HostRead` of a number of so many bytes. -/
def readNumber (width : Nat) (address : Address) (memory : κ → UInt8) : Word :=
  BitVec.ofNat 32 (readBE ((List.range width).map fun i =>
    hostRead locate (address + BitVec.ofNat 32 i) memory))

namespace Target

/-- `ApplyMemoryPatch` of the low bytes of a word. -/
def patch (width : Nat) (value : Word) (address : Address) (t : Target κ) : Target κ :=
  { t with
    memory := (applyMemoryPatch locate (be width value.toNat) address true t.memory).2
    patched := t.patched ++ [(address, be width value.toNat)] }

def alert (a : Alert) (t : Target κ) : Target κ := { t with alerts := t.alerts ++ [a] }

end Target

/-! ### Normal codes

Each function returns what the source returns and the memory it leaves. -/

/-- `count` patches of one value, one behind the other. -/
def fill (width : Nat) (value : Word) (address : Address) (count : Nat) (t : Target κ) : Target κ :=
  (List.range count).foldl
    (fun t i => t.patch locate width value (address + BitVec.ofNat 32 (i * width))) t

def ramWriteAndFill (addr data : Word) (t : Target κ) : Bool × Target κ :=
  let newAddr := gcAddress addr
  match sizeField addr with
  | 0 => (true, fill locate 1 data newAddr ((data >>> 8).toNat + 1) t)
  | 1 => (true, fill locate 2 data newAddr ((data >>> 16).toNat + 1) t)
  | 2 | 3 => (true, t.patch locate 4 data newAddr)
  | size => (false, t.alert (.invalidSizeInRamWriteAndFill size (gcaddr addr)))

def writeToPointer (addr data : Word) (t : Target κ) : Bool × Target κ :=
  let ptr := readNumber locate 4 (gcAddress addr) t.memory
  match sizeField addr with
  | 0 => (true, t.patch locate 1 data (ptr + (data >>> 8)))
  | 1 => (true, t.patch locate 2 data (ptr + ((data >>> 16) <<< 1)))
  | 2 | 3 => (true, t.patch locate 4 data ptr)
  | size => (false, t.alert (.invalidSizeInWriteToPointer size (gcaddr addr)))

variable (addFloat : Word → Word → Word)

def addCode (addr data : Word) (t : Target κ) : Bool × Target κ :=
  let newAddr := gcAddress addr
  match sizeField addr with
  | 0 => (true, t.patch locate 1 (readNumber locate 1 newAddr t.memory + data) newAddr)
  | 1 => (true, t.patch locate 2 (readNumber locate 2 newAddr t.memory + data) newAddr)
  | 2 => (true, t.patch locate 4 (readNumber locate 4 newAddr t.memory + data) newAddr)
  | 3 => (true, t.patch locate 4 (addFloat (readNumber locate 4 newAddr t.memory) data) newAddr)
  | size => (false, t.alert (.invalidSizeInAddCode size (gcaddr addr)))

/-- `Subtype_MasterCodeAndWriteToCCXXXXXX`. -/
def masterCode (t : Target κ) : Bool × Target κ := (false, t.alert .masterCodeNotImplemented)

def normalCode (addr data : Word) (t : Target κ) : Bool × Target κ :=
  match subtypeField addr with
  | 0 => ramWriteAndFill locate addr data t
  | 1 => writeToPointer locate addr data t
  | 2 => addCode locate addFloat addr data t
  | 3 => masterCode t
  | subtype => (false, t.alert (.invalidNormalCode0Subtype subtype))

/-- `CompareValues`; `none` where the type is unknown, which the user is told. -/
def compareValues (val1 val2 : Word) (type : Nat) : Option Bool :=
  match type with
  | 1 => some (val1 == val2)
  | 2 => some (val1 != val2)
  | 3 => some (val1.slt val2)
  | 4 => some (val2.slt val1)
  | 5 => some (val1.ult val2)
  | 6 => some (val2.ult val1)
  | 7 => some (val1 &&& val2 != 0#32)
  | _ => none

/-- The lines that are skipped where a comparison failed. -/
def skipFor (subtype : Nat) : Option Int :=
  match subtype with
  | 0 => some 1
  | 1 => some 2
  | 2 => some (-2)
  | 3 => some (-3)
  | _ => none

/-- The result has the new skip count. -/
def conditionalCode (addr data : Word) (skipCount : Int) (t : Target κ) :
    Bool × Int × Target κ :=
  let newAddr := gcAddress addr
  let compared : Option (Word × Word) := match sizeField addr with
    | 0 => some (readNumber locate 1 newAddr t.memory, data &&& 0xFF#32)
    | 1 => some (readNumber locate 2 newAddr t.memory, data &&& 0xFFFF#32)
    | 2 | 3 => some (readNumber locate 4 newAddr t.memory, data)
    | _ => none
  match compared with
  | none => (false, skipCount, t.alert (.invalidSizeInConditionalCode (sizeField addr)))
  | some (val1, val2) =>
    let result := compareValues val1 val2 (typeField addr)
    let t := if result.isNone then t.alert (.invalidNormalCodeType (typeField addr)) else t
    if result.getD false then (true, skipCount, t)
    else match skipFor (subtypeField addr) with
      | some count => (true, count, t)
      | none => (false, skipCount, t.alert (.invalidConditionalSubtype (subtypeField addr)))

/-- The loop of `ZeroCode_FillAndSlide`. -/
def slide (width : Nat) (addrIncr valIncr : Word) : Nat → Word → Address → Target κ → Target κ
  | 0, _, _, t => t
  | n + 1, val, currAddr, t =>
    slide width addrIncr valIncr n (val + valIncr) (currAddr + addrIncr * BitVec.ofNat 32 width)
      (t.patch locate width val currAddr)

def zeroCodeFillAndSlide (valLast addr data : Word) (t : Target κ) : Bool × Target κ :=
  let newAddr := gcAddress valLast
  let addrIncr := (data.setWidth 16).signExtend 32
  let valIncr := ((data >>> 24).setWidth 8).signExtend 32
  let writeNum := ((data &&& 0xFF0000#32) >>> 16).toNat
  match sizeField valLast with
  | 0 => (true, slide locate 1 addrIncr valIncr writeNum addr newAddr t)
  | 1 => (true, slide locate 2 addrIncr valIncr writeNum addr newAddr t)
  | 2 => (true, slide locate 4 addrIncr valIncr writeNum addr newAddr t)
  | size => (false, t.alert (.invalidSizeInFillAndSlide size newAddr))

/-- Both loops of `ZeroCode_MemoryCopy`. -/
def copyBytes (src dest : Address) (numBytes : Nat) (t : Target κ) : Target κ :=
  (List.range numBytes).foldl
    (fun t i =>
      t.patch locate 1 (readNumber locate 1 (src + BitVec.ofNat 32 i) t.memory)
        (dest + BitVec.ofNat 32 i)) t

def zeroCodeMemoryCopy (valLast addr data : Word) (t : Target κ) : Bool × Target κ :=
  let addrDest := valLast &&& ~~~0x06000000#32
  let addrSrc := gcAddress addr
  -- The count is a `u8`.
  let numBytes := ((data &&& 0x7FFF#32).setWidth 8).toNat
  if data &&& 0xFF0000#32 = 0#32 then
    if data >>> 24 ≠ 0#32 then
      let ptrDest := readNumber locate 4 addrDest t.memory
      let ptrSrc := readNumber locate 4 addrSrc t.memory
      (true, copyBytes locate ptrSrc ptrDest numBytes t)
    else (true, copyBytes locate addrSrc addrDest numBytes t)
  else (false, t.alert (.invalidValueInMemoryCopy (data &&& ~~~0x7FFF#32)))

/-! ### RunCodeLocked -/

structure RunState (κ : Type) where
  doFillAndSlide : Bool := false
  doMemoryCopy : Bool := false
  skipCount : Int := 0
  valLast : Word := 0#32
  target : Target κ

/-- What a line leads to: the next line, or the return of the function. -/
inductive Outcome (κ : Type) where
  | next (s : RunState κ)
  | finished (result : Bool) (t : Target κ)

def afterCall (s : RunState κ) (r : Bool × Target κ) : Outcome κ :=
  if r.1 then .next { s with target := r.2 } else .finished false r.2

def skipLine (entry : AREntry) (s : RunState κ) : Outcome κ :=
  if 0 < s.skipCount then .next { s with skipCount := s.skipCount - 1 }
  else if s.skipCount = -3 then .finished true s.target
  else if s.skipCount = -2 ∧ entry.cmdAddr = 0#32 ∧ entry.value = 0x40000000#32 then
    .next { s with skipCount := 0 }
  else .next s

def zeroCode (data : Word) (s : RunState κ) : Outcome κ :=
  match (data >>> 29).toNat with
  | 0 => .finished true s.target
  | 2 => .next s
  | 3 => .finished false (s.target.alert .zero3NotSupported)
  | 4 =>
    if (data >>> 25) &&& 0x03#32 = 0x3#32 then
      .next { s with doMemoryCopy := true, valLast := data }
    else .next { s with doFillAndSlide := true, valLast := data }
  | zcode => .finished false (s.target.alert (.zeroCodeUnknown zcode))

/-- One line of the loop. -/
def runLine (entry : AREntry) (s : RunState κ) : Outcome κ :=
  let addr := entry.cmdAddr
  let data := entry.value
  if s.skipCount ≠ 0 then skipLine entry s
  else if s.doFillAndSlide then
    afterCall { s with doFillAndSlide := false }
      (zeroCodeFillAndSlide locate s.valLast addr data s.target)
  else if s.doMemoryCopy then
    afterCall { s with doMemoryCopy := false }
      (zeroCodeMemoryCopy locate s.valLast addr data s.target)
  else if 0x00002000 ≤ addr.toNat ∧ addr.toNat < 0x00003000 then
    .finished false (s.target.alert .modifiesActionReplay)
  else if addr = 0#32 then zeroCode data s
  else match typeField addr with
    | 0 => afterCall s (normalCode locate addFloat addr data s.target)
    | _ =>
      let r := conditionalCode locate addr data s.skipCount s.target
      afterCall { s with skipCount := r.2.1 } (r.1, r.2.2)

def runFrom : List AREntry → RunState κ → Bool × Target κ
  | [], s => (true, s.target)
  | entry :: rest, s =>
    match runLine locate addFloat entry s with
    | .next s => runFrom rest s
    | .finished result t => (result, t)

def start (memory : κ → UInt8) : RunState κ := { target := { memory } }

def runCodeLocked (ops : List AREntry) (memory : κ → UInt8) : Bool × Target κ :=
  runFrom locate addFloat ops (start memory)

/-- The state behind lines that do not end the code. -/
def runLines : List AREntry → RunState κ → Option (RunState κ)
  | [], s => some s
  | entry :: rest, s =>
    match runLine locate addFloat entry s with
    | .next s => runLines rest s
    | .finished _ _ => none

variable {locate addFloat}

theorem runFrom_append {before : List AREntry} {s s' : RunState κ}
    (h : runLines locate addFloat before s = some s') (rest : List AREntry) :
    runFrom locate addFloat (before ++ rest) s = runFrom locate addFloat rest s' := by
  induction before generalizing s with
  | nil =>
    cases h
    rfl
  | cons entry before ih =>
    rw [runLines] at h
    rw [List.cons_append, runFrom]
    cases hline : runLine locate addFloat entry s with
    | next s₁ =>
      rw [hline] at h
      exact ih h
    | finished result t =>
      rw [hline] at h
      cases h

end

end DolphinXR.ActionReplay
