import DolphinXR.Common.StringUtil
import DolphinXR.Lib.HexNumerals
import Mathlib.Data.BitVec

/- Pointer paths of the agent server as texts (Core/AgentServer/PointerScan.cpp): the bracket
   notation and `mem.chain(...)`, how they are written and read, and what a path leads to in a
   memory. A text is its list of characters; the characters behind `m_pos` are what the parser's
   functions take and give back. -/
namespace DolphinXR.AgentServer.PointerScan
open Common Lib HexNumerals

abbrev Address := BitVec 32

structure Path where
  base : Address := 0
  offsets : List Address := []
  deriving DecidableEq

def skipSpaces (text : Text) : Text := text.dropWhile isSpace

/-! The bracket notation. -/

/-- The loop over the digits; the ninth is too many. -/
def hexLoop (value digits : Nat) : Text → Option (Nat × Nat × Text)
  | [] => some (value, digits, [])
  | c :: text =>
    if isDigit c then
      if digits + 1 > 8 then none
      else hexLoop (value * 16 + digitValue c) (digits + 1) text
    else
      some (value, digits, c :: text)

def skipPrefix (text : Text) : Text :=
  if text.take 2 = "0x".toList ∨ text.take 2 = "0X".toList then text.drop 2 else text

def hex (text : Text) : Option (Address × Text) :=
  match hexLoop 0 0 (skipPrefix (skipSpaces text)) with
  | none => none
  | some (value, digits, rest) =>
    if digits = 0 then none else some (BitVec.ofNat 32 value, rest)

def Path.add (path : Path) (value : Address) : Path :=
  match path.offsets.getLast? with
  | none => { path with base := path.base + value }
  | some last => { path with offsets := path.offsets.dropLast ++ [last + value] }

theorem length_skipSpaces_le (text : Text) : (skipSpaces text).length ≤ text.length :=
  (List.dropWhile_suffix isSpace).length_le

theorem length_hexLoop_le {value digits value' digits' : Nat} {text rest : Text}
    (h : hexLoop value digits text = some (value', digits', rest)) :
    rest.length ≤ text.length := by
  induction text generalizing value digits with
  | nil =>
    cases h
    exact le_rfl
  | cons c text ih =>
    rw [hexLoop] at h
    split at h
    · split at h
      · cases h
      · exact Nat.le_succ_of_le (ih h)
    · cases h
      exact le_rfl

theorem length_hex_le {text rest : Text} {value : Address} (h : hex text = some (value, rest)) :
    rest.length ≤ text.length := by
  have hskip : (skipPrefix (skipSpaces text)).length ≤ text.length := by
    refine Nat.le_trans ?_ (length_skipSpaces_le text)
    rw [skipPrefix]
    split
    · rw [List.length_drop]
      exact Nat.sub_le _ _
    · exact le_rfl
  unfold hex at h
  split at h
  · cases h
  · rename_i hloop
    split at h
    · cases h
    · cases h
      exact Nat.le_trans (length_hexLoop_le hloop) hskip

/-- The loop of `Expression`. -/
def additions (path : Path) (text : Text) : Option (Path × Text) :=
  match _hskip : skipSpaces text with
  | [] => some (path, [])
  | c :: rest =>
    if c ≠ '+' ∧ c ≠ '-' then
      some (path, c :: rest)
    else
      match hhex : hex rest with
      | none => none
      | some (value, rest') => additions (path.add (if c = '-' then 0 - value else value)) rest'
termination_by text.length
decreasing_by
  have hle := length_skipSpaces_le text
  have hle' := length_hex_le hhex
  rw [_hskip, List.length_cons] at hle
  omega

/-- The path so far and `m_values`. -/
structure Parsed where
  path : Path := {}
  values : Nat := 0

def Parsed.goOn (state : Parsed) (text : Text) : Option (Parsed × Text) :=
  (additions state.path text).map fun x => ({ state with path := x.1 }, x.2)

def expression (state : Parsed) (text : Text) : Option (Parsed × Text) :=
  match _hskip : skipSpaces text with
  | '[' :: inner =>
    match expression state inner with
    | none => none
    | some (state, rest) =>
      match skipSpaces rest with
      | ']' :: rest =>
        let path := { state.path with offsets := state.path.offsets ++ [0] }
        Parsed.goOn { state with path := path } rest
      | _ => none
  | _ =>
    match hex text with
    | none => none
    | some (value, rest) =>
      let path := { state.path with base := value }
      Parsed.goOn ⟨path, state.values + 1⟩ rest
termination_by text.length
decreasing_by
  have hle := length_skipSpaces_le text
  rw [_hskip, List.length_cons] at hle
  omega

def parse (text : Text) : Option Path :=
  match expression {} text with
  | none => none
  | some (state, rest) =>
    if skipSpaces rest ≠ [] ∨ state.values ≠ 1 then none else some state.path

def chainPrefix : Text := "mem.chain(".toList

/-- A number of Lua: hex with 0x, else decimal. -/
def parseNumber (item : Text) : Option Address :=
  let item := item.filter fun c => !isSpace c
  let hex := item.take 2 = "0x".toList ∨ item.take 2 = "0X".toList
  let digits := if hex then item.drop 2 else item
  if digits = [] ∨ digits.length > (if hex then 8 else 10) ∨
      ¬digits.all fun c => if hex then isDigit c else decide ('0' ≤ c ∧ c ≤ '9') then
    none
  else if hex then
    some (BitVec.ofNat 32 (valueFrom 0 digits))
  else
    some (BitVec.ofNat 32 (digits.foldl (fun value c => value * 10 + (c.toNat - 48)) 0))

def parseChain (text : Text) : Option Path :=
  if ¬chainPrefix <+: text ∨ text.getLast? ≠ some ')' then
    none
  else
    let text := (text.drop chainPrefix.length).dropLast
    match (splitString ',' text).mapM parseNumber with
    | none => none
    | some [] => none
    | some (base :: offsets) => some ⟨base, offsets⟩

def trim (text : Text) : Text := (text.dropWhile isSpace).rdropWhile isSpace

def isChain (text : Text) : Prop := "mem.chain".toList <+: trim text

instance (text : Text) : Decidable (isChain text) := inferInstanceAs (Decidable (_ <+: _))

def parsePath (text : Text) : Option Path :=
  if isChain text then parseChain (trim text) else parse (trim text)

def formatPath (path : Path) : Text :=
  path.offsets.foldl (fun text offset =>
    let text := '[' :: text ++ [']']
    if offset ≠ 0 then text ++ '+' :: upperHex offset.toNat else text) (upperHex8 path.base.toNat)

def formatLua (path : Path) : Text :=
  if path.offsets.isEmpty then
    "0x".toList ++ upperHex8 path.base.toNat
  else
    path.offsets.foldl (fun text offset =>
      text ++ (if offset ≠ 0 then ", 0x".toList ++ upperHex offset.toNat else ", 0".toList))
      (chainPrefix ++ "0x".toList ++ upperHex8 path.base.toNat) ++ [')']

structure Step where
  address : Address
  value : Option Address
  deriving DecidableEq

structure Resolution where
  address : Option Address := none
  steps : List Step := []
  deriving DecidableEq

def resolveFrom (read : Address → Option Address) (isPointer : Address → Bool) (address : Address)
    (steps : List Step) : List Address → Resolution
  | [] => { address := some address, steps := steps }
  | offset :: offsets =>
    let steps := steps ++ [⟨address, read address⟩]
    match read address with
    | none => { steps := steps }
    | some value =>
      if isPointer value then resolveFrom read isPointer (value + offset) steps offsets
      else { steps := steps }

def resolve (path : Path) (read : Address → Option Address) (isPointer : Address → Bool) :
    Resolution :=
  resolveFrom read isPointer path.base [] path.offsets

end DolphinXR.AgentServer.PointerScan
