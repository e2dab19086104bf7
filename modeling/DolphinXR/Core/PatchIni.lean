import DolphinXR.Common.StringUtil
import DolphinXR.Lib.OrderedMap
import Mathlib.Data.Char
import Mathlib.Data.List.Lex
import Mathlib.Data.Prod.Lex

/- The saved choices of a game's VR patches: the `[VRPatch]` section of its ini file
   (VRPatch/PatchIni.cpp). A section is read into values, later lines over earlier ones, and
   written back in place of all such sections, while the other sections stay byte for byte.

   The settings of all patches are one map, ordered by id and name. Doubles are a parameter.
-/
namespace DolphinXR.PatchIni
open Lib Common

/-- Doubles as they are written and read: a finite one is written with the fewest digits that give
    it back. -/
structure Numbers (V : Type) where
  tryParse : Text → Option V
  isFinite : V → Bool
  format : V → Text
  one : V
  zero : V
  format_one : format one = ['1']
  format_zero : format zero = ['0']
  isFinite_one : isFinite one = true
  isFinite_zero : isFinite zero = true
  tryParse_format : ∀ v, isFinite v = true → tryParse (format v) = some v
  format_ne_nil : ∀ v, isFinite v = true → format v ≠ []
  format_chars : ∀ v, isFinite v = true → ∀ c ∈ format v, c ∈ "0123456789+-.e".toList

structure PatchValues (V : Type) where
  enabled : OrderedMap Text Bool
  settings : OrderedMap (Text ×ₗ Text) V

namespace PatchValues
variable {V : Type}

def empty : PatchValues V := ⟨.empty, .empty⟩

def setEnabled (values : PatchValues V) (id : Text) (enabled : Bool) : PatchValues V :=
  { values with enabled := values.enabled.set id enabled }

def setSetting (values : PatchValues V) (id name : Text) (value : V) : PatchValues V :=
  { values with settings := values.settings.set (toLex (id, name)) value }

end PatchValues

def isSectionHeader (trimmed : Text) : Bool :=
  decide (2 ≤ trimmed.length) && trimmed.head? == some '[' && trimmed.getLast? == some ']'

def patchSection : Text := "VRPatch".toList

def isPatchSection (trimmed : Text) : Bool :=
  isSectionHeader trimmed &&
    caseInsensitiveEquals ((trimmed.drop 1).take (trimmed.length - 2)) patchSection

def parseBool (text : Text) : Option Bool :=
  if caseInsensitiveEquals text "true".toList || text == ['1'] then some true
  else if caseInsensitiveEquals text "false".toList || text == ['0'] then some false
  else none

section
variable {V : Type} (n : Numbers V)

def parseNumber (text : Text) : Option V :=
  match parseBool text with
  | some b => some (if b then n.one else n.zero)
  | none => (n.tryParse text).filter n.isFinite

/-- A line of an ini file: whether the section is `[VRPatch]` from here on, and the values. -/
def mergeLine (x : Bool × PatchValues V) (rawLine : Text) : Bool × PatchValues V :=
  let line := stripWhitespace rawLine
  if line == [] || line.head? == some '#' || line.head? == some ';' then x
  else if isSectionHeader line then (isPatchSection line, x.2)
  else if !x.1 then x
  else
    match splitAtFirst '=' line with
    | none => x
    | some (key, value) =>
      let key := stripWhitespace key
      let value := stripWhitespace value
      match splitAtFirst '/' key with
      | none =>
        match parseBool value with
        | some enabled => (x.1, x.2.setEnabled key enabled)
        | none => x
      | some (id, name) =>
        let id := stripWhitespace id
        let name := stripWhitespace name
        if id == [] || name == [] then x
        else
          match parseNumber n value with
          | some number => (x.1, x.2.setSetting id name number)
          | none => x

def mergePatchValues (values : PatchValues V) (iniText : Text) : PatchValues V :=
  ((splitString '\n' iniText).foldl (mergeLine n) (false, values)).2

/-- The lines of a text, each with its own ending. -/
def lines : Text → List Text
  | [] => []
  | c :: t =>
    if c = '\n' then ['\n'] :: lines t
    else
      match lines t with
      | [] => [[c]]
      | line :: rest => (c :: line) :: rest

/-- The lines outside the sections of the patches. -/
def keptLines : Bool → List Text → List Text
  | _, [] => []
  | skipping, line :: rest =>
    let trimmed := stripWhitespace line
    let skipping := if isSectionHeader trimmed then isPatchSection trimmed else skipping
    if skipping then keptLines skipping rest else line :: keptLines skipping rest

def enabledLine (x : Text × Bool) : Text :=
  x.1 ++ " = ".toList ++ (if x.2 then "True".toList else "False".toList) ++ ['\n']

def settingLine (x : (Text ×ₗ Text) × V) : Text :=
  (ofLex x.1).1 ++ '/' :: (ofLex x.1).2 ++ " = ".toList ++ n.format x.2 ++ ['\n']

def replacePatchSection (iniText : Text) (values : PatchValues V) : Text :=
  let out := (keptLines false (lines iniText)).flatten
  if values.enabled.entries.isEmpty && values.settings.entries.isEmpty then out
  else
    let out := if !out.isEmpty && out.getLast? != some '\n' then out ++ ['\n'] else out
    out ++ ('[' :: patchSection ++ "]\n".toList) ++
      (values.enabled.entries.map enabledLine).flatten ++
      (values.settings.entries.map (settingLine n)).flatten

def loadUserPatchValues (text : Text) : PatchValues V := mergePatchValues n .empty text

end

end DolphinXR.PatchIni
