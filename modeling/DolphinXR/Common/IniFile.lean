import DolphinXR.Common.StringUtil

/- What `IniFile::Load` makes of a text (Common/IniFile.cpp): the sections in the order of their
   first headers, with their keys, values and other lines. A header begins in the first column, and
   what is behind its bracket is not looked at. The current section, a pointer in the code, is told
   by its name, and a section's values are in the order of their keys' first places. -/
namespace DolphinXR.Common.IniFile

def stripQuotes (t : Text) : Text :=
  if t.head? = some '"' ∧ t.getLast? = some '"' then (t.drop 1).take (t.length - 2) else t

/-- The key and the value, which are empty where a line has none. -/
def parseLine (line : Text) : Text × Text :=
  if line = [] ∨ line.head? = some '#' then ([], [])
  else
    match splitAtFirst '=' line with
    | none => ([], [])
    | some (key, value) => (stripWhitespace key, stripQuotes (stripWhitespace value))

structure Section where
  name : Text
  keysOrder : List Text := []
  values : List (Text × Text) := []
  lines : List Text := []
  deriving DecidableEq

def Section.set (s : Section) (key value : Text) : Section :=
  if s.values.any fun x => caseInsensitiveEquals x.1 key then
    { s with
      values := s.values.map fun x =>
        if caseInsensitiveEquals x.1 key then (x.1, value) else x }
  else
    { s with
      values := s.values ++ [(key, value)]
      keysOrder := s.keysOrder ++ [key] }

/-- A line of a section. Those that start with '$', '+' or '*' are kept verbatim. -/
def Section.addLine (line : Text) (s : Section) : Section :=
  let parsed := parseLine line
  if (parsed.1 = [] ∧ parsed.2 = []) ∨
      line.head? = some '$' ∨ line.head? = some '+' ∨ line.head? = some '*' then
    { s with lines := s.lines ++ [line] }
  else s.set parsed.1 parsed.2

def getOrCreateSection (sections : List Section) (name : Text) : List Section :=
  if sections.any fun s => caseInsensitiveEquals s.name name then sections
  else sections ++ [{ name := name }]

/-- A change of the section that `GetSection` finds. -/
def modifySection (f : Section → Section) (name : Text) : List Section → List Section
  | [] => []
  | s :: sections =>
    if caseInsensitiveEquals s.name name then f s :: sections
    else s :: modifySection f name sections

structure Reader where
  sections : List Section := []
  current : Option Text := none
  firstLine : Bool := true

/-- The bytes of the UTF-8 byte order mark. -/
def bom : Text := ['\xEF', '\xBB', '\xBF']

/-- A line as it is looked at, without a byte order mark and a carriage return. -/
def bareLine (firstLine : Bool) (line : Text) : Text :=
  let line := if firstLine ∧ line.take 3 = bom then line.drop 3 else line
  if line.getLast? = some '\r' then line.dropLast else line

def headerName (line : Text) : Option Text :=
  (splitAtFirst ']' line).map fun x => x.1.drop 1

def Reader.readLine (r : Reader) (rawLine : Text) : Reader :=
  let line := bareLine r.firstLine rawLine
  let r := { r with firstLine := false }
  if line = [] then r
  else if line.head? = some '[' then
    match headerName line with
    | none => r
    | some name =>
      { r with sections := getOrCreateSection r.sections name, current := some name }
  else
    match r.current with
    | none => r
    | some name => { r with sections := modifySection (Section.addLine line) name r.sections }

def load (text : Text) : List Section := ((splitString '\n' text).foldl Reader.readLine {}).sections

end DolphinXR.Common.IniFile
