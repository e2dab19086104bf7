import DolphinXR.Common.IniFile
import Mathlib.Data.List.Pairwise

/- `IniFile::Save`, and what a saved file reads as. A section is saved with its keys, or with its
   other lines where it has no key; nothing is quoted or escaped. What is read back is what was
   saved in the sections whose lines are safe: no key begins like another kind of line, no value has
   blanks or quotes at its ends, and a section with keys has no other lines. -/
namespace DolphinXR.Common.IniFile

/-- The value that `values.find` finds, or nothing. -/
def Section.get? (s : Section) (key : Text) : Option Text :=
  (s.values.find? fun x => caseInsensitiveEquals x.1 key).map (·.2)

def keyLine (key value : Text) : Text := key ++ " = ".toList ++ value

def headerLine (name : Text) : Text := '[' :: name ++ [']']

def Section.savedLines (s : Section) : List Text :=
  if s.keysOrder = [] then
    if s.lines = [] then [] else headerLine s.name :: s.lines
  else
    headerLine s.name :: s.keysOrder.map fun key => keyLine key ((s.get? key).getD [])

/-- Every line is ended by `endl`. -/
def save (sections : List Section) : Text :=
  (sections.flatMap Section.savedLines).flatMap (· ++ ['\n'])

def getSection (name : Text) (sections : List Section) : Option Section :=
  sections.find? fun s => caseInsensitiveEquals s.name name

/-- A line without blanks around it and, where comments are removed, without its comment. -/
def shownLine (removeComments : Bool) (line : Text) : Option Text :=
  let stripped := stripWhitespace line
  if removeComments then
    match splitAtFirst '#' stripped with
    | none => some stripped
    | some ([], _) => none
    | some (before, _) => some (stripWhitespace before)
  else some stripped

def Section.getLines (removeComments : Bool) (s : Section) : List Text :=
  s.lines.filterMap (shownLine removeComments)

def getKeys (name : Text) (sections : List Section) : List Text :=
  ((getSection name sections).map (·.keysOrder)).getD []

def getValue? (name key : Text) (sections : List Section) : Option Text :=
  (getSection name sections).bind (·.get? key)

def getLines (name : Text) (removeComments : Bool) (sections : List Section) : List Text :=
  ((getSection name sections).map (·.getLines removeComments)).getD []

def otherLineStarts : List Char := ['$', '+', '*', '#', '[']

/-- A section whose keys and values, or whose lines, read as what they are. -/
structure Section.Writable (removeComments : Bool) (s : Section) : Prop where
  keys : ∀ x ∈ s.values, ∀ c ∈ x.1.head?, c ∉ otherLineStarts
  values : ∀ x ∈ s.values, Bare x.2 ∧ stripQuotes x.2 = x.2
  lines : if s.keysOrder = [] then ['\r'] ∉ s.lines else s.getLines removeComments = []

/-- The same keys in the same order, the same values and the same lines. -/
def Kept (removeComments : Bool) (sections sections' : List Section) : Prop :=
  ∀ name, getKeys name sections' = getKeys name sections ∧
    (∀ key, getValue? name key sections' = getValue? name key sections) ∧
    getLines name removeComments sections' = getLines name removeComments sections

/-! ### What a load leaves -/

theorem caseInsensitiveEquals_iff {a b : Text} :
    caseInsensitiveEquals a b = true ↔ a.map toLower = b.map toLower := beq_iff_eq

/-- A line that `addLine` keeps verbatim. -/
def IsRaw (line : Text) : Prop :=
  parseLine line = ([], []) ∨ line.head? = some '$' ∨ line.head? = some '+' ∨ line.head? = some '*'

instance (line : Text) : Decidable (IsRaw line) :=
  inferInstanceAs (Decidable (_ ∨ _))

theorem addLine_raw {line : Text} (h : IsRaw line) (s : Section) :
    s.addLine line = { s with lines := s.lines ++ [line] } := by
  have hcond : ((parseLine line).1 = [] ∧ (parseLine line).2 = []) ∨
      line.head? = some '$' ∨ line.head? = some '+' ∨ line.head? = some '*' :=
    h.imp_left Prod.ext_iff.1
  exact if_pos hcond

theorem addLine_key {line : Text} (h : ¬ IsRaw line) (s : Section) :
    s.addLine line = s.set (parseLine line).1 (parseLine line).2 := by
  have hcond : ¬ (((parseLine line).1 = [] ∧ (parseLine line).2 = []) ∨
      line.head? = some '$' ∨ line.head? = some '+' ∨ line.head? = some '*') :=
    fun hc => h (hc.imp_left Prod.ext_iff.2)
  exact if_neg hcond

def Differ (a b : Text) : Prop := a.map toLower ≠ b.map toLower

structure KeyText (x : Text × Text) : Prop where
  equals : '=' ∉ x.1
  bare : Bare x.1
  key_line : '\n' ∉ x.1
  value_line : '\n' ∉ x.2
  nonempty : ¬ (x.1 = [] ∧ x.2 = [])

structure RawText (line : Text) : Prop where
  raw : IsRaw line
  ne_nil : line ≠ []
  not_header : line.head? ≠ some '['
  one_line : '\n' ∉ line

structure Section.Loaded (s : Section) : Prop where
  name_bracket : ']' ∉ s.name
  name_line : '\n' ∉ s.name
  keysOrder : s.keysOrder = s.values.map Prod.fst
  distinct : (s.values.map Prod.fst).Pairwise Differ
  values : ∀ x ∈ s.values, KeyText x
  lines : ∀ line ∈ s.lines, RawText line

structure LoadedSections (sections : List Section) : Prop where
  each : ∀ s ∈ sections, s.Loaded
  names : (sections.map Section.name).Pairwise Differ

theorem mem_of_mem_stripQuotes {t : Text} {c : Char} (h : c ∈ stripQuotes t) : c ∈ t := by
  unfold stripQuotes at h
  split at h
  · exact List.mem_of_mem_drop (List.mem_of_mem_take h)
  · exact h

theorem keyText_parseLine {line : Text} (h : ¬ IsRaw line) (hline : '\n' ∉ line) :
    KeyText (parseLine line) := by
  have hparsed : parseLine line ≠ ([], []) := fun hnil => h (Or.inl hnil)
  have hnonempty : ¬ ((parseLine line).1 = [] ∧ (parseLine line).2 = []) :=
    fun hnil => hparsed (Prod.ext_iff.2 hnil)
  revert hparsed hnonempty
  unfold parseLine
  split
  · exact fun hparsed => absurd rfl hparsed
  · split
    case h_1 => exact fun hparsed => absurd rfl hparsed
    case h_2 key value hsplit =>
      intro _ hnonempty
      obtain ⟨rfl, hkey⟩ := of_splitAtFirst_eq_some hsplit
      refine ⟨fun hmem => hkey (mem_of_mem_stripWhitespace hmem), bare_stripWhitespace key,
        fun hmem => hline ?_, fun hmem => hline ?_, hnonempty⟩
      · exact List.mem_append_left _ (mem_of_mem_stripWhitespace hmem)
      · have hvalue := mem_of_mem_stripWhitespace (mem_of_mem_stripQuotes hmem)
        exact List.mem_append_right _ (List.mem_cons_of_mem _ hvalue)

theorem differ_of_not_any {α : Type} {f : α → Text} {l : List α} {b : Text}
    (h : ¬ l.any (fun x => caseInsensitiveEquals (f x) b) = true) : ∀ x ∈ l, Differ (f x) b := by
  intro x hx heq
  exact h (List.any_eq_true.2 ⟨x, hx, caseInsensitiveEquals_iff.2 heq⟩)

theorem Section.Loaded.set {s : Section} (h : s.Loaded) {x : Text × Text} (hx : KeyText x) :
    (s.set x.1 x.2).Loaded := by
  unfold Section.set
  split
  case isTrue =>
    have hkeys : (s.values.map fun y =>
        if caseInsensitiveEquals y.1 x.1 then (y.1, x.2) else y).map Prod.fst =
        s.values.map Prod.fst := by
      rw [List.map_map]
      refine List.map_congr_left fun y _ => ?_
      dsimp only [Function.comp]
      split
      · rfl
      · rfl
    refine ⟨h.name_bracket, h.name_line, h.keysOrder.trans hkeys.symm, hkeys ▸ h.distinct, ?_,
      h.lines⟩
    intro y hy
    obtain ⟨z, hz, rfl⟩ := List.mem_map.1 hy
    have hkey := h.values z hz
    split
    case isTrue heq =>
      refine ⟨hkey.equals, hkey.bare, hkey.key_line, hx.value_line, fun hnil => hx.nonempty ⟨?_, hnil.2⟩⟩
      have hlower := caseInsensitiveEquals_iff.1 heq
      rw [show z.1 = [] from hnil.1] at hlower
      exact List.map_eq_nil_iff.1 hlower.symm
    case isFalse => exact hkey
  case isFalse hnot =>
    refine ⟨h.name_bracket, h.name_line, ?_, ?_, ?_, h.lines⟩
    · dsimp only
      rw [h.keysOrder, List.map_append]
      rfl
    · dsimp only
      rw [List.map_append]
      refine List.pairwise_append.2 ⟨h.distinct, List.pairwise_singleton .., ?_⟩
      rintro a ha b hb
      obtain ⟨y, hy, rfl⟩ := List.mem_map.1 ha
      rw [List.mem_singleton.1 hb]
      exact differ_of_not_any hnot y hy
    · intro y hy
      rcases List.mem_append.1 hy with hy | hy
      · exact h.values y hy
      · rw [List.mem_singleton.1 hy]
        exact hx

theorem Section.Loaded.addLine {s : Section} (h : s.Loaded) {line : Text} (hne : line ≠ [])
    (hheader : line.head? ≠ some '[') (hline : '\n' ∉ line) : (s.addLine line).Loaded := by
  by_cases hraw : IsRaw line
  · rw [addLine_raw hraw]
    refine ⟨h.name_bracket, h.name_line, h.keysOrder, h.distinct, h.values, fun l hl => ?_⟩
    rcases List.mem_append.1 hl with hl | hl
    · exact h.lines l hl
    · rw [List.mem_singleton.1 hl]
      exact ⟨hraw, hne, hheader, hline⟩
  · rw [addLine_key hraw]
    exact h.set (keyText_parseLine hraw hline)

theorem name_set (s : Section) (key value : Text) : (s.set key value).name = s.name := by
  unfold Section.set
  split
  · rfl
  · rfl

theorem addLine_name (line : Text) (s : Section) : (s.addLine line).name = s.name := by
  by_cases hraw : IsRaw line
  · rw [addLine_raw hraw]
  · rw [addLine_key hraw, name_set]

theorem map_name_modifySection {f : Section → Section} (hf : ∀ s, (f s).name = s.name)
    (name : Text) (sections : List Section) :
    (modifySection f name sections).map Section.name = sections.map Section.name := by
  induction sections with
  | nil => rfl
  | cons s sections ih =>
    rw [modifySection]
    split
    · rw [List.map_cons, hf, List.map_cons]
    · rw [List.map_cons, ih, List.map_cons]

theorem forall_modifySection {f : Section → Section} {P : Section → Prop}
    (hf : ∀ s, P s → P (f s)) {name : Text} {sections : List Section} (h : ∀ s ∈ sections, P s) :
    ∀ s ∈ modifySection f name sections, P s := by
  induction sections with
  | nil => exact nofun
  | cons s sections ih =>
    obtain ⟨hs, hrest⟩ := List.forall_mem_cons.1 h
    rw [modifySection]
    split
    · exact List.forall_mem_cons.2 ⟨hf s hs, hrest⟩
    · exact List.forall_mem_cons.2 ⟨hs, ih hrest⟩

theorem LoadedSections.getOrCreate {sections : List Section} (h : LoadedSections sections)
    {name : Text} (hbracket : ']' ∉ name) (hline : '\n' ∉ name) :
    LoadedSections (getOrCreateSection sections name) := by
  unfold getOrCreateSection
  split
  case isTrue => exact h
  case isFalse hnot =>
    constructor
    · intro s hs
      rcases List.mem_append.1 hs with hs | hs
      · exact h.each s hs
      · rw [List.mem_singleton.1 hs]
        exact ⟨hbracket, hline, rfl, .nil, nofun, nofun⟩
    · rw [List.map_append]
      refine List.pairwise_append.2 ⟨h.names, List.pairwise_singleton .., ?_⟩
      rintro a ha b hb
      obtain ⟨s, hs, rfl⟩ := List.mem_map.1 ha
      rw [List.mem_singleton.1 hb]
      exact differ_of_not_any hnot s hs

theorem mem_of_mem_bareLine {first : Bool} {line : Text} {c : Char} (h : c ∈ bareLine first line) :
    c ∈ line := by
  unfold bareLine at h
  dsimp only at h
  have hbom : ∀ l : Text, c ∈ (if l.getLast? = some '\r' then l.dropLast else l) → c ∈ l := by
    intro l hl
    split at hl
    · exact (List.dropLast_prefix l).mem hl
    · exact hl
  have hmem := hbom _ h
  split at hmem
  · exact List.mem_of_mem_drop hmem
  · exact hmem

theorem LoadedSections.readLine {r : Reader} (h : LoadedSections r.sections) {rawLine : Text}
    (hraw : '\n' ∉ rawLine) : LoadedSections (r.readLine rawLine).sections := by
  have hline : '\n' ∉ bareLine r.firstLine rawLine := fun hmem => hraw (mem_of_mem_bareLine hmem)
  unfold Reader.readLine
  dsimp only
  split
  case isTrue => exact h
  case isFalse hne =>
    split
    case isTrue hhead =>
      cases hname : headerName (bareLine r.firstLine rawLine) with
      | none => exact h
      | some name =>
        obtain ⟨⟨before, behind⟩, hsplit, rfl⟩ := Option.map_eq_some_iff.1 hname
        obtain ⟨htext, hbracket⟩ := of_splitAtFirst_eq_some hsplit
        refine h.getOrCreate (fun hmem => hbracket (List.mem_of_mem_drop hmem)) fun hmem => hline ?_
        rw [htext]
        exact List.mem_append_left _ (List.mem_of_mem_drop hmem)
    case isFalse hhead =>
      cases r.current with
      | none => exact h
      | some name =>
        constructor
        · exact forall_modifySection (fun s hs => hs.addLine hne hhead hline) h.each
        · dsimp only
          rw [map_name_modifySection (addLine_name _)]
          exact h.names

theorem loadedSections_load (text : Text) : LoadedSections (load text) := by
  have hrun : ∀ (lines : List Text) (r : Reader), (∀ line ∈ lines, '\n' ∉ line) →
      LoadedSections r.sections → LoadedSections (lines.foldl Reader.readLine r).sections := by
    intro lines
    induction lines with
    | nil => exact fun _ _ h => h
    | cons line lines ih =>
      intro r hlines h
      exact ih _ (fun l hl => hlines l (List.mem_cons_of_mem _ hl))
        (h.readLine (hlines line (List.mem_cons_self ..)))
  exact hrun _ _ (fun line hline => not_mem_of_mem_splitString hline) ⟨nofun, .nil⟩

/-! ### Reading one line back -/

theorem stripWhitespace_concat {c : Char} (hc : isBlank c = true) (t : Text) :
    stripWhitespace (t ++ [c]) = stripWhitespace t := by
  unfold stripWhitespace
  rw [List.dropWhile_append]
  cases hdrop : t.dropWhile isBlank with
  | nil => simp [hc]
  | cons d rest => exact List.rdropWhile_concat_pos isBlank _ _ hc

theorem bareLine_of_getLast {line : Text} (h : line.getLast? ≠ some '\r') :
    bareLine false line = line := by
  simp [bareLine, h]

theorem bareLine_return (line : Text) : bareLine false (line ++ ['\r']) = line := by
  simp [bareLine]

theorem bareLine_cases (line : Text) :
    bareLine false line = line ∨ line = bareLine false line ++ ['\r'] := by
  by_cases h : line.getLast? = some '\r'
  · obtain ⟨front, rfl⟩ := List.getLast?_eq_some_iff.1 h
    rw [bareLine_return]
    exact Or.inr rfl
  · exact Or.inl (bareLine_of_getLast h)

theorem stripWhitespace_bareLine (line : Text) :
    stripWhitespace (bareLine false line) = stripWhitespace line := by
  rcases bareLine_cases line with h | h
  · rw [h]
  · conv_rhs => rw [h, stripWhitespace_concat rfl]

theorem parseLine_return {line : Text} (hne : line ≠ []) :
    parseLine (line ++ ['\r']) = parseLine line := by
  have hhead : (line ++ ['\r']).head? = line.head? := List.head?_append_of_ne_nil _ hne
  have hne' : line ++ ['\r'] ≠ [] := List.append_ne_nil_of_left_ne_nil hne _
  unfold parseLine
  rw [hhead]
  simp only [hne, hne', false_or]
  split
  · rfl
  · cases hsplit : splitAtFirst '=' line with
    | none =>
      have hmem : '=' ∉ line ++ ['\r'] := by
        rw [List.mem_append, not_or]
        exact ⟨not_mem_of_splitAtFirst_eq_none hsplit, by decide⟩
      rw [splitAtFirst_eq_none hmem]
    | some x =>
      obtain ⟨htext, hkey⟩ := of_splitAtFirst_eq_some (a := x.1) (b := x.2) hsplit
      have hsplit' : splitAtFirst '=' (line ++ ['\r']) = some (x.1, x.2 ++ ['\r']) := by
        rw [htext, List.append_assoc, List.cons_append, splitAtFirst_append hkey]
      rw [hsplit']
      dsimp only
      rw [stripWhitespace_concat rfl]

theorem RawText.bareLine {line : Text} (h : RawText line) (hne : line ≠ ['\r']) :
    bareLine false line ≠ [] ∧ (bareLine false line).head? ≠ some '[' ∧
      IsRaw (bareLine false line) := by
  rcases bareLine_cases line with hsame | hreturn
  · rw [hsame]
    exact ⟨h.ne_nil, h.not_header, h.raw⟩
  · have hnil : IniFile.bareLine false line ≠ [] := by
      intro hnil
      rw [hnil] at hreturn
      exact hne hreturn
    have hhead : line.head? = (IniFile.bareLine false line).head? := by
      conv_lhs => rw [hreturn]
      exact List.head?_append_of_ne_nil _ hnil
    have hparse : parseLine line = parseLine (IniFile.bareLine false line) := by
      conv_lhs => rw [hreturn, parseLine_return hnil]
    refine ⟨hnil, hhead ▸ h.not_header, ?_⟩
    have hraw := h.raw
    unfold IsRaw at hraw ⊢
    rwa [hparse, hhead] at hraw

structure SafeText (x : Text × Text) : Prop extends KeyText x where
  start : ∀ c ∈ x.1.head?, c ∉ otherLineStarts
  value_bare : Bare x.2
  unquoted : stripQuotes x.2 = x.2

theorem head?_keyLine (key value : Text) :
    (keyLine key value).head? = some (key.head?.getD ' ') := by
  cases key with
  | nil => rfl
  | cons c key => rfl

theorem SafeText.head {x : Text × Text} (h : SafeText x) {c : Char} (hc : c ∈ otherLineStarts) :
    (keyLine x.1 x.2).head? ≠ some c := by
  rw [head?_keyLine]
  intro heq
  cases hhead : x.1.head? with
  | none =>
    rw [hhead] at heq
    rw [← Option.some.inj heq] at hc
    exact absurd hc (by decide)
  | some d =>
    rw [hhead] at heq
    rw [← Option.some.inj heq] at hc
    exact h.start d hhead hc

theorem SafeText.bareLine {x : Text × Text} (h : SafeText x) :
    bareLine false (keyLine x.1 x.2) = keyLine x.1 x.2 := by
  refine bareLine_of_getLast fun hlast => ?_
  rcases eq_or_ne x.2 [] with hnil | hne
  · rw [keyLine, hnil, List.append_nil, List.getLast?_append_of_ne_nil _ (by decide)] at hlast
    exact absurd hlast (by decide)
  · rw [keyLine, List.getLast?_append_of_ne_nil _ hne] at hlast
    exact absurd (h.value_bare.2 _ hlast) (by decide)

theorem SafeText.parseLine {x : Text × Text} (h : SafeText x) :
    parseLine (keyLine x.1 x.2) = x := by
  have hne : keyLine x.1 x.2 ≠ [] := by
    intro hnil
    have hhead := head?_keyLine x.1 x.2
    rw [hnil] at hhead
    cases hhead
  have hshape : keyLine x.1 x.2 = (x.1 ++ [' ']) ++ '=' :: (' ' :: x.2) := by
    simp [keyLine]
  have hequals : '=' ∉ x.1 ++ [' '] := by
    rw [List.mem_append, not_or]
    exact ⟨h.equals, by decide⟩
  have hkey : stripWhitespace (x.1 ++ [' ']) = x.1 := by
    rw [stripWhitespace_concat rfl, h.bare.stripWhitespace]
  have hvalue : stripWhitespace (' ' :: x.2) = x.2 := by
    have hstrip := stripWhitespace_append [' '] [] blank_space h.value_bare nofun
    rwa [List.append_nil] at hstrip
  rw [IniFile.parseLine, if_neg (not_or.2 ⟨hne, h.head (by decide)⟩), hshape,
    splitAtFirst_append hequals]
  dsimp only
  rw [hkey, hvalue, h.unquoted]

theorem SafeText.not_raw {x : Text × Text} (h : SafeText x) : ¬ IsRaw (keyLine x.1 x.2) := by
  rintro (hparse | hhead | hhead | hhead)
  · rw [h.parseLine] at hparse
    exact h.nonempty ⟨congrArg Prod.fst hparse, congrArg Prod.snd hparse⟩
  · exact h.head (by decide) hhead
  · exact h.head (by decide) hhead
  · exact h.head (by decide) hhead

/-! ### Reading one section back -/

theorem modifySection_last (f : Section → Section) {sections : List Section} {s : Section}
    (h : ∀ t ∈ sections, Differ t.name s.name) :
    modifySection f s.name (sections ++ [s]) = sections ++ [f s] := by
  induction sections with
  | nil =>
    rw [List.nil_append, modifySection, if_pos (caseInsensitiveEquals_iff.2 rfl)]
    rfl
  | cons t sections ih =>
    obtain ⟨ht, hrest⟩ := List.forall_mem_cons.1 h
    rw [List.cons_append, modifySection, if_neg (mt caseInsensitiveEquals_iff.1 ht), ih hrest]
    rfl

structure Within (r : Reader) (sections : List Section) (s : Section) : Prop where
  firstLine : r.firstLine = false
  current : r.current = some s.name
  read : r.sections = sections ++ [s]
  names : ∀ t ∈ sections, Differ t.name s.name

theorem Within.readLine {r : Reader} {sections : List Section} {s : Section}
    (h : Within r sections s) {line : Text} (hne : bareLine false line ≠ [])
    (hheader : (bareLine false line).head? ≠ some '[') :
    Within (r.readLine line) sections (s.addLine (bareLine false line)) := by
  have hname := addLine_name (bareLine false line) s
  have hread : r.readLine line =
      { r with sections := sections ++ [s.addLine (bareLine false line)], firstLine := false } := by
    unfold Reader.readLine
    dsimp only
    rw [h.firstLine, if_neg hne, if_neg hheader, h.current]
    dsimp only
    rw [h.read, modifySection_last _ h.names]
  rw [hread]
  exact ⟨rfl, by rw [hname]; exact h.current, rfl, by rw [hname]; exact h.names⟩

theorem Within.readLines {r : Reader} {sections : List Section} {s : Section}
    (h : Within r sections s) {lines : List Text}
    (hlines : ∀ line ∈ lines, bareLine false line ≠ [] ∧ (bareLine false line).head? ≠ some '[') :
    Within (lines.foldl Reader.readLine r) sections
      (lines.foldl (fun s line => s.addLine (bareLine false line)) s) := by
  induction lines generalizing r s with
  | nil => exact h
  | cons line lines ih =>
    obtain ⟨⟨hne, hheader⟩, hrest⟩ := List.forall_mem_cons.1 hlines
    exact ih (h.readLine hne hheader) hrest

theorem bareLine_headerLine (first : Bool) (name : Text) :
    bareLine first (headerLine name) = headerLine name := by
  have hbom : (headerLine name).take 3 ≠ bom := by
    intro h
    have hhead : (some '[' : Option Char) = some '\xEF' := by
      have hfirst := congrArg List.head? h
      rw [List.head?_take] at hfirst
      exact hfirst
    exact absurd hhead (by decide)
  have hlast : (headerLine name).getLast? ≠ some '\r' := by
    rw [headerLine, List.getLast?_append_of_ne_nil _ (by decide)]
    decide
  simp [bareLine, hbom, hlast]

theorem headerName_headerLine {name : Text} (h : ']' ∉ name) :
    headerName (headerLine name) = some name := by
  have hsplit : splitAtFirst ']' (('[' :: name) ++ ']' :: []) = some ('[' :: name, []) := by
    refine splitAtFirst_append ?_
    rw [List.mem_cons, not_or]
    exact ⟨by decide, h⟩
  rw [headerName, headerLine, hsplit]
  rfl

theorem within_header (r : Reader) {s : Section} (hbracket : ']' ∉ s.name)
    (hnames : ∀ t ∈ r.sections, Differ t.name s.name) :
    Within (r.readLine (headerLine s.name)) r.sections { name := s.name } := by
  have hcreate : getOrCreateSection r.sections s.name = r.sections ++ [{ name := s.name }] := by
    refine if_neg fun hany => ?_
    obtain ⟨t, ht, heq⟩ := List.any_eq_true.1 hany
    exact hnames t ht (caseInsensitiveEquals_iff.1 heq)
  have hread : r.readLine (headerLine s.name) =
      { sections := r.sections ++ [{ name := s.name }], current := some s.name,
        firstLine := false } := by
    have hne : headerLine s.name ≠ [] := List.cons_ne_nil _ _
    have hhead : (headerLine s.name).head? = some '[' := rfl
    unfold Reader.readLine
    dsimp only
    rw [bareLine_headerLine, if_neg hne, if_pos hhead,
      headerName_headerLine hbracket]
    dsimp only
    rw [hcreate]
  rw [hread]
  exact ⟨rfl, rfl, rfl, hnames⟩

theorem foldl_keyLines {values : List (Text × Text)} (hvalues : ∀ x ∈ values, SafeText x)
    (s : Section) (hdistinct : ((s.values ++ values).map Prod.fst).Pairwise Differ) :
    (values.map fun x => keyLine x.1 x.2).foldl (fun s line => s.addLine (bareLine false line)) s =
      { s with
        values := s.values ++ values
        keysOrder := s.keysOrder ++ values.map Prod.fst } := by
  induction values generalizing s with
  | nil => simp
  | cons x values ih =>
    obtain ⟨hx, hrest⟩ := List.forall_mem_cons.1 hvalues
    have hnew : ¬ s.values.any (fun y => caseInsensitiveEquals y.1 x.1) = true := by
      intro hany
      obtain ⟨y, hy, heq⟩ := List.any_eq_true.1 hany
      rw [List.map_append] at hdistinct
      exact (List.pairwise_append.1 hdistinct).2.2 y.1 (List.mem_map_of_mem hy) x.1
        (List.mem_map_of_mem (List.mem_cons_self ..)) (caseInsensitiveEquals_iff.1 heq)
    have hadd : s.addLine (bareLine false (keyLine x.1 x.2)) =
        { s with values := s.values ++ [x], keysOrder := s.keysOrder ++ [x.1] } := by
      rw [hx.bareLine, addLine_key hx.not_raw, hx.parseLine, Section.set, if_neg hnew]
    rw [List.map_cons, List.foldl_cons, hadd, ih hrest]
    · simp
    · simpa using hdistinct

theorem foldl_rawLines {lines : List Text} (hlines : ∀ line ∈ lines, IsRaw (bareLine false line))
    (s : Section) :
    lines.foldl (fun s line => s.addLine (bareLine false line)) s =
      { s with lines := s.lines ++ lines.map (bareLine false) } := by
  induction lines generalizing s with
  | nil => simp
  | cons line lines ih =>
    obtain ⟨hline, hrest⟩ := List.forall_mem_cons.1 hlines
    rw [List.foldl_cons, addLine_raw hline, ih hrest]
    simp

/-- What a saved section reads as. -/
def Section.reread (s : Section) : Option Section :=
  if s.keysOrder = [] then
    if s.lines = [] then none
    else some { name := s.name, lines := s.lines.map (bareLine false) }
  else some { name := s.name, keysOrder := s.keysOrder, values := s.values }

theorem find_of_distinct {values : List (Text × Text)} (h : (values.map Prod.fst).Pairwise Differ)
    {x : Text × Text} (hx : x ∈ values) :
    values.find? (fun y => caseInsensitiveEquals y.1 x.1) = some x := by
  induction values with
  | nil => exact absurd hx List.not_mem_nil
  | cons y values ih =>
    obtain ⟨hy, hrest⟩ := List.pairwise_cons.1 h
    rcases List.mem_cons.1 hx with rfl | hx
    · exact List.find?_cons_of_pos (caseInsensitiveEquals_iff.2 rfl)
    · have hdiffer := hy x.1 (List.mem_map_of_mem hx)
      have hlater : (y :: values).find? (fun y => caseInsensitiveEquals y.1 x.1) =
          values.find? fun y => caseInsensitiveEquals y.1 x.1 :=
        List.find?_cons_of_neg (mt caseInsensitiveEquals_iff.1 hdiffer)
      exact hlater.trans (ih hrest hx)

theorem savedLines_keys {s : Section} (hs : s.Loaded) (hkeys : s.keysOrder ≠ []) :
    s.savedLines = headerLine s.name :: s.values.map fun x => keyLine x.1 x.2 := by
  rw [Section.savedLines, if_neg hkeys, hs.keysOrder, List.map_map]
  congr 1
  refine List.map_congr_left fun x hx => ?_
  dsimp only [Function.comp]
  rw [Section.get?, find_of_distinct hs.distinct hx]
  rfl

variable {removeComments : Bool}

theorem Section.Loaded.safeText {s : Section} (hs : s.Loaded) (hw : s.Writable removeComments) :
    ∀ x ∈ s.values, SafeText x := fun x hx =>
  { hs.values x hx with
    start := hw.keys x hx
    value_bare := (hw.values x hx).1
    unquoted := (hw.values x hx).2 }

theorem sections_foldl_savedLines {s : Section} (hs : s.Loaded) (hw : s.Writable removeComments)
    (r : Reader) (hnames : ∀ t ∈ r.sections, Differ t.name s.name) :
    (s.savedLines.foldl Reader.readLine r).sections = r.sections ++ s.reread.toList := by
  have hlines := hw.lines
  by_cases hkeys : s.keysOrder = []
  · rw [if_pos hkeys] at hlines
    rw [Section.savedLines, Section.reread, if_pos hkeys, if_pos hkeys]
    by_cases hnone : s.lines = []
    · rw [if_pos hnone, if_pos hnone]
      exact (List.append_nil _).symm
    · rw [if_neg hnone, if_neg hnone, List.foldl_cons]
      have hread : ∀ line ∈ s.lines, bareLine false line ≠ [] ∧
          (bareLine false line).head? ≠ some '[' ∧ IsRaw (bareLine false line) := fun line hline =>
        (hs.lines line hline).bareLine fun hreturn => hlines (hreturn ▸ hline)
      have hwithin := (within_header r hs.name_bracket hnames).readLines fun line hline =>
        ⟨(hread line hline).1, (hread line hline).2.1⟩
      rw [hwithin.read, foldl_rawLines fun line hline => (hread line hline).2.2]
      rfl
  · have hsafe := hs.safeText hw
    rw [savedLines_keys hs hkeys, Section.reread, if_neg hkeys, List.foldl_cons]
    have hread : ∀ line ∈ s.values.map fun x => keyLine x.1 x.2, bareLine false line ≠ [] ∧
        (bareLine false line).head? ≠ some '[' := by
      intro line hline
      obtain ⟨x, hx, rfl⟩ := List.mem_map.1 hline
      rw [(hsafe x hx).bareLine]
      refine ⟨fun hnil => ?_, (hsafe x hx).head (by decide)⟩
      have hhead := head?_keyLine x.1 x.2
      rw [hnil] at hhead
      cases hhead
    have hwithin := (within_header r hs.name_bracket hnames).readLines hread
    rw [hwithin.read, foldl_keyLines hsafe _ (by simpa using hs.distinct), hs.keysOrder]
    rfl

theorem name_reread {s t : Section} (h : s.reread = some t) : t.name = s.name := by
  unfold Section.reread at h
  split at h
  · split at h
    · cases h
    · cases h
      rfl
  · cases h
    rfl

/-! ### Reading the file back -/

theorem sections_foldl_sections {sections : List Section} (r : Reader)
    (hloaded : ∀ s ∈ sections, s.Loaded) (hw : ∀ s ∈ sections, s.Writable removeComments)
    (hnames : ((r.sections ++ sections).map Section.name).Pairwise Differ) :
    ((sections.flatMap Section.savedLines).foldl Reader.readLine r).sections =
      r.sections ++ sections.filterMap Section.reread := by
  induction sections generalizing r with
  | nil => exact (List.append_nil _).symm
  | cons s sections ih =>
    obtain ⟨hs, hrest⟩ := List.forall_mem_cons.1 hloaded
    obtain ⟨hsw, hrestw⟩ := List.forall_mem_cons.1 hw
    rw [List.map_append, List.map_cons] at hnames
    obtain ⟨hbefore, hbehind, hbetween⟩ := List.pairwise_append.1 hnames
    have hdiffer : ∀ t ∈ r.sections, Differ t.name s.name := fun t ht =>
      hbetween t.name (List.mem_map_of_mem ht) s.name (List.mem_cons_self ..)
    have hread := sections_foldl_savedLines hs hsw r hdiffer
    have hnames' : (((s.savedLines.foldl Reader.readLine r).sections ++ sections).map
        Section.name).Pairwise Differ := by
      rw [hread, List.append_assoc, List.map_append, List.map_append]
      have hsub : (s.reread.toList.map Section.name ++ sections.map Section.name).Sublist
          (s.name :: sections.map Section.name) := by
        cases ht : s.reread with
        | none => exact List.sublist_cons_self ..
        | some t => exact (name_reread ht ▸ List.Sublist.refl _)
      exact hnames.sublist ((List.Sublist.refl _).append hsub)
    rw [List.flatMap_cons, List.foldl_append, ih _ hrest hrestw hnames', hread, List.append_assoc,
      List.filterMap_cons]
    cases s.reread with
    | none => rfl
    | some t => rfl

theorem newline_not_mem_savedLines {s : Section} (hs : s.Loaded) :
    ∀ line ∈ s.savedLines, '\n' ∉ line := by
  have hheader : '\n' ∉ headerLine s.name := by
    simp [headerLine, hs.name_line]
  by_cases hkeys : s.keysOrder = []
  · rw [Section.savedLines, if_pos hkeys]
    split
    · exact nofun
    · exact List.forall_mem_cons.2 ⟨hheader, fun line hline => (hs.lines line hline).one_line⟩
  · rw [savedLines_keys hs hkeys]
    refine List.forall_mem_cons.2 ⟨hheader, fun line hline => ?_⟩
    obtain ⟨x, hx, rfl⟩ := List.mem_map.1 hline
    have htext := hs.values x hx
    simp [keyLine, htext.key_line, htext.value_line]

theorem splitString_lines {lines : List Text} (h : ∀ line ∈ lines, '\n' ∉ line) :
    splitString '\n' (lines.flatMap (· ++ ['\n'])) = lines := by
  induction lines with
  | nil => rfl
  | cons line lines ih =>
    obtain ⟨hline, hrest⟩ := List.forall_mem_cons.1 h
    rw [List.flatMap_cons, List.append_assoc, List.singleton_append, splitString_line hline, ih hrest]

theorem load_save {sections : List Section} (h : LoadedSections sections)
    (hw : ∀ s ∈ sections, s.Writable removeComments) :
    load (save sections) = sections.filterMap Section.reread := by
  have hlines : ∀ line ∈ sections.flatMap Section.savedLines, '\n' ∉ line := by
    intro line hline
    obtain ⟨s, hs, hline⟩ := List.mem_flatMap.1 hline
    exact newline_not_mem_savedLines (h.each s hs) line hline
  rw [load, save, splitString_lines hlines, sections_foldl_sections {} h.each hw h.names]
  rfl

theorem getSection_filterMap {sections : List Section}
    (h : (sections.map Section.name).Pairwise Differ) (name : Text) :
    getSection name (sections.filterMap Section.reread) =
      (getSection name sections).bind Section.reread := by
  induction sections with
  | nil => rfl
  | cons s sections ih =>
    obtain ⟨hs, hrest⟩ := List.pairwise_cons.1 h
    unfold getSection at ih ⊢
    by_cases heq : caseInsensitiveEquals s.name name = true
    · have hfirst : (s :: sections).find? (fun t => caseInsensitiveEquals t.name name) = some s :=
        List.find?_cons_of_pos heq
      rw [hfirst, Option.bind_some, List.filterMap_cons]
      cases ht : s.reread with
      | none =>
        have hnone : sections.find? (fun t => caseInsensitiveEquals t.name name) = none := by
          refine List.find?_eq_none.2 fun t ht heq' => ?_
          exact hs t.name (List.mem_map_of_mem ht)
            ((caseInsensitiveEquals_iff.1 heq).trans (caseInsensitiveEquals_iff.1 heq').symm)
        rw [ih hrest, hnone]
        rfl
      | some t => exact List.find?_cons_of_pos (name_reread ht ▸ heq)
    · have hlater : (s :: sections).find? (fun t => caseInsensitiveEquals t.name name) =
          sections.find? fun t => caseInsensitiveEquals t.name name := List.find?_cons_of_neg heq
      rw [hlater, List.filterMap_cons, ← ih hrest]
      cases ht : s.reread with
      | none => rfl
      | some t => exact List.find?_cons_of_neg (name_reread ht ▸ heq)

theorem shownLine_bareLine (removeComments : Bool) (line : Text) :
    shownLine removeComments (bareLine false line) = shownLine removeComments line := by
  rw [shownLine, stripWhitespace_bareLine]
  rfl

theorem getLines_reread {s : Section} (hw : s.Writable removeComments) :
    (s.reread.map (·.getLines removeComments)).getD [] = s.getLines removeComments := by
  have hlines := hw.lines
  unfold Section.reread
  split
  case isTrue hkeys =>
    split
    case isTrue hnone =>
      rw [Section.getLines, hnone]
      rfl
    case isFalse =>
      change (s.lines.map (bareLine false)).filterMap (shownLine removeComments) = _
      rw [List.filterMap_map]
      exact List.filterMap_congr fun line _ => shownLine_bareLine removeComments line
  case isFalse hkeys =>
    rw [if_neg hkeys] at hlines
    exact hlines.symm

/-- A file that is loaded, saved and loaded again has the keys, values and lines that it had, where
    every section was safe to save. -/
theorem saved_file_kept (text : Text)
    (h : ∀ s ∈ load text, s.Writable removeComments) :
    Kept removeComments (load text) (load (save (load text))) := by
  have hloaded := loadedSections_load text
  rw [load_save hloaded h]
  intro name
  have hsection := getSection_filterMap hloaded.names name
  unfold getKeys getValue? getLines
  rw [hsection]
  cases hfind : getSection name (load text) with
  | none => exact ⟨rfl, fun _ => rfl, rfl⟩
  | some s =>
    have hmem : s ∈ load text := List.mem_of_find?_eq_some hfind
    have hs := hloaded.each s hmem
    have hlines := getLines_reread (h s hmem)
    refine ⟨?_, fun key => ?_, hlines⟩
    · rw [Option.bind_some, Section.reread]
      split
      case isTrue hkeys =>
        split
        · exact hkeys.symm
        · exact hkeys.symm
      case isFalse => rfl
    · rw [Option.bind_some, Option.bind_some, Section.reread]
      split
      case isTrue hkeys =>
        have hvalues : s.values = [] := List.map_eq_nil_iff.1 (hs.keysOrder ▸ hkeys)
        rw [Section.get?, hvalues]
        split
        · rfl
        · rfl
      case isFalse => rfl

def plainText : Text := "[Core]\nA = \"b\"\n[Gecko]\n$code\n00000000 00000000\n".toList

theorem saved_file_kept_plain :
    Kept true (load plainText) (load (save (load plainText))) := by
  refine saved_file_kept plainText fun s hs => ?_
  have hload : load plainText =
      [{ name := "Core".toList, keysOrder := ["A".toList], values := [("A".toList, "b".toList)] },
        { name := "Gecko".toList, lines := ["$code".toList, "00000000 00000000".toList] }] := by
    decide
  rw [hload] at hs
  rcases List.mem_pair.1 hs with rfl | rfl
  · refine ⟨fun x hx c hc => ?_, fun x hx => ?_, by decide⟩
    · rw [List.mem_singleton.1 hx] at hc
      cases (show some 'A' = some c from hc)
      decide
    · rw [List.mem_singleton.1 hx]
      exact ⟨bare_of_all (by decide) (by decide), by decide⟩
  · exact ⟨nofun, nofun, by decide⟩

/-- Lines beside keys, blanks in quotes, two pairs of quotes, keys behind a blank that then begin
    another kind of line, and a line of one carriage return. -/
def unsafeTexts : List Text :=
  ["[a]\n$line\nk = v\n".toList, "[a]\nk = \" v\"\n".toList, "[a]\nk = \"\"v\"\"\n".toList,
    "[a]\n $k = v\n".toList, "[a]\n +k = v\n".toList, "[a]\n *k = v\n".toList,
    "[a]\n #k = v\n".toList, "[a]\n [k = v\n".toList, "[a]\n\r\r\n".toList]

theorem saved_file_kept_fails :
    unsafeTexts.Forall fun text => ¬ Kept true (load text) (load (save (load text))) := by
  have hdiffer : ∀ text ∈ unsafeTexts,
      ¬ (getKeys ['a'] (load (save (load text))) = getKeys ['a'] (load text) ∧
        getValue? ['a'] ['k'] (load (save (load text))) = getValue? ['a'] ['k'] (load text) ∧
        getLines ['a'] true (load (save (load text))) = getLines ['a'] true (load text)) := by
    decide
  refine List.forall_iff_forall_mem.2 fun text htext hkept => ?_
  obtain ⟨hkeys, hvalues, hlines⟩ := hkept ['a']
  exact hdiffer text htext ⟨hkeys, hvalues ['k'], hlines⟩

end DolphinXR.Common.IniFile
