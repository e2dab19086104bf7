import DolphinXR.Common.IniFile
import DolphinXR.Core.PatchChoicesKept
import DolphinXR.Core.PatchIniLines

/- Saving the choices of VR patches in an ini file that has other sections. What is saved is read
   back, and saving it again changes nothing; but the other sections are the same for
   `Common::IniFile` only where the two ideas of a header agree on what is taken out. -/
namespace DolphinXR.PatchIni
open Lib Common Common.IniFile

/-! ### The other sections as they are read -/

def isPatchName (name : Text) : Bool := caseInsensitiveEquals name patchSection

/-- The sections of a text but for `[VRPatch]`. -/
def otherSections (sections : List Section) : List Section :=
  sections.filter fun s => !isPatchName s.name

def otherName (name : Option Text) : Option Text := name.filter fun name => !isPatchName name

/-- What a line makes of the current section. -/
def sectionAfter (here : Option Text) (line : Text) : Option Text :=
  if line.head? = some '[' then
    match headerName line with
    | none => here
    | some name => otherName (some name)
  else here

section
variable {a b name : Text} {sections : List Section} {f : Section → Section}

theorem isPatchName_congr (h : caseInsensitiveEquals a b = true) : isPatchName a = isPatchName b := by
  rw [caseInsensitiveEquals, beq_iff_eq] at h
  rw [isPatchName, isPatchName, caseInsensitiveEquals, caseInsensitiveEquals, h]

theorem otherName_some (h : isPatchName name = false) : otherName (some name) = some name := by
  rw [otherName, Option.filter_some, h]
  rfl

theorem otherName_patch (h : isPatchName name = true) : otherName (some name) = none := by
  rw [otherName, Option.filter_some, h]
  rfl

theorem otherSections_create_patch (h : isPatchName name = true) :
    otherSections (getOrCreateSection sections name) = otherSections sections := by
  rw [getOrCreateSection]
  split
  · rfl
  · rw [otherSections, List.filter_append, List.filter_singleton, h]
    exact List.append_nil _

theorem any_otherSections (h : isPatchName name = false) :
    ((otherSections sections).any fun s => caseInsensitiveEquals s.name name) =
      sections.any fun s => caseInsensitiveEquals s.name name := by
  rw [Bool.eq_iff_iff, List.any_eq_true, List.any_eq_true]
  constructor
  · rintro ⟨s, hmem, hs⟩
    exact ⟨s, List.mem_of_mem_filter hmem, hs⟩
  · rintro ⟨s, hmem, hs⟩
    refine ⟨s, List.mem_filter.2 ⟨hmem, ?_⟩, hs⟩
    rw [isPatchName_congr hs, h]
    rfl

theorem otherSections_create (h : isPatchName name = false) :
    otherSections (getOrCreateSection sections name) =
      getOrCreateSection (otherSections sections) name := by
  rw [getOrCreateSection, getOrCreateSection, any_otherSections h]
  split
  · rfl
  · rw [otherSections, List.filter_append, List.filter_singleton, h]
    rfl

theorem otherSections_cons_patch {s : Section} (h : isPatchName s.name = true) :
    otherSections (s :: sections) = otherSections sections :=
  List.filter_cons_of_neg (by rw [h]; decide)

theorem otherSections_cons_other {s : Section} (h : isPatchName s.name = false) :
    otherSections (s :: sections) = s :: otherSections sections :=
  List.filter_cons_of_pos (by rw [h]; rfl)

theorem otherSections_modify_patch (hf : ∀ s, (f s).name = s.name) (h : isPatchName name = true) :
    otherSections (modifySection f name sections) = otherSections sections := by
  induction sections with
  | nil => rfl
  | cons s sections ih =>
    rw [modifySection]
    split
    · rename_i hs
      have hpatch : isPatchName s.name = true := (isPatchName_congr hs).trans h
      rw [otherSections_cons_patch ((congrArg isPatchName (hf s)).trans hpatch),
        otherSections_cons_patch hpatch]
    · cases hpatch : isPatchName s.name with
      | true => rw [otherSections_cons_patch hpatch, otherSections_cons_patch hpatch, ih]
      | false => rw [otherSections_cons_other hpatch, otherSections_cons_other hpatch, ih]

theorem otherSections_modify (hf : ∀ s, (f s).name = s.name) (h : isPatchName name = false) :
    otherSections (modifySection f name sections) =
      modifySection f name (otherSections sections) := by
  induction sections with
  | nil => rfl
  | cons s sections ih =>
    rw [modifySection]
    split
    · rename_i hs
      have hother : isPatchName s.name = false := (isPatchName_congr hs).trans h
      rw [otherSections_cons_other ((congrArg isPatchName (hf s)).trans hother),
        otherSections_cons_other hother, modifySection, if_pos hs]
    · rename_i hs
      cases hpatch : isPatchName s.name with
      | true => rw [otherSections_cons_patch hpatch, otherSections_cons_patch hpatch, ih]
      | false =>
        rw [otherSections_cons_other hpatch, otherSections_cons_other hpatch, modifySection,
          if_neg hs, ih]

theorem name_addLine (line : Text) (s : Section) : (s.addLine line).name = s.name := by
  rw [Section.addLine]
  split
  · rfl
  · rw [Section.set]
    split
    · rfl
    · rfl

end

/-- What a line makes of the other sections. -/
def othersAfter (sections : List Section) (here : Option Text) (line : Text) : List Section :=
  if line = [] then sections
  else if line.head? = some '[' then
    match headerName line with
    | none => sections
    | some name => if isPatchName name then sections else getOrCreateSection sections name
  else
    match here with
    | none => sections
    | some name => modifySection (Section.addLine line) name sections

section
variable {r r' : Reader} {line : Text}

theorem firstLine_readLine (r : Reader) (line : Text) : (r.readLine line).firstLine = false := by
  rw [Reader.readLine]
  dsimp only
  split
  · rfl
  · split
    · split
      · rfl
      · rfl
    · split
      · rfl
      · rfl

theorem otherName_readLine (r : Reader) (line : Text) : otherName (r.readLine line).current =
    sectionAfter (otherName r.current) (bareLine r.firstLine line) := by
  rw [Reader.readLine, sectionAfter]
  dsimp only
  generalize bareLine r.firstLine line = line
  split
  · rename_i hnil
    subst hnil
    rfl
  · split
    · cases headerName line with
      | none => rfl
      | some name => rfl
    · cases hcurrent : r.current with
      | none => rfl
      | some name => rfl

theorem otherSections_readLine (r : Reader) (line : Text) :
    otherSections (r.readLine line).sections =
      othersAfter (otherSections r.sections) (otherName r.current)
        (bareLine r.firstLine line) := by
  unfold Reader.readLine othersAfter
  dsimp only
  generalize bareLine r.firstLine line = line
  split
  · rfl
  · split
    · cases headerName line with
      | none => rfl
      | some name =>
        dsimp only
        split
        · rename_i hpatch
          exact otherSections_create_patch hpatch
        · rename_i hother
          exact otherSections_create (Bool.eq_false_iff.2 hother)
    · cases hcurrent : r.current with
      | none => rfl
      | some name =>
        cases hpatch : isPatchName name with
        | true =>
          rw [otherName_patch hpatch]
          exact otherSections_modify_patch (name_addLine line) hpatch
        | false =>
          rw [otherName_some hpatch]
          exact otherSections_modify (name_addLine line) hpatch

theorem othersAfter_none {sections : List Section} {here : Option Text} {line : Text}
    (h : sectionAfter here line = none) : othersAfter sections here line = sections := by
  rw [sectionAfter] at h
  unfold othersAfter
  split
  · rfl
  · split
    · rename_i hhead
      rw [if_pos hhead] at h
      cases hname : headerName line with
      | none => rfl
      | some name =>
        rw [hname] at h
        cases hpatch : isPatchName name with
        | true => exact if_pos hpatch
        | false =>
          dsimp only at h
          rw [otherName_some hpatch] at h
          cases h
    · rename_i hhead
      rw [if_neg hhead] at h
      rw [h]

theorem othersAfter_congr {sections : List Section} {here kept : Option Text} {line : Text}
    (h : sectionAfter here line = sectionAfter kept line) :
    othersAfter sections here line = othersAfter sections kept line := by
  rw [sectionAfter, sectionAfter] at h
  unfold othersAfter
  split
  · rfl
  · split
    · rfl
    · rename_i hhead
      rw [if_neg hhead, if_neg hhead] at h
      rw [h]

end

/-! ### What is taken out -/

/-- Where lines are taken out, the current section is no other one, and so the same one is current in
    what is kept, at each line that is: from the lines of a text, whether lines are taken out, and the
    other sections that are current in all lines and in those that are kept. -/
def apart (first skipping : Bool) (here kept : Option Text) : List Text → Bool
  | [] => true
  | line :: rest =>
    let here := sectionAfter here (bareLine first line)
    if skipAfter skipping line then decide (here = none) && apart false true here kept rest
    else
      let kept := sectionAfter kept (bareLine first line)
      decide (here = kept) && apart false false here kept rest

def NoBracket (key : Text) : Prop := key.head? = some '[' → ']' ∉ key

instance : DecidablePred NoBracket := fun _ => inferInstanceAs (Decidable (_ → _))

structure Agree {V : Type} (text : Text) (values : PatchValues V) : Prop where
  apart : apart true false none none (splitString '\n' text) = true
  enabled : ∀ x ∈ values.enabled.entries, NoBracket x.1
  settings : ∀ x ∈ values.settings.entries, NoBracket ((ofLex x.1).1 ++ '/' :: (ofLex x.1).2)

theorem bareLine_header {line : Text} (h : isSectionHeader (stripWhitespace line) = true)
    (first first' : Bool) : bareLine first line = bareLine first' line := by
  have hbom : line.take 3 ≠ bom := by
    intro hbom
    obtain ⟨rest, hline⟩ : ∃ rest, line = '\xEF' :: rest := by
      cases line with
      | nil => cases hbom
      | cons c rest => exact ⟨rest, congrArg (· :: rest) (List.cons.inj hbom).1⟩
    have hhead : (stripWhitespace line).head? = some '\xEF' := by
      rw [hline, head?_stripWhitespace]
      · rfl
      · intro c hc
        cases hc
        decide
    rw [isSectionHeader, hhead, Bool.and_eq_true, Bool.and_eq_true] at h
    exact absurd h.1.2 (by decide)
  have hsame : ∀ first : Bool, ¬(first = true ∧ line.take 3 = bom) := fun _ h => hbom h.2
  unfold bareLine
  rw [if_neg (hsame first), if_neg (hsame first')]

theorem otherSections_keptLines {l : List Text} (skipping : Bool) {r k : Reader}
    (hsections : otherSections r.sections = otherSections k.sections)
    (hfirst : k.firstLine = r.firstLine ∨ skipping = true)
    (h : apart r.firstLine skipping (otherName r.current) (otherName k.current) l = true) :
    otherSections (l.foldl Reader.readLine r).sections =
      otherSections ((keptLines skipping l).foldl Reader.readLine k).sections := by
  induction l generalizing skipping r k with
  | nil => exact hsections
  | cons line l ih =>
    have hname := otherName_readLine r line
    have hsectionsAfter := otherSections_readLine r line
    rw [keptLines_cons, List.foldl_cons]
    rw [apart] at h
    cases hskip : skipAfter skipping line with
    | true =>
      rw [hskip, if_pos rfl, Bool.and_eq_true, decide_eq_true_eq] at h
      obtain ⟨hnone, hrest⟩ := h
      rw [othersAfter_none hnone, hsections] at hsectionsAfter
      refine ih true hsectionsAfter (.inr rfl) ?_
      rwa [firstLine_readLine, hname]
    | false =>
      rw [hskip, if_neg Bool.false_ne_true, Bool.and_eq_true, decide_eq_true_eq] at h
      obtain ⟨hsame, hrest⟩ := h
      -- A line is the first that is kept if it is the first, or ends what is taken out.
      have hbare : bareLine k.firstLine line = bareLine r.firstLine line := by
        rcases hfirst with hfirst | rfl
        · rw [hfirst]
        · exact bareLine_header (isSectionHeader_of_kept hskip) _ _
      have hname' := otherName_readLine k line
      have hsectionsAfter' := otherSections_readLine k line
      rw [hbare] at hname' hsectionsAfter'
      rw [hsections, othersAfter_congr hsame, ← hsectionsAfter'] at hsectionsAfter
      refine ih false hsectionsAfter (.inl ?_) ?_
      · rw [firstLine_readLine, firstLine_readLine]
      · rwa [firstLine_readLine, hname, hname']

/-! ### What is written -/

theorem bareLine_false (line : Text) :
    bareLine false line = if line.getLast? = some '\r' then line.dropLast else line := by
  simp [bareLine]

theorem sectionAfter_keyLine {key value : Text} (hkey : NoBracket key) (hvalue : ValueText value)
    (hbracket : ']' ∉ value) : sectionAfter none (bareLine false (key ++ " = ".toList ++ value)) =
      none := by
  have hbare : bareLine false (key ++ " = ".toList ++ value) = key ++ " = ".toList ++ value := by
    have hlast : (key ++ " = ".toList ++ value).getLast? ≠ some '\r' := by
      rw [List.getLast?_append_of_ne_nil _ hvalue.ne_nil]
      intro h
      cases hvalue.bare.2 '\r' h
    exact (bareLine_false _).trans (if_neg hlast)
  rw [hbare, sectionAfter]
  split
  · rename_i hhead
    have hkeyHead : key.head? = some '[' := by
      cases key with
      | nil => cases hhead
      | cons c key => exact hhead
    have hnot : ']' ∉ key ++ " = ".toList ++ value := by
      rw [List.mem_append, List.mem_append, not_or, not_or]
      exact ⟨⟨hkey hkeyHead, by decide⟩, hbracket⟩
    rw [headerName, splitAtFirst_eq_none hnot]
    rfl
  · rfl

theorem otherSections_foldl_none {l : List Text} {k : Reader} (hfirst : k.firstLine = false)
    (hk : otherName k.current = none) (h : ∀ line ∈ l, sectionAfter none (bareLine false line) = none) :
    otherSections (l.foldl Reader.readLine k).sections = otherSections k.sections := by
  induction l generalizing k with
  | nil => rfl
  | cons line l ih =>
    obtain ⟨hline, hl⟩ := List.forall_mem_cons.1 h
    have hname := otherName_readLine k line
    have hsections := otherSections_readLine k line
    rw [hfirst, hk, hline] at hname
    rw [hfirst, hk, othersAfter_none hline] at hsections
    rw [List.foldl_cons, ih (firstLine_readLine k line) hname hl, hsections]

section
variable {V : Type} (n : Numbers V) {values : PatchValues V} {text : Text}

theorem sectionAfter_writtenLines (hvalues : Storable n values) (h : Agree text values) :
    ∀ line ∈ (values.enabled.entries.map enabledLine ++
      values.settings.entries.map (settingLine n)).map chomp,
        sectionAfter none (bareLine false line) = none := by
  refine List.forall_mem_map.2 fun line hline => ?_
  rcases List.mem_append.1 hline with hline | hline
  · obtain ⟨x, hx, rfl⟩ := List.mem_map.1 hline
    have hchomp : chomp (enabledLine x) =
        x.1 ++ " = ".toList ++ (if x.2 then "True".toList else "False".toList) := by
      refine chomp_ended ?_
      rw [List.mem_append, List.mem_append, not_or, not_or]
      exact ⟨⟨(hvalues.enabled x hx).newline, by decide⟩, (valueText_bool x.2).newline⟩
    rw [hchomp]
    refine sectionAfter_keyLine (h.enabled x hx) (valueText_bool x.2) ?_
    cases x.2 with
    | true => decide
    | false => decide
  · obtain ⟨x, hx, rfl⟩ := List.mem_map.1 hline
    obtain ⟨hid, -, hname, hvalue⟩ := hvalues.settings x hx
    have hchomp : chomp (settingLine n x) =
        ((ofLex x.1).1 ++ '/' :: (ofLex x.1).2) ++ " = ".toList ++ n.format x.2 := by
      have hnumber := (valueText_format n hvalue).newline
      refine chomp_ended ?_
      simp [hid.newline, hname.newline, hnumber]
    rw [hchomp]
    refine sectionAfter_keyLine (h.settings x hx) (valueText_format n hvalue) fun hmem => ?_
    exact absurd (n.format_chars x.2 hvalue _ hmem) (by decide)

theorem load_replacePatchSection_others (hvalues : Storable n values) (h : Agree text values) :
    otherSections (load (replacePatchSection n text values)) = otherSections (load text) := by
  have hlines := areLines_lines text
  have hchomp : keptLines false ((lines text).map chomp) =
      (keptLines false (lines text)).map chomp :=
    keptLines_congr (fun line hline => (hlines.isLine line hline).stripWhitespace_chomp) false
  have hkept := otherSections_keptLines (r := {}) (k := {}) false rfl (.inl rfl) h.apart
  rw [splitString_eq_map_chomp, hchomp] at hkept
  rw [load, load, splitString_eq_map_chomp text, hkept, splitString_eq_map_chomp]
  by_cases hnone : NoValues values
  · rw [replacePatchSection_of_noValues n text hnone,
      lines_flatten (hlines.sublist (keptLines_sublist false (lines text)))]
  · have hends : ((keptLines false (lines text)).map endLine).map chomp =
        (keptLines false (lines text)).map chomp := by
      rw [List.map_map]
      exact List.map_congr_left fun line _ => chomp_endLine line
    rw [lines_replacePatchSection n text hvalues hnone, List.map_append, hends, List.foldl_append]
    generalize ((keptLines false (lines text)).map chomp).foldl Reader.readLine {} = k
    -- The header is that of the patches' section for both.
    have hheader : ∀ here : Option Text,
        sectionAfter here (bareLine k.firstLine "[VRPatch]".toList) = none := by
      intro here
      cases k.firstLine with
      | true => rfl
      | false => rfl
    have hname := (otherName_readLine k "[VRPatch]".toList).trans (hheader _)
    have hsections := otherSections_readLine k "[VRPatch]".toList
    rw [othersAfter_none (hheader _)] at hsections
    exact (otherSections_foldl_none (firstLine_readLine k _) hname
      (sectionAfter_writtenLines n hvalues h)).trans hsections

end

/-! ### Saving -/

def isAlpha (c : Char) : Bool :=
  decide (65 ≤ c.toNat ∧ c.toNat ≤ 90) || decide (97 ≤ c.toNat ∧ c.toNat ≤ 122)

/-- `IsValidSettingName` of VRPatch/PatchScript.cpp: a Lua identifier. -/
def isValidSettingName (name : Text) : Bool :=
  !(name.isEmpty || decide (64 < name.length)) &&
    name.head?.any (fun c => isAlpha c || c == '_') &&
    name.all fun c => PatchChoices.isAlnum c || c == '_'

theorem nameText_of_valid {name : Text} (h : isValidSettingName name = true) : NameText name := by
  rw [isValidSettingName, Bool.and_eq_true, Bool.and_eq_true] at h
  obtain ⟨⟨hshape, -⟩, hall⟩ := h
  have hchar : ∀ c ∈ name, isBlank c = false ∧ c ≠ '=' ∧ c ≠ '\n' := by
    intro c hc
    have hvalid := List.all_eq_true.1 hall c hc
    refine ⟨?_, ?_, ?_⟩
    · rw [Bool.eq_false_iff]
      intro hblank
      simp only [isBlank, Bool.or_eq_true, beq_iff_eq] at hblank
      obtain ((rfl | rfl) | rfl) | rfl := hblank
      all_goals exact absurd hvalid (by decide)
    all_goals
      rintro rfl
      exact absurd hvalid (by decide)
  refine ⟨⟨fun c hc => (hchar c (List.mem_of_head? hc)).1,
    fun c hc => (hchar c (List.mem_of_getLast? hc)).1⟩, fun hc => (hchar _ hc).2.1 rfl,
    fun hc => (hchar _ hc).2.2 rfl, ?_⟩
  rintro rfl
  cases hshape

section
variable {V : Type} (n : Numbers V)

/-- Values that are read from texts, and set for valid ids and names. -/
inductive Obtained : PatchValues V → Prop where
  | empty : Obtained .empty
  | merge {values : PatchValues V} (text : Text) (h : Obtained values) :
      Obtained (mergePatchValues n values text)
  | setEnabled {values : PatchValues V} {id : Text} (hid : PatchChoices.isValidPatchId id = true)
      (enabled : Bool) (h : Obtained values) : Obtained (values.setEnabled id enabled)
  | setSetting {values : PatchValues V} {id name : Text} {value : V}
      (hid : PatchChoices.isValidPatchId id = true) (hname : isValidSettingName name = true)
      (hvalue : n.isFinite value = true) (h : Obtained values) :
      Obtained (values.setSetting id name value)

theorem Obtained.storable {values : PatchValues V} (h : Obtained n values) : Storable n values := by
  induction h with
  | empty => exact storable_empty n
  | merge text h ih => exact ih.mergePatchValues n text
  | setEnabled hid enabled h ih =>
    exact ih.setEnabled n (PatchChoices.idText_of_valid hid).1 enabled
  | setSetting hid hname hvalue h ih =>
    obtain ⟨hid, hne⟩ := PatchChoices.idText_of_valid hid
    exact ih.setSetting n hid hne (nameText_of_valid hname) hvalue

/-- What is saved is read back, saving it again changes nothing, and the other sections are the same
    where the readers agree. -/
theorem replacePatchSection_preserves (text : Text) {values : PatchValues V}
    (hvalues : Obtained n values) :
    mergePatchValues n .empty (replacePatchSection n text values) = values ∧
      replacePatchSection n (replacePatchSection n text values) values =
        replacePatchSection n text values ∧
      (Agree text values →
        otherSections (load (replacePatchSection n text values)) = otherSections (load text)) := by
  have hstorable := hvalues.storable
  exact ⟨load_replacePatchSection n text hstorable, replacePatchSection_twice n text hstorable,
    load_replacePatchSection_others n hstorable⟩

end

def commented : Text := "[VRPatch]\n[Core] ; game\na = 1\n".toList

/-- The text is that of a section before the patches' one. -/
theorem replacePatchSection_preserves_core :
    otherSections (load (replacePatchSection PatchChoices.bits "[Core]\nx = 1\n[VRPatch]\n".toList
      (PatchValues.empty.setEnabled "a".toList true))) = [⟨"Core".toList, ["x".toList],
        [("x".toList, "1".toList)], []⟩] := by
  have hvalues : Obtained PatchChoices.bits (PatchValues.empty.setEnabled "a".toList true) :=
    .setEnabled (by decide) true .empty
  have h := (replacePatchSection_preserves PatchChoices.bits "[Core]\nx = 1\n[VRPatch]\n".toList
    hvalues).2.2 ⟨by decide +kernel, by decide +kernel, by decide +kernel⟩
  exact h.trans (by decide +kernel)

/-- Its section is lost with that of the patches. -/
theorem replacePatchSection_loses :
    otherSections (load commented) = [⟨"Core".toList, ["a".toList],
      [("a".toList, "1".toList)], []⟩] ∧
    otherSections (load (replacePatchSection PatchChoices.bits commented
      (mergePatchValues PatchChoices.bits .empty commented))) = [] := by
  decide +kernel

end DolphinXR.PatchIni
