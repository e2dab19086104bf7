import DolphinXR.Core.PatchIniRoundTrip

/- The lines of an ini file in which the choices of VR patches are saved: those outside the patches'
   sections, as they were but for a last ending, and the lines that are written. Saving the same
   values again changes nothing. -/
namespace DolphinXR.PatchIni
open Lib Common

/-! ### Lines with and without their endings -/

def chomp (line : Text) : Text := line.filter (· != '\n')

def endLine (line : Text) : Text := chomp line ++ ['\n']

theorem chomp_eq_self {s : Text} (h : '\n' ∉ s) : chomp s = s := by
  refine List.filter_eq_self.2 fun c hc => bne_iff_ne.2 ?_
  rintro rfl
  exact h hc

theorem newline_not_mem_chomp (line : Text) : '\n' ∉ chomp line := by
  intro h
  have hc := (List.mem_filter.1 h).2
  cases hc

theorem chomp_ended {s : Text} (h : '\n' ∉ s) : chomp (s ++ ['\n']) = s := by
  rw [chomp, List.filter_append]
  exact (List.append_nil _).trans (chomp_eq_self h)

theorem chomp_endLine (line : Text) : chomp (endLine line) = chomp line :=
  chomp_ended (newline_not_mem_chomp line)

theorem stripWhitespace_endLine (line : Text) :
    stripWhitespace (endLine line) = stripWhitespace (chomp line) := stripWhitespace_newline _

def IsLine (line : Text) : Prop := Ended line ∨ ('\n' ∉ line ∧ line ≠ [])

theorem IsLine.stripWhitespace_chomp {line : Text} (h : IsLine line) :
    stripWhitespace (chomp line) = stripWhitespace line := by
  rcases h with ⟨s, hs, rfl⟩ | ⟨hnot, -⟩
  · rw [chomp_ended hs, stripWhitespace_newline]
  · rw [chomp_eq_self hnot]

theorem Ended.endLine_eq {line : Text} (h : Ended line) : endLine line = line := by
  obtain ⟨s, hs, rfl⟩ := h
  rw [endLine, chomp_ended hs]

theorem splitString_eq_map_chomp (t : Text) : splitString '\n' t = (lines t).map chomp := by
  induction t with
  | nil => rfl
  | cons c t ih =>
    rw [splitString, lines, ih]
    split
    · rfl
    · rename_i hc
      have hchomp : ∀ line, chomp (c :: line) = c :: chomp line := fun line =>
        List.filter_cons_of_pos (bne_iff_ne.2 hc)
      cases lines t with
      | nil => exact congrArg (fun line => [line]) (hchomp []).symm
      | cons line rest => exact congrArg (· :: rest.map chomp) (hchomp line).symm

theorem lines_line {s : Text} (h : '\n' ∉ s) (t : Text) :
    lines (s ++ '\n' :: t) = (s ++ ['\n']) :: lines t := by
  induction s with
  | nil => exact if_pos rfl
  | cons c s ih =>
    have hne : c ≠ '\n' := fun hc => h (hc ▸ List.mem_cons_self)
    rw [List.cons_append, lines, if_neg hne, ih fun hc => h (List.mem_cons_of_mem _ hc)]
    rfl

theorem lines_last {s : Text} (h : '\n' ∉ s) (hne : s ≠ []) : lines s = [s] := by
  induction s with
  | nil => exact absurd rfl hne
  | cons c s ih =>
    have hc : c ≠ '\n' := fun hc => h (hc ▸ List.mem_cons_self)
    rw [lines, if_neg hc]
    cases s with
    | nil => rfl
    | cons d s => rw [ih (fun hc => h (List.mem_cons_of_mem _ hc)) (List.cons_ne_nil _ _)]

theorem lines_append {l : List Text} (h : ∀ line ∈ l, Ended line) (t : Text) :
    lines (l.flatten ++ t) = l ++ lines t := by
  induction l with
  | nil => rfl
  | cons line l ih =>
    obtain ⟨⟨s, hs, rfl⟩, hrest⟩ := List.forall_mem_cons.1 h
    have hflatten : ((s ++ ['\n']) :: l).flatten ++ t = s ++ '\n' :: (l.flatten ++ t) := by simp
    rw [hflatten, lines_line hs, ih hrest]
    rfl

structure AreLines (l : List Text) : Prop where
  ended : l.Pairwise fun line _ => Ended line
  isLine : ∀ line ∈ l, IsLine line

theorem areLines_lines (t : Text) : AreLines (lines t) := ⟨(lines_spec t).1, (lines_spec t).2⟩

theorem AreLines.sublist {l l' : List Text} (h : AreLines l) (hsub : l'.Sublist l) : AreLines l' :=
  ⟨h.ended.sublist hsub, fun line hmem => h.isLine line (hsub.mem hmem)⟩

theorem AreLines.ended_or {l : List Text} (h : AreLines l) :
    (∀ line ∈ l, Ended line) ∨
      ∃ before last, l = before ++ [last] ∧ (∀ line ∈ before, Ended line) ∧
        '\n' ∉ last ∧ last ≠ [] := by
  rcases List.eq_nil_or_concat' l with rfl | ⟨before, last, rfl⟩
  · exact .inl (List.forall_mem_nil _)
  · have hbefore : ∀ line ∈ before, Ended line := fun line hmem =>
      (List.pairwise_append.1 h.ended).2.2 line hmem last (List.mem_singleton.2 rfl)
    rcases h.isLine last (List.mem_append_right _ (List.mem_singleton.2 rfl)) with hended | hopen
    · refine .inl fun line hmem => ?_
      rcases List.mem_append.1 hmem with hmem | hmem
      · exact hbefore line hmem
      · exact List.mem_singleton.1 hmem ▸ hended
    · exact .inr ⟨before, last, rfl, hbefore, hopen⟩

theorem lines_flatten {l : List Text} (h : AreLines l) : lines l.flatten = l := by
  rcases h.ended_or with hended | ⟨before, last, rfl, hbefore, hnot, hne⟩
  · have hlines := lines_append hended []
    rwa [List.append_nil, lines, List.append_nil] at hlines
  · rw [List.flatten_append, List.flatten_singleton, lines_append hbefore, lines_last hnot hne]

theorem closed_flatten {l : List Text} (h : AreLines l) :
    closed l.flatten = (l.map endLine).flatten := by
  have hmap : ∀ {before : List Text}, (∀ line ∈ before, Ended line) →
      before.map endLine = before := fun hbefore =>
    (List.map_congr_left fun line hmem => (hbefore line hmem).endLine_eq).trans (List.map_id _)
  rcases h.ended_or with hended | ⟨before, last, rfl, hbefore, hnot, hne⟩
  · rw [hmap hended, closed]
    refine if_neg ?_
    rcases List.eq_nil_or_concat' l with rfl | ⟨before, last, rfl⟩
    · decide
    · obtain ⟨s, -, rfl⟩ := hended last (List.mem_append_right _ (List.mem_singleton.2 rfl))
      simp
  · have hlast : last.getLast? ≠ some '\n' := fun h => hnot (List.mem_of_getLast? h)
    have hopen : (before ++ [last]).flatten = before.flatten ++ last := by simp
    rw [List.map_append, hmap hbefore, hopen, closed, if_pos ?_]
    · rw [List.flatten_append, List.map_singleton, List.flatten_singleton, endLine,
        chomp_eq_self hnot, List.append_assoc]
    · rw [List.getLast?_append_of_ne_nil _ hne]
      simp [hne, hlast]

section
variable {V : Type} (n : Numbers V) {values : PatchValues V}

def writtenLines (values : PatchValues V) : List Text :=
  ('[' :: patchSection ++ "]\n".toList) :: values.enabled.entries.map enabledLine ++
    values.settings.entries.map (settingLine n)

def NoValues (values : PatchValues V) : Prop :=
  (values.enabled.entries.isEmpty && values.settings.entries.isEmpty) = true

theorem replacePatchSection_of_noValues (text : Text) (h : NoValues values) :
    replacePatchSection n text values = (keptLines false (lines text)).flatten := if_pos h

theorem replacePatchSection_of_values (text : Text) (h : ¬NoValues values) :
    replacePatchSection n text values =
      ((keptLines false (lines text)).map endLine).flatten ++ (writtenLines n values).flatten := by
  have hkept := (areLines_lines text).sublist (keptLines_sublist false (lines text))
  have hreplace : replacePatchSection n text values =
      closed (keptLines false (lines text)).flatten ++ ('[' :: patchSection ++ "]\n".toList) ++
        (values.enabled.entries.map enabledLine).flatten ++
        (values.settings.entries.map (settingLine n)).flatten := if_neg h
  rw [hreplace, closed_flatten hkept, writtenLines]
  simp [List.append_assoc]

theorem ended_writtenLines (h : Storable n values) : ∀ line ∈ writtenLines n values, Ended line := by
  intro line hline
  rcases List.mem_cons.1 hline with rfl | hline
  · exact ⟨"[VRPatch]".toList, by decide, rfl⟩
  · rcases List.mem_append.1 hline with hline | hline
    · obtain ⟨x, hx, rfl⟩ := List.mem_map.1 hline
      exact enabledLine_ended (h.enabled x hx)
    · obtain ⟨x, hx, rfl⟩ := List.mem_map.1 hline
      obtain ⟨hid, -, hname, hvalue⟩ := h.settings x hx
      exact settingLine_ended n hid hname hvalue

theorem lines_replacePatchSection (text : Text) (h : Storable n values) (hvalues : ¬NoValues values) :
    lines (replacePatchSection n text values) =
      (keptLines false (lines text)).map endLine ++ writtenLines n values := by
  have hkept : ∀ line ∈ (keptLines false (lines text)).map endLine, Ended line := by
    intro line hline
    obtain ⟨line, -, rfl⟩ := List.mem_map.1 hline
    exact ⟨chomp line, newline_not_mem_chomp line, rfl⟩
  have hwritten := lines_append (ended_writtenLines n h) []
  rw [List.append_nil, lines, List.append_nil] at hwritten
  rw [replacePatchSection_of_values n text hvalues, lines_append hkept, hwritten]

/-! ### Replacing twice -/

def skipAfter (skipping : Bool) (line : Text) : Bool :=
  if isSectionHeader (stripWhitespace line) then isPatchSection (stripWhitespace line)
  else skipping

theorem keptLines_cons (skipping : Bool) (line : Text) (rest : List Text) :
    keptLines skipping (line :: rest) =
      if skipAfter skipping line then keptLines (skipAfter skipping line) rest
      else line :: keptLines (skipAfter skipping line) rest := rfl

theorem skipAfter_congr {line line' : Text} (h : stripWhitespace line = stripWhitespace line')
    (skipping : Bool) : skipAfter skipping line = skipAfter skipping line' := by
  rw [skipAfter, skipAfter, h]

theorem isSectionHeader_of_kept {line : Text} (h : skipAfter true line = false) :
    isSectionHeader (stripWhitespace line) = true := by
  by_contra hnot
  rw [skipAfter, if_neg hnot] at h
  cases h

theorem skipAfter_false {skipping : Bool} {line : Text} (h : skipAfter skipping line = false) :
    skipAfter false line = false := by
  rw [skipAfter] at h ⊢
  split
  · rename_i hheader
    rwa [if_pos hheader] at h
  · rfl

theorem keptLines_congr {f : Text → Text} {l : List Text}
    (h : ∀ line ∈ l, stripWhitespace (f line) = stripWhitespace line) (skipping : Bool) :
    keptLines skipping (l.map f) = (keptLines skipping l).map f := by
  induction l generalizing skipping with
  | nil => rfl
  | cons line l ih =>
    obtain ⟨hline, hl⟩ := List.forall_mem_cons.1 h
    rw [List.map_cons, keptLines_cons, keptLines_cons, skipAfter_congr hline]
    split
    · exact ih hl _
    · rw [ih hl, List.map_cons]

theorem keptLines_append {l written : List Text} (skipping : Bool)
    (hwritten : keptLines false written = []) :
    keptLines false (keptLines skipping l ++ written) = keptLines skipping l := by
  induction l generalizing skipping with
  | nil => exact hwritten
  | cons line l ih =>
    rw [keptLines_cons]
    split
    · exact ih _
    · rename_i hkept
      rw [Bool.not_eq_true] at hkept
      rw [hkept, List.cons_append, keptLines_cons, skipAfter_false hkept, ih]
      rfl

theorem keptLines_skip {l : List Text}
    (h : ∀ line ∈ l, isSectionHeader (stripWhitespace line) = false) : keptLines true l = [] := by
  induction l with
  | nil => rfl
  | cons line l ih =>
    obtain ⟨hline, hl⟩ := List.forall_mem_cons.1 h
    have hskip : skipAfter true line = true := if_neg (Bool.eq_false_iff.1 hline)
    rw [keptLines_cons, hskip]
    exact ih hl

theorem stripWhitespace_before (front : Text) {t : Text} (ht : Bare t) (hne : t ≠ []) :
    stripWhitespace (front ++ t) = front.dropWhile isBlank ++ t := by
  have hdrop : (front ++ t).dropWhile isBlank = front.dropWhile isBlank ++ t := by
    rw [List.dropWhile_append]
    split
    · rename_i hnil
      rw [List.isEmpty_iff.1 hnil, dropWhile_of_head ht.1]
      rfl
    · rfl
  have hlast : ∀ c ∈ (front.dropWhile isBlank ++ t).getLast?, isBlank c = false := by
    rw [List.getLast?_append_of_ne_nil _ hne]
    exact ht.2
  rw [stripWhitespace, hdrop, List.rdropWhile, dropWhile_of_head, List.reverse_reverse]
  rwa [List.head?_reverse]

theorem isSectionHeader_keyLine (front : Text) {value : Text} (hvalue : ValueText value) :
    isSectionHeader (stripWhitespace (front ++ value ++ ['\n'])) = false := by
  rw [stripWhitespace_newline, stripWhitespace_before front hvalue.bare hvalue.ne_nil,
    isSectionHeader, List.getLast?_append_of_ne_nil _ hvalue.ne_nil, Bool.and_eq_false_iff]
  exact .inr (beq_eq_false_iff_ne.2 hvalue.getLast)

theorem keptLines_writtenLines (h : Storable n values) :
    keptLines false (writtenLines n values) = [] := by
  refine keptLines_skip fun line hline => ?_
  rcases List.mem_append.1 hline with hline | hline
  · obtain ⟨x, -, rfl⟩ := List.mem_map.1 hline
    exact isSectionHeader_keyLine (x.1 ++ " = ".toList) (valueText_bool x.2)
  · obtain ⟨x, hx, rfl⟩ := List.mem_map.1 hline
    obtain ⟨-, -, -, hvalue⟩ := h.settings x hx
    exact isSectionHeader_keyLine ((ofLex x.1).1 ++ '/' :: (ofLex x.1).2 ++ " = ".toList)
      (valueText_format n hvalue)

theorem replacePatchSection_twice (text : Text) (h : Storable n values) :
    replacePatchSection n (replacePatchSection n text values) values =
      replacePatchSection n text values := by
  have hkept := (areLines_lines text).sublist (keptLines_sublist false (lines text))
  by_cases hvalues : NoValues values
  · have hagain : keptLines false (keptLines false (lines text) ++ []) =
        keptLines false (lines text) := keptLines_append false rfl
    rw [List.append_nil] at hagain
    rw [replacePatchSection_of_noValues n _ hvalues, replacePatchSection_of_noValues n _ hvalues,
      lines_flatten hkept, hagain]
  · have hstrip : ∀ line ∈ lines text, stripWhitespace (endLine line) = stripWhitespace line :=
      fun line hline => (stripWhitespace_endLine line).trans
        ((areLines_lines text).isLine line hline).stripWhitespace_chomp
    have hagain := keptLines_append (l := (lines text).map endLine) false
      (keptLines_writtenLines n h)
    rw [keptLines_congr hstrip] at hagain
    have hends : (fun line => endLine (endLine line)) = endLine := by
      funext line
      rw [endLine, chomp_endLine, ← endLine]
    rw [replacePatchSection_of_values n _ hvalues, lines_replacePatchSection n text h hvalues, hagain,
      List.map_map, replacePatchSection_of_values n text hvalues]
    exact congrArg (fun f => ((keptLines false (lines text)).map f).flatten ++ _) hends

end

end DolphinXR.PatchIni
