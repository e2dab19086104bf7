import DolphinXR.Core.PatchIni

/- Saved choices are read back: what is read from any text is storable, and storable values are
   what is read from any text in which they have replaced the section. -/
namespace DolphinXR.PatchIni
open Lib Common
variable {V : Type} (n : Numbers V)

structure IdText (id : Text) : Prop where
  bare : Bare id
  equals : '=' ∉ id
  slash : '/' ∉ id
  newline : '\n' ∉ id
  head : id.head? ≠ some '#' ∧ id.head? ≠ some ';'

structure NameText (name : Text) : Prop where
  bare : Bare name
  equals : '=' ∉ name
  newline : '\n' ∉ name
  ne_nil : name ≠ []

structure Storable (values : PatchValues V) : Prop where
  enabled : ∀ x ∈ values.enabled.entries, IdText x.1
  settings : ∀ x ∈ values.settings.entries,
    IdText (ofLex x.1).1 ∧ (ofLex x.1).1 ≠ [] ∧ NameText (ofLex x.1).2 ∧ n.isFinite x.2 = true

/-! ### Lines -/

def Ended (line : Text) : Prop := ∃ s, '\n' ∉ s ∧ line = s ++ ['\n']

theorem lines_spec (t : Text) : (lines t).Pairwise (fun x _ => Ended x) ∧
    ∀ x ∈ lines t, Ended x ∨ ('\n' ∉ x ∧ x ≠ []) := by
  induction t with
  | nil => exact ⟨.nil, nofun⟩
  | cons c t ih =>
    obtain ⟨hended, hline⟩ := ih
    have hnewline : Ended ['\n'] := ⟨[], List.not_mem_nil, rfl⟩
    unfold lines
    split
    case isTrue =>
      refine ⟨List.pairwise_cons.2 ⟨fun _ _ => hnewline, hended⟩, fun x hx => ?_⟩
      rcases List.mem_cons.1 hx with rfl | hx
      · exact .inl hnewline
      · exact hline x hx
    case isFalse hc =>
      split
      case h_1 =>
        refine ⟨List.pairwise_singleton .., fun x hx => .inr ?_⟩
        rw [List.mem_singleton.1 hx, List.mem_singleton]
        exact ⟨fun h => hc h.symm, nofun⟩
      case h_2 line rest hlines =>
        rw [hlines] at hended hline
        obtain ⟨hfirst, hrest⟩ := List.pairwise_cons.1 hended
        have hlonger : Ended line → Ended (c :: line) := by
          rintro ⟨s, hs, rfl⟩
          refine ⟨c :: s, fun hmem => ?_, rfl⟩
          rcases List.mem_cons.1 hmem with rfl | hmem
          · exact hc rfl
          · exact hs hmem
        refine ⟨List.pairwise_cons.2 ⟨fun y hy => hlonger (hfirst y hy), hrest⟩, fun x hx => ?_⟩
        rcases List.mem_cons.1 hx with rfl | hx
        · refine (hline line (List.mem_cons_self ..)).imp hlonger fun ⟨hnot, _⟩ => ⟨?_, nofun⟩
          intro hmem
          rcases List.mem_cons.1 hmem with rfl | hmem
          · exact hc rfl
          · exact hnot hmem
        · exact hline x (List.mem_cons_of_mem _ hx)

theorem keptLines_sublist (skipping : Bool) (l : List Text) : (keptLines skipping l).Sublist l := by
  induction l generalizing skipping with
  | nil => exact .slnil
  | cons line rest ih =>
    have hstep : ∀ b : Bool, (if b then keptLines b rest else line :: keptLines b rest).Sublist
        (line :: rest) := by
      intro b
      cases b with
      | true => exact .cons _ (ih true)
      | false => exact .cons_cons _ (ih false)
    exact hstep _

def closed (out : Text) : Text :=
  if !out.isEmpty && out.getLast? != some '\n' then out ++ ['\n'] else out

theorem closed_line_append (s t : Text) : closed (s ++ '\n' :: t) = s ++ '\n' :: closed t := by
  cases t with
  | nil =>
    refine if_neg ?_
    rw [List.getLast?_append_of_ne_nil _ (List.cons_ne_nil _ _)]
    simp
  | cons c t =>
    have hlast : (s ++ '\n' :: c :: t).getLast? = (c :: t).getLast? := by
      rw [List.getLast?_append_of_ne_nil _ (List.cons_ne_nil _ _)]
      rfl
    unfold closed
    rw [hlast]
    by_cases hopen : (c :: t).getLast? = some '\n'
    · simp [hopen]
    · simp [hopen]

theorem splitString_flatten {l : List Text} (hended : l.Pairwise fun x _ => Ended x)
    (hline : ∀ x ∈ l, Ended x ∨ ('\n' ∉ x ∧ x ≠ [])) :
    ∃ read, read.map stripWhitespace = l.map stripWhitespace ∧
      splitString '\n' l.flatten = read ∧
      ∀ rest, splitString '\n' (closed l.flatten ++ rest) = read ++ splitString '\n' rest := by
  induction l with
  | nil => exact ⟨[], rfl, rfl, fun rest => rfl⟩
  | cons line l ih =>
    obtain ⟨hfirst, hrest⟩ := List.pairwise_cons.1 hended
    obtain ⟨read, hstrip, hread, hclosed⟩ := ih hrest fun x hx => hline x (List.mem_cons_of_mem _ hx)
    obtain ⟨s, hs, rfl⟩ | ⟨hnot, hne⟩ := hline line (List.mem_cons_self ..)
    · have hflatten : ((s ++ ['\n']) :: l).flatten = s ++ '\n' :: l.flatten := by simp
      refine ⟨s :: read, ?_, ?_, fun rest => ?_⟩
      · rw [List.map_cons, List.map_cons, hstrip, stripWhitespace_newline]
      · rw [hflatten, splitString_line hs, hread]
      · rw [hflatten, closed_line_append, List.append_assoc, List.cons_append, splitString_line hs,
          hclosed]
        rfl
    · -- Only the last line may not be ended.
      have hlast : l = [] := by
        cases l with
        | nil => rfl
        | cons next l =>
          obtain ⟨s, -, rfl⟩ := hfirst next (List.mem_cons_self ..)
          exact absurd (List.mem_append_right _ (List.mem_singleton_self _)) hnot
      subst hlast
      have hopen : closed line = line ++ ['\n'] := by
        refine if_pos ?_
        have hnewline : line.getLast? ≠ some '\n' := fun h => hnot (List.mem_of_getLast? h)
        simp [hne, hnewline]
      refine ⟨[line], rfl, ?_, fun rest => ?_⟩
      · rw [List.flatten_cons, List.flatten_nil, List.append_nil, splitString_last hnot hne]
      · rw [List.flatten_cons, List.flatten_nil, List.append_nil, hopen, List.append_assoc]
        exact splitString_line hnot rest

/-! ### The other sections -/

theorem mergeLine_stripWhitespace (x : Bool × PatchValues V) (line : Text) :
    mergeLine n x (stripWhitespace line) = mergeLine n x line := by
  unfold mergeLine
  rw [(bare_stripWhitespace line).stripWhitespace]

theorem foldl_mergeLine_congr {l l' : List Text} (h : l.map stripWhitespace = l'.map stripWhitespace)
    (x : Bool × PatchValues V) : l.foldl (mergeLine n) x = l'.foldl (mergeLine n) x := by
  calc l.foldl (mergeLine n) x
      = (l.map stripWhitespace).foldl (mergeLine n) x := by
        rw [List.foldl_map]
        simp only [mergeLine_stripWhitespace]
    _ = (l'.map stripWhitespace).foldl (mergeLine n) x := by rw [h]
    _ = l'.foldl (mergeLine n) x := by
        rw [List.foldl_map]
        simp only [mergeLine_stripWhitespace]

theorem mergeLine_header {line : Text} (h : isSectionHeader (stripWhitespace line) = true)
    (x : Bool × PatchValues V) :
    mergeLine n x line = (isPatchSection (stripWhitespace line), x.2) := by
  have hhead : (stripWhitespace line).head? = some '[' := by
    unfold isSectionHeader at h
    simp only [Bool.and_eq_true, beq_iff_eq] at h
    exact h.1.2
  unfold mergeLine
  dsimp only
  rw [if_neg, if_pos h]
  cases hline : stripWhitespace line with
  | nil =>
    rw [hline] at hhead
    exact absurd hhead nofun
  | cons c rest =>
    rw [hline] at hhead
    cases hhead
    simp

theorem mergeLine_outside {line : Text} (h : isSectionHeader (stripWhitespace line) = false)
    (values : PatchValues V) : mergeLine n (false, values) line = (false, values) := by
  unfold mergeLine
  dsimp only
  split
  · rfl
  · rw [h]
    rfl

theorem foldl_keptLines (skipping : Bool) (l : List Text) (values : PatchValues V) :
    (keptLines skipping l).foldl (mergeLine n) (false, values) = (false, values) := by
  induction l generalizing skipping with
  | nil => rfl
  | cons line rest ih =>
    have hstep : ∀ b : Bool, (b = false → mergeLine n (false, values) line = (false, values)) →
        (if b then keptLines b rest else line :: keptLines b rest).foldl (mergeLine n)
          (false, values) = (false, values) := by
      intro b hline
      cases b with
      | true => exact ih true
      | false =>
        calc (line :: keptLines false rest).foldl (mergeLine n) (false, values)
            = (keptLines false rest).foldl (mergeLine n) (mergeLine n (false, values) line) := rfl
          _ = (keptLines false rest).foldl (mergeLine n) (false, values) := by rw [hline rfl]
          _ = (false, values) := ih false
    apply hstep
    intro hkept
    cases hheader : isSectionHeader (stripWhitespace line) with
    | true =>
      rw [hheader, if_pos rfl] at hkept
      rw [mergeLine_header n hheader, hkept]
    | false => exact mergeLine_outside n hheader values

/-! ### The section -/

/-- What stands behind the sign: no blank, and no bracket at the end. -/
structure ValueText (value : Text) : Prop where
  ne_nil : value ≠ []
  bare : Bare value
  newline : '\n' ∉ value
  getLast : value.getLast? ≠ some ']'

theorem valueText_bool (b : Bool) : ValueText (if b then "True".toList else "False".toList) := by
  cases b with
  | true => exact ⟨by decide, bare_of_all rfl rfl, by decide, by decide⟩
  | false => exact ⟨by decide, bare_of_all rfl rfl, by decide, by decide⟩

theorem valueText_format {v : V} (h : n.isFinite v = true) : ValueText (n.format v) := by
  have hall : ("0123456789+-.e".toList.all fun c => !isBlank c && c != '\n' && c != ']') = true := by
    decide
  have hplain : ∀ c ∈ "0123456789+-.e".toList, isBlank c = false ∧ c ≠ '\n' ∧ c ≠ ']' := by
    intro c hc
    have hc := List.all_eq_true.1 hall c hc
    simp only [Bool.and_eq_true, Bool.not_eq_true', bne_iff_ne] at hc
    exact ⟨hc.1.1, hc.1.2, hc.2⟩
  have hchars : ∀ c ∈ n.format v, isBlank c = false ∧ c ≠ '\n' ∧ c ≠ ']' :=
    fun c hc => hplain c (n.format_chars v h c hc)
  refine ⟨n.format_ne_nil v h, ⟨fun c hc => ?_, fun c hc => ?_⟩, fun hc => ?_, fun hc => ?_⟩
  · exact (hchars c (List.mem_of_head? hc)).1
  · exact (hchars c (List.mem_of_getLast? hc)).1
  · exact (hchars _ hc).2.1 rfl
  · exact (hchars _ (List.mem_of_getLast? hc)).2.2 rfl

theorem parseBool_bool (b : Bool) :
    parseBool (if b then "True".toList else "False".toList) = some b := by
  cases b with
  | true => decide
  | false => decide

theorem parseNumber_format {v : V} (h : n.isFinite v = true) :
    parseNumber n (n.format v) = some v := by
  have hall : ("0123456789+-.e".toList.all fun c => toLower c != 's' && toLower c != 't') = true := by
    decide
  have hletter : ∀ c ∈ "0123456789+-.e".toList, toLower c ≠ 's' ∧ toLower c ≠ 't' := by
    intro c hc
    have hc := List.all_eq_true.1 hall c hc
    simp only [Bool.and_eq_true, bne_iff_ne] at hc
    exact hc
  have hword : ∀ word : Text, 's' ∈ word.map toLower ∨ 't' ∈ word.map toLower →
      caseInsensitiveEquals (n.format v) word = false := by
    intro word hmem
    unfold caseInsensitiveEquals
    rw [beq_eq_false_iff_ne]
    intro heq
    rw [← heq] at hmem
    rcases hmem with hmem | hmem
    · obtain ⟨c, hc, hlower⟩ := List.mem_map.1 hmem
      exact (hletter c (n.format_chars v h c hc)).1 hlower
    · obtain ⟨c, hc, hlower⟩ := List.mem_map.1 hmem
      exact (hletter c (n.format_chars v h c hc)).2 hlower
  have hread := n.tryParse_format v h
  have hparsed : (n.tryParse (n.format v)).filter n.isFinite = some v := by
    rw [hread, Option.filter_some, h]
    rfl
  unfold parseNumber parseBool
  rw [hword "true".toList (by decide), hword "false".toList (by decide), Bool.false_or,
    Bool.false_or]
  by_cases hone : n.format v = ['1']
  · rw [hone] at hread ⊢
    have hsame := n.tryParse_format n.one n.isFinite_one
    rw [n.format_one] at hsame
    exact hsame.symm.trans hread
  by_cases hzero : n.format v = ['0']
  · rw [hzero] at hread ⊢
    have hsame := n.tryParse_format n.zero n.isFinite_zero
    rw [n.format_zero] at hsame
    exact hsame.symm.trans hread
  · rw [if_neg (by simpa using hone), if_neg (by simpa using hzero)]
    exact hparsed

theorem mergeLine_keyLine {key value : Text} (hkey : Bare key) (hequals : '=' ∉ key)
    (hhead : key.head? ≠ some '#' ∧ key.head? ≠ some ';') (hvalue : ValueText value)
    (values : PatchValues V) :
    mergeLine n (true, values) (key ++ " = ".toList ++ value) =
      match splitAtFirst '/' key with
      | none =>
        match parseBool value with
        | some enabled => (true, values.setEnabled key enabled)
        | none => (true, values)
      | some (id, name) =>
        if stripWhitespace id == [] || stripWhitespace name == [] then (true, values)
        else
          match parseNumber n value with
          | some number =>
            (true, values.setSetting (stripWhitespace id) (stripWhitespace name) number)
          | none => (true, values) := by
  have hvalueBare : stripWhitespace (' ' :: value) = value := by
    have hstrip := stripWhitespace_append [' '] [] blank_space hvalue.bare
      nofun
    rwa [List.append_nil] at hstrip
  obtain ⟨front, hstrip, hfront, hfrontBare, hfrontHead⟩ :
      ∃ front, stripWhitespace (key ++ " = ".toList ++ value) = front ++ '=' :: ' ' :: value ∧
        '=' ∉ front ∧ stripWhitespace front = key ∧ front.head? = key.head? := by
    by_cases hnil : key = []
    · subst hnil
      have hbare : Bare ("= ".toList ++ value) :=
        Bare.append (t := ['=']) (bare_of_all rfl rfl) hvalue.bare (by decide) hvalue.ne_nil [' ']
      have hline := stripWhitespace_append [' '] [] blank_space hbare nofun
      rw [List.append_nil] at hline
      exact ⟨[], hline, List.not_mem_nil, rfl, rfl⟩
    · refine ⟨key ++ [' '], ?_, ?_, ?_, ?_⟩
      · rw [List.append_assoc]
        refine (hkey.append hvalue.bare hnil hvalue.ne_nil " = ".toList).stripWhitespace.trans ?_
        simp
      · rw [List.mem_append, List.mem_singleton]
        exact fun h => h.elim hequals (by decide)
      · exact stripWhitespace_append [] [' '] nofun hkey blank_space
      · rw [List.head?_append_of_ne_nil _ hnil]
  have hlast : (front ++ '=' :: ' ' :: value).getLast? = value.getLast? := by
    have hassoc : front ++ '=' :: ' ' :: value = (front ++ ['=', ' ']) ++ value := by simp
    rw [hassoc, List.getLast?_append_of_ne_nil _ hvalue.ne_nil]
  have hheader : isSectionHeader (front ++ '=' :: ' ' :: value) = false := by
    unfold isSectionHeader
    rw [hlast, Bool.and_eq_false_iff]
    exact .inr (beq_eq_false_iff_ne.2 hvalue.getLast)
  have hcomment : ((front ++ '=' :: ' ' :: value) == [] ||
      (front ++ '=' :: ' ' :: value).head? == some '#' ||
      (front ++ '=' :: ' ' :: value).head? == some ';') = false := by
    have hfirst : (front ++ '=' :: ' ' :: value).head? = key.head?.or (some '=') := by
      rw [List.head?_append, hfrontHead]
      rfl
    rw [hfirst]
    cases hc : key.head? with
    | none => simp
    | some c =>
      rw [hc] at hhead
      have hhash : c ≠ '#' := fun h => hhead.1 (congrArg some h)
      have hsemicolon : c ≠ ';' := fun h => hhead.2 (congrArg some h)
      simp [hhash, hsemicolon]
  unfold mergeLine
  dsimp only
  rw [hstrip, hcomment, hheader, splitAtFirst_append hfront]
  dsimp only
  rw [hfrontBare, hvalueBare]
  rfl

theorem mergeLine_enabledLine {x : Text × Bool} (h : IdText x.1) (values : PatchValues V) :
    mergeLine n (true, values) (enabledLine x) = (true, values.setEnabled x.1 x.2) := by
  have hline : enabledLine x =
      (x.1 ++ " = ".toList ++ (if x.2 then "True".toList else "False".toList)) ++ ['\n'] := rfl
  rw [hline, ← mergeLine_stripWhitespace, stripWhitespace_newline, mergeLine_stripWhitespace,
    mergeLine_keyLine n h.bare h.equals h.head (valueText_bool x.2), splitAtFirst_eq_none h.slash]
  dsimp only
  rw [parseBool_bool]

theorem mergeLine_settingLine {x : (Text ×ₗ Text) × V} (hid : IdText (ofLex x.1).1)
    (hne : (ofLex x.1).1 ≠ []) (hname : NameText (ofLex x.1).2) (hvalue : n.isFinite x.2 = true)
    (values : PatchValues V) :
    mergeLine n (true, values) (settingLine n x) =
      (true, { values with settings := values.settings.set x.1 x.2 }) := by
  have hline : settingLine n x = ((ofLex x.1).1 ++ (['/'] ++ (ofLex x.1).2)) ++
      " = ".toList ++ n.format x.2 ++ ['\n'] := by
    simp [settingLine]
  have hbare := hid.bare.append hname.bare hne hname.ne_nil ['/']
  have hequals : '=' ∉ (ofLex x.1).1 ++ (['/'] ++ (ofLex x.1).2) := by
    simp [hid.equals, hname.equals]
  have hhead : ((ofLex x.1).1 ++ (['/'] ++ (ofLex x.1).2)).head? = (ofLex x.1).1.head? :=
    List.head?_append_of_ne_nil _ hne
  rw [hline, ← mergeLine_stripWhitespace, stripWhitespace_newline, mergeLine_stripWhitespace,
    mergeLine_keyLine n hbare hequals (hhead ▸ hid.head) (valueText_format n hvalue)]
  rw [show (ofLex x.1).1 ++ (['/'] ++ (ofLex x.1).2) = (ofLex x.1).1 ++ '/' :: (ofLex x.1).2 from rfl,
    splitAtFirst_append hid.slash]
  dsimp only
  rw [hid.bare.stripWhitespace, hname.bare.stripWhitespace, parseNumber_format n hvalue, if_neg]
  · rfl
  · simp [hne, hname.ne_nil]

theorem splitString_section {α : Type} {line : α → Text} {l : List α}
    (h : ∀ x ∈ l, ∃ s, '\n' ∉ s ∧ line x = s ++ ['\n']) (rest : Text) (x : Bool × PatchValues V) :
    (splitString '\n' ((l.map line).flatten ++ rest)).foldl (mergeLine n) x =
      (splitString '\n' rest).foldl (mergeLine n)
        (l.foldl (fun x y => mergeLine n x (line y)) x) := by
  induction l generalizing x with
  | nil => rfl
  | cons y l ih =>
    obtain ⟨s, hs, hline⟩ := h y (List.mem_cons_self ..)
    have hflatten : ((List.map line (y :: l)).flatten ++ rest) =
        s ++ '\n' :: ((l.map line).flatten ++ rest) := by
      rw [List.map_cons, List.flatten_cons, hline]
      simp
    rw [hflatten, splitString_line hs, List.foldl_cons,
      ih fun x hx => h x (List.mem_cons_of_mem _ hx), List.foldl_cons, hline,
      ← mergeLine_stripWhitespace n x (s ++ ['\n']), stripWhitespace_newline,
      mergeLine_stripWhitespace]

theorem enabledLine_ended {x : Text × Bool} (h : IdText x.1) :
    ∃ s, '\n' ∉ s ∧ enabledLine x = s ++ ['\n'] := by
  refine ⟨_, ?_, rfl⟩
  rw [List.mem_append, List.mem_append, not_or, not_or]
  exact ⟨⟨h.newline, by decide⟩, (valueText_bool x.2).newline⟩

theorem settingLine_ended {x : (Text ×ₗ Text) × V} (hid : IdText (ofLex x.1).1)
    (hname : NameText (ofLex x.1).2) (hvalue : n.isFinite x.2 = true) :
    ∃ s, '\n' ∉ s ∧ settingLine n x = s ++ ['\n'] := by
  refine ⟨_, ?_, rfl⟩
  have hnumber := (valueText_format n hvalue).newline
  simp [hid.newline, hname.newline, hnumber]

theorem foldl_enabledLine {l : List (Text × Bool)} (h : ∀ x ∈ l, IdText x.1)
    (values : PatchValues V) :
    l.foldl (fun x y => mergeLine n x (enabledLine y)) (true, values) =
      (true, { values with enabled := l.foldl (fun m x => m.set x.1 x.2) values.enabled }) := by
  induction l generalizing values with
  | nil => rfl
  | cons x l ih =>
    rw [List.foldl_cons, mergeLine_enabledLine n (h x (List.mem_cons_self ..))]
    exact ih (fun y hy => h y (List.mem_cons_of_mem _ hy)) _

theorem foldl_settingLine {l : List ((Text ×ₗ Text) × V)}
    (h : ∀ x ∈ l, IdText (ofLex x.1).1 ∧ (ofLex x.1).1 ≠ [] ∧ NameText (ofLex x.1).2 ∧
      n.isFinite x.2 = true) (values : PatchValues V) :
    l.foldl (fun x y => mergeLine n x (settingLine n y)) (true, values) =
      (true, { values with settings := l.foldl (fun m x => m.set x.1 x.2) values.settings }) := by
  induction l generalizing values with
  | nil => rfl
  | cons x l ih =>
    obtain ⟨hid, hne, hname, hvalue⟩ := h x (List.mem_cons_self ..)
    rw [List.foldl_cons, mergeLine_settingLine n hid hne hname hvalue]
    exact ih (fun y hy => h y (List.mem_cons_of_mem _ hy)) _

theorem load_replacePatchSection (text : Text) {values : PatchValues V} (h : Storable n values) :
    loadUserPatchValues n (replacePatchSection n text values) = values := by
  obtain ⟨hended, hline⟩ := lines_spec text
  have hsub := keptLines_sublist false (lines text)
  obtain ⟨read, hstrip, hread, hclosed⟩ :=
    splitString_flatten (hended.sublist hsub) fun x hx => hline x (hsub.mem hx)
  have hkept : read.foldl (mergeLine n) (false, .empty) = (false, .empty) := by
    rw [foldl_mergeLine_congr n hstrip]
    exact foldl_keptLines n false (lines text) .empty
  unfold loadUserPatchValues mergePatchValues replacePatchSection
  dsimp only
  by_cases hempty : (values.enabled.entries.isEmpty && values.settings.entries.isEmpty) = true
  · rw [if_pos hempty, hread, hkept]
    obtain ⟨henabled, hsettings⟩ := Bool.and_eq_true_iff.1 hempty
    have hnoEnabled : OrderedMap.empty = values.enabled :=
      OrderedMap.ext (List.isEmpty_iff.1 henabled).symm
    have hnoSettings : OrderedMap.empty = values.settings :=
      OrderedMap.ext (List.isEmpty_iff.1 hsettings).symm
    calc (PatchValues.empty : PatchValues V)
        = ⟨values.enabled, values.settings⟩ := by rw [← hnoEnabled, ← hnoSettings]; rfl
      _ = values := rfl
  · rw [if_neg hempty]
    have hheader : ∀ rest, (splitString '\n' (('[' :: patchSection ++ "]\n".toList) ++ rest)).foldl
        (mergeLine n) (false, .empty) = (splitString '\n' rest).foldl (mergeLine n) (true, .empty) := by
      intro rest
      have hline : ('[' :: patchSection ++ "]\n".toList) ++ rest =
          "[VRPatch]".toList ++ '\n' :: rest := rfl
      rw [hline, splitString_line (by decide), List.foldl_cons, mergeLine_header n (by decide)]
      rfl
    have hsettings := splitString_section n (fun x hx =>
      let h := h.settings x hx
      settingLine_ended n h.1 h.2.2.1 h.2.2.2) [] (true, ⟨values.enabled, .empty⟩)
    rw [List.append_nil] at hsettings
    calc ((splitString '\n' (closed (keptLines false (lines text)).flatten ++
            ('[' :: patchSection ++ "]\n".toList) ++
            (values.enabled.entries.map enabledLine).flatten ++
            (values.settings.entries.map (settingLine n)).flatten)).foldl (mergeLine n)
            (false, .empty)).2
        = ((splitString '\n' ((values.enabled.entries.map enabledLine).flatten ++
            (values.settings.entries.map (settingLine n)).flatten)).foldl (mergeLine n)
            (true, .empty)).2 := by
          rw [List.append_assoc, List.append_assoc, hclosed, List.foldl_append, hkept, hheader]
      _ = ((splitString '\n' (values.settings.entries.map (settingLine n)).flatten).foldl
            (mergeLine n) (true, ⟨values.enabled, .empty⟩)).2 := by
          rw [splitString_section n fun x hx => enabledLine_ended (h.enabled x hx),
            foldl_enabledLine n h.enabled]
          rw [show (PatchValues.empty : PatchValues V).enabled = OrderedMap.empty from rfl,
            OrderedMap.foldl_set_entries]
          rfl
      _ = values := by
          rw [hsettings, foldl_settingLine n h.settings]
          dsimp only
          rw [OrderedMap.foldl_set_entries]
          rfl

/-! ### What is read is storable -/

theorem storable_empty : Storable n (.empty : PatchValues V) := ⟨nofun, nofun⟩

theorem Storable.setEnabled {values : PatchValues V} (h : Storable n values) {id : Text}
    (hid : IdText id) (enabled : Bool) : Storable n (values.setEnabled id enabled) := by
  refine ⟨fun x hx => ?_, h.settings⟩
  rcases OrderedMap.mem_set.1 hx with rfl | ⟨-, hx⟩
  · exact hid
  · exact h.enabled x hx

theorem Storable.setSetting {values : PatchValues V} (h : Storable n values) {id name : Text} {v : V}
    (hid : IdText id) (hne : id ≠ []) (hname : NameText name) (hv : n.isFinite v = true) :
    Storable n (values.setSetting id name v) := by
  refine ⟨h.enabled, fun x hx => ?_⟩
  rcases OrderedMap.mem_set.1 hx with rfl | ⟨-, hx⟩
  · exact ⟨hid, hne, hname, hv⟩
  · exact h.settings x hx

theorem isFinite_of_parseNumber {text : Text} {v : V} (h : parseNumber n text = some v) :
    n.isFinite v = true := by
  unfold parseNumber at h
  split at h
  case h_1 b _ =>
    cases h
    cases b with
    | true => exact n.isFinite_one
    | false => exact n.isFinite_zero
  case h_2 => exact (Option.filter_eq_some_iff.1 h).2

theorem head?_strip_before {t before behind : Text} {c : Char} (ht : Bare t)
    (hsplit : t = before ++ c :: behind) (d : Char) (hd : (stripWhitespace before).head? = some d) :
    t.head? = some d := by
  cases before with
  | nil => exact absurd hd nofun
  | cons e before =>
    have hfirst : ∀ c ∈ (e :: before).head?, isBlank c = false := by
      intro b hb
      apply ht.1 b
      rw [hsplit]
      exact hb
    rw [head?_stripWhitespace hfirst] at hd
    rw [hsplit]
    exact hd

theorem Storable.mergeLine {x : Bool × PatchValues V} (h : Storable n x.2) {rawLine : Text}
    (hnewline : '\n' ∉ rawLine) : Storable n (PatchIni.mergeLine n x rawLine).2 := by
  have hbare := bare_stripWhitespace rawLine
  have hline : '\n' ∉ stripWhitespace rawLine := fun hc => hnewline (mem_of_mem_stripWhitespace hc)
  unfold PatchIni.mergeLine
  dsimp only
  generalize stripWhitespace rawLine = line at hbare hline
  split
  · exact h
  next hcomment =>
  have hhead : line.head? ≠ some '#' ∧ line.head? ≠ some ';' := by
    simp only [Bool.or_eq_true, beq_iff_eq, not_or] at hcomment
    exact ⟨hcomment.1.2, hcomment.2⟩
  split
  · exact h
  split
  · exact h
  split
  · exact h
  next key value hsplit =>
  obtain ⟨hparts, hequals⟩ := of_splitAtFirst_eq_some hsplit
  have hkeyBare := bare_stripWhitespace key
  have hkeyEquals : '=' ∉ stripWhitespace key := fun hc => hequals (mem_of_mem_stripWhitespace hc)
  have hkeyNewline : '\n' ∉ stripWhitespace key := by
    intro hc
    apply hline
    rw [hparts]
    exact List.mem_append_left _ (mem_of_mem_stripWhitespace hc)
  have hkeyHead := head?_strip_before hbare hparts
  generalize stripWhitespace key = key at hkeyBare hkeyEquals hkeyNewline hkeyHead
  split
  next hslash =>
    split
    · refine h.setEnabled n ⟨hkeyBare, hkeyEquals, not_mem_of_splitAtFirst_eq_none hslash,
        hkeyNewline, fun hc => hhead.1 (hkeyHead _ hc), fun hc => hhead.2 (hkeyHead _ hc)⟩ _
    · exact h
  next id name hslash =>
    obtain ⟨hkey, hid⟩ := of_splitAtFirst_eq_some hslash
    have hidHead := head?_strip_before hkeyBare hkey
    have hidMem : ∀ c ∈ stripWhitespace id, c ∈ id ∧ c ∈ key := by
      intro c hc
      have hmem := mem_of_mem_stripWhitespace hc
      exact ⟨hmem, hkey ▸ List.mem_append_left _ hmem⟩
    have hnameMem : ∀ c ∈ stripWhitespace name, c ∈ key := by
      intro c hc
      rw [hkey]
      exact List.mem_append_right _ (List.mem_cons_of_mem _ (mem_of_mem_stripWhitespace hc))
    split
    · exact h
    next hempty =>
    simp only [Bool.or_eq_true, beq_iff_eq, not_or] at hempty
    split
    next number hnumber =>
      refine h.setSetting n ⟨bare_stripWhitespace id, fun hc => hkeyEquals (hidMem _ hc).2,
        fun hc => hid (hidMem _ hc).1, fun hc => hkeyNewline (hidMem _ hc).2, ?_, ?_⟩ hempty.1
        ⟨bare_stripWhitespace name, fun hc => hkeyEquals (hnameMem _ hc),
          fun hc => hkeyNewline (hnameMem _ hc), hempty.2⟩ (isFinite_of_parseNumber n hnumber)
      · exact fun hc => hhead.1 (hkeyHead _ (hidHead _ hc))
      · exact fun hc => hhead.2 (hkeyHead _ (hidHead _ hc))
    · exact h

theorem Storable.mergePatchValues {values : PatchValues V} (h : Storable n values) (text : Text) :
    Storable n (PatchIni.mergePatchValues n values text) := by
  have hfold : ∀ (l : List Text) (x : Bool × PatchValues V), (∀ line ∈ l, '\n' ∉ line) →
      Storable n x.2 → Storable n (l.foldl (PatchIni.mergeLine n) x).2 := by
    intro l
    induction l with
    | nil => exact fun x _ hx => hx
    | cons line l ih =>
      intro x hl hx
      exact ih _ (fun y hy => hl y (List.mem_cons_of_mem _ hy))
        (hx.mergeLine n (hl line (List.mem_cons_self ..)))
  exact hfold _ _ (fun line hline => not_mem_of_mem_splitString hline) h

theorem storable_loadUserPatchValues (text : Text) : Storable n (loadUserPatchValues n text) :=
  (storable_empty n).mergePatchValues n text

end DolphinXR.PatchIni
