import DolphinXR.Core.PointerPathTexts

/- Both printers of pointer paths are read back, and a text of the bracket notation leads where its
   brackets and terms do. -/
namespace DolphinXR.AgentServer.PointerScan
open Common Lib HexNumerals

section
variable {s s' t text : Text} {e : Expr} {v : Address} {path : Path}

/-! Spaces around a text. -/

theorem Written.ends (h : Written e t) :
    (∃ c rest, t = c :: rest ∧ (c = '[' ∨ isDigit c = true)) ∧
      ∃ rest c, t = rest ++ [c] ∧ (c = ']' ∨ isDigit c = true) := by
  have hlast : ∀ {n : Text} {v : Address}, Numeral n v →
      ∃ rest c, n = rest ++ [c] ∧ (c = ']' ∨ isDigit c = true) := by
    rintro n v ⟨mark, digits, -, rfl, hdigits⟩
    obtain ⟨before, c, rfl⟩ := (List.eq_nil_or_concat' digits).resolve_left hdigits.ne_nil
    exact ⟨mark ++ before, c, (List.append_assoc _ _ _).symm, .inr (hdigits.isDigit c (by simp))⟩
  induction h with
  | value hn =>
    obtain ⟨c, rest, hc, hdigit⟩ := hn.head
    exact ⟨⟨c, rest, hc, .inr hdigit⟩, hlast hn⟩
  | @read e t s s' h hs hs' ih =>
    exact ⟨⟨'[', _, rfl, .inl rfl⟩, '[' :: (s ++ t ++ s'), ']', rfl, .inl rfl⟩
  | @add e t s s' n v h minus hs hs' hn ih =>
    obtain ⟨⟨c, rest, rfl, hc⟩, -⟩ := ih
    obtain ⟨before, d, rfl, hd⟩ := hlast hn
    refine ⟨⟨c, rest ++ s ++ sign minus :: (s' ++ (before ++ [d])), rfl, hc⟩,
      c :: rest ++ s ++ sign minus :: (s' ++ before), d, ?_, hd⟩
    simp

theorem isSpace_of_bracket {c : Char} (h : (c = '[' ∨ c = ']') ∨ isDigit c = true) :
    isSpace c = false := by
  rcases h with (rfl | rfl) | h
  · decide
  · decide
  · exact (isDigit_ne h).1

theorem trim_append (hs : Spaces s) (hs' : Spaces s')
    (hhead : ∃ c rest, t = c :: rest ∧ isSpace c = false)
    (hlast : ∃ rest c, t = rest ++ [c] ∧ isSpace c = false) : trim (s ++ t ++ s') = t := by
  have hfront : (s ++ t ++ s').dropWhile isSpace = t ++ s' := by
    obtain ⟨c, rest, rfl, hc⟩ := hhead
    rw [List.append_assoc]
    exact (skipSpaces_append hs _).trans (List.dropWhile_cons_of_neg (Bool.eq_false_iff.1 hc))
  have hback : (s'.reverse ++ t.reverse).dropWhile isSpace = t.reverse := by
    have hspaces : Spaces s'.reverse := fun c hc => hs' c (List.mem_reverse.1 hc)
    obtain ⟨rest, c, rfl, hc⟩ := hlast
    refine (skipSpaces_append hspaces _).trans ?_
    rw [List.reverse_append]
    exact List.dropWhile_cons_of_neg (Bool.eq_false_iff.1 hc)
  rw [trim, hfront, List.rdropWhile, List.reverse_append, hback, List.reverse_reverse]

theorem Written.trim_append (h : Written e t) (hs : Spaces s) (hs' : Spaces s') :
    trim (s ++ t ++ s') = t := by
  obtain ⟨⟨c, rest, hhead, hc⟩, before, d, hlast, hd⟩ := h.ends
  exact PointerScan.trim_append hs hs'
    ⟨c, rest, hhead, isSpace_of_bracket (hc.imp_left .inl)⟩
    ⟨before, d, hlast, isSpace_of_bracket (hd.imp_left .inr)⟩

theorem exists_trim (text : Text) : ∃ s s', Spaces s ∧ Spaces s' ∧ text = s ++ trim text ++ s' := by
  obtain ⟨s, hs, htext⟩ := exists_skipSpaces text
  refine ⟨s, (skipSpaces text).rtakeWhile isSpace, hs, ?_, ?_⟩
  · intro c hc
    rw [List.rtakeWhile, List.mem_reverse] at hc
    exact List.mem_takeWhile_imp hc
  · rw [trim, List.append_assoc, ← skipSpaces]
    exact htext.trans (congrArg (s ++ ·) (List.rdropWhile_append_rtakeWhile ..).symm)

theorem writtenAs_trim : WrittenAs e (trim text) ↔ WrittenAs e text := by
  have hnil : Spaces [] := nofun
  constructor
  · rintro ⟨s, t, s', htrim, hs, ht, hs'⟩
    obtain ⟨s₁, s₂, hs₁, hs₂, htext⟩ := exists_trim text
    refine ⟨s₁ ++ s, t, s' ++ s₂, ?_, ?_, ht, ?_⟩
    · rw [htext, htrim]
      simp
    · exact fun c hc => (List.mem_append.1 hc).elim (hs₁ c) (hs c)
    · exact fun c hc => (List.mem_append.1 hc).elim (hs' c) (hs₂ c)
  · rintro ⟨s, t, s', rfl, hs, ht, hs'⟩
    rw [ht.trim_append hs hs']
    exact ⟨[], t, [], (List.append_nil _).symm, hnil, ht, hnil⟩

theorem parse_trim_iff : parse (trim text) = some path ↔ ∃ e, WrittenAs e text ∧ e.path = path := by
  rw [parse_iff]
  simp only [writtenAs_trim]

theorem Written.not_isChain (h : Written e t) : ¬isChain t := by
  have hnil : Spaces [] := nofun
  have htrim : trim t = t := by
    have happend := h.trim_append hnil hnil
    rwa [List.nil_append, List.append_nil] at happend
  obtain ⟨⟨c, rest, rfl, hc⟩, -⟩ := h.ends
  rintro ⟨behind, hstarts⟩
  rw [htrim] at hstarts
  obtain rfl : 'm' = c := (List.cons.inj hstarts).1
  exact absurd hc (by decide)

theorem parsePath_written (h : Written e t) : parsePath t = some e.path := by
  have hnil : Spaces [] := nofun
  rw [parsePath, if_neg h.not_isChain]
  exact parse_trim_iff.2 ⟨e, ⟨[], t, [], (List.append_nil _).symm, hnil, h, hnil⟩, rfl⟩

/-! The bracket printer. -/

theorem digits_offset (v : Address) : Digits (upperHex v.toNat) v := by
  have hv : v.toNat < 16 ^ 8 := v.isLt
  refine ⟨upperHex_ne_nil _, length_upperHex_le (by decide) hv, digits_upperHex _, ?_⟩
  rw [value_upperHex, BitVec.ofNat_toNat, BitVec.setWidth_eq]

theorem digits_base (v : Address) : Digits (upperHex8 v.toNat) v := by
  have hlength := length_upperHex8 v.isLt
  refine ⟨?_, hlength.le, digits_upperHex8 _, ?_⟩
  · exact List.length_pos_iff.1 (by omega)
  · rw [value_upperHex8, BitVec.ofNat_toNat, BitVec.setWidth_eq]

theorem formatPath_written (offsets : List Address) {base : Address} {before : List Address}
    (h : Written e t) (hpath : e.path = ⟨base, before⟩) :
    ∃ e', Written e' (offsets.foldl (fun text offset =>
        let text := '[' :: text ++ [']']
        if offset ≠ 0 then text ++ '+' :: upperHex offset.toNat else text) t) ∧
      e'.path = ⟨base, before ++ offsets⟩ := by
  have hnil : Spaces [] := nofun
  induction offsets generalizing e t before with
  | nil => exact ⟨e, h, by rw [hpath, List.append_nil]⟩
  | cons offset offsets ih =>
    have hread : Written (.read e) ('[' :: t ++ [']']) := by
      have hwritten := h.read hnil hnil
      rwa [List.nil_append, List.append_nil] at hwritten
    have hpath' : (Expr.read e).path = ⟨base, before ++ [0]⟩ := by rw [Expr.path, hpath]
    have hsplit : before ++ offset :: offsets = (before ++ [offset]) ++ offsets := by simp
    rw [List.foldl_cons, hsplit]
    by_cases hoffset : offset = 0
    · subst hoffset
      exact ih hread hpath'
    · dsimp only
      rw [if_pos hoffset]
      have hadd : Written (.add (.read e) false offset)
          ('[' :: t ++ [']'] ++ '+' :: upperHex offset.toNat) := by
        have hwritten := hread.add false hnil hnil ⟨[], _, .inl rfl, rfl, digits_offset offset⟩
        rwa [List.append_nil, List.nil_append] at hwritten
      apply ih hadd
      rw [Expr.path, hpath']
      simp [Path.add]

theorem parsePath_formatPath (p : Path) : parsePath (formatPath p) = some p := by
  have hbase : Written (.value p.base) (upperHex8 p.base.toNat) :=
    .value ⟨[], _, .inl rfl, rfl, digits_base p.base⟩
  obtain ⟨e, hwritten, hpath⟩ := formatPath_written p.offsets hbase rfl
  rw [formatPath, parsePath_written hwritten, hpath]
  rfl

/-! The Lua printer. -/

/-- What `FormatLua` writes of an offset, behind the comma. -/
def luaOffset (offset : Address) : Text :=
  if offset ≠ 0 then " 0x".toList ++ upperHex offset.toNat else " 0".toList

theorem comma_not_mem {digits : Text} (h : ∀ c ∈ digits, isDigit c = true) : ',' ∉ digits :=
  fun hc => absurd (h _ hc) (by decide)

theorem comma_not_mem_luaOffset (offset : Address) : ',' ∉ luaOffset offset := by
  rw [luaOffset]
  split
  · intro hc
    rcases List.mem_append.1 hc with hc | hc
    · exact absurd hc (by decide)
    · exact comma_not_mem (digits_upperHex _) hc
  · decide

theorem splitString_items {first : Text} (hfirst : ',' ∉ first) (hne : first ≠ [])
    (offsets : List Address) :
    splitString ',' (first ++ offsets.flatMap fun offset => ',' :: luaOffset offset) =
      first :: offsets.map luaOffset := by
  induction offsets generalizing first with
  | nil => rw [List.flatMap_nil, List.append_nil, splitString_last hfirst hne, List.map_nil]
  | cons offset offsets ih =>
    have hne' : luaOffset offset ≠ [] := by
      rw [luaOffset]
      split
      · exact List.cons_ne_nil _ _
      · exact List.cons_ne_nil _ _
    rw [List.flatMap_cons, List.cons_append, splitString_line hfirst,
      ih (comma_not_mem_luaOffset offset) hne', List.map_cons]

theorem parseNumber_hex {digits : Text} (hs : Spaces s) (h : Digits digits v) :
    parseNumber (s ++ ("0x".toList ++ digits)) = some v := by
  have hspaces : s.filter (fun c => !isSpace c) = [] :=
    List.filter_eq_nil_iff.2 fun c hc => by rw [hs c hc]; exact Bool.false_ne_true
  have hdigits : digits.filter (fun c => !isSpace c) = digits :=
    List.filter_eq_self.2 fun c hc => by rw [(isDigit_ne (h.isDigit c hc)).1]; rfl
  have hfilter : (s ++ ("0x".toList ++ digits)).filter (fun c => !isSpace c) =
      "0x".toList ++ digits := by
    rw [List.filter_append, List.filter_append, hspaces, hdigits]
    rfl
  have htake : ("0x".toList ++ digits).take 2 = "0x".toList := rfl
  have hdrop : ("0x".toList ++ digits).drop 2 = digits := rfl
  have hall : digits.all isDigit = true := List.all_eq_true.2 h.isDigit
  have hle : ¬8 < digits.length := Nat.not_lt.2 h.length_le
  simp only [parseNumber, hfilter, htake, hdrop, true_or, if_true, gt_iff_lt]
  simp only [h.ne_nil, hle, hall, not_true, or_self, if_false, h.value]

theorem parseNumber_luaOffset (offset : Address) : parseNumber (luaOffset offset) = some offset := by
  have hspace : Spaces [' '] := List.forall_mem_singleton.2 (by decide)
  rw [luaOffset]
  split
  · exact parseNumber_hex hspace (digits_offset offset)
  · rename_i hzero
    rw [not_not.1 hzero]
    decide

theorem foldl_luaOffset (offsets : List Address) (t : Text) :
    offsets.foldl (fun text offset =>
      text ++ (if offset ≠ 0 then ", 0x".toList ++ upperHex offset.toNat else ", 0".toList)) t =
      t ++ offsets.flatMap fun offset => ',' :: luaOffset offset := by
  induction offsets generalizing t with
  | nil => simp
  | cons offset offsets ih =>
    rw [List.foldl_cons, ih, List.flatMap_cons, ← List.append_assoc, luaOffset]
    congr 2
    split <;> rfl

theorem mapM_eq_some {α β : Type} {f : α → Option β} {g : β → α} (h : ∀ b, f (g b) = some b)
    (l : List β) : (l.map g).mapM f = some l := by
  induction l with
  | nil => rfl
  | cons b l ih => simp [List.mapM_cons, h b, ih]

theorem parsePath_formatLua (p : Path) : parsePath (formatLua p) = some p := by
  obtain ⟨base, offsets⟩ := p
  have hbase := digits_base base
  rw [formatLua]
  by_cases hempty : offsets = []
  · subst hempty
    have hwritten : Written (.value base) ("0x".toList ++ upperHex8 base.toNat) :=
      .value ⟨_, _, .inr (.inl rfl), rfl, hbase⟩
    exact parsePath_written hwritten
  · have hisEmpty : offsets.isEmpty = false := by simpa using hempty
    rw [hisEmpty, if_neg Bool.false_ne_true, foldl_luaOffset]
    dsimp only
    generalize hitems : ("0x".toList ++ upperHex8 base.toNat ++
      offsets.flatMap fun offset => ',' :: luaOffset offset) = items
    have htext : chainPrefix ++ "0x".toList ++ upperHex8 base.toNat ++
        (offsets.flatMap fun offset => ',' :: luaOffset offset) ++ [')'] =
        chainPrefix ++ items ++ [')'] := by
      rw [← hitems]
      simp only [List.append_assoc]
    have hnil : Spaces [] := nofun
    have htrim : trim (chainPrefix ++ items ++ [')']) = chainPrefix ++ items ++ [')'] := by
      have happend := trim_append (t := chainPrefix ++ items ++ [')']) hnil hnil
        ⟨'m', _, rfl, by decide⟩ ⟨_, ')', rfl, by decide⟩
      rwa [List.nil_append, List.append_nil] at happend
    have hchain : isChain (chainPrefix ++ items ++ [')']) := by
      rw [isChain, htrim]
      exact ⟨'(' :: (items ++ [')']), rfl⟩
    have hlast : (chainPrefix ++ items ++ [')']).getLast? = some ')' := List.getLast?_concat
    have hitems' : ((chainPrefix ++ items ++ [')']).drop chainPrefix.length).dropLast = items := by
      rw [List.append_assoc, List.drop_left, List.dropLast_concat]
    have hcomma : ',' ∉ "0x".toList ++ upperHex8 base.toNat := by
      intro hc
      rcases List.mem_append.1 hc with hc | hc
      · exact absurd hc (by decide)
      · exact comma_not_mem hbase.isDigit hc
    have hsplit : splitString ',' items =
        ("0x".toList ++ upperHex8 base.toNat) :: offsets.map luaOffset := by
      rw [← hitems, splitString_items hcomma (List.cons_ne_nil _ _)]
    have hfirst : parseNumber ("0x".toList ++ upperHex8 base.toNat) = some base :=
      parseNumber_hex hnil hbase
    have hmap : (splitString ',' items).mapM parseNumber = some (base :: offsets) := by
      rw [hsplit, List.mapM_cons, hfirst, mapM_eq_some parseNumber_luaOffset]
      rfl
    rw [htext, parsePath, if_pos hchain, htrim, parseChain, if_neg (by rw [hlast]; simp)]
    simp only [hitems', hmap]

/-- Both texts of a path are read as that path, and a text of the bracket notation that is read leads
    to where its brackets and terms do, in any memory. -/
theorem pointerPath_texts :
    (∀ p : Path, parsePath (formatPath p) = some p ∧ parsePath (formatLua p) = some p) ∧
      ∀ text path, ¬isChain text → parsePath text = some path →
        (∃ e, WrittenAs e text) ∧ ∀ e, WrittenAs e text → ∀ read isPointer,
          (resolve path read isPointer).address = e.eval read isPointer := by
  refine ⟨fun p => ⟨parsePath_formatPath p, parsePath_formatLua p⟩, ?_⟩
  intro text path hbracket hparse
  rw [parsePath, if_neg hbracket] at hparse
  obtain ⟨e, he, -⟩ := parse_trim_iff.1 hparse
  refine ⟨⟨e, he⟩, ?_⟩
  intro e' he' read isPointer
  have hpath : e'.path = path :=
    Option.some.inj ((parse_trim_iff.2 ⟨e', he', rfl⟩).symm.trans hparse)
  rw [← hpath, resolve_path]

/-- The word at 12, less 12. -/
theorem pointerPath_texts_bracket :
    (resolve ⟨12, [-12]⟩ (fun address => if address = 12 then some 128 else none)
      fun _ => true).address = some 116 := by
  have hnil : Spaces [] := nofun
  have hnumeral : ∀ {digits : Text} {v : Address}, Digits digits v → Numeral digits v :=
    fun h => ⟨[], _, .inl rfl, rfl, h⟩
  have hone : ∀ (c : Char) (v : Address), isDigit c = true →
      v = BitVec.ofNat 32 (valueFrom 0 [c]) → Digits [c] v := fun c _ hdigit hvalue =>
    ⟨List.cons_ne_nil _ _, Nat.le_add_left 1 7, List.forall_mem_singleton.2 hdigit, hvalue⟩
  have height : Digits ['8'] 8 := hone _ _ (by decide) (by decide)
  have hfour : Digits ['4'] 4 := hone _ _ (by decide) (by decide)
  have htwelve : Digits ['C'] 12 := hone _ _ (by decide) (by decide)
  have hsum : Written (.add (.value 8) false 4) "8+4".toList :=
    .add (s := []) (.value (hnumeral height)) false hnil hnil (hnumeral hfour)
  have hread : Written (.read (.add (.value 8) false 4)) "[8+4]".toList :=
    .read (s := []) hsum hnil hnil
  have hwritten : Written (.add (.read (.add (.value 8) false 4)) true 12) "[8+4]-C".toList :=
    .add (s := []) hread true hnil hnil (hnumeral htwelve)
  have hparse : parsePath "[8+4]-C".toList = some ⟨12, [-12]⟩ := parsePath_written hwritten
  have hbracket : ¬isChain "[8+4]-C".toList := hwritten.not_isChain
  exact (pointerPath_texts.2 _ _ hbracket hparse).2 _
    ⟨[], _, [], (List.append_nil _).symm, hnil, hwritten, hnil⟩ _ _

end
end DolphinXR.AgentServer.PointerScan
