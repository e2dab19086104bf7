import Mathlib.Tactic.ByContra
import DolphinXR.VideoCommon.VertexLoaderLayout

/- The texture coordinates of the translation. The loop ends where neither a coordinate nor a matrix
   index follows. An absent coordinate is counted where a present one follows, so that each reader
   finds its own index; the matrix indices are written in the order in which they were read. -/
namespace DolphinXR.VideoCommon.Translator
variable {desc : TVtxDesc} {vat : VAT} (t : Translator) (c : Counters)

/-! ### One coordinate -/

variable (desc vat) in
def texCoordStages (i : Nat) : List Stage :=
  (if desc.texCoord i ≠ .notPresent then
    [VertexLoaderTextCoord.getFunction (desc.texCoord i) (vat.getTexFormat i) (vat.getTexElements i)]
  else []) ++
  if desc.texMatIdx i then
    [.texMtxWrite (if desc.texCoord i ≠ .notPresent then (vat.getTexElements i).pick (1, 0) else 2)]
  else []

variable (desc vat) in
def texCoordFormat (i offset : Nat) : AttributeFormat :=
  if desc.texMatIdx i then ⟨.float, 3, offset, true, false⟩
  else if desc.texCoord i ≠ .notPresent then
    ⟨.float, (vat.getTexElements i).pick (1, 2), offset, true, false⟩
  else ⟨.float, 0, offset, false, false⟩

theorem texCoord_eq (i : Nat) :
    t.texCoord desc vat i =
      { t with
        stages := t.stages ++ texCoordStages desc vat i
        decl := { t.decl with texcoords := t.decl.texcoords ++ [texCoordFormat desc vat i t.natOffset] }
        natOffset := t.natOffset + (texCoordFormat desc vat i t.natOffset).bytes } := by
  unfold texCoord texCoordStages texCoordFormat
  by_cases hpresent : desc.texCoord i ≠ .notPresent <;> by_cases hmtx : desc.texMatIdx i = true
  · simp [hpresent, hmtx, writeCall, AttributeFormat.bytes, getElementSize]
  · simp [hpresent, hmtx, writeCall, AttributeFormat.bytes, getElementSize, Nat.mul_comm]
  · simp [hpresent, hmtx, writeCall, AttributeFormat.bytes, getElementSize]
  · simp [hpresent, hmtx, AttributeFormat.bytes]

theorem texMtxRank_succ (i : Nat) :
    texMtxRank desc (i + 1) = texMtxRank desc i + (desc.texMatIdx i).toNat := by
  rw [texMtxRank, List.range_succ, List.countP_append, List.countP_singleton]
  cases desc.texMatIdx i <;> rfl

theorem texCoord_advance (i : Nat) :
    Pipeline.advance c (texCoordStages desc vat i) =
      { c with
        tcIndex := c.tcIndex + if desc.texCoord i ≠ .notPresent then 1 else 0
        texmtxwrite := c.texmtxwrite + (desc.texMatIdx i).toNat } := by
  unfold texCoordStages
  rw [Pipeline.advance_append]
  by_cases hpresent : desc.texCoord i ≠ .notPresent
  · obtain ⟨-, -, hadvance⟩ := texCoord_reads hpresent (vat.getTexFormat i) (vat.getTexElements i)
    simp only [if_pos hpresent, Pipeline.advance, List.foldl_cons, List.foldl_nil, hadvance]
    cases desc.texMatIdx i <;> rfl
  · simp only [if_neg hpresent]
    cases desc.texMatIdx i <;> rfl

variable (desc vat) in
theorem texCoord_slots (i : Nat) (hindex : desc.texCoord i ≠ .notPresent → c.tcIndex = i)
    (hrank : c.texmtxwrite = texMtxRank desc i) :
    Pipeline.slots c (texCoordStages desc vat i) = slotsOf desc vat (.texcoord i) := by
  unfold texCoordStages slotsOf
  rw [Pipeline.slots_append]
  by_cases hpresent : desc.texCoord i ≠ .notPresent
  · obtain ⟨-, hslots, hadvance⟩ :=
      texCoord_reads hpresent (vat.getTexFormat i) (vat.getTexElements i)
    simp only [if_pos hpresent, Pipeline.slots, hslots, hindex hpresent, Pipeline.advance,
      List.foldl_cons, List.foldl_nil, hadvance, List.append_nil]
    cases desc.texMatIdx i with
    | false => simp [Pipeline.slots]
    | true => cases vat.getTexElements i <;> simp [Pipeline.slots, Stage.slots, hrank,
        TexComponentCount.pick]
  · simp only [if_neg hpresent, Pipeline.slots, Pipeline.advance, List.foldl_nil, List.nil_append]
    cases desc.texMatIdx i with
    | false => rfl
    | true => simp [Pipeline.slots, Stage.slots, hrank]

variable (desc vat) in
theorem texCoord_bytes (i offset : Nat) :
    (texCoordFormat desc vat i offset).bytes = 4 * (slotsOf desc vat (.texcoord i)).length := by
  unfold texCoordFormat slotsOf
  by_cases hpresent : desc.texCoord i ≠ .notPresent <;> by_cases hmtx : desc.texMatIdx i = true
  · cases helements : vat.getTexElements i <;>
      simp [hpresent, hmtx, AttributeFormat.bytes, getElementSize, TexComponentCount.pick, helements]
  · simp [hpresent, hmtx, AttributeFormat.bytes, getElementSize, Nat.mul_comm]
  · simp [hpresent, hmtx, AttributeFormat.bytes, getElementSize]
  · simp [hpresent, hmtx, AttributeFormat.bytes]

variable (desc vat) in
theorem texCoord_part (i : Nat) (hindex : desc.texCoord i ≠ .notPresent → c.tcIndex = i)
    (hrank : c.texmtxwrite = texMtxRank desc i) :
    Part desc vat t (t.texCoord desc vat i) (texCoordStages desc vat i) c
      (Pipeline.advance c (texCoordStages desc vat i))
      (enabled [(.texcoord i, texCoordFormat desc vat i t.natOffset)]) := by
  have hslots := texCoord_slots desc vat c i hindex hrank
  have hbytes := texCoord_bytes desc vat i t.natOffset
  rw [texCoord_eq]
  by_cases henable : (texCoordFormat desc vat i t.natOffset).enable = true
  · have hone : enabled [(.texcoord i, texCoordFormat desc vat i t.natOffset)] =
        [(.texcoord i, texCoordFormat desc vat i t.natOffset)] := by simp [enabled, henable]
    have hoffset : (texCoordFormat desc vat i t.natOffset).offset = t.natOffset := by
      unfold texCoordFormat
      split
      · rfl
      · split <;> rfl
    rw [hone]
    exact ⟨rfl, by simpa using hslots, rfl, hoffset, hbytes, rfl⟩
  · -- neither a coordinate nor a matrix index
    have hnone : enabled [(.texcoord i, texCoordFormat desc vat i t.natOffset)] = [] := by
      simp [enabled, henable]
    have hempty : slotsOf desc vat (.texcoord i) = [] := by
      unfold texCoordFormat at henable
      unfold slotsOf
      by_cases hpresent : desc.texCoord i ≠ .notPresent <;> by_cases hmtx : desc.texMatIdx i = true <;>
        simp_all
    rw [hnone]
    rw [hempty] at hslots hbytes
    exact ⟨rfl, hslots, rfl, by simp [Tiles, hbytes]⟩

theorem texCoordStages_plain (i : Nat) : ∀ stage ∈ texCoordStages desc vat i, stage.Plain := by
  unfold texCoordStages
  intro stage hstage
  obtain hstage | hstage := List.mem_append.1 hstage
  · by_cases hpresent : desc.texCoord i ≠ .notPresent
    · rw [if_pos hpresent] at hstage
      exact List.mem_singleton.1 hstage ▸ texCoord_plain hpresent _ _
    · rw [if_neg hpresent] at hstage
      exact absurd hstage List.not_mem_nil
  · split at hstage
    · exact List.mem_singleton.1 hstage ▸ trivial
    · exact absurd hstage List.not_mem_nil

variable (desc vat) in
def texCoordSize (i : Nat) : Nat :=
  VertexLoaderTextCoord.getSize (desc.texCoord i) (vat.getTexFormat i) (vat.getTexElements i)

theorem texCoordStages_size (i : Nat) :
    Pipeline.size (texCoordStages desc vat i) = texCoordSize desc vat i := by
  unfold texCoordStages texCoordSize
  rw [Pipeline.size_append]
  have hmtx : Pipeline.size (if desc.texMatIdx i then
      [.texMtxWrite (if desc.texCoord i ≠ .notPresent then (vat.getTexElements i).pick (1, 0) else 2)]
      else []) = 0 := by
    split <;> rfl
  rw [hmtx, Nat.add_zero]
  by_cases hpresent : desc.texCoord i ≠ .notPresent
  · rw [if_pos hpresent, ← (texCoord_reads hpresent _ _).size]
    simp [Pipeline.size]
  · rw [if_neg hpresent, not_not.1 hpresent]
    rfl

/-! ### All coordinates -/

theorem hasMore_fst (n : Nat) : ∀ j, (hasMore desc n j).1 = true ↔
    ∃ k, j ≤ k ∧ k < j + n ∧ (desc.texCoord k ≠ .notPresent ∨ desc.texMatIdx k = true) := by
  induction n with
  | zero =>
    intro j
    refine iff_of_false (by simp [hasMore]) ?_
    rintro ⟨k, h, h', -⟩
    omega
  | succ n ih =>
    intro j
    unfold hasMore
    by_cases hpresent : desc.texCoord j ≠ .notPresent
    · rw [if_pos hpresent]
      exact iff_of_true rfl ⟨j, Nat.le_refl j, by omega, .inl hpresent⟩
    · rw [if_neg hpresent, Bool.or_eq_true, ih]
      constructor
      · rintro (⟨k, h, h', hk⟩ | hmtx)
        · exact ⟨k, by omega, by omega, hk⟩
        · exact ⟨j, Nat.le_refl j, by omega, .inr hmtx⟩
      · rintro ⟨k, h, h', hk⟩
        obtain rfl | hlt := Nat.eq_or_lt_of_le h
        · exact .inr (hk.resolve_left hpresent)
        · exact .inl ⟨k, hlt, by omega, hk⟩

theorem hasMore_snd (n : Nat) : ∀ j, (hasMore desc n j).2 = true ↔
    ∃ k, j ≤ k ∧ k < j + n ∧ desc.texCoord k ≠ .notPresent := by
  induction n with
  | zero =>
    intro j
    simp only [hasMore]
    refine iff_of_false (by decide) ?_
    rintro ⟨k, h, h', -⟩
    omega
  | succ n ih =>
    intro j
    unfold hasMore
    by_cases hpresent : desc.texCoord j ≠ .notPresent
    · rw [if_pos hpresent]
      exact iff_of_true rfl ⟨j, Nat.le_refl j, by omega, hpresent⟩
    · rw [if_neg hpresent]
      simp only [ih]
      constructor
      · rintro ⟨k, h, h', hk⟩
        exact ⟨k, by omega, by omega, hk⟩
      · rintro ⟨k, h, h', hk⟩
        refine ⟨k, Nat.lt_of_le_of_ne h ?_, by omega, hk⟩
        rintro rfl
        exact hpresent hk

/-- The counter of coordinates is at the next one, or none is present any more. -/
structure InStep (desc : TVtxDesc) (c : Counters) (i : Nat) : Prop where
  tcIndex : c.tcIndex = i ∨ ∀ j, i ≤ j → j < 8 → desc.texCoord j = .notPresent
  texmtxwrite : c.texmtxwrite = texMtxRank desc i

theorem texCoordSize_of_notPresent {i : Nat} (h : desc.texCoord i = .notPresent) :
    texCoordSize desc vat i = 0 := by
  rw [texCoordSize, h]
  rfl

/-- What is to be shown of the loop, from the `i`-th coordinate on. -/
def Agrees (desc : TVtxDesc) (vat : VAT) (t t' : Translator) (c : Counters) (i n : Nat) : Prop :=
  ∃ new as c', Part desc vat t t' new c c' (enabled (named .texcoord i as)) ∧
    t'.decl = { t.decl with texcoords := t.decl.texcoords ++ as } ∧
    (∀ stage ∈ new, stage.Plain) ∧
    Pipeline.size new = ((List.range' i n).map (texCoordSize desc vat)).sum ∧ new.length ≤ 2 * n

theorem Agrees.cons {t t' : Translator} {c : Counters} {i n : Nat} (hstep : InStep desc c i) (hi : i < 8)
    (extra : List Stage)
    (hextra : extra = [] ∨ extra = [.texCoordReadDummy] ∧ desc.texCoord i = .notPresent)
    (h : Agrees desc vat { t.texCoord desc vat i with stages := (t.texCoord desc vat i).stages ++ extra }
      t' (Pipeline.advance c (texCoordStages desc vat i ++ extra)) (i + 1) n) :
    Agrees desc vat t t' c i (n + 1) := by
  obtain ⟨new, as, c', hpart, hdecl, hplain, hsize, hlength⟩ := h
  have hindex : desc.texCoord i ≠ .notPresent → c.tcIndex = i := fun hpresent =>
    hstep.tcIndex.resolve_right fun hnone => hpresent (hnone i (Nat.le_refl i) hi)
  have hone := texCoord_part desc vat t c i hindex hstep.texmtxwrite
  have hextra' := hextra
  have hextra : Pipeline.size extra = 0 ∧ (∀ c, Pipeline.slots c extra = []) ∧
      ∀ stage ∈ extra, stage.Plain := by
    obtain rfl | ⟨rfl, -⟩ := hextra
    · exact ⟨rfl, fun _ => rfl, fun _ h => absurd h List.not_mem_nil⟩
    · exact ⟨rfl, fun _ => rfl, fun _ h => List.mem_singleton.1 h ▸ trivial⟩
  have hfirst : Part desc vat t
      { t.texCoord desc vat i with stages := (t.texCoord desc vat i).stages ++ extra }
      (texCoordStages desc vat i ++ extra) c
      (Pipeline.advance c (texCoordStages desc vat i ++ extra))
      (enabled [(.texcoord i, texCoordFormat desc vat i t.natOffset)]) := by
    refine ⟨?_, ?_, rfl, hone.tiles⟩
    · simp only [hone.stages, List.append_assoc]
    · rw [Pipeline.slots_append, hone.slots, hextra.2.1, List.append_nil]
  have hfew : (texCoordStages desc vat i ++ extra).length ≤ 2 := by
    unfold texCoordStages
    obtain rfl | ⟨rfl, habsent⟩ := hextra'
    · by_cases hpresent : desc.texCoord i ≠ .notPresent <;> cases desc.texMatIdx i <;> simp [hpresent]
    · cases desc.texMatIdx i <;> simp [habsent]
  refine ⟨texCoordStages desc vat i ++ extra ++ new, texCoordFormat desc vat i t.natOffset :: as, c',
    ?_, ?_, ?_, ?_, ?_⟩
  · have hboth := hfirst.trans hpart
    rwa [enabled, enabled, ← List.filter_append] at hboth
  · rw [hdecl, texCoord_eq]
    simp
  · intro stage hstage
    obtain hstage | hstage := List.mem_append.1 hstage
    · obtain hstage | hstage := List.mem_append.1 hstage
      · exact texCoordStages_plain i stage hstage
      · exact hextra.2.2 stage hstage
    · exact hplain stage hstage
  · rw [Pipeline.size_append, Pipeline.size_append, texCoordStages_size, hextra.1, hsize,
      List.range'_succ, List.map_cons, List.sum_cons, Nat.add_zero]
  · rw [List.length_append]
    omega

theorem Agrees.nil (t : Translator) (c : Counters) (i : Nat) {n : Nat}
    (h : ∀ j, i ≤ j → j < i + n → desc.texCoord j = .notPresent) :
    Agrees desc vat t t c i n := by
  refine ⟨[], [], c, ⟨(List.append_nil _).symm, rfl, rfl, rfl⟩, by simp,
    fun _ h => absurd h List.not_mem_nil, ?_, Nat.zero_le _⟩
  have hzero : ∀ (l : List Nat), (∀ j ∈ l, desc.texCoord j = .notPresent) →
      (l.map (texCoordSize desc vat)).sum = 0 := by
    intro l hl
    induction l with
    | nil => rfl
    | cons j l ih =>
      rw [List.map_cons, List.sum_cons, texCoordSize_of_notPresent (hl j List.mem_cons_self),
        ih fun k hk => hl k (List.mem_cons_of_mem _ hk)]
  refine (hzero _ fun j hj => ?_).symm
  obtain ⟨hle, hlt⟩ := List.mem_range'_1.1 hj
  exact h j hle hlt

variable (desc vat) in
theorem texCoords_agrees (n : Nat) : ∀ (i : Nat) (t : Translator) (c : Counters), i + n = 8 →
    InStep desc c i → Agrees desc vat t (texCoords desc vat n i t) c i n := by
  induction n with
  | zero => exact fun i t c _ _ => .nil t c i fun j hle hlt => by omega
  | succ n ih =>
    intro i t c hi hstep
    have hrank : (Pipeline.advance c (texCoordStages desc vat i)).texmtxwrite =
        texMtxRank desc (i + 1) := by
      rw [texCoord_advance, texMtxRank_succ, hstep.texmtxwrite]
    unfold texCoords
    by_cases hpresent : desc.texCoord i ≠ .notPresent
    · have hindex : c.tcIndex = i :=
        hstep.tcIndex.resolve_right fun hnone => hpresent (hnone i (Nat.le_refl i) (by omega))
      simp only [if_pos hpresent]
      refine .cons hstep (by omega) [] (.inl rfl) ?_
      simp only [List.append_nil]
      exact ih (i + 1) _ _ (by omega)
        ⟨.inl (by rw [texCoord_advance, if_pos hpresent, hindex]), hrank⟩
    · simp only [if_neg hpresent]
      have habsent : (Pipeline.advance c (texCoordStages desc vat i)).tcIndex = c.tcIndex := by
        rw [texCoord_advance, if_neg hpresent, Nat.add_zero]
      by_cases hmore : (hasMore desc n (i + 1)).1 = true
      · simp only [hmore, if_true]
        by_cases hdummy : (hasMore desc n (i + 1)).2 = true
        · -- one of the next coordinates is present, so that the counter is at this one
          obtain ⟨k, hk, hk', hkpresent⟩ := (hasMore_snd n (i + 1)).1 hdummy
          have hindex : c.tcIndex = i :=
            hstep.tcIndex.resolve_right fun hnone => hkpresent (hnone k (by omega) (by omega))
          simp only [hdummy, if_true]
          refine .cons hstep (by omega) [.texCoordReadDummy] (.inr ⟨rfl, not_not.1 hpresent⟩) ?_
          refine ih (i + 1) _ _ (by omega) ⟨.inl ?_, ?_⟩
          · rw [Pipeline.advance_append]
            change (Pipeline.advance c (texCoordStages desc vat i)).tcIndex + 1 = i + 1
            rw [habsent, hindex]
          · rw [Pipeline.advance_append]
            exact hrank
        · simp only [if_neg hdummy]
          refine .cons hstep (by omega) [] (.inl rfl) ?_
          simp only [List.append_nil]
          refine ih (i + 1) _ _ (by omega) ⟨.inr fun j hle hlt => ?_, hrank⟩
          by_contra hj
          exact hdummy ((hasMore_snd n (i + 1)).2 ⟨j, hle, by omega, hj⟩)
      · -- the loop ends
        have hnone : ∀ j, i + 1 ≤ j → j < i + 1 + n → desc.texCoord j = .notPresent :=
          fun j hle hlt => by
            by_contra hj
            exact hmore ((hasMore_fst n (i + 1)).2 ⟨j, hle, hlt, .inl hj⟩)
        have hdummy : ¬(hasMore desc n (i + 1)).2 = true := fun hdummy => by
          obtain ⟨k, hk, hk', hkpresent⟩ := (hasMore_snd n (i + 1)).1 hdummy
          exact hkpresent (hnone k hk hk')
        simp only [if_neg hmore, if_neg hdummy]
        refine .cons hstep (by omega) [] (.inl rfl) ?_
        simp only [List.append_nil]
        exact .nil _ _ _ hnone

end DolphinXR.VideoCommon.Translator
