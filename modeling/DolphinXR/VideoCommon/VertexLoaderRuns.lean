import DolphinXR.VideoCommon.VertexLoaderTexCoords

/- Runs of the vertex loader. A pipeline is the stages in front of the position, the position, the
   stages after it and, for an indexed position, the one that takes a skipped vertex back. So each
   vertex takes its size from the source and adds the stride to the destination, unless its index
   is all ones, and the vertices that are kept lie one behind the other. -/
namespace DolphinXR.VideoCommon

def matIdxBytes (desc : TVtxDesc) : Nat :=
  desc.posMatIdx.toNat + ((List.range 8).map fun i => (desc.texMatIdx i).toNat).sum

/-- The vertex at an offset of the source has the index of all ones. -/
def hasSkipIndex (source : VertexSource) (desc : TVtxDesc) (offset : Nat) : Bool :=
  match desc.position with
  | .index8 => decide (dataPeek source.src (offset + matIdxBytes desc) 1 = 0xFF)
  | .index16 => decide (dataPeek source.src (offset + matIdxBytes desc) 2 = 0xFFFF)
  | _ => false

def declaredSlots (desc : TVtxDesc) (vat : VAT) (d : PortableVertexDeclaration) : List Slot :=
  d.attributes.flatMap fun a => slotsOf desc vat a.1

/-! ### The pipeline as a whole -/

namespace Translator
variable {desc : TVtxDesc} {vat : VAT}

theorem posMatIdxStages_plain : ∀ stage ∈ posMatIdxStages desc, stage.Plain := by
  unfold posMatIdxStages
  intro stage hstage
  split at hstage
  · exact List.mem_singleton.1 hstage ▸ trivial
  · exact absurd hstage List.not_mem_nil

theorem texMatIdxStages_plain : ∀ stage ∈ texMatIdxStages desc, stage.Plain := by
  intro stage hstage
  obtain ⟨-, -, rfl⟩ := List.mem_map.1 hstage
  trivial

theorem matIdxStages_size :
    Pipeline.size (posMatIdxStages desc ++ texMatIdxStages desc) = matIdxBytes desc := by
  have hpos : Pipeline.size (posMatIdxStages desc) = desc.posMatIdx.toNat := by
    unfold posMatIdxStages
    cases desc.posMatIdx <;> rfl
  have htex : ∀ l : List Nat, Pipeline.size ((l.filter desc.texMatIdx).map fun _ =>
      Stage.texMtxReadDirectUByte) = (l.map fun i => (desc.texMatIdx i).toNat).sum := by
    intro l
    induction l with
    | nil => rfl
    | cons i l ih =>
      rw [List.map_cons, List.sum_cons, ← ih]
      cases h : desc.texMatIdx i <;> simp [h, Pipeline.size, Stage.size]
  rw [Pipeline.size_append, hpos, texMatIdxStages, htex, matIdxBytes]

theorem normalStages_plain : ∀ stage ∈ normalStages desc vat, stage.Plain := by
  unfold normalStages
  intro stage hstage
  split at hstage
  · rename_i h
    exact List.mem_singleton.1 hstage ▸ normal_plain h _ _ _
  · exact absurd hstage List.not_mem_nil

theorem normalStages_size :
    Pipeline.size (normalStages desc vat) =
      VertexLoaderNormal.getSize desc.normal vat.normalFormat vat.normalElements vat.normalIndex3 := by
  unfold normalStages
  by_cases h : desc.normal ≠ .notPresent
  · rw [if_pos h, ← (normal_reads h _ _ _).size]
    simp [Pipeline.size]
  · rw [if_neg h, not_not.1 h]
    rfl

end Translator

/-- A pipeline, with the position between what comes before it and what comes after it. -/
structure Layout (desc : TVtxDesc) (vat : VAT) (t : Translator) (before after : List Stage) : Prop where
  stages : t.stages = before ++ [Translator.positionStage desc vat] ++ after
    ++ if isIndexed desc.position then [.skipVertex] else []
  before_plain : ∀ stage ∈ before, stage.Plain
  after_plain : ∀ stage ∈ after, stage.Plain
  before_size : Pipeline.size before = matIdxBytes desc
  size : Pipeline.size (before ++ [Translator.positionStage desc vat] ++ after) =
    getVertexSize desc vat
  slots : Pipeline.slots {} (before ++ [Translator.positionStage desc vat] ++ after) =
    declaredSlots desc vat t.decl
  tiles : Tiles desc vat 0 t.decl.attributes t.decl.stride
  few : t.stages.length ≤ 30

section Compile
open Translator
variable {desc : TVtxDesc} {vat : VAT}

theorem compile_layout (hposition : desc.position ≠ .notPresent)
    (hcolor : ∀ i < 2, desc.color i ≠ .notPresent → (vat.getColorFormat i).isValid = true) :
    ∃ before after, Layout desc vat (compileVertexTranslator desc vat) before after := by
  have hvalid0 := hcolor 0 (by decide)
  have hvalid1 := hcolor 1 (by decide)
  simp only [compileVertexTranslator, colors]
  -- the parts, each from where the one before it has ended
  obtain ⟨hp1, hd1⟩ := posMatIdx_part desc vat {} {} rfl
  generalize posMatIdx {} desc = t1 at *
  have hp2 := texMatIdx_part desc vat t1 {}
  have hd2 : (t1.texMatIdx desc).decl = t1.decl := by rw [texMatIdx_eq]
  generalize t1.texMatIdx desc = t2 at *
  obtain ⟨hp3, hd3⟩ := position_part desc vat t2 {} hposition
  generalize t2.position desc vat = t3 at *
  obtain ⟨hp4, hd4⟩ := normal_part desc vat t3 {} (by rw [hd3, hd2, hd1])
  generalize t3.normal desc vat = t4 at *
  have hp5 := color_part t4 {} hvalid0 fun _ => rfl
  have hd5 := congrArg Translator.decl (color_eq t4 hvalid0)
  generalize t4.color desc vat 0 = t5 at *
  have hp6 := color_part t5 (Pipeline.advance {} (colorStages desc vat 0)) hvalid1
    fun hpresent => color_counters {} hvalid0 hpresent
  have hd6 := congrArg Translator.decl (color_eq t5 hvalid1)
  generalize t5.color desc vat 1 = t6 at *
  have hcounters0 := colorStages_advance {} 0 hvalid0
  have hcounters1 := colorStages_advance
    (Pipeline.advance {} (colorStages desc vat 0)) 1 hvalid1
  obtain ⟨new, as, c, hp7, hd7, hplain, hsize, hfew⟩ := texCoords_agrees desc vat 8 0 t6
    (Pipeline.advance (Pipeline.advance {} (colorStages desc vat 0)) (colorStages desc vat 1)) rfl
    ⟨.inl (hcounters1.1.trans hcounters0.1), hcounters1.2.trans hcounters0.2⟩
  generalize texCoords desc vat 8 0 t6 = t7 at *
  have hall := (((((hp1.trans hp2).trans hp3).trans hp4).trans hp5).trans hp6).trans hp7
  have hattributes : (t7.finish desc).decl.attributes =
      enabled [(.posmtx, t1.decl.posmtx)] ++ [] ++ enabled [(.position, t3.decl.position)]
        ++ enabled (named .normal 0 t4.decl.normals)
        ++ enabled (named .color 0 (colorFormats desc 0 t4.natOffset))
        ++ enabled (named .color 1 (colorFormats desc 1 t5.natOffset))
        ++ enabled (named .texcoord 0 as) := by
    have hdecl : (t7.finish desc).decl = { t7.decl with stride := t7.natOffset } := by
      unfold finish
      split <;> rfl
    have hposmtx : t7.decl.posmtx = t1.decl.posmtx := by rw [hd7, hd6, hd5, hd4, hd3, hd2]
    have hposition' : t7.decl.position = t3.decl.position := by rw [hd7, hd6, hd5, hd4]
    have hnormals : t7.decl.normals = t4.decl.normals := by rw [hd7, hd6, hd5]
    have hcolors : t7.decl.colors =
        colorFormats desc 0 t4.natOffset ++ colorFormats desc 1 t5.natOffset := by
      have h4 : t4.decl.colors = [] := by rw [hd4, hd3, hd2, hd1]
      rw [hd7, hd6, hd5, h4, List.nil_append]
    have htexcoords : t7.decl.texcoords = as := by
      have h6 : t6.decl.texcoords = [] := by rw [hd6, hd5, hd4, hd3, hd2, hd1]
      rw [hd7, h6, List.nil_append]
    have hlength : (colorFormats desc 0 t4.natOffset).length = 1 := by
      unfold colorFormats
      split <;> rfl
    rw [hdecl, PortableVertexDeclaration.attributes, hposmtx, hposition', hnormals, hcolors, htexcoords,
      named_append, hlength]
    simp only [enabled, List.filter_append, List.append_assoc, List.append_nil]
  have hfinish : (t7.finish desc).stages =
      t7.stages ++ if isIndexed desc.position then [.skipVertex] else [] := by
    unfold finish
    split
    · rfl
    · exact (List.append_nil _).symm
  refine ⟨posMatIdxStages desc ++ texMatIdxStages desc,
    normalStages desc vat ++ colorStages desc vat 0 ++ colorStages desc vat 1 ++ new, ?_, ?_, ?_, ?_, ?_,
    ?_, ?_, ?_⟩
  · rw [hfinish, hall.stages]
    simp only [List.append_assoc, List.nil_append]
  · intro stage hstage
    obtain hstage | hstage := List.mem_append.1 hstage
    · exact posMatIdxStages_plain stage hstage
    · exact texMatIdxStages_plain stage hstage
  · simp only [List.mem_append]
    rintro stage (((hstage | hstage) | hstage) | hstage)
    · exact normalStages_plain stage hstage
    · exact colorStages_plain 0 hvalid0 stage hstage
    · exact colorStages_plain 1 hvalid1 stage hstage
    · exact hplain stage hstage
  · exact matIdxStages_size
  · have hpos : Pipeline.size [positionStage desc vat] =
        VertexLoaderPosition.getSize desc.position vat.posFormat vat.posElements := by
      rw [← (position_reads hposition _ _).size]
      simp [Pipeline.size, positionStage]
    have hmtx := popcount_matIdx desc
    have htex : ((List.range 8).map fun i => VertexLoaderTextCoord.getSize (desc.texCoord i)
        (vat.getTexFormat i) (vat.getTexElements i)).sum = Pipeline.size new := by
      rw [hsize, ← List.range_eq_range']
      rfl
    rw [Pipeline.size_append, Pipeline.size_append, matIdxStages_size, Pipeline.size_append,
      Pipeline.size_append, Pipeline.size_append, hpos, normalStages_size, colorStages_size 0 hvalid0,
      colorStages_size 1 hvalid1, getVertexSize, hmtx, htex, matIdxBytes]
    simp only [List.range_succ, List.range_zero, List.map_append, List.map_cons, List.map_nil,
      List.sum_append, List.sum_cons, List.sum_nil, List.nil_append]
    omega
  · have hslots := hall.slots
    rw [← hattributes] at hslots
    rw [declaredSlots, ← hslots]
    simp only [List.append_assoc]
  · have htiles := hall.tiles
    rw [← hattributes] at htiles
    have hstride : (t7.finish desc).decl.stride = t7.natOffset := by
      unfold finish
      split <;> rfl
    rwa [hstride]
  · have hpos : (posMatIdxStages desc).length ≤ 1 := by
      unfold posMatIdxStages
      split <;> simp
    have htex : (texMatIdxStages desc).length ≤ 8 := by
      rw [texMatIdxStages, List.length_map]
      exact List.length_filter_le _ _
    have hnormal : (normalStages desc vat).length ≤ 1 := by
      unfold normalStages
      split <;> simp
    have hcolor : ∀ i, (colorStages desc vat i).length ≤ 1 := by
      intro i
      unfold colorStages
      split
      · simp
      · split <;> simp
    have hskip : (if isIndexed desc.position then [Stage.skipVertex] else []).length ≤ 1 := by
      split <;> simp
    have := hcolor 0
    have := hcolor 1
    rw [hfinish, hall.stages]
    simp only [List.length_append, List.length_nil, List.length_singleton]
    omega

end Compile

/-! ### One vertex -/

section Run
variable {desc : TVtxDesc} {vat : VAT} {t : Translator} {before after : List Stage}
variable (source : VertexSource)

/-- The words of a vertex are written at the write pointer, which is left behind them, or where it
    was if the vertex is skipped. -/
structure RunsVertex (desc : TVtxDesc) (vat : VAT) (t : Translator) (s s' : LoaderState) : Prop where
  read : s'.read = s.read + getVertexSize desc vat
  words : ∃ ws : List (Slot × BitVec 32), ws.map Prod.fst = declaredSlots desc vat t.decl ∧
    s'.dst = store s.dst s.write ws
  write : s'.write = s.write + if hasSkipIndex source desc s.read then 0 else t.decl.stride
  skipped : s'.skippedVertices =
    s.skippedVertices + if hasSkipIndex source desc s.read then 1 else 0

theorem Layout.stride_eq (h : Layout desc vat t before after) :
    t.decl.stride = 4 * (declaredSlots desc vat t.decl).length := by
  rw [h.tiles.length_eq, Nat.zero_add]
  rfl

theorem positionStage_spec (hposition : desc.position ≠ .notPresent) (stride : Nat) (s : LoaderState)
    {offset : Nat} (hread : s.read = offset + matIdxBytes desc) :
    (Translator.positionStage desc vat).Does s
      ((Translator.positionStage desc vat).run source stride s) ∧
    (isIndexed desc.position = true →
      ((Translator.positionStage desc vat).run source stride s).vertexSkip =
        hasSkipIndex source desc offset) := by
  unfold Translator.positionStage hasSkipIndex
  rw [← hread]
  cases htype : desc.position with
  | notPresent => exact absurd htype hposition
  | direct =>
    have hplain : (Stage.posReadDirect vat.posFormat.scalar (vat.posElements.pick (2, 3))).Plain :=
      trivial
    exact ⟨(Stage.plain_spec source stride s hplain).1, fun h => by cases h⟩
  | index8 =>
    obtain ⟨hdoes, hskip⟩ := Stage.posReadIndex_spec source stride s .u8 vat.posFormat.scalar
      (vat.posElements.pick (2, 3))
    exact ⟨hdoes, fun _ => hskip⟩
  | index16 =>
    obtain ⟨hdoes, hskip⟩ := Stage.posReadIndex_spec source stride s .u16 vat.posFormat.scalar
      (vat.posElements.pick (2, 3))
    exact ⟨hdoes, fun _ => hskip⟩

theorem hasSkipIndex_of_not_indexed (h : isIndexed desc.position = false) (offset : Nat) :
    hasSkipIndex source desc offset = false := by
  unfold hasSkipIndex
  cases htype : desc.position <;> rw [htype] at h <;> first | rfl | cases h

theorem Layout.runVertex (h : Layout desc vat t before after) (hposition : desc.position ≠ .notPresent)
    (s : LoaderState) : RunsVertex source desc vat t s (runVertex t source s) := by
  have hstride := h.stride_eq
  unfold VideoCommon.runVertex
  -- the counters are zero before the first stage
  have hstart : Emits s { s with tcIndex := 0, colIndex := 0, texmtxwrite := 0, texmtxread := 0 } 0 [] :=
    (Emits.refl s).of_eq rfl rfl rfl rfl
  generalize hs0 : { s with tcIndex := 0, colIndex := 0, texmtxwrite := 0, texmtxread := 0 } = s0 at *
  have hcounters0 : s0.counters = {} := by rw [← hs0]; rfl
  have hread0 : s0.read = s.read := hstart.read
  rw [h.stages, List.foldl_append, List.foldl_append, List.foldl_append]
  obtain ⟨hdoes1, -⟩ := Pipeline.plain_spec source t.decl.stride h.before_plain s0
  generalize hs1 : List.foldl (fun s stage => stage.run source t.decl.stride s) s0 before = s1
  rw [runStages, hs1] at hdoes1
  have hread1 : s1.read = s.read + matIdxBytes desc := by
    rw [hdoes1.emits.read, hread0, h.before_size]
  obtain ⟨hdoes2, hskip2⟩ :=
    positionStage_spec source hposition t.decl.stride s1 hread1
  rw [List.foldl_cons, List.foldl_nil]
  generalize (Translator.positionStage desc vat).run source t.decl.stride s1 = s2 at *
  obtain ⟨hdoes3, hskip3⟩ := Pipeline.plain_spec source t.decl.stride h.after_plain s2
  generalize hs3 : List.foldl (fun s stage => stage.run source t.decl.stride s) s2 after = s3
  rw [runStages, hs3] at hdoes3 hskip3
  have hall := (hdoes1.append (Pipeline.Does.single hdoes2)).append hdoes3
  obtain ⟨hread, ⟨ws, hws, hdst, hwrite⟩, hskipped⟩ := hstart.trans hall.emits
  rw [hcounters0, h.slots, List.nil_append] at hws
  rw [h.size, Nat.zero_add] at hread
  have hlength : 4 * ws.length = t.decl.stride := by
    rw [hstride, ← hws, List.length_map]
  rw [hlength] at hwrite
  cases hindexed : isIndexed desc.position with
  | false =>
    have hno := hasSkipIndex_of_not_indexed source hindexed s.read
    simp only [Bool.false_eq_true, if_false, List.foldl_nil]
    exact ⟨hread, ⟨ws, hws, hdst⟩, by rw [hno]; exact hwrite, by rw [hno]; exact hskipped⟩
  | true =>
    have hflag : s3.vertexSkip = hasSkipIndex source desc s.read := hskip3.trans (hskip2 hindexed)
    simp only [if_true, List.foldl_cons, List.foldl_nil, Stage.run, LoaderState.skipVertex, hflag]
    cases hindex : hasSkipIndex source desc s.read with
    | false =>
      exact ⟨hread, ⟨ws, hws, hdst⟩, by rw [hindex]; exact hwrite, by rw [hindex]; exact hskipped⟩
    | true =>
      refine ⟨hread, ⟨ws, hws, hdst⟩, ?_, ?_⟩
      · rw [hindex]
        simp only [if_true, hwrite, Nat.add_sub_cancel, Nat.add_zero]
      · rw [hindex]
        simp only [if_true, hskipped]

/-! ### All vertices -/

/-- The vertices that are kept, of `count` ones from an offset on. -/
def keptVertices (desc : TVtxDesc) (vat : VAT) (offset count : Nat) : Nat :=
  (List.range count).countP fun i => !hasSkipIndex source desc (offset + i * getVertexSize desc vat)

variable (desc vat) in
theorem keptVertices_succ (offset count : Nat) :
    keptVertices source desc vat offset (count + 1) =
      (if hasSkipIndex source desc offset then 0 else 1) +
        keptVertices source desc vat (offset + getVertexSize desc vat) count := by
  unfold keptVertices
  rw [List.range_succ_eq_map, List.countP_cons, List.countP_map, Nat.add_comm]
  refine congrArg₂ (· + ·) ?_ ?_
  · simp only [Nat.zero_mul, Nat.add_zero]
    cases hasSkipIndex source desc offset <;> rfl
  · apply List.countP_congr
    intro i _
    rw [Function.comp, Nat.succ_mul, Nat.add_comm (i * _), Nat.add_assoc]

variable (desc vat) in
theorem keptVertices_le (offset count : Nat) : keptVertices source desc vat offset count ≤ count := by
  have h := List.countP_le_length
    (p := fun i => !hasSkipIndex source desc (offset + i * getVertexSize desc vat)) (l := List.range count)
  rwa [List.length_range] at h

/-- What a run leaves: the kept vertices lie one behind the other, each with its declared words. -/
structure RunsLoop (desc : TVtxDesc) (vat : VAT) (t : Translator) (s s' : LoaderState)
    (count : Nat) : Prop where
  read : s'.read = s.read + count * getVertexSize desc vat
  write : s'.write = s.write + keptVertices source desc vat s.read count * t.decl.stride
  skipped : s'.skippedVertices + keptVertices source desc vat s.read count =
    s.skippedVertices + count
  before : ∀ a < s.write, s'.dst a = s.dst a
  words : ∀ j < keptVertices source desc vat s.read count,
    ∀ k < (declaredSlots desc vat t.decl).length,
      (s'.dst (s.write + j * t.decl.stride + 4 * k)).map Prod.fst = (declaredSlots desc vat t.decl)[k]?

theorem Layout.runLoop (h : Layout desc vat t before after) (hposition : desc.position ≠ .notPresent)
    (count : Nat) (s : LoaderState) :
    RunsLoop source desc vat t s (runLoop t source count s) count := by
  induction count generalizing s with
  | zero =>
    refine ⟨by simp [VideoCommon.runLoop], by simp [VideoCommon.runLoop, keptVertices],
      by simp [VideoCommon.runLoop, keptVertices], fun _ _ => rfl, fun j hj => ?_⟩
    simp [keptVertices] at hj
  | succ count ih =>
    have hvertex := h.runVertex source hposition s
    have hrest := ih (VideoCommon.runVertex t source s)
    rw [VideoCommon.runLoop]
    generalize VideoCommon.runVertex t source s = s1 at *
    obtain ⟨hread, ⟨ws, hws, hdst⟩, hwrite, hskipped⟩ := hvertex
    obtain ⟨hread', hwrite', hskipped', hbefore', hwords'⟩ := hrest
    rw [hread] at hwrite' hskipped' hwords'
    have hkept := keptVertices_succ desc vat source s.read count
    refine ⟨by rw [hread', hread, Nat.succ_mul]; omega, ?_, ?_, ?_, ?_⟩
    · rw [hwrite', hwrite, hkept, Nat.add_mul]
      split <;> omega
    · by_cases hskip : hasSkipIndex source desc s.read = true
      · rw [if_pos hskip] at hkept hskipped
        omega
      · rw [if_neg hskip] at hkept hskipped
        omega
    · intro a ha
      rw [hbefore' a (by rw [hwrite]; omega), hdst, store_of_lt _ ha]
    · intro j hj k hk
      rw [hkept] at hj
      by_cases hskip : hasSkipIndex source desc s.read = true
      · rw [if_pos hskip] at hj hwrite
        rw [Nat.add_zero] at hwrite
        rw [← hwrite]
        exact hwords' j (by omega) k hk
      · rw [if_neg hskip] at hj hwrite
        cases j with
        | zero =>
          -- the words of the first vertex, which the others leave alone
          have hlength : k < ws.length := by rwa [← hws, List.length_map] at hk
          have hlt : s.write + 0 * t.decl.stride + 4 * k < s1.write := by
            rw [hwrite, h.stride_eq]
            omega
          rw [hbefore' _ hlt, hdst, Nat.zero_mul, Nat.add_zero, store_getElem _ _ _ hlength, ← hws]
          simp [hlength]
        | succ j =>
          have hplace : s.write + (j + 1) * t.decl.stride + 4 * k =
              s1.write + j * t.decl.stride + 4 * k := by
            rw [hwrite, Nat.succ_mul]
            omega
          rw [hplace]
          exact hwords' j (by omega) k hk

end Run

/-- The pipeline has room for its stages, and calls no function that does not exist. -/
theorem stages_wellFormed {desc : TVtxDesc} {vat : VAT} (hposition : desc.position ≠ .notPresent)
    (hcolor : ∀ i < 2, desc.color i ≠ .notPresent → (vat.getColorFormat i).isValid = true) :
    (compileVertexTranslator desc vat).stages.length ≤ 30 ∧
      Stage.null ∉ (compileVertexTranslator desc vat).stages := by
  obtain ⟨before, after, h⟩ := compile_layout hposition hcolor
  refine ⟨h.few, ?_⟩
  rw [h.stages]
  simp only [List.mem_append, List.mem_singleton]
  rintro (((hmem | hmem) | hmem) | hmem)
  · exact h.before_plain _ hmem
  · unfold Translator.positionStage VertexLoaderPosition.getFunction at hmem
    cases htype : desc.position <;> rw [htype] at hmem <;> first | exact hposition htype | cases hmem
  · exact h.after_plain _ hmem
  · split at hmem
    · cases List.mem_singleton.1 hmem
    · exact List.not_mem_nil hmem

/-- The loader agrees with the declared sizes: the attributes tile the stride in the order in which
    their words are written, each vertex takes its size from the source, and a run keeps the vertices
    without the index of all ones, at so many strides. -/
theorem runVertices_agrees (desc : TVtxDesc) (vat : VAT) (source : VertexSource)
    (hposition : desc.position ≠ .notPresent)
    (hcolor : ∀ i < 2, desc.color i ≠ .notPresent → (vat.getColorFormat i).isValid = true) :
    let t := compileVertexTranslator desc vat
    Tiles desc vat 0 t.decl.attributes t.decl.stride ∧
    (∀ s, RunsVertex source desc vat t s (runVertex t source s)) ∧
    ∀ (s : LoaderState) (count : Nat),
      let (loaded, s') := runVertices t source s count
      loaded = keptVertices source desc vat 0 count ∧
      s'.read = count * getVertexSize desc vat ∧ s'.write = loaded * t.decl.stride ∧
      ∀ j < loaded, ∀ k < (declaredSlots desc vat t.decl).length,
        (s'.dst (j * t.decl.stride + 4 * k)).map Prod.fst = (declaredSlots desc vat t.decl)[k]? := by
  obtain ⟨before, after, h⟩ := compile_layout hposition hcolor
  refine ⟨h.tiles, h.runVertex source hposition, fun s count => ?_⟩
  obtain ⟨hread, hwrite, hskipped, -, hwords⟩ := h.runLoop source hposition count
    { s with read := 0, write := 0, skippedVertices := 0 }
  simp only [Nat.zero_add] at hread hwrite hskipped hwords
  have hle := keptVertices_le desc vat source 0 count
  have hloaded : count - (runLoop (compileVertexTranslator desc vat) source count
      { s with read := 0, write := 0, skippedVertices := 0 }).skippedVertices =
      keptVertices source desc vat 0 count := by omega
  refine ⟨hloaded, hread, hwrite.trans ?_, fun j hj => hwords j (hloaded ▸ hj)⟩
  exact congrArg (· * _) hloaded.symm

/-- Two vertices with a position of three floats by an index of 16 bits, and a direct colour of four
    bytes; the first vertex has the index of all ones. -/
def indexedDesc : TVtxDesc := ⟨0x2600, 0⟩

def indexedVat : VAT := ⟨0x14009, 0, 0⟩

def indexedSource : VertexSource where
  src := fun i => if i < 2 then 0xFF else 0
  array := fun _ _ => 0
  arrayStride := fun _ => 12
  vat := indexedVat
  floats := ⟨fun _ value _ => value, fun _ value => value, fun b => b.setWidth 32⟩

theorem runVertices_agrees_indexed :
    (runVertices (compileVertexTranslator indexedDesc indexedVat) indexedSource {} 2).1 = 1 := by
  have h := (runVertices_agrees indexedDesc indexedVat indexedSource (by decide) (by decide)).2.2 {} 2
  exact h.1.trans (by decide +kernel)

theorem stages_wellFormed_indexed :
    (compileVertexTranslator indexedDesc indexedVat).stages.length ≤ 30 ∧
      Stage.null ∉ (compileVertexTranslator indexedDesc indexedVat).stages :=
  stages_wellFormed (by decide) (by decide)

end DolphinXR.VideoCommon
