import DolphinXR.VideoCommon.VertexLoaderStages

/- The pipeline of a descriptor and an attribute table against what is declared: the bytes its
   stages take make up the size of the vertex, and the words they write are those of the declared
   attributes, one attribute after the other. Each part of the translation adds stages and
   attributes that agree. -/
namespace DolphinXR.VideoCommon

inductive Attribute where
  | posmtx
  | position
  | normal (k : Nat)
  | color (i : Nat)
  | texcoord (i : Nat)
  deriving DecidableEq

/-- The attributes of an array, from the `i`-th on. -/
def named (name : Nat → Attribute) : Nat → List AttributeFormat → List (Attribute × AttributeFormat)
  | _, [] => []
  | i, a :: as => (name i, a) :: named name (i + 1) as

theorem named_append (name : Nat → Attribute) (i : Nat) (as bs : List AttributeFormat) :
    named name i (as ++ bs) = named name i as ++ named name (i + as.length) bs := by
  induction as generalizing i with
  | nil => rfl
  | cons a as ih =>
    rw [List.cons_append, named, ih, named, List.length_cons, List.cons_append]
    congr 3
    omega

def enabled (as : List (Attribute × AttributeFormat)) : List (Attribute × AttributeFormat) :=
  as.filter (·.2.enable)

/-- The attributes that are enabled, in the order in which they are to be written. -/
def PortableVertexDeclaration.attributes (d : PortableVertexDeclaration) :
    List (Attribute × AttributeFormat) :=
  enabled [(.posmtx, d.posmtx)] ++ enabled [(.position, d.position)]
    ++ enabled (named .normal 0 d.normals) ++ enabled (named .color 0 d.colors)
    ++ enabled (named .texcoord 0 d.texcoords)

section Layout
variable (desc : TVtxDesc) (vat : VAT)

/-- The number of matrix indices of the texture coordinates before the `i`-th one. -/
def texMtxRank (i : Nat) : Nat := (List.range i).countP desc.texMatIdx

/-- The words of an attribute. With a matrix index a texture coordinate has three components, the
    last of which is the index. -/
def slotsOf : Attribute → List Slot
  | .posmtx => [.posmtx]
  | .position => (List.range (vat.posElements.pick (2, 3))).map .position
  | .normal k => (List.range' (3 * k) 3).map .normal
  | .color i => [.color i]
  | .texcoord i =>
    let coordinates :=
      if desc.texCoord i ≠ .notPresent then
        (List.range ((vat.getTexElements i).pick (1, 2))).map (.texcoord i)
      else []
    if desc.texMatIdx i then
      coordinates ++ List.replicate (2 - coordinates.length) .zero ++ [.texmtx (texMtxRank desc i)]
    else coordinates

/-- The attributes follow one another without a gap from `start` to `stop`, and each has room for
    its words. -/
def Tiles : Nat → List (Attribute × AttributeFormat) → Nat → Prop
  | start, [], stop => start = stop
  | start, a :: as, stop =>
    a.2.offset = start ∧ a.2.bytes = 4 * (slotsOf desc vat a.1).length ∧
      Tiles (start + a.2.bytes) as stop

variable {desc vat}

theorem Tiles.append {start mid stop : Nat} {as bs : List (Attribute × AttributeFormat)}
    (h : Tiles desc vat start as mid) (h' : Tiles desc vat mid bs stop) :
    Tiles desc vat start (as ++ bs) stop := by
  induction as generalizing start with
  | nil => exact (show start = mid from h) ▸ h'
  | cons a as ih => exact ⟨h.1, h.2.1, ih h.2.2⟩

theorem Tiles.length_eq {start stop : Nat} {as : List (Attribute × AttributeFormat)}
    (h : Tiles desc vat start as stop) :
    stop = start + 4 * (as.flatMap fun a => slotsOf desc vat a.1).length := by
  induction as generalizing start with
  | nil => exact h.symm
  | cons a as ih =>
    have hrest := ih h.2.2
    rw [List.flatMap_cons, List.length_append, hrest, h.2.1]
    omega

variable (desc vat) in
/-- A part of the translation: the stages it adds write the words of the attributes it adds. -/
structure Part (t t' : Translator) (new : List Stage) (c c' : Counters)
    (as : List (Attribute × AttributeFormat)) : Prop where
  stages : t'.stages = t.stages ++ new
  slots : Pipeline.slots c new = as.flatMap fun a => slotsOf desc vat a.1
  counters : Pipeline.advance c new = c'
  tiles : Tiles desc vat t.natOffset as t'.natOffset

theorem Part.trans {t t' t'' : Translator} {new new' : List Stage} {c c' c'' : Counters}
    {as as' : List (Attribute × AttributeFormat)} (h : Part desc vat t t' new c c' as)
    (h' : Part desc vat t' t'' new' c' c'' as') :
    Part desc vat t t'' (new ++ new') c c'' (as ++ as') where
  stages := by rw [h'.stages, h.stages, List.append_assoc]
  slots := by rw [Pipeline.slots_append, h.slots, h.counters, h'.slots, List.flatMap_append]
  counters := by rw [Pipeline.advance_append, h.counters, h'.counters]
  tiles := h.tiles.append h'.tiles

end Layout

/-! ### The readers' tables -/

/-- A stage for an attribute, with the size that the tables give. -/
structure Reads (stage : Stage) (size : Nat) (slots : Counters → List Slot)
    (advance : Counters → Counters) : Prop where
  size : stage.size = size
  slots : ∀ c, stage.slots c = slots c
  advance : ∀ c, stage.advance c = advance c

theorem position_reads {type : VertexComponentFormat} (h : type ≠ .notPresent)
    (format : ComponentFormat) (elements : CoordComponentCount) :
    Reads (VertexLoaderPosition.getFunction type format elements)
      (VertexLoaderPosition.getSize type format elements)
      (fun _ => (List.range (elements.pick (2, 3))).map .position) id := by
  cases type with
  | notPresent => exact absurd rfl h
  | direct => cases format <;> cases elements <;> exact ⟨rfl, fun _ => rfl, fun _ => rfl⟩
  | index8 | index16 => exact ⟨rfl, fun _ => rfl, fun _ => rfl⟩

theorem normal_reads {type : VertexComponentFormat} (h : type ≠ .notPresent)
    (format : ComponentFormat) (elements : NormalComponentCount) (index3 : Bool) :
    Reads (VertexLoaderNormal.getFunction type format elements index3)
      (VertexLoaderNormal.getSize type format elements index3)
      (fun _ => (List.range (if elements = .ntb then 9 else 3)).map .normal) id := by
  cases type with
  | notPresent => exact absurd rfl h
  | direct => cases format <;> cases elements <;> exact ⟨rfl, fun _ => rfl, fun _ => rfl⟩
  | index8 | index16 =>
    cases elements <;> cases index3 <;> exact ⟨rfl, fun _ => rfl, fun _ => rfl⟩

theorem color_reads {type : VertexComponentFormat} (h : type ≠ .notPresent) {format : ColorFormat}
    (hvalid : format.isValid = true) :
    Reads (VertexLoaderColor.getFunction type format) (VertexLoaderColor.getSize type format)
      (fun c => [.color c.colIndex]) fun c => { c with colIndex := c.colIndex + 1 } := by
  unfold VertexLoaderColor.getFunction VertexLoaderColor.getSize
  rw [if_pos hvalid, if_pos hvalid]
  cases type with
  | notPresent => exact absurd rfl h
  | direct => cases format <;> exact ⟨rfl, fun _ => rfl, fun _ => rfl⟩
  | index8 | index16 => exact ⟨rfl, fun _ => rfl, fun _ => rfl⟩

theorem texCoord_reads {type : VertexComponentFormat} (h : type ≠ .notPresent)
    (format : ComponentFormat) (elements : TexComponentCount) :
    Reads (VertexLoaderTextCoord.getFunction type format elements)
      (VertexLoaderTextCoord.getSize type format elements)
      (fun c => (List.range (elements.pick (1, 2))).map (.texcoord c.tcIndex))
      fun c => { c with tcIndex := c.tcIndex + 1 } := by
  cases type with
  | notPresent => exact absurd rfl h
  | direct => cases format <;> cases elements <;> exact ⟨rfl, fun _ => rfl, fun _ => rfl⟩
  | index8 | index16 => exact ⟨rfl, fun _ => rfl, fun _ => rfl⟩

theorem normal_plain {type : VertexComponentFormat} (h : type ≠ .notPresent)
    (format : ComponentFormat) (elements : NormalComponentCount) (index3 : Bool) :
    (VertexLoaderNormal.getFunction type format elements index3).Plain := by
  cases type <;> cases elements <;> cases index3 <;> first | exact absurd rfl h | trivial

theorem color_plain {type : VertexComponentFormat} (h : type ≠ .notPresent) {format : ColorFormat}
    (hvalid : format.isValid = true) : (VertexLoaderColor.getFunction type format).Plain := by
  unfold VertexLoaderColor.getFunction
  rw [if_pos hvalid]
  cases type <;> first | exact absurd rfl h | trivial

theorem texCoord_plain {type : VertexComponentFormat} (h : type ≠ .notPresent)
    (format : ComponentFormat) (elements : TexComponentCount) :
    (VertexLoaderTextCoord.getFunction type format elements).Plain := by
  cases type <;> first | exact absurd rfl h | trivial

theorem color_of_notPresent (format : ColorFormat) :
    VertexLoaderColor.getFunction .notPresent format = .null ∧
      VertexLoaderColor.getSize .notPresent format = 0 := by
  cases format <;> exact ⟨rfl, rfl⟩

/-! ### The parts of a translation -/

namespace Translator
variable (desc : TVtxDesc) (vat : VAT) (t : Translator) (c : Counters)

def posMatIdxStages : List Stage := if desc.posMatIdx then [.posMtxReadDirectUByte] else []

theorem posMatIdx_part (h : t.decl.posmtx = {}) :
    Part desc vat t (t.posMatIdx desc) (posMatIdxStages desc) c c
      (enabled [(.posmtx, (t.posMatIdx desc).decl.posmtx)]) ∧
    (t.posMatIdx desc).decl = { t.decl with posmtx := (t.posMatIdx desc).decl.posmtx } := by
  unfold posMatIdx posMatIdxStages
  cases desc.posMatIdx with
  | true => exact ⟨⟨rfl, rfl, rfl, rfl, rfl, rfl⟩, rfl⟩
  | false => exact ⟨⟨(List.append_nil _).symm, by simp [h, enabled, Pipeline.slots], rfl,
      by simp [h, enabled, Tiles]⟩, rfl⟩

def texMatIdxStages : List Stage :=
  ((List.range 8).filter desc.texMatIdx).map fun _ => .texMtxReadDirectUByte

theorem texMatIdx_eq :
    t.texMatIdx desc = { t with stages := t.stages ++ texMatIdxStages desc } := by
  unfold texMatIdx texMatIdxStages
  induction List.range 8 generalizing t with
  | nil => simp
  | cons i l ih =>
    rw [List.foldl_cons, ih]
    cases h : desc.texMatIdx i <;> simp [h, writeCall]

theorem slots_texMatIdxStages :
    Pipeline.slots c (texMatIdxStages desc) = [] ∧ Pipeline.advance c (texMatIdxStages desc) = c := by
  unfold texMatIdxStages
  induction (List.range 8).filter desc.texMatIdx with
  | nil => exact ⟨rfl, rfl⟩
  | cons i l ih => exact ih

theorem texMatIdx_part : Part desc vat t (t.texMatIdx desc) (texMatIdxStages desc) c c [] := by
  rw [texMatIdx_eq]
  exact ⟨rfl, (slots_texMatIdxStages desc c).1, (slots_texMatIdxStages desc c).2, rfl⟩

def positionStage : Stage :=
  VertexLoaderPosition.getFunction desc.position vat.posFormat vat.posElements

theorem position_part (h : desc.position ≠ .notPresent) :
    Part desc vat t (t.position desc vat) [positionStage desc vat] c c
      (enabled [(.position, (t.position desc vat).decl.position)]) ∧
    (t.position desc vat).decl = { t.decl with position := (t.position desc vat).decl.position } := by
  obtain ⟨-, hslots, hadvance⟩ := position_reads h vat.posFormat vat.posElements
  refine ⟨⟨rfl, ?_, hadvance c, rfl, ?_, ?_⟩, rfl⟩
  · rw [Pipeline.slots, positionStage, hslots]
    simp [Pipeline.slots, enabled, position, slotsOf]
  · simp [AttributeFormat.bytes, getElementSize, slotsOf, position, Nat.mul_comm]
  · simp [AttributeFormat.bytes, getElementSize, position, Tiles]

def normalStages : List Stage :=
  if desc.normal ≠ .notPresent then
    [VertexLoaderNormal.getFunction desc.normal vat.normalFormat vat.normalElements vat.normalIndex3]
  else []

theorem normal_part (h : t.decl.normals = []) :
    Part desc vat t (t.normal desc vat) (normalStages desc vat) c c
      (enabled (named .normal 0 (t.normal desc vat).decl.normals)) ∧
    (t.normal desc vat).decl = { t.decl with normals := (t.normal desc vat).decl.normals } := by
  unfold normal normalStages
  by_cases hnormal : desc.normal ≠ .notPresent
  · obtain ⟨-, hslots, hadvance⟩ :=
      normal_reads hnormal vat.normalFormat vat.normalElements vat.normalIndex3
    rw [if_pos hnormal, if_pos hnormal]
    cases helements : vat.normalElements with
    | n =>
      rw [helements] at hslots hadvance
      refine ⟨⟨rfl, ?_, hadvance c, ?_⟩, rfl⟩
      · rw [Pipeline.slots, hslots]
        simp [Pipeline.slots, enabled, named, h, writeCall, slotsOf]
        rfl
      · simp [enabled, named, h, writeCall, Tiles, AttributeFormat.bytes, getElementSize, slotsOf]
    | ntb =>
      rw [helements] at hslots hadvance
      refine ⟨⟨rfl, ?_, hadvance c, ?_⟩, rfl⟩
      · rw [Pipeline.slots, hslots]
        simp [Pipeline.slots, enabled, named, h, writeCall, slotsOf, List.range_succ]
        rfl
      · simp [enabled, named, h, writeCall, Tiles, AttributeFormat.bytes, getElementSize, slotsOf,
          List.range_succ]
  · rw [if_neg hnormal, if_neg hnormal]
    exact ⟨⟨(List.append_nil _).symm, by simp [h, enabled, named, Pipeline.slots], rfl,
      by simp [h, enabled, named, Tiles]⟩, rfl⟩

/-! Colours. The second colour is read as the second one also where the first one is absent. -/

def colorStages (i : Nat) : List Stage :=
  if desc.color i ≠ .notPresent then
    [VertexLoaderColor.getFunction (desc.color i) (vat.getColorFormat i)]
  else if i = 0 ∧ desc.color 1 ≠ .notPresent then [.colorReadDummy]
  else []

def colorFormats (i offset : Nat) : List AttributeFormat :=
  if desc.color i ≠ .notPresent then [⟨.ubyte, 4, offset, true, false⟩]
  else [⟨.ubyte, 4, 0, false, false⟩]

variable {desc vat}

theorem plain_ne_null {stage : Stage} (h : stage.Plain) : stage ≠ .null := by
  rintro rfl
  exact h

theorem color_eq {i : Nat}
    (h : desc.color i ≠ .notPresent → (vat.getColorFormat i).isValid = true) :
    t.color desc vat i =
      { t with
        stages := t.stages ++ colorStages desc vat i
        decl := { t.decl with colors := t.decl.colors ++ colorFormats desc i t.natOffset }
        natOffset := t.natOffset + if desc.color i ≠ .notPresent then 4 else 0 } := by
  unfold color colorStages colorFormats
  by_cases hpresent : desc.color i ≠ .notPresent
  · have hstage := plain_ne_null (color_plain hpresent (h hpresent))
    simp only [if_pos hpresent, if_pos hstage, writeCall]
  · have hnull : VertexLoaderColor.getFunction (desc.color i) (vat.getColorFormat i) = .null := by
      rw [not_not.1 hpresent]
      exact (color_of_notPresent _).1
    simp only [if_neg hpresent, hnull, ne_eq, not_true_eq_false, if_false]
    by_cases hdummy : i = 0 ∧ ¬desc.color 1 = .notPresent
    · simp only [if_pos hdummy, writeCall, Nat.add_zero]
    · simp only [if_neg hdummy, List.append_nil, Nat.add_zero]

theorem color_part {i : Nat} (hvalid : desc.color i ≠ .notPresent → (vat.getColorFormat i).isValid = true)
    (hindex : desc.color i ≠ .notPresent → c.colIndex = i) :
    Part desc vat t (t.color desc vat i) (colorStages desc vat i) c
      (Pipeline.advance c (colorStages desc vat i))
      (enabled (named .color i (colorFormats desc i t.natOffset))) := by
  rw [color_eq t hvalid]
  refine ⟨rfl, ?_, rfl, ?_⟩
  · unfold colorStages colorFormats
    by_cases hpresent : desc.color i ≠ .notPresent
    · obtain ⟨-, hslots, -⟩ := color_reads hpresent (hvalid hpresent)
      simp only [if_pos hpresent, Pipeline.slots, hslots, hindex hpresent]
      rfl
    · simp only [if_neg hpresent]
      split <;> rfl
  · unfold colorFormats
    by_cases hpresent : desc.color i ≠ .notPresent
    · simp only [if_pos hpresent]
      exact ⟨rfl, rfl, rfl⟩
    · simp only [if_neg hpresent]
      exact rfl

theorem color_counters (hvalid : desc.color 0 ≠ .notPresent → (vat.getColorFormat 0).isValid = true)
    (hpresent : desc.color 1 ≠ .notPresent) :
    (Pipeline.advance c (colorStages desc vat 0)).colIndex = c.colIndex + 1 := by
  unfold colorStages
  by_cases h0 : desc.color 0 ≠ .notPresent
  · obtain ⟨-, -, hadvance⟩ := color_reads h0 (hvalid h0)
    rw [if_pos h0, Pipeline.advance, List.foldl_cons, hadvance]
    rfl
  · rw [if_neg h0, if_pos ⟨rfl, hpresent⟩]
    rfl

theorem colorStages_advance (i : Nat)
    (hvalid : desc.color i ≠ .notPresent → (vat.getColorFormat i).isValid = true) :
    (Pipeline.advance c (colorStages desc vat i)).tcIndex = c.tcIndex ∧
      (Pipeline.advance c (colorStages desc vat i)).texmtxwrite = c.texmtxwrite := by
  unfold colorStages
  by_cases hpresent : desc.color i ≠ .notPresent
  · obtain ⟨-, -, hadvance⟩ := color_reads hpresent (hvalid hpresent)
    rw [if_pos hpresent, Pipeline.advance, List.foldl_cons, hadvance]
    exact ⟨rfl, rfl⟩
  · rw [if_neg hpresent]
    split <;> exact ⟨rfl, rfl⟩

theorem colorStages_size (i : Nat)
    (hvalid : desc.color i ≠ .notPresent → (vat.getColorFormat i).isValid = true) :
    Pipeline.size (colorStages desc vat i) =
      VertexLoaderColor.getSize (desc.color i) (vat.getColorFormat i) := by
  unfold colorStages
  by_cases hpresent : desc.color i ≠ .notPresent
  · rw [if_pos hpresent, ← (color_reads hpresent (hvalid hpresent)).size]
    simp [Pipeline.size]
  · rw [if_neg hpresent, not_not.1 hpresent, (color_of_notPresent _).2]
    split <;> rfl

theorem colorStages_plain (i : Nat)
    (hvalid : desc.color i ≠ .notPresent → (vat.getColorFormat i).isValid = true) :
    ∀ stage ∈ colorStages desc vat i, stage.Plain := by
  unfold colorStages
  by_cases hpresent : desc.color i ≠ .notPresent
  · rw [if_pos hpresent]
    exact fun stage hstage => List.mem_singleton.1 hstage ▸ color_plain hpresent (hvalid hpresent)
  · rw [if_neg hpresent]
    split
    · exact fun stage hstage => List.mem_singleton.1 hstage ▸ trivial
    · exact fun stage hstage => absurd hstage List.not_mem_nil

end Translator

end DolphinXR.VideoCommon
