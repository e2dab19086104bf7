import DolphinXR.VideoCommon.HideObjectEngine
import DolphinXR.VideoCommon.IndexGenerator

/- Hide codes where vertices are run (`RunVertices` of VideoCommon/VertexLoaderManager.cpp): a
   draw whose vertex data begins with a pattern is left out as a whole; of the others each run of
   at most `maxVertices` vertices is captured and compared with the preview on its own.

   What a run does with its vertices is left out, and so is the culling, which comes after the
   comparisons. -/
namespace DolphinXR.HideObjectEngine
open Lib VideoCommon

structure Draw where
  primitive : Primitive
  count : Nat
  vertexSize : Nat
  src : Nat

def Draw.size (d : Draw) : Nat := d.count * d.vertexSize

def Draw.bytes (d : Draw) (m : Memory) : Bytes := bytesAt m d.src d.size

/-- Max is 16383, but 16380 is divisible by both 4 and 3. -/
def maxVertices : Nat := 16380

def canSplit : Primitive → Bool
  | .quads | .quads2 | .triangles | .lines | .points => true
  | .triangleStrip | .triangleFan | .lineStrip => false

def runLength (primitive : Primitive) (count : Nat) : Nat :=
  if canSplit primitive && decide (maxVertices < count) then maxVertices else count

theorem runLength_pos (primitive : Primitive) {count : Nat} (h : count ≠ 0) :
    0 < runLength primitive count := by
  unfold runLength
  split
  · decide
  · omega

theorem runLength_le (primitive : Primitive) (count : Nat) : runLength primitive count ≤ count := by
  unfold runLength
  split
  · rename_i h
    have := (Bool.and_eq_true_iff.mp h).2
    exact Nat.le_of_lt (of_decide_eq_true this)
  · exact Nat.le_refl _

/-- The runs from `src` on: the engine behind them, and which of them were marked pink. -/
def runLoop (e : Engine) (m : Memory) (primitive : Primitive) (vertexSize count src : Nat) :
    Engine × List Bool :=
  let run := runLength primitive count
  let e := e.captureVertexPrefix m src (run * vertexSize)
  let pink := e.hasPinkPreview && e.matchesPinkPreview m src
  if _h : count - run = 0 then (e, [pink])
  else
    let (e, rest) :=
      runLoop e m primitive vertexSize (count - run) (src + vertexSize * maxVertices)
    (e, pink :: rest)
termination_by count
decreasing_by
  have : 0 < runLength primitive count := runLength_pos primitive (by omega)
  omega

structure Outcome where
  size : Nat
  engine : Engine
  hidden : Bool
  /-- Of each run that was drawn, whether its batch was marked pink. -/
  pink : List Bool

def runVertices (e : Engine) (m : Memory) (d : Draw) : Outcome :=
  if d.count = 0 then ⟨0, e, false, []⟩
  else if e.hasCodes && e.shouldHide m d.src then ⟨d.size, e, true, []⟩
  else
    let (e, pink) := runLoop e m d.primitive d.vertexSize d.count d.src
    ⟨d.size, e, false, pink⟩

@[simp] theorem length_bytesAt (m : Memory) (src n : Nat) : (bytesAt m src n).length = n := by
  simp [bytesAt]

theorem bytesAt_add (m : Memory) (src a b : Nat) :
    bytesAt m src (a + b) = bytesAt m src a ++ bytesAt m (src + a) b := by
  unfold bytesAt
  rw [List.range_add, List.map_append, List.map_map]
  congr 1
  exact List.map_congr_left fun i _ => by simp [Nat.add_assoc]

theorem take_bytesAt (m : Memory) (src : Nat) {k n : Nat} (h : k ≤ n) :
    (bytesAt m src n).take k = bytesAt m src k := by
  obtain ⟨r, rfl⟩ := Nat.exists_eq_add_of_le h
  rw [bytesAt_add, List.take_left' (length_bytesAt ..)]

theorem drop_take_bytesAt (m : Memory) (src : Nat) {o k n : Nat} (h : o + k ≤ n) :
    ((bytesAt m src n).drop o).take k = bytesAt m (src + o) k := by
  obtain ⟨r, rfl⟩ := Nat.exists_eq_add_of_le h
  rw [Nat.add_assoc, bytesAt_add, List.drop_left' (length_bytesAt ..), take_bytesAt _ _ (by omega)]

theorem beginsWith_iff {m : Memory} {src : Nat} {pattern : Bytes} :
    beginsWith m src pattern = true ↔ bytesAt m src pattern.length = pattern := by
  simp [beginsWith]

theorem beginsWith_iff_starts {m : Memory} {src n : Nat} {pattern : Bytes}
    (h : pattern.length ≤ n) : beginsWith m src pattern = true ↔ pattern <+: bytesAt m src n := by
  rw [beginsWith_iff, List.prefix_iff_eq_take, take_bytesAt _ _ h, eq_comm]

theorem prefix_of_beginsWith {m : Memory} {src n : Nat} {pattern : Bytes} (h : n ≤ pattern.length)
    (hfound : beginsWith m src pattern = true) : bytesAt m src n <+: pattern := by
  rw [← beginsWith_iff.mp hfound, ← take_bytesAt m src h]
  exact List.take_prefix _ _

/-- Memory that has the given bytes at `src`. -/
def placed (bytes : Bytes) (src : Nat) : Memory := fun a => bytes.getD (a - src) 0

theorem bytesAt_placed (bytes : Bytes) (src : Nat) {n : Nat} (h : n ≤ bytes.length) :
    bytesAt (placed bytes src) src n = bytes.take n := by
  apply List.ext_getElem
  · simpa using h
  · intro i hi hi'
    simp only [length_bytesAt] at hi
    simp [bytesAt, placed, List.getElem?_eq_getElem (show i < bytes.length by omega)]

/-! ### The runs of a draw -/

/-- A run's offset behind `src` and its bytes. -/
structure Run where
  offset : Nat
  size : Nat
  deriving DecidableEq

def runsFrom (primitive : Primitive) (vertexSize count offset : Nat) : List Run :=
  let run := runLength primitive count
  ⟨offset, run * vertexSize⟩ ::
    if _h : count - run = 0 then []
    else runsFrom primitive vertexSize (count - run) (offset + vertexSize * maxVertices)
termination_by count
decreasing_by
  have : 0 < runLength primitive count := runLength_pos primitive (by omega)
  omega

def Draw.runs (d : Draw) : List Run := runsFrom d.primitive d.vertexSize d.count 0

def Draw.captured (d : Draw) (m : Memory) (run : Run) : Bytes :=
  bytesAt m (d.src + run.offset) (min run.size 16)

theorem runsFrom_bounds {primitive : Primitive} {vertexSize count offset : Nat} {run : Run}
    (h : run ∈ runsFrom primitive vertexSize count offset) :
    run.offset + run.size ≤ offset + count * vertexSize := by
  induction count using Nat.strong_induction_on generalizing offset with
  | _ count ih =>
    rw [runsFrom] at h
    have hle := runLength_le primitive count
    rcases List.mem_cons.mp h with rfl | h
    · exact Nat.add_le_add_left (Nat.mul_le_mul_right _ hle) _
    · split at h
      · cases h
      · rename_i hrest
        have hrun : runLength primitive count = maxVertices := by
          unfold runLength at hrest ⊢
          split at hrest <;> simp_all
        have hlt : count - runLength primitive count < count := by
          have : 0 < maxVertices := by decide
          omega
        have hbound := ih _ hlt h
        have hsplit : (count - maxVertices) * vertexSize + vertexSize * maxVertices =
            count * vertexSize := by
          rw [Nat.mul_comm vertexSize, ← Nat.add_mul, Nat.sub_add_cancel (by omega)]
        rw [hrun] at hbound
        omega

theorem Draw.runs_bounds {d : Draw} {run : Run} (h : run ∈ d.runs) :
    run.offset + run.size ≤ d.size := by
  have := runsFrom_bounds h
  rwa [Nat.zero_add] at this

theorem Draw.runs_first (d : Draw) :
    ∃ rest, d.runs = ⟨0, runLength d.primitive d.count * d.vertexSize⟩ :: rest := by
  unfold Draw.runs
  rw [runsFrom]
  exact ⟨_, rfl⟩

theorem Draw.runs_of_not_canSplit {d : Draw} (h : canSplit d.primitive = false) :
    d.runs = [⟨0, d.size⟩] := by
  unfold Draw.runs Draw.size
  rw [runsFrom]
  simp [runLength, h]

/-! ### What running a draw does -/

def capturedOf (m : Memory) (src : Nat) (runs : List Run) : List Bytes :=
  (runs.filter fun run => run.size != 0).map fun run =>
    bytesAt m (src + run.offset) (min run.size 16)

namespace Engine

def capture (e : Engine) (prefixes : List Bytes) : Engine :=
  if e.captureEnabled then
    { e with pendingCapturePrefixes := e.pendingCapturePrefixes ++ prefixes }
  else e

theorem captureVertexPrefix_eq (e : Engine) (m : Memory) (src : Nat) (run : Run) :
    e.captureVertexPrefix m (src + run.offset) run.size = e.capture (capturedOf m src [run]) := by
  unfold captureVertexPrefix capture capturedOf
  by_cases h : run.size = 0
  · simp [h]
  · cases e.captureEnabled <;>
      simp [h, show HideObjectType.bits128.getByteCount = 16 by decide]

@[simp] theorem capture_capture (e : Engine) (l l' : List Bytes) :
    (e.capture l).capture l' = e.capture (l ++ l') := by
  unfold capture
  cases h : e.captureEnabled <;> simp [h]

@[simp] theorem matchesPinkPreview_capture (e : Engine) (l : List Bytes) :
    (e.capture l).matchesPinkPreview = e.matchesPinkPreview := by
  unfold capture
  split <;> rfl

@[simp] theorem hasPinkPreview_capture (e : Engine) (l : List Bytes) :
    (e.capture l).hasPinkPreview = e.hasPinkPreview := by
  unfold capture
  split <;> rfl

end Engine

theorem runLoop_eq (e : Engine) (m : Memory) (primitive : Primitive) (vertexSize count src offset : Nat) :
    runLoop e m primitive vertexSize count (src + offset) =
      (e.capture (capturedOf m src (runsFrom primitive vertexSize count offset)),
        (runsFrom primitive vertexSize count offset).map fun run =>
          e.hasPinkPreview && e.matchesPinkPreview m (src + run.offset)) := by
  induction count using Nat.strong_induction_on generalizing offset e with
  | _ count ih =>
    have hcapture := e.captureVertexPrefix_eq m src
      ⟨offset, runLength primitive count * vertexSize⟩
    rw [runLoop, runsFrom]
    simp only [] at hcapture
    simp only [hcapture]
    split
    · simp
    · rename_i hrest
      have hlt : count - runLength primitive count < count := by
        have : 0 < runLength primitive count := runLength_pos primitive (by omega)
        omega
      rw [Nat.add_assoc src, ih _ hlt]
      simp only [Engine.capture_capture, Engine.matchesPinkPreview_capture,
        Engine.hasPinkPreview_capture, List.map_cons]
      congr 2
      simp only [capturedOf, ← List.map_append, ← List.filter_append]
      rfl

theorem runVertices_shown {e : Engine} {m : Memory} {d : Draw} (hcount : d.count ≠ 0)
    (hshown : (runVertices e m d).hidden = false) :
    runVertices e m d = ⟨d.size, e.capture (capturedOf m d.src d.runs), false,
      d.runs.map fun run => e.hasPinkPreview && e.matchesPinkPreview m (d.src + run.offset)⟩ := by
  have hloop := runLoop_eq e m d.primitive d.vertexSize d.count d.src 0
  rw [Nat.add_zero] at hloop
  unfold runVertices at hshown ⊢
  rw [if_neg hcount] at hshown ⊢
  split at hshown
  · cases hshown
  · rename_i hcodes
    rw [if_neg hcodes, hloop]
    rfl

def activePatterns (codes : List HideObject) : List Bytes :=
  (codes.filter (·.active)).flatMap fun code => code.entries.map buildSkipEntry

theorem mem_activePatterns {codes : List HideObject} {code : HideObject} {entry : HideObjectEntry}
    (hcode : code ∈ codes) (hactive : code.active = true) (hentry : entry ∈ code.entries) :
    buildSkipEntry entry ∈ activePatterns codes := by
  unfold activePatterns
  rw [List.mem_flatMap]
  exact ⟨code, List.mem_filter.mpr ⟨hcode, hactive⟩, List.mem_map_of_mem hentry⟩

theorem length_le_of_mem_activePatterns {codes : List HideObject} {pattern : Bytes}
    (h : pattern ∈ activePatterns codes) : pattern.length ≤ 16 := by
  obtain ⟨code, -, hpattern⟩ := List.mem_flatMap.mp h
  obtain ⟨entry, -, rfl⟩ := List.mem_map.mp hpattern
  rw [length_buildSkipEntry]
  exact entry.type.getByteCount_le

theorem hidden_iff (e : Engine) (codes : List HideObject) (m : Memory) (d : Draw) :
    (runVertices (e.applyCodes codes) m d).hidden = true ↔
      d.count ≠ 0 ∧ ∃ pattern ∈ activePatterns codes, beginsWith m d.src pattern = true := by
  have hcodes : ((e.applyCodes codes).hasCodes && (e.applyCodes codes).shouldHide m d.src) = true ↔
      ∃ pattern ∈ activePatterns codes, beginsWith m d.src pattern = true := by
    have hentries : (e.applyCodes codes).activeEntries = activePatterns codes := rfl
    have hupdating : (e.applyCodes codes).updating = false := rfl
    simp only [Engine.hasCodes, Engine.shouldHide, hentries, hupdating, Bool.false_eq_true, if_false,
      Bool.and_eq_true, List.any_eq_true, Bool.not_eq_true', List.isEmpty_eq_false_iff]
    constructor
    · exact And.right
    · rintro ⟨pattern, hmem, hfound⟩
      exact ⟨List.ne_nil_of_mem hmem, pattern, hmem, hfound⟩
  rw [← hcodes]
  unfold runVertices
  by_cases hcount : d.count = 0
  · simp [hcount]
  · rw [if_neg hcount]
    split <;> simp_all

/-! ### Hiding by the draw's own bytes -/

/-- Whether the draw is hidden does not change while its bytes stay, whatever stands behind
    them. -/
def HidesByBytes (e : Engine) (m : Memory) (d : Draw) : Prop :=
  ∀ (m' : Memory) (src' : Nat), { d with src := src' }.bytes m' = d.bytes m →
    (runVertices e m' { d with src := src' }).hidden = (runVertices e m d).hidden

/-- The patterns settle what begins with these bytes: none of them goes on behind the last byte,
    or together they find every way of going on. -/
def Settled (patterns : List Bytes) (bytes : Bytes) : Prop :=
  (∀ pattern ∈ patterns, bytes.length < pattern.length → ¬ bytes <+: pattern) ∨
    ∀ tail : Bytes, tail.length = 16 → ∃ pattern ∈ patterns, pattern <+: bytes ++ tail

theorem found_iff_of_no_longer {patterns : List Bytes} {m : Memory} {src n : Nat}
    (h : ∀ pattern ∈ patterns, n < pattern.length → ¬ bytesAt m src n <+: pattern) :
    (∃ pattern ∈ patterns, beginsWith m src pattern = true) ↔
      ∃ pattern ∈ patterns, pattern <+: bytesAt m src n := by
  constructor
  · rintro ⟨pattern, hmem, hfound⟩
    rcases Nat.lt_or_ge n pattern.length with hlong | hshort
    · exact absurd (prefix_of_beginsWith (Nat.le_of_lt hlong) hfound) (h pattern hmem hlong)
    · exact ⟨pattern, hmem, (beginsWith_iff_starts hshort).mp hfound⟩
  · rintro ⟨pattern, hmem, hstarts⟩
    have hle := hstarts.length_le
    rw [length_bytesAt] at hle
    exact ⟨pattern, hmem, (beginsWith_iff_starts hle).mpr hstarts⟩

theorem found_of_every_tail {patterns : List Bytes} {m : Memory} {src n : Nat}
    (h : ∀ tail : Bytes, tail.length = 16 →
      ∃ pattern ∈ patterns, pattern <+: bytesAt m src n ++ tail) :
    ∃ pattern ∈ patterns, beginsWith m src pattern = true := by
  obtain ⟨pattern, hmem, hstarts⟩ := h (bytesAt m (src + n) 16) (length_bytesAt ..)
  rw [← bytesAt_add] at hstarts
  have hle := hstarts.length_le
  rw [length_bytesAt] at hle
  exact ⟨pattern, hmem, (beginsWith_iff_starts hle).mpr hstarts⟩

/-- Patterns that do not settle the bytes are found behind some memory that begins with them, and
    not found behind another. -/
theorem exists_of_not_settled {patterns : List Bytes} {bytes : Bytes}
    (hlength : ∀ pattern ∈ patterns, pattern.length ≤ 16) (h : ¬ Settled patterns bytes)
    (src : Nat) :
    (∃ m, bytesAt m src bytes.length = bytes ∧
        ∃ pattern ∈ patterns, beginsWith m src pattern = true) ∧
      ∃ m, bytesAt m src bytes.length = bytes ∧
        ¬ ∃ pattern ∈ patterns, beginsWith m src pattern = true := by
  unfold Settled at h
  push Not at h
  obtain ⟨⟨pattern, hmem, hlong, hbegins⟩, tail, htail, hnone⟩ := h
  refine ⟨⟨placed pattern src, ?_, pattern, hmem, ?_⟩, placed (bytes ++ tail) src, ?_, ?_⟩
  · rw [bytesAt_placed _ _ (Nat.le_of_lt hlong)]
    exact (List.prefix_iff_eq_take.mp hbegins).symm
  · rw [beginsWith_iff, bytesAt_placed _ _ (Nat.le_refl _), List.take_length]
  · rw [bytesAt_placed _ _ (by simp), List.take_left]
  · rintro ⟨other, hother, hfound⟩
    have hle : other.length ≤ (bytes ++ tail).length := by
      have := hlength other hother
      simp only [List.length_append]
      omega
    rw [beginsWith_iff_starts hle, bytesAt_placed _ _ (Nat.le_refl _), List.take_length] at hfound
    exact hnone other hother hfound

theorem hidesByBytes_iff (e : Engine) (codes : List HideObject) (m : Memory) (d : Draw) :
    HidesByBytes (e.applyCodes codes) m d ↔
      d.count = 0 ∨ Settled (activePatterns codes) (d.bytes m) := by
  have hlen : (d.bytes m).length = d.size := length_bytesAt ..
  constructor
  · intro hsame
    by_contra hnot
    rw [not_or] at hnot
    obtain ⟨hcount, hsettled⟩ := hnot
    obtain ⟨⟨m₁, hm₁, hfound⟩, m₂, hm₂, hmissed⟩ := exists_of_not_settled
      (fun _ => length_le_of_mem_activePatterns) hsettled d.src
    rw [hlen] at hm₁ hm₂
    have hhidden : (runVertices (e.applyCodes codes) m₂ d).hidden = true :=
      (hsame m₂ d.src hm₂).trans ((hsame m₁ d.src hm₁).symm.trans
        ((hidden_iff e codes m₁ d).mpr ⟨hcount, hfound⟩))
    exact hmissed ((hidden_iff e codes m₂ d).mp hhidden).2
  · intro h m' src' hbytes
    have hb : bytesAt m' src' d.size = bytesAt m d.src d.size := hbytes
    rw [Bool.eq_iff_iff, hidden_iff, hidden_iff]
    rcases h with hcount | hfixed | hevery
    · simp [hcount]
    · rw [hlen] at hfixed
      have hfixed' := hfixed
      unfold Draw.bytes at hfixed hfixed'
      rw [← hb] at hfixed'
      rw [found_iff_of_no_longer hfixed, found_iff_of_no_longer hfixed', hb]
    · have hevery' := hevery
      unfold Draw.bytes at hevery hevery'
      rw [← hb] at hevery'
      exact and_congr_right' (iff_of_true (found_of_every_tail hevery') (found_of_every_tail hevery))

/-! ### Hunting -/

def Draw.BeginsLike (d : Draw) (m : Memory) (run : Run) : Prop :=
  d.captured m run = bytesAt m d.src (min run.size 16)

def Engine.idle : Engine := ⟨[], false, false, [], [], [], [], false⟩

/-- Activating the entry hides every later draw of the same bytes. -/
def HidesLater (m : Memory) (d : Draw) (entry : HideObjectEntry) : Prop :=
  ∀ (e : Engine) (codes : List HideObject) (m' : Memory) (d' : Draw), d'.bytes m' = d.bytes m →
    (∃ code ∈ codes, code.active = true ∧ entry ∈ code.entries) →
      (runVertices (e.applyCodes codes) m' d').hidden = true

/-- With the entry as the preview every later draw of the same bytes is marked pink, unless it is
    hidden. -/
def MarksLater (m : Memory) (d : Draw) (entry : HideObjectEntry) : Prop :=
  ∀ (e : Engine) (entries : List HideObjectEntry) (m' : Memory) (d' : Draw),
    d'.bytes m' = d.bytes m → entry ∈ entries →
      (runVertices (e.setPinkPreview entries) m' d').hidden = false →
        true ∈ (runVertices (e.setPinkPreview entries) m' d').pink

/-- The same of the later draws that are split as this one is. -/
def MarksAgain (m : Memory) (d : Draw) (entry : HideObjectEntry) : Prop :=
  ∀ (e : Engine) (entries : List HideObjectEntry) (m' : Memory) (src' : Nat),
    { d with src := src' }.bytes m' = d.bytes m → entry ∈ entries →
      (runVertices (e.setPinkPreview entries) m' { d with src := src' }).hidden = false →
        true ∈ (runVertices (e.setPinkPreview entries) m' { d with src := src' }).pink

theorem Draw.captured_eq_of_bytes {m m' : Memory} {d d' : Draw} (hbytes : d'.bytes m' = d.bytes m)
    {o k : Nat} (h : o + k ≤ d.size) :
    bytesAt m' (d'.src + o) k = bytesAt m (d.src + o) k := by
  have hsize : d'.size = d.size := by
    have := congrArg List.length hbytes
    simpa [Draw.bytes] using this
  rw [← drop_take_bytesAt m d.src h, ← drop_take_bytesAt m' d'.src (hsize ▸ h)]
  exact congrArg (fun l => (l.drop o).take k) hbytes

theorem mem_runs_pink {e : Engine} {entries : List HideObjectEntry} {entry : HideObjectEntry}
    {m : Memory} {d : Draw} {run : Run} (hmem : entry ∈ entries) (hrun : run ∈ d.runs)
    (hcount : d.count ≠ 0) (hfound : beginsWith m (d.src + run.offset) (buildSkipEntry entry) = true)
    (hshown : (runVertices (e.setPinkPreview entries) m d).hidden = false) :
    true ∈ (runVertices (e.setPinkPreview entries) m d).pink := by
  have hpattern : buildSkipEntry entry ∈ (e.setPinkPreview entries).pinkEntries :=
    List.mem_map_of_mem hmem
  rw [runVertices_shown hcount hshown]
  refine List.mem_map.mpr ⟨run, hrun, Bool.and_eq_true_iff.mpr ⟨?_, ?_⟩⟩
  · simpa [Engine.setPinkPreview] using List.ne_nil_of_mem hmem
  · exact List.any_eq_true.mpr ⟨_, hpattern, hfound⟩

section Captured
variable {m : Memory} {d : Draw} {run : Run} {entry : HideObjectEntry}

theorem pattern_of_captured (h : buildEntryFromPrefix (d.captured m run) = some entry) :
    buildSkipEntry entry = d.captured m run := by
  rw [buildSkipEntry_buildEntryFromPrefix h]
  exact List.take_of_length_le (by simp [Draw.captured])

theorem size_ne_zero_of_captured (h : buildEntryFromPrefix (d.captured m run) = some entry) :
    run.size ≠ 0 := by
  intro hzero
  simp [buildEntryFromPrefix, Draw.captured, hzero] at h

theorem count_ne_zero_of_bytes {m' : Memory} {d' : Draw} (hrun : run ∈ d.runs)
    (h : buildEntryFromPrefix (d.captured m run) = some entry)
    (hbytes : d'.bytes m' = d.bytes m) : d'.count ≠ 0 := by
  intro hzero
  have hsize : d'.size = d.size := by
    have := congrArg List.length hbytes
    simpa [Draw.bytes] using this
  have hbound := Draw.runs_bounds hrun
  have hne := size_ne_zero_of_captured h
  have hd' : d'.size = 0 := by simp [Draw.size, hzero]
  omega

theorem beginsWith_captured_iff {m' : Memory} {src : Nat}
    (h : buildEntryFromPrefix (d.captured m run) = some entry) :
    beginsWith m' src (buildSkipEntry entry) = true ↔
      bytesAt m' src (min run.size 16) = d.captured m run := by
  rw [beginsWith_iff, pattern_of_captured h]
  simp [Draw.captured]

theorem beginsWith_later {m' : Memory} {d' : Draw} (hrun : run ∈ d.runs)
    (h : buildEntryFromPrefix (d.captured m run) = some entry) (hlike : d.BeginsLike m run)
    (hbytes : d'.bytes m' = d.bytes m) : beginsWith m' d'.src (buildSkipEntry entry) = true := by
  have hbound := Draw.runs_bounds hrun
  have hstart := Draw.captured_eq_of_bytes hbytes (o := 0) (k := min run.size 16) (by omega)
  rw [Nat.add_zero, Nat.add_zero] at hstart
  rw [beginsWith_captured_iff h, hstart]
  exact hlike.symm

theorem hidesLater_iff (hrun : run ∈ d.runs)
    (h : buildEntryFromPrefix (d.captured m run) = some entry) :
    HidesLater m d entry ↔ d.BeginsLike m run := by
  constructor
  · intro hhides
    have hhidden := hhides Engine.idle [⟨"", [entry], true⟩] m d rfl
      ⟨_, List.mem_singleton_self _, rfl, List.mem_singleton_self _⟩
    obtain ⟨-, pattern, hpattern, hfound⟩ := (hidden_iff _ _ _ _).mp hhidden
    obtain rfl : pattern = buildSkipEntry entry := by simpa [activePatterns] using hpattern
    exact ((beginsWith_captured_iff h).mp hfound).symm
  · rintro hlike e codes m' d' hbytes ⟨code, hcode, hactive, hentry⟩
    exact (hidden_iff _ _ _ _).mpr ⟨count_ne_zero_of_bytes hrun h hbytes, _,
      mem_activePatterns hcode hactive hentry, beginsWith_later hrun h hlike hbytes⟩

theorem marksLater_iff (hrun : run ∈ d.runs)
    (h : buildEntryFromPrefix (d.captured m run) = some entry) :
    MarksLater m d entry ↔ d.BeginsLike m run := by
  constructor
  · intro hmarks
    let whole : Draw := { d with primitive := .triangleStrip }
    have hbytes : whole.bytes m = d.bytes m := rfl
    have hcount : whole.count ≠ 0 := count_ne_zero_of_bytes hrun h hbytes
    have hshown : (runVertices (Engine.idle.setPinkPreview [entry]) m whole).hidden = false := by
      unfold runVertices
      rw [if_neg hcount]
      rfl
    have hpink := hmarks Engine.idle [entry] m whole rfl (List.mem_singleton_self _) hshown
    rw [runVertices_shown hcount hshown, Draw.runs_of_not_canSplit rfl] at hpink
    have hfound : beginsWith m d.src (buildSkipEntry entry) = true := by
      simpa [Engine.matchesPinkPreview, Engine.setPinkPreview, Engine.idle, whole] using hpink
    exact ((beginsWith_captured_iff h).mp hfound).symm
  · intro hlike e entries m' d' hbytes hmem hshown
    obtain ⟨rest, hruns⟩ := d'.runs_first
    refine mem_runs_pink hmem (hruns ▸ List.mem_cons_self) (count_ne_zero_of_bytes hrun h hbytes)
      ?_ hshown
    exact beginsWith_later hrun h hlike hbytes

theorem marksAgain (hrun : run ∈ d.runs)
    (h : buildEntryFromPrefix (d.captured m run) = some entry) : MarksAgain m d entry := by
  intro e entries m' src' hbytes hmem hshown
  have hbound := Draw.runs_bounds hrun
  refine mem_runs_pink (d := { d with src := src' }) hmem hrun
    (count_ne_zero_of_bytes hrun h hbytes) ?_ hshown
  rw [beginsWith_captured_iff h]
  exact Draw.captured_eq_of_bytes hbytes (by omega)

end Captured

/-- The entries a hunter gets for the draw: it is captured under a number, and when its frame has
    ended the entries of that number are asked for. -/
def hunted (e : Engine) (m : Memory) (d : Draw) (drawSequence : Nat) : List HideObjectEntry :=
  let e := (runVertices (e.setCaptureEnabled true) m d).engine
  let e := (e.commitCapturedPrefixesForDraw drawSequence).onFrameEnd
  (e.getCapturedEntriesForDrawSequences [drawSequence]).entries

theorem runVertices_hidden (e : Engine) (m : Memory) (d : Draw) :
    (runVertices e m d).hidden = (d.count != 0 && (e.hasCodes && e.shouldHide m d.src)) := by
  unfold runVertices
  by_cases hcount : d.count = 0
  · simp [hcount]
  · rw [if_neg hcount]
    split <;> simp_all

theorem runVertices_engine_of_hidden {e : Engine} {m : Memory} {d : Draw}
    (h : d.count = 0 ∨ (runVertices e m d).hidden = true) : (runVertices e m d).engine = e := by
  unfold runVertices at h ⊢
  split
  · rfl
  · rename_i hcount
    split
    · rfl
    · rename_i hcodes
      simp [hcount, hcodes] at h

theorem display_onFrameEnd {e : Engine} (drawSequence : Nat) (hcapture : e.captureEnabled = true)
    (hcollecting : e.collectingCapturePrefixes = []) :
    (e.commitCapturedPrefixesForDraw drawSequence).onFrameEnd.displayCapturePrefixes =
      e.pendingCapturePrefixes.map fun vertexPrefix => ⟨drawSequence, vertexPrefix⟩ := by
  simp [Engine.commitCapturedPrefixesForDraw, Engine.onFrameEnd, hcapture, hcollecting]

theorem mem_hunted {e : Engine} {m : Memory} {d : Draw} {drawSequence : Nat}
    {entry : HideObjectEntry} :
    entry ∈ hunted e m d drawSequence ↔
      d.count ≠ 0 ∧ (runVertices e m d).hidden = false ∧
        ∃ run ∈ d.runs, buildEntryFromPrefix (d.captured m run) = some entry := by
  have hsame : (runVertices (e.setCaptureEnabled true) m d).hidden =
      (runVertices e m d).hidden := by
    rw [runVertices_hidden, runVertices_hidden]
    rfl
  unfold hunted
  rw [Engine.mem_capturedEntries]
  by_cases hcaptured : d.count ≠ 0 ∧ (runVertices e m d).hidden = false
  · obtain ⟨hcount, hshown⟩ := hcaptured
    rw [runVertices_shown hcount (hsame.trans hshown), display_onFrameEnd _ rfl rfl]
    simp only [hcount, hshown, ne_eq, not_false_eq_true, true_and]
    constructor
    · rintro ⟨captured, hmem, -, hbuilt⟩
      obtain ⟨vertexPrefix, hstarts, rfl⟩ := List.mem_map.mp hmem
      obtain ⟨run, hrun, rfl⟩ := List.mem_map.mp hstarts
      exact ⟨run, (List.mem_filter.mp hrun).1, hbuilt⟩
    · rintro ⟨run, hrun, hbuilt⟩
      have hsize : (run.size != 0) = true := by simpa using size_ne_zero_of_captured hbuilt
      exact ⟨_, List.mem_map_of_mem (List.mem_map_of_mem (List.mem_filter.mpr ⟨hrun, hsize⟩)),
        List.mem_singleton_self _, hbuilt⟩
  · have hidle : d.count = 0 ∨ (runVertices (e.setCaptureEnabled true) m d).hidden = true := by
      rw [hsame]
      simpa [or_iff_not_imp_left] using hcaptured
    rw [runVertices_engine_of_hidden hidle, display_onFrameEnd _ rfl rfl]
    constructor
    · rintro ⟨captured, hmem, -⟩
      cases hmem
    · rintro ⟨hcount, hshown, -⟩
      exact absurd ⟨hcount, hshown⟩ hcaptured

/-- Whether a draw is hidden is settled by its own bytes just when the patterns settle what begins
    with them; what is hunted of a draw hides and previews the later draws of the same bytes just
    when the run it was captured from begins as the draw does, and previews those that are split
    in the same way always. -/
theorem hiding_and_hunting (e : Engine) (codes : List HideObject) (m : Memory) (d : Draw) :
    (HidesByBytes (e.applyCodes codes) m d ↔
        d.count = 0 ∨ Settled (activePatterns codes) (d.bytes m)) ∧
      (∀ drawSequence entry, entry ∈ hunted e m d drawSequence ↔
        d.count ≠ 0 ∧ (runVertices e m d).hidden = false ∧
          ∃ run ∈ d.runs, buildEntryFromPrefix (d.captured m run) = some entry) ∧
      ∀ run ∈ d.runs, ∀ entry, buildEntryFromPrefix (d.captured m run) = some entry →
        (HidesLater m d entry ↔ d.BeginsLike m run) ∧
          (MarksLater m d entry ↔ d.BeginsLike m run) ∧ MarksAgain m d entry :=
  ⟨hidesByBytes_iff e codes m d, fun _ _ => mem_hunted, fun _ hrun _ h =>
    ⟨hidesLater_iff hrun h, marksLater_iff hrun h, marksAgain hrun h⟩⟩

/-- A code of two bytes and a draw of one: the next byte decides. Of a draw of `maxVertices + 1`
    points whose last one is alone in its run, that run's entry does not hide the draw. -/
theorem hiding_and_hunting_fails :
    ¬ HidesByBytes (Engine.idle.applyCodes [⟨"", [⟨.bits16, 0, 0x0102⟩], true⟩])
        (placed [1, 2] 0) ⟨.points, 1, 1, 0⟩ ∧
      ⟨.bits8, 0, 1⟩ ∈ hunted Engine.idle (fun a => if a = 16380 then 1 else 0)
        ⟨.points, 16381, 1, 0⟩ 0 ∧
      ¬ HidesLater (fun a => if a = 16380 then 1 else 0) ⟨.points, 16381, 1, 0⟩
        ⟨.bits8, 0, 1⟩ := by
  have hruns : (⟨.points, 16381, 1, 0⟩ : Draw).runs = [⟨0, 16380⟩, ⟨16380, 1⟩] := by
    unfold Draw.runs
    rw [runsFrom, runsFrom]
    decide
  have hmem : (⟨16380, 1⟩ : Run) ∈ (⟨.points, 16381, 1, 0⟩ : Draw).runs := by
    rw [hruns]
    decide
  have hbuilt : buildEntryFromPrefix ((⟨.points, 16381, 1, 0⟩ : Draw).captured
      (fun a => if a = 16380 then 1 else 0) ⟨16380, 1⟩) = some ⟨.bits8, 0, 1⟩ := by
    decide +kernel
  refine ⟨?_, mem_hunted.mpr ⟨by decide, by rw [runVertices_hidden]; rfl, _, hmem, hbuilt⟩, ?_⟩
  · intro hsame
    have hother := hsame (placed [1, 3] 0) 0 (by decide)
    rw [runVertices_hidden, runVertices_hidden] at hother
    revert hother
    decide +kernel
  · rw [hidesLater_iff hmem hbuilt]
    unfold Draw.BeginsLike
    decide +kernel

end DolphinXR.HideObjectEngine
