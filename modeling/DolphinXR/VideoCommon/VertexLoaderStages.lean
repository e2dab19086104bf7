import DolphinXR.VideoCommon.VertexLoader

/- What a stage does, whatever it reads: how many bytes it takes from the source and which words it
   writes one after the other. Both follow from the stage and from the counters that the stages of
   a vertex share. -/
namespace DolphinXR.VideoCommon

/-- The words from an address on. -/
def store (dst : Nat → Option (Slot × BitVec 32)) :
    Nat → List (Slot × BitVec 32) → Nat → Option (Slot × BitVec 32)
  | _, [] => dst
  | start, word :: words => store (Function.update dst start (some word)) (start + 4) words

theorem store_append (dst : Nat → Option (Slot × BitVec 32)) (start : Nat)
    (ws ws' : List (Slot × BitVec 32)) :
    store dst start (ws ++ ws') = store (store dst start ws) (start + 4 * ws.length) ws' := by
  induction ws generalizing dst start with
  | nil => rfl
  | cons w ws ih =>
    rw [List.cons_append, store, ih, store, List.length_cons]
    congr 1
    omega

theorem store_of_lt (dst : Nat → Option (Slot × BitVec 32)) {start a : Nat} (h : a < start)
    (ws : List (Slot × BitVec 32)) : store dst start ws a = dst a := by
  induction ws generalizing dst start with
  | nil => rfl
  | cons w ws ih => rw [store, ih _ (by omega), Function.update_of_ne (by omega)]

theorem store_getElem (dst : Nat → Option (Slot × BitVec 32)) (start : Nat)
    (ws : List (Slot × BitVec 32)) {k : Nat} (hk : k < ws.length) :
    store dst start ws (start + 4 * k) = some ws[k] := by
  induction ws generalizing dst start k with
  | nil => simp at hk
  | cons w ws ih =>
    rw [store]
    cases k with
    | zero => rw [store_of_lt _ (by omega), Nat.mul_zero, Nat.add_zero, Function.update_self]; rfl
    | succ k =>
      rw [show start + 4 * (k + 1) = start + 4 + 4 * k by omega,
        ih _ _ (Nat.lt_of_succ_lt_succ hk)]
      rfl

/-! ### What a state emits on the way to another one -/

structure Counters where
  tcIndex : Nat := 0
  colIndex : Nat := 0
  texmtxwrite : Nat := 0
  deriving DecidableEq

def LoaderState.counters (s : LoaderState) : Counters := ⟨s.tcIndex, s.colIndex, s.texmtxwrite⟩

/-- So many bytes have been taken, these words have been written, and nothing was taken back. -/
structure Emits (s s' : LoaderState) (bytes : Nat) (slots : List Slot) : Prop where
  read : s'.read = s.read + bytes
  words : ∃ ws : List (Slot × BitVec 32), ws.map Prod.fst = slots ∧
    s'.dst = store s.dst s.write ws ∧ s'.write = s.write + 4 * ws.length
  skipped : s'.skippedVertices = s.skippedVertices

theorem Emits.refl (s : LoaderState) : Emits s s 0 [] :=
  ⟨rfl, ⟨[], rfl, rfl, rfl⟩, rfl⟩

theorem Emits.trans {s s' s'' : LoaderState} {a b : Nat} {slots slots' : List Slot}
    (h : Emits s s' a slots) (h' : Emits s' s'' b slots') : Emits s s'' (a + b) (slots ++ slots') := by
  obtain ⟨hread, ⟨ws, hws, hdst, hwrite⟩, hskipped⟩ := h
  obtain ⟨hread', ⟨ws', hws', hdst', hwrite'⟩, hskipped'⟩ := h'
  refine ⟨by rw [hread', hread, Nat.add_assoc], ⟨ws ++ ws', ?_, ?_, ?_⟩, by rw [hskipped', hskipped]⟩
  · rw [List.map_append, hws, hws']
  · rw [store_append, hdst', hdst, hwrite]
  · rw [hwrite', hwrite, List.length_append]
    omega

theorem Emits.cast {s s' : LoaderState} {a b : Nat} {slots slots' : List Slot} (h : Emits s s' a slots)
    (hab : a = b) (hslots : slots = slots') : Emits s s' b slots' := hab ▸ hslots ▸ h

theorem Emits.of_eq {s s' s'' : LoaderState} {a : Nat} {slots : List Slot} (h : Emits s s' a slots)
    (hread : s''.read = s'.read) (hdst : s''.dst = s'.dst) (hwrite : s''.write = s'.write)
    (hskipped : s''.skippedVertices = s'.skippedVertices) : Emits s s'' a slots :=
  ⟨hread.trans h.read, hdst ▸ hwrite ▸ h.words, hskipped.trans h.skipped⟩

namespace LoaderState

theorem dataWrites_eq (s : LoaderState) (ws : List (Slot × BitVec 32)) :
    s.dataWrites ws =
      { s with dst := store s.dst s.write ws, write := s.write + 4 * ws.length } := by
  unfold dataWrites
  induction ws generalizing s with
  | nil => rfl
  | cons w ws ih =>
    rw [List.foldl_cons, ih]
    simp only [dataWrite, store, List.length_cons]
    congr 1
    omega

theorem emits_dataWrites (s : LoaderState) (ws : List (Slot × BitVec 32)) :
    Emits s (s.dataWrites ws) 0 (ws.map Prod.fst) := by
  rw [dataWrites_eq]
  exact ⟨rfl, ⟨ws, rfl, rfl, rfl⟩, rfl⟩

@[simp] theorem counters_dataWrites (s : LoaderState) (ws : List (Slot × BitVec 32)) :
    (s.dataWrites ws).counters = s.counters := by
  rw [dataWrites_eq]
  rfl

@[simp] theorem vertexSkip_dataWrites (s : LoaderState) (ws : List (Slot × BitVec 32)) :
    (s.dataWrites ws).vertexSkip = s.vertexSkip := by
  rw [dataWrites_eq]

theorem emits_dataWrite (s : LoaderState) (slot : Slot) (value : BitVec 32) :
    Emits s (s.dataWrite slot value) 0 [slot] := s.emits_dataWrites [(slot, value)]

theorem emits_dataSkip (s : LoaderState) (n : Nat) : Emits s (s.dataSkip n) n [] :=
  ⟨rfl, ⟨[], rfl, rfl, rfl⟩, rfl⟩

theorem readDirect_spec (source : VertexSource) (T : Scalar) (slot : Nat → Slot)
    (value : BitVec 32 → BitVec 32) (n : Nat) :
    ∀ (i : Nat) (s : LoaderState),
      Emits s (readDirect source T slot value i n s) (n * T.size) ((List.range' i n).map slot) ∧
      (readDirect source T slot value i n s).counters = s.counters ∧
      (readDirect source T slot value i n s).vertexSkip = s.vertexSkip := by
  induction n with
  | zero => exact fun i s => ⟨by rw [Nat.zero_mul]; exact .refl s, rfl, rfl⟩
  | succ n ih =>
    intro i s
    obtain ⟨hemits, hcounters, hskip⟩ := ih (i + 1) ((s.dataSkip T.size).dataWrite (slot i)
      (value (BitVec.ofNat 32 (dataPeek source.src s.read T.size))))
    have hone := ((s.emits_dataSkip T.size).trans (emits_dataWrite _ (slot i)
      (value (BitVec.ofNat 32 (dataPeek source.src s.read T.size))))).trans hemits
    refine ⟨hone.cast ?_ rfl, hcounters, hskip⟩
    rw [Nat.add_zero, Nat.add_comm, ← Nat.succ_mul]

theorem map_fst_words (slot : Nat → Slot) (value : Nat → BitVec 32) (l : List Nat) :
    (l.map fun i => (slot i, value i)).map Prod.fst = l.map slot := by
  rw [List.map_map]
  rfl

theorem readIndirect_spec (s : LoaderState) (source : VertexSource) (T : Scalar) (n offset : Nat)
    (data : Nat → BitVec 32) :
    Emits s (s.readIndirect source T n offset data) 0 ((List.range' offset n).map .normal) ∧
      (s.readIndirect source T n offset data).counters = s.counters ∧
      (s.readIndirect source T n offset data).vertexSkip = s.vertexSkip :=
  ⟨(s.emits_dataWrites _).cast rfl (map_fst_words ..), s.counters_dataWrites _,
    s.vertexSkip_dataWrites _⟩

theorem normalReadIndexOffset_spec (s : LoaderState) (source : VertexSource) (I : IndexType)
    (T : Scalar) (n offset : Nat) :
    Emits s (s.normalReadIndexOffset source I T n offset) I.size
        ((List.range' (offset * 3) (n * 3)).map .normal) ∧
      (s.normalReadIndexOffset source I T n offset).counters = s.counters ∧
      (s.normalReadIndexOffset source I T n offset).vertexSkip = s.vertexSkip := by
  obtain ⟨hemits, hcounters, hskip⟩ := (s.dataSkip I.size).readIndirect_spec source T (n * 3) (offset * 3)
    (element source T arrayNormal (s.readIndex source I))
  exact ⟨(s.emits_dataSkip I.size).trans hemits, hcounters, hskip⟩

end LoaderState

/-! ### The stages -/

namespace Stage

def size : Stage → Nat
  | posMtxReadDirectUByte | texMtxReadDirectUByte => 1
  | posReadDirect T n | texCoordReadDirect T n => n * T.size
  | normalReadDirect T n => n * 3 * T.size
  | normalReadIndexIndices3 I _ => 3 * I.size
  | colorReadDirect format => LoaderState.colorBytes format
  | posReadIndex I _ _ | normalReadIndex I _ _ | colorReadIndex I _ | texCoordReadIndex I _ _ => I.size
  | null | texMtxWrite _ | colorReadDummy | texCoordReadDummy | skipVertex => 0

def slots (c : Counters) : Stage → List Slot
  | posMtxReadDirectUByte => [.posmtx]
  | posReadDirect _ n | posReadIndex _ _ n => (List.range n).map .position
  | normalReadDirect _ n | normalReadIndex _ _ n => (List.range (n * 3)).map .normal
  | normalReadIndexIndices3 _ _ => (List.range 9).map .normal
  | colorReadDirect _ | colorReadIndex _ _ => [.color c.colIndex]
  | texCoordReadDirect _ n | texCoordReadIndex _ _ n => (List.range n).map (.texcoord c.tcIndex)
  | texMtxWrite zeros => List.replicate zeros .zero ++ [.texmtx c.texmtxwrite]
  | null | texMtxReadDirectUByte | colorReadDummy | texCoordReadDummy | skipVertex => []

def advance (c : Counters) : Stage → Counters
  | colorReadDirect _ | colorReadIndex _ _ | colorReadDummy => { c with colIndex := c.colIndex + 1 }
  | texCoordReadDirect _ _ | texCoordReadIndex _ _ _ | texCoordReadDummy =>
    { c with tcIndex := c.tcIndex + 1 }
  | texMtxWrite _ => { c with texmtxwrite := c.texmtxwrite + 1 }
  | _ => c

/-- The stages that only read and write: they do not say that the vertex is to be skipped, and take
    nothing back. -/
def Plain : Stage → Prop
  | null | posReadIndex _ _ _ | skipVertex => False
  | _ => True

structure Does (stage : Stage) (s s' : LoaderState) : Prop where
  emits : Emits s s' stage.size (stage.slots s.counters)
  counters : s'.counters = stage.advance s.counters

variable (source : VertexSource) (stride : Nat) (s : LoaderState)

theorem setColor_spec (format : ColorFormat) (bytes : Nat → UInt8) (offset : Nat) :
    Emits s (s.setColor format bytes offset) 0 [.color s.colIndex] ∧
      (s.setColor format bytes offset).counters = { s.counters with colIndex := s.colIndex + 1 } ∧
      (s.setColor format bytes offset).vertexSkip = s.vertexSkip := by
  have hset : ∀ value, Emits s (s.setCol value) 0 [.color s.colIndex] := fun value => by
    obtain ⟨hread, hwords, hskipped⟩ := s.emits_dataWrite (.color s.colIndex) value
    exact ⟨hread, hwords, hskipped⟩
  cases format <;> exact ⟨hset _, rfl, rfl⟩

theorem plain_spec {stage : Stage} (h : stage.Plain) :
    stage.Does s (stage.run source stride s) ∧
      (stage.run source stride s).vertexSkip = s.vertexSkip := by
  cases stage with
  | null | posReadIndex | skipVertex => exact h.elim
  | posMtxReadDirectUByte =>
    exact ⟨⟨(s.emits_dataSkip 1).trans (LoaderState.emits_dataWrite _ _ _), rfl⟩, rfl⟩
  | texMtxReadDirectUByte =>
    exact ⟨⟨(s.emits_dataSkip 1).of_eq rfl rfl rfl rfl, rfl⟩, rfl⟩
  | texMtxWrite zeros =>
    have hzeros := s.emits_dataWrites (List.replicate zeros (.zero, 0))
    rw [List.map_replicate] at hzeros
    have hwrite := hzeros.trans (LoaderState.emits_dataWrite _ (.texmtx s.texmtxwrite)
      (source.floats.ofIndex (s.curtexmtx s.texmtxwrite)))
    refine ⟨⟨hwrite.of_eq rfl rfl rfl rfl, ?_⟩, s.vertexSkip_dataWrites _⟩
    have hcounters := s.counters_dataWrites (List.replicate zeros (.zero, 0))
    simp only [LoaderState.counters, Counters.mk.injEq] at hcounters
    simp only [LoaderState.counters, run, LoaderState.texMtxWrite, LoaderState.dataWrite, advance,
      hcounters]
  | posReadDirect T n =>
    obtain ⟨hemits, hcounters, hskip⟩ := LoaderState.readDirect_spec source T .position
      (source.floats.scaled T · source.vat.posFrac) n 0 s
    rw [← List.range_eq_range'] at hemits
    exact ⟨⟨hemits, hcounters⟩, hskip⟩
  | normalReadDirect T n =>
    obtain ⟨hemits, hcounters, hskip⟩ := s.readIndirect_spec source T (n * 3) 0 fun i =>
      BitVec.ofNat 32 (dataPeek source.src (s.read + i * T.size) T.size)
    rw [← List.range_eq_range'] at hemits
    exact ⟨⟨(hemits.trans (LoaderState.emits_dataSkip _ (n * 3 * T.size))).cast (Nat.zero_add _)
      (List.append_nil _), hcounters⟩, hskip⟩
  | normalReadIndex I T n =>
    obtain ⟨hemits, hcounters, hskip⟩ := s.normalReadIndexOffset_spec source I T n 0
    rw [Nat.zero_mul, ← List.range_eq_range'] at hemits
    exact ⟨⟨hemits, hcounters⟩, hskip⟩
  | normalReadIndexIndices3 I T =>
    obtain ⟨h₁, hc₁, hs₁⟩ := s.normalReadIndexOffset_spec source I T 1 0
    obtain ⟨h₂, hc₂, hs₂⟩ := (s.normalReadIndexOffset source I T 1 0).normalReadIndexOffset_spec
      source I T 1 1
    obtain ⟨h₃, hc₃, hs₃⟩ := ((s.normalReadIndexOffset source I T 1 0).normalReadIndexOffset
      source I T 1 1).normalReadIndexOffset_spec source I T 1 2
    refine ⟨⟨((h₁.trans h₂).trans h₃).cast ?_ rfl, hc₃.trans (hc₂.trans hc₁)⟩, hs₃.trans (hs₂.trans hs₁)⟩
    rw [size]
    omega
  | colorReadDirect format =>
    obtain ⟨hemits, hcounters, hskip⟩ := setColor_spec s format source.src s.read
    exact ⟨⟨(hemits.trans (LoaderState.emits_dataSkip _ (LoaderState.colorBytes format))).cast
      (Nat.zero_add _) rfl, hcounters⟩, hskip⟩
  | colorReadIndex I format =>
    obtain ⟨hemits, hcounters, hskip⟩ := setColor_spec (s.dataSkip I.size) format
      (source.array (arrayColor0 + s.colIndex))
      (s.readIndex source I * source.arrayStride (arrayColor0 + s.colIndex))
    exact ⟨⟨(s.emits_dataSkip I.size).trans hemits, hcounters⟩, hskip⟩
  | colorReadDummy => exact ⟨⟨(Emits.refl s).of_eq rfl rfl rfl rfl, rfl⟩, rfl⟩
  | texCoordReadDirect T n =>
    obtain ⟨hemits, hcounters, hskip⟩ := LoaderState.readDirect_spec source T (.texcoord s.tcIndex)
      (source.floats.scaled T · (source.vat.getTexFrac s.tcIndex)) n 0 s
    rw [← List.range_eq_range'] at hemits
    refine ⟨⟨hemits.of_eq rfl rfl rfl rfl, ?_⟩, hskip⟩
    simp only [LoaderState.counters, Counters.mk.injEq] at hcounters
    simp only [LoaderState.counters, run, LoaderState.texCoordReadDirect, advance, hcounters]
  | texCoordReadIndex I T n =>
    have hwords := (s.emits_dataSkip I.size).trans ((s.dataSkip I.size).emits_dataWrites
      ((List.range n).map fun i => (.texcoord s.tcIndex i,
        source.floats.scaled T (LoaderState.element source T (arrayTexCoord0 + s.tcIndex)
          (s.readIndex source I) i) (source.vat.getTexFrac s.tcIndex))))
    rw [LoaderState.map_fst_words] at hwords
    refine ⟨⟨hwords.of_eq rfl rfl rfl rfl, ?_⟩, LoaderState.vertexSkip_dataWrites _ _⟩
    have hcounters := (s.dataSkip I.size).counters_dataWrites
      ((List.range n).map fun i => (.texcoord s.tcIndex i,
        source.floats.scaled T (LoaderState.element source T (arrayTexCoord0 + s.tcIndex)
          (s.readIndex source I) i) (source.vat.getTexFrac s.tcIndex)))
    simp only [LoaderState.counters, Counters.mk.injEq] at hcounters
    simp only [LoaderState.counters, run, LoaderState.texCoordReadIndex, advance, hcounters]
    rfl
  | texCoordReadDummy => exact ⟨⟨(Emits.refl s).of_eq rfl rfl rfl rfl, rfl⟩, rfl⟩

theorem posReadIndex_spec (I : IndexType) (T : Scalar) (n : Nat) :
    (posReadIndex I T n).Does s ((posReadIndex I T n).run source stride s) ∧
      ((posReadIndex I T n).run source stride s).vertexSkip =
        decide (dataPeek source.src s.read I.size = I.max) := by
  have hskip : Emits s { s.dataSkip I.size with
      vertexSkip := decide (s.readIndex source I = I.max) } I.size [] :=
    (s.emits_dataSkip I.size).of_eq rfl rfl rfl rfl
  have hwords := hskip.trans
    ((LoaderState.emits_dataWrites _ ((List.range n).map fun i => (.position i, source.floats.scaled T
        (LoaderState.element source T arrayPosition (s.readIndex source I) i) source.vat.posFrac))))
  rw [LoaderState.map_fst_words] at hwords
  exact ⟨⟨hwords, LoaderState.counters_dataWrites _ _⟩, LoaderState.vertexSkip_dataWrites _ _⟩

end Stage

/-! ### Several stages -/

def runStages (source : VertexSource) (stride : Nat) (stages : List Stage) (s : LoaderState) :
    LoaderState :=
  stages.foldl (fun s stage => stage.run source stride s) s

namespace Pipeline

def size (stages : List Stage) : Nat := (stages.map Stage.size).sum

def slots (c : Counters) : List Stage → List Slot
  | [] => []
  | stage :: stages => stage.slots c ++ slots (stage.advance c) stages

def advance (c : Counters) (stages : List Stage) : Counters := stages.foldl Stage.advance c

@[simp] theorem size_append (a b : List Stage) : size (a ++ b) = size a + size b := by
  simp [size]

@[simp] theorem advance_append (c : Counters) (a b : List Stage) :
    advance c (a ++ b) = advance (advance c a) b := List.foldl_append

@[simp] theorem slots_append (c : Counters) (a b : List Stage) :
    slots c (a ++ b) = slots c a ++ slots (advance c a) b := by
  induction a generalizing c with
  | nil => rfl
  | cons stage a ih => simp [slots, ih, advance]

/-- What several stages do but for the skipping of vertices. -/
structure Does (stages : List Stage) (s s' : LoaderState) : Prop where
  emits : Emits s s' (size stages) (slots s.counters stages)
  counters : s'.counters = advance s.counters stages

theorem Does.append {a b : List Stage} {s s' s'' : LoaderState} (h : Does a s s')
    (h' : Does b s' s'') : Does (a ++ b) s s'' := by
  obtain ⟨hemits, hcounters⟩ := h
  obtain ⟨hemits', hcounters'⟩ := h'
  rw [hcounters] at hemits' hcounters'
  refine ⟨(hemits.trans hemits').cast (size_append a b).symm (slots_append _ a b).symm, ?_⟩
  rw [hcounters', advance_append]

theorem Does.single {stage : Stage} {s s' : LoaderState} (h : stage.Does s s') :
    Does [stage] s s' :=
  ⟨h.emits.cast (by simp [size]) (by simp [slots]), h.counters⟩

theorem plain_spec (source : VertexSource) (stride : Nat) {stages : List Stage}
    (h : ∀ stage ∈ stages, stage.Plain) (s : LoaderState) :
    Does stages s (runStages source stride stages s) ∧
      (runStages source stride stages s).vertexSkip = s.vertexSkip := by
  induction stages generalizing s with
  | nil => exact ⟨⟨.refl s, rfl⟩, rfl⟩
  | cons stage stages ih =>
    obtain ⟨hstage, hskip⟩ := Stage.plain_spec source stride s (h stage List.mem_cons_self)
    obtain ⟨hrest, hskip'⟩ := ih (fun st hst => h st (List.mem_cons_of_mem _ hst))
      (stage.run source stride s)
    exact ⟨(Does.single hstage).append hrest, hskip'.trans hskip⟩

end Pipeline

end DolphinXR.VideoCommon
