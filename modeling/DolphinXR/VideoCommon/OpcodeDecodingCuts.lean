import DolphinXR.VideoCommon.OpcodeDecoding

/- A FIFO may be cut anywhere: what a decoder makes of the pieces, each read behind what the last
   one left over, is what it makes of the whole. Only a run of NOPs may be cut in two, so calls are
   compared with neighbouring NOPs merged.

   A piece is decoded by induction on the commands in it. A whole command stays as it is when more
   follows, and a command that is not whole calls nothing. -/
namespace DolphinXR.VideoCommon
open Lib

namespace Decoder
variable {τ : Type}

/-! ### Runs of NOPs -/

/-- A call in front of calls whose NOPs are merged. -/
def consMerged (call : Call τ) (calls : List (Call τ)) : List (Call τ) :=
  match call, calls with
  | ⟨.onNop count, data⟩, ⟨.onNop count', data'⟩ :: rest =>
    ⟨.onNop (count + count'), data ++ data'⟩ :: rest
  | call, calls => call :: calls

def mergeNops (calls : List (Call τ)) : List (Call τ) := calls.foldr consMerged []

@[simp] theorem mergeNops_nil : mergeNops ([] : List (Call τ)) = [] := rfl

@[simp] theorem mergeNops_cons (call : Call τ) (calls : List (Call τ)) :
    mergeNops (call :: calls) = consMerged call (mergeNops calls) := rfl

theorem mergeNops_append_congr (before : List (Call τ)) {calls calls' : List (Call τ)}
    (h : mergeNops calls = mergeNops calls') :
    mergeNops (before ++ calls) = mergeNops (before ++ calls') := by
  rw [mergeNops, mergeNops, List.foldr_append, List.foldr_append]
  exact congrArg (List.foldr consMerged · before) h

theorem mergeNops_nop_nop (count count' : Nat) (data data' : Bytes) (calls : List (Call τ)) :
    mergeNops (⟨.onNop count, data⟩ :: ⟨.onNop count', data'⟩ :: calls) =
      mergeNops (⟨.onNop (count + count'), data ++ data'⟩ :: calls) := by
  simp only [mergeNops_cons]
  rcases mergeNops calls with _ | ⟨⟨event, data''⟩, rest⟩
  · rfl
  · cases event
    case onNop => simp [consMerged, Nat.add_assoc]
    all_goals rfl

theorem nopCount_append {data : Bytes} (h : nopCount data < data.length) (more : Bytes) :
    nopCount (data ++ more) = nopCount data := by
  unfold nopCount at h ⊢
  rw [List.takeWhile_append, if_neg (Nat.ne_of_lt h)]

theorem nopCount_append_of_all {data : Bytes} (h : nopCount data = data.length) (more : Bytes) :
    nopCount (data ++ more) = data.length + nopCount more := by
  unfold nopCount at h ⊢
  rw [List.takeWhile_append, if_pos h, List.length_append]

theorem eq_cons_of_nopCount_pos {data : Bytes} (h : 0 < nopCount data) :
    ∃ rest, data = 0x00 :: rest := by
  cases data with
  | nil => cases h
  | cons b rest =>
    by_cases hb : b = 0x00
    · exact ⟨rest, by rw [hb]⟩
    · simp [nopCount, hb] at h

/-! ### One run -/

def andThen (r r' : Decoded τ) : Decoded τ := ⟨r.size + r'.size, r.calls ++ r'.calls, r'.state⟩

def merged (r : Decoded τ) : Nat × List (Call τ) × CPState := (r.size, mergeNops r.calls, r.state)

theorem andThen_assoc (r r' r'' : Decoded τ) :
    andThen (andThen r r') r'' = andThen r (andThen r' r'') := by
  simp only [andThen, Nat.add_assoc, List.append_assoc]

theorem merged_andThen_congr (r : Decoded τ) {s s' : Decoded τ} (h : merged s = merged s') :
    merged (andThen r s) = merged (andThen r s') := by
  simp only [merged, Prod.mk.injEq] at h
  obtain ⟨hsize, hcalls, hstate⟩ := h
  simp only [merged, andThen, hsize, hstate, mergeNops_append_congr r.calls hcalls]

def ofTaken (data : Bytes) (taken : Taken τ) : Decoded τ :=
  ⟨taken.size, [⟨taken.event, data.take taken.size⟩], taken.state⟩

section Run
variable {d : Decoder τ} {data : Bytes} {cp : CPState} {taken : Taken τ}

theorem run_of_none (h : d.detail data cp = none) : d.run data cp = ⟨0, [], cp⟩ := by
  rw [run]
  simp only [runCommand, h]
  split <;> rfl

theorem run_of_some (h : d.detail data cp = some taken) :
    d.run data cp = andThen (ofTaken data taken) (d.run (data.drop taken.size) taken.state) := by
  have hsize := d.detail_size h
  rw [run, dif_neg (by omega)]
  simp only [runCommand, h]
  rw [dif_neg (by omega)]
  rfl

theorem run_induction {motive : Bytes → CPState → Prop}
    (h : ∀ data cp taken, d.detail data cp = some taken →
      motive (data.drop taken.size) taken.state → motive data cp)
    (h' : ∀ data cp, d.detail data cp = none → motive data cp) (data : Bytes) (cp : CPState) :
    motive data cp := by
  induction hlength : data.length using Nat.strongRecOn generalizing data cp with
  | ind n ih =>
    cases htaken : d.detail data cp with
    | none => exact h' data cp htaken
    | some taken =>
      have hsize := d.detail_size htaken
      refine h data cp taken htaken (ih _ ?_ _ _ rfl)
      rw [List.length_drop]
      omega

theorem run_size_le (data : Bytes) (cp : CPState) : (d.run data cp).size ≤ data.length := by
  induction data, cp using run_induction (d := d) with
  | h data cp taken h ih =>
    have hsize := d.detail_size h
    rw [List.length_drop] at ih
    rw [run_of_some h]
    simp only [andThen, ofTaken]
    omega
  | h' data cp h =>
    rw [run_of_none h]
    exact Nat.zero_le _

theorem run_rest (data : Bytes) (cp : CPState) :
    d.run (data.drop (d.run data cp).size) (d.run data cp).state =
      ⟨0, [], (d.run data cp).state⟩ := by
  induction data, cp using run_induction (d := d) with
  | h data cp taken h ih =>
    rw [run_of_some h]
    simp only [andThen, ofTaken]
    rw [← List.drop_drop]
    exact ih
  | h' data cp h =>
    have hrun := run_of_none h
    rw [hrun]
    exact hrun

theorem detail_append_cases (h : d.detail data cp = some taken) (more : Bytes) :
    d.detail (data ++ more) cp = some taken ∨
      nopCount data = data.length ∧ taken = ⟨data.length, .onNop data.length, cp⟩ ∧
        0 < nopCount more := by
  cases data with
  | nil => cases h
  | cons cmd rest =>
    by_cases hnop : cmd = 0x00
    · subst hnop
      rw [detail_nop] at h
      obtain rfl := Option.some.inj h
      rw [List.cons_append, detail_nop, ← List.cons_append]
      rcases Nat.lt_or_eq_of_le (nopCount_le (0x00 :: rest)) with hlt | hall
      · rw [nopCount_append hlt]
        exact .inl rfl
      · rcases Nat.eq_zero_or_pos (nopCount more) with hzero | hpos
        · rw [nopCount_append_of_all hall, hzero, hall]
          exact .inl rfl
        · exact .inr ⟨hall, by rw [hall], hpos⟩
    · exact .inl (d.detail_append hnop h more)

theorem run_of_nops (h : 0 < nopCount data) :
    d.run data cp = andThen (ofTaken data ⟨nopCount data, .onNop (nopCount data), cp⟩)
      (d.run (data.drop (nopCount data)) cp) := by
  obtain ⟨rest, rfl⟩ := eq_cons_of_nopCount_pos h
  exact run_of_some (detail_nop d rest cp)

theorem run_nops_append {more : Bytes} (hdata : nopCount data = data.length)
    (hpos : 0 < data.length) (hmore : 0 < nopCount more) :
    merged (andThen (ofTaken data ⟨data.length, .onNop data.length, cp⟩) (d.run more cp)) =
      merged (d.run (data ++ more) cp) := by
  have hcount := nopCount_append_of_all hdata more
  have hdrop : (data ++ more).drop (data.length + nopCount more) = more.drop (nopCount more) := by
    rw [← List.drop_drop, List.drop_left]
  have htake : (data ++ more).take (data.length + nopCount more) =
      data.take data.length ++ more.take (nopCount more) := by
    rw [List.take_append, List.take_length, List.take_of_length_le (Nat.le_add_right ..),
      Nat.add_sub_cancel_left]
  have hwhole : 0 < nopCount (data ++ more) := by omega
  rw [run_of_nops hmore, run_of_nops hwhole, hcount, hdrop]
  simp only [merged, andThen, ofTaken, htake, List.singleton_append, Nat.add_assoc]
  rw [mergeNops_nop_nop]

theorem run_append (data more : Bytes) (cp : CPState) :
    merged (andThen (d.run data cp)
        (d.run (data.drop (d.run data cp).size ++ more) (d.run data cp).state)) =
      merged (d.run (data ++ more) cp) := by
  induction data, cp using run_induction (d := d) with
  | h data cp taken h ih =>
    have hsize := d.detail_size h
    have hrun := run_of_some h
    rcases detail_append_cases h more with hsame | ⟨hall, rfl, hmore⟩
    · have htaken : ofTaken (data ++ more) taken = ofTaken data taken := by
        rw [ofTaken, ofTaken, List.take_append_of_le_length hsize.2]
      have hrest : data.drop (d.run data cp).size =
          (data.drop taken.size).drop (d.run (data.drop taken.size) taken.state).size := by
        rw [hrun, List.drop_drop]
        rfl
      have hstate : (d.run data cp).state = (d.run (data.drop taken.size) taken.state).state := by
        rw [hrun]
        rfl
      rw [hrest, hstate, hrun, andThen_assoc, run_of_some hsame, htaken,
        List.drop_append_of_le_length hsize.2]
      exact merged_andThen_congr _ ih
    · have hnil : d.run (data.drop data.length) cp = ⟨0, [], cp⟩ := by
        rw [List.drop_length]
        exact run_of_none rfl
      rw [hnil] at hrun
      have hone : d.run data cp = ofTaken data ⟨data.length, .onNop data.length, cp⟩ := by
        rw [hrun]
        simp [andThen, ofTaken]
      rw [hone]
      simp only [ofTaken, List.drop_length, List.nil_append]
      exact run_nops_append hall hsize.1 hmore
  | h' data cp h =>
    rw [run_of_none h]
    simp [andThen]

end Run

/-! ### Pieces -/

/-- The pieces as they arrive, each behind what is left over (`pending`). -/
def runPieces (d : Decoder τ) : List Bytes → Bytes → CPState → Decoded τ
  | [], _, cp => ⟨0, [], cp⟩
  | piece :: pieces, pending, cp =>
    let r := d.run (pending ++ piece) cp
    andThen r (runPieces d pieces ((pending ++ piece).drop r.size) r.state)

theorem runPieces_pending (d : Decoder τ) (pieces : List Bytes) {pending : Bytes} {cp : CPState}
    (h : d.run pending cp = ⟨0, [], cp⟩) :
    merged (runPieces d pieces pending cp) = merged (d.run (pending ++ pieces.flatten) cp) := by
  induction pieces generalizing pending cp with
  | nil => rw [List.flatten_nil, List.append_nil, h, runPieces]
  | cons piece pieces ih =>
    rw [runPieces, List.flatten_cons, ← List.append_assoc, ← run_append]
    exact merged_andThen_congr _ (ih (run_rest ..))

theorem runPieces_eq_run (d : Decoder τ) (pieces : List Bytes) (cp : CPState) :
    merged (runPieces d pieces [] cp) = merged (d.run pieces.flatten cp) :=
  runPieces_pending d pieces (run_of_none rfl)

theorem runCommand_of_size_zero {d : Decoder τ} {data : Bytes} {cp : CPState}
    (h : (d.runCommand data cp).size = 0) : d.runCommand data cp = ⟨0, [], cp⟩ := by
  unfold runCommand at h ⊢
  cases htaken : d.detail data cp with
  | none => rfl
  | some taken =>
    rw [htaken] at h
    exact absurd h (Nat.ne_of_gt (d.detail_size htaken).1)

theorem runCommand_size_le (d : Decoder τ) (data : Bytes) (cp : CPState) :
    (d.runCommand data cp).size ≤ data.length := by
  unfold runCommand
  cases htaken : d.detail data cp with
  | none => exact Nat.zero_le _
  | some taken => exact (d.detail_size htaken).2

theorem runCommand_incomplete {d : Decoder τ} {data more : Bytes} {cp : CPState}
    (hnop : data.head? ≠ some 0x00) (h : data.length < (d.runCommand (data ++ more) cp).size) :
    d.runCommand data cp = ⟨0, [], cp⟩ := by
  cases htaken : d.detail data cp with
  | none => rw [runCommand, htaken]
  | some taken =>
    exfalso
    cases data with
    | nil => cases htaken
    | cons cmd rest =>
      have hsame := d.detail_append (by simpa using hnop) htaken more
      rw [List.cons_append, runCommand, hsame] at h
      exact absurd (d.detail_size htaken).2 (Nat.not_le.mpr h)

/-- Decoding does not depend on where the stream is cut: a prefix and what it leaves over with the
    rest behind it, or any number of pieces, call what the whole calls, leave the state it leaves
    and consume as much; what is not whole calls nothing, and no more is consumed than there is. -/
theorem decoding_cut (d : Decoder τ) (cp : CPState) :
    (∀ data more, merged (andThen (d.run data cp)
          (d.run (data.drop (d.run data cp).size ++ more) (d.run data cp).state)) =
        merged (d.run (data ++ more) cp)) ∧
      (∀ pieces, merged (runPieces d pieces [] cp) = merged (d.run pieces.flatten cp)) ∧
      (∀ data more, data.head? ≠ some 0x00 →
        data.length < (d.runCommand (data ++ more) cp).size →
          d.runCommand data cp = ⟨0, [], cp⟩) ∧
      (∀ data, (d.runCommand data cp).size = 0 → d.runCommand data cp = ⟨0, [], cp⟩) ∧
      ∀ data, (d.runCommand data cp).size ≤ data.length ∧ (d.run data cp).size ≤ data.length :=
  ⟨fun data more => run_append data more cp, fun pieces => runPieces_eq_run d pieces cp,
    fun _ _ => runCommand_incomplete, fun _ => runCommand_of_size_zero,
    fun data => ⟨runCommand_size_le d data cp, run_size_le data cp⟩⟩

end Decoder

theorem runCallback_pieces (isWii : Bool) (memory : BitVec 32 → BitVec 32 → Option Bytes)
    (pieces : List Bytes) (cp : CPState) :
    Decoder.merged (Decoder.runPieces (runCallback isWii memory) pieces [] cp) =
      Decoder.merged ((runCallback isWii memory).run pieces.flatten cp) :=
  Decoder.runPieces_eq_run _ pieces cp

end DolphinXR.VideoCommon
