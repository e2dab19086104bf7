import DolphinXR.Core.DSPSampleValues

/- Which samples a voice plays: the reads of an accelerator from its start address on, one after
   another. ADPCM comes in frames of sixteen addresses of which the first two hold the predictor
   of the others; reading steps over them and loads the predictor there. A voice ends in one of
   three ways, by where its end address lies in a frame. -/
namespace DolphinXR.DSP

namespace Accelerator
variable {σ : Type} (o : Owner σ)

/-- A read as it happens: its address, the value it returns, and the exceptions it raises. -/
structure Visit where
  address : Nat
  val : BitVec 16
  raised : List EndException

/-- The reads with the given coefficients, and what they leave. -/
def play : List (Vector (BitVec 16) 16) → σ → Accelerator → List Visit × σ × Accelerator
  | [], s, a => ([], s, a)
  | coefs :: rest, s, a =>
    let r := a.readSample o coefs s
    let (visits, left) := play rest r.owner r.acc
    (⟨a.currentAddress.toNat, r.val, r.raised⟩ :: visits, left)

/-- The values in turn, each of the sample at its address and the two values before it. -/
def Decoded (value : Vector (BitVec 16) 16 → Nat → BitVec 16 → BitVec 16 → BitVec 16) :
    List (Vector (BitVec 16) 16) → BitVec 16 → BitVec 16 → List Visit → Prop
  | k :: coefs, yn1, yn2, v :: rest =>
    v.val = value k v.address yn1 yn2 ∧ Decoded value coefs v.val yn1 rest
  | [], _, _, [] => True
  | _, _, _, _ => False

/-- The registers of a voice of a format that plays and has come to an address. -/
structure Voice (format : BitVec 16) (start stop current : Nat) (a : Accelerator) : Prop where
  sampleFormat : a.sampleFormat = format
  startAddress : a.startAddress.toNat = start
  endAddress : a.endAddress.toNat = stop
  currentAddress : a.currentAddress.toNat = current
  readsStopped : a.readsStopped = false

theorem and_15 (x : BitVec 32) : (x &&& 15).toNat = x.toNat % 16 := by
  rw [BitVec.toNat_and]
  exact Nat.and_two_pow_sub_one_eq_mod x.toNat 4

theorem and_15_eq (x n : BitVec 32) : x &&& 15 = n ↔ x.toNat % 16 = n.toNat := by
  rw [← BitVec.toNat_inj, and_15]

theorem and_not_15 {x : BitVec 32} (h : x &&& 15 = 0) : x &&& ~~~15 = x := by
  apply BitVec.eq_of_getLsbD_eq
  intro i hi
  have hbit := congrArg (fun y => BitVec.getLsbD y i) h
  simp only [BitVec.getLsbD_and, BitVec.getLsbD_not, hi, decide_true, Bool.true_and] at hbit ⊢
  cases hx : x.getLsbD i <;> simp_all

theorem and_mask {x mask : BitVec 32} (hmask : ∀ i < 30, Nat.testBit mask.toNat i = true)
    (h : x.toNat < 2 ^ 30) : x &&& mask = x := by
  apply BitVec.eq_of_toNat_eq
  apply Nat.eq_of_testBit_eq
  intro i
  rw [BitVec.toNat_and, Nat.testBit_and]
  rcases Nat.lt_or_ge i 30 with hi | hi
  · rw [hmask i hi, Bool.and_true]
  · have hzero : x.toNat.testBit i = false :=
      Nat.testBit_lt_two_pow (Nat.lt_of_lt_of_le h (Nat.pow_le_pow_right (by decide) hi))
    rw [hzero, Bool.false_and]

theorem and_currentAddressMask {x : BitVec 32} (h : x.toNat < 2 ^ 30) :
    x &&& currentAddressMask = x := and_mask (by decide) h

theorem and_startEndAddressMask {x : BitVec 32} (h : x.toNat < 2 ^ 30) :
    x &&& startEndAddressMask = x := and_mask (by decide) h

section CheckLoop
variable {o} {s : σ} {a : Accelerator} {val : BitVec 16} {stepSize : BitVec 32}

theorem checkLoop_goesOn (hne : a.currentAddress ≠ a.endAddress + stepSize - 1)
    (hlt : a.currentAddress.toNat < 2 ^ 30) : checkLoop o val s a stepSize = ⟨val, [], s, a⟩ := by
  rw [checkLoop, if_neg hne, Result.masked, setCurrentAddress, and_currentAddressMask hlt]

theorem checkLoop_val : (checkLoop o val s a stepSize).val = val := by
  unfold checkLoop
  split
  all_goals rfl

/-- The voice has ended: its accelerator is back at the start and stopped when the handler of the
    exception gets it. -/
structure Ended (o : Owner σ) (s : σ) (start : Nat) (s' : σ) (a' : Accelerator) : Prop where
  handled : ∃ a₁ : Accelerator, a₁.readsStopped = true ∧ a₁.currentAddress.toNat = start ∧
    s' = (o.onEndException .sampleRead s a₁).1 ∧
    a' = (o.onEndException .sampleRead s a₁).2.setCurrentAddress
      (o.onEndException .sampleRead s a₁).2.currentAddress

theorem checkLoop_ends (heq : a.currentAddress = a.endAddress + stepSize - 1) :
    (checkLoop o val s a stepSize).raised = [.sampleRead] ∧
      Ended o s a.startAddress.toNat (checkLoop o val s a stepSize).owner
        (checkLoop o val s a stepSize).acc := by
  rw [checkLoop, if_pos heq]
  exact ⟨rfl, ⟨_, rfl, rfl, rfl, rfl⟩⟩

end CheckLoop

theorem rawSample_eq {a : Accelerator} {format : BitVec 16} {start stop c : Nat}
    (h : Voice format start stop c a)
    (hdecode : a.formatDecode = .adpcm ∨ a.formatDecode = .pcm) (s : σ) :
    a.rawSample o s = sampleAt o s format c := by
  have hcurrent : a.currentAddress = BitVec.ofNat 32 c := by
    rw [← h.currentAddress, BitVec.ofNat_toNat, BitVec.setWidth_eq]
  rw [rawSample, if_neg (by rcases hdecode with hd | hd <;> rw [hd] <;> decide)]
  simp only [sampleAt, getCurrentSample, formatSize, h.sampleFormat, hcurrent]

/-! ### One read of ADPCM -/

def following (c : Nat) : Nat := if (c + 1) % 16 = 0 then c + 3 else c + 1

section Adpcm
variable {o} {s : σ} {a : Accelerator} {format : BitVec 16} {start stop c : Nat}

def predictorAt (o : Owner σ) (s : σ) (n : Nat) : BitVec 16 :=
  (o.readMemory s (BitVec.ofNat 32 (n / 16 * 8))).setWidth 16

theorem advanceAdpcm_eq (h : Voice format start stop c a) (hc : c < 2 ^ 30) (hstop : stop < 2 ^ 30) :
    advanceAdpcm o s a =
      if stop % 16 = 0 ∧ c + 1 = stop then ({ a with currentAddress := a.startAddress + 1 }, 2)
      else if stop % 16 = 1 ∧ c + 1 = stop - 1 then ({ a with currentAddress := a.startAddress }, 2)
      else if (c + 1) % 16 = 0 then
        ({ a with
          predScale := predictorAt o s (c + 3)
          currentAddress := a.currentAddress + 1 + 2 }, 4)
      else ({ a with currentAddress := a.currentAddress + 1 }, 2) := by
  have hcurrent := h.currentAddress
  have hend := h.endAddress
  have hnext : (a.currentAddress + 1).toNat = c + 1 := by bv_omega
  have hfirst : (a.endAddress &&& 0xf = 0 ∧ a.currentAddress + 1 = a.endAddress) ↔
      stop % 16 = 0 ∧ c + 1 = stop := by
    rw [and_15_eq, hend, ← BitVec.toNat_inj, hnext, hend]
    rfl
  have hsecond : (a.endAddress &&& 0xf = 1 ∧ a.currentAddress + 1 = a.endAddress - 1) ↔
      stop % 16 = 1 ∧ c + 1 = stop - 1 := by
    rw [and_15_eq, hend]
    refine and_congr_right fun hone => ?_
    have hpred : (a.endAddress - 1).toNat = stop - 1 := by
      have : (1 : BitVec 32).toNat = 1 := rfl
      have hpos : 1 ≤ stop := by omega
      bv_omega
    rw [← BitVec.toNat_inj, hnext, hpred]
  have hthird : (a.currentAddress + 1) &&& 15 = 0 ↔ (c + 1) % 16 = 0 := by
    rw [and_15_eq, hnext]
    rfl
  unfold advanceAdpcm
  simp only [hfirst, hsecond, hthird]
  split
  · rfl
  · split
    · rfl
    · split
      · rename_i haligned
        have haddress : (a.currentAddress + 1) >>> 1 = BitVec.ofNat 32 ((c + 3) / 16 * 8) := by
          apply BitVec.eq_of_toNat_eq
          rw [BitVec.toNat_ushiftRight, hnext, BitVec.toNat_ofNat, Nat.shiftRight_eq_div_pow]
          omega
        rw [and_not_15 (hthird.mpr haligned), haddress]
        rfl
      · rfl

def valueAt (o : Owner σ) (s : σ) (format : BitVec 16) (c : Nat) (coefs : Vector (BitVec 16) 16)
    (a : Accelerator) : BitVec 16 :=
  adpcmValue coefs a.predScale (storedAt o s format c) a.yn1 a.yn2

theorem readSample_adpcm (h : Voice format start stop c a) (hformat : format.toNat % 16 = 0)
    (hc : c < 2 ^ 30) (coefs : Vector (BitVec 16) 16) :
    ∃ a', Voice format start stop c a' ∧ a'.predScale = a.predScale ∧
      a'.yn1 = valueAt o s format c coefs a ∧ a'.yn2 = a.yn1 ∧
      a.readSample o coefs s = checkLoop o (valueAt o s format c coefs a) s
        (advanceAdpcm o s a').1 (advanceAdpcm o s a').2 := by
  have hdecode : a.formatDecode = .adpcm := by
    have hzero : format.toNat / 4 % 4 = 0 := by omega
    simp only [formatDecode, h.sampleFormat, hzero]
  have hgoesOn : ¬ a.readsStopped = true := by simp [h.readsStopped]
  have hval : a.decodeAdpcm (coefs.toList.getD ((a.predScale >>> 4 &&& 0x7).toNat * 2) 0)
      (coefs.toList.getD ((a.predScale >>> 4 &&& 0x7).toNat * 2 + 1) 0) (a.rawSample o s) =
        valueAt o s format c coefs a := by
    rw [decodeAdpcm_eq, rawSample_eq o h (.inl hdecode), toNat_sampleAt o s format hc]
    rfl
  rw [readSample, if_neg hgoesOn]
  simp only [hdecode, hval]
  exact ⟨{ a with yn2 := a.yn1, yn1 := valueAt o s format c coefs a },
    ⟨h.sampleFormat, h.startAddress, h.endAddress, h.currentAddress, h.readsStopped⟩, rfl, rfl, rfl,
    rfl⟩

section Read
variable (h : Voice format start stop c a) (hformat : format.toNat % 16 = 0)
  (hstop : stop < 2 ^ 30) (coefs : Vector (BitVec 16) 16)
include h hformat hstop

theorem readSample_val (hc : c ≤ stop) :
    (a.readSample o coefs s).val = valueAt o s format c coefs a := by
  obtain ⟨a', -, -, -, -, hread⟩ := readSample_adpcm (o := o) (s := s) h hformat (by omega) coefs
  rw [hread, checkLoop_val]

theorem readSample_next (hnext : following c ≤ stop) :
    ∃ a', (a.readSample o coefs s).raised = [] ∧ (a.readSample o coefs s).owner = s ∧
      (a.readSample o coefs s).acc = a' ∧ Voice format start stop (following c) a' ∧
      (a'.predScale = if (c + 1) % 16 = 0 then predictorAt o s (c + 3) else a.predScale) ∧
      a'.yn1 = valueAt o s format c coefs a ∧ a'.yn2 = a.yn1 := by
  have hlt : c < 2 ^ 30 := by
    unfold following at hnext
    split at hnext <;> omega
  obtain ⟨a', hvoice, hpred, hyn1, hyn2, hread⟩ :=
    readSample_adpcm (o := o) (s := s) h hformat hlt coefs
  unfold following at hnext ⊢
  have hcurrent := hvoice.currentAddress
  have hend := hvoice.endAddress
  rw [hread, advanceAdpcm_eq hvoice hlt hstop, if_neg (by split at hnext <;> omega),
    if_neg (by split at hnext <;> omega)]
  split at hnext
  · rename_i haligned
    rw [if_pos haligned, if_pos haligned, if_pos haligned, checkLoop_goesOn]
    · refine ⟨_, rfl, rfl, rfl, ⟨hvoice.sampleFormat, hvoice.startAddress, hvoice.endAddress, ?_,
        hvoice.readsStopped⟩, rfl, hyn1, hyn2⟩
      dsimp only
      bv_omega
    · dsimp only
      bv_omega
    · dsimp only
      bv_omega
  · rename_i haligned
    rw [if_neg haligned, if_neg haligned, if_neg haligned, checkLoop_goesOn]
    · refine ⟨_, rfl, rfl, rfl, ⟨hvoice.sampleFormat, hvoice.startAddress, hvoice.endAddress, ?_,
        hvoice.readsStopped⟩, hpred, hyn1, hyn2⟩
      dsimp only
      bv_omega
    · dsimp only
      bv_omega
    · dsimp only
      bv_omega

theorem readSample_end (hlast : c = stop) (hend : 2 ≤ stop % 16) :
    (a.readSample o coefs s).raised = [.sampleRead] ∧
      Ended o s start (a.readSample o coefs s).owner (a.readSample o coefs s).acc := by
  obtain ⟨a', hvoice, -, -, -, hread⟩ :=
    readSample_adpcm (o := o) (s := s) h hformat (by omega) coefs
  have hcurrent := hvoice.currentAddress
  have hstopAt := hvoice.endAddress
  rw [hread, advanceAdpcm_eq hvoice (by omega) hstop, if_neg (by omega), if_neg (by omega)]
  rw [← hvoice.startAddress]
  split
  · exact checkLoop_ends (by dsimp only; bv_omega)
  · exact checkLoop_ends (by dsimp only; bv_omega)

theorem readSample_loop0 (hend : stop % 16 = 0) (hlast : c + 1 = stop) (hstart : start < stop) :
    ∃ a', (a.readSample o coefs s).raised = [] ∧ (a.readSample o coefs s).owner = s ∧
      (a.readSample o coefs s).acc = a' ∧ Voice format start stop (start + 1) a' ∧
      a'.predScale = a.predScale := by
  obtain ⟨a', hvoice, hpred, -, -, hread⟩ :=
    readSample_adpcm (o := o) (s := s) h hformat (by omega) coefs
  have hstartAt := hvoice.startAddress
  have hstopAt := hvoice.endAddress
  rw [hread, advanceAdpcm_eq hvoice (by omega) hstop, if_pos ⟨hend, hlast⟩, checkLoop_goesOn]
  · refine ⟨_, rfl, rfl, rfl, ⟨hvoice.sampleFormat, hstartAt, hstopAt, ?_,
      hvoice.readsStopped⟩, hpred⟩
    dsimp only
    bv_omega
  · dsimp only
    bv_omega
  · dsimp only
    bv_omega

theorem readSample_loop1 (hend : stop % 16 = 1) (hlast : c + 2 = stop) (hstart : start < stop) :
    ∃ a', (a.readSample o coefs s).raised = [] ∧ (a.readSample o coefs s).owner = s ∧
      (a.readSample o coefs s).acc = a' ∧ Voice format start stop start a' ∧
      a'.predScale = a.predScale := by
  obtain ⟨a', hvoice, hpred, -, -, hread⟩ :=
    readSample_adpcm (o := o) (s := s) h hformat (by omega) coefs
  have hstartAt := hvoice.startAddress
  have hstopAt := hvoice.endAddress
  rw [hread, advanceAdpcm_eq hvoice (by omega) hstop, if_neg (by omega),
    if_pos ⟨hend, by omega⟩, checkLoop_goesOn]
  · exact ⟨_, rfl, rfl, rfl, ⟨hvoice.sampleFormat, hstartAt, hstopAt, hstartAt,
      hvoice.readsStopped⟩, hpred⟩
  · dsimp only
    bv_omega
  · dsimp only
    bv_omega

end Read

/-! ### All the samples of a voice -/

def samples (c stop : Nat) : List Nat :=
  (List.range' c (stop + 1 - c)).filter fun n => 2 ≤ n % 16

theorem samples_of_lt (h : stop < c) : samples c stop = [] := by
  rw [samples, Nat.sub_eq_zero_of_le (by omega)]
  rfl

theorem samples_skip (h : c % 16 < 2) : samples c stop = samples (c + 1) stop := by
  rcases Nat.lt_or_ge stop c with hlt | hge
  · rw [samples_of_lt hlt, samples_of_lt (by omega)]
  · rw [samples, show stop + 1 - c = stop + 1 - (c + 1) + 1 by omega, List.range'_succ,
      List.filter_cons_of_neg (by simpa using h), samples]

theorem samples_cons (hc : 2 ≤ c % 16) (hle : c ≤ stop) :
    samples c stop = c :: samples (following c) stop := by
  have hfirst : samples c stop = c :: samples (c + 1) stop := by
    rw [samples, show stop + 1 - c = stop + 1 - (c + 1) + 1 by omega, List.range'_succ,
      List.filter_cons_of_pos (by simpa using hc), samples]
  rw [hfirst, following]
  split
  · rw [samples_skip (by omega), samples_skip (by omega)]
  · rfl

/-- The predictor a sample is decoded with: that of its frame, or the one the voice starts with. -/
def predictorOf (o : Owner σ) (s : σ) (start : Nat) (predScale : BitVec 16) (n : Nat) : BitVec 16 :=
  if n / 16 = start / 16 then predScale else predictorAt o s n

/-- How a voice ends: with an exception, or from the start or from behind it again. -/
structure Finished (o : Owner σ) (s : σ) (format : BitVec 16) (start stop : Nat)
    (p : List Visit × σ × Accelerator) : Prop where
  ended : 2 ≤ stop % 16 →
    p.1.map (·.raised) = List.replicate (p.1.length - 1) [] ++ [[.sampleRead]] ∧
      Ended o s start p.2.1 p.2.2
  loop0 : stop % 16 = 0 → (∀ v ∈ p.1, v.raised = []) ∧ p.2.1 = s ∧
    Voice format start stop (start + 1) p.2.2
  loop1 : stop % 16 = 1 → (∀ v ∈ p.1, v.raised = []) ∧ p.2.1 = s ∧
    Voice format start stop start p.2.2

theorem Finished.cons {v : Visit} {p : List Visit × σ × Accelerator} (hraised : v.raised = [])
    (h : Finished o s format start stop p) : Finished o s format start stop (v :: p.1, p.2) := by
  refine ⟨fun hend => ?_, fun hend => ?_, fun hend => ?_⟩
  · obtain ⟨hall, hended⟩ := h.ended hend
    refine ⟨?_, hended⟩
    have hlength := congrArg List.length hall
    simp only [List.length_map, List.length_append, List.length_replicate, List.length_cons,
      List.length_nil] at hlength
    rw [List.map_cons, hall, hraised, List.length_cons, Nat.add_sub_cancel, ← List.cons_append,
      ← List.replicate_succ, Nat.sub_add_cancel (by omega)]
  · obtain ⟨hall, hleft⟩ := h.loop0 hend
    exact ⟨List.forall_mem_cons.mpr ⟨hraised, hall⟩, hleft⟩
  · obtain ⟨hall, hleft⟩ := h.loop1 hend
    exact ⟨List.forall_mem_cons.mpr ⟨hraised, hall⟩, hleft⟩

theorem play_cons (k : Vector (BitVec 16) 16) (coefs : List (Vector (BitVec 16) 16)) (s : σ)
    (a : Accelerator) :
    play o (k :: coefs) s a =
      (⟨a.currentAddress.toNat, (a.readSample o k s).val, (a.readSample o k s).raised⟩ ::
        (play o coefs (a.readSample o k s).owner (a.readSample o k s).acc).1,
        (play o coefs (a.readSample o k s).owner (a.readSample o k s).acc).2) := rfl

def adpcmAt (o : Owner σ) (s : σ) (format : BitVec 16) (start : Nat) (predScale : BitVec 16)
    (coefs : Vector (BitVec 16) 16) (n : Nat) : BitVec 16 → BitVec 16 → BitVec 16 :=
  adpcmValue coefs (predictorOf o s start predScale n) (storedAt o s format n)

theorem play_adpcm (hformat : format.toNat % 16 = 0) (hstop : stop < 2 ^ 30) {predScale : BitVec 16}
    (hstart : 2 ≤ start % 16) (coefs : List (Vector (BitVec 16) 16)) {a : Accelerator} {c : Nat}
    (h : Voice format start stop c a) (hc : 2 ≤ c % 16) (hle : c ≤ stop) (hfrom : start ≤ c)
    (hlength : coefs.length = (samples c stop).length)
    (hpred : a.predScale = predictorOf o s start predScale c) :
    (play o coefs s a).1.map (·.address) = samples c stop ∧
      Decoded (adpcmAt o s format start predScale) coefs a.yn1 a.yn2 (play o coefs s a).1 ∧
      Finished o s format start stop (play o coefs s a) := by
  induction coefs generalizing a c with
  | nil =>
    rw [samples_cons hc hle] at hlength
    cases hlength
  | cons k coefs ih =>
    have hval : (a.readSample o k s).val = adpcmAt o s format start predScale k
        a.currentAddress.toNat a.yn1 a.yn2 := by
      rw [readSample_val h hformat hstop k hle, valueAt, hpred, adpcmAt, h.currentAddress]
    rw [samples_cons hc hle] at hlength ⊢
    rw [play_cons]
    by_cases hnext : following c ≤ stop
    · obtain ⟨a', hraised, howner, hacc, hvoice, hpred', hyn1, hyn2⟩ :=
        readSample_next (o := o) (s := s) h hformat hstop k hnext
      have hframe : a'.predScale = predictorOf o s start predScale (following c) := by
        rw [hpred', hpred]
        unfold following predictorOf predictorAt
        split
        · rw [if_neg (by omega)]
        · rw [show (c + 1) / 16 = c / 16 by omega]
      obtain ⟨haddresses, hall, hfinished⟩ := ih hvoice (by unfold following; split <;> omega) hnext
        (by unfold following; split <;> omega) (by simpa using hlength) hframe
      rw [← readSample_val h hformat hstop k hle] at hyn1
      rw [hyn1, hyn2] at hall
      rw [howner, hacc]
      refine ⟨?_, ⟨hval, hall⟩, hfinished.cons hraised⟩
      rw [List.map_cons, haddresses, h.currentAddress]
    · have hnone : samples (following c) stop = [] := samples_of_lt (by omega)
      rw [hnone] at hlength ⊢
      obtain rfl : coefs = [] := List.eq_nil_of_length_eq_zero (by simpa using hlength)
      refine ⟨by simp [play, h.currentAddress], ⟨hval, trivial⟩, ?_⟩
      unfold following at hnext
      refine ⟨fun hend => ?_, fun hend => ?_, fun hend => ?_⟩
      · obtain ⟨hraised, hended⟩ := readSample_end (o := o) (s := s) h hformat hstop k
          (by split at hnext <;> omega) hend
        exact ⟨by simp [play, hraised], hended⟩
      · obtain ⟨a', hraised, howner, hacc, hvoice, -⟩ := readSample_loop0 (o := o) (s := s) h
          hformat hstop k hend (by split at hnext <;> omega) (by omega)
        exact ⟨by simpa [play] using hraised, howner, hacc ▸ hvoice⟩
      · obtain ⟨a', hraised, howner, hacc, hvoice, -⟩ := readSample_loop1 (o := o) (s := s) h
          hformat hstop k hend (by split at hnext <;> omega) (by omega)
        exact ⟨by simpa [play] using hraised, howner, hacc ▸ hvoice⟩

end Adpcm

/-! ### PCM -/

section Pcm
variable {o} {s : σ} {a : Accelerator} {format : BitVec 16} {start stop c : Nat}

theorem readSample_pcm (h : Voice format start stop c a) (hformat : format.toNat / 4 % 4 = 2)
    (hstop : stop < 2 ^ 30) (hle : c ≤ stop) (coefs : Vector (BitVec 16) 16) :
    (c < stop ∧ (a.readSample o coefs s).raised = [] ∧ (a.readSample o coefs s).owner = s ∧
        Voice format start stop (c + 1) (a.readSample o coefs s).acc ∧
        (a.readSample o coefs s).acc.yn1 = (a.readSample o coefs s).val ∧
        (a.readSample o coefs s).acc.yn2 = a.yn1 ∧
        (a.readSample o coefs s).acc.gain = a.gain ∧
        (a.readSample o coefs s).acc.predScale = a.predScale) ∨
      c = stop ∧ (a.readSample o coefs s).raised = [.sampleRead] ∧
        Ended o s start (a.readSample o coefs s).owner (a.readSample o coefs s).acc := by
  have hdecode : a.formatDecode = .pcm := by simp only [formatDecode, h.sampleFormat, hformat]
  have hgoesOn : ¬ a.readsStopped = true := by simp [h.readsStopped]
  have hcurrent := h.currentAddress
  have hend := h.endAddress
  rw [readSample, if_neg hgoesOn]
  simp only [hdecode, reduceCtorEq, if_false]
  rcases Nat.lt_or_eq_of_le hle with hlt | hlast
  · refine .inl ⟨hlt, ?_⟩
    rw [checkLoop_goesOn]
    · refine ⟨rfl, rfl, ⟨h.sampleFormat, h.startAddress, h.endAddress, ?_, h.readsStopped⟩, rfl,
        rfl, rfl, rfl⟩
      dsimp only
      bv_omega
    · dsimp only
      bv_omega
    · dsimp only
      bv_omega
  · refine .inr ⟨hlast, ?_⟩
    rw [← h.startAddress]
    exact checkLoop_ends (by dsimp only; bv_omega)

theorem readSample_pcm_val (h : Voice format start stop c a) (hformat : format.toNat / 4 % 4 = 2)
    (hc : c < 2 ^ 30) (coefs : Vector (BitVec 16) 16) :
    (a.readSample o coefs s).val =
      pcmValue format a.gain coefs a.predScale (storedAt o s format c) a.yn1 a.yn2 := by
  have hdecode : a.formatDecode = .pcm := by simp only [formatDecode, h.sampleFormat, hformat]
  have hgoesOn : ¬ a.readsStopped = true := by simp [h.readsStopped]
  rw [readSample, if_neg hgoesOn]
  simp only [hdecode]
  rw [checkLoop_val, decodePcm_eq, rawSample_eq o h (.inr hdecode), toNat_sampleAt o s format hc,
    h.sampleFormat]

def pcmAt (o : Owner σ) (s : σ) (format gain predScale : BitVec 16)
    (coefs : Vector (BitVec 16) 16) (n : Nat) : BitVec 16 → BitVec 16 → BitVec 16 :=
  pcmValue format gain coefs predScale (storedAt o s format n)

theorem play_pcm (hformat : format.toNat / 4 % 4 = 2) (hstop : stop < 2 ^ 30)
    (coefs : List (Vector (BitVec 16) 16)) {a : Accelerator} {c : Nat}
    (h : Voice format start stop c a) (hle : c ≤ stop) (hlength : coefs.length = stop + 1 - c) :
    (play o coefs s a).1.map (·.address) = List.range' c (stop + 1 - c) ∧
      Decoded (pcmAt o s format a.gain a.predScale) coefs a.yn1 a.yn2 (play o coefs s a).1 ∧
      (play o coefs s a).1.map (·.raised) = List.replicate (stop - c) [] ++ [[.sampleRead]] ∧
      Ended o s start (play o coefs s a).2.1 (play o coefs s a).2.2 := by
  induction coefs generalizing a c with
  | nil =>
    rw [List.length_nil] at hlength
    omega
  | cons k coefs ih =>
    have hval : (a.readSample o k s).val =
        pcmAt o s format a.gain a.predScale k a.currentAddress.toNat a.yn1 a.yn2 := by
      rw [readSample_pcm_val h hformat (by omega), h.currentAddress]
      rfl
    rw [List.length_cons] at hlength
    rw [play_cons, show stop + 1 - c = stop - c + 1 by omega, List.range'_succ]
    rcases readSample_pcm (o := o) (s := s) h hformat hstop hle k with
      ⟨hlt, hraised, howner, hvoice, hyn1, hyn2, hgain, hpred⟩ | ⟨hlast, hraised, hended⟩
    · obtain ⟨haddresses, hall, hraises, hended⟩ := ih hvoice hlt (by omega)
      rw [hyn1, hyn2, hgain, hpred] at hall
      rw [howner]
      refine ⟨?_, ⟨hval, hall⟩, ?_, hended⟩
      · rw [List.map_cons, haddresses, h.currentAddress, Nat.add_sub_add_right]
      · rw [List.map_cons, hraises, hraised, ← List.cons_append, ← List.replicate_succ,
          show stop - (c + 1) + 1 = stop - c by omega]
    · obtain rfl : coefs = [] := List.eq_nil_of_length_eq_zero (by omega)
      refine ⟨?_, ⟨hval, trivial⟩, ?_, hended⟩
      · simp [play, h.currentAddress, hlast]
      · simp [play, hraised, hlast]

end Pcm

/-! ### Whole voices -/

def setUp (a : Accelerator) (start stop : BitVec 32) (yn2 : BitVec 16) : Accelerator :=
  (((a.setStartAddress start).setEndAddress stop).setCurrentAddress start).setYn2 yn2

theorem voice_setUp (a : Accelerator) (start stop : BitVec 30) (yn2 : BitVec 16) :
    Voice a.sampleFormat start.toNat stop.toNat start.toNat
      (a.setUp (start.setWidth 32) (stop.setWidth 32) yn2) := by
  have hwidth : ∀ x : BitVec 30, (x.setWidth 32).toNat = x.toNat := fun x => by
    rw [BitVec.toNat_setWidth, Nat.mod_eq_of_lt (by omega)]
  refine ⟨rfl, ?_, ?_, ?_, rfl⟩
  · change (start.setWidth 32 &&& startEndAddressMask).toNat = _
    rw [and_startEndAddressMask (by rw [hwidth]; exact start.isLt), hwidth]
  · change (stop.setWidth 32 &&& startEndAddressMask).toNat = _
    rw [and_startEndAddressMask (by rw [hwidth]; exact stop.isLt), hwidth]
  · change (start.setWidth 32 &&& currentAddressMask).toNat = _
    rw [and_currentAddressMask (by rw [hwidth]; exact start.isLt), hwidth]

theorem play_stopped (coefs : List (Vector (BitVec 16) 16)) (s : σ) {a : Accelerator}
    (h : a.readsStopped = true) :
    (play o coefs s a).2 = (s, a) ∧ ∀ v ∈ (play o coefs s a).1, v.raised = [] := by
  induction coefs with
  | nil => exact ⟨rfl, fun _ hv => absurd hv List.not_mem_nil⟩
  | cons k coefs ih =>
    have hread : a.readSample o k s = ⟨0, [], s, a⟩ := by rw [readSample, if_pos h]
    rw [play_cons, hread]
    exact ⟨ih.1, List.forall_mem_cons.mpr ⟨rfl, ih.2⟩⟩

theorem Ended.stopped {o : Owner σ} {s s' : σ} {start : Nat} {a' : Accelerator}
    (h : Ended o s start s' a') (hstart : start < 2 ^ 30)
    (hkeeps : ∀ a, (o.onEndException .sampleRead s a).2 = a) :
    a'.readsStopped = true ∧ a'.currentAddress.toNat = start := by
  obtain ⟨a₁, hstopped, hcurrent, -, rfl⟩ := h.handled
  rw [hkeeps, setCurrentAddress, and_currentAddressMask (by omega)]
  exact ⟨hstopped, hcurrent⟩

/-- A voice plays exactly its samples. Of ADPCM these are the addresses behind the headers, and
    each value is that of the nibble there with the predictor of its frame; the end exception is
    raised once, by the sample at the end address, or not at all where the end address lies in a
    header, and the voice goes on from its start. Of PCM every address is a sample. Behind the
    exception nothing is read, unless its handler starts the voice again. -/
theorem playback (o : Owner σ) (s : σ) (a : Accelerator) (start stop : BitVec 30) (yn2 : BitVec 16)
    (hle : start ≤ stop) :
    (a.sampleFormat.toNat % 16 = 0 → 2 ≤ start.toNat % 16 → ∀ coefs,
      coefs.length = (samples start.toNat stop.toNat).length →
        let p := play o coefs s (a.setUp (start.setWidth 32) (stop.setWidth 32) yn2)
        p.1.map (·.address) = samples start.toNat stop.toNat ∧
          Decoded (adpcmAt o s a.sampleFormat start.toNat a.predScale) coefs a.yn1 yn2 p.1 ∧
          Finished o s a.sampleFormat start.toNat stop.toNat p) ∧
      (a.sampleFormat.toNat / 4 % 4 = 2 → ∀ coefs,
        coefs.length = stop.toNat + 1 - start.toNat →
          let p := play o coefs s (a.setUp (start.setWidth 32) (stop.setWidth 32) yn2)
          p.1.map (·.address) = List.range' start.toNat (stop.toNat + 1 - start.toNat) ∧
            Decoded (pcmAt o s a.sampleFormat a.gain a.predScale) coefs a.yn1 yn2 p.1 ∧
            p.1.map (·.raised) =
              List.replicate (stop.toNat - start.toNat) [] ++ [[.sampleRead]] ∧
            Ended o s start.toNat p.2.1 p.2.2) ∧
      (∀ s' a', Ended o s start.toNat s' a' →
        (∀ a, (o.onEndException .sampleRead s a).2 = a) →
          a'.readsStopped = true ∧ a'.currentAddress.toNat = start.toNat) ∧
      ∀ coefs s a, a.readsStopped = true →
        (play o coefs s a).2 = (s, a) ∧ ∀ v ∈ (play o coefs s a).1, v.raised = [] := by
  have hvoice := voice_setUp a start stop yn2
  refine ⟨fun hformat hstart coefs hlength => ?_, fun hformat coefs hlength => ?_,
    fun s' a' h => h.stopped start.isLt, fun coefs s a => play_stopped o coefs s⟩
  · exact play_adpcm hformat stop.isLt hstart coefs hvoice hstart hle (Nat.le_refl _) hlength
      (by rw [predictorOf, if_pos rfl]; rfl)
  · exact play_pcm hformat stop.isLt coefs hvoice hle hlength

def nibblesOwner : Owner Unit :=
  ⟨fun _ address => address.setWidth 8 * 16 + 3, fun s _ _ => s, fun _ s a => (s, a)⟩

/-- A voice that ends with the first sample of its second frame. -/
theorem playback_frames :
    let p := play nibblesOwner (List.replicate 15 (Vector.replicate 16 0x400)) ()
      (initial.setUp (BitVec.setWidth 32 2#30) (BitVec.setWidth 32 18#30) 0)
    p.1.map (·.address) = [2, 3, 4, 5, 6, 7, 8, 9, 10, 11, 12, 13, 14, 15, 18] ∧
      p.1.map (·.val.toInt) = [1, 4, 5, 8, 10, 12, 15, 17, 21, 22, 28, 28, 35, 35, -21] ∧
      Decoded (adpcmAt nibblesOwner () 0 2 0) (List.replicate 15 (Vector.replicate 16 0x400)) 0 0
        p.1 ∧
      p.1.map (·.raised) = List.replicate 14 [] ++ [[.sampleRead]] := by
  have hplayed := (playback nibblesOwner () initial 2 18 0 (by decide)).1 (by decide) (by decide)
    (List.replicate 15 (Vector.replicate 16 0x400)) (by decide)
  refine ⟨hplayed.1, by decide +kernel, hplayed.2.1, (hplayed.2.2.ended (by decide)).1.trans ?_⟩
  have hlength := congrArg List.length hplayed.1
  rw [List.length_map] at hlength
  rw [hlength]
  rfl

end Accelerator

end DolphinXR.DSP
