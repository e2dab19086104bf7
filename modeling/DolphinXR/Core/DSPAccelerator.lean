import DolphinXR.Common.ChunkFile

/- The DSP accelerator (Core/DSP/DSPAccelerator.cpp): samples are read through it from the ARAM
   and decoded, and it is saved with the state of the DSP. The memory and the handlers of the
   end exceptions are those of the accelerator's owner; what a handler does to the accelerator
   is done before the read or the write ends.

   `DoState` leaves out the gain and the input. They can be read and the decoding uses them, so
   that a loaded accelerator goes on as the saved one exactly if it has had the same two. -/
namespace DolphinXR.DSP
open Lib

structure Accelerator where
  startAddress : BitVec 32
  endAddress : BitVec 32
  currentAddress : BitVec 32
  sampleFormat : BitVec 16
  gain : BitVec 16
  yn1 : BitVec 16
  yn2 : BitVec 16
  predScale : BitVec 16
  input : BitVec 16
  readsStopped : Bool
  deriving DecidableEq

inductive EndException where
  | rawRead
  | rawWrite
  | sampleRead
  deriving DecidableEq

structure Owner (σ : Type) where
  readMemory : σ → BitVec 32 → BitVec 8
  writeMemory : σ → BitVec 32 → BitVec 8 → σ
  onEndException : EndException → σ → Accelerator → σ × Accelerator

namespace Accelerator

def initial : Accelerator := ⟨0, 0, 0, 0, 0, 0, 0, 0, 0, false⟩

/-! ### Registers -/

def startEndAddressMask : BitVec 32 := 0x3fffffff

def currentAddressMask : BitVec 32 := 0xbfffffff

def setStartAddress (a : Accelerator) (address : BitVec 32) : Accelerator :=
  { a with startAddress := address &&& startEndAddressMask }

def setEndAddress (a : Accelerator) (address : BitVec 32) : Accelerator :=
  { a with endAddress := address &&& startEndAddressMask }

def setCurrentAddress (a : Accelerator) (address : BitVec 32) : Accelerator :=
  { a with currentAddress := address &&& currentAddressMask }

def setSampleFormat (a : Accelerator) (format : BitVec 16) : Accelerator :=
  { a with sampleFormat := format }

def setGain (a : Accelerator) (gain : BitVec 16) : Accelerator := { a with gain }

def setYn1 (a : Accelerator) (yn1 : BitVec 16) : Accelerator := { a with yn1 }

def setYn2 (a : Accelerator) (yn2 : BitVec 16) : Accelerator := { a with yn2, readsStopped := false }

def setPredScale (a : Accelerator) (predScale : BitVec 16) : Accelerator :=
  { a with predScale := predScale &&& 0x7f }

def setInput (a : Accelerator) (input : BitVec 16) : Accelerator := { a with input }

inductive FormatSize where
  | size4Bit
  | size8Bit
  | size16Bit
  | sizeInvalid
  deriving DecidableEq

inductive FormatDecode where
  | adpcm
  | mmioPcmNoInc
  | pcm
  | mmioPcmInc
  deriving DecidableEq

def formatSize (a : Accelerator) : FormatSize :=
  match a.sampleFormat.toNat % 4 with
  | 0 => .size4Bit
  | 1 => .size8Bit
  | 2 => .size16Bit
  | _ => .sizeInvalid

def formatDecode (a : Accelerator) : FormatDecode :=
  match a.sampleFormat.toNat / 4 % 4 with
  | 0 => .adpcm
  | 1 => .mmioPcmNoInc
  | 2 => .pcm
  | _ => .mmioPcmInc

/-- The shift of the gain, which is none for the invalid scale. -/
def gainShift (a : Accelerator) : Nat :=
  match a.sampleFormat.toNat / 16 % 4 with
  | 0 => 11
  | 1 => 0
  | 2 => 16
  | _ => 0

/-! ### Reading and writing -/

section Access
variable {σ : Type} (o : Owner σ)

def getCurrentSample (s : σ) (a : Accelerator) : BitVec 16 :=
  match a.formatSize with
  | .size4Bit =>
    let val := (o.readMemory s (a.currentAddress >>> 1)).setWidth 16
    if a.currentAddress &&& 1 = 0 then val >>> 4 else val &&& 0xf
  | .size8Bit => (o.readMemory s a.currentAddress).setWidth 16
  | .size16Bit =>
    (o.readMemory s (a.currentAddress * 2)).setWidth 16 <<< 8 |||
      (o.readMemory s (a.currentAddress * 2 + 1)).setWidth 16
  | .sizeInvalid => 0

structure Result (σ : Type) where
  val : BitVec 16
  raised : List EndException
  owner : σ
  acc : Accelerator

def raise (e : EndException) (val : BitVec 16) (s : σ) (a : Accelerator) : Result σ :=
  ⟨val, [e], (o.onEndException e s a).1, (o.onEndException e s a).2⟩

/-- `SetCurrentAddress(m_current_address)` at the end of a read. -/
def Result.masked (r : Result σ) : Result σ :=
  { r with acc := r.acc.setCurrentAddress r.acc.currentAddress }

def readRaw (s : σ) (a : Accelerator) : Result σ :=
  let val := a.getCurrentSample o s
  let next := if a.formatSize ≠ .sizeInvalid then a.currentAddress + 1
    else (a.currentAddress &&& ~~~3) ||| ((a.currentAddress + 1) &&& 3)
  if next - 1 = a.endAddress then
    (raise o .rawRead val s { a with currentAddress := a.startAddress }).masked
  else Result.masked ⟨val, [], s, { a with currentAddress := next }⟩

/-- A write is accepted with the highest bit of the address only. -/
def writeRaw (value : BitVec 16) (s : σ) (a : Accelerator) : Result σ :=
  if a.currentAddress &&& 0x80000000 ≠ 0 then
    let s := o.writeMemory s (a.currentAddress * 2) ((value >>> 8).setWidth 8)
    let s := o.writeMemory s (a.currentAddress * 2 + 1) (value.setWidth 8)
    raise o .rawWrite 0 s { a with currentAddress := a.currentAddress + 1 }
  else ⟨0, [], s, a⟩

def saturatingCast (x : BitVec 32) : BitVec 16 :=
  if 32767 < x.toInt then 32767 else if x.toInt < -32768 then BitVec.ofInt 16 (-32768)
  else x.setWidth 16

def rawSample (s : σ) (a : Accelerator) : BitVec 16 :=
  if a.formatDecode = .mmioPcmNoInc ∨ a.formatDecode = .mmioPcmInc then a.input
  else a.getCurrentSample o s

/-- The decoded sample, with the history moved on: an ADPCM sample of four bits, or a PCM one. -/
def decodeAdpcm (coef1 coef2 : BitVec 16) (raw : BitVec 16) (a : Accelerator) : BitVec 16 :=
  let raw := raw &&& 0xF
  let raw := if 8 ≤ raw.toNat then raw - 16 else raw
  let scale : BitVec 32 := 1 <<< (a.predScale &&& 0xF).toNat
  saturatingCast (scale * raw.signExtend 32 +
    (0x400 + coef1.signExtend 32 * a.yn1.signExtend 32 +
      coef2.signExtend 32 * a.yn2.signExtend 32).sshiftRight 11)

def decodePcm (coef1 coef2 : BitVec 16) (raw : BitVec 16) (a : Accelerator) : BitVec 16 :=
  let shift := a.gainShift
  ((a.gain.signExtend 32 * raw.signExtend 32).sshiftRight shift +
    ((coef1.signExtend 32 * a.yn1.signExtend 32).sshiftRight shift +
      (coef2.signExtend 32 * a.yn2.signExtend 32).sshiftRight shift)).setWidth 16

/-- The address and the scale after an ADPCM sample, and the size of the step. Two end addresses are
    looped without an exception. -/
def advanceAdpcm (s : σ) (a : Accelerator) : Accelerator × BitVec 32 :=
  let a := { a with currentAddress := a.currentAddress + 1 }
  if a.endAddress &&& 0xf = 0 ∧ a.currentAddress = a.endAddress then
    ({ a with currentAddress := a.startAddress + 1 }, 2)
  else if a.endAddress &&& 0xf = 1 ∧ a.currentAddress = a.endAddress - 1 then
    ({ a with currentAddress := a.startAddress }, 2)
  else if a.currentAddress &&& 15 = 0 then
    ({ a with
      predScale := (o.readMemory s ((a.currentAddress &&& ~~~15) >>> 1)).setWidth 16
      currentAddress := a.currentAddress + 2 }, 4)
  else (a, 2)

/-- The check for the loop at the end of `ReadSample`. -/
def checkLoop (val : BitVec 16) (s : σ) (a : Accelerator) (stepSize : BitVec 32) : Result σ :=
  if a.currentAddress = a.endAddress + stepSize - 1 then
    (raise o .sampleRead val s
      { a with currentAddress := a.startAddress, readsStopped := true }).masked
  else Result.masked ⟨val, [], s, a⟩

def readSample (coefs : Vector (BitVec 16) 16) (s : σ) (a : Accelerator) : Result σ :=
  if a.readsStopped then ⟨0, [], s, a⟩
  else
    let raw := a.rawSample o s
    let coefIdx := (a.predScale >>> 4 &&& 0x7).toNat
    let coef1 := coefs.toList.getD (coefIdx * 2) 0
    let coef2 := coefs.toList.getD (coefIdx * 2 + 1) 0
    match a.formatDecode with
    | .adpcm =>
      let val := a.decodeAdpcm coef1 coef2 raw
      let next := advanceAdpcm o s { a with yn2 := a.yn1, yn1 := val }
      checkLoop o val s next.1 next.2
    | decode =>
      let val := a.decodePcm coef1 coef2 raw
      let a := { a with yn2 := a.yn1, yn1 := val }
      let a := if decode = .mmioPcmNoInc then a
        else { a with currentAddress := a.currentAddress + 1 }
      checkLoop o val s a 2

end Access

open DoState in
def doState : DoState Accelerator :=
  seq (field (·.startAddress) (fun x a => { a with startAddress := x }) PointerWrap.doNum) <|
  seq (field (·.endAddress) (fun x a => { a with endAddress := x }) PointerWrap.doNum) <|
  seq (field (·.currentAddress) (fun x a => { a with currentAddress := x }) PointerWrap.doNum) <|
  seq (field (·.sampleFormat) (fun x a => { a with sampleFormat := x }) PointerWrap.doNum) <|
  seq (field (·.yn1) (fun x a => { a with yn1 := x }) PointerWrap.doNum) <|
  seq (field (·.yn2) (fun x a => { a with yn2 := x }) PointerWrap.doNum) <|
  seq (field (·.predScale) (fun x a => { a with predScale := x }) PointerWrap.doNum) <|
  field (·.readsStopped) (fun x a => { a with readsStopped := x }) PointerWrap.doBool

open PointerWrap in
/-- The bytes of a saved accelerator. -/
def saved (a : Accelerator) : Bytes :=
  hostBytes a.startAddress ++ (hostBytes a.endAddress ++ (hostBytes a.currentAddress ++
    (hostBytes a.sampleFormat ++ (hostBytes a.yn1 ++ (hostBytes a.yn2 ++ (hostBytes a.predScale ++
      hostBytes (if a.readsStopped then 1 else 0 : BitVec 8)))))))

theorem doState_saves :
    Saves doState saved fun a b => { a with gain := b.gain, input := b.input } :=
  .seq (.field (.doNum rfl) fun _ => rfl) <|
  .seq (.field (.doNum rfl) fun _ => rfl) <|
  .seq (.field (.doNum rfl) fun _ => rfl) <|
  .seq (.field (.doNum rfl) fun _ => rfl) <|
  .seq (.field (.doNum rfl) fun _ => rfl) <|
  .seq (.field (.doNum rfl) fun _ => rfl) <|
  .seq (.field (.doNum rfl) fun _ => rfl) <|
  .field .doBool fun _ => rfl

/-- An accelerator is saved, and loaded into another one. -/
def reload (a b : Accelerator) : Accelerator :=
  match (doState (.write [] (saved a).length) a).1 with
  | .write out _ => (doState (.read out) b).2
  | _ => b

theorem reload_eq (a b : Accelerator) : reload a b = { a with gain := b.gain, input := b.input } := by
  have hread := doState_saves.read a b []
  rw [List.append_nil] at hread
  rw [reload, doState_saves.write a [] _ (Nat.le_refl _), List.nil_append]
  dsimp only
  rw [hread]

/-! ### What is observed -/

inductive Register where
  | startAddress
  | endAddress
  | currentAddress
  | sampleFormat
  | gain
  | yn1
  | yn2
  | predScale
  | input
  deriving DecidableEq

def getRegister (a : Accelerator) : Register → BitVec 32
  | .startAddress => a.startAddress
  | .endAddress => a.endAddress
  | .currentAddress => a.currentAddress
  | .sampleFormat => a.sampleFormat.setWidth 32
  | .gain => a.gain.setWidth 32
  | .yn1 => a.yn1.setWidth 32
  | .yn2 => a.yn2.setWidth 32
  | .predScale => a.predScale.setWidth 32
  | .input => a.input.setWidth 32

def setRegister (a : Accelerator) (value : BitVec 32) : Register → Accelerator
  | .startAddress => a.setStartAddress value
  | .endAddress => a.setEndAddress value
  | .currentAddress => a.setCurrentAddress value
  | .sampleFormat => a.setSampleFormat (value.setWidth 16)
  | .gain => a.setGain (value.setWidth 16)
  | .yn1 => a.setYn1 (value.setWidth 16)
  | .yn2 => a.setYn2 (value.setWidth 16)
  | .predScale => a.setPredScale (value.setWidth 16)
  | .input => a.setInput (value.setWidth 16)

inductive Access where
  | readSample (coefs : Vector (BitVec 16) 16)
  | readRaw
  | writeRaw (value : BitVec 16)
  | get (r : Register)
  | set (r : Register) (value : BitVec 32)

section Observe
variable {σ : Type} (o : Owner σ)

/-- An access: what it returns and raises, and what it leaves. -/
def step (s : σ) (a : Accelerator) : Access → (BitVec 32 × List EndException) × σ × Accelerator
  | .readSample coefs =>
    let r := a.readSample o coefs s
    ((r.val.setWidth 32, r.raised), r.owner, r.acc)
  | .readRaw =>
    let r := a.readRaw o s
    ((r.val.setWidth 32, r.raised), r.owner, r.acc)
  | .writeRaw value =>
    let r := a.writeRaw o value s
    ((0, r.raised), r.owner, r.acc)
  | .get r => ((a.getRegister r, []), s, a)
  | .set r value => ((0, []), s, a.setRegister value r)

/-- What a sequence of accesses returns and raises. -/
def observe : List Access → σ → Accelerator → List (BitVec 32 × List EndException)
  | [], _, _ => []
  | op :: ops, s, a =>
    let r := a.step o s op
    r.1 :: observe ops r.2.1 r.2.2

/-- A loaded accelerator returns and raises the same as the saved one in every sequence of accesses
    exactly if it has had the same gain and input before. -/
theorem observe_doState_iff (s : σ) (a b : Accelerator) :
    (∀ ops, observe o ops s (reload a b) = observe o ops s a) ↔
      a.gain = b.gain ∧ a.input = b.input := by
  rw [reload_eq]
  constructor
  · -- both can be read back
    intro h
    have hgain := h [.get .gain]
    have hinput := h [.get .input]
    simp only [observe, step, getRegister, List.cons.injEq, Prod.mk.injEq, and_true] at hgain hinput
    have hwidth : ∀ {x y : BitVec 16}, x.setWidth 32 = y.setWidth 32 → x = y := by
      intro x y hxy
      have hback := congrArg (BitVec.setWidth 16) hxy
      simpa using hback
    exact ⟨(hwidth hgain).symm, (hwidth hinput).symm⟩
  · rintro ⟨hgain, hinput⟩ ops
    rw [← hgain, ← hinput]

end Observe

def onesOwner : Owner Unit := ⟨fun _ _ => 1, fun s _ _ => s, fun _ s a => (s, a)⟩

/-- 16-bit PCM samples at the scale 1, with a gain of 1. -/
def pcmVoice : Accelerator := ((initial.setEndAddress 0x1000).setSampleFormat 0x1A).setGain 1

/-- A voice that is loaded into a new accelerator is silent. -/
theorem pcmVoice_reload :
    observe onesOwner [.readSample (Vector.replicate 16 0)] () pcmVoice = [(0x0101, [])] ∧
    observe onesOwner [.readSample (Vector.replicate 16 0)] () (reload pcmVoice initial) =
      [(0, [])] := by
  decide +kernel

end Accelerator
end DolphinXR.DSP
