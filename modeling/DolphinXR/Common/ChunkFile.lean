import DolphinXR.Lib.Bytes

/- The savestate stream (Common/ChunkFile.h): a `PointerWrap` goes through a buffer and writes
   the values it is shown, or reads them back. What is past the end of the buffer is neither
   written nor read. A value that is saved by its parts is read back with these parts and
   keeps the others. -/
namespace DolphinXR
open Lib

inductive PointerWrap where
  /-- With what is left of the buffer. -/
  | read (left : Bytes)
  /-- With what has been written, and the room that is left for more. -/
  | write (out : Bytes) (room : Nat)
  | measure

namespace PointerWrap

/-- `DoVoid` on the bytes of a value. -/
def doVoid (p : PointerWrap) (data : Bytes) : PointerWrap × Bytes :=
  match p with
  | .read left =>
    if data.length ≤ left.length then (.read (left.drop data.length), left.take data.length)
    else (.measure, data)
  | .write out room =>
    if data.length ≤ room then (.write (out ++ data) (room - data.length), data)
    else (.measure, data)
  | .measure => (.measure, data)

def hostBytes {w : Nat} (x : BitVec w) : Bytes := (be (w / 8) x.toNat).reverse

def ofHostBytes (w : Nat) (bytes : Bytes) : BitVec w := BitVec.ofNat w (readBE bytes.reverse)

/-- `Do` on a number. -/
def doNum {w : Nat} (p : PointerWrap) (x : BitVec w) : PointerWrap × BitVec w :=
  let r := p.doVoid (hostBytes x)
  (r.1, ofHostBytes w r.2)

/-- `Do` on a `bool`, which is a byte in the buffer. -/
def doBool (p : PointerWrap) (x : Bool) : PointerWrap × Bool :=
  let r := p.doNum (if x then 1 else 0 : BitVec 8)
  match r.1 with
  | .read _ => (r.1, r.2 != 0)
  | _ => (r.1, x)

end PointerWrap

/-! ### Saving by parts -/

/-- A function like `DoState`. -/
abbrev DoState (α : Type) := PointerWrap → α → PointerWrap × α

namespace DoState
variable {α β : Type}

def field (get : α → β) (set : β → α → α) (f : DoState β) : DoState α := fun p a =>
  let r := f p (get a)
  (r.1, set r.2 a)

def seq (f g : DoState α) : DoState α := fun p a =>
  let r := f p a
  g r.1 r.2

end DoState

/-- What is written for a value, and what is made of a value by reading it. -/
structure Saves {α : Type} (f : DoState α) (bytes : α → Bytes) (merge : α → α → α) : Prop where
  write : ∀ a out room, (bytes a).length ≤ room →
    f (.write out room) a = (.write (out ++ bytes a) (room - (bytes a).length), a)
  read : ∀ a b rest, f (.read (bytes a ++ rest)) b = (.read rest, merge a b)

namespace Saves
variable {α β : Type}

theorem ofHostBytes_hostBytes {w : Nat} (hw : 256 ^ (w / 8) = 2 ^ w) (x : BitVec w) :
    PointerWrap.ofHostBytes w (PointerWrap.hostBytes x) = x := by
  apply BitVec.eq_of_toNat_eq
  rw [PointerWrap.ofHostBytes, PointerWrap.hostBytes, List.reverse_reverse, readBE_be, hw,
    Nat.mod_eq_of_lt x.isLt, BitVec.ofNat_toNat, BitVec.setWidth_eq]

theorem length_hostBytes {w : Nat} (x : BitVec w) : (PointerWrap.hostBytes x).length = w / 8 := by
  rw [PointerWrap.hostBytes, List.length_reverse, length_be]

theorem doNum {w : Nat} (hw : 256 ^ (w / 8) = 2 ^ w) :
    Saves (α := BitVec w) PointerWrap.doNum PointerWrap.hostBytes fun x _ => x where
  write x out room hroom := by
    simp only [PointerWrap.doNum, PointerWrap.doVoid, if_pos hroom, ofHostBytes_hostBytes hw]
  read x y rest := by
    have hlength : (PointerWrap.hostBytes y).length = (PointerWrap.hostBytes x).length := by
      rw [length_hostBytes, length_hostBytes]
    have hle : (PointerWrap.hostBytes x).length ≤ (PointerWrap.hostBytes x ++ rest).length := by
      rw [List.length_append]
      exact Nat.le_add_right _ _
    simp only [PointerWrap.doNum, PointerWrap.doVoid, hlength, if_pos hle, List.take_left',
      List.drop_left', ofHostBytes_hostBytes hw]

theorem doBool : Saves PointerWrap.doBool
    (fun x => PointerWrap.hostBytes (if x then 1 else 0 : BitVec 8)) fun x _ => x where
  write x out room hroom := by
    simp only [PointerWrap.doBool, (doNum (w := 8) rfl).write _ _ _ hroom]
  read x y rest := by
    simp only [PointerWrap.doBool, (doNum (w := 8) rfl).read]
    cases x with
    | false => rfl
    | true => rfl

theorem field {f : DoState β} {bytes : β → Bytes} {merge : β → β → β} (h : Saves f bytes merge)
    {get : α → β} {set : β → α → α} (hset : ∀ a, set (get a) a = a) :
    Saves (DoState.field get set f) (fun a => bytes (get a))
      fun a b => set (merge (get a) (get b)) b where
  write a out room hroom := by
    simp only [DoState.field, h.write _ _ _ hroom, hset]
  read a b rest := by
    simp only [DoState.field, h.read]

theorem seq {f g : DoState α} {bytes bytes' : α → Bytes} {merge merge' : α → α → α}
    (hf : Saves f bytes merge) (hg : Saves g bytes' merge') :
    Saves (DoState.seq f g) (fun a => bytes a ++ bytes' a) fun a b => merge' a (merge a b) where
  write a out room hroom := by
    rw [List.length_append] at hroom
    simp only [DoState.seq, hf.write a out room (by omega),
      hg.write a (out ++ bytes a) (room - (bytes a).length) (by omega), List.append_assoc,
      List.length_append, Nat.sub_sub]
  read a b rest := by
    simp only [DoState.seq, List.append_assoc, hf.read, hg.read]

end Saves
end DolphinXR
