import DolphinXR.Lib.Bytes
import DolphinXR.Lib.Search

/- The encoding of the Wii's setting.txt (Common/SettingsHandler.cpp). The lines "key=value" are
   encoded byte by byte with a key that is rotated after every byte. A line that would have a zero
   byte is written again behind one more line feed, until it has none; the recursion ends because a
   zero byte is only found where the line feed still has room.

   What the file holds is described line by line: how many line feeds stand in front of a line, and
   that these are the first number with which no byte of it is zero. -/
namespace DolphinXR.Common
open Lib

abbrev Key := BitVec 32

def initialSeed : Key := 0x73B5DBFA#32

def rotateKey (key : Key) : Key := (key >>> 31) ||| (key <<< 1)

def encodeByte (b : UInt8) (key : Key) : UInt8 := b ^^^ UInt8.ofBitVec (key.setWidth 8)

def lineFeed : UInt8 := 0x0a
def carriageReturn : UInt8 := 0x0d
def equalsSign : UInt8 := 0x3d

/-! ### Writer -/

structure SettingsWriter where
  buffer : Bytes := List.replicate 0x100 0
  position : Nat := 0
  key : Key := initialSeed

namespace SettingsWriter

def writeByte (w : SettingsWriter) (b : UInt8) : SettingsWriter :=
  if w.position ≥ w.buffer.length then w
  else
    { buffer := w.buffer.set w.position (encodeByte b w.key)
      position := w.position + 1
      key := rotateKey w.key }

def writeBytes (str : Bytes) (w : SettingsWriter) : SettingsWriter := str.foldl writeByte w

def written (w : SettingsWriter) (oldPosition : Nat) : Bytes :=
  slice w.buffer oldPosition (w.position - oldPosition)

theorem length_writeByte (w : SettingsWriter) (b : UInt8) :
    (w.writeByte b).buffer.length = w.buffer.length := by
  unfold writeByte
  split
  · rfl
  · exact List.length_set

theorem length_writeBytes (str : Bytes) (w : SettingsWriter) :
    (w.writeBytes str).buffer.length = w.buffer.length := by
  induction str generalizing w with
  | nil => rfl
  | cons b str ih => exact (ih (w.writeByte b)).trans (length_writeByte w b)

theorem lt_length_of_mem_written {str : Bytes} {w : SettingsWriter} {b : UInt8}
    (h : b ∈ (w.writeBytes str).written w.position) : w.position < w.buffer.length := by
  by_contra hfull
  have hnone : (w.writeBytes str).written w.position = [] := by
    rw [written, slice, List.drop_eq_nil_of_le (by rw [length_writeBytes]; omega), List.take_nil]
  rw [hnone] at h
  exact List.not_mem_nil h

def retry (w : SettingsWriter) (old : SettingsWriter) : SettingsWriter :=
  writeByte { w with key := old.key, position := old.position } lineFeed

theorem retry_decreases {str : Bytes} {w : SettingsWriter}
    (h : 0 ∈ (w.writeBytes str).written w.position) :
    (retry (w.writeBytes str) w).buffer.length - (retry (w.writeBytes str) w).position <
      w.buffer.length - w.position := by
  have hroom := lt_length_of_mem_written h
  have hposition : (retry (w.writeBytes str) w).position = w.position + 1 := by
    unfold retry writeByte
    rw [if_neg (by simpa [length_writeBytes] using hroom)]
  rw [retry, length_writeByte, length_writeBytes, ← retry, hposition]
  omega

def writeLine (str : Bytes) (w : SettingsWriter) : SettingsWriter :=
  if 0 ∈ (w.writeBytes str).written w.position then writeLine str (retry (w.writeBytes str) w)
  else w.writeBytes str
termination_by w.buffer.length - w.position
decreasing_by exact retry_decreases ‹_›

def addSetting (key value : Bytes) (w : SettingsWriter) : SettingsWriter :=
  w.writeLine (key ++ equalsSign :: value ++ [carriageReturn, lineFeed])

def ofSettings (settings : List (Bytes × Bytes)) : SettingsWriter :=
  settings.foldl (fun w s => w.addSetting s.1 s.2) {}

end SettingsWriter

structure SettingsReader where
  decoded : Bytes

namespace SettingsReader

def decodeFrom (key : Key) : Bytes → Bytes
  | [] => []
  | b :: rest => encodeByte b key :: decodeFrom (rotateKey key) rest

def ofBuffer (buffer : Bytes) : SettingsReader :=
  ⟨(decodeFrom initialSeed buffer).filter (· ≠ carriageReturn)⟩

/-- The text from a place to the next line feed. Without one it goes on to the last character
    but one. -/
def valueAt (start : Nat) (r : SettingsReader) : Bytes :=
  let behind := r.decoded.drop start
  match Search.find [lineFeed] behind with
  | some delimFound => behind.take delimFound
  | none => behind.take (r.decoded.length - 1 - start)

def getValue (key : Bytes) (r : SettingsReader) : Bytes :=
  let toFind := lineFeed :: key ++ [equalsSign]
  match Search.find toFind r.decoded with
  | some found => r.valueAt (found + toFind.length)
  | none =>
    let toFind := key ++ [equalsSign]
    match Search.find toFind r.decoded with
    | some 0 => r.valueAt toFind.length
    | _ => []

end SettingsReader

/-! ### The key at a position -/

def keyAt (position : Nat) : Key := rotateKey^[position] initialSeed

theorem keyAt_succ (position : Nat) : keyAt (position + 1) = rotateKey (keyAt position) :=
  Function.iterate_succ_apply' ..

/-- The 32 rotations of the first key. -/
def keys : List Key :=
  [0x73B5DBFA#32, 0xE76BB7F4#32, 0xCED76FE9#32, 0x9DAEDFD3#32, 0x3B5DBFA7#32, 0x76BB7F4E#32,
   0xED76FE9C#32, 0xDAEDFD39#32, 0xB5DBFA73#32, 0x6BB7F4E7#32, 0xD76FE9CE#32, 0xAEDFD39D#32,
   0x5DBFA73B#32, 0xBB7F4E76#32, 0x76FE9CED#32, 0xEDFD39DA#32, 0xDBFA73B5#32, 0xB7F4E76B#32,
   0x6FE9CED7#32, 0xDFD39DAE#32, 0xBFA73B5D#32, 0x7F4E76BB#32, 0xFE9CED76#32, 0xFD39DAED#32,
   0xFA73B5DB#32, 0xF4E76BB7#32, 0xE9CED76F#32, 0xD39DAEDF#32, 0xA73B5DBF#32, 0x4E76BB7F#32,
   0x9CED76FE#32, 0x39DAEDFD#32]

theorem keyAt_mem_keys (position : Nat) : keyAt position ∈ keys := by
  have hclosed : keys.all (fun key => decide (rotateKey key ∈ keys)) = true := by decide
  induction position with
  | zero => exact List.mem_cons_self ..
  | succ position ih =>
    rw [keyAt_succ]
    exact of_decide_eq_true (List.all_eq_true.1 hclosed _ ih)

/-- No key is a line feed, so a line feed is never encoded as zero, and no key is an equals sign
    or a carriage return, so neither is read behind the last line. -/
theorem encodeByte_zero_keyAt (position : Nat) :
    encodeByte 0 (keyAt position) ∉ [lineFeed, carriageReturn, equalsSign] := by
  have hkeys : keys.all (fun key =>
      decide (encodeByte 0 key ∉ [lineFeed, carriageReturn, equalsSign])) = true := by decide
  exact of_decide_eq_true (List.all_eq_true.1 hkeys _ (keyAt_mem_keys position))

theorem encodeByte_encodeByte (b : UInt8) (key : Key) : encodeByte (encodeByte b key) key = b := by
  rw [encodeByte, encodeByte, UInt8.xor_assoc, UInt8.xor_self, UInt8.xor_zero]

def encodeFrom : Nat → Bytes → Bytes
  | _, [] => []
  | position, b :: rest => encodeByte b (keyAt position) :: encodeFrom (position + 1) rest

theorem encodeFrom_append (position : Nat) (a b : Bytes) :
    encodeFrom position (a ++ b) = encodeFrom position a ++ encodeFrom (position + a.length) b := by
  induction a generalizing position with
  | nil => rfl
  | cons c a ih =>
    rw [List.cons_append, encodeFrom, ih, encodeFrom, List.length_cons, List.cons_append,
      Nat.add_right_comm, Nat.add_assoc]

theorem length_encodeFrom (position : Nat) (a : Bytes) : (encodeFrom position a).length = a.length := by
  induction a generalizing position with
  | nil => rfl
  | cons c a ih => exact congrArg Nat.succ (ih (position + 1))

theorem decodeFrom_encodeFrom (position : Nat) (a : Bytes) :
    SettingsReader.decodeFrom (keyAt position) (encodeFrom position a) = a := by
  induction a generalizing position with
  | nil => rfl
  | cons c a ih =>
    rw [encodeFrom, SettingsReader.decodeFrom, encodeByte_encodeByte, ← keyAt_succ, ih]

theorem decodeFrom_append (position : Nat) (a b : Bytes) :
    SettingsReader.decodeFrom (keyAt position) (a ++ b) =
      SettingsReader.decodeFrom (keyAt position) a ++
        SettingsReader.decodeFrom (keyAt (position + a.length)) b := by
  induction a generalizing position with
  | nil => rfl
  | cons c a ih =>
    rw [List.cons_append, SettingsReader.decodeFrom, ← keyAt_succ, ih, SettingsReader.decodeFrom,
      ← keyAt_succ, List.length_cons, List.cons_append, Nat.add_right_comm, Nat.add_assoc]

structure SettingsLine where
  feeds : Nat
  key : Bytes
  value : Bytes

namespace SettingsLine

def str (l : SettingsLine) : Bytes := l.key ++ equalsSign :: l.value ++ [carriageReturn, lineFeed]

def text (l : SettingsLine) : Bytes := List.replicate l.feeds lineFeed ++ l.str

def stream (lines : List SettingsLine) : Bytes := lines.flatMap text

/-- Every line stands behind the first number of line feeds with which it has no zero byte. -/
def Encoded : Nat → List SettingsLine → Prop
  | _, [] => True
  | position, l :: rest =>
    0 ∉ encodeFrom (position + l.feeds) l.str ∧
    (∀ feeds < l.feeds, 0 ∈ encodeFrom (position + feeds) l.str) ∧
    Encoded (position + l.text.length) rest

end SettingsLine

/-- The lines of the settings, with the line feeds that they need, fit the buffer. -/
def Fits (settings : List (Bytes × Bytes)) : Prop :=
  ∃ lines : List SettingsLine, lines.map (fun l => (l.key, l.value)) = settings ∧
    SettingsLine.Encoded 0 lines ∧ (SettingsLine.stream lines).length ≤ 0x100

end DolphinXR.Common
