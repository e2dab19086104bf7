import Mathlib.Data.List.Basic
import Mathlib.Tactic.Ring

/- Byte strings as lists: cutting a piece out, writing over a piece, numbers
   as big-endian bytes (`be`, `readBE`, and `beAt` for the number at an
   offset, which is `none` past the end), and strings ended by a zero byte. -/
namespace DolphinXR.Lib

abbrev Bytes := List UInt8

section Slice
variable {α : Type}

/-- The `len` elements from `off` on, or as many as there are. -/
def slice (l : List α) (off len : Nat) : List α := (l.drop off).take len

theorem length_slice {l : List α} {off len : Nat} (h : off + len ≤ l.length) :
    (slice l off len).length = len := by
  simp only [slice, List.length_take, List.length_drop]; omega

@[simp] theorem slice_zero (l : List α) (off : Nat) : slice l off 0 = [] := by simp [slice]

theorem slice_add (l : List α) (off a b : Nat) :
    slice l off (a + b) = slice l off a ++ slice l (off + a) b := by
  simp only [slice, List.take_add, List.drop_drop]

theorem slice_append_left {l : List α} (m : List α) {off len : Nat} (h : off + len ≤ l.length) :
    slice (l ++ m) off len = slice l off len := by
  unfold slice
  rw [List.drop_append_of_le_length (by omega), List.take_append_of_le_length (by simp; omega)]

theorem slice_append_right {l : List α} (m : List α) {off : Nat} (len : Nat)
    (h : l.length ≤ off) : slice (l ++ m) off len = slice m (off - l.length) len := by
  unfold slice
  rw [List.drop_append, List.drop_eq_nil_of_le h, List.nil_append]

theorem slice_middle (l m r : List α) : slice (l ++ (m ++ r)) l.length m.length = m := by
  simp [slice]

theorem slice_middle_of_le (l r : List α) {m : List α} {off len : Nat} (h : off + len ≤ m.length) :
    slice (l ++ (m ++ r)) (l.length + off) len = slice m off len := by
  rw [slice_append_right _ _ (by omega), Nat.add_sub_cancel_left, slice_append_left _ h]

theorem length_flatMap_range {f : Nat → List α} {w : Nat} (hf : ∀ j, (f j).length = w) (n : Nat) :
    ((List.range n).flatMap f).length = n * w := by
  simp [List.length_flatMap, hf]

theorem slice_flatMap_range {f : Nat → List α} {w n k : Nat} (hf : ∀ j, (f j).length = w)
    (hk : k < n) : slice ((List.range n).flatMap f) (k * w) w = f k := by
  obtain ⟨d, rfl⟩ : ∃ d, n = k + (d + 1) := ⟨n - k - 1, by omega⟩
  have hsplit : (List.range (k + (d + 1))).flatMap f = (List.range k).flatMap f ++
      (f k ++ (List.range d).flatMap fun j => f (k + (j + 1))) := by
    rw [List.range_add, List.flatMap_append, List.range_succ_eq_map]
    simp [List.flatMap_map]
  have hmid := slice_middle ((List.range k).flatMap f) (f k)
    ((List.range d).flatMap fun j => f (k + (j + 1)))
  rwa [length_flatMap_range hf, hf, ← hsplit] at hmid

theorem getElem?_slice {l : List α} {off len i : Nat} (h : i < len) :
    (slice l off len)[i]? = l[off + i]? := by
  simp [slice, h, List.getElem?_drop]

/-- `new` written over the elements from `off` on. -/
def splice (l : List α) (off : Nat) (new : List α) : List α :=
  l.take off ++ new ++ l.drop (off + new.length)

theorem length_splice {l new : List α} {off : Nat} (h : off + new.length ≤ l.length) :
    (splice l off new).length = l.length := by
  simp only [splice, List.length_append, List.length_take, List.length_drop]; omega

theorem getElem?_splice_of_lt {l new : List α} {off i : Nat} (hoff : off ≤ l.length) (h : i < off) :
    (splice l off new)[i]? = l[i]? := by
  unfold splice
  rw [List.append_assoc, List.getElem?_append_left (by simp; omega), List.getElem?_take_of_lt h]

theorem getElem?_splice_of_ge {l new : List α} {off i : Nat} (hoff : off ≤ l.length)
    (h : off + new.length ≤ i) : (splice l off new)[i]? = l[i]? := by
  have hlen : (l.take off ++ new).length = off + new.length := by
    rw [List.length_append, List.length_take, Nat.min_eq_left hoff]
  unfold splice
  rw [List.getElem?_append_right (by omega), List.getElem?_drop, hlen]
  congr 1
  omega

theorem getElem?_splice_self {l new : List α} {off i : Nat} (hoff : off ≤ l.length)
    (h : i < new.length) : (splice l off new)[off + i]? = new[i]? := by
  have hlen : (l.take off).length = off := by rw [List.length_take, Nat.min_eq_left hoff]
  unfold splice
  rw [List.append_assoc, List.getElem?_append_right (by omega),
    List.getElem?_append_left (by omega), hlen, Nat.add_sub_cancel_left]

theorem splice_append (l m new : List α) :
    splice (l ++ m) l.length new = (l ++ new) ++ m.drop new.length := by
  have hd : (l ++ m).drop (l.length + new.length) = m.drop new.length := by
    rw [List.drop_append, List.drop_eq_nil_of_le (by omega)]; simp
  simp only [splice, hd, List.take_left', List.append_assoc]

/-- `piece` stands in `l` at `off`. -/
def At (l : List α) (off : Nat) (piece : List α) : Prop := slice l off piece.length = piece

theorem at_append {l a b : List α} {off : Nat} :
    At l off (a ++ b) ↔ At l off a ∧ At l (off + a.length) b := by
  unfold At
  rw [List.length_append, slice_add]
  constructor
  · intro h
    have ha : (slice l off a.length).length ≤ a.length := by simp [slice]
    have hb : (slice l (off + a.length) b.length).length ≤ b.length := by simp [slice]
    have hlen := congrArg List.length h
    simp only [List.length_append] at hlen
    exact List.append_inj h (by omega)
  · rintro ⟨ha, hb⟩
    rw [ha, hb]

theorem at_middle (l m r : List α) : At (l ++ (m ++ r)) l.length m := slice_middle l m r

theorem At.le_length {l piece : List α} {off : Nat} (h : At l off piece)
    (hpos : 0 < piece.length) : off + piece.length ≤ l.length := by
  have hlen := congrArg List.length h
  simp only [slice, List.length_take, List.length_drop] at hlen
  omega

theorem at_splice_self {l new : List α} {off : Nat} (h : off ≤ l.length) :
    At (splice l off new) off new := by
  have hmid := at_middle (l.take off) new (l.drop (off + new.length))
  rw [List.length_take, Nat.min_eq_left h, ← List.append_assoc] at hmid
  exact hmid

theorem At.splice {l piece new : List α} {off pos : Nat} (h : At l pos piece)
    (hle : off + new.length ≤ l.length)
    (hdis : pos + piece.length ≤ off ∨ off + new.length ≤ pos) : At (splice l off new) pos piece := by
  have hget : ∀ i, i < piece.length →
      (Lib.splice l off new)[pos + i]? = l[pos + i]? := by
    intro i hi
    rcases hdis with hbefore | hbehind
    · exact getElem?_splice_of_lt (by omega) (by omega)
    · exact getElem?_splice_of_ge (by omega) (by omega)
  unfold At at h ⊢
  refine Eq.trans (List.ext_getElem? fun i => ?_) h
  rcases Nat.lt_or_ge i piece.length with hi | hi
  · rw [getElem?_slice hi, getElem?_slice hi, hget i hi]
  · have hnone : ∀ m : List α, (slice m pos piece.length)[i]? = none := by
      intro m
      apply List.getElem?_eq_none
      simp only [slice, List.length_take, List.length_drop]; omega
    rw [hnone, hnone]

end Slice

/-! ### Big-endian numbers -/

/-- The low `width` bytes of `n`, most significant first. -/
def be : Nat → Nat → Bytes
  | 0, _ => []
  | width + 1, n => UInt8.ofNat (n / 256 ^ width) :: be width n

def readBE (l : Bytes) : Nat := l.foldl (fun n b => n * 256 + b.toNat) 0

@[simp] theorem length_be (width n : Nat) : (be width n).length = width := by
  induction width <;> simp [be, *]

theorem foldl_be (l : Bytes) (n : Nat) :
    l.foldl (fun n b => n * 256 + b.toNat) n = n * 256 ^ l.length + readBE l := by
  induction l generalizing n with
  | nil => simp [readBE]
  | cons b l ih =>
    simp only [readBE, List.foldl_cons, List.length_cons]
    rw [ih, ih (0 * 256 + b.toNat), Nat.pow_succ]
    ring

theorem readBE_cons (b : UInt8) (l : Bytes) :
    readBE (b :: l) = b.toNat * 256 ^ l.length + readBE l := by
  simp only [readBE, List.foldl_cons]
  rw [foldl_be]
  simp [readBE]

theorem readBE_lt (l : Bytes) : readBE l < 256 ^ l.length := by
  induction l with
  | nil => simp [readBE]
  | cons b l ih =>
    rw [readBE_cons, List.length_cons, Nat.pow_succ]
    have hb : b.toNat < 256 := b.toNat_lt
    calc b.toNat * 256 ^ l.length + readBE l
        < b.toNat * 256 ^ l.length + 256 ^ l.length := by omega
      _ = (b.toNat + 1) * 256 ^ l.length := by ring
      _ ≤ 256 * 256 ^ l.length := Nat.mul_le_mul_right _ (by omega)
      _ = 256 ^ l.length * 256 := Nat.mul_comm _ _

theorem readBE_be (width n : Nat) : readBE (be width n) = n % 256 ^ width := by
  induction width with
  | zero => simp [be, readBE, Nat.mod_one]
  | succ w ih =>
    simp only [be]
    rw [readBE_cons, ih, length_be, Nat.pow_succ]
    have hb : (UInt8.ofNat (n / 256 ^ w)).toNat = n / 256 ^ w % 256 := by simp
    rw [hb, Nat.mod_mul]
    ring

theorem be_mul_pow_add (width a n : Nat) : be width (a * 256 ^ width + n) = be width n := by
  induction width generalizing a with
  | zero => rfl
  | succ w ih =>
    have hsplit : a * 256 ^ (w + 1) + n = (a * 256) * 256 ^ w + n := by ring
    have hdiv : ((a * 256) * 256 ^ w + n) / 256 ^ w = a * 256 + n / 256 ^ w := by
      rw [Nat.add_comm, Nat.add_mul_div_right _ _ (Nat.pow_pos (by decide)), Nat.add_comm]
    simp only [be]
    rw [hsplit, ih, hdiv]
    congr 1
    apply UInt8.toNat_inj.mp
    simp

theorem be_readBE (l : Bytes) : be l.length (readBE l) = l := by
  induction l with
  | nil => rfl
  | cons b l ih =>
    have hdiv : (b.toNat * 256 ^ l.length + readBE l) / 256 ^ l.length = b.toNat := by
      rw [Nat.add_comm, Nat.add_mul_div_right _ _ (Nat.pow_pos (by decide)),
        Nat.div_eq_of_lt (readBE_lt l), Nat.zero_add]
    rw [readBE_cons, List.length_cons, be, be_mul_pow_add, ih, hdiv]
    simp
/-- The `width`-byte big-endian number at `off`, if all of it is inside. -/
def beAt (l : Bytes) (off width : Nat) : Option Nat :=
  if off + width ≤ l.length then some (readBE (slice l off width)) else none

theorem beAt_isSome {l : Bytes} {off width : Nat} (h : off + width ≤ l.length) :
    ∃ n, beAt l off width = some n := ⟨_, if_pos h⟩

theorem le_of_beAt {l : Bytes} {off width n : Nat} (h : beAt l off width = some n) :
    off + width ≤ l.length := by
  unfold beAt at h
  split at h
  · assumption
  · cases h

theorem At.beAt {l piece : Bytes} {off : Nat} (h : At l off piece) (hpos : 0 < piece.length) :
    beAt l off piece.length = some (readBE piece) := by
  unfold Lib.beAt
  rw [if_pos (h.le_length hpos), h]

/-- The bytes before the first zero byte, or `none` if there is no zero byte. -/
def cstring : Bytes → Option Bytes
  | [] => none
  | b :: rest => if b = 0 then some [] else (cstring rest).map (b :: ·)

theorem cstring_isSome {l : Bytes} (h : 0 ∈ l) : ∃ s, cstring l = some s := by
  induction l with
  | nil => simp at h
  | cons b rest ih =>
    unfold cstring
    by_cases hb : b = 0
    · exact ⟨[], if_pos hb⟩
    · obtain ⟨s, hs⟩ := ih (by simpa [Ne.symm hb] using h)
      exact ⟨b :: s, by rw [if_neg hb, hs]; rfl⟩

theorem cstring_append (s rest : Bytes) (h : 0 ∉ s) :
    cstring (s ++ 0 :: rest) = some s := by
  induction s with
  | nil => simp [cstring]
  | cons b s ih =>
    obtain ⟨hb, hs⟩ : 0 ≠ b ∧ 0 ∉ s := by simpa [not_or] using h
    simp [cstring, Ne.symm hb, ih hs]

theorem At.cstring {l s : Bytes} {off : Nat} (h : At l off (s ++ [0])) (hs : 0 ∉ s) :
    cstring (l.drop off) = some s := by
  have hsplit : l.drop off = (s ++ [0]) ++ (l.drop off).drop (s ++ [0]).length := by
    conv_lhs => rw [← List.take_append_drop (s ++ [0]).length (l.drop off)]
    exact congrArg (· ++ _) h
  rw [hsplit, List.append_assoc]
  exact cstring_append s _ hs

end DolphinXR.Lib
