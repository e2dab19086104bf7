import DolphinXR.VideoCommon.IndexGenerator
import Mathlib.Data.List.GetD
import Mathlib.Algebra.GroupWithZero.Nat

/- With and without primitive restart the generator writes the same triangles: the same ones in the
   same order, with their winding. Each loop is compared with its counterpart one step at a time. -/
namespace DolphinXR.VideoCommon
open Lib Triangle

theorem toIndex_ne {m n : Nat} (hm : m < 0xFFFF) (hn : n < 0xFFFF) (h : m ≠ n) :
    toIndex m ≠ toIndex n := by
  intro heq
  have hmod := congrArg UInt16.toNat heq
  simp only [toIndex, UInt16.toNat_ofNat'] at hmod
  omega

theorem toIndex_ne_restart {n : Nat} (h : n < 0xFFFF) : toIndex n ≠ primitiveRestart := by
  intro heq
  have hmod := congrArg UInt16.toNat heq
  simp only [toIndex, UInt16.toNat_ofNat', primitiveRestart] at hmod
  have : (0xFFFF : UInt16).toNat = 0xFFFF := by decide
  omega

theorem nondegenerate_toIndex {a b c : Nat} (ha : a < 0xFFFF) (hb : b < 0xFFFF) (hc : c < 0xFFFF)
    (hab : a ≠ b) (hac : a ≠ c) (hbc : b ≠ c) :
    (⟨toIndex a, toIndex b, toIndex c⟩ : Triangle UInt16).Nondegenerate := by
  simp [Triangle.Nondegenerate, Triangle.corners, toIndex_ne ha hb hab, toIndex_ne ha hc hac,
    toIndex_ne hb hc hbc]

theorem nodup_restart {l : List Nat} (hl : ∀ n ∈ l, n < 0xFFFF) (hd : l.Nodup) :
    (l.map toIndex ++ [primitiveRestart]).Nodup := by
  rw [List.nodup_append]
  refine ⟨?_, by simp, ?_⟩
  · refine List.Pairwise.map _ (fun _ _ h => h) (List.Pairwise.imp_of_mem ?_ hd)
    intro m n hm hn hne
    exact toIndex_ne (hl m hm) (hl n hn) hne
  · intro x hx y hy
    obtain ⟨n, hn, rfl⟩ := List.mem_map.mp hx
    rw [List.mem_singleton.mp hy]
    exact toIndex_ne_restart (hl n hn)

namespace IndexPtr

@[simp] theorem pos_put (p : IndexPtr) (x : UInt16) : (p.put x).pos = p.pos + 1 := rfl

theorem buffer_put (p : IndexPtr) (x : UInt16) :
    (p.put x).buffer = Function.update p.buffer p.pos x := rfl

def writeAll (p : IndexPtr) (l : List UInt16) : IndexPtr := l.foldl put p

@[simp] theorem writeAll_nil (p : IndexPtr) : p.writeAll [] = p := rfl

theorem writeAll_append (p : IndexPtr) (l l' : List UInt16) :
    p.writeAll (l ++ l') = (p.writeAll l).writeAll l' := List.foldl_append

theorem pos_writeAll (p : IndexPtr) (l : List UInt16) : (p.writeAll l).pos = p.pos + l.length := by
  induction l generalizing p with
  | nil => rfl
  | cons x l ih =>
    have hstep : p.writeAll (x :: l) = (p.put x).writeAll l := rfl
    rw [hstep, ih, pos_put, List.length_cons]
    omega

theorem buffer_writeAll (p : IndexPtr) (l : List UInt16) (a : Nat) :
    (p.writeAll l).buffer a = if p.pos ≤ a then l.getD (a - p.pos) (p.buffer a) else p.buffer a := by
  induction l generalizing p with
  | nil => simp
  | cons x l ih =>
    have hstep : p.writeAll (x :: l) = (p.put x).writeAll l := rfl
    rw [hstep, ih, pos_put, buffer_put]
    rcases Nat.lt_trichotomy a p.pos with hlt | rfl | hgt
    · rw [if_neg (by omega), if_neg (by omega), Function.update_of_ne (by omega)]
    · rw [if_neg (by omega), if_pos (Nat.le_refl _)]
      simp
    · rw [if_pos (by omega), if_pos (by omega), Function.update_of_ne (by omega),
        show a - p.pos = a - (p.pos + 1) + 1 by omega, List.getD_cons_succ]

def WritesSame (R : Triangle UInt16 → Triangle UInt16 → Prop) (f g : IndexPtr → IndexPtr) : Prop :=
  ∃ r l, (∀ p, f p = p.writeAll r) ∧ (∀ p, g p = p.writeAll l) ∧
    SameTriangles R primitiveRestart r l

section WritesSame
variable {R : Triangle UInt16 → Triangle UInt16 → Prop} {f g f' g' : IndexPtr → IndexPtr}

theorem WritesSame.id : WritesSame R (fun p => p) (fun p => p) :=
  ⟨[], [], fun _ => rfl, fun _ => rfl, .nil⟩

theorem WritesSame.trans (h : WritesSame R f g) (h' : WritesSame R f' g') :
    WritesSame R (fun p => f' (f p)) (fun p => g' (g p)) := by
  obtain ⟨r, l, hf, hg, hsame⟩ := h
  obtain ⟨r', l', hf', hg', hsame'⟩ := h'
  refine ⟨r ++ r', l ++ l', fun p => ?_, fun p => ?_, hsame.append hsame'⟩
  · simp only [hf, hf', writeAll_append]
  · simp only [hg, hg', writeAll_append]

end WritesSame

/-! ### Lists and strips -/

section Loops
variable {numVerts index : Nat} (hb : ∀ i < numVerts, index + i < 0xFFFF)

theorem writeTriangle_same {a b c : Nat} (ha : a < 0xFFFF) (hb : b < 0xFFFF) (hc : c < 0xFFFF)
    (hab : a ≠ b) (hac : a ≠ c) (hbc : b ≠ c) :
    WritesSame Kept (fun p => p.writeTriangle true a b c) (fun p => p.writeTriangle false a b c) :=
  ⟨_, _, fun _ => rfl, fun _ => rfl, .of_triangle
    (nodup_restart (l := [a, b, c]) (by simp [ha, hb, hc]) (by simp [hab, hac, hbc]))⟩

include hb

theorem addListFrom_same (i : Nat) (hi : 2 ≤ i) :
    WritesSame Kept (addListFrom true numVerts index i) (addListFrom false numVerts index i) := by
  induction hn : numVerts - i using Nat.strongRecOn generalizing i with
  | ind n ih =>
    have hunfold : ∀ pr, addListFrom pr numVerts index i = fun p =>
        if i < numVerts then addListFrom pr numVerts index (i + 3)
          (p.writeTriangle pr (index + i - 2) (index + i - 1) (index + i)) else p :=
      fun pr => funext fun p => by rw [addListFrom]
    rw [hunfold, hunfold]
    by_cases hlt : i < numVerts
    · have hlast := hb i hlt
      simp only [if_pos hlt]
      exact (writeTriangle_same (by omega) (by omega) hlast (by omega) (by omega) (by omega)).trans
        (ih _ (by omega) (i + 3) (by omega) rfl)
    · simp only [if_neg hlt]
      exact .id

omit hb in
theorem addStripIndices_eq (i : Nat) (p : IndexPtr) :
    addStripIndices numVerts index i p =
      p.writeAll ((List.range' i (numVerts - i)).map fun v => toIndex (index + v)) := by
  induction hn : numVerts - i using Nat.strongRecOn generalizing i p with
  | ind n ih =>
    rw [addStripIndices]
    by_cases hlt : i < numVerts
    · rw [if_pos hlt, ih _ (by omega) (i + 1) _ rfl, ← hn,
        show numVerts - i = numVerts - (i + 1) + 1 by omega, List.range'_succ]
      rfl
    · rw [if_neg hlt, ← hn, Nat.sub_eq_zero_of_le (by omega)]
      rfl

theorem addStripTriangles_spec (i : Nat) (wind : Bool) :
    ∃ l, (∀ p, addStripTriangles numVerts index (i + 2) wind p = p.writeAll l) ∧ l.length % 3 = 0 ∧
      List.Forall₂ Kept
        (strip wind ((List.range' i (numVerts - i)).map fun v => toIndex (index + v)))
        (triangleList l) := by
  induction hn : numVerts - i using Nat.strongRecOn generalizing i wind with
  | ind n ih =>
    by_cases hlt : i + 2 < numVerts
    · obtain ⟨l, hwrites, hwhole, hsame⟩ := ih _ (by omega) (i + 1) (!wind) rfl
      have hlast := hb (i + 2) hlt
      refine ⟨toIndex (index + (i + 2) - 2) :: toIndex (index + (i + 2) - (!wind).toNat) ::
        toIndex (index + (i + 2) - wind.toNat) :: l, fun p => ?_,
        by simp only [List.length_cons]; omega, ?_⟩
      · rw [addStripTriangles, if_pos hlt, Nat.add_right_comm, hwrites]
        rfl
      · rw [← hn, show numVerts - i = numVerts - (i + 1) - 1 - 1 + 1 + 1 + 1 by omega]
        rw [show numVerts - (i + 1) = numVerts - (i + 1) - 1 - 1 + 1 + 1 by omega] at hsame
        simp only [List.range'_succ, List.map_cons, strip, triangleList] at hsame ⊢
        refine .cons ?_ hsame
        have h0 : index + (i + 2) - 2 = index + i := by omega
        have h1 : index + (i + 2) - 1 = index + (i + 1) := by omega
        cases wind <;>
          simp only [Bool.not_false, Bool.not_true, Bool.toNat_true, Bool.toNat_false, Nat.sub_zero,
            Bool.false_eq_true, if_false, if_true, h0, h1]
        · exact ⟨.inl rfl, nondegenerate_toIndex (by omega) (by omega) (by omega) (by omega)
            (by omega) (by omega)⟩
        · exact ⟨.inl rfl, nondegenerate_toIndex (by omega) (by omega) (by omega) (by omega)
            (by omega) (by omega)⟩
    · refine ⟨[], fun p => by rw [addStripTriangles, if_neg hlt]; rfl, rfl, ?_⟩
      have hshort : (strip wind ((List.range' i (numVerts - i)).map
          fun v => toIndex (index + v))).length = 0 := by
        rw [length_strip, List.length_map, List.length_range']
        omega
      rw [← hn, List.eq_nil_of_length_eq_zero hshort]
      exact .nil

theorem addStrip_same : WritesSame Kept (addStrip true numVerts index) (addStrip false numVerts index) := by
  obtain ⟨l, hwrites, hwhole, hsame⟩ := addStripTriangles_spec hb 0 false
  refine ⟨_, l, fun p => ?_, hwrites, .of_strip ?_ hwhole hsame⟩
  · rw [addStrip, if_pos rfl, addStripIndices_eq, writeAll_append]
    rfl
  · intro hmem
    obtain ⟨v, hv, heq⟩ := List.mem_map.mp hmem
    obtain ⟨-, hlt⟩ := List.mem_range'_1.mp hv
    exact toIndex_ne_restart (hb v (by omega)) heq

/-! ### Fans -/

omit hb in
theorem addFanOnes_step {i : Nat} (h : i < numVerts) (p : IndexPtr) :
    addFanOnes false numVerts index i p = addFanOnes false numVerts index (i + 1)
      (p.writeAll [toIndex index, toIndex (index + i - 1), toIndex (index + i)]) := by
  conv_lhs => rw [addFanOnes, if_pos h]
  rfl

variable (numVerts index) in
/-- Strips of the fan from the vertex `i` on: behind them the list goes on where they stop. -/
def FanPart (strips : IndexPtr → Nat × IndexPtr) (i : Nat) : Prop :=
  ∃ stop r l, i ≤ stop ∧ (∀ p, strips p = (stop, p.writeAll r)) ∧
    (∀ p, addFanOnes false numVerts index i p =
      addFanOnes false numVerts index stop (p.writeAll l)) ∧
    SameTriangles Kept primitiveRestart r l

omit hb in
theorem FanPart.nil (i : Nat) : FanPart numVerts index (fun p => (i, p)) i :=
  ⟨i, [], [], Nat.le_refl _, fun _ => rfl, fun _ => rfl, .nil⟩

omit hb in
theorem FanPart.cons {strips strips' : IndexPtr → Nat × IndexPtr} {i i' : Nat} {r l : List UInt16}
    (hi : i ≤ i') (hr : ∀ p, strips p = strips' (p.writeAll r))
    (hl : ∀ p, addFanOnes false numVerts index i p =
      addFanOnes false numVerts index i' (p.writeAll l))
    (hsame : SameTriangles Kept primitiveRestart r l) (h : FanPart numVerts index strips' i') :
    FanPart numVerts index strips i := by
  obtain ⟨stop, r', l', hle, hr', hl', hsame'⟩ := h
  refine ⟨stop, r ++ r', l ++ l', Nat.le_trans hi hle, fun p => ?_, fun p => ?_,
    hsame.append hsame'⟩
  · rw [hr, hr', writeAll_append]
  · rw [hl, hl', writeAll_append]

theorem addFanThrees_part (i : Nat) (hi : 2 ≤ i) :
    FanPart numVerts index (addFanThrees numVerts index i) i := by
  induction hn : numVerts - i using Nat.strongRecOn generalizing i with
  | ind n ih =>
    by_cases hle : i + 3 ≤ numVerts
    · have hlast := hb (i + 2) (by omega)
      have hnodup := nodup_restart
        (l := [index, index + i - 1, index + i, index + i + 1, index + i + 2])
        (by simp; omega) (by simp; omega)
      refine FanPart.cons (Nat.le_add_right i 3) (fun p => ?_) (fun p => ?_) (.of_fanThree hnodup)
        (ih _ (by omega) (i + 3) (by omega) rfl)
      · rw [addFanThrees, if_pos hle]
        rfl
      · rw [addFanOnes_step (by omega), addFanOnes_step (by omega), addFanOnes_step (by omega)]
        rfl
    · have hstop : addFanThrees numVerts index i = fun p => (i, p) :=
        funext fun p => by rw [addFanThrees, if_neg hle]
      rw [hstop]
      exact .nil i

theorem addFanTwos_part (i : Nat) (hi : 2 ≤ i) :
    FanPart numVerts index (addFanTwos numVerts index i) i := by
  induction hn : numVerts - i using Nat.strongRecOn generalizing i with
  | ind n ih =>
    by_cases hle : i + 2 ≤ numVerts
    · have hlast := hb (i + 1) (by omega)
      have hnodup := nodup_restart (l := [index, index + i - 1, index + i, index + i + 1])
        (by simp; omega) (by simp; omega)
      refine FanPart.cons (Nat.le_add_right i 2) (fun p => ?_) (fun p => ?_) (.of_fanTwo hnodup)
        (ih _ (by omega) (i + 2) (by omega) rfl)
      · rw [addFanTwos, if_pos hle]
        rfl
      · rw [addFanOnes_step (by omega), addFanOnes_step (by omega)]
        rfl
    · have hstop : addFanTwos numVerts index i = fun p => (i, p) :=
        funext fun p => by rw [addFanTwos, if_neg hle]
      rw [hstop]
      exact .nil i

theorem addFanOnes_same (i : Nat) (hi : 2 ≤ i) :
    WritesSame Kept (addFanOnes true numVerts index i) (addFanOnes false numVerts index i) := by
  induction hn : numVerts - i using Nat.strongRecOn generalizing i with
  | ind n ih =>
    have hunfold : ∀ pr, addFanOnes pr numVerts index i = fun p =>
        if i < numVerts then addFanOnes pr numVerts index (i + 1)
          (p.writeTriangle pr index (index + i - 1) (index + i)) else p :=
      fun pr => funext fun p => by rw [addFanOnes]
    rw [hunfold, hunfold]
    by_cases hlt : i < numVerts
    · have hlast := hb i hlt
      simp only [if_pos hlt]
      exact (writeTriangle_same (by omega) (by omega) hlast (by omega) (by omega) (by omega)).trans
        (ih _ (by omega) (i + 1) (by omega) rfl)
    · simp only [if_neg hlt]
      exact .id

theorem addFan_same : WritesSame Kept (addFan true numVerts index) (addFan false numVerts index) := by
  obtain ⟨i, r, l, hi, hr, hl, hsame⟩ := addFanThrees_part hb 2 (Nat.le_refl 2)
  obtain ⟨i', r', l', hi', hr', hl', hsame'⟩ := addFanTwos_part hb i hi
  obtain ⟨r'', l'', hr'', hl'', hsame''⟩ := addFanOnes_same hb i' (Nat.le_trans hi hi')
  refine ⟨r ++ r' ++ r'', l ++ l' ++ l'', fun p => ?_, fun p => ?_,
    (hsame.append hsame').append hsame''⟩
  · simp only [addFan, if_true, hr, hr', hr'', writeAll_append]
  · simp only [addFan, Bool.false_eq_true, if_false, hl, hl', hl'', writeAll_append]

theorem addQuadsFrom_part (i : Nat) (hi : 3 ≤ i) :
    ∃ stop r l, 3 ≤ stop ∧ (∀ p, addQuadsFrom true numVerts index i p = (stop, p.writeAll r)) ∧
      (∀ p, addQuadsFrom false numVerts index i p = (stop, p.writeAll l)) ∧
      SameTriangles Kept primitiveRestart r l := by
  induction hn : numVerts - i using Nat.strongRecOn generalizing i with
  | ind n ih =>
    by_cases hlt : i < numVerts
    · obtain ⟨stop, r, l, hstop, hr, hl, hsame⟩ := ih _ (by omega) (i + 4) (by omega) rfl
      have hlast := hb i hlt
      have hnodup := nodup_restart
        (l := [index + i - 3, index + i - 2, index + i - 1, index + i - 0])
        (by simp; omega) (by simp; omega)
      refine ⟨stop, _, _, hstop, fun p => ?_, fun p => ?_,
        (SameTriangles.of_fanTwo hnodup).append hsame⟩
      · rw [addQuadsFrom, if_pos hlt, hr, writeAll_append]
        rfl
      · rw [addQuadsFrom, if_pos hlt, hl, writeAll_append]
        rfl
    · refine ⟨i, [], [], hi, fun p => ?_, fun p => ?_, .nil⟩ <;>
        rw [addQuadsFrom, if_neg hlt] <;> rfl

theorem addQuads_same :
    WritesSame Kept (addQuads true numVerts index) (addQuads false numVerts index) := by
  obtain ⟨stop, r, l, hstop, hr, hl, hsame⟩ := addQuadsFrom_part hb 3 (Nat.le_refl 3)
  by_cases hthree : stop = numVerts
  · have hlast := hb (numVerts - 1) (by omega)
    obtain ⟨r', l', hr', hl', hsame'⟩ := writeTriangle_same (a := index + numVerts - 3)
      (b := index + numVerts - 2) (c := index + numVerts - 1) (by omega) (by omega) (by omega)
      (by omega) (by omega) (by omega)
    refine ⟨r ++ r', l ++ l', fun p => ?_, fun p => ?_, hsame.append hsame'⟩
    · simp only [addQuads, hr, if_pos hthree, hr', writeAll_append]
    · simp only [addQuads, hl, if_pos hthree, hl', writeAll_append]
  · refine ⟨r, l, fun p => ?_, fun p => ?_, hsame⟩
    · simp only [addQuads, hr, if_neg hthree]
    · simp only [addQuads, hl, if_neg hthree]

end Loops

/-! ### Rectangles for lines and points -/

section Expand
variable {numVerts index : Nat}

theorem addExpanded_same {v w : Nat} (hv : 4 * v + 3 < 0xFFFF) (hw : 4 * w + 3 < 0xFFFF) :
    WritesSame KeptCorners (addExpanded true (v <<< 2) (w <<< 2))
      (addExpanded false (v <<< 2) (w <<< 2)) := by
  have hshift : ∀ n : Nat, n <<< 2 = 4 * n := fun n => by rw [Nat.shiftLeft_eq]; omega
  rw [hshift, hshift]
  exact ⟨_, _, fun _ => rfl, fun _ => rfl, .of_rectangle
    (nodup_restart (l := [4 * v + 0, 4 * v + 1, 4 * w + 2, 4 * w + 3])
      (by simp; omega) (by simp; omega))⟩

variable (hb : ∀ i < numVerts, 4 * (index + i) + 3 < 0xFFFF)
include hb

theorem addLinesVSExpandFrom_same (linestrip : Bool) (i : Nat) (hi : 1 ≤ i) :
    WritesSame KeptCorners (addLinesVSExpandFrom true numVerts index linestrip i)
      (addLinesVSExpandFrom false numVerts index linestrip i) := by
  induction hn : numVerts - i using Nat.strongRecOn generalizing i with
  | ind n ih =>
    have hunfold : ∀ pr, addLinesVSExpandFrom pr numVerts index linestrip i = fun p =>
        if i < numVerts then
          addLinesVSExpandFrom pr numVerts index linestrip (i + if linestrip then 1 else 2)
            (addExpanded pr ((index + i - 1) <<< 2) ((index + i - 0) <<< 2) p)
        else p :=
      fun pr => funext fun p => by rw [addLinesVSExpandFrom]
    rw [hunfold, hunfold]
    by_cases hlt : i < numVerts
    · have hlast := hb i hlt
      have hadvance : 1 ≤ if linestrip then 1 else 2 := by split <;> omega
      simp only [if_pos hlt]
      exact (addExpanded_same (by omega) (by omega)).trans (ih _ (by omega) _ (by omega) rfl)
    · simp only [if_neg hlt]
      exact .id

theorem addPointsVSExpandFrom_same (i : Nat) :
    WritesSame KeptCorners (addPointsVSExpandFrom true numVerts index i)
      (addPointsVSExpandFrom false numVerts index i) := by
  induction hn : numVerts - i using Nat.strongRecOn generalizing i with
  | ind n ih =>
    have hunfold : ∀ pr, addPointsVSExpandFrom pr numVerts index i = fun p =>
        if i < numVerts then
          addPointsVSExpandFrom pr numVerts index (i + 1)
            (addExpanded pr ((index + i) <<< 2) ((index + i) <<< 2) p)
        else p :=
      fun pr => funext fun p => by rw [addPointsVSExpandFrom]
    rw [hunfold, hunfold]
    by_cases hlt : i < numVerts
    · have hlast := hb i hlt
      simp only [if_pos hlt]
      exact (addExpanded_same (by omega) (by omega)).trans (ih _ (by omega) _ rfl)
    · simp only [if_neg hlt]
      exact .id

end Expand

/-- What writes indices of lines or points as they are does so in the same way at every place. -/
def WritesList (f : IndexPtr → IndexPtr) : Prop := ∃ l, ∀ p, f p = p.writeAll l

theorem addLineListFrom_list (numVerts index i : Nat) :
    WritesList (addLineListFrom numVerts index i) := by
  induction hn : numVerts - i using Nat.strongRecOn generalizing i with
  | ind n ih =>
    by_cases hlt : i < numVerts
    · obtain ⟨l, hl⟩ := ih _ (by omega) (i + 2) rfl
      exact ⟨_ :: _ :: l, fun p => by rw [addLineListFrom, if_pos hlt, hl]; rfl⟩
    · exact ⟨[], fun p => by rw [addLineListFrom, if_neg hlt]; rfl⟩

theorem addLineStripFrom_list (numVerts index i : Nat) :
    WritesList (addLineStripFrom numVerts index i) := by
  induction hn : numVerts - i using Nat.strongRecOn generalizing i with
  | ind n ih =>
    by_cases hlt : i < numVerts
    · obtain ⟨l, hl⟩ := ih _ (by omega) (i + 1) rfl
      exact ⟨_ :: _ :: l, fun p => by rw [addLineStripFrom, if_pos hlt, hl]; rfl⟩
    · exact ⟨[], fun p => by rw [addLineStripFrom, if_neg hlt]; rfl⟩

theorem addPointsFrom_list (numVerts index i : Nat) :
    WritesList (addPointsFrom numVerts index i) := by
  induction hn : numVerts - i using Nat.strongRecOn generalizing i with
  | ind n ih =>
    by_cases hlt : i < numVerts
    · obtain ⟨l, hl⟩ := ih _ (by omega) (i + 1) rfl
      exact ⟨_ :: l, fun p => by rw [addPointsFrom, if_pos hlt, hl]; rfl⟩
    · exact ⟨[], fun p => by rw [addPointsFrom, if_neg hlt]; rfl⟩

end IndexPtr

/-! ### Adding the indices of a draw -/

namespace IndexGenerator
open IndexPtr

def isTriangles : Primitive → Bool
  | .quads | .quads2 | .triangles | .triangleStrip | .triangleFan => true
  | .lines | .lineStrip | .points => false

def lastIndexOf (vsExpand : Bool) (primitive : Primitive) (vertex : Nat) : Nat :=
  if vsExpand && !isTriangles primitive then 4 * vertex + 3 else vertex

/-- The indices `r` written with primitive restart draw what the indices `l` draw. -/
def DrawSame (vsExpand : Bool) (primitive : Primitive) (r l : List UInt16) : Prop :=
  if isTriangles primitive then SameTriangles Kept VideoCommon.primitiveRestart r l
  else if vsExpand then SameTriangles KeptCorners VideoCommon.primitiveRestart r l
  else r = l

/-- The list is written at the pointer, which is left behind it; nothing else is written. -/
structure Added (g g' : IndexGenerator) (numVertices : Nat) (l : List UInt16) : Prop where
  pointer : g'.indexBufferCurrent = g.indexBufferCurrent + l.length
  written : ∀ k (h : k < l.length), g'.buffer (g.indexBufferCurrent + k) = l[k]
  frame : ∀ a, a < g.indexBufferCurrent ∨ g.indexBufferCurrent + l.length ≤ a →
    g'.buffer a = g.buffer a
  baseIndexPtr : g'.baseIndexPtr = g.baseIndexPtr
  baseIndex : g'.baseIndex = g.baseIndex + numVertices
  primitiveRestart : g'.primitiveRestart = g.primitiveRestart
  primitiveTable : g'.primitiveTable = g.primitiveTable

theorem added_of_writes {g : IndexGenerator} {primitive : Primitive} {numVertices : Nat}
    {l : List UInt16}
    (h : ∀ p, g.primitiveTable primitive numVertices g.baseIndex p = p.writeAll l) :
    Added g (g.addIndices primitive numVertices) numVertices l := by
  refine ⟨?_, fun k hk => ?_, fun a ha => ?_, rfl, rfl, rfl, rfl⟩
  · simp only [addIndices, h, pos_writeAll]
  · simp only [addIndices, h, buffer_writeAll]
    rw [if_pos (by omega), Nat.add_sub_cancel_left, List.getD_eq_getElem _ _ hk]
  · simp only [addIndices, h, buffer_writeAll]
    split
    · rw [List.getD_eq_default _ _ (by omega)]
    · rfl

theorem primitiveTable_same (vsExpand : Bool) (primitive : Primitive) (numVertices index : Nat)
    (h : ∀ i < numVertices, lastIndexOf vsExpand primitive (index + i) < 0xFFFF) :
    ∃ r l, (∀ p, primitiveTableOf ⟨true, vsExpand⟩ primitive numVertices index p = p.writeAll r) ∧
      (∀ p, primitiveTableOf ⟨false, vsExpand⟩ primitive numVertices index p = p.writeAll l) ∧
      DrawSame vsExpand primitive r l := by
  have hb : isTriangles primitive = true → ∀ i < numVertices, index + i < 0xFFFF := fun hp i hi => by
    simpa [lastIndexOf, hp] using h i hi
  cases primitive with
  | quads => exact addQuads_same (hb rfl)
  | quads2 => exact addQuads_same (hb rfl)
  | triangles => exact addListFrom_same (hb rfl) 2 (Nat.le_refl 2)
  | triangleStrip => exact addStrip_same (hb rfl)
  | triangleFan => exact addFan_same (hb rfl)
  | lines =>
    cases vsExpand with
    | true => exact addLinesVSExpandFrom_same h false 1 (Nat.le_refl 1)
    | false =>
      obtain ⟨l, hl⟩ := addLineListFrom_list numVertices index 1
      exact ⟨l, l, hl, hl, rfl⟩
  | lineStrip =>
    cases vsExpand with
    | true => exact addLinesVSExpandFrom_same h true 1 (Nat.le_refl 1)
    | false =>
      obtain ⟨l, hl⟩ := addLineStripFrom_list numVertices index 1
      exact ⟨l, l, hl, hl, rfl⟩
  | points =>
    cases vsExpand with
    | true => exact addPointsVSExpandFrom_same h 0
    | false =>
      obtain ⟨l, hl⟩ := addPointsFrom_list numVertices index 0
      exact ⟨l, l, hl, hl, rfl⟩

/-- With primitive restart and without it a draw adds indices of the same elements: the same
    triangles with their winding, the same lines and points, or the same rectangles for them. -/
theorem addIndices_same (g : IndexGenerator) (vsExpand : Bool) (primitive : Primitive)
    (numVertices : Nat)
    (h : ∀ i < numVertices, lastIndexOf vsExpand primitive (g.baseIndex + i) < 0xFFFF) :
    ∃ r l,
      Added (g.init ⟨true, vsExpand⟩) ((g.init ⟨true, vsExpand⟩).addIndices primitive numVertices)
        numVertices r ∧
      Added (g.init ⟨false, vsExpand⟩) ((g.init ⟨false, vsExpand⟩).addIndices primitive numVertices)
        numVertices l ∧
      DrawSame vsExpand primitive r l := by
  obtain ⟨r, l, hr, hl, hsame⟩ := primitiveTable_same vsExpand primitive numVertices g.baseIndex h
  exact ⟨r, l, added_of_writes hr, added_of_writes hl, hsame⟩

/-- A generator before `init`. -/
def unset : IndexGenerator := ⟨fun _ => 0, 0, 0, 0, false, fun _ _ _ p => p⟩

/-- A fan of seven vertices behind ten others. -/
theorem addIndices_same_fan :
    ∃ r l,
      Added ({ unset with baseIndex := 10 }.init ⟨true, false⟩)
        (({ unset with baseIndex := 10 }.init ⟨true, false⟩).addIndices .triangleFan 7) 7 r ∧
      Added ({ unset with baseIndex := 10 }.init ⟨false, false⟩)
        (({ unset with baseIndex := 10 }.init ⟨false, false⟩).addIndices .triangleFan 7) 7 l ∧
      DrawSame false .triangleFan r l :=
  addIndices_same { unset with baseIndex := 10 } false .triangleFan 7 (by decide)

/-! ### Whole batches -/

theorem indices_added {g g' : IndexGenerator} {numVertices : Nat} {l : List UInt16}
    (hle : g.baseIndexPtr ≤ g.indexBufferCurrent) (h : Added g g' numVertices l) :
    g'.indices = g.indices ++ l := by
  have hlen : g'.getIndexLen = g.getIndexLen + l.length := by
    unfold getIndexLen
    rw [h.pointer, h.baseIndexPtr]
    omega
  unfold indices
  rw [hlen, List.range_add, List.map_append, List.map_map]
  congr 1
  · refine List.map_congr_left fun i hi => ?_
    rw [h.baseIndexPtr]
    exact h.frame _ (.inl (by have := List.mem_range.mp hi; unfold getIndexLen at this; omega))
  · refine List.ext_getElem (by simp) fun k hk hk' => ?_
    simp only [List.getElem_map, List.getElem_range, Function.comp]
    rw [← h.written k hk', h.baseIndexPtr]
    congr 1
    unfold getIndexLen
    omega

theorem foldl_countIndex (l current : List UInt16) (triangles : Nat)
    (hcurrent : VideoCommon.primitiveRestart ∉ current) :
    (fun c : Nat × Nat => c.1 + (c.2 - 2)) (l.foldl countIndex (triangles, current.length)) =
      triangles + (strips VideoCommon.primitiveRestart (current ++ l)).length := by
  induction l generalizing current triangles with
  | nil => simp [strips_of_not_mem hcurrent, length_strip]
  | cons x l ih =>
    rw [List.foldl_cons]
    by_cases hx : x = VideoCommon.primitiveRestart
    · have hcount : countIndex (triangles, current.length) x =
          (triangles + (current.length - 2), ([] : List UInt16).length) := by
        simp only [countIndex, hx, ne_eq, not_true_eq_false, if_false, List.length_nil]
        congr 1
        split <;> omega
      rw [hcount, ih _ _ List.not_mem_nil, hx, strips_append_cut, strips_of_not_mem hcurrent,
        List.length_append, length_strip, List.nil_append]
      omega
    · have hcount : countIndex (triangles, current.length) x =
          (triangles, (current ++ [x]).length) := by
        simp [countIndex, hx]
      rw [hcount, ih _ _ (by simpa [hcurrent] using fun heq => hx heq.symm), List.append_assoc,
        List.singleton_append]

theorem getTriangleCount_restart {g : IndexGenerator} (h : g.primitiveRestart = true) :
    g.getTriangleCount = (strips VideoCommon.primitiveRestart g.indices).length := by
  have hcount := foldl_countIndex g.indices [] 0 List.not_mem_nil
  rw [List.nil_append, Nat.zero_add] at hcount
  rw [← hcount]
  simp only [getTriangleCount, h, Bool.not_true, Bool.false_eq_true, if_false, List.length_nil]
  split <;> omega

theorem getTriangleCount_list {g : IndexGenerator} (h : g.primitiveRestart = false) :
    g.getTriangleCount = (triangleList g.indices).length := by
  rw [length_triangleList]
  simp [getTriangleCount, h, indices]

/-- Two generators in a batch of triangles, with primitive restart and without. -/
structure Beside (vsExpand : Bool) (r l : IndexGenerator) : Prop where
  restart : r.primitiveRestart = true ∧ r.primitiveTable = primitiveTableOf ⟨true, vsExpand⟩
  list : l.primitiveRestart = false ∧ l.primitiveTable = primitiveTableOf ⟨false, vsExpand⟩
  pointers : r.baseIndexPtr ≤ r.indexBufferCurrent ∧ l.baseIndexPtr ≤ l.indexBufferCurrent
  baseIndex : r.baseIndex = l.baseIndex
  same : SameTriangles Kept VideoCommon.primitiveRestart r.indices l.indices

theorem Beside.addIndices {vsExpand : Bool} {r l : IndexGenerator} (h : Beside vsExpand r l)
    {primitive : Primitive} (hkind : isTriangles primitive = true) {numVertices : Nat}
    (hroom : r.baseIndex + numVertices ≤ 0xFFFF) :
    Beside vsExpand (r.addIndices primitive numVertices) (l.addIndices primitive numVertices) := by
  obtain ⟨new, new', hnew, hnew', hsame⟩ := primitiveTable_same vsExpand primitive numVertices
    r.baseIndex fun i hi => by
      simp only [lastIndexOf, hkind, Bool.not_true, Bool.and_false, Bool.false_eq_true, if_false]
      omega
  have hr : Added r (r.addIndices primitive numVertices) numVertices new :=
    added_of_writes (by rw [h.restart.2]; exact hnew)
  have hl : Added l (l.addIndices primitive numVertices) numVertices new' :=
    added_of_writes (by rw [h.list.2, ← h.baseIndex]; exact hnew')
  rw [DrawSame, if_pos hkind] at hsame
  refine ⟨h.restart, h.list, ⟨?_, ?_⟩, ?_, ?_⟩
  · have hle := h.pointers.1
    rw [hr.baseIndexPtr, hr.pointer]
    omega
  · have hle := h.pointers.2
    rw [hl.baseIndexPtr, hl.pointer]
    omega
  · rw [hr.baseIndex, hl.baseIndex, h.baseIndex]
  · rw [indices_added h.pointers.1 hr, indices_added h.pointers.2 hl]
    exact h.same.append hsame

def addDraws (g : IndexGenerator) (draws : List (Primitive × Nat)) : IndexGenerator :=
  draws.foldl (fun g draw => g.addIndices draw.1 draw.2) g

theorem Beside.addDraws {vsExpand : Bool} {r l : IndexGenerator} (h : Beside vsExpand r l)
    {draws : List (Primitive × Nat)} (hkind : ∀ draw ∈ draws, isTriangles draw.1 = true)
    (hroom : r.baseIndex + (draws.map Prod.snd).sum ≤ 0xFFFF) :
    Beside vsExpand (r.addDraws draws) (l.addDraws draws) := by
  induction draws generalizing r l with
  | nil => exact h
  | cons draw draws ih =>
    rw [List.map_cons, List.sum_cons] at hroom
    have hstep : Beside vsExpand (r.addIndices draw.1 draw.2) (l.addIndices draw.1 draw.2) :=
      h.addIndices (hkind draw List.mem_cons_self) (by omega)
    refine ih hstep (fun d hd => hkind d (List.mem_cons_of_mem _ hd)) ?_
    simp only [IndexGenerator.addIndices]
    omega

/-- A batch of triangles, whatever their kinds, draws the same and counts the same. -/
theorem addDraws_same (g : IndexGenerator) (vsExpand : Bool) (indexPtr : Nat)
    {draws : List (Primitive × Nat)} (hkind : ∀ draw ∈ draws, isTriangles draw.1 = true)
    (hroom : (draws.map Prod.snd).sum ≤ 0xFFFF) :
    let r := ((g.init ⟨true, vsExpand⟩).start indexPtr).addDraws draws
    let l := ((g.init ⟨false, vsExpand⟩).start indexPtr).addDraws draws
    SameTriangles Kept VideoCommon.primitiveRestart r.indices l.indices ∧
      r.getTriangleCount = l.getTriangleCount := by
  have hstart : Beside vsExpand ((g.init ⟨true, vsExpand⟩).start indexPtr)
      ((g.init ⟨false, vsExpand⟩).start indexPtr) := by
    refine ⟨⟨rfl, rfl⟩, ⟨rfl, rfl⟩, ⟨Nat.le_refl _, Nat.le_refl _⟩, rfl, ?_⟩
    simpa [indices, getIndexLen, start] using SameTriangles.nil
  have hend := hstart.addDraws hkind (by simpa [start] using hroom)
  refine ⟨hend.same, ?_⟩
  rw [getTriangleCount_restart hend.restart.1, getTriangleCount_list hend.list.1]
  exact hend.same.same.length_eq

theorem addDraws_same_fan :
    (((unset.init ⟨true, false⟩).start 0).addDraws
      [(.triangleFan, 4), (.triangles, 3)]).getTriangleCount =
    (((unset.init ⟨false, false⟩).start 0).addDraws
      [(.triangleFan, 4), (.triangles, 3)]).getTriangleCount :=
  (addDraws_same unset false 0 (by decide) (by decide)).2

end IndexGenerator

end DolphinXR.VideoCommon
