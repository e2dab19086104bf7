import Mathlib.Data.List.Sort

/- A map with ordered keys, as `std::map` is used where ranges are kept under
   their ends: `emplace` adds an entry unless the key is there, and `upperBound`
   finds the first entry behind a key. The entries are a list sorted by key, and
   the order is part of the type. -/
namespace DolphinXR.Lib
variable {κ α : Type} [LinearOrder κ]

@[ext]
structure OrderedMap (κ α : Type) [LinearOrder κ] where
  entries : List (κ × α)
  sorted : entries.Pairwise fun x y => x.1 < y.1

/-- Insertion at its place in a list sorted by key, unless the key is there. -/
def insertNew (key : κ) (value : α) : List (κ × α) → List (κ × α)
  | [] => [(key, value)]
  | x :: l =>
    if key < x.1 then (key, value) :: x :: l
    else if x.1 < key then x :: insertNew key value l
    else x :: l

theorem mem_insertNew {key : κ} {value : α} {y : κ × α} : ∀ {l : List (κ × α)},
    y ∈ insertNew key value l → y = (key, value) ∨ y ∈ l
  | [], h => .inl (List.mem_singleton.1 h)
  | x :: l, h => by
    unfold insertNew at h
    split at h
    · exact List.mem_cons.1 h
    · split at h
      · rcases List.mem_cons.1 h with rfl | h
        · exact .inr (List.mem_cons_self ..)
        · exact (mem_insertNew h).imp_right (List.mem_cons_of_mem _)
      · exact .inr h

theorem sorted_insertNew {key : κ} {value : α} : ∀ {l : List (κ × α)},
    (l.Pairwise fun x y => x.1 < y.1) → (insertNew key value l).Pairwise fun x y => x.1 < y.1
  | [], _ => List.pairwise_singleton ..
  | x :: l, h => by
    obtain ⟨hx, hl⟩ := List.pairwise_cons.1 h
    unfold insertNew
    split
    case isTrue hlt =>
      refine List.pairwise_cons.2 ⟨fun y hy => ?_, h⟩
      rcases List.mem_cons.1 hy with rfl | hy
      · exact hlt
      · exact hlt.trans (hx y hy)
    case isFalse =>
      split
      case isTrue hlt =>
        refine List.pairwise_cons.2 ⟨fun y hy => ?_, sorted_insertNew hl⟩
        rcases mem_insertNew hy with rfl | hy
        · exact hlt
        · exact hx y hy
      case isFalse => exact h

/-- Insertion at its place in a list sorted by key; the value of a key that is there is replaced. -/
def insertOrAssign (key : κ) (value : α) : List (κ × α) → List (κ × α)
  | [] => [(key, value)]
  | x :: l =>
    if key < x.1 then (key, value) :: x :: l
    else if x.1 < key then x :: insertOrAssign key value l
    else (key, value) :: l

theorem mem_insertOrAssign {key : κ} {value : α} {y : κ × α} {l : List (κ × α)}
    (h : l.Pairwise fun x y => x.1 < y.1) :
    y ∈ insertOrAssign key value l ↔ y = (key, value) ∨ (y.1 ≠ key ∧ y ∈ l) := by
  induction l with
  | nil => simp [insertOrAssign]
  | cons x l ih =>
    obtain ⟨hx, hl⟩ := List.pairwise_cons.1 h
    unfold insertOrAssign
    split
    case isTrue hlt =>
      have hne : ∀ z ∈ x :: l, z.1 ≠ key := by
        intro z hz
        rcases List.mem_cons.1 hz with rfl | hz
        · exact hlt.ne'
        · exact (hlt.trans (hx z hz)).ne'
      rw [List.mem_cons]
      exact or_congr_right ⟨fun hy => ⟨hne y hy, hy⟩, fun hy => hy.2⟩
    case isFalse hge =>
      split
      case isTrue hlt =>
        rw [List.mem_cons, ih hl, List.mem_cons]
        constructor
        · rintro (rfl | rfl | ⟨hne, hy⟩)
          · exact .inr ⟨hlt.ne, .inl rfl⟩
          · exact .inl rfl
          · exact .inr ⟨hne, .inr hy⟩
        · rintro (rfl | ⟨hne, rfl | hy⟩)
          · exact .inr (.inl rfl)
          · exact .inl rfl
          · exact .inr (.inr ⟨hne, hy⟩)
      case isFalse hle =>
        have heq : x.1 = key := le_antisymm (not_lt.1 hge) (not_lt.1 hle)
        rw [List.mem_cons, List.mem_cons]
        constructor
        · rintro (rfl | hy)
          · exact .inl rfl
          · exact .inr ⟨(heq ▸ hx y hy).ne', .inr hy⟩
        · rintro (rfl | ⟨hne, rfl | hy⟩)
          · exact .inl rfl
          · exact absurd heq hne
          · exact .inr hy

theorem sorted_insertOrAssign {key : κ} {value : α} {l : List (κ × α)}
    (h : l.Pairwise fun x y => x.1 < y.1) :
    (insertOrAssign key value l).Pairwise fun x y => x.1 < y.1 := by
  induction l with
  | nil => exact List.pairwise_singleton ..
  | cons x l ih =>
    obtain ⟨hx, hl⟩ := List.pairwise_cons.1 h
    unfold insertOrAssign
    split
    case isTrue hlt =>
      refine List.pairwise_cons.2 ⟨fun y hy => ?_, h⟩
      rcases List.mem_cons.1 hy with rfl | hy
      · exact hlt
      · exact hlt.trans (hx y hy)
    case isFalse hge =>
      split
      case isTrue hlt =>
        refine List.pairwise_cons.2 ⟨fun y hy => ?_, ih hl⟩
        rcases (mem_insertOrAssign hl).1 hy with rfl | ⟨-, hy⟩
        · exact hlt
        · exact hx y hy
      case isFalse hle =>
        have heq : x.1 = key := le_antisymm (not_lt.1 hge) (not_lt.1 hle)
        exact List.pairwise_cons.2 ⟨fun y hy => heq ▸ hx y hy, hl⟩

namespace OrderedMap

def empty : OrderedMap κ α := ⟨[], .nil⟩

def emplace (m : OrderedMap κ α) (key : κ) (value : α) : OrderedMap κ α :=
  ⟨insertNew key value m.entries, sorted_insertNew m.sorted⟩

/-- `operator[]`, assigned to. -/
def set (m : OrderedMap κ α) (key : κ) (value : α) : OrderedMap κ α :=
  ⟨insertOrAssign key value m.entries, sorted_insertOrAssign m.sorted⟩

def get? (m : OrderedMap κ α) (key : κ) : Option α :=
  (m.entries.find? fun x => decide (x.1 = key)).map Prod.snd

/-- The value of a key that is there, replaced. -/
def assign (m : OrderedMap κ α) (key : κ) (value : α) : OrderedMap κ α where
  entries := m.entries.map fun x => if x.1 = key then (x.1, value) else x
  sorted := by
    refine List.pairwise_map.2 (m.sorted.imp fun {x y} hlt => ?_)
    split <;> split <;> exact hlt

def eraseIf (m : OrderedMap κ α) (p : κ → Bool) : OrderedMap κ α where
  entries := m.entries.filter fun x => !p x.1
  sorted := m.sorted.filter _

def upperBound (m : OrderedMap κ α) (key : κ) : Option (κ × α) :=
  m.entries.find? fun x => decide (key < x.1)

theorem mem_emplace {m : OrderedMap κ α} {key : κ} {value : α} {y : κ × α}
    (h : y ∈ (m.emplace key value).entries) : y = (key, value) ∨ y ∈ m.entries :=
  mem_insertNew h

theorem mem_set {m : OrderedMap κ α} {key : κ} {value : α} {y : κ × α} :
    y ∈ (m.set key value).entries ↔ y = (key, value) ∨ (y.1 ≠ key ∧ y ∈ m.entries) :=
  mem_insertOrAssign m.sorted

theorem eq_of_mem {l : List (κ × α)} (h : l.Pairwise fun x y => x.1 < y.1) {x y : κ × α}
    (hx : x ∈ l) (hy : y ∈ l) (hkey : x.1 = y.1) : x = y := by
  induction l with
  | nil => exact absurd hx List.not_mem_nil
  | cons z l ih =>
    obtain ⟨hz, hl⟩ := List.pairwise_cons.1 h
    rcases List.mem_cons.1 hx with rfl | hxl
    · rcases List.mem_cons.1 hy with rfl | hyl
      · rfl
      · exact absurd hkey (hz y hyl).ne
    · rcases List.mem_cons.1 hy with rfl | hyl
      · exact absurd hkey (hz x hxl).ne'
      · exact ih hl hxl hyl

theorem get?_eq_some {m : OrderedMap κ α} {key : κ} {value : α} :
    m.get? key = some value ↔ (key, value) ∈ m.entries := by
  unfold get?
  constructor
  · intro h
    obtain ⟨x, hx, rfl⟩ := Option.map_eq_some_iff.1 h
    have hkey : x.1 = key := by simpa using List.find?_some hx
    rw [← hkey]
    exact List.mem_of_find?_eq_some hx
  · intro h
    cases hfind : m.entries.find? fun x => decide (x.1 = key) with
    | none => exact absurd rfl (of_decide_eq_false (Bool.eq_false_iff.2 (List.find?_eq_none.1 hfind _ h)))
    | some x =>
      have hkey : x.1 = key := by simpa using List.find?_some hfind
      rw [eq_of_mem m.sorted (List.mem_of_find?_eq_some hfind) h hkey]
      rfl

theorem get?_set {m : OrderedMap κ α} {key key' : κ} {value : α} :
    (m.set key value).get? key' = if key' = key then some value else m.get? key' := by
  apply Option.ext
  intro v
  rw [get?_eq_some, mem_set]
  split
  case isTrue heq =>
    rw [Option.some.injEq]
    constructor
    · rintro (h | ⟨hne, -⟩)
      · exact (Prod.ext_iff.1 h).2.symm
      · exact absurd heq hne
    · rintro rfl
      exact .inl (Prod.ext heq rfl)
  case isFalse hne =>
    rw [get?_eq_some]
    constructor
    · rintro (h | ⟨-, h⟩)
      · exact absurd (Prod.ext_iff.1 h).1 hne
      · exact h
    · exact fun h => .inr ⟨hne, h⟩

theorem ext_get? {m m' : OrderedMap κ α} (h : ∀ key, m.get? key = m'.get? key) : m = m' := by
  have : Std.Antisymm fun x y : κ × α => x.1 < y.1 := ⟨fun _ _ hxy hyx => absurd hxy hyx.asymm⟩
  have : Std.Irrefl fun x y : κ × α => x.1 < y.1 := ⟨fun x => lt_irrefl x.1⟩
  apply OrderedMap.ext
  apply m.sorted.eq_of_mem_iff m'.sorted
  intro x
  rw [← get?_eq_some, ← get?_eq_some, h]

theorem mem_foldl_set {l : List (κ × α)} (hl : l.Pairwise fun x y => x.1 < y.1)
    {m : OrderedMap κ α} {y : κ × α} :
    y ∈ (l.foldl (fun m x => m.set x.1 x.2) m).entries ↔
      y ∈ l ∨ ((∀ x ∈ l, y.1 ≠ x.1) ∧ y ∈ m.entries) := by
  induction l generalizing m with
  | nil => exact ⟨fun h => .inr ⟨nofun, h⟩, fun h => h.elim nofun fun h => h.2⟩
  | cons x l ih =>
    obtain ⟨hx, hl⟩ := List.pairwise_cons.1 hl
    rw [List.foldl_cons, ih hl, mem_set, List.mem_cons, List.forall_mem_cons]
    constructor
    · rintro (h | ⟨hne, rfl | ⟨hnex, h⟩⟩)
      · exact .inl (.inr h)
      · exact .inl (.inl rfl)
      · exact .inr ⟨⟨hnex, hne⟩, h⟩
    · rintro ((rfl | h) | ⟨⟨hnex, hne⟩, h⟩)
      · exact .inr ⟨fun z hz => (hx z hz).ne, .inl rfl⟩
      · exact .inl h
      · exact .inr ⟨hne, .inr ⟨hnex, h⟩⟩

theorem foldl_set_entries (m : OrderedMap κ α) :
    m.entries.foldl (fun m x => m.set x.1 x.2) empty = m := by
  apply ext_get?
  intro key
  apply Option.ext
  intro value
  rw [get?_eq_some, get?_eq_some, mem_foldl_set m.sorted]
  exact ⟨fun h => h.elim id fun h => absurd h.2 List.not_mem_nil, .inl⟩

theorem mem_of_upperBound {m : OrderedMap κ α} {key : κ} {x : κ × α}
    (h : m.upperBound key = some x) : x ∈ m.entries :=
  List.mem_of_find?_eq_some h

theorem lt_of_upperBound {m : OrderedMap κ α} {key : κ} {x : κ × α}
    (h : m.upperBound key = some x) : key < x.1 := by
  simpa using List.find?_some h

theorem upperBound_eq {m : OrderedMap κ α} {key key' : κ} {x : κ × α}
    (h : m.upperBound key = some x) (hle : key ≤ key') (hlt : key' < x.1) :
    m.upperBound key' = some x := by
  obtain ⟨hx, before, after, hsplit, hbefore⟩ := List.find?_eq_some_iff_append.1 h
  refine List.find?_eq_some_iff_append.2 ⟨decide_eq_true hlt, before, after, hsplit, ?_⟩
  intro y hy
  have hge := hbefore y hy
  simp only [Bool.not_eq_true', decide_eq_false_iff_not, not_lt] at hge ⊢
  exact hge.trans hle

end OrderedMap
end DolphinXR.Lib
