import Mathlib.Data.List.Nodup
import Mathlib.Data.List.Count
import Mathlib.Algebra.Group.Nat.Defs

/- A map from keys to counts of a fixed width: a key is counted up, and counted down until its entry
   is erased at zero. The map represents a counting function where it has exactly the keys that are
   counted, with their counts. -/
namespace DolphinXR.Lib

structure CountMap (κ : Type) (w : Nat) where
  entries : List (κ × BitVec w)
  nodup : (entries.map Prod.fst).Nodup

namespace CountMap
variable {κ : Type} [DecidableEq κ] {w : Nat}

def empty : CountMap κ w := ⟨[], List.nodup_nil⟩

def get? (m : CountMap κ w) (k : κ) : Option (BitVec w) :=
  (m.entries.find? (·.1 = k)).map (·.2)

def level (m : CountMap κ w) (k : κ) : Nat := ((m.get? k).map (·.toNat)).getD 0

theorem get?_eq_some {m : CountMap κ w} {k : κ} {c : BitVec w} :
    m.get? k = some c ↔ (k, c) ∈ m.entries := by
  constructor
  · intro h
    obtain ⟨e, he, rfl⟩ := Option.map_eq_some_iff.1 h
    have hk : e.1 = k := by simpa using List.find?_some he
    subst hk
    exact List.mem_of_find?_eq_some he
  · intro h
    cases hfind : m.entries.find? (·.1 = k) with
    | none => exact absurd (decide_eq_true rfl) (List.find?_eq_none.1 hfind _ h)
    | some e =>
      have hk : e.1 = k := by simpa using List.find?_some hfind
      have heq : e = (k, c) :=
        List.inj_on_of_nodup_map m.nodup (List.mem_of_find?_eq_some hfind) h hk
      rw [get?, hfind, heq]
      rfl

theorem get?_eq_none {m : CountMap κ w} {k : κ} : m.get? k = none ↔ k ∉ m.entries.map Prod.fst := by
  rw [get?, Option.map_eq_none_iff, List.find?_eq_none, List.mem_map]
  constructor
  · rintro h ⟨e, he, hk⟩
    exact h e he (decide_eq_true hk)
  · intro h e he hk
    exact h ⟨e, he, of_decide_eq_true hk⟩

/-- The entries with one count replaced. -/
def assign (m : CountMap κ w) (k : κ) (c : BitVec w) : CountMap κ w where
  entries := m.entries.map fun e => if e.1 = k then (k, c) else e
  nodup := by
    have hkeys : (m.entries.map fun e => if e.1 = k then (k, c) else e).map Prod.fst =
        m.entries.map Prod.fst := by
      rw [List.map_map]
      refine List.map_congr_left fun e _ => ?_
      by_cases h : e.1 = k
      · simp [h]
      · simp [h]
    exact hkeys ▸ m.nodup

def insert (m : CountMap κ w) (k : κ) (c : BitVec w) (h : m.get? k = none) : CountMap κ w where
  entries := (k, c) :: m.entries
  nodup := List.nodup_cons.2 ⟨get?_eq_none.1 h, m.nodup⟩

def erase (m : CountMap κ w) (k : κ) : CountMap κ w where
  entries := m.entries.filter (·.1 ≠ k)
  nodup := m.nodup.sublist (List.filter_sublist.map _)

/-- `++map[k]`, where a new entry begins at zero. -/
def add (m : CountMap κ w) (k : κ) : CountMap κ w :=
  match h : m.get? k with
  | none => m.insert k 1#w h
  | some c => m.assign k (c + 1#w)

/-- The entry is counted down, and erased where that is zero. -/
def remove (m : CountMap κ w) (k : κ) : CountMap κ w :=
  match m.get? k with
  | none => m
  | some c => if c - 1#w = 0#w then m.erase k else m.assign k (c - 1#w)

theorem get?_insert {m : CountMap κ w} {k : κ} (c : BitVec w) (h : m.get? k = none) (j : κ) :
    (m.insert k c h).get? j = if j = k then some c else m.get? j := by
  unfold get? insert
  dsimp only
  rw [List.find?_cons]
  by_cases hj : k = j
  · subst hj
    simp
  · simp [hj, Ne.symm hj]

theorem get?_erase (m : CountMap κ w) (k j : κ) :
    (m.erase k).get? j = if j = k then none else m.get? j := by
  split
  case isTrue hj =>
    subst hj
    rw [get?_eq_none]
    simp [erase]
  case isFalse hj =>
    apply Option.ext
    intro c
    rw [get?_eq_some, get?_eq_some]
    simp [erase, hj]

theorem get?_assign {m : CountMap κ w} {k : κ} {b : BitVec w} (h : m.get? k = some b)
    (c : BitVec w) (j : κ) : (m.assign k c).get? j = if j = k then some c else m.get? j := by
  have hmem := get?_eq_some.1 h
  split
  case isTrue hj =>
    subst hj
    exact get?_eq_some.2 (List.mem_map.2 ⟨(j, b), hmem, if_pos rfl⟩)
  case isFalse hj =>
    apply Option.ext
    intro d
    rw [get?_eq_some, get?_eq_some, assign, List.mem_map]
    constructor
    · rintro ⟨e, he, heq⟩
      split at heq
      · cases heq
        exact absurd rfl hj
      · exact heq ▸ he
    · intro hd
      exact ⟨(j, d), hd, if_neg hj⟩

/-! ### Counting -/

def Represents (m : CountMap κ w) (count : κ → Nat) : Prop :=
  ∀ k, count k < 2 ^ w ∧ m.get? k = if count k = 0 then none else some (BitVec.ofNat w (count k))

variable {m : CountMap κ w} {count : κ → Nat}

theorem represents_empty : (empty : CountMap κ w).Represents fun _ => 0 :=
  fun _ => ⟨Nat.two_pow_pos w, rfl⟩

theorem Represents.level_eq (h : m.Represents count) (k : κ) : m.level k = count k := by
  obtain ⟨hlt, hget⟩ := h k
  rw [level, hget]
  split
  case isTrue hzero => exact hzero.symm
  case isFalse => simp [Nat.mod_eq_of_lt hlt]

theorem Represents.any_iff (h : m.Represents count) (p : κ → Bool) :
    m.entries.any (fun e => p e.1) = true ↔ ∃ k, 0 < count k ∧ p k = true := by
  rw [List.any_eq_true]
  constructor
  · rintro ⟨⟨k, c⟩, hmem, hp⟩
    refine ⟨k, Nat.pos_of_ne_zero fun hzero => ?_, hp⟩
    have hget := (h k).2
    rw [if_pos hzero, get?_eq_some.2 hmem] at hget
    cases hget
  · rintro ⟨k, hpos, hp⟩
    have hget := (h k).2
    rw [if_neg (by omega)] at hget
    exact ⟨_, get?_eq_some.1 hget, hp⟩

theorem Represents.entries_eq_nil (h : m.Represents count) (hzero : ∀ k, count k = 0) :
    m.entries = [] := by
  refine List.eq_nil_iff_forall_not_mem.2 fun e he => ?_
  have hget := (h e.1).2
  rw [if_pos (hzero e.1), get?_eq_some.2 he] at hget
  cases hget

theorem Represents.add (h : m.Represents count) {k : κ} (hroom : count k + 1 < 2 ^ w) :
    (m.add k).Represents fun j => count j + if k = j then 1 else 0 := by
  intro j
  have hget : (m.add k).get? j =
      if j = k then some (BitVec.ofNat w (count k + 1)) else m.get? j := by
    obtain ⟨hlt, hk⟩ := h k
    unfold CountMap.add
    split
    case h_1 hnone =>
      rw [hnone] at hk
      have hzero : count k = 0 := by
        by_contra hne
        rw [if_neg hne] at hk
        cases hk
      rw [get?_insert, hzero, Nat.zero_add]
    case h_2 c hsome =>
      rw [hsome] at hk
      split at hk
      · cases hk
      · rw [get?_assign hsome, Option.some.inj hk, BitVec.ofNat_add]
  rw [hget]
  by_cases hj : j = k
  · subst hj
    beta_reduce
    rw [if_pos rfl, if_pos rfl, if_neg (Nat.succ_ne_zero _)]
    exact ⟨hroom, rfl⟩
  · beta_reduce
    rw [if_neg hj, if_neg (Ne.symm hj)]
    exact h j

theorem Represents.remove (h : m.Represents count) (k : κ) :
    (m.remove k).Represents fun j => count j - if k = j then 1 else 0 := by
  intro j
  have hget : (m.remove k).get? j = if j = k then
      (if count k - 1 = 0 then none else some (BitVec.ofNat w (count k - 1))) else m.get? j := by
    obtain ⟨hlt, hk⟩ := h k
    unfold CountMap.remove
    split
    case h_1 hnone =>
      split
      case isTrue hj =>
        rw [hj, hnone]
        rw [hnone] at hk
        have hzero : count k = 0 := by
          by_contra hne
          rw [if_neg hne] at hk
          cases hk
        rw [hzero]
        rfl
      case isFalse => rfl
    case h_2 c hsome =>
      rw [hsome] at hk
      split at hk
      · cases hk
      case isFalse hne =>
        have hc : c - 1#w = BitVec.ofNat w (count k - 1) := by
          have hsplit : count k = count k - 1 + 1 := by omega
          rw [Option.some.inj hk]
          conv_lhs => rw [hsplit, BitVec.ofNat_add]
          exact BitVec.add_sub_cancel ..
        have hzero : c - 1#w = 0#w ↔ count k - 1 = 0 := by
          rw [hc, ← BitVec.toNat_inj, BitVec.toNat_ofNat, BitVec.toNat_ofNat, Nat.zero_mod,
            Nat.mod_eq_of_lt (show count k - 1 < 2 ^ w by omega)]
        by_cases hlast : count k - 1 = 0
        · rw [if_pos (hzero.2 hlast), get?_erase, if_pos hlast]
        · rw [if_neg (mt hzero.1 hlast), get?_assign hsome, if_neg hlast, hc]
  rw [hget]
  by_cases hj : j = k
  · subst hj
    have hlt := (h j).1
    beta_reduce
    rw [if_pos rfl, if_pos rfl]
    exact ⟨by omega, rfl⟩
  · beta_reduce
    rw [if_neg hj, if_neg (Ne.symm hj)]
    exact h j

theorem Represents.congr {count' : κ → Nat} (h : m.Represents count) (heq : ∀ k, count' k = count k) :
    m.Represents count' := by
  rwa [funext heq]

theorem Represents.addAll (h : m.Represents count) {ks : List κ}
    (hroom : ∀ k, count k + ks.count k < 2 ^ w) :
    (ks.foldl CountMap.add m).Represents fun j => count j + ks.count j := by
  induction ks generalizing m count with
  | nil => exact h
  | cons k ks ih =>
    have hstep : ∀ j, count j + (k :: ks).count j =
        count j + (if k = j then 1 else 0) + ks.count j := by
      intro j
      rw [List.count_cons, Nat.add_assoc, Nat.add_comm (ks.count j)]
      simp
    have hk : count k + 1 < 2 ^ w := by
      have hall := hroom k
      rw [hstep, if_pos rfl] at hall
      omega
    refine (ih (h.add hk) fun j => ?_).congr hstep
    rw [← hstep]
    exact hroom j

theorem Represents.removeAll (h : m.Represents count) (ks : List κ) :
    (ks.foldl CountMap.remove m).Represents fun j => count j - ks.count j := by
  induction ks generalizing m count with
  | nil => exact h
  | cons k ks ih =>
    refine (ih (h.remove k)).congr fun j => ?_
    rw [List.count_cons, Nat.sub_sub, Nat.add_comm (ks.count j)]
    simp

end CountMap
end DolphinXR.Lib
