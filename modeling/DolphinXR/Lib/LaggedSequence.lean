import Mathlib.Data.List.Range
import Mathlib.Algebra.Group.Nat.Defs

/- Lagged sequences: each element is an operation of the one `k` before it and of one in between,
   and the operation can be undone, so that any `k` elements in a row determine the others in both
   directions. A ring buffer of `k` cells holds such a window; one turn of the generator replaces a
   cell and moves the window on, and the same turn moves it back. -/
namespace DolphinXR.Lib

section
variable {α : Type} (op : α → α → α) (k l : Nat)

def Lagged (w : Nat → α) : Prop := ∀ n, w (n + k) = op (w n) (w (n + l))

/-- The sequence that starts with a window. -/
def extend (b : Nat → α) (n : Nat) : α :=
  if _hn : n < k ∨ k ≤ l then b n
  else op (extend b (n - k)) (extend b (n - k + l))
termination_by n

/-- A turn of the generator: a cell becomes the element `k` after its own. -/
def turn (b : Nat → α) (i : Nat) : Nat → α :=
  Function.update b i (op (b i) (b ((i + l) % k)))

/-- The cells of the buffer are the elements from `t` on, each in the cell of its index. -/
def Window (b : Nat → α) (w : Nat → α) (t : Nat) : Prop := ∀ i, i < k → b ((t + i) % k) = w (t + i)

variable {op k l} {w v b : Nat → α} {t n : Nat}

theorem extend_of_lt (h : n < k) : extend op k l b n = b n := by
  rw [extend, dif_pos (.inl h)]

theorem lagged_extend (hlk : l < k) : Lagged op k l (extend op k l b) := by
  intro n
  rw [extend, dif_neg (by omega), Nat.add_sub_cancel]

theorem forall_of_window {P : Nat → Prop} (hlk : l < k) (hl : 0 < l)
    (hnext : ∀ n, P n → P (n + l) → P (n + k)) (hprev : ∀ n, P (n + k) → P (n + l) → P n)
    (h : ∀ i, i < k → P (t + i)) (n : Nat) : P n := by
  have hafter : ∀ m, P (t + m) := by
    intro m
    induction m using Nat.strong_induction_on with
    | _ m ih =>
      by_cases hm : m < k
      · exact h m hm
      · have hk : t + m = t + (m - k) + k := by omega
        have hl' : t + (m - k) + l = t + (m - k + l) := by omega
        rw [hk]
        apply hnext
        · exact ih (m - k) (by omega)
        · rw [hl']
          exact ih (m - k + l) (by omega)
  have hbefore : ∀ m, m ≤ t → P (t - m) := by
    intro m
    induction m using Nat.strong_induction_on with
    | _ m ih =>
      intro hm
      have hdown : ∀ j, 0 < j → P (t - m + j) := by
        intro j hj
        by_cases hjm : j ≤ m
        · have hback := ih (m - j) (by omega) (by omega)
          rwa [show t - (m - j) = t - m + j by omega] at hback
        · have hon := hafter (j - m)
          rwa [show t + (j - m) = t - m + j by omega] at hon
      exact hprev _ (hdown k (by omega)) (hdown l hl)
  by_cases hn : t ≤ n
  · have hon := hafter (n - t)
    rwa [show t + (n - t) = n by omega] at hon
  · have hback := hbefore (t - n) (by omega)
    rwa [show t - (t - n) = n by omega] at hback

theorem Lagged.eq_of_window (hop : ∀ x y, op (op x y) y = x) (hlk : l < k) (hl : 0 < l)
    (hw : Lagged op k l w) (hv : Lagged op k l v) (h : ∀ i, i < k → w (t + i) = v (t + i))
    (n : Nat) : w n = v n := by
  apply forall_of_window (P := fun n => w n = v n) hlk hl _ _ h
  · intro n h0 h1
    rw [hw, hv, h0, h1]
  · intro n h0 h1
    calc w n = op (w (n + k)) (w (n + l)) := by rw [hw, hop]
      _ = op (v (n + k)) (v (n + l)) := by rw [h0, h1]
      _ = v n := by rw [hv, hop]

theorem Lagged.shift (hw : Lagged op k l w) (m : Nat) : Lagged op k l fun n => w (n + m) := by
  intro n
  have h := hw (n + m)
  rwa [Nat.add_right_comm n m k, Nat.add_right_comm n m l] at h

/-! ### The ring buffer -/

theorem Window.cell (h : Window k b w t) {i : Nat} (hle : t ≤ i) (hlt : i < t + k) :
    b (i % k) = w i := by
  have hi := h (i - t) (by omega)
  rwa [Nat.add_sub_cancel' hle] at hi

theorem mod_ne_of_lt {i j : Nat} (hij : i < j) (hk : j < i + k) : j % k ≠ i % k := by
  intro h
  have hmod : (j - i) % k = 0 := Nat.sub_mod_eq_zero_of_mod_eq h
  rw [Nat.mod_eq_of_lt (by omega)] at hmod
  omega

theorem turn_turn (hop : ∀ x y, op (op x y) y = x) (hlk : l < k) (hl : 0 < l) (b : Nat → α)
    {i : Nat} (hi : i < k) : turn op k l (turn op k l b i) i = b := by
  have hne : (i + l) % k ≠ i := by
    have h := mod_ne_of_lt (i := i) (j := i + l) (k := k) (by omega) (by omega)
    rwa [Nat.mod_eq_of_lt hi] at h
  unfold turn
  rw [Function.update_self, Function.update_of_ne hne, hop, Function.update_idem,
    Function.update_eq_self]

theorem Window.turn (hlk : l < k) (hw : Lagged op k l w) (h : Window k b w t) :
    Window k (turn op k l b (t % k)) w (t + 1) := by
  intro i hi
  unfold Lib.turn
  by_cases hlast : i + 1 = k
  · have hend : t + 1 + i = t + k := by omega
    have hlag : (t % k + l) % k = (t + l) % k := Nat.mod_add_mod t k l
    rw [hend, Nat.add_mod_right, Function.update_self, hlag, h.cell (by omega) (by omega),
      h.cell (by omega) (by omega), hw]
  · have hne : (t + 1 + i) % k ≠ t % k := mod_ne_of_lt (by omega) (by omega)
    rw [Function.update_of_ne hne, h.cell (by omega) (by omega)]

def turns (op : α → α → α) (k l e : Nat) (b : Nat → α) : Nat → α :=
  (List.range e).foldl (turn op k l) b

def turnsBack (op : α → α → α) (k l e : Nat) (b : Nat → α) : Nat → α :=
  (List.range e).reverse.foldl (turn op k l) b

theorem turns_succ (e : Nat) (b : Nat → α) :
    turns op k l (e + 1) b = turn op k l (turns op k l e b) e := by
  rw [turns, List.range_succ, List.foldl_append]
  rfl

theorem turnsBack_succ (e : Nat) (b : Nat → α) :
    turnsBack op k l (e + 1) b = turnsBack op k l e (turn op k l b e) := by
  rw [turnsBack, List.range_succ, List.reverse_append]
  rfl

theorem turns_turnsBack (hop : ∀ x y, op (op x y) y = x) (hlk : l < k) (hl : 0 < l) {e : Nat}
    (he : e ≤ k) (b : Nat → α) : turns op k l e (turnsBack op k l e b) = b := by
  induction e generalizing b with
  | zero => rfl
  | succ e ih => rw [turns_succ, turnsBack_succ, ih (by omega), turn_turn hop hlk hl b (by omega)]

theorem Window.turns (hlk : l < k) (hw : Lagged op k l w) {e : Nat} (he : e ≤ k) {block : Nat}
    (h : Window k b w (k * block)) : Window k (turns op k l e b) w (k * block + e) := by
  induction e with
  | zero => exact h
  | succ e ih =>
    have hturn := (ih (by omega)).turn hlk hw
    rw [Nat.mul_add_mod, Nat.mod_eq_of_lt (show e < k by omega)] at hturn
    rw [turns_succ]
    exact hturn

theorem Window.iterate (hlk : l < k) (hw : Lagged op k l w) {block : Nat}
    (h : Window k b w (k * block)) (m : Nat) :
    Window k ((Lib.turns op k l k)^[m] b) w (k * (block + m)) := by
  induction m with
  | zero => exact h
  | succ m ih =>
    rw [Function.iterate_succ_apply', ← Nat.add_assoc, Nat.mul_succ]
    exact ih.turns hlk hw le_rfl

/-! ### Sequences that repeat -/

def difference (op : α → α → α) (w : Nat → α) (n : Nat) : α := op (w (n + 1)) (w n)

theorem lagged_difference [Std.Associative op] [Std.Commutative op] (hw : Lagged op k l w) :
    Lagged op k l (difference op w) := by
  intro n
  have hnext : w (n + k + 1) = op (w (n + 1)) (w (n + l + 1)) := by
    rw [Nat.add_right_comm, hw, Nat.add_right_comm]
  unfold difference
  rw [hnext, hw]
  ac_rfl

theorem iterate_difference (hchain : ∀ x y z, op (op x y) (op y z) = op x z) (j : Nat) (w : Nat → α)
    (n : Nat) : (difference op)^[2 ^ j] w n = op (w (n + 2 ^ j)) (w n) := by
  induction j generalizing w n with
  | zero => rfl
  | succ j ih =>
    rw [Nat.pow_succ, Nat.mul_two, Function.iterate_add_apply, ih, ih, ih, hchain, Nat.add_assoc]

theorem Lagged.eq_zero [Std.Associative op] [Std.Commutative op] {zero : α}
    (hself : ∀ x, op x x = zero) (hop : ∀ x y, op (op x y) y = x) (hzero : ∀ x, op zero x = x)
    (hw : Lagged op k l w) {j : Nat} (h : ∀ n, w (n + 2 ^ j) = w n) (n : Nat) : w n = zero := by
  have hchain : ∀ x y z, op (op x y) (op y z) = op x z := fun x y z => by
    have hassoc : op (op (op x y) y) z = op (op x y) (op y z) := Std.Associative.assoc _ _ _
    rw [← hassoc, hop]
  have hconstant : ∀ v, Lagged op k l v → (∀ n, difference op v n = zero) → ∀ n, v n = zero := by
    intro v hv hstep n
    have hsame : ∀ m, v (n + m) = v n := by
      intro m
      induction m with
      | zero => rfl
      | succ m ih =>
        calc v (n + (m + 1)) = op (op (v (n + m + 1)) (v (n + m))) (v (n + m)) := (hop _ _).symm
          _ = op zero (v (n + m)) := congrArg (fun x => op x _) (hstep (n + m))
          _ = v n := by rw [hzero, ih]
    have hlag := hv n
    rwa [hsame, hsame, hself] at hlag
  have hsteps : ∀ m v, Lagged op k l v → (∀ n, (difference op)^[m] v n = zero) → ∀ n, v n = zero := by
    intro m
    induction m with
    | zero => exact fun v _ h => h
    | succ m ih => exact fun v hv h => hconstant v hv (ih _ (lagged_difference hv) h)
  refine hsteps (2 ^ j) w hw (fun n => ?_) n
  rw [iterate_difference hchain, h, hself]

theorem window_extend : Window k b (extend op k l b) 0 := by
  intro i hi
  rw [Nat.zero_add, Nat.mod_eq_of_lt hi, extend_of_lt hi]

end
end DolphinXR.Lib
