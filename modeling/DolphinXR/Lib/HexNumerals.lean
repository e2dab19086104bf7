import Mathlib.Data.List.Basic
import Mathlib.Algebra.Group.Nat.Defs

/- Hexadecimal numerals: the digits of either case and their values, a numeral's value, and the
   numeral of a number in upper case. Reading a numeral that was written gives the number back,
   also with zeros in front. -/
namespace DolphinXR.Lib.HexNumerals

def isDigit (c : Char) : Bool :=
  decide ('0' ≤ c ∧ c ≤ '9') || decide ('a' ≤ c ∧ c ≤ 'f') || decide ('A' ≤ c ∧ c ≤ 'F')

def digitValue (c : Char) : Nat :=
  if c ≤ '9' then c.toNat - 48 else if c ≤ 'F' then c.toNat - 55 else c.toNat - 87

def valueFrom (value : Nat) (t : List Char) : Nat :=
  t.foldl (fun value c => value * 16 + digitValue c) value

def upperHex (n : Nat) : List Char := (Nat.toDigits 16 n).map Char.toUpper

def upperHex8 (n : Nat) : List Char := (upperHex n).leftpad 8 '0'

theorem upper_digit {d : Nat} (h : d < 16) :
    isDigit d.digitChar.toUpper = true ∧ digitValue d.digitChar.toUpper = d := by
  have hall : ∀ d : Fin 16, isDigit (d.val.digitChar.toUpper) = true ∧
      digitValue d.val.digitChar.toUpper = d := by decide
  exact hall ⟨d, h⟩

theorem valueFrom_append (value : Nat) (s t : List Char) :
    valueFrom value (s ++ t) = valueFrom (valueFrom value s) t := List.foldl_append

theorem digits_upperHex (n : Nat) : ∀ c ∈ upperHex n, isDigit c = true := by
  induction n using Nat.strongRecOn with
  | ind n ih =>
    rw [upperHex, Nat.toDigits_eq_if (by decide)]
    split
    · rename_i hlt
      intro c hc
      rw [List.mem_singleton.1 hc]
      exact (upper_digit hlt).1
    · rename_i hge
      rw [List.map_append]
      intro c hc
      rcases List.mem_append.1 hc with hc | hc
      · exact ih (n / 16) (by omega) c hc
      · rw [List.mem_singleton.1 hc]
        exact (upper_digit (Nat.mod_lt n (by decide))).1

theorem value_upperHex (n : Nat) : valueFrom 0 (upperHex n) = n := by
  induction n using Nat.strongRecOn with
  | ind n ih =>
    rw [upperHex, Nat.toDigits_eq_if (by decide)]
    split
    · rename_i hlt
      exact (Nat.zero_add _).trans (upper_digit hlt).2
    · rename_i hge
      have hdigit := (upper_digit (Nat.mod_lt n (by decide : 0 < 16))).2
      rw [List.map_append, valueFrom_append, ← upperHex, ih (n / 16) (by omega)]
      calc n / 16 * 16 + digitValue (n % 16).digitChar.toUpper = n / 16 * 16 + n % 16 := by
            rw [hdigit]
        _ = n := Nat.div_add_mod' n 16

theorem upperHex_ne_nil (n : Nat) : upperHex n ≠ [] := by
  rw [upperHex, ne_eq, List.map_eq_nil_iff]
  exact Nat.toDigits_ne_nil

theorem length_upperHex_le {n k : Nat} (hk : 0 < k) (h : n < 16 ^ k) : (upperHex n).length ≤ k := by
  rw [upperHex, List.length_map]
  exact (Nat.length_toDigits_le_iff (by decide) hk).2 h

theorem valueFrom_zeros (k : Nat) : valueFrom 0 (List.replicate k '0') = 0 := by
  induction k with
  | zero => rfl
  | succ k ih => exact ih

theorem value_upperHex8 (n : Nat) : valueFrom 0 (upperHex8 n) = n := by
  rw [upperHex8, List.leftpad, valueFrom_append, valueFrom_zeros, value_upperHex]

theorem digits_upperHex8 (n : Nat) : ∀ c ∈ upperHex8 n, isDigit c = true := by
  intro c hc
  rcases List.mem_append.1 hc with hc | hc
  · rw [(List.mem_replicate.1 hc).2]
    decide
  · exact digits_upperHex n c hc

theorem length_upperHex8 {n : Nat} (h : n < 2 ^ 32) : (upperHex8 n).length = 8 := by
  have hle : (upperHex n).length ≤ 8 := length_upperHex_le (by decide) h
  rw [upperHex8, List.leftpad, List.length_append, List.length_replicate]
  omega

end DolphinXR.Lib.HexNumerals
