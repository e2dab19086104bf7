import Mathlib.Data.List.Basic
import Mathlib.Data.List.Induction

/- Parsers of a stream that arrives in chunks. A parser looks at all that is buffered: it takes an
   item off the front, waits for more, or stops for good. `drain` takes items as long as there are
   some; `receiveAll` does so at every arrival. Where no more elements change an item that is taken,
   draining can go on behind what was drained before, and the arrivals come to what draining comes
   to where they stop. -/
namespace DolphinXR.Lib.StreamParser
variable {α σ : Type}

structure Parser (α σ : Type) where
  parse : List α → σ
  /-- How many elements an item takes. -/
  consumed : σ → Option Nat
  stops : σ → Bool
  pos_of_consumed : ∀ {l n}, consumed (parse l) = some n → 0 < n
  le_of_consumed : ∀ {l n}, consumed (parse l) = some n → n ≤ l.length
  not_stops : ∀ {s n}, consumed s = some n → stops s = false
  /-- An item that is taken stays the same. -/
  parse_append : ∀ {l n}, consumed (parse l) = some n → ∀ more, parse (l ++ more) = parse l

/-- The items so far, the last result, and what is left in the buffer. -/
structure Drained (α σ : Type) where
  items : List σ := []
  last : σ
  rest : List α := []

def Drained.after (items : List σ) (d : Drained α σ) : Drained α σ :=
  { d with items := items ++ d.items }

def Drained.outcome (d : Drained α σ) : List σ × σ := (d.items, d.last)

theorem Drained.after_after (items items' : List σ) (d : Drained α σ) :
    (d.after items').after items = d.after (items ++ items') := by
  simp only [Drained.after, List.append_assoc]

variable (P : Parser α σ)

def drain (l : List α) : Drained α σ :=
  match _h : P.consumed (P.parse l) with
  | some n => (drain (l.drop n)).after [P.parse l]
  | none => { last := P.parse l, rest := l }
termination_by l.length
decreasing_by
  have hpos := P.pos_of_consumed _h
  have hle := P.le_of_consumed _h
  rw [List.length_drop]
  omega

def Drained.receive (d : Drained α σ) (chunk : List α) : Drained α σ :=
  if P.stops d.last then d else (drain P (d.rest ++ chunk)).after d.items

def receiveAll (chunks : List (List α)) : Drained α σ :=
  chunks.foldl (Drained.receive P) { last := P.parse [] }

variable {P} {l more : List α} {n : Nat}

theorem drain_of_consumed (h : P.consumed (P.parse l) = some n) :
    drain P l = (drain P (l.drop n)).after [P.parse l] := by
  rw [drain]
  split
  · rename_i h'
    rw [Option.some.inj (h'.symm.trans h)]
  · rename_i h'
    rw [h] at h'
    cases h'

theorem drain_of_not_consumed (h : P.consumed (P.parse l) = none) :
    drain P l = { last := P.parse l, rest := l } := by
  rw [drain]
  split
  · rename_i h'
    rw [h] at h'
    cases h'
  · rfl

theorem drain_induction {motive : List α → Prop}
    (h : ∀ l n, P.consumed (P.parse l) = some n → motive (l.drop n) → motive l)
    (h' : ∀ l, P.consumed (P.parse l) = none → motive l) (l : List α) : motive l := by
  generalize hlength : l.length = k
  induction k using Nat.strongRecOn generalizing l with
  | ind k ih =>
    cases hconsumed : P.consumed (P.parse l) with
    | none => exact h' l hconsumed
    | some n =>
      have hpos := P.pos_of_consumed hconsumed
      have hle := P.le_of_consumed hconsumed
      refine h l n hconsumed (ih (l.drop n).length ?_ _ rfl)
      rw [List.length_drop]
      omega

theorem last_drain (l : List α) : (drain P l).last = P.parse (drain P l).rest := by
  induction l using drain_induction (P := P) with
  | h l n h ih =>
    rw [drain_of_consumed h]
    exact ih
  | h' l h => rw [drain_of_not_consumed h]

theorem drain_append (l more : List α) :
    drain P (l ++ more) = (drain P ((drain P l).rest ++ more)).after (drain P l).items := by
  induction l using drain_induction (P := P) with
  | h l n h ih =>
    have hparse := P.parse_append h more
    have hdrop : (l ++ more).drop n = l.drop n ++ more :=
      List.drop_append_of_le_length (P.le_of_consumed h)
    rw [drain_of_consumed (n := n) (by rw [hparse]; exact h), hdrop, ih, hparse,
      drain_of_consumed h, Drained.after_after]
    rfl
  | h' l h =>
    rw [drain_of_not_consumed h]
    rfl

theorem drain_nil : drain P [] = { last := P.parse [] } := by
  apply drain_of_not_consumed
  cases h : P.consumed (P.parse []) with
  | none => rfl
  | some n => exact absurd (P.pos_of_consumed h) (Nat.not_lt.2 (P.le_of_consumed h))

theorem receive_drain {chunk : List α} (h : P.stops (drain P l).last = false) :
    (drain P l).receive P chunk = drain P (l ++ chunk) := by
  rw [Drained.receive, h, if_neg Bool.false_ne_true, drain_append l chunk]

theorem receive_of_stops {d : Drained α σ} (h : P.stops d.last = true) (chunk : List α) :
    d.receive P chunk = d := if_pos h

/-- The arrivals come to what draining comes to, of all the chunks or of those up to the first that
    makes the parser stop. -/
theorem receiveAll_eq_drain (chunks : List (List α)) :
    ∃ before after, chunks = before ++ after ∧
      receiveAll P chunks = drain P before.flatten ∧
      (after = [] ∨ P.stops (drain P before.flatten).last = true) ∧
      ∀ first last, before = first ++ last → last ≠ [] →
        P.stops (drain P first.flatten).last = false := by
  induction chunks using List.reverseRecOn with
  | nil =>
    refine ⟨[], [], rfl, drain_nil.symm, .inl rfl, ?_⟩
    intro first last hsplit hne
    exact absurd (List.append_eq_nil_iff.1 hsplit.symm).2 hne
  | append_singleton chunks chunk ih =>
    obtain ⟨before, after, rfl, hrun, hafter, hgoesOn⟩ := ih
    have hstep : receiveAll P (before ++ after ++ [chunk]) =
        (drain P before.flatten).receive P chunk := by
      rw [← hrun, receiveAll, List.foldl_append]
      rfl
    cases hstops : P.stops (drain P before.flatten).last with
    | true =>
      refine ⟨before, after ++ [chunk], List.append_assoc .., ?_, .inr hstops, hgoesOn⟩
      rw [hstep, receive_of_stops hstops]
    | false =>
      have hnil : after = [] := by
        refine hafter.resolve_right ?_
        rw [hstops]
        exact Bool.false_ne_true
      subst hnil
      rw [List.append_nil] at hstep ⊢
      refine ⟨before ++ [chunk], [], (List.append_nil _).symm, ?_, .inl rfl, ?_⟩
      · rw [hstep, receive_drain hstops, List.flatten_append, List.flatten_singleton]
      · intro first last hsplit hne
        obtain ⟨last, chunk', rfl⟩ := (List.eq_nil_or_concat' last).resolve_left hne
        rw [← List.append_assoc] at hsplit
        obtain ⟨rfl, -⟩ := List.append_inj' hsplit rfl
        by_cases hlast : last = []
        · subst hlast
          rwa [List.append_nil] at hstops
        · exact hgoesOn first last rfl hlast

theorem receiveAll_singleton (l : List α) (h : P.stops (P.parse []) = false) :
    receiveAll P [l] = drain P l := by
  change ({ last := P.parse [] } : Drained α σ).receive P l = drain P l
  rw [← drain_nil]
  exact receive_drain (by rw [drain_nil]; exact h)

end DolphinXR.Lib.StreamParser
