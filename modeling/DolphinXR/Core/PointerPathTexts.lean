import DolphinXR.Core.PointerPath

/- What the texts of pointer paths mean. `Written` is the grammar of the bracket notation, over
   expressions whose value in a memory is read off directly: a bracket is a read, a signed numeral
   an addition. The parser accepts exactly what is written by the grammar, with the path that the
   expression comes to, and a path leads where its expression does. Both printers write by the
   grammar, or by that of `mem.chain`. -/
namespace DolphinXR.AgentServer.PointerScan
open Common Lib HexNumerals

inductive Expr where
  | value (v : Address)
  | read (e : Expr)
  | add (e : Expr) (minus : Bool) (v : Address)

/-- Brackets as reads that have to give a pointer, terms as additions modulo 2 ^ 32. -/
def Expr.eval (read : Address → Option Address) (isPointer : Address → Bool) :
    Expr → Option Address
  | .value v => some v
  | .read e => do
    let value ← read (← e.eval read isPointer)
    if isPointer value then some value else none
  | .add e minus v => do
    let value ← e.eval read isPointer
    return if minus then value - v else value + v

/-- The path that an expression comes to. -/
def Expr.path : Expr → Path
  | .value v => { base := v }
  | .read e => { e.path with offsets := e.path.offsets ++ [0] }
  | .add e minus v => e.path.add (if minus then 0 - v else v)

/-! Where paths lead. -/

section
variable (read : Address → Option Address) (isPointer : Address → Bool)

def follow (address : Address) (offsets : List Address) : Option Address :=
  (resolveFrom read isPointer address [] offsets).address

variable {read isPointer}

theorem resolveFrom_address (address : Address) (steps : List Step) (offsets : List Address) :
    (resolveFrom read isPointer address steps offsets).address =
      follow read isPointer address offsets := by
  have hany : ∀ address steps steps',
      (resolveFrom read isPointer address steps offsets).address =
        (resolveFrom read isPointer address steps' offsets).address := by
    induction offsets with
    | nil =>
      intro address steps steps'
      rfl
    | cons offset offsets ih =>
      intro address steps steps'
      simp only [resolveFrom]
      cases read address with
      | none => rfl
      | some value =>
        dsimp only
        split
        · exact ih _ _ _
        · rfl
  exact hany address steps []

theorem follow_cons (address offset : Address) (offsets : List Address) :
    follow read isPointer address (offset :: offsets) = (do
      let value ← read address
      if isPointer value then follow read isPointer (value + offset) offsets else none) := by
  rw [follow, resolveFrom]
  cases hread : read address with
  | none => rfl
  | some value =>
    change _ = if isPointer value then follow read isPointer (value + offset) offsets else none
    by_cases hpointer : isPointer value
    · simp only [hpointer, if_true]
      exact resolveFrom_address _ _ _
    · simp only [hpointer]
      rfl

theorem follow_append (address offset : Address) (offsets : List Address) :
    follow read isPointer address (offsets ++ [offset]) = (do
      let value ← read (← follow read isPointer address offsets)
      if isPointer value then some (value + offset) else none) := by
  induction offsets generalizing address with
  | nil => exact follow_cons address offset []
  | cons first offsets ih =>
    rw [List.cons_append, follow_cons, follow_cons]
    cases read address with
    | none => rfl
    | some value =>
      change (if isPointer value then follow read isPointer (value + first) (offsets ++ [offset])
        else none) = _
      by_cases hpointer : isPointer value
      · simp only [hpointer, if_true, ih, Option.bind_eq_bind, Option.bind_some]
      · simp only [hpointer, Option.bind_eq_bind, Option.bind_some]
        rfl

theorem resolve_read (path : Path) :
    (resolve { path with offsets := path.offsets ++ [0] } read isPointer).address = (do
      let value ← read (← (resolve path read isPointer).address)
      if isPointer value then some value else none) := by
  have happend := @follow_append read isPointer path.base 0 path.offsets
  have hzero : ∀ value : Address, value + 0 = value := fun value => by simp
  simp only [hzero] at happend
  exact happend

theorem resolve_add (path : Path) (v : Address) :
    (resolve (path.add v) read isPointer).address =
      (resolve path read isPointer).address.map (· + v) := by
  obtain ⟨base, offsets⟩ := path
  rcases List.eq_nil_or_concat' offsets with rfl | ⟨offsets, last, rfl⟩
  · rfl
  · have hadd : Path.add ⟨base, offsets ++ [last]⟩ v = ⟨base, offsets ++ [last + v]⟩ := by
      simp [Path.add]
    rw [hadd]
    change follow read isPointer base (offsets ++ [last + v]) =
      (follow read isPointer base (offsets ++ [last])).map (· + v)
    rw [follow_append, follow_append]
    cases follow read isPointer base offsets with
    | none => rfl
    | some address =>
      change (read address).bind _ = ((read address).bind _).map (· + v)
      cases read address with
      | none => rfl
      | some value =>
        change (if isPointer value then _ else _) = Option.map _ (if isPointer value then _ else _)
        split
        · exact congrArg some (BitVec.add_assoc value last v).symm
        · rfl

theorem resolve_path (e : Expr) :
    (resolve e.path read isPointer).address = e.eval read isPointer := by
  induction e with
  | value v => rfl
  | read e ih => rw [Expr.path, resolve_read, ih, Expr.eval]
  | add e minus v ih =>
    rw [Expr.path, resolve_add, ih, Expr.eval]
    cases e.eval read isPointer with
    | none => rfl
    | some value =>
      change some _ = some _
      cases minus with
      | false => rfl
      | true =>
        apply congrArg some
        change value + (0 - v) = value - v
        simp [BitVec.sub_eq_add_neg]

end

def Spaces (s : Text) : Prop := ∀ c ∈ s, isSpace c = true

/-- One to eight digits, perhaps behind 0x. -/
structure Digits (digits : Text) (v : Address) : Prop where
  ne_nil : digits ≠ []
  length_le : digits.length ≤ 8
  isDigit : ∀ c ∈ digits, isDigit c = true
  value : v = BitVec.ofNat 32 (valueFrom 0 digits)

def Numeral (n : Text) (v : Address) : Prop :=
  ∃ mark digits, (mark = [] ∨ mark = "0x".toList ∨ mark = "0X".toList) ∧ n = mark ++ digits ∧
    Digits digits v

def sign (minus : Bool) : Char := if minus then '-' else '+'

inductive Written : Expr → Text → Prop
  | value {n : Text} {v : Address} (h : Numeral n v) : Written (.value v) n
  | read {e : Expr} {t s s' : Text} (h : Written e t) (hs : Spaces s) (hs' : Spaces s') :
      Written (.read e) ('[' :: (s ++ t ++ s' ++ [']']))
  | add {e : Expr} {t s s' n : Text} {v : Address} (h : Written e t) (minus : Bool)
      (hs : Spaces s) (hs' : Spaces s') (hn : Numeral n v) :
      Written (.add e minus v) (t ++ s ++ sign minus :: (s' ++ n))

def WrittenAs (e : Expr) (text : Text) : Prop :=
  ∃ s t s', text = s ++ t ++ s' ∧ Spaces s ∧ Written e t ∧ Spaces s'

/-! The scanners. -/

section
variable {s n digits rest text : Text} {v : Address}

theorem skipSpaces_append (hs : Spaces s) (text : Text) :
    skipSpaces (s ++ text) = skipSpaces text := by
  rw [skipSpaces, List.dropWhile_append, List.dropWhile_eq_nil_iff.2 hs]
  rfl

theorem skipSpaces_of_head (h : ∀ c ∈ text.head?, isSpace c = false) :
    skipSpaces text = text := by
  cases text with
  | nil => rfl
  | cons c text => exact List.dropWhile_cons_of_neg (Bool.eq_false_iff.1 (h c rfl))

theorem exists_skipSpaces (text : Text) : ∃ s, Spaces s ∧ text = s ++ skipSpaces text :=
  ⟨text.takeWhile isSpace, fun _ hc => List.mem_takeWhile_imp hc,
    List.takeWhile_append_dropWhile.symm⟩

def Ends (rest : Text) : Prop := ∀ c ∈ rest.head?, isDigit c = false

theorem hexLoop_append {value k : Nat} (hdigits : ∀ c ∈ digits, isDigit c = true)
    (hle : k + digits.length ≤ 8) (hrest : Ends rest) :
    hexLoop value k (digits ++ rest) =
      some (valueFrom value digits, k + digits.length, rest) := by
  induction digits generalizing value k with
  | nil =>
    cases rest with
    | nil => rfl
    | cons c rest =>
      rw [List.nil_append, hexLoop, if_neg (Bool.eq_false_iff.1 (hrest c rfl))]
      rfl
  | cons c digits ih =>
    rw [List.length_cons] at hle
    rw [List.cons_append, hexLoop, if_pos (hdigits c List.mem_cons_self), if_neg (by omega),
      ih (fun d hd => hdigits d (List.mem_cons_of_mem c hd)) (by omega), List.length_cons,
      Nat.add_assoc, Nat.add_comm 1]
    rfl

theorem hexLoop_eq_some {value k value' k' : Nat}
    (h : hexLoop value k text = some (value', k', rest)) (hk : k ≤ 8) :
    ∃ digits, text = digits ++ rest ∧ (∀ c ∈ digits, isDigit c = true) ∧
      k' = k + digits.length ∧ k' ≤ 8 ∧ value' = valueFrom value digits ∧ Ends rest := by
  induction text generalizing value k with
  | nil =>
    cases h
    exact ⟨[], rfl, by simp, rfl, hk, rfl, by simp [Ends]⟩
  | cons c text ih =>
    rw [hexLoop] at h
    split at h
    · rename_i hc
      split at h
      · cases h
      · obtain ⟨digits, rfl, hdigits, hlength, hle, hvalue, hends⟩ := ih h (by omega)
        refine ⟨c :: digits, rfl, ?_, ?_, hle, hvalue, hends⟩
        · intro d hd
          rcases List.mem_cons.1 hd with rfl | hd
          · exact hc
          · exact hdigits d hd
        · rw [hlength, List.length_cons]
          omega
    · rename_i hc
      cases h
      refine ⟨[], rfl, by simp, rfl, hk, rfl, ?_⟩
      intro d hd
      obtain rfl := Option.some.inj hd
      exact Bool.eq_false_iff.2 hc

theorem isDigit_ne {c : Char} (h : isDigit c = true) : isSpace c = false ∧ c ≠ 'x' ∧ c ≠ 'X' := by
  simp only [isDigit, Bool.or_eq_true, decide_eq_true_eq, Char.le_def, UInt32.le_iff_toNat_le,
    Char.toNat_val] at h
  refine ⟨?_, ?_, ?_⟩
  · have hspace : c ≠ ' ' := by
      rintro rfl
      revert h
      decide
    have hrange : ¬(9 ≤ c.toNat ∧ c.toNat ≤ 13) := by
      have h0 : '0'.toNat = 48 := rfl
      have ha : 'a'.toNat = 97 := rfl
      have hA : 'A'.toNat = 65 := rfl
      omega
    simp [isSpace, hspace, hrange]
  · rintro rfl
    revert h
    decide
  · rintro rfl
    revert h
    decide

def Stops (rest : Text) : Prop :=
  ∀ c ∈ rest.head?, isSpace c = true ∨ c = '+' ∨ c = '-' ∨ c = ']'

theorem Stops.ends (h : Stops rest) : Ends rest ∧ ∀ c ∈ rest.head?, c ≠ 'x' ∧ c ≠ 'X' := by
  have hall : ∀ c ∈ rest.head?, isDigit c = false ∧ c ≠ 'x' ∧ c ≠ 'X' := by
    intro c hc
    rcases h c hc with hspace | rfl | rfl | rfl
    · refine ⟨Bool.eq_false_iff.2 fun hdigit => ?_, ?_, ?_⟩
      · exact absurd ((isDigit_ne hdigit).1.symm.trans hspace) Bool.false_ne_true
      · rintro rfl
        exact absurd hspace (by decide)
      · rintro rfl
        exact absurd hspace (by decide)
    · decide
    · decide
    · decide
  exact ⟨fun c hc => (hall c hc).1, fun c hc => (hall c hc).2⟩

theorem skipPrefix_digits (hne : digits ≠ []) (hdigits : ∀ c ∈ digits, isDigit c = true)
    (hrest : ∀ c ∈ rest.head?, c ≠ 'x' ∧ c ≠ 'X') :
    skipPrefix (digits ++ rest) = digits ++ rest := by
  have hsecond : ∀ a b, (digits ++ rest).take 2 = [a, b] → b ≠ 'x' ∧ b ≠ 'X' := by
    intro a b htake
    obtain ⟨d, digits, rfl⟩ := List.exists_cons_of_ne_nil hne
    cases digits with
    | nil =>
      cases rest with
      | nil => cases htake
      | cons c rest =>
        cases htake
        exact hrest b rfl
    | cons d' digits =>
      cases htake
      exact (isDigit_ne (hdigits b (by simp))).2
  rw [skipPrefix, if_neg]
  rintro (htake | htake)
  · exact (hsecond _ _ htake).1 rfl
  · exact (hsecond _ _ htake).2 rfl

theorem Numeral.head {n : Text} (h : Numeral n v) :
    ∃ c t, n = c :: t ∧ isDigit c = true := by
  obtain ⟨mark, digits, hmark, rfl, hdigits⟩ := h
  obtain ⟨d, digits, rfl⟩ := List.exists_cons_of_ne_nil hdigits.ne_nil
  rcases hmark with rfl | rfl | rfl
  · exact ⟨d, digits, rfl, hdigits.isDigit d List.mem_cons_self⟩
  · exact ⟨'0', 'x' :: d :: digits, rfl, by decide⟩
  · exact ⟨'0', 'X' :: d :: digits, rfl, by decide⟩

theorem hex_append (hs : Spaces s) (hn : Numeral n v) (hrest : Stops rest) :
    hex (s ++ (n ++ rest)) = some (v, rest) := by
  obtain ⟨c, t, hnt, hc⟩ := hn.head
  have hskip : skipSpaces (s ++ (n ++ rest)) = n ++ rest := by
    rw [skipSpaces_append hs, hnt]
    exact List.dropWhile_cons_of_neg (Bool.eq_false_iff.1 (isDigit_ne hc).1)
  obtain ⟨mark, digits, hmark, rfl, hdigits⟩ := hn
  have hmarked : skipPrefix (mark ++ digits ++ rest) = digits ++ rest := by
    rcases hmark with rfl | rfl | rfl
    · exact skipPrefix_digits hdigits.ne_nil hdigits.isDigit hrest.ends.2
    · rfl
    · rfl
  have hlength : 0 + digits.length ≤ 8 := by
    rw [Nat.zero_add]
    exact hdigits.length_le
  have hloop : hexLoop 0 0 (digits ++ rest) =
      some (valueFrom 0 digits, 0 + digits.length, rest) :=
    hexLoop_append hdigits.isDigit hlength hrest.ends.1
  rw [hex, hskip, hmarked, hloop]
  simp only [Nat.zero_add]
  rw [if_neg (by simpa using hdigits.ne_nil), hdigits.value]

theorem hex_eq_some (h : hex text = some (v, rest)) :
    ∃ s n, text = s ++ (n ++ rest) ∧ Spaces s ∧ Numeral n v ∧ Ends rest := by
  obtain ⟨s, hs, htext⟩ := exists_skipSpaces text
  have hmark : ∃ mark, (mark = [] ∨ mark = "0x".toList ∨ mark = "0X".toList) ∧
      skipSpaces text = mark ++ skipPrefix (skipSpaces text) := by
    rw [skipPrefix]
    split
    · rename_i htake
      refine ⟨(skipSpaces text).take 2, .inr htake, (List.take_append_drop 2 _).symm⟩
    · exact ⟨[], .inl rfl, rfl⟩
  obtain ⟨mark, hmark, hskip⟩ := hmark
  unfold hex at h
  split at h
  · cases h
  · rename_i value k rest' hloop
    split at h
    · cases h
    · rename_i hk
      cases h
      obtain ⟨digits, htext', hdigits, hlength, hle, hvalue, hends⟩ :=
        hexLoop_eq_some hloop (Nat.zero_le 8)
      refine ⟨s, mark ++ digits, ?_, hs, ⟨mark, digits, hmark, rfl, ?_, ?_, hdigits, ?_⟩, hends⟩
      · rw [List.append_assoc, ← htext', ← hskip]
        exact htext
      · rintro rfl
        exact hk hlength
      · omega
      · rw [hvalue]

end
/-! The parser. -/

section
variable {s s' text rest : Text} {path : Path} {state : Parsed}

theorem additions_stop (h : ∀ c ∈ (skipSpaces text).head?, c ≠ '+' ∧ c ≠ '-') :
    additions path text = some (path, skipSpaces text) := by
  rw [additions]
  split
  · rename_i hskip
    rw [hskip]
  · rename_i c rest hskip
    rw [hskip] at h ⊢
    rw [if_pos (h c rfl)]

theorem additions_sign {minus : Bool} (h : skipSpaces text = sign minus :: rest) :
    additions path text = match hex rest with
      | none => none
      | some (value, rest) => additions (path.add (if minus then 0 - value else value)) rest := by
  have hsign : ¬(sign minus ≠ '+' ∧ sign minus ≠ '-') := by cases minus <;> decide
  have hminus : (sign minus = '-') = (minus = true) := by cases minus <;> decide
  rw [additions]
  split
  · rename_i hskip
    exact absurd (hskip.symm.trans h) (List.cons_ne_nil _ _).symm
  · rename_i c rest' hskip
    obtain ⟨rfl, rfl⟩ := List.cons.inj (hskip.symm.trans h)
    rw [if_neg hsign]
    split
    · rename_i hhex
      rw [hhex]
    · rename_i hhex
      rw [hhex]
      simp only [hminus]

theorem expression_bracket {inner : Text} (h : skipSpaces text = '[' :: inner) :
    expression state text = match expression state inner with
      | none => none
      | some (state, rest) =>
        match skipSpaces rest with
        | ']' :: rest =>
          Parsed.goOn
            { state with
              path := { state.path with offsets := state.path.offsets ++ [0] } } rest
        | _ => none := by
  rw [expression]
  split
  · rename_i inner' hskip
    obtain ⟨-, rfl⟩ := List.cons.inj (hskip.symm.trans h)
    rfl
  · rename_i hnot
    exact absurd h (hnot inner)

theorem expression_value (h : ∀ inner, skipSpaces text ≠ '[' :: inner) :
    expression state text = match hex text with
      | none => none
      | some (value, rest) =>
        Parsed.goOn ⟨{ state.path with base := value }, state.values + 1⟩ rest := by
  rw [expression]
  split
  · rename_i inner hskip
    exact absurd hskip (h inner)
  · rfl

theorem stops_append (hs : Spaces s) (h : Stops rest) : Stops (s ++ rest) := by
  cases s with
  | nil => exact h
  | cons c s =>
    intro d hd
    rw [← Option.some.inj hd]
    exact .inl (hs c List.mem_cons_self)

theorem stops_of_spaces (hs : Spaces s) : Stops s := by
  have hnil : Stops [] := nofun
  have hstops := stops_append hs hnil
  rwa [List.append_nil] at hstops

theorem sign_spec (minus : Bool) (rest : Text) :
    Stops (sign minus :: rest) ∧ skipSpaces (sign minus :: rest) = sign minus :: rest := by
  cases minus with
  | false => exact ⟨by intro c hc; cases hc; decide, skipSpaces_of_head (by intro c hc; cases hc; decide)⟩
  | true => exact ⟨by intro c hc; cases hc; decide, skipSpaces_of_head (by intro c hc; cases hc; decide)⟩

theorem expression_written {e : Expr} {t : Text} (h : Written e t) (hs : Spaces s)
    (hrest : Stops rest) :
    expression {} (s ++ (t ++ rest)) = Parsed.goOn ⟨e.path, 1⟩ rest := by
  induction h generalizing s rest with
  | @value n v hn =>
    have hhex := hex_append hs hn hrest
    obtain ⟨c, t, hnt, hc⟩ := hn.head
    have hnot : ∀ inner, skipSpaces (s ++ (n ++ rest)) ≠ '[' :: inner := by
      intro inner
      rw [skipSpaces_append hs, hnt, List.cons_append,
        skipSpaces_of_head (by intro d hd; cases hd; exact (isDigit_ne hc).1)]
      intro heq
      rw [(List.cons.inj heq).1] at hc
      exact absurd hc (by decide)
    rw [expression_value hnot, hhex]
    rfl
  | @read e t s₁ s₂ h hs₁ hs₂ ih =>
    have hclose : Stops (']' :: rest) := by intro c hc; cases hc; decide
    have hskip : skipSpaces (s ++ ('[' :: (s₁ ++ t ++ s₂ ++ [']']) ++ rest)) =
        '[' :: (s₁ ++ (t ++ (s₂ ++ ']' :: rest))) := by
      rw [skipSpaces_append hs]
      simp [skipSpaces, show isSpace '[' = false by decide]
    have hend : skipSpaces (s₂ ++ ']' :: rest) = ']' :: rest := by
      rw [skipSpaces_append hs₂]
      exact skipSpaces_of_head (by intro c hc; cases hc; decide)
    have hinner : Parsed.goOn ⟨e.path, 1⟩ (s₂ ++ ']' :: rest) = some (⟨e.path, 1⟩, ']' :: rest) := by
      rw [Parsed.goOn, additions_stop (by rw [hend]; intro c hc; cases hc; decide), hend]
      rfl
    rw [expression_bracket hskip, ih hs₁ (stops_append hs₂ hclose), hinner]
    have hthere : skipSpaces (']' :: rest) = ']' :: rest :=
      skipSpaces_of_head (by intro c hc; cases hc; decide)
    simp only [hthere]
    rfl
  | @add e t s₁ s₂ n v h minus hs₁ hs₂ hn ih =>
    obtain ⟨hstops, hsign⟩ := sign_spec minus (s₂ ++ (n ++ rest))
    have htext : t ++ s₁ ++ sign minus :: (s₂ ++ n) ++ rest =
        t ++ (s₁ ++ sign minus :: (s₂ ++ (n ++ rest))) := by simp
    have hskip : skipSpaces (s₁ ++ sign minus :: (s₂ ++ (n ++ rest))) =
        sign minus :: (s₂ ++ (n ++ rest)) := by rw [skipSpaces_append hs₁, hsign]
    rw [htext, ih hs (stops_append hs₁ hstops), Parsed.goOn, additions_sign hskip,
      hex_append hs₂ hn hrest]
    rfl

theorem additions_sound {path' : Path} (h : additions path text = some (path', rest)) {e : Expr}
    {t : Text} (ht : Written e t) (hpath : e.path = path) :
    ∃ e' t' s, t ++ text = t' ++ (s ++ rest) ∧ Written e' t' ∧ Spaces s ∧ e'.path = path' ∧
      skipSpaces rest = rest := by
  induction hlength : text.length using Nat.strongRecOn generalizing text path e t with
  | ind k ih =>
    obtain ⟨s, hs, htext⟩ := exists_skipSpaces text
    by_cases hstop : ∀ c ∈ (skipSpaces text).head?, c ≠ '+' ∧ c ≠ '-'
    · rw [additions_stop hstop] at h
      cases h
      refine ⟨e, t, s, congrArg (t ++ ·) htext, ht, hs, hpath, ?_⟩
      rw [skipSpaces, skipSpaces, List.dropWhile_idempotent]
    · obtain ⟨minus, rest₁, hsign⟩ : ∃ minus rest₁, skipSpaces text = sign minus :: rest₁ := by
        cases hskip : skipSpaces text with
        | nil => exact absurd (by rw [hskip]; exact nofun) hstop
        | cons c rest₁ =>
          rw [hskip] at hstop
          by_cases hplus : c = '+'
          · exact ⟨false, rest₁, by rw [hplus]; rfl⟩
          · by_cases hminus : c = '-'
            · exact ⟨true, rest₁, by rw [hminus]; rfl⟩
            · refine absurd ?_ hstop
              intro d hd
              obtain rfl := Option.some.inj hd
              exact ⟨hplus, hminus⟩
      rw [additions_sign hsign] at h
      split at h
      · cases h
      · rename_i value rest₂ hhex
        obtain ⟨s₁, n, hrest₁, hs₁, hn, -⟩ := hex_eq_some hhex
        have hlt : rest₂.length < k := by
          have hle := length_hex_le hhex
          have hle' := length_skipSpaces_le text
          rw [hsign, List.length_cons] at hle'
          omega
        obtain ⟨e', t', s', heq, hwritten, hs', hpath', hrest⟩ :=
          ih _ hlt h (ht.add minus hs hs₁ hn) (by rw [Expr.path, hpath]) rfl
        refine ⟨e', t', s', ?_, hwritten, hs', hpath', hrest⟩
        rw [← heq, htext, hsign, hrest₁]
        simp

theorem expression_sound (h : expression {} text = some (state, rest)) :
    ∃ s e t s', text = s ++ (t ++ (s' ++ rest)) ∧ Spaces s ∧ Written e t ∧ Spaces s' ∧
      state = ⟨e.path, 1⟩ ∧ skipSpaces rest = rest := by
  induction hlength : text.length using Nat.strongRecOn generalizing text state rest with
  | ind k ih =>
    obtain ⟨s, hs, htext⟩ := exists_skipSpaces text
    by_cases hbracket : ∃ inner, skipSpaces text = '[' :: inner
    · obtain ⟨inner, hinner⟩ := hbracket
      have hlt : inner.length < k := by
        have hle := length_skipSpaces_le text
        rw [hinner, List.length_cons] at hle
        omega
      rw [expression_bracket hinner] at h
      split at h
      · cases h
      · rename_i state₁ rest₁ hexpr
        obtain ⟨s₁, e, t, s₂, hin, hs₁, hwritten, hs₂, rfl, hrest₁⟩ := ih _ hlt hexpr rfl
        rw [hrest₁] at h
        split at h
        · rename_i rest₂
          obtain ⟨⟨path', rest'⟩, hadd, hstate⟩ := Option.map_eq_some_iff.1 h
          obtain ⟨rfl, rfl⟩ := Prod.mk.inj hstate
          obtain ⟨e', t', s', heq, hwritten', hs', hpath', hrest⟩ :=
            additions_sound hadd (hwritten.read hs₁ hs₂) rfl
          refine ⟨s, e', t', s', ?_, hs, hwritten', hs', ?_, hrest⟩
          · rw [← heq, htext, hinner, hin]
            simp
          · rw [hpath']
        · cases h
    · rw [expression_value fun inner hinner => hbracket ⟨inner, hinner⟩] at h
      split at h
      · cases h
      · rename_i value rest₁ hhex
        obtain ⟨s₁, n, hn, hs₁, hnumeral, -⟩ := hex_eq_some hhex
        obtain ⟨⟨path', rest'⟩, hadd, hstate⟩ := Option.map_eq_some_iff.1 h
        obtain ⟨rfl, rfl⟩ := Prod.mk.inj hstate
        obtain ⟨e', t', s', heq, hwritten', hs', hpath', hrest⟩ :=
          additions_sound hadd (.value hnumeral) rfl
        refine ⟨s₁, e', t', s', ?_, hs₁, hwritten', hs', ?_, hrest⟩
        · rw [← heq, hn]
        · rw [hpath']

theorem parse_iff : parse text = some path ↔ ∃ e, WrittenAs e text ∧ e.path = path := by
  constructor
  · intro h
    unfold parse at h
    split at h
    · cases h
    · rename_i state rest hexpr
      obtain ⟨s, e, t, s', htext, hs, hwritten, hs', rfl, hrest⟩ := expression_sound hexpr
      split at h
      · cases h
      · rename_i hall
        cases h
        have hnil : rest = [] := hrest.symm.trans (not_not.1 fun hne => hall (.inl hne))
        refine ⟨e, ⟨s, t, s', ?_, hs, hwritten, hs'⟩, rfl⟩
        rw [htext, hnil, List.append_nil, List.append_assoc]
  · rintro ⟨e, ⟨s, t, s', rfl, hs, hwritten, hs'⟩, rfl⟩
    have hnil : skipSpaces s' = [] := List.dropWhile_eq_nil_iff.2 hs'
    have hadd : Parsed.goOn ⟨e.path, 1⟩ s' = some (⟨e.path, 1⟩, []) := by
      rw [Parsed.goOn, additions_stop (by rw [hnil]; rintro _ ⟨⟩), hnil]
      rfl
    rw [parse, List.append_assoc, expression_written hwritten hs (stops_of_spaces hs'), hadd]
    rfl

end
end DolphinXR.AgentServer.PointerScan
