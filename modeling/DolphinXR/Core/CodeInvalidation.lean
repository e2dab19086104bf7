import DolphinXR.Core.CodeWrites

/- What the bindings leave stale. `WriteCode` gives up at the first word it cannot write, and then
   the words it has changed before are not invalidated. `InvalidateCode` compares its lines with the
   end of the range, which is zero for a range that ends where the addresses do, so that no line of
   it is reached. Otherwise all is well. -/
namespace DolphinXR.VRPatch.CodeWrites

/-! ### The lines of a range -/

theorem getElem_lineMask : ∀ i : Fin 32, (~~~31#32)[i] = decide (5 ≤ i.val) := by decide

theorem toNat_lineOf (address : BitVec 32) : (lineOf address).toNat = address.toNat / 32 * 32 := by
  have h : lineOf address = (address >>> 5) <<< 5 := by
    unfold lineOf
    ext i hi
    rw [BitVec.getElem_and, show (~~~31#32)[i] = decide (5 ≤ i) from getElem_lineMask ⟨i, hi⟩]
    by_cases h5 : 5 ≤ i
    · simp [h5, Nat.not_lt.2 h5, BitVec.getLsbD_eq_getElem hi]
    · simp [h5, Nat.lt_of_not_le h5]
  rw [h]
  simp only [BitVec.toNat_shiftLeft, BitVec.toNat_ushiftRight, Nat.shiftRight_eq_div_pow,
    Nat.shiftLeft_eq]
  omega

theorem mem_linesFrom {first last : BitVec 32} :
    ∀ {fuel : Nat} {line : BitVec 32} (k : Nat), k < fuel → first ≤ line →
      line.toNat + 32 * k < last.toNat → line + BitVec.ofNat 32 (32 * k) ∈ linesFrom first last fuel line
  | 0, _, _, hk, _, _ => absurd hk (Nat.not_lt_zero _)
  | fuel + 1, line, k, hk, hfirst, hlast => by
    have hline : line < last ∧ line ≥ first := ⟨by bv_omega, hfirst⟩
    rw [linesFrom, if_pos hline]
    cases k with
    | zero => exact List.mem_cons.2 (.inl (by simp))
    | succ k =>
      have hnext : first ≤ line + 32 := by bv_omega
      have hplace : line + BitVec.ofNat 32 (32 * (k + 1)) = line + 32 + BitVec.ofNat 32 (32 * k) := by
        bv_omega
      rw [hplace]
      exact List.mem_cons_of_mem _
        (mem_linesFrom k (Nat.lt_of_succ_lt_succ hk) hnext (by bv_omega))

def LinesReached (address size : BitVec 32) (lines : List (BitVec 32)) : Prop :=
  ∀ i < size.toNat, lineOf (address + BitVec.ofNat 32 i) ∈ lines

theorem linesReached_of_lt {address size : BitVec 32}
    (h : address.toNat + size.toNat < 2 ^ 32) :
    LinesReached address size (invalidatedLines address size) := by
  intro i hi
  have hsize : size ≠ 0 := by bv_omega
  rw [invalidatedLines, if_neg hsize]
  have hfirst := toNat_lineOf address
  have hline := toNat_lineOf (address + BitVec.ofNat 32 i)
  have hplace : (address + BitVec.ofNat 32 i).toNat = address.toNat + i := by bv_omega
  have hlast : (address + size).toNat = address.toNat + size.toNat := by bv_omega
  -- the line is so many lines after the first one
  obtain ⟨k, hk⟩ : ∃ k, (address.toNat + i) / 32 = address.toNat / 32 + k :=
    ⟨(address.toNat + i) / 32 - address.toNat / 32, by omega⟩
  have hsame : lineOf (address + BitVec.ofNat 32 i) = lineOf address + BitVec.ofNat 32 (32 * k) := by
    apply BitVec.eq_of_toNat_eq
    rw [hline, hplace, BitVec.toNat_add, hfirst, BitVec.toNat_ofNat]
    omega
  rw [hsame]
  exact mem_linesFrom k (by omega) (BitVec.le_refl _) (by omega)

theorem not_linesReached_of_eq {address size : BitVec 32} (hsize : size ≠ 0)
    (h : address.toNat + size.toNat = 2 ^ 32) :
    ¬LinesReached address size (invalidatedLines address size) := by
  intro hreached
  have hlines : invalidatedLines address size = [] := by
    have hlast : address + size = 0 := by bv_omega
    rw [invalidatedLines, if_neg hsize, hlast, show (2 : Nat) ^ 27 = 134217727 + 1 from rfl,
      linesFrom, if_neg (by bv_omega)]
  have := hreached 0 (by bv_omega)
  rw [hlines] at this
  exact List.not_mem_nil this

/-- Every word that was changed lies in a range that is invalidated later on, and every range that
    is invalidated is reached as a whole. -/
def Fresh (effects : List Effect) : Prop :=
  (∀ before a old new after, effects = before ++ .write a old new :: after → old ≠ new →
    ∃ address size lines, .invalidateCode address size lines ∈ after ∧
      (a - address).toNat + 4 ≤ size.toNat) ∧
  ∀ address size lines, .invalidateCode address size lines ∈ effects →
    LinesReached address size lines

theorem fresh_nil : Fresh [] :=
  ⟨fun before _ _ _ _ h => by simp at h, fun _ _ _ h => absurd h List.not_mem_nil⟩

/-- The address of the `i`-th word. -/
def wordAddress (address : BitVec 32) (i : Nat) : BitVec 32 := address + BitVec.ofNat 32 (4 * i)

def Refused (m : HostMemory) (onlyChanged : Bool) (address word : BitVec 32) : Prop :=
  keeps m onlyChanged address word = false ∧ m.canWrite32 address = false

section Words
variable (m : HostMemory) (onlyChanged : Bool) (address : BitVec 32) (words : List (BitVec 32))

def RefusedAt (i : Nat) : Prop :=
  ∃ word, words[i]? = some word ∧ Refused m onlyChanged (wordAddress address i) word

def WrittenAt (i : Nat) : Prop :=
  ∃ word, words[i]? = some word ∧ keeps m onlyChanged (wordAddress address i) word = false

def ChangedAt (i : Nat) : Prop :=
  ∃ word, words[i]? = some word ∧ m.word (wordAddress address i) ≠ word

/-- No word is refused after the loop has changed one, and where the range ends with the addresses
    nothing is written, or a word is refused. -/
def StaysFresh : Prop :=
  (∀ i j, i < j → ChangedAt m address words i →
    (∀ k ≤ i, ¬RefusedAt m onlyChanged address words k) →
      ¬RefusedAt m onlyChanged address words j) ∧
  (address.toNat + 4 * words.length = 2 ^ 32 →
    (∃ i, RefusedAt m onlyChanged address words i) ∨
      ∀ i, ¬WrittenAt m onlyChanged address words i)

end Words

/-! ### The loop -/

/-- The log is of the words up to the first that is refused, without those that are kept. -/
def Logged (m : HostMemory) (onlyChanged : Bool) (address : BitVec 32) (words : List (BitVec 32))
    (log : List Effect) : Prop :=
  (∀ e ∈ log, ∃ i word, words[i]? = some word ∧
    keeps m onlyChanged (wordAddress address i) word = false ∧
    e = .write (wordAddress address i) (m.word (wordAddress address i)) word ∧
    ∀ k ≤ i, ¬RefusedAt m onlyChanged address words k) ∧
  ∀ i word, words[i]? = some word → keeps m onlyChanged (wordAddress address i) word = false →
    (∀ k ≤ i, ¬RefusedAt m onlyChanged address words k) →
    .write (wordAddress address i) (m.word (wordAddress address i)) word ∈ log

@[simp] theorem wordAddress_zero (address : BitVec 32) : wordAddress address 0 = address := by
  simp [wordAddress]

theorem wordAddress_succ (address : BitVec 32) (i : Nat) :
    wordAddress address (i + 1) = wordAddress (address + 4) i := by
  unfold wordAddress
  bv_omega

section Step
variable {m : HostMemory} {onlyChanged : Bool} {address word : BitVec 32} {words : List (BitVec 32)}

theorem refusedAt_zero :
    RefusedAt m onlyChanged address (word :: words) 0 ↔ Refused m onlyChanged address word := by
  simp [RefusedAt]

theorem refusedAt_succ (i : Nat) :
    RefusedAt m onlyChanged address (word :: words) (i + 1) ↔
      RefusedAt m onlyChanged (address + 4) words i := by
  simp only [RefusedAt, List.getElem?_cons_succ, wordAddress_succ]

theorem not_refusedAt_upTo_succ (i : Nat) :
    (∀ k ≤ i + 1, ¬RefusedAt m onlyChanged address (word :: words) k) ↔
      ¬Refused m onlyChanged address word ∧
        ∀ k ≤ i, ¬RefusedAt m onlyChanged (address + 4) words k := by
  constructor
  · intro h
    exact ⟨fun h0 => h 0 (Nat.zero_le _) (refusedAt_zero.2 h0),
      fun k hk hr => h (k + 1) (Nat.succ_le_succ hk) ((refusedAt_succ k).2 hr)⟩
  · rintro ⟨h0, h⟩ k hk hr
    cases k with
    | zero => exact h0 (refusedAt_zero.1 hr)
    | succ k => exact h k (Nat.le_of_succ_le_succ hk) ((refusedAt_succ k).1 hr)

theorem Logged.cons {log : List Effect} (h0 : ¬Refused m onlyChanged address word)
    (h : Logged m onlyChanged (address + 4) words log) :
    Logged m onlyChanged address (word :: words)
      (if keeps m onlyChanged address word then log
        else .write address (m.word address) word :: log) := by
  obtain ⟨hsound, hcomplete⟩ := h
  constructor
  · intro e he
    by_cases hfirst : keeps m onlyChanged address word = false ∧
        e = .write address (m.word address) word
    · refine ⟨0, word, rfl, by simpa using hfirst.1, by simpa using hfirst.2, fun k hk => ?_⟩
      obtain rfl := Nat.le_zero.1 hk
      exact fun hr => h0 (refusedAt_zero.1 hr)
    · have he : e ∈ log := by
        split at he
        · exact he
        · rename_i hkeeps
          exact (List.mem_cons.1 he).resolve_left
            fun h => hfirst ⟨by simpa using hkeeps, h⟩
      obtain ⟨i, w, hw, hkeeps, rfl, hi⟩ := hsound e he
      exact ⟨i + 1, w, hw, by rwa [wordAddress_succ], by rw [wordAddress_succ],
        (not_refusedAt_upTo_succ i).2 ⟨h0, hi⟩⟩
  · intro i w hw hkeeps hi
    cases i with
    | zero =>
      obtain rfl : word = w := by simpa using hw
      rw [wordAddress_zero] at hkeeps ⊢
      simp [hkeeps]
    | succ i =>
      rw [wordAddress_succ] at hkeeps ⊢
      have hmem := hcomplete i w hw hkeeps ((not_refusedAt_upTo_succ i).1 hi).2
      split
      · exact hmem
      · exact List.mem_cons_of_mem _ hmem

theorem Logged.of_refused (h : Refused m onlyChanged address word) :
    Logged m onlyChanged address (word :: words) [] :=
  ⟨fun _ he => absurd he List.not_mem_nil, fun _ _ _ _ hi =>
    absurd (refusedAt_zero.2 h) (hi 0 (Nat.zero_le _))⟩

/-! The words still to come are not touched. -/

theorem ne_wordAddress {i : Nat} (hlen : 4 * (words.length + 1) ≤ 2 ^ 32) (hi : i < words.length) :
    wordAddress (address + 4) i ≠ address := by
  unfold wordAddress
  bv_omega

variable (m onlyChanged words) in
theorem keeps_setWord {a : BitVec 32} (value w : BitVec 32) (h : a ≠ address) :
    keeps (m.setWord address value) onlyChanged a w = keeps m onlyChanged a w := by
  unfold keeps
  rw [m.read32_setWord_of_ne value h]

theorem refusedAt_setWord (value : BitVec 32) (hlen : 4 * (words.length + 1) ≤ 2 ^ 32) (i : Nat) :
    RefusedAt (m.setWord address value) onlyChanged (address + 4) words i ↔
      RefusedAt m onlyChanged (address + 4) words i := by
  apply exists_congr
  intro w
  apply and_congr_right
  intro hw
  have hne : wordAddress (address + 4) i ≠ address :=
    ne_wordAddress hlen (List.getElem?_eq_some_iff.1 hw).1
  unfold Refused
  rw [keeps_setWord m onlyChanged value w hne, HostMemory.canWrite32_setWord]

theorem Logged.of_setWord {value : BitVec 32} {log : List Effect}
    (hlen : 4 * (words.length + 1) ≤ 2 ^ 32)
    (h : Logged (m.setWord address value) onlyChanged (address + 4) words log) :
    Logged m onlyChanged (address + 4) words log := by
  have hne {i w} (hw : words[i]? = some w) : wordAddress (address + 4) i ≠ address :=
    ne_wordAddress hlen (List.getElem?_eq_some_iff.1 hw).1
  obtain ⟨hsound, hcomplete⟩ := h
  simp only [refusedAt_setWord value hlen] at hsound hcomplete
  constructor
  · intro e he
    obtain ⟨i, w, hw, hkeeps, rfl, hi⟩ := hsound e he
    rw [keeps_setWord m onlyChanged value w (hne hw)] at hkeeps
    exact ⟨i, w, hw, hkeeps, by rw [m.word_setWord_of_ne value (hne hw)], hi⟩
  · intro i w hw hkeeps hi
    have := hcomplete i w hw (by rwa [keeps_setWord m onlyChanged value w (hne hw)]) hi
    rwa [m.word_setWord_of_ne value (hne hw)] at this

end Step

theorem writeWords_spec (onlyChanged : Bool) :
    ∀ (words : List (BitVec 32)) (address : BitVec 32) (written : Nat) (g : GuardMemoryAccess),
      4 * words.length ≤ 2 ^ 32 →
      ∃ log, (writeWords onlyChanged address words written g).2.effects = g.effects ++ log ∧
        Logged g.memory onlyChanged address words log ∧
        ((∃ i, RefusedAt g.memory onlyChanged address words i) →
          (writeWords onlyChanged address words written g).1 = none) ∧
        ((∀ i, ¬RefusedAt g.memory onlyChanged address words i) →
          (writeWords onlyChanged address words written g).1 = some (written + log.length))
  | [], address, written, g, _ =>
    ⟨[], by simp [writeWords], ⟨fun _ he => absurd he List.not_mem_nil, fun _ _ hw => by simp at hw⟩,
      fun ⟨_, _, hw, _⟩ => by simp at hw, fun _ => rfl⟩
  | word :: words, address, written, g, hlen => by
    have hlen : 4 * (words.length + 1) ≤ 2 ^ 32 := by simpa using hlen
    have hrest : 4 * words.length ≤ 2 ^ 32 := by omega
    have hsome : (∃ i, RefusedAt g.memory onlyChanged address (word :: words) i) →
        ¬Refused g.memory onlyChanged address word →
        ∃ i, RefusedAt g.memory onlyChanged (address + 4) words i := by
      rintro ⟨i, hi⟩ h0
      cases i with
      | zero => exact absurd (refusedAt_zero.1 hi) h0
      | succ i => exact ⟨i, (refusedAt_succ i).1 hi⟩
    have hnone : (∀ i, ¬RefusedAt g.memory onlyChanged address (word :: words) i) →
        ∀ i, ¬RefusedAt g.memory onlyChanged (address + 4) words i :=
      fun h i hi => h (i + 1) ((refusedAt_succ i).2 hi)
    unfold writeWords
    by_cases hkeeps : keeps g.memory onlyChanged address word = true
    · have h0 : ¬Refused g.memory onlyChanged address word := fun h => by simp [h.1] at hkeeps
      obtain ⟨log, heffects, hlogged, hfails, hwrites⟩ :=
        writeWords_spec onlyChanged words (address + 4) written g hrest
      have hlogged := hlogged.cons h0
      rw [if_pos hkeeps] at hlogged ⊢
      exact ⟨log, heffects, hlogged, fun h => hfails (hsome h h0), fun h => hwrites (hnone h)⟩
    · have hkeeps : keeps g.memory onlyChanged address word = false := by simpa using hkeeps
      rw [if_neg (by simp [hkeeps])]
      by_cases hcan : g.memory.canWrite32 address = true
      · have h0 : ¬Refused g.memory onlyChanged address word := fun h => by simp [h.2] at hcan
        simp only [GuardMemoryAccess.write32, if_pos hcan]
        obtain ⟨log, heffects, hlogged, hfails, hwrites⟩ :=
          writeWords_spec onlyChanged words (address + 4) (written + 1)
            ⟨g.memory.setWord address word,
              g.effects ++ [.write address (g.memory.word address) word]⟩ hrest
        simp only [refusedAt_setWord word hlen] at hfails hwrites
        have hlogged := (hlogged.of_setWord hlen).cons h0
        rw [if_neg (by simp [hkeeps])] at hlogged
        refine ⟨_, by rw [heffects, List.append_assoc]; rfl, hlogged, fun h => hfails (hsome h h0),
          fun h => ?_⟩
        rw [hwrites (hnone h), List.length_cons]
        congr 1
        omega
      · have h0 : Refused g.memory onlyChanged address word := ⟨hkeeps, by simpa using hcan⟩
        simp only [GuardMemoryAccess.write32, if_neg hcan]
        exact ⟨[], by simp, .of_refused h0, fun _ => trivial,
          fun h => absurd (refusedAt_zero.2 h0) (h 0)⟩

/-! ### A call -/

theorem not_keeps_of_changedAt {m : HostMemory} {onlyChanged : Bool} {a word : BitVec 32}
    (h : m.word a ≠ word) : keeps m onlyChanged a word = false := by
  cases hkeeps : keeps m onlyChanged a word with
  | false => rfl
  | true =>
    simp only [keeps, HostMemory.read32, Bool.and_eq_true, beq_iff_eq] at hkeeps
    obtain ⟨-, hread⟩ := hkeeps
    split at hread
    · cases hread
    · exact absurd (Option.some.inj hread) h

theorem toNat_sizeOf {words : List (BitVec 32)} (h : words.length ≤ maxWords) :
    (sizeOf words).toNat = 4 * words.length := by
  unfold sizeOf maxWords at *
  bv_omega

structure Accepted (m : HostMemory) (address : BitVec 32) (words : List (BitVec 32)) : Prop where
  aligned : address.toNat % 4 = 0
  isRAM : m.isRAM address (sizeOf words) = true

theorem Accepted.range_le {m : HostMemory} {address : BitVec 32} {words : List (BitVec 32)}
    (h : Accepted m address words) (hlen : words.length ≤ maxWords) :
    address.toNat + 4 * words.length ≤ 2 ^ 32 := by
  have hram := h.isRAM
  have hsize := toNat_sizeOf hlen
  unfold HostMemory.isRAM at hram
  split at hram
  · cases hram
  · simp only [] at hram
    split at hram
    · cases hram
    · bv_omega

section Call
variable {m : HostMemory} {onlyChanged : Bool} {address : BitVec 32} {words : List (BitVec 32)}
  {log : List Effect}

theorem fresh_writes (hlog : Logged m onlyChanged address words log) :
    Fresh log ↔ ∀ i, ChangedAt m address words i →
      ¬∀ k ≤ i, ¬RefusedAt m onlyChanged address words k := by
  have hwrite : ∀ a s lines, .invalidateCode a s lines ∉ log := by
    intro a s lines he
    obtain ⟨i, w, -, -, h, -⟩ := hlog.1 _ he
    cases h
  constructor
  · rintro ⟨hchanged, -⟩ i ⟨w, hw, hne⟩ hi
    have he := hlog.2 i w hw (not_keeps_of_changedAt hne) hi
    obtain ⟨before, after, hsplit⟩ := List.append_of_mem he
    obtain ⟨a, s, lines, hmem, -⟩ := hchanged before _ _ _ after hsplit hne
    exact hwrite a s lines (hsplit ▸ List.mem_append_right _ (List.mem_cons_of_mem _ hmem))
  · intro h
    refine ⟨fun before a old new after hsplit hne => ?_, fun a s lines he => absurd he (hwrite a s lines)⟩
    obtain ⟨i, w, hw, -, he, hi⟩ := hlog.1 (.write a old new) (by rw [hsplit]; simp)
    injection he with ha hold hnew
    subst ha hold hnew
    exact absurd hi (h i ⟨_, hw, hne⟩)

theorem fresh_invalidated (hlog : Logged m onlyChanged address words log)
    (hlen : words.length ≤ maxWords) (lines : List (BitVec 32)) :
    Fresh (log ++ [.invalidateCode address (sizeOf words) lines]) ↔
      LinesReached address (sizeOf words) lines := by
  have hwrite : ∀ a s lines, .invalidateCode a s lines ∉ log := by
    intro a s lines he
    obtain ⟨i, w, -, -, h, -⟩ := hlog.1 _ he
    cases h
  constructor
  · exact fun h => h.2 _ _ _ (List.mem_append_right _ (List.mem_singleton.2 rfl))
  · intro hreached
    constructor
    · intro before a old new after hsplit hne
      have hmem : .write a old new ∈ log ++ [.invalidateCode address (sizeOf words) lines] := by
        rw [hsplit]; simp
      obtain ⟨i, w, hw, -, he, -⟩ := hlog.1 _ ((List.mem_append.1 hmem).resolve_right (by simp))
      injection he with ha
      have hi := (List.getElem?_eq_some_iff.1 hw).1
      refine ⟨address, sizeOf words, lines, ?_, ?_⟩
      · -- the last effect of the log comes after each of the others
        have hlast := congrArg List.getLast? hsplit
        rw [List.getLast?_concat, List.getLast?_append_cons] at hlast
        cases after with
        | nil => cases hlast
        | cons e after =>
          rw [List.getLast?_cons_cons] at hlast
          exact List.mem_of_getLast? hlast.symm
      · rw [toNat_sizeOf hlen, ha, wordAddress]
        unfold maxWords at hlen
        bv_omega
    · intro a s lines' he
      obtain he | he := List.mem_append.1 he
      · exact absurd he (hwrite a s lines')
      · cases List.mem_singleton.1 he
        exact hreached

theorem runCode_of_not_accepted (h : ¬Accepted m address words) :
    (runCode (some m) address words onlyChanged).2 = [] := by
  have hturned : address.toNat % 4 ≠ 0 ∨ m.isRAM address (sizeOf words) = false := by
    by_contra hcon
    rw [not_or, not_not, Bool.not_eq_false] at hcon
    exact h ⟨hcon.1, hcon.2⟩
  simp only [runCode, writeCode, if_pos hturned]

theorem runCode_of_accepted (h : Accepted m address words) :
    (runCode (some m) address words onlyChanged).2 =
      match writeWords onlyChanged address words 0 ⟨m, []⟩ with
      | (some (_ + 1), g) =>
        g.effects ++
          [.invalidateCode address (sizeOf words) (invalidatedLines address (sizeOf words))]
      | (_, g) => g.effects := by
  have haccepted : ¬(address.toNat % 4 ≠ 0 ∨ m.isRAM address (sizeOf words) = false) := by
    simp [h.aligned, h.isRAM]
  simp only [runCode, writeCode, if_neg haccepted]
  split
  · rename_i heq
    rw [heq]
    rfl
  · rename_i hno
    split
    · rename_i heq
      exact absurd heq (hno _ _)
    · rename_i heq
      simp [heq]

theorem fresh_runCode_iff (h : Accepted m address words)
    (hlen : words.length ≤ maxWords) :
    Fresh (runCode (some m) address words onlyChanged).2 ↔
      StaysFresh m onlyChanged address words := by
  have hsize := toNat_sizeOf hlen
  have hrange := h.range_le hlen
  obtain ⟨log, heffects, hlogged, hfails, hwrites⟩ :=
    writeWords_spec onlyChanged words address 0 ⟨m, []⟩ (by omega)
  rw [List.nil_append] at heffects
  rw [runCode_of_accepted h]
  generalize writeWords onlyChanged address words 0 ⟨m, []⟩ = run at *
  obtain ⟨result, g⟩ := run
  obtain rfl : g.effects = log := heffects
  by_cases hany : ∃ i, RefusedAt m onlyChanged address words i
  · -- the loop gives up: nothing may have been changed before
    obtain rfl : result = none := hfails hany
    rw [fresh_writes hlogged]
    constructor
    · exact fun hnone => ⟨fun i _ _ hchanged hi => absurd hi (hnone i hchanged), fun _ => .inl hany⟩
    · rintro ⟨hsafe, -⟩ i hchanged hi
      obtain ⟨j, hj⟩ := hany
      exact hsafe i j (Nat.lt_of_not_le fun hji => hi j hji hj) hchanged hi hj
  · -- every word is written or kept: the lines of the range are to be reached, if it is invalidated
    rw [not_exists] at hany
    obtain rfl : result = some (0 + g.effects.length) := hwrites hany
    rw [Nat.zero_add]
    rcases hlog : g.effects with _ | ⟨e, rest⟩
    · refine iff_of_true (hlog ▸ fresh_nil : Fresh g.effects)
        ⟨fun _ j _ _ _ => hany j, fun _ => .inr ?_⟩
      rintro i ⟨w, hw, hkeeps⟩
      have hmem := hlogged.2 i w hw hkeeps fun k _ => hany k
      rw [hlog] at hmem
      exact List.not_mem_nil hmem
    · rw [hlog] at hlogged
      obtain ⟨i, w, hw, hkeeps, -⟩ := hlogged.1 e List.mem_cons_self
      simp only [List.length_cons]
      rw [hlog, fresh_invalidated hlogged hlen]
      by_cases htop : address.toNat + 4 * words.length = 2 ^ 32
      · refine iff_of_false
          (not_linesReached_of_eq (by bv_omega) (by rw [hsize, htop])) fun hsafe => ?_
        obtain ⟨j, hj⟩ | hnone := hsafe.2 htop
        · exact hany j hj
        · exact hnone i ⟨w, hw, hkeeps⟩
      · exact iff_of_true (linesReached_of_lt (by omega))
          ⟨fun _ j _ _ _ => hany j, fun heq => absurd heq htop⟩

end Call

/-! ### The bindings -/

theorem checkItems_length : ∀ {i : Nat} {items : List (Option Int)} {words : List (BitVec 32)},
    checkItems i items = .ok words → words.length = items.length
  | _, [], _, h => by cases h; rfl
  | _, none :: _, _, h => by cases h
  | i, some value :: items, words, h => by
    unfold checkItems at h
    split at h
    · cases h
    · rename_i hrest
      cases h
      rw [List.length_cons, List.length_cons, checkItems_length hrest]

theorem checkWords_length {arg : Nat} {value : LuaValue} {words : List (BitVec 32)}
    (h : checkWords arg value = .ok words) : words.length ≤ maxWords := by
  cases value with
  | integer value => cases h; exact Nat.succ_le_succ (Nat.zero_le _)
  | other typeName => cases h
  | table items =>
    by_cases hitems : 1 ≤ items.length ∧ items.length ≤ maxWords
    · rw [checkWords, if_pos hitems] at h
      rw [checkItems_length h]
      exact hitems.2
    · rw [checkWords, if_neg hitems] at h
      cases h

theorem checkCode_length {context : ScriptBlocks} {function : String} {arg : Int} {value : LuaValue}
    {address : BitVec 32} {words : List (BitVec 32)}
    (h : checkCode context function arg value = .ok (address, words)) :
    words.length ≤ maxWords := by
  unfold checkCode at h
  cases haddress : checkAddress 1 arg with
  | error e => rw [haddress] at h; cases h
  | ok a =>
    cases hwords : checkWords 2 value with
    | error e => rw [haddress, hwords] at h; cases h
    | ok ws =>
      rw [haddress, hwords] at h
      cases hlow : checkLowMemory context function a (ws.length * 4) with
      | error e => simp only [bind, Except.bind, hlow] at h; cases h
      | ok _ =>
        simp only [bind, Except.bind, hlow, pure, Except.pure] at h
        cases h
        exact checkWords_length hwords

/-- What a call leaves is fresh: of a call that comes to its words, these are so. -/
def CallStaysFresh (context : ScriptBlocks) (function : String) (onlyChanged : Bool)
    (memory : Option HostMemory) (address : Int) (words : LuaValue) : Prop :=
  ∀ m a ws, memory = some m → checkCode context function address words = .ok (a, ws) →
    Accepted m a ws → StaysFresh m onlyChanged a ws

theorem call_fresh_iff (context : ScriptBlocks) (function : String) (onlyChanged : Bool)
    (memory : Option HostMemory) (address : Int) (words : LuaValue) :
    Fresh (match checkCode context function address words with
      | .error _ => []
      | .ok (a, ws) => (runCode memory a ws onlyChanged).2) ↔
      CallStaysFresh context function onlyChanged memory address words := by
  cases hcheck : checkCode context function address words with
  | error e => exact iff_of_true fresh_nil fun m a ws _ h => by rw [hcheck] at h; cases h
  | ok result =>
    obtain ⟨a, ws⟩ := result
    have hlen := checkCode_length hcheck
    cases memory with
    | none => exact iff_of_true fresh_nil fun m _ _ h => by cases h
    | some m =>
      by_cases haccepted : Accepted m a ws
      · simp only []
        rw [fresh_runCode_iff haccepted hlen]
        constructor
        · intro h m' a' ws' hm hcheck' _
          rw [hcheck] at hcheck'
          cases hm
          cases hcheck'
          exact h
        · exact fun h => h m a ws rfl hcheck haccepted
      · simp only []
        rw [runCode_of_not_accepted haccepted]
        refine iff_of_true fresh_nil fun m' a' ws' hm hcheck' hacc => ?_
        rw [hcheck] at hcheck'
        cases hm
        cases hcheck'
        exact absurd hacc haccepted

/-- Both bindings leave no stale code just where no word is refused after another one has been
    changed, and a range that is invalidated does not end where the addresses do. -/
theorem code_fresh_iff (context : ScriptBlocks) (memory : Option HostMemory) (address : Int)
    (words : LuaValue) :
    (Fresh (memWriteCode context memory address words).2 ↔
      CallStaysFresh context "write_code" false memory address words) ∧
    (Fresh (memEnsureCode context memory address words).2 ↔
      CallStaysFresh context "ensure_code" true memory address words) := by
  constructor
  · rw [← call_fresh_iff, memWriteCode]
    cases checkCode context "write_code" address words <;> rfl
  · rw [← call_fresh_iff, memEnsureCode]
    cases checkCode context "ensure_code" address words <;> rfl

/-- RAM but for one page. -/
def pageMissing : HostMemory where
  word := fun _ => 0
  isRAMAddress := fun a => decide (a.toNat / 4096 ≠ 0x7E001)
  readFails := fun _ => false
  writeFails := fun _ => false

/-- Code that begins with the last word before the page and ends with the first word after it: the
    first word is changed, the second one refused. -/
theorem code_stale :
    ¬Fresh (memWriteCode ⟨0, 0, []⟩ (some pageMissing) 0x7E000FFC
      (.table (List.replicate 1026 (some 1)))).2 := by
  have heffects : (memWriteCode ⟨0, 0, []⟩ (some pageMissing) 0x7E000FFC
      (.table (List.replicate 1026 (some 1)))).2 = [.write 0x7E000FFC 0 1] := by
    decide +kernel
  rw [heffects]
  intro hfresh
  obtain ⟨a, s, lines, hmem, -⟩ := hfresh.1 [] 0x7E000FFC 0 1 [] rfl (by decide)
  exact List.not_mem_nil hmem

end DolphinXR.VRPatch.CodeWrites
