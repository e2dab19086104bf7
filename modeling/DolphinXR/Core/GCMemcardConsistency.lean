import DolphinXR.Core.GCMemcardSteps
import DolphinXR.Lib.Transition

/- The directory and the BAT of a card that has been formatted and then filled and emptied:
   `Consistent` is what holds of it after every session of imports, removals, saves and
   reopenings, and `Stored` the invariant with both copies of both blocks. `Linked` is the
   part about the chains: each file has one, they share no block, and there is no other
   block in use. -/
namespace DolphinXR.GCMemcard
open Lib

/-- Every used entry's chain is right, the chains are apart and cover the BAT, the free blocks and
    the checksums are right, and the card that has been saved can be opened as it is. -/
structure Consistent (c : Card) : Prop where
  chain : ∀ i < dirlen, (c.entry i).inUse = true → ∃ l,
    c.bats.current.Chain (c.entry i).firstBlock l 0xFFFF ∧ l.length = (c.entry i).blockCount ∧
      l.Nodup ∧ ∀ x ∈ l, 5 ≤ x ∧ x < c.sizeBlocks
  disjoint : ∀ i < dirlen, ∀ j < dirlen, i ≠ j → (c.entry i).inUse = true →
    (c.entry j).inUse = true → ∀ l l', c.bats.current.Chain (c.entry i).firstBlock l 0xFFFF →
      c.bats.current.Chain (c.entry j).firstBlock l' 0xFFFF → ∀ x ∈ l, x ∉ l'
  covered : ∀ x, 5 ≤ x → x < 4096 → c.bats.current.value x ≠ 0 →
    ∃ i < dirlen, (c.entry i).inUse = true ∧
      ∃ l, c.bats.current.Chain (c.entry i).firstBlock l 0xFFFF ∧ x ∈ l
  free : c.bats.current.freeBlocks = (c.bats.current.freeSet c.sizeBlocks).card
  directoryChecksums : c.directories.current.calculateChecksums =
    (c.directories.current.checksum, c.directories.current.checksumInv)
  batChecksums : c.bats.current.calculateChecksums =
    (c.bats.current.checksum, c.bats.current.checksumInv)
  reopened : (openCard (save c)).2 = some c

/-! ### Both copies -/

namespace TwoCopies
variable {α : Type}

def All (P : α → Prop) (t : TwoCopies α) : Prop := P t.block0 ∧ P t.block1

theorem All.current {P : α → Prop} {t : TwoCopies α} (h : t.All P) : P t.current := by
  unfold TwoCopies.current
  split
  · exact h.2
  · exact h.1

theorem All.update {P : α → Prop} {t : TwoCopies α} (h : t.All P) {a : α} (ha : P a) :
    (t.update a).All P := by
  unfold TwoCopies.update
  split
  · exact ⟨ha, h.2⟩
  · exact ⟨h.1, ha⟩

theorem All.map {P Q : α → Prop} {f : α → α} {t : TwoCopies α} (h : t.All P)
    (hf : ∀ a, P a → Q (f a)) : (t.map f).All Q := ⟨hf _ h.1, hf _ h.2⟩

theorem all_map {Q : α → Prop} {f : α → α} (t : TwoCopies α) (hf : ∀ a, Q (f a)) :
    (t.map f).All Q := ⟨hf _, hf _⟩

/-- The active block is the one that is chosen by the counters, and has been updated at most `n`
    times. -/
structure Counted (counter : α → Int) (n : Nat) (t : TwoCopies α) : Prop where
  order : t.active = true ↔ counter t.block0 < counter t.block1
  nonneg : 0 ≤ counter t.current
  le : counter t.current ≤ n

theorem nextCounter_eq {n : Int} (hnonneg : 0 ≤ n) (hlt : n < 32767) : nextCounter n = n + 1 := by
  unfold nextCounter
  omega

theorem Counted.update {counter : α → Int} {n : Nat} {t : TwoCopies α} (h : t.Counted counter n)
    (hn : n < 32767) {a : α} (ha : counter a = nextCounter (counter t.current)) :
    (t.update a).Counted counter (n + 1) := by
  have hnonneg := h.nonneg
  have hle := h.le
  rw [nextCounter_eq hnonneg (by omega)] at ha
  refine ⟨?_, by rw [current_update, ha]; omega, by rw [current_update, ha]; omega⟩
  unfold TwoCopies.update TwoCopies.current at *
  cases hactive : t.active with
  | true =>
    simp only [hactive, if_true] at ha ⊢
    constructor
    · intro hfalse
      cases hfalse
    · intro hlt
      omega
  | false =>
    simp only [hactive, Bool.false_eq_true, if_false] at ha ⊢
    exact iff_of_true trivial (by omega)

theorem Counted.map {counter : α → Int} {n : Nat} {t : TwoCopies α} (h : t.Counted counter n)
    {f : α → α} (hf : ∀ a, counter (f a) = counter a) : (t.map f).Counted counter n := by
  refine ⟨?_, by rw [current_map, hf]; exact h.nonneg, by rw [current_map, hf]; exact h.le⟩
  simp only [TwoCopies.map, hf]
  exact h.order

theorem Counted.mono {counter : α → Int} {n k : Nat} {t : TwoCopies α} (h : t.Counted counter n)
    (hle : n ≤ k) : t.Counted counter k :=
  ⟨h.order, h.nonneg, h.le.trans (Int.ofNat_le.2 hle)⟩

end TwoCopies

/-! ### The checks of a card that is opened -/

theorem countP_cardMap (b : BlockAlloc) {n : Nat} (hn : n ≤ 4091) :
    (b.map.toList.take n).countP (· != 0) + (b.freeSet (n + 5)).card = n := by
  induction n with
  | zero => simp [BlockAlloc.freeSet]
  | succ n ih =>
    have hlength : n < b.map.toList.length := by
      rw [Vector.length_toList]
      omega
    have hvalue : b.map.toList[n] = b.value (n + 5) := by
      rw [BlockAlloc.value, Nat.add_sub_cancel, List.getD_eq_getElem?_getD,
        List.getElem?_eq_getElem hlength]
      rfl
    have hico : Finset.Ico 5 (n + 1 + 5) = insert (n + 5) (Finset.Ico 5 (n + 5)) := by
      ext x
      simp only [Finset.mem_Ico, Finset.mem_insert]
      omega
    have hnot : n + 5 ∉ b.freeSet (n + 5) := fun hmem =>
      Nat.lt_irrefl _ (BlockAlloc.mem_freeSet.1 hmem).1.2
    have ih := ih (by omega)
    rw [List.take_succ_eq_append_getElem hlength, List.countP_append, hvalue]
    by_cases hzero : b.value (n + 5) = 0
    · have hfree : b.freeSet (n + 1 + 5) = insert (n + 5) (b.freeSet (n + 5)) := by
        rw [BlockAlloc.freeSet, hico, Finset.filter_insert, if_pos hzero]
        rfl
      rw [hfree, Finset.card_insert_of_notMem hnot, hzero]
      simp
      omega
    · have hfree : b.freeSet (n + 1 + 5) = b.freeSet (n + 5) := by
        rw [BlockAlloc.freeSet, hico, Finset.filter_insert, if_neg hzero]
        rfl
      rw [hfree]
      simp [hzero]
      omega

theorem chainMatches_iff {b : BlockAlloc} {n first : Nat} :
    chainMatches b n first = true ↔ ∃ l, b.Chain first l 0xFFFF ∧ l.length = n ∧ n ≠ 0 := by
  induction n generalizing first with
  | zero => exact iff_of_false (by simp [chainMatches]) fun ⟨_, _, _, hne⟩ => hne rfl
  | succ n ih =>
    unfold chainMatches
    dsimp only
    by_cases hzero : b.getNextBlock first = 0
    · rw [if_pos hzero]
      refine iff_of_false Bool.false_ne_true fun ⟨l, hchain, hlength, _⟩ => ?_
      cases hchain with
      | nil => cases hlength
      | cons hnot hrest =>
        rw [hzero] at hrest
        cases hrest with
        | cons hnot' => exact hnot' (.inr rfl)
    rw [if_neg hzero]
    have hrange := BlockAlloc.range_of_getNextBlock hzero
    have hnot : ¬BlockAlloc.IsEnd first := by
      unfold BlockAlloc.IsEnd
      omega
    by_cases hlast : b.getNextBlock first = 0xFFFF
    · rw [if_pos hlast]
      have hone : b.Chain first [first] 0xFFFF := .cons hnot (hlast ▸ .nil (.inl hlast))
      constructor
      · intro hn
        exact ⟨[first], hone, by simpa using (beq_iff_eq.1 hn), Nat.succ_ne_zero n⟩
      · rintro ⟨l, hchain, hlength, -⟩
        have heq := (hchain.unique hone).1
        rw [heq] at hlength
        simpa using hlength.symm
    · rw [if_neg hlast, ih]
      constructor
      · rintro ⟨l, hchain, hlength, -⟩
        exact ⟨first :: l, .cons hnot hchain, by rw [List.length_cons, hlength],
          Nat.succ_ne_zero n⟩
      · rintro ⟨l, hchain, hlength, -⟩
        cases hchain with
        | nil => cases hlength
        | @cons _ l _ _ hrest =>
          refine ⟨l, hrest, by simpa using hlength, fun hn => ?_⟩
          have hnil : l = [] := List.length_eq_zero_iff.1 (by simpa [hn] using hlength)
          rw [hnil] at hrest
          exact hlast hrest.eq_of_nil

/-! ### The chains of the files -/

/-- An entry that is not in use is filled with 0xFF, or counts no blocks. -/
def Spare (e : DEntry) : Prop :=
  e.firstBlock = 0xFFFF ∧ e.blockCount = 0xFFFF ∨
    e.blockCount = 0 ∧ 5 ≤ e.firstBlock ∧ e.firstBlock ≠ 0xFFFF

/-- The files' chains, which have all the blocks in use between them. -/
structure Linked (d : Directory) (b : BlockAlloc) (size : Nat) (chains : Nat → List Nat) : Prop where
  chain : ∀ i < dirlen, (d.entry i).inUse = true →
    b.Chain (d.entry i).firstBlock (chains i) 0xFFFF
  length : ∀ i < dirlen, (d.entry i).inUse = true → (chains i).length = (d.entry i).blockCount
  count : ∀ i < dirlen, (d.entry i).inUse = true → (d.entry i).blockCount ≠ 0
  card : ∀ i < dirlen, (d.entry i).inUse = true → ∀ x ∈ chains i, 5 ≤ x ∧ x < size
  disjoint : ∀ i < dirlen, ∀ j < dirlen, i ≠ j → (d.entry i).inUse = true →
    (d.entry j).inUse = true → ∀ x ∈ chains i, x ∉ chains j
  covered : ∀ x, 5 ≤ x → x < 4096 → b.value x ≠ 0 →
    ∃ i < dirlen, (d.entry i).inUse = true ∧ x ∈ chains i
  spare : ∀ i < dirlen, (d.entry i).inUse = false → Spare (d.entry i)

namespace Linked
variable {d : Directory} {b : BlockAlloc} {size : Nat} {chains : Nat → List Nat}

theorem value_ne_zero (h : Linked d b size chains) {i : Nat} (hi : i < dirlen)
    (huse : (d.entry i).inUse = true) : ∀ x ∈ chains i, b.value x ≠ 0 :=
  BlockAlloc.value_ne_zero_of_chain (h.chain i hi huse)

theorem chain_congr (h : Linked d b size chains) {i : Nat} (hi : i < dirlen)
    (huse : (d.entry i).inUse = true) {b' : BlockAlloc}
    (hsame : ∀ x ∈ chains i, 5 ≤ x → b'.value x = b.value x) :
    b'.Chain (d.entry i).firstBlock (chains i) 0xFFFF :=
  (h.chain i hi huse).congr fun x hx => BlockAlloc.getNextBlock_congr (hsame x hx)

theorem length_le (h : Linked d b size chains) {i : Nat} (hi : i < dirlen)
    (huse : (d.entry i).inUse = true) : (chains i).length ≤ size :=
  BlockAlloc.length_chain_le (h.chain i hi huse) (h.card i hi huse)

theorem exists_chain (h : Linked d b size chains) (x : Nat) :
    ∃ l last, b.Chain x l last ∧ l.length ≤ max 1 size := by
  by_cases hend : BlockAlloc.IsEnd x
  · exact ⟨[], x, .nil hend, Nat.zero_le _⟩
  by_cases hzero : b.getNextBlock x = 0
  · refine ⟨[x], 0, .cons hend ?_, Nat.le_max_left ..⟩
    rw [hzero]
    exact .nil (.inr rfl)
  have hrange := BlockAlloc.range_of_getNextBlock hzero
  rw [b.getNextBlock_eq hrange] at hzero
  obtain ⟨i, hi, huse, hmem⟩ := h.covered x hrange.1 (by omega) hzero
  obtain ⟨l, hsuffix, hchain⟩ := (h.chain i hi huse).exists_from x hmem
  have hlength := hsuffix.length_le
  have hsize := h.length_le hi huse
  exact ⟨l, 0xFFFF, hchain, by omega⟩

theorem not_removable_of_spare {e : DEntry} (h : Spare e) {l : List Nat} {last : Nat}
    (hchain : b.Chain e.firstBlock l last) : ¬Removable e l last := by
  rintro ⟨rfl, hlength⟩
  rcases h with ⟨hfirst, hcount⟩ | ⟨hcount, hfive, hne⟩
  · rw [hfirst] at hchain
    rw [(hchain.unique (.nil (.inl rfl))).1, hcount] at hlength
    cases hlength
  · rw [hcount] at hlength
    rw [List.length_eq_zero_iff.1 hlength] at hchain
    exact hne hchain.eq_of_nil

theorem insert (h : Linked d b size chains) {d' : Directory} {b' : BlockAlloc} {e : DEntry}
    {k : Nat} {chain : List Nat} (hk : (d.entry k).inUse = false)
    (hentry : ∀ i, d'.entry i = if i = k then e else d.entry i)
    (hfree : ∀ x ∈ chain, x ∈ b.freeSet size)
    (hvalue : ∀ x, 5 ≤ x → x ∉ chain → b'.value x = b.value x)
    (hlength : chain.length = e.blockCount) (hindex : k < dirlen)
    (hchain : e.inUse = true → e.blockCount ≠ 0 ∧ b'.Chain e.firstBlock chain 0xFFFF)
    (hspare : e.inUse = false → Spare e ∧ e.blockCount = 0) :
    Linked d' b' size (Function.update chains k chain) := by
  -- the blocks of the other files have not been free
  have hapart : ∀ i < dirlen, (d.entry i).inUse = true → ∀ x ∈ chains i, x ∉ chain := by
    intro i hi huse x hx hmem
    exact h.value_ne_zero hi huse x hx (BlockAlloc.mem_freeSet.1 (hfree x hmem)).2
  have hother : ∀ i, i ≠ k → d'.entry i = d.entry i ∧ Function.update chains k chain i = chains i :=
    fun i hne => ⟨by rw [hentry, if_neg hne], Function.update_of_ne hne _ _⟩
  have hnew : d'.entry k = e := by rw [hentry, if_pos rfl]
  have hself : Function.update chains k chain k = chain := Function.update_self ..
  refine ⟨fun i hi huse => ?_, fun i hi huse => ?_, fun i hi huse => ?_, fun i hi huse => ?_,
    fun i hi j hj hne huse huse' => ?_, fun x hfive hlt hused => ?_, fun i hi hspare' => ?_⟩
  · by_cases hik : i = k
    · subst hik
      rw [hself]
      rw [hnew] at huse ⊢
      exact (hchain huse).2
    · obtain ⟨heq, hchains⟩ := hother i hik
      rw [heq] at huse ⊢
      rw [hchains]
      exact h.chain_congr hi huse fun x hx hfive => hvalue x hfive (hapart i hi huse x hx)
  · by_cases hik : i = k
    · subst hik
      rw [hself, hnew, hlength]
    · obtain ⟨heq, hchains⟩ := hother i hik
      rw [heq] at huse ⊢
      rw [hchains]
      exact h.length i hi huse
  · by_cases hik : i = k
    · subst hik
      rw [hnew] at huse ⊢
      exact (hchain huse).1
    · rw [(hother i hik).1] at huse ⊢
      exact h.count i hi huse
  · by_cases hik : i = k
    · subst hik
      rw [hself]
      exact fun x hx => (BlockAlloc.mem_freeSet.1 (hfree x hx)).1
    · obtain ⟨heq, hchains⟩ := hother i hik
      rw [heq] at huse
      rw [hchains]
      exact h.card i hi huse
  · by_cases hik : i = k
    · subst hik
      obtain ⟨heq, hchains⟩ := hother j (Ne.symm hne)
      rw [heq] at huse'
      rw [hself, hchains]
      exact fun x hx hmem => hapart j hj huse' x hmem hx
    · obtain ⟨heq, hchains⟩ := hother i hik
      rw [heq] at huse
      rw [hchains]
      by_cases hjk : j = k
      · subst hjk
        rw [hself]
        exact hapart i hi huse
      · obtain ⟨heq', hchains'⟩ := hother j hjk
        rw [heq'] at huse'
        rw [hchains']
        exact h.disjoint i hi j hj hne huse huse'
  · by_cases hx : x ∈ chain
    · refine ⟨k, hindex, ?_, by rwa [hself]⟩
      rw [hnew]
      -- an entry that is not in use has no chain
      cases huse : e.inUse with
      | true => rfl
      | false =>
        rw [(hspare huse).2] at hlength
        rw [List.length_eq_zero_iff.1 hlength] at hx
        exact absurd hx List.not_mem_nil
    · rw [hvalue x hfive hx] at hused
      obtain ⟨i, hi, huse, hmem⟩ := h.covered x hfive hlt hused
      have hik : i ≠ k := by
        rintro rfl
        rw [hk] at huse
        cases huse
      obtain ⟨heq, hchains⟩ := hother i hik
      exact ⟨i, hi, by rwa [heq], by rwa [hchains]⟩
  · by_cases hik : i = k
    · subst hik
      rw [hnew] at hspare' ⊢
      exact (hspare hspare').1
    · rw [(hother i hik).1] at hspare' ⊢
      exact h.spare i hi hspare'

theorem spare_empty : Spare .empty := .inl ⟨DEntry.firstBlock_empty, DEntry.blockCount_empty⟩

theorem erase (h : Linked d b size chains) {d' : Directory} {b' : BlockAlloc} {k : Nat}
    (hindex : k < dirlen) (hk : (d.entry k).inUse = true)
    (hentry : ∀ i, d'.entry i = if i = k then .empty else d.entry i)
    (hvalue : ∀ x, 5 ≤ x → b'.value x = if x ∈ chains k then 0 else b.value x) :
    Linked d' b' size chains := by
  have hother : ∀ i, (d'.entry i).inUse = true → i ≠ k ∧ d'.entry i = d.entry i := by
    intro i huse
    by_cases hik : i = k
    · rw [hentry, if_pos hik, DEntry.inUse_empty] at huse
      cases huse
    · exact ⟨hik, by rw [hentry, if_neg hik]⟩
  refine ⟨fun i hi huse => ?_, fun i hi huse => ?_, fun i hi huse => ?_, fun i hi huse => ?_,
    fun i hi j hj hne huse huse' => ?_, fun x hfive hlt hused => ?_, fun i hi hspare => ?_⟩
  · obtain ⟨hik, heq⟩ := hother i huse
    rw [heq] at huse ⊢
    refine h.chain_congr hi huse fun x hx hfive => ?_
    rw [hvalue x hfive, if_neg (h.disjoint i hi k hindex hik huse hk x hx)]
  · obtain ⟨-, heq⟩ := hother i huse
    rw [heq] at huse ⊢
    exact h.length i hi huse
  · obtain ⟨-, heq⟩ := hother i huse
    rw [heq] at huse ⊢
    exact h.count i hi huse
  · obtain ⟨-, heq⟩ := hother i huse
    rw [heq] at huse
    exact h.card i hi huse
  · rw [(hother i huse).2] at huse
    rw [(hother j huse').2] at huse'
    exact h.disjoint i hi j hj hne huse huse'
  · rw [hvalue x hfive] at hused
    by_cases hx : x ∈ chains k
    · rw [if_pos hx] at hused
      exact absurd rfl hused
    · rw [if_neg hx] at hused
      obtain ⟨i, hi, huse, hmem⟩ := h.covered x hfive hlt hused
      have hik : i ≠ k := by
        rintro rfl
        exact hx hmem
      exact ⟨i, hi, by rwa [hentry, if_neg hik], hmem⟩
  · by_cases hik : i = k
    · rw [hentry, if_pos hik]
      exact spare_empty
    · rw [hentry, if_neg hik] at hspare ⊢
      exact h.spare i hi hspare

end Linked

end DolphinXR.GCMemcard
