import DolphinXR.Core.GCMemcardSession

/- The accesses to a card that has been opened. `Open` follows the chains of the entries in
   use only, and does not look whether their blocks are on the card. Where they are, and no
   entry has a chain that never ends, every read is in range and every chain ends, as long
   as nothing is removed that is not on the card and no PSO system file is imported without
   its second block. -/
namespace DolphinXR.GCMemcard
open Lib

/-! ### Reading -/

theorem dataBlock_eq {c : Card} {block : Nat} (h : onCard c block = true) :
    ∃ b, dataBlock c.dataBlocks block = .ok b := by
  rw [onCard, Bool.and_eq_true, decide_eq_true_iff, decide_eq_true_iff] at h
  obtain ⟨hfirst, hlast⟩ := h
  have hindex : block - mcFstBlocks < c.dataBlocks.length := by omega
  refine ⟨c.dataBlocks[block - mcFstBlocks], ?_⟩
  rw [dataBlock, if_neg (Nat.not_lt.2 hfirst), List.getElem?_eq_getElem hindex]

theorem onCard_of_skipBlocks {c : Card} {block offset : Nat} (h : onCard c block = true)
    {r : Nat × Nat} (hskip : skipBlocks c block offset = some r) : onCard c r.1 = true := by
  fun_induction skipBlocks c block offset with
  | case1 block offset _ next hnext ih => exact ih hnext hskip
  | case2 => cases hskip
  | case3 =>
    cases hskip
    exact h

theorem copyBlocks_ok {c : Card} {block : Nat} (offset remaining : Nat)
    (h : onCard c block = true) : ∃ r, copyBlocks c block offset remaining = .ok r := by
  fun_induction copyBlocks c block offset remaining with
  | case1 block offset remaining e herror =>
    obtain ⟨b, hb⟩ := dataBlock_eq h
    rw [herror] at hb
    cases hb
  | case2 =>
    rename_i hnext e herror ih
    obtain ⟨r, hr⟩ := ih hnext
    rw [herror] at hr
    cases hr
  | _ => exact ⟨_, rfl⟩

theorem getSaveDataBytes_ok (c : Card) (saveIndex offset length : Nat) :
    ∃ r, getSaveDataBytes c saveIndex offset length = .ok r := by
  unfold getSaveDataBytes
  split
  · exact ⟨none, rfl⟩
  dsimp only
  split
  · exact ⟨none, rfl⟩
  rename_i hentry
  have hfirst : onCard c (c.entry saveIndex).firstBlock = true := by
    by_contra hoff
    exact hentry (.inr hoff)
  split
  · exact ⟨none, rfl⟩
  cases hskip : skipBlocks c (c.entry saveIndex).firstBlock offset with
  | none => exact ⟨none, rfl⟩
  | some r => exact copyBlocks_ok _ _ (onCard_of_skipBlocks hfirst hskip)

theorem saveDataLoop_ok {c : Card} {block last : Nat} {l : List Nat}
    (hchain : c.bats.current.Chain block l last) (hon : ∀ x ∈ l, onCard c x = true) (n : Nat) :
    ∃ r, saveDataLoop c n block = .ok r := by
  induction n generalizing block l with
  | zero => exact ⟨some [], rfl⟩
  | succ n ih =>
    unfold saveDataLoop
    cases hchain with
    | nil hend => exact ⟨none, if_pos (Or.symm hend)⟩
    | cons hnot hrest =>
      have hcond : ¬(block = 0 ∨ block = 0xFFFF) := fun h => hnot (Or.symm h)
      obtain ⟨b, hb⟩ := dataBlock_eq (hon block (List.mem_cons_self ..))
      obtain ⟨rest, hrest⟩ := ih hrest fun x hx => hon x (List.mem_cons_of_mem _ hx)
      refine ⟨rest.map (b :: ·), ?_⟩
      simp only [if_neg hcond, hb, hrest, bind, Except.bind]

theorem exportFile_ok {c : Card} {index : Nat}
    (h : index < dirlen → (c.entry index).inUse = true → ∃ l last,
      c.bats.current.Chain (c.entry index).firstBlock l last ∧ ∀ x ∈ l, onCard c x = true) :
    ∃ r, exportFile c index = .ok r := by
  unfold exportFile
  split
  · exact ⟨none, rfl⟩
  rename_i hindex
  split
  · exact ⟨none, rfl⟩
  rename_i huse
  obtain ⟨hvalid, hindex⟩ := not_or.1 hindex
  obtain ⟨l, last, hchain, hon⟩ := h (Nat.not_le.1 hindex) (not_not.1 huse)
  have hdata : ∃ r, getSaveData c index = .ok r := by
    unfold getSaveData
    rw [if_neg hvalid]
    split
    · exact ⟨none, rfl⟩
    rename_i hends
    have hfirst : dEntryFirstBlock c index = (c.entry index).firstBlock := by
      have hne := (not_or.1 hends).1
      unfold dEntryFirstBlock at hne ⊢
      rw [if_neg (not_or.2 ⟨hvalid, hindex⟩)] at hne ⊢
      split at hne
      · exact absurd rfl hne
      · rename_i hle
        rw [if_neg hle]
    rw [hfirst]
    exact saveDataLoop_ok hchain hon _
  obtain ⟨r, hr⟩ := hdata
  exact ⟨r.map fun blocks => ⟨c.entry index, blocks⟩, by simp only [hr, bind, Except.bind]⟩

/-! ### Chains -/

def Traversable (c : Card) : Prop :=
  ∀ i < dirlen, ∃ l last, c.bats.current.Chain (c.entry i).firstBlock l last ∧
    ((c.entry i).inUse = true → ∀ x ∈ l, 5 ≤ x ∧ x < c.sizeBlocks)

theorem onCard_iff {c : Card} (h : c.dataBlocks.length = c.sizeBlocks - 5) {block : Nat} :
    onCard c block = true ↔ 5 ≤ block ∧ block < c.sizeBlocks := by
  rw [onCard, Bool.and_eq_true, decide_eq_true_iff, decide_eq_true_iff, h]
  unfold mcFstBlocks
  omega

theorem length_chain_lt {b : BlockAlloc} {first last : Nat} {l : List Nat}
    (h : b.Chain first l last) : l.length < chainFuel := by
  have hrange : l.dropLast.toFinset ⊆ Finset.Ico 5 4092 := by
    intro x hx
    have hnext := h.next_mem_of_dropLast x (List.mem_toFinset.1 hx)
    have hne : b.getNextBlock x ≠ 0 := fun hzero => h.not_stop _ hnext (.inr hzero)
    have hrange := BlockAlloc.range_of_getNextBlock hne
    rw [Finset.mem_Ico]
    omega
  have hnodup : l.dropLast.Nodup := h.nodup.sublist (List.dropLast_sublist l)
  have hle := Finset.card_le_card hrange
  rw [List.toFinset_card_of_nodup hnodup, List.length_dropLast, Nat.card_Ico] at hle
  unfold chainFuel
  omega

/-- Whether an entry can be removed without harm: if its chain is one that is freed, its blocks are on
    the card. -/
def Freeable (c : Card) (index : Nat) : Prop :=
  ∀ l, c.bats.current.Chain (c.entry index).firstBlock l 0xFFFF →
    l.length = (c.entry index).blockCount → ∀ x ∈ l, x < c.sizeBlocks

theorem chain_imported {c c' : Card} {s : Savefile} {first : Nat} {chain : List Nat}
    {bat : BlockAlloc} (h : Imported c s first chain bat c') {block last : Nat} {l : List Nat}
    (hchain : c.bats.current.Chain block l last) :
    ∃ l' last', c'.bats.current.Chain block l' last' ∧
      ∀ x ∈ l', x ∈ l ∨ (5 ≤ x ∧ x < c.sizeBlocks) := by
  rw [h.current.2]
  -- a block of the new chain has been free, so that walks ended there
  suffices hextend : ∀ x, bat.getNextBlock x = c.bats.current.getNextBlock x ∨
      ∃ l' last', bat.Chain x l' last' ∧ ∀ y ∈ l', 5 ≤ y ∧ y < c.sizeBlocks from
    hchain.exists_of_extend hextend
  intro x
  by_cases hx : x ∈ chain
  · have hcount : s.dirEntry.blockCount ≠ 0 := by
      rw [← h.length]
      exact List.length_pos_iff.2 (List.ne_nil_of_mem hx) |>.ne'
    obtain ⟨l', hsuffix, hwalk⟩ := (h.chain hcount).exists_from x hx
    refine .inr ⟨l', 0xFFFF, hwalk, fun y hy => ?_⟩
    exact (BlockAlloc.mem_freeSet.1 (h.chain_mem y (hsuffix.subset hy))).1
  · exact .inl (BlockAlloc.getNextBlock_congr fun hfive => h.value x hfive hx)

theorem Traversable.imported {c c' : Card} (h : Traversable c) (hsized : Sized c) {s : Savefile}
    {first : Nat} {chain : List Nat} {bat : BlockAlloc} (haccepted : Accepted c s)
    (himported : Imported c s first chain bat c') : Traversable c' := by
  obtain ⟨k, hk, hspare, hentry⟩ := himported.exists_entry hsized.valid haccepted
  obtain ⟨hfive, hzero⟩ := BlockAlloc.mem_freeSet.1 himported.first_mem
  have hrange := hsized.range
  intro i hi
  rw [hentry, himported.sizeBlocks]
  by_cases hik : i = k
  · rw [if_pos hik, firstBlock_importedEntry s (show first < 65536 by omega)]
    by_cases hcount : s.dirEntry.blockCount = 0
    · -- the chain is the free block alone
      have hnil := List.length_eq_zero_iff.1 (himported.length.trans hcount)
      have hnext : c'.bats.current.getNextBlock first = 0 := by
        rw [himported.current.2]
        have hsame : bat.getNextBlock first = c.bats.current.getNextBlock first :=
          BlockAlloc.getNextBlock_congr fun hfive =>
            himported.value first hfive (by rw [hnil]; exact List.not_mem_nil)
        refine hsame.trans ?_
        rw [BlockAlloc.getNextBlock_eq _ (by omega), hzero]
      refine ⟨[first], 0, .cons (by unfold BlockAlloc.IsEnd; omega) ?_, fun _ x hx => ?_⟩
      · rw [hnext]
        exact .nil (.inr rfl)
      · rw [List.mem_singleton.1 hx]
        exact hfive
    · refine ⟨chain, 0xFFFF, ?_, fun _ x hx =>
        (BlockAlloc.mem_freeSet.1 (himported.chain_mem x hx)).1⟩
      rw [himported.current.2]
      exact himported.chain hcount
  · rw [if_neg hik]
    obtain ⟨l, last, hchain, hon⟩ := h i hi
    obtain ⟨l', last', hchain', hmem⟩ := chain_imported himported hchain
    refine ⟨l', last', hchain', fun huse x hx => ?_⟩
    exact (hmem x hx).elim (hon huse x) id

theorem chain_removed {c c' : Card} {index : Nat} {freed : List Nat} {bat : BlockAlloc}
    (h : Removed c index freed bat c') {block last : Nat} {l : List Nat}
    (hchain : c.bats.current.Chain block l last) :
    ∃ l' last', c'.bats.current.Chain block l' last' ∧ l' <+: l := by
  rw [h.current.2]
  suffices hcut : ∀ x, bat.getNextBlock x = c.bats.current.getNextBlock x ∨
      BlockAlloc.IsEnd (bat.getNextBlock x) from hchain.exists_of_cut hcut
  intro x
  by_cases hx : 5 ≤ x ∧ x ∈ freed
  · -- the walk is cut where a block has been freed
    refine .inr (.inr ?_)
    by_cases hrange : 5 ≤ x ∧ x ≤ 4091
    · rw [BlockAlloc.getNextBlock_eq _ hrange, h.value x hrange.1, if_pos hx.2]
    · exact BlockAlloc.getNextBlock_of_not _ hrange
  · refine .inl (BlockAlloc.getNextBlock_congr fun hfive => ?_)
    rw [h.value x hfive, if_neg fun hmem => hx ⟨hfive, hmem⟩]

theorem Traversable.removed {c c' : Card} (h : Traversable c) {index : Nat} (hindex : index < dirlen)
    {freed : List Nat} {bat : BlockAlloc} (hremoved : Removed c index freed bat c') :
    Traversable c' := by
  intro i hi
  rw [hremoved.entry hindex, hremoved.sizeBlocks]
  by_cases hik : i = index
  · rw [if_pos hik, DEntry.firstBlock_empty]
    exact ⟨[], 0xFFFF, .nil (.inl rfl), fun _ x hx => absurd hx List.not_mem_nil⟩
  · rw [if_neg hik]
    obtain ⟨l, last, hchain, hon⟩ := h i hi
    obtain ⟨l', last', hchain', hpre⟩ := chain_removed hremoved hchain
    exact ⟨l', last', hchain', fun huse x hx => hon huse x (hpre.subset hx)⟩

/-! ### Runs -/

inductive Access where
  | getSaveDataBytes (index offset length : Nat)
  | exportFile (index : Nat)
  | importFile (bytes : List UInt8)
  | removeFile (index : Nat)

/-- The card after an access, or the fault. -/
def access (c : Card) : Access → Except Fault Card
  | .getSaveDataBytes index offset length => do
    let _ ← getSaveDataBytes c index offset length
    .ok c
  | .exportFile index => do
    let _ ← exportFile c index
    .ok c
  | .importFile bytes =>
    match readSavefile bytes with
    | .error _ => .ok c
    | .ok file => do
      let r ← importFile c file
      .ok r.2
  | .removeFile index => do
    let r ← removeFile c chainFuel index
    .ok r.2

def accesses (c : Card) : System Card Access where
  init c' := c' = c
  step c a := (access c a).toOption

/-- No entry is removed whose chain is not on the card, and the second block of a PSO system file is
    there. -/
def Harmless (c : Card) : Access → Prop
  | .importFile bytes => ∀ file, readSavefile bytes = .ok file → Accepted c file → file.PsoBlocks
  | .removeFile index => index < dirlen → (c.entry index).inUse = false → Freeable c index
  | _ => True

theorem access_ok {c : Card} (hsized : Sized c) (h : Traversable c) {a : Access}
    (ha : Harmless c a) : ∃ c', access c a = .ok c' ∧ Sized c' ∧ Traversable c' := by
  cases a with
  | getSaveDataBytes index offset length =>
    obtain ⟨r, hr⟩ := getSaveDataBytes_ok c index offset length
    refine ⟨c, ?_, hsized, h⟩
    simp only [access, hr, bind, Except.bind]
  | exportFile index =>
    have hchains : index < dirlen → (c.entry index).inUse = true → ∃ l last,
        c.bats.current.Chain (c.entry index).firstBlock l last ∧ ∀ x ∈ l, onCard c x = true := by
      intro hindex huse
      obtain ⟨l, last, hchain, hon⟩ := h index hindex
      exact ⟨l, last, hchain, fun x hx => (onCard_iff hsized.dataBlocks).2 (hon huse x hx)⟩
    obtain ⟨r, hr⟩ := exportFile_ok hchains
    refine ⟨c, ?_, hsized, h⟩
    simp only [access, hr, bind, Except.bind]
  | importFile bytes =>
    cases hread : readSavefile bytes with
    | error e =>
      refine ⟨c, ?_, hsized, h⟩
      simp only [access, hread]
    | ok file =>
      rcases importFile_spec hsized (blockCount_le_of_readSavefile hread) (ha file hread) with
        ⟨-, r, -, heq⟩ | ⟨haccepted, first, chain, bat, c', heq, himported⟩
      · refine ⟨c, ?_, hsized, h⟩
        simp only [access, hread, heq, bind, Except.bind]
      · refine ⟨c', ?_, hsized.imported himported, h.imported hsized haccepted himported⟩
        simp only [access, hread, heq, bind, Except.bind]
  | removeFile index =>
    by_cases hindex : index < dirlen
    · obtain ⟨l, last, hchain, hon⟩ := h index hindex
      have hfree : Removable (c.entry index) l last → ∀ x ∈ l, 5 ≤ x ∧ x < c.sizeBlocks := by
        rintro ⟨rfl, hlength⟩ x hx
        cases huse : (c.entry index).inUse with
        | true => exact hon huse x hx
        | false =>
          have hrange := BlockAlloc.range_of_getNextBlock (BlockAlloc.getNextBlock_ne_zero hchain x hx)
          exact ⟨hrange.1, ha hindex huse l hchain hlength x hx⟩
      rcases removeFile_spec hsized hindex hchain hfree (length_chain_lt hchain) with
        ⟨-, heq⟩ | ⟨-, bat, c', heq, hremoved⟩
      · refine ⟨c, ?_, hsized, h⟩
        simp only [access, heq, bind, Except.bind]
      · refine ⟨c', ?_, hsized.removed hremoved, h.removed hindex hremoved⟩
        simp only [access, heq, bind, Except.bind]
    · have heq : removeFile c chainFuel index = .ok (.deleteFail, c) := by
        unfold removeFile
        rw [if_neg (not_not.2 hsized.valid), if_pos (Nat.not_lt.1 hindex)]
      refine ⟨c, ?_, hsized, h⟩
      simp only [access, heq, bind, Except.bind]

/-- After harmless accesses to a card that `Open` has returned with traversable chains, each harmless
    access is in range and ends. -/
theorem opened_card_safe {i : Image} {c c' : Card} (hopen : (openCard i).2 = some c)
    (htraversable : Traversable c) (hreach : (accesses c).ReachableBy Harmless c') (a : Access)
    (ha : Harmless c' a) : ∃ c'', access c' a = .ok c'' := by
  have hinvariant : Sized c' ∧ Traversable c' := by
    apply hreach.invariant (P := fun c => Sized c ∧ Traversable c)
    · rintro c rfl
      exact ⟨(openCard_opened hopen).sized, htraversable⟩
    · rintro c a d ⟨hsized, h⟩ ha hstep
      obtain ⟨c'', heq, hkept⟩ := access_ok hsized h ha
      have hd : c'' = d := by
        have hstep' : (access c a).toOption = some d := hstep
        rw [heq] at hstep'
        exact Option.some.inj hstep'
      exact hd ▸ hkept
  obtain ⟨c'', heq, -⟩ := access_ok hinvariant.1 hinvariant.2 ha
  exact ⟨c'', heq⟩

theorem Stored.traversable {c : Card} {n : Nat} (h : Stored c n) : Traversable c := by
  obtain ⟨chains, hlinked⟩ := h.linked
  intro i hi
  cases huse : (c.entry i).inUse with
  | true => exact ⟨chains i, 0xFFFF, hlinked.chain i hi huse, fun _ => hlinked.card i hi huse⟩
  | false =>
    obtain ⟨l, last, hchain, -⟩ := hlinked.exists_chain (c.entry i).firstBlock
    exact ⟨l, last, hchain, fun huse => absurd huse Bool.false_ne_true⟩

theorem Stored.freeable {c : Card} {n index : Nat} (h : Stored c n) (hindex : index < dirlen)
    (huse : (c.entry index).inUse = false) : Freeable c index := by
  obtain ⟨chains, hlinked⟩ := h.linked
  intro l hchain hlength
  exact absurd ⟨rfl, hlength⟩
    (Linked.not_removable_of_spare (hlinked.spare index hindex huse) hchain)

theorem openCard_card59 : (openCard (save (formatCard card59))).2 = some (formatCard card59) :=
  (stored_formatCard (f := card59) (by decide)).openCard_save

/-- A card with two saves: after the first has been removed and the second exported, some of its
    bytes are read and a save is imported. -/
theorem opened_card_safe_twoSaves : ∃ s c c₁ c₂ c₃ c₄,
    sessions.run (formatted card59) twoSaves = some s ∧ (openCard s.file).2 = some c ∧
      access c (.removeFile 0) = .ok c₁ ∧ access c₁ (.exportFile 1) = .ok c₂ ∧
        access c₂ (.getSaveDataBytes 1 0x1F00 0x200) = .ok c₃ ∧
          access c₃ (.importFile (gciFile 0x30 1)) = .ok c₄ := by
  obtain ⟨s, hrun, hs, hreach⟩ := run_twoSaves
  obtain ⟨c', hfile, hstored⟩ := (held_of_reachable hreach (hs ▸ by decide)).2
  have hopen : (openCard s.file).2 = some c' := hfile ▸ hstored.openCard_save
  have hstart : (accesses c').ReachableBy Harmless c' := .init rfl
  have hnext : ∀ {c}, (accesses c').ReachableBy Harmless c → ∀ a, Harmless c a →
      ∃ d, access c a = .ok d ∧ (accesses c').ReachableBy Harmless d := by
    intro c hc a ha
    obtain ⟨d, hd⟩ := opened_card_safe hopen hstored.traversable hc a ha
    exact ⟨d, hd, hc.step ha (show (access c a).toOption = some d by rw [hd]; rfl)⟩
  obtain ⟨c₁, h₁, hreach₁⟩ := hnext hstart (.removeFile 0) fun hindex huse =>
    hstored.freeable hindex huse
  obtain ⟨c₂, h₂, hreach₂⟩ := hnext hreach₁ (.exportFile 1) trivial
  obtain ⟨c₃, h₃, hreach₃⟩ := hnext hreach₂ (.getSaveDataBytes 1 0x1F00 0x200) trivial
  obtain ⟨c₄, h₄, -⟩ := hnext hreach₃ (.importFile (gciFile 0x30 1)) fun file hread _ =>
    (fits_gciFile (.inl ⟨rfl, rfl⟩) hread).2
  exact ⟨s, c', c₁, c₂, c₃, c₄, hrun, hopen, h₁, h₂, h₃, h₄⟩

def psoSave : List UInt8 :=
  List.replicate 8 0 ++ psoName ++ List.replicate 39 0 ++ [1] ++ List.replicate 8198 0

/-- The second block of a PSO system file is changed without a look at how many there are. -/
theorem psoSave_out_of_range :
    ∃ c s, (openCard (save (formatCard card59))).2 = some c ∧ readSavefile psoSave = .ok s ∧
      ∀ r, importFile c s ≠ .ok r := by
  have hread : (readSavefile psoSave).toOption.map
      (fun s => (importFile (formatCard card59) s).toOption.isSome) = some false := by
    decide +kernel
  obtain ⟨s, hs, hfault⟩ := Option.map_eq_some_iff.1 hread
  refine ⟨formatCard card59, s, openCard_card59, ?_, fun r hr => ?_⟩
  · cases hfile : readSavefile psoSave with
    | error e =>
      rw [hfile] at hs
      cases hs
    | ok t =>
      rw [hfile] at hs
      rw [Option.some.inj hs]
  · rw [hr] at hfault
    cases hfault

end DolphinXR.GCMemcard
