import DolphinXR.DiscIO.VolumeWii
import DolphinXR.Lib.Tasks

/- The asynchronous tasks of `VolumeWii::HashGroup` and `VolumeWii::EncryptGroup`
   (DiscIO/VolumeWii.cpp).

   `HashGroup` launches one task for each of the 64 blocks. Task `i` writes the H0
   table of its block and one digest of the H1 table of its subgroup, which is
   gathered in the first block of the subgroup; the last task of a subgroup waits
   for the others, copies the H1 table and writes one digest of the H2 table, which
   is gathered in block 0; task 63 waits for the last task of every other subgroup
   and copies the H2 table. A step of a task computes or copies one digest. The
   tasks of `EncryptGroup` each encrypt a range of the blocks.

   For every order of the steps, the hash blocks are those of `hashBlocks` and the
   group is that of `encryptBlocks`. -/
namespace DolphinXR.DiscIO
open Lib

namespace VolumeWii
variable (crypto : Crypto)

/-- The parts of a `HashBlock` that are written at once, for an array of them. -/
inductive HashLoc where
  | h0 (block index : Nat)
  | padding0 (block : Nat)
  | h1 (block index : Nat)
  | padding1 (block : Nat)
  | h2 (block index : Nat)
  | padding2 (block : Nat)
  deriving DecidableEq

/-- `unencrypted_hashes` as `EncryptGroup` makes it: zero bytes. -/
def noHashes : HashLoc → Bytes
  | .padding1 _ => zeroes 32
  | .padding2 _ => zeroes 32
  | _ => zeroes 20

/-- The table of `n` digests that lie at the locations. -/
def digests (m : HashLoc → Bytes) (n : Nat) (loc : Nat → HashLoc) : Bytes :=
  (List.range n).flatMap fun j => m (loc j)

/-- A `HashBlock` as the bytes of the struct. -/
def hashBlock (m : HashLoc → Bytes) (i : Nat) : Bytes :=
  digests m 31 (.h0 i) ++ m (.padding0 i) ++ digests m 8 (.h1 i) ++ m (.padding1 i) ++
    digests m 8 (.h2 i) ++ m (.padding2 i)

section HashTask
variable (blocks : List Bytes) (i : Nat)

def h1Base : Nat := i / 8 * 8

def h0Writes : List (Instr HashLoc Bytes) :=
  (List.range 31).map fun j =>
    .write (.h0 i j) fun _ => crypto.sha1 (slice (blocks.getD i []) (j * 0x400) 0x400)

def h1Write : List (Instr HashLoc Bytes) :=
  [.write (.padding0 i) fun _ => zeroes 20,
   .write (.h1 (h1Base i) (i - h1Base i)) fun m => crypto.sha1 (digests m 31 (.h0 i))]

def h1Waits : List (Instr HashLoc Bytes) :=
  ((List.range 7).map fun j => h1Base i + j).map .wait

def h1Copies : List (Instr HashLoc Bytes) :=
  (.write (.padding1 (h1Base i)) fun _ => zeroes 32) ::
    ((List.range 7).flatMap fun j => (List.range 8).map fun k => (j + 1, k)).map fun x =>
      .write (.h1 (h1Base i + x.1) x.2) fun m => m (.h1 (h1Base i) x.2)

def h2Write : List (Instr HashLoc Bytes) :=
  [.write (.h2 0 (h1Base i / 8)) fun m => crypto.sha1 (digests m 8 (.h1 i))]

def h2Waits : List (Instr HashLoc Bytes) := ((List.range 7).map fun j => j * 8 + 7).map .wait

def h2Copies : List (Instr HashLoc Bytes) :=
  (.write (.padding2 0) fun _ => zeroes 32) ::
    ((List.range (blocksPerGroup - 1)).flatMap fun j =>
      (List.range 8).map fun k => (j + 1, k)).map fun x =>
        .write (.h2 x.1 x.2) fun m => m (.h2 0 x.2)

/-- The function that task `i` runs; `success` is what it has captured. -/
def hashTask (success : Bool) : List (Instr HashLoc Bytes) :=
  (if success then h0Writes crypto blocks i ++ h1Write crypto i else []) ++
    if i % 8 = 7 then
      h1Waits i ++ (if success then h1Copies i ++ h2Write crypto i else []) ++
        if i = blocksPerGroup - 1 then h2Waits ++ if success then h2Copies else [] else []
    else []

end HashTask

/-- `HashGroup` on blocks that the read function has put in place, up to the first block for
    which it has failed. The caller goes on when task 63 has come to its end. -/
def hashGroup (blocks : List Bytes) (read : Nat → Bool) :
    System (TaskState HashLoc Bytes) TaskAction :=
  Tasks.system blocksPerGroup
    (fun i => hashTask crypto blocks i ((List.range (i + 1)).all read)) noHashes

/-! ### The result of `HashGroup` -/

/-- What the parts of the hash blocks come to be. -/
def hashValue (blocks : List Bytes) : HashLoc → Bytes
  | .h0 i j => crypto.sha1 (slice (blocks.getD i []) (j * 0x400) 0x400)
  | .h1 i j => crypto.sha1 (h0 crypto (blocks.getD (h1Base i + j) []))
  | .h2 _ j => crypto.sha1 (h1 crypto blocks (8 * j))
  | l => noHashes l

def blockDigests (i : Nat) : Set HashLoc :=
  {l | (∃ j < 31, l = .h0 i j) ∨ l = .h1 (h1Base i) (i % 8)}

/-- The digests that are there when the last task of a subgroup has come to its end. -/
def subgroupDigests (i : Nat) : Set HashLoc :=
  {l | (∃ a j, a / 8 = i / 8 ∧ j < 31 ∧ l = .h0 a j) ∨
    (∃ a j, a / 8 = i / 8 ∧ j < 8 ∧ l = .h1 a j) ∨ l = .h2 0 (i / 8)}

/-- The digests that are there when the last task of the group has come to its end. -/
def groupDigests : Set HashLoc :=
  {l | ∃ a < blocksPerGroup, (∃ j < 31, l = .h0 a j) ∨ ∃ j < 8, l = .h1 a j ∨ l = .h2 a j}

def taskDigests (i : Nat) : Set HashLoc :=
  {l | l ∈ blockDigests i ∨ i % 8 = 7 ∧ l ∈ subgroupDigests i ∨
    i = blocksPerGroup - 1 ∧ l ∈ groupDigests}

section Result
variable {crypto} {blocks : List Bytes} {done settled : Set HashLoc}
variable {rest : List (Instr HashLoc Bytes)} {i : Nat}

theorem digests_congr {m : HashLoc → Bytes} (m' : HashLoc → Bytes) {n : Nat} {loc : Nat → HashLoc}
    (h : ∀ j < n, m (loc j) = m' (loc j)) : digests m n loc = digests m' n loc :=
  List.flatMap_congr fun j hj => h j (List.mem_range.1 hj)

theorem digests_of_agreesOn {m : HashLoc → Bytes} {n : Nat} (loc : Nat → HashLoc)
    (hm : Tasks.AgreesOn (hashValue crypto blocks) settled m) (h : ∀ j < n, loc j ∈ settled) :
    digests m n loc = digests (hashValue crypto blocks) n loc :=
  digests_congr (hashValue crypto blocks) fun j hj => hm _ (h j hj)

theorem computes_block
    (hrest : Tasks.Computes (hashValue crypto blocks) taskDigests done
      (settled ∪ blockDigests i) rest) :
    Tasks.Computes (hashValue crypto blocks) taskDigests done settled
      (h0Writes crypto blocks i ++ (h1Write crypto i ++ rest)) := by
  have hmod : i - h1Base i = i % 8 := by
    unfold h1Base
    omega
  unfold h0Writes h1Write
  refine Tasks.Computes.writes (fun j _ m _ => rfl) ⟨fun m _ => rfl, fun m hm => ?_, ?_⟩
  · have hbase : h1Base (h1Base i) + (i - h1Base i) = i := by
      unfold h1Base
      omega
    have htable : digests m 31 (.h0 i) = h0 crypto (blocks.getD i []) :=
      digests_of_agreesOn (.h0 i) hm fun j hj => .inr (.inr ⟨j, List.mem_range.2 hj, rfl⟩)
    simp only [htable, hashValue, hbase]
  · refine hrest.mono ?_
    rintro l (hl | ⟨j, hj, rfl⟩ | rfl)
    · exact .inr (.inr (.inl hl))
    · exact .inr (.inr (.inr ⟨j, List.mem_range.2 hj, rfl⟩))
    · exact .inl (by rw [hmod])

theorem h1Base_add {k : Nat} (h : k < 8) : h1Base (h1Base i + k) = h1Base i := by
  unfold h1Base
  omega

theorem computes_subgroup (hlast : i % 8 = 7)
    (hrest : Tasks.Computes (hashValue crypto blocks) taskDigests done
      (settled ∪ blockDigests i ∪ subgroupDigests i) rest) :
    Tasks.Computes (hashValue crypto blocks) taskDigests done (settled ∪ blockDigests i)
      (h1Waits i ++ (h1Copies i ++ (h2Write crypto i ++ rest))) := by
  have hi : h1Base i + 7 = i := by
    unfold h1Base
    omega
  -- Each block of the subgroup has been waited for, or is the task's own.
  have hblock : ∀ k < 8, blockDigests (h1Base i + k) ⊆ settled ∪ blockDigests i ∪
      {l | ∃ j ∈ (List.range 7).map fun j => h1Base i + j, l ∈ taskDigests j} := by
    intro k hk l hl
    by_cases h7 : k = 7
    · subst h7
      rw [hi] at hl
      exact .inl (.inr hl)
    · exact .inr ⟨h1Base i + k, List.mem_map.2 ⟨k, List.mem_range.2 (by omega), rfl⟩, .inl hl⟩
  have hfirst : ∀ k < 8, .h1 (h1Base i) k ∈ settled ∪ blockDigests i ∪
      {l | ∃ j ∈ (List.range 7).map fun j => h1Base i + j, l ∈ taskDigests j} := by
    intro k hk
    refine hblock k hk (.inr ?_)
    rw [h1Base_add hk]
    congr 1
    unfold h1Base
    omega
  unfold h1Waits h1Copies
  refine Tasks.Computes.waits ⟨fun m _ => rfl, Tasks.Computes.writes ?_ ⟨fun m hm => ?_, ?_⟩⟩
  · rintro ⟨a, k⟩ hx m hm
    obtain ⟨j, hj, hk⟩ := List.mem_flatMap.1 hx
    obtain ⟨k, hk, heq⟩ := List.mem_map.1 hk
    cases heq
    have hj := List.mem_range.1 hj
    have hk := List.mem_range.1 hk
    rw [hm _ (.inr (hfirst k hk))]
    simp only [hashValue]
    rw [h1Base_add (by omega), show h1Base (h1Base i) = h1Base i from h1Base_add (k := 0) (by omega)]
  · have htable : digests m 8 (.h1 i) = h1 crypto blocks (h1Base i) := by
      refine digests_of_agreesOn (.h1 i) hm fun k hk => .inr ?_
      refine ⟨(7, k), ?_, by rw [hi]⟩
      exact List.mem_flatMap.2 ⟨6, List.mem_range.2 (by omega),
        List.mem_map.2 ⟨k, List.mem_range.2 hk, rfl⟩⟩
    have hbase : h1Base i = 8 * (h1Base i / 8) := by
      unfold h1Base
      omega
    simp only [htable, hashValue, ← hbase]
  · refine hrest.mono ?_
    rintro l (hl | ⟨a, j, ha, hj, rfl⟩ | ⟨a, k, ha, hk, rfl⟩ | rfl)
    · exact .inr (.inl (.inr (.inl hl)))
    · refine .inr (.inl (.inr (hblock (a % 8) (by omega) (.inl ⟨j, hj, ?_⟩))))
      congr 1
      unfold h1Base
      omega
    · by_cases hfirstBlock : a = h1Base i
      · subst hfirstBlock
        exact .inr (.inl (.inr (hfirst k hk)))
      · refine .inr (.inr ⟨(a % 8, k), ?_, ?_⟩)
        · refine List.mem_flatMap.2 ⟨a % 8 - 1, List.mem_range.2 (by omega),
            List.mem_map.2 ⟨k, List.mem_range.2 hk, ?_⟩⟩
          congr 1
          unfold h1Base at hfirstBlock
          omega
        · congr 1
          unfold h1Base
          omega
    · refine .inl ?_
      congr 1
      unfold h1Base
      omega

theorem computes_group (hlast : i = blocksPerGroup - 1)
    (hrest : Tasks.Computes (hashValue crypto blocks) taskDigests done
      (settled ∪ subgroupDigests i ∪ groupDigests) rest) :
    Tasks.Computes (hashValue crypto blocks) taskDigests done
      (settled ∪ subgroupDigests i) (h2Waits ++ (h2Copies ++ rest)) := by
  subst hlast
  have hsubgroup : ∀ k < 8, subgroupDigests (k * 8 + 7) ⊆
      settled ∪ subgroupDigests (blocksPerGroup - 1) ∪
        {l | ∃ j ∈ (List.range 7).map fun j => j * 8 + 7, l ∈ taskDigests j} := by
    intro k hk l hl
    by_cases h7 : k = 7
    · subst h7
      exact .inl (.inr hl)
    · exact .inr ⟨k * 8 + 7, List.mem_map.2 ⟨k, List.mem_range.2 (by omega), rfl⟩,
        .inr (.inl ⟨by omega, hl⟩)⟩
  have hfirst : ∀ k < 8, .h2 0 k ∈ settled ∪ subgroupDigests (blocksPerGroup - 1) ∪
        {l | ∃ j ∈ (List.range 7).map fun j => j * 8 + 7, l ∈ taskDigests j} := by
    intro k hk
    refine hsubgroup k hk (.inr (.inr ?_))
    congr 1
    omega
  unfold h2Waits h2Copies
  refine Tasks.Computes.waits ⟨fun m _ => rfl, Tasks.Computes.writes ?_ (hrest.mono ?_)⟩
  · rintro ⟨a, k⟩ hx m hm
    obtain ⟨j, -, hk⟩ := List.mem_flatMap.1 hx
    obtain ⟨k, hk, heq⟩ := List.mem_map.1 hk
    cases heq
    rw [hm _ (.inr (hfirst k (List.mem_range.1 hk)))]
    rfl
  · rintro l (hl | ⟨a, (ha : a < 64), ⟨j, hj, rfl⟩ | ⟨k, hk, rfl | rfl⟩⟩)
    · exact .inl (.inr (.inl hl))
    · refine .inl (.inr (hsubgroup (a / 8) (by omega) (.inl ⟨a, j, by omega, hj, rfl⟩)))
    · refine .inl (.inr (hsubgroup (a / 8) (by omega) (.inr (.inl ⟨a, k, by omega, hk, rfl⟩))))
    · by_cases h0 : a = 0
      · subst h0
        exact .inl (.inr (hfirst k hk))
      · refine .inr ⟨(a, k), ?_, rfl⟩
        refine List.mem_flatMap.2 ⟨a - 1, List.mem_range.2 (by unfold blocksPerGroup; omega),
          List.mem_map.2 ⟨k, List.mem_range.2 hk, ?_⟩⟩
        congr 1
        omega

theorem computes_hashTask (i : Nat) :
    Tasks.Computes (hashValue crypto blocks) taskDigests (taskDigests i) ∅
      (hashTask crypto blocks i true) := by
  unfold hashTask
  simp only [if_true, List.append_assoc]
  refine computes_block ?_
  split
  case isFalse hlast =>
    rintro l (hl | ⟨hlast', -⟩ | ⟨rfl, -⟩)
    · exact .inr hl
    · exact absurd hlast' hlast
    · exact absurd rfl hlast
  case isTrue hlast =>
    refine computes_subgroup hlast ?_
    split
    case isFalse hne =>
      rintro l (hl | ⟨-, hl⟩ | ⟨heq, -⟩)
      · exact .inl (.inr hl)
      · exact .inr hl
      · exact absurd heq hne
    case isTrue heq =>
      rw [← List.append_nil h2Copies]
      refine computes_group heq ?_
      rintro l (hl | ⟨-, hl⟩ | ⟨-, hl⟩)
      · exact .inl (.inl (.inr hl))
      · exact .inl (.inr hl)
      · exact .inr hl

theorem hashBlocks_getD (hi : i < blocksPerGroup) : (hashBlocks crypto blocks).getD i [] =
    h0 crypto (blocks.getD i []) ++ zeroes 20 ++ h1 crypto blocks (i / 8 * 8) ++ zeroes 32 ++
      h2 crypto blocks ++ zeroes 32 := by
  rw [hashBlocks, List.getD_eq_getElem?_getD, List.getElem?_map, List.getElem?_range hi]
  rfl

section Finished
variable {s : TaskState HashLoc Bytes} (h : (hashGroup crypto blocks fun _ => true).Reachable s)
variable (hfinished : Tasks.Finished s (blocksPerGroup - 1))
include h hfinished

theorem hashGroup_value (l : HashLoc) (hl : l ∈ groupDigests ∨ hashValue crypto blocks l = noHashes l) :
    s.mem l = hashValue crypto blocks l := by
  have hprog : ∀ k, Tasks.Computes (hashValue crypto blocks) taskDigests (taskDigests k) ∅
      (hashTask crypto blocks k ((List.range (k + 1)).all fun _ => true)) := by
    intro k
    rw [show (List.range (k + 1)).all (fun _ => true) = true by simp]
    exact computes_hashTask k
  rcases hl with hdigest | hpadding
  · exact Tasks.Reachable.mem_of_finished hprog h hfinished (.inr (.inr ⟨rfl, hdigest⟩))
  · exact (Tasks.Reachable.mem_or hprog h l).elim id fun heq => heq.trans hpadding.symm

theorem hashGroup_h2 (hi : i < blocksPerGroup) : digests s.mem 8 (.h2 i) = h2 crypto blocks :=
  digests_congr (hashValue crypto blocks) fun j hj =>
    hashGroup_value h hfinished _ (.inl ⟨i, hi, .inr ⟨j, hj, .inr rfl⟩⟩)

theorem hashGroup_mem (hi : i < blocksPerGroup) :
    hashBlock s.mem i = (hashBlocks crypto blocks).getD i [] := by
  have hvalue := hashGroup_value h hfinished
  have h0table : digests s.mem 31 (.h0 i) = h0 crypto (blocks.getD i []) :=
    digests_congr (hashValue crypto blocks) fun j hj => hvalue _ (.inl ⟨i, hi, .inl ⟨j, hj, rfl⟩⟩)
  have h1table : digests s.mem 8 (.h1 i) = h1 crypto blocks (i / 8 * 8) :=
    digests_congr (hashValue crypto blocks) fun j hj =>
      hvalue _ (.inl ⟨i, hi, .inr ⟨j, hj, .inl rfl⟩⟩)
  unfold hashBlock
  rw [h0table, h1table, hashGroup_h2 h hfinished hi, hvalue (.padding0 i) (.inr rfl),
    hvalue (.padding1 i) (.inr rfl), hvalue (.padding2 i) (.inr rfl), hashBlocks_getD hi]
  rfl

theorem hashGroup_blocks :
    (List.range blocksPerGroup).map (hashBlock s.mem) = hashBlocks crypto blocks := by
  apply List.ext_getElem
  · simp [hashBlocks]
  · intro i hi hi'
    have hlt : i < blocksPerGroup := by simpa using hi
    rw [List.getElem_map, List.getElem_range, hashGroup_mem h hfinished hlt,
      List.getD_eq_getElem?_getD, List.getElem?_eq_getElem hi', Option.getD_some]

end Finished

theorem hashGroup_exists_finished (read : Nat → Bool) {s : TaskState HashLoc Bytes}
    (h : (hashGroup crypto blocks read).Reachable s) :
    ∃ s', (hashGroup crypto blocks read).Reachable s' ∧
      ∀ i < blocksPerGroup, Tasks.Finished s' i := by
  refine Tasks.Reachable.exists_finished (fun i j hj => ?_) h
  generalize (List.range (i + 1)).all read = success at hj
  unfold hashTask at hj
  rcases List.mem_append.1 hj with hj | hj
  · cases success <;> simp [h0Writes, h1Write] at hj
  · split at hj
    case isFalse => cases hj
    case isTrue hlast =>
      rcases List.mem_append.1 hj with hj | hj
      · rcases List.mem_append.1 hj with hj | hj
        · obtain ⟨k, hk, heq⟩ := List.mem_map.1 hj
          obtain ⟨a, ha, rfl⟩ := List.mem_map.1 hk
          cases heq
          have ha := List.mem_range.1 ha
          unfold h1Base
          omega
        · cases success <;> simp [h1Copies, h2Write] at hj
      · split at hj
        case isFalse => cases hj
        case isTrue heq =>
          rcases List.mem_append.1 hj with hj | hj
          · obtain ⟨k, hk, hwait⟩ := List.mem_map.1 hj
            obtain ⟨a, ha, rfl⟩ := List.mem_map.1 hk
            cases hwait
            have ha := List.mem_range.1 ha
            unfold blocksPerGroup at heq
            omega
          · cases success <;> simp [h2Copies] at hj

end Result

/-! ### The tasks of `EncryptGroup` -/

section EncryptTask
variable (key : Bytes) (hashes blocks : List Bytes) (threads : Nat)

/-- The encrypted blocks of the range of task `i`. -/
def encryptTask (i : Nat) : List (Instr Nat Bytes) :=
  let start := i * blocksPerGroup / threads
  let stop := (i + 1) * blocksPerGroup / threads
  (List.range' start (stop - start)).map fun j =>
    .write j fun _ => encryptBlock crypto key (hashes.getD j []) (blocks.getD j [])

/-- The second half of `EncryptGroup`, which writes the blocks of `out`. It is over when all
    tasks have come to their ends. -/
def encryptTasks (out : Nat → Bytes) : System (TaskState Nat Bytes) TaskAction :=
  Tasks.system threads (encryptTask crypto key hashes blocks threads) out

variable {crypto} {key} {hashes} {blocks} {threads}

theorem computes_encryptTask (i : Nat) :
    Tasks.Computes (fun j => encryptBlock crypto key (hashes.getD j []) (blocks.getD j []))
      (fun i => {j | i * blocksPerGroup / threads ≤ j ∧ j < (i + 1) * blocksPerGroup / threads})
      {j | i * blocksPerGroup / threads ≤ j ∧ j < (i + 1) * blocksPerGroup / threads} ∅
      (encryptTask crypto key hashes blocks threads i) := by
  unfold encryptTask
  rw [← List.append_nil (List.map _ _)]
  refine Tasks.Computes.writes (fun j _ m _ => rfl) ?_
  rintro j ⟨hle, hlt⟩
  exact .inr ⟨j, List.mem_range'_1.2 ⟨hle, by omega⟩, rfl⟩

theorem exists_encryptTask (hthreads : 0 < threads) {j : Nat} (hj : j < blocksPerGroup) :
    ∃ i < threads,
      i * blocksPerGroup / threads ≤ j ∧ j < (i + 1) * blocksPerGroup / threads := by
  have hcover : ∀ k ≤ threads, j < k * blocksPerGroup / threads → ∃ i < k,
      i * blocksPerGroup / threads ≤ j ∧ j < (i + 1) * blocksPerGroup / threads := by
    intro k
    induction k with
    | zero => simp
    | succ k ih =>
      intro hk hlt
      by_cases hle : k * blocksPerGroup / threads ≤ j
      · exact ⟨k, Nat.lt_succ_self k, hle, hlt⟩
      · obtain ⟨i, hi, hrange⟩ := ih (by omega) (by omega)
        exact ⟨i, by omega, hrange⟩
  refine hcover threads (Nat.le_refl _) ?_
  rw [Nat.mul_div_cancel_left _ hthreads]
  exact hj

theorem encryptTasks_mem {out : Nat → Bytes} {s : TaskState Nat Bytes}
    (h : (encryptTasks crypto key hashes blocks threads out).Reachable s)
    (hthreads : 0 < threads) (hfinished : ∀ i < threads, Tasks.Finished s i) {j : Nat}
    (hj : j < blocksPerGroup) :
    s.mem j = encryptBlock crypto key (hashes.getD j []) (blocks.getD j []) := by
  obtain ⟨i, hi, hrange⟩ := exists_encryptTask hthreads hj
  exact Tasks.Reachable.mem_of_finished computes_encryptTask h (hfinished i hi) hrange

theorem encryptTasks_exists_finished {out : Nat → Bytes} {s : TaskState Nat Bytes}
    (h : (encryptTasks crypto key hashes blocks threads out).Reachable s) :
    ∃ s', (encryptTasks crypto key hashes blocks threads out).Reachable s' ∧
      ∀ i < threads, Tasks.Finished s' i := by
  refine Tasks.Reachable.exists_finished (fun i j hj => ?_) h
  obtain ⟨_, -, heq⟩ := List.mem_map.1 hj
  cases heq

end EncryptTask

end VolumeWii
end DolphinXR.DiscIO
