import DolphinXR.DiscIO.HashGroup

/- The integrity check of a block of a Wii partition (`VolumeWii::CheckBlockIntegrity`,
   DiscIO/VolumeWii.cpp) and its decryption. A group that `EncryptGroup` has written passes
   the check in every block, in whatever order its tasks have run, and decrypts to the data
   it was made of. -/
namespace DolphinXR.DiscIO
open Lib

/-- With decryption: the context of a key, an initial vector and data. -/
structure Cipher extends Crypto where
  decrypt : Bytes → Bytes → Bytes → Bytes

/-- What is relied on: the sizes, and that AES-CBC decryption undoes encryption. -/
structure Cipher.Lawful (c : Cipher) : Prop where
  length_sha1 : ∀ data, (c.sha1 data).length = 20
  length_crypt : ∀ key iv data, (c.crypt key iv data).length = data.length
  decrypt_crypt : ∀ key iv data, key.length = 16 → iv.length = 16 → 16 ∣ data.length →
    c.decrypt key iv (c.crypt key iv data) = data

namespace VolumeWii

section Check
variable (c : Cipher)

def decryptBlockHashes (key data : Bytes) : Bytes :=
  c.decrypt key (zeroes 16) (slice data 0 blockHeaderSize)

def decryptBlockData (key data : Bytes) : Bytes :=
  c.decrypt key (slice data 0x3d0 16) (slice data blockHeaderSize blockDataSize)

/-- The hash block and the data of a block on the disc. -/
def blockParts (hasEncryption : Bool) (details : PartitionDetails) (data : Bytes) :
    Option (Bytes × Bytes) :=
  if hasEncryption then
    details.key.map fun key => (decryptBlockHashes c key data, decryptBlockData c key data)
  else some (slice data 0 blockHeaderSize, slice data blockHeaderSize blockDataSize)

/-- The comparisons of the four levels, with the tables where they lie in a `HashBlock`. -/
def checkHashes (blockIndex : Nat) (h3Table hashes clusterData : Bytes) : Bool :=
  ((List.range 31).all fun i =>
    c.sha1 (slice clusterData (i * 0x400) 0x400) == slice hashes (i * 20) 20) &&
  c.sha1 (slice hashes 0 620) == slice hashes (640 + blockIndex % 8 * 20) 20 &&
  c.sha1 (slice hashes 640 160) == slice hashes (832 + blockIndex / 8 % 8 * 20) 20 &&
  c.sha1 (slice hashes 832 160) == slice h3Table (blockIndex / 64 * 20) 20

/-- `CheckBlockIntegrity`, for the details of the partition if the volume has it. -/
def checkBlockIntegrity (hasEncryption : Bool) (partition : Option PartitionDetails)
    (blockIndex : Nat) (data : Bytes) : Bool :=
  match partition with
  | none => false
  | some details =>
    if details.h3Table.length ≤ blockIndex / blocksPerGroup * 20 then false
    else match blockParts c hasEncryption details data with
      | none => false
      | some (hashes, clusterData) =>
        checkHashes c blockIndex details.h3Table hashes clusterData

end Check

section Integrity
variable {c : Cipher} (hc : c.Lawful)
include hc

theorem length_h0 (block : Bytes) : (h0 c.toCrypto block).length = 620 :=
  length_flatMap_range (fun _ => hc.length_sha1 _) 31

theorem length_h1 (blocks : List Bytes) (base : Nat) :
    (h1 c.toCrypto blocks base).length = 160 :=
  length_flatMap_range (fun _ => hc.length_sha1 _) 8

theorem length_h2 (blocks : List Bytes) : (h2 c.toCrypto blocks).length = 160 :=
  length_flatMap_range (fun _ => hc.length_sha1 _) 8

theorem slice_h0 (block : Bytes) {j : Nat} (hj : j < 31) :
    slice (h0 c.toCrypto block) (j * 20) 20 = c.sha1 (slice block (j * 0x400) 0x400) :=
  slice_flatMap_range (f := fun j => c.sha1 (slice block (j * 0x400) 0x400))
    (fun _ => hc.length_sha1 _) hj

theorem slice_h1 (blocks : List Bytes) (base : Nat) {j : Nat} (hj : j < 8) :
    slice (h1 c.toCrypto blocks base) (j * 20) 20 =
      c.sha1 (h0 c.toCrypto (blocks.getD (base + j) [])) :=
  slice_flatMap_range (f := fun j => c.sha1 (h0 c.toCrypto (blocks.getD (base + j) [])))
    (fun _ => hc.length_sha1 _) hj

theorem slice_h2 (blocks : List Bytes) {j : Nat} (hj : j < 8) :
    slice (h2 c.toCrypto blocks) (j * 20) 20 = c.sha1 (h1 c.toCrypto blocks (8 * j)) :=
  slice_flatMap_range (f := fun j => c.sha1 (h1 c.toCrypto blocks (8 * j)))
    (fun _ => hc.length_sha1 _) hj

/-- A `HashBlock` made of its tables. -/
def hashBytes (t0 t1 t2 : Bytes) : Bytes :=
  t0 ++ zeroes 20 ++ t1 ++ zeroes 32 ++ t2 ++ zeroes 32

omit hc in
theorem slice_hashBytes_h0 {t0 t1 t2 : Bytes} (h0 : t0.length = 620) {off len : Nat}
    (h : off + len ≤ 620) : slice (hashBytes t0 t1 t2) off len = slice t0 off len := by
  unfold hashBytes
  simp only [List.append_assoc]
  exact slice_append_left _ (by omega)

omit hc in
theorem slice_hashBytes_h1 {t0 t1 t2 : Bytes} (h0 : t0.length = 620) (h1 : t1.length = 160)
    {off len : Nat} (h : off + len ≤ 160) :
    slice (hashBytes t0 t1 t2) (640 + off) len = slice t1 off len := by
  have hlen : (t0 ++ zeroes 20).length = 640 := by simp [zeroes, h0]
  have hmid := slice_middle_of_le (t0 ++ zeroes 20) (zeroes 32 ++ t2 ++ zeroes 32)
    (show off + len ≤ t1.length by omega)
  rw [hlen] at hmid
  simpa only [hashBytes, List.append_assoc] using hmid

omit hc in
theorem slice_hashBytes_h2 {t0 t1 t2 : Bytes} (h0 : t0.length = 620) (h1 : t1.length = 160)
    (h2 : t2.length = 160) {off len : Nat} (h : off + len ≤ 160) :
    slice (hashBytes t0 t1 t2) (832 + off) len = slice t2 off len := by
  have hlen : (t0 ++ zeroes 20 ++ t1 ++ zeroes 32).length = 832 := by simp [zeroes, h0, h1]
  have hmid := slice_middle_of_le (t0 ++ zeroes 20 ++ t1 ++ zeroes 32) (zeroes 32)
    (show off + len ≤ t2.length by omega)
  rw [hlen] at hmid
  simpa only [hashBytes, List.append_assoc] using hmid

theorem decrypt_encryptBlock {key hashes block : Bytes} (hkey : key.length = 16)
    (hhashes : hashes.length = blockHeaderSize) (hblock : block.length = blockDataSize) :
    decryptBlockHashes c key (encryptBlock c.toCrypto key hashes block) = hashes ∧
      decryptBlockData c key (encryptBlock c.toCrypto key hashes block) = block := by
  have hheader : (c.crypt key (zeroes 16) hashes).length = blockHeaderSize := by
    rw [hc.length_crypt, hhashes]
  have hiv : (slice (c.crypt key (zeroes 16) hashes) 0x3d0 16).length = 16 :=
    length_slice (by rw [hheader]; decide)
  unfold decryptBlockHashes decryptBlockData encryptBlock
  constructor
  · have hslice := slice_middle [] (c.crypt key (zeroes 16) hashes)
      (c.crypt key (slice (c.crypt key (zeroes 16) hashes) 0x3d0 16) block)
    rw [hheader] at hslice
    simp only [List.nil_append, List.length_nil] at hslice
    rw [hslice]
    exact hc.decrypt_crypt _ _ _ hkey (by simp [zeroes]) (hhashes ▸ by decide)
  · have hslice := slice_middle (c.crypt key (zeroes 16) hashes)
      (c.crypt key (slice (c.crypt key (zeroes 16) hashes) 0x3d0 16) block) []
    rw [hheader, hc.length_crypt, hblock, List.append_nil] at hslice
    rw [hslice, slice_append_left _ (by rw [hheader]; decide)]
    exact hc.decrypt_crypt _ _ _ hkey hiv (hblock ▸ by decide)

theorem checkHashes_hashBlocks {blocks : List Bytes} {g i : Nat} (hi : i < blocksPerGroup)
    {h3Table : Bytes} (hentry : slice h3Table (g * 20) 20 = c.sha1 (h2 c.toCrypto blocks)) :
    checkHashes c (g * blocksPerGroup + i) h3Table ((hashBlocks c.toCrypto blocks).getD i [])
      (blocks.getD i []) = true := by
  have hi : i < 64 := hi
  have hlen0 := length_h0 hc (blocks.getD i [])
  have hlen1 := length_h1 hc blocks (i / 8 * 8)
  have hlen2 := length_h2 hc blocks
  -- Where the block stands in its subgroup and in its group.
  have hmod : (g * blocksPerGroup + i) % 8 = i % 8 := by unfold blocksPerGroup; omega
  have hsubgroup : (g * blocksPerGroup + i) / 8 % 8 = i / 8 := by unfold blocksPerGroup; omega
  have hgroup : (g * blocksPerGroup + i) / 64 = g := by unfold blocksPerGroup; omega
  have hbase : i / 8 * 8 + i % 8 = i := by omega
  -- What is read of each table is a digest of it or the whole table.
  have hread0 : ∀ off len, off + len ≤ 620 →
      slice (hashBytes _ (h1 c.toCrypto blocks (i / 8 * 8)) (h2 c.toCrypto blocks)) off len = _ :=
    fun off len => slice_hashBytes_h0 hlen0
  have hread1 : ∀ off len, off + len ≤ 160 →
      slice (hashBytes _ _ (h2 c.toCrypto blocks)) (640 + off) len = _ :=
    fun off len => slice_hashBytes_h1 hlen0 hlen1
  have hread2 : ∀ off len, off + len ≤ 160 → slice (hashBytes _ _ _) (832 + off) len = _ :=
    fun off len => slice_hashBytes_h2 hlen0 hlen1 hlen2
  have hall : ∀ {t : Bytes} {n : Nat}, t.length = n → slice t 0 n = t := fun h => by
    simp [slice, List.take_of_length_le (Nat.le_of_eq h)]
  rw [hashBlocks_getD hi]
  change checkHashes c _ _ (hashBytes _ _ _) _ = true
  unfold checkHashes
  rw [hmod, hsubgroup, hgroup, hentry]
  simp only [Bool.and_eq_true, List.all_eq_true, beq_iff_eq]
  refine ⟨⟨⟨fun j hj => ?_, ?_⟩, ?_⟩, ?_⟩
  · have hj := List.mem_range.1 hj
    exact (slice_h0 hc _ hj).symm.trans (hread0 (j * 20) 20 (by omega)).symm
  · rw [hread0 0 620 (by omega), hread1 (i % 8 * 20) 20 (by omega), hall hlen0,
      slice_h1 hc _ _ (by omega), hbase]
  · rw [hread1 0 160 (by omega), hread2 (i / 8 * 20) 20 (by omega), hall hlen1,
      slice_h2 hc _ (by omega), Nat.mul_comm]
  · rw [hread2 0 160 (by omega), hall hlen2]

/-- A group that `EncryptGroup` has written, in whatever order its tasks have run: every block
    passes the check if the H3 table has the digest of the group's H2 table, and decrypts to
    the data. -/
theorem encryptGroup_integrity {key : Bytes} (hkey : key.length = 16) {blocks : List Bytes}
    (hblocks : blocks.length = blocksPerGroup)
    (hsize : ∀ block ∈ blocks, block.length = blockDataSize) {s : TaskState HashLoc Bytes}
    (hhash : (hashGroup c.toCrypto blocks fun _ => true).Reachable s)
    (hhashed : Tasks.Finished s (blocksPerGroup - 1)) {threads : Nat} (hthreads : 0 < threads)
    {out : Nat → Bytes} {t : TaskState Nat Bytes}
    (hencrypt : (encryptTasks c.toCrypto key
      ((List.range blocksPerGroup).map (hashBlock s.mem)) blocks threads out).Reachable t)
    (hencrypted : ∀ i < threads, Tasks.Finished t i) {details : PartitionDetails}
    (hdetails : details.key = some key) {g : Nat}
    (hentry : slice details.h3Table (g * 20) 20 = c.sha1 (digests s.mem 8 (.h2 0))) {i : Nat}
    (hi : i < blocksPerGroup) :
    checkBlockIntegrity c true (some details) (g * blocksPerGroup + i) (t.mem i) = true ∧
      decryptBlockData c key (t.mem i) = blocks.getD i [] := by
  have hblock : (blocks.getD i []).length = blockDataSize := by
    rw [List.getD_eq_getElem?_getD, List.getElem?_eq_getElem (hblocks ▸ hi)]
    exact hsize _ (List.getElem_mem _)
  have hlen : ((hashBlocks c.toCrypto blocks).getD i []).length = blockHeaderSize := by
    rw [hashBlocks_getD hi]
    simp [zeroes, length_h0 hc, length_h1 hc, length_h2 hc, blockHeaderSize]
  have hmem : t.mem i = encryptBlock c.toCrypto key ((hashBlocks c.toCrypto blocks).getD i [])
      (blocks.getD i []) := by
    rw [encryptTasks_mem hencrypt hthreads hencrypted hi, hashGroup_blocks hhash hhashed]
  have htable : digests s.mem 8 (.h2 0) = h2 c.toCrypto blocks :=
    hashGroup_h2 hhash hhashed (by decide)
  obtain ⟨hdecryptHashes, hdecryptData⟩ := decrypt_encryptBlock hc hkey hlen hblock
  refine ⟨?_, by rw [hmem, hdecryptData]⟩
  have hfits : ¬details.h3Table.length ≤ (g * blocksPerGroup + i) / blocksPerGroup * 20 := by
    have hslice := congrArg List.length hentry
    rw [hc.length_sha1] at hslice
    simp only [slice, List.length_take, List.length_drop] at hslice
    have hdiv : (g * blocksPerGroup + i) / blocksPerGroup = g := by
      rw [Nat.mul_comm, Nat.mul_add_div (by decide), Nat.div_eq_of_lt hi, Nat.add_zero]
    rw [hdiv]
    omega
  rw [htable] at hentry
  simp only [checkBlockIntegrity, if_neg hfits, blockParts, if_true, hdetails,
    Option.map_some, hmem, hdecryptHashes, hdecryptData]
  exact checkHashes_hashBlocks hc hi hentry

end Integrity

/-- Cipher block chaining, where a byte is changed with the key and with what the byte 16 places
    before it has become: the key and the register turn with the bytes. -/
def chain : Bytes → Bytes → Bytes → Bytes
  | _, _, [] => []
  | key, register, b :: data =>
    let x := b ^^^ (key.headD 0 ^^^ register.headD 0)
    x :: chain (key.rotate 1) (register.tail ++ [x]) data

def unchain : Bytes → Bytes → Bytes → Bytes
  | _, _, [] => []
  | key, register, x :: data =>
    (x ^^^ (key.headD 0 ^^^ register.headD 0)) ::
      unchain (key.rotate 1) (register.tail ++ [x]) data

theorem length_chain (key register data : Bytes) :
    (chain key register data).length = data.length := by
  induction data generalizing key register with
  | nil => rfl
  | cons b data ih => exact congrArg (· + 1) (ih _ _)

theorem unchain_chain (key register data : Bytes) :
    unchain key register (chain key register data) = data := by
  induction data generalizing key register with
  | nil => rfl
  | cons b data ih =>
    rw [chain, unchain, ih, UInt8.xor_assoc, UInt8.xor_self, UInt8.xor_zero]

/-- With a digest that depends on the place of every byte. -/
def chainCipher : Cipher where
  sha1 data := be 20 (data.foldl (fun n b => n * 257 + b.toNat + 1) 0)
  crypt := chain
  decrypt := unchain

theorem chainCipher_lawful : chainCipher.Lawful where
  length_sha1 _ := length_be ..
  length_crypt := length_chain
  decrypt_crypt _ _ _ _ _ _ := unchain_chain ..

/-- Block `i` of the group is filled with `i`. -/
def countedBlocks : List Bytes :=
  (List.range blocksPerGroup).map fun i => List.replicate blockDataSize (UInt8.ofNat i)

def countedKey : Bytes := (List.range 16).map UInt8.ofNat

def countedPartition : PartitionDetails :=
  ⟨0, some countedKey, zeroes 20 ++ chainCipher.sha1 (h2 chainCipher.toCrypto countedBlocks), rfl⟩

/-- A group of 64 different blocks, hashed by 64 tasks and written by four. -/
theorem countedGroup_integrity : ∃ (s : TaskState HashLoc Bytes) (t : TaskState Nat Bytes),
    Tasks.Finished s (blocksPerGroup - 1) ∧ (∀ i < 4, Tasks.Finished t i) ∧
      ∀ i < blocksPerGroup,
        checkBlockIntegrity chainCipher true (some countedPartition) (blocksPerGroup + i) (t.mem i) =
            true ∧
          decryptBlockData chainCipher countedKey (t.mem i) =
            List.replicate blockDataSize (UInt8.ofNat i) := by
  have hhashInit : (hashGroup chainCipher.toCrypto countedBlocks fun _ => true).Reachable _ :=
    .init rfl
  obtain ⟨s, hs, hhashed⟩ := hashGroup_exists_finished _ hhashInit
  have hencryptInit : (encryptTasks chainCipher.toCrypto countedKey
      ((List.range blocksPerGroup).map (hashBlock s.mem)) countedBlocks 4 fun _ => []).Reachable _ :=
    .init rfl
  obtain ⟨t, ht, hencrypted⟩ := encryptTasks_exists_finished hencryptInit
  have hlast : Tasks.Finished s (blocksPerGroup - 1) := hhashed 63 (by decide)
  have hdata : ∀ block ∈ countedBlocks, block.length = blockDataSize := by
    intro block hblock
    obtain ⟨i, -, rfl⟩ := List.mem_map.1 hblock
    exact List.length_replicate
  have hentry : slice countedPartition.h3Table (1 * 20) 20 =
      chainCipher.sha1 (digests s.mem 8 (.h2 0)) := by
    have hlen := chainCipher_lawful.length_sha1 (h2 chainCipher.toCrypto countedBlocks)
    rw [hashGroup_h2 hs hlast (by decide), countedPartition,
      slice_append_right _ _ (by simp [zeroes])]
    exact List.take_of_length_le hlen.le
  refine ⟨s, t, hlast, hencrypted, fun i hi => ?_⟩
  have h := encryptGroup_integrity chainCipher_lawful (by decide) (by simp [countedBlocks]) hdata hs
    hlast (by decide) ht hencrypted rfl hentry hi
  rw [Nat.one_mul] at h
  refine ⟨h.1, h.2.trans ?_⟩
  simp [countedBlocks, hi]

end VolumeWii
end DolphinXR.DiscIO
