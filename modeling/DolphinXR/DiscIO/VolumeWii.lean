import DolphinXR.Lib.Bytes
import DolphinXR.Lib.Outcome

/- The hashing and encryption of a group of 64 Wii blocks (`VolumeWii::HashGroup` and
   `VolumeWii::EncryptGroup`, DiscIO/VolumeWii.cpp). SHA-1 and AES are parameters. The
   futures of the source each write their own part of the output and are waited for,
   so the order in which they run does not matter and the blocks are computed in
   order; the blocks are read in order in the source as well, until a read fails. -/
namespace DolphinXR.DiscIO
open Lib

namespace VolumeWii

def blocksPerGroup : Nat := 0x40
def blockHeaderSize : Nat := 0x400
def blockDataSize : Nat := 0x7c00
def blockTotalSize : Nat := blockHeaderSize + blockDataSize
def groupDataSize : Nat := blockDataSize * blocksPerGroup
def groupTotalSize : Nat := blockTotalSize * blocksPerGroup

end VolumeWii

/-- `SHA1::CalculateDigest`, and AES-CBC with a key, an initial vector and data. -/
structure Crypto where
  sha1 : Bytes → Bytes
  crypt : Bytes → Bytes → Bytes → Bytes

namespace VolumeWii

/-- What is known of a partition: where its data begins on the disc, the key, if there is one,
    and the H3 table. The two offsets that are added up are stored without their last two
    bits. -/
structure PartitionDetails where
  dataOffset : Nat
  key : Option Bytes
  h3Table : Bytes
  aligned : dataOffset % 4 = 0

variable (crypto : Crypto)

def zeroes (n : Nat) : Bytes := List.replicate n 0

/-- The digests of the first 31 KiB of a block, one for each KiB. -/
def h0 (block : Bytes) : Bytes :=
  (List.range 31).flatMap fun j => crypto.sha1 (slice block (j * 0x400) 0x400)

/-- The digests of the `h0` of eight blocks. -/
def h1 (blocks : List Bytes) (base : Nat) : Bytes :=
  (List.range 8).flatMap fun j => crypto.sha1 (h0 crypto (blocks.getD (base + j) []))

/-- The digests of the `h1` of the eight subgroups. -/
def h2 (blocks : List Bytes) : Bytes :=
  (List.range 8).flatMap fun j => crypto.sha1 (h1 crypto blocks (8 * j))

/-- The hash blocks of a group's data blocks. -/
def hashBlocks (blocks : List Bytes) : List Bytes :=
  (List.range blocksPerGroup).map fun i =>
    h0 crypto (blocks.getD i []) ++ zeroes 20 ++ h1 crypto blocks (i / 8 * 8) ++ zeroes 32 ++
      h2 crypto blocks ++ zeroes 32

/-- A hash block and a data block, encrypted: the data with the initial vector that lies in
    the encrypted hash block. -/
def encryptBlock (key hashes block : Bytes) : Bytes :=
  let header := crypto.crypt key (zeroes 16) hashes
  header ++ crypto.crypt key (slice header 0x3d0 16) block

def encryptBlocks (key : Bytes) (hashes blocks : List Bytes) : Bytes :=
  (hashes.zip blocks).flatMap fun x => encryptBlock crypto key x.1 x.2

section Group
variable {σ : Type}

/-- Reading blocks one after the other until one fails. -/
def readBlocks (read : σ → Nat → Outcome Bytes × σ) : List Nat → σ → Outcome (List Bytes) × σ
  | [], s => (.ok [], s)
  | i :: rest, s =>
    andThen (read s i) fun block s =>
      andThen (readBlocks read rest s) fun blocks s => (.ok (block :: blocks), s)

/-- `EncryptGroup`: the group at `offset` in the decrypted data of a partition, which has
    `decryptedSize` bytes; what lies behind them is zero. -/
def encryptGroup (offset decryptedSize : Nat) (key : Bytes)
    (readWiiDecrypted : σ → Nat → Nat → Outcome Bytes × σ)
    (hashExceptionCallback : σ → List Bytes → List Bytes × σ) (s : σ) : Outcome Bytes × σ :=
  let read := fun s block =>
    if offset + (block + 1) * blockDataSize ≤ decryptedSize then
      readWiiDecrypted s (offset + block * blockDataSize) blockDataSize
    else (.ok (zeroes blockDataSize), s)
  andThen (readBlocks read (List.range blocksPerGroup) s) fun blocks s =>
    let (hashes, s) := hashExceptionCallback s (hashBlocks crypto blocks)
    (.ok (encryptBlocks crypto key hashes blocks), s)

end Group
end VolumeWii
end DolphinXR.DiscIO
