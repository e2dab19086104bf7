import DolphinXR.DiscIO.WIAReadProgress

/- When `WIARVZFileReader::Read` terminates. With chunks of some bytes the groups of
   the raw data entries have to reach as far as the entries: the data of a partition
   is never in the way. With a chunk size of 0, which `Initialize` lets pass, no
   read may come to a division by the chunk size: that is any raw data, and the data
   of a partition whose group begins in one of the partition's data entries, all of
   it in an ordinary partition. `Initialize` compares the number of groups with
   nothing, nor the chunk size with 0. -/
namespace DolphinXR.DiscIO
open Lib VolumeWii

/-- Every turn that `Read` can make gets on: whatever the chunks hold and whatever the
    reader has cached. -/
def TurnsGetOn (t : WIATables) : Prop :=
  ∀ (C : Type) (ops : ChunkOps C) (crypto : Crypto) (s : ReaderState C) (cur : Cursor),
    discHeaderSize ≤ cur.offset → cur.size ≠ 0 → cur.offset + cur.size ≤ t.isoFileSize.toNat →
      GetsOn cur (readTurn ops t crypto s cur).1

/-- Every read inside the disc terminates, with true or with false. -/
def ReadTerminates (t : WIATables) : Prop :=
  ∀ (C : Type) (ops : ChunkOps C) (crypto : Crypto) (s : ReaderState C) (offset size : Nat),
    offset + size ≤ t.isoFileSize.toNat →
      ∃ fuel result, readFile ops t crypto fuel s offset size = some result ∧
        result.1 ≠ .undefined

/-- The group that holds an offset in a raw data entry is one of the entry's groups. -/
def RawGroupsReach (t : WIATables) : Prop :=
  ∀ q k i e, discHeaderSize ≤ q → q < t.isoFileSize.toNat →
    t.dataEntries.upperBound q = some (k, .raw i) → t.rawDataEntries[i]? = some e →
      e.dataOffset.toNat ≤ q →
        startGroup (rawRange e) t.chunkSize.toNat blockTotalSize q < e.numberOfGroups.toNat

def noChunks : ChunkOps Unit :=
  { make := fun _ => (), read := fun _ _ _ => (none, ()), hashExceptions := fun _ _ => [] }

def noCrypto : Crypto := { sha1 := fun _ => [], crypt := fun _ _ _ => [] }

def newReader {C : Type} : ReaderState C :=
  { cachedChunk := none, encryptedGroup := none, exceptionList := []
    writeToExceptionList := false, lastGroupIndex := none, hashExceptionError := false }

/-! ### Chunks of no bytes -/

/-- Where a data entry begins and ends in the decrypted data of its partition. -/
def decryptedStart (p : PartitionEntry) (e : PartitionDataEntry) : Nat :=
  (e.firstSector - p.first.firstSector).toNat * blockDataSize

def decryptedEnd (p : PartitionEntry) (e : PartitionDataEntry) : Nat :=
  decryptedStart p e + e.numberOfSectors.toNat * blockDataSize

/-- The first data entry of the partition that ends behind an offset begins there or before. -/
def LooksInChunks (t : WIATables) (partitionDataOffset offset : Nat) : Prop :=
  ∃ p e, getPartition t partitionDataOffset = some p ∧
    (p.dataEntries.find? fun e => decide (offset < decryptedEnd p e)) = some e ∧
      decryptedStart p e ≤ offset

/-- The first byte of decrypted data in the group that an offset of a partition lies in. -/
def groupStart (p : PartitionEntry) (offset : Nat) : Nat :=
  Common.alignDown (sub64 offset p.first.dataOffset) groupTotalSize / groupTotalSize * groupDataSize

def GroupDivides (t : WIATables) (p : PartitionEntry) (offset : Nat) : Prop :=
  groupStart p offset + blockDataSize ≤ (encryptionArguments p).decryptedSize ∧
    LooksInChunks t p.first.dataOffset (groupStart p offset)

/-- What a read at an offset is about divides by the size of the chunks. -/
inductive DividesAt (t : WIATables) (q : Nat) : Prop where
  | raw {k i : Nat} {e : RawDataEntry} (found : t.dataEntries.upperBound q = some (k, .raw i))
      (entry : t.rawDataEntries[i]? = some e) (begins : e.dataOffset.toNat ≤ q)
  | partition {k i j : Nat} {p : PartitionEntry} {e : PartitionDataEntry}
      (found : t.dataEntries.upperBound q = some (k, .partition i j))
      (entry : t.partitionEntries[i]? = some p) (data : p.dataEntries[j]? = some e)
      (begins : e.dataOffset ≤ q) (divides : GroupDivides t p q)

/-- Each byte of the disc is in a chunk, or found not to be in one. -/
structure Readable (t : WIATables) : Prop where
  reach : t.chunkSize ≠ 0 → RawGroupsReach t
  undivided : t.chunkSize = 0 → ∀ q, discHeaderSize ≤ q → q < t.isoFileSize.toNat → ¬ DividesAt t q

section Zero
variable {C : Type} {ops : ChunkOps C} {t : WIATables} {s : ReaderState C} {cur : Cursor}
  {p : PartitionEntry} {e : PartitionDataEntry}

theorem add64_decrypted (p : PartitionEntry) (e : PartitionDataEntry) :
    add64 (decryptedRange p e 0).dataOffset (decryptedRange p e 0).dataSize = decryptedEnd p e := by
  have hfirst := (e.firstSector - p.first.firstSector).toNat_lt
  have hcount := e.numberOfSectors.toNat_lt
  refine add64_of_lt ?_
  simp only [decryptedRange, blockDataSize]
  omega

theorem readDecryptedEntries_zero (hsize : cur.size ≠ 0) (entries : List PartitionDataEntry) :
    readDecryptedEntries ops t p 0 entries s cur =
      match entries.find? fun e => decide (cur.offset < decryptedEnd p e) with
      | none => (.ok cur, s)
      | some e => if cur.offset < decryptedStart p e then (.failed, s) else (.undefined, s) := by
  induction entries with
  | nil => rfl
  | cons e rest ih =>
    rw [readDecryptedEntries, if_neg hsize, readFromGroups, add64_decrypted, List.find?_cons]
    by_cases hpassed : decryptedEnd p e ≤ cur.offset
    · rw [if_pos hpassed, andThen_ok, decide_eq_false (Nat.not_lt.2 hpassed)]
      exact ih
    · rw [if_neg hpassed, decide_eq_true (Nat.lt_of_not_le hpassed), if_pos rfl]
      by_cases hbefore : cur.offset < decryptedStart p e
      · rw [if_pos (show cur.offset < (decryptedRange p e 0).dataOffset from hbefore)]
        simp only [andThen_failed, hbefore, if_true]
      · rw [if_neg (show ¬ cur.offset < (decryptedRange p e 0).dataOffset from hbefore)]
        simp only [andThen_undefined, hbefore, if_false]

theorem decryptedChunkSize_zero (hchunk : t.chunkSize = 0) : decryptedChunkSize t = 0 := by
  rw [decryptedChunkSize, hchunk]
  rfl

variable {partitionDataOffset offset size : Nat}

theorem readWiiDecrypted_failed (hchunk : t.chunkSize = 0) (hsize : size ≠ 0)
    (h : ¬ LooksInChunks t partitionDataOffset offset) :
    readWiiDecrypted ops t partitionDataOffset s offset size = (.failed, s) := by
  unfold readWiiDecrypted
  split
  · rfl
  case h_2 p hp =>
    rw [decryptedChunkSize_zero hchunk, readDecryptedEntries_zero hsize]
    dsimp only
    cases hfind : p.dataEntries.find? fun e => decide (offset < decryptedEnd p e) with
    | none => simp [hsize]
    | some e =>
      have hbefore : offset < decryptedStart p e :=
        Nat.lt_of_not_le fun hle => h ⟨p, e, hp, hfind, hle⟩
      simp [hbefore]

theorem readWiiDecrypted_undefined (ops : ChunkOps C) (hchunk : t.chunkSize = 0) (hsize : size ≠ 0)
    (h : LooksInChunks t partitionDataOffset offset) :
    readWiiDecrypted ops t partitionDataOffset s offset size = (.undefined, s) := by
  obtain ⟨p, e, hp, hfind, hle⟩ := h
  unfold readWiiDecrypted
  rw [hp, decryptedChunkSize_zero hchunk]
  dsimp only
  rw [readDecryptedEntries_zero hsize]
  dsimp only
  rw [hfind]
  simp [Nat.not_lt.2 hle]

theorem range_blocksPerGroup : List.range blocksPerGroup = 0 :: (List.range 0x3f).map (· + 1) := by
  decide

theorem volumeWii_encryptGroup_first {σ : Type} {read : σ → Nat → Nat → Outcome Bytes × σ} {s : σ}
    {decryptedSize : Nat} {o : Outcome Bytes} (hinside : offset + blockDataSize ≤ decryptedSize)
    (hread : read s offset blockDataSize = (o, s)) (ho : ∀ block, o ≠ .ok block) (crypto : Crypto)
    (key : Bytes) (callback : σ → List Bytes → List Bytes × σ) :
    (VolumeWii.encryptGroup crypto offset decryptedSize key read callback s).1 = o := by
  rw [VolumeWii.encryptGroup, range_blocksPerGroup, readBlocks]
  dsimp only
  rw [if_pos (by omega), Nat.zero_mul, Nat.add_zero, hread]
  cases o with
  | ok block => exact absurd rfl (ho block)
  | failed => rfl
  | undefined => rfl

theorem groupDefined_zero (hchunk : t.chunkSize = 0) (crypto : Crypto)
    (h : ¬ GroupDivides t p offset) : GroupDefined ops t crypto p offset := by
  intro s
  refine encryptGroup_defined ?_
  change (VolumeWii.encryptGroup crypto (groupStart p offset) _ _
    (readWiiDecrypted ops t p.first.dataOffset) _ s).1 ≠ .undefined
  by_cases hinside : groupStart p offset + blockDataSize ≤ (encryptionArguments p).decryptedSize
  · rw [volumeWii_encryptGroup_first hinside
      (readWiiDecrypted_failed hchunk (by decide) fun hlooks => h ⟨hinside, hlooks⟩) (by simp)]
    simp
  · have hblocks : ∀ (s : ReaderState C) (block : Nat), groupStart p offset +
        (block + 1) * blockDataSize ≤ (encryptionArguments p).decryptedSize →
          (readWiiDecrypted ops t p.first.dataOffset s
            (groupStart p offset + block * blockDataSize) blockDataSize).1 ≠ .undefined := by
      intro s block hblock
      rw [Nat.add_mul] at hblock
      omega
    exact volumeWii_encryptGroup_defined hblocks _ _ _ _

theorem encryptGroup_miss (ops : ChunkOps C) (crypto : Crypto) (a : EncryptionArguments)
    (hgroup : s.encryptedGroup = none) :
    encryptGroup ops t crypto a offset s = cacheGroup (add64 a.partitionDataOffset offset)
      (VolumeWii.encryptGroup crypto (offset / groupTotalSize * groupDataSize) a.decryptedSize
        a.key (readWiiDecrypted ops t a.partitionDataOffset) hashExceptionCallback s) := by
  rw [encryptGroup, hgroup]

theorem cacheGroup_undefined {offsetOnDisc : Nat} {x : Outcome Bytes × ReaderState C}
    (h : x.1 = .undefined) : (cacheGroup offsetOnDisc x).1 = .undefined := by
  obtain ⟨o, s⟩ := x
  obtain rfl : o = .undefined := h
  rfl

theorem encryptGroup_undefined (ops : ChunkOps C) (hchunk : t.chunkSize = 0) (crypto : Crypto)
    (hgroup : s.encryptedGroup = none) (h : GroupDivides t p offset) :
    (encryptGroup ops t crypto (encryptionArguments p)
      (Common.alignDown (sub64 offset p.first.dataOffset) groupTotalSize) s).1 = .undefined := by
  rw [encryptGroup_miss ops crypto _ hgroup]
  exact cacheGroup_undefined (volumeWii_encryptGroup_first h.1
    (readWiiDecrypted_undefined ops hchunk (by decide) h.2) (by simp) crypto
    (encryptionArguments p).key hashExceptionCallback)

theorem readPartitionData_undefined (ops : ChunkOps C) (hchunk : t.chunkSize = 0) (crypto : Crypto)
    (hgroup : s.encryptedGroup = none) (h : GroupDivides t p cur.offset) :
    (readPartitionData ops t crypto p 1 s cur).1 = .undefined := by
  have hgroups : ∀ s : ReaderState C, s.encryptedGroup = none →
      (encryptGroups ops t crypto (encryptionArguments p) 1
        (sub64 cur.offset p.first.dataOffset) 1 s).1 = .undefined := by
    intro s hs
    have hfirst := encryptGroup_undefined ops hchunk crypto hs h
    rw [encryptGroups, if_neg (by decide)]
    generalize encryptGroup ops t crypto (encryptionArguments p) _ s = x at hfirst ⊢
    obtain ⟨o, s'⟩ := x
    obtain rfl : o = .undefined := hfirst
    rfl
  unfold readPartitionData
  dsimp only
  split
  case h_1 heq =>
    have hok := (congrArg Prod.fst heq).symm.trans (hgroups _ hgroup)
    cases hok
  case h_2 heq =>
    have hfailed := (congrArg Prod.fst heq).symm.trans (hgroups _ hgroup)
    cases hfailed
  case h_3 => rfl

end Zero

section Termination
variable {t : WIATables}

theorem upperBound_partition (h : t.accepted = true) {i j : Nat} {p : PartitionEntry}
    {e : PartitionDataEntry} (hp : t.partitionEntries[i]? = some p)
    (he : p.dataEntries[j]? = some e) (hnonempty : e.numberOfSectors ≠ 0) {q : Nat}
    (hle : e.dataOffset ≤ q) (hlt : q < e.dataOffset + e.dataSize) :
    t.dataEntries.upperBound q = some (e.key, .partition i j) := by
  obtain ⟨k, hfound⟩ :=
    WIATables.upperBound_of_findsItself (WIATables.partition_findsItself h hp he hnonempty)
  obtain ⟨p', e', hp', he', -, hkey, -⟩ := WIATables.partition_of_upperBound hfound
  obtain rfl : p' = p := Option.some.inj (hp'.symm.trans hp)
  obtain rfl : e' = e := Option.some.inj (he'.symm.trans he)
  subst hkey
  refine OrderedMap.upperBound_eq hfound hle ?_
  rw [WIATables.partition_key_eq h hp he hnonempty]
  exact hlt

theorem entriesDefined_of_readable (h : t.accepted = true) (hread : Readable t) {C : Type}
    (ops : ChunkOps C) (crypto : Crypto) {cur : Cursor} (hheader : discHeaderSize ≤ cur.offset)
    (hend : cur.offset + cur.size ≤ t.isoFileSize.toNat) {i : Nat} {p : PartitionEntry}
    (hp : t.partitionEntries[i]? = some p) :
    EntriesDefined ops t crypto p p.dataEntries cur := by
  intro e hmem hnonempty q hstart hbehind hle hlt
  by_cases hchunk : t.chunkSize = 0
  · refine groupDefined_zero hchunk crypto fun hdivides => ?_
    obtain ⟨j, he⟩ := List.getElem?_of_mem hmem
    have hsectors : e.numberOfSectors ≠ 0 := by
      rintro hzero
      exact hnonempty (by rw [PartitionDataEntry.dataSize, hzero]; rfl)
    exact hread.undivided hchunk q (by omega) (by omega)
      (.partition (upperBound_partition h hp he hsectors hstart hbehind) hp he hstart hdivides)
  · exact groupDefined_of_chunkSize ops (decryptedChunkSize_ne_zero h hchunk) crypto p q

theorem turnsGetOn_of_readable (h : t.accepted = true) (hread : Readable t) : TurnsGetOn t := by
  intro C ops crypto s cur hheader hsize hend
  cases hfound : t.dataEntries.upperBound cur.offset with
  | none => simp [readTurn, hfound, GetsOn]
  | some x =>
    obtain ⟨k, entry⟩ := x
    cases entry with
    | partition i j =>
      exact readTurn_partition h crypto hsize hfound fun p hp =>
        entriesDefined_of_readable h hread ops crypto hheader hend hp
    | raw i =>
      obtain ⟨e, he, hnonempty, -, hlt⟩ := WIATables.raw_of_upperBound hfound
      have hraw := WIATables.raw_end_lt h he hnonempty
      rw [WIATables.raw_key_eq h he hnonempty] at hlt
      rw [readTurn_raw crypto hfound he]
      by_cases hchunk : t.chunkSize = 0
      · -- The offset is before the entry, or the turn would divide by zero.
        have hbefore : cur.offset < e.dataOffset.toNat := Nat.lt_of_not_le fun hle =>
          hread.undivided hchunk cur.offset hheader (by omega) (.raw hfound he hle)
        rw [readFromGroups, if_neg (by simp only [rawRange]; rw [add64_of_lt hraw]; omega),
          if_pos (show cur.offset < (rawRange e).dataOffset from hbefore)]
        trivial
      · refine readFromGroups_getsOn (p := rawRange e)
          (fun h0 => hchunk (UInt32.toNat_inj.1 h0)) hraw hlt hsize fun hle => ?_
        exact hread.reach hchunk _ k i e hheader (by omega) hfound he hle

theorem readLoop_terminates (hturns : TurnsGetOn t) {C : Type} (ops : ChunkOps C)
    (crypto : Crypto) : ∀ (fuel : Nat) (s : ReaderState C) (cur : Cursor), cur.size ≤ fuel →
      (cur.size ≠ 0 → discHeaderSize ≤ cur.offset ∧
        cur.offset + cur.size ≤ t.isoFileSize.toNat) →
      ∃ result, readLoop ops t crypto fuel s cur = some result ∧ result.1 ≠ .undefined := by
  intro fuel
  induction fuel with
  | zero =>
    intro s cur hfuel _
    exact ⟨(.ok cur.out, s), by simp [readLoop, Nat.le_zero.1 hfuel], by simp⟩
  | succ fuel ih =>
    intro s cur hfuel hinside
    unfold readLoop
    split
    · exact ⟨_, rfl, by simp⟩
    case isFalse hsize =>
      obtain ⟨hheader, hend⟩ := hinside hsize
      have hgets := hturns C ops crypto s cur hheader hsize hend
      generalize readTurn ops t crypto s cur = turn at hgets ⊢
      obtain ⟨o, s'⟩ := turn
      cases o with
      | ok cur' =>
        obtain ⟨hlt, hsum⟩ := hgets
        exact ih s' cur' (by omega) fun _ => by omega
      | failed => exact ⟨_, rfl, by simp⟩
      | undefined => exact absurd hgets id

theorem readTerminates_of_turnsGetOn (hturns : TurnsGetOn t) : ReadTerminates t := by
  intro C ops crypto s offset size hend
  refine ⟨size, ?_⟩
  have hiso := t.isoFileSize.toNat_lt
  unfold readFile
  rw [if_neg (by rw [add64_of_lt (by omega)]; omega)]
  unfold headerCursor
  split
  case isTrue hlt =>
    refine readLoop_terminates hturns ops crypto size s _ (Nat.sub_le ..) fun hsize => ?_
    simp only [Cursor.write] at hsize ⊢
    omega
  case isFalse hge =>
    exact readLoop_terminates hturns ops crypto size s _ (Nat.le_refl _) fun _ =>
      ⟨Nat.le_of_not_lt hge, hend⟩

theorem readLoop_stuck {C : Type} {ops : ChunkOps C} {crypto : Crypto} {s : ReaderState C}
    {cur : Cursor} (hsize : cur.size ≠ 0) (hturn : readTurn ops t crypto s cur = (.ok cur, s)) :
    ∀ fuel, readLoop ops t crypto fuel s cur = none
  | 0 => by
    unfold readLoop
    rw [if_neg hsize]
  | fuel + 1 => by
    unfold readLoop
    rw [if_neg hsize]
    dsimp only
    rw [hturn]
    exact readLoop_stuck hsize hturn fuel

theorem readFile_stuck (h : t.accepted = true) (hchunk : t.chunkSize ≠ 0) {C : Type}
    (ops : ChunkOps C) (crypto : Crypto) (s : ReaderState C) {q k i : Nat} {e : RawDataEntry}
    (hheader : discHeaderSize ≤ q) (hlt : q < t.isoFileSize.toNat)
    (hfound : t.dataEntries.upperBound q = some (k, .raw i)) (he : t.rawDataEntries[i]? = some e)
    (hle : e.dataOffset.toNat ≤ q)
    (hgroup : e.numberOfGroups.toNat ≤ startGroup (rawRange e) t.chunkSize.toNat blockTotalSize q) :
    readTurn ops t crypto s ⟨q, 1, []⟩ = (.ok ⟨q, 1, []⟩, s) ∧
      ∀ fuel, readFile ops t crypto fuel s q 1 = none := by
  obtain ⟨e', he', hnonempty, -, hend⟩ := WIATables.raw_of_upperBound hfound
  obtain rfl : e' = e := Option.some.inj (he'.symm.trans he)
  rw [WIATables.raw_key_eq h he hnonempty] at hend
  have hturn : readTurn ops t crypto s ⟨q, 1, []⟩ = (.ok ⟨q, 1, []⟩, s) := by
    rw [readTurn_raw crypto hfound he]
    exact readFromGroups_stuck (p := rawRange e') (fun h0 => hchunk (UInt32.toNat_inj.1 h0))
      (WIATables.raw_end_lt h he hnonempty) hle hend hgroup
  refine ⟨hturn, fun fuel => ?_⟩
  have hiso := t.isoFileSize.toNat_lt
  unfold readFile headerCursor
  rw [if_neg (by rw [add64_of_lt (by omega)]; omega), if_neg (by omega)]
  exact readLoop_stuck (by simp) hturn fuel

theorem first_passed (h : t.accepted = true) {i k : Nat} {p : PartitionEntry} {q : Nat}
    (hfound : t.dataEntries.upperBound q = some (k, .partition i 1))
    (hp : t.partitionEntries[i]? = some p) (hsecond : p.second.numberOfSectors ≠ 0)
    (hle : p.second.dataOffset ≤ q) :
    p.first.dataSize = 0 ∨ p.first.dataOffset + p.first.dataSize ≤ q := by
  by_contra hnot
  obtain ⟨hnonempty, hlt⟩ := not_or.1 hnot
  have hfirst : p.first.numberOfSectors ≠ 0 := by
    rintro hzero
    exact hnonempty (by rw [PartitionDataEntry.dataSize, hzero]; rfl)
  have horder : p.first.firstSector ≤ p.second.firstSector := by
    simp only [WIATables.accepted, Bool.and_eq_true, List.all_eq_true] at h
    have hentries := h.1.2 p (List.mem_of_getElem? hp)
    simpa [WIATables.entriesInOrder, hfirst, hsecond] using hentries
  have hstart : p.first.dataOffset ≤ p.second.dataOffset :=
    Nat.mul_le_mul_right _ (UInt32.le_iff_toNat_le.1 horder)
  have hboth := upperBound_partition h (j := 0) hp rfl hfirst (hstart.trans hle) (by omega)
  rw [hfound] at hboth
  cases hboth

theorem readTurn_undefined (h : t.accepted = true) (hchunk : t.chunkSize = 0) {q : Nat}
    (hdivides : DividesAt t q) :
    (readTurn noChunks t noCrypto newReader ⟨q, 1, []⟩).1 = .undefined := by
  cases hdivides with
  | @raw k i e hfound he hle =>
    obtain ⟨e', he', hnonempty, -, hend⟩ := WIATables.raw_of_upperBound hfound
    obtain rfl : e' = e := Option.some.inj (he'.symm.trans he)
    rw [WIATables.raw_key_eq h he hnonempty] at hend
    have hraw := WIATables.raw_end_lt h he hnonempty
    rw [readTurn_raw noCrypto hfound he, readFromGroups]
    rw [if_neg (by simp only [rawRange]; rw [add64_of_lt hraw]; omega),
      if_neg (by simp only [rawRange]; omega), if_pos (by rw [hchunk]; rfl)]
  | @partition k i j p e hfound hp he hle hgroup =>
    obtain ⟨p', e', hp', he', hnonempty, -, hend⟩ := WIATables.partition_of_upperBound hfound
    obtain rfl : p' = p := Option.some.inj (hp'.symm.trans hp)
    obtain rfl : e' = e := Option.some.inj (he'.symm.trans he)
    rw [WIATables.partition_key_eq h hp he hnonempty] at hend
    have hsize : e'.dataSize ≠ 0 :=
      Nat.mul_ne_zero (fun hzero => hnonempty (UInt32.toNat_inj.1 hzero)) (by decide)
    have hdata : ∀ rest, (readPartitionEntries noChunks t noCrypto p' (e' :: rest) newReader
        ⟨q, 1, []⟩).1 = .undefined := by
      intro rest
      rw [readPartitionEntries, if_neg Nat.one_ne_zero, if_neg hsize,
        if_neg (show ¬ e'.dataOffset + e'.dataSize ≤ q by omega),
        if_neg (show ¬ q < e'.dataOffset by omega)]
      have hone : min (e'.dataSize - (q - e'.dataOffset)) 1 = 1 := by omega
      have hread : (readPartitionData noChunks t noCrypto p' 1 newReader ⟨q, 1, []⟩).1 = _ :=
        readPartitionData_undefined noChunks hchunk noCrypto rfl hgroup
      dsimp only
      rw [hone]
      generalize readPartitionData noChunks t noCrypto p' 1 newReader ⟨q, 1, []⟩ = x at hread ⊢
      obtain ⟨o, s'⟩ := x
      obtain rfl : o = .undefined := hread
      rfl
    rw [readTurn, hfound]
    dsimp only
    rw [hp]
    rcases j with - | - | j
    · obtain rfl := Option.some.inj he
      exact hdata _
    · obtain rfl := Option.some.inj he
      have hpassed := first_passed h hfound hp hnonempty hle
      have hskip : readPartitionEntries noChunks t noCrypto p' p'.dataEntries newReader
          ⟨q, 1, []⟩ =
            readPartitionEntries noChunks t noCrypto p' [p'.second] newReader ⟨q, 1, []⟩ := by
        rw [PartitionEntry.dataEntries, readPartitionEntries, if_neg Nat.one_ne_zero]
        by_cases hempty : p'.first.dataSize = 0
        · rw [if_pos hempty]
        · rw [if_neg hempty, if_pos (hpassed.resolve_left hempty)]
      dsimp only
      rw [hskip]
      exact hdata _
    · cases he

theorem not_terminates_of_undefined {q : Nat} (hheader : discHeaderSize ≤ q)
    (hlt : q < t.isoFileSize.toNat)
    (hturn : (readTurn noChunks t noCrypto newReader ⟨q, 1, []⟩).1 = .undefined) :
    ¬ TurnsGetOn t ∧ ¬ ReadTerminates t := by
  constructor
  · intro hturns
    have hgets := hturns Unit noChunks noCrypto newReader ⟨q, 1, []⟩ hheader (by simp) hlt
    rw [hturn] at hgets
    exact hgets
  · intro hterminates
    obtain ⟨fuel, result, hsome, hdefined⟩ :=
      hterminates Unit noChunks noCrypto newReader q 1 hlt
    have hiso := t.isoFileSize.toNat_lt
    unfold readFile headerCursor at hsome
    rw [if_neg (by rw [add64_of_lt (by omega)]; omega), if_neg (by omega)] at hsome
    cases fuel with
    | zero => simp [readLoop] at hsome
    | succ fuel =>
      generalize hx : readTurn noChunks t noCrypto newReader ⟨q, 1, []⟩ = x at hturn
      obtain ⟨o, s'⟩ := x
      obtain rfl : o = .undefined := hturn
      simp only [readLoop, Nat.one_ne_zero, if_false, hx] at hsome
      cases hsome
      exact hdefined rfl

theorem not_terminates_of_not_readable (h : t.accepted = true) (hnot : ¬ Readable t) :
    ¬ TurnsGetOn t ∧ ¬ ReadTerminates t := by
  by_cases hchunk : t.chunkSize = 0
  · obtain ⟨q, hheader, hlt, hdivides⟩ :
        ∃ q, discHeaderSize ≤ q ∧ q < t.isoFileSize.toNat ∧ DividesAt t q := by
      by_contra hnone
      refine hnot ⟨fun hne => absurd hchunk hne, fun _ q hheader hlt hdivides => ?_⟩
      exact hnone ⟨q, hheader, hlt, hdivides⟩
    exact not_terminates_of_undefined hheader hlt (readTurn_undefined h hchunk hdivides)
  · have hreach : ¬ RawGroupsReach t := fun hreach =>
      hnot ⟨fun _ => hreach, fun h0 => absurd h0 hchunk⟩
    unfold RawGroupsReach at hreach
    push Not at hreach
    obtain ⟨q, k, i, e, hheader, hlt, hfound, he, hle, hgroup⟩ := hreach
    obtain ⟨hturn, hread⟩ := readFile_stuck h hchunk noChunks noCrypto newReader hheader hlt
      hfound he hle hgroup
    constructor
    · intro hturns
      have hgets := hturns Unit noChunks noCrypto newReader ⟨q, 1, []⟩ hheader (by simp) hlt
      rw [hturn] at hgets
      exact absurd hgets.1 (Nat.lt_irrefl _)
    · intro hterminates
      obtain ⟨fuel, result, hsome, -⟩ := hterminates Unit noChunks noCrypto newReader q 1 hlt
      rw [hread fuel] at hsome
      cases hsome

/-- `Read` terminates, each turn getting on, exactly where every byte can be read or is found to be
    missing. -/
theorem read_terminates_iff (h : t.accepted = true) :
    (TurnsGetOn t ↔ Readable t) ∧ (ReadTerminates t ↔ Readable t) := by
  refine ⟨⟨fun hturns => ?_, turnsGetOn_of_readable h⟩, fun hterminates => ?_, fun hread =>
    readTerminates_of_turnsGetOn (turnsGetOn_of_readable h hread)⟩
  · by_contra hnot
    exact (not_terminates_of_not_readable h hnot).1 hturns
  · by_contra hnot
    exact (not_terminates_of_not_readable h hnot).2 hterminates

/-! ### Files -/

/-- An RVZ file of `size` bytes in chunks of 32 KiB with one raw data entry. -/
def oneEntryFile (size : UInt64) (numberOfGroups : UInt32) : WIATables :=
  { rvz := true, isoFileSize := size, discHeader := zeroes discHeaderSize
    compressionType := .none, chunkSize := 0x8000, partitionEntries := []
    rawDataEntries := [⟨0x80, size - 0x80, 0, numberOfGroups⟩]
    groupEntries := List.replicate numberOfGroups.toNat ⟨0, 0, 0⟩ }

/-- A file of the disc header alone, with a chunk size of 0. -/
def noEntriesFile : WIATables :=
  { oneEntryFile 0x8001 2 with chunkSize := 0, rawDataEntries := [] }

theorem oneEntryFile_terminates :
    ReadTerminates (oneEntryFile 0x8001 2) ∧ ReadTerminates noEntriesFile := by
  have hempty : Readable noEntriesFile := by
    refine ⟨fun hne => absurd rfl hne, fun _ q _ _ hdivides => ?_⟩
    rcases hdivides with ⟨hfound, -, -⟩ | ⟨hfound, -, -, -, -⟩
    · cases hfound
    · cases hfound
  refine ⟨(read_terminates_iff (t := oneEntryFile 0x8001 2) (by decide)).2.2
    ⟨fun _ => ?_, fun hzero => absurd hzero (by decide)⟩,
    (read_terminates_iff (by decide)).2.2 hempty⟩
  intro q k i e _ hlt _ he _
  have hiso : (oneEntryFile 0x8001 2).isoFileSize.toNat = 0x8001 := rfl
  obtain rfl : (⟨0x80, 0x8001 - 0x80, 0, 2⟩ : RawDataEntry) = e := by
    rw [oneEntryFile] at he
    cases i with
    | zero => exact Option.some.inj he
    | succ i => simp at he
  rw [hiso] at hlt
  show (q - 0) / 0x8000 < 2
  omega

/-- With the number of groups that `AddRawDataEntry` counts for this size, the byte at 0x8000
    cannot be read. -/
theorem oneEntryFile_stuck : (oneEntryFile 0x8001 1).accepted = true ∧
    ¬TurnsGetOn (oneEntryFile 0x8001 1) ∧
      ∀ fuel, readFile noChunks (oneEntryFile 0x8001 1) noCrypto fuel newReader 0x8000 1 = none := by
  have haccepted : (oneEntryFile 0x8001 1).accepted = true := by decide
  have hfound : (oneEntryFile 0x8001 1).dataEntries.upperBound 0x8000 = some (0x8001, .raw 0) := by
    decide
  obtain ⟨hturn, hread⟩ := readFile_stuck haccepted (by decide) noChunks noCrypto newReader
    (q := 0x8000) (by decide) (by decide) hfound rfl (by decide) (by decide)
  refine ⟨haccepted, fun hturns => ?_, hread⟩
  have hgets := hturns Unit noChunks noCrypto newReader ⟨0x8000, 1, []⟩ (by decide) (by simp)
    (by decide)
  rw [hturn] at hgets
  exact absurd hgets.1 (Nat.lt_irrefl _)

end Termination
end DolphinXR.DiscIO
