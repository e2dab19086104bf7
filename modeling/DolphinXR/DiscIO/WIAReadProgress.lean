import DolphinXR.DiscIO.WIAReader

/- How far a turn of the loop of `WIARVZFileReader::Read` gets. A turn that meets the data
   of a partition copies something or fails, whatever the file holds, as long as no group
   divides by zero. A turn that meets raw data copies something or fails where the group
   that holds the offset is one of the entry's groups; where `number_of_groups` is too
   small for that, the loop of `ReadFromGroups` ends before it has begun and nothing is
   copied. -/
namespace DolphinXR.DiscIO
open Lib VolumeWii

/-- The read gets on: the call fails, or copies something of what is left. -/
def GetsOn (cur : Cursor) : Outcome Cursor → Prop
  | .ok cur' => cur'.size < cur.size ∧ cur'.offset + cur'.size = cur.offset + cur.size
  | .failed => True
  | .undefined => False

/-- The call fails, or copies a part of what is left. -/
def KeepsEnd (cur : Cursor) : Outcome Cursor → Prop
  | .ok cur' => cur'.size ≤ cur.size ∧ cur'.offset + cur'.size = cur.offset + cur.size
  | .failed => True
  | .undefined => False

theorem KeepsEnd.refl (cur : Cursor) : KeepsEnd cur (.ok cur) := ⟨Nat.le_refl _, rfl⟩

theorem KeepsEnd.write {cur : Cursor} {count : Nat} (h : count ≤ cur.size) (bytes : Bytes) :
    KeepsEnd cur (.ok (cur.write count bytes)) :=
  ⟨Nat.sub_le .., by simp only [Cursor.write]; omega⟩

theorem KeepsEnd.trans {cur cur' : Cursor} {o : Outcome Cursor} (h : KeepsEnd cur' o)
    (hfirst : KeepsEnd cur (.ok cur')) : KeepsEnd cur o := by
  cases o with
  | ok a => exact ⟨Nat.le_trans h.1 hfirst.1, h.2.trans hfirst.2⟩
  | failed => trivial
  | undefined => exact h

theorem KeepsEnd.getsOn {cur cur' : Cursor} {o : Outcome Cursor} (h : KeepsEnd cur' o)
    (hfirst : GetsOn cur (.ok cur')) : GetsOn cur o := by
  cases o with
  | ok a => exact ⟨Nat.lt_of_le_of_lt h.1 hfirst.1, h.2.trans hfirst.2⟩
  | failed => trivial
  | undefined => exact h

section Turn
variable {C : Type} {ops : ChunkOps C} {t : WIATables} {s s' : ReaderState C} {cur : Cursor}

/-! ### Groups -/

/-- The number of bytes that the turn on group `i` copies. -/
def groupBytes (p : GroupRange) (i chunkSize : Nat) (cur : Cursor) : Nat :=
  min (sub64 (min chunkSize (sub64 p.dataSize (i * chunkSize)))
    (sub64 (sub64 cur.offset (i * chunkSize)) p.dataOffset)) cur.size

variable (ops t s cur) in
theorem readGroup_cases (p : GroupRange) (i chunkSize : Nat) :
    (readGroup ops t p i chunkSize s cur).1 = .failed ∨
      ∃ bytes, (readGroup ops t p i chunkSize s cur).1 =
        .ok (min chunkSize (sub64 p.dataSize (i * chunkSize)),
          cur.write (groupBytes p i chunkSize cur) bytes) := by
  unfold readGroup
  dsimp only
  split
  · exact .inl rfl
  · split
    · exact .inr ⟨_, rfl⟩
    · split
      · exact .inl rfl
      · exact .inr ⟨_, rfl⟩

theorem readGroup_defined (p : GroupRange) (i chunkSize : Nat) :
    (readGroup ops t p i chunkSize s cur).1 ≠ .undefined := by
  rcases readGroup_cases ops t s cur p i chunkSize with
    h | ⟨bytes, h⟩ <;> rw [h] <;> simp

theorem readGroup_ok {p : GroupRange} {i chunkSize : Nat} {x : Nat × Cursor}
    (h : (readGroup ops t p i chunkSize s cur).1 = .ok x) :
    ∃ bytes, x.2 = cur.write (groupBytes p i chunkSize cur) bytes := by
  rcases readGroup_cases ops t s cur p i chunkSize with
    hfailed | ⟨bytes, hok⟩
  · rw [hfailed] at h
    cases h
  · rw [hok] at h
    cases h
    exact ⟨bytes, rfl⟩

theorem readGroups_keepsEnd (p : GroupRange) : ∀ (remaining i chunkSize : Nat)
    (s : ReaderState C) (cur : Cursor),
    KeepsEnd cur (readGroups ops t p remaining i chunkSize s cur).1
  | 0, _, _, _, cur => .refl cur
  | remaining + 1, i, chunkSize, s, cur => by
    unfold readGroups
    split
    · exact .refl cur
    · refine andThen_fst trivial (readGroup_defined p i chunkSize) fun x hx => ?_
      obtain ⟨bytes, hwrite⟩ := readGroup_ok hx
      refine (readGroups_keepsEnd p remaining (i + 1) x.1 _ x.2).trans ?_
      rw [hwrite]
      exact .write (Nat.min_le_right ..) bytes

theorem readFromGroups_keepsEnd (p : GroupRange) {chunkSize sectorSize : Nat}
    (hchunk : chunkSize ≠ 0) :
    KeepsEnd cur (readFromGroups ops t p chunkSize sectorSize s cur).1 := by
  unfold readFromGroups
  split
  · exact .refl cur
  · split
    · trivial
    · exact readGroups_keepsEnd ..

/-- The group at which `ReadFromGroups` begins. -/
def startGroup (p : GroupRange) (chunkSize sectorSize offset : Nat) : Nat :=
  (offset - Common.alignDown p.dataOffset sectorSize) / chunkSize

theorem groupBytes_pos {p : GroupRange} {chunkSize : Nat} (sectorSize : Nat)
    (hchunk : chunkSize ≠ 0) (hend : p.dataOffset + p.dataSize < 2 ^ 64) (hle : p.dataOffset ≤ cur.offset)
    (hlt : cur.offset < p.dataOffset + p.dataSize) (hsize : cur.size ≠ 0) :
    0 < groupBytes (p.aligned sectorSize) (startGroup p chunkSize sectorSize cur.offset) chunkSize
      cur := by
  have haligned := Common.alignDown_le p.dataOffset sectorSize
  have hskipped : p.dataOffset % sectorSize ≤ p.dataOffset := Nat.mod_le ..
  have hsum : Common.alignDown p.dataOffset sectorSize + p.dataOffset % sectorSize =
      p.dataOffset := by
    unfold Common.alignDown
    omega
  have hdataSize : (p.aligned sectorSize).dataSize = p.dataSize + p.dataOffset % sectorSize :=
    add64_of_lt (by omega)
  have hdataOffset : (p.aligned sectorSize).dataOffset =
      Common.alignDown p.dataOffset sectorSize := rfl
  -- Where the group begins, and how far into it the cursor is.
  have hdiv := Nat.div_add_mod (cur.offset - Common.alignDown p.dataOffset sectorSize) chunkSize
  have hmod := Nat.mod_lt (cur.offset - Common.alignDown p.dataOffset sectorSize)
    (Nat.pos_of_ne_zero hchunk)
  rw [Nat.mul_comm] at hdiv
  unfold groupBytes startGroup
  rw [hdataSize, hdataOffset]
  generalize (cur.offset - Common.alignDown p.dataOffset sectorSize) / chunkSize * chunkSize =
    groupOffset at hdiv ⊢
  have hend' : sub64 (p.dataSize + p.dataOffset % sectorSize) groupOffset =
      p.dataSize + p.dataOffset % sectorSize - groupOffset := sub64_of_le (by omega) (by omega)
  have hoffset : sub64 (sub64 cur.offset groupOffset)
      (Common.alignDown p.dataOffset sectorSize) =
        cur.offset - groupOffset - Common.alignDown p.dataOffset sectorSize := by
    rw [sub64_of_le (a := cur.offset) (by omega) (by omega), sub64_of_le (by omega) (by omega)]
  rw [hend', hoffset, sub64_of_le (by omega) (by omega)]
  omega

theorem readFromGroups_getsOn {p : GroupRange} {chunkSize sectorSize : Nat}
    (hchunk : chunkSize ≠ 0) (hend : p.dataOffset + p.dataSize < 2 ^ 64)
    (hlt : cur.offset < p.dataOffset + p.dataSize) (hsize : cur.size ≠ 0)
    (hgroup : p.dataOffset ≤ cur.offset →
      startGroup p chunkSize sectorSize cur.offset < p.numberOfGroups) :
    GetsOn cur (readFromGroups ops t p chunkSize sectorSize s cur).1 := by
  unfold readFromGroups
  rw [if_neg (by rw [add64_of_lt hend]; omega)]
  split
  · trivial
  case isFalse hge =>
    have hle : p.dataOffset ≤ cur.offset := by omega
    have hpos := groupBytes_pos sectorSize hchunk hend hle hlt hsize
    obtain ⟨remaining, hremaining⟩ : ∃ n, p.numberOfGroups -
        startGroup p chunkSize sectorSize cur.offset = n + 1 :=
      ⟨p.numberOfGroups - startGroup p chunkSize sectorSize cur.offset - 1, by
        have := hgroup hle
        omega⟩
    show GetsOn cur (readGroups ops t (p.aligned sectorSize)
      (p.numberOfGroups - startGroup p chunkSize sectorSize cur.offset)
      (startGroup p chunkSize sectorSize cur.offset) chunkSize s cur).1
    rw [hremaining, readGroups, if_neg hsize]
    refine andThen_fst trivial (readGroup_defined _ _ _) fun x hx => ?_
    obtain ⟨bytes, hwrite⟩ := readGroup_ok hx
    have hle : groupBytes (p.aligned sectorSize) (startGroup p chunkSize sectorSize cur.offset)
        chunkSize cur ≤ cur.size := Nat.min_le_right ..
    refine (readGroups_keepsEnd _ remaining _ x.1 _ x.2).getsOn ?_
    rw [hwrite]
    refine ⟨?_, (KeepsEnd.write hle bytes).2⟩
    simp only [Cursor.write]
    omega

theorem readFromGroups_stuck {p : GroupRange} {chunkSize sectorSize : Nat}
    (hchunk : chunkSize ≠ 0) (hend : p.dataOffset + p.dataSize < 2 ^ 64)
    (hle : p.dataOffset ≤ cur.offset) (hlt : cur.offset < p.dataOffset + p.dataSize)
    (hgroup : p.numberOfGroups ≤ startGroup p chunkSize sectorSize cur.offset) :
    readFromGroups ops t p chunkSize sectorSize s cur = (.ok cur, s) := by
  unfold readFromGroups
  rw [if_neg (by rw [add64_of_lt hend]; omega), if_neg (by omega), if_neg hchunk]
  show readGroups ops t (p.aligned sectorSize)
    (p.numberOfGroups - startGroup p chunkSize sectorSize cur.offset) _ _ _ _ = _
  rw [Nat.sub_eq_zero_of_le hgroup]
  rfl

/-! ### Partitions -/

theorem KeepsEnd.defined {o : Outcome Cursor} (h : KeepsEnd cur o) : o ≠ .undefined := by
  rintro rfl
  exact h

theorem readDecryptedEntries_keepsEnd (p : PartitionEntry) {chunkSize : Nat}
    (hchunk : chunkSize ≠ 0) : ∀ (entries : List PartitionDataEntry) (s : ReaderState C)
    (cur : Cursor), KeepsEnd cur (readDecryptedEntries ops t p chunkSize entries s cur).1
  | [], _, cur => .refl cur
  | e :: rest, s, cur => by
    unfold readDecryptedEntries
    split
    · exact .refl cur
    · have hgroups : KeepsEnd cur (readFromGroups ops t (decryptedRange p e chunkSize) chunkSize
          blockDataSize s cur).1 := readFromGroups_keepsEnd _ hchunk
      refine andThen_fst trivial hgroups.defined fun cur' hcur' => ?_
      rw [hcur'] at hgroups
      exact (readDecryptedEntries_keepsEnd p hchunk rest _ cur').trans hgroups

variable (ops) in
theorem readWiiDecrypted_defined (hchunk : decryptedChunkSize t ≠ 0) (offset : Nat)
    (s : ReaderState C) (start size : Nat) :
    (readWiiDecrypted ops t offset s start size).1 ≠ .undefined := by
  unfold readWiiDecrypted
  split
  · simp
  case h_2 p hp =>
    refine andThen_fst (Q := (· ≠ .undefined)) (by simp)
      (readDecryptedEntries_keepsEnd p hchunk ..).defined fun cur _ => ?_
    split <;> simp

theorem readBlocks_defined {σ : Type} {read : σ → Nat → Outcome Bytes × σ}
    (h : ∀ s i o s', read s i = (o, s') → o ≠ .undefined) : ∀ (blocks : List Nat) (s : σ),
    (readBlocks read blocks s).1 ≠ .undefined
  | [], _ => by simp [readBlocks]
  | i :: rest, s => by
    unfold readBlocks
    refine andThen_fst (Q := (· ≠ .undefined)) (by simp) (h s i _ _ rfl) fun block _ => ?_
    exact andThen_fst (Q := (· ≠ .undefined)) (by simp) (readBlocks_defined h rest _)
      fun blocks _ => by simp

theorem volumeWii_encryptGroup_defined {σ : Type} {read : σ → Nat → Nat → Outcome Bytes × σ}
    {offset decryptedSize : Nat} (h : ∀ s block,
      offset + (block + 1) * blockDataSize ≤ decryptedSize →
        (read s (offset + block * blockDataSize) blockDataSize).1 ≠ .undefined)
    (crypto : Crypto) (key : Bytes) (callback : σ → List Bytes → List Bytes × σ) (s : σ) :
    (VolumeWii.encryptGroup crypto offset decryptedSize key read callback s).1 ≠ .undefined := by
  rw [VolumeWii.encryptGroup]
  refine andThen_fst (Q := (· ≠ .undefined)) (by simp) (readBlocks_defined ?_ _ s) ?_
  · intro s i o s' hread
    split at hread
    case isTrue hinside =>
      have hdefined := h s i hinside
      rwa [hread] at hdefined
    · obtain ⟨rfl, -⟩ := Prod.mk.inj hread
      simp
  · intro blocks _
    simp

theorem encryptGroup_defined {crypto : Crypto} {a : EncryptionArguments} {offset : Nat}
    {s : ReaderState C} (hgroup : (VolumeWii.encryptGroup crypto
      (offset / groupTotalSize * groupDataSize) a.decryptedSize a.key
      (readWiiDecrypted ops t a.partitionDataOffset) hashExceptionCallback s).1 ≠ .undefined) :
    (encryptGroup ops t crypto a offset s).1 ≠ .undefined := by
  have hmiss : ∀ x : Outcome Bytes × ReaderState C, x.1 ≠ .undefined →
      (cacheGroup (add64 a.partitionDataOffset offset) x).1 ≠ .undefined := by
    rintro ⟨o, s⟩ hx
    cases o with
    | undefined => exact absurd rfl hx
    | _ => simp [cacheGroup]
  unfold encryptGroup
  dsimp only
  split
  · split
    · simp
    · exact hmiss _ hgroup
  · exact hmiss _ hgroup

theorem add64_add64 (a b c : Nat) : add64 (add64 a b) c = add64 a (b + c) := by
  unfold add64
  rw [Nat.mod_add_mod, Nat.add_assoc]

theorem encryptGroups_defined (crypto : Crypto) (a : EncryptionArguments) :
    ∀ (fuel offset size : Nat) (s : ReaderState C), offset < 2 ^ 64 →
      (∀ k < size, ∀ s, (encryptGroup ops t crypto a
        (Common.alignDown (add64 offset k) groupTotalSize) s).1 ≠ .undefined) →
      (encryptGroups ops t crypto a fuel offset size s).1 ≠ .undefined
  | 0, _, _, _, _, _ => by simp [encryptGroups]
  | fuel + 1, offset, size, s, hoffset, h => by
    unfold encryptGroups
    split
    · simp
    case isFalse hsize =>
      have hfirst := h 0 (Nat.pos_of_ne_zero hsize)
      rw [add64_of_lt hoffset, Nat.add_zero] at hfirst
      refine andThen_fst (Q := (· ≠ .undefined)) (by simp) (hfirst s) fun group _ => ?_
      refine andThen_fst (Q := (· ≠ .undefined)) (by simp)
        (encryptGroups_defined crypto a fuel _ _ _ (Nat.mod_lt _ (by decide)) fun k hk s => ?_)
        fun rest _ => by simp
      rw [add64_add64]
      exact h _ (by omega) s

theorem add64_sub64 (a b k : Nat) : add64 (sub64 a b) k = sub64 (a + k) b := by
  unfold add64 sub64
  rw [Nat.mod_add_mod, Nat.add_right_comm]

variable (ops t) in
/-- No read of the group that an offset of a partition lies in divides by zero. -/
def GroupDefined (crypto : Crypto) (p : PartitionEntry) (offset : Nat) : Prop :=
  ∀ s, (encryptGroup ops t crypto (encryptionArguments p)
    (Common.alignDown (sub64 offset p.first.dataOffset) groupTotalSize) s).1 ≠ .undefined

variable (s) in
theorem readPartitionData_cases {crypto : Crypto} {p : PartitionEntry} {bytesToRead : Nat}
    (h : ∀ k < bytesToRead, GroupDefined ops t crypto p (cur.offset + k)) :
    (readPartitionData ops t crypto p bytesToRead s cur).1 = .failed ∨
      ∃ bytes, (readPartitionData ops t crypto p bytesToRead s cur).1 =
        .ok (cur.write bytesToRead bytes) := by
  unfold readPartitionData
  dsimp only
  split
  · split
    · exact .inl rfl
    · exact .inr ⟨_, rfl⟩
  · exact .inl rfl
  case h_3 heq =>
    refine absurd (congrArg Prod.fst heq) (encryptGroups_defined _ _ _ _ _ _
      (Nat.mod_lt _ (by decide)) fun k hk s => ?_)
    rw [add64_sub64]
    exact h k hk s

variable (ops t) in
/-- None of the groups that a read meets in the data of a partition divides by zero. -/
def EntriesDefined (crypto : Crypto) (p : PartitionEntry) (entries : List PartitionDataEntry)
    (cur : Cursor) : Prop :=
  ∀ e ∈ entries, e.dataSize ≠ 0 → ∀ offset, e.dataOffset ≤ offset →
    offset < e.dataOffset + e.dataSize → cur.offset ≤ offset → offset < cur.offset + cur.size →
      GroupDefined ops t crypto p offset

variable (ops) in
theorem groupDefined_of_chunkSize (hchunk : decryptedChunkSize t ≠ 0) (crypto : Crypto)
    (p : PartitionEntry) (offset : Nat) : GroupDefined ops t crypto p offset :=
  fun s => encryptGroup_defined (volumeWii_encryptGroup_defined
    (fun s _ _ => readWiiDecrypted_defined ops hchunk _ s _ _) crypto _ _ s)

section Entries
variable {crypto : Crypto} {p : PartitionEntry} {e : PartitionDataEntry}
  {rest : List PartitionDataEntry}

theorem EntriesDefined.tail (h : EntriesDefined ops t crypto p (e :: rest) cur) :
    EntriesDefined ops t crypto p rest cur :=
  fun e he => h e (List.mem_cons_of_mem _ he)

theorem EntriesDefined.write (h : EntriesDefined ops t crypto p rest cur) {count : Nat}
    (hcount : count ≤ cur.size) (bytes : Bytes) :
    EntriesDefined ops t crypto p rest (cur.write count bytes) := by
  intro e he hnonempty offset hstart hend hle hlt
  simp only [Cursor.write] at hle hlt
  exact h e he hnonempty offset hstart hend (by omega) (by omega)

theorem EntriesDefined.head (h : EntriesDefined ops t crypto p (e :: rest) cur)
    (hnonempty : e.dataSize ≠ 0) (hle : e.dataOffset ≤ cur.offset)
    (hlt : cur.offset < e.dataOffset + e.dataSize) :
    ∀ k < min (e.dataSize - (cur.offset - e.dataOffset)) cur.size,
      GroupDefined ops t crypto p (cur.offset + k) :=
  fun k hk => h e List.mem_cons_self hnonempty _ (by omega) (by omega) (by omega) (by omega)

theorem readPartitionEntries_keepsEnd : ∀ (entries : List PartitionDataEntry) (s : ReaderState C)
    (cur : Cursor), EntriesDefined ops t crypto p entries cur →
      KeepsEnd cur (readPartitionEntries ops t crypto p entries s cur).1
  | [], _, cur, _ => .refl cur
  | e :: rest, s, cur, hdefined => by
    unfold readPartitionEntries
    split
    · exact .refl cur
    · split
      · exact readPartitionEntries_keepsEnd rest s cur hdefined.tail
      case isFalse hnonempty =>
        split
        · exact readPartitionEntries_keepsEnd rest s cur hdefined.tail
        · split
          · trivial
          · rcases readPartitionData_cases s
              (hdefined.head hnonempty (by omega) (by omega)) with h | ⟨bytes, h⟩
            · exact andThen_fst trivial (by rw [h]; simp) fun cur' h' => by simp [h] at h'
            · refine andThen_fst trivial (by rw [h]; simp) fun cur' h' => ?_
              obtain rfl := Outcome.ok.inj (h.symm.trans h')
              exact (readPartitionEntries_keepsEnd rest _ _
                (hdefined.tail.write (Nat.min_le_right ..) bytes)).trans
                  (.write (Nat.min_le_right ..) bytes)

theorem readPartitionEntries_getsOn (hsize : cur.size ≠ 0) :
    ∀ (entries : List PartitionDataEntry) (s : ReaderState C),
      EntriesDefined ops t crypto p entries cur →
      (∃ e ∈ entries, e.dataSize ≠ 0 ∧ cur.offset < e.dataOffset + e.dataSize) →
        GetsOn cur (readPartitionEntries ops t crypto p entries s cur).1
  | [], _, _, h => by simp at h
  | e :: rest, s, hdefined, h => by
    unfold readPartitionEntries
    rw [if_neg hsize]
    split
    case isTrue hempty =>
      refine readPartitionEntries_getsOn hsize rest s hdefined.tail ?_
      obtain ⟨e', he', hnonempty, hlt⟩ := h
      rcases List.mem_cons.1 he' with rfl | he'
      · exact absurd hempty hnonempty
      · exact ⟨e', he', hnonempty, hlt⟩
    case isFalse hnonempty =>
      split
      case isTrue hpassed =>
        refine readPartitionEntries_getsOn hsize rest s hdefined.tail ?_
        obtain ⟨e', he', hnonempty, hlt⟩ := h
        rcases List.mem_cons.1 he' with rfl | he'
        · omega
        · exact ⟨e', he', hnonempty, hlt⟩
      case isFalse =>
        split
        · trivial
        · rcases readPartitionData_cases s
            (hdefined.head hnonempty (by omega) (by omega)) with h | ⟨bytes, h⟩
          · exact andThen_fst trivial (by rw [h]; simp) fun cur' h' => by simp [h] at h'
          · refine andThen_fst trivial (by rw [h]; simp) fun cur' h' => ?_
            obtain rfl := Outcome.ok.inj (h.symm.trans h')
            refine (readPartitionEntries_keepsEnd rest _ _
              (hdefined.tail.write (Nat.min_le_right ..) bytes)).getsOn
                ⟨?_, (KeepsEnd.write (Nat.min_le_right ..) bytes).2⟩
            show cur.size - min (e.dataSize - (cur.offset - e.dataOffset)) cur.size < cur.size
            omega

end Entries

/-! ### Turns of `Read` -/

theorem chunkSize_ge (h : t.accepted = true) (hchunk : t.chunkSize ≠ 0) :
    blockTotalSize ≤ t.chunkSize.toNat := by
  have hok := WIATables.chunkSizeOk_of_accepted h
  have hpos : t.chunkSize.toNat ≠ 0 := fun h0 => hchunk (UInt32.toNat_inj.1 h0)
  by_contra hlt
  have hmod : t.chunkSize.toNat % groupTotalSize = t.chunkSize.toNat :=
    Nat.mod_eq_of_lt (Nat.lt_trans (Nat.lt_of_not_le hlt) (by decide))
  simp [WIATables.chunkSizeOk, hmod, hpos, Nat.lt_of_not_le hlt] at hok

theorem decryptedChunkSize_ne_zero (h : t.accepted = true) (hchunk : t.chunkSize ≠ 0) :
    decryptedChunkSize t ≠ 0 := by
  have hge := Nat.mul_le_mul_right blockDataSize (chunkSize_ge h hchunk)
  have hdiv := Nat.div_le_div_right (c := blockTotalSize) hge
  rw [Nat.mul_div_cancel_left _ (by decide)] at hdiv
  exact Nat.pos_iff_ne_zero.1 (Nat.lt_of_lt_of_le (by decide) hdiv)

theorem readTurn_partition (h : t.accepted = true) (crypto : Crypto) (hsize : cur.size ≠ 0)
    {k i j : Nat} (hfound : t.dataEntries.upperBound cur.offset = some (k, .partition i j))
    (hdefined : ∀ p, t.partitionEntries[i]? = some p →
      EntriesDefined ops t crypto p p.dataEntries cur) :
    GetsOn cur (readTurn ops t crypto s cur).1 := by
  obtain ⟨p, e, hp, he, hnonempty, -, hlt⟩ := WIATables.partition_of_upperBound hfound
  rw [WIATables.partition_key_eq h hp he hnonempty] at hlt
  unfold readTurn
  rw [hfound]
  dsimp only
  rw [hp]
  refine readPartitionEntries_getsOn hsize _ s (hdefined p hp)
    ⟨e, List.mem_of_getElem? he, ?_, hlt⟩
  have hsectors : e.numberOfSectors.toNat ≠ 0 := fun h0 => hnonempty (UInt32.toNat_inj.1 h0)
  exact Nat.mul_ne_zero hsectors (by decide)

theorem readTurn_raw (crypto : Crypto) {k i : Nat} {e : RawDataEntry}
    (hfound : t.dataEntries.upperBound cur.offset = some (k, .raw i))
    (he : t.rawDataEntries[i]? = some e) :
    readTurn ops t crypto s cur =
      readFromGroups ops t (rawRange e) t.chunkSize.toNat blockTotalSize s cur := by
  unfold readTurn
  rw [hfound]
  dsimp only
  rw [he]

end Turn

end DolphinXR.DiscIO
