import Mathlib.Data.List.Nodup
import DolphinXR.Lib.Bytes

/- The list of shared contents (SharedContentMap in Core/IOS/ES/Formats.cpp): which hash has which
   file below /shared1, kept in content.map. All file system requests succeed.

   The number of the next file is a counter that a restart takes from the number of entries, so
   after a deletion it can stand at a number that is in use. `fresh_of_dense` says that a restart
   is harmless while every number is below the number of entries. -/
namespace DolphinXR.IOS.ES
open Lib

/-- A digit as `{:x}` prints it. -/
def hexDigit (digit : Nat) : UInt8 := UInt8.ofNat (if digit < 10 then 48 + digit else 87 + digit)

/-- `{:08x}`. -/
def formatId (id : BitVec 32) : Bytes :=
  (List.range 8).map fun i => hexDigit (id.toNat / 16 ^ (7 - i) % 16)

structure Entry where
  id : Bytes
  sha1 : Bytes
  length_id : id.length = 8
  length_sha1 : sha1.length = 20
  deriving DecidableEq

/-- A hash of 20 bytes. -/
abbrev Sha1 := { sha1 : Bytes // sha1.length = 20 }

structure SharedContentMap where
  entries : List Entry := []
  lastId : BitVec 32 := 0

structure State where
  contents : SharedContentMap := {}
  contentMap : Option Bytes := none
  temp : Option Bytes := none

/-- What `Read` gives until it gives less than an entry. -/
def readEntries : Nat → Bytes → List Entry
  | 0, _ => []
  | fuel + 1, bytes =>
    if h : 28 ≤ bytes.length then
      { id := slice bytes 0 8
        sha1 := slice bytes 8 20
        length_id := length_slice (by omega)
        length_sha1 := length_slice (by omega) } :: readEntries fuel (bytes.drop 28)
    else []

def Entry.bytes (entry : Entry) : Bytes := entry.id ++ entry.sha1

namespace SharedContentMap

/-- The constructor, on what content.map holds. -/
def load (contentMap : Option Bytes) : SharedContentMap :=
  match contentMap with
  | none => {}
  | some bytes =>
    let entries := readEntries bytes.length bytes
    { entries, lastId := BitVec.ofNat 32 entries.length }

/-- The name in /shared1, without the extension. -/
def getFilenameFromSHA1 (m : SharedContentMap) (sha1 : Bytes) : Option Bytes :=
  (m.entries.find? (·.sha1 = sha1)).map Entry.id

end SharedContentMap

namespace State

/-- What is at the temporary path is opened if it is there, and written over from its start. -/
def writeEntries (s : State) : State :=
  let bytes := s.contents.entries.flatMap Entry.bytes
  { s with
    contentMap := some (bytes ++ (s.temp.getD []).drop bytes.length)
    temp := none }

/-- `emplace_back`, with the number in line. -/
def emplaceBack (s : State) (sha1 : Sha1) : State :=
  let entry : Entry :=
    { id := formatId s.contents.lastId, sha1, length_id := rfl, length_sha1 := sha1.2 }
  { s with contents := { s.contents with entries := s.contents.entries ++ [entry] } }

def countUp (s : State) : State :=
  { s with contents := { s.contents with lastId := s.contents.lastId + 1 } }

def addSharedContent (s : State) (sha1 : Sha1) : State :=
  match s.contents.getFilenameFromSHA1 sha1 with
  | some _ => s
  | none => (s.emplaceBack sha1).writeEntries.countUp

def deleteSharedContent (s : State) (sha1 : Sha1) : State :=
  let entries := s.contents.entries.filter fun entry => entry.sha1 ≠ sha1.1
  writeEntries { s with contents := { s.contents with entries } }

end State

inductive Action where
  | addSharedContent (sha1 : Sha1)
  | deleteSharedContent (sha1 : Sha1)
  /-- The map is made again from its file. -/
  | construct

def Action.perform (s : State) : Action → State
  | addSharedContent sha1 => s.addSharedContent sha1
  | deleteSharedContent sha1 => s.deleteSharedContent sha1
  | construct => { s with contents := .load s.contentMap }

def State.run (s : State) (actions : List Action) : State :=
  actions.foldl Action.perform s

/-! ### What the file keeps -/

theorem readEntries_flatMap (entries : List Entry) {fuel : Nat} (h : entries.length ≤ fuel) :
    readEntries fuel (entries.flatMap Entry.bytes) = entries := by
  induction entries generalizing fuel with
  | nil => cases fuel <;> simp [readEntries]
  | cons entry rest ih =>
    obtain ⟨fuel, rfl⟩ : ∃ n, fuel = n + 1 := ⟨fuel - 1, by simp at h; omega⟩
    have hlength : entry.bytes.length = 28 := by
      simp [Entry.bytes, entry.length_id, entry.length_sha1]
    have hdrop : ((entry :: rest).flatMap Entry.bytes).drop 28 = rest.flatMap Entry.bytes := by
      rw [List.flatMap_cons, ← hlength, List.drop_left]
    have hid : slice ((entry :: rest).flatMap Entry.bytes) 0 8 = entry.id := by
      simp [slice, Entry.bytes, ← entry.length_id]
    have hsha1 : slice ((entry :: rest).flatMap Entry.bytes) 8 20 = entry.sha1 := by
      simp [slice, Entry.bytes, ← entry.length_id, ← entry.length_sha1]
    have hle : 28 ≤ ((entry :: rest).flatMap Entry.bytes).length := by
      rw [List.flatMap_cons, List.length_append]
      omega
    simp only [readEntries, dif_pos hle, hid, hsha1, hdrop]
    rw [ih (by simpa using h)]

structure Stored (s : State) : Prop where
  load : (SharedContentMap.load s.contentMap).entries = s.contents.entries
  temp : s.temp = none

theorem length_le_flatMap (entries : List Entry) :
    entries.length ≤ (entries.flatMap Entry.bytes).length := by
  induction entries with
  | nil => simp
  | cons entry rest ih =>
    have hid := entry.length_id
    simp only [List.flatMap_cons, Entry.bytes, List.length_append, List.length_cons]
    omega

theorem stored_writeEntries {s : State} (h : s.temp = none) : Stored s.writeEntries where
  load := by
    simp only [State.writeEntries, h, Option.getD_none, List.drop_nil, List.append_nil]
    exact readEntries_flatMap _ (length_le_flatMap _)
  temp := rfl

theorem Stored.countUp {s : State} (h : Stored s) : Stored s.countUp := ⟨h.load, h.temp⟩

theorem stored_perform {s : State} (h : Stored s) (a : Action) : Stored (a.perform s) := by
  cases a with
  | addSharedContent sha1 =>
    simp only [Action.perform, State.addSharedContent]
    split
    · exact h
    · have htemp : (s.emplaceBack sha1).temp = none := h.temp
      exact (stored_writeEntries htemp).countUp
  | deleteSharedContent sha1 => exact stored_writeEntries h.temp
  | construct => exact ⟨rfl, h.temp⟩

/-! ### The numbers -/

theorem hexDigit_inj {a b : Nat} (ha : a < 16) (hb : b < 16) (h : hexDigit a = hexDigit b) :
    a = b := by
  have hnat := congrArg UInt8.toNat h
  simp only [hexDigit, UInt8.toNat_ofNat'] at hnat
  split at hnat <;> split at hnat <;> omega

theorem formatId_inj {a b : BitVec 32} (h : formatId a = formatId b) : a = b := by
  have hdigit : ∀ i, i < 8 → a.toNat / 16 ^ (7 - i) % 16 = b.toNat / 16 ^ (7 - i) % 16 := by
    intro i hi
    apply hexDigit_inj (Nat.mod_lt _ (by decide)) (Nat.mod_lt _ (by decide))
    have hget := congrArg (·[i]?) h
    simpa [formatId, hi] using hget
  -- From the first digit on, the digits read so far are the same number.
  have hread : ∀ i ≤ 8, a.toNat / 16 ^ (8 - i) = b.toNat / 16 ^ (8 - i) := by
    intro i hi
    induction i with
    | zero =>
      have hpow : 16 ^ (8 - 0) = 2 ^ 32 := rfl
      rw [hpow, Nat.div_eq_of_lt a.isLt, Nat.div_eq_of_lt b.isLt]
    | succ i ih =>
      have hpow : 16 ^ (8 - i) = 16 ^ (7 - i) * 16 := by
        rw [← Nat.pow_succ]
        congr 1
        omega
      have hfront := ih (by omega)
      have hlast := hdigit i (by omega)
      rw [hpow, ← Nat.div_div_eq_div_mul, ← Nat.div_div_eq_div_mul] at hfront
      rw [show 8 - (i + 1) = 7 - i by omega]
      omega
  apply BitVec.eq_of_toNat_eq
  simpa using hread 8 (Nat.le_refl 8)

/-- No two entries have one number, none have one hash, and no two hashes have one file. -/
structure Unique (m : SharedContentMap) : Prop where
  ids : (m.entries.map Entry.id).Nodup
  hashes : (m.entries.map Entry.sha1).Nodup
  files : ∀ sha1 sha1' file, m.getFilenameFromSHA1 sha1 = some file →
    m.getFilenameFromSHA1 sha1' = some file → sha1 = sha1'

def KeepsFiles (m m' : SharedContentMap) : Prop :=
  ∀ sha1 file file', m.getFilenameFromSHA1 sha1 = some file →
    m'.getFilenameFromSHA1 sha1 = some file' → file = file'

/-- A hash that is not in the map is added, and the number in line is that of an entry. -/
def Action.Collides (s : State) : Action → Prop
  | addSharedContent sha1 => s.contents.getFilenameFromSHA1 sha1 = none ∧
      ∃ entry ∈ s.contents.entries, entry.id = formatId s.contents.lastId
  | _ => False

theorem mem_of_getFilename {m : SharedContentMap} {sha1 file : Bytes}
    (h : m.getFilenameFromSHA1 sha1 = some file) :
    ∃ entry ∈ m.entries, entry.sha1 = sha1 ∧ entry.id = file := by
  obtain ⟨entry, hfind, hid⟩ := Option.map_eq_some_iff.1 h
  exact ⟨entry, List.mem_of_find?_eq_some hfind, by simpa using List.find?_some hfind, hid⟩

theorem getFilename_eq_none {m : SharedContentMap} {sha1 : Bytes} :
    m.getFilenameFromSHA1 sha1 = none ↔ ∀ entry ∈ m.entries, entry.sha1 ≠ sha1 := by
  simp [SharedContentMap.getFilenameFromSHA1]

theorem unique_of_nodup {m : SharedContentMap} (hids : (m.entries.map Entry.id).Nodup)
    (hhashes : (m.entries.map Entry.sha1).Nodup) : Unique m := by
  refine ⟨hids, hhashes, ?_⟩
  intro sha1 sha1' file h h'
  obtain ⟨entry, hmem, rfl, hid⟩ := mem_of_getFilename h
  obtain ⟨entry', hmem', rfl, hid'⟩ := mem_of_getFilename h'
  rw [List.inj_on_of_nodup_map hids hmem hmem' (hid.trans hid'.symm)]

theorem keepsFiles_of_mem {m m' : SharedContentMap} (hhashes : (m'.entries.map Entry.sha1).Nodup)
    (hkept : ∀ entry ∈ m.entries, ∀ entry' ∈ m'.entries, entry.sha1 = entry'.sha1 →
      entry ∈ m'.entries) : KeepsFiles m m' := by
  intro sha1 file file' h h'
  obtain ⟨entry, hmem, hsha1, rfl⟩ := mem_of_getFilename h
  obtain ⟨entry', hmem', hsha1', rfl⟩ := mem_of_getFilename h'
  have hsame : entry.sha1 = entry'.sha1 := hsha1.trans hsha1'.symm
  rw [List.inj_on_of_nodup_map hhashes (hkept entry hmem entry' hmem' hsame) hmem' hsame]

theorem perform_unique {s : State} (hstored : Stored s) (h : Unique s.contents) {a : Action}
    (hok : ¬ a.Collides s) :
    Unique (a.perform s).contents ∧ KeepsFiles s.contents (a.perform s).contents := by
  have hself : Unique s.contents ∧ KeepsFiles s.contents s.contents :=
    ⟨h, keepsFiles_of_mem h.hashes fun _ hmem _ _ _ => hmem⟩
  cases a with
  | addSharedContent sha1 =>
    simp only [Action.perform, State.addSharedContent]
    split
    case h_1 => exact hself
    case h_2 hnone =>
      simp only [Action.Collides, hnone, true_and, not_exists, not_and] at hok
      rw [getFilename_eq_none] at hnone
      have hunique : Unique (s.emplaceBack sha1).writeEntries.countUp.contents := by
        apply unique_of_nodup
        · simp only [State.countUp, State.writeEntries, State.emplaceBack, List.map_append,
            List.map_singleton]
          rw [← List.concat_eq_append]
          exact h.ids.concat (by simpa using hok)
        · simp only [State.countUp, State.writeEntries, State.emplaceBack, List.map_append,
            List.map_singleton]
          rw [← List.concat_eq_append]
          exact h.hashes.concat (by simpa using hnone)
      exact ⟨hunique, keepsFiles_of_mem hunique.hashes
        fun _ hmem _ _ _ => List.mem_append_left _ hmem⟩
  | deleteSharedContent sha1 =>
    have hunique : Unique (s.deleteSharedContent sha1).contents :=
      unique_of_nodup (h.ids.sublist (List.filter_sublist.map _))
        (h.hashes.sublist (List.filter_sublist.map _))
    refine ⟨hunique, keepsFiles_of_mem hunique.hashes ?_⟩
    intro entry hmem entry' hmem' hsame
    refine List.mem_filter.2 ⟨hmem, ?_⟩
    rw [hsame]
    exact (List.mem_filter.1 hmem').2
  | construct =>
    have hsame : (SharedContentMap.load s.contentMap).entries = s.contents.entries := hstored.load
    refine ⟨unique_of_nodup (hsame ▸ h.ids) (hsame ▸ h.hashes), ?_⟩
    exact keepsFiles_of_mem (hsame ▸ h.hashes) fun entry hmem _ _ _ => hsame ▸ hmem

theorem not_unique_of_collides {s : State} {a : Action} (h : a.Collides s) :
    ¬ Unique (a.perform s).contents := by
  cases a with
  | deleteSharedContent sha1 => exact absurd h id
  | construct => exact absurd h id
  | addSharedContent sha1 =>
    obtain ⟨hnone, entry, hmem, hid⟩ := h
    intro hunique
    have hids := hunique.ids
    simp only [Action.perform, State.addSharedContent, hnone, State.countUp, State.writeEntries,
      State.emplaceBack, List.map_append, List.nodup_append, List.map_singleton] at hids
    exact hids.2.2 _ (List.mem_map_of_mem hmem) _ (List.mem_singleton_self _) hid

theorem run_take_succ (s : State) {actions : List Action} {n : Nat} {a : Action}
    (h : actions[n]? = some a) :
    s.run (actions.take (n + 1)) = a.perform (s.run (actions.take n)) := by
  simp [State.run, List.take_add_one, h]

theorem stored_run (s : State) (h : Stored s) (actions : List Action) : Stored (s.run actions) := by
  induction actions generalizing s with
  | nil => exact h
  | cons a rest ih => exact ih _ (stored_perform h a)

/-- What is promised of the states of a run from an absent content.map, and of each step. -/
def StaysUnique (actions : List Action) : Prop :=
  ∀ n, Unique (State.run {} (actions.take n)).contents ∧
    ∀ a, actions[n]? = some a → KeepsFiles (State.run {} (actions.take n)).contents
      (Action.perform (State.run {} (actions.take n)) a).contents

/-- The entries keep numbers and files of their own through a run just if no hash is added while
    the number in line is in use. -/
theorem ids_unique_iff (actions : List Action) :
    StaysUnique actions ↔
      ∀ n a, actions[n]? = some a → ¬ Action.Collides (State.run {} (actions.take n)) a := by
  have hstored : ∀ n, Stored (State.run {} (actions.take n)) := fun n => stored_run {} ⟨rfl, rfl⟩ _
  constructor
  · intro h n a ha hcollides
    have hnext := (h (n + 1)).1
    rw [run_take_succ {} ha] at hnext
    exact not_unique_of_collides hcollides hnext
  · intro h
    have hunique : ∀ n, Unique (State.run {} (actions.take n)).contents := by
      intro n
      induction n with
      | zero => exact unique_of_nodup List.nodup_nil List.nodup_nil
      | succ n ih =>
        cases ha : actions[n]? with
        | none =>
          have hlength := List.getElem?_eq_none_iff.1 ha
          rw [List.take_of_length_le (by omega)]
          rwa [List.take_of_length_le hlength] at ih
        | some a =>
          rw [run_take_succ {} ha]
          exact (perform_unique (hstored n) ih (h n a ha)).1
    exact fun n => ⟨hunique n, fun a ha => (perform_unique (hstored n) (hunique n) (h n a ha)).2⟩

/-- A hash is forgotten that is not the last, and after a restart its neighbour's number is given
    again. -/
def reusedId : List Action :=
  let sha1 (b : UInt8) : Sha1 := ⟨List.replicate 20 b, rfl⟩
  [.addSharedContent (sha1 1), .addSharedContent (sha1 2), .deleteSharedContent (sha1 1),
    .construct, .addSharedContent (sha1 3)]

theorem reusedId_not_unique :
    ¬ ∀ actions : List Action, actions.length < 2 ^ 32 → StaysUnique actions := by
  intro h
  have hids := (h reusedId (by decide) 5).1.ids
  have hsame : ((State.run {} (reusedId.take 5)).contents.entries.map Entry.id) =
      [formatId 1, formatId 1] := by decide +kernel
  rw [hsame] at hids
  simp at hids

/-! ### Restarts that do no harm -/

def Dense (m : SharedContentMap) : Prop :=
  ∀ entry ∈ m.entries, ∃ n < m.entries.length, entry.id = formatId (BitVec.ofNat 32 n)

def Action.isAddition : Action → Bool
  | addSharedContent _ => true
  | _ => false

/-- Every number is below the counter, which is at most the number of additions. -/
structure Counted (additions : Nat) (m : SharedContentMap) : Prop where
  lastId : m.lastId.toNat ≤ additions
  length : m.entries.length ≤ additions
  ids : ∀ entry ∈ m.entries, ∃ n < m.lastId.toNat, entry.id = formatId (BitVec.ofNat 32 n)

theorem Counted.mono {k l : Nat} {m : SharedContentMap} (h : Counted k m) (hle : k ≤ l) :
    Counted l m := ⟨h.lastId.trans hle, h.length.trans hle, h.ids⟩

theorem Counted.not_collides {k : Nat} {s : State} (h : Counted k s.contents) (a : Action) :
    ¬ a.Collides s := by
  cases a with
  | deleteSharedContent sha1 => exact id
  | construct => exact id
  | addSharedContent sha1 =>
    intro hcollides
    obtain ⟨-, entry, hmem, hid⟩ := hcollides
    obtain ⟨n, hn, hid'⟩ := h.ids entry hmem
    have hsame := congrArg BitVec.toNat (formatId_inj (hid'.symm.trans hid))
    have hlt := s.contents.lastId.isLt
    rw [BitVec.toNat_ofNat, Nat.mod_eq_of_lt (by omega)] at hsame
    omega

theorem Counted.perform {k : Nat} {s : State} (h : Counted k s.contents) (hstored : Stored s)
    {a : Action} (hk : k + (if a.isAddition then 1 else 0) < 2 ^ 32)
    (hdense : a = .construct → Dense s.contents) :
    Counted (k + if a.isAddition then 1 else 0) (a.perform s).contents := by
  cases a with
  | addSharedContent sha1 =>
    simp only [Action.isAddition, if_true] at hk
    simp only [Action.perform, State.addSharedContent, Action.isAddition, if_true]
    split
    · exact h.mono (Nat.le_succ k)
    · have hnext : (s.contents.lastId + 1).toNat = s.contents.lastId.toNat + 1 := by
        have hle := h.lastId
        rw [BitVec.toNat_add, Nat.mod_eq_of_lt (by simp; omega)]
        rfl
      refine ⟨hnext.trans_le (Nat.succ_le_succ h.lastId), ?_, ?_⟩
      · simpa [State.countUp, State.writeEntries, State.emplaceBack] using h.length
      · intro entry hmem
        have hid : entry ∈ s.contents.entries ∨ entry.id = formatId s.contents.lastId := by
          rcases List.mem_append.1 hmem with hold | hnew
          · exact .inl hold
          · exact .inr (congrArg Entry.id (List.mem_singleton.1 hnew))
        rcases hid with hold | hnew
        · obtain ⟨n, hn, hid⟩ := h.ids entry hold
          exact ⟨n, hn.trans_le (hnext ▸ Nat.le_succ _), hid⟩
        · exact ⟨s.contents.lastId.toNat, hnext ▸ Nat.lt_succ_self _, by simpa using hnew⟩
  | deleteSharedContent sha1 =>
    have hsub : List.Sublist (s.contents.entries.filter fun entry => entry.sha1 ≠ sha1.1)
        s.contents.entries := List.filter_sublist
    exact ⟨h.lastId, hsub.length_le.trans h.length, fun entry hmem => h.ids entry (hsub.mem hmem)⟩
  | construct =>
    have hsame : (SharedContentMap.load s.contentMap).entries = s.contents.entries := hstored.load
    have hlast : (SharedContentMap.load s.contentMap).lastId.toNat = s.contents.entries.length := by
      rw [← hsame]
      cases hfile : s.contentMap with
      | none => rfl
      | some bytes =>
        have hlength := h.length
        rw [← hsame, hfile] at hlength
        exact Nat.mod_eq_of_lt (hlength.trans_lt hk)
    refine ⟨hlast.trans_le h.length, (congrArg List.length hsame).trans_le h.length, ?_⟩
    intro entry hmem
    obtain ⟨n, hn, hid⟩ := hdense rfl entry (hsame ▸ hmem)
    exact ⟨n, hn.trans_eq hlast.symm, hid⟩

/-- With fewer than 2^32 additions, a number is given twice only after a restart that finds a
    number at or above the number of entries. -/
theorem fresh_of_dense (actions : List Action)
    (hcount : actions.countP Action.isAddition < 2 ^ 32)
    (hdense : ∀ n, actions[n]? = some .construct → Dense (State.run {} (actions.take n)).contents) :
    ∀ n a, actions[n]? = some a → ¬ Action.Collides (State.run {} (actions.take n)) a := by
  have hcounted : ∀ n, Counted ((actions.take n).countP Action.isAddition)
      (State.run {} (actions.take n)).contents := by
    intro n
    induction n with
    | zero => exact ⟨Nat.le_refl 0, Nat.le_refl 0, fun _ hmem => absurd hmem List.not_mem_nil⟩
    | succ n ih =>
      cases ha : actions[n]? with
      | none =>
        have hlength := List.getElem?_eq_none_iff.1 ha
        rw [List.take_of_length_le (by omega)]
        rwa [List.take_of_length_le hlength] at ih
      | some a =>
        have hle := (List.take_sublist (n + 1) actions).countP_le (p := Action.isAddition)
        rw [List.take_add_one, ha, List.countP_append, Option.toList_some,
          List.countP_singleton] at hle ⊢
        rw [← Option.toList_some, ← ha, ← List.take_add_one, run_take_succ {} ha]
        exact ih.perform (stored_run {} ⟨rfl, rfl⟩ _) (hle.trans_lt hcount)
          fun hc => hdense n (hc ▸ ha)
  exact fun n a _ => (hcounted n).not_collides a

def aroundRestart : List Action :=
  [.addSharedContent ⟨List.replicate 20 0, rfl⟩, .construct,
    .addSharedContent ⟨List.replicate 20 1, rfl⟩]

theorem fresh_of_dense_aroundRestart :
    ¬ Action.Collides (State.run {} (aroundRestart.take 2))
      (.addSharedContent ⟨List.replicate 20 1, rfl⟩) := by
  have hdense : ∀ n, aroundRestart[n]? = some .construct →
      Dense (State.run {} (aroundRestart.take n)).contents := by
    intro n h
    have hn : n = 1 := by
      rcases n with _ | _ | _ | n
      · cases h
      · rfl
      · cases h
      · cases h
    subst hn
    intro entry hentry
    obtain rfl := List.mem_singleton.1 hentry
    exact ⟨0, by decide, by decide +kernel⟩
  exact fresh_of_dense aroundRestart (by decide) hdense 2 _ rfl

end DolphinXR.IOS.ES
