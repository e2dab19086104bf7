import Mathlib.Data.List.TakeWhile
import DolphinXR.DiscIO.DirectoryBlobFST

/- What `BuildFST` writes, as one list. `WriteDirectory` moves two cursors through
   one vector; `writeDirectory_writes` says that the entries come out one behind
   the other and so do the names, with the rest of the vector still zero, and
   `buildFST_data` says so of the finished table. The places of the files are
   computed alongside, as the tree a reader should see. -/
namespace DolphinXR.DiscIO.DirectoryBlob
open Common Lib
open FSTBuilderNode

theorem FSTBuilderNode.node_induction {P : FSTBuilderNode → Prop}
    (hfile : ∀ name size content, P (file name size content))
    (hfolder : ∀ name size content, (∀ x ∈ content, P x) → P (folder name size content)) :
    ∀ x, P x
  | file name size content => hfile name size content
  | folder name size content =>
    hfolder name size content fun x hx => by
      have := List.sizeOf_lt_of_mem hx
      exact node_induction hfile hfolder x
termination_by x => sizeOf x
decreasing_by simp only [folder.sizeOf_spec]; omega

inductive TreeEntry where
  | file (name : Bytes) (size offset : Nat)
  | folder (name : Bytes) (entries : List TreeEntry)

/-! ### The lists that are written -/

mutual

def nodeCount : FSTBuilderNode → Nat
  | file _ _ _ => 1
  | folder _ _ content => entryCount content + 1

def entryCount : List FSTBuilderNode → Nat
  | [] => 0
  | x :: xs => nodeCount x + entryCount xs

end

mutual

def nodeNames : FSTBuilderNode → Bytes
  | file name _ _ => name ++ [0]
  | folder name _ content => name ++ [0] ++ namesOf content

def namesOf : List FSTBuilderNode → Bytes
  | [] => []
  | x :: xs => nodeNames x ++ namesOf xs

end

section Placement
variable (p : FSTConfig)

mutual

/-- The tree with the place of every file, and the address behind it, if the first
    file can start at `dataOffset`. -/
def placeNode : FSTBuilderNode → Nat → TreeEntry × Nat
  | file name size _, dataOffset =>
    let address := p.fileAddress dataOffset size
    (TreeEntry.file name size address, alignUp (address + size) p.dataAlignment)
  | folder name _ content, dataOffset =>
    let c := place content dataOffset
    (TreeEntry.folder name c.1, c.2)

def place : List FSTBuilderNode → Nat → List TreeEntry × Nat
  | [], dataOffset => ([], dataOffset)
  | x :: xs, dataOffset =>
    let e := placeNode x dataOffset
    let r := place xs e.2
    (e.1 :: r.1, r.2)

end

mutual

def nodeContents : FSTBuilderNode → Nat → List DiscContent
  | file _ size content, dataOffset => addContents (p.fileAddress dataOffset size) content
  | folder _ _ content, dataOffset => contentsOf content dataOffset

def contentsOf : List FSTBuilderNode → Nat → List DiscContent
  | [], _ => []
  | x :: xs, dataOffset => nodeContents x dataOffset ++ contentsOf xs (placeNode p x dataOffset).2

end

mutual

/-- The entries of a tree below the entry `parent`, the first of them with index
    `index` and with its name at `nameOffset`. -/
def nodeEntries : FSTBuilderNode → Nat → Nat → Nat → Nat → Bytes
  | file _ size _, _, _, nameOffset, dataOffset =>
    entryBytes fileEntry nameOffset (p.fileAddress dataOffset size / 2 ^ p.addressShift) size
  | folder name size content, parent, index, nameOffset, dataOffset =>
    entryBytes directoryEntry nameOffset parent (index + size + 1) ++
      entriesOf content index (index + 1) (nameOffset + (name.length + 1)) dataOffset

def entriesOf : List FSTBuilderNode → Nat → Nat → Nat → Nat → Bytes
  | [], _, _, _, _ => []
  | x :: xs, parent, index, nameOffset, dataOffset =>
    nodeEntries x parent index nameOffset dataOffset ++
      entriesOf xs parent (index + nodeCount x) (nameOffset + nodeNameSize x)
        (placeNode p x dataOffset).2

end

end Placement

section Names
variable (P : Bytes → Prop)

mutual

/-- All names of the tree satisfy `P`. -/
def NodeAllNames : FSTBuilderNode → Prop
  | file name _ _ => P name
  | folder name _ content => P name ∧ AllNames content

def AllNames : List FSTBuilderNode → Prop
  | [] => True
  | x :: xs => NodeAllNames x ∧ AllNames xs

end

end Names

/-! ### Their lengths -/

@[simp] theorem length_entryBytes (type : UInt8) (n w1 w2 : Nat) :
    (entryBytes type n w1 w2).length = entrySize := by
  simp [entryBytes, entrySize]

mutual

theorem length_nodeEntries (p : FSTConfig) : ∀ (x : FSTBuilderNode)
    (parent index nameOffset dataOffset : Nat),
    (nodeEntries p x parent index nameOffset dataOffset).length = entrySize * nodeCount x
  | file _ _ _, _, _, _, _ => by rw [nodeEntries, length_entryBytes, nodeCount, Nat.mul_one]
  | folder _ _ content, _, _, _, _ => by
    rw [nodeEntries, List.length_append, length_entryBytes, length_entriesOf p content, nodeCount,
      Nat.mul_add, Nat.add_comm, Nat.mul_one]

theorem length_entriesOf (p : FSTConfig) : ∀ (nodes : List FSTBuilderNode)
    (parent index nameOffset dataOffset : Nat),
    (entriesOf p nodes parent index nameOffset dataOffset).length = entrySize * entryCount nodes
  | [], _, _, _, _ => rfl
  | x :: xs, _, _, _, _ => by
    rw [entriesOf, List.length_append, length_nodeEntries p x, length_entriesOf p xs, entryCount,
      Nat.mul_add]

end

mutual

theorem length_nodeNames : ∀ x : FSTBuilderNode, (nodeNames x).length = nodeNameSize x
  | file _ _ _ => by simp [nodeNames, nodeNameSize]
  | folder _ _ content => by
    have := length_namesOf content
    simp [nodeNames, nodeNameSize, this]
    omega

theorem length_namesOf : ∀ nodes : List FSTBuilderNode,
    (namesOf nodes).length = computeNameSize nodes
  | [] => rfl
  | x :: xs => by
    rw [namesOf, List.length_append, length_nodeNames x, length_namesOf xs, computeNameSize]

end

mutual

theorem recalculateNode_fst : ∀ x : FSTBuilderNode, (recalculateNode x).1 = nodeCount x
  | file _ _ _ => rfl
  | folder _ _ content => by
    simp only [recalculateNode, nodeCount, recalculateFolderSizes_fst content, Nat.add_comm]

theorem recalculateFolderSizes_fst : ∀ nodes : List FSTBuilderNode,
    (recalculateFolderSizes nodes).1 = entryCount nodes
  | [] => rfl
  | x :: xs => by
    simp only [recalculateFolderSizes, entryCount, recalculateNode_fst x,
      recalculateFolderSizes_fst xs]

end

mutual

theorem nodeCount_le : ∀ x : FSTBuilderNode, nodeCount x ≤ nodeNameSize x
  | file _ _ _ => by simp only [nodeCount, nodeNameSize]; omega
  | folder _ _ content => by
    have := entryCount_le content
    simp only [nodeCount, nodeNameSize]; omega

theorem entryCount_le : ∀ nodes : List FSTBuilderNode, entryCount nodes ≤ computeNameSize nodes
  | [] => Nat.le_refl _
  | x :: xs => by
    have := nodeCount_le x
    have := entryCount_le xs
    simp only [entryCount, computeNameSize]; omega

end

theorem nodeCount_pos (x : FSTBuilderNode) : 0 < nodeCount x := by
  cases x <;> simp only [nodeCount] <;> omega

/-! ### The vector and its cursors -/

/-- The vector holds the entries `entries` and the names `names`, each followed by
    zeros, and the cursors stand behind them. -/
structure Holds (nameTableOffset : Nat) (entries names : Bytes) (z1 z2 : Nat) (w : FSTWriter) :
    Prop where
  data : w.fstData = (entries ++ List.replicate z1 0) ++ (names ++ List.replicate z2 0)
  fstOffset : w.fstOffset = entries.length
  nameOffset : w.nameOffset = names.length
  nameTable : nameTableOffset = entries.length + z1

section Writer
variable {nameTableOffset z1 z2 : Nat} {entries names : Bytes} {w : FSTWriter}

theorem writeEntryData_holds (type : UInt8) (n dataOffset length shift : Nat)
    (h : Holds nameTableOffset entries names (entrySize + z1) z2 w) :
    Holds nameTableOffset (entries ++ entryBytes type n (dataOffset / 2 ^ shift) length) names z1 z2
      (w.writeEntryData type n dataOffset length shift) := by
  refine ⟨?_, ?_, h.nameOffset, ?_⟩
  · simp only [FSTWriter.writeEntryData]
    rw [h.data, h.fstOffset, List.append_assoc, splice_append, length_entryBytes,
      List.drop_append_of_le_length (by simp), List.drop_replicate, Nat.add_sub_cancel_left]
    simp only [List.append_assoc]
  · simp only [FSTWriter.writeEntryData, h.fstOffset, List.length_append, length_entryBytes]
  · rw [h.nameTable, List.length_append, length_entryBytes]; omega

theorem copiedName_eq {name : Bytes} (hname : 0 ∉ name) :
    FSTWriter.copiedName name = name ++ [0] := by
  have htake : name.takeWhile (fun b => decide (b ≠ 0)) = name := by
    refine List.takeWhile_eq_self_iff.2 fun b hb => ?_
    have : b ≠ 0 := fun h0 => hname (h0 ▸ hb)
    simpa using this
  simp only [FSTWriter.copiedName, htake, Nat.add_sub_cancel_left]
  rfl

theorem writeEntryName_holds {name : Bytes} (hname : 0 ∉ name)
    (h : Holds nameTableOffset entries names z1 (name.length + 1 + z2) w) :
    Holds nameTableOffset entries (names ++ (name ++ [0])) z1 z2
      (w.writeEntryName name nameTableOffset) := by
  refine ⟨?_, h.fstOffset, ?_, h.nameTable⟩
  · have hoff : w.nameOffset + nameTableOffset =
        ((entries ++ List.replicate z1 0) ++ names).length := by
      rw [h.nameOffset, h.nameTable]; simp; omega
    simp only [FSTWriter.writeEntryName]
    rw [h.data, copiedName_eq hname, hoff, ← List.append_assoc, splice_append, List.length_append,
      List.length_singleton, List.drop_replicate, Nat.add_sub_cancel_left]
    simp only [List.append_assoc]
  · simp only [FSTWriter.writeEntryName, h.nameOffset, List.length_append, List.length_singleton]

end Writer

/-- What writing a piece of a tree has to do: append its entries and its names,
    place its files and add their contents. -/
structure Writes (nameTableOffset : Nat) (newEntries newNames : Bytes) (dataOffset : Nat)
    (newContents : List DiscContent) (write : FSTWriter → FSTWriter) (w : FSTWriter) : Prop where
  holds : ∀ {entries names : Bytes} {z1 z2 : Nat},
    Holds nameTableOffset entries names (newEntries.length + z1) (newNames.length + z2) w →
    Holds nameTableOffset (entries ++ newEntries) (names ++ newNames) z1 z2 (write w)
  dataOffset : (write w).dataOffset = dataOffset
  contents : (write w).contents = w.contents ++ newContents

section Directory
variable (p : FSTConfig) {nameTableOffset : Nat}

mutual

theorem writeNode_fstOffset (nameTableOffset : Nat) : ∀ (x : FSTBuilderNode) (parent : Nat)
    (w : FSTWriter),
    (writeNode p nameTableOffset x parent w).fstOffset = w.fstOffset + entrySize * nodeCount x
  | file _ _ _, _, _ => rfl
  | folder _ _ content, _, w => by
    rw [writeNode, writeDirectory_fstOffset nameTableOffset content, nodeCount]
    show w.fstOffset + entrySize + _ = _
    rw [Nat.mul_add, Nat.mul_one]; omega

theorem writeDirectory_fstOffset (nameTableOffset : Nat) : ∀ (nodes : List FSTBuilderNode)
    (parent : Nat) (w : FSTWriter),
    (writeDirectory p nameTableOffset nodes parent w).fstOffset =
      w.fstOffset + entrySize * entryCount nodes
  | [], _, _ => rfl
  | x :: xs, _, _ => by
    rw [writeDirectory, writeDirectory_fstOffset nameTableOffset xs,
      writeNode_fstOffset nameTableOffset x, entryCount, Nat.mul_add, Nat.add_assoc]

end

mutual

theorem writeNode_nameOffset (nameTableOffset : Nat) : ∀ (x : FSTBuilderNode) (parent : Nat)
    (w : FSTWriter),
    (writeNode p nameTableOffset x parent w).nameOffset = w.nameOffset + nodeNameSize x
  | file _ _ _, _, _ => rfl
  | folder name _ content, _, w => by
    rw [writeNode, writeDirectory_nameOffset nameTableOffset content, nodeNameSize]
    show w.nameOffset + (name.length + 1) + _ = _
    omega

theorem writeDirectory_nameOffset (nameTableOffset : Nat) : ∀ (nodes : List FSTBuilderNode)
    (parent : Nat) (w : FSTWriter),
    (writeDirectory p nameTableOffset nodes parent w).nameOffset =
      w.nameOffset + computeNameSize nodes
  | [], _, _ => rfl
  | x :: xs, _, _ => by
    rw [writeDirectory, writeDirectory_nameOffset nameTableOffset xs,
      writeNode_nameOffset nameTableOffset x, computeNameSize, Nat.add_assoc]

end

mutual

theorem writeNode_writes : ∀ (x : FSTBuilderNode) (parent index : Nat) (w : FSTWriter),
    NodeAllNames (0 ∉ ·) x → w.fstOffset = entrySize * index →
    Writes nameTableOffset (nodeEntries p x parent index w.nameOffset w.dataOffset) (nodeNames x)
      (placeNode p x w.dataOffset).2 (nodeContents p x w.dataOffset)
      (writeNode p nameTableOffset x parent) w
  | file name size content, parent, index, w, hnul, hindex => by
    refine ⟨?_, rfl, rfl⟩
    intro entries names z1 z2 h
    rw [nodeEntries, length_entryBytes, nodeNames, List.length_append, List.length_singleton] at h
    have hdone := writeEntryName_holds hnul (writeEntryData_holds fileEntry w.nameOffset
      (p.fileAddress w.dataOffset size) size p.addressShift h)
    exact ⟨hdone.data, hdone.fstOffset, hdone.nameOffset, hdone.nameTable⟩
  | folder name size content, parent, index, w, hnul, hindex => by
    obtain ⟨hname, hcontent⟩ := hnul
    have hentry : w.fstOffset / entrySize = index := by
      rw [hindex, Nat.mul_div_cancel_left _ (by decide)]
    let w1 := (w.writeEntryData directoryEntry w.nameOffset parent (index + size + 1) 0).writeEntryName
      name nameTableOffset
    have hw1 : writeNode p nameTableOffset (folder name size content) parent w =
        writeDirectory p nameTableOffset content index w1 := by
      rw [writeNode, hentry]
    have hrec := writeDirectory_writes content index (index + 1) w1 hcontent (by
      show w.fstOffset + entrySize = _
      rw [hindex, Nat.mul_add, Nat.mul_one])
    have hoffset : w1.nameOffset = w.nameOffset + (name.length + 1) := rfl
    have hdata : w1.dataOffset = w.dataOffset := rfl
    rw [hoffset, hdata] at hrec
    refine ⟨?_, by rw [hw1]; exact hrec.dataOffset, by rw [hw1]; exact hrec.contents⟩
    intro entries names z1 z2 h
    rw [nodeEntries, nodeNames, List.length_append, List.length_append, List.length_append,
      length_entryBytes, List.length_singleton, Nat.add_assoc, Nat.add_assoc (name.length + 1)] at h
    have hstart := writeEntryName_holds hname (writeEntryData_holds directoryEntry w.nameOffset
      parent (index + size + 1) 0 h)
    rw [Nat.pow_zero, Nat.div_one] at hstart
    have hdone := hrec.holds hstart
    rw [hw1, nodeEntries, nodeNames]
    simpa only [List.append_assoc] using hdone

theorem writeDirectory_writes : ∀ (nodes : List FSTBuilderNode) (parent index : Nat)
    (w : FSTWriter), AllNames (0 ∉ ·) nodes → w.fstOffset = entrySize * index →
    Writes nameTableOffset (entriesOf p nodes parent index w.nameOffset w.dataOffset)
      (namesOf nodes) (place p nodes w.dataOffset).2 (contentsOf p nodes w.dataOffset)
      (writeDirectory p nameTableOffset nodes parent) w
  | [], parent, index, w, _, _ => by
    refine ⟨?_, rfl, by simp [writeDirectory, contentsOf]⟩
    intro entries names z1 z2 h
    simpa [entriesOf, namesOf, writeDirectory] using h
  | x :: xs, parent, index, w, hnul, hindex => by
    have hfirst := writeNode_writes x parent index w hnul.1 hindex
    let w1 := writeNode p nameTableOffset x parent w
    have hoffset : w1.fstOffset = entrySize * (index + nodeCount x) := by
      rw [writeNode_fstOffset p nameTableOffset x, hindex, Nat.mul_add]
    have hname : w1.nameOffset = w.nameOffset + nodeNameSize x :=
      writeNode_nameOffset p nameTableOffset x parent w
    have hrest := writeDirectory_writes xs parent (index + nodeCount x) w1 hnul.2 hoffset
    rw [hname, hfirst.dataOffset] at hrest
    refine ⟨?_, hrest.dataOffset, ?_⟩
    · intro entries names z1 z2 h
      rw [entriesOf, namesOf, List.length_append, List.length_append, Nat.add_assoc,
        Nat.add_assoc] at h
      have hdone := hrest.holds (hfirst.holds h)
      rw [entriesOf, namesOf, writeDirectory]
      simpa only [List.append_assoc] using hdone
    · have h1 := hrest.contents
      have h2 := hfirst.contents
      rw [writeDirectory, h1, h2, contentsOf, List.append_assoc]

end

end Directory

/-! ### The tree that is written -/

theorem allNames_iff {P : Bytes → Prop} : ∀ {l : List FSTBuilderNode},
    AllNames P l ↔ ∀ x ∈ l, NodeAllNames P x
  | [] => by simp [AllNames]
  | x :: xs => by rw [AllNames, allNames_iff, List.forall_mem_cons]

theorem entryCount_eq_sum : ∀ l : List FSTBuilderNode, entryCount l = (l.map nodeCount).sum
  | [] => rfl
  | x :: xs => by rw [entryCount, entryCount_eq_sum xs, List.map_cons, List.sum_cons]

theorem computeNameSize_eq_sum : ∀ l : List FSTBuilderNode,
    computeNameSize l = (l.map nodeNameSize).sum
  | [] => rfl
  | x :: xs => by rw [computeNameSize, computeNameSize_eq_sum xs, List.map_cons, List.sum_cons]

theorem convertUTF8NamesToSHIFTJIS_eq_map (conv : Bytes → Bytes) : ∀ l : List FSTBuilderNode,
    convertUTF8NamesToSHIFTJIS conv l = l.map (convertNode conv)
  | [] => rfl
  | x :: xs => by
    rw [convertUTF8NamesToSHIFTJIS, convertUTF8NamesToSHIFTJIS_eq_map conv xs, List.map_cons]

theorem recalculateFolderSizes_eq_map : ∀ l : List FSTBuilderNode,
    (recalculateFolderSizes l).2 = l.map fun x => (recalculateNode x).2
  | [] => rfl
  | x :: xs => by
    simp only [recalculateFolderSizes, recalculateFolderSizes_eq_map xs, List.map_cons]

theorem sortBelow_eq_map : ∀ l : List FSTBuilderNode, sortBelow l = l.map sortNode
  | [] => rfl
  | x :: xs => by rw [sortBelow, sortBelow_eq_map xs, List.map_cons]

theorem convertNode_eq_self {conv : Bytes → Bytes} :
    ∀ x, NodeAllNames (fun name => conv name = name) x → convertNode conv x = x := by
  refine FSTBuilderNode.node_induction ?_ ?_
  · intro name size content h
    rw [convertNode, h]
  · intro name size content ih h
    have hcontent : content.map (convertNode conv) = content := by
      rw [List.map_congr_left fun x hx => ih x hx (allNames_iff.1 h.2 x hx), List.map_id']
    rw [convertNode, h.1, convertUTF8NamesToSHIFTJIS_eq_map, hcontent]

/-- What becomes of a node before it is written: folder sizes counted, folders
    sorted. -/
def prepareNode (x : FSTBuilderNode) : FSTBuilderNode := sortNode (recalculateNode x).2

/-- The entries of a folder as `WriteDirectory` meets them. -/
def prepare (nodes : List FSTBuilderNode) : List FSTBuilderNode :=
  sortEntries (recalculateFolderSizes nodes).2

theorem prepare_perm (nodes : List FSTBuilderNode) :
    (prepare nodes).Perm (nodes.map prepareNode) := by
  unfold prepare sortEntries
  rw [recalculateFolderSizes_eq_map, sortBelow_eq_map, List.map_map]
  exact List.mergeSort_perm _ _

theorem prepareNode_folder (name : Bytes) (size : Nat) (content : List FSTBuilderNode) :
    prepareNode (folder name size content) = folder name (entryCount content) (prepare content) := by
  simp only [prepareNode, recalculateNode, sortNode, recalculateFolderSizes_fst, prepare,
    sortEntries]

theorem sum_prepare {f : FSTBuilderNode → Nat} {nodes : List FSTBuilderNode}
    (h : ∀ x ∈ nodes, f (prepareNode x) = f x) :
    ((prepare nodes).map f).sum = (nodes.map f).sum := by
  rw [((prepare_perm nodes).map f).sum_nat, List.map_map]
  exact congrArg List.sum (List.map_congr_left h)

theorem nodeCount_prepareNode : ∀ x, nodeCount (prepareNode x) = nodeCount x := by
  refine FSTBuilderNode.node_induction (fun _ _ _ => rfl) ?_
  intro name size content ih
  rw [prepareNode_folder, nodeCount, nodeCount, entryCount_eq_sum, entryCount_eq_sum,
    sum_prepare ih]

theorem nodeNameSize_prepareNode : ∀ x, nodeNameSize (prepareNode x) = nodeNameSize x := by
  refine FSTBuilderNode.node_induction (fun _ _ _ => rfl) ?_
  intro name size content ih
  rw [prepareNode_folder, nodeNameSize, nodeNameSize, computeNameSize_eq_sum,
    computeNameSize_eq_sum, sum_prepare ih]

theorem entryCount_prepare (nodes : List FSTBuilderNode) :
    entryCount (prepare nodes) = entryCount nodes := by
  rw [entryCount_eq_sum, entryCount_eq_sum, sum_prepare fun x _ => nodeCount_prepareNode x]

theorem computeNameSize_prepare (nodes : List FSTBuilderNode) :
    computeNameSize (prepare nodes) = computeNameSize nodes := by
  rw [computeNameSize_eq_sum, computeNameSize_eq_sum,
    sum_prepare fun x _ => nodeNameSize_prepareNode x]

theorem forall_prepare {P : FSTBuilderNode → Prop} {nodes : List FSTBuilderNode}
    (h : ∀ x ∈ nodes, P (prepareNode x)) : ∀ x ∈ prepare nodes, P x := by
  intro x hx
  obtain ⟨y, hy, rfl⟩ := List.mem_map.1 ((prepare_perm nodes).mem_iff.1 hx)
  exact h y hy

theorem nodeAllNames_prepareNode {P : Bytes → Prop} :
    ∀ x, NodeAllNames P x → NodeAllNames P (prepareNode x) := by
  refine FSTBuilderNode.node_induction (fun _ _ _ h => h) ?_
  intro name size content ih h
  rw [prepareNode_folder]
  exact ⟨h.1, allNames_iff.2 (forall_prepare fun x hx => ih x hx (allNames_iff.1 h.2 x hx))⟩

theorem allNames_prepare {P : Bytes → Prop} {nodes : List FSTBuilderNode} (h : AllNames P nodes) :
    AllNames P (prepare nodes) :=
  allNames_iff.2 (forall_prepare fun x hx => nodeAllNames_prepareNode x (allNames_iff.1 h x hx))

mutual

def NodeCounted : FSTBuilderNode → Prop
  | file _ _ _ => True
  | folder _ size content => size = entryCount content ∧ Counted content

def Counted : List FSTBuilderNode → Prop
  | [] => True
  | x :: xs => NodeCounted x ∧ Counted xs

end

theorem counted_iff : ∀ {l : List FSTBuilderNode}, Counted l ↔ ∀ x ∈ l, NodeCounted x
  | [] => by simp [Counted]
  | x :: xs => by rw [Counted, counted_iff, List.forall_mem_cons]

theorem nodeCounted_prepareNode : ∀ x, NodeCounted (prepareNode x) := by
  refine FSTBuilderNode.node_induction (fun _ _ _ => trivial) ?_
  intro name size content ih
  rw [prepareNode_folder]
  exact ⟨(entryCount_prepare content).symm, counted_iff.2 (forall_prepare ih)⟩

theorem counted_prepare (nodes : List FSTBuilderNode) : Counted (prepare nodes) :=
  counted_iff.2 (forall_prepare fun x _ => nodeCounted_prepareNode x)

/-! ### The finished table -/

/-- The table `BuildFST` writes for the tree `nodes`, whose data starts at
    `dataOffset`. -/
def tableOf (p : FSTConfig) (nodes : List FSTBuilderNode) (dataOffset : Nat) : Bytes :=
  let names := alignUp (computeNameSize nodes) (2 ^ p.addressShift)
  (entryBytes directoryEntry 0 0 (entryCount nodes + 1) ++
    entriesOf p (prepare nodes) 0 1 0 dataOffset) ++
    (namesOf (prepare nodes) ++ List.replicate (names - computeNameSize nodes) 0)

def tableSize (p : FSTConfig) (nodes : List FSTBuilderNode) : Nat :=
  entrySize * (entryCount nodes + 1) + alignUp (computeNameSize nodes) (2 ^ p.addressShift)

def dataStart (p : FSTConfig) (nodes : List FSTBuilderNode) (fstAddress : Nat) : Nat :=
  alignUp (fstAddress + tableSize p nodes) 0x8000

theorem length_tableOf (p : FSTConfig) (nodes : List FSTBuilderNode) (dataOffset : Nat) :
    (tableOf p nodes dataOffset).length = tableSize p nodes := by
  have hle : computeNameSize nodes ≤ alignUp (computeNameSize nodes) (2 ^ p.addressShift) :=
    le_alignUp (Nat.two_pow_pos _)
  simp only [tableOf, tableSize, List.length_append, length_entryBytes, length_entriesOf,
    entryCount_prepare, length_namesOf, computeNameSize_prepare, List.length_replicate]
  simp only [entrySize]
  omega

theorem buildFST_data (p : FSTConfig) (conv : Bytes → Bytes) (nodes : List FSTBuilderNode)
    (fstAddress : Nat) (discHeader : Bytes) (hconv : AllNames (fun s => conv s = s) nodes)
    (hnul : AllNames (0 ∉ ·) nodes) :
    let built := buildFST p conv nodes fstAddress discHeader
    let start := dataStart p nodes fstAddress
    built.fstData = tableOf p nodes start ∧
      contentsOf p (prepare nodes) start ⊆ built.contents := by
  have hself : convertUTF8NamesToSHIFTJIS conv nodes = nodes := by
    rw [convertUTF8NamesToSHIFTJIS_eq_map,
      List.map_congr_left fun x hx => convertNode_eq_self x (allNames_iff.1 hconv x hx),
      List.map_id']
  have hcount : (recalculateFolderSizes nodes).1 = entryCount nodes :=
    recalculateFolderSizes_fst nodes
  let nameTableSize := alignUp (computeNameSize nodes) (2 ^ p.addressShift)
  have hle : computeNameSize nodes ≤ nameTableSize := le_alignUp (Nat.two_pow_pos _)
  let w0 : FSTWriter :=
    { fstData := List.replicate ((entryCount nodes + 1) * entrySize + nameTableSize) 0
      fstOffset := 0, nameOffset := 0, contents := []
      dataOffset := dataStart p nodes fstAddress }
  -- The vector of zeros, with the room of the entries and of the names told apart.
  have h0 : Holds ((entryCount nodes + 1) * entrySize) [] []
      (entrySize + (entrySize * entryCount nodes + 0))
      (computeNameSize nodes + (nameTableSize - computeNameSize nodes)) w0 := by
    refine ⟨?_, rfl, rfl, ?_⟩
    · simp only [w0, List.nil_append, List.replicate_append_replicate]
      congr 1
      simp only [entrySize]; omega
    · simp only [List.length_nil, entrySize]; omega
  have h1 := writeEntryData_holds directoryEntry 0 0 (entryCount nodes + 1) p.addressShift h0
  rw [Nat.zero_div] at h1
  have hwrites := @writeDirectory_writes p ((entryCount nodes + 1) * entrySize) (prepare nodes) 0 1
    (w0.writeEntryData directoryEntry 0 0 (entryCount nodes + 1) p.addressShift)
    (allNames_prepare hnul) rfl
  have hbuilt : (buildFST p conv nodes fstAddress discHeader).fstData =
      (writeDirectory p ((entryCount nodes + 1) * entrySize) (prepare nodes) 0
        (w0.writeEntryData directoryEntry 0 0 (entryCount nodes + 1) p.addressShift)).fstData ∧
      (buildFST p conv nodes fstAddress discHeader).contents =
      (writeDirectory p ((entryCount nodes + 1) * entrySize) (prepare nodes) 0
        (w0.writeEntryData directoryEntry 0 0 (entryCount nodes + 1) p.addressShift)).contents ++
        add fstAddress (buildFST p conv nodes fstAddress discHeader).fstData.length
          (ContentSource.memory (buildFST p conv nodes fstAddress discHeader).fstData) := by
    have hstart : alignUp (fstAddress + ((entryCount nodes + 1) * entrySize + nameTableSize)) 0x8000 =
        dataStart p nodes fstAddress := by
      rw [dataStart, tableSize, Nat.mul_comm]
    simp only [buildFST, hself, hcount, List.length_replicate, w0, prepare, hstart, nameTableSize]
    exact ⟨trivial, trivial⟩
  have hentries : (entriesOf p (prepare nodes) 0 1 0 (dataStart p nodes fstAddress)).length =
      entrySize * entryCount nodes := by
    rw [length_entriesOf, entryCount_prepare]
  have hnames : (namesOf (prepare nodes)).length = computeNameSize nodes := by
    rw [length_namesOf, computeNameSize_prepare]
  rw [← hentries, ← hnames] at h1
  have hdone := (hwrites.holds h1).data
  have hcontents := hwrites.contents
  refine ⟨?_, ?_⟩
  · rw [hbuilt.1, hdone, hnames]
    simp only [List.nil_append, List.replicate_zero, List.append_nil]
    rfl
  · rw [hbuilt.2, hcontents]
    exact fun c hc => List.mem_append_left _ (List.mem_append_right _ hc)

end DolphinXR.DiscIO.DirectoryBlob
