import DolphinXR.Core.PointerChains

/- The pointer scan. Every path it returns leads to the target, over pointers that no excluded range
   holds. A fixed word ends the search where it meets one, and what points past the last address is
   not followed around: for every fixed word with a chain that goes through no other fixed word, and
   over no such end, a scan that was not cut short returns a shortest one. -/
namespace DolphinXR.AgentServer.PointerScan

section
variable {scan : Scan} {target : Address} {depth : Nat} {frontier : List Nat} {s : Search}

/-! The search level by level. -/

/-- No way of one pointer or more is shorter. -/
def Scan.ShortestRead (scan : Scan) (target location : Address) (offsets : List Address) : Prop :=
  scan.Leads target location offsets ∧ offsets ≠ [] ∧
    ∀ offsets', scan.Leads target location offsets' → offsets' ≠ [] →
      offsets.length ≤ offsets'.length

/-- What has been found when the ways of some length are all that is left to go on from. -/
structure Scan.Complete (scan : Scan) (target : Address) (depth : Nat) (frontier : List Nat)
    (s : Search) : Prop where
  frontier : depth < scan.options.maxDepth → ∀ address offsets,
    scan.Shortest target address offsets → offsets.length = depth →
      ∃ index ∈ frontier, (s.nodes[index]?).map Node.address = some address
  paths : ∀ location offsets, inRanges scan.staticRanges location = true →
    scan.ShortestRead target location offsets → offsets.length ≤ depth →
      ∃ path ∈ s.paths, path.base = location ∧ path.offsets.length = offsets.length

/-- The search before a level, with the nodes it goes on from. -/
structure Scan.Before (scan : Scan) (target : Address) (depth : Nat) (frontier : List Nat)
    (s : Search) : Prop where
  sound : scan.Sound target depth { s with next := frontier }
  complete : 0 < scan.options.maxResults → s.truncated = false →
    scan.Complete target depth frontier s

theorem Scan.Before.followed (h : scan.Before target depth frontier s)
    (hdepth : depth + 1 ≤ scan.options.maxDepth) :
    scan.Followed target (depth + 1) s.visited frontier { s with next := [] }
      (scan.visitFrontier (depth + 1) frontier { s with next := [] }) := by
  refine scan.visitFrontier_followed ⟨?_, fun _ => .inl⟩ hdepth ?_
  · refine ⟨h.sound.nodes, fun address hmem => ?_, List.forall_mem_nil _, h.sound.paths,
      h.sound.truncated⟩
    obtain ⟨offsets, hinner, hlength⟩ := h.sound.visited address hmem
    exact ⟨offsets, hinner, Nat.le_succ_of_le hlength⟩
  · intro index hmem
    obtain ⟨hlt, hlength⟩ := h.sound.next index hmem
    exact ⟨hlt, congrArg (· + 1) hlength⟩

theorem Scan.Before.level (h : scan.Before target depth frontier s)
    (hdepth : depth + 1 ≤ scan.options.maxDepth) :
    scan.Before target (depth + 1)
      (scan.visitFrontier (depth + 1) frontier { s with next := [] }).next
      (scan.visitFrontier (depth + 1) frontier { s with next := [] }) := by
  have hfollowed := h.followed hdepth
  generalize scan.visitFrontier (depth + 1) frontier { s with next := [] } = s' at hfollowed ⊢
  refine ⟨hfollowed.level.sound, fun hpos htrunc => ?_⟩
  have hbefore : s.truncated = false := by
    rw [← Bool.not_eq_true] at htrunc ⊢
    exact fun ht => htrunc (hfollowed.grows.truncated ht)
  have hcomplete := h.complete hpos hbefore
  -- The first pointer of a shortest way leads to a node of this level.
  have hdone : ∀ location offsets, scan.Leads target location offsets →
      offsets.length = depth + 1 → (∀ offsets', scan.Leads target location offsets' →
        offsets' ≠ [] → offsets.length ≤ offsets'.length) →
      scan.Done (depth + 1) location s' := by
    intro location offsets hleads hlength hshortest
    have hne : offsets ≠ [] := List.ne_nil_of_length_eq_add_one hlength
    obtain ⟨address, value, rest, hhit, hrest, hlength'⟩ := hleads.exists_shortest hne hshortest
    obtain ⟨index, hindex, haddress⟩ :=
      hcomplete.frontier (by omega) address rest hrest (by omega)
    exact hfollowed.done hpos htrunc index hindex address haddress _ hhit
  constructor
  · intro hlt address offsets hshortest hlength
    have hne : offsets ≠ [] := List.ne_nil_of_length_eq_add_one hlength
    have hinner := hshortest.1.inner hne
    have hvisited : address ∈ s'.visited := by
      refine (hdone address offsets hshortest.1.leads hlength ?_).visited hinner hlt
      exact fun offsets' hleads _ => hshortest.2 offsets' ⟨hleads, fun _ => hinner⟩
    rcases hfollowed.level.fresh address hvisited with hold | ht | ⟨index, hindex, n, hn, rfl⟩
    · obtain ⟨shorter, hshorter, hle⟩ := h.sound.visited address hold
      have := hshortest.2 shorter hshorter
      omega
    · rw [htrunc] at ht
      cases ht
    · exact ⟨index, hindex, congrArg (Option.map Node.address) hn⟩
  · intro location offsets hstatic hshortest hle
    rcases Nat.lt_or_eq_of_le hle with hlt | heq
    · obtain ⟨path, hmem, hpath⟩ :=
        hcomplete.paths location offsets hstatic hshortest (Nat.le_of_lt_succ hlt)
      exact ⟨path, hfollowed.grows.paths path hmem, hpath⟩
    · obtain ⟨path, hmem, hbase, hlength⟩ :=
        (hdone location offsets hshortest.1 heq hshortest.2.2).path hstatic
      exact ⟨path, hmem, hbase, hlength.trans heq.symm⟩

theorem Scan.search_nil (rounds : Nat) : scan.search depth rounds [] s = s := by
  cases rounds with
  | zero => rfl
  | succ rounds => rw [Scan.search, if_pos rfl]

structure Scan.Finished (scan : Scan) (target : Address) (s : Search) : Prop where
  paths : ∀ path ∈ s.paths, inRanges scan.staticRanges path.base = true ∧
    scan.Leads target path.base path.offsets ∧ path.offsets ≠ [] ∧
    path.offsets.length ≤ scan.options.maxDepth
  complete : 0 < scan.options.maxResults → s.truncated = false →
    ∀ location offsets, inRanges scan.staticRanges location = true →
      scan.ShortestRead target location offsets → offsets.length ≤ scan.options.maxDepth →
        ∃ path ∈ s.paths, path.base = location ∧ path.offsets.length = offsets.length

theorem Scan.search_finished {rounds : Nat} (h : scan.Before target depth frontier s)
    (hrounds : depth + rounds = scan.options.maxDepth) :
    scan.Finished target (scan.search (depth + 1) rounds frontier s) := by
  induction rounds generalizing depth frontier s with
  | zero => exact ⟨h.sound.paths, fun hpos htrunc => hrounds ▸ (h.complete hpos htrunc).paths⟩
  | succ rounds ih =>
    have hlevel := h.level (by omega)
    have hlater := ih hlevel (by omega)
    rw [Scan.search]
    split
    · -- Nothing is left to go on from, and the levels that follow find nothing.
      rename_i hnil
      subst hnil
      rw [Scan.visitFrontier, Scan.search_nil] at hlater
      exact ⟨hlater.paths, hlater.complete⟩
    · dsimp only
      split
      · rename_i hfull
        refine ⟨hlevel.sound.paths, fun hpos htrunc => ?_⟩
        rw [hlevel.sound.truncated hfull hpos] at htrunc
        cases htrunc
      · exact hlater

theorem Scan.Before.start (scan : Scan) (target : Address) :
    scan.Before target 0 [0] { nodes := [⟨target, 0, none⟩], visited := [target] } := by
  have hsuffix : suffix [⟨target, 0, none⟩] 0 = [] := by
    rw [suffix]
    rfl
  have hinner : scan.Inner target target [] := ⟨.target, fun hne => absurd rfl hne⟩
  constructor
  · refine ⟨?_, ?_, ?_, List.forall_mem_nil _, ?_⟩
    · intro index node hnode
      obtain ⟨rfl, rfl⟩ : index = 0 ∧ (⟨target, 0, none⟩ : Node) = node := by
        rw [List.getElem?_singleton] at hnode
        split at hnode
        · cases hnode
          exact ⟨by assumption, rfl⟩
        · cases hnode
      exact hsuffix ▸ hinner
    · exact List.forall_mem_singleton.2 ⟨[], hinner, le_rfl⟩
    · exact List.forall_mem_singleton.2 ⟨Nat.zero_lt_one, congrArg List.length hsuffix⟩
    · intro hmax hpos
      exact absurd hmax (Nat.not_le.2 hpos)
  · intro _ _
    constructor
    · intro _ address offsets hshortest hlength
      obtain rfl := List.length_eq_zero_iff.1 hlength
      cases hshortest.1.leads
      exact ⟨0, List.mem_singleton.2 rfl, rfl⟩
    · intro location offsets _ hshortest hlength
      exact absurd (List.length_eq_zero_iff.1 (Nat.le_zero.1 hlength)) hshortest.2.1

end

/-! Chains of pointers. -/

def Reads (regions : List Region) (read : Address → Option Address) : Prop :=
  ∀ location value, IsWord regions location value → read location = some value

section
variable (regions : List Region) (target : Address) (staticRanges excluded : List Range)
  (maxOffset : Address)

/-- The offsets of a chain from a word to the target, that are added to the pointers it reads. -/
inductive Chain : Address → List Address → Prop where
  | target : Chain target []
  | read {location value offset : Address} {offsets : List Address}
      (hword : IsPointerWord regions excluded location value) (hoffset : offset ≤ maxOffset)
      (hrest : Chain (value + offset) offsets) : Chain location (offset :: offsets)

/-- A chain that goes through no fixed word but its first, and over no end of the addresses. -/
inductive DirectChain : Address → List Address → Prop where
  | target : DirectChain target []
  | read {location value offset : Address} {offsets : List Address}
      (hword : IsPointerWord regions excluded location value) (hoffset : offset ≤ maxOffset)
      (hadd : value ≤ value + offset)
      (hinner : offsets ≠ [] → inRanges staticRanges (value + offset) = false)
      (hrest : DirectChain (value + offset) offsets) : DirectChain location (offset :: offsets)

end

section
variable {regions : List Region} {target : Address} {staticRanges excluded : List Range}
  {maxOffset location : Address} {offsets : List Address}

theorem DirectChain.chain
    (h : DirectChain regions target staticRanges excluded maxOffset location offsets) :
    Chain regions target excluded maxOffset location offsets := by
  induction h with
  | target => exact .target
  | read hword hoffset hadd hinner hrest ih => exact .read hword hoffset ih

theorem Chain.le_maxOffset (h : Chain regions target excluded maxOffset location offsets) :
    ∀ offset ∈ offsets, offset ≤ maxOffset := by
  induction h with
  | target => exact List.forall_mem_nil _
  | read hword hoffset hrest ih => exact List.forall_mem_cons.2 ⟨hoffset, ih⟩

theorem Chain.resolveFrom {read : Address → Option Address} (hreads : Reads regions read)
    (h : Chain regions target excluded maxOffset location offsets) {steps : List Step}
    (hsteps : ∀ step ∈ steps, inRanges excluded step.address = false) :
    (resolveFrom read (isPointer regions) location steps offsets).address = some target ∧
      ∀ step ∈ (resolveFrom read (isPointer regions) location steps offsets).steps,
        inRanges excluded step.address = false := by
  induction h generalizing steps with
  | target => exact ⟨rfl, hsteps⟩
  | read hword hoffset hrest ih =>
    rw [PointerScan.resolveFrom, hreads _ _ hword.1]
    dsimp only
    rw [if_pos hword.2.1]
    refine ih fun step hstep => ?_
    rcases List.mem_append.1 hstep with hstep | hstep
    · exact hsteps step hstep
    · obtain rfl := List.mem_singleton.1 hstep
      exact hword.2.2

theorem leads_iff {scan : Scan} (hindex : scan.index = pointerIndex regions excluded) :
    scan.Leads target location offsets ↔
      DirectChain regions target scan.staticRanges excluded scan.options.maxOffset location
        offsets := by
  have hhits : ∀ {address value location : Address}, (value, location) ∈ scan.hits address ↔
      IsPointerWord regions excluded location value ∧ value ≤ address ∧
        address - value ≤ scan.options.maxOffset := by
    intro address value location
    have hsorted : scan.index.Pairwise pairLe := hindex ▸ List.pairwise_insertionSort pairLe _
    rw [mem_hits_iff hsorted, hindex, mem_pointerIndex_iff]
  constructor
  · intro h
    induction h with
    | target => exact .target
    | @read address value location offsets hhit hinner hrest ih =>
      obtain ⟨hword, hle, hoffset⟩ := hhits.1 hhit
      have haddress : value + (address - value) = address := by
        rw [BitVec.add_comm, BitVec.sub_add_cancel]
      refine .read hword hoffset ?_ ?_ ?_
      · rwa [haddress]
      · rwa [haddress]
      · rwa [haddress]
  · intro h
    induction h with
    | target => exact .target
    | @read location value offset offsets hword hoffset hadd hinner hrest ih =>
      have hsub : value + offset - value = offset := by
        rw [BitVec.add_comm, BitVec.add_sub_cancel]
      have hhit : (value, location) ∈ scan.hits (value + offset) :=
        hhits.2 ⟨hword, hadd, hsub.symm ▸ hoffset⟩
      have hread := Scan.Leads.read hhit hinner ih
      rwa [hsub] at hread

/-- No direct chain from the word is shorter. -/
def IsShortest (regions : List Region) (target : Address) (staticRanges excluded : List Range)
    (maxOffset location : Address) (offsets : List Address) : Prop :=
  DirectChain regions target staticRanges excluded maxOffset location offsets ∧
    ∀ offsets', DirectChain regions target staticRanges excluded maxOffset location offsets' →
      offsets' ≠ [] → offsets.length ≤ offsets'.length

theorem exists_isShortest
    (h : DirectChain regions target staticRanges excluded maxOffset location offsets)
    (hne : offsets ≠ []) : ∃ offsets', offsets' ≠ [] ∧ offsets'.length ≤ offsets.length ∧
      IsShortest regions target staticRanges excluded maxOffset location offsets' := by
  induction hlength : offsets.length using Nat.strongRecOn generalizing offsets with
  | ind length ih =>
    subst hlength
    by_cases hshorter : ∃ offsets', DirectChain regions target staticRanges excluded maxOffset
        location offsets' ∧ offsets' ≠ [] ∧ offsets'.length < offsets.length
    · obtain ⟨offsets', h', hne', hlt⟩ := hshorter
      obtain ⟨shortest, hne'', hle, hshortest⟩ := ih _ hlt h' hne' rfl
      exact ⟨shortest, hne'', hle.trans hlt.le, hshortest⟩
    · refine ⟨offsets, hne, le_rfl, h, fun offsets' h' hne' => ?_⟩
      exact Nat.le_of_not_lt fun hlt => hshorter ⟨offsets', h', hne', hlt⟩

end

section
variable (regions : List Region) (target : Address) (staticRanges excluded : List Range)
  (options : Options)

theorem findPaths_finished : ∃ (scan : Scan) (s : Search),
    scan.index = pointerIndex regions excluded ∧ scan.staticRanges = staticRanges ∧
      scan.options = options ∧ scan.Finished target s ∧
      (∀ path, path ∈ (findPaths regions target staticRanges excluded options).paths ↔
        path ∈ s.paths) ∧
      (findPaths regions target staticRanges excluded options).truncated = s.truncated := by
  refine ⟨⟨pointerIndex regions excluded, staticRanges, options⟩, _, rfl, rfl, rfl,
    Scan.search_finished (Scan.Before.start _ target) (Nat.zero_add _), fun path => ?_, rfl⟩
  exact List.mem_insertionSort pathLe

theorem mem_findPaths {path : Path}
    (h : path ∈ (findPaths regions target staticRanges excluded options).paths) :
    inRanges staticRanges path.base = true ∧ 1 ≤ path.offsets.length ∧
      path.offsets.length ≤ options.maxDepth ∧
      DirectChain regions target staticRanges excluded options.maxOffset path.base
        path.offsets := by
  obtain ⟨scan, s, hindex, rfl, rfl, hfinished, hmem, -⟩ :=
    findPaths_finished regions target staticRanges excluded options
  obtain ⟨hstatic, hleads, hne, hlength⟩ := hfinished.paths path ((hmem path).1 h)
  exact ⟨hstatic, List.length_pos_iff.2 hne, hlength, (leads_iff hindex).1 hleads⟩

/-- Every path is a chain from a fixed word to the target, and a fixed word with a direct chain has a
    shortest one among the paths, unless the scan was cut short. -/
theorem findPaths_sound_complete :
    (∀ path ∈ (findPaths regions target staticRanges excluded options).paths,
      inRanges staticRanges path.base = true ∧
        1 ≤ path.offsets.length ∧ path.offsets.length ≤ options.maxDepth ∧
        (∀ offset ∈ path.offsets, offset ≤ options.maxOffset) ∧
        DirectChain regions target staticRanges excluded options.maxOffset path.base
          path.offsets ∧
        ∀ read, Reads regions read →
          (resolve path read (isPointer regions)).address = some target ∧
            ∀ step ∈ (resolve path read (isPointer regions)).steps,
              inRanges excluded step.address = false) ∧
    (0 < options.maxResults →
      (findPaths regions target staticRanges excluded options).truncated = false →
      ∀ location offsets, inRanges staticRanges location = true →
        DirectChain regions target staticRanges excluded options.maxOffset location offsets →
        offsets ≠ [] → offsets.length ≤ options.maxDepth →
          ∃ path ∈ (findPaths regions target staticRanges excluded options).paths,
            path.base = location ∧
              IsShortest regions target staticRanges excluded options.maxOffset location
                path.offsets) := by
  constructor
  · intro path hpath
    obtain ⟨hstatic, hpos, hlength, hdirect⟩ :=
      mem_findPaths regions target staticRanges excluded options hpath
    refine ⟨hstatic, hpos, hlength, hdirect.chain.le_maxOffset, hdirect, fun read hreads => ?_⟩
    exact hdirect.chain.resolveFrom hreads (List.forall_mem_nil _)
  · intro hresults htrunc location offsets hstatic hchain hne hlength
    obtain ⟨shortest, hne', hle, hshortest⟩ := exists_isShortest hchain hne
    obtain ⟨scan, s, hindex, rfl, rfl, hfinished, hmem, htruncated⟩ :=
      findPaths_finished regions target staticRanges excluded options
    have hread : scan.ShortestRead target location shortest := by
      refine ⟨(leads_iff hindex).2 hshortest.1, hne', fun offsets' h' => ?_⟩
      exact hshortest.2 offsets' ((leads_iff hindex).1 h')
    obtain ⟨path, hpath, rfl, hsame⟩ := hfinished.complete hresults (htruncated ▸ htrunc)
      location shortest hstatic hread (hle.trans hlength)
    obtain ⟨-, hleads, -, -⟩ := hfinished.paths path hpath
    refine ⟨path, (hmem path).2 hpath, rfl, (leads_iff hindex).1 hleads, fun offsets' h' h'' => ?_⟩
    exact hsame.le.trans (hshortest.2 offsets' h' h'')

/-- The word at 4 is a pointer to the target 8, and the word at 0 one to it. -/
def fixedRegion : Region := ⟨0, [0, 0, 0, 4, 0, 0, 0, 8, 0, 0, 0, 0], by decide⟩

/-- A pointer to the last word, which is 8 before the target 4. -/
def topRegion : Region := ⟨0xFFFFFFF8, [0xFF, 0xFF, 0xFF, 0xFC, 0, 0, 0, 0], by decide⟩

theorem isPointerWord_four : IsPointerWord [fixedRegion] [] 4 8 :=
  ⟨⟨fixedRegion, List.mem_singleton.2 rfl, 4, by decide, by decide, rfl, by decide⟩, by decide, rfl⟩

theorem isPointerWord_zero : IsPointerWord [fixedRegion] [] 0 4 :=
  ⟨⟨fixedRegion, List.mem_singleton.2 rfl, 0, by decide, by decide, rfl, by decide⟩, by decide, rfl⟩

theorem isPointerWord_top : IsPointerWord [topRegion] [] 0xFFFFFFF8 0xFFFFFFFC :=
  ⟨⟨topRegion, List.mem_singleton.2 rfl, 0, by decide, by decide, rfl, by decide⟩, by decide, rfl⟩

/-- The word at 4 is reached with one pointer. -/
theorem findPaths_sound_complete_four :
    ∃ path ∈ (findPaths [fixedRegion] 8 [⟨0, 8⟩] [] { maxDepth := 2, maxOffset := 0 }).paths,
      path.base = 4 := by
  obtain ⟨path, hpath, hbase, -⟩ := (findPaths_sound_complete [fixedRegion] 8 [⟨0, 8⟩] []
    { maxDepth := 2, maxOffset := 0 }).2 (by decide) (by decide +kernel) 4 [0] (by decide)
    (.read isPointerWord_four (by decide) (by decide) (fun hne => absurd rfl hne) .target)
    (List.cons_ne_nil _ _) (by decide)
  exact ⟨path, hpath, hbase⟩

/-- Fixed words whose chains have no path: the chain from 0 goes through the fixed word at 4, and the
    one from the top of memory over its end. -/
theorem findPaths_misses :
    (inRanges [⟨0, 8⟩] 0 = true ∧ Chain [fixedRegion] 8 [] 0 0 [0, 0] ∧
      (findPaths [fixedRegion] 8 [⟨0, 8⟩] [] { maxDepth := 2, maxOffset := 0 }).truncated = false ∧
      ∀ path ∈ (findPaths [fixedRegion] 8 [⟨0, 8⟩] [] { maxDepth := 2, maxOffset := 0 }).paths,
        path.base ≠ 0) ∧
    (inRanges [⟨0xFFFFFFF8, 0xFFFFFFFC⟩] 0xFFFFFFF8 = true ∧
      Chain [topRegion] 4 [] 0x1000 0xFFFFFFF8 [8] ∧
      (findPaths [topRegion] 4 [⟨0xFFFFFFF8, 0xFFFFFFFC⟩] [] {}).truncated = false ∧
      ∀ path ∈ (findPaths [topRegion] 4 [⟨0xFFFFFFF8, 0xFFFFFFFC⟩] [] {}).paths,
        path.base ≠ 0xFFFFFFF8) := by
  refine ⟨⟨by decide, ?_, by decide +kernel, by decide +kernel⟩,
    ⟨by decide, ?_, by decide +kernel, by decide +kernel⟩⟩
  · exact .read isPointerWord_zero (by decide) (.read isPointerWord_four (by decide) .target)
  · exact .read isPointerWord_top (by decide) .target

end
end DolphinXR.AgentServer.PointerScan
