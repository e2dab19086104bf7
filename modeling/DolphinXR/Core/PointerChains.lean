import DolphinXR.Core.PointerIndex

/- One level of the pointer scan's search. A way from an address to the target is a list of offsets;
   a node has one, and goes on from the target or from a word that is not fixed. A level keeps what
   the search knows of its nodes and paths, loses nothing, and deals with every pointer that leads
   to one of its nodes. -/
namespace DolphinXR.AgentServer.PointerScan

/-- The offsets on a way from an address to the target, as the search follows it: through no fixed word
    but where it begins. -/
inductive Scan.Leads (scan : Scan) (target : Address) : Address → List Address → Prop where
  | target : scan.Leads target target []
  | read {address value location : Address} {offsets : List Address}
      (hit : (value, location) ∈ scan.hits address)
      (hinner : offsets ≠ [] → inRanges scan.staticRanges address = false)
      (hrest : scan.Leads target address offsets) :
      scan.Leads target location ((address - value) :: offsets)

/-- What a node may be: the target, or a word that is not fixed. -/
structure Scan.Inner (scan : Scan) (target address : Address) (offsets : List Address) : Prop where
  leads : scan.Leads target address offsets
  inner : offsets ≠ [] → inRanges scan.staticRanges address = false

def Scan.Shortest (scan : Scan) (target address : Address) (offsets : List Address) : Prop :=
  scan.Inner target address offsets ∧
    ∀ offsets', scan.Inner target address offsets' → offsets.length ≤ offsets'.length

section
variable {scan : Scan} {target : Address}

theorem Scan.Inner.read {address value location : Address} {offsets : List Address}
    (h : scan.Inner target address offsets) (hit : (value, location) ∈ scan.hits address) :
    scan.Leads target location ((address - value) :: offsets) :=
  .read hit h.inner h.leads

theorem Scan.Leads.exists_read {location : Address} {offsets : List Address}
    (h : scan.Leads target location offsets) (hne : offsets ≠ []) :
    ∃ address value offsets', (value, location) ∈ scan.hits address ∧
      scan.Inner target address offsets' ∧ offsets.length = offsets'.length + 1 := by
  cases h with
  | target => exact absurd rfl hne
  | read hit hinner hrest => exact ⟨_, _, _, hit, ⟨hrest, hinner⟩, rfl⟩

theorem Scan.Leads.exists_shortest {location : Address} {offsets : List Address}
    (h : scan.Leads target location offsets) (hne : offsets ≠ [])
    (hshortest : ∀ offsets', scan.Leads target location offsets' → offsets' ≠ [] →
      offsets.length ≤ offsets'.length) :
    ∃ address value offsets', (value, location) ∈ scan.hits address ∧
      scan.Shortest target address offsets' ∧ offsets.length = offsets'.length + 1 := by
  obtain ⟨address, value, offsets', hit, hinner, hlength⟩ := h.exists_read hne
  refine ⟨address, value, offsets', hit, ⟨hinner, fun shorter hshorter => ?_⟩, hlength⟩
  have hle := hshortest _ (hshorter.read hit) (List.cons_ne_nil _ _)
  rw [List.length_cons] at hle
  omega

theorem suffix_append (nodes more : List Node) {index : Nat} (h : index < nodes.length) :
    suffix (nodes ++ more) index = suffix nodes index := by
  induction index using Nat.strongRecOn with
  | ind index ih =>
    rw [suffix, suffix, List.getElem?_append_left h]
    split
    · rename_i offset parent hnode
      split
      · rename_i hparent
        rw [ih parent hparent (by omega)]
      · rfl
    · rfl

theorem suffix_concat (nodes : List Node) (address offset : Address) {parent : Nat}
    (h : parent < nodes.length) :
    suffix (nodes ++ [⟨address, offset, some parent⟩]) nodes.length =
      offset :: suffix nodes parent := by
  rw [suffix, List.getElem?_concat_length]
  dsimp only
  rw [if_pos h, suffix_append _ _ h]

/-! What one level does. -/

structure Scan.Sound (scan : Scan) (target : Address) (depth : Nat) (s : Search) : Prop where
  nodes : ∀ index node, s.nodes[index]? = some node →
    scan.Inner target node.address (suffix s.nodes index)
  visited : ∀ address ∈ s.visited, ∃ offsets, scan.Inner target address offsets ∧
    offsets.length ≤ depth
  next : ∀ index ∈ s.next, index < s.nodes.length ∧ (suffix s.nodes index).length = depth
  paths : ∀ path ∈ s.paths, inRanges scan.staticRanges path.base = true ∧
    scan.Leads target path.base path.offsets ∧ path.offsets ≠ [] ∧
    path.offsets.length ≤ scan.options.maxDepth
  truncated : scan.options.maxResults ≤ s.paths.length → 0 < scan.options.maxResults →
    s.truncated = true

structure Grows (s s' : Search) : Prop where
  nodes : s.nodes <+: s'.nodes
  visited : ∀ address ∈ s.visited, address ∈ s'.visited
  paths : ∀ path ∈ s.paths, path ∈ s'.paths
  truncated : s.truncated = true → s'.truncated = true

theorem Grows.refl (s : Search) : Grows s s := ⟨List.prefix_rfl, fun _ => id, fun _ => id, id⟩

theorem Grows.trans {s s' s'' : Search} (h : Grows s s') (h' : Grows s' s'') : Grows s s'' :=
  ⟨h.nodes.trans h'.nodes, fun a ha => h'.visited a (h.visited a ha),
    fun p hp => h'.paths p (h.paths p hp), fun ht => h'.truncated (h.truncated ht)⟩

def Fresh (visited : List Address) (s : Search) : Prop :=
  ∀ address ∈ s.visited, address ∈ visited ∨ s.truncated = true ∨
    ∃ index ∈ s.next, ∃ node, s.nodes[index]? = some node ∧ node.address = address

structure Scan.Done (scan : Scan) (depth : Nat) (location : Address) (s : Search) : Prop where
  path : inRanges scan.staticRanges location = true →
    ∃ path ∈ s.paths, path.base = location ∧ path.offsets.length = depth
  visited : inRanges scan.staticRanges location = false → depth < scan.options.maxDepth →
    location ∈ s.visited

theorem Scan.Done.mono {depth : Nat} {location : Address} {s s' : Search}
    (h : scan.Done depth location s) (hgrows : Grows s s') : scan.Done depth location s' := by
  constructor
  · intro hstatic
    obtain ⟨path, hmem, hpath⟩ := h.path hstatic
    exact ⟨path, hgrows.paths path hmem, hpath⟩
  · exact fun hstatic hdepth => hgrows.visited _ (h.visited hstatic hdepth)

structure Scan.OnLevel (depth index : Nat) (s : Search) : Prop where
  lt : index < s.nodes.length
  length : (suffix s.nodes index).length + 1 = depth

theorem Scan.OnLevel.mono {depth index : Nat} {s s' : Search} (h : Scan.OnLevel depth index s)
    (hgrows : Grows s s') : Scan.OnLevel depth index s' := by
  obtain ⟨more, hmore⟩ := hgrows.nodes
  constructor
  · rw [← hmore, List.length_append]
    exact Nat.lt_add_right _ h.lt
  · rw [← hmore, suffix_append _ _ h.lt]
    exact h.length

structure Scan.Level (scan : Scan) (target : Address) (depth : Nat) (visited : List Address)
    (s : Search) : Prop where
  sound : scan.Sound target depth s
  fresh : Fresh visited s

section
variable {depth node : Nat} {visited : List Address} {address value location : Address} {s : Search}

theorem Scan.Sound.inner (h : scan.Sound target depth s)
    (haddress : (s.nodes[node]?).map Node.address = some address) :
    scan.Inner target address (suffix s.nodes node) := by
  obtain ⟨n, hn, rfl⟩ := Option.map_eq_some_iff.1 haddress
  exact h.nodes node n hn

theorem Scan.Level.path (h : scan.Level target depth visited s)
    (hdepth : depth ≤ scan.options.maxDepth) (hnode : Scan.OnLevel depth node s)
    (haddress : (s.nodes[node]?).map Node.address = some address)
    (hit : (value, location) ∈ scan.hits address)
    (hstatic : inRanges scan.staticRanges location = true) (truncated : Bool)
    (htruncated : s.truncated = true → truncated = true)
    (hresults : scan.options.maxResults ≤ s.paths.length + 1 → truncated = true) :
    scan.Level target depth visited { s with
      paths := s.paths ++ [⟨location, (address - value) :: suffix s.nodes node⟩]
      truncated := truncated } := by
  have hleads := (h.sound.inner haddress).read hit
  constructor
  · refine ⟨h.sound.nodes, h.sound.visited, h.sound.next, ?_, ?_⟩
    · intro path hpath
      rcases List.mem_append.1 hpath with hpath | hpath
      · exact h.sound.paths path hpath
      · obtain rfl := List.mem_singleton.1 hpath
        refine ⟨hstatic, hleads, List.cons_ne_nil _ _, ?_⟩
        exact hnode.length.le.trans hdepth
    · intro hmax _
      refine hresults ?_
      rwa [List.length_append] at hmax
  · intro a ha
    rcases h.fresh a ha with hold | htrunc | hnext
    · exact .inl hold
    · exact .inr (.inl (htruncated htrunc))
    · exact .inr (.inr hnext)

theorem Scan.Level.visit (h : scan.Level target depth visited s) (hnode : Scan.OnLevel depth node s)
    (haddress : (s.nodes[node]?).map Node.address = some address)
    (hit : (value, location) ∈ scan.hits address)
    (hstatic : inRanges scan.staticRanges location = false) :
    scan.Level target depth visited { s with
        visited := location :: s.visited
        truncated := true } ∧
      scan.Level target depth visited { s with
        visited := location :: s.visited
        nodes := s.nodes ++ [⟨location, address - value, some node⟩]
        next := s.next ++ [s.nodes.length] } := by
  have hinner : scan.Inner target location ((address - value) :: suffix s.nodes node) :=
    ⟨(h.sound.inner haddress).read hit, fun _ => hstatic⟩
  have hvisited : ∀ a ∈ location :: s.visited, ∃ offsets, scan.Inner target a offsets ∧
      offsets.length ≤ depth :=
    List.forall_mem_cons.2 ⟨⟨_, hinner, hnode.length.le⟩, h.sound.visited⟩
  have hlast := suffix_concat s.nodes location (address - value) hnode.lt
  constructor
  · constructor
    · exact ⟨h.sound.nodes, hvisited, h.sound.next, h.sound.paths, fun _ _ => rfl⟩
    · exact fun a _ => .inr (.inl rfl)
  constructor
  · refine ⟨?_, hvisited, ?_, h.sound.paths, h.sound.truncated⟩
    · intro index n hn
      rcases Nat.lt_or_ge index s.nodes.length with hlt | hge
      · rw [suffix_append _ _ hlt]
        rw [List.getElem?_append_left hlt] at hn
        exact h.sound.nodes index n hn
      · rw [List.getElem?_append_right hge] at hn
        obtain ⟨hindex, rfl⟩ : index = s.nodes.length ∧
            (⟨location, address - value, some node⟩ : Node) = n := by
          rw [List.getElem?_singleton] at hn
          split at hn
          · cases hn
            exact ⟨by omega, rfl⟩
          · cases hn
        rw [hindex, hlast]
        exact hinner
    · intro index hindex
      rcases List.mem_append.1 hindex with hindex | hindex
      · obtain ⟨hlt, hlength⟩ := h.sound.next index hindex
        rw [suffix_append _ _ hlt, List.length_append]
        exact ⟨Nat.lt_add_right _ hlt, hlength⟩
      · obtain rfl := List.mem_singleton.1 hindex
        rw [hlast, List.length_append]
        exact ⟨Nat.lt_succ_self _, hnode.length⟩
  · intro a ha
    rcases List.mem_cons.1 ha with rfl | ha
    · refine .inr (.inr ⟨s.nodes.length, List.mem_append_right _ (List.mem_singleton.2 rfl), _,
        List.getElem?_concat_length, rfl⟩)
    · rcases h.fresh a ha with hold | htrunc | ⟨index, hindex, n, hn, rfl⟩
      · exact .inl hold
      · exact .inr (.inl htrunc)
      · refine .inr (.inr ⟨index, List.mem_append_left _ hindex, n, ?_, rfl⟩)
        rw [List.getElem?_append_left (h.sound.next index hindex).1]
        exact hn

theorem Grows.addressOf {s' : Search} (hgrows : Grows s s') (hlt : node < s.nodes.length) :
    (s'.nodes[node]?).map Node.address = (s.nodes[node]?).map Node.address := by
  obtain ⟨more, hmore⟩ := hgrows.nodes
  rw [← hmore, List.getElem?_append_left hlt]

/-- What comes out of the loop over the pointers that lead to a node. -/
structure Scan.Visited (scan : Scan) (target : Address) (depth : Nat) (visited : List Address)
    (hits : List (Address × Address)) (s s' : Search) : Prop where
  level : scan.Level target depth visited s'
  grows : Grows s s'
  done : s'.truncated = false → ∀ hit ∈ hits, scan.Done depth hit.2 s'

theorem Scan.Visited.cons {hits : List (Address × Address)} {mid s' : Search}
    (h : scan.Visited target depth visited hits mid s') (hgrows : Grows s mid)
    (hdone : mid.truncated = false → scan.Done depth location mid) :
    scan.Visited target depth visited ((value, location) :: hits) s s' := by
  refine ⟨h.level, hgrows.trans h.grows, fun htrunc => ?_⟩
  have hmid : mid.truncated = false := by
    rw [← Bool.not_eq_true] at htrunc ⊢
    exact fun ht => htrunc (h.grows.truncated ht)
  exact List.forall_mem_cons.2 ⟨(hdone hmid).mono h.grows, h.done htrunc⟩

theorem Scan.visitHits_visited {hits : List (Address × Address)}
    (h : scan.Level target depth visited s) (hdepth : depth ≤ scan.options.maxDepth)
    (hnode : Scan.OnLevel depth node s)
    (haddress : (s.nodes[node]?).map Node.address = some address)
    (hhits : ∀ hit ∈ hits, hit ∈ scan.hits address) :
    scan.Visited target depth visited hits s (scan.visitHits depth node address hits s) := by
  induction hits generalizing s with
  | nil => exact ⟨h, Grows.refl s, fun _ => List.forall_mem_nil _⟩
  | cons hit hits ih =>
    obtain ⟨value, location⟩ := hit
    obtain ⟨hhit, hhits⟩ := List.forall_mem_cons.1 hhits
    rw [Scan.visitHits]
    dsimp only
    split
    · rename_i hstatic
      have hgrows : ∀ truncated, (s.truncated = true → truncated = true) → Grows s { s with
          paths := s.paths ++ [⟨location, (address - value) :: suffix s.nodes node⟩]
          truncated := truncated } := fun _ htruncated =>
        ⟨List.prefix_rfl, fun _ => id, fun _ => List.mem_append_left _, htruncated⟩
      split
      · -- The results are full, and the loop ends.
        refine ⟨h.path hdepth hnode haddress hhit hstatic true (fun _ => rfl) (fun _ => rfl),
          hgrows true fun _ => rfl, fun htrunc => ?_⟩
        cases htrunc
      · rename_i hfull
        rw [List.length_append, ge_iff_le] at hfull
        have hlevel := h.path hdepth hnode haddress hhit hstatic s.truncated id
          (fun hmax => absurd hmax hfull)
        refine (ih hlevel ⟨hnode.lt, hnode.length⟩ haddress hhits).cons (hgrows _ id) fun _ => ⟨fun _ => ?_, ?_⟩
        · exact ⟨_, List.mem_append_right _ (List.mem_singleton.2 rfl), rfl, hnode.length⟩
        · intro hother
          rw [hstatic] at hother
          cases hother
    · rename_i hstatic
      rw [Bool.not_eq_true] at hstatic
      obtain ⟨hmany, hnew⟩ := h.visit hnode haddress hhit hstatic
      split
      · have hvisited : ∀ s' : Search, s'.visited = location :: s.visited →
            scan.Done depth location s' := by
          intro s' hs'
          refine ⟨fun hother => ?_, fun _ _ => hs' ▸ List.mem_cons_self⟩
          rw [hstatic] at hother
          cases hother
        split
        · exact (ih hmany ⟨hnode.lt, hnode.length⟩ haddress hhits).cons
            ⟨List.prefix_rfl, fun _ => List.mem_cons_of_mem _, fun _ => id, fun _ => rfl⟩
            fun _ => hvisited _ rfl
        · have hgrows : Grows s { s with
              visited := location :: s.visited
              nodes := s.nodes ++ [⟨location, address - value, some node⟩]
              next := s.next ++ [s.nodes.length] } :=
            ⟨List.prefix_append _ _, fun _ => List.mem_cons_of_mem _, fun _ => id, id⟩
          exact (ih hnew (hnode.mono hgrows) ((hgrows.addressOf hnode.lt).trans haddress) hhits).cons
            hgrows fun _ => hvisited _ rfl
      · rename_i hseen
        refine (ih h hnode haddress hhits).cons (Grows.refl s) fun _ => ⟨fun hother => ?_, fun _ hlt => ?_⟩
        · rw [hstatic] at hother
          cases hother
        · by_contra hmem
          exact hseen ⟨hlt, hmem⟩

structure Scan.Followed (scan : Scan) (target : Address) (depth : Nat) (visited : List Address)
    (frontier : List Nat) (s s' : Search) : Prop where
  level : scan.Level target depth visited s'
  grows : Grows s s'
  done : 0 < scan.options.maxResults → s'.truncated = false → ∀ index ∈ frontier, ∀ address,
    (s.nodes[index]?).map Node.address = some address →
      ∀ hit ∈ scan.hits address, scan.Done depth hit.2 s'

theorem Scan.visitFrontier_followed {frontier : List Nat}
    (h : scan.Level target depth visited s) (hdepth : depth ≤ scan.options.maxDepth)
    (hfrontier : ∀ index ∈ frontier, Scan.OnLevel depth index s) :
    scan.Followed target depth visited frontier s (scan.visitFrontier depth frontier s) := by
  induction frontier generalizing s with
  | nil => exact ⟨h, Grows.refl s, fun _ _ => List.forall_mem_nil _⟩
  | cons node frontier ih =>
    obtain ⟨hnode, hfrontier⟩ := List.forall_mem_cons.1 hfrontier
    obtain ⟨⟨address, offset, parent⟩, hn⟩ : ∃ n, s.nodes[node]? = some n :=
      ⟨_, List.getElem?_eq_getElem hnode.lt⟩
    have haddress : (s.nodes[node]?).map Node.address = some address := by rw [hn]; rfl
    have hvisited := scan.visitHits_visited h hdepth hnode haddress (fun _ => id)
    rw [Scan.visitFrontier, hn]
    dsimp only
    generalize scan.visitHits depth node address (scan.hits address) s = mid at hvisited ⊢
    split
    · rename_i hfull
      refine ⟨hvisited.level, hvisited.grows, fun hpos htrunc => ?_⟩
      rw [hvisited.level.sound.truncated hfull hpos] at htrunc
      cases htrunc
    · have hlater := ih hvisited.level fun index hindex => (hfrontier index hindex).mono hvisited.grows
      refine ⟨hlater.level, hvisited.grows.trans hlater.grows, fun hpos htrunc => ?_⟩
      have hmid : mid.truncated = false := by
        rw [← Bool.not_eq_true] at htrunc ⊢
        exact fun ht => htrunc (hlater.grows.truncated ht)
      refine List.forall_mem_cons.2 ⟨?_, ?_⟩
      · intro address' haddress' hit hhit
        obtain rfl := Option.some.inj (haddress.symm.trans haddress')
        exact (hvisited.done hmid hit hhit).mono hlater.grows
      · intro index hindex address' haddress'
        refine hlater.done hpos htrunc index hindex address' ?_
        rwa [hvisited.grows.addressOf (hfrontier index hindex).lt]

end

end
end DolphinXR.AgentServer.PointerScan
