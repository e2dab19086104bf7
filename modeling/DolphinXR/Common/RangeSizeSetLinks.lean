import DolphinXR.Common.RangeSizeSet
import DolphinXR.Lib.KeyedList
import Mathlib.Data.List.Perm.Basic

/- What the helpers of `RangeSizeSet` do, on a map taken apart at the range they work on: none of
   them follows an iterator to nothing, and each keeps the two containers linked. `Linked` says that
   the entries by size are, in some order, those of the ranges, each with the size of its range as it
   is now and with an iterator each way. -/
namespace DolphinXR.Common
open Lib

def RangeNode.it {T : Type} (n : RangeNode T) : Iterator := some n.id

def SizeEntry.sizeIt {S : Type} (e : SizeEntry S) : Iterator := some e.id

namespace RangeSizeSet
variable {T S : Type} (calcSize : T → T → S)

def headIt (map : List (RangeNode T)) : Iterator := map.head?.map RangeNode.id

theorem headIt_eq_none {r : List (RangeNode T)} : headIt r = none ↔ r = [] := by
  cases r with
  | nil => exact iff_of_true rfl rfl
  | cons m r => exact iff_of_false (by simp [headIt]) (by simp)

theorem eraseSize_eq {s : RangeSizeSet T S} {e : SizeEntry S}
    (hids : (s.sizes.map SizeEntry.sizeIt).Nodup) (he : e ∈ s.sizes) :
    ∃ after, s.eraseSize e.sizeIt =
      some (after, { s with sizes := s.sizes.filter fun d => some d.id ≠ e.sizeIt }) := by
  obtain ⟨before, behind, hsizes⟩ := List.append_of_mem he
  have hdrop : (s.sizes.dropWhile fun d => some d.id ≠ e.sizeIt) = e :: behind := by
    rw [hsizes] at hids ⊢
    exact KeyedList.dropWhile_key hids
  rw [eraseSize, hdrop]
  exact ⟨_, rfl⟩

/-! The multimap. -/

variable [LinearOrder S]

/-- What an entry by size says: where it is itself, its size, and which range it is for. -/
def entryLink (e : SizeEntry S) : Iterator × S × Iterator := (e.sizeIt, e.size, e.it)

def nodeLink (n : RangeNode T) : Iterator × S × Iterator :=
  (n.sizeIt, calcSize n.start n.stop, n.it)

structure SizesOf (map : List (RangeNode T)) (sizes : List (SizeEntry S)) : Prop where
  links : (sizes.map entryLink).Perm (map.map (nodeLink calcSize))
  ids : (sizes.map SizeEntry.sizeIt).Nodup
  descending : sizes.Pairwise fun d e => e.size ≤ d.size

section
variable {calcSize} {map l r : List (RangeNode T)} {sizes : List (SizeEntry S)} {n : RangeNode T}

def placeSize (sizes : List (SizeEntry S)) (e : SizeEntry S) : List (SizeEntry S) :=
  sizes.takeWhile (fun d => e.size ≤ d.size) ++ e :: sizes.dropWhile fun d => e.size ≤ d.size

theorem placeSize_perm (sizes : List (SizeEntry S)) (e : SizeEntry S) :
    (placeSize sizes e).Perm (e :: sizes) := by
  have hperm : (placeSize sizes e).Perm (e :: (sizes.takeWhile (fun d => e.size ≤ d.size) ++
      sizes.dropWhile fun d => e.size ≤ d.size)) := List.perm_middle
  rw [List.takeWhile_append_dropWhile] at hperm
  exact hperm

theorem placeSize_descending {e : SizeEntry S}
    (h : sizes.Pairwise fun d e => e.size ≤ d.size) :
    (placeSize sizes e).Pairwise fun d e => e.size ≤ d.size := by
  have htake : ∀ d ∈ sizes.takeWhile (fun d => e.size ≤ d.size), e.size ≤ d.size := fun d hd => by
    simpa using List.mem_takeWhile_imp hd
  have hsplit := h
  rw [← List.takeWhile_append_dropWhile (p := fun d => e.size ≤ d.size) (l := sizes)] at hsplit
  obtain ⟨hl, hr, hlr⟩ := List.pairwise_append.1 hsplit
  have hdrop : ∀ d ∈ sizes.dropWhile (fun d => e.size ≤ d.size), d.size ≤ e.size := by
    intro d hd
    cases hcases : sizes.dropWhile (fun d => decide (e.size ≤ d.size)) with
    | nil =>
      rw [hcases] at hd
      exact absurd hd List.not_mem_nil
    | cons f rest =>
      have hf : ¬e.size ≤ f.size := by
        have := List.head_dropWhile_not (fun d : SizeEntry S => decide (e.size ≤ d.size)) (l := sizes)
          (by rw [hcases]; simp)
        simpa [hcases] using this
      rw [hcases] at hd hr
      rcases List.mem_cons.1 hd with rfl | hd
      · exact (not_le.1 hf).le
      · exact ((List.pairwise_cons.1 hr).1 d hd).trans (not_le.1 hf).le
  refine List.pairwise_append.2 ⟨hl, List.pairwise_cons.2 ⟨hdrop, hr⟩, ?_⟩
  intro d hd f hf
  rcases List.mem_cons.1 hf with rfl | hf
  · exact htake d hd
  · exact hlr d hd f hf

theorem SizesOf.add {e : SizeEntry S} (h : SizesOf calcSize (l ++ r) sizes)
    (hfresh : ∀ d ∈ sizes, d.id ≠ e.id) (hlink : entryLink e = nodeLink calcSize n) :
    SizesOf calcSize (l ++ n :: r) (placeSize sizes e) := by
  have hperm := placeSize_perm sizes e
  refine ⟨?_, ?_, placeSize_descending h.descending⟩
  · refine (hperm.map entryLink).trans ?_
    rw [List.map_cons, hlink, List.map_append, List.map_cons]
    refine (h.links.cons _).trans ?_
    rw [List.map_append]
    exact List.perm_middle.symm
  · rw [(hperm.map SizeEntry.sizeIt).nodup_iff, List.map_cons, List.nodup_cons]
    refine ⟨?_, h.ids⟩
    intro hmem
    obtain ⟨d, hd, hid⟩ := List.mem_map.1 hmem
    exact hfresh d hd (Option.some.inj hid)

theorem SizesOf.exists_entry (h : SizesOf calcSize map sizes) (hn : n ∈ map) :
    ∃ e ∈ sizes, entryLink e = nodeLink calcSize n := by
  have hmem : nodeLink calcSize n ∈ sizes.map entryLink :=
    h.links.mem_iff.2 (List.mem_map_of_mem hn)
  exact List.mem_map.1 hmem

theorem SizesOf.exists_node (h : SizesOf calcSize map sizes) {e : SizeEntry S} (he : e ∈ sizes) :
    ∃ n ∈ map, entryLink e = nodeLink calcSize n := by
  have hmem : entryLink e ∈ map.map (nodeLink calcSize) :=
    h.links.mem_iff.1 (List.mem_map_of_mem he)
  obtain ⟨n, hn, hlink⟩ := List.mem_map.1 hmem
  exact ⟨n, hn, hlink.symm⟩

theorem SizesOf.remove {e : SizeEntry S} (h : SizesOf calcSize (l ++ n :: r) sizes)
    (he : e ∈ sizes) (hlink : entryLink e = nodeLink calcSize n) :
    SizesOf calcSize (l ++ r) (sizes.filter fun d => some d.id ≠ e.sizeIt) := by
  obtain ⟨before, behind, rfl⟩ := List.append_of_mem he
  have hfilter : ((before ++ e :: behind).filter fun d => some d.id ≠ e.sizeIt) =
      before ++ behind := KeyedList.filter_key h.ids
  have hsub : (before ++ behind).Sublist (before ++ e :: behind) :=
    List.Sublist.append_left (List.sublist_cons_self e behind) before
  rw [hfilter]
  refine ⟨?_, h.ids.sublist (hsub.map _), h.descending.sublist hsub⟩
  have hlinks := h.links
  rw [List.map_append, List.map_cons, List.map_append, List.map_cons, hlink] at hlinks
  rw [List.map_append, List.map_append]
  exact (List.perm_middle.symm.trans (hlinks.trans List.perm_middle)).cons_inv

end
/-! The map. -/

variable [LinearOrder T]

structure Linked (s : RangeSizeSet T S) : Prop where
  sorted : s.map.Pairwise fun m n => m.start < n.start
  ids : (s.map.map RangeNode.it).Nodup
  sizes : SizesOf calcSize s.map s.sizes
  freshIds : ∀ n ∈ s.map, n.id < s.fresh
  freshSizeIds : ∀ e ∈ s.sizes, e.id < s.fresh

section
variable {calcSize} {s : RangeSizeSet T S} {l r : List (RangeNode T)} {n : RangeNode T}

theorem node_eq (h : Linked calcSize s) (hmap : s.map = l ++ n :: r) :
    s.node? n.it = some n := by
  have hids := h.ids
  rw [hmap] at hids
  rw [node?, hmap]
  exact KeyedList.find_key hids

theorem getFrom_eq (h : Linked calcSize s) (hmap : s.map = l ++ n :: r) :
    s.getFrom n.it = some n.start := by
  rw [getFrom, node_eq h hmap]
  rfl

theorem getTo_eq (h : Linked calcSize s) (hmap : s.map = l ++ n :: r) :
    s.getTo n.it = some n.stop := by
  rw [getTo, node_eq h hmap]
  rfl

theorem next_eq (h : Linked calcSize s) (hmap : s.map = l ++ n :: r) :
    s.next n.it = some (headIt r) := by
  have hids := h.ids
  rw [hmap] at hids
  have hdrop : (s.map.dropWhile fun m => some m.id ≠ n.it) = n :: r := by
    rw [hmap]
    exact KeyedList.dropWhile_key hids
  rw [next, hdrop]
  rfl

theorem prev_eq (h : Linked calcSize s) (hmap : s.map = l ++ n :: r) :
    s.prev (headIt r) = some n.it := by
  have htake : (s.map.takeWhile fun m => some m.id ≠ headIt r) = l ++ [n] := by
    cases r with
    | nil =>
      rw [List.takeWhile_eq_self_iff.2 fun m _ => decide_eq_true (by simp [headIt]), hmap]
    | cons m r =>
      have hids := h.ids
      have hmap' : s.map = (l ++ [n]) ++ m :: r := by rw [hmap, List.append_assoc]; rfl
      rw [hmap'] at hids ⊢
      exact KeyedList.takeWhile_key hids
  rw [prev, htake, List.getLast?_concat]
  rfl

omit [LinearOrder S] in
theorem upperBound_eq {key : T} (hmap : s.map = l ++ r) (hl : ∀ m ∈ l, m.start ≤ key)
    (hr : ∀ m ∈ r, key < m.start) : s.upperBound key = headIt r := by
  rw [upperBound, hmap, KeyedList.find_append_of_stop (fun m hm => by simpa using hl m hm)
    fun m hm => by simpa using hr m hm]
  rfl

omit [LinearOrder S] in
theorem lowerBound_eq {key : T} (hmap : s.map = l ++ r) (hl : ∀ m ∈ l, m.start < key)
    (hr : ∀ m ∈ r, key ≤ m.start) : s.lowerBound key = headIt r := by
  rw [lowerBound, hmap, KeyedList.find_append_of_stop (fun m hm => by simpa using hl m hm)
    fun m hm => by simpa using hr m hm]
  rfl

theorem headIt_eq_begin (h : Linked calcSize s) (hmap : s.map = l ++ r) (hr : r ≠ []) :
    headIt r = s.begin ↔ l = [] := by
  cases l with
  | nil =>
    refine iff_of_true ?_ rfl
    rw [begin, hmap]
    rfl
  | cons m l =>
    refine iff_of_false ?_ (by simp)
    obtain ⟨n, r, rfl⟩ := List.exists_cons_of_ne_nil hr
    have hids := h.ids
    rw [hmap] at hids
    have hne := (KeyedList.ne_of_nodup hids).1 m List.mem_cons_self
    rw [begin, hmap]
    exact fun heq => hne heq.symm

theorem Linked.place (h : Linked calcSize s) (hmap : s.map = l ++ r)
    (hl : ∀ m ∈ l, m.start < n.start) (hr : ∀ m ∈ r, n.start < m.start)
    (hid : ∀ m ∈ s.map, m.id ≠ n.id) :
    ((l ++ n :: r).Pairwise fun m n => m.start < n.start) ∧ ((l ++ n :: r).map RangeNode.it).Nodup := by
  have hsorted := h.sorted
  have hids := h.ids
  rw [hmap] at hsorted hids hid
  obtain ⟨hsl, hsr, hslr⟩ := List.pairwise_append.1 hsorted
  constructor
  · refine List.pairwise_append.2 ⟨hsl, List.pairwise_cons.2 ⟨hr, hsr⟩, ?_⟩
    intro a ha b hb
    rcases List.mem_cons.1 hb with rfl | hb
    · exact hl a ha
    · exact hslr a ha b hb
  · rw [List.map_append, List.map_cons, List.nodup_middle, List.nodup_cons, ← List.map_append]
    refine ⟨?_, hids⟩
    intro hmem
    obtain ⟨m, hm, heq⟩ := List.mem_map.1 hmem
    exact hid m hm (Option.some.inj heq)

omit [LinearOrder S] [LinearOrder T] in
theorem assign_eq {s : RangeSizeSet T S} (hids : (s.map.map RangeNode.it).Nodup)
    (hmap : s.map = l ++ n :: r) (f : RangeNode T → RangeNode T) :
    s.assign n.it f = some { s with map := l ++ f n :: r } := by
  rw [hmap] at hids
  have hnode : s.node? n.it = some n := by
    rw [node?, hmap]
    exact KeyedList.find_key hids
  have hmap' : (s.map.map fun m => if some m.id = n.it then f m else m) = l ++ f n :: r := by
    rw [hmap]
    exact KeyedList.map_key hids f
  rw [assign, hnode]
  change some _ = _
  rw [hmap']

theorem insertRange_spec (h : Linked calcSize s) (hmap : s.map = l ++ r) (start stop : T)
    (hl : ∀ m ∈ l, m.start < start) (hr : ∀ m ∈ r, start < m.start) :
    ∃ n s', s.insertRange calcSize start stop = some (n.it, s') ∧ Linked calcSize s' ∧
      s'.map = l ++ n :: r ∧ n.start = start ∧ n.stop = stop := by
  have hnone : (s.map.find? fun n => n.start = start) = none := by
    rw [hmap]
    refine List.find?_eq_none.2 fun m hm => ?_
    rcases List.mem_append.1 hm with hm | hm
    · simpa using (hl m hm).ne
    · simpa using (hr m hm).ne'
  have htake : (s.map.takeWhile fun n => n.start < start) = l := by
    rw [hmap]
    exact KeyedList.takeWhile_append_of_stop (fun m hm => by simpa using hl m hm)
      fun m hm => by simpa using (hr m hm).le
  have hdrop : (s.map.dropWhile fun n => n.start < start) = r := by
    rw [hmap]
    exact KeyedList.dropWhile_append_of_stop (fun m hm => by simpa using hl m hm)
      fun m hm => by simpa using (hr m hm).le
  have hid : ∀ m ∈ s.map, m.id ≠ s.fresh := fun m hm => (h.freshIds m hm).ne
  -- the range as it goes into the map, and as it is once its entry is there
  let bare : RangeNode T := { id := s.fresh, start := start, stop := stop, sizeIt := none }
  let n : RangeNode T := { bare with sizeIt := some (s.fresh + 1) }
  let e : SizeEntry S := { id := s.fresh + 1, size := calcSize start stop, it := some s.fresh }
  obtain ⟨-, hids⟩ := h.place (n := bare) hmap hl hr hid
  obtain ⟨hsorted, hids'⟩ := h.place (n := n) hmap hl hr hid
  have hmapped : s.emplaceMap start stop =
      (some s.fresh, { s with map := l ++ bare :: r, fresh := s.fresh + 1 }) := by
    rw [emplaceMap, hnone, htake, hdrop]
  have hsizes := h.sizes
  rw [hmap] at hsizes
  have hadd : SizesOf calcSize (l ++ n :: r) (placeSize s.sizes e) :=
    hsizes.add (fun d hd => (Nat.lt_succ_of_lt (h.freshSizeIds d hd)).ne) rfl
  refine ⟨n, { map := l ++ n :: r, sizes := placeSize s.sizes e, fresh := s.fresh + 2 }, ?_,
    ⟨hsorted, hids', hadd, ?_, ?_⟩, rfl, rfl, rfl⟩
  · have hassign := assign_eq (n := bare) (l := l) (r := r)
      (s := { map := l ++ bare :: r, sizes := placeSize s.sizes e, fresh := s.fresh + 2 }) hids rfl
      fun n => { n with sizeIt := some (s.fresh + 1) }
    rw [insertRange, hmapped]
    change (RangeSizeSet.assign _ bare.it _ >>= _) = _
    exact congrArg (· >>= fun s => some (some _, s)) hassign
  · intro m hm
    change m.id < s.fresh + 2
    rcases List.mem_append.1 hm with hm | hm
    · have := h.freshIds m (by rw [hmap]; exact List.mem_append_left _ hm)
      omega
    · rcases List.mem_cons.1 hm with rfl | hm
      · exact Nat.lt_add_of_pos_right (by omega)
      · have := h.freshIds m (by rw [hmap]; exact List.mem_append_right _ hm)
        omega
  · intro d hd
    change d.id < s.fresh + 2
    rcases List.mem_cons.1 ((placeSize_perm s.sizes e).mem_iff.1 hd) with rfl | hd
    · exact Nat.lt_succ_self _
    · have := h.freshSizeIds d hd
      omega

theorem Linked.unplace (h : Linked calcSize s) (hmap : s.map = l ++ n :: r) :
    ((l ++ r).Pairwise fun m n => m.start < n.start) ∧ ((l ++ r).map RangeNode.it).Nodup := by
  have hsub : (l ++ r).Sublist s.map := by
    rw [hmap]
    exact List.Sublist.append_left (List.sublist_cons_self n r) l
  exact ⟨h.sorted.sublist hsub, h.ids.sublist (hsub.map _)⟩

theorem Linked.erase (h : Linked calcSize s) (hmap : s.map = l ++ n :: r) {e : SizeEntry S}
    (he : e ∈ s.sizes) (hlink : entryLink e = nodeLink calcSize n) :
    Linked calcSize { s with
      map := l ++ r
      sizes := s.sizes.filter fun d => some d.id ≠ e.sizeIt } := by
  obtain ⟨hsorted, hids⟩ := h.unplace hmap
  have hsizes := h.sizes
  rw [hmap] at hsizes
  refine ⟨hsorted, hids, hsizes.remove he hlink, ?_, ?_⟩
  · intro m hm
    apply h.freshIds
    rw [hmap]
    exact (List.Sublist.append_left (List.sublist_cons_self n r) l).subset hm
  · intro d hd
    exact h.freshSizeIds d (List.mem_of_mem_filter hd)

omit [LinearOrder S] [LinearOrder T] in
theorem eraseMap_eq {s : RangeSizeSet T S} (hids : (s.map.map RangeNode.it).Nodup)
    (hmap : s.map = l ++ n :: r) :
    s.eraseMap n.it = some (headIt r, { s with map := l ++ r }) := by
  rw [hmap] at hids
  have hdrop : (s.map.dropWhile fun m => some m.id ≠ n.it) = n :: r := by
    rw [hmap]
    exact KeyedList.dropWhile_key hids
  have hfilter : (s.map.filter fun m => some m.id ≠ n.it) = l ++ r := by
    rw [hmap]
    exact KeyedList.filter_key hids
  rw [eraseMap, next, hdrop]
  change some (headIt r, _) = _
  rw [hfilter]

theorem eraseRange_spec (h : Linked calcSize s) (hmap : s.map = l ++ n :: r) :
    ∃ s', s.eraseRange n.it = some (headIt r, s') ∧ Linked calcSize s' ∧ s'.map = l ++ r := by
  obtain ⟨e, he, hlink⟩ := h.sizes.exists_entry (n := n) (by rw [hmap]; simp)
  have hsizeIt : n.sizeIt = e.sizeIt := (congrArg Prod.fst hlink).symm
  obtain ⟨after, herase⟩ := eraseSize_eq h.sizes.ids he
  refine ⟨_, ?_, h.erase hmap he hlink, rfl⟩
  rw [eraseRange, node_eq h hmap]
  change (s.eraseSize n.sizeIt >>= _) = _
  rw [hsizeIt, herase]
  exact eraseMap_eq (s := { s with sizes := _ }) h.ids hmap

theorem eraseRangeBySize_spec (h : Linked calcSize s) (hmap : s.map = l ++ n :: r)
    {e : SizeEntry S} (he : e ∈ s.sizes) (hlink : entryLink e = nodeLink calcSize n) :
    ∃ after s', s.eraseRangeBySize e.sizeIt = some (after, s') ∧ Linked calcSize s' ∧
      s'.map = l ++ r := by
  have hit : e.it = n.it := congrArg (fun link => link.2.2) hlink
  obtain ⟨after, herase⟩ := eraseSize_eq (s := { s with map := l ++ r }) h.sizes.ids he
  have hfind : (s.sizes.find? fun d => some d.id = e.sizeIt) = some e := by
    have hids := h.sizes.ids
    obtain ⟨before, behind, hsizes⟩ := List.append_of_mem he
    rw [hsizes] at hids ⊢
    exact KeyedList.find_key hids
  refine ⟨after, _, ?_, h.erase hmap he hlink, rfl⟩
  rw [eraseRangeBySize, hfind]
  change (s.eraseMap e.it >>= _) = _
  rw [hit, eraseMap_eq h.ids hmap]
  exact herase

theorem setTo_spec (h : Linked calcSize s) (hmap : s.map = l ++ n :: r) (stop : T) :
    ∃ m s', s.setTo calcSize n.it stop = some s' ∧ Linked calcSize s' ∧ s'.map = l ++ m :: r ∧
      m.it = n.it ∧ m.start = n.start ∧ m.stop = stop := by
  obtain ⟨e, he, hlink⟩ := h.sizes.exists_entry (n := n) (by rw [hmap]; simp)
  have hsizeIt : n.sizeIt = e.sizeIt := (congrArg Prod.fst hlink).symm
  let bare : RangeNode T := { n with stop := stop }
  let m : RangeNode T := { n with stop := stop, sizeIt := some s.fresh }
  let f : SizeEntry S := { id := s.fresh, size := calcSize n.start stop, it := n.it }
  have hids := h.ids
  have hsorted := h.sorted
  have hsizes := h.sizes
  rw [hmap] at hids hsorted hsizes
  have hbare : ((l ++ bare :: r).map RangeNode.it).Nodup := by
    rw [List.map_append, List.map_cons] at hids ⊢
    exact hids
  have hm : ((l ++ m :: r).map RangeNode.it).Nodup := by
    rw [List.map_append, List.map_cons] at hids ⊢
    exact hids
  have hsorted' : (l ++ m :: r).Pairwise fun m n => m.start < n.start := by
    obtain ⟨hsl, hsr, hslr⟩ := List.pairwise_append.1 hsorted
    obtain ⟨hn, hsr⟩ := List.pairwise_cons.1 hsr
    refine List.pairwise_append.2 ⟨hsl, List.pairwise_cons.2 ⟨hn, hsr⟩, ?_⟩
    intro a ha b hb
    rcases List.mem_cons.1 hb with rfl | hb
    · exact hslr a ha n List.mem_cons_self
    · exact hslr a ha b (List.mem_cons_of_mem _ hb)
  let sizes := s.sizes.filter fun d => some d.id ≠ e.sizeIt
  have hremoved : SizesOf calcSize (l ++ r) sizes := hsizes.remove he hlink
  have hadd : SizesOf calcSize (l ++ m :: r) (placeSize sizes f) :=
    hremoved.add (fun d hd => (h.freshSizeIds d (List.mem_of_mem_filter hd)).ne) rfl
  refine ⟨m, { map := l ++ m :: r, sizes := placeSize sizes f, fresh := s.fresh + 1 }, ?_,
    ⟨hsorted', hm, hadd, ?_, ?_⟩, rfl, rfl, rfl, rfl⟩
  · have hfirst : s.assign n.it (fun n => { n with stop := stop }) =
        some { s with map := l ++ bare :: r } := assign_eq h.ids hmap _
    have hnode : RangeSizeSet.node? { s with map := l ++ bare :: r } n.it = some bare :=
      KeyedList.find_key hbare
    obtain ⟨after, herase⟩ := eraseSize_eq (s := { s with map := l ++ bare :: r }) h.sizes.ids he
    have hsecond := assign_eq (n := bare) (l := l) (r := r)
      (s := { map := l ++ bare :: r, sizes := placeSize sizes f, fresh := s.fresh + 1 }) hbare rfl
      fun n => { n with sizeIt := some s.fresh }
    rw [setTo, hfirst]
    change (RangeSizeSet.node? { s with map := l ++ bare :: r } n.it >>= _) = _
    rw [hnode]
    change (RangeSizeSet.eraseSize { s with map := l ++ bare :: r } n.sizeIt >>= _) = _
    rw [hsizeIt, herase]
    exact hsecond
  · intro a ha
    change a.id < s.fresh + 1
    rcases List.mem_append.1 ha with ha | ha
    · have := h.freshIds a (by rw [hmap]; exact List.mem_append_left _ ha)
      omega
    · rcases List.mem_cons.1 ha with rfl | ha
      · have := h.freshIds n (by rw [hmap]; simp)
        exact Nat.lt_succ_of_lt this
      · have := h.freshIds a (by rw [hmap]; simp [ha])
        omega
  · intro d hd
    change d.id < s.fresh + 1
    rcases List.mem_cons.1 ((placeSize_perm sizes f).mem_iff.1 hd) with rfl | hd
    · exact Nat.lt_succ_self _
    · have := h.freshSizeIds d (List.mem_of_mem_filter hd)
      omega

end

end RangeSizeSet
end DolphinXR.Common
