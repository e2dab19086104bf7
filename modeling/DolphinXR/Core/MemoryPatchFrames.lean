import DolphinXR.Core.MemoryPatches

/- The list of the patch engine against the frame patches of the debugger. The indices in the list
   are right after an action just if it disables no enabled frame patch and removes no patch that
   an enabled frame patch stands behind: disabling adds the index once more where it should take
   it out, and erasing a patch moves the others while the list stays. -/
namespace DolphinXR.Debug
namespace Debugger
variable {κ : Type}

theorem listed_congr {s s' : Debugger κ} (hlist : s'.onFrameMemory = s.onFrameMemory)
    (hlive : s'.patches.map MemoryPatch.isLive = s.patches.map MemoryPatch.isLive) :
    Listed s' ↔ Listed s := by
  have hat : ∀ i, s'.LiveAt i ↔ s.LiveAt i := fun i => by rw [LiveAt, LiveAt, hlive]
  constructor
  · exact fun h => ⟨hlist ▸ h.nodup, fun i => by rw [← hat, ← h.mem, hlist]⟩
  · exact fun h => ⟨hlist.symm ▸ h.nodup, fun i => by rw [hat, ← h.mem, hlist]⟩

theorem isLive_of_getElem? {s : Debugger κ} {i : Nat} {p : MemoryPatch}
    (h : s.patches[i]? = some p) : s.LiveAt i ↔ p.isLive = true := by
  simp [LiveAt, h]

theorem patches_unPatch (index : Nat) (s : Debugger κ) : (unPatch index s).patches = s.patches := by
  cases h : s.patches[index]? with
  | none => simp only [unPatch, h]
  | some p => cases htype : p.type <;> simp only [unPatch, h, htype]

theorem Shifts.exists_last {index : Nat} {s : Debugger κ} (h : s.Shifts index) :
    ∃ j, index < j ∧ s.LiveAt j ∧ ∀ k, j < k → ¬ s.LiveAt k := by
  classical
  obtain ⟨i, hi, hlive⟩ := h
  refine ⟨Nat.findGreatest s.LiveAt s.patches.length, ?_, ?_, ?_⟩
  · exact hi.trans_le (Nat.le_findGreatest hlive.lt.le hlive)
  · exact Nat.findGreatest_spec hlive.lt.le hlive
  · exact fun k hk hk' => Nat.findGreatest_is_greatest hk hk'.lt.le hk'

theorem find_lt {s : Debugger κ} {address : Address} {index : Nat}
    (h : s.find address = some index) : index < s.patches.length :=
  (List.findIdx?_eq_some_iff_findIdx_eq.1 h).1

variable [DecidableEq κ] {locate : Address → Option κ}

/-! ### Setting a patch -/

theorem listed_append {p : MemoryPatch} (henabled : p.isEnabled = .enabled) (s : Debugger κ) :
    Listed (append locate p s) ↔ Listed s := by
  have hlast : (s.patches ++ [p])[s.patches.length]? = some p := by simp
  have hlive : ∀ i, (append locate p s).LiveAt i ↔
      s.LiveAt i ∨ i = s.patches.length ∧ p.isLive = true := by
    intro i
    rw [LiveAt, append, map_patch locate isLive_value, List.map_append, List.getElem?_append, LiveAt]
    split
    · next hlt =>
      have hne : i ≠ s.patches.length := by simpa using Nat.ne_of_lt hlt
      simp [hne]
    · next hge =>
      have hle : s.patches.length ≤ i := by simpa using hge
      have hnone : s.patches[i]? = none := List.getElem?_eq_none hle
      simp [hnone, List.getElem?_singleton]
      omega
  have hout : ¬ s.LiveAt s.patches.length := fun h => Nat.lt_irrefl _ h.lt
  have hlist : (append locate p s).onFrameMemory =
      if p.isLive then s.onFrameMemory ++ [s.patches.length] else s.onFrameMemory := by
    rw [append, onFrameMemory_patch hlast]
    simp [MemoryPatch.isLive, henabled]
  cases hp : p.isLive with
  | false =>
    rw [hp, if_neg Bool.false_ne_true] at hlist
    constructor
    · exact fun h => ⟨hlist ▸ h.nodup, fun i => by rw [← hlist, h.mem, hlive]; simp [hp]⟩
    · exact fun h => ⟨hlist.symm ▸ h.nodup, fun i => by rw [hlist, h.mem, hlive]; simp [hp]⟩
  | true =>
    rw [hp, if_pos rfl] at hlist
    constructor
    · intro h
      have hnodup := h.nodup
      rw [hlist, List.nodup_append] at hnodup
      refine ⟨hnodup.1, fun i => ?_⟩
      have hmem := h.mem i
      rw [hlist, List.mem_append, List.mem_singleton, hlive] at hmem
      rcases eq_or_ne i s.patches.length with rfl | hne
      · exact iff_of_false (fun hi => hnodup.2.2 _ hi _ (List.mem_singleton_self _) rfl) hout
      · simpa [hne] using hmem
    · intro h
      refine ⟨?_, fun i => ?_⟩
      · rw [hlist, ← List.concat_eq_append]
        exact h.nodup.concat fun hmem => hout ((h.mem _).1 hmem)
      · rw [hlist, List.mem_append, List.mem_singleton, hlive, h.mem]
        simp [hp]

/-! ### Enabling and disabling -/

variable (locate) in
theorem switchTo_spec (state : PatchState) {index : Nat} {s : Debugger κ} {p : MemoryPatch}
    (h : s.patches[index]? = some p) (hstate : p.isEnabled ≠ state) :
    (switchTo locate state index s).patches.map MemoryPatch.isLive =
        (s.patches.set index { p with isEnabled := state }).map MemoryPatch.isLive ∧
      (switchTo locate state index s).onFrameMemory =
        if p.type = .eachFrame then s.onFrameMemory ++ [index] else s.onFrameMemory := by
  have hlt := (List.getElem?_eq_some_iff.1 h).1
  have hset : (s.patches.set index { p with isEnabled := state })[index]? =
      some { p with isEnabled := state } := by simp [hlt]
  simp only [switchTo, h, if_neg hstate]
  exact ⟨map_patch locate isLive_value _ _, by rw [onFrameMemory_patch hset]⟩

theorem switchTo_same {state : PatchState} {index : Nat} {s : Debugger κ}
    (h : ∀ p, s.patches[index]? = some p → p.isEnabled = state) :
    switchTo locate state index s = s := by
  cases hp : s.patches[index]? with
  | none => simp only [switchTo, hp]
  | some p => simp only [switchTo, hp, if_pos (h p hp)]

variable (locate) in
theorem types_switchTo (state : PatchState) (index : Nat) (s : Debugger κ) :
    (switchTo locate state index s).types = s.types := by
  cases hp : s.patches[index]? with
  | none => simp only [switchTo, hp]
  | some p =>
    simp only [switchTo, hp]
    split
    · rfl
    · exact (map_patch locate type_value _ _).trans (map_set_of_getElem? hp rfl)

variable (locate) in
theorem disablePatch_of_not_live {index : Nat} {s : Debugger κ} (h : ¬ s.LiveAt index) :
    (disablePatch locate index s).onFrameMemory = s.onFrameMemory ∧
      (disablePatch locate index s).patches.map MemoryPatch.isLive =
        s.patches.map MemoryPatch.isLive := by
  cases hp : s.patches[index]? with
  | none =>
    rw [disablePatch, switchTo_same fun p hsome => absurd (hp.symm.trans hsome) nofun]
    exact ⟨rfl, rfl⟩
  | some p =>
    have hdead : p.isLive = false := by simpa [isLive_of_getElem? hp] using h
    by_cases hstate : p.isEnabled = .disabled
    · rw [disablePatch, switchTo_same fun q hq => by rwa [← Option.some.inj (hp.symm.trans hq)]]
      exact ⟨rfl, rfl⟩
    · obtain ⟨hlive, hlist⟩ := switchTo_spec locate .disabled hp hstate
      have henabled : p.isEnabled = .enabled := by
        cases hs : p.isEnabled with
        | enabled => rfl
        | disabled => exact absurd hs hstate
      have honce : p.type ≠ .eachFrame := by simpa [MemoryPatch.isLive, henabled] using hdead
      refine ⟨by rw [disablePatch, hlist, if_neg honce], ?_⟩
      rw [disablePatch, hlive]
      exact map_set_of_getElem? hp (hdead.symm ▸ by simp [MemoryPatch.isLive])

theorem listed_enablePatch {index : Nat} {s : Debugger κ} (h : Listed s) :
    Listed (enablePatch locate index s) := by
  cases hp : s.patches[index]? with
  | none =>
    rwa [enablePatch, switchTo_same fun p hsome => absurd (hp.symm.trans hsome) nofun]
  | some p =>
    by_cases hstate : p.isEnabled = .enabled
    · rwa [enablePatch, switchTo_same fun q hq => by rwa [← Option.some.inj (hp.symm.trans hq)]]
    · obtain ⟨hlive, hlist⟩ := switchTo_spec locate .enabled hp hstate
      have hdead : ¬ s.LiveAt index := by simp [isLive_of_getElem? hp, MemoryPatch.isLive, hstate]
      have hlt := (List.getElem?_eq_some_iff.1 hp).1
      have hat : ∀ i, (enablePatch locate index s).LiveAt i ↔
          s.LiveAt i ∨ i = index ∧ p.type = .eachFrame := by
        intro i
        rw [LiveAt, enablePatch, hlive, List.map_set, List.getElem?_set]
        split
        · next heq =>
          subst heq
          simp [hlt, hdead, MemoryPatch.isLive]
        · next hne =>
          simp [LiveAt, Ne.symm hne]
      rw [← enablePatch] at hlist
      by_cases hframe : p.type = .eachFrame
      · rw [if_pos hframe] at hlist
        refine ⟨?_, fun i => ?_⟩
        · rw [hlist, ← List.concat_eq_append]
          exact h.nodup.concat fun hmem => hdead ((h.mem _).1 hmem)
        · rw [hlist, List.mem_append, List.mem_singleton, hat, h.mem]
          simp [hframe]
      · rw [if_neg hframe] at hlist
        exact ⟨hlist ▸ h.nodup, fun i => by rw [hlist, hat, h.mem]; simp [hframe]⟩

theorem listed_disablePatch_iff {index : Nat} {s : Debugger κ} (h : Listed s) :
    Listed (disablePatch locate index s) ↔ ¬ s.LiveAt index := by
  by_cases hlive : s.LiveAt index
  · refine iff_of_false (fun h' => ?_) (not_not_intro hlive)
    have hmem := (h.mem index).2 hlive
    have hlt := hlive.lt
    have hp : s.patches[index]? = some s.patches[index] := List.getElem?_eq_getElem hlt
    have hisLive := (isLive_of_getElem? hp).1 hlive
    obtain ⟨henabled, hframe⟩ : s.patches[index].isEnabled = .enabled ∧
        s.patches[index].type = .eachFrame := by simpa [MemoryPatch.isLive] using hisLive
    have hlist := (switchTo_spec locate .disabled hp
      (henabled ▸ nofun)).2
    have hnodup := h'.nodup
    rw [disablePatch, hlist, if_pos hframe, List.nodup_append] at hnodup
    exact hnodup.2.2 _ hmem _ (List.mem_singleton_self _) rfl
  · obtain ⟨hlist, hmap⟩ := disablePatch_of_not_live locate hlive
    exact iff_of_true ((listed_congr hlist hmap).2 h) hlive

/-! ### Removing -/

variable (locate) in
theorem unPatch_disablePatch {index : Nat} {s : Debugger κ} {p : MemoryPatch}
    (h : s.patches[index]? = some p) :
    (unPatch index (disablePatch locate index s)).onFrameMemory =
        (if p.type = .eachFrame then s.onFrameMemory.filter (· ≠ index) else s.onFrameMemory) ∧
      (unPatch index (disablePatch locate index s)).types = s.types := by
  have htypes : (disablePatch locate index s).types = s.types := types_switchTo ..
  obtain ⟨q, hq, htype⟩ : ∃ q, (disablePatch locate index s).patches[index]? = some q ∧
      q.type = p.type := by
    have hat := congrArg (·[index]?) htypes
    simpa [types, h] using hat
  have hlist : (disablePatch locate index s).onFrameMemory = s.onFrameMemory ∨
      p.type = .eachFrame ∧
        (disablePatch locate index s).onFrameMemory = s.onFrameMemory ++ [index] := by
    by_cases hstate : p.isEnabled = .disabled
    · rw [disablePatch, switchTo_same fun q hq => by rwa [← Option.some.inj (h.symm.trans hq)]]
      exact .inl rfl
    · rw [disablePatch, (switchTo_spec locate .disabled h hstate).2]
      by_cases hframe : p.type = .eachFrame <;> simp [hframe]
  cases hframe : p.type with
  | once =>
    rw [hframe] at htype hlist
    simp only [unPatch, hq, htype]
    exact ⟨by simpa using hlist, htypes⟩
  | eachFrame =>
    rw [hframe] at htype
    simp only [unPatch, hq, htype]
    refine ⟨?_, htypes⟩
    rcases hlist with hsame | ⟨-, hlist⟩
    · simp [hsame]
    · simp [hlist, List.filter_append]

theorem liveAt_removePatch {index : Nat} {s : Debugger κ} (i : Nat) :
    (removePatch locate index s).LiveAt i ↔ s.LiveAt (if i < index then i else i + 1) := by
  have hother : ∀ j, j ≠ index →
      ((disablePatch locate index s).patches.map MemoryPatch.isLive)[j]? =
        (s.patches.map MemoryPatch.isLive)[j]? := by
    intro j hj
    cases hp : s.patches[index]? with
    | none => rw [disablePatch, switchTo_same fun p hsome => absurd (hp.symm.trans hsome) nofun]
    | some p =>
      by_cases hstate : p.isEnabled = .disabled
      · rw [disablePatch, switchTo_same fun q hq => by rwa [← Option.some.inj (hp.symm.trans hq)]]
      · rw [disablePatch, (switchTo_spec locate .disabled hp hstate).1, List.map_set, List.getElem?_set_ne hj.symm]
  simp only [List.getElem?_map] at hother
  simp only [LiveAt, removePatch, patches_unPatch, List.getElem?_map, List.getElem?_eraseIdx]
  split
  · rw [hother i (by omega)]
  · rw [hother (i + 1) (by omega)]

variable (locate) in
theorem onFrameMemory_removePatch {index : Nat} {s : Debugger κ} (h : Listed s)
    (hlt : index < s.patches.length) :
    (removePatch locate index s).onFrameMemory = s.onFrameMemory.filter (· ≠ index) := by
  have hp : s.patches[index]? = some s.patches[index] := List.getElem?_eq_getElem hlt
  simp only [removePatch]
  rw [(unPatch_disablePatch locate hp).1]
  split
  · rfl
  · next hframe =>
    have hdead : ¬ s.LiveAt index := by simp [isLive_of_getElem? hp, MemoryPatch.isLive, hframe]
    symm
    rw [List.filter_eq_self]
    intro i hi
    simpa using fun heq : i = index => hdead ((h.mem _).1 (heq ▸ hi))

theorem listed_removePatch_iff {index : Nat} {s : Debugger κ} (h : Listed s)
    (hlt : index < s.patches.length) :
    Listed (removePatch locate index s) ↔ ¬ s.Shifts index := by
  have hlist := onFrameMemory_removePatch locate h hlt
  have hmem : ∀ i, i ∈ (removePatch locate index s).onFrameMemory ↔ s.LiveAt i ∧ i ≠ index := by
    intro i
    rw [hlist, List.mem_filter, h.mem]
    simp
  constructor
  · intro h' hshifts
    obtain ⟨j, hj, hlive, hlast⟩ := hshifts.exists_last
    have hin := (hmem j).2 ⟨hlive, by omega⟩
    rw [h'.mem, liveAt_removePatch, if_neg (by omega)] at hin
    exact hlast (j + 1) (Nat.lt_succ_self j) hin
  · intro hno
    refine ⟨hlist ▸ h.nodup.filter _, fun i => ?_⟩
    rw [hmem, liveAt_removePatch]
    rcases Nat.lt_trichotomy i index with hi | rfl | hi
    · rw [if_pos hi]
      exact and_iff_left (by omega)
    · rw [if_neg (Nat.lt_irrefl i)]
      exact iff_of_false (fun h => h.2 rfl) fun hnext => hno ⟨i + 1, Nat.lt_succ_self i, hnext⟩
    · rw [if_neg (by omega)]
      exact iff_of_false (fun h => hno ⟨i, hi, h.1⟩) fun hnext => hno ⟨i + 1, by omega, hnext⟩

theorem listed_unsetPatch_iff {address : Address} {s : Debugger κ} (h : Listed s) :
    Listed (unsetPatch locate address s) ↔
      ∀ index, s.find address = some index → ¬ s.Shifts index := by
  cases hfind : s.find address with
  | none =>
    simp only [unsetPatch, hfind]
    exact iff_of_true h fun _ hsome => absurd hsome nofun
  | some index =>
    simp only [unsetPatch, hfind, Option.some.injEq, forall_eq']
    exact listed_removePatch_iff h (find_lt hfind)

theorem listed_clearPatches {s : Debugger κ} (h : Listed s) :
    Listed (clearPatches locate s) := by
  -- What is left in the list after some patches is not one of them.
  have hfold : ∀ (l : List Nat) (t : Debugger κ), t.types = s.types →
      (∀ i ∈ l, i < s.patches.length) →
      let r := l.foldl (fun t index => unPatch index (disablePatch locate index t)) t
      (∀ i ∈ r.onFrameMemory, i ∈ t.onFrameMemory) ∧
        ∀ i ∈ l, s.types[i]? = some .eachFrame → i ∉ r.onFrameMemory := by
    intro l
    induction l with
    | nil => exact fun t _ _ => ⟨fun _ => id, fun i hi => absurd hi List.not_mem_nil⟩
    | cons index rest ih =>
      intro t htypes hlt
      have hindex : index < t.patches.length := by
        have hlength := congrArg List.length htypes
        simp only [types, List.length_map] at hlength
        have hbound := hlt index List.mem_cons_self
        omega
      have hp : t.patches[index]? = some t.patches[index] := List.getElem?_eq_getElem hindex
      obtain ⟨hlist, hsame⟩ := unPatch_disablePatch locate hp
      obtain ⟨hsub, hout⟩ := ih (unPatch index (disablePatch locate index t))
        (hsame.trans htypes) fun i hi => hlt i (List.mem_cons_of_mem _ hi)
      have hkept : ∀ i ∈ (unPatch index (disablePatch locate index t)).onFrameMemory,
          i ∈ t.onFrameMemory := by
        intro i hi
        rw [hlist] at hi
        split at hi
        · exact (List.mem_filter.1 hi).1
        · exact hi
      refine ⟨fun i hi => hkept i (hsub i hi), fun i hi hframe => ?_⟩
      rcases List.mem_cons.1 hi with rfl | hi
      · intro hin
        have htype : t.patches[i].type = .eachFrame := by
          rw [← htypes] at hframe
          simpa [types, hp] using hframe
        have hleft := hsub i hin
        rw [hlist, if_pos htype] at hleft
        simp at hleft
      · exact hout i hi hframe
  obtain ⟨hsub, hout⟩ := hfold (List.range s.patches.length) s rfl fun i hi => List.mem_range.1 hi
  have hempty : (clearPatches locate s).onFrameMemory = [] := by
    rw [List.eq_nil_iff_forall_not_mem]
    intro i hi
    have hlive := (h.mem i).1 (hsub i hi)
    have hlt := hlive.lt
    have hp : s.patches[i]? = some s.patches[i] := List.getElem?_eq_getElem hlt
    have hisLive := (isLive_of_getElem? hp).1 hlive
    refine hout i (List.mem_range.2 hlt) ?_ hi
    simp only [MemoryPatch.isLive, Bool.and_eq_true, decide_eq_true_eq] at hisLive
    simp [types, hp, hisLive.2]
  refine ⟨hempty ▸ List.nodup_nil, fun i => ?_⟩
  rw [hempty]
  simp [LiveAt, clearPatches]

theorem listed_perform_iff {s : Debugger κ} (h : Listed s) {a : Action} (hnames : a.Names s) :
    Listed (a.perform locate s) ↔ a.FrameOk s := by
  cases a with
  | setPatch address value => exact iff_of_true ((listed_append rfl s).2 h) trivial
  | setFramePatch address value => exact iff_of_true ((listed_append rfl s).2 h) trivial
  | setPatchBytes address value => exact (listed_append rfl _).trans (listed_unsetPatch_iff h)
  | setFramePatchBytes address value => exact (listed_append rfl _).trans (listed_unsetPatch_iff h)
  | unsetPatch address => exact listed_unsetPatch_iff h
  | enablePatch index => exact iff_of_true (listed_enablePatch h) trivial
  | disablePatch index => exact listed_disablePatch_iff h
  | removePatch index => exact listed_removePatch_iff h hnames
  | clearPatches => exact iff_of_true (listed_clearPatches h) trivial
  | frame =>
    have hsame := listed_congr (onFrameMemory_applyMemoryPatches s)
      (map_applyMemoryPatches locate isLive_value s)
    exact iff_of_true (hsame.2 h) trivial

end Debugger
end DolphinXR.Debug
