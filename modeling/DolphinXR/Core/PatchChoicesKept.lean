import DolphinXR.Core.PatchChoices

/- Which choices survive. Where no call writes the section between the load and the write of a call
   about something else, the section has for each choice the value of a call that no other call for
   it followed, in whatever order the calls take their steps. A call that loads before another one
   writes undoes the other's choice. -/
namespace DolphinXR.PatchChoices
open Lib Common PatchIni
variable {V : Type} (n : Numbers V)

/-- The section has, for what is chosen, the value of a call that no other such call followed, or
    what it had from the beginning. -/
def Kept (initial : Text) (s : State V) (k : Key) : Prop :=
  ((∀ r ∈ s.calls, r.choice.key ≠ k) ∧
    lookup (loadUserPatchValues n s.text) k = lookup (loadUserPatchValues n initial) k) ∨
  ∃ (c : Nat) (r : Record V), s.calls[c]? = some r ∧ r.choice.key = k ∧
    lookup (loadUserPatchValues n s.text) k = some r.choice.value ∧
    ∀ r' ∈ s.calls, r'.choice.key = k → c ∉ r'.after

/-- A name that a line of the section can hold, and a finite value. -/
def Call.Savable : Call V → Prop
  | .setPatchSetting _ name value true .unlisted => NameText name ∧ n.isFinite value = true
  | .setPatchSetting _ name value true (.named normalize) =>
    NameText name ∧ n.isFinite (normalize value) = true
  | _ => True

/-- The call that has loaded the section and has not written it yet. -/
def Pc.loaded : Pc V → Option (Job V)
  | lock job _ => some job
  | read job _ => some job
  | write job _ _ => some job
  | _ => none

/-- What a call saves can be saved; and when it writes, the other calls that have loaded the section
    and have still to write it are about the same patch or setting. -/
def Undisturbed (s : State V) : Action V → Prop
  | .begin _ call => call.Savable n
  | .advance t => ∀ job values text, s.threads t = .write job values text →
    ∀ u ≠ t, ∀ other, (s.threads u).loaded = some other → other.choice.key = job.choice.key
  | _ => True

/-! ### Choices -/

theorem lookup_put (values : PatchValues V) (choice : Choice V) (k : Key) :
    lookup (put values choice) k =
      if k = choice.key then some choice.value else lookup values k := by
  cases choice with
  | enabled id b =>
    cases k with
    | enabled id' =>
      have hset : (values.setEnabled id b).enabled.get? id' = _ := OrderedMap.get?_set
      refine (congrArg (Option.map Sum.inl) hset).trans ?_
      by_cases h : id' = id
      · rw [if_pos h]
        exact (if_pos (congrArg Key.enabled h)).symm
      · rw [if_neg h]
        exact (if_neg fun hk => h (Key.enabled.inj hk)).symm
    | setting id' name' => exact (if_neg nofun).symm
  | setting id name v =>
    cases k with
    | enabled id' => exact (if_neg nofun).symm
    | setting id' name' =>
      have hset : (values.setSetting id name v).settings.get? (toLex (id', name')) = _ :=
        OrderedMap.get?_set
      refine (congrArg (Option.map Sum.inr) hset).trans ?_
      by_cases h : Key.setting id' name' = .setting id name
      · obtain ⟨rfl, rfl⟩ := Key.setting.inj h
        rw [if_pos rfl]
        exact (if_pos rfl).symm
      · rw [if_neg fun hk => h (by cases hk; rfl)]
        exact (if_neg h).symm

def SavableChoice : Choice V → Prop
  | .enabled id _ => IdText id ∧ id ≠ []
  | .setting id name v => IdText id ∧ id ≠ [] ∧ NameText name ∧ n.isFinite v = true

theorem storable_put {values : PatchValues V} (h : Storable n values) {choice : Choice V}
    (hchoice : SavableChoice n choice) : Storable n (put values choice) := by
  cases choice with
  | enabled id b => exact h.setEnabled n hchoice.1 b
  | setting id name v => exact h.setSetting n hchoice.1 hchoice.2.1 hchoice.2.2.1 hchoice.2.2.2

theorem idText_of_valid {id : Text} (h : isValidPatchId id = true) : IdText id ∧ id ≠ [] := by
  unfold isValidPatchId at h
  obtain ⟨hshape, hall⟩ := Bool.and_eq_true_iff.1 h
  have hne : id ≠ [] := by
    rintro rfl
    exact absurd hshape nofun
  have hchar : ∀ c ∈ id, isBlank c = false ∧ c ≠ '=' ∧ c ≠ '/' ∧ c ≠ '\n' ∧ c ≠ '#' ∧ c ≠ ';' := by
    intro c hc
    have hvalid := List.all_eq_true.1 hall c hc
    refine ⟨?_, ?_, ?_, ?_, ?_, ?_⟩
    · cases hblank : isBlank c with
      | false => rfl
      | true =>
        unfold isBlank at hblank
        simp only [Bool.or_eq_true, beq_iff_eq] at hblank
        obtain ((rfl | rfl) | rfl) | rfl := hblank
        all_goals exact absurd hvalid (by decide)
    all_goals
      rintro rfl
      exact absurd hvalid (by decide)
  refine ⟨⟨⟨fun c hc => ?_, fun c hc => ?_⟩, ?_, ?_, ?_, ?_, ?_⟩, hne⟩
  · exact (hchar c (List.mem_of_head? hc)).1
  · exact (hchar c (List.mem_of_getLast? hc)).1
  · exact fun hc => (hchar _ hc).2.1 rfl
  · exact fun hc => (hchar _ hc).2.2.1 rfl
  · exact fun hc => (hchar _ hc).2.2.2.1 rfl
  · exact fun hc => (hchar _ (List.mem_of_head? hc)).2.2.2.2.1 rfl
  · exact fun hc => (hchar _ (List.mem_of_head? hc)).2.2.2.2.2 rfl

/-! ### What the threads carry -/

namespace Pc

/-- The call that saves of which this is a part. -/
def call : Pc V → Option Nat
  | outside => none
  | load job => job.call
  | lock job _ => job.call
  | read job _ => job.call
  | write job _ _ => job.call
  | unlock job => job.call
  | forget job => job.call
  | queue call _ _ => call

/-- What is still to be written. -/
def saving : Pc V → Option (Job V)
  | load job => some job
  | lock job _ => some job
  | read job _ => some job
  | write job _ _ => some job
  | _ => none

def values : Pc V → Option (PatchValues V)
  | lock _ values => some values
  | read _ values => some values
  | write _ values _ => some values
  | _ => none

theorem loaded_of_values {pc : Pc V} {job : Job V} {values : PatchValues V}
    (hsaving : pc.saving = some job) (hvalues : pc.values = some values) :
    pc.loaded = some job := by
  cases pc
  all_goals
    cases hvalues
    try exact hsaving

theorem call_of_saving {pc : Pc V} {job : Job V} (h : pc.saving = some job) :
    pc.call = job.call := by
  cases pc
  all_goals
    cases h
    try rfl

end Pc

/-- A thread's place, in a state whose own threads do not count. What it has loaded still stands in
    the file, but for its own choice. -/
structure Fits (s : State V) (pc : Pc V) : Prop where
  call : ∀ c, pc.call = some c → c < s.calls.length ∧ c ∉ s.returned
  saving : ∀ job, pc.saving = some job → SavableChoice n job.choice ∧
    ∃ c r, job.call = some c ∧ s.calls[c]? = some r ∧ r.choice = job.choice ∧ c ∉ s.written
  values : ∀ job values, pc.saving = some job → pc.values = some values →
    Storable n values ∧ lookup values job.choice.key = some job.choice.value ∧
      ∀ k ≠ job.choice.key, lookup values k = lookup (loadUserPatchValues n s.text) k

/-- The last call that has written for what is chosen is not followed by one that has written. -/
def Latest (initial : Text) (s : State V) (k : Key) : Prop :=
  ((∀ (c : Nat) r, s.calls[c]? = some r → c ∈ s.written → r.choice.key ≠ k) ∧
    lookup (loadUserPatchValues n s.text) k = lookup (loadUserPatchValues n initial) k) ∨
  ∃ (c : Nat) (r : Record V), s.calls[c]? = some r ∧ r.choice.key = k ∧
    lookup (loadUserPatchValues n s.text) k = some r.choice.value ∧
    ∀ (d : Nat) r', s.calls[d]? = some r' → r'.choice.key = k → c ∈ r'.after → d ∉ s.written

structure Sound (initial : Text) (s : State V) : Prop where
  fits : ∀ t, Fits n s (s.threads t)
  distinct : ∀ t u c, (s.threads t).call = some c → (s.threads u).call = some c → t = u
  pending : ∀ c < s.calls.length, c ∉ s.written →
    ∃ t job, (s.threads t).saving = some job ∧ job.call = some c
  after : ∀ r ∈ s.calls, ∀ c ∈ r.after, c ∈ s.returned
  returned : ∀ c ∈ s.returned, c < s.calls.length
  written : ∀ c ∈ s.written, c < s.calls.length
  latest : ∀ k, Latest n initial s k

namespace Sound
variable {n} {initial : Text} {s : State V}

theorem move (h : Sound n initial s) {s' : State V} {t : Nat} {pc : Pc V}
    (hthreads : s'.threads = Function.update s.threads t pc) (htext : s'.text = s.text)
    (hcalls : s'.calls = s.calls) (hwritten : s'.written = s.written)
    (hreturned : s'.returned = s.returned) (hfits : Fits n s pc)
    (hcall : ∀ c, pc.call = some c → (s.threads t).call = some c)
    (hsaving : pc.saving = (s.threads t).saving) : Sound n initial s' := by
  have hcalled : ∀ u c, (s'.threads u).call = some c → (s.threads u).call = some c := by
    rw [hthreads]
    exact (Function.forall_update_iff s.threads
      fun u pc => ∀ c, pc.call = some c → (s.threads u).call = some c).2
      ⟨hcall, fun _ _ _ hc => hc⟩
  have hsaves : ∀ u, (s'.threads u).saving = (s.threads u).saving := by
    rw [hthreads]
    exact (Function.forall_update_iff s.threads
      fun u pc => pc.saving = (s.threads u).saving).2 ⟨hsaving, fun _ _ => rfl⟩
  have hall : ∀ u, Fits n s (s'.threads u) := by
    rw [hthreads]
    exact (Function.forall_update_iff s.threads fun _ pc => Fits n s pc).2
      ⟨hfits, fun u _ => h.fits u⟩
  refine ⟨fun u => ?_, fun u v c hu hv => ?_, fun c hc hnot => ?_, ?_, ?_, ?_, fun k => ?_⟩
  · obtain ⟨hcall, hsaving, hvalues⟩ := hall u
    rw [← hcalls, ← hreturned] at hcall
    rw [← hcalls, ← hwritten] at hsaving
    rw [← htext] at hvalues
    exact ⟨hcall, hsaving, hvalues⟩
  · exact h.distinct u v c (hcalled u c hu) (hcalled v c hv)
  · rw [hcalls] at hc
    rw [hwritten] at hnot
    obtain ⟨u, job, hu, hjob⟩ := h.pending c hc hnot
    exact ⟨u, job, (hsaves u).trans hu, hjob⟩
  · rw [hcalls, hreturned]
    exact h.after
  · rw [hcalls, hreturned]
    exact h.returned
  · rw [hcalls, hwritten]
    exact h.written
  · unfold Latest
    rw [htext, hcalls, hwritten]
    exact h.latest k

theorem save (h : Sound n initial s) {t : Nat} {choice : Choice V} {always : Bool}
    (hchoice : SavableChoice n choice) (hpc : s.threads t = .outside) :
    Sound n initial (s.save t choice always) := by
  have hlength : (s.save t choice always).calls.length = s.calls.length + 1 := by
    exact List.length_append ..
  have hold : ∀ (c : Nat) r, s.calls[c]? = some r → (s.save t choice always).calls[c]? = some r := by
    intro c r hr
    have hlt : c < s.calls.length := (List.getElem?_eq_some_iff.1 hr).1
    exact (List.getElem?_append_left hlt).trans hr
  have hnew : (s.save t choice always).calls[s.calls.length]? = some ⟨choice, s.returned⟩ :=
    List.getElem?_concat_length
  have hcases : ∀ (c : Nat) r, (s.save t choice always).calls[c]? = some r →
      s.calls[c]? = some r ∨ (c = s.calls.length ∧ r = ⟨choice, s.returned⟩) := by
    intro c r hr
    by_cases hlt : c < s.calls.length
    · exact .inl ((List.getElem?_append_left hlt).symm.trans hr)
    · have hle : c < s.calls.length + 1 := hlength ▸ (List.getElem?_eq_some_iff.1 hr).1
      have heq : c = s.calls.length := by omega
      rw [heq, hnew] at hr
      exact .inr ⟨heq, (Option.some.inj hr).symm⟩
  have hunwritten : s.calls.length ∉ s.written := fun hc => Nat.lt_irrefl _ (h.written _ hc)
  have hcall : ∀ u c, (s.threads u).call = some c → c < s.calls.length :=
    fun u c hc => ((h.fits u).call c hc).1
  refine ⟨?_, ?_, fun c hc hnot => ?_, fun r hr c hc => ?_, fun c hc => ?_, fun c hc => ?_,
    fun k => ?_⟩
  · refine (Function.forall_update_iff s.threads fun _ pc => Fits n _ pc).2 ⟨?_, fun u _ => ?_⟩
    · refine ⟨fun c hc => ?_, fun job hjob => ?_, nofun⟩
      · cases hc
        exact ⟨by omega, fun hc => Nat.lt_irrefl _ (h.returned _ hc)⟩
      · cases hjob
        exact ⟨hchoice, _, _, rfl, hnew, rfl, hunwritten⟩
    · obtain ⟨hcall, hsaving, hvalues⟩ := h.fits u
      refine ⟨fun c hc => ⟨by have := (hcall c hc).1; omega, (hcall c hc).2⟩, fun job hjob => ?_,
        hvalues⟩
      obtain ⟨hsavable, c, r, hc, hr, hrest⟩ := hsaving job hjob
      exact ⟨hsavable, c, r, hc, hold c r hr, hrest⟩
  · have hcalled : ∀ u c, ((s.save t choice always).threads u).call = some c →
        (u = t ∧ c = s.calls.length) ∨ (s.threads u).call = some c :=
      (Function.forall_update_iff s.threads fun u pc => ∀ c, pc.call = some c →
        (u = t ∧ c = s.calls.length) ∨ (s.threads u).call = some c).2
        ⟨fun c hc => .inl ⟨rfl, (Option.some.inj hc).symm⟩, fun _ _ _ hc => .inr hc⟩
    intro u v c hu hv
    obtain ⟨hut, huc⟩ | hu := hcalled u c hu
    · obtain ⟨hvt, -⟩ | hv := hcalled v c hv
      · exact hut.trans hvt.symm
      · exact absurd (hcall v c hv) (by omega)
    · obtain ⟨-, hvc⟩ | hv := hcalled v c hv
      · exact absurd (hcall u c hu) (by omega)
      · exact h.distinct u v c hu hv
  · by_cases hlt : c < s.calls.length
    · obtain ⟨u, job, hu, hjob⟩ := h.pending c hlt hnot
      have hne : u ≠ t := by
        rintro rfl
        rw [hpc] at hu
        exact absurd hu nofun
      have hsame : (s.save t choice always).threads u = s.threads u := Function.update_of_ne hne ..
      exact ⟨u, job, hsame ▸ hu, hjob⟩
    · have heq : s.calls.length = c := by omega
      have hself : (s.save t choice always).threads t = _ := Function.update_self ..
      exact ⟨t, ⟨some s.calls.length, choice, always⟩, by rw [hself]; rfl, congrArg some heq⟩
  · rcases List.mem_append.1 hr with hr | hr
    · exact h.after r hr c hc
    · rw [List.mem_singleton.1 hr] at hc
      exact hc
  · have hlt := h.returned c hc
    omega
  · have hlt := h.written c hc
    omega
  · refine (h.latest k).imp (fun ⟨hnone, hsame⟩ => ⟨fun c r hr hc => ?_, hsame⟩)
      fun ⟨c, r, hr, hkey, hvalue, hlast⟩ => ⟨c, r, hold c r hr, hkey, hvalue, fun d r' hr' => ?_⟩
    · obtain hr | ⟨rfl, -⟩ := hcases c r hr
      · exact hnone c r hr hc
      · exact absurd hc hunwritten
    · obtain hr' | ⟨rfl, -⟩ := hcases d r' hr'
      · exact hlast d r' hr'
      · exact fun _ _ => hunwritten

theorem write (h : Sound n initial s) {t : Nat} {job : Job V} {values : PatchValues V} {text : Text}
    (hpc : s.threads t = .write job values text)
    (hsame : ∀ u ≠ t, ∀ other, (s.threads u).loaded = some other →
      other.choice.key = job.choice.key) :
    Sound n initial { s.goto t (.unlock job) with
      text := replacePatchSection n text values
      written := job.call.toList ++ s.written } := by
  have hfits := h.fits t
  rw [hpc] at hfits
  obtain ⟨-, c, r, hcall, hr, hchoice, -⟩ := hfits.saving job rfl
  obtain ⟨hstorable, hvalue, hkept⟩ := hfits.values job values rfl rfl
  obtain ⟨hlt, hnotReturned⟩ := hfits.call c hcall
  have hload := load_replacePatchSection n text hstorable
  rw [hcall]
  have hother : ∀ u ≠ t, ∀ job', (s.threads u).saving = some job' → job'.call ≠ some c := by
    intro u hut job' hsaving hc
    refine hut (h.distinct u t c ((Pc.call_of_saving hsaving).trans hc) ?_)
    rw [hpc]
    exact hcall
  refine ⟨?_, ?_, fun d hd hnot => ?_, h.after, h.returned, fun d hd => ?_, fun k => ?_⟩
  · refine (Function.forall_update_iff s.threads fun _ pc => Fits n _ pc).2 ⟨?_, fun u hut => ?_⟩
    · exact ⟨hfits.call, nofun, nofun⟩
    · obtain ⟨hcall', hsaving, hvalues⟩ := h.fits u
      refine ⟨hcall', fun job' hjob' => ?_, fun job' values' hjob' hvalues' => ?_⟩
      · obtain ⟨hsavable, d, r', hd, hr', hchoice', hunwritten⟩ := hsaving job' hjob'
        refine ⟨hsavable, d, r', hd, hr', hchoice', fun hmem => ?_⟩
        rcases List.mem_cons.1 hmem with rfl | hmem
        · exact hother u hut job' hjob' hd
        · exact hunwritten hmem
      · -- Only the choice has changed that this thread is about, too.
        obtain ⟨hstorable', hvalue', hkept'⟩ := hvalues job' values' hjob' hvalues'
        have hkey := hsame u hut job' (Pc.loaded_of_values hjob' hvalues')
        refine ⟨hstorable', hvalue', fun k hk => (hkept' k hk).trans ?_⟩
        dsimp only
        rw [hload]
        exact (hkept k (hkey ▸ hk)).symm
  · have hcalled : ∀ u d, ((s.goto t (.unlock job)).threads u).call = some d →
        (s.threads u).call = some d :=
      (Function.forall_update_iff s.threads fun u pc => ∀ d, pc.call = some d →
        (s.threads u).call = some d).2
        ⟨fun d hd => by rw [hpc]; exact hd, fun _ _ _ hd => hd⟩
    exact fun u v d hu hv => h.distinct u v d (hcalled u d hu) (hcalled v d hv)
  · have hnotc : d ≠ c := fun hdc => hnot (hdc ▸ List.mem_cons_self ..)
    obtain ⟨u, job', hu, hjob'⟩ := h.pending d hd fun hmem => hnot (List.mem_cons_of_mem _ hmem)
    have hne : u ≠ t := by
      rintro rfl
      rw [hpc] at hu
      cases hu
      exact hnotc (Option.some.inj (hjob'.symm.trans hcall))
    have hsame : (s.goto t (.unlock job)).threads u = s.threads u := Function.update_of_ne hne ..
    exact ⟨u, job', hsame ▸ hu, hjob'⟩
  · rcases List.mem_cons.1 hd with rfl | hd
    · exact hlt
    · exact h.written d hd
  · unfold Latest
    dsimp only
    rw [hload]
    by_cases hk : k = job.choice.key
    · refine .inr ⟨c, r, hr, hk ▸ congrArg Choice.key hchoice, ?_, fun d r' hr' _ hafter => ?_⟩
      · rw [hk, hchoice]
        exact hvalue
      · exact absurd (h.after r' (List.mem_of_getElem? hr') c hafter) hnotReturned
    · rw [hkept k hk]
      have hnotKey : ∀ r', s.calls[c]? = some r' → r'.choice.key ≠ k := by
        intro r' hr' hkey
        cases hr.symm.trans hr'
        exact hk (hkey.symm.trans (congrArg Choice.key hchoice))
      refine (h.latest k).imp (fun ⟨hnone, hsame⟩ => ⟨fun d r' hr' hd => ?_, hsame⟩)
        fun ⟨d, r', hr', hkey, hvalue', hlast⟩ =>
          ⟨d, r', hr', hkey, hvalue', fun e r'' hr'' hkey' hafter hmem => ?_⟩
      · rcases List.mem_cons.1 hd with rfl | hd
        · exact hnotKey r' hr'
        · exact hnone d r' hr' hd
      · rcases List.mem_cons.1 hmem with rfl | hmem
        · exact hnotKey r'' hr'' hkey'
        · exact hlast e r'' hr'' hkey' hafter hmem

theorem queue (h : Sound n initial s) {t : Nat} {call : Option Nat} {command : Command V}
    {always : Bool} (hpc : s.threads t = .queue call command always) (queued : List (Command V)) :
    Sound n initial { s.goto t .outside with
      queued := queued
      returned := call.toList ++ s.returned } := by
  have hother : ∀ u ≠ t, ∀ c ∈ call.toList, (s.threads u).call ≠ some c := by
    intro u hut c hc hu
    refine hut (h.distinct u t c hu ?_)
    rw [hpc]
    exact Option.mem_toList.1 hc
  have hcalled : ∀ u d, ((s.goto t .outside).threads u).call = some d →
      (s.threads u).call = some d :=
    (Function.forall_update_iff s.threads fun u pc => ∀ d, pc.call = some d →
      (s.threads u).call = some d).2 ⟨nofun, fun _ _ _ hd => hd⟩
  refine ⟨?_, ?_, fun c hc hnot => ?_, fun r hr c hc => ?_, fun c hc => ?_, h.written, h.latest⟩
  · refine (Function.forall_update_iff s.threads fun _ pc => Fits n _ pc).2 ⟨?_, fun u hut => ?_⟩
    · exact ⟨nofun, nofun, nofun⟩
    · obtain ⟨hcall, hsaving, hvalues⟩ := h.fits u
      refine ⟨fun c hc => ⟨(hcall c hc).1, fun hmem => ?_⟩, hsaving, hvalues⟩
      rcases List.mem_append.1 hmem with hmem | hmem
      · exact hother u hut c hmem hc
      · exact (hcall c hc).2 hmem
  · exact fun u v d hu hv => h.distinct u v d (hcalled u d hu) (hcalled v d hv)
  · obtain ⟨u, job, hu, hjob⟩ := h.pending c hc hnot
    have hne : u ≠ t := by
      rintro rfl
      rw [hpc] at hu
      exact absurd hu nofun
    have hsame : (s.goto t .outside).threads u = s.threads u := Function.update_of_ne hne ..
    exact ⟨u, job, hsame ▸ hu, hjob⟩
  · exact List.mem_append_right _ (h.after r hr c hc)
  · rcases List.mem_append.1 hc with hc | hc
    · have hfits := (h.fits t).call c
      rw [hpc] at hfits
      exact (hfits (Option.mem_toList.1 hc)).1
    · exact h.returned c hc

theorem same (h : Sound n initial s) {s' : State V} (hthreads : s'.threads = s.threads)
    (htext : s'.text = s.text) (hcalls : s'.calls = s.calls) (hwritten : s'.written = s.written)
    (hreturned : s'.returned = s.returned) : Sound n initial s' :=
  h.move (t := 0) (hthreads.trans (Function.update_eq_self 0 s.threads).symm) htext hcalls hwritten
    hreturned (h.fits 0) (fun _ hc => hc) rfl

theorem begin (h : Sound n initial s) {t : Nat} {call : Call V} (hpc : s.threads t = .outside)
    (hok : call.Savable n) : Sound n initial (PatchChoices.begin s t call) := by
  cases call with
  | setPatchEnabled id enabled =>
    dsimp only [PatchChoices.begin]
    split
    next hvalid => exact h.save (idText_of_valid hvalid) hpc
    · exact h
  | setPatchSetting id name value save listed =>
    dsimp only [PatchChoices.begin]
    split
    · exact h
    next hvalid =>
    have hid : IdText id ∧ id ≠ [] := by
      apply idText_of_valid
      cases hid : isValidPatchId id with
      | true => rfl
      | false =>
        rw [hid] at hvalid
        exact absurd rfl hvalid
    cases save with
    | true =>
      cases listed with
      | unlisted => exact h.save ⟨hid.1, hid.2, hok.1, hok.2⟩ hpc
      | unnamed => exact h
      | named normalize => exact h.save ⟨hid.1, hid.2, hok.1, hok.2⟩ hpc
    | false =>
      exact h.move rfl rfl rfl rfl rfl ⟨nofun, nofun, nofun⟩ nofun (by rw [hpc]; rfl)
  | saveSessionSource id enable =>
    dsimp only [PatchChoices.begin]
    split
    next hsource =>
      obtain ⟨x, -, hx⟩ := List.any_eq_true.1 hsource
      have hid := idText_of_valid x.2
      rw [of_decide_eq_true hx] at hid
      have hsame : Sound n initial
          { s with sources := s.sources.filter fun x => decide (x.1 ≠ id) } :=
        h.same rfl rfl rfl rfl rfl
      split
      · exact hsame.save hid hpc
      · exact hsame.move rfl rfl rfl rfl rfl ⟨nofun, nofun, nofun⟩ nofun (by rw [hpc]; rfl)
    · exact h

theorem advance (h : Sound n initial s) {t : Nat} {s' : State V}
    (hok : Undisturbed n s (.advance t))
    (hstep : PatchChoices.advance n s t (s.threads t) = some s') : Sound n initial s' := by
  have hfits := h.fits t
  cases hpc : s.threads t with
  | outside =>
    rw [hpc] at hstep
    cases hstep
  | load job =>
    rw [hpc] at hstep hfits
    cases hstep
    refine h.move rfl rfl rfl rfl rfl ⟨hfits.call, hfits.saving, fun job' values hjob hvalues => ?_⟩
      (fun c hc => by rw [hpc]; exact hc) (by rw [hpc]; rfl)
    cases hjob
    cases hvalues
    refine ⟨storable_put n (storable_loadUserPatchValues n s.text) (hfits.saving job rfl).1, ?_,
      fun k hk => ?_⟩
    · rw [lookup_put, if_pos rfl]
    · rw [lookup_put, if_neg hk]
  | lock job values =>
    rw [hpc] at hstep hfits
    dsimp only [PatchChoices.advance] at hstep
    split at hstep
    · cases hstep
      exact h.move rfl rfl rfl rfl rfl ⟨hfits.call, hfits.saving, hfits.values⟩
        (fun c hc => by rw [hpc]; exact hc) (by rw [hpc]; rfl)
    · cases hstep
  | read job values =>
    rw [hpc] at hstep hfits
    cases hstep
    exact h.move rfl rfl rfl rfl rfl ⟨hfits.call, hfits.saving, hfits.values⟩
      (fun c hc => by rw [hpc]; exact hc) (by rw [hpc]; rfl)
  | write job values text =>
    have hsame := hok job values text hpc
    rw [hpc] at hstep
    cases hstep
    exact h.write hpc hsame
  | unlock job =>
    rw [hpc] at hstep hfits
    cases hstep
    exact h.move rfl rfl rfl rfl rfl ⟨hfits.call, nofun, nofun⟩
      (fun c hc => by rw [hpc]; exact hc) (by rw [hpc]; rfl)
  | forget job =>
    rw [hpc] at hstep hfits
    cases hstep
    exact h.move rfl rfl rfl rfl rfl ⟨hfits.call, nofun, nofun⟩
      (fun c hc => by rw [hpc]; exact hc) (by rw [hpc]; rfl)
  | queue call command always =>
    rw [hpc] at hstep
    cases hstep
    exact h.queue hpc _

theorem step (h : Sound n initial s) {a : Action V} {s' : State V} (hok : Undisturbed n s a)
    (hstep : PatchChoices.step n s a = some s') : Sound n initial s' := by
  cases a with
  | begin t call =>
    dsimp only [PatchChoices.step] at hstep
    split at hstep
    next hpc =>
      cases hstep
      exact h.begin hpc hok
    · cases hstep
  | advance t => exact h.advance hok hstep
  | gameChanged running =>
    cases hstep
    exact h.same rfl rfl rfl rfl rfl

theorem of_init (hinit : (choices n initial).init s) : Sound n initial s := by
  obtain ⟨htext, -, hthreads, hcalls, hwritten, hreturned⟩ := hinit
  refine ⟨fun t => ?_, fun t u c ht _ => ?_, fun c hc _ => ?_, fun r hr => ?_, fun c hc => ?_,
    fun c hc => ?_, fun k => .inl ⟨fun c r _ hc => ?_, by rw [htext]⟩⟩
  · rw [hthreads t]
    exact ⟨nofun, nofun, nofun⟩
  · rw [hthreads t] at ht
    exact absurd ht nofun
  · rw [hcalls] at hc
    exact absurd hc (Nat.not_lt_zero c)
  · rw [hcalls] at hr
    exact absurd hr List.not_mem_nil
  · rw [hreturned] at hc
    exact absurd hc List.not_mem_nil
  · rw [hwritten] at hc
    exact absurd hc List.not_mem_nil
  · rw [hwritten] at hc
    exact absurd hc List.not_mem_nil

end Sound

/-- When all calls have returned, no choice is lost. -/
theorem choices_kept {n : Numbers V} {initial : Text} {s : State V}
    (h : (choices n initial).ReachableBy (Undisturbed n) s)
    (hquiet : ∀ t, s.threads t = .outside) (k : Key) : Kept n initial s k := by
  have hs : Sound n initial s :=
    h.invariant (fun _ => .of_init) fun _ _ _ hs hok hstep => hs.step hok hstep
  have hwritten : ∀ (c : Nat) r, s.calls[c]? = some r → c ∈ s.written := by
    intro c r hr
    by_contra hnot
    obtain ⟨t, job, hsaving, -⟩ := hs.pending c (List.getElem?_eq_some_iff.1 hr).1 hnot
    rw [hquiet t] at hsaving
    exact absurd hsaving nofun
  refine (hs.latest k).imp (fun ⟨hnone, hsame⟩ => ⟨fun r hr => ?_, hsame⟩)
    fun ⟨c, r, hr, hkey, hvalue, hlast⟩ => ⟨c, r, hr, hkey, hvalue, fun r' hr' hkey' hafter => ?_⟩
  · obtain ⟨c, hc⟩ := List.mem_iff_getElem?.1 hr
    exact hnone c r hc (hwritten c r hc)
  · obtain ⟨d, hd⟩ := List.mem_iff_getElem?.1 hr'
    exact hlast d r' hd hkey' hafter (hwritten d r' hd)

/-! ### Runs of some threads -/

def Pc.isOutside : Pc V → Bool
  | .outside => true
  | _ => false

theorem Pc.eq_outside {pc : Pc V} (h : pc.isOutside = true) : pc = .outside := by
  cases pc
  all_goals
    cases h
    try rfl

/-- The thread that takes a step. -/
def Action.thread : Action V → Option Nat
  | .begin t _ => some t
  | .advance t => some t
  | .gameChanged _ => none

theorem threads_begin {s : State V} {t u : Nat} (hne : u ≠ t) (call : Call V) :
    (begin s t call).threads u = s.threads u := by
  have hgoto : ∀ (s : State V) pc, (s.goto t pc).threads u = s.threads u :=
    fun s pc => Function.update_of_ne hne ..
  cases call with
  | setPatchEnabled id enabled =>
    dsimp only [begin]
    split
    · exact hgoto _ _
    · rfl
  | setPatchSetting id name value save listed =>
    dsimp only [begin]
    split
    · rfl
    split
    · cases listed with
      | unlisted => exact hgoto _ _
      | unnamed => rfl
      | named normalize => exact hgoto _ _
    · exact hgoto _ _
  | saveSessionSource id enable =>
    dsimp only [begin]
    split
    · split
      all_goals exact hgoto { s with sources := _ } _
    · rfl

theorem threads_step {s s' : State V} {a : Action V} {u : Nat} (hstep : step n s a = some s')
    (hne : a.thread ≠ some u) : s'.threads u = s.threads u := by
  cases a with
  | begin t call =>
    dsimp only [step] at hstep
    split at hstep
    · cases hstep
      exact threads_begin (fun hut => hne (congrArg some hut.symm)) call
    · cases hstep
  | advance t =>
    have hut : u ≠ t := fun hut => hne (congrArg some hut.symm)
    dsimp only [step] at hstep
    cases hpc : s.threads t with
    | outside =>
      rw [hpc] at hstep
      cases hstep
    | lock job values =>
      rw [hpc] at hstep
      dsimp only [advance] at hstep
      split at hstep
      · cases hstep
        exact Function.update_of_ne hut ..
      · cases hstep
    | _ =>
      rw [hpc] at hstep
      cases hstep
      exact Function.update_of_ne hut ..
  | gameChanged running =>
    cases hstep
    rfl

/-- The numbers zero and one. -/
def bits : Numbers Bool where
  tryParse t := if t = ['1'] then some true else if t = ['0'] then some false else none
  isFinite _ := true
  format b := if b then ['1'] else ['0']
  one := true
  zero := false
  format_one := rfl
  format_zero := rfl
  isFinite_one := rfl
  isFinite_zero := rfl
  tryParse_format := by decide
  format_ne_nil := by decide
  format_chars b _ := by
    cases b with
    | true => exact List.forall_mem_singleton.2 (by decide)
    | false => exact List.forall_mem_singleton.2 (by decide)

def unsaved : State Bool := ⟨[], none, fun _ => .outside, none, [], true, [], [], [], []⟩

/-! ### Two threads that keep each other's choices -/

-- The instances are named: there is one for all characters too, which would try each of them.
instance (name : Text) : Decidable (Bare name) :=
  @instDecidableAnd _ _ (Option.decidableForallMem _) (Option.decidableForallMem _)

instance (name : Text) : Decidable (NameText name) :=
  decidable_of_iff (Bare name ∧ '=' ∉ name ∧ '\n' ∉ name ∧ name ≠ [])
    ⟨fun ⟨hbare, hequals, hnewline, hne⟩ => ⟨hbare, hequals, hnewline, hne⟩,
      fun h => ⟨h.bare, h.equals, h.newline, h.ne_nil⟩⟩

def Call.savable : Call V → Bool
  | .setPatchSetting _ name value save .unlisted =>
    !save || decide (NameText name) && n.isFinite value
  | .setPatchSetting _ name value save (.named normalize) =>
    !save || decide (NameText name) && n.isFinite (normalize value)
  | _ => true

theorem Call.savable_of_check {call : Call V} (h : call.savable n = true) : call.Savable n := by
  cases call with
  | setPatchEnabled id enabled => trivial
  | saveSessionSource id enable => trivial
  | setPatchSetting id name value save listed =>
    cases save with
    | false => trivial
    | true =>
      cases listed with
      | unnamed => trivial
      | unlisted => simpa [savable, Savable] using h
      | named normalize => simpa [savable, Savable] using h

/-- A test of one step that is enough where only the threads of a list are inside calls. -/
def undisturbed (ts : List Nat) (s : State V) : Action V → Bool
  | .begin t call => ts.contains t && call.savable n
  | .advance t => ts.contains t && ts.all fun u => u == t ||
    (s.threads t).loaded.all fun job => (s.threads u).loaded.all fun other =>
      decide (other.choice.key = job.choice.key)
  | .gameChanged _ => true

theorem undisturbed_of_check {ts : List Nat} {s : State V} {a : Action V}
    (hquiet : ∀ u ∉ ts, s.threads u = .outside) (h : undisturbed n ts s a = true) :
    Undisturbed n s a := by
  cases a with
  | begin t call => exact Call.savable_of_check n (Bool.and_eq_true_iff.1 h).2
  | gameChanged running => trivial
  | advance t =>
    intro job values text hpc u hut other hother
    by_cases hu : u ∈ ts
    · have hpair := List.all_eq_true.1 (Bool.and_eq_true_iff.1 h).2 u hu
      have hjob : (s.threads t).loaded = some job := by
        rw [hpc]
        rfl
      simpa [hut, hjob, hother] using hpair
    · rw [hquiet u hu] at hother
      cases hother

theorem quiet_step {ts : List Nat} {s s' : State V} {a : Action V}
    (hquiet : ∀ u ∉ ts, s.threads u = .outside) (h : undisturbed n ts s a = true)
    (hstep : step n s a = some s') : ∀ u ∉ ts, s'.threads u = .outside := by
  intro u hu
  have hthread : a.thread ≠ some u := by
    intro heq
    cases a with
    | gameChanged running => cases heq
    | _ =>
      cases heq
      exact hu (List.contains_iff_mem.1 (Bool.and_eq_true_iff.1 h).1)
  rw [threads_step n hstep hthread]
  exact hquiet u hu

/-- A patch is enabled on one thread and disabled on another one at the same time; then a setting of
    a second patch is saved, and that patch is enabled. -/
def inTurn : List (Action Bool) :=
  List.flatten [
    [.begin 0 (.setPatchEnabled "a".toList true), .begin 1 (.setPatchEnabled "a".toList false),
      .advance 0, .advance 1],
    List.replicate 6 (.advance 0), List.replicate 6 (.advance 1),
    [.begin 0 (.setPatchSetting "b".toList "x".toList true true .unlisted)],
    List.replicate 7 (.advance 0),
    [.begin 1 (.setPatchEnabled "b".toList true)], List.replicate 7 (.advance 1)]

theorem choices_kept_inTurn : ∃ s, (choices bits []).ReachableBy (Undisturbed bits) s ∧
    s.calls.length = 4 ∧
    s.text = "[VRPatch]\na = False\nb = True\nb/x = 1\n".toList ∧ ∀ k, Kept bits [] s k := by
  have hrun : ((choices bits []).runIf (undisturbed bits [0, 1]) unsaved inTurn).map (fun s =>
      ((s.threads 0).isOutside, (s.threads 1).isOutside, s.calls.length, s.text)) =
        some (true, true, 4, "[VRPatch]\na = False\nb = True\nb/x = 1\n".toList) := by
    decide +kernel
  obtain ⟨s, hs, hfacts⟩ := Option.map_eq_some_iff.1 hrun
  simp only [Prod.mk.injEq] at hfacts
  obtain ⟨hzero, hone, hcalls, htext⟩ := hfacts
  have hinit : (choices bits []).ReachableBy (Undisturbed bits) unsaved :=
    .init ⟨rfl, rfl, fun _ => rfl, rfl, rfl, rfl⟩
  obtain ⟨hreach, hquiet⟩ := hinit.runIf_keeping (fun _ _ => rfl)
    (fun _ _ => undisturbed_of_check bits) (fun _ _ _ => quiet_step bits) hs
  refine ⟨s, hreach, hcalls, htext, choices_kept hreach fun t => ?_⟩
  by_cases ht : t ∈ [0, 1]
  · obtain rfl | rfl : t = 0 ∨ t = 1 := by simpa using ht
    · exact Pc.eq_outside hzero
    · exact Pc.eq_outside hone
  · exact hquiet t ht

/-! ### A lost choice -/

/-- Two patches are enabled on two threads, which both load the section before they write it. -/
def interleaved : List (Action Bool) :=
  [.begin 0 (.setPatchEnabled "a".toList true), .begin 1 (.setPatchEnabled "b".toList true),
    .advance 0, .advance 1] ++
  List.replicate 6 (.advance 0) ++ List.replicate 6 (.advance 1)

theorem interleaved_not_kept : ¬ ∀ s k, (choices bits []).Reachable s →
    (∀ t, s.threads t = .outside) → Kept bits [] s k := by
  intro hkept
  obtain ⟨s, hrun⟩ : ∃ s, (choices bits []).run unsaved interleaved = some s :=
    Option.isSome_iff_exists.1 (by decide +kernel)
  have hinit : (choices bits []).Reachable unsaved := .init ⟨rfl, rfl, fun _ => rfl, rfl, rfl, rfl⟩
  have hzero := System.run_eval hrun (fun s => (s.threads 0).isOutside)
    (show _ = some true by decide +kernel)
  have hone := System.run_eval hrun (fun s => (s.threads 1).isOutside)
    (show _ = some true by decide +kernel)
  have hthreads : ∀ x ∈ interleaved.map Action.thread, x = some 0 ∨ x = some 1 := by
    decide +kernel
  have hquiet : ∀ t, s.threads t = .outside := by
    intro t
    by_cases ht : t = 0 ∨ t = 1
    · rcases ht with rfl | rfl
      · exact Pc.eq_outside hzero
      · exact Pc.eq_outside hone
    · refine System.run_frame (fun s => s.threads t) hrun fun a ha s s' hstep =>
        threads_step bits hstep fun hthread => ht ?_
      obtain h | h := hthreads _ (List.mem_map_of_mem ha)
      · exact .inl (Option.some.inj (hthread.symm.trans h))
      · exact .inr (Option.some.inj (hthread.symm.trans h))
  have hlost := System.run_eval hrun (fun s => lookup (loadUserPatchValues bits s.text)
    (.enabled "a".toList)) (show _ = some none by decide +kernel)
  have hcalls := System.run_eval hrun (fun s => s.calls.map (·.choice.key))
    (show _ = some [.enabled "a".toList, .enabled "b".toList] by decide +kernel)
  obtain ⟨hnone, -⟩ | ⟨c, r, -, -, hvalue, -⟩ :=
    hkept s (.enabled "a".toList) (hinit.run hrun) hquiet
  · have hmem : Key.enabled "a".toList ∈ s.calls.map (·.choice.key) := by
      rw [hcalls]
      exact List.mem_cons_self ..
    obtain ⟨r, hr, hkey⟩ := List.mem_map.1 hmem
    exact hnone r hr hkey
  · exact absurd (hlost.symm.trans hvalue) nofun

end DolphinXR.PatchChoices
