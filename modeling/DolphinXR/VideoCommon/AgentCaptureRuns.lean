import DolphinXR.VideoCommon.AgentCapture

/- What becomes of the captures. In every run they are published in the order in which their
   recording has ended, and a map comes from the capture's own readback. But a frame end can
   publish two: one that has waited for its map, and at once the one whose recording has
   just ended. The first is then never seen, so that no capture is lost where this does not
   happen. -/
namespace DolphinXR.AgentCapture
open Lib

def CapturedFrame.tag (c : CapturedFrame) : Nat × Nat := (c.serial, c.recordedAt)

/-- The recording does not end while another capture waits for its map, except if the readback of its
    own is queued at this frame end and not there at once. -/
def NotOverlapping (s : State) : Action → Prop
  | .requestCapture .. => True
  | .endFrame e =>
    ∀ waiting frame, s.finishing = some waiting → s.current = some frame →
      s.currentTargetFrames ≤ frame.frames + 1 →
      s.drawIdFrame = true ∧ e.framebufferManager = true ∧ e.isDrawIdFrame = true ∧
        e.queued = true ∧ e.ready = false

/-! ### The invariant -/

/-- Whose readback is on its way: that of the capture that waits, or else of the recorded one. -/
def Owner (s : State) (k : Nat) : Prop :=
  match s.finishing with
  | some waiting => waiting.serial = k
  | none => ∃ frame, s.current = some frame ∧ frame.serial = k

structure Kept (s : State) : Prop where
  order : s.publishedAll.map (·.tag) ++ s.finishing.toList.map (·.tag) = s.recorded
  maps : ∀ c ∈ s.publishedAll, c.idMap = none ∨ c.idMap = some c.serial
  finishingMap : ∀ c, s.finishing = some c → c.idMap = none
  currentMap : ∀ c, s.current = some c → c.idMap = none
  owner : s.drawIdReadbackPending = true → ∃ k, s.readback = some k ∧ Owner s k
  sorted : s.recorded.Pairwise fun t t' => t.1 < t'.1
  recordedBefore : ∀ t ∈ s.recorded, t.1 < s.started ∧ ∀ c, s.current = some c → t.1 < c.serial
  currentBefore : ∀ c, s.current = some c → c.serial < s.started

theorem kept_initial : Kept initial where
  order := rfl
  maps _ hc := absurd hc List.not_mem_nil
  finishingMap _ hc := nomatch hc
  currentMap _ hc := nomatch hc
  owner h := nomatch h
  sorted := List.Pairwise.nil
  recordedBefore _ ht := absurd ht List.not_mem_nil
  currentBefore _ hc := nomatch hc

/-- What publishing does: nothing, or it moves the capture that waits to the published ones, with a
    map of its own or with none. -/
theorem publishFinishing_cases (e : FrameEnd) (wait : Bool) {s : State} (h : Kept s) :
    (publishFinishing e wait s = s ∧ (wait = true → s.finishing = none)) ∨
    ∃ waiting c, s.finishing = some waiting ∧ publishFinishing e wait s = publish c s ∧
      c.tag = waiting.tag ∧ (c.idMap = none ∨ c.idMap = some c.serial) := by
  unfold publishFinishing
  cases hfinishing : s.finishing with
  | none => exact .inl ⟨rfl, fun _ => rfl⟩
  | some waiting =>
    dsimp only
    have hmap := h.finishingMap waiting hfinishing
    split
    · rename_i hpending
      rw [Bool.and_eq_true] at hpending
      split
      · refine .inr ⟨waiting, readDrawIdMap e s.readback waiting, rfl, rfl, ?_⟩
        obtain ⟨k, hk, howner⟩ := h.owner hpending.1
        rw [Owner, hfinishing] at howner
        unfold readDrawIdMap
        split
        · exact ⟨rfl, .inr (hk.trans (congrArg some howner.symm))⟩
        · exact ⟨rfl, .inl rfl⟩
      · rename_i hwait
        refine .inl ⟨rfl, fun htrue => absurd ?_ hwait⟩
        rw [htrue, Bool.true_or]
    · exact .inr ⟨waiting, waiting, rfl, rfl, rfl, .inl hmap⟩

theorem Kept.publish {s : State} (h : Kept s) {waiting c : CapturedFrame}
    (hfinishing : s.finishing = some waiting) (htag : c.tag = waiting.tag)
    (hmap : c.idMap = none ∨ c.idMap = some c.serial) : Kept (publish c s) := by
  refine ⟨?_, fun d hd => ?_, fun _ hc => (nomatch hc), h.currentMap,
    fun hpending => (nomatch hpending), h.sorted, h.recordedBefore, h.currentBefore⟩
  · have horder := h.order
    rw [hfinishing] at horder
    simpa [AgentCapture.publish, htag] using horder
  · rcases List.mem_append.1 hd with hd | hd
    · exact h.maps d hd
    · rw [List.mem_singleton.1 hd]
      exact hmap

theorem Kept.publishFinishing {s : State} (h : Kept s) (e : FrameEnd) (wait : Bool) :
    Kept (publishFinishing e wait s) := by
  rcases publishFinishing_cases e wait h with ⟨heq, -⟩ | ⟨waiting, c, hfinishing, heq, htag, hmap⟩
  · rw [heq]
    exact h
  · rw [heq]
    exact h.publish hfinishing htag hmap

theorem finishing_publishFinishing {s : State} (h : Kept s) (e : FrameEnd) :
    (AgentCapture.publishFinishing e true s).finishing = none := by
  rcases publishFinishing_cases e true h with ⟨heq, hnone⟩ | ⟨_, c, _, heq, -⟩
  · rw [heq]
    exact hnone rfl
  · rw [heq]
    rfl

theorem publishFinishing_frame (e : FrameEnd) (wait : Bool) (s : State) :
    (publishFinishing e wait s).current = s.current ∧
    (publishFinishing e wait s).recorded = s.recorded ∧
    (publishFinishing e wait s).started = s.started ∧
    (publishFinishing e wait s).frameEnds = s.frameEnds ∧
    (publishFinishing e wait s).currentTargetFrames = s.currentTargetFrames ∧
    (publishFinishing e wait s).finishingFrames = s.finishingFrames ∧
    (publishFinishing e wait s).pendingCaptureFrames = s.pendingCaptureFrames ∧
    (publishFinishing e wait s).seen = s.seen := by
  unfold publishFinishing
  split
  · simp only [and_self]
  · split
    · split
      · simp only [publish, and_self]
      · simp only [and_self]
    · simp only [publish, and_self]

theorem Kept.endDrawIdFrame {s : State} (h : Kept s) (e : FrameEnd) :
    Kept (endDrawIdFrame e s) := by
  unfold AgentCapture.endDrawIdFrame
  split
  swap
  · exact h
  dsimp only
  have hcleared : Kept { s with drawIdFrame := false } :=
    ⟨h.order, h.maps, h.finishingMap, h.currentMap, h.owner, h.sorted, h.recordedBefore,
      h.currentBefore⟩
  split
  swap
  · exact hcleared
  have hpublished := hcleared.publishFinishing e true
  have hnone := finishing_publishFinishing hcleared e
  generalize AgentCapture.publishFinishing e true { s with drawIdFrame := false } = t
    at hpublished hnone
  cases hcurrent : t.current with
  | none => exact hpublished
  | some frame =>
    dsimp only
    split
    · refine ⟨hpublished.order, hpublished.maps, hpublished.finishingMap,
        fun c hc => hpublished.currentMap c (hcurrent.trans hc), fun _ => ⟨frame.serial, rfl, ?_⟩,
        hpublished.sorted, fun t' ht' => ⟨(hpublished.recordedBefore t' ht').1,
        fun c hc => (hpublished.recordedBefore t' ht').2 c (hcurrent.trans hc)⟩,
        fun c hc => hpublished.currentBefore c (hcurrent.trans hc)⟩
      rw [Owner, hnone]
      exact ⟨frame, rfl, rfl⟩
    · refine ⟨hpublished.order, hpublished.maps, hpublished.finishingMap, fun c hc => ?_,
        fun hpending => ?_, hpublished.sorted, fun t' ht' => ⟨(hpublished.recordedBefore t' ht').1,
        fun c hc => ?_⟩, fun c hc => ?_⟩
      · rw [← Option.some.inj hc]
        exact hpublished.currentMap frame hcurrent
      · obtain ⟨k, hk, howner⟩ := hpublished.owner hpending
        refine ⟨k, hk, ?_⟩
        rw [Owner, hnone] at howner ⊢
        obtain ⟨c, hc, hserial⟩ := howner
        rw [hcurrent] at hc
        rw [← Option.some.inj hc] at hserial
        exact ⟨_, rfl, hserial⟩
      · rw [← Option.some.inj hc]
        exact (hpublished.recordedBefore t' ht').2 frame hcurrent
      · rw [← Option.some.inj hc]
        exact hpublished.currentBefore frame hcurrent

theorem Kept.finishRecording {s : State} (h : Kept s) (e : FrameEnd) {c frame : CapturedFrame}
    (hcurrent : s.current = some c) (hserial : frame.serial = c.serial)
    (hmap : frame.idMap = c.idMap) : Kept (finishRecording e frame s) := by
  have hpublished := h.publishFinishing e true
  have hnone := finishing_publishFinishing h e
  obtain ⟨hsame, -, -, hends, -⟩ := publishFinishing_frame e true s
  rw [hcurrent] at hsame
  unfold AgentCapture.finishRecording
  generalize AgentCapture.publishFinishing e true s = t at hpublished hnone hsame hends
  have hbefore := hpublished.recordedBefore
  refine ⟨?_, hpublished.maps, fun d hd => ?_, fun _ hd => (nomatch hd), fun hpending => ?_, ?_,
    fun t' ht' => ⟨?_, fun _ hd => (nomatch hd)⟩, fun _ hd => (nomatch hd)⟩
  · have horder := hpublished.order
    rw [hnone, Option.toList_none, List.map_nil, List.append_nil] at horder
    dsimp only
    rw [horder]
    rfl
  · rw [← Option.some.inj hd]
    exact hmap.trans (hpublished.currentMap c hsame)
  · obtain ⟨k, hk, howner⟩ := hpublished.owner hpending
    rw [Owner, hnone] at howner
    obtain ⟨d, hd, hkey⟩ := howner
    rw [hsame] at hd
    rw [← Option.some.inj hd] at hkey
    exact ⟨k, hk, hserial.trans hkey⟩
  · refine List.pairwise_append.2 ⟨hpublished.sorted, List.pairwise_singleton _ _,
      fun t' ht' t'' ht'' => ?_⟩
    rw [List.mem_singleton.1 ht'', hserial]
    exact (hbefore t' ht').2 c hsame
  · rcases List.mem_append.1 ht' with ht' | ht'
    · exact (hbefore t' ht').1
    · rw [List.mem_singleton.1 ht', hserial]
      exact hpublished.currentBefore c hsame

theorem Kept.publishIfReady {s : State} (h : Kept s) (e : FrameEnd) : Kept (publishIfReady e s) := by
  unfold AgentCapture.publishIfReady
  split
  · exact h
  · have hcounted : Kept { s with finishingFrames := s.finishingFrames + 1 } :=
      ⟨h.order, h.maps, h.finishingMap, h.currentMap, h.owner, h.sorted, h.recordedBefore,
        h.currentBefore⟩
    exact hcounted.publishFinishing e _

theorem Kept.startPending {s : State} (h : Kept s) (e : FrameEnd) (hcurrent : s.current = none) :
    Kept (startPending e s) := by
  unfold AgentCapture.startPending
  split
  swap
  · exact h
  refine ⟨h.order, h.maps, h.finishingMap, fun c hc => ?_, fun hpending => ?_, h.sorted,
    fun t ht => ⟨?_, fun c hc => ?_⟩, fun c hc => ?_⟩
  · rw [← Option.some.inj hc]
  · obtain ⟨k, hk, howner⟩ := h.owner hpending
    refine ⟨k, hk, ?_⟩
    cases hfinishing : s.finishing with
    | some waiting =>
      rw [Owner, hfinishing] at howner
      exact howner
    | none =>
      rw [Owner, hfinishing] at howner
      obtain ⟨c, hc, -⟩ := howner
      rw [hcurrent] at hc
      cases hc
  · exact Nat.lt_succ_of_lt (h.recordedBefore t ht).1
  · rw [← Option.some.inj hc]
    exact (h.recordedBefore t ht).1
  · rw [← Option.some.inj hc]
    exact Nat.lt_succ_self _

/-- The state after the recorded capture has been looked at, if any: what `OnEndFrame` does to a
    capture that goes on, or whose recording ends. -/
theorem onEndFrame_cases (e : FrameEnd) (s : State) :
    ((endDrawIdFrame e s).current = none ∧
      onEndFrame e s = startPending e (publishIfReady e (endDrawIdFrame e s))) ∨
    ∃ c frame, (endDrawIdFrame e s).current = some c ∧ frame.serial = c.serial ∧
      frame.idMap = c.idMap ∧ frame.frames = c.frames + 1 ∧
      ((frame.frames < (endDrawIdFrame e s).currentTargetFrames ∧
        onEndFrame e s = { endDrawIdFrame e s with current := some frame }) ∨
      ((endDrawIdFrame e s).currentTargetFrames ≤ frame.frames ∧ onEndFrame e s =
        startPending e (publishIfReady e (finishRecording e frame (endDrawIdFrame e s))))) := by
  unfold onEndFrame
  generalize endDrawIdFrame e s = t
  dsimp only
  cases hcurrent : t.current with
  | none => exact .inl ⟨rfl, rfl⟩
  | some c =>
    let counted : CapturedFrame :=
      { c with
        headCulled := c.headCulled + e.headCulledDraws
        flatMode := e.flatMode
        frames := c.frames + 1 }
    dsimp only
    split
    · rename_i hmore
      exact .inr ⟨c, { counted with patchFlags := c.patchFlags ++ [e.patchFlags] }, rfl, rfl, rfl,
        rfl, .inl ⟨hmore, rfl⟩⟩
    · rename_i hdone
      exact .inr ⟨c, counted, rfl, rfl, rfl, rfl, .inr ⟨Nat.not_lt.1 hdone, rfl⟩⟩

theorem current_publishIfReady (e : FrameEnd) (s : State) :
    (publishIfReady e s).current = s.current := by
  unfold publishIfReady
  split
  · rfl
  · exact (publishFinishing_frame e _ _).1

theorem Kept.onEndFrame {s : State} (h : Kept s) (e : FrameEnd) : Kept (onEndFrame e s) := by
  have hended := h.endDrawIdFrame e
  rcases onEndFrame_cases e s with ⟨hcurrent, heq⟩ | ⟨c, frame, hcurrent, hserial, hmap, -, hcase⟩
  · rw [heq]
    apply (hended.publishIfReady e).startPending
    rw [current_publishIfReady, hcurrent]
  rcases hcase with ⟨-, heq⟩ | ⟨-, heq⟩
  · rw [heq]
    refine ⟨hended.order, hended.maps, hended.finishingMap, fun d hd => ?_, fun hpending => ?_,
      hended.sorted, fun t ht => ⟨(hended.recordedBefore t ht).1, fun d hd => ?_⟩, fun d hd => ?_⟩
    · rw [← Option.some.inj hd, hmap]
      exact hended.currentMap c hcurrent
    · obtain ⟨k, hk, howner⟩ := hended.owner hpending
      refine ⟨k, hk, ?_⟩
      unfold Owner at howner ⊢
      dsimp only
      split
      · rename_i hfinishing
        rw [hfinishing] at howner
        exact howner
      · rename_i hfinishing
        rw [hfinishing] at howner
        obtain ⟨d, hd, hkey⟩ := howner
        rw [hcurrent] at hd
        rw [← Option.some.inj hd] at hkey
        exact ⟨frame, rfl, hserial.trans hkey⟩
    · rw [← Option.some.inj hd, hserial]
      exact (hended.recordedBefore t ht).2 c hcurrent
    · rw [← Option.some.inj hd, hserial]
      exact hended.currentBefore c hcurrent
  · rw [heq]
    apply ((hended.finishRecording e hcurrent hserial hmap).publishIfReady e).startPending
    rw [current_publishIfReady]
    rfl

theorem Kept.step {s s' : State} (h : Kept s) {a : Action} (hstep : step s a = some s') : Kept s' := by
  cases a with
  | requestCapture id frames drawIds =>
    dsimp only [AgentCapture.step] at hstep
    split at hstep
    · cases hstep
    · rw [← Option.some.inj hstep]
      exact ⟨h.order, h.maps, h.finishingMap, h.currentMap, h.owner, h.sorted, h.recordedBefore,
        h.currentBefore⟩
  | endFrame e =>
    rw [← Option.some.inj hstep]
    have hended := h.onEndFrame e
    exact ⟨hended.order, hended.maps, hended.finishingMap, hended.currentMap, hended.owner,
      hended.sorted, hended.recordedBefore, hended.currentBefore⟩

theorem reachable_kept {s : State} (h : captures.Reachable s) : Kept s := by
  apply h.invariant
  · rintro s rfl
    exact kept_initial
  · intro s a s' _ hs hstep
    exact hs.step hstep

/-! ### What is seen -/

/-- Nothing is published, or the capture that has waited. -/
def Published (s s' : State) : Prop :=
  (s'.publishedAll = s.publishedAll ∧ s'.published = s.published ∧ s'.finishing = s.finishing) ∨
  ∃ c, s.finishing ≠ none ∧ s'.publishedAll = s.publishedAll ++ [c] ∧ s'.published = some c ∧
    s'.finishing = none

theorem Published.trans {s t u : State} (h : Published s t) (h' : Published t u) :
    Published s u := by
  rcases h with ⟨hall, hlast, hfinishing⟩ | ⟨c, hsome, hall, hlast, hnone⟩
  · rw [Published, hall, hlast, hfinishing] at h'
    exact h'
  · rcases h' with ⟨hall', hlast', hfinishing'⟩ | ⟨_, hsome', -⟩
    · exact .inr ⟨c, hsome, hall'.trans hall, hlast'.trans hlast, hfinishing'.trans hnone⟩
    · exact absurd hnone hsome'

theorem published_publishFinishing (e : FrameEnd) (wait : Bool) (s : State) :
    Published s (publishFinishing e wait s) := by
  unfold publishFinishing
  cases hfinishing : s.finishing with
  | none => exact .inl ⟨rfl, rfl, rfl⟩
  | some waiting =>
    have hsome : s.finishing ≠ none := by
      rw [hfinishing]
      exact Option.some_ne_none _
    dsimp only
    split
    · split
      · exact .inr ⟨_, hsome, rfl, rfl, rfl⟩
      · exact .inl ⟨rfl, rfl, rfl⟩
    · exact .inr ⟨_, hsome, rfl, rfl, rfl⟩

theorem published_publishIfReady (e : FrameEnd) (s : State) : Published s (publishIfReady e s) := by
  unfold publishIfReady
  split
  · exact .inl ⟨rfl, rfl, rfl⟩
  · have hcounted := published_publishFinishing e
      (decide (drawIdReadbackWaitFrames ≤ s.finishingFrames + 1))
      { s with finishingFrames := s.finishingFrames + 1 }
    exact hcounted

theorem published_startPending (e : FrameEnd) (s : State) :
    (startPending e s).publishedAll = s.publishedAll ∧ (startPending e s).published = s.published := by
  unfold startPending
  split
  · exact ⟨rfl, rfl⟩
  · exact ⟨rfl, rfl⟩

theorem published_endDrawIdFrame (e : FrameEnd) (s : State) : Published s (endDrawIdFrame e s) := by
  unfold endDrawIdFrame
  split
  swap
  · exact .inl ⟨rfl, rfl, rfl⟩
  dsimp only
  split
  swap
  · exact .inl ⟨rfl, rfl, rfl⟩
  have hpublished := published_publishFinishing e true { s with drawIdFrame := false }
  have hstart : Published s { s with drawIdFrame := false } := .inl ⟨rfl, rfl, rfl⟩
  have hall := hstart.trans hpublished
  split
  · exact hall
  · split
    · exact hall
    · exact hall

def PublishedOnce (s s' : State) : Prop :=
  s'.publishedAll = s.publishedAll ∨
    ∃ c, s'.publishedAll = s.publishedAll ++ [c] ∧ s'.published = some c

theorem Published.once {s s' : State} (h : Published s s') : PublishedOnce s s' :=
  h.imp (·.1) fun ⟨c, _, hall, hlast, _⟩ => ⟨c, hall, hlast⟩

theorem publishIfReady_of_pending {e : FrameEnd} {s : State} (hpending : s.drawIdReadbackPending = true)
    (hmanager : e.framebufferManager = true) (hready : e.ready = false)
    (hframes : s.finishingFrames = 0) :
    (publishIfReady e s).publishedAll = s.publishedAll ∧
      (publishIfReady e s).published = s.published := by
  unfold publishIfReady
  split
  · exact ⟨rfl, rfl⟩
  · rename_i hfinishing
    unfold publishFinishing
    dsimp only
    rw [hfinishing, hpending, hmanager, hready, hframes]
    exact ⟨rfl, rfl⟩

theorem endDrawIdFrame_queued {e : FrameEnd} {s : State} (h : Kept s) {c : CapturedFrame}
    (hcurrent : s.current = some c) (hframe : s.drawIdFrame = true)
    (hmanager : e.framebufferManager = true) (hruns : e.isDrawIdFrame = true)
    (hqueued : e.queued = true) :
    (endDrawIdFrame e s).drawIdReadbackPending = true ∧ (endDrawIdFrame e s).finishing = none := by
  have hcleared : Kept { s with drawIdFrame := false } :=
    ⟨h.order, h.maps, h.finishingMap, h.currentMap, h.owner, h.sorted, h.recordedBefore,
      h.currentBefore⟩
  have hnone := finishing_publishFinishing hcleared e
  have hsame := (publishFinishing_frame e true { s with drawIdFrame := false }).1
  unfold endDrawIdFrame
  rw [if_pos hframe, if_pos hmanager]
  generalize publishFinishing e true { s with drawIdFrame := false } = t at hnone hsame
  have hcurrent' : t.current = some c := hsame.trans hcurrent
  dsimp only
  rw [hcurrent']
  dsimp only
  rw [if_pos (by rw [hruns, hqueued]; rfl)]
  exact ⟨rfl, hnone⟩

theorem current_endDrawIdFrame (e : FrameEnd) (s : State) :
    (endDrawIdFrame e s).currentTargetFrames = s.currentTargetFrames ∧
    (endDrawIdFrame e s).frameEnds = s.frameEnds ∧
    (endDrawIdFrame e s).finishingFrames = s.finishingFrames ∧
    (endDrawIdFrame e s).pendingCaptureFrames = s.pendingCaptureFrames ∧
    (endDrawIdFrame e s).seen = s.seen ∧
    (endDrawIdFrame e s).current.map (·.frames) = s.current.map (·.frames) := by
  unfold endDrawIdFrame
  split
  swap
  · exact ⟨rfl, rfl, rfl, rfl, rfl, rfl⟩
  dsimp only
  split
  swap
  · exact ⟨rfl, rfl, rfl, rfl, rfl, rfl⟩
  obtain ⟨hcurrent, -, -, hends, htarget, hfinishing, hpending, hseen⟩ :=
    publishFinishing_frame e true { s with drawIdFrame := false }
  generalize publishFinishing e true { s with drawIdFrame := false } = t at *
  split
  · exact ⟨htarget, hends, hfinishing, hpending, hseen, congrArg _ hcurrent⟩
  · rename_i c hc
    split
    · exact ⟨htarget, hends, hfinishing, hpending, hseen, congrArg _ hcurrent⟩
    · refine ⟨htarget, hends, hfinishing, hpending, hseen, ?_⟩
      have hsome : s.current = some c := hcurrent.symm.trans hc
      rw [hsome]
      rfl

theorem finishRecording_of_none (e : FrameEnd) (frame : CapturedFrame) {s : State}
    (h : s.finishing = none) :
    (finishRecording e frame s).drawIdReadbackPending = s.drawIdReadbackPending ∧
    (finishRecording e frame s).finishingFrames = 0 ∧
    (finishRecording e frame s).publishedAll = s.publishedAll ∧
    (finishRecording e frame s).published = s.published := by
  have hidle : publishFinishing e true s = s := by
    unfold publishFinishing
    rw [h]
  rw [finishRecording, hidle]
  exact ⟨rfl, rfl, rfl, rfl⟩

theorem onEndFrame_publishedOnce {s : State} (h : Kept s) {e : FrameEnd}
    (hok : NotOverlapping s (.endFrame e)) : PublishedOnce s (onEndFrame e s) := by
  have hended := published_endDrawIdFrame e s
  rcases onEndFrame_cases e s with ⟨-, heq⟩ | ⟨c, frame, hcurrent, -, -, hframes, hcase⟩
  · obtain ⟨hall, hlast⟩ := published_startPending e (publishIfReady e (endDrawIdFrame e s))
    rw [heq, PublishedOnce, hall, hlast]
    exact (hended.trans (published_publishIfReady e _)).once
  obtain ⟨htarget, -, -, -, -, hcount⟩ := current_endDrawIdFrame e s
  rcases hcase with ⟨-, heq⟩ | ⟨hdone, heq⟩
  · rw [heq]
    exact hended.once
  rw [heq]
  have hrecorded := published_publishFinishing e true (endDrawIdFrame e s)
  have hsome : ∃ d, s.current = some d ∧ d.frames = c.frames := by
    rw [hcurrent] at hcount
    exact Option.map_eq_some_iff.1 hcount.symm
  obtain ⟨d, hd, hcount⟩ := hsome
  cases hfinishing : s.finishing with
  | none =>
    -- only the capture that has been recorded now can be published
    have hnone : (endDrawIdFrame e s).finishing = none ∧
        (endDrawIdFrame e s).publishedAll = s.publishedAll := by
      rcases hended with ⟨hall, -, hsame⟩ | ⟨_, hsome, -⟩
      · exact ⟨hsame.trans hfinishing, hall⟩
      · exact absurd hfinishing hsome
    have hsame : (finishRecording e frame (endDrawIdFrame e s)).publishedAll = s.publishedAll := by
      rcases hrecorded with ⟨hall, -⟩ | ⟨_, hsome, -⟩
      · exact hall.trans hnone.2
      · exact absurd hnone.1 hsome
    obtain ⟨hall, hlast⟩ :=
      published_startPending e (publishIfReady e (finishRecording e frame (endDrawIdFrame e s)))
    rw [PublishedOnce, hall, hlast, ← hsame]
    exact (published_publishIfReady e _).once
  | some waiting =>
    obtain ⟨hframe, hmanager, hruns, hqueued, hready⟩ :=
      hok waiting d hfinishing hd (by rw [hcount, ← hframes, ← htarget]; exact hdone)
    obtain ⟨hpending, hnone⟩ := endDrawIdFrame_queued h hd hframe hmanager hruns hqueued
    obtain ⟨hpending', hframes', hall, hlast⟩ := finishRecording_of_none e frame hnone
    obtain ⟨hall', hlast'⟩ :=
      publishIfReady_of_pending (hpending'.trans hpending) hmanager hready hframes'
    obtain ⟨hall'', hlast''⟩ :=
      published_startPending e (publishIfReady e (finishRecording e frame (endDrawIdFrame e s)))
    rw [PublishedOnce, hall'', hall', hall, hlast'', hlast', hlast]
    exact hended.once

/-! ### When it is seen -/

/-- The frame ends until a capture that waits is published, at most. -/
def remaining (s : State) : Nat :=
  match s.current with
  | some c => s.currentTargetFrames - c.frames
  | none => 304 - s.finishingFrames

structure Timely (s : State) : Prop where
  pendingFrames : 1 ≤ s.pendingCaptureFrames ∧ s.pendingCaptureFrames ≤ 300
  target : ∀ c, s.current = some c → c.frames < s.currentTargetFrames ∧ s.currentTargetFrames ≤ 300
  waiting : ∀ c, s.finishing = some c →
    s.finishingFrames ≤ 2 ∧ s.frameEnds + remaining s ≤ c.recordedAt + 304

theorem publishIfReady_of_some (e : FrameEnd) {s : State} {c : CapturedFrame}
    (h : s.finishing = some c) : publishIfReady e s =
      publishFinishing e (decide (drawIdReadbackWaitFrames ≤ s.finishingFrames + 1))
        { s with finishingFrames := s.finishingFrames + 1 } := by
  unfold publishIfReady
  split
  · rename_i hnone
    rw [hnone] at h
    cases h
  · rfl

theorem publishIfReady_waiting {s : State} (h : Kept s) {e : FrameEnd} {c : CapturedFrame}
    (hc : (publishIfReady e s).finishing = some c) :
    s.finishing = some c ∧ (publishIfReady e s).finishingFrames = s.finishingFrames + 1 ∧
      s.finishingFrames + 1 ≤ 2 := by
  cases hfinishing : s.finishing with
  | none =>
    rcases published_publishIfReady e s with ⟨-, -, hsame⟩ | ⟨_, hsome, -⟩
    · rw [hsame, hfinishing] at hc
      cases hc
    · exact absurd hfinishing hsome
  | some waiting =>
    rw [publishIfReady_of_some e hfinishing] at hc ⊢
    have hcounted : Kept { s with finishingFrames := s.finishingFrames + 1 } :=
      ⟨h.order, h.maps, h.finishingMap, h.currentMap, h.owner, h.sorted, h.recordedBefore,
        h.currentBefore⟩
    have hwait : ¬drawIdReadbackWaitFrames ≤ s.finishingFrames + 1 := by
      intro hle
      rw [decide_eq_true hle, finishing_publishFinishing hcounted e] at hc
      cases hc
    obtain ⟨-, -, -, -, -, hframes, -⟩ := publishFinishing_frame e
      (decide (drawIdReadbackWaitFrames ≤ s.finishingFrames + 1))
      { s with finishingFrames := s.finishingFrames + 1 }
    refine ⟨?_, hframes, by unfold drawIdReadbackWaitFrames at hwait; omega⟩
    rcases published_publishFinishing e (decide (drawIdReadbackWaitFrames ≤ s.finishingFrames + 1))
      { s with finishingFrames := s.finishingFrames + 1 } with ⟨-, -, hsame⟩ | ⟨_, -, -, -, hnone⟩
    · rw [hsame] at hc
      exact hfinishing.symm.trans hc
    · rw [hnone] at hc
      cases hc

theorem startPending_cases (e : FrameEnd) (s : State) :
    (startPending e s).finishing = s.finishing ∧
    (startPending e s).finishingFrames = s.finishingFrames ∧
    (startPending e s).frameEnds = s.frameEnds ∧
    (startPending e s).pendingCaptureFrames = s.pendingCaptureFrames ∧
    ((startPending e s).current = s.current ∨
      ∃ c, (startPending e s).current = some c ∧ c.frames = 0 ∧
        (startPending e s).currentTargetFrames = s.pendingCaptureFrames) := by
  unfold startPending
  split
  · exact ⟨rfl, rfl, rfl, rfl, .inr ⟨_, rfl, rfl, rfl⟩⟩
  · exact ⟨rfl, rfl, rfl, rfl, .inl rfl⟩

theorem publishIfReady_frame (e : FrameEnd) (s : State) :
    (publishIfReady e s).frameEnds = s.frameEnds ∧
    (publishIfReady e s).pendingCaptureFrames = s.pendingCaptureFrames := by
  unfold publishIfReady
  split
  · exact ⟨rfl, rfl⟩
  · obtain ⟨-, -, -, hends, -, -, hpending, -⟩ := publishFinishing_frame e
      (decide (drawIdReadbackWaitFrames ≤ s.finishingFrames + 1))
      { s with finishingFrames := s.finishingFrames + 1 }
    exact ⟨hends, hpending⟩

theorem timely_startPending {s : State} (h : Kept s) (e : FrameEnd) {ends : Nat}
    (hcurrent : s.current = none)
    (hpending : 1 ≤ s.pendingCaptureFrames ∧ s.pendingCaptureFrames ≤ 300)
    (hwaiting : ∀ c, s.finishing = some c → ends + (304 - s.finishingFrames) ≤ c.recordedAt + 304)
    {seen : List CapturedFrame} :
    Timely { startPending e (publishIfReady e s) with frameEnds := ends + 1, seen := seen } := by
  obtain ⟨hfinishing, hframes, -, hpending', hstart⟩ := startPending_cases e (publishIfReady e s)
  obtain ⟨-, hframe⟩ := publishIfReady_frame e s
  rw [current_publishIfReady, hcurrent, hframe] at hstart
  rw [hframe] at hpending'
  refine ⟨hpending' ▸ hpending, fun c hc => ?_, fun c hc => ?_⟩
  · rcases hstart with hnone | ⟨d, hd, hzero, htarget⟩
    · have hsome : (startPending e (publishIfReady e s)).current = some c := hc
      rw [hnone] at hsome
      cases hsome
    · have hsome : (startPending e (publishIfReady e s)).current = some c := hc
      rw [hd] at hsome
      rw [← Option.some.inj hsome, hzero]
      dsimp only
      omega
  · have hc' : (publishIfReady e s).finishing = some c := hfinishing ▸ hc
    obtain ⟨hbefore, hcount, hle⟩ := publishIfReady_waiting h hc'
    have hbound := hwaiting c hbefore
    unfold remaining
    dsimp only
    rw [hframes, hcount]
    refine ⟨hle, ?_⟩
    rcases hstart with hnone | ⟨d, hd, hzero, htarget⟩
    · rw [hnone]
      dsimp only
      omega
    · rw [hd]
      dsimp only
      omega

theorem Timely.onEndFrame {s : State} (hs : Kept s) (h : Timely s) (e : FrameEnd)
    {seen : List CapturedFrame} :
    Timely { onEndFrame e s with frameEnds := s.frameEnds + 1, seen := seen } := by
  have hended := hs.endDrawIdFrame e
  obtain ⟨htarget, hends, hframes, hpending, -, hcount⟩ := current_endDrawIdFrame e s
  have hfinishing : ∀ c, (endDrawIdFrame e s).finishing = some c → s.finishing = some c := by
    intro c hc
    rcases published_endDrawIdFrame e s with ⟨-, -, hsame⟩ | ⟨_, -, -, -, hnone⟩
    · exact hsame ▸ hc
    · rw [hnone] at hc
      cases hc
  rcases onEndFrame_cases e s with
    ⟨hcurrent, heq⟩ | ⟨c, frame, hcurrent, hserial, hmap, hcounted, hcase⟩
  · rw [heq]
    refine timely_startPending hended e hcurrent (hpending ▸ h.pendingFrames) fun c hc => ?_
    have hnone : s.current = none := by
      rw [hcurrent] at hcount
      exact Option.map_eq_none_iff.1 hcount.symm
    have hwaiting := (h.waiting c (hfinishing c hc)).2
    unfold remaining at hwaiting
    rw [hnone] at hwaiting
    rw [hframes]
    exact hwaiting
  obtain ⟨d, hd, hsame⟩ : ∃ d, s.current = some d ∧ d.frames = c.frames := by
    rw [hcurrent] at hcount
    exact Option.map_eq_some_iff.1 hcount.symm
  have hlast := h.target d hd
  rcases hcase with ⟨hmore, heq⟩ | ⟨hdone, heq⟩
  · rw [heq]
    refine ⟨?_, fun c' hc' => ?_, fun waiting hwaiting => ?_⟩
    · dsimp only
      rw [hpending]
      exact h.pendingFrames
    · rw [← Option.some.inj hc']
      dsimp only
      omega
    · obtain ⟨hle, hbound⟩ := h.waiting waiting (hfinishing waiting hwaiting)
      unfold remaining at hbound ⊢
      rw [hd] at hbound
      dsimp only at hbound ⊢
      omega
  · rw [heq]
    obtain ⟨-, -, -, hends', -, -, hpending', -⟩ :=
      publishFinishing_frame e true (endDrawIdFrame e s)
    have hkept := hended.finishRecording e hcurrent hserial hmap
    refine timely_startPending hkept e rfl ?_ fun waiting hwaiting => ?_
    · unfold finishRecording
      dsimp only
      rw [hpending', hpending]
      exact h.pendingFrames
    · rw [← Option.some.inj hwaiting]
      unfold finishRecording
      dsimp only
      omega

/-- Every published capture has been returned by `GetLastCapture` after some frame end. -/
def Seen (s : State) : Prop := ∀ c ∈ s.publishedAll, c ∈ s.seen

theorem seen_onEndFrame (e : FrameEnd) (s : State) : (onEndFrame e s).seen = s.seen := by
  have hpublish : ∀ t, (publishIfReady e t).seen = t.seen := by
    intro t
    unfold publishIfReady
    split
    · rfl
    · obtain ⟨-, -, -, -, -, -, -, hseen⟩ := publishFinishing_frame e
        (decide (drawIdReadbackWaitFrames ≤ t.finishingFrames + 1))
        { t with finishingFrames := t.finishingFrames + 1 }
      exact hseen
  have hstart : ∀ t, (startPending e t).seen = t.seen := by
    intro t
    unfold startPending
    split
    · rfl
    · rfl
  obtain ⟨-, -, -, -, hended, -⟩ := current_endDrawIdFrame e s
  rcases onEndFrame_cases e s with ⟨-, heq⟩ | ⟨c, frame, -, -, -, -, ⟨-, heq⟩ | ⟨-, heq⟩⟩
  · rw [heq, hstart, hpublish, hended]
  · rw [heq]
    exact hended
  · obtain ⟨-, -, -, -, -, -, -, hseen⟩ := publishFinishing_frame e true (endDrawIdFrame e s)
    rw [heq, hstart, hpublish]
    exact hseen.trans hended

theorem timely_initial : Timely initial where
  pendingFrames := by decide
  target _ hc := nomatch hc
  waiting _ hc := nomatch hc

theorem step_seen {s s' : State} (hs : Kept s) (htimely : Timely s) (h : Seen s) {a : Action}
    (hok : NotOverlapping s a) (hstep : step s a = some s') : Timely s' ∧ Seen s' := by
  cases a with
  | requestCapture id frames drawIds =>
    dsimp only [step] at hstep
    split at hstep
    · cases hstep
    · rw [← Option.some.inj hstep]
      refine ⟨⟨?_, htimely.target, htimely.waiting⟩, h⟩
      unfold requestCapture maxCaptureFrames
      dsimp only
      omega
  | endFrame e =>
    rw [← Option.some.inj hstep]
    have hends : (onEndFrame e s).frameEnds = s.frameEnds := by
      obtain ⟨-, hended, -⟩ := current_endDrawIdFrame e s
      rcases onEndFrame_cases e s with ⟨-, heq⟩ | ⟨c, frame, -, -, -, -, ⟨-, heq⟩ | ⟨-, heq⟩⟩
      · obtain ⟨-, -, hstart, -⟩ := startPending_cases e (publishIfReady e (endDrawIdFrame e s))
        rw [heq, hstart, (publishIfReady_frame e _).1, hended]
      · rw [heq]
        exact hended
      · obtain ⟨-, -, hstart, -⟩ := startPending_cases e
          (publishIfReady e (finishRecording e frame (endDrawIdFrame e s)))
        obtain ⟨-, -, -, hrecorded, -⟩ := publishFinishing_frame e true (endDrawIdFrame e s)
        rw [heq, hstart, (publishIfReady_frame e _).1]
        exact hrecorded.trans hended
    rw [hends]
    refine ⟨htimely.onEndFrame hs e, fun c hc => ?_⟩
    rw [seen_onEndFrame]
    rcases onEndFrame_publishedOnce hs hok with hall | ⟨d, hall, hlast⟩
    · rw [hall] at hc
      exact List.mem_append_left _ (h c hc)
    · rw [hall] at hc
      rcases List.mem_append.1 hc with hc | hc
      · exact List.mem_append_left _ (h c hc)
      · rw [getLastCapture, hlast, List.mem_singleton.1 hc]
        exact List.mem_append_right _ (List.mem_singleton_self d)

/-- Captures are published in the order they were recorded in, and have maps of their own; and where
    they do not overlap, each is seen at the latest 303 frame ends after its recording. -/
theorem captures_seen {s : State} (h : captures.Reachable s) :
    s.publishedAll.map (·.tag) <+: s.recorded ∧
    s.recorded.Pairwise (fun t t' => t.1 < t'.1) ∧
    (∀ c ∈ s.publishedAll, c.idMap = none ∨ c.idMap = some c.serial) ∧
    (captures.ReachableBy NotOverlapping s → ∀ t ∈ s.recorded,
      (∃ c ∈ s.seen, c.tag = t) ∨
      ((∃ c, s.finishing = some c ∧ c.tag = t) ∧ s.frameEnds ≤ t.2 + 303)) := by
  have hkept := reachable_kept h
  refine ⟨⟨_, hkept.order⟩, hkept.sorted, hkept.maps, fun h t ht => ?_⟩
  have hinvariant : Kept s ∧ Timely s ∧ Seen s := by
    apply h.invariant (P := fun s => Kept s ∧ Timely s ∧ Seen s)
    · rintro s rfl
      exact ⟨kept_initial, timely_initial, fun c hc => absurd hc List.not_mem_nil⟩
    · rintro s a s' ⟨hkept, htimely, hseen⟩ hok hstep
      exact ⟨hkept.step hstep, step_seen hkept htimely hseen hok hstep⟩
  obtain ⟨hkept, htimely, hseen⟩ := hinvariant
  rw [← hkept.order] at ht
  rcases List.mem_append.1 ht with ht | ht
  · obtain ⟨c, hc, htag⟩ := List.mem_map.1 ht
    exact .inl ⟨c, hseen c hc, htag⟩
  · obtain ⟨c, hc, htag⟩ := List.mem_map.1 ht
    have hfinishing := Option.mem_toList.1 hc
    obtain ⟨hle, hbound⟩ := htimely.waiting c hfinishing
    have hpos : 1 ≤ remaining s := by
      unfold remaining
      cases hcurrent : s.current with
      | none =>
        dsimp only
        omega
      | some d =>
        have hlt := (htimely.target d hcurrent).1
        dsimp only
        omega
    refine .inr ⟨⟨c, hfinishing, htag⟩, ?_⟩
    rw [← htag]
    have hat : c.tag.2 = c.recordedAt := rfl
    omega

/-- A frame end with a running backend, whose readbacks are ready one frame later. -/
def plainFrameEnd : FrameEnd := ⟨0, false, [], true, true, true, true, true, false⟩

/-- A capture with a draw-ID map, and a second one that is recorded while the first waits. -/
def consecutive : List Action :=
  [.requestCapture 1 1 true, .endFrame plainFrameEnd, .requestCapture 2 1 true,
    .endFrame plainFrameEnd, .endFrame plainFrameEnd, .endFrame { plainFrameEnd with ready := true }]

/-- `NotOverlapping`, computed. -/
def notOverlapping (s : State) : Action → Bool
  | .requestCapture .. => true
  | .endFrame e =>
    s.finishing.isNone || s.current.all fun frame =>
      decide (frame.frames + 1 < s.currentTargetFrames) ||
        s.drawIdFrame && e.framebufferManager && e.isDrawIdFrame && e.queued && !e.ready

theorem notOverlapping_of_check (s : State) (a : Action) (h : notOverlapping s a = true) :
    NotOverlapping s a := by
  cases a with
  | requestCapture id frames drawIds => trivial
  | endFrame e =>
    intro waiting frame hfinishing hcurrent htarget
    simp only [notOverlapping, hfinishing, hcurrent, Option.isNone_some, Bool.false_or,
      Option.all_some, Bool.or_eq_true, decide_eq_true_iff, Bool.and_eq_true,
      Bool.not_eq_true', and_assoc] at h
    exact h.resolve_left (Nat.not_lt.2 htarget)

/-- Both captures are published in turn, each with its own map, and seen. -/
theorem captures_seen_consecutive : ∃ s, captures.ReachableBy NotOverlapping s ∧
    s.recorded = [(0, 1), (1, 2)] ∧ s.publishedAll.map (·.idMap) = [some 0, some 1] ∧
    s.finishing.isNone = true ∧ ∀ t ∈ s.recorded, ∃ c ∈ s.seen, c.tag = t := by
  have hrun : (captures.runIf notOverlapping initial consecutive).map (fun s =>
      (s.recorded, s.publishedAll.map (·.idMap), s.finishing.isNone)) =
        some ([(0, 1), (1, 2)], [some 0, some 1], true) := by decide +kernel
  obtain ⟨s, hs, hfacts⟩ := Option.map_eq_some_iff.1 hrun
  simp only [Prod.mk.injEq] at hfacts
  obtain ⟨hrecorded, hmaps, hfinishing⟩ := hfacts
  have hinit : captures.ReachableBy NotOverlapping initial := .init rfl
  have hreach := hinit.runIf notOverlapping_of_check hs
  refine ⟨s, hreach, hrecorded, hmaps, hfinishing, fun t ht => ?_⟩
  obtain hseen | ⟨⟨c, hc, -⟩, -⟩ := (captures_seen hreach.reachable).2.2.2 hreach t ht
  · exact hseen
  · rw [hc] at hfinishing
    cases hfinishing

/-- A capture with a draw-ID map, and one without that is requested while it is recorded. -/
def overlapping : List Action :=
  [.requestCapture 1 1 true, .endFrame plainFrameEnd, .requestCapture 2 1 false,
    .endFrame plainFrameEnd, .endFrame { plainFrameEnd with ready := true }]

/-- The first one is published and replaced in the same frame end. -/
theorem overlapping_not_seen : ¬ ∀ s, captures.Reachable s → ∀ t ∈ s.recorded,
    (∃ c ∈ s.seen, c.tag = t) ∨ ∃ c, s.finishing = some c ∧ c.tag = t := by
  intro hseen
  obtain ⟨s, hrun⟩ : ∃ s, captures.run initial overlapping = some s :=
    Option.isSome_iff_exists.1 (by decide +kernel)
  have hinit : captures.Reachable initial := .init rfl
  have hrecorded := System.run_eval hrun (fun s => s.recorded)
    (show _ = some [(0, 1), (1, 2)] by decide +kernel)
  have hlast := System.run_eval hrun (fun s => s.seen.map (·.tag))
    (show _ = some [(1, 2)] by decide +kernel)
  have hnone := System.run_eval hrun (fun s => s.finishing.map (·.tag))
    (show _ = some none by decide +kernel)
  obtain ⟨c, hc, htag⟩ | ⟨c, hc, -⟩ := hseen s (hinit.run hrun) (0, 1) (by simp [hrecorded])
  · have hmem := List.mem_map_of_mem (f := (·.tag)) hc
    rw [hlast, htag] at hmem
    exact absurd (List.mem_singleton.1 hmem) nofun
  · rw [hc] at hnone
    exact absurd hnone nofun

end DolphinXR.AgentCapture
