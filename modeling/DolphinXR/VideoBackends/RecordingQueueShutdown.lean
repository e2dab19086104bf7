import DolphinXR.VideoBackends.RecordingQueueSleep

/- How the queue ends. `Shutdown` raises the flag and then pushes its command, and the consumer
   stops where it finds the flag raised after it found the ring empty. The two are not read at once:
   a command that is pushed between them, with the flag raised after it, is lost. Where the flag is
   not raised between the two over a ring that is no longer empty, the queue keeps its promises in
   every run. -/
namespace DolphinXR.Vulkan
open Lib

variable {T : Type} {n : Nat} {s s' : Queue T}

/-- The wait is one of `Push`. -/
def Wait.isSlot : Wait T → Bool
  | .slot _ => true
  | .empty _ => false

/-- Inside `Push`. -/
def ProducerPoint.inPush : ProducerPoint T → Bool
  | .pushing _ | .rereading _ | .filling _ | .publishing _ => true
  | .locking wait _ | .targeting wait _ | .flagging wait _ | .testing wait _ _ | .asleep wait _
  | .relocking wait _ _ | .unflagging wait _ | .unlocking wait _ => wait.isSlot
  | _ => false

def ProducerPoint.afterPush : ProducerPoint T → Bool
  | .idle | .checkingSleeper | .notifying => true
  | _ => false

namespace ConsumerPoint

/-- The consumer has found the ring empty and is about to read the shutdown flag. -/
def sawEmpty : ConsumerPoint → Bool
  | .spinningShutdown _ | .checkingShutdown => true
  | _ => false

def fallsAsleep : ConsumerPoint → Bool
  | .waiting | .asleep => true
  | _ => false

/-- `WaitForCommand` returns false. -/
def stops : ConsumerPoint → Bool
  | .unmarking false | .stopped => true
  | _ => false

end ConsumerPoint

namespace Queue

structure Ending (s : Queue T) : Prop where
  shutdown : s.shutdown = s.pushedBefore.isSome
  pushing : ∀ k, s.pushedBefore = some k →
    s.producer.inPush ∧ s.pushed.length = k ∨ s.producer.afterPush ∧ s.pushed.length = k + 1
  stops : s.consumer.stops → ∃ k, s.pushedBefore = some k ∧ k ≤ s.popped.length
  sawEmpty : s.consumer.sawEmpty → ∀ k, s.pushedBefore = some k → k ≤ s.popped.length
  fallsAsleep : s.consumer.fallsAsleep → ∀ k, s.pushedBefore = some k → s.popped.length ≤ k

/-- The flag is not raised while the consumer is about to read it over a ring that is no longer
    empty. -/
def OnTime (s : Queue T) : Action T → Prop
  | .produce => ∀ wakeCommand, s.producer = .shuttingDown wakeCommand →
      s.consumer.sawEmpty → s.write = s.read
  | _ => True

theorem Ending.of_quiet (hshutdown : s.shutdown = s.pushedBefore.isSome)
    (hpushing : ∀ k, s.pushedBefore = some k →
      s.producer.inPush ∧ s.pushed.length = k ∨ s.producer.afterPush ∧ s.pushed.length = k + 1)
    (hstops : s.consumer.stops = false) (hempty : s.consumer.sawEmpty = false)
    (hasleep : s.consumer.fallsAsleep = false) : s.Ending where
  shutdown := hshutdown
  pushing := hpushing
  stops hc := by cases hstops.symm.trans hc
  sawEmpty hc := by cases hempty.symm.trans hc
  fallsAsleep hc := by cases hasleep.symm.trans hc

theorem Ending.produce (hn : n ≤ 31) (hordered : s.Ordered n) (h : s.Ending)
    (hok : s.OnTime .produce) (hstep : s.produce (2 ^ n) = some s') : s'.Ending := by
  obtain ⟨hshutdown, hpushing, hstops, hempty, hasleep⟩ := h
  cases hp : s.producer <;> simp only [Queue.produce, hp] at hstep
  case shuttingDown wakeCommand =>
    cases hstep
    have hbefore : s.pushedBefore = none := by
      rw [Option.eq_none_iff_forall_not_mem]
      intro k hk
      simpa [hp, ProducerPoint.inPush, ProducerPoint.afterPush] using hpushing k hk
    refine ⟨rfl, fun k hk => .inl ⟨rfl, Option.some.inj hk⟩, fun hc => ?_, fun hc k hk => ?_,
      fun hc k hk => ?_⟩
    · obtain ⟨k, hk, -⟩ := hstops hc
      cases hbefore.symm.trans hk
    · cases hk
      exact ((hordered.write_eq_read_iff hn).1 (hok wakeCommand hp hc)).le
    · cases hk
      exact hordered.le
  case publishing command =>
    cases hstep
    refine ⟨hshutdown, fun k hk => .inr ⟨rfl, ?_⟩, hstops, hempty, hasleep⟩
    have hcount : s.pushed.length = k := by
      simpa [hp, ProducerPoint.inPush, ProducerPoint.afterPush] using hpushing k hk
    simp [hcount]
  case notifying =>
    cases hstep
    have hended : ∀ k, s.pushedBefore = some k → s.pushed.length = k + 1 := by
      intro k hk
      simpa [hp, ProducerPoint.inPush, ProducerPoint.afterPush] using hpushing k hk
    cases hc : s.consumer <;> rw [hc] at hstops hempty hasleep <;>
      exact ⟨hshutdown, fun k hk => .inr ⟨rfl, hended k hk⟩, hstops, hempty, hasleep⟩
  case unlocking wait result =>
    cases hstep
    cases wait with
    | slot command =>
      refine ⟨hshutdown, fun k hk => .inl ⟨rfl, ?_⟩, hstops, hempty, hasleep⟩
      show s.pushed.length = k
      simpa [hp, ProducerPoint.inPush, ProducerPoint.afterPush, Wait.isSlot] using hpushing k hk
    | empty timed =>
      refine ⟨hshutdown, fun k hk => ?_, hstops, hempty, hasleep⟩
      exact absurd (hpushing k hk)
        (by simp [hp, ProducerPoint.inPush, ProducerPoint.afterPush, Wait.isSlot])
  all_goals
    repeat' split at hstep
    all_goals cases hstep
    all_goals
      refine ⟨hshutdown, fun k hk => ?_, hstops, hempty, hasleep⟩
      have hwhere := hpushing k hk
      rw [hp] at hwhere
      first
        | exact hwhere
        | simp [ProducerPoint.inPush, ProducerPoint.afterPush] at hwhere

theorem Ending.consume (hn : n ≤ 31) (hordered : s.Ordered n) (h : s.Ending)
    (hstep : s.consume = some s') : s'.Ending := by
  have hdrained : s.write = s.read → ∀ k, s.pushedBefore = some k → k ≤ s.popped.length := by
    intro heq k hk
    have hcount := (hordered.write_eq_read_iff hn).1 heq
    rcases h.pushing k hk with ⟨-, hlength⟩ | ⟨-, hlength⟩ <;> omega
  obtain ⟨hshutdown, hpushing, hstops, hempty, hasleep⟩ := h
  cases hc : s.consumer <;> simp only [Queue.consume, hc] at hstep
  case spinning spin =>
    split at hstep
    · cases hstep
      exact .of_quiet hshutdown hpushing rfl rfl rfl
    · next heq =>
      split at hstep <;> cases hstep
      · exact ⟨hshutdown, hpushing, by rintro ⟨⟩, fun _ => hdrained (Decidable.not_not.1 heq),
          by rintro ⟨⟩⟩
      · rcases nextSpin_cases spin with hnext | hnext <;> rw [hnext] <;>
          exact .of_quiet hshutdown hpushing rfl rfl rfl
  case spinningShutdown spin =>
    split at hstep <;> cases hstep
    · next hraised =>
      obtain ⟨k, hk⟩ := Option.isSome_iff_exists.1 (hshutdown ▸ hraised)
      exact ⟨hshutdown, hpushing, fun _ => ⟨k, hk, hempty (by rw [hc]; rfl) k hk⟩,
        by rintro ⟨⟩, by rintro ⟨⟩⟩
    · rcases nextSpin_cases spin with hnext | hnext <;> rw [hnext] <;>
        exact .of_quiet hshutdown hpushing rfl rfl rfl
  case rereading =>
    split at hstep <;> cases hstep
    · exact .of_quiet hshutdown hpushing rfl rfl rfl
    · next heq =>
      exact ⟨hshutdown, hpushing, by rintro ⟨⟩, fun _ => hdrained (Decidable.not_not.1 heq),
          by rintro ⟨⟩⟩
  case checkingShutdown =>
    split at hstep <;> cases hstep
    · next hraised =>
      obtain ⟨k, hk⟩ := Option.isSome_iff_exists.1 (hshutdown ▸ hraised)
      exact ⟨hshutdown, hpushing, fun _ => ⟨k, hk, hempty (by rw [hc]; rfl) k hk⟩,
        by rintro ⟨⟩, by rintro ⟨⟩⟩
    · next hlowered =>
      refine ⟨hshutdown, hpushing, by rintro ⟨⟩, by rintro ⟨⟩, fun _ k hk => ?_⟩
      rw [hshutdown, hk] at hlowered
      exact absurd rfl hlowered
  case waiting =>
    split at hstep <;> cases hstep
    · exact .of_quiet hshutdown hpushing rfl rfl rfl
    · exact ⟨hshutdown, hpushing, by rintro ⟨⟩, by rintro ⟨⟩,
        fun _ => hasleep (by rw [hc]; rfl)⟩
  case unmarking result =>
    cases hstep
    cases result
    · exact ⟨hshutdown, hpushing, fun _ => hstops (by rw [hc]; rfl), by rintro ⟨⟩, by rintro ⟨⟩⟩
    · exact .of_quiet hshutdown hpushing rfl rfl rfl
  case notifying =>
    cases hstep
    refine .of_quiet hshutdown (fun k hk => ?_) rfl rfl rfl
    have hwhere := hpushing k hk
    cases hp : s.producer <;> rw [hp] at hwhere <;> exact hwhere
  all_goals
    repeat' split at hstep
    all_goals cases hstep <;> exact .of_quiet hshutdown hpushing rfl rfl rfl

theorem Ending.act (hn : n ≤ 31) (hordered : s.Ordered n) (h : s.Ending) {a : Action T}
    (hok : s.OnTime a) (hstep : s.act (2 ^ n) a = some s') : s'.Ending := by
  cases a <;> simp only [Queue.act] at hstep
  case produce => exact h.produce hn hordered hok hstep
  case consume => exact h.consume hn hordered hstep
  all_goals obtain ⟨hshutdown, hpushing, hstops, hempty, hasleep⟩ := h
  case front =>
    split at hstep
    · split at hstep <;> cases hstep
      · exact ⟨hshutdown, hpushing, hstops, hempty, hasleep⟩
      · exact .of_quiet hshutdown hpushing rfl rfl rfl
    · cases hstep
  case pop =>
    split at hstep <;> cases hstep
    exact .of_quiet hshutdown hpushing rfl rfl rfl
  case waitForCommand =>
    split at hstep <;> cases hstep
    exact .of_quiet hshutdown hpushing rfl rfl rfl
  case wakeConsumer =>
    split at hstep <;> cases hstep
    next hc => exact ⟨hshutdown, hpushing, by rintro ⟨⟩, by rintro ⟨⟩,
        fun _ => hasleep (by rw [hc]; rfl)⟩
  case wakeProducer =>
    split at hstep <;> cases hstep
    next hp =>
      rw [hp] at hpushing
      exact ⟨hshutdown, hpushing, hstops, hempty, hasleep⟩
  case timeout =>
    split at hstep <;> cases hstep
    next hp =>
      rw [hp] at hpushing
      exact ⟨hshutdown, hpushing, hstops, hempty, hasleep⟩
  -- A call is made before the flag is raised.
  all_goals
    split at hstep <;> cases hstep
    next hlowered =>
      refine ⟨hshutdown, fun k hk => ?_, hstops, hempty, hasleep⟩
      rw [hk, hlowered] at hshutdown
      cases hshutdown

/-! ### Runs -/

def WakesProducer (n : Nat) (s : Queue T) : Prop :=
  ∃ k s', (queue (2 ^ n)).run s (List.replicate k .consume) = some s' ∧
    ∀ wait target, s'.producer ≠ .asleep wait target

def WakesConsumer (n : Nat) (s : Queue T) : Prop :=
  ∃ k s', (queue (2 ^ n)).run s (List.replicate k .produce) = some s' ∧ s'.consumer ≠ .asleep

theorem WakesProducer.of_consume (h : s'.WakesProducer n) (hstep : s.consume = some s') :
    s.WakesProducer n := by
  obtain ⟨k, t, hrun, hawake⟩ := h
  refine ⟨k + 1, t, ?_, hawake⟩
  rw [List.replicate_succ]
  exact Option.bind_eq_some_iff.2 ⟨s', hstep, hrun⟩

theorem WakesConsumer.of_produce (h : s'.WakesConsumer n)
    (hstep : s.produce (2 ^ n) = some s') : s.WakesConsumer n := by
  obtain ⟨k, t, hrun, hawake⟩ := h
  refine ⟨k + 1, t, ?_, hawake⟩
  rw [List.replicate_succ]
  exact Option.bind_eq_some_iff.2 ⟨s', hstep, hrun⟩

theorem Locked.free (h : s.Locked) (hproducer : ¬ s.producer.holdsMutex)
    (hconsumer : ¬ s.consumer.holdsMutex) : s.waitMutex = none := by
  cases hm : s.waitMutex with
  | none => rfl
  | some side =>
    cases side with
    | producer => exact absurd (h.producerMutex.1 hm) hproducer
    | consumer => exact absurd (h.consumerMutex.1 hm) hconsumer

theorem wakesProducer (hlocked : s.Locked) {wait : Wait T} {target : U32}
    (hp : s.producer = .asleep wait target) (hwakes : s.consumer.wakes target) :
    s.WakesProducer n := by
  have hnotify : ∀ t : Queue T, t.producer = .asleep wait target → t.consumer = .notifying →
      t.WakesProducer n := by
    intro t hp hc
    have hawake : ({ t with
        producer := .relocking wait target false, consumer := .unlocking } :
        Queue T).WakesProducer n := ⟨0, _, rfl, nofun⟩
    exact hawake.of_consume (by simp only [Queue.consume, hc, hp])
  have hlock : ∀ t : Queue T, t.producer = .asleep wait target → t.consumer = .locking →
      t.waitMutex = none → t.WakesProducer n := fun t hp hc hfree =>
    (hnotify { t with waitMutex := some .consumer, consumer := .notifying } hp rfl).of_consume
      (by simp only [Queue.consume, hc, hfree, if_true])
  have hproducer : ¬ s.producer.holdsMutex := by
    rw [hp]
    exact Bool.false_ne_true
  have htarget := hlocked.target target (by rw [hp]; rfl)
  rcases hwakes with hc | hc | hstored
  · exact hlock s hp hc (hlocked.free hproducer (by rw [hc]; exact Bool.false_ne_true))
  · exact hnotify s hp hc
  · cases hc : s.consumer <;> rw [hc] at hstored <;> cases hstored
    case checkingTarget.refl =>
      have hfree := hlocked.free hproducer (by rw [hc]; exact Bool.false_ne_true)
      exact (hlock { s with consumer := .locking } hp rfl hfree).of_consume
        (by simp only [Queue.consume, hc, htarget, if_true])
    case checkingWaiter.refl =>
      have hfree := hlocked.free hproducer (by rw [hc]; exact Bool.false_ne_true)
      have hwaiting : s.producerWaiting = true := by
        rw [hlocked.waiting, hp]
        rfl
      have hnext : ({ s with consumer := .checkingTarget target } : Queue T).WakesProducer n :=
        (hlock { s with consumer := .locking } hp rfl hfree).of_consume
          (by simp only [Queue.consume, htarget, if_true])
      exact hnext.of_consume (by simp only [Queue.consume, hc, hwaiting, if_true])

theorem wakesConsumer (hlocked : s.Locked) (hc : s.consumer = .asleep) (hwakes : s.producer.wakes) :
    s.WakesConsumer n := by
  have hnotify : ∀ t : Queue T, t.producer = .notifying → t.consumer = .asleep →
      t.WakesConsumer n := by
    intro t hp hc
    have hawake : ({ t with consumer := .waiting, producer := .idle, returned := !t.waited } :
        Queue T).WakesConsumer n := ⟨0, _, rfl, nofun⟩
    exact hawake.of_produce (by simp only [Queue.produce, hp, hc, if_true])
  cases hp : s.producer <;> rw [hp] at hwakes <;> try exact absurd hwakes Bool.false_ne_true
  case notifying => exact hnotify s hp hc
  case checkingSleeper =>
    have hsleeping := hlocked.sleeping (by rw [hc]; rfl)
    exact (hnotify { s with producer := .notifying } rfl hc).of_produce
      (by simp only [Queue.produce, hp, hsleeping, if_true])

theorem Awake.not_both (hn : n ≤ 31) (hordered : s.Ordered n) (h : s.Awake n) {wait : Wait T}
    {target : U32} (hp : s.producer = .asleep wait target) : s.consumer ≠ .asleep := by
  intro hc
  have hempty : s.pushed.length = s.popped.length := by
    rw [← hordered.write_eq_read_iff hn]
    by_contra hne
    exact absurd (h.consumer hc hne) (by rw [hp]; exact Bool.false_ne_true)
  have htarget := h.goal wait target (by rw [hp]; rfl)
  have hreached : hasReached s.read target := by
    rw [htarget, hordered.read, hasReached_iff hn wait hordered.le hordered.le_add]
    cases wait <;> simp only [Wait.goal] <;> have := Nat.two_pow_pos n <;> omega
  have hwakes := h.producer wait target hp hreached
  simp [hc, ConsumerPoint.wakes, ConsumerPoint.stored] at hwakes

/-- What is left of a `Push` over an empty ring. -/
def pushRank : ProducerPoint T → Nat
  | .locking _ _ => 10
  | .targeting _ _ => 9
  | .flagging _ _ | .relocking _ _ _ => 8
  | .testing _ _ _ => 7
  | .unflagging _ _ => 6
  | .unlocking _ _ | .pushing _ => 5
  | .rereading _ => 4
  | .filling _ => 3
  | _ => 2

theorem push_progress (hn : n ≤ 31) (hordered : s.Ordered n) (hlocked : s.Locked) (h : s.Awake n)
    (hc : s.consumer = .asleep) (hempty : s.write = s.read) (hpush : s.producer.inPush) :
    ∃ s', s.produce (2 ^ n) = some s' ∧ s'.consumer = .asleep ∧ (s'.producer.wakes ∨
      s'.write = s'.read ∧ s'.producer.inPush ∧ pushRank s'.producer < pushRank s.producer) := by
  have hcount := (hordered.write_eq_read_iff hn).1 hempty
  have hfree : ¬ s.producer.holdsMutex → s.waitMutex = none := fun hproducer =>
    hlocked.free hproducer (by rw [hc]; exact Bool.false_ne_true)
  cases hp : s.producer <;> rw [hp] at hpush hfree
  case pushing command =>
    cases hlooks : looksFull (2 ^ n) s.write s.cachedRead with
    | true =>
      refine ⟨{ s with producer := .rereading command }, ?_, hc, .inr ⟨hempty, rfl, by simp [pushRank]⟩⟩
      simp only [produce, hp, hlooks, if_true]
    | false =>
      refine ⟨{ s with producer := .filling command }, ?_, hc, .inr ⟨hempty, rfl, by simp [pushRank]⟩⟩
      simp only [produce, hp, hlooks, Bool.false_eq_true, if_false]
  case rereading command =>
    have hroom : ¬ looksFull (2 ^ n) s.write s.read := by
      rw [hordered.read, looksFull_iff hn hordered hordered.le hordered.le_add]
      have := Nat.two_pow_pos n
      omega
    refine ⟨{ s with cachedRead := s.read, producer := .filling command }, ?_, hc,
      .inr ⟨hempty, rfl, by simp [pushRank]⟩⟩
    simp only [produce, hp, hroom, Bool.false_eq_true, if_false]
  case testing wait target last =>
    have htarget := h.goal wait target (by rw [hp]; rfl)
    have hreached : hasReached s.read target := by
      rw [htarget, hordered.read, hasReached_iff hn wait hordered.le hordered.le_add]
      cases wait <;> simp only [Wait.goal] <;> have := Nat.two_pow_pos n <;> omega
    refine ⟨{ s with producer := .unflagging wait true }, ?_, hc,
      .inr ⟨hempty, hpush, by simp [pushRank]⟩⟩
    simp only [produce, hp, hreached, if_true]
  case asleep wait target => exact absurd hc (h.not_both hn hordered hp)
  case unlocking wait result =>
    cases wait with
    | slot command =>
      refine ⟨{ s with waitMutex := none, producer := .rereading command }, ?_, hc,
        .inr ⟨hempty, rfl, by simp [pushRank]⟩⟩
      simp only [produce, hp, afterWait]
    | empty timed => exact absurd hpush Bool.false_ne_true
  case locking wait target =>
    have hm := hfree Bool.false_ne_true
    refine ⟨{ s with waitMutex := some .producer, producer := .targeting wait target }, ?_, hc,
      .inr ⟨hempty, hpush, by simp [pushRank]⟩⟩
    simp only [produce, hp, hm, if_true]
  case relocking wait target last =>
    have hm := hfree Bool.false_ne_true
    refine ⟨{ s with waitMutex := some .producer, producer := .testing wait target last }, ?_, hc,
      .inr ⟨hempty, hpush, by simp [pushRank]⟩⟩
    simp only [produce, hp, hm, if_true]
  case publishing command =>
    refine ⟨{ s with
      write := s.write + 1, pushed := s.pushed ++ [command], producer := .checkingSleeper },
      ?_, hc, .inl rfl⟩
    simp only [produce, hp]
  case filling command =>
    refine ⟨{ s with
      slots := Function.update s.slots (slot (2 ^ n) s.write) command,
      producer := .publishing command }, ?_, hc, .inr ⟨hempty, rfl, by simp [pushRank]⟩⟩
    simp only [produce, hp]
  case targeting wait target =>
    refine ⟨{ s with waitTarget := target, producer := .flagging wait target }, ?_, hc,
      .inr ⟨hempty, hpush, by simp [pushRank]⟩⟩
    simp only [produce, hp]
  case flagging wait target =>
    refine ⟨{ s with producerWaiting := true, producer := .testing wait target false }, ?_, hc,
      .inr ⟨hempty, hpush, by simp [pushRank]⟩⟩
    simp only [produce, hp]
  case unflagging wait result =>
    refine ⟨{ s with producerWaiting := false, producer := .unlocking wait result }, ?_, hc,
      .inr ⟨hempty, hpush, by simp [pushRank]⟩⟩
    simp only [produce, hp]
  all_goals exact absurd hpush Bool.false_ne_true

theorem wakesConsumer_of_inPush (hn : n ≤ 31) (hordered : s.Ordered n) (hlocked : s.Locked)
    (h : s.Awake n) (hc : s.consumer = .asleep) (hempty : s.write = s.read)
    (hpush : s.producer.inPush) : s.WakesConsumer n := by
  induction hrank : pushRank s.producer using Nat.strong_induction_on generalizing s with
  | _ rank ih =>
    obtain ⟨s', hstep, hc', hnext⟩ := push_progress hn hordered hlocked h hc hempty hpush
    refine WakesConsumer.of_produce ?_ hstep
    rcases hnext with hwakes | ⟨hempty', hpush', hless⟩
    · exact wakesConsumer (hlocked.produce hstep) hc' hwakes
    · exact ih _ (hrank ▸ hless) (hordered.produce hn hstep) (hlocked.produce hstep)
        (h.produce hn hordered hlocked hstep) hc' hempty' hpush' rfl

structure Safe (n : Nat) (s : Queue T) : Prop where
  order : List.IsPrefix s.popped s.pushed
  slots : ∀ i command, s.popped.length ≤ i → s.pushed[i]? = some command →
    s.slots (slot (2 ^ n) (counter 32 i)) = command
  not_both : ∀ wait target, s.producer = .asleep wait target → s.consumer ≠ .asleep
  producer : ∀ wait target, s.producer = .asleep wait target → hasReached s.read target →
    s.WakesProducer n
  consumer : s.consumer = .asleep → s.write ≠ s.read ∨ s.shutdown → s.WakesConsumer n
  alone : ∀ wait target, s.producer = .asleep wait target → s.consumer ≠ .stopped
  stopped : s.consumer = .stopped → ∃ k, s.pushedBefore = some k ∧ k ≤ s.popped.length

theorem safe (hn : n ≤ 31) (hordered : s.Ordered n) (hlocked : s.Locked) (h : s.Awake n)
    (hending : s.Ending) : s.Safe n := by
  refine ⟨?_, ?_, fun _ _ => h.not_both hn hordered, ?_, ?_, ?_, ?_⟩
  · obtain ⟨queued, hpushed, -⟩ := hordered.popped
    exact ⟨queued, hpushed.symm⟩
  · intro i command hi hsome
    rw [slot, slot_counter (by omega)]
    exact hordered.slots i command hi hsome
  · exact fun wait target hp hreached =>
      wakesProducer hlocked hp (h.producer wait target hp hreached)
  · intro hc hcondition
    by_cases hempty : s.write = s.read
    · -- The flag is raised and nothing is there: the last command is on its way.
      have hraised := hcondition.resolve_left (not_not_intro hempty)
      obtain ⟨k, hk⟩ := Option.isSome_iff_exists.1 (hending.shutdown ▸ hraised)
      have hcount := (hordered.write_eq_read_iff hn).1 hempty
      have hlate := hending.fallsAsleep (by rw [hc]; rfl) k hk
      rcases hending.pushing k hk with ⟨hpush, -⟩ | ⟨-, hlength⟩
      · exact wakesConsumer_of_inPush hn hordered hlocked h hc hempty hpush
      · omega
    · exact wakesConsumer hlocked hc (h.consumer hc hempty)
  · intro wait target hp hc
    -- A consumer that has stopped has popped what such a wait is for.
    obtain ⟨k, hk, hle⟩ := hending.stops (by rw [hc]; rfl)
    have htarget := h.goal wait target (by rw [hp]; rfl)
    have hcount : s.pushed.length = k := by
      simpa [hp, ProducerPoint.afterPush] using (hending.pushing k hk).imp And.right id
    have hreached : hasReached s.read target := by
      rw [htarget, hordered.read, hasReached_iff hn wait hordered.le hordered.le_add]
      cases wait <;> simp only [Wait.goal] <;> have := Nat.two_pow_pos n <;> omega
    have hwakes := h.producer wait target hp hreached
    simp [hc, ConsumerPoint.wakes, ConsumerPoint.stored] at hwakes
  · exact fun hc => hending.stops (by rw [hc]; rfl)

end Queue

open Queue

theorem sound_run (hn : n ≤ 31)
    (h : (queue (2 ^ n)).ReachableBy (fun (s : Queue T) a => s.OnTime a) s) :
    s.Ordered n ∧ s.Locked ∧ s.Awake n ∧ s.Ending := by
  refine h.invariant (P := fun s => s.Ordered n ∧ s.Locked ∧ s.Awake n ∧ s.Ending) ?_ ?_
  · rintro _ ⟨slots, rfl⟩
    refine ⟨ordered_init slots, ⟨?_, ?_, rfl, nofun, nofun, nofun⟩, ⟨nofun, nofun, nofun, nofun⟩,
      ⟨rfl, nofun, nofun, nofun, nofun⟩⟩
    · exact iff_of_false nofun nofun
    · exact iff_of_false nofun nofun
  · rintro s a s' ⟨hordered, hlocked, hawake, hending⟩ hok hstep
    exact ⟨hordered.act hn hstep, hlocked.act hstep, hawake.act hn hordered hlocked hstep,
      hending.act hn hordered hok hstep⟩

theorem shutdown_drops (hn : n ≤ 31) (hordered : s.Ordered n) {wakeCommand : T}
    (hp : s.producer = .shuttingDown wakeCommand) (hc : s.consumer.sawEmpty)
    (hne : s.write ≠ s.read) :
    ∃ rest s', (queue (2 ^ n)).run s (.produce :: rest) = some s' ∧ ¬ s'.Safe n := by
  have hlt : s.popped.length < s.pushed.length := by
    have hdiff := (hordered.write_eq_read_iff hn).not.1 hne
    have hle := hordered.le
    omega
  have hunsafe : ∀ t : Queue T, t.consumer = .stopped → t.popped = s.popped →
      t.pushedBefore = some s.pushed.length → ¬ t.Safe n := by
    intro t hstopped hpopped hbefore hsafe
    obtain ⟨k, hk, hle⟩ := hsafe.stopped hstopped
    rw [hbefore] at hk
    cases hk
    rw [hpopped] at hle
    omega
  have hraise : s.produce (2 ^ n) = some { s with
      shutdown := true, pushedBefore := some s.pushed.length, waited := false,
      producer := .pushing wakeCommand } := by simp only [produce, hp]
  cases hcons : s.consumer <;> rw [hcons] at hc <;> try exact absurd hc Bool.false_ne_true
  case spinningShutdown spin =>
    refine ⟨[.consume], { s with
      shutdown := true, pushedBefore := some s.pushed.length, waited := false,
      producer := .pushing wakeCommand, consumer := .stopped }, ?_, hunsafe _ rfl rfl rfl⟩
    simp only [System.run, queue, act, hraise, Option.bind_some, consume, hcons, if_true]
  case checkingShutdown =>
    refine ⟨[.consume, .consume], { s with
      shutdown := true, pushedBefore := some s.pushed.length, waited := false,
      producer := .pushing wakeCommand, consumer := .stopped, consumerSleeping := false }, ?_,
      hunsafe _ rfl rfl rfl⟩
    simp only [System.run, queue, act, hraise, Option.bind_some, consume, hcons, if_true,
      Bool.false_eq_true, if_false]

/-- A queue of up to `2 ^ 31` slots keeps its promises as long as the shutdown flag is raised on
    time, and where it is not the consumer may stop before the commands are popped. -/
theorem queue_safe (hn : n ≤ 31) :
    (∀ s : Queue T, (queue (2 ^ n)).ReachableBy (fun s a => s.OnTime a) s → s.Safe n) ∧
    ∀ s : Queue T, (queue (2 ^ n)).ReachableBy (fun s a => s.OnTime a) s →
      ∀ a, ¬ s.OnTime a →
        ∃ rest s', (queue (2 ^ n)).run s (a :: rest) = some s' ∧ ¬ s'.Safe n := by
  refine ⟨fun s hs => ?_, fun s hs a hlate => ?_⟩
  · obtain ⟨hordered, hlocked, hawake, hending⟩ := sound_run hn hs
    exact safe hn hordered hlocked hawake hending
  · obtain ⟨hordered, -, -, -⟩ := sound_run hn hs
    cases a <;> simp only [OnTime, not_true_eq_false] at hlate
    case produce =>
      simp only [Classical.not_forall] at hlate
      obtain ⟨wakeCommand, hp, hc, hne⟩ := hlate
      exact shutdown_drops hn hordered hp hc hne

theorem marking_of_spinning {capacity spin : Nat} {s : Queue T} (hc : s.consumer = .spinning spin)
    (hempty : s.write = s.read) (hraised : s.shutdown = false)
    (h : (queue capacity).ReachableBy (fun s a => s.OnTime a) s) :
    (queue capacity).ReachableBy (fun s a => s.OnTime a) { s with consumer := .marking } := by
  have hok : ∀ t : Queue T, t.OnTime .consume := fun _ => trivial
  -- Every iteration ends in the next one, also where the flag is read.
  have hnext : (queue capacity).ReachableBy (fun s a => s.OnTime a)
      { s with consumer := nextSpin spin } := by
    by_cases hload : spin % 256 = 255
    · have hreads : (queue capacity).ReachableBy (fun s a => s.OnTime a)
          { s with consumer := .spinningShutdown spin } := by
        refine h.step (hok _) ?_
        simp [queue, act, consume, hc, hempty, hload]
      refine hreads.step (hok _) ?_
      simp [queue, act, consume, hraised]
    · refine h.step (hok _) ?_
      simp [queue, act, consume, hc, hempty, hload]
  unfold nextSpin at hnext
  split at hnext
  · exact marking_of_spinning (s := { s with consumer := .spinning (spin + 1) }) rfl hempty
      hraised hnext
  · exact hnext
termination_by consumerSpinIterations - spin

theorem spinning_add {capacity spin : Nat} {ok : Queue T → Action T → Prop}
    (hok : ∀ t : Queue T, ok t .consume) {s : Queue T} (hc : s.consumer = .spinning spin)
    (hempty : s.write = s.read) (h : (queue capacity).ReachableBy ok s) :
    ∀ k, spin % 256 + k ≤ 255 → spin + k < consumerSpinIterations →
      (queue capacity).ReachableBy ok { s with consumer := .spinning (spin + k) }
  | 0, _, _ => by
    rwa [Nat.add_zero, ← hc]
  | k + 1, hload, hlast => by
    refine (spinning_add hok hc hempty h k (by omega) (by omega)).step (hok _) ?_
    have hnoload : ¬(spin + k) % 256 = 255 := by omega
    simp [queue, act, consume, hempty, hnoload, nextSpin, Nat.add_assoc, hlast]

/-- As a test of one step. -/
def Queue.onTime (s : Queue T) : Action T → Bool
  | .produce =>
    match s.producer with
    | .shuttingDown _ => !s.consumer.sawEmpty || s.write == s.read
    | _ => true
  | _ => true

theorem onTime_of_check (s : Queue T) (a : Action T) (h : s.onTime a = true) : s.OnTime a := by
  cases a with
  | produce =>
    intro wakeCommand hp hc
    simpa [onTime, hp, hc] using h
  | _ => trivial

/-- Over two slots the third `Push` sleeps until the first command is popped and takes its slot;
    then the ring is emptied and the consumer waits. -/
def thirdPush : List (Action Nat) :=
  List.flatten [[.push 1], List.replicate 4 .produce, [.push 2], List.replicate 4 .produce,
    [.push 3], List.replicate 6 .produce,
    [.waitForCommand, .consume, .front, .pop], List.replicate 5 .consume,
    List.replicate 8 .produce,
    [.waitForCommand, .consume, .front, .pop, .consume],
    [.waitForCommand, .consume, .front, .pop, .consume], [.waitForCommand]]

/-- The consumer falls asleep, is woken by a `Push` and then stopped. -/
def lastPush : List (Action Nat) :=
  List.flatten [List.replicate 4 .consume, [.push 4], List.replicate 6 .produce,
    [.shutdown 0], List.replicate 6 .produce, List.replicate 4 .consume,
    [.front, .pop, .consume], [.waitForCommand, .consume, .front, .pop, .consume],
    [.waitForCommand]]

def emptyQueue : Queue Nat := { slots := fun _ => 0 }

def drainedQueue : Queue Nat := ((queue 2).runIf onTime emptyQueue thirdPush).getD emptyQueue

/-- The producer has slept before the third command, and the consumer sleeps before the fourth. -/
example : ((queue 2).run emptyQueue (thirdPush.take 17)).map (·.producer) =
      some (.asleep (.slot 3) 1) ∧
    ((queue 2).run { drainedQueue with consumer := .marking } (lastPush.take 4)).map
      (·.consumer) = some .asleep := by decide +kernel

theorem queue_safe_stopped : ∃ s : Queue Nat,
    (queue 2).ReachableBy (fun s a => s.OnTime a) s ∧ s.consumer = .stopped ∧
      s.popped = [1, 2, 3, 4, 0] ∧ s.pushedBefore = some 4 ∧ s.Safe 1 := by
  have hdrained : (queue 2).ReachableBy (fun s a => s.OnTime a) drainedQueue := by
    have hinit : (queue 2).ReachableBy (fun s a => s.OnTime a) emptyQueue := .init ⟨_, rfl⟩
    have hsome : ((queue 2).runIf onTime emptyQueue thirdPush).isSome = true := by decide +kernel
    obtain ⟨s, hs⟩ := Option.isSome_iff_exists.1 hsome
    rw [drainedQueue, hs, Option.getD_some]
    exact hinit.runIf onTime_of_check hs
  have hmarking : (queue 2).ReachableBy (fun s a => s.OnTime a)
      { drainedQueue with consumer := .marking } :=
    marking_of_spinning (show _ = ConsumerPoint.spinning 0 by decide +kernel) (by decide +kernel)
      (by decide +kernel) hdrained
  have hrun : ((queue 2).runIf onTime { drainedQueue with consumer := .marking } lastPush).map
      (fun s => (s.consumer, decide (s.write = s.read), s.shutdown, s.popped, s.pushedBefore)) =
        some (.spinning 0, true, true, [1, 2, 3, 4, 0], some 4) := by decide +kernel
  obtain ⟨s, hs, hfacts⟩ := Option.map_eq_some_iff.1 hrun
  simp only [Prod.mk.injEq, decide_eq_true_eq] at hfacts
  obtain ⟨hspinning, hempty, hraised, hpopped, hbefore⟩ := hfacts
  -- The flag is read in the 256th iteration.
  have hloads := spinning_add (fun _ => trivial) hspinning hempty
    (hmarking.runIf onTime_of_check hs) 255 (by decide) (by decide)
  have hreads : (queue 2).ReachableBy (fun s a => s.OnTime a)
      { s with consumer := .spinningShutdown 255 } := by
    refine hloads.step (a := .consume) trivial ?_
    simp [queue, act, consume, hempty]
  have hreach : (queue 2).ReachableBy (fun s a => s.OnTime a) { s with consumer := .stopped } := by
    refine hreads.step (a := .consume) trivial ?_
    simp [queue, act, consume, hraised]
  exact ⟨_, hreach, rfl, hpopped, hbefore, (queue_safe (n := 1) (by decide)).1 _ hreach⟩

/-- The consumer finds the ring empty; then a command is pushed and the flag raised; then the
    consumer finds the flag and stops. -/
theorem late_shutdown_not_safe :
    ¬ ∀ s : Queue Nat, (queue (2 ^ 3)).Reachable s → s.Safe 3 := by
  intro h
  have hspinning : (queue 8).ReachableBy (fun _ _ => True)
      { emptyQueue with consumer := .spinning 0 } :=
    .step (s := emptyQueue) (a := .waitForCommand) (.init ⟨_, rfl⟩) trivial rfl
  have hloads := spinning_add (fun _ => trivial) rfl rfl hspinning 255 (by decide) (by decide)
  have hrun : ((queue 8).run { emptyQueue with consumer := .spinning 255 }
      (.consume :: .push 7 :: List.replicate 4 .produce ++ [.shutdown 0, .produce, .consume])).map
        (fun s => (s.consumer, s.popped, s.pushedBefore)) = some (.stopped, [], some 1) := by
    decide +kernel
  obtain ⟨s, hs, hfacts⟩ := Option.map_eq_some_iff.1 hrun
  simp only [Prod.mk.injEq] at hfacts
  obtain ⟨hstopped, hpopped, hbefore⟩ := hfacts
  obtain ⟨k, hk, hle⟩ := (h s (hloads.reachable.run hs)).stopped hstopped
  rw [hbefore] at hk
  cases hk
  rw [hpopped] at hle
  exact absurd hle (by decide)

end DolphinXR.Vulkan
