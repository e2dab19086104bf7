import DolphinXR.VideoBackends.RecordingQueue

/- How the two sides sleep. The producer publishes its target and its flag before it looks at the
   read index, and the consumer moves the read index before it looks at the flag; the consumer
   raises its flag before it looks at the write index, and the producer moves the write index before
   it looks at that flag. So a side that sleeps although what it waits for has come is about to be
   woken by the other. -/
namespace DolphinXR.Vulkan
open Lib

variable {T : Type} {n : Nat} {s s' : Queue T}

/-! ### What a point says of the shared flags -/

namespace ProducerPoint

def holdsMutex : ProducerPoint T → Bool
  | .targeting _ _ | .flagging _ _ | .testing _ _ _ | .unflagging _ _ | .unlocking _ _ => true
  | _ => false

def isFlagged : ProducerPoint T → Bool
  | .testing _ _ _ | .asleep _ _ | .relocking _ _ _ | .unflagging _ _ => true
  | _ => false

/-- What is waited for inside `SleepUntilRead`. -/
def waits : ProducerPoint T → Option (Wait T × U32)
  | .locking wait target | .targeting wait target | .flagging wait target
  | .testing wait target _ | .asleep wait target | .relocking wait target _ => some (wait, target)
  | _ => none

/-- The target that has been published. -/
def published : ProducerPoint T → Option U32
  | .flagging _ target | .testing _ target _ | .asleep _ target | .relocking _ target _ =>
    some target
  | _ => none

def wakes : ProducerPoint T → Bool
  | .checkingSleeper | .notifying => true
  | _ => false

end ProducerPoint

namespace ConsumerPoint

def holdsMutex : ConsumerPoint → Bool
  | .notifying | .unlocking => true
  | _ => false

def isMarked : ConsumerPoint → Bool
  | .rereading | .checkingShutdown | .waiting | .asleep | .unmarking _ => true
  | _ => false

/-- The index that `Pop` has stored. -/
def stored : ConsumerPoint → Option U32
  | .checkingWaiter read | .checkingTarget read => some read
  | _ => none

def wakes (target : U32) (point : ConsumerPoint) : Prop :=
  point = .locking ∨ point = .notifying ∨ point.stored = some target

end ConsumerPoint

/-- The read index that a wait is for, when `pushed` commands have been pushed. -/
def Wait.goal (n pushed : Nat) : Wait T → Nat
  | .slot _ => pushed + 1 - 2 ^ n
  | .empty _ => pushed

namespace Queue

structure Locked (s : Queue T) : Prop where
  producerMutex : s.waitMutex = some .producer ↔ s.producer.holdsMutex
  consumerMutex : s.waitMutex = some .consumer ↔ s.consumer.holdsMutex
  waiting : s.producerWaiting = s.producer.isFlagged
  target : ∀ target, s.producer.published = some target → s.waitTarget = target
  sleeping : s.consumer.isMarked → s.consumerSleeping
  stored : ∀ read, s.consumer.stored = some read → s.read = read

structure Awake (n : Nat) (s : Queue T) : Prop where
  goal : ∀ wait target, s.producer.waits = some (wait, target) →
    target = counter 32 (wait.goal n s.pushed.length)
  empty : ∀ timed target spin, s.producer = .spinning timed target spin →
    target = counter 32 s.pushed.length
  producer : ∀ wait target, s.producer = .asleep wait target → hasReached s.read target →
    s.consumer.wakes target
  consumer : s.consumer = .asleep → s.write ≠ s.read → s.producer.wakes

/-! ### The flags -/

theorem nextSpin_cases (spin : Nat) :
    nextSpin spin = .spinning (spin + 1) ∨ nextSpin spin = .marking := by
  unfold nextSpin
  split
  · exact .inl rfl
  · exact .inr rfl

theorem Locked.produce (h : s.Locked) (hstep : s.produce (2 ^ n) = some s') : s'.Locked := by
  obtain ⟨hproducer, hconsumer, hwaiting, htarget, hsleeping, hstored⟩ := h
  cases hp : s.producer <;> simp only [Queue.produce, hp] at hstep
  case notifying =>
    rw [hp] at hproducer hwaiting htarget
    cases hstep
    cases hc : s.consumer <;> rw [hc] at hconsumer hsleeping hstored <;>
      exact ⟨hproducer, hconsumer, hwaiting, htarget, hsleeping, hstored⟩
  case unlocking wait result =>
    rw [hp] at hproducer hwaiting
    have hfree : ¬ s.consumer.holdsMutex := by
      rw [← hconsumer, hproducer.2 rfl]
      rintro ⟨⟩
    cases hstep
    cases wait <;>
      exact ⟨iff_of_false (by rintro ⟨⟩) (by rintro ⟨⟩), iff_of_false (by rintro ⟨⟩) hfree,
        hwaiting, by rintro _ ⟨⟩, hsleeping, hstored⟩
  all_goals
    repeat' split at hstep
    all_goals cases hstep
    all_goals
      constructor <;> first
        | assumption
        | (rintro ⟨⟩; done)
        | (rintro _ ⟨⟩; done)
        | simp_all [ProducerPoint.holdsMutex, ProducerPoint.isFlagged, ProducerPoint.published]

theorem Locked.consume (h : s.Locked) (hstep : s.consume = some s') : s'.Locked := by
  obtain ⟨hproducer, hconsumer, hwaiting, htarget, hsleeping, hstored⟩ := h
  cases hc : s.consumer <;> simp only [Queue.consume, hc] at hstep
  case notifying =>
    rw [hc] at hconsumer hsleeping
    cases hstep
    cases hp : s.producer <;> rw [hp] at hproducer hwaiting htarget <;>
      exact ⟨hproducer, hconsumer, hwaiting, htarget, by rintro ⟨⟩, by rintro _ ⟨⟩⟩
  case' spinning spin => rcases nextSpin_cases spin with hnext | hnext <;> rw [hnext] at hstep
  case' spinningShutdown spin =>
    rcases nextSpin_cases spin with hnext | hnext <;> rw [hnext] at hstep
  all_goals
    repeat' split at hstep
    all_goals cases hstep
    all_goals
      constructor <;> first
        | assumption
        | (rintro ⟨⟩; done)
        | (rintro _ ⟨⟩; done)
        | simp_all [ConsumerPoint.holdsMutex, ConsumerPoint.isMarked, ConsumerPoint.stored]

theorem Locked.act {a : Action T} (h : s.Locked) (hstep : s.act (2 ^ n) a = some s') :
    s'.Locked := by
  cases a <;> simp only [Queue.act] at hstep
  case produce => exact h.produce hstep
  case consume => exact h.consume hstep
  all_goals
    obtain ⟨hproducer, hconsumer, hwaiting, htarget, hsleeping, hstored⟩ := h
    repeat' split at hstep
    all_goals cases hstep
    all_goals
      constructor <;> first
        | assumption
        | (rintro ⟨⟩; done)
        | (rintro _ ⟨⟩; done)
        | simp_all [ProducerPoint.holdsMutex, ProducerPoint.isFlagged, ProducerPoint.published,
          ConsumerPoint.holdsMutex, ConsumerPoint.isMarked, ConsumerPoint.stored]

theorem Ordered.write_eq_read_iff (hn : n ≤ 31) (h : s.Ordered n) :
    s.write = s.read ↔ s.pushed.length = s.popped.length := by
  have hpow : 2 ^ n ≤ 2 ^ 31 := Nat.pow_le_pow_right (by decide) hn
  have hroom := h.le_add
  rw [h.write, h.read, counter_eq_iff h.le (by omega)]

theorem hasReached_iff (hn : n ≤ 31) (wait : Wait T) {r : Nat}
    (hle : r ≤ s.pushed.length) (hroom : s.pushed.length ≤ r + 2 ^ n) :
    hasReached (counter 32 r) (counter 32 (wait.goal n s.pushed.length)) ↔
      wait.goal n s.pushed.length ≤ r := by
  have hpow : 2 ^ n ≤ 2 ^ 31 := Nat.pow_le_pow_right (by decide) hn
  have hpos : 0 < 2 ^ n := Nat.two_pow_pos n
  have hgoal : wait.goal n s.pushed.length ≤ s.pushed.length ∧
      s.pushed.length < wait.goal n s.pushed.length + 2 ^ n := by
    cases wait with
    | slot command => simp only [Wait.goal]; omega
    | empty timed => simp only [Wait.goal]; omega
  rw [hasReached, decide_eq_true_eq]
  exact sign_counter (w := 31) (by omega) (by omega)

theorem Ordered.slotTarget_eq (hn : n ≤ 31) (h : s.Ordered n)
    (hfull : looksFull (2 ^ n) s.write s.read) :
    slotTarget (2 ^ n) s.write = counter 32 (s.pushed.length + 1 - 2 ^ n) := by
  rw [h.read, looksFull_iff hn h h.le h.le_add] at hfull
  have hback : counter 32 s.pushed.length - BitVec.ofNat 32 (2 ^ n) =
      counter 32 (s.pushed.length - 2 ^ n) := counter_sub (by omega)
  rw [slotTarget, h.write, hback, counter_succ]
  congr 1
  omega

/-! ### The producer's sleep, and the consumer's -/

theorem Awake.of_running (hwaits : s.producer.waits = none)
    (hspin : ∀ timed target spin, s.producer ≠ .spinning timed target spin)
    (hconsumer : s.consumer = .asleep → s.write ≠ s.read → s.producer.wakes) : s.Awake n where
  goal wait target h := by cases hwaits.symm.trans h
  empty timed target spin h := absurd h (hspin timed target spin)
  producer wait target h := by
    rw [h] at hwaits
    cases hwaits
  consumer := hconsumer

theorem Awake.produce (hn : n ≤ 31) (hordered : s.Ordered n) (hlocked : s.Locked) (h : s.Awake n)
    (hstep : s.produce (2 ^ n) = some s') : s'.Awake n := by
  obtain ⟨hgoal, hempty, hproducer, hconsumer⟩ := h
  cases hp : s.producer <;> simp only [Queue.produce, hp] at hstep
  case rereading command =>
    split at hstep <;> cases hstep
    · next hfull =>
      refine ⟨?_, by rintro _ _ _ ⟨⟩, by rintro _ _ ⟨⟩, fun hc hne => ?_⟩
      · intro wait target hwaits
        cases hwaits
        exact hordered.slotTarget_eq hn hfull
      · exact absurd (hconsumer hc hne) (by simp [hp, ProducerPoint.wakes])
    · exact .of_running rfl (by simp) fun hc hne =>
        absurd (hconsumer hc hne) (by simp [hp, ProducerPoint.wakes])
  case publishing command =>
    cases hstep
    exact .of_running rfl (by simp) (fun _ _ => rfl)
  case checkingSleeper =>
    split at hstep <;> cases hstep
    · exact .of_running rfl (by simp) (fun _ _ => rfl)
    · next hawake =>
      -- A consumer that sleeps has raised its flag.
      refine .of_running rfl (by simp) fun hc => ?_
      exact absurd (hlocked.sleeping (by rw [show s.consumer = .asleep from hc]; rfl)) hawake
  case notifying =>
    cases hstep
    refine .of_running rfl (by simp) fun hc => ?_
    dsimp only at hc
    split at hc
    · cases hc
    · next hne => exact absurd hc hne
  case testing wait target last =>
    have hquiet : s.consumer = .asleep → s.write ≠ s.read → False := fun hc hne =>
      absurd (hconsumer hc hne) (by simp [hp, ProducerPoint.wakes])
    split at hstep
    · cases hstep
      exact .of_running rfl (by simp) (fun hc hne => (hquiet hc hne).elim)
    · next hnot =>
      split at hstep <;> cases hstep
      · exact .of_running rfl (by simp) (fun hc hne => (hquiet hc hne).elim)
      · refine ⟨fun w t hwaits => hgoal w t (hp ▸ hwaits), by rintro _ _ _ ⟨⟩, ?_,
          fun hc hne => (hquiet hc hne).elim⟩
        intro w t heq hreached
        cases heq
        exact absurd hreached hnot
  case unlocking wait result =>
    cases hstep
    cases wait <;> exact .of_running rfl (by rintro _ _ _ ⟨⟩) fun hc hne =>
        absurd (hconsumer hc hne) (by simp [hp, ProducerPoint.wakes])
  all_goals
    have hquiet : s.consumer = .asleep → s.write ≠ s.read → False := fun hc hne =>
      absurd (hconsumer hc hne) (by simp [hp, ProducerPoint.wakes])
    repeat' split at hstep
    all_goals cases hstep
    all_goals
      refine ⟨?_, ?_, by rintro _ _ ⟨⟩, fun hc hne => (hquiet hc hne).elim⟩
      · first
          | (rintro _ _ ⟨⟩; done)
          | exact fun wait target hwaits => hgoal wait target (hp ▸ hwaits)
          | simp_all [ProducerPoint.waits, Wait.goal]
      · first
          | (rintro _ _ _ ⟨⟩; done)
          | simp_all [ProducerPoint.waits, Wait.goal]

theorem Awake.congr (h : s.Awake n) (hproducer : s'.producer = s.producer)
    (hindices : s'.write = s.write ∧ s'.read = s.read ∧ s'.pushed = s.pushed)
    (hwakes : ∀ wait target, s.producer = .asleep wait target → s.consumer.wakes target →
      s'.consumer.wakes target)
    (hasleep : s'.consumer = .asleep → s.write = s.read) : s'.Awake n := by
  obtain ⟨hwrite, hread, hpushed⟩ := hindices
  refine ⟨?_, ?_, ?_, ?_⟩
  · rw [hproducer, hpushed]
    exact h.goal
  · rw [hproducer, hpushed]
    exact h.empty
  · rw [hproducer, hread]
    exact fun wait target hp hreached => hwakes wait target hp (h.producer wait target hp hreached)
  · rw [hwrite, hread]
    exact fun hc hne => absurd (hasleep hc) hne

theorem Awake.consume (hlocked : s.Locked) (h : s.Awake n) (hstep : s.consume = some s') :
    s'.Awake n := by
  cases hc : s.consumer <;> simp only [Queue.consume, hc] at hstep
  case checkingWaiter read =>
    split at hstep <;> cases hstep
    · exact h.congr rfl ⟨rfl, rfl, rfl⟩
        (by simp [hc, ConsumerPoint.wakes, ConsumerPoint.stored]) (by rintro ⟨⟩)
    · next hoff =>
      -- A producer that sleeps has raised its flag.
      refine h.congr rfl ⟨rfl, rfl, rfl⟩ (fun wait target hp => ?_) (by rintro ⟨⟩)
      rw [hlocked.waiting, hp] at hoff
      exact absurd rfl hoff
  case checkingTarget read =>
    split at hstep <;> cases hstep
    · exact h.congr rfl ⟨rfl, rfl, rfl⟩ (fun _ _ _ _ => .inl rfl) (by rintro ⟨⟩)
    · next hother =>
      -- A producer that sleeps has published its target.
      refine h.congr rfl ⟨rfl, rfl, rfl⟩ (fun wait target hp hwakes => ?_) (by rintro ⟨⟩)
      rw [hlocked.target target (by rw [hp]; rfl)] at hother
      have hread : read = target := by
        simpa [hc, ConsumerPoint.wakes, ConsumerPoint.stored] using hwakes
      exact absurd hread hother
  case locking =>
    split at hstep <;> cases hstep
    exact h.congr rfl ⟨rfl, rfl, rfl⟩ (fun _ _ _ _ => .inr (.inl rfl)) (by rintro ⟨⟩)
  case notifying =>
    cases hstep
    obtain ⟨hgoal, hempty, -, -⟩ := h
    cases hp : s.producer <;> rw [hp] at hgoal hempty
    case asleep wait target => exact ⟨fun w t hwaits => hgoal w t hwaits, by rintro _ _ _ ⟨⟩,
      by rintro _ _ ⟨⟩, by rintro ⟨⟩⟩
    all_goals exact ⟨hgoal, hempty, by rintro _ _ ⟨⟩, by rintro ⟨⟩⟩
  case waiting =>
    split at hstep <;> cases hstep
    · exact h.congr rfl ⟨rfl, rfl, rfl⟩
        (by simp [hc, ConsumerPoint.wakes, ConsumerPoint.stored]) (by rintro ⟨⟩)
    · next hempty =>
      exact h.congr rfl ⟨rfl, rfl, rfl⟩ (by simp [hc, ConsumerPoint.wakes, ConsumerPoint.stored])
        fun _ => Decidable.not_not.1 hempty
  case unmarking result =>
    cases hstep
    refine h.congr rfl ⟨rfl, rfl, rfl⟩
      (by simp [hc, ConsumerPoint.wakes, ConsumerPoint.stored]) ?_
    cases result <;> rintro ⟨⟩
  case' spinning spin => rcases nextSpin_cases spin with hnext | hnext <;> rw [hnext] at hstep
  case' spinningShutdown spin =>
    rcases nextSpin_cases spin with hnext | hnext <;> rw [hnext] at hstep
  all_goals
    repeat' split at hstep
    all_goals
      cases hstep <;> exact h.congr rfl ⟨rfl, rfl, rfl⟩
        (by simp [hc, ConsumerPoint.wakes, ConsumerPoint.stored]) (by rintro ⟨⟩)

theorem Awake.pop (hn : n ≤ 31) (hordered : s.Ordered n) (h : s.Awake n)
    (hc : s.consumer = .holding) {popped : List T} :
    ({ s with
      popped, read := s.read + 1, consumer := .checkingWaiter (s.read + 1) } : Queue T).Awake n := by
  refine ⟨h.goal, h.empty, fun wait target hp hreached => ?_, by rintro ⟨⟩⟩
  have htarget := h.goal wait target (by rw [show s.producer = .asleep wait target from hp]; rfl)
  have hbefore : ¬ hasReached s.read target := fun hold =>
    absurd (h.producer wait target hp hold)
      (by simp [hc, ConsumerPoint.wakes, ConsumerPoint.stored])
  have hlt := hordered.holding hc
  have hroom := hordered.le_add
  have hnext : s.read + 1 = counter 32 (s.popped.length + 1) := by
    rw [hordered.read, counter_succ]
  rw [htarget, hordered.read, hasReached_iff hn wait hordered.le hroom] at hbefore
  have hafter : hasReached (counter 32 (s.popped.length + 1))
      (counter 32 (wait.goal n s.pushed.length)) := by
    rw [← hnext, ← htarget]
    exact hreached
  rw [hasReached_iff hn wait hlt (by omega)] at hafter
  have hexact : wait.goal n s.pushed.length = s.popped.length + 1 := by omega
  refine .inr (.inr ?_)
  show some (s.read + 1) = some target
  rw [hnext, htarget, hexact]

theorem Awake.act (hn : n ≤ 31) (hordered : s.Ordered n) (hlocked : s.Locked) (h : s.Awake n)
    {a : Action T} (hstep : s.act (2 ^ n) a = some s') : s'.Awake n := by
  cases a <;> simp only [Queue.act] at hstep
  case produce => exact h.produce hn hordered hlocked hstep
  case consume => exact h.consume hlocked hstep
  case pop =>
    split at hstep <;> cases hstep
    next hc => exact h.pop hn hordered hc
  case front =>
    split at hstep
    · next hc =>
      split at hstep <;> cases hstep
      · exact h
      · exact h.congr rfl ⟨rfl, rfl, rfl⟩
          (by simp [hc, ConsumerPoint.wakes, ConsumerPoint.stored]) (by rintro ⟨⟩)
    · cases hstep
  case waitForCommand =>
    split at hstep <;> cases hstep
    next hc =>
      exact h.congr rfl ⟨rfl, rfl, rfl⟩
        (by simp [hc, ConsumerPoint.wakes, ConsumerPoint.stored]) (by rintro ⟨⟩)
  case wakeConsumer =>
    split at hstep <;> cases hstep
    next hc =>
      exact h.congr rfl ⟨rfl, rfl, rfl⟩
        (by simp [hc, ConsumerPoint.wakes, ConsumerPoint.stored]) (by rintro ⟨⟩)
  all_goals
    obtain ⟨hgoal, hempty, -, hconsumer⟩ := h
    split at hstep <;> cases hstep
    rename_i hp
    refine ⟨?_, ?_, by rintro _ _ ⟨⟩, fun hc hne => absurd (hconsumer hc hne) ?_⟩ <;>
      simp_all [ProducerPoint.waits, ProducerPoint.wakes, hordered.write]

end Queue
end DolphinXR.Vulkan
