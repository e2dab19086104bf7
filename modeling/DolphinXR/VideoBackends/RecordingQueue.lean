import DolphinXR.Lib.Transition
import DolphinXR.Lib.WrappingIndex

/- The recording queue of the Vulkan backend (VideoBackends/Vulkan/VKRecordingQueue.h) as a step
   relation. The producer and the consumer are program counters and take turns in any order, one
   access to a shared atomic, to the mutex or to a slot at a time; an index that its own side alone
   writes is read without a step of its own. Both may wake up without a notification, and a wait
   with a timeout may run out whenever it sleeps.

   Three histories are kept beside the state: the commands pushed, those popped, and how many had
   been pushed when `Shutdown` was called.

   The indices are the numbers of the commands pushed and popped, wrapped, and the slots between
   them hold the commands that are not popped yet, so that what comes out is the beginning of what
   went in. The producer may look at an old read index: it only makes the ring seem fuller than it
   is. -/
namespace DolphinXR.Vulkan
open Lib

abbrev U32 := BitVec 32

inductive Side where
  | producer
  | consumer
  deriving DecidableEq

/-- What a call of `SleepUntilRead` is for: `Push` waits for a slot, `WaitForEmpty` and
    `WaitForEmptyFor` for an empty ring. -/
inductive Wait (T : Type) where
  | slot (command : T)
  | empty (timed : Bool)
  deriving DecidableEq

inductive ProducerPoint (T : Type) where
  | idle
  | shuttingDown (wakeCommand : T)
  | pushing (command : T)
  | rereading (command : T)
  | filling (command : T)
  | publishing (command : T)
  | checkingSleeper
  | notifying
  | spinning (timed : Bool) (target : U32) (spin : Nat)
  | locking (wait : Wait T) (target : U32)
  | targeting (wait : Wait T) (target : U32)
  | flagging (wait : Wait T) (target : U32)
  | testing (wait : Wait T) (target : U32) (last : Bool)
  | asleep (wait : Wait T) (target : U32)
  | relocking (wait : Wait T) (target : U32) (last : Bool)
  | unflagging (wait : Wait T) (result : Bool)
  | unlocking (wait : Wait T) (result : Bool)
  deriving DecidableEq

inductive ConsumerPoint where
  | idle
  | spinning (spin : Nat)
  | spinningShutdown (spin : Nat)
  | marking
  | rereading
  | checkingShutdown
  | waiting
  | asleep
  | unmarking (result : Bool)
  | stopped
  | holding
  | checkingWaiter (read : U32)
  | checkingTarget (read : U32)
  | locking
  | notifying
  | unlocking
  deriving DecidableEq

structure Queue (T : Type) where
  slots : Nat → T
  write : U32 := 0
  cachedRead : U32 := 0
  read : U32 := 0
  consumerSleeping : Bool := false
  producerWaiting : Bool := false
  shutdown : Bool := false
  waitTarget : U32 := 0
  /-- The side that holds the mutex. -/
  waitMutex : Option Side := none
  producer : ProducerPoint T := .idle
  consumer : ConsumerPoint := .idle
  /-- `waited` in `Push`, and what the producer's last call returned. -/
  waited : Bool := false
  returned : Bool := true
  pushed : List T := []
  popped : List T := []
  pushedBefore : Option Nat := none

def consumerSpinIterations : Nat := 16384

def producerSpinIterations : Nat := 4096

section
variable {T : Type} (capacity : Nat)

def slot (index : U32) : Nat := (index &&& BitVec.ofNat 32 (capacity - 1)).toNat

/-- The ring looks full: `write - m_cached_read >= Capacity`. -/
def looksFull (write cachedRead : U32) : Bool := capacity ≤ (write - cachedRead).toNat

def hasReached (read target : U32) : Bool := 0 ≤ (read - target).toInt

/-- The target of `Push` on a full ring. -/
def slotTarget (write : U32) : U32 := write - BitVec.ofNat 32 capacity + 1

namespace Queue

def afterWait (s : Queue T) (result : Bool) : Wait T → Queue T
  | .slot command => { s with producer := .rereading command }
  | .empty _ => { s with producer := .idle, returned := result }

/-- A step of the producer inside a call. -/
def produce (s : Queue T) : Option (Queue T) :=
  match s.producer with
  | .idle => none
  | .shuttingDown wakeCommand =>
    some { s with
      shutdown := true, pushedBefore := some s.pushed.length, waited := false,
      producer := .pushing wakeCommand }
  | .pushing command =>
    if looksFull capacity s.write s.cachedRead then some { s with producer := .rereading command }
    else some { s with producer := .filling command }
  | .rereading command =>
    let s := { s with cachedRead := s.read }
    if looksFull capacity s.write s.cachedRead then
      some { s with
        waited := true, producer := .locking (.slot command) (slotTarget capacity s.write) }
    else some { s with producer := .filling command }
  | .filling command =>
    some { s with
      slots := Function.update s.slots (slot capacity s.write) command,
      producer := .publishing command }
  | .publishing command =>
    some { s with
      write := s.write + 1, pushed := s.pushed ++ [command], producer := .checkingSleeper }
  | .checkingSleeper =>
    if s.consumerSleeping then some { s with producer := .notifying }
    else some { s with producer := .idle, returned := !s.waited }
  | .notifying =>
    some { s with
      consumer := if s.consumer = .asleep then .waiting else s.consumer,
      producer := .idle, returned := !s.waited }
  | .spinning timed target spin =>
    if hasReached s.read target then some { s with producer := .idle, returned := true }
    else if spin + 1 < producerSpinIterations then
      some { s with producer := .spinning timed target (spin + 1) }
    else some { s with producer := .locking (.empty timed) target }
  | .locking wait target =>
    if s.waitMutex = none then
      some { s with waitMutex := some .producer, producer := .targeting wait target }
    else none
  | .targeting wait target =>
    some { s with waitTarget := target, producer := .flagging wait target }
  | .flagging wait target =>
    some { s with producerWaiting := true, producer := .testing wait target false }
  | .testing wait target last =>
    -- The predicate; to sleep is to give the mutex back.
    if hasReached s.read target then some { s with producer := .unflagging wait true }
    else if last then some { s with producer := .unflagging wait false }
    else some { s with waitMutex := none, producer := .asleep wait target }
  | .asleep _ _ => none
  | .relocking wait target last =>
    if s.waitMutex = none then
      some { s with waitMutex := some .producer, producer := .testing wait target last }
    else none
  | .unflagging wait result =>
    some { s with producerWaiting := false, producer := .unlocking wait result }
  | .unlocking wait result => some ({ s with waitMutex := none }.afterWait result wait)

def nextSpin (spin : Nat) : ConsumerPoint :=
  if spin + 1 < consumerSpinIterations then .spinning (spin + 1) else .marking

/-- A step of the consumer inside a call. -/
def consume (s : Queue T) : Option (Queue T) :=
  match s.consumer with
  | .idle | .holding | .asleep | .stopped => none
  | .spinning spin =>
    if s.write ≠ s.read then some { s with consumer := .idle }
    else if spin % 256 = 255 then some { s with consumer := .spinningShutdown spin }
    else some { s with consumer := nextSpin spin }
  | .spinningShutdown spin =>
    if s.shutdown then some { s with consumer := .stopped }
    else some { s with consumer := nextSpin spin }
  | .marking => some { s with consumerSleeping := true, consumer := .rereading }
  | .rereading =>
    if s.write ≠ s.read then some { s with consumer := .unmarking true }
    else some { s with consumer := .checkingShutdown }
  | .checkingShutdown =>
    if s.shutdown then some { s with consumer := .unmarking false }
    else some { s with consumer := .waiting }
  | .waiting =>
    -- `m_write.wait`: it sleeps if the index is still the one that was read.
    if s.write ≠ s.read then some { s with consumer := .marking }
    else some { s with consumer := .asleep }
  | .unmarking result =>
    some { s with consumerSleeping := false, consumer := if result then .idle else .stopped }
  | .checkingWaiter read =>
    if s.producerWaiting then some { s with consumer := .checkingTarget read }
    else some { s with consumer := .idle }
  | .checkingTarget read =>
    if read = s.waitTarget then some { s with consumer := .locking }
    else some { s with consumer := .idle }
  | .locking =>
    if s.waitMutex = none then
      some { s with waitMutex := some .consumer, consumer := .notifying }
    else none
  | .notifying =>
    some { s with
      producer := match s.producer with
        | .asleep wait target => .relocking wait target false
        | point => point
      consumer := .unlocking }
  | .unlocking => some { s with waitMutex := none, consumer := .idle }

end Queue

/-- The calls of both sides, a step inside a call, and what may wake a sleeper. -/
inductive Action (T : Type) where
  | push (command : T)
  | waitForEmpty (timed : Bool)
  | shutdown (wakeCommand : T)
  | produce
  | wakeProducer
  | timeout
  | waitForCommand
  | front
  | pop
  | consume
  | wakeConsumer

def Queue.act (s : Queue T) : Action T → Option (Queue T)
  | .push command =>
    match s.producer, s.shutdown with
    | .idle, false => some { s with waited := false, producer := .pushing command }
    | _, _ => none
  | .waitForEmpty timed =>
    match s.producer, s.shutdown with
    | .idle, false => some { s with producer := .spinning timed s.write 0 }
    | _, _ => none
  | .shutdown wakeCommand =>
    match s.producer, s.shutdown with
    | .idle, false => some { s with producer := .shuttingDown wakeCommand }
    | _, _ => none
  | .produce => s.produce capacity
  | .wakeProducer =>
    match s.producer with
    | .asleep wait target => some { s with producer := .relocking wait target false }
    | _ => none
  | .timeout =>
    match s.producer with
    | .asleep (.empty true) target => some { s with producer := .relocking (.empty true) target true }
    | _ => none
  | .waitForCommand =>
    match s.consumer with
    | .idle => some { s with consumer := .spinning 0 }
    | _ => none
  | .front =>
    match s.consumer with
    | .idle => if s.read = s.write then some s else some { s with consumer := .holding }
    | _ => none
  | .pop =>
    -- The command is read until it is popped.
    match s.consumer with
    | .holding =>
      some { s with
        popped := s.popped ++ [s.slots (slot capacity s.read)],
        read := s.read + 1, consumer := .checkingWaiter (s.read + 1) }
    | _ => none
  | .consume => s.consume
  | .wakeConsumer =>
    match s.consumer with
    | .asleep => some { s with consumer := .waiting }
    | _ => none

def queue : System (Queue T) (Action T) where
  init s := ∃ slots, s = { slots }
  step s a := s.act capacity a

end

/-! ### What is in the ring -/

variable {T : Type} {n : Nat} {s s' : Queue T} {command : T}

def ProducerPoint.hasSlot : ProducerPoint T → Bool
  | .filling _ | .publishing _ => true
  | _ => false

structure Queue.Ordered (n : Nat) (s : Queue T) : Prop where
  write : s.write = counter 32 s.pushed.length
  read : s.read = counter 32 s.popped.length
  popped : ∃ queued, s.pushed = s.popped ++ queued ∧ queued.length ≤ 2 ^ n
  cached : ∃ c, s.cachedRead = counter 32 c ∧ c ≤ s.popped.length ∧
    s.pushed.length ≤ c + 2 ^ n ∧ (s.producer.hasSlot → s.pushed.length < c + 2 ^ n)
  slots : ∀ i command, s.popped.length ≤ i → s.pushed[i]? = some command →
    s.slots (i % 2 ^ n) = command
  filled : ∀ command, s.producer = .publishing command →
    s.slots (s.pushed.length % 2 ^ n) = command
  holding : s.consumer = .holding → s.popped.length < s.pushed.length

namespace Queue

def ring (s : Queue T) := (s.slots, s.write, s.cachedRead, s.read, s.pushed, s.popped)

theorem Ordered.le (h : s.Ordered n) : s.popped.length ≤ s.pushed.length := by
  obtain ⟨queued, hpushed, -⟩ := h.popped
  simp [hpushed]

theorem Ordered.le_add (h : s.Ordered n) : s.pushed.length ≤ s.popped.length + 2 ^ n := by
  obtain ⟨queued, hpushed, hlength⟩ := h.popped
  simpa [hpushed] using hlength

theorem Ordered.congr (h : s.Ordered n) (hring : s'.ring = s.ring)
    (hslot : s'.producer.hasSlot → s'.producer = s.producer)
    (hholding : s'.consumer = .holding → s.consumer = .holding) : s'.Ordered n := by
  simp only [ring, Prod.mk.injEq] at hring
  obtain ⟨hslots, hwrite, hcached, hread, hpushed, hpopped⟩ := hring
  refine ⟨?_, ?_, ?_, ?_, ?_, ?_, ?_⟩
  · rw [hwrite, hpushed, h.write]
  · rw [hread, hpopped, h.read]
  · rw [hpushed, hpopped]
    exact h.popped
  · obtain ⟨c, hc, hle, hroom, hhas⟩ := h.cached
    rw [hcached, hpushed, hpopped]
    exact ⟨c, hc, hle, hroom, fun hs => hhas (hslot hs ▸ hs)⟩
  · rw [hslots, hpushed, hpopped]
    exact h.slots
  · intro command hp
    rw [hslots, hpushed]
    exact h.filled command ((hslot (by rw [hp]; rfl)).symm.trans hp)
  · rw [hpushed, hpopped]
    exact fun hc => h.holding (hholding hc)

/-! ### The steps that touch the ring -/

theorem looksFull_iff (hn : n ≤ 31) (h : s.Ordered n) {c : Nat} (hle : c ≤ s.pushed.length)
    (hroom : s.pushed.length ≤ c + 2 ^ n) :
    looksFull (2 ^ n) s.write (counter 32 c) ↔ c + 2 ^ n ≤ s.pushed.length := by
  have hpow : 2 ^ n ≤ 2 ^ 31 := Nat.pow_le_pow_right (by decide) hn
  have hdistance : (counter 32 s.pushed.length - counter 32 c).toNat = s.pushed.length - c :=
    distance_counter hle (by omega)
  rw [looksFull, h.write, hdistance, decide_eq_true_eq]
  omega

theorem Ordered.pushing (hn : n ≤ 31) (h : s.Ordered n)
    (hroom : ¬ looksFull (2 ^ n) s.write s.cachedRead) :
    ({ s with producer := .filling command } : Queue T).Ordered n := by
  obtain ⟨c, hc, hle, hold, -⟩ := h.cached
  rw [hc, looksFull_iff hn h (hle.trans h.le) hold] at hroom
  exact { h with
    cached := ⟨c, hc, hle, hold, fun _ => Nat.lt_of_not_le hroom⟩
    filled := fun _ hp => nomatch hp }

theorem Ordered.reread (h : s.Ordered n) (hslot : ¬ s.producer.hasSlot) :
    ({ s with cachedRead := s.read } : Queue T).Ordered n :=
  { h with cached := ⟨s.popped.length, h.read, le_rfl, h.le_add, fun hs => absurd hs hslot⟩ }

theorem Ordered.filling (hn : n ≤ 31) (h : s.Ordered n) (hp : s.producer = .filling command) :
    ({ s with
      slots := Function.update s.slots (slot (2 ^ n) s.write) command,
      producer := .publishing command } : Queue T).Ordered n := by
  obtain ⟨c, hc, hle, hold, hroom⟩ := h.cached
  have hfree := hroom (by rw [hp]; rfl)
  have hslot : slot (2 ^ n) s.write = s.pushed.length % 2 ^ n := by
    rw [slot, h.write, slot_counter (by omega)]
  refine { h with cached := ⟨c, hc, hle, hold, fun _ => hfree⟩, slots := ?_, filled := ?_ }
  · intro i command' (hi : s.popped.length ≤ i) (hsome : s.pushed[i]? = some command')
    have hlt := (List.getElem?_eq_some_iff.1 hsome).1
    -- The slot that is filled is not one of those that are to be popped.
    have hne : i % 2 ^ n ≠ s.pushed.length % 2 ^ n := by
      intro heq
      have hpos : 0 < 2 ^ n := Nat.two_pow_pos n
      have hdvd : 2 ^ n ∣ s.pushed.length - i := (Nat.modEq_iff_dvd' hlt.le).1 heq
      have := Nat.le_of_dvd (by omega) hdvd
      omega
    show Function.update s.slots (slot (2 ^ n) s.write) command (i % 2 ^ n) = command'
    rw [hslot, Function.update_of_ne hne]
    exact h.slots i command' hi hsome
  · intro command' heq
    cases heq
    show Function.update s.slots (slot (2 ^ n) s.write) command (s.pushed.length % 2 ^ n) = command
    rw [hslot, Function.update_self]

theorem Ordered.publishing (h : s.Ordered n) (hp : s.producer = .publishing command) :
    ({ s with
      write := s.write + 1, pushed := s.pushed ++ [command],
      producer := .checkingSleeper } : Queue T).Ordered n := by
  obtain ⟨queued, hpushed, hlength⟩ := h.popped
  obtain ⟨c, hc, hle, hold, hroom⟩ := h.cached
  have hfree := hroom (by rw [hp]; rfl)
  have hcount : s.pushed.length = s.popped.length + queued.length := by simp [hpushed]
  refine { h with write := ?_, popped := ?_, cached := ?_, slots := ?_, filled := ?_, holding := ?_ }
  · simpa [h.write] using counter_succ s.pushed.length
  · exact ⟨queued ++ [command], by simp [hpushed], by simp; omega⟩
  · exact ⟨c, hc, hle, by simp; omega, fun hs => absurd hs Bool.false_ne_true⟩
  · intro i command' (hi : s.popped.length ≤ i) (hsome : (s.pushed ++ [command])[i]? = some command')
    rcases Nat.lt_trichotomy i s.pushed.length with hlt | rfl | hgt
    · exact h.slots i command' hi (by simpa [List.getElem?_append_left hlt] using hsome)
    · have hlast : command = command' := by simpa using hsome
      exact hlast ▸ h.filled command hp
    · have hnone : (s.pushed ++ [command])[i]? = none := List.getElem?_eq_none (by simp; omega)
      cases hsome.symm.trans hnone
  · rintro _ ⟨⟩
  · intro hc
    have hlt := h.holding hc
    simp
    omega

theorem Ordered.pop (hn : n ≤ 31) (h : s.Ordered n) (hc : s.consumer = .holding) {point}
    (hpoint : point ≠ .holding) :
    ({ s with
      popped := s.popped ++ [s.slots (slot (2 ^ n) s.read)],
      read := s.read + 1, consumer := point } : Queue T).Ordered n := by
  obtain ⟨queued, hpushed, hlength⟩ := h.popped
  have hcount : s.pushed.length = s.popped.length + queued.length := by simp [hpushed]
  have hlt := h.holding hc
  obtain ⟨front, rest, rfl⟩ : ∃ front rest, queued = front :: rest :=
    List.exists_cons_of_length_pos (by omega)
  have hfront : s.slots (slot (2 ^ n) s.read) = front := by
    rw [slot, h.read, slot_counter (by omega)]
    exact h.slots s.popped.length front le_rfl (by simp [hpushed])
  obtain ⟨c, hcached, hle, hold, hroom⟩ := h.cached
  rw [hfront]
  refine { h with read := ?_, popped := ?_, cached := ?_, slots := ?_, holding := ?_ }
  · simpa [h.read] using counter_succ s.popped.length
  · exact ⟨rest, by simp [hpushed], by simp at hlength; omega⟩
  · exact ⟨c, hcached, by simp; omega, hold, hroom⟩
  · exact fun i command' hi hsome => h.slots i command' (by simp at hi; omega) hsome
  · exact fun heq => absurd heq hpoint

/-! ### Every action -/

theorem Ordered.produce (hn : n ≤ 31) (h : s.Ordered n) (hstep : s.produce (2 ^ n) = some s') :
    s'.Ordered n := by
  cases hp : s.producer <;> simp only [Queue.produce, hp] at hstep
  case pushing command =>
    split at hstep <;> cases hstep
    · exact h.congr rfl nofun id
    · next hroom => exact h.pushing hn hroom
  case rereading command =>
    have hread := h.reread (by rw [hp]; exact Bool.false_ne_true)
    split at hstep <;> cases hstep
    · exact hread.congr rfl nofun id
    · next hroom => exact hread.pushing hn hroom
  case filling command =>
    cases hstep
    exact h.filling hn hp
  case publishing command =>
    cases hstep
    exact h.publishing hp
  case notifying =>
    cases hstep
    refine h.congr rfl nofun fun hc => ?_
    dsimp only at hc
    split at hc
    · cases hc
    · exact hc
  case unlocking wait result =>
    cases hstep
    cases wait <;> exact h.congr rfl nofun id
  all_goals
    repeat' split at hstep
    all_goals cases hstep <;> exact h.congr rfl nofun id

theorem nextSpin_ne_holding (spin : Nat) : nextSpin spin ≠ .holding := by
  unfold nextSpin
  split <;> nofun

theorem Ordered.consume (h : s.Ordered n) (hstep : s.consume = some s') : s'.Ordered n := by
  cases hc : s.consumer <;> simp only [Queue.consume, hc] at hstep
  case spinning spin =>
    split at hstep
    · cases hstep
      exact h.congr rfl (fun _ => rfl) nofun
    · split at hstep <;> cases hstep
      · exact h.congr rfl (fun _ => rfl) nofun
      · exact h.congr rfl (fun _ => rfl) fun heq => absurd heq (nextSpin_ne_holding spin)
  case spinningShutdown spin =>
    split at hstep <;> cases hstep
    · exact h.congr rfl (fun _ => rfl) nofun
    · exact h.congr rfl (fun _ => rfl) fun heq => absurd heq (nextSpin_ne_holding spin)
  case unmarking result =>
    cases hstep
    refine h.congr rfl (fun _ => rfl) fun heq => ?_
    cases result <;> cases heq
  case notifying =>
    cases hstep
    refine h.congr rfl (fun hs => ?_) nofun
    cases hp : s.producer <;> simp_all [ProducerPoint.hasSlot]
  all_goals
    repeat' split at hstep
    all_goals cases hstep <;> exact h.congr rfl (fun _ => rfl) nofun

theorem Ordered.act (hn : n ≤ 31) (h : s.Ordered n) {a : Action T}
    (hstep : s.act (2 ^ n) a = some s') : s'.Ordered n := by
  cases a <;> simp only [Queue.act] at hstep
  case produce => exact h.produce hn hstep
  case consume => exact h.consume hstep
  case front =>
    split at hstep
    · split at hstep <;> cases hstep
      · exact h
      · next hne =>
        refine { h with holding := fun _ => ?_ }
        have hle := h.le
        have hdiff : s.popped.length ≠ s.pushed.length := by
          intro heq
          rw [h.read, h.write, heq] at hne
          exact hne rfl
        show s.popped.length < s.pushed.length
        omega
    · cases hstep
  case pop =>
    split at hstep <;> cases hstep
    next hc => exact h.pop hn hc nofun
  all_goals
    split at hstep <;> cases hstep
    first
      | exact h.congr rfl nofun id
      | exact h.congr rfl (fun _ => rfl) nofun

theorem ordered_init (slots : Nat → T) : ({ slots } : Queue T).Ordered n :=
  ⟨rfl, rfl, ⟨[], rfl, Nat.zero_le _⟩, ⟨0, rfl, le_rfl, Nat.zero_le _, nofun⟩, nofun, nofun, nofun⟩

end Queue
end DolphinXR.Vulkan
