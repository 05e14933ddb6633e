import TaskQueue.Lib.CondVar
import TaskQueue.Lib.Runs
import TaskQueue.Queue.RingBuffer

/-!
# The ring buffer as a monitor

Producers in `Enqueue` and consumers in `Dequeue` block on one condition
variable.  The machine of this module has the ring buffer and the condition
variable as its state; an event is one pass of a thread through its critical
section (on arrival, or after it was woken), a `TryDequeue`, or a `Close`.

A `Signal` of `Enqueue` is meant for a consumer and a `Signal` of `Dequeue` for
a producer, but it wakes the oldest waiter of either kind.  `noLostWakeup` shows
that no wakeup is lost in the runs in which every signal reaches its kind, and
`block_losesWakeup` is a run in which one does not.  Under the reject
policy producers never wait and no wakeup is lost (`reject_noLostWakeup`).
-/

namespace TaskQueue
namespace Queue

open Lib

universe u

section Monitor

variable {α : Type u}

/-- A thread in `Enqueue t` or in `Dequeue`. -/
inductive Thread (α : Type u) where
  | producer (name : Nat) (t : α)
  | consumer (name : Nat)
deriving DecidableEq

/-- The thread is in `Enqueue`. -/
def Thread.isProducer : Thread α → Bool
  | .producer _ _ => true
  | .consumer _ => false

/-- The thread is in `Dequeue`. -/
def Thread.isConsumer : Thread α → Bool
  | .producer _ _ => false
  | .consumer _ => true

/-- The ring buffer with its condition variable. -/
structure Monitor (α : Type u) where
  rb : RingBuffer α
  cond : Cond (Thread α)

/-- What the threads can do. -/
inductive MonitorEvent (α : Type u) where
  | arrive (th : Thread α)
  | resume (th : Thread α)
  | tryDequeue
  | close

namespace Monitor

/-- The monitor of a new ring buffer. -/
def new (capacity : Nat) (policy : OverflowPolicy) (h : 0 < capacity) : Monitor α :=
  { rb := RingBuffer.new capacity policy h, cond := Cond.empty }

/-- A pass of a producer through `Enqueue`. -/
def enqueuePass (m : Monitor α) (th : Thread α) (t : α) : Monitor α :=
  match m.rb.enqueue t with
  | .done rb => { rb := rb, cond := m.cond.signal }
  | .fail _ => m
  | .wait => { m with cond := m.cond.wait th }

/-- A pass of a consumer through `Dequeue`. -/
def dequeuePass (m : Monitor α) (th : Thread α) : Monitor α :=
  match m.rb.dequeue with
  | .done _ rb => { rb := rb, cond := m.cond.signal }
  | .closed => m
  | .wait => { m with cond := m.cond.wait th }

/-- A pass of a thread through its critical section. -/
def pass (m : Monitor α) : Thread α → Monitor α
  | .producer n t => m.enqueuePass (.producer n t) t
  | .consumer n => m.dequeuePass (.consumer n)

/-- `TryDequeue`. -/
def tryDequeue (m : Monitor α) : Monitor α :=
  match m.rb.tryDequeue with
  | some (_, rb) => { rb := rb, cond := m.cond.signal }
  | none => m

/-- `Close`. -/
def close (m : Monitor α) : Monitor α :=
  { rb := m.rb.close, cond := m.cond.broadcast }

/-- The transitions of the monitor. -/
def step [DecidableEq α] (m : Monitor α) : MonitorEvent α → Option (Monitor α)
  | .arrive th =>
      if th ∈ m.cond.waiting ∨ th ∈ m.cond.woken then none else some (m.pass th)
  | .resume th =>
      if th ∈ m.cond.woken then
        some ({ m with cond := m.cond.resume th }.pass th)
      else
        none
  | .tryDequeue => some m.tryDequeue
  | .close => some m.close

/-- With no woken thread left, every waiter waits for a reason. -/
def NoLostWakeup (m : Monitor α) : Prop :=
  m.cond.woken = [] →
    ∀ th ∈ m.cond.waiting,
      (th.isProducer = true → ¬ (m.rb.size < m.rb.cap ∨ m.rb.closed = true)) ∧
      (th.isConsumer = true → ¬ (0 < m.rb.size ∨ m.rb.closed = true))

instance (m : Monitor α) : Decidable m.NoLostWakeup := by
  unfold NoLostWakeup
  exact inferInstanceAs (Decidable (_ → ∀ th ∈ m.cond.waiting, _))

/-- The signal of a pass of the thread, if it makes one, reaches the kind it is meant for. -/
def PassAligned (m : Monitor α) : Thread α → Prop
  | .producer _ _ =>
      m.rb.size < m.rb.cap → m.rb.closed = false →
        m.cond.Aligned Thread.isConsumer
  | .consumer _ => 0 < m.rb.size → m.cond.Aligned Thread.isProducer

/-- The signal of the event, if it makes one, reaches the kind it is meant for. -/
def SignalsMeant (m : Monitor α) : MonitorEvent α → Prop
  | .arrive th => m.PassAligned th
  | .resume th => m.PassAligned th
  | .tryDequeue => 0 < m.rb.size → m.cond.Aligned Thread.isProducer
  | .close => True

instance (m : Monitor α) (th : Thread α) : Decidable (m.PassAligned th) :=
  match th with
  | .producer _ _ => inferInstanceAs (Decidable (_ → _ → _))
  | .consumer _ => inferInstanceAs (Decidable (_ → _))

instance (m : Monitor α) (e : MonitorEvent α) : Decidable (m.SignalsMeant e) :=
  match e with
  | .arrive th => inferInstanceAs (Decidable (m.PassAligned th))
  | .resume th => inferInstanceAs (Decidable (m.PassAligned th))
  | .tryDequeue => inferInstanceAs (Decidable (_ → _))
  | .close => inferInstanceAs (Decidable True)

/--
The invariant: nobody waits at a closed buffer; while consumers wait, there is a
woken consumer for every task in the buffer; while producers wait, there is a
woken producer for every free slot.
-/
structure Served (m : Monitor α) : Prop where
  closed : m.rb.closed = true → m.cond.waiting = []
  consumers : m.cond.HasWaiter Thread.isConsumer →
    m.rb.size ≤ m.cond.wokenCount Thread.isConsumer
  producers : m.cond.HasWaiter Thread.isProducer →
    m.rb.cap - m.rb.size ≤ m.cond.wokenCount Thread.isProducer

theorem served_new
    (capacity : Nat) (policy : OverflowPolicy) (h : 0 < capacity) :
    (new capacity policy h : Monitor α).Served := by
  refine ⟨fun _ => rfl, ?_, ?_⟩ <;>
  · rintro ⟨t, ht, _⟩
    simp [new, Cond.empty] at ht

/-- The invariant says what a state without woken threads looks like. -/
theorem Served.nobodyStuck
    {m : Monitor α}
    (h : m.Served) :
    m.NoLostWakeup := by
  intro hwoken th hth
  have hopen : ¬ m.rb.closed = true := by
    intro hc
    rw [h.closed hc] at hth
    simp at hth
  refine ⟨?_, ?_⟩
  · intro hp
    have := h.producers ⟨th, hth, hp⟩
    simp only [Cond.wokenCount, hwoken, List.countP_nil] at this
    rintro (hlt | hc)
    · omega
    · exact hopen hc
  · intro hc
    have := h.consumers ⟨th, hth, hc⟩
    simp only [Cond.wokenCount, hwoken, List.countP_nil] at this
    rintro (hlt | hcl)
    · omega
    · exact hopen hcl

/--
What a producer's pass may rely on: the invariant with the producer itself
already taken out of the woken threads.
-/
structure ServedProducer (m : Monitor α) : Prop where
  closed : m.rb.closed = true → m.cond.waiting = []
  consumers : m.cond.HasWaiter Thread.isConsumer →
    m.rb.size ≤ m.cond.wokenCount Thread.isConsumer
  producers : m.cond.HasWaiter Thread.isProducer →
    m.rb.cap - m.rb.size ≤ m.cond.wokenCount Thread.isProducer + 1

/-- The same for a consumer's pass. -/
structure ServedConsumer (m : Monitor α) : Prop where
  closed : m.rb.closed = true → m.cond.waiting = []
  consumers : m.cond.HasWaiter Thread.isConsumer →
    m.rb.size ≤ m.cond.wokenCount Thread.isConsumer + 1
  producers : m.cond.HasWaiter Thread.isProducer →
    m.rb.cap - m.rb.size ≤ m.cond.wokenCount Thread.isProducer

theorem Served.forProducer
    {m : Monitor α}
    (h : m.Served) :
    m.ServedProducer :=
  ⟨h.closed, h.consumers, fun hw => Nat.le_succ_of_le (h.producers hw)⟩

theorem Served.forConsumer
    {m : Monitor α}
    (h : m.Served) :
    m.ServedConsumer :=
  ⟨h.closed, fun hw => Nat.le_succ_of_le (h.consumers hw), h.producers⟩

/-- A signal made after a task was added. -/
theorem ServedProducer.put
    {m : Monitor α} {rb : RingBuffer α}
    (h : m.ServedProducer)
    (hsize : rb.size = m.rb.size + 1)
    (hcap : rb.cap = m.rb.cap)
    (hclosed : rb.closed = m.rb.closed)
    (hal : m.cond.Aligned Thread.isConsumer) :
    ({ rb := rb, cond := m.cond.signal } : Monitor α).Served := by
  refine ⟨?_, ?_, ?_⟩
  · intro hc
    have hw := h.closed (hclosed ▸ hc)
    simp [Cond.signal, hw]
  · intro hw
    have hw' := Cond.hasWaiter_of_signal hw
    have h₁ := h.consumers hw'
    have h₂ := Cond.wokenCount_signal_of_aligned hal hw'
    show rb.size ≤ m.cond.signal.wokenCount Thread.isConsumer
    omega
  · intro hw
    have h₁ := h.producers (Cond.hasWaiter_of_signal hw)
    have h₂ := Cond.wokenCount_le_signal Thread.isProducer m.cond
    show rb.cap - rb.size ≤ m.cond.signal.wokenCount Thread.isProducer
    omega

/-- A signal made after a task was removed. -/
theorem ServedConsumer.take
    {m : Monitor α} {rb : RingBuffer α}
    (h : m.ServedConsumer)
    (hsize : rb.size + 1 = m.rb.size)
    (hcap : rb.cap = m.rb.cap)
    (hclosed : rb.closed = m.rb.closed)
    (hal : m.cond.Aligned Thread.isProducer) :
    ({ rb := rb, cond := m.cond.signal } : Monitor α).Served := by
  refine ⟨?_, ?_, ?_⟩
  · intro hc
    have hw := h.closed (hclosed ▸ hc)
    simp [Cond.signal, hw]
  · intro hw
    have h₁ := h.consumers (Cond.hasWaiter_of_signal hw)
    have h₂ := Cond.wokenCount_le_signal Thread.isConsumer m.cond
    show rb.size ≤ m.cond.signal.wokenCount Thread.isConsumer
    omega
  · intro hw
    have hw' := Cond.hasWaiter_of_signal hw
    have h₁ := h.producers hw'
    have h₂ := Cond.wokenCount_signal_of_aligned hal hw'
    show rb.cap - rb.size ≤ m.cond.signal.wokenCount Thread.isProducer
    omega

/-- An aligned pass through `Enqueue` restores the invariant. -/
theorem enqueuePass_served
    {m : Monitor α}
    (h : m.ServedProducer)
    (n : Nat) (t : α)
    (hal : m.PassAligned (.producer n t)) :
    (m.enqueuePass (.producer n t) t).Served := by
  have hle := m.rb.size_le
  unfold enqueuePass RingBuffer.enqueue
  by_cases hfull : m.rb.size = m.rb.cap
  · -- full: the producer either leaves with an error or waits, and no slot is free
    have hserved : m.Served :=
      ⟨h.closed, h.consumers, fun _ => by omega⟩
    by_cases hc : m.rb.closed = true
    · simpa [hfull, hc] using hserved
    · cases hp : m.rb.policy with
      | reject =>
          simpa [hfull, hc] using hserved
      | block =>
          simp only [hfull, hc, dite_true]
          refine ⟨fun hc' => absurd hc' hc, ?_, fun _ => by
            show m.rb.cap - m.rb.size ≤ _
            omega⟩
          intro hw
          rcases Cond.hasWaiter_wait hw with hw | hk
          · exact h.consumers hw
          · simp [Thread.isConsumer] at hk
  · by_cases hc : m.rb.closed = true
    · simp only [hfull, hc, dite_false, if_true]
      have hw := h.closed hc
      refine ⟨h.closed, h.consumers, ?_⟩
      rintro ⟨t', ht', _⟩
      simp [hw] at ht'
    · simp only [hfull, hc, dite_false]
      exact h.put rfl rfl rfl (hal (by omega) (by simpa using hc))

/-- An aligned pass through `Dequeue` restores the invariant. -/
theorem dequeuePass_served
    {m : Monitor α}
    (h : m.ServedConsumer)
    (n : Nat)
    (hal : m.PassAligned (.consumer n)) :
    (m.dequeuePass (.consumer n)).Served := by
  unfold dequeuePass RingBuffer.dequeue
  by_cases hpos : 0 < m.rb.size
  · simp only [hpos, dite_true]
    exact h.take (by simp; omega) rfl rfl (hal hpos)
  · by_cases hc : m.rb.closed = true
    · simp only [hpos, hc, dite_false, if_true]
      exact ⟨h.closed, fun _ => by omega, h.producers⟩
    · simp only [hpos, hc, dite_false]
      refine ⟨fun hc' => absurd hc' hc, fun _ => by
        show m.rb.size ≤ _
        omega, ?_⟩
      intro hw
      rcases Cond.hasWaiter_wait hw with hw | hk
      · exact h.producers hw
      · simp [Thread.isProducer] at hk

theorem tryDequeue_served
    {m : Monitor α}
    (h : m.Served)
    (hal : 0 < m.rb.size → m.cond.Aligned Thread.isProducer) :
    m.tryDequeue.Served := by
  unfold tryDequeue RingBuffer.tryDequeue
  by_cases hpos : 0 < m.rb.size
  · simp only [hpos, dite_true]
    exact h.forConsumer.take (by simp; omega) rfl rfl (hal hpos)
  · simpa [hpos] using h

theorem close_served (m : Monitor α) : m.close.Served := by
  refine ⟨fun _ => rfl, ?_, ?_⟩ <;>
  · rintro ⟨t, ht, _⟩
    simp [close, Cond.broadcast] at ht

/-- A pass on arrival. -/
theorem pass_served
    {m : Monitor α}
    (h : m.Served)
    (th : Thread α)
    (hal : m.PassAligned th) :
    (m.pass th).Served := by
  cases th with
  | producer n t =>
      exact enqueuePass_served h.forProducer n t hal
  | consumer n =>
      exact dequeuePass_served h.forConsumer n hal

/-- A pass of a woken thread, which is then no longer among the woken threads. -/
theorem resume_served
    [DecidableEq α]
    {m : Monitor α}
    (h : m.Served)
    {th : Thread α}
    (hmem : th ∈ m.cond.woken)
    (hal : m.PassAligned th) :
    (({ m with cond := m.cond.resume th } : Monitor α).pass th).Served := by
  cases th with
  | producer n t =>
      have hp : (Thread.producer n t).isProducer = true := rfl
      have hc : (Thread.producer n t).isConsumer = false := rfl
      refine enqueuePass_served (m := { m with cond := m.cond.resume _ })
        ⟨h.closed, ?_, ?_⟩ n t hal
      · intro hw
        rw [Cond.wokenCount_resume_other hc]
        exact h.consumers hw
      · intro hw
        have := h.producers hw
        rw [Cond.wokenCount_resume hmem hp]
        show m.rb.cap - m.rb.size ≤ _
        omega
  | consumer n =>
      have hp : (Thread.consumer n : Thread α).isProducer = false := rfl
      have hc : (Thread.consumer n : Thread α).isConsumer = true := rfl
      refine dequeuePass_served (m := { m with cond := m.cond.resume _ })
        ⟨h.closed, ?_, ?_⟩ n hal
      · intro hw
        have := h.consumers hw
        rw [Cond.wokenCount_resume hmem hc]
        show m.rb.size ≤ _
        omega
      · intro hw
        rw [Cond.wokenCount_resume_other hp]
        exact h.producers hw

/-- One step keeps the invariant if its signal reaches the kind it is meant for. -/
theorem step_served
    [DecidableEq α]
    (m : Monitor α) (e : MonitorEvent α) (m' : Monitor α)
    (h : m.Served)
    (hok : m.SignalsMeant e)
    (hstep : m.step e = some m') :
    m'.Served := by
  cases e with
  | arrive th =>
      simp only [step] at hstep
      split_ifs at hstep
      cases hstep
      exact pass_served h th hok
  | resume th =>
      simp only [step] at hstep
      split_ifs at hstep with hmem
      cases hstep
      exact resume_served h hmem hok
  | tryDequeue =>
      cases hstep
      exact tryDequeue_served h hok
  | close =>
      cases hstep
      exact close_served m

/--
No wakeup is lost in a run in which every signal reaches the kind of thread it
is meant for, if a thread of that kind waits.
-/
theorem noLostWakeup
    [DecidableEq α]
    (capacity : Nat) (policy : OverflowPolicy) (hcap : 0 < capacity)
    (es : List (MonitorEvent α)) (m : Monitor α)
    (hrun : Run step SignalsMeant (new capacity policy hcap) es m) :
    m.NoLostWakeup := by
  have hserved : m.Served :=
    hrun.invariant Served step_served (served_new capacity policy hcap)
  exact hserved.nobodyStuck

/-- A blocked producer and a blocked consumer that are both woken by the right signal. -/
def handoff : List (MonitorEvent Nat) :=
  [.arrive (.consumer 0), .arrive (.producer 1 7), .arrive (.producer 2 8),
    .resume (.consumer 0), .resume (.producer 2 8)]

theorem noLostWakeup_handoff :
    ∃ m, Run step SignalsMeant (new 1 .block Nat.one_pos) handoff m ∧
      m.NoLostWakeup := by
  obtain ⟨m, hrun, _⟩ :=
    exists_run_of_exec step SignalsMeant (fun m => m.rb.contents = [8])
      (new 1 .block Nat.one_pos) handoff (by decide)
  exact ⟨m, hrun, noLostWakeup 1 .block Nat.one_pos handoff m hrun⟩

/--
Two consumers wait, a producer's signal wakes the first, and a second producer
comes in before it and waits.  The signal of the first consumer then wakes the
second consumer instead of the producer, and the producer stays behind although
the buffer is empty.
-/
def staleSignal : List (MonitorEvent Nat) :=
  [.arrive (.consumer 0), .arrive (.consumer 1), .arrive (.producer 2 7),
    .arrive (.producer 3 8), .resume (.consumer 0), .resume (.consumer 1)]

theorem block_losesWakeup :
    ¬ ∀ (capacity : Nat) (policy : OverflowPolicy) (hcap : 0 < capacity)
        (es : List (MonitorEvent Nat)) (m : Monitor Nat),
      Run step (fun _ _ => True) (new capacity policy hcap) es m →
        m.NoLostWakeup := by
  intro h
  obtain ⟨m, hrun, hlost⟩ :=
    exists_run_of_exec step (fun _ _ => True) (fun m => ¬ m.NoLostWakeup)
      (new 1 .block Nat.one_pos) staleSignal (by decide)
  exact hlost (h 1 .block Nat.one_pos staleSignal m hrun)

/-- Under the reject policy only consumers ever wait. -/
structure ConsumersOnly (m : Monitor α) : Prop where
  policy : m.rb.policy = .reject
  waiting : ∀ th ∈ m.cond.waiting, th.isConsumer = true

theorem ConsumersOnly.signal
    {m : Monitor α} {rb : RingBuffer α}
    (h : m.ConsumersOnly)
    (hpolicy : rb.policy = m.rb.policy) :
    ({ rb := rb, cond := m.cond.signal } : Monitor α).ConsumersOnly :=
  ⟨hpolicy.trans h.policy,
    fun th hth => h.waiting th (Cond.mem_waiting_of_mem_signal hth)⟩

theorem ConsumersOnly.pass
    {m : Monitor α}
    (h : m.ConsumersOnly)
    (th : Thread α) :
    (m.pass th).ConsumersOnly := by
  cases th with
  | producer n t =>
      simp only [Monitor.pass, enqueuePass, RingBuffer.enqueue]
      split_ifs
      · exact h
      · simp only [h.policy]
        exact h
      · exact h
      · exact h.signal rfl
  | consumer n =>
      simp only [Monitor.pass, dequeuePass, RingBuffer.dequeue]
      split_ifs
      · exact h.signal rfl
      · exact h
      · refine ⟨h.policy, ?_⟩
        intro th hth
        rcases List.mem_append.mp hth with hth | hth
        · exact h.waiting th hth
        · rw [List.mem_singleton] at hth
          subst hth
          rfl

theorem step_consumersOnly
    [DecidableEq α]
    (m : Monitor α) (e : MonitorEvent α) (m' : Monitor α)
    (h : m.ConsumersOnly)
    (hstep : m.step e = some m') :
    m'.ConsumersOnly := by
  cases e with
  | arrive th =>
      simp only [step] at hstep
      split_ifs at hstep
      cases hstep
      exact h.pass th
  | resume th =>
      simp only [step] at hstep
      split_ifs at hstep
      cases hstep
      exact ConsumersOnly.pass (m := { m with cond := m.cond.resume th })
        ⟨h.policy, h.waiting⟩ th
  | tryDequeue =>
      cases hstep
      unfold tryDequeue RingBuffer.tryDequeue
      split_ifs
      · exact h.signal rfl
      · exact h
  | close =>
      cases hstep
      refine ⟨h.policy, ?_⟩
      intro th hth
      simp [close, Cond.broadcast] at hth

/-- If only consumers wait, every signal reaches the kind it is meant for. -/
theorem ConsumersOnly.signalsMeant
    {m : Monitor α}
    (h : m.ConsumersOnly)
    (e : MonitorEvent α) :
    m.SignalsMeant e := by
  have hcons : m.cond.Aligned Thread.isConsumer := by
    rintro ⟨th, hth, _⟩
    obtain ⟨th', hhead⟩ : ∃ th', m.cond.waiting.head? = some th' := by
      cases hw : m.cond.waiting with
      | nil =>
          simp [hw] at hth
      | cons th' ths =>
          exact ⟨th', rfl⟩
    exact ⟨th', hhead, h.waiting th' (List.mem_of_mem_head? hhead)⟩
  have hprod : m.cond.Aligned Thread.isProducer := by
    rintro ⟨th, hth, hp⟩
    have := h.waiting th hth
    cases th <;> simp_all [Thread.isProducer, Thread.isConsumer]
  cases e with
  | arrive th =>
      cases th with
      | producer => exact fun _ _ => hcons
      | consumer => exact fun _ => hprod
  | resume th =>
      cases th with
      | producer => exact fun _ _ => hcons
      | consumer => exact fun _ => hprod
  | tryDequeue =>
      exact fun _ => hprod
  | close =>
      trivial

/-- Under the reject policy no wakeup is lost in any run. -/
theorem reject_noLostWakeup
    [DecidableEq α]
    (capacity : Nat) (hcap : 0 < capacity)
    (es : List (MonitorEvent α)) (m : Monitor α)
    (hrun : Run step (fun _ _ => True) (new capacity .reject hcap) es m) :
    m.NoLostWakeup := by
  have hinit :
      (new capacity .reject hcap : Monitor α).Served ∧
        (new capacity .reject hcap : Monitor α).ConsumersOnly :=
    ⟨served_new capacity .reject hcap, rfl, fun th hth => by
      simp [new, Cond.empty] at hth⟩
  have hinv : m.Served ∧ m.ConsumersOnly :=
    hrun.invariant (fun m => m.Served ∧ m.ConsumersOnly)
      (fun m e m' h _ hstep =>
        ⟨step_served m e m' h.1 (h.2.signalsMeant e) hstep,
          step_consumersOnly m e m' h.2 hstep⟩)
      hinit
  exact hinv.1.nobodyStuck

end Monitor

end Monitor

end Queue
end TaskQueue
