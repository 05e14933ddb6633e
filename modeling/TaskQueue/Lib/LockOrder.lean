import Mathlib.Data.Fintype.Lattice
import Mathlib.Data.Finset.Max
import Mathlib.Tactic

/-!
# Locks that are taken in order

What threads do to a set of locks, and to each other through them.  A lock is a
mutex or a readers-writer lock: it is held by one thread exclusively, or by any number
of threads that share it.  The code of a thread, as far as locks are concerned, is a
`LockScript`: it takes and releases locks, waits for something that is not a lock,
branches and loops.  `LockScript.Runs` gives its traces.

If the locks have ranks such that every script takes a lock only while all locks that it
holds have smaller ranks, releases them in the opposite order, and waits for other things
only with no lock in its hands (`LockScript.Keeps`), then no run of any number of threads
ends in a deadlock over the locks, of all threads or of some (`exists_settles_quiet`).  `LockScript.Balanced` is
the form of the condition that is put together along the structure of the code.
-/

namespace TaskQueue
namespace Lib

universe u v

/-- How a lock is taken: `Lock` or `RLock`. -/
inductive LockMode
  | exclusive
  | shared
deriving DecidableEq, Repr

/-- What a thread does to the locks; `wait` stands for a wait for anything else. -/
inductive LockAction (L : Type u)
  | acquire (l : L) (mode : LockMode)
  | release (l : L)
  | wait
deriving DecidableEq, Repr

/-- The code of a thread, as far as locks are concerned. -/
inductive LockScript (L : Type u) : Type (max u 1)
  | skip
  | acquire (l : L) (mode : LockMode)
  | release (l : L)
  | wait
  | seq (p q : LockScript L)
  | branch (p q : LockScript L)
  | choose {α : Type} (p : α → LockScript L)
  | loop (p : LockScript L)

namespace LockScript

variable {L : Type u}

/-- The traces of a script. -/
inductive Runs : LockScript L → List (LockAction L) → Prop
  | skip : Runs .skip []
  | acquire (l : L) (mode : LockMode) : Runs (.acquire l mode) [.acquire l mode]
  | release (l : L) : Runs (.release l) [.release l]
  | wait : Runs .wait [.wait]
  | seq
      {p q : LockScript L} {xs ys : List (LockAction L)}
      (first : Runs p xs)
      (second : Runs q ys) :
      Runs (.seq p q) (xs ++ ys)
  | left
      {p : LockScript L} (q : LockScript L) {xs : List (LockAction L)}
      (taken : Runs p xs) :
      Runs (.branch p q) xs
  | right
      (p : LockScript L) {q : LockScript L} {xs : List (LockAction L)}
      (taken : Runs q xs) :
      Runs (.branch p q) xs
  | choose
      {α : Type} {p : α → LockScript L} (a : α) {xs : List (LockAction L)}
      (taken : Runs (p a) xs) :
      Runs (.choose p) xs
  | done (p : LockScript L) : Runs (.loop p) []
  | again
      {p : LockScript L} {xs ys : List (LockAction L)}
      (once : Runs p xs)
      (rest : Runs (.loop p) ys) :
      Runs (.loop p) (xs ++ ys)

/-- One script after the other. -/
def seqs : List (LockScript L) → LockScript L
  | [] => .skip
  | p :: ps => .seq p (seqs ps)

/-- Some script of a list. -/
def oneOf : List (LockScript L) → LockScript L
  | [] => .skip
  | p :: ps => .branch p (oneOf ps)

/-- Code between `Lock` and `Unlock`. -/
def locked (l : L) (body : LockScript L) : LockScript L :=
  seqs [.acquire l .exclusive, body, .release l]

/-- Code between `RLock` and `RUnlock`. -/
def rlocked (l : L) (body : LockScript L) : LockScript L :=
  seqs [.acquire l .shared, body, .release l]

/-- `cond.Wait`: the lock is released, and taken again after the wait. -/
def condWait (l : L) : LockScript L :=
  seqs [.release l, .wait, .acquire l .exclusive]

variable (rank : L → Nat)

/-- The script takes and releases locks in order, and `held` becomes `held'`. -/
def Keeps : LockScript L → List (L × LockMode) → List (L × LockMode) → Prop
  | .skip, held, held' => held' = held
  | .acquire l mode, held, held' => (∀ h ∈ held, rank h.1 < rank l) ∧ held' = (l, mode) :: held
  | .release l, held, held' => ∃ mode, held = (l, mode) :: held'
  | .wait, held, held' => held = [] ∧ held' = []
  | .seq p q, held, held' => ∃ between, Keeps p held between ∧ Keeps q between held'
  | .branch p q, held, held' => Keeps p held held' ∧ Keeps q held held'
  | .choose p, held, held' => ∀ a, Keeps (p a) held held'
  | .loop p, held, held' => held' = held ∧ Keeps p held held

/--
With only locks of a rank below `floor` in its hands, the code takes and releases locks in
order and holds the same locks in the end.
-/
def Balanced (floor : Nat) (p : LockScript L) : Prop :=
  ∀ held : List (L × LockMode), (∀ h ∈ held, rank h.1 < floor) → Keeps rank p held held

section Balanced

variable {rank} {floor : Nat}

theorem balanced_skip : Balanced rank floor (.skip : LockScript L) := by
  intro held _
  rfl

/-- Nothing has a rank below zero: there is no lock in the hands of the thread. -/
theorem eq_nil_of_lt_zero
    {held : List (L × LockMode)}
    (h : ∀ x ∈ held, rank x.1 < 0) :
    held = [] := by
  cases held with
  | nil =>
      rfl
  | cons x rest =>
      exact absurd (h x List.mem_cons_self) (Nat.not_lt_zero _)

theorem balanced_wait : Balanced rank 0 (.wait : LockScript L) := by
  intro held hheld
  have hnil := eq_nil_of_lt_zero hheld
  exact ⟨hnil, hnil⟩

theorem Balanced.seq
    {p q : LockScript L}
    (hp : Balanced rank floor p)
    (hq : Balanced rank floor q) :
    Balanced rank floor (.seq p q) := by
  intro held hheld
  exact ⟨held, hp held hheld, hq held hheld⟩

theorem Balanced.branch
    {p q : LockScript L}
    (hp : Balanced rank floor p)
    (hq : Balanced rank floor q) :
    Balanced rank floor (.branch p q) := by
  intro held hheld
  exact ⟨hp held hheld, hq held hheld⟩

theorem balanced_choose
    {α : Type} {p : α → LockScript L}
    (hp : ∀ a, Balanced rank floor (p a)) :
    Balanced rank floor (.choose p) := by
  intro held hheld a
  exact hp a held hheld

theorem Balanced.loop
    {p : LockScript L}
    (hp : Balanced rank floor p) :
    Balanced rank floor (.loop p) := by
  intro held hheld
  exact ⟨rfl, hp held hheld⟩

/-- What is kept with the lock on top of those held is kept around the whole section. -/
theorem keeps_section
    {l : L} {mode : LockMode} {body : LockScript L} {held : List (L × LockMode)}
    (hheld : ∀ h ∈ held, rank h.1 < rank l)
    (hbody : Keeps rank body ((l, mode) :: held) ((l, mode) :: held)) :
    Keeps rank (seqs [.acquire l mode, body, .release l]) held held :=
  ⟨_, ⟨hheld, rfl⟩, _, hbody, held, ⟨mode, rfl⟩, rfl⟩

theorem balanced_section
    {l : L} {mode : LockMode} {body : LockScript L}
    (hfloor : floor ≤ rank l)
    (hbody : Balanced rank (rank l + 1) body) :
    Balanced rank floor (seqs [.acquire l mode, body, .release l]) := by
  intro held hheld
  have hbelow : ∀ h ∈ held, rank h.1 < rank l := fun x hx => (hheld x hx).trans_le hfloor
  refine keeps_section hbelow (hbody _ ?_)
  intro x hx
  rcases List.mem_cons.mp hx with rfl | hrest
  · exact Nat.lt_succ_self _
  · exact (hbelow x hrest).trans (Nat.lt_succ_self _)

theorem Balanced.locked
    {l : L} {body : LockScript L}
    (hbody : Balanced rank (rank l + 1) body)
    (hfloor : floor ≤ rank l) :
    Balanced rank floor (locked l body) :=
  balanced_section hfloor hbody

theorem Balanced.rlocked
    {l : L} {body : LockScript L}
    (hbody : Balanced rank (rank l + 1) body)
    (hfloor : floor ≤ rank l) :
    Balanced rank floor (rlocked l body) :=
  balanced_section hfloor hbody

/-- A loop around `cond.Wait`, by a thread that holds no other lock. -/
theorem balanced_locked_condWait
    {l : L} :
    Balanced rank 0 (LockScript.locked l (.loop (condWait l))) := by
  intro held hheld
  have hnil := eq_nil_of_lt_zero hheld
  subst hnil
  have hbelow : ∀ h ∈ ([] : List (L × LockMode)), rank h.1 < rank l := by
    simp
  exact keeps_section hbelow
    ⟨rfl, [], ⟨_, rfl⟩, [], ⟨rfl, rfl⟩, _, ⟨hbelow, rfl⟩, rfl⟩

end Balanced

end LockScript

section Threads

variable {L : Type u}

/-- A thread: the locks it holds, the last one first, and what it still has to do. -/
structure LockThread (L : Type u) where
  held : List (L × LockMode)
  rest : List (LockAction L)

/-- One more than the rank of the lock that the thread waits for. -/
def LockThread.wanted (rank : L → Nat) (thread : LockThread L) : Nat :=
  match thread.rest with
  | .acquire l _ :: _ => rank l + 1
  | _ => 0

/-- The thread takes and releases locks in order, and in the end it holds none. -/
def InOrder (rank : L → Nat) : List (L × LockMode) → List (LockAction L) → Prop
  | held, [] => held = []
  | held, .acquire l mode :: rest =>
      (∀ h ∈ held, rank h.1 < rank l) ∧ InOrder rank ((l, mode) :: held) rest
  | held, .release l :: rest =>
      ∃ mode before, held = (l, mode) :: before ∧ InOrder rank before rest
  | held, .wait :: rest => held = [] ∧ InOrder rank held rest

/-- A script that keeps the order has only traces that do. -/
theorem LockScript.Runs.inOrder
    {rank : L → Nat} {p : LockScript L} {xs : List (LockAction L)}
    (h : p.Runs xs)
    {held held' : List (L × LockMode)} {ys : List (LockAction L)}
    (hkeeps : p.Keeps rank held held')
    (hrest : InOrder rank held' ys) :
    InOrder rank held (xs ++ ys) := by
  induction h generalizing held held' ys with
  | skip =>
      cases hkeeps
      exact hrest
  | acquire l mode =>
      obtain ⟨hranks, rfl⟩ := hkeeps
      exact ⟨hranks, hrest⟩
  | release l =>
      obtain ⟨mode, rfl⟩ := hkeeps
      exact ⟨mode, held', rfl, hrest⟩
  | wait =>
      obtain ⟨rfl, rfl⟩ := hkeeps
      exact ⟨rfl, hrest⟩
  | seq _ _ ihfirst ihsecond =>
      obtain ⟨between, hp, hq⟩ := hkeeps
      rw [List.append_assoc]
      exact ihfirst hp (ihsecond hq hrest)
  | left q _ ih =>
      exact ih hkeeps.1 hrest
  | right p _ ih =>
      exact ih hkeeps.2 hrest
  | choose a _ ih =>
      exact ih (hkeeps a) hrest
  | done p =>
      obtain ⟨rfl, -⟩ := hkeeps
      exact hrest
  | again _ _ ihonce ihrest =>
      obtain ⟨rfl, hp⟩ := hkeeps
      rw [List.append_assoc]
      exact ihonce hp (ihrest ⟨rfl, hp⟩ hrest)

variable {ι : Type v}

/-- The threads, each with its locks. -/
abbrev LockState (ι : Type v) (L : Type u) := ι → LockThread L

namespace LockState

/-- Some thread holds the lock. -/
def Held (s : LockState ι L) (l : L) : Prop :=
  ∃ i mode, (l, mode) ∈ (s i).held

/-- Some thread holds the lock exclusively. -/
def HeldExclusively (s : LockState ι L) (l : L) : Prop :=
  ∃ i, (l, LockMode.exclusive) ∈ (s i).held

/-- The lock can be taken in the given mode. -/
def Free (s : LockState ι L) (l : L) : LockMode → Prop
  | .exclusive => ¬s.Held l
  | .shared => ¬s.HeldExclusively l

/-- What a thread may do next, as far as the others let it. -/
inductive Step (s : LockState ι L) (i : ι) : LockThread L → Prop
  | acquire
      {l : L} {mode : LockMode} {rest : List (LockAction L)}
      (hnext : (s i).rest = .acquire l mode :: rest)
      (hfree : s.Free l mode) :
      Step s i ⟨(l, mode) :: (s i).held, rest⟩
  | release
      {l : L} {mode : LockMode} {before : List (L × LockMode)} {rest : List (LockAction L)}
      (hnext : (s i).rest = .release l :: rest)
      (hheld : (s i).held = (l, mode) :: before) :
      Step s i ⟨before, rest⟩
  | wait
      {rest : List (LockAction L)}
      (hnext : (s i).rest = .wait :: rest) :
      Step s i ⟨(s i).held, rest⟩

/-- The states that the threads can come to. -/
inductive Reaches [DecidableEq ι] (s : LockState ι L) : LockState ι L → Prop
  | refl : Reaches s s
  | step
      {t : LockState ι L} {i : ι} {thread : LockThread L}
      (before : Reaches s t)
      (hstep : t.Step i thread) :
      Reaches s (Function.update t i thread)

/-- The thread is at a lock. -/
def WaitsFor (s : LockState ι L) (i : ι) (l : L) : Prop :=
  ∃ mode rest, (s i).rest = .acquire l mode :: rest

/--
Nothing keeps the thread from going on: it releases a lock, or takes one that no thread
holds, or shares one that no thread holds exclusively or is about to take exclusively
(a readers-writer lock lets no new reader in while a writer waits).
-/
def Ready (s : LockState ι L) (i : ι) : Prop :=
  (∃ l rest, (s i).rest = .release l :: rest) ∨
  (∃ l rest, (s i).rest = .acquire l .exclusive :: rest ∧ ¬s.Held l) ∨
  (∃ l rest, (s i).rest = .acquire l .shared :: rest ∧ ¬s.HeldExclusively l ∧
    ∀ j rest', (s j).rest ≠ .acquire l .exclusive :: rest')

variable {rank : L → Nat}

/-- A step keeps the order of the thread that makes it. -/
theorem Step.inOrder
    {s : LockState ι L} {i : ι} {thread : LockThread L}
    (hstep : s.Step i thread)
    (h : InOrder rank (s i).held (s i).rest) :
    InOrder rank thread.held thread.rest := by
  cases hstep with
  | acquire hnext hfree =>
      rw [hnext] at h
      exact h.2
  | release hnext hheld =>
      rw [hnext, hheld] at h
      obtain ⟨mode, before, heq, hrest⟩ := h
      cases heq
      exact hrest
  | wait hnext =>
      rw [hnext] at h
      exact h.2

/-- All threads keep the order. -/
theorem Reaches.inOrder
    [DecidableEq ι] {s t : LockState ι L}
    (hreach : s.Reaches t)
    (h : ∀ i, InOrder rank (s i).held (s i).rest)
    (i : ι) :
    InOrder rank (t i).held (t i).rest := by
  induction hreach with
  | refl =>
      exact h i
  | @step t j thread before hstep ih =>
      by_cases hij : i = j
      · subst hij
        rw [Function.update_self]
        exact hstep.inOrder ih
      · rw [Function.update_of_ne hij]
        exact ih

/-- A thread with a lock in its hands either releases one or takes one of a higher rank. -/
theorem holder_next
    {s : LockState ι L} {i : ι} {l : L} {mode : LockMode}
    (h : InOrder rank (s i).held (s i).rest)
    (hheld : (l, mode) ∈ (s i).held) :
    s.Ready i ∨ ∃ l', s.WaitsFor i l' ∧ rank l < rank l' := by
  cases hrest : (s i).rest with
  | nil =>
      rw [hrest] at h
      rw [show (s i).held = [] from h] at hheld
      cases hheld
  | cons action rest =>
      rw [hrest] at h
      cases action with
      | acquire l' mode' =>
          exact Or.inr ⟨l', ⟨mode', rest, hrest⟩, h.1 _ hheld⟩
      | release l' =>
          exact Or.inl (Or.inl ⟨l', rest, hrest⟩)
      | wait =>
          rw [h.1] at hheld
          cases hheld

/-- A thread that waits for a lock finds it held, or finds another that goes on to take it. -/
theorem held_or_ready
    {s : LockState ι L} {i : ι} {l : L}
    (hwaits : s.WaitsFor i l) :
    s.Held l ∨ ∃ j, s.Ready j := by
  by_cases hheld : s.Held l
  · exact Or.inl hheld
  · have hshared : ¬s.HeldExclusively l := by
      rintro ⟨j, hj⟩
      exact hheld ⟨j, _, hj⟩
    right
    by_cases hwriter : ∃ j rest, (s j).rest = .acquire l .exclusive :: rest
    · obtain ⟨j, rest, hj⟩ := hwriter
      exact ⟨j, Or.inr (Or.inl ⟨l, rest, hj, hheld⟩)⟩
    · obtain ⟨mode, rest, hi⟩ := hwaits
      cases mode with
      | exclusive =>
          exact absurd ⟨i, rest, hi⟩ hwriter
      | shared =>
          refine ⟨i, Or.inr (Or.inr ⟨l, rest, hi, hshared, ?_⟩)⟩
          intro j rest' hj
          exact hwriter ⟨j, rest', hj⟩

theorem WaitsFor.wanted
    {s : LockState ι L} {i : ι} {l : L}
    (h : s.WaitsFor i l) :
    (s i).wanted rank = rank l + 1 := by
  obtain ⟨mode, rest, hrest⟩ := h
  simp only [LockThread.wanted, hrest]

theorem exists_waitsFor_of_wanted_pos
    {s : LockState ι L} {i : ι}
    (h : 0 < (s i).wanted rank) :
    ∃ l, s.WaitsFor i l := by
  unfold LockThread.wanted at h
  split at h
  next l mode rest hrest =>
    exact ⟨l, mode, rest, hrest⟩
  next =>
    exact absurd h (Nat.lt_irrefl 0)

/--
Threads that keep the order are never in a deadlock: while one of them waits for a lock,
some thread can go on.
-/
theorem exists_ready_of_waiting
    [Finite ι] {s : LockState ι L}
    (h : ∀ i, InOrder rank (s i).held (s i).rest)
    {i : ι} {l : L}
    (hwaits : s.WaitsFor i l) :
    ∃ j, s.Ready j := by
  have : Nonempty ι := ⟨i⟩
  -- the thread that waits for the lock of the highest rank
  obtain ⟨j, hmax⟩ := Finite.exists_max fun k => (s k).wanted rank
  have hpos : 0 < (s j).wanted rank := by
    have hi := hmax i
    rw [hwaits.wanted] at hi
    omega
  obtain ⟨l', hj⟩ := exists_waitsFor_of_wanted_pos hpos
  rcases held_or_ready hj with ⟨k, mode, hheld⟩ | hready
  · rcases holder_next (h k) hheld with hready | ⟨l'', hk, hlt⟩
    · exact ⟨k, hready⟩
    · have hle := hmax k
      rw [hj.wanted, hk.wanted] at hle
      omega
  · exact hready

/-- A thread that is ready makes a step, and has less to do afterwards. -/
theorem Ready.step
    {s : LockState ι L} {i : ι}
    (hready : s.Ready i)
    (h : InOrder rank (s i).held (s i).rest) :
    ∃ thread, s.Step i thread ∧ thread.rest.length < (s i).rest.length := by
  rcases hready with ⟨l, rest, hrest⟩ | ⟨l, rest, hrest, hfree⟩ | ⟨l, rest, hrest, hfree, -⟩
  · rw [hrest] at h
    obtain ⟨mode, before, hheld, -⟩ := h
    exact ⟨_, .release hrest hheld, by simp [hrest]⟩
  · exact ⟨_, .acquire hrest hfree, by simp [hrest]⟩
  · exact ⟨_, .acquire hrest hfree, by simp [hrest]⟩

/-- Ready threads make steps; no wait for anything but a lock ends meanwhile. -/
inductive Settles [DecidableEq ι] : LockState ι L → LockState ι L → Prop
  | refl (s : LockState ι L) : Settles s s
  | step
      {s t : LockState ι L} {i : ι} {thread : LockThread L}
      (hready : s.Ready i)
      (hstep : s.Step i thread)
      (rest : Settles (Function.update s i thread) t) :
      Settles s t

/-- No thread holds a lock or waits for one. -/
def Quiet (s : LockState ι L) : Prop :=
  ∀ i, (s i).held = [] ∧ ∀ l, ¬s.WaitsFor i l

/-- If the locks are not at rest, some thread can go on. -/
theorem exists_ready_of_not_quiet
    [Finite ι] {s : LockState ι L}
    (h : ∀ i, InOrder rank (s i).held (s i).rest)
    (hnot : ¬s.Quiet) :
    ∃ j, s.Ready j := by
  by_cases hwaiting : ∃ i l, s.WaitsFor i l
  · obtain ⟨i, l, hwaits⟩ := hwaiting
    exact exists_ready_of_waiting h hwaits
  · obtain ⟨i, hi⟩ := not_forall.mp hnot
    cases hheld : (s i).held with
    | nil =>
        exact absurd ⟨hheld, fun l hl => hwaiting ⟨i, l, hl⟩⟩ hi
    | cons x before =>
        have hmem : (x.1, x.2) ∈ (s i).held := by
          rw [hheld]
          exact List.mem_cons_self
        rcases holder_next (h i) hmem with hready | ⟨l, hl, -⟩
        · exact ⟨i, hready⟩
        · exact absurd ⟨i, l, hl⟩ hwaiting

/--
Threads that keep the order can always bring the locks to rest, all of them, without
anything else happening: no group of threads is ever stuck with locks in their hands.
-/
theorem exists_settles_quiet
    [Fintype ι] [DecidableEq ι] {s : LockState ι L}
    (h : ∀ i, InOrder rank (s i).held (s i).rest) :
    ∃ t, s.Settles t ∧ t.Quiet := by
  -- by induction on what is left to do in all the threads together
  induction hwork : ∑ i, (s i).rest.length using Nat.strong_induction_on generalizing s with
  | _ work ih =>
      by_cases hquiet : s.Quiet
      · exact ⟨s, .refl s, hquiet⟩
      · obtain ⟨j, hready⟩ := exists_ready_of_not_quiet h hquiet
        obtain ⟨thread, hstep, hless⟩ := hready.step (h j)
        have horder : ∀ i, InOrder rank (Function.update s j thread i).held
            (Function.update s j thread i).rest :=
          (Reaches.refl.step hstep).inOrder h
        have hdecreases : ∑ i, (Function.update s j thread i).rest.length < work := by
          rw [← hwork]
          refine Finset.sum_lt_sum ?_ ⟨j, Finset.mem_univ j, ?_⟩
          · intro i _
            by_cases hij : i = j
            · subst hij
              rw [Function.update_self]
              exact hless.le
            · rw [Function.update_of_ne hij]
          · rw [Function.update_self]
            exact hless
        obtain ⟨t, hsettles, ht⟩ := ih _ hdecreases horder rfl
        exact ⟨t, .step hready hstep hsettles, ht⟩

end LockState

end Threads

end Lib
end TaskQueue
