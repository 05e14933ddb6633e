import Mathlib.Tactic

/-!
# Attempts with a limit

The history of a job that is tried again after a failure, as long as the error allows it
and the number of attempts is below a limit; `none` is a success.  `Attempts` says that
every attempt of a history was allowed by the results before it.  Such a history is not
longer than the limit, all of its results but the last are failures that can be retried,
and another attempt may be made unless it has a success or is exhausted.
-/

namespace TaskQueue
namespace Lib

universe u

section Attempts

variable {ε : Type u}

/-- The errors of a history. -/
def failures (rs : List (Option ε)) : List ε :=
  rs.filterMap fun r => r

/-- The attempt failed, and its error does not forbid another one. -/
def Retryable (fatal : ε → Bool) (r : Option ε) : Prop :=
  ∃ err, r = some err ∧ fatal err = false

/-- Another attempt may be made after these. -/
def MayTry (fatal : ε → Bool) (limit : Nat) (rs : List (Option ε)) : Prop :=
  (∀ r ∈ rs, Retryable fatal r) ∧ rs.length < limit

/-- No attempt may be made any more, although none was a success. -/
def Exhausted (fatal : ε → Bool) (limit : Nat) (rs : List (Option ε)) : Prop :=
  (∃ err ∈ failures rs, fatal err = true) ∨ (failures rs).length = limit

/-- Every attempt was made when it might be. -/
inductive Attempts (fatal : ε → Bool) (limit : Nat) : List (Option ε) → Prop
  | start : Attempts fatal limit []
  | more
      {rs : List (Option ε)}
      (before : Attempts fatal limit rs)
      (may : MayTry fatal limit rs)
      (r : Option ε) :
      Attempts fatal limit (rs ++ [r])

theorem failures_success
    (rs : List (Option ε)) :
    failures (rs ++ [none]) = failures rs := by
  simp [failures]

theorem failures_failure
    (rs : List (Option ε)) (err : ε) :
    failures (rs ++ [some err]) = failures rs ++ [err] := by
  simp [failures]

variable {fatal : ε → Bool} {limit : Nat} {rs : List (Option ε)}

theorem failures_of_retryable
    (h : ∀ r ∈ rs, Retryable fatal r) :
    (failures rs).length = rs.length ∧ ∀ err ∈ failures rs, fatal err = false := by
  induction rs with
  | nil =>
      simp [failures]
  | cons r rs ih =>
      obtain ⟨err, rfl, herr⟩ := h r List.mem_cons_self
      obtain ⟨hlen, hall⟩ := ih fun r' hr' => h r' (List.mem_cons_of_mem _ hr')
      have hcons : failures (some err :: rs) = err :: failures rs := rfl
      constructor
      · rw [hcons, List.length_cons, List.length_cons, hlen]
      · intro err' hmem
        rw [hcons] at hmem
        rcases List.mem_cons.mp hmem with rfl | hold
        · exact herr
        · exact hall err' hold

theorem Attempts.length_le
    (h : Attempts fatal limit rs) :
    rs.length ≤ limit := by
  induction h with
  | start =>
      exact Nat.zero_le limit
  | more _ may r _ =>
      rw [List.length_append, List.length_singleton]
      exact may.2

/-- All results but the last are failures that can be retried. -/
theorem Attempts.earlier
    (h : Attempts fatal limit rs) :
    ∀ r ∈ rs.dropLast, Retryable fatal r := by
  cases h with
  | start =>
      intro r hr
      cases hr
  | more before may r =>
      rw [List.dropLast_concat]
      exact may.1

theorem MayTry.not_success
    (h : MayTry fatal limit rs) :
    none ∉ rs := by
  intro hmem
  obtain ⟨err, herr, -⟩ := h.1 none hmem
  cases herr

theorem MayTry.not_exhausted
    (h : MayTry fatal limit rs) :
    ¬ Exhausted fatal limit rs := by
  obtain ⟨hlen, hall⟩ := failures_of_retryable h.1
  rintro (⟨err, hmem, hfatal⟩ | hlimit)
  · rw [hall err hmem] at hfatal
    cases hfatal
  · rw [hlen] at hlimit
    exact absurd hlimit h.2.ne

/-- A history that has come to no end can be continued. -/
theorem Attempts.mayTry
    (h : Attempts fatal limit rs)
    (hsuccess : none ∉ rs)
    (hexhausted : ¬ Exhausted fatal limit rs) :
    MayTry fatal limit rs := by
  have hle := h.length_le
  have hall : ∀ r ∈ rs, Retryable fatal r := by
    cases h with
    | start =>
        intro r hr
        cases hr
    | more before may r =>
        intro r' hr'
        rcases List.mem_append.mp hr' with hold | hlast
        · exact may.1 r' hold
        · rw [List.mem_singleton.mp hlast]
          cases r with
          | none =>
              exact absurd (List.mem_append_right _ List.mem_cons_self) hsuccess
          | some err =>
              refine ⟨err, rfl, ?_⟩
              by_contra hfatal
              refine hexhausted (Or.inl ⟨err, ?_, by simpa using hfatal⟩)
              rw [failures_failure]
              exact List.mem_append_right _ List.mem_cons_self
  refine ⟨hall, lt_of_le_of_ne hle ?_⟩
  intro heq
  exact hexhausted (Or.inr ((failures_of_retryable hall).1.trans heq))

/-- A success does not exhaust the attempts. -/
theorem MayTry.success
    (h : MayTry fatal limit rs) :
    ¬ Exhausted fatal limit (rs ++ [none]) := by
  unfold Exhausted
  rw [failures_success]
  exact h.not_exhausted

/-- When a failure exhausts the attempts. -/
theorem MayTry.failure
    (h : MayTry fatal limit rs)
    (err : ε) :
    Exhausted fatal limit (rs ++ [some err]) ↔ fatal err = true ∨ rs.length + 1 = limit := by
  obtain ⟨hlen, hall⟩ := failures_of_retryable h.1
  unfold Exhausted
  rw [failures_failure, List.length_append, List.length_singleton, hlen]
  refine or_congr_left ?_
  constructor
  · rintro ⟨err', hmem, hfatal⟩
    rcases List.mem_append.mp hmem with hold | hlast
    · rw [hall err' hold] at hfatal
      cases hfatal
    · rw [← List.mem_singleton.mp hlast]
      exact hfatal
  · intro hfatal
    exact ⟨err, List.mem_append_right _ List.mem_cons_self, hfatal⟩

end Attempts

end Lib
end TaskQueue
