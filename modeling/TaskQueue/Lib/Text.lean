import Mathlib.Tactic

/-!
# Texts that are searched for other texts

`strings.Contains` and `strings.TrimPrefix`.  A text that is put together from parts is
searched part by part, as long as what stands between them does not occur in the text that is
looked for (`isInfix_append_cons_iff`, `isInfix_append_iff_of_disjoint`).
-/

namespace TaskQueue
namespace Lib

/-- `strings.Contains`. -/
def contains (s substr : String) : Bool :=
  decide (substr.toList <:+: s.toList)

/-- `strings.TrimPrefix`. -/
def trimPrefix (s start : String) : String :=
  if start.toList <+: s.toList then
    String.ofList (s.toList.drop start.toList.length)
  else
    s

theorem contains_iff
    (s substr : String) :
    contains s substr = true ↔ substr.toList <:+: s.toList :=
  decide_eq_true_iff

theorem trimPrefix_append
    (start s : String) :
    trimPrefix (start ++ s) start = s := by
  have hprefix : start.toList <+: (start ++ s).toList := by
    rw [String.toList_append]
    exact List.prefix_append _ _
  rw [trimPrefix, if_pos hprefix, String.toList_append, List.drop_left, String.ofList_toList]

section Infix

variable {α : Type*} {sub : List α}

theorem isPrefix_of_append_cons
    {c : α}
    (hc : c ∉ sub)
    {xs ys : List α}
    (h : sub <+: xs ++ c :: ys) :
    sub <+: xs := by
  induction xs generalizing sub with
  | nil =>
      cases sub with
      | nil =>
          exact List.nil_prefix
      | cons a sub =>
          obtain ⟨rfl, -⟩ := List.cons_prefix_cons.mp h
          exact absurd List.mem_cons_self hc
  | cons x xs ih =>
      cases sub with
      | nil =>
          exact List.nil_prefix
      | cons a sub =>
          obtain ⟨rfl, hrest⟩ := List.cons_prefix_cons.mp h
          have htail := ih (fun hmem => hc (List.mem_cons_of_mem _ hmem)) hrest
          exact List.cons_prefix_cons.mpr ⟨rfl, htail⟩

/-- What does not have `c` in it does not reach over a `c`. -/
theorem isInfix_append_cons_iff
    {c : α}
    (hc : c ∉ sub)
    (xs ys : List α) :
    sub <:+: xs ++ c :: ys ↔ sub <:+: xs ∨ sub <:+: ys := by
  constructor
  · intro h
    induction xs with
    | nil =>
        rcases List.infix_cons_iff.mp h with hfirst | hlater
        · exact Or.inl (isPrefix_of_append_cons hc hfirst).isInfix
        · exact Or.inr hlater
    | cons x xs ih =>
        rcases List.infix_cons_iff.mp h with hfirst | hlater
        · exact Or.inl (isPrefix_of_append_cons hc hfirst).isInfix
        · exact (ih hlater).imp_left List.infix_cons
  · rintro (h | h)
    · exact h.trans (List.prefix_append xs _).isInfix
    · exact h.trans (List.suffix_append_of_suffix (List.suffix_cons c ys)).isInfix

/-- Nor does the text reach over a separator and a character that it does not start with. -/
theorem isInfix_append_cons_cons_iff
    {b c : α}
    (hc : c ∉ sub)
    (hb : sub.head? ≠ some b)
    (xs ys : List α) :
    sub <:+: xs ++ c :: b :: ys ↔ sub <:+: xs ∨ sub <:+: ys := by
  rw [isInfix_append_cons_iff hc, List.infix_cons_iff]
  cases sub with
  | nil =>
      simp
  | cons x sub =>
      have hx : x ≠ b := fun hxb => hb (by rw [hxb, List.head?_cons])
      have hfirst : ¬ x :: sub <+: b :: ys := fun h => hx (List.cons_prefix_cons.mp h).1
      rw [or_iff_right hfirst]

/-- A part that has nothing in common with what is looked for may be skipped. -/
theorem isInfix_append_iff_of_disjoint
    (hsub : sub ≠ [])
    {xs : List α}
    (hxs : ∀ c ∈ xs, c ∉ sub)
    (ys : List α) :
    sub <:+: xs ++ ys ↔ sub <:+: ys := by
  induction xs with
  | nil =>
      rfl
  | cons x xs ih =>
      have hx : x ∉ sub := hxs x List.mem_cons_self
      have hrest : ∀ c ∈ xs, c ∉ sub := fun c hc => hxs c (List.mem_cons_of_mem _ hc)
      have hsplit := isInfix_append_cons_iff hx [] (xs ++ ys)
      rw [List.nil_append] at hsplit
      rw [List.cons_append, hsplit, ih hrest, List.infix_nil, or_iff_right hsub]

end Infix

end Lib
end TaskQueue
