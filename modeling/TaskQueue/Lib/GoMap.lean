import Mathlib.Data.Finmap
import Mathlib.Tactic

/-!
# Go maps

A Go map is a finite map that is read and written by key, and that a `range`
loop visits in an arbitrary order.  Reading, writing and deleting are the
operations of Mathlib's finite maps; `modify` is a write through a pointer that
the map holds.  An iteration order is an explicit list (`Enumerates`).
-/

namespace TaskQueue
namespace Lib

universe u v

/-- `map[κ]ν`. -/
def GoMap (κ : Type u) (ν : Type v) : Type (max u v) :=
  Finmap (fun _ : κ => ν)

namespace GoMap

variable {κ : Type u} {ν : Type v}

/-- `make(map[κ]ν)`. -/
def empty : GoMap κ ν :=
  (∅ : Finmap (fun _ : κ => ν))

/-- The keys of the map. -/
def keys (m : GoMap κ ν) : Finset κ :=
  Finmap.keys m

variable [DecidableEq κ]

/-- `v, ok := m[k]`. -/
def get (m : GoMap κ ν) (k : κ) : Option ν :=
  Finmap.lookup k m

/-- `m[k] = v`. -/
def set (m : GoMap κ ν) (k : κ) (v : ν) : GoMap κ ν :=
  Finmap.insert k v m

/-- `delete(m, k)`. -/
def delete (m : GoMap κ ν) (k : κ) : GoMap κ ν :=
  Finmap.erase k m

/-- Apply `f` to the value that the map holds for `k`, if there is one. -/
def modify (m : GoMap κ ν) (k : κ) (f : ν → ν) : GoMap κ ν :=
  match m.get k with
  | some v => m.set k (f v)
  | none => m

/-- `order` is a possible order of `for k := range m`. -/
def Enumerates (m : GoMap κ ν) (order : List κ) : Prop :=
  order.Nodup ∧ order.toFinset = m.keys

instance (m : GoMap κ ν) (order : List κ) : Decidable (m.Enumerates order) :=
  inferInstanceAs (Decidable (_ ∧ _))

@[simp] theorem get_empty
    (k : κ) :
    (empty : GoMap κ ν).get k = none := by
  exact Finmap.lookup_empty k

theorem get_set
    (m : GoMap κ ν) (k j : κ) (v : ν) :
    (m.set k v).get j = if j = k then some v else m.get j := by
  split_ifs with h
  · subst h
    exact Finmap.lookup_insert m
  · exact Finmap.lookup_insert_of_ne m h

theorem get_delete
    (m : GoMap κ ν) (k j : κ) :
    (m.delete k).get j = if j = k then none else m.get j := by
  split_ifs with h
  · subst h
    exact Finmap.lookup_erase j m
  · exact Finmap.lookup_erase_ne h

theorem get_modify
    (m : GoMap κ ν) (k j : κ) (f : ν → ν) :
    (m.modify k f).get j = if j = k then (m.get k).map f else m.get j := by
  unfold modify
  split
  · next v hv =>
    rw [get_set, hv]
    rfl
  · next hv =>
    split_ifs with h
    · rw [h, hv]
      rfl
    · rfl

@[simp] theorem get_modify_self
    (m : GoMap κ ν) (k : κ) (f : ν → ν) :
    (m.modify k f).get k = (m.get k).map f := by
  simp [get_modify]

theorem get_modify_of_ne
    (m : GoMap κ ν) {k j : κ} (f : ν → ν)
    (h : j ≠ k) :
    (m.modify k f).get j = m.get j := by
  simp [get_modify, h]

/-- Writing through a pointer neither adds nor removes a key. -/
@[simp] theorem get_modify_isSome
    (m : GoMap κ ν) (k j : κ) (f : ν → ν) :
    ((m.modify k f).get j).isSome = (m.get j).isSome := by
  rw [get_modify]
  split_ifs with h
  · rw [h, Option.isSome_map]
  · rfl

theorem ext
    {m m' : GoMap κ ν}
    (h : ∀ k, m.get k = m'.get k) :
    m = m' :=
  Finmap.ext_lookup h

/-- Two writes through the same pointer are one. -/
theorem modify_modify
    (m : GoMap κ ν) (k : κ) (f g : ν → ν) :
    (m.modify k f).modify k g = m.modify k (g ∘ f) := by
  apply ext
  intro j
  simp only [get_modify, if_true]
  split_ifs
  · exact Option.map_map g f (m.get k)
  · rfl

theorem mem_keys
    {m : GoMap κ ν} {k : κ} :
    k ∈ m.keys ↔ (m.get k).isSome = true := by
  exact Finmap.mem_keys.trans Finmap.lookup_isSome.symm

theorem Enumerates.mem
    {m : GoMap κ ν} {order : List κ}
    (h : m.Enumerates order)
    {k : κ} :
    k ∈ order ↔ (m.get k).isSome = true := by
  rw [← mem_keys, ← h.2, List.mem_toFinset]

/-- Any two iterations visit the same keys. -/
theorem Enumerates.perm
    {m : GoMap κ ν} {order₁ order₂ : List κ}
    (h₁ : m.Enumerates order₁)
    (h₂ : m.Enumerates order₂) :
    order₁.Perm order₂ := by
  rw [List.perm_ext_iff_of_nodup h₁.1 h₂.1]
  intro k
  rw [h₁.mem, h₂.mem]

theorem exists_enumerates
    (m : GoMap κ ν) :
    ∃ order, m.Enumerates order :=
  ⟨m.keys.toList, Finset.nodup_toList _, Finset.toList_toFinset _⟩

/-- An iteration can start with any key. -/
theorem exists_enumerates_cons
    {m : GoMap κ ν} {k : κ}
    (h : (m.get k).isSome = true) :
    ∃ rest, m.Enumerates (k :: rest) := by
  refine ⟨(m.keys.erase k).toList, ?_, ?_⟩
  · rw [List.nodup_cons, Finset.mem_toList]
    exact ⟨Finset.notMem_erase k _, Finset.nodup_toList _⟩
  · rw [List.toFinset_cons, Finset.toList_toFinset, Finset.insert_erase (mem_keys.mpr h)]

/-- Counting in the map is counting along an iteration. -/
theorem Enumerates.card_filter
    {m : GoMap κ ν} {order : List κ}
    (h : m.Enumerates order)
    (p : κ → Bool) :
    (m.keys.filter fun k => p k = true).card = (order.filter p).length := by
  rw [← h.2, ← List.toFinset_filter]
  exact List.toFinset_card_of_nodup (h.1.filter p)

end GoMap

end Lib
end TaskQueue
