import Mathlib.Data.List.Basic

/-!
Folds. A relation that every step keeps relates the start of a fold to its end, and what a fold adds
to a property of its state is what its items add.
-/

namespace RegionLayout

section Related

variable {α β : Type} {r : β → β → Prop} {step : β → α → β} {items : List α}
  (hrefl : ∀ state, r state state)
  (htrans : ∀ {first second third}, r first second → r second third → r first third)
  (hstep : ∀ state, ∀ item ∈ items, r state (step state item))

include hrefl htrans hstep

theorem foldl_related (state : β) : r state (items.foldl step state) := by
  induction items generalizing state with
  | nil => exact hrefl state
  | cons first rest ih =>
      have hfirst := hstep state first List.mem_cons_self
      have hrest := ih fun state item hitem => hstep state item (List.mem_cons_of_mem _ hitem)
      exact htrans hfirst (hrest (step state first))

/-- One of the steps of a fold, with what comes before and after it. -/
theorem exists_foldl_step {item : α} (hitem : item ∈ items) (state : β) :
    ∃ middle, r state middle ∧ r (step middle item) (items.foldl step state) := by
  obtain ⟨before, after, rfl⟩ := List.append_of_mem hitem
  refine ⟨before.foldl step state, foldl_related hrefl htrans (fun state other hother =>
    hstep state other (List.mem_append_left _ hother)) state, ?_⟩
  rw [List.foldl_append, List.foldl_cons]
  exact foldl_related hrefl htrans (fun state other hother =>
    hstep state other (List.mem_append_right _ (List.mem_cons_of_mem _ hother))) _

end Related

theorem foldl_iff {α β : Type} {step : β → α → β} (holds : β → Prop) (brings : α → Prop)
    (hstep : ∀ state item, holds (step state item) ↔ holds state ∨ brings item) (items : List α)
    (state : β) : holds (items.foldl step state) ↔ holds state ∨ ∃ item ∈ items, brings item := by
  induction items generalizing state with
  | nil => simp
  | cons first rest ih =>
      rw [List.foldl_cons, ih, hstep, or_assoc, List.exists_mem_cons_iff]

end RegionLayout
