/-!
Steps. What a machine does to a state, one change after another: any of them may stop it, and then
it has changed what those before it have changed.
-/

namespace RegionLayout

/-- Steps change a state, and what they have changed stays so when a later one fails. -/
abbrev Steps (ε σ β : Type) := ExceptT ε (StateM σ) β

namespace Steps

variable {ε σ β γ : Type}

def result (steps : Steps ε σ β) (state : σ) : Except ε β × σ :=
  (steps.run.run state).run

variable {steps : Steps ε σ β} {next : β → Steps ε σ γ} {state middle : σ} {item : β}

theorem result_bind (hsteps : steps.result state = (.ok item, middle)) :
    (steps >>= next).result state = (next item).result middle := by
  have hrun : (ExceptT.run steps).run state = (.ok item, middle) := hsteps
  simp only [result, ExceptT.run_bind, StateT.run_bind, hrun]
  rfl

theorem result_bind_error {stop : ε} (hsteps : steps.result state = (.error stop, middle)) :
    (steps >>= next).result state = (.error stop, middle) := by
  have hrun : (ExceptT.run steps).run state = (.error stop, middle) := hsteps
  simp only [result, ExceptT.run_bind, StateT.run_bind, hrun]
  rfl

theorem result_get : (get : Steps ε σ σ).result state = (.ok state, state) := rfl

end Steps

end RegionLayout
