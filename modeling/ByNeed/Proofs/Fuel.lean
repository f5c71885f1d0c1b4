set_option autoImplicit false

namespace ByNeed

section

variable {ε σ α β : Type}

/-- With enough fuel, the computation leads to the result. -/
def Eventually (computation : Nat → EStateM ε σ α) (state : σ) (result : EStateM.Result ε σ α) :
    Prop :=
  ∃ bound, ∀ fuel, bound ≤ fuel → computation fuel state = result

theorem eventually_of_forall {computation : Nat → EStateM ε σ α} {state : σ}
    {result : EStateM.Result ε σ α} (same : ∀ fuel, computation fuel state = result) :
    Eventually computation state result :=
  ⟨0, fun fuel _ => same fuel⟩

theorem Eventually.unique {computation : Nat → EStateM ε σ α} {state : σ}
    {result result' : EStateM.Result ε σ α} (leads : Eventually computation state result)
    (leads' : Eventually computation state result') : result = result' := by
  obtain ⟨bound, leads⟩ := leads
  obtain ⟨bound', leads'⟩ := leads'
  exact (leads (max bound bound') (by omega)).symm.trans (leads' (max bound bound') (by omega))

theorem Eventually.bind {computation : Nat → EStateM ε σ α} {next : Nat → α → EStateM ε σ β}
    {state state' : σ} {value : α} {result : EStateM.Result ε σ β}
    (first : Eventually computation state (.ok value state'))
    (second : Eventually (fun fuel => next fuel value) state' result) :
    Eventually (fun fuel => computation fuel >>= next fuel) state result := by
  obtain ⟨bound, first⟩ := first
  obtain ⟨bound', second⟩ := second
  refine ⟨max bound bound', fun fuel enough => ?_⟩
  have one := first fuel (by omega)
  have other := second fuel (by omega)
  simp only [Bind.bind, EStateM.bind, one]
  exact other

theorem Eventually.bind_error {computation : Nat → EStateM ε σ α} {next : Nat → α → EStateM ε σ β}
    {state state' : σ} {fault : ε} (first : Eventually computation state (.error fault state')) :
    Eventually (fun fuel => computation fuel >>= next fuel) state (.error fault state') := by
  obtain ⟨bound, first⟩ := first
  refine ⟨bound, fun fuel enough => ?_⟩
  simp only [Bind.bind, EStateM.bind, first fuel enough]

end

end ByNeed
