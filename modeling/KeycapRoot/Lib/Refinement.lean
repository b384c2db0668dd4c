import Mathlib.Tactic.Common

/-!
# Refinement of one data type by another

Two machines answer the same operations: `exec` computes on the concrete states `σ`, `spec` on the
abstract states `τ` and is undefined where the abstract type promises nothing. `Simulates` says
that related states answer every promised operation alike and stay related; `Simulates.trace`
carries this from one operation to whole traces of them.
-/

namespace Refinement

variable {ι ρ σ τ : Type*}

/-- The replies to a list of operations, and the state after them. -/
def trace (exec : ι → σ → Option (ρ × σ)) : List ι → σ → Option (List ρ × σ)
  | [], s => some ([], s)
  | op :: ops, s => do
    let (r, s₁) ← exec op s
    let (rs, s₂) ← trace exec ops s₁
    return (r :: rs, s₂)

theorem trace_cons_eq_some {exec : ι → σ → Option (ρ × σ)} {op : ι} {ops : List ι} {s s₂ : σ}
    {rs : List ρ} :
    trace exec (op :: ops) s = some (rs, s₂) ↔
      ∃ r s₁ rs', exec op s = some (r, s₁) ∧ trace exec ops s₁ = some (rs', s₂) ∧
        rs = r :: rs' := by
  constructor
  · intro h
    obtain ⟨⟨r, s₁⟩, hop, h⟩ := Option.bind_eq_some_iff.1 h
    obtain ⟨⟨rs', s'⟩, hops, h⟩ := Option.bind_eq_some_iff.1 h
    cases h
    exact ⟨r, s₁, rs', hop, hops, rfl⟩
  · rintro ⟨r, s₁, rs', hop, hops, rfl⟩
    simp [trace, hop, hops]

/-- Related states answer every operation that `spec` promises alike, and stay related. -/
def Simulates (R : σ → τ → Prop) (exec : ι → σ → Option (ρ × σ))
    (spec : ι → τ → Option (ρ × τ)) : Prop :=
  ∀ op s q r q', R s q → spec op q = some (r, q') → ∃ s', exec op s = some (r, s') ∧ R s' q'

/-- **Refinement of traces**: a simulation answers every promised trace alike. -/
theorem Simulates.trace {R : σ → τ → Prop} {exec : ι → σ → Option (ρ × σ)}
    {spec : ι → τ → Option (ρ × τ)} (h : Simulates R exec spec) {ops : List ι} {s : σ} {q q' : τ}
    {rs : List ρ} (hR : R s q) (hspec : Refinement.trace spec ops q = some (rs, q')) :
    ∃ s', Refinement.trace exec ops s = some (rs, s') ∧ R s' q' := by
  induction ops generalizing s q rs with
  | nil =>
    cases hspec
    exact ⟨s, rfl, hR⟩
  | cons op ops ih =>
    obtain ⟨r, q₁, rs', hop, hops, rfl⟩ := trace_cons_eq_some.1 hspec
    obtain ⟨s₁, hexec, hR₁⟩ := h op s q r q₁ hR hop
    obtain ⟨s', htrace, hR'⟩ := ih hR₁ hops
    exact ⟨s', trace_cons_eq_some.2 ⟨r, s₁, rs', hexec, htrace, rfl⟩, hR'⟩

end Refinement
