import DgMiddleware.Library.Run

/-! Runs put together and taken apart, and forward simulation between two labelled
transition relations: one step on the first side is matched by one step, or by a run, on
the second. -/
namespace DgMiddleware.Library.Run
variable {σ τ ℓ μ : Type} {step : σ → ℓ → σ → Prop} {step' : τ → μ → τ → Prop} {init s : σ} {init' : τ}
  {trace : List (σ × ℓ)}

theorem append {u : σ} {before after : List (σ × ℓ)} (hbefore : Run step init before u)
    (hafter : Run step u after s) : Run step init (before ++ after) s := by
  induction hafter with
  | start => rwa [List.append_nil]
  | next _ hstep ih =>
    rw [← List.append_assoc]
    exact ih.next hstep

/-- A run goes on from the state that any of its labels leads to. -/
theorem resume {before after : List (σ × ℓ)} {x : σ × ℓ} (h : Run step init (before ++ x :: after) s) :
    ∃ t, Run step init before x.1 ∧ step x.1 x.2 t ∧ Run step t after s := by
  generalize htrace : before ++ x :: after = trace at h
  induction h generalizing after with
  | start => simp at htrace
  | @next trace s t e hr hs ih =>
    rcases List.eq_nil_or_concat after with rfl | ⟨after', y, rfl⟩
    · obtain ⟨rfl, hx⟩ := List.append_inj' htrace rfl
      obtain rfl : x = (s, e) := List.singleton_inj.mp hx
      exact ⟨t, hr, hs, .start⟩
    · rw [List.concat_eq_append, ← List.cons_append, ← List.append_assoc] at htrace
      obtain ⟨hold, hlast⟩ := List.append_inj' htrace rfl
      obtain rfl : y = (s, e) := List.singleton_inj.mp hlast
      obtain ⟨u, hbefore, hstep, hafter⟩ := ih hold
      rw [List.concat_eq_append]
      exact ⟨u, hbefore, hstep, hafter.next hs⟩

/-- Related states stay related when every step of the first side is matched by a step
with the label that belongs to its own. -/
theorem simulates (related : σ → τ → Prop) (cond : σ → ℓ → Prop) (label : ℓ → μ)
    (h0 : related init init')
    (hstep : ∀ s e t a, related s a → cond s e → step s e t → ∃ b, step' a (label e) b ∧ related t b)
    (h : Run step init trace s) (hc : ∀ x ∈ trace, cond x.1 x.2) :
    ∃ trace' a, Run step' init' trace' a ∧ trace'.map Prod.snd = trace.map (fun x => label x.2) ∧ related s a := by
  induction h with
  | start => exact ⟨[], init', .start, rfl, h0⟩
  | @next trace s t e _ hs ih =>
    obtain ⟨trace', a, hrun, hlabels, hrel⟩ := ih fun x hx => hc x (List.mem_append_left _ hx)
    obtain ⟨b, hmatch, hrel'⟩ := hstep s e t a hrel (hc (s, e) (by simp)) hs
    exact ⟨_, b, hrun.next hmatch, by simp [hlabels], hrel'⟩

/-- A step may be matched by a run of any length, as long as it shows the same. -/
theorem simulates_runs {ω : Type} (related : σ → τ → Prop) (cond : σ → ℓ → Prop) (shown : σ × ℓ → List ω)
    (shown' : τ × μ → List ω) (h0 : related init init')
    (hstep : ∀ s e t a, related s a → cond s e → step s e t →
      ∃ trace' b, Run step' a trace' b ∧ trace'.flatMap shown' = shown (s, e) ∧ related t b)
    (h : Run step init trace s) (hc : ∀ x ∈ trace, cond x.1 x.2) :
    ∃ trace' a, Run step' init' trace' a ∧ trace'.flatMap shown' = trace.flatMap shown ∧ related s a := by
  induction h with
  | start => exact ⟨[], init', .start, rfl, h0⟩
  | @next trace s t e _ hs ih =>
    obtain ⟨trace', a, hrun, hshown, hrel⟩ := ih fun x hx => hc x (List.mem_append_left _ hx)
    obtain ⟨trace'', b, hmatch, hshown', hrel'⟩ := hstep s e t a hrel (hc (s, e) (by simp)) hs
    exact ⟨_, b, hrun.append hmatch, by simp [List.flatMap_append, hshown, hshown'], hrel'⟩

end DgMiddleware.Library.Run
