import Mathlib.Data.List.Induction
import Mathlib.Tactic.Common

/-! Finite runs of a labelled transition relation. A run records every label
together with the state it was issued in, newest last. -/
namespace DgMiddleware.Library
variable {σ ℓ : Type}

inductive Run (step : σ → ℓ → σ → Prop) (init : σ) : List (σ × ℓ) → σ → Prop
  | start : Run step init [] init
  | next {trace : List (σ × ℓ)} {s t : σ} {e : ℓ} :
      Run step init trace s → step s e t → Run step init (trace ++ [(s, e)]) t

/-- What holds of every element with all that is before it. -/
theorem forall_splits_concat {α : Type} {P : List α → α → Prop} {xs : List α} {y : α} :
    (∀ before x after, xs ++ [y] = before ++ x :: after → P before x) ↔
      (∀ before x after, xs = before ++ x :: after → P before x) ∧ P xs y := by
  constructor
  · intro h
    exact ⟨fun before x after heq => h before x (after ++ [y]) (by simp [heq]), h xs y [] rfl⟩
  · rintro ⟨hold, hnew⟩ before x after heq
    rcases List.eq_nil_or_concat after with rfl | ⟨after', z, rfl⟩
    · obtain ⟨rfl, hx⟩ := List.append_inj' heq rfl
      exact List.singleton_inj.mp hx ▸ hnew
    · rw [List.concat_eq_append, ← List.cons_append, ← List.append_assoc] at heq
      exact hold before x after' (List.append_inj' heq rfl).1

/-- The same by the positions of the elements, which can be decided. -/
theorem forall_splits_iff {α : Type} {P : List α → α → Prop} {xs : List α} :
    (∀ before x after, xs = before ++ x :: after → P before x) ↔ ∀ i : Fin xs.length, P (xs.take i) xs[i] := by
  constructor
  · intro h i
    refine h (xs.take i) xs[i] (xs.drop (i + 1)) ?_
    simp
  · rintro h before x after rfl
    simpa using h ⟨before.length, by simp⟩

namespace Run
variable {step : σ → ℓ → σ → Prop} {init s : σ} {trace : List (σ × ℓ)}

/-- A run passes through the state that any of its labels was issued in. -/
theorem split {before after : List (σ × ℓ)} {x : σ × ℓ} (h : Run step init (before ++ x :: after) s) :
    Run step init before x.1 ∧ ∃ t, step x.1 x.2 t := by
  generalize htrace : before ++ x :: after = trace at h
  induction h generalizing after with
  | start => simp at htrace
  | @next trace s t e hr hs ih =>
    rcases List.eq_nil_or_concat after with rfl | ⟨after', y, rfl⟩
    · obtain ⟨rfl, hx⟩ := List.append_inj' htrace rfl
      obtain rfl : x = (s, e) := List.singleton_inj.mp hx
      exact ⟨hr, t, hs⟩
    · rw [List.concat_eq_append, ← List.cons_append, ← List.append_assoc] at htrace
      exact ih (List.append_inj' htrace rfl).1

/-- The state that a label leads to is that of the next label, or the last one. -/
theorem successor {x : σ × ℓ} (h : Run step init trace s) (hx : x ∈ trace) :
    ∃ t, step x.1 x.2 t ∧ (t = s ∨ ∃ y ∈ trace, y.1 = t) := by
  induction h with
  | start => simp at hx
  | @next trace s t e hr hs ih =>
    rcases List.mem_append.mp hx with hx | hx
    · obtain ⟨u, hu, rfl | ⟨y, hy, rfl⟩⟩ := ih hx
      · exact ⟨u, hu, .inr ⟨(u, e), by simp, rfl⟩⟩
      · exact ⟨y.1, hu, .inr ⟨y, List.mem_append_left _ hy, rfl⟩⟩
    · obtain rfl := List.mem_singleton.mp hx
      exact ⟨t, hs, .inl rfl⟩

/-- An invariant that may speak about the whole past. -/
theorem history (I : List (σ × ℓ) → σ → Prop) (h0 : I [] init)
    (hstep : ∀ tr s e t, Run step init tr s → I tr s → step s e t → I (tr ++ [(s, e)]) t)
    (h : Run step init trace s) : I trace s := by
  induction h with
  | start => exact h0
  | next hr hs ih => exact hstep _ _ _ _ hr ih hs

/-- An invariant of a run whose steps all meet a condition. -/
theorem invariant (I : σ → Prop) (cond : σ → ℓ → Prop) (h0 : I init)
    (hstep : ∀ s e t, I s → cond s e → step s e t → I t)
    (h : Run step init trace s) (hc : ∀ x ∈ trace, cond x.1 x.2) : I s := by
  induction h with
  | start => exact h0
  | next _ hs ih =>
    have prior := ih fun x hx => hc x (List.mem_append_left _ hx)
    exact hstep _ _ _ prior (hc _ (List.mem_append_right _ (List.mem_singleton_self _))) hs

/-- It holds in the states that such a run passes through, too. -/
theorem throughout (I : σ → Prop) (cond : σ → ℓ → Prop) (h0 : I init)
    (hstep : ∀ s e t, I s → cond s e → step s e t → I t)
    (h : Run step init trace s) (hc : ∀ x ∈ trace, cond x.1 x.2) : (∀ x ∈ trace, I x.1) ∧ I s := by
  refine ⟨?_, h.invariant I cond h0 hstep hc⟩
  induction h with
  | start => simp
  | next hr hs ih =>
    have hc' := fun x hx => hc x (List.mem_append_left _ hx)
    intro x hx
    rcases List.mem_append.mp hx with hx | hx
    · exact ih hc' x hx
    · obtain rfl := List.mem_singleton.mp hx
      exact hr.invariant I cond h0 hstep hc'

/-- An invariant that no step breaks holds all along a run. -/
theorem always (I : σ → Prop) (h0 : I init) (hstep : ∀ s e t, I s → step s e t → I t)
    (h : Run step init trace s) : (∀ x ∈ trace, I x.1) ∧ I s :=
  h.throughout I (fun _ _ => True) h0 (fun s e t hi _ hs => hstep s e t hi hs) fun _ _ => trivial

/-- When a step keeps the invariant exactly if it meets the condition, a run
keeps it throughout exactly if all its steps meet the condition. -/
theorem forall_states_iff (I : σ → Prop) (cond : σ → ℓ → Prop) (h0 : I init)
    (hstep : ∀ s e t, I s → step s e t → (I t ↔ cond s e)) (h : Run step init trace s) :
    ((∀ x ∈ trace, I x.1) ∧ I s) ↔ ∀ x ∈ trace, cond x.1 x.2 := by
  constructor
  · induction h with
    | start => simp
    | next hr hs ih =>
      rintro ⟨hv, hl⟩ x hx
      have before := hv _ (List.mem_append_right _ (List.mem_singleton_self _))
      rcases List.mem_append.mp hx with hx | hx
      · exact ih ⟨fun y hy => hv y (List.mem_append_left _ hy), before⟩ x hx
      · obtain rfl := List.mem_singleton.mp hx
        exact (hstep _ _ _ before hs).mp hl
  · intro hc
    have keep : ∀ s e t, I s → cond s e → step s e t → I t :=
      fun s e t hi hce hs => (hstep s e t hi hs).mpr hce
    exact h.throughout I cond h0 keep hc

/-- The same for what is said about the whole past of a state. -/
theorem forall_histories_iff (I : List (σ × ℓ) → σ → Prop) (cond : List (σ × ℓ) → σ → ℓ → Prop)
    (h0 : I [] init)
    (hstep : ∀ tr s e t, Run step init tr s → I tr s → step s e t → (I (tr ++ [(s, e)]) t ↔ cond tr s e))
    (h : Run step init trace s) :
    ((∀ before x after, trace = before ++ x :: after → I before x.1) ∧ I trace s) ↔
      ∀ before x after, trace = before ++ x :: after → cond before x.1 x.2 := by
  induction h with
  | start => simpa using h0
  | @next trace s t e hr hs ih =>
    rw [forall_splits_concat (P := fun before x => I before x.1),
      forall_splits_concat (P := fun before x => cond before x.1 x.2), ih]
    exact and_congr_right fun hc => hstep _ _ _ _ hr (ih.mpr hc).2 hs

/-- The labels of a kind are no more than the rank allows that each of them lowers. -/
theorem countP_add_le (I : σ → Prop) (own : σ × ℓ → Bool) (rank : σ → Nat) (h0 : I init)
    (hkeep : ∀ s e t, I s → step s e t → I t)
    (hrank : ∀ s e t, I s → step s e t → (if own (s, e) then 1 else 0) + rank t ≤ rank s)
    (h : Run step init trace s) : trace.countP own + rank s ≤ rank init := by
  induction h with
  | start => simp
  | next hr hs ih =>
    have hlower := hrank _ _ _ (hr.always I h0 hkeep).2 hs
    rw [List.countP_append, List.countP_singleton]
    omega

end Run

/-- Follow the labels from a state, as far as each of them has a step; the others are
passed over. -/
def follow (step : σ → ℓ → Option σ) (init : σ) (labels : List ℓ) : List (σ × ℓ) × σ :=
  labels.foldl (fun (trace, s) e =>
    match step s e with
    | some t => (trace ++ [(s, e)], t)
    | none => (trace, s)) ([], init)

theorem run_follow (step : σ → ℓ → Option σ) (init : σ) (labels : List ℓ) :
    Run (fun s e t => step s e = some t) init (follow step init labels).1 (follow step init labels).2 := by
  induction labels using List.reverseRecOn with
  | nil => exact .start
  | append_singleton labels e ih =>
    simp only [follow, List.foldl_append, List.foldl_cons, List.foldl_nil] at ih ⊢
    split
    · rename_i ht
      exact ih.next ht
    · exact ih

end DgMiddleware.Library
