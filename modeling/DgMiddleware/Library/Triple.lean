import DgMiddleware.Library.Method

/-! Pre- and postconditions of method bodies, with one rule for each way to build a body.
A body that meets a triple is defined. What a body leaves alone is said apart from that. -/
namespace DgMiddleware.Library
variable {ε σ α β : Type}

/-- From a state with `P`, the body returns with `Q` or throws with `E`. -/
def Triple (P : σ → Prop) (m : Method ε σ α) (Q : α → σ → Prop) (E : σ → Prop) : Prop :=
  ∀ s, P s → match m s with
    | .ret a t => Q a t
    | .raise _ t => E t
    | .undefined => False

/-- The body keeps an invariant, however it ends. -/
def Keeps (I : σ → Prop) (m : Method ε σ α) : Prop := Triple I m (fun _ => I) I

namespace Triple
variable {P I : σ → Prop} {Q : α → σ → Prop} {R : β → σ → Prop} {E F : σ → Prop} {m : Method ε σ α}

theorem ret (a : α) (h : ∀ s, P s → Q a s) : Triple P (pure a : Method ε σ α) Q E := h

theorem raise (e : ε) (h : ∀ s, P s → E s) : Triple P (.raise e : Method ε σ α) Q E := h

theorem bind {f : α → Method ε σ β} (hm : Triple P m Q E) (hf : ∀ a, Triple (Q a) (f a) R E) :
    Triple P (m >>= f) R E := by
  intro s hs
  have first := hm s hs
  rw [Method.bind_apply]
  cases hr : m s with
  | ret a t =>
    rw [hr] at first
    exact hf a t first
  | raise e t =>
    rw [hr] at first
    exact first
  | undefined =>
    rw [hr] at first
    exact first

/-- Reading the state first, the rest is a body for each state. -/
theorem get_bind {f : σ → Method ε σ β} (hf : ∀ s, P s → Triple (· = s) (f s) R E) :
    Triple P (.get >>= f) R E := fun s hs => hf s hs s rfl

theorem set (t : σ) {Q : Unit → σ → Prop} (h : ∀ s, P s → Q () t) :
    Triple P (.set t : Method ε σ Unit) Q E := h

theorem ite {c : Prop} [Decidable c] {n : Method ε σ α} (hm : c → Triple P m Q E)
    (hn : ¬c → Triple P n Q E) : Triple P (if c then m else n) Q E := by
  split
  · rename_i hc
    exact hm hc
  · rename_i hc
    exact hn hc

theorem tryCatch {handler : ε → Method ε σ α} (hm : Triple P m Q F) (hh : ∀ e, Triple F (handler e) Q E) :
    Triple P (.tryCatch m handler) Q E := by
  intro s hs
  have first := hm s hs
  unfold Method.tryCatch
  cases hr : m s with
  | ret a t =>
    rw [hr] at first
    exact first
  | raise e t =>
    rw [hr] at first
    exact hh e t first
  | undefined =>
    rw [hr] at first
    exact first.elim

/-- What does not depend on the state is known before the body starts. -/
theorem known {c : Prop} (h : c → Triple P m Q E) : Triple (fun s => c ∧ P s) m Q E :=
  fun s hs => h hs.1 s hs.2

theorem weaken {P' : σ → Prop} (h : Triple P m Q E) (hp : ∀ s, P' s → P s) : Triple P' m Q E :=
  fun s hs => h s (hp s hs)

theorem relax (h : Triple P m Q E) (he : ∀ s, E s → F s) : Triple P m Q F := by
  intro s hs
  have first := h s hs
  cases hr : m s with
  | ret a t =>
    rw [hr] at first
    exact first
  | raise e t =>
    rw [hr] at first
    exact he t first
  | undefined =>
    rw [hr] at first
    exact first

/-- A body that leaves the state alone keeps everything. -/
theorem keeps_of_same (h : ∀ s, (∃ a, m s = .ret a s) ∨ ∃ e, m s = .raise e s) : Keeps I m := by
  intro s hs
  rcases h s with ⟨a, ha⟩ | ⟨e, he⟩
  · rw [ha]
    exact hs
  · rw [he]
    exact hs

end Triple

/-- However the body ends, this part of the state is as it was. -/
def Leaves {κ : Type} (part : σ → κ) (m : Method ε σ α) : Prop :=
  ∀ s, match m s with
    | .ret _ t | .raise _ t => part t = part s
    | .undefined => True

namespace Leaves
variable {κ : Type} {part : σ → κ} {m : Method ε σ α}

theorem ret (a : α) : Leaves part (pure a : Method ε σ α) := fun _ => rfl

theorem raise (e : ε) : Leaves part (.raise e : Method ε σ α) := fun _ => rfl

theorem bind {f : α → Method ε σ β} (hm : Leaves part m) (hf : ∀ a, Leaves part (f a)) :
    Leaves part (m >>= f) := by
  intro s
  have first := hm s
  rw [Method.bind_apply]
  cases hr : m s with
  | ret a t =>
    rw [hr] at first
    have second := hf a t
    rw [Outcome.bind_ret]
    cases hf : f a t with
    | ret b u | raise e u =>
      rw [hf] at second
      exact second.trans first
    | undefined => trivial
  | raise e t =>
    rw [hr] at first
    exact first
  | undefined => trivial

theorem tryCatch {handler : ε → Method ε σ α} (hm : Leaves part m) (hh : ∀ e, Leaves part (handler e)) :
    Leaves part (.tryCatch m handler) := by
  intro s
  have first := hm s
  unfold Method.tryCatch
  cases hr : m s with
  | ret a t =>
    rw [hr] at first
    exact first
  | raise e t =>
    rw [hr] at first
    have second := hh e t
    dsimp only
    cases hf : handler e t with
    | ret b u | raise e u =>
      rw [hf] at second
      exact second.trans first
    | undefined => trivial
  | undefined => trivial

theorem ite {c : Prop} [Decidable c] {n : Method ε σ α} (hm : Leaves part m) (hn : Leaves part n) :
    Leaves part (if c then m else n) := by
  split
  · exact hm
  · exact hn

theorem get : Leaves part (.get : Method ε σ σ) := fun _ => rfl

/-- An assignment to other parts of the state. -/
theorem update (g : σ → σ) (h : ∀ s, part (g s) = part s) :
    Leaves part (.get >>= fun s => .set (g s) : Method ε σ Unit) := h

end Leaves
end DgMiddleware.Library
