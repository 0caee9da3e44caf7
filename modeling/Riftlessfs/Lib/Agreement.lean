import Riftlessfs.Lib.Effect

/-! Two runs of one computation, from states that agree on what it may depend on. -/
namespace Lib.Agreement
open Lib.Effect

variable {ε σ α β : Type}

/-- Both runs return the same, or fail in the same way, in states related by `R`. -/
inductive Same (R : σ → σ → Prop) : EStateM.Result ε σ α → EStateM.Result ε σ α → Prop
  | ok {s t : σ} (a : α) (h : R s t) : Same R (.ok a s) (.ok a t)
  | error {s t : σ} (e : ε) (h : R s t) : Same R (.error e s) (.error e t)

/-- The computation keeps related states related, and does not tell them apart. -/
def Agrees (R : σ → σ → Prop) (m : EStateM ε σ α) : Prop := ∀ s t, R s t → Same R (m s) (m t)

variable {R : σ → σ → Prop} {m : EStateM ε σ α} {f : α → EStateM ε σ β}

theorem same_bind {s t : σ} (hm : Same R (m s) (m t))
    (hf : ∀ a s' t', m s = .ok a s' → m t = .ok a t' → R s' t' → Same R (f a s') (f a t')) :
    Same R ((m >>= f) s) ((m >>= f) t) := by
  generalize hs : m s = x at hm
  generalize ht : m t = y at hm
  cases hm with
  | ok a h =>
    rw [bind_of_ok hs, bind_of_ok ht]
    exact hf a _ _ hs ht h
  | error e h =>
    rw [bind_of_error hs, bind_of_error ht]
    exact .error e h

theorem agrees_pure (a : α) : Agrees R (pure a : EStateM ε σ α) := fun _ _ h => .ok a h

theorem agrees_bind (hm : Agrees R m) (hf : ∀ a, Agrees R (f a)) : Agrees R (m >>= f) :=
  fun s t h => same_bind (hm s t h) fun a s' t' _ _ h' => hf a s' t' h'

/-- A computation that looks at the state it starts from. -/
theorem same_get {f : σ → EStateM ε σ β} {s t : σ} (h : Same R (f s s) (f t t)) :
    Same R ((get >>= f) s) ((get >>= f) t) := h

end Lib.Agreement
