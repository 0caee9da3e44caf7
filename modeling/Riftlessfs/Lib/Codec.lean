import Mathlib.Tactic

/-! Encodings read back from the front of a buffer. -/
namespace Lib.Codec

variable {ε α β : Type}

/-- `decode` undoes `encode` on the values in `dom`, whatever follows, and refuses every strict
start of an encoding with the error `short`. -/
structure Inverse (encode : α → List β) (decode : List β → Except ε α) (short : ε)
    (dom : α → Prop) : Prop where
  whole : ∀ v t, dom v → decode (encode v ++ t) = .ok v
  cut : ∀ v p, dom v → p <+: encode v → p ≠ encode v → decode p = .error short

/-- A strict start of a list is shorter. -/
theorem length_lt_of_cut {p l : List β} (hp : p <+: l) (hne : p ≠ l) : p.length < l.length := by
  refine lt_of_le_of_ne hp.length_le fun heq => hne (hp.eq_of_length heq)

/-- A decoder that asks for `n` bytes first refuses every cut of an encoding of `n` bytes. -/
theorem Inverse.of_length {encode : α → List β} {decode : List β → Except ε α} {short : ε} (n : ℕ)
    (hlen : ∀ v, (encode v).length = n) (hshort : ∀ p, p.length < n → decode p = .error short)
    (hwhole : ∀ v t, decode (encode v ++ t) = .ok v) :
    Inverse encode decode short fun _ => True := by
  refine ⟨fun v t _ => hwhole v t, fun v p _ hp hne => hshort p ?_⟩
  rw [← hlen v]
  exact length_lt_of_cut hp hne

section Reads
variable {σ γ : Type} {stands : σ → List β → Prop} {m : EStateM ε σ α} {k : α → EStateM ε σ γ}
  {input mid left : List β} {a : α} {c : γ}

/-- A reader that stands before `input` reads `a`, and then stands before `left`. -/
def Reads (stands : σ → List β → Prop) (m : EStateM ε σ α) (input : List β) (a : α)
    (left : List β) : Prop :=
  ∀ s, stands s input → ∃ s', m s = .ok a s' ∧ stands s' left

theorem reads_pure (a : α) (input : List β) :
    Reads stands (pure a : EStateM ε σ α) input a input :=
  fun s hs => ⟨s, rfl, hs⟩

theorem Reads.bind (hm : Reads stands m input a mid) (hk : Reads stands (k a) mid c left) :
    Reads stands (m >>= k) input c left := by
  intro s hs
  obtain ⟨s₁, hok, hmid⟩ := hm s hs
  obtain ⟨s₂, hok', hleft⟩ := hk s₁ hmid
  refine ⟨s₂, ?_, hleft⟩
  show EStateM.bind m k s = _
  unfold EStateM.bind
  rw [hok]
  exact hok'

end Reads

end Lib.Codec
