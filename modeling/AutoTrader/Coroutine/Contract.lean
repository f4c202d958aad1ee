import AutoTrader.Coroutine.Free

/-!
# Contracts

A contract is an automaton that watches the operations of one coroutine. Its state says
how far the coroutine has come. Every operation is issued as some *move* of the
contract: `permits` says which operations a move may issue in a state, `answers` which
results the coroutine may count on, and `next` where a result leads. `final` says where
the coroutine may finish. Moves exist in proofs only; they say what an operation is meant
for when the operation itself does not show it.

`Meets K x q Q` says that the program `x`, started where the contract is in state `q`,
issues only what is permitted and finishes in a state and with a value that satisfy
`Q`. It is a weakest precondition over the syntax tree, with the usual two rules, for
sequencing (`meets_bind_iff`) and for consequence (`Meets.mono`).
-/

namespace Coroutine

structure Contract (S : Signature) where
  State : Type
  Move : Type
  permits : State → Move → S.Op → Prop
  answers : State → (o : S.Op) → S.Res o → Prop
  next : State → Move → (o : S.Op) → S.Res o → State
  final : State → Prop

variable {S : Signature} {K : Contract S} {α β : Type}

namespace Free

/-- The program keeps the contract from state `q` on and ends as `Q` says. -/
def Meets (K : Contract S) : Free S α → K.State → (α → K.State → Prop) → Prop
  | .pure a, q, Q => Q a q
  | .op o next, q, Q =>
    ∃ m, K.permits q m o ∧ ∀ r, K.answers q o r → (next r).Meets K (K.next q m o r) Q

/-- The program keeps the contract from state `q` on to its end. -/
abbrev Keeps (K : Contract S) (x : Free S α) (q : K.State) : Prop :=
  x.Meets K q fun _ q' => K.final q'

variable {q : K.State}

@[simp] theorem meets_pure {a : α} {Q : α → K.State → Prop} :
    (Free.pure a : Free S α).Meets K q Q ↔ Q a q := Iff.rfl

theorem meets_op {o : S.Op} {next : S.Res o → Free S α} {Q : α → K.State → Prop} :
    (Free.op o next).Meets K q Q ↔
      ∃ m, K.permits q m o ∧ ∀ r, K.answers q o r → (next r).Meets K (K.next q m o r) Q := Iff.rfl

/-- Issue an operation as the move `m`. -/
theorem meets_op_of {o : S.Op} {next : S.Res o → Free S α} {Q : α → K.State → Prop} (m : K.Move)
    (hp : K.permits q m o) (h : ∀ r, K.answers q o r → (next r).Meets K (K.next q m o r) Q) :
    (Free.op o next).Meets K q Q := ⟨m, hp, h⟩

theorem Meets.mono {x : Free S α} {Q R : α → K.State → Prop} (h : x.Meets K q Q)
    (hQR : ∀ a q', Q a q' → R a q') : x.Meets K q R := by
  induction x generalizing q with
  | pure a => exact hQR _ _ h
  | op o next ih =>
    obtain ⟨m, hp, hnext⟩ := h
    exact ⟨m, hp, fun r hr => ih r (hnext r hr)⟩

theorem meets_bind_iff {x : Free S α} {f : α → Free S β} {Q : β → K.State → Prop} :
    (x.bind f).Meets K q Q ↔ x.Meets K q fun a q' => (f a).Meets K q' Q := by
  induction x generalizing q with
  | pure a => rfl
  | op o next ih =>
    simp only [bind_op, meets_op]
    refine exists_congr fun m => and_congr Iff.rfl ?_
    exact forall_congr' fun r => forall_congr' fun _ => ih r

/-- The rule of sequencing. -/
theorem Meets.bind {x : Free S α} {f : α → Free S β} {R : α → K.State → Prop}
    {Q : β → K.State → Prop} (h : x.Meets K q R)
    (hf : ∀ a q', R a q' → (f a).Meets K q' Q) : (x.bind f).Meets K q Q :=
  meets_bind_iff.mpr (h.mono hf)

end Free

end Coroutine
