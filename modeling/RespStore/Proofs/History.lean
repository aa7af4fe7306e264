/-!
# Histories

A structure that is operated on, one operation after the other, and what the operations answer. Two
structures that stay related and answer alike in single operations do so in histories.
-/

namespace RespStore.History

variable {σ τ ε α : Type} {step : σ → ε → α × σ} {step' : τ → ε → α × τ} {s : σ} {t : τ}

/-- The answers of operations, and what they leave behind. -/
def run (step : σ → ε → α × σ) (s : σ) : List ε → List α × σ
  | [] => ([], s)
  | e :: es =>
    let (answer, s) := step s e
    let (answers, s) := run step s es
    (answer :: answers, s)

theorem run_simulates {R : σ → τ → Prop}
    (h : ∀ s t e, R s t → (step s e).1 = (step' t e).1 ∧ R (step s e).2 (step' t e).2)
    (hst : R s t) (es : List ε) :
    (run step s es).1 = (run step' t es).1 ∧ R (run step s es).2 (run step' t es).2 := by
  induction es generalizing s t with
  | nil => exact ⟨rfl, hst⟩
  | cons e es ih =>
    obtain ⟨hanswer, hnext⟩ := h s t e hst
    obtain ⟨hanswers, hlast⟩ := ih hnext
    exact ⟨congr (congrArg List.cons hanswer) hanswers, hlast⟩

end RespStore.History
