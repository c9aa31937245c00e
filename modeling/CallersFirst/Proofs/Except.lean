import Mathlib.Data.List.Forall2

/-! Steps that may fail, one after another. -/

namespace CallersFirst

/-- Two steps succeed together if the second one succeeds with what the first one gives. -/
theorem bind_eq_ok_iff {ε α β : Type} {first : Except ε α} {next : α → Except ε β} {result : β} :
    (first >>= next) = .ok result ↔ ∃ value, first = .ok value ∧ next value = .ok result := by
  -- An error of the first step is the error of both.
  cases first with
  | error fault => simp [Bind.bind, Except.bind]
  | ok value => simp [Bind.bind, Except.bind]

/-- Two steps fail together if the first one fails, or the second one with what the first one gives. -/
theorem bind_eq_error_iff {ε α β : Type} {first : Except ε α} {next : α → Except ε β} {fault : ε} :
    (first >>= next) = .error fault ↔
      first = .error fault ∨ ∃ value, first = .ok value ∧ next value = .error fault := by
  cases first with
  | error other => simp [Bind.bind, Except.bind]
  | ok value => simp [Bind.bind, Except.bind]

/-- What is found in all answers together is found in the answer to one of the questions. -/
theorem mem_flatten_of_mapM {ε α β : Type} {ask : α → Except ε (List β)} {items : List α}
    {answers : List (List β)} (answered : items.mapM ask = .ok answers) {value : β} :
    value ∈ answers.flatten ↔ ∃ item ∈ items, ∃ answer, ask item = .ok answer ∧ value ∈ answer := by
  induction items generalizing answers with
  | nil =>
    cases answered
    simp
  | cons item rest ih =>
    -- The first question was answered, and so were the others.
    rw [List.mapM_cons, bind_eq_ok_iff] at answered
    obtain ⟨first, asked, answered⟩ := answered
    obtain ⟨others, further, same⟩ := bind_eq_ok_iff.1 answered
    cases same
    simp [ih further, asked]

/-- Questions that all have an answer can be asked one after the other. -/
theorem mapM_eq_some {α β : Type} {ask : α → Option β} {items : List α} {answers : List β}
    (answered : List.Forall₂ (fun item answer => ask item = some answer) items answers) :
    items.mapM ask = some answers := by
  induction answered with
  | nil => rfl
  | cons found _ ih => simp [List.mapM_cons, found, ih]

end CallersFirst
