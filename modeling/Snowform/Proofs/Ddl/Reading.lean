import Snowform.Ddl.Rejection

/-!
# Results of readings

A reading in several steps gives a result exactly when every step does.  The
lemmas of this module take such a reading apart, step by step.
-/

namespace Snowform

variable {ε α β : Type}

/-- Two readings succeed if the first one does and then the second one. -/
theorem bind_eq_ok_iff {first : Except ε α} {next : α → Except ε β}
    {result : β} :
    first >>= next = .ok result ↔
      ∃ value, first = .ok value ∧ next value = .ok result := by
  constructor
  · intro whole
    cases first with
    | error problem => cases whole
    | ok value => exact ⟨value, rfl, whole⟩
  · rintro ⟨value, rfl, rest⟩
    exact rest

/-- Two readings fail at the first one or, behind it, at the second one. -/
theorem bind_eq_error_iff {first : Except ε α} {next : α → Except ε β}
    {problem : ε} :
    first >>= next = .error problem ↔
      first = .error problem ∨
        ∃ value, first = .ok value ∧ next value = .error problem := by
  constructor
  · intro whole
    cases first with
    | error other =>
        cases whole
        exact Or.inl rfl
    | ok value => exact Or.inr ⟨value, rfl, whole⟩
  · rintro (rfl | ⟨value, rfl, rest⟩)
    · rfl
    · exact rest

theorem map_eq_error_iff {reading : Except ε α} {change : α → β}
    {problem : ε} :
    reading.map change = .error problem ↔ reading = .error problem := by
  cases reading with
  | error other => simp [Except.map]
  | ok value => simp [Except.map]

/-- A changed result is the change of a result. -/
theorem map_eq_ok_iff {reading : Except ε α} {change : α → β} {result : β} :
    reading.map change = .ok result ↔
      ∃ value, reading = .ok value ∧ change value = result := by
  constructor
  · intro whole
    cases reading with
    | error problem => cases whole
    | ok value => exact ⟨value, rfl, Except.ok.inj whole⟩
  · rintro ⟨value, rfl, rfl⟩
    rfl

/-- What every step of a fold keeps holds when the fold is done. -/
theorem foldlM_keeps {holds : β → Prop} {step : β → α → Except ε β}
    (keeps : ∀ {before element after}, holds before →
      step before element = .ok after → holds after)
    {list : List α} {start finish : β} (begins : holds start)
    (result : list.foldlM step start = .ok finish) : holds finish := by
  induction list generalizing start with
  | nil =>
      cases result
      exact begins
  | cons element others ih =>
      rw [List.foldlM_cons, bind_eq_ok_iff] at result
      obtain ⟨next, first, rest⟩ := result
      exact ih (keeps begins first) rest

/-- A fold fails where one of its steps does. -/
theorem exists_error_of_foldlM {step : β → α → Except ε β} {list : List α}
    {start : β} {problem : ε}
    (result : list.foldlM step start = .error problem) :
    ∃ element ∈ list, ∃ state, step state element = .error problem := by
  induction list generalizing start with
  | nil => cases result
  | cons element others ih =>
      rw [List.foldlM_cons] at result
      cases first : step start element with
      | error other =>
          rw [first] at result
          cases result
          exact ⟨element, List.mem_cons_self, start, first⟩
      | ok next =>
          rw [first] at result
          obtain ⟨later, member, state, fails⟩ := ih result
          exact ⟨later, List.mem_cons_of_mem element member, state, fails⟩

/-! ## Two readings -/

/-- Readings that fail alike, or else give results that are related. -/
inductive Agree (related : α → β → Prop) : Except ε α → Except ε β → Prop where
  | failed (problem : ε) : Agree related (.error problem) (.error problem)
  | read {first : α} {second : β} (results : related first second) :
      Agree related (.ok first) (.ok second)

namespace Agree

variable {γ δ : Type} {related : α → β → Prop} {further : γ → δ → Prop}

/-- Readings that agree may be followed by readings that agree. -/
theorem bind {first : Except ε α} {second : Except ε β}
    {next : α → Except ε γ} {after : β → Except ε δ}
    (agree : Agree related first second)
    (steps : ∀ one other, related one other →
      Agree further (next one) (after other)) :
    Agree further (first >>= next) (second >>= after) := by
  cases agree with
  | failed problem => exact .failed problem
  | read results => exact steps _ _ results

/-- Two folds over one list agree when each of their steps does. -/
theorem foldlM {σ τ : Type} {related : σ → τ → Prop} {ι : Type}
    {list : List ι} {step : σ → α → Except ε σ} {change : ι → α}
    {other : τ → β → Except ε τ} {turn : ι → β}
    (steps : ∀ element ∈ list, ∀ one another, related one another →
      Agree related (step one (change element)) (other another (turn element)))
    {start : σ} {begin : τ} (starts : related start begin) :
    Agree related ((list.map change).foldlM step start)
      ((list.map turn).foldlM other begin) := by
  induction list generalizing start begin with
  | nil => exact .read starts
  | cons element others ih =>
      rw [List.forall_mem_cons] at steps
      rw [List.map_cons, List.map_cons, List.foldlM_cons, List.foldlM_cons]
      exact (steps.1 start begin starts).bind fun one another results =>
        ih steps.2 results

/-- A reading agrees with itself under a change of its result. -/
theorem of_map (first : Except ε α) (change : α → β) :
    Agree (fun one other => first = .ok one ∧ other = change one) first
      (first.map change) := by
  cases first with
  | error problem => exact .failed problem
  | ok one => exact .read ⟨rfl, rfl⟩

/-- Results that agree still agree as readings. -/
theorem ofFault {first : Except Fault α} {second : Except Fault β}
    {related : α → β → Prop} (agree : Agree related first second) :
    Agree related (Reading.ofFault first) (Reading.ofFault second) := by
  cases agree with
  | failed problem => exact .failed _
  | read results => exact .read results

end Agree

namespace Reading

/-- What is required is read if it is there. -/
theorem require_eq_ok_iff {reason : Rejection} {found : Option α}
    {value : α} : require reason found = .ok value ↔ found = some value := by
  cases found with
  | none => simp [require, reject]
  | some other => simp [require]

theorem require_map (reason : Rejection) (found : Option α) (change : α → β) :
    require reason (found.map change) =
      (require reason found).map change := by
  cases found <;> rfl

theorem ofFault_eq_ok_iff {result : Except Fault α} {value : α} :
    ofFault result = .ok value ↔ result = .ok value := by
  cases result with
  | error fault => simp [ofFault]
  | ok other => simp [ofFault]

/-- A reading is broken by a fault and by nothing else. -/
theorem ofFault_eq_broken_iff {result : Except Fault α} {fault : Fault} :
    ofFault result = .error (.broken fault) ↔ result = .error fault := by
  cases result with
  | error fault => simp [ofFault]
  | ok other => simp [ofFault]

/-- A fault rejects nothing. -/
theorem ofFault_ne_rejected {result : Except Fault α} {reason : Rejection} :
    ofFault result ≠ .error (.rejected reason) := by
  cases result <;> simp [ofFault]

/-- What is required is found where a reading breaks behind it. -/
theorem exists_of_require_bind {reason : Rejection} {found : Option α}
    {next : α → Reading β} {fault : Fault}
    (broken : require reason found >>= next = .error (.broken fault)) :
    ∃ value, found = some value ∧ next value = .error (.broken fault) := by
  cases found with
  | none => cases broken
  | some value => exact ⟨value, rfl, broken⟩

end Reading

end Snowform
