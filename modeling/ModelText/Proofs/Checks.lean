import Mathlib.Data.List.Forall2

namespace ModelText

/-!
# Checks in order

A list whose members are checked one after the other is refused for its first bad member,
with what this member reports; the members behind it are not looked at.  Searching a list
for a fault and building results from it step by step both work this way.
-/

/-- An error is what the first member of a list reports that fails. -/
def FirstOf {α ε : Type} (fails : α → ε → Prop) (listed : List α) (error : ε) : Prop :=
  ∃ before member after, listed = before ++ member :: after ∧ fails member error ∧
    ∀ earlier ∈ before, ∀ other, ¬fails earlier other

section

variable {α β ε : Type} {fails : α → ε → Prop} {head member : α} {rest listed : List α} {error : ε}

theorem not_firstOf_nil : ¬FirstOf fails [] error := by
  rintro ⟨before, member, after, impossible, _⟩
  exact absurd impossible.symm (List.append_ne_nil_of_right_ne_nil before (List.cons_ne_nil _ _))

theorem firstOf_cons_iff :
    FirstOf fails (head :: rest) error ↔
      fails head error ∨ (∀ other, ¬fails head other) ∧ FirstOf fails rest error := by
  constructor
  · rintro ⟨before, member, after, split, failing, passed⟩
    cases before with
    | nil =>
        cases split
        exact Or.inl failing
    | cons first before =>
        cases split
        refine Or.inr ⟨passed head List.mem_cons_self, before, member, after, rfl, failing, ?_⟩
        exact fun earlier inside => passed earlier (List.mem_cons_of_mem _ inside)
  · rintro (failing | ⟨passes, before, member, after, rfl, failing, passed⟩)
    · exact ⟨[], head, rest, rfl, failing, fun _ impossible => absurd impossible List.not_mem_nil⟩
    · exact ⟨head :: before, member, after, rfl, failing,
        List.forall_mem_cons.mpr ⟨passes, passed⟩⟩

theorem exists_firstOf_iff :
    (∃ error, FirstOf fails listed error) ↔ ∃ member ∈ listed, ∃ error, fails member error := by
  constructor
  · rintro ⟨error, before, member, after, rfl, failing, _⟩
    exact ⟨member, List.mem_append_right _ List.mem_cons_self, error, failing⟩
  · intro someFails
    induction listed with
    | nil =>
        obtain ⟨_, impossible, _⟩ := someFails
        exact absurd impossible List.not_mem_nil
    | cons head rest inductionHypothesis =>
        simp only [firstOf_cons_iff]
        by_cases headFails : ∃ error, fails head error
        · obtain ⟨error, failing⟩ := headFails
          exact ⟨error, Or.inl failing⟩
        · obtain ⟨member, inside, failing⟩ := someFails
          rcases List.mem_cons.mp inside with rfl | further
          · exact absurd failing headFails
          · obtain ⟨error, first⟩ := inductionHypothesis ⟨member, further, failing⟩
            exact ⟨error, Or.inr ⟨not_exists.mp headFails, first⟩⟩

theorem firstOf_congr {otherFails : α → ε → Prop}
    (same : ∀ member ∈ listed, ∀ error, fails member error ↔ otherFails member error) :
    FirstOf fails listed error ↔ FirstOf otherFails listed error := by
  induction listed with
  | nil => exact iff_of_false not_firstOf_nil not_firstOf_nil
  | cons head rest inductionHypothesis =>
      have headSame := same head List.mem_cons_self
      have restSame := inductionHypothesis fun member inside =>
        same member (List.mem_cons_of_mem _ inside)
      simp only [firstOf_cons_iff, headSame, restSame]

theorem firstOf_map_iff {produce : β → α} {sources : List β} :
    FirstOf fails (sources.map produce) error ↔
      FirstOf (fun source => fails (produce source)) sources error := by
  induction sources with
  | nil => exact iff_of_false not_firstOf_nil not_firstOf_nil
  | cons head rest inductionHypothesis =>
      rw [List.map_cons, firstOf_cons_iff, firstOf_cons_iff, inductionHypothesis]

theorem findSome?_eq_some_iff_firstOf {check : α → Option ε} :
    listed.findSome? check = some error ↔
      FirstOf (fun member error => check member = some error) listed error := by
  simp only [List.findSome?_eq_some_iff, FirstOf, Option.eq_none_iff_forall_ne_some, ne_eq]

theorem map_find?_eq_some_iff_firstOf {bad : α → Bool} {report : α → ε} :
    (listed.find? bad).map report = some error ↔
      FirstOf (fun member error => bad member = true ∧ error = report member) listed error := by
  induction listed with
  | nil => exact iff_of_false (fun impossible => nomatch impossible) not_firstOf_nil
  | cons head rest inductionHypothesis =>
      rw [firstOf_cons_iff, ← inductionHypothesis, List.find?_cons]
      cases bad head <;> simp [eq_comm]

/-- Results cannot be built exactly because of the first member without a result. -/
theorem mapM_eq_error_iff {step : α → Except ε β} :
    listed.mapM step = .error error ↔
      FirstOf (fun member error => step member = .error error) listed error := by
  induction listed with
  | nil =>
      rw [List.mapM_nil]
      exact iff_of_false (fun impossible => nomatch impossible) not_firstOf_nil
  | cons head rest inductionHypothesis =>
      rw [List.mapM_cons, firstOf_cons_iff, ← inductionHypothesis]
      cases step head with
      | error found => simp [bind, Except.bind]
      | ok result => cases rest.mapM step <;> simp [bind, Except.bind, pure, Except.pure]

theorem mapM_eq_ok_iff {step : α → Except ε β} {results : List β} :
    listed.mapM step = .ok results ↔
      List.Forall₂ (fun member result => step member = .ok result) listed results := by
  induction listed generalizing results with
  | nil =>
      rw [List.mapM_nil, List.forall₂_nil_left_iff]
      simp [pure, Except.pure, eq_comm]
  | cons head rest inductionHypothesis =>
      rw [List.mapM_cons, List.forall₂_cons_left_iff]
      simp only [← inductionHypothesis]
      cases step head with
      | error found => simp [bind, Except.bind]
      | ok result =>
          cases rest.mapM step with
          | error found => simp [bind, Except.bind]
          | ok others => simp [bind, Except.bind, pure, Except.pure, eq_comm]

theorem mapM_congr {step other : α → Except ε β}
    (agree : ∀ member, member ∈ listed → step member = other member) :
    listed.mapM step = listed.mapM other := by
  induction listed with
  | nil => rfl
  | cons head rest inductionHypothesis =>
      rw [List.mapM_cons, List.mapM_cons, agree head List.mem_cons_self,
        inductionHypothesis fun member inside => agree member (List.mem_cons_of_mem _ inside)]

end

theorem exists_of_mem_forall₂ {α β : Type} {relation : α → β → Prop} {listed : List α}
    {results : List β} (related : List.Forall₂ relation listed results) {result : β}
    (inside : result ∈ results) : ∃ member, member ∈ listed ∧ relation member result := by
  induction related with
  | nil => cases inside
  | @cons head other rest others relatedHead _ inductionHypothesis =>
      rcases List.mem_cons.mp inside with rfl | further
      · exact ⟨head, List.mem_cons_self, relatedHead⟩
      · rcases inductionHypothesis further with ⟨member, listed, relatedMember⟩
        exact ⟨member, List.mem_cons_of_mem _ listed, relatedMember⟩

end ModelText
