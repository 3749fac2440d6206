import Mathlib.Logic.Relation
import ModelText.Name.Effective
import ModelText.Proofs.Graph.Writes

namespace ModelText

/-!
# Names along redefinitions

An element without a declared name takes the name of the feature it redefines, and
this feature perhaps that of another one.  Whoever follows such a chain to a declared
name has met no element twice, since the chain would not have ended otherwise.  So no
such chain is longer than the model, and the effective name does not depend on how
long the search is allowed to be.

Redefinitions may also lead around in a circle.  A search that remembers where it has been
and gives up there ends in every model, and it gives up no name.
-/

namespace Model

/-- An element takes its name from the feature that its first redefinition redefines. -/
theorem namingFeature?_eq_some_iff (model : Model) (id next : ObjectId) :
    model.namingFeature? id = some next ↔
      model.isA id .feature = true ∧
        ∃ redefinition, (model.ownedRedefinitions id).head? = some redefinition ∧
          model.redefinedFeature? redefinition = some next := by
  unfold namingFeature?
  rw [← Option.bind_eq_some_iff]
  cases model.isA id .feature <;> simp

/-- A name comes to an element along a chain of redefined features, the element
first and the feature that declares the name last. -/
inductive NamedThrough (model : Model) : ObjectId → List ObjectId → String → Prop
  | declared {id : ObjectId} {name : String} :
      model.declaredName? id = some name → NamedThrough model id [id] name
  | redefined {id next : ObjectId} {chain : List ObjectId} {name : String} :
      model.declaredName? id = none → model.namingFeature? id = some next →
        NamedThrough model next chain name → NamedThrough model id (id :: chain) name

namespace NamedThrough

variable {model : Model} {id : ObjectId} {chain other : List ObjectId} {name second : String}

theorem unique (named : NamedThrough model id chain name)
    (also : NamedThrough model id other second) : chain = other ∧ name = second := by
  induction named generalizing other with
  | declared known =>
      cases also with
      | declared knownToo => exact ⟨rfl, Option.some.inj (known.symm.trans knownToo)⟩
      | redefined unnamed => rw [known] at unnamed; cases unnamed
  | redefined unnamed leads _ inductionHypothesis =>
      cases also with
      | declared known => rw [unnamed] at known; cases known
      | redefined _ leadsToo further =>
          cases leads.symm.trans leadsToo
          rcases inductionHypothesis further with ⟨same, sameName⟩
          exact ⟨congrArg _ same, sameName⟩

/-- Every element of a chain has the name along the rest of the chain. -/
theorem of_mem (named : NamedThrough model id chain name) {later : ObjectId}
    (member : later ∈ chain) :
    ∃ before after, chain = before ++ after ∧ NamedThrough model later after name := by
  induction named with
  | @declared id name known =>
      rw [List.mem_singleton.mp member]
      exact ⟨[], [id], rfl, .declared known⟩
  | @redefined id next chain name unnamed leads named inductionHypothesis =>
      rcases List.mem_cons.mp member with same | further
      · rw [same]
        exact ⟨[], id :: chain, rfl, .redefined unnamed leads named⟩
      · rcases inductionHypothesis further with ⟨before, after, split, namedAfter⟩
        exact ⟨id :: before, after, by rw [split, List.cons_append], namedAfter⟩

theorem nodup (named : NamedThrough model id chain name) : chain.Nodup := by
  induction named with
  | declared _ => simp
  | @redefined id next chain name unnamed leads named inductionHypothesis =>
      refine List.nodup_cons.mpr ⟨?_, inductionHypothesis⟩
      intro returns
      rcases of_mem named returns with ⟨before, after, split, namedAfter⟩
      have lengths := congrArg List.length
        (unique namedAfter (.redefined unnamed leads named)).1
      rw [split, List.length_cons, List.length_append] at lengths
      omega

theorem index_lt (named : NamedThrough model id chain name) {later : ObjectId}
    (member : later ∈ chain) : later.index < model.objects.size := by
  rcases of_mem named member with ⟨_, after, _, namedAfter⟩
  cases namedAfter with
  | declared known =>
      rcases Option.bind_eq_some_iff.mp known with ⟨value, held, _⟩
      cases stored : model.slot? later .declaredName with
      | none => rw [value?, values_eq_nil_of_slot? stored] at held; cases held
      | some slot => exact index_lt_of_slot? stored
  | redefined _ leads _ =>
      have isFeature := ((namingFeature?_eq_some_iff _ _ _).mp leads).1
      rcases (Option.any_eq_true_iff_get _ _).mp isFeature with ⟨exist, _⟩
      exact (isSome_metaclass?_iff model later).mp exist

/-- A search that may take as many steps as the chain is long finds the name. -/
theorem nameAlongRedefinitions?_eq (named : NamedThrough model id chain name) {limit : Nat}
    (enough : chain.length ≤ limit) : model.nameAlongRedefinitions? limit id = some name := by
  induction named generalizing limit with
  | declared known =>
      cases limit with
      | zero => cases enough
      | succ limit => rw [nameAlongRedefinitions?, known]
  | redefined unnamed leads _ inductionHypothesis =>
      cases limit with
      | zero => cases enough
      | succ limit =>
          rw [nameAlongRedefinitions?, unnamed]
          dsimp only
          rw [leads, Option.bind_some]
          exact inductionHypothesis (Nat.le_of_succ_le_succ enough)

/-- No chain is longer than the model. -/
theorem length_le (named : NamedThrough model id chain name) :
    chain.length ≤ model.objects.size :=
  length_le_size named.nodup fun _ member => named.index_lt member

end NamedThrough

/-- Whatever a search finds has come along a chain. -/
theorem exists_namedThrough {model : Model} {limit : Nat} {id : ObjectId} {name : String}
    (found : model.nameAlongRedefinitions? limit id = some name) :
    ∃ chain, NamedThrough model id chain name := by
  induction limit generalizing id with
  | zero => cases found
  | succ limit inductionHypothesis =>
      unfold nameAlongRedefinitions? at found
      cases declared : model.declaredName? id with
      | some known =>
          rw [declared] at found
          cases found
          exact ⟨[id], .declared declared⟩
      | none =>
          rw [declared] at found
          rcases Option.bind_eq_some_iff.mp found with ⟨next, leads, further⟩
          rcases inductionHypothesis further with ⟨chain, named⟩
          exact ⟨id :: chain, .redefined declared leads named⟩

/-- The effective name is the one that comes along a chain of redefined features,
however long the chain is. -/
theorem effectiveName?_eq_some_iff (model : Model) (id : ObjectId) (name : String) :
    model.effectiveName? id = some name ↔ ∃ chain, NamedThrough model id chain name := by
  constructor
  · exact exists_namedThrough
  · rintro ⟨chain, named⟩
    exact named.nameAlongRedefinitions?_eq (Nat.le_succ_of_le named.length_le)

/-! ## Following redefinitions -/

/-- An element without a declared name takes its name from another one: it is a feature, and
its first redefinition is bound to the other element. -/
structure TakesNameFrom (model : Model) (id next : ObjectId) : Prop where
  isFeature : model.isA id .feature = true
  unnamed : model.declaredName? id = none
  redefined : ∃ redefinition, (model.ownedRedefinitions id).head? = some redefinition ∧
    model.redefinedFeature? redefinition = some next

theorem takesNameFrom_iff (model : Model) (id next : ObjectId) :
    model.TakesNameFrom id next ↔
      model.declaredName? id = none ∧ model.namingFeature? id = some next := by
  rw [namingFeature?_eq_some_iff]
  constructor
  · rintro ⟨isFeature, unnamed, redefined⟩
    exact ⟨unnamed, isFeature, redefined⟩
  · rintro ⟨unnamed, isFeature, redefined⟩
    exact ⟨isFeature, unnamed, redefined⟩

theorem TakesNameFrom.index_lt {model : Model} {id next : ObjectId}
    (step : model.TakesNameFrom id next) : id.index < model.objects.size := by
  obtain ⟨exist, _⟩ := (Option.any_eq_true_iff_get _ _).mp step.isFeature
  exact (isSome_metaclass?_iff model id).mp exist

/-- The elements of a chain take their names from one another, down to one that declares
the name. -/
theorem exists_namedThrough_iff (model : Model) (id : ObjectId) (name : String) :
    (∃ chain, NamedThrough model id chain name) ↔
      ∃ last, Relation.ReflTransGen model.TakesNameFrom id last ∧
        model.declaredName? last = some name := by
  constructor
  · rintro ⟨chain, named⟩
    induction named with
    | declared known => exact ⟨_, .refl, known⟩
    | redefined unnamed leads _ inductionHypothesis =>
        obtain ⟨last, further, known⟩ := inductionHypothesis
        have step := (takesNameFrom_iff model _ _).mpr ⟨unnamed, leads⟩
        exact ⟨last, .head step further, known⟩
  · rintro ⟨last, chain, known⟩
    induction chain using Relation.ReflTransGen.head_induction_on with
    | refl => exact ⟨[last], .declared known⟩
    | head step _ inductionHypothesis =>
        obtain ⟨rest, named⟩ := inductionHypothesis
        obtain ⟨unnamed, leads⟩ := (takesNameFrom_iff model _ _).mp step
        exact ⟨_ :: rest, .redefined unnamed leads named⟩

/-- A search for a name that remembers the elements it has passed.  It ends with a declared
name, and without one where it has been before or where no feature is redefined. -/
inductive Seeks (model : Model) : List ObjectId → ObjectId → Option String → Prop where
  | declared {passed : List ObjectId} {id : ObjectId} {name : String} :
      model.declaredName? id = some name → Seeks model passed id (some name)
  | repeated {passed : List ObjectId} {id : ObjectId} :
      model.declaredName? id = none → id ∈ passed → Seeks model passed id none
  | ended {passed : List ObjectId} {id : ObjectId} :
      model.declaredName? id = none → id ∉ passed → (∀ next, ¬model.TakesNameFrom id next) →
        Seeks model passed id none
  | follow {passed : List ObjectId} {id next : ObjectId} {answer : Option String} :
      id ∉ passed → model.TakesNameFrom id next → Seeks model (id :: passed) next answer →
        Seeks model passed id answer

namespace Seeks

variable {model : Model} {passed : List ObjectId} {id : ObjectId} {answer other : Option String}

theorem unique (seeks : Seeks model passed id answer) (also : Seeks model passed id other) :
    answer = other := by
  induction seeks generalizing other with
  | declared known =>
      cases also with
      | declared knownToo => exact known.symm.trans knownToo
      | repeated unnamed => rw [known] at unnamed; cases unnamed
      | ended unnamed => rw [known] at unnamed; cases unnamed
      | follow _ step => cases step.unnamed.symm.trans known
  | repeated unnamed been =>
      cases also with
      | declared known => rw [unnamed] at known; cases known
      | repeated => rfl
      | ended => rfl
      | follow fresh => exact absurd been fresh
  | ended unnamed fresh stuck =>
      cases also with
      | declared known => rw [unnamed] at known; cases known
      | repeated => rfl
      | ended => rfl
      | follow _ step => exact absurd step (stuck _)
  | follow fresh step _ inductionHypothesis =>
      cases also with
      | declared known => rw [step.unnamed] at known; cases known
      | repeated _ been => exact absurd been fresh
      | ended _ _ stuck => exact absurd step (stuck _)
      | follow _ stepToo further =>
          have leads := ((takesNameFrom_iff model _ _).mp step).2
          have leadsToo := ((takesNameFrom_iff model _ _).mp stepToo).2
          cases leads.symm.trans leadsToo
          exact inductionHypothesis further

/-- A search ends.  Whatever it passes exists, and it passes nothing twice, so it runs out of
elements. -/
theorem exists_answer {left : Nat} (few : model.objects.size < passed.length + left)
    (nodup : passed.Nodup) (exist : ∀ other ∈ passed, other.index < model.objects.size)
    (id : ObjectId) : ∃ answer, Seeks model passed id answer := by
  induction left generalizing passed id with
  | zero => exact absurd (length_le_size nodup exist) (Nat.not_le.mpr few)
  | succ left inductionHypothesis =>
      cases declared : model.declaredName? id with
      | some name => exact ⟨some name, .declared declared⟩
      | none =>
          by_cases been : id ∈ passed
          · exact ⟨none, .repeated declared been⟩
          by_cases leads : ∃ next, model.TakesNameFrom id next
          · obtain ⟨next, step⟩ := leads
            have fewer : model.objects.size < (id :: passed).length + left := by
              rw [List.length_cons]
              omega
            obtain ⟨answer, further⟩ := inductionHypothesis fewer
              (List.nodup_cons.mpr ⟨been, nodup⟩)
              (List.forall_mem_cons.mpr ⟨step.index_lt, exist⟩) next
            exact ⟨answer, .follow been step further⟩
          · exact ⟨none, .ended declared been (not_exists.mp leads)⟩

theorem exists_namedThrough {name : String} (seeks : Seeks model passed id (some name)) :
    ∃ chain, NamedThrough model id chain name := by
  generalize found : some name = answer at seeks
  induction seeks with
  | declared known =>
      cases found
      exact ⟨_, .declared known⟩
  | repeated => cases found
  | ended => cases found
  | follow _ step _ inductionHypothesis =>
      obtain ⟨chain, named⟩ := inductionHypothesis found
      obtain ⟨unnamed, leads⟩ := (takesNameFrom_iff model _ _).mp step
      exact ⟨_, .redefined unnamed leads named⟩

/-- A name that comes along a chain is found, as long as the search has not been on the
chain before. -/
theorem of_namedThrough {chain : List ObjectId} {name : String}
    (named : NamedThrough model id chain name) (fresh : ∀ other ∈ passed, other ∉ chain) :
    Seeks model passed id (some name) := by
  induction named generalizing passed with
  | declared known => exact .declared known
  | @redefined id next chain name unnamed leads named inductionHypothesis =>
      have notBefore : id ∉ passed := fun been => fresh id been List.mem_cons_self
      have notAgain : id ∉ chain :=
        (List.nodup_cons.mp (NamedThrough.redefined unnamed leads named).nodup).1
      refine .follow notBefore ((takesNameFrom_iff model _ _).mpr ⟨unnamed, leads⟩) ?_
      apply inductionHypothesis
      intro other been
      rcases List.mem_cons.mp been with rfl | before
      · exact notAgain
      · exact fun member => fresh other before (List.mem_cons_of_mem _ member)

/-- Stopping where it has been before, a search loses no name. -/
theorem iff_effectiveName? (model : Model) (id : ObjectId) (answer : Option String) :
    Seeks model [] id answer ↔ answer = model.effectiveName? id := by
  have seeks : Seeks model [] id (model.effectiveName? id) := by
    have few : model.objects.size < ([] : List ObjectId).length + (model.objects.size + 1) := by
      rw [List.length_nil]
      omega
    obtain ⟨found, seeks⟩ := exists_answer few List.nodup_nil
      (fun _ impossible => absurd impossible List.not_mem_nil) id
    suffices same : found = model.effectiveName? id from same ▸ seeks
    cases found with
    | some name =>
        exact ((effectiveName?_eq_some_iff model id name).mpr seeks.exists_namedThrough).symm
    | none =>
        symm
        rw [Option.eq_none_iff_forall_ne_some]
        intro name known
        obtain ⟨chain, named⟩ := (effectiveName?_eq_some_iff model id name).mp known
        have also : Seeks model [] id (some name) := of_namedThrough named
          fun _ impossible => absurd impossible List.not_mem_nil
        cases seeks.unique also
  constructor
  · exact fun other => other.unique seeks
  · rintro rfl
    exact seeks

end Seeks

/-- The search for a name ends, however redefinitions lead around, with the effective name.
This is the name declared at the end of a chain of features that take their names from one
another, and there is none without such a chain. -/
theorem effectiveName?_follows_chain (model : Model) (id : ObjectId) :
    (∀ answer, Seeks model [] id answer ↔ answer = model.effectiveName? id) ∧
    (∀ name, model.effectiveName? id = some name ↔
      ∃ last, Relation.ReflTransGen model.TakesNameFrom id last ∧
        model.declaredName? last = some name) ∧
    (model.effectiveName? id = none ↔
      ¬∃ last name, Relation.ReflTransGen model.TakesNameFrom id last ∧
        model.declaredName? last = some name) := by
  have named : ∀ name, model.effectiveName? id = some name ↔
      ∃ last, Relation.ReflTransGen model.TakesNameFrom id last ∧
        model.declaredName? last = some name := by
    intro name
    rw [effectiveName?_eq_some_iff, exists_namedThrough_iff]
  refine ⟨Seeks.iff_effectiveName? model id, named, ?_⟩
  rw [Option.eq_none_iff_forall_ne_some]
  constructor
  · rintro nameless ⟨last, name, chain⟩
    exact nameless name ((named name).mpr ⟨last, chain⟩)
  · intro noChain name known
    obtain ⟨last, chain⟩ := (named name).mp known
    exact noChain ⟨last, name, chain⟩

/-! ## The redefinitions of a chain -/

/-- The redefinitions along which a name is looked for, at no more than the given number
of elements. -/
def redefinitionsAlong (model : Model) : Nat → ObjectId → List ObjectId
  | 0, _ => []
  | limit + 1, id =>
      match model.declaredName? id, model.namingFeature? id with
      | none, some next =>
          (model.ownedRedefinitions id).head?.toList ++ redefinitionsAlong model limit next
      | _, _ => []

/-- The redefinitions to which an element owes its name. -/
def namingRedefinitions (model : Model) (id : ObjectId) : List ObjectId :=
  if (model.effectiveName? id).isSome then
    model.redefinitionsAlong (model.objects.size + 1) id
  else
    []

theorem redefinitionsAlong_succ {model : Model} {id next redefinition : ObjectId}
    (unnamed : model.declaredName? id = none)
    (first : (model.ownedRedefinitions id).head? = some redefinition)
    (leads : model.namingFeature? id = some next) (limit : Nat) :
    model.redefinitionsAlong (limit + 1) id =
      redefinition :: model.redefinitionsAlong limit next := by
  rw [redefinitionsAlong, unnamed, leads]
  dsimp only
  rw [first]
  rfl

end Model

end ModelText
