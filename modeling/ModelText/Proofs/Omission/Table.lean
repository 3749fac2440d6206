import ModelText.Omission.Policy
import ModelText.Proofs.Graph.Tree

namespace ModelText

/-!
# The table of values left out

The policy of the textual notation assigns a category to a value, decides on the
category, and looks into the elements of a membership before it leaves the
membership out.  Here the values that are left out are listed independently of the
categories, one rule after the other, by what the model holds around each value.
The indices that remain of a feature are the ones that no rule of the list names.

The rules on relationships and on elements count through the stored values, whereas
the categories count through the objects among them.  The two agree because a
containment of a reachable model holds nothing but objects.
-/

/-! ## Reading the model -/

namespace Metaclass

theorem isA_trans {specific middle general : Metaclass} (below : specific.isA middle = true)
    (above : middle.isA general = true) : specific.isA general = true := by
  -- Up the lineage of the most specific kind, to where the one in the middle is met.
  induction lineage : specific.lineage generalizing specific with
  | nil =>
      rw [lineage_eq] at lineage
      cases lineage
  | cons first rest inductionHypothesis =>
      rcases (isA_eq_true_iff specific middle).mp below with rfl | ⟨parent, isParent, below⟩
      · exact above
      · rw [lineage_eq, isParent] at lineage
        have further := inductionHypothesis below (List.cons.inj lineage).2
        exact (isA_eq_true_iff specific general).mpr (.inr ⟨parent, isParent, further⟩)

end Metaclass

namespace Model

variable {model : Model} {owner relationship element : ObjectId} {feature : Metafeature}
  {index : Nat}

theorem isA_of_isA {specific general : Metaclass} (kind : model.isA element specific = true)
    (below : specific.isA general = true) : model.isA element general = true := by
  rcases (Option.any_eq_true _ _).mp kind with ⟨metaclass, known, isSpecific⟩
  exact (Option.any_eq_true _ _).mpr ⟨metaclass, known, Metaclass.isA_trans isSpecific below⟩

theorem owningMembership?_eq_some_iff {membership : ObjectId} :
    model.owningMembership? element = some membership ↔
      model.containment? element = some (membership, .ownedRelatedElement) ∧
        model.isA membership .owningMembership = true := by
  rw [owningMembership?, Option.filter_eq_some_iff, owningRelationship?,
    ownerThrough?_eq_some_iff]

/-- Feature memberships are owning memberships, which need not be asked for. -/
theorem owningFeatureMembership?_eq_some_iff {membership : ObjectId} :
    model.owningFeatureMembership? element = some membership ↔
      model.containment? element = some (membership, .ownedRelatedElement) ∧
        model.isA membership .featureMembership = true := by
  rw [owningFeatureMembership?, Option.filter_eq_some_iff, owningMembership?_eq_some_iff]
  constructor
  · rintro ⟨⟨contained, _⟩, kind⟩
    exact ⟨contained, kind⟩
  · rintro ⟨contained, kind⟩
    exact ⟨⟨contained, isA_of_isA kind (by decide)⟩, kind⟩

theorem not_featureReference_of_operator
    (operation : model.isA element .operatorExpression = true) :
    ¬model.isA element .featureReferenceExpression = true := by
  simp only [isA, Option.any_eq_true] at operation ⊢
  rintro ⟨metaclass, known, reading⟩
  rcases operation with ⟨same, known', operation⟩
  rw [known] at known'
  cases known'
  revert operation reading
  cases metaclass <;> decide

theorem operator?_eq_some_iff {symbol : String} :
    model.operator? element = some symbol ↔
      model.value? element .operator = some (.text symbol) := by
  simp only [operator?, text?, Option.bind_eq_some_iff]
  constructor
  · rintro ⟨value, held, isText⟩
    cases value with
    | text _ => rw [held, ← Option.some.inj isText]
    | _ => cases isText
  · intro held
    exact ⟨_, held, rfl⟩

theorem isInputParameter_iff :
    model.isInputParameter element = true ↔
      ∃ direction, model.value? element .direction = some (.direction direction) ∧
        (direction = .into ∨ direction = .inOut) := by
  simp only [isInputParameter, direction?, Option.any_eq_true, Option.bind_eq_some_iff]
  constructor
  · rintro ⟨direction, ⟨value, held, directed⟩, input⟩
    cases value with
    | direction value =>
        cases directed
        refine ⟨direction, held, ?_⟩
        cases direction <;> simp_all [Direction.isInput]
    | _ => cases directed
  · rintro ⟨direction, held, input⟩
    refine ⟨direction, ⟨_, held, rfl⟩, ?_⟩
    rcases input with rfl | rfl <;> rfl

/-! ## The rules -/

/-- A multiplicity without a range, which stands where no range was written. -/
structure BareMultiplicity (model : Model) (element : ObjectId) : Prop where
  multiplicity : model.isA element .multiplicity = true
  rangeless : model.isA element .multiplicityRange = false

/-- A membership that holds the result of the expression that owns it. -/
structure HoldsResult (model : Model) (expression membership : ObjectId) : Prop where
  expression : model.isA expression .expression = true
  returned : model.isA membership .returnParameterMembership = true

/-- An expression that is written with its result. -/
inductive PrintsResult (model : Model) (expression : ObjectId) : Prop where
  /-- A classification or a cast, by its operator. -/
  | operator {symbol : String} : model.isA expression .operatorExpression = true →
      model.value? expression .operator = some (.text symbol) →
      symbol ∈ ["all", "as", "meta"] → PrintsResult model expression
  /-- A reference that owns no membership beside its result. -/
  | featureReference {membership : ObjectId} :
      model.isA expression .featureReferenceExpression = true →
      model.ownedMemberships expression = [membership] → PrintsResult model expression

/-- A membership that holds an input of the invocation that owns it. -/
structure HoldsInput (model : Model) (invocation membership : ObjectId) : Prop where
  invocation : model.isA invocation .invocationExpression = true
  parameter : model.isA membership .parameterMembership = true
  /-- The first feature among the owned elements is directed inwards. -/
  input : ∃ parameter direction,
    (model.ownedRelatedElements membership).find? (model.isA · .feature) = some parameter ∧
      model.value? parameter .direction = some (.direction direction) ∧
      (direction = .into ∨ direction = .inOut)

/-- An owning membership without any element that would be written. -/
structure BareMembership (model : Model) (membership : ObjectId) : Prop where
  owning : model.isA membership .owningMembership = true
  bare : ∀ element, .object element ∈ model.values membership .ownedRelatedElement →
    model.BareMultiplicity element

/-- A feature of an item flow end whose first redefinition holds a redefined feature,
bound or not. -/
structure RedefinesOnFlowEnd (model : Model) (element : ObjectId) : Prop where
  onFlowEnd : ∃ membership flowEnd,
    model.containment? element = some (membership, .ownedRelatedElement) ∧
      model.isA membership .featureMembership = true ∧
      model.containment? membership = some (flowEnd, .ownedRelationship) ∧
      model.isA flowEnd .itemFlowEnd = true
  redefines : ∃ redefinition rest redefined,
    model.ownedRedefinitions element = redefinition :: rest ∧
      model.value? redefinition .redefinedFeature = some redefined ∧
      redefined.isReference = true

/-- The rules by which the textual notation leaves out a value of an object, named by
its feature and its index. -/
inductive Omitted (model : Model) (owner : ObjectId) : Metafeature → Nat → Prop where
  /-- The reader or the linker fills these features in. -/
  | alwaysDerived {feature : Metafeature} (index : Nat) :
      feature ∈ [.elementId, .aliasIds, .isComposite, .typedFeature, .subsettingFeature,
        .redefiningFeature] → Omitted model owner feature index
  /-- The target of a relationship that owns it is written as what it owns. -/
  | ownedTarget {feature : Metafeature} {element : ObjectId} (index : Nat) :
      feature ∈ [.conjugatedType, .originalPortDefinition, .referencedFeature] →
      .object element ∈ model.values owner .ownedRelatedElement →
      Omitted model owner feature index
  /-- A parameter is directed by its membership. -/
  | parameterDirection {membership : ObjectId} (index : Nat) :
      model.containment? owner = some (membership, .ownedRelatedElement) →
      model.isA membership .parameterMembership = true →
      Omitted model owner .direction index
  /-- A feature of an item flow end is directed by what it redefines. -/
  | flowEndDirection (index : Nat) :
      model.RedefinesOnFlowEnd owner → Omitted model owner .direction index
  /-- An end is one by its membership. -/
  | endFlag {membership : ObjectId} (index : Nat) :
      model.containment? owner = some (membership, .ownedRelatedElement) →
      model.isA membership .endFeatureMembership = true → Omitted model owner .isEnd index
  /-- A multiplicity without a range. -/
  | bareMultiplicity {element : ObjectId} {index : Nat} :
      (model.values owner .ownedRelatedElement)[index]? = some (.object element) →
      model.BareMultiplicity element → Omitted model owner .ownedRelatedElement index
  /-- The result of an expression, unless it is written. -/
  | result {relationship : ObjectId} {index : Nat} :
      (model.values owner .ownedRelationship)[index]? = some (.object relationship) →
      model.HoldsResult owner relationship → ¬model.PrintsResult owner →
      Omitted model owner .ownedRelationship index
  /-- An input of an invocation. -/
  | input {relationship : ObjectId} {index : Nat} :
      (model.values owner .ownedRelationship)[index]? = some (.object relationship) →
      ¬model.HoldsResult owner relationship → model.HoldsInput owner relationship →
      Omitted model owner .ownedRelationship index
  /-- A membership that has nothing to write. -/
  | bareMembership {relationship : ObjectId} {index : Nat} :
      (model.values owner .ownedRelationship)[index]? = some (.object relationship) →
      ¬model.HoldsResult owner relationship → model.BareMembership relationship →
      Omitted model owner .ownedRelationship index

/-! ## The rules of single features -/

theorem omitted_ownedTarget_iff
    (target : feature ∈ [.conjugatedType, .originalPortDefinition, .referencedFeature]) :
    model.Omitted owner feature index ↔
      ∃ element, .object element ∈ model.values owner .ownedRelatedElement := by
  constructor
  · intro omitted
    cases omitted with
    | ownedTarget _ _ member => exact ⟨_, member⟩
    | alwaysDerived _ listed =>
        have apart : ∀ other, other ∈ [Metafeature.conjugatedType, .originalPortDefinition,
            .referencedFeature] → other ∉ [Metafeature.elementId, .aliasIds, .isComposite,
            .typedFeature, .subsettingFeature, .redefiningFeature] := by decide
        exact absurd listed (apart feature target)
    | _ => exact absurd target (by decide)
  · rintro ⟨element, member⟩
    exact .ownedTarget index target member

theorem omitted_direction_iff :
    model.Omitted owner .direction index ↔
      (∃ membership, model.containment? owner = some (membership, .ownedRelatedElement) ∧
        model.isA membership .parameterMembership = true) ∨ model.RedefinesOnFlowEnd owner := by
  constructor
  · intro omitted
    cases omitted with
    | alwaysDerived _ listed | ownedTarget _ listed _ => exact absurd listed (by decide)
    | parameterDirection _ contained kind => exact .inl ⟨_, contained, kind⟩
    | flowEndDirection _ redefines => exact .inr redefines
  · rintro (⟨membership, contained, kind⟩ | redefines)
    · exact .parameterDirection index contained kind
    · exact .flowEndDirection index redefines

theorem omitted_isEnd_iff :
    model.Omitted owner .isEnd index ↔
      ∃ membership, model.containment? owner = some (membership, .ownedRelatedElement) ∧
        model.isA membership .endFeatureMembership = true := by
  constructor
  · intro omitted
    cases omitted with
    | alwaysDerived _ listed | ownedTarget _ listed _ => exact absurd listed (by decide)
    | endFlag _ contained kind => exact ⟨_, contained, kind⟩
  · rintro ⟨membership, contained, kind⟩
    exact .endFlag index contained kind

theorem omitted_ownedRelatedElement_iff
    (selected : (model.values owner .ownedRelatedElement)[index]? = some (.object element)) :
    model.Omitted owner .ownedRelatedElement index ↔ model.BareMultiplicity element := by
  constructor
  · intro omitted
    cases omitted with
    | alwaysDerived _ listed | ownedTarget _ listed _ => exact absurd listed (by decide)
    | bareMultiplicity selected' bare =>
        rw [selected] at selected'
        cases selected'
        exact bare
  · exact .bareMultiplicity selected

theorem omitted_ownedRelationship_iff
    (selected : (model.values owner .ownedRelationship)[index]? = some (.object relationship)) :
    model.Omitted owner .ownedRelationship index ↔
      model.HoldsResult owner relationship ∧ ¬model.PrintsResult owner ∨
        ¬model.HoldsResult owner relationship ∧
          (model.HoldsInput owner relationship ∨ model.BareMembership relationship) := by
  constructor
  · intro omitted
    cases omitted with
    | alwaysDerived _ listed | ownedTarget _ listed _ => exact absurd listed (by decide)
    | result selected' holds unprinted =>
        rw [selected] at selected'
        cases selected'
        exact .inl ⟨holds, unprinted⟩
    | input selected' noResult holds =>
        rw [selected] at selected'
        cases selected'
        exact .inr ⟨noResult, .inl holds⟩
    | bareMembership selected' noResult bare =>
        rw [selected] at selected'
        cases selected'
        exact .inr ⟨noResult, .inr bare⟩
  · rintro (⟨holds, unprinted⟩ | ⟨noResult, holds | bare⟩)
    · exact .result selected holds unprinted
    · exact .input selected noResult holds
    · exact .bareMembership selected noResult bare

/-! ## The objects a containment holds -/

/-- Counting through the values of a containment is counting through its objects. -/
theorem Forest.getElem?_values (forest : Forest model) (storage : feature.storage = .containment)
    (owner : ObjectId) (index : Nat) :
    (model.values owner feature)[index]? =
      ((model.objectValues owner feature)[index]?).map Value.object := by
  rw [forest.values_eq_map_objectValues storage, List.getElem?_map]

theorem Forest.getElem?_objectValues (forest : Forest model)
    (storage : feature.storage = .containment)
    (selected : (model.values owner feature)[index]? = some (.object element)) :
    (model.objectValues owner feature)[index]? = some element := by
  rw [forest.getElem?_values storage] at selected
  rcases Option.map_eq_some_iff.mp selected with ⟨found, position, same⟩
  rw [position, Value.object.inj same]

/-- Every stored value of a containment is an object. -/
theorem Forest.exists_object_getElem? (forest : Forest model)
    (storage : feature.storage = .containment)
    (stored : index < (model.values owner feature).length) :
    ∃ child, (model.values owner feature)[index]? = some (.object child) := by
  rw [forest.getElem?_values storage]
  rw [forest.values_eq_map_objectValues storage, List.length_map] at stored
  exact ⟨_, by rw [List.getElem?_eq_getElem stored, Option.map_some]⟩

end Model

/-! ## Categories follow the rules -/

namespace Category

variable {model : Model} {owner relationship element : ObjectId} {index : Nat}

theorem isPlaceholder_iff :
    isPlaceholder model element = true ↔ model.BareMultiplicity element := by
  rw [isPlaceholder, Bool.and_eq_true, Bool.not_eq_true']
  exact ⟨fun both => ⟨both.1, both.2⟩, fun bare => ⟨bare.multiplicity, bare.rangeless⟩⟩

theorem isExpressionResult_iff :
    isExpressionResult model owner relationship = true ↔
      model.HoldsResult owner relationship := by
  rw [isExpressionResult, Bool.and_eq_true]
  exact ⟨fun both => ⟨both.1, both.2⟩, fun holds => ⟨holds.expression, holds.returned⟩⟩

theorem isInvocationInput_iff :
    isInvocationInput model owner relationship = true ↔
      model.HoldsInput owner relationship := by
  simp only [isInvocationInput, Bool.and_eq_true, Option.any_eq_true, Model.isInputParameter_iff,
    Model.ownedMemberFeature?]
  constructor
  · rintro ⟨⟨invocation, kind⟩, parameter, first, direction, held, input⟩
    exact ⟨invocation, kind, parameter, direction, first, held, input⟩
  · rintro ⟨invocation, kind, parameter, direction, first, held, input⟩
    exact ⟨⟨invocation, kind⟩, parameter, first, direction, held, input⟩

theorem isRedefiningItemFlowEnd_iff :
    isRedefiningItemFlowEnd model owner = true ↔ model.RedefinesOnFlowEnd owner := by
  simp only [isRedefiningItemFlowEnd, Bool.and_eq_true, Option.any_eq_true,
    Option.bind_eq_some_iff, Model.owningFeatureMembership?_eq_some_iff, Model.owningType?,
    Option.filter_eq_some_iff, Model.owningRelatedElement?, Model.ownerThrough?_eq_some_iff,
    Model.hasRedefinedFeature, List.head?_eq_some_iff]
  constructor
  · rintro ⟨⟨flowEnd, ⟨membership, ⟨contained, feature⟩, above, _⟩, kind⟩,
      redefinition, ⟨rest, first⟩, redefined, held, reference⟩
    exact ⟨⟨membership, flowEnd, contained, feature, above, kind⟩,
      ⟨redefinition, rest, redefined, first, held, reference⟩⟩
  · rintro ⟨⟨membership, flowEnd, contained, feature, above, kind⟩,
      ⟨redefinition, rest, redefined, first, held, reference⟩⟩
    -- Flow ends are types, which need not be asked for.
    have isType : model.isA flowEnd .type = true := Model.isA_of_isA kind (by decide)
    exact ⟨⟨flowEnd, ⟨membership, ⟨contained, feature⟩, above, isType⟩, kind⟩,
      redefinition, ⟨rest, first⟩, redefined, held, reference⟩

/-- The category of a stored relationship is the one of the relationship itself. -/
theorem of_ownedRelationship (forest : model.Forest)
    (selected : (model.values owner .ownedRelationship)[index]? = some (.object relationship)) :
    Category.of model owner .ownedRelationship (some index) =
      ofOwnedRelationship model owner relationship := by
  change ofSelected (model.ownedRelationships owner) (some index) _ = _
  simp [ofSelected, Model.ownedRelationships, forest.getElem?_objectValues rfl selected]

theorem of_ownedRelatedElement (forest : model.Forest)
    (selected : (model.values owner .ownedRelatedElement)[index]? = some (.object element)) :
    Category.of model owner .ownedRelatedElement (some index) =
      ofOwnedRelatedElement model element := by
  change ofSelected (model.ownedRelatedElements owner) (some index) _ = _
  simp [ofSelected, Model.ownedRelatedElements, forest.getElem?_objectValues rfl selected]

end Category

namespace OmissionPolicy

open Category

variable {model : Model} {owner relationship element : ObjectId} {feature : Metafeature}
  {index : Nat} {selection : Option Nat}

theorem omitsResult_shapeOf_iff :
    omitsResult (shapeOf model owner) = true ↔ ¬model.PrintsResult owner := by
  rw [← Bool.not_eq_false, not_iff_not, shapeOf]
  by_cases operation : model.isA owner .operatorExpression = true
  · have printed : omitsResult (.operator (model.operator? owner)) = false ↔
        ∃ symbol, model.operator? owner = some symbol ∧ symbol ∈ resultPrintingOperators := by
      simp [omitsResult, Option.any_eq_true]
    rw [if_pos operation, printed]
    constructor
    · rintro ⟨symbol, held, listed⟩
      exact .operator operation (Model.operator?_eq_some_iff.mp held) listed
    · rintro (⟨_, held, listed⟩ | ⟨reading, _⟩)
      · exact ⟨_, Model.operator?_eq_some_iff.mpr held, listed⟩
      · exact absurd reading (Model.not_featureReference_of_operator operation)
  · rw [if_neg operation]
    by_cases reading : model.isA owner .featureReferenceExpression = true
    · have printed : omitsResult (.featureReference (model.ownedMemberships owner).length) =
          false ↔ ∃ membership, model.ownedMemberships owner = [membership] := by
        rw [← List.length_eq_one_iff]
        simp [omitsResult]
      rw [if_pos reading, printed]
      constructor
      · rintro ⟨membership, single⟩
        exact .featureReference reading single
      · rintro (⟨operation', _, _⟩ | ⟨_, single⟩)
        · exact absurd operation' operation
        · exact ⟨_, single⟩
    · rw [if_neg reading]
      constructor
      · intro printed
        split at printed <;> cases printed
      · rintro (⟨operation', _, _⟩ | ⟨reading', _⟩)
        · exact absurd operation' operation
        · exact absurd reading' reading

/-- The plain policy leaves out nothing that is stored. -/
theorem omits_plain_eq_false (forest : model.Forest)
    (stored : index < (model.values owner feature).length)
    (decided : selection = some index ∨ selection = none) :
    plain.omits model owner feature selection = false := by
  have member := List.getElem_mem stored
  rcases forest.holder_fits member with ⟨metaclass, _, fits⟩
  have isStored : feature.isStored = true := (List.mem_filter.mp fits).2
  rcases decided with rfl | rfl
  · simp [plain, isStored, stored]
  · simp [plain, isStored, List.ne_nil_of_mem member]

theorem omitsOwnedElement_plain_iff (forest : model.Forest)
    (selected : (model.values relationship .ownedRelatedElement)[index]? =
      some (.object element)) :
    omitsOwnedElement plain model relationship index = true ↔
      model.BareMultiplicity element := by
  rw [← isPlaceholder_iff, omitsOwnedElement, of_ownedRelatedElement forest selected,
    ofOwnedRelatedElement]
  by_cases placeholder : isPlaceholder model element = true
  · simp [placeholder]
  · have stored := (List.getElem?_eq_some_iff.mp selected).1
    have kept := omits_plain_eq_false forest stored (.inl rfl)
    simp [placeholder, kept]

theorem omitsEveryOwnedElement_plain_iff (forest : model.Forest)
    (owning : model.isA relationship .owningMembership = true) :
    omitsEveryOwnedElement plain model relationship = true ↔
      model.BareMembership relationship := by
  simp only [omitsEveryOwnedElement, List.all_eq_true, List.mem_range]
  constructor
  · intro every
    refine ⟨owning, fun element member => ?_⟩
    rcases List.mem_iff_getElem?.mp member with ⟨index, selected⟩
    exact (omitsOwnedElement_plain_iff forest selected).mp
      (every index (List.getElem?_eq_some_iff.mp selected).1)
  · intro bare index stored
    rcases forest.exists_object_getElem? rfl stored with ⟨element, selected⟩
    exact (omitsOwnedElement_plain_iff forest selected).mpr
      (bare.bare element (List.mem_of_getElem? selected))

theorem mem_printedIndices_iff (policy : OmissionPolicy) :
    index ∈ policy.printedIndices model owner feature ↔
      index < (model.values owner feature).length ∧
        policy.omits model owner feature
          (if policy.decidesEach model owner feature then some index else none) = false := by
  rw [printedIndices]
  cases each : policy.decidesEach model owner feature with
  | true => simp
  | false => cases whole : policy.omits model owner feature none <;> simp [whole]

/-- The textual policy leaves out what is stored when the category says so. -/
theorem omits_textual_plain_iff (forest : model.Forest)
    (stored : index < (model.values owner feature).length)
    (decided : selection = some index ∨ selection = none) :
    (textual plain).omits model owner feature selection = true ↔
      decision? plain model (Category.of model owner feature selection) = some true := by
  change (decision? plain model _).getD _ = true ↔ _
  rw [omits_plain_eq_false forest stored decided]
  cases decision? plain model (Category.of model owner feature selection) <;> simp

theorem decision?_owningRelationshipTarget_iff :
    decision? plain model
        (.owningRelationshipTarget !(model.ownedRelatedElements owner).isEmpty) = some true ↔
      ∃ element, .object element ∈ model.values owner .ownedRelatedElement := by
  simp only [decision?, Option.some.injEq, Bool.not_eq_true', List.isEmpty_eq_false_iff_exists_mem,
    Model.ownedRelatedElements, Model.mem_objectValues_iff]

theorem decision?_direction_iff :
    decision? plain model (Category.of model owner .direction none) = some true ↔
      model.Omitted owner .direction index := by
  have parameter : ((model.owningFeatureMembership? owner).bind model.metaclass?).any
        (·.isA .parameterMembership) = true ↔
      ∃ membership, model.containment? owner = some (membership, .ownedRelatedElement) ∧
        model.isA membership .parameterMembership = true := by
    simp only [Option.any_eq_true, Option.bind_eq_some_iff,
      Model.owningFeatureMembership?_eq_some_iff]
    constructor
    · rintro ⟨metaclass, ⟨membership, ⟨contained, _⟩, known⟩, kind⟩
      exact ⟨membership, contained, (Option.any_eq_true _ _).mpr ⟨metaclass, known, kind⟩⟩
    · rintro ⟨membership, contained, kind⟩
      rcases (Option.any_eq_true _ _).mp kind with ⟨metaclass, known, isParameter⟩
      have isFeature : model.isA membership .featureMembership = true :=
        Model.isA_of_isA kind (by decide)
      exact ⟨metaclass, ⟨membership, ⟨contained, isFeature⟩, known⟩, isParameter⟩
  change decision? plain model (.direction _ _) = some true ↔ _
  rw [Model.omitted_direction_iff, ← parameter, ← isRedefiningItemFlowEnd_iff, decision?,
    ← Bool.or_eq_true]
  split <;> simp_all

theorem decision?_isEnd_iff :
    decision? plain model (Category.of model owner .isEnd none) = some true ↔
      model.Omitted owner .isEnd index := by
  change decision? plain model (.isEnd _) = some true ↔ _
  simp only [decision?, Option.some.injEq, Option.any_eq_true,
    Model.owningMembership?_eq_some_iff, Model.omitted_isEnd_iff]
  constructor
  · rintro ⟨membership, ⟨contained, _⟩, kind⟩
    exact ⟨membership, contained, kind⟩
  · rintro ⟨membership, contained, kind⟩
    exact ⟨membership, ⟨contained, Model.isA_of_isA kind (by decide)⟩, kind⟩

/-- The decision on a relationship follows the rules on results, inputs and bare
memberships, in this order. -/
theorem decision?_ofOwnedRelationship_iff (forest : model.Forest) :
    decision? plain model (ofOwnedRelationship model owner relationship) = some true ↔
      model.HoldsResult owner relationship ∧ ¬model.PrintsResult owner ∨
        ¬model.HoldsResult owner relationship ∧
          (model.HoldsInput owner relationship ∨ model.BareMembership relationship) := by
  rw [ofOwnedRelationship]
  by_cases result : isExpressionResult model owner relationship = true
  · have holds := isExpressionResult_iff.mp result
    simp [result, holds, decision?, omitsResult_shapeOf_iff]
  have noResult := mt isExpressionResult_iff.mpr result
  by_cases input : isInvocationInput model owner relationship = true
  · have holds := isInvocationInput_iff.mp input
    simp [result, noResult, input, holds, decision?]
  have noInput := mt isInvocationInput_iff.mpr input
  by_cases owning : model.isA relationship .owningMembership = true
  · simp [result, noResult, input, noInput, owning, decision?,
      omitsEveryOwnedElement_plain_iff forest owning]
  · have written : ¬model.BareMembership relationship := fun bare => owning bare.owning
    simp [result, noResult, input, noInput, owning, written, decision?]

/-- The indices that remain of a feature of a reachable model are those of the values that no
rule leaves out. -/
theorem not_mem_printedIndices_textual_iff (reachable : model.Reachable)
    (stored : index < (model.values owner feature).length) :
    index ∉ (textual plain).printedIndices model owner feature ↔
      model.Omitted owner feature index := by
  have forest := reachable.forest
  have byCategory : index ∉ (textual plain).printedIndices model owner feature ↔
      decision? plain model (Category.of model owner feature
        (if (textual plain).decidesEach model owner feature then some index else none)) =
          some true := by
    rw [← omits_textual_plain_iff forest stored (by split <;> simp), mem_printedIndices_iff,
      not_and, Bool.not_eq_false]
    exact forall_prop_of_true stored
  rw [byCategory]
  cases feature with
  | elementId | aliasIds | isComposite | typedFeature | subsettingFeature
    | redefiningFeature =>
      exact iff_of_true rfl (.alwaysDerived index (by decide))
  | conjugatedType | originalPortDefinition | referencedFeature =>
      rw [Model.omitted_ownedTarget_iff (by decide)]
      exact decision?_owningRelationshipTarget_iff
  | direction => exact decision?_direction_iff
  | isEnd => exact decision?_isEnd_iff
  | ownedRelatedElement =>
      rcases forest.exists_object_getElem? rfl stored with ⟨element, selected⟩
      rw [Model.omitted_ownedRelatedElement_iff selected, ← isPlaceholder_iff]
      change decision? plain model (Category.of model owner .ownedRelatedElement (some index)) =
        some true ↔ _
      rw [of_ownedRelatedElement forest selected, ofOwnedRelatedElement]
      split <;> simp_all [decision?]
  | ownedRelationship =>
      rcases forest.exists_object_getElem? rfl stored with ⟨relationship, selected⟩
      rw [Model.omitted_ownedRelationship_iff selected,
        ← decision?_ofOwnedRelationship_iff forest, ← of_ownedRelationship forest selected]
      rfl
  | _ =>
      refine iff_of_false (fun decided => by cases decided) ?_
      intro omitted
      cases omitted with
      | alwaysDerived _ listed | ownedTarget _ listed _ => exact absurd listed (by decide)

/-- An addition with its result, an operand directed inwards, one directed outwards and a
multiplicity without a range. -/
def addition : ModelDraft :=
  let draft :=
    (ModelDraft.initial.member ModelDraft.root .featureMembership .operatorExpression none).2
  let draft := draft.set ⟨1⟩ .operator (.text "+")
  let draft := (draft.member ⟨1⟩ .returnParameterMembership .feature none).2
  let draft := (draft.member ⟨1⟩ .parameterMembership .feature none).2
  let draft := draft.set ⟨5⟩ .direction (.direction .inOut)
  let draft := (draft.member ⟨1⟩ .parameterMembership .feature none).2
  let draft := draft.set ⟨7⟩ .direction (.direction .out)
  (draft.member ⟨1⟩ .owningMembership .multiplicity none).2

theorem addition_reachable : addition.model.Reachable := by
  unfold addition
  apply ModelDraft.reachable_member
  apply ModelDraft.reachable_set
  apply ModelDraft.reachable_member
  apply ModelDraft.reachable_set
  apply ModelDraft.reachable_member
  apply ModelDraft.reachable_member
  apply ModelDraft.reachable_set
  apply ModelDraft.reachable_member
  exact ModelDraft.reachable_initial

/-- Of what the addition owns only the operand directed outwards is written.  Its
result falls under the rule on results, the rest under two other ones. -/
theorem omitted_addition :
    (textual plain).printedIndices addition.model ⟨1⟩ .ownedRelationship = [2] ∧
      addition.model.Omitted ⟨1⟩ .ownedRelationship 0 ∧
      addition.model.Omitted ⟨1⟩ .ownedRelationship 1 ∧
      ¬addition.model.Omitted ⟨1⟩ .ownedRelationship 2 ∧
      addition.model.Omitted ⟨1⟩ .ownedRelationship 3 := by
  have table {index : Nat}
      (stored : index < (addition.model.values ⟨1⟩ .ownedRelationship).length) :=
    not_mem_printedIndices_textual_iff addition_reachable stored
  have printed :
      (textual plain).printedIndices addition.model ⟨1⟩ .ownedRelationship = [2] := by
    decide +kernel
  rw [printed] at table
  refine ⟨printed, (table ?_).mp ?_, (table ?_).mp ?_, (table ?_).not.mp ?_, (table ?_).mp ?_⟩
  all_goals decide +kernel

end OmissionPolicy

end ModelText
