import ModelText.Proofs.Sequence.RoundTrip

namespace ModelText

/-!
# Names that come first

A feature without a declared name has the name of what it redefines.  References of a
copy are linked one after the other, so the feature has no name before the redefinition
is linked that gives it the name.  A token that spells the name is read as in the
original if it is linked later than that, and the reader takes references in the order
in which they are printed.

So a tree can be rebuilt when every name is printed before it is used: no reference
leads to a feature, or into a feature, that owes its name to a redefinition further on.
The last section has a tree that is printed without an error but cannot be rebuilt,
since a part subsets a feature of the definition that follows.
-/

namespace Rebuild

variable {model copied : Model} {tree : List ObjectId} {object : ObjectId}

/-! ## Names along linked redefinitions -/

section

variable (mirrors : Mirrors model tree copied) (forest : model.Forest)
  (enclosed : model.Enclosed tree) (inward : Inward model tree)
include mirrors forest enclosed inward

omit inward in
theorem Mirrors.namingFeature?_copy (member : object ∈ tree) {redefinition next : ObjectId}
    (first : (model.ownedRedefinitions object).head? = some redefinition)
    (leads : model.namingFeature? object = some next)
    (linked : Linked model tree copied redefinition .redefinedFeature) :
    copied.namingFeature? (copyOf tree object) = some (copyOf tree next) := by
  rcases (model.namingFeature?_eq_some_iff _ _).mp leads with
    ⟨isFeature, other, alsoFirst, redefined⟩
  cases first.symm.trans alsoFirst
  refine (copied.namingFeature?_eq_some_iff _ _).mpr ⟨?_, copyOf tree redefinition, ?_, ?_⟩
  · rw [mirrors.isA_eq member, isFeature]
  · rw [mirrors.ownedRedefinitions_eq forest enclosed member, List.head?_map, first]
    rfl
  · rcases Option.bind_eq_some_iff.mp redefined with ⟨value, held, isObject⟩
    rw [Model.value?] at held
    rw [Model.redefinedFeature?, Model.value?, linked, List.head?_map, held, Option.map_some,
      Option.bind_some, Value.object?_rename, isObject]
    rfl

/-- The chain of a name is copied as far as its redefinitions are linked. -/
theorem Mirrors.namedThrough_copy {chain : List ObjectId} {name : String}
    (named : Model.NamedThrough model object chain name) (member : object ∈ tree) {limit : Nat}
    (enough : chain.length ≤ limit)
    (linked : ∀ redefinition, redefinition ∈ model.redefinitionsAlong limit object →
      Linked model tree copied redefinition .redefinedFeature) :
    Model.NamedThrough copied (copyOf tree object) (chain.map (copyOf tree)) name := by
  induction named generalizing limit with
  | declared known =>
      refine .declared ?_
      rw [mirrors.declaredName?_eq member, known]
  | @redefined id next chain name unnamed leads _ inductionHypothesis =>
      cases limit with
      | zero => cases enough
      | succ limit =>
          rcases (model.namingFeature?_eq_some_iff _ _).mp leads with
            ⟨_, redefinition, first, redefined⟩
          rw [Model.redefinitionsAlong_succ unnamed first leads] at linked
          have redefinitionMember := firstRedefinition_mem forest enclosed member first
          have nextMember := referenced_mem inward redefinitionMember rfl redefined
          refine .redefined ?_ ?_ (inductionHypothesis nextMember
            (Nat.le_of_succ_le_succ enough) fun later further =>
              linked later (List.mem_cons_of_mem _ further))
          · rw [mirrors.declaredName?_eq member, unnamed]
          · exact mirrors.namingFeature?_copy forest enclosed member first leads
              (linked redefinition List.mem_cons_self)

/-- The copy of an element has its name once the redefinitions are linked to which the
element owes the name. -/
theorem Mirrors.keepsName (member : object ∈ tree)
    (linked : ∀ redefinition, redefinition ∈ model.namingRedefinitions object →
      Linked model tree copied redefinition .redefinedFeature) :
    KeepsName model tree copied object := by
  rw [KeepsName]
  cases named : model.effectiveName? object with
  | none =>
      -- Copies have no names of their own.
      cases found : copied.effectiveName? (copyOf tree object) with
      | none => rfl
      | some name =>
          rw [mirrors.effectiveName?_of_copy forest enclosed inward member found] at named
          cases named
  | some name =>
      rw [Model.namingRedefinitions, named, Option.isSome_some, if_pos rfl] at linked
      rcases (model.effectiveName?_eq_some_iff _ _).mp named with ⟨chain, through⟩
      refine (copied.effectiveName?_eq_some_iff _ _).mpr ⟨chain.map (copyOf tree), ?_⟩
      exact mirrors.namedThrough_copy forest enclosed inward through member
        (Nat.le_succ_of_le through.length_le) linked

end

/-! ## References in order -/

/-- Among earlier references are the redefinitions to which the target of a reference and
the elements around the target owe their names. -/
def NamedBefore (model : Model) (earlier : List (ObjectId × Metafeature × String))
    (entry : ObjectId × Metafeature × String) : Prop :=
  ∀ target ∈ model.objectValues entry.1 entry.2.1, ∀ ancestor ∈ model.containerChain target,
    ∀ redefinition ∈ model.namingRedefinitions ancestor,
      ∃ naming ∈ earlier, naming.1 = redefinition ∧ naming.2.1 = .redefinedFeature

/-- Names come first: what a reference leads to is named before. -/
def NamesFirst (model : Model) (references : List (ObjectId × Metafeature × String)) : Prop :=
  ∀ index ∈ List.range references.length, ∀ entry ∈ references[index]?,
    NamedBefore model (references.take index) entry

section

variable (model : Model) (references : List (ObjectId × Metafeature × String))

instance decidableNamedBefore (entry : ObjectId × Metafeature × String) :
    Decidable (NamedBefore model references entry) :=
  inferInstanceAs (Decidable (∀ target ∈ model.objectValues entry.1 entry.2.1,
    ∀ ancestor ∈ model.containerChain target,
      ∀ redefinition ∈ model.namingRedefinitions ancestor,
        ∃ naming ∈ references, naming.1 = redefinition ∧ naming.2.1 = .redefinedFeature))

instance decidableNamesFirst : Decidable (NamesFirst model references) :=
  inferInstanceAs (Decidable (∀ index ∈ List.range references.length,
    ∀ entry ∈ references[index]?, NamedBefore model (references.take index) entry))

end

theorem NamesFirst.namedBefore {references before after : List (ObjectId × Metafeature × String)}
    {entry : ObjectId × Metafeature × String} (ordered : NamesFirst model references)
    (split : references = before ++ entry :: after) : NamedBefore model before entry := by
  have below : before.length < references.length := by
    rw [split, List.length_append, List.length_cons]
    omega
  have here : references[before.length]? = some entry := by
    rw [split, List.getElem?_append_right (Nat.le_refl _), Nat.sub_self]
    rfl
  have named := ordered before.length (List.mem_range.mpr below) entry here
  rwa [split, List.take_left] at named

/-- Names that come first are there in time. -/
theorem NamesFirst.keptInTime {references : List (ObjectId × Metafeature × String)}
    {separator : String} (ordered : NamesFirst model references) (forest : model.Forest)
    (enclosed : model.Enclosed tree) (inward : Inward model tree)
    (refer : ∀ entry, entry ∈ references → Refers model tree separator entry) :
    KeptInTime model tree references := by
  intro before entry after split copied mirrors linked target held ancestor above
  have listed : entry ∈ references := by
    rw [split]
    exact List.mem_append_right _ List.mem_cons_self
  have isTarget : target ∈ model.objectValues entry.1 entry.2.1 := by
    rw [Model.objectValues, held]
    exact List.mem_cons_self
  have around := enclosed.containerChain_subset forest ((refer entry listed).target_mem held)
  refine mirrors.keepsName forest enclosed inward (around above) ?_
  intro redefinition owed
  rcases ordered.namedBefore split target isTarget ancestor above redefinition owed with
    ⟨naming, isEarlier, rfl, isRedefined⟩
  have filled := linked naming isEarlier
  rwa [isRedefined] at filled

/-- A restorable tree that a pass prints can be rebuilt from the events if names come
first.  The result mirrors the tree, and every printed reference leads to the copy of
what it refers to. -/
theorem rebuild_run_namesFirst {model : Model} {root : ObjectId} (reachable : model.Reachable)
    (exist : root.index < model.objects.size) (uncontained : model.containment? root = none)
    (restorable : Restorable model root) (options : Options) (constraints : Option Constraints)
    {tally : Tally}
    (printed : ((Pass.standard options constraints).run model root).result = .ok tally)
    (ordered : NamesFirst model
      (((Pass.standard options constraints).run model root).events.filterMap reference?)) :
    ∃ copied, rebuild ((Pass.standard options constraints).run model root).events
          options.nameSeparator = .ok (copied, copyOf (model.containmentTree root) root) ∧
      Mirrors model (model.containmentTree root) copied ∧
      ∀ object feature token, (object, feature, token) ∈
          ((Pass.standard options constraints).run model root).events.filterMap reference? →
        ∃ target, target ∈ model.containmentTree root ∧
          model.values object feature = [.object target] ∧
          copied.values (copyOf (model.containmentTree root) object) feature =
            [.object (copyOf (model.containmentTree root) target)] := by
  have forest := reachable.forest
  have enclosed := forest.enclosed exist uncontained
  have whole : (Pass.standard options constraints).printedTree model root =
      model.containmentTree root := restorable.printedTree_eq rfl forest
  cases finished : (Pass.standard options constraints).run model root with
  | mk events result =>
      rw [finished] at printed ordered
      cases printed
      rcases Pass.run_eq_ok forest exist finished with ⟨traced, accepts⟩
      rcases replay_trace (Pass.standard options constraints) forest exist with
        ⟨replay, replays, replayed⟩
      have references : events.filterMap reference? = (model.containmentTree root).flatMap
          ((Pass.standard options constraints).printedReferences model) := by
        rw [traced, Pass.references_trace forest, whole]
      dsimp only at ordered ⊢
      rw [references] at ordered ⊢
      rw [whole] at accepts replayed
      have refer : ∀ entry, entry ∈ (model.containmentTree root).flatMap
            ((Pass.standard options constraints).printedReferences model) →
          Refers model (model.containmentTree root) options.nameSeparator entry :=
        fun _ listed => restorable.refers forest rfl enclosed listed
      rcases restorable.finish_eq_ok forest rfl rfl enclosed uncontained accepts replayed
        (ordered.keptInTime forest enclosed restorable.toInward refer) with
        ⟨copied, finishes, mirrors, complete⟩
      refine ⟨copied, ?_, mirrors, ?_⟩
      · rw [rebuild, traced, replays]
        exact finishes
      · intro object feature token listed
        have refers := refer _ listed
        rcases refers.designates with ⟨target, _, inside, held, _⟩
        refine ⟨target, inside, held, ?_⟩
        rw [complete refers.member refers.storage, held]
        rfl

/-! ## Names that come late -/

/-- Vehicles have a wheel and a spare one.  Cars redefine the wheel without giving it a
name, and have a twin wheel. -/
def unnamedWheel : ModelDraft :=
  let draft := (ModelDraft.initial.partDefinition ModelDraft.root "Vehicle").2
  let draft := (draft.part ⟨1⟩ (some "wheel")).2
  let draft := (draft.part ⟨1⟩ (some "spare")).2
  let draft := (draft.partDefinition ModelDraft.root "Car").2
  let draft := (draft.part ⟨7⟩ none).2
  let draft := (draft.redefines ⟨9⟩ (.object ⟨3⟩)).2
  (draft.part ⟨7⟩ (some "twin")).2

/-- The twin wheel subsets the wheel of cars, which comes before. -/
def namedEarlier : ModelDraft := (unnamedWheel.subsets ⟨12⟩ (.object ⟨9⟩)).2

/-- The spare wheel subsets the wheel of cars, which comes after. -/
def namedLater : ModelDraft := (unnamedWheel.subsets ⟨5⟩ (.object ⟨9⟩)).2

theorem unnamedWheel_reachable : unnamedWheel.model.Reachable := by
  unfold unnamedWheel
  apply ModelDraft.reachable_member
  apply ModelDraft.reachable_redefines
  iterate 5 apply ModelDraft.reachable_member
  exact ModelDraft.reachable_initial

/-- The twin wheel subsets the wheel of cars, in the copy as in the original. -/
theorem rebuild_run_namesFirst_namedEarlier :
    namedEarlier.model.declaredName? ⟨9⟩ = none ∧
      namedEarlier.model.effectiveName? ⟨9⟩ = some "wheel" ∧
      ∃ copied copiedRoot,
        rebuild ((Pass.standard .standard none).run namedEarlier.model ⟨0⟩).events
            Options.standard.nameSeparator = .ok (copied, copiedRoot) ∧
          copied.values (copyOf (namedEarlier.model.containmentTree ⟨0⟩) ⟨14⟩)
              .subsettedFeature =
            [.object (copyOf (namedEarlier.model.containmentTree ⟨0⟩) ⟨9⟩)] := by
  have reachable : namedEarlier.model.Reachable :=
    ModelDraft.reachable_subsets unnamedWheel_reachable _ _
  have exist : (ObjectId.mk 0).index < namedEarlier.model.objects.size := by decide +kernel
  have uncontained : namedEarlier.model.containment? ⟨0⟩ = none := by decide +kernel
  have restorable : Restorable namedEarlier.model ⟨0⟩ := by decide +kernel
  have printed : ((Pass.standard .standard none).run namedEarlier.model ⟨0⟩).result =
      .ok ⟨15, 5, 2, 2⟩ := by decide +kernel
  have references : ((Pass.standard .standard none).run namedEarlier.model ⟨0⟩).events.filterMap
        reference? =
      [(⟨11⟩, .redefinedFeature, "Vehicle::wheel"), (⟨14⟩, .subsettedFeature, "Car::wheel")] := by
    decide +kernel
  have ordered : NamesFirst namedEarlier.model
      (((Pass.standard .standard none).run namedEarlier.model ⟨0⟩).events.filterMap
        reference?) := by
    rw [references]
    decide +kernel
  rcases rebuild_run_namesFirst reachable exist uncontained restorable .standard none printed
    ordered with ⟨copied, rebuilt, _, linked⟩
  have subsets := linked ⟨14⟩ .subsettedFeature "Car::wheel" (by rw [references]; decide)
  rcases subsets with ⟨target, _, held, copiedValues⟩
  have isWheel : namedEarlier.model.values ⟨14⟩ .subsettedFeature = [.object ⟨9⟩] := by
    decide +kernel
  cases held.symm.trans isWheel
  exact ⟨by decide +kernel, by decide +kernel, copied, _, rebuilt, copiedValues⟩

/-- The spare wheel is printed with a token for the wheel of cars, but the name
is not there yet when the token is read. -/
theorem rebuild_run_namedLater :
    namedLater.model.Reachable ∧ (ObjectId.mk 0).index < namedLater.model.objects.size ∧
      namedLater.model.containment? ⟨0⟩ = none ∧
      Restorable namedLater.model ⟨0⟩ ∧
      ⟨9⟩ ∈ namedLater.model.containmentTree ⟨0⟩ ∧
      namedLater.model.declaredName? ⟨9⟩ = none ∧
      namedLater.model.effectiveName? ⟨9⟩ = some "wheel" ∧
      ((Pass.standard .standard none).run namedLater.model ⟨0⟩).result = .ok ⟨15, 5, 2, 2⟩ ∧
      (rebuild ((Pass.standard .standard none).run namedLater.model ⟨0⟩).events
        Options.standard.nameSeparator).map Prod.snd =
          .error (.resolution (.unresolvedProxy ⟨7⟩ .subsettedFeature "Car::wheel")) := by
  refine ⟨ModelDraft.reachable_subsets unnamedWheel_reachable _ _, ?_⟩
  decide +kernel

end Rebuild

end ModelText
