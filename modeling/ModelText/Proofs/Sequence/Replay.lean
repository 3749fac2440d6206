import ModelText.Proofs.Sequence.Trace
import ModelText.Sequence.Rebuild

namespace ModelText

/-!
# Replaying a printed tree

Replaying the trace of a tree creates one copy for each object that is entered,
in the order of entry, so the copy of an object is named by its position in the
printed tree.  At any moment the copies hold the printed attribute values of the
objects entered so far, and of their printed children those that were entered.

Children are entered in their order, because the children of an object stand in
the tree in this order.  A new copy has no container and is nobody's container,
so its adoption is never refused.
-/

namespace Model

variable {model next : Model} {owner : ObjectId} {feature : Metafeature} {value : Value}

theorem Reachable.assign (reachable : Reachable model)
    (accepted : model.assign owner feature value = .ok next) : Reachable next := by
  unfold Model.assign at accepted
  split at accepted
  · exact reachable.push accepted
  · exact reachable.set accepted

/-- A write to a stored feature of the class is accepted, if what it contains may
be adopted. -/
theorem exists_assign {metaclass : Metaclass} (value : Value)
    (known : model.metaclass? owner = some metaclass)
    (listed : feature ∈ metaclass.storedFeatures)
    (adoptable : feature.storage = .containment →
      model.adoptionFault? owner feature value = none) :
    ∃ next, model.assign owner feature value = .ok next := by
  rcases List.mem_filter.mp listed with ⟨has, stored⟩
  refine (exists_assign_iff model owner feature value).mpr
    ((writeFault?_eq_none_iff _ _ _ _ _).mpr ?_)
  exact ⟨⟨metaclass, known, (Metaclass.mem_features_iff metaclass feature).mp has⟩, stored, rfl,
    adoptable⟩

theorem Forest.adoptable_created (forest : Forest model) (metaclass : Metaclass)
    (exist : owner.index < model.objects.size) (feature : Metafeature) :
    (model.create metaclass).2.adoptionFault? owner feature
      (.object ⟨model.objects.size⟩) = none := by
  refine (adoptionFault?_eq_none_iff _ _ _ _).mpr
    ⟨⟨model.objects.size⟩, ⟨⟨model.objects.size⟩, metaclass, .empty, none⟩, rfl, ?_, rfl, ?_⟩
  · rw [get?_create, if_pos rfl]
  · have climbs := forest.containerChain_climbs owner
    have kept : Climbs (model.create metaclass).2 owner (model.containerChain owner) := by
      apply climbs.congr
      intro ancestor _
      rw [container?, container?, containment?_create]
    rw [((forest.create metaclass).containerChain_climbs owner).unique kept]
    intro member
    rcases climbs.head with ⟨above, split⟩
    rw [split] at member
    rcases List.mem_cons.mp member with same | further
    · rw [← same] at exist
      exact Nat.lt_irrefl _ exist
    · have above : ⟨model.objects.size⟩ ∈ (model.containerChain owner).tail := by
        rwa [split, List.tail_cons]
      exact Nat.lt_irrefl _ (climbs.index_lt forest.container_exists above)

end Model

namespace Rebuild

theorem assign_eq_ok {model next : Model} {owner : ObjectId} {feature : Metafeature}
    {value : Value} (accepted : model.assign owner feature value = .ok next) :
    assign model owner feature value = .ok next := by
  rw [assign, accepted]
  rfl

theorem foldlM_append_eq_ok {ε α σ : Type} {step : σ → α → Except ε σ} {first second : List α}
    {start middle final : σ} (front : first.foldlM step start = .ok middle)
    (back : second.foldlM step middle = .ok final) :
    (first ++ second).foldlM step start = .ok final := by
  rw [List.foldlM_append, front]
  exact back

theorem foldlM_cons_eq_ok {ε α σ : Type} {step : σ → α → Except ε σ} {head : α} {rest : List α}
    {start middle final : σ} (first : step start head = .ok middle)
    (back : rest.foldlM step middle = .ok final) :
    (head :: rest).foldlM step start = .ok final := by
  rw [List.foldlM_cons, first]
  exact back

/-! ## Entering an object -/

/-- What entering an object changes, when its copy gets a place or becomes a
root. -/
structure Entered (object : ObjectId) (metaclass : Metaclass)
    (place : Option (ObjectId × Metafeature)) (before after : Replay) : Prop where
  reachable : after.model.Reachable
  size_eq : after.model.objects.size = before.model.objects.size + 1
  metaclass_eq : ∀ id, after.model.metaclass? id =
    if id = ⟨before.model.objects.size⟩ then some metaclass else before.model.metaclass? id
  containment_eq : ∀ id, after.model.containment? id =
    if id = ⟨before.model.objects.size⟩ then place else before.model.containment? id
  values_eq : ∀ id feature, after.model.values id feature =
    before.model.values id feature ++
      if place = some (id, feature) then [.object ⟨before.model.objects.size⟩] else []
  copies_eq : after.copies = (object, ⟨before.model.objects.size⟩) :: before.copies
  nesting_eq : after.nesting = ⟨before.model.objects.size⟩ :: before.nesting
  root_eq : after.root =
    if place.isSome then before.root
    else some (before.root.getD ⟨before.model.objects.size⟩)
  references_eq : after.references = before.references

variable {replay : Replay} {object parent : ObjectId} {metaclass : Metaclass}
  {feature : Metafeature}

theorem enter_root (metaclass : Metaclass) (reachable : replay.model.Reachable)
    (outermost : replay.nesting = [])
    (constraint : Option String) :
    ∃ next, replay.apply (.enter object metaclass none constraint) = .ok next ∧
      Entered object metaclass none replay next := by
  refine ⟨{ replay with
    model := (replay.model.create metaclass).2
    copies := (object, ⟨replay.model.objects.size⟩) :: replay.copies
    nesting := ⟨replay.model.objects.size⟩ :: replay.nesting
    root := some (replay.root.getD ⟨replay.model.objects.size⟩) }, ?_, ?_⟩
  · rw [Replay.apply, Replay.enter, outermost]
    rfl
  · refine ⟨reachable.create metaclass, Model.size_create _ _, ?_, ?_, ?_, rfl, rfl, rfl, rfl⟩
    · exact Model.metaclass?_create _ _
    · intro id
      refine (Model.containment?_create _ _ id).trans ?_
      by_cases fresh : id = ⟨replay.model.objects.size⟩
      · rw [if_pos fresh, fresh, Model.containment?, Model.get?_size_eq_none]
        rfl
      · rw [if_neg fresh]
    · intro id read
      rw [if_neg (by simp), List.append_nil]
      exact Model.values_congr (Model.slot?_create _ _ id read)

theorem enter_child (metaclass : Metaclass) (reachable : replay.model.Reachable)
    {outer : List ObjectId} (innermost : replay.nesting = parent :: outer) {parentClass : Metaclass}
    (known : replay.model.metaclass? parent = some parentClass)
    (listed : feature ∈ parentClass.storedFeatures) (storage : feature.storage = .containment)
    (constraint : Option String) :
    ∃ next, replay.apply (.enter object metaclass (some feature) constraint) = .ok next ∧
      Entered object metaclass (some (parent, feature)) replay next := by
  have forest := reachable.forest
  have exist : parent.index < replay.model.objects.size :=
    (Model.isSome_metaclass?_iff _ parent).mp (Option.isSome_of_eq_some known)
  have old : parent ≠ ⟨replay.model.objects.size⟩ := by
    intro same
    rw [same] at exist
    exact Nat.lt_irrefl _ exist
  have accepted : ∃ next, (replay.model.create metaclass).2.assign parent feature
      (.object ⟨replay.model.objects.size⟩) = .ok next := by
    have kept : (replay.model.create metaclass).2.metaclass? parent = some parentClass := by
      rw [Model.metaclass?_create, if_neg old, known]
    apply Model.exists_assign _ kept listed
    intro _
    exact forest.adoptable_created metaclass exist feature
  rcases accepted with ⟨written, accepted⟩
  refine ⟨{ replay with
    model := written
    copies := (object, ⟨replay.model.objects.size⟩) :: replay.copies
    nesting := ⟨replay.model.objects.size⟩ :: replay.nesting }, ?_, ?_⟩
  · rw [Replay.apply, Replay.enter, innermost]
    dsimp only [Model.create_id]
    rw [assign_eq_ok accepted]
    rfl
  · refine ⟨(reachable.create metaclass).assign accepted, ?_, ?_, ?_, ?_, rfl, rfl, rfl, rfl⟩
    · exact (Model.size_assign accepted).trans (Model.size_create _ _)
    · intro id
      exact (Model.metaclass?_assign accepted id).trans (Model.metaclass?_create _ _ id)
    · intro id
      refine (Model.containment?_assign accepted id).trans ?_
      by_cases fresh : id = ⟨replay.model.objects.size⟩
      · rw [if_pos fresh, if_pos ⟨storage, congrArg Value.object fresh.symm⟩]
      · rw [if_neg fresh, if_neg (fun adopted => fresh (Value.object.inj adopted.2).symm)]
        exact Model.containment?_create _ _ id
    · intro id read
      have before : ∀ holder, (replay.model.create metaclass).2.values holder read =
          replay.model.values holder read :=
        fun holder => Model.values_congr (Model.slot?_create _ _ holder read)
      refine (Model.values_assign accepted id read).trans ?_
      by_cases here : id = parent ∧ read = feature
      · rcases here with ⟨rfl, rfl⟩
        rw [if_pos ⟨rfl, rfl⟩, if_pos rfl, Model.isMany_of_containment storage, if_pos rfl, before]
      · rw [if_neg here, before, if_neg, List.append_nil]
        intro same
        have parts := Prod.mk.inj (Option.some.inj same)
        exact here ⟨parts.1.symm, parts.2.symm⟩

/-! ## Own values -/

/-- The value of a feature that an event prints. -/
def attributeValue? (feature : Metafeature) : Event → Option Value
  | .attribute _ written value _ => if written = feature then some value else none
  | _ => none

def reference? : Event → Option (ObjectId × Metafeature × String)
  | .reference object feature _ token _ => some (object, feature, token)
  | _ => none

/-- An event that an object prints about itself. -/
def IsOwn (object : ObjectId) (metaclass : Metaclass) : Event → Prop
  | .attribute owner feature _ _ =>
      owner = object ∧ feature ∈ metaclass.storedFeatures ∧ feature.storage = .attribute
  | .reference owner _ _ _ _ => owner = object
  | _ => False

/-- What the own events of an object change. -/
structure OwnReplayed (copy : ObjectId) (own : List Event) (before after : Replay) : Prop where
  reachable : after.model.Reachable
  size_eq : after.model.objects.size = before.model.objects.size
  metaclass_eq : ∀ id, after.model.metaclass? id = before.model.metaclass? id
  containment_eq : ∀ id, after.model.containment? id = before.model.containment? id
  values_eq : ∀ id feature, after.model.values id feature =
    if id = copy then before.model.values id feature ++ own.filterMap (attributeValue? feature)
    else before.model.values id feature
  copies_eq : after.copies = before.copies
  nesting_eq : after.nesting = before.nesting
  root_eq : after.root = before.root
  references_eq : after.references =
    ((own.filterMap reference?).map fun entry => (copy, entry.2)).reverse ++ before.references

namespace OwnReplayed

variable {copy : ObjectId} {front back : List Event} {before middle after : Replay}

theorem nil (reachable : before.model.Reachable) : OwnReplayed copy [] before before := by
  refine ⟨reachable, rfl, fun _ => rfl, fun _ => rfl, ?_, rfl, rfl, rfl, rfl⟩
  intro id feature
  rw [List.filterMap_nil, List.append_nil]
  split <;> rfl

theorem trans (first : OwnReplayed copy front before middle)
    (second : OwnReplayed copy back middle after) :
    OwnReplayed copy (front ++ back) before after := by
  refine ⟨second.reachable, second.size_eq.trans first.size_eq, ?_, ?_, ?_,
    second.copies_eq.trans first.copies_eq, second.nesting_eq.trans first.nesting_eq,
    second.root_eq.trans first.root_eq, ?_⟩
  · intro id
    exact (second.metaclass_eq id).trans (first.metaclass_eq id)
  · intro id
    exact (second.containment_eq id).trans (first.containment_eq id)
  · intro id feature
    rw [second.values_eq, first.values_eq, List.filterMap_append]
    split
    · rw [List.append_assoc]
    · rfl
  · rw [second.references_eq, first.references_eq, List.filterMap_append, List.map_append,
      List.reverse_append, List.append_assoc]

end OwnReplayed

/-- A reference is collected for the copy of its object. -/
theorem replay_reference {copy : ObjectId} (reachable : replay.model.Reachable)
    (copied : replay.copies.lookup object = some copy) (index : Nat) (token : String)
    (many : Bool) :
    ∃ next, replay.apply (.reference object feature index token many) = .ok next ∧
      OwnReplayed copy [.reference object feature index token many] replay next := by
  refine ⟨{ replay with references := (copy, feature, token) :: replay.references }, ?_, ?_⟩
  · rw [Replay.apply, Replay.copy, copied]
    rfl
  · refine ⟨reachable, rfl, fun _ => rfl, fun _ => rfl, ?_, rfl, rfl, rfl, rfl⟩
    intro id read
    have nothing : [Event.reference object feature index token many].filterMap
        (attributeValue? read) = [] := rfl
    rw [nothing, List.append_nil]
    split <;> rfl

/-- An attribute value is written behind those that the copy holds, when there is
room for it. -/
theorem replay_attribute {copy : ObjectId} (reachable : replay.model.Reachable)
    (copied : replay.copies.lookup object = some copy)
    (known : replay.model.metaclass? copy = some metaclass)
    (listed : feature ∈ metaclass.storedFeatures) (storage : feature.storage = .attribute)
    (room : feature.isMany = false → replay.model.values copy feature = []) (value : Value)
    (many : Bool) :
    ∃ next, replay.apply (.attribute object feature value many) = .ok next ∧
      OwnReplayed copy [.attribute object feature value many] replay next := by
  have notContainment : feature.storage ≠ .containment := by
    rw [storage]
    decide
  rcases Model.exists_assign value known listed
    (fun contained => absurd contained notContainment) with ⟨written, accepted⟩
  refine ⟨{ replay with model := written }, ?_, ?_⟩
  · rw [Replay.apply, Replay.copy, copied]
    dsimp only
    rw [assign_eq_ok accepted]
    rfl
  · refine ⟨reachable.assign accepted, Model.size_assign accepted,
      Model.metaclass?_assign accepted, ?_, ?_, rfl, rfl, rfl, rfl⟩
    · intro id
      rw [Model.containment?_assign accepted, if_neg (fun adopted => notContainment adopted.1)]
    · intro id read
      rw [Model.values_assign accepted]
      by_cases holds : id = copy
      · subst holds
        rw [if_pos rfl]
        by_cases same : read = feature
        · subst same
          have contributed : [Event.attribute object read value many].filterMap
              (attributeValue? read) = [value] := by
            simp [attributeValue?]
          rw [if_pos ⟨rfl, rfl⟩, contributed]
          cases shape : read.isMany with
          | true => rfl
          | false =>
              rw [room shape]
              rfl
        · have nothing : [Event.attribute object feature value many].filterMap
              (attributeValue? read) = [] := by
            simp [attributeValue?, Ne.symm same]
          rw [if_neg (fun here => same here.2), nothing, List.append_nil]
      · rw [if_neg (fun here => holds here.1), if_neg holds]

/-- The own events of an object are replayed into its copy. -/
theorem replay_own {copy : ObjectId} {own : List Event}
    (isOwn : ∀ event, event ∈ own → IsOwn object metaclass event)
    (reachable : replay.model.Reachable)
    (copied : replay.copies.lookup object = some copy)
    (known : replay.model.metaclass? copy = some metaclass)
    (room : ∀ feature, feature.isMany = false →
      (replay.model.values copy feature ++ own.filterMap (attributeValue? feature)).length ≤ 1) :
    ∃ next, own.foldlM Replay.apply replay = .ok next ∧ OwnReplayed copy own replay next := by
  induction own generalizing replay with
  | nil => exact ⟨replay, rfl, .nil reachable⟩
  | cons event rest inductionHypothesis =>
      have first : ∃ middle, replay.apply event = .ok middle ∧
          OwnReplayed copy [event] replay middle := by
        have headOwn := isOwn event List.mem_cons_self
        cases event with
        | enter => exact headOwn.elim
        | exit => exact headOwn.elim
        | reference owner feature index token many =>
            cases headOwn
            exact replay_reference reachable copied index token many
        | «attribute» owner feature value many =>
            rcases headOwn with ⟨rfl, listed, storage⟩
            refine replay_attribute reachable copied known listed storage ?_ value many
            intro single
            have short := room feature single
            rw [List.filterMap_cons, attributeValue?, if_pos rfl] at short
            dsimp only at short
            rw [List.length_append, List.length_cons] at short
            exact List.length_eq_zero_iff.mp (by omega)
      rcases first with ⟨middle, applied, changed⟩
      have roomAfter : ∀ feature, feature.isMany = false →
          (middle.model.values copy feature ++
            rest.filterMap (attributeValue? feature)).length ≤ 1 := by
        intro feature single
        rw [changed.values_eq, if_pos rfl, List.append_assoc, ← List.filterMap_append]
        exact room feature single
      rcases inductionHypothesis
        (fun other member => isOwn other (List.mem_cons_of_mem _ member)) changed.reachable
        (changed.copies_eq ▸ copied) ((changed.metaclass_eq copy).trans known) roomAfter with
        ⟨after, replayed, grown⟩
      exact ⟨after, foldlM_cons_eq_ok applied replayed, changed.trans grown⟩

end Rebuild

end ModelText
