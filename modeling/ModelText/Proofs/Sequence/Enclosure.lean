import ModelText.Proofs.Sequence.Copies
import ModelText.Proofs.Sequence.Nesting

namespace ModelText

/-!
# What encloses what

An object is enclosed by the innermost object that is still open when it is entered.  In
the events, everything between the two entries is balanced: whatever was entered there was
left again.  Objects are named by the position of their entry, which is also the id of
their copy.

No suffix of balanced events has more entries than exits, so an entry has at most one
encloser.  In the events of a printed tree it has one unless it is the first, namely the
entry of the object that contains it.
-/

/-! ## Entries and exits -/

def Event.isExit : Event → Bool
  | .exit _ => true
  | _ => false

theorem enteredObjects_append (front back : List Event) :
    enteredObjects (front ++ back) = enteredObjects front ++ enteredObjects back :=
  List.filterMap_append

theorem enteredObjects_enter (object : ObjectId) (metaclass : Metaclass)
    (feature : Option Metafeature) (constraint : Option String) (rest : List Event) :
    enteredObjects (.enter object metaclass feature constraint :: rest) =
      object :: enteredObjects rest := rfl

theorem enteredObjects_exit (object : ObjectId) (rest : List Event) :
    enteredObjects (.exit object :: rest) = enteredObjects rest := rfl

namespace Balanced

/-- Balanced events leave what they enter. -/
theorem length_entered {events : List Event} (balanced : Balanced events) :
    (enteredObjects events).length = events.countP Event.isExit := by
  induction balanced with
  | nil => rfl
  | «attribute» _ inductionHypothesis | reference _ inductionHypothesis =>
      exact inductionHypothesis
  | object _ _ inner rest =>
      simp only [enteredObjects_enter, enteredObjects_append, enteredObjects_exit,
        List.length_cons, List.length_append, List.countP_append, List.countP_cons,
        Event.isExit, Bool.false_eq_true, if_false, if_true]
      omega

/-- A suffix of balanced events leaves what it enters, and possibly more. -/
theorem length_entered_suffix_le {events back : List Event} (balanced : Balanced events)
    (suffix : back <:+ events) :
    (enteredObjects back).length ≤ back.countP Event.isExit := by
  induction balanced generalizing back with
  | nil =>
      rw [List.suffix_nil.mp suffix]
      exact Nat.le_refl 0
  | «attribute» rest inductionHypothesis =>
      rcases List.suffix_cons_iff.mp suffix with rfl | further
      · exact Nat.le_of_eq (Balanced.attribute rest).length_entered
      · exact inductionHypothesis further
  | reference rest inductionHypothesis =>
      rcases List.suffix_cons_iff.mp suffix with rfl | further
      · exact Nat.le_of_eq (Balanced.reference rest).length_entered
      · exact inductionHypothesis further
  | object inner others innerHypothesis restHypothesis =>
      have rest := others.length_entered
      rcases List.suffix_cons_iff.mp suffix with rfl | ⟨front, split⟩
      · exact Nat.le_of_eq (Balanced.object inner others).length_entered
      · rcases List.append_eq_append_iff.mp split with ⟨middle, within, rfl⟩ | ⟨middle, _, behind⟩
        · have short := innerHypothesis ⟨front, within.symm⟩
          simp only [enteredObjects_append, enteredObjects_exit, List.length_append,
            List.countP_append, List.countP_cons, Event.isExit, if_true]
          omega
        · rcases List.suffix_cons_iff.mp ⟨middle, behind.symm⟩ with rfl | further
          · rw [enteredObjects_exit]
            simp only [List.countP_cons, Event.isExit, if_true]
            omega
          · exact restHypothesis further

end Balanced

/-! ## Enclosing entries -/

/-- The entry at one position encloses the entry at another one, which is contained
through a feature.  Positions count the entries, and whatever is entered between the two is
left again before the second one. -/
inductive Encloses (events : List Event) : Nat → Metafeature → Nat → Prop
  | intro {before between after : List Event} {owner object : ObjectId}
      {ownerClass metaclass : Metaclass} {through : Option Metafeature}
      {ownerConstraint constraint : Option String} {feature : Metafeature} :
      events = before ++ .enter owner ownerClass through ownerConstraint ::
        (between ++ .enter object metaclass (some feature) constraint :: after) →
      Balanced between →
        Encloses events (enteredObjects before).length feature
          ((enteredObjects before).length + 1 + (enteredObjects between).length)

/-- What encloses an entry was entered before. -/
theorem Encloses.lt {events : List Event} {outer inner : Nat} {feature : Metafeature}
    (encloses : Encloses events outer feature inner) : outer < inner := by
  cases encloses
  omega

/-- The position of an entry tells where the events before it end. -/
theorem eq_of_length_enteredObjects {front back others rest : List Event}
    {event other : Event} (same : front ++ event :: back = others ++ other :: rest)
    (enters : event.entered?.isSome = true) (entersToo : other.entered?.isSome = true)
    (position : (enteredObjects front).length = (enteredObjects others).length) :
    front = others ∧ event = other := by
  have longer : ∀ (event : Event) (middle : List Event), event.entered?.isSome = true →
      0 < (enteredObjects (event :: middle)).length := by
    intro event middle enters
    cases event with
    | enter object => exact Nat.succ_pos _
    | «attribute» | reference | exit => cases enters
  rcases List.append_eq_append_iff.mp same with ⟨middle, rfl, behind⟩ | ⟨middle, rfl, behind⟩
  · cases middle with
    | nil => exact ⟨(List.append_nil front).symm, (List.cons.inj behind).1⟩
    | cons first middle =>
        cases (List.cons.inj behind).1
        have more := longer event middle enters
        rw [enteredObjects_append, List.length_append] at position
        omega
  · cases middle with
    | nil => exact ⟨List.append_nil others, (List.cons.inj behind).1.symm⟩
    | cons first middle =>
        cases (List.cons.inj behind).1
        have more := longer other middle entersToo
        rw [enteredObjects_append, List.length_append] at position
        omega

/-- Of two entries with balanced events behind them, none stands behind the other. -/
theorem Balanced.eq_of_append_enter {front back others rest : List Event}
    {event other : Event} (same : front ++ event :: back = others ++ other :: rest)
    (enters : event.entered?.isSome = true) (entersToo : other.entered?.isSome = true)
    (balanced : Balanced back) (balancedToo : Balanced rest) : front = others := by
  -- an entry with balanced events behind it would be a suffix with an entry too many
  have noSuffix : ∀ {events : List Event} (middle : List Event) (entry : Event)
      (last : List Event), Balanced events → Balanced last → entry.entered?.isSome = true →
      events ≠ middle ++ entry :: last := by
    intro events middle entry last whole behind entersHere split
    have short := whole.length_entered_suffix_le ⟨middle, split.symm⟩
    have equal := behind.length_entered
    cases entry with
    | enter object =>
        rw [enteredObjects_enter, List.length_cons, List.countP_cons] at short
        dsimp only [Event.isExit] at short
        simp only [Bool.false_eq_true, if_false] at short
        omega
    | «attribute» | reference | exit => cases entersHere
  rcases List.append_eq_append_iff.mp same with ⟨middle, rfl, behind⟩ | ⟨middle, rfl, behind⟩
  · cases middle with
    | nil => exact (List.append_nil front).symm
    | cons first middle =>
        exact absurd (List.cons.inj behind).2 (noSuffix middle other rest balanced balancedToo
          entersToo)
  · cases middle with
    | nil => exact List.append_nil others
    | cons first middle =>
        exact absurd (List.cons.inj behind).2 (noSuffix middle event back balancedToo balanced
          enters)

/-- An entry has at most one encloser, and is contained in it through one feature. -/
theorem Encloses.unique {events : List Event} {outer outerToo inner : Nat}
    {feature featureToo : Metafeature} (encloses : Encloses events outer feature inner)
    (also : Encloses events outerToo featureToo inner) :
    outer = outerToo ∧ feature = featureToo := by
  generalize position : inner = positionToo at also
  cases encloses with
  | @intro before between after owner object ownerClass metaclass through ownerConstraint
      constraint _ split balanced =>
      cases also with
      | @intro beforeToo betweenToo afterToo ownerToo objectToo ownerClassToo metaclassToo
          throughToo ownerConstraintToo constraintToo _ splitToo balancedToo =>
          have same : (before ++ .enter owner ownerClass through ownerConstraint :: between) ++
                .enter object metaclass (some feature) constraint :: after =
              (beforeToo ++ .enter ownerToo ownerClassToo throughToo ownerConstraintToo ::
                betweenToo) ++
                .enter objectToo metaclassToo (some featureToo) constraintToo :: afterToo := by
            rw [List.append_assoc, List.append_assoc, List.cons_append, List.cons_append,
              ← split, ← splitToo]
          have counted : (enteredObjects
                (before ++ .enter owner ownerClass through ownerConstraint :: between)).length =
              (enteredObjects (beforeToo ++ .enter ownerToo ownerClassToo throughToo
                ownerConstraintToo :: betweenToo)).length := by
            simp only [enteredObjects_append, enteredObjects_enter, List.length_append,
              List.length_cons]
            omega
          rcases eq_of_length_enteredObjects same rfl rfl counted with ⟨front, entry⟩
          have beforeEqual := Balanced.eq_of_append_enter front rfl rfl balanced balancedToo
          cases entry
          exact ⟨by rw [beforeEqual], rfl⟩

/-- An object that is entered once is named by the position of its entry. -/
theorem copyOf_of_enter {events before after : List Event} {object : ObjectId}
    {metaclass : Metaclass} {feature : Option Metafeature} {constraint : Option String}
    (once : (enteredObjects events).Nodup)
    (split : events = before ++ .enter object metaclass feature constraint :: after) :
    Rebuild.copyOf (enteredObjects events) object = ⟨(enteredObjects before).length⟩ := by
  rw [split, enteredObjects_append, enteredObjects_enter] at once ⊢
  refine Rebuild.copyOf_of_split ?_
  intro again
  exact (List.nodup_append.mp once).2.2 object again object List.mem_cons_self rfl

/-- Two entries, one behind the other, have the positions that `Encloses` counts. -/
theorem copyOf_of_enter_enter {events before between after : List Event}
    {owner object : ObjectId} {ownerClass metaclass : Metaclass}
    {through feature : Option Metafeature} {ownerConstraint constraint : Option String}
    (once : (enteredObjects events).Nodup)
    (split : events = before ++ .enter owner ownerClass through ownerConstraint ::
      (between ++ .enter object metaclass feature constraint :: after)) :
    (Rebuild.copyOf (enteredObjects events) owner).index = (enteredObjects before).length ∧
      (Rebuild.copyOf (enteredObjects events) object).index =
        (enteredObjects before).length + 1 + (enteredObjects between).length := by
  have splitAtObject : events =
      (before ++ .enter owner ownerClass through ownerConstraint :: between) ++
        .enter object metaclass feature constraint :: after := by
    rw [split, List.append_assoc, List.cons_append]
  refine ⟨congrArg ObjectId.index (copyOf_of_enter once split), ?_⟩
  rw [copyOf_of_enter once splitAtObject, enteredObjects_append, enteredObjects_enter,
    List.length_append, List.length_cons, Nat.add_assoc, Nat.add_comm 1]

/-! ## Printed trees -/

theorem Rebuild.balanced_of_isOwn {object : ObjectId} {metaclass : Metaclass} {own : List Event}
    (isOwn : ∀ event, event ∈ own → IsOwn object metaclass event) : Balanced own := by
  induction own with
  | nil => exact .nil
  | cons event rest inductionHypothesis =>
      have balanced := inductionHypothesis fun other member =>
        isOwn other (List.mem_cons_of_mem _ member)
      have headOwn := isOwn event List.mem_cons_self
      cases event with
      | «attribute» => exact .attribute balanced
      | reference => exact .reference balanced
      | enter | exit => exact headOwn.elim

namespace Pass

variable {pass : Pass} {model : Model} {root : ObjectId}

/-- The events of an object of a tree are a part of those of the tree without gaps. -/
theorem trace_infix (forest : model.Forest) {object : ObjectId} (through : Option Metafeature)
    (inside : object ∈ pass.printedTree model root) :
    ∃ feature, pass.trace model feature object <:+: pass.trace model through root := by
  revert through inside
  apply forest.descend (printedChildren_descend forest pass)
    (fun root => ∀ through, object ∈ pass.printedTree model root →
      ∃ feature, pass.trace model feature object <:+: pass.trace model through root)
  intro root inductionHypothesis through inside
  rw [printedTree_eq forest] at inside
  rcases List.mem_cons.mp inside with rfl | further
  · exact ⟨through, List.infix_rfl⟩
  · rcases List.mem_flatMap.mp further with ⟨child, below, inChild⟩
    rcases inductionHypothesis child.2 (List.mem_map_of_mem below) (some child.1) inChild with
      ⟨feature, part⟩
    refine ⟨feature, part.trans ?_⟩
    rw [trace_eq forest through root, List.flatMap_def]
    have among : pass.trace model (some child.1) child.2 <:+:
        ((pass.printedChildren model root).map fun child =>
          pass.trace model (some child.1) child.2).flatten :=
      List.infix_of_mem_flatten (List.mem_map_of_mem below)
    exact among.trans ((List.suffix_append _ _).isInfix.trans
      (List.prefix_append _ _).isInfix)

section Accepted

variable (forest : model.Forest)
  (accepts : ∀ entered, entered ∈ pass.printedTree model root → pass.Accepts model entered)
include forest accepts

theorem enteredObjects_trace (through : Option Metafeature) :
    enteredObjects (pass.trace model through root) = pass.printedTree model root :=
  (traces_trace forest through accepts).enteredObjects_eq forest

theorem enteredObjects_trace_nodup (through : Option Metafeature) :
    (enteredObjects (pass.trace model through root)).Nodup := by
  rw [enteredObjects_trace forest accepts through]
  exact printedTree_nodup forest root

/-- The trace of an object begins with its entry and ends with its exit. -/
theorem exists_trace_eq (through : Option Metafeature) :
    ∃ metaclass constraint inner, pass.trace model through root =
        .enter root metaclass through constraint :: (inner ++ [.exit root]) ∧ Balanced inner :=
  (traces_trace forest through accepts).balanced forest

/-- Between the entries of an object and of one of its printed children stand the object's
own events and the whole children before this one. -/
theorem exists_split_of_mem_printedChildren {owner child : ObjectId} {feature : Metafeature}
    (through : Option Metafeature) (inside : owner ∈ pass.printedTree model root)
    (below : (feature, child) ∈ pass.printedChildren model owner) :
    ∃ before between after ownerClass ownerThrough ownerConstraint metaclass constraint,
      pass.trace model through root =
          before ++ .enter owner ownerClass ownerThrough ownerConstraint ::
            (between ++ .enter child metaclass (some feature) constraint :: after) ∧
        Balanced between := by
  have descends : Model.Descends model (fun id => id)
      (fun object => (pass.printedChildren model object).map Prod.snd) :=
    printedChildren_descend forest pass
  have part := Model.preorder_contiguous forest descends inside
  have acceptsBelow : ∀ {next : Metafeature × ObjectId}, next ∈ pass.printedChildren model owner →
      ∀ entered, entered ∈ pass.printedTree model next.2 → pass.Accepts model entered := by
    intro next listed entered member
    refine accepts entered (part.subset ?_)
    rw [← printedTree, printedTree_eq forest]
    exact List.mem_cons_of_mem _ (List.mem_flatMap.mpr ⟨next, listed, member⟩)
  rcases accepts owner inside with ⟨ownerClass, known, _⟩
  rcases trace_infix forest through inside with ⟨ownerThrough, before, after, whole⟩
  rcases List.append_of_mem below with ⟨front, back, children⟩
  rcases exists_trace_eq forest (acceptsBelow below) (some feature) with
    ⟨metaclass, constraint, inner, childTrace, _⟩
  refine ⟨before, pass.ownEvents model owner ++ front.flatMap fun next =>
      pass.trace model (some next.1) next.2,
    inner ++ .exit child :: ((back.flatMap fun next =>
      pass.trace model (some next.1) next.2) ++ .exit owner :: after),
    ownerClass, ownerThrough, (pass.constraintFor? ownerClass).map Constraint.name, metaclass,
    constraint, ?_, ?_⟩
  · rw [← whole, trace_eq forest ownerThrough owner, entryEvents_eq known, children,
      List.flatMap_append, List.flatMap_cons, childTrace]
    simp
  · refine (Rebuild.balanced_of_isOwn fun _ => isOwn_of_mem_ownEvents known).append ?_
    rw [List.flatMap_def]
    apply Balanced.flatten
    intro group member
    rcases List.mem_map.mp member with ⟨next, listed, rfl⟩
    have among : next ∈ pass.printedChildren model owner := by
      rw [children]
      exact List.mem_append_left _ listed
    rcases exists_trace_eq forest (acceptsBelow among) (some next.1) with
      ⟨_, _, between, nextTrace, nextBalanced⟩
    rw [nextTrace]
    exact .object nextBalanced .nil

/-- An object encloses its printed children. -/
theorem encloses_of_mem_printedChildren {owner child : ObjectId} {feature : Metafeature}
    (through : Option Metafeature) (inside : owner ∈ pass.printedTree model root)
    (below : (feature, child) ∈ pass.printedChildren model owner) :
    Encloses (pass.trace model through root)
      (Rebuild.copyOf (pass.printedTree model root) owner).index feature
      (Rebuild.copyOf (pass.printedTree model root) child).index := by
  rcases exists_split_of_mem_printedChildren forest accepts through inside below with
    ⟨before, between, after, ownerClass, ownerThrough, ownerConstraint, metaclass, constraint,
      split, balanced⟩
  have entered := enteredObjects_trace forest accepts through
  rcases copyOf_of_enter_enter (enteredObjects_trace_nodup forest accepts through) split with
    ⟨ownerPosition, childPosition⟩
  rw [entered] at ownerPosition childPosition
  rw [ownerPosition, childPosition]
  exact .intro split balanced

/-- What encloses an entry of a printed tree is the object that contains it. -/
theorem encloses_trace_iff (through : Option Metafeature) (outer : Nat) (feature : Metafeature)
    (inner : Nat) :
    Encloses (pass.trace model through root) outer feature inner ↔
      ∃ owner child, owner ∈ pass.printedTree model root ∧
        (feature, child) ∈ pass.printedChildren model owner ∧
        outer = (Rebuild.copyOf (pass.printedTree model root) owner).index ∧
        inner = (Rebuild.copyOf (pass.printedTree model root) child).index := by
  constructor
  · intro encloses
    have entered := enteredObjects_trace forest accepts through
    have again := encloses
    cases again with
    | @intro before between after owner object ownerClass metaclass ownerThrough ownerConstraint
        constraint _ split balanced =>
        have once := enteredObjects_trace_nodup forest accepts through
        have position := (copyOf_of_enter_enter once split).2
        rw [entered] at position
        have inTree : object ∈ pass.printedTree model root := by
          rw [← entered, split, enteredObjects_append, enteredObjects_enter,
            enteredObjects_append, enteredObjects_enter]
          exact List.mem_append_right _ (List.mem_cons_of_mem _
            (List.mem_append_right _ List.mem_cons_self))
        have notRoot : object ≠ root := by
          rintro rfl
          rw [printedTree_eq forest, Rebuild.copyOf, List.idxOf_cons_self] at position
          dsimp only at position
          omega
        rcases Model.mem_preorder_cases forest (printedChildren_descend forest pass) inTree with
          isRoot | ⟨holder, holderInside, listed⟩
        · exact absurd isRoot notRoot
        · rcases List.mem_map.mp listed with ⟨⟨containing, child⟩, below, rfl⟩
          have found := encloses_of_mem_printedChildren forest accepts through holderInside below
          rw [position] at found
          rcases encloses.unique found with ⟨outerEqual, rfl⟩
          exact ⟨holder, child, holderInside, below, outerEqual, by rw [position]⟩
  · rintro ⟨owner, child, inside, below, rfl, rfl⟩
    exact encloses_of_mem_printedChildren forest accepts through inside below

end Accepted

end Pass

end ModelText
