import ModelText.Proofs.Name.Namespaces
import ModelText.Proofs.Name.Written
import ModelText.Proofs.Snapshot.Isomorphism

namespace ModelText

/-!
# What tells objects outside a tree apart

A snapshot tells an object outside its tree from others by a text: its qualified name, or else
its class with its effective name, or its class alone.  The texts of all three kinds, and the
one of missing objects, lie in one space, so texts of different kinds may be the same.

The first character that no basic name has tells the kinds apart.  In a written qualified name
it is a quote or a colon, behind a class in front of a name it is a blank, and a missing object
has an angle bracket there.  A class alone has no such character, and neither has a qualified
name of one basic segment.  These two are the same text when the segment is the name of the
class: an unnamed package is not told from an element with the qualified name `Package`.  No
other two targets are confused.
-/

namespace Target

open QualifiedName

/-! ## Identifications -/

/-- What an object is told by: its qualified name, or else its class and its effective name,
if it has one.  An object that does not exist is told by nothing. -/
inductive Identification where
  | qualified (name : QualifiedName)
  | classified (metaclass : Metaclass) (name : Option String)
  | missing

namespace Identification

/-- The identification of an object of a model. -/
def ofObject (model : Model) (id : ObjectId) : Identification :=
  match model.qualifiedName? id, model.metaclass? id with
  | some name, _ => .qualified name
  | none, some metaclass => .classified metaclass (model.effectiveName? id)
  | none, none => .missing

/-- What stands behind a class. -/
def behindClass (name : Option String) : List Char :=
  (name.map fun name => ' ' :: name.toList).getD []

def text : Identification → String
  | .qualified name => name.display
  | .classified metaclass name => String.ofList (metaclass.name.toList ++ behindClass name)
  | .missing => "<missing>"

theorem externalIdentity_eq (model : Model) (id : ObjectId) :
    externalIdentity model id = (ofObject model id).text := by
  unfold externalIdentity ofObject
  cases model.qualifiedName? id with
  | some name => rfl
  | none =>
      cases model.metaclass? id with
      | none => cases model.effectiveName? id <;> rfl
      | some metaclass =>
          cases model.effectiveName? id with
          | none => simp [text, behindClass]
          | some name => simp [text, behindClass, ← String.toList_inj]

/-! ## The kinds of texts -/

/-- The first character of a text that no basic name has. -/
def stop? (text : List Char) : Option Char :=
  text.find? fun char => !isNamePart char

theorem stop?_append {front : List Char} (parts : ∀ char ∈ front, isNamePart char = true)
    (rest : List Char) : stop? (front ++ rest) = stop? rest := by
  have passed : front.find? (fun char => !isNamePart char) = none :=
    List.find?_eq_none.mpr fun char member => by simp [parts char member]
  rw [stop?, List.find?_append, passed, Option.none_or, stop?]

/-- A written segment stops at its quote, or it is written bare and does not stop. -/
theorem stop?_writeSegment (separator segment rest : List Char) :
    stop? (writeSegment separator segment ++ rest) = some '\'' ∨
      stop? (writeSegment separator segment ++ rest) = stop? rest := by
  unfold writeSegment
  split
  · next bare =>
      rw [Bool.and_eq_true] at bare
      exact Or.inr (stop?_append (fun _ member => isNamePart_of_isBasic bare.1 member) rest)
  · exact Or.inl rfl

/-- A written qualified name stops at a quote or a colon, if it stops. -/
theorem stop?_display {name : QualifiedName} (nonempty : name.segments ≠ []) {char : Char}
    (stops : stop? name.display.toList = some char) : char = '\'' ∨ char = ':' := by
  obtain ⟨segments⟩ := name
  obtain ⟨segment, others, rfl⟩ := List.exists_cons_of_ne_nil nonempty
  rw [QualifiedName.display, render, String.toList_ofList, List.map_cons] at stops
  cases others with
  | nil =>
      rw [List.map_nil, List.intercalate_singleton,
        ← List.append_nil (writeSegment _ _)] at stops
      rcases stop?_writeSegment standardSeparator.toList segment.toList [] with quoted | bare
      · rw [quoted] at stops
        exact Or.inl (Option.some.inj stops).symm
      · rw [bare] at stops
        cases stops
  | cons next others =>
      rw [List.map_cons, List.intercalate_cons_cons, List.append_assoc] at stops
      rcases stop?_writeSegment standardSeparator.toList segment.toList _ with quoted | bare
      · rw [quoted] at stops
        exact Or.inl (Option.some.inj stops).symm
      · rw [bare] at stops
        exact Or.inr (Option.some.inj stops).symm

theorem isBasic_name (metaclass : Metaclass) : isBasic metaclass.name.toList = true := by
  cases metaclass <;> decide +kernel

/-- Behind a class the text stops at a blank, if a name follows. -/
theorem stop?_classified (metaclass : Metaclass) (name : Option String) :
    stop? (text (.classified metaclass name)).toList = name.map fun _ => ' ' := by
  have parts : ∀ char ∈ metaclass.name.toList, isNamePart char = true :=
    fun char member => isNamePart_of_isBasic (isBasic_name metaclass) member
  rw [text, String.toList_ofList, stop?_append parts]
  cases name <;> rfl

theorem stop?_missing : stop? (text .missing).toList = some '<' := by decide +kernel

/-! ## Equal texts -/

theorem display_injective {name other : QualifiedName} (nonempty : name.segments ≠ [])
    (nonemptyToo : other.segments ≠ []) (same : name.display = other.display) : name = other := by
  have apart : separates standardSeparator.toList = true := by decide +kernel
  rw [QualifiedName.display, QualifiedName.display] at same
  rw [← parse_render apart nonempty, same, parse_render apart nonemptyToo]

theorem display_simple_name (metaclass : Metaclass) :
    (QualifiedName.simple metaclass.name).display = metaclass.name := by
  cases metaclass <;> decide +kernel

/-- A qualified name is written like an identification by class only if it is the name of the
class and nothing stands behind the class. -/
theorem qualified_text_eq_iff {name : QualifiedName} (nonempty : name.segments ≠ [])
    (metaclass : Metaclass) (other : Option String) :
    text (.qualified name) = text (.classified metaclass other) ↔
      name = .simple metaclass.name ∧ other = none := by
  constructor
  · intro same
    cases other with
    | some other =>
        have stops := stop?_classified metaclass (some other)
        rw [← same] at stops
        rcases stop?_display nonempty stops with quote | colon
        · cases quote
        · cases colon
    | none =>
        refine ⟨display_injective nonempty (List.cons_ne_nil _ _) ?_, rfl⟩
        rw [display_simple_name]
        simpa [text, behindClass] using same
  · rintro ⟨rfl, rfl⟩
    simp [text, behindClass, display_simple_name]

theorem classified_text_injective {metaclass otherClass : Metaclass} {name other : Option String}
    (same : text (.classified metaclass name) = text (.classified otherClass other)) :
    metaclass = otherClass ∧ name = other := by
  rw [text, text, String.ofList_inj] at same
  have parts : ∀ (metaclass : Metaclass) (name : Option String),
      (metaclass.name.toList ++ behindClass name).takeWhile isNamePart =
        metaclass.name.toList := by
    intro metaclass name
    rw [List.takeWhile_append_of_pos fun char member =>
      isNamePart_of_isBasic (isBasic_name metaclass) member]
    cases name <;> simp [behindClass, isNamePart]
  have sameClass : metaclass = otherClass := by
    apply Metaclass.name_injective
    rw [← String.toList_inj, ← parts metaclass name, same, parts]
  subst sameClass
  refine ⟨rfl, ?_⟩
  have behind := List.append_cancel_left same
  cases name <;> cases other <;> simp_all [behindClass, String.toList_inj]

/-- An identification by a qualified name has a segment to write. -/
def IsWritten : Identification → Prop
  | .qualified name => name.segments ≠ []
  | _ => True

/-- One is a qualified name that reads like the class by which alone the other is told. -/
def NamedLike (one other : Identification) : Prop :=
  ∃ metaclass, one = .qualified (.simple metaclass.name) ∧ other = .classified metaclass none

theorem NamedLike.text_eq {one other : Identification} (alike : NamedLike one other) :
    one.text = other.text := by
  obtain ⟨metaclass, rfl, rfl⟩ := alike
  exact (qualified_text_eq_iff (List.cons_ne_nil _ _) metaclass none).mpr ⟨rfl, rfl⟩

/-- No identification of an object is written like the one of missing objects. -/
theorem eq_missing_of_text {one : Identification} (written : one.IsWritten)
    (same : one.text = text .missing) : one = .missing := by
  have stops := stop?_missing
  rw [← same] at stops
  cases one with
  | qualified name =>
      rcases stop?_display written stops with quote | colon
      · cases quote
      · cases colon
  | classified metaclass name =>
      rw [stop?_classified] at stops
      cases name <;> cases stops
  | missing => rfl

/-- Two identifications are written alike exactly if they are the same, or one is a name that
reads like the class of the other. -/
theorem text_eq_iff {one other : Identification} (written : one.IsWritten)
    (writtenToo : other.IsWritten) :
    one.text = other.text ↔ one = other ∨ NamedLike one other ∨ NamedLike other one := by
  constructor
  · intro same
    cases one with
    | missing => exact Or.inl (eq_missing_of_text writtenToo same.symm).symm
    | qualified name =>
        cases other with
        | missing => exact Or.inl (eq_missing_of_text written same)
        | qualified second =>
            exact Or.inl (congrArg qualified (display_injective written writtenToo same))
        | classified metaclass second =>
            obtain ⟨rfl, rfl⟩ := (qualified_text_eq_iff written metaclass second).mp same
            exact Or.inr (Or.inl ⟨metaclass, rfl, rfl⟩)
    | classified metaclass name =>
        cases other with
        | missing => exact Or.inl (eq_missing_of_text written same)
        | qualified second =>
            obtain ⟨rfl, rfl⟩ := (qualified_text_eq_iff writtenToo metaclass name).mp same.symm
            exact Or.inr (Or.inr ⟨metaclass, rfl, rfl⟩)
        | classified otherClass second =>
            obtain ⟨rfl, rfl⟩ := classified_text_injective same
            exact Or.inl rfl
  · rintro (rfl | alike | alike)
    · rfl
    · exact alike.text_eq
    · exact alike.text_eq.symm

/-! ## Identifications of objects -/

section Objects

variable {model : Model} {id : ObjectId}

theorem isWritten_ofObject : (ofObject model id).IsWritten := by
  unfold ofObject
  split
  · next name named =>
      obtain ⟨last, outer, _, segments⟩ := Model.exists_effectiveName? named
      rw [IsWritten, segments]
      exact List.append_ne_nil_of_right_ne_nil outer (List.cons_ne_nil last [])
  · trivial
  · trivial

theorem ofObject_eq_qualified_iff {name : QualifiedName} :
    ofObject model id = .qualified name ↔ model.qualifiedName? id = some name := by
  unfold ofObject
  cases model.qualifiedName? id with
  | some known => simp
  | none => cases model.metaclass? id <;> simp

theorem ofObject_eq_classified_iff {metaclass : Metaclass} {name : Option String} :
    ofObject model id = .classified metaclass name ↔
      model.qualifiedName? id = none ∧ model.metaclass? id = some metaclass ∧
        model.effectiveName? id = name := by
  unfold ofObject
  cases model.qualifiedName? id with
  | some known => simp
  | none => cases model.metaclass? id <;> simp

theorem ofObject_eq_missing_iff :
    ofObject model id = .missing ↔
      model.qualifiedName? id = none ∧ model.metaclass? id = none := by
  unfold ofObject
  cases model.qualifiedName? id with
  | some known => simp
  | none => cases model.metaclass? id <;> simp

/-- Two objects are identified alike exactly if they have one qualified name, or neither has one
and they agree in class and effective name. -/
theorem ofObject_eq_iff {left right : Model} {target other : ObjectId} :
    ofObject left target = ofObject right other ↔
      (∃ name, left.qualifiedName? target = some name ∧ right.qualifiedName? other = some name) ∨
      (left.qualifiedName? target = none ∧ right.qualifiedName? other = none ∧
        left.metaclass? target = right.metaclass? other ∧
        left.effectiveName? target = right.effectiveName? other) := by
  constructor
  · intro same
    cases known : ofObject right other with
    | qualified name =>
        rw [known] at same
        exact Or.inl ⟨name, ofObject_eq_qualified_iff.mp same, ofObject_eq_qualified_iff.mp known⟩
    | classified metaclass name =>
        rw [known] at same
        obtain ⟨unqualified, hasClass, hasName⟩ := ofObject_eq_classified_iff.mp same
        obtain ⟨unqualifiedToo, hasClassToo, hasNameToo⟩ := ofObject_eq_classified_iff.mp known
        exact Or.inr ⟨unqualified, unqualifiedToo, hasClass.trans hasClassToo.symm,
          hasName.trans hasNameToo.symm⟩
    | missing =>
        rw [known] at same
        obtain ⟨unqualified, hasNoClass⟩ := ofObject_eq_missing_iff.mp same
        obtain ⟨unqualifiedToo, hasNoClassToo⟩ := ofObject_eq_missing_iff.mp known
        exact Or.inr ⟨unqualified, unqualifiedToo, hasNoClass.trans hasNoClassToo.symm,
          (Model.effectiveName?_eq_none hasNoClass).trans
            (Model.effectiveName?_eq_none hasNoClassToo).symm⟩
  · rintro (⟨name, named, namedToo⟩ | ⟨unqualified, unqualifiedToo, sameClass, sameName⟩)
    · rw [ofObject_eq_qualified_iff.mpr named, ofObject_eq_qualified_iff.mpr namedToo]
    · rw [ofObject, ofObject, unqualified, unqualifiedToo, sameClass, sameName]

end Objects

end Identification

/-! ## Confused targets -/

/-- The first object has a qualified name that is the name of a class, and the second object is an
unnamed instance of this class. -/
def NamedLikeClassOf (named : Model) (target : ObjectId) (unnamed : Model) (other : ObjectId) :
    Prop :=
  ∃ metaclass, named.qualifiedName? target = some (.simple metaclass.name) ∧
    unnamed.metaclass? other = some metaclass ∧ unnamed.effectiveName? other = none

theorem namedLikeClassOf_iff {named unnamed : Model} {target other : ObjectId} :
    NamedLikeClassOf named target unnamed other ↔
      Identification.NamedLike (.ofObject named target) (.ofObject unnamed other) := by
  refine exists_congr fun metaclass => ?_
  rw [Identification.ofObject_eq_qualified_iff, Identification.ofObject_eq_classified_iff]
  refine and_congr_right fun _ => ⟨fun ⟨hasClass, noName⟩ => ?_, And.right⟩
  exact ⟨Model.qualifiedName?_eq_none noName, hasClass, noName⟩

/-- Two snapshots record the same text for objects outside their trees exactly if both objects
have the same qualified name, or neither has one and they agree in class and effective name, or
one is an unnamed instance of the class that the other one is named like. -/
theorem external_eq_iff {left right : Model} {leftRoot rightRoot target other : ObjectId}
    (outside : target ∉ left.containmentTree leftRoot)
    (outsideToo : other ∉ right.containmentTree rightRoot) :
    Target.of? left (left.containmentTree leftRoot) (.object target) =
        Target.of? right (right.containmentTree rightRoot) (.object other) ↔
      (∃ name, left.qualifiedName? target = some name ∧ right.qualifiedName? other = some name) ∨
      (left.qualifiedName? target = none ∧ right.qualifiedName? other = none ∧
        left.metaclass? target = right.metaclass? other ∧
        left.effectiveName? target = right.effectiveName? other) ∨
      NamedLikeClassOf left target right other ∨ NamedLikeClassOf right other left target := by
  rw [Snapshot.of?_object_of_not_mem outside, Snapshot.of?_object_of_not_mem outsideToo,
    Option.some_inj, external.injEq, Identification.externalIdentity_eq,
    Identification.externalIdentity_eq,
    Identification.text_eq_iff Identification.isWritten_ofObject Identification.isWritten_ofObject,
    Identification.ofObject_eq_iff, namedLikeClassOf_iff, namedLikeClassOf_iff, or_assoc]

/-- A wheel typed by a package, which may be named, with a definition in the package. -/
def typedByPackage (name : Option String) : ModelDraft :=
  let draft := (ModelDraft.initial.member ModelDraft.root .owningMembership .package name).2
  let draft := (draft.partDefinition ⟨1⟩ "Real").2
  let draft := (draft.partDefinition ModelDraft.root "Car").2
  let draft := (draft.part ⟨5⟩ (some "wheel")).2
  (draft.typedBy ⟨7⟩ (.object ⟨1⟩)).2

theorem typedByPackage_reachable (name : Option String) :
    (typedByPackage name).model.Reachable := by
  unfold typedByPackage
  apply ModelDraft.reachable_typedBy
  iterate 4 apply ModelDraft.reachable_member
  exact ModelDraft.reachable_initial

/-- A package named `Package` is not told from an unnamed one.  A package that is named like the
text of the definition in the unnamed package is told from that definition, because the blank in
its name is written within quotes. -/
theorem external_eq_iff_typedByPackage :
    of? (typedByPackage (some "Package")).model
        ((typedByPackage (some "Package")).model.containmentTree ⟨5⟩) (.object ⟨1⟩) =
      of? (typedByPackage none).model
        ((typedByPackage none).model.containmentTree ⟨5⟩) (.object ⟨1⟩) ∧
    of? (typedByPackage (some "Classifier Real")).model
        ((typedByPackage (some "Classifier Real")).model.containmentTree ⟨5⟩) (.object ⟨1⟩) ≠
      of? (typedByPackage none).model
        ((typedByPackage none).model.containmentTree ⟨5⟩) (.object ⟨3⟩) := by
  constructor
  · refine (external_eq_iff (by decide +kernel) (by decide +kernel)).mpr ?_
    exact Or.inr (Or.inr (Or.inl ⟨.package, by decide +kernel, by decide +kernel,
      by decide +kernel⟩))
  · have named : (typedByPackage (some "Classifier Real")).model.qualifiedName? ⟨1⟩ =
        some ⟨["Classifier Real"]⟩ := by decide +kernel
    have unqualified : (typedByPackage none).model.qualifiedName? ⟨3⟩ = none := by decide +kernel
    have effective : (typedByPackage none).model.effectiveName? ⟨3⟩ = some "Real" := by
      decide +kernel
    intro same
    rcases (external_eq_iff (by decide +kernel) (by decide +kernel)).mp same with
      ⟨name, _, namedToo⟩ | ⟨unnamed, _⟩ | ⟨metaclass, _, _, unnamed⟩ | ⟨metaclass, namedToo, _⟩
    · rw [unqualified] at namedToo
      cases namedToo
    · rw [named] at unnamed
      cases unnamed
    · rw [effective] at unnamed
      cases unnamed
    · rw [unqualified] at namedToo
      cases namedToo

/-- The typings of the two wheels are recorded alike, so the snapshots match, although one target
has a qualified name and the other one has no name at all. -/
theorem snapshots_match_typedByPackage :
    (typedByPackage (some "Package")).model.Reachable ∧ (typedByPackage none).model.Reachable ∧
      ⟨1⟩ ∉ (typedByPackage (some "Package")).model.containmentTree ⟨5⟩ ∧
      ⟨1⟩ ∉ (typedByPackage none).model.containmentTree ⟨5⟩ ∧
      externalIdentity (typedByPackage (some "Package")).model ⟨1⟩ = "Package" ∧
      externalIdentity (typedByPackage none).model ⟨1⟩ = "Package" ∧
      (typedByPackage (some "Package")).model.qualifiedName? ⟨1⟩ = some ⟨["Package"]⟩ ∧
      (typedByPackage none).model.qualifiedName? ⟨1⟩ = none ∧
      (do
        let named ← Snapshot.capture (typedByPackage (some "Package")).model ⟨5⟩
        let unnamed ← Snapshot.capture (typedByPackage none).model ⟨5⟩
        pure (named.isMatch unnamed) : Except SnapshotError Bool) = .ok true := by
  refine ⟨typedByPackage_reachable _, typedByPackage_reachable _, ?_⟩
  decide +kernel

end Target

end ModelText
