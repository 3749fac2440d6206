import ModelText.Graph.Mutation

namespace ModelText

/-!
# Drafting a model

A draft grows under an anonymous root namespace.  A refused write does not stop
the drafting; the first refusal is reported when the model is finished.
-/

/-- A model being drafted, and the first refusal so far. -/
structure ModelDraft where
  model : Model
  refusal : Option ModelError

namespace ModelDraft

/-- The root namespace of every draft. -/
def root : ObjectId := ⟨0⟩

/-- A draft with its root namespace only. -/
def initial : ModelDraft := ⟨((default : Model).create .nameSpace).2, none⟩

/-- Take over the outcome of a write. -/
def accept (draft : ModelDraft) : Except ModelError Model → ModelDraft
  | .ok model => { draft with model := model }
  | .error error => { draft with refusal := some (draft.refusal.getD error) }

def create (draft : ModelDraft) (metaclass : Metaclass) : ObjectId × ModelDraft :=
  let (id, model) := draft.model.create metaclass
  (id, { draft with model := model })

def set (draft : ModelDraft) (owner : ObjectId) (feature : Metafeature) (value : Value) :
    ModelDraft :=
  draft.accept (draft.model.set owner feature value)

def push (draft : ModelDraft) (owner : ObjectId) (feature : Metafeature) (value : Value) :
    ModelDraft :=
  draft.accept (draft.model.push owner feature value)

def recordSourceToken (draft : ModelDraft) (site : ReferenceSite) (token : String) :
    ModelDraft :=
  { draft with model := draft.model.recordSourceToken site token }

/-- The drafted model, or the first refusal. -/
def finish (draft : ModelDraft) : Except ModelError Model :=
  match draft.refusal with
  | some error => .error error
  | none => .ok draft.model

/-! ## Members -/

/-- A member of a namespace behind a new membership of the first metaclass. -/
def member (draft : ModelDraft) (owner : ObjectId) (behind metaclass : Metaclass)
    (name : Option String) : ObjectId × ModelDraft :=
  let (element, draft) := draft.create metaclass
  let draft :=
    match name with
    | some name => draft.set element .declaredName (.text name)
    | none => draft
  let (relationship, draft) := draft.create behind
  let draft := draft.push relationship .ownedRelatedElement (.object element)
  (element, draft.push owner .ownedRelationship (.object relationship))

def package (draft : ModelDraft) (owner : ObjectId) (name : String) :
    ObjectId × ModelDraft :=
  draft.member owner .owningMembership .package (some name)

/-- A part definition is a classifier. -/
def partDefinition (draft : ModelDraft) (owner : ObjectId) (name : String) :
    ObjectId × ModelDraft :=
  draft.member owner .owningMembership .classifier (some name)

/-- A part is a feature behind a feature membership. -/
def part (draft : ModelDraft) (owner : ObjectId) (name : Option String) :
    ObjectId × ModelDraft :=
  draft.member owner .featureMembership .feature name

/-! ## Relationships -/

/-- A relationship owned by an element. -/
def relationship (draft : ModelDraft) (owner : ObjectId) (metaclass : Metaclass) :
    ObjectId × ModelDraft :=
  let (relationship, draft) := draft.create metaclass
  (relationship, draft.push owner .ownedRelationship (.object relationship))

def typedBy (draft : ModelDraft) (feature : ObjectId) (target : Value) :
    ObjectId × ModelDraft :=
  let (typing, draft) := draft.relationship feature .featureTyping
  let draft := draft.set typing .typedFeature (.object feature)
  (typing, draft.set typing .typingType target)

def specializes (draft : ModelDraft) (specific : ObjectId) (general : Value) :
    ObjectId × ModelDraft :=
  let (specialization, draft) := draft.relationship specific .specialization
  (specialization, draft.set specialization .general general)

def subsets (draft : ModelDraft) (feature : ObjectId) (target : Value) :
    ObjectId × ModelDraft :=
  let (subsetting, draft) := draft.relationship feature .subsetting
  let draft := draft.set subsetting .subsettingFeature (.object feature)
  (subsetting, draft.set subsetting .subsettedFeature target)

def redefines (draft : ModelDraft) (feature : ObjectId) (target : Value) :
    ObjectId × ModelDraft :=
  let (redefinition, draft) := draft.relationship feature .redefinition
  let draft := draft.set redefinition .redefiningFeature (.object feature)
  (redefinition, draft.set redefinition .redefinedFeature target)

end ModelDraft

end ModelText
