import ModelText.Options
import ModelText.Scope.Containment

namespace ModelText

/-!
# Tokens for references

A resolver turns a reference value into the text to print.  An unbound proxy may
keep the text its parser recorded.  Every other reference is bound to an object
first and then written as a name, and a written name is accepted only if it
reads back to a name that the scope maps to the same object.  The qualified name
is tried first, the effective name last.
-/

/-- Why a reference has no token. -/
inductive ResolutionError where
  | noScope (source : ObjectId) (reference : Metafeature)
  | notAReference (source : ObjectId) (reference : Metafeature)
  | unresolvedProxy (source : ObjectId) (reference : Metafeature) (text : String)
  | noEffectiveName (source : ObjectId) (reference : Metafeature) (target : ObjectId)
  | notValidInScope (source : ObjectId) (reference : Metafeature) (target : ObjectId)
      (name : String)
  deriving DecidableEq

namespace ResolutionError

/-- A reference of an object as messages write it. -/
private def place (source : ObjectId) (reference : Metafeature) : String :=
  reference.label ++ " of " ++ source.label

def message : ResolutionError → String
  | .noScope source reference => "no scope found for " ++ place source reference
  | .notAReference source reference =>
      place source reference ++ " does not hold a reference value"
  | .unresolvedProxy source reference text =>
      "cannot resolve '" ++ text ++ "' for " ++ place source reference
  | .noEffectiveName source reference target =>
      "target " ++ target.label ++ " of " ++ place source reference
        ++ " has no effective name"
  | .notValidInScope source reference target name =>
      "effective name '" ++ name ++ "' does not designate " ++ target.label ++ " for "
        ++ place source reference

end ResolutionError

/-- How references are named and looked up. -/
structure Resolver where
  scopes : ScopeProvider
  names : NameProvider
  separator : String
  reuseSourceTokens : Bool

namespace Resolver

/-- Names and scopes of the containment tree, with the given options. -/
def standard (options : Options) : Resolver where
  scopes := Scope.containment Model.qualifiedName?
  names := Model.qualifiedName?
  separator := options.nameSeparator
  reuseSourceTokens := options.reuseSourceTokens

/-- The recorded text of an unbound proxy, when texts may be reused. -/
def recordedToken? (resolver : Resolver) (model : Model) (site : ReferenceSite)
    (value : Value) : Option String :=
  match value with
  | .proxy _ => if resolver.reuseSourceTokens then model.sourceToken? site else none
  | _ => none

/-- The scope at the place of a reference. -/
def scopeAt (resolver : Resolver) (model : Model) (source : ObjectId)
    (reference : Metafeature) : Except ResolutionError Scope :=
  match resolver.scopes model source reference with
  | some scope => .ok scope
  | none => .error (.noScope source reference)

/-- The object that a reference value designates in a scope. -/
def referent (resolver : Resolver) (scope : Scope) (source : ObjectId)
    (reference : Metafeature) : Value → Except ResolutionError ObjectId
  | .object target => .ok target
  | .proxy text =>
      match scope (QualifiedName.parse text resolver.separator) with
      | some target => .ok target
      | none => .error (.unresolvedProxy source reference text)
  | _ => .error (.notAReference source reference)

/-- The qualified name of an object, or of the element it owns when it is a
nameless owning membership. -/
def qualifiedName? (resolver : Resolver) (model : Model) (target : ObjectId) :
    Option QualifiedName :=
  match resolver.names model target with
  | some name => some name
  | none =>
      if model.isA target .owningMembership then
        (model.ownedMemberElement? target).bind (resolver.names model)
      else
        none

/-- The written form of a name, if it reads back to a name that the scope maps to
the object. -/
def acceptedToken? (resolver : Resolver) (scope : Scope) (name : QualifiedName)
    (target : ObjectId) : Option String :=
  let token := name.render resolver.separator
  if scope.designates (QualifiedName.parse token resolver.separator) target then
    some token
  else
    none

/-- The accepted written form of the qualified name of an object. -/
def qualifiedToken? (resolver : Resolver) (model : Model) (scope : Scope)
    (target : ObjectId) : Option String :=
  (resolver.qualifiedName? model target).bind fun name =>
    resolver.acceptedToken? scope name target

/-- The accepted written form of the effective name of an object. -/
def effectiveToken (resolver : Resolver) (model : Model) (scope : Scope)
    (source : ObjectId) (reference : Metafeature) (target : ObjectId) :
    Except ResolutionError String :=
  match model.effectiveName? target with
  | none => .error (.noEffectiveName source reference target)
  | some name =>
      match resolver.acceptedToken? scope (.simple name) target with
      | some token => .ok token
      | none => .error (.notValidInScope source reference target name)

def targetToken (resolver : Resolver) (model : Model) (scope : Scope)
    (source : ObjectId) (reference : Metafeature) (target : ObjectId) :
    Except ResolutionError String :=
  match resolver.qualifiedToken? model scope target with
  | some token => .ok token
  | none => resolver.effectiveToken model scope source reference target

def scopedToken (resolver : Resolver) (model : Model) (scope : Scope)
    (source : ObjectId) (reference : Metafeature) (value : Value) :
    Except ResolutionError String :=
  match resolver.referent scope source reference value with
  | .error error => .error error
  | .ok target => resolver.targetToken model scope source reference target

/-- The token of a reference value. -/
def resolve (resolver : Resolver) (model : Model) (site : ReferenceSite) (value : Value) :
    Except ResolutionError String :=
  match resolver.recordedToken? model site value with
  | some token => .ok token
  | none =>
      match resolver.scopeAt model site.source site.feature with
      | .error error => .error error
      | .ok scope => resolver.scopedToken model scope site.source site.feature value

end Resolver

end ModelText
