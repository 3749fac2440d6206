import Mathlib.Data.List.Basic
import ModelText.Graph.Draft
import ModelText.Reference.Resolver

namespace ModelText

/-!
# What a token designates

A token that is not the recorded text of a proxy reads back, with the separator
it was written with, to a name that the scope of its place maps to the bound
target.  Every way to a token ends in the same acceptance test, so nothing about
names, quoting or scopes is needed: a written name that would read back to
another object is not accepted.

Two references of one place that are bound to different objects therefore have
different tokens, because one text reads back to one name only.  And a token that
is read as a proxy is bound to the same object, so the proxy has the same token.
-/

namespace Resolver

variable {resolver : Resolver} {model : Model} {scope : Scope} {target source : ObjectId}
  {reference : Metafeature} {token : String}

/-! ## The acceptance test -/

/-- An accepted token is the written name, and reads back to the target. -/
theorem acceptedToken?_eq_some_iff (resolver : Resolver) (scope : Scope)
    (name : QualifiedName) (target : ObjectId) (token : String) :
    resolver.acceptedToken? scope name target = some token ↔
      token = name.render resolver.separator ∧
        scope (QualifiedName.parse token resolver.separator) = some target := by
  unfold acceptedToken? Scope.designates
  constructor
  · intro accepted
    dsimp only at accepted
    split at accepted
    · rename_i reads
      have written := Option.some.inj accepted
      subst written
      exact ⟨rfl, beq_iff_eq.mp reads⟩
    · cases accepted
  · rintro ⟨rfl, reads⟩
    simp [reads]

/-! ## The ways to a token -/

theorem qualifiedToken?_reads_back
    (accepted : resolver.qualifiedToken? model scope target = some token) :
    scope (QualifiedName.parse token resolver.separator) = some target := by
  rcases Option.bind_eq_some_iff.mp accepted with ⟨name, _, written⟩
  exact ((acceptedToken?_eq_some_iff _ _ _ _ _).mp written).2

theorem effectiveToken_reads_back
    (accepted : resolver.effectiveToken model scope source reference target = .ok token) :
    scope (QualifiedName.parse token resolver.separator) = some target := by
  unfold effectiveToken at accepted
  split at accepted
  · cases accepted
  · split at accepted
    · rename_i written
      rw [← Except.ok.inj accepted]
      exact ((acceptedToken?_eq_some_iff _ _ _ _ _).mp written).2
    · cases accepted

/-- Whether it is a qualified or an effective name, the token of an object reads
back to the object. -/
theorem targetToken_reads_back
    (accepted : resolver.targetToken model scope source reference target = .ok token) :
    scope (QualifiedName.parse token resolver.separator) = some target := by
  unfold targetToken at accepted
  split at accepted
  · rename_i qualified
    rw [← Except.ok.inj accepted]
    exact qualifiedToken?_reads_back qualified
  · exact effectiveToken_reads_back accepted

/-- Without a recorded text nothing is reused. -/
theorem recordedToken?_eq_none (resolver : Resolver) {site : ReferenceSite}
    (untouched : model.sourceToken? site = none) (value : Value) :
    resolver.recordedToken? model site value = none := by
  cases value <;> simp [recordedToken?, untouched]

/-- A token that is not a recorded text is the token of the bound target in the
scope of the place. -/
theorem resolve_eq_ok_iff {site : ReferenceSite} {value : Value}
    (unrecorded : resolver.recordedToken? model site value = none) :
    resolver.resolve model site value = .ok token ↔
      ∃ scope target, resolver.scopes model site.source site.feature = some scope ∧
        resolver.referent scope site.source site.feature value = .ok target ∧
        resolver.targetToken model scope site.source site.feature target = .ok token := by
  unfold resolve scopeAt scopedToken
  rw [unrecorded]
  cases visible : resolver.scopes model site.source site.feature with
  | none => simp
  | some scope =>
      cases bound : resolver.referent scope site.source site.feature value with
      | error _ => simp [bound]
      | ok target => simp [bound]

/-- Of a value that keeps no recorded text, nothing but the bound target matters. -/
theorem resolve_eq_targetToken {site : ReferenceSite} {value : Value}
    (unrecorded : resolver.recordedToken? model site value = none)
    (visible : resolver.scopes model site.source site.feature = some scope)
    (bound : resolver.referent scope site.source site.feature value = .ok target) :
    resolver.resolve model site value =
      resolver.targetToken model scope site.source site.feature target := by
  simp [resolve, scopeAt, scopedToken, unrecorded, visible, bound]

/-- A proxy is bound to the object that its own text designates. -/
theorem referent_proxy_eq_ok_iff {text : String} :
    resolver.referent scope source reference (.proxy text) = .ok target ↔
      scope (QualifiedName.parse text resolver.separator) = some target := by
  cases found : scope (QualifiedName.parse text resolver.separator) <;> simp [referent, found]

theorem scopes_standard (options : Options)
    (position : Scope.isReferencePosition model source reference = true) :
    (standard options).scopes model source reference =
      some (Scope.layered (Scope.layers model source)
        (Scope.globalTable Model.qualifiedName? model)) :=
  if_pos position

/-! ## Soundness of tokens -/

/-- What a token designates.  A token that was not recorded reads back to the
target that its value is bound to.  Values of one place that are bound to
different targets have different tokens.  A proxy gets a token for the object
that the text of the proxy designates. -/
theorem resolve_designates (resolver : Resolver) (model : Model) (source : ObjectId)
    (reference : Metafeature) :
    (∀ index value token,
      resolver.resolve model ⟨source, reference, index⟩ value = .ok token →
      resolver.recordedToken? model ⟨source, reference, index⟩ value = none →
        ∃ scope target, resolver.scopes model source reference = some scope ∧
          resolver.referent scope source reference value = .ok target ∧
          scope (QualifiedName.parse token resolver.separator) = some target) ∧
    (∀ scope, resolver.scopes model source reference = some scope →
      ∀ index value target token otherIndex other otherTarget otherToken,
        resolver.resolve model ⟨source, reference, index⟩ value = .ok token →
        resolver.recordedToken? model ⟨source, reference, index⟩ value = none →
        resolver.referent scope source reference value = .ok target →
        resolver.resolve model ⟨source, reference, otherIndex⟩ other = .ok otherToken →
        resolver.recordedToken? model ⟨source, reference, otherIndex⟩ other = none →
        resolver.referent scope source reference other = .ok otherTarget →
        target ≠ otherTarget → token ≠ otherToken) ∧
    (∀ index text token,
      resolver.resolve model ⟨source, reference, index⟩ (.proxy text) = .ok token →
      resolver.recordedToken? model ⟨source, reference, index⟩ (.proxy text) = none →
        ∃ scope target, resolver.scopes model source reference = some scope ∧
          scope (QualifiedName.parse text resolver.separator) = some target ∧
          scope (QualifiedName.parse token resolver.separator) = some target) := by
  have sound : ∀ index value token,
      resolver.resolve model ⟨source, reference, index⟩ value = .ok token →
      resolver.recordedToken? model ⟨source, reference, index⟩ value = none →
        ∃ scope target, resolver.scopes model source reference = some scope ∧
          resolver.referent scope source reference value = .ok target ∧
          scope (QualifiedName.parse token resolver.separator) = some target := by
    intro index value token resolved unrecorded
    rcases (resolve_eq_ok_iff unrecorded).mp resolved with
      ⟨scope, target, visible, bound, accepted⟩
    exact ⟨scope, target, visible, bound, targetToken_reads_back accepted⟩
  refine ⟨sound, ?_, ?_⟩
  · intro scope visible index value target token otherIndex other otherTarget otherToken
      resolved unrecorded bound otherResolved otherUnrecorded otherBound different same
    rcases sound index value token resolved unrecorded with
      ⟨scope', target', visible', bound', reads⟩
    rcases sound otherIndex other otherToken otherResolved otherUnrecorded with
      ⟨scope'', target'', visible'', bound'', otherReads⟩
    have sameScope := Option.some.inj (visible.symm.trans visible')
    have alsoScope := Option.some.inj (visible.symm.trans visible'')
    subst sameScope
    subst alsoScope
    have sameTarget := Except.ok.inj (bound.symm.trans bound')
    have alsoTarget := Except.ok.inj (otherBound.symm.trans bound'')
    rw [← sameTarget, same] at reads
    rw [← alsoTarget] at otherReads
    exact different (Option.some.inj (reads.symm.trans otherReads))
  · intro index text token resolved unrecorded
    rcases sound index (.proxy text) token resolved unrecorded with
      ⟨scope, target, visible, bound, reads⟩
    exact ⟨scope, target, visible, referent_proxy_eq_ok_iff.mp bound, reads⟩

/-- A package with two definitions and a part that is typed by the second one. -/
def wheeledPart : ModelDraft :=
  let draft := (ModelDraft.initial.package ModelDraft.root "Vehicles").2
  let draft := (draft.partDefinition ⟨1⟩ "Engine").2
  let draft := (draft.partDefinition ⟨1⟩ "Wheel").2
  let draft := (draft.part ⟨1⟩ (some "wheel")).2
  (draft.typedBy ⟨7⟩ (.object ⟨5⟩)).2

/-- At the typing of the part, the proxy `Engine` and the reference to the second
definition have different tokens, and each reads back to its own target. -/
theorem resolve_designates_wheeledPart :
    (∃ scope target, (standard .standard).scopes wheeledPart.model ⟨9⟩ .typingType =
        some scope ∧
      scope (QualifiedName.parse "Engine" "::") = some target ∧
      scope (QualifiedName.parse "Vehicles::Engine" "::") = some target) ∧
    (∃ scope target, (standard .standard).scopes wheeledPart.model ⟨9⟩ .typingType =
        some scope ∧
      (standard .standard).referent scope ⟨9⟩ .typingType (.object ⟨5⟩) = .ok target ∧
      scope (QualifiedName.parse "Vehicles::Wheel" "::") = some target) ∧
    "Vehicles::Engine" ≠ "Vehicles::Wheel" := by
  have engine : (standard .standard).resolve wheeledPart.model ⟨⟨9⟩, .typingType, 0⟩
      (.proxy "Engine") = .ok "Vehicles::Engine" := by decide +kernel
  have wheel : (standard .standard).resolve wheeledPart.model ⟨⟨9⟩, .typingType, 0⟩
      (.object ⟨5⟩) = .ok "Vehicles::Wheel" := by decide +kernel
  have designates := resolve_designates (standard .standard) wheeledPart.model ⟨9⟩ .typingType
  have visible : (standard .standard).scopes wheeledPart.model ⟨9⟩ .typingType =
      some (Scope.layered (Scope.layers wheeledPart.model ⟨9⟩)
        (Scope.globalTable Model.qualifiedName? wheeledPart.model)) :=
    scopes_standard .standard (by decide +kernel)
  have bound : (standard .standard).referent
      (Scope.layered (Scope.layers wheeledPart.model ⟨9⟩)
        (Scope.globalTable Model.qualifiedName? wheeledPart.model))
      ⟨9⟩ .typingType (.proxy "Engine") = .ok ⟨3⟩ := by decide +kernel
  have unrecorded : ∀ value, (standard .standard).recordedToken? wheeledPart.model
      ⟨⟨9⟩, .typingType, 0⟩ value = none :=
    recordedToken?_eq_none _ (by decide +kernel)
  refine ⟨designates.2.2 0 "Engine" _ engine (unrecorded _),
    designates.1 0 _ _ wheel (unrecorded _), ?_⟩
  exact designates.2.1 _ visible 0 (.proxy "Engine") ⟨3⟩ _ 0 (.object ⟨5⟩) ⟨5⟩ _
    engine (unrecorded _) bound wheel (unrecorded _) rfl (by decide)

/-! ## Tokens read as proxies -/

/-- A token is its own normal form.  Whichever way it was found, the proxy with the token for its
text has the same token, unless a text recorded for the place is kept instead. -/
theorem resolve_proxy_of_resolve {site : ReferenceSite} {value : Value}
    (resolved : resolver.resolve model site value = .ok token)
    (unrecorded : resolver.recordedToken? model site value = none)
    (unrecordedToo : resolver.recordedToken? model site (.proxy token) = none) :
    resolver.resolve model site (.proxy token) = .ok token := by
  obtain ⟨scope, target, visible, _, accepted⟩ := (resolve_eq_ok_iff unrecorded).mp resolved
  have bound : resolver.referent scope site.source site.feature (.proxy token) = .ok target :=
    referent_proxy_eq_ok_iff.mpr (targetToken_reads_back accepted)
  rw [resolve_eq_targetToken unrecordedToo visible bound, accepted]

/-- Options that join names without a separator. -/
def unseparated : Options := { Options.standard with nameSeparator := "" }

/-- Without a separator the qualified name of the second definition reads back as one long name
that designates nothing, and its effective name is the token.  Read as a proxy it is bound to the
definition again, whose qualified name is turned down once more. -/
theorem resolve_proxy_of_resolve_unseparated :
    wheeledPart.model.sourceToken? ⟨⟨9⟩, .typingType, 0⟩ = none ∧
      (standard unseparated).qualifiedName? wheeledPart.model ⟨5⟩ = some ⟨["Vehicles", "Wheel"]⟩ ∧
      (∃ scope, (standard unseparated).scopes wheeledPart.model ⟨9⟩ .typingType = some scope ∧
        (standard unseparated).qualifiedToken? wheeledPart.model scope ⟨5⟩ = none) ∧
      (standard unseparated).resolve wheeledPart.model ⟨⟨9⟩, .typingType, 0⟩ (.object ⟨5⟩) =
        .ok "Wheel" ∧
      (standard unseparated).resolve wheeledPart.model ⟨⟨9⟩, .typingType, 0⟩ (.proxy "Wheel") =
        .ok "Wheel" := by
  have resolved : (standard unseparated).resolve wheeledPart.model ⟨⟨9⟩, .typingType, 0⟩
      (.object ⟨5⟩) = .ok "Wheel" := by decide +kernel
  have untouched : wheeledPart.model.sourceToken? ⟨⟨9⟩, .typingType, 0⟩ = none := by decide +kernel
  refine ⟨untouched, by decide +kernel,
    ⟨_, scopes_standard unseparated (by decide +kernel), ?_⟩, resolved, ?_⟩
  · decide +kernel
  · exact resolve_proxy_of_resolve resolved (recordedToken?_eq_none _ untouched _)
      (recordedToken?_eq_none _ untouched _)

end Resolver

end ModelText
