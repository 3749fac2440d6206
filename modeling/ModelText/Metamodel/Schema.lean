import ModelText.Metamodel.Metaclass
import ModelText.Metamodel.Metafeature

namespace ModelText

/-!
# The features of a metaclass

A metaclass carries the features that it or one of its supertypes declares.
Supertypes are declared before their subtypes and so are their features, hence
the order of declaration puts inherited features first.  The position of a
feature among the features of a metaclass is its local id in that metaclass;
grammar rules refer to features by these ids.
-/

namespace Metaclass

def hasFeature (metaclass : Metaclass) (feature : Metafeature) : Bool :=
  metaclass.isA feature.declaredBy

/-- The features of a metaclass, inherited ones first. -/
def features (metaclass : Metaclass) : List Metafeature :=
  Metafeature.all.filter metaclass.hasFeature

/-- The features whose values instances of a metaclass hold themselves. -/
def storedFeatures (metaclass : Metaclass) : List Metafeature :=
  metaclass.features.filter Metafeature.isStored

def featureCount (metaclass : Metaclass) : Nat :=
  metaclass.features.length

/-- The local id of a feature, for the features that the metaclass has. -/
def featureId? (metaclass : Metaclass) (feature : Metafeature) : Option Nat :=
  metaclass.features.idxOf? feature

def featureAt? (metaclass : Metaclass) (id : Nat) : Option Metafeature :=
  metaclass.features[id]?

def featureNamed? (metaclass : Metaclass) (name : String) : Option Metafeature :=
  metaclass.features.find? fun candidate => candidate.name == name

theorem mem_features_iff (metaclass : Metaclass) (feature : Metafeature) :
    feature ∈ metaclass.features ↔ metaclass.hasFeature feature = true := by
  simp [features, Metafeature.mem_all]

end Metaclass

end ModelText
