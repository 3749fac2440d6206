import ModelText.Grammar.Description
import ModelText.Graph.Draft

namespace ModelText

/-!
# The vehicle example

A small model with packages, definitions, parts, typings, a specialization, a
redefinition and a subsetting, and a grammar that prints it.

    package Vehicles {
        part def Engine;
        part def Wheel;
        abstract part def Vehicle {
            part engine : Engine;
            part wheels : Wheel;
        }
        part def Car :> Vehicle {
            part redefines engine;
            part spare :> wheels : Wheel;
        }
    }
-/

namespace Example

/-- The elements of the vehicle example that have a part of their own. -/
structure VehicleElements where
  root : ObjectId
  package : ObjectId
  engine : ObjectId
  wheel : ObjectId
  vehicle : ObjectId
  car : ObjectId
  vehicleEngine : ObjectId
  vehicleWheels : ObjectId
  carEngine : ObjectId
  carSpare : ObjectId

/-- The elements with their names. -/
def VehicleElements.named (elements : VehicleElements) : List (String × ObjectId) :=
  [("root", elements.root), ("package", elements.package), ("engine", elements.engine),
    ("wheel", elements.wheel), ("vehicle", elements.vehicle), ("car", elements.car),
    ("vehicle_engine", elements.vehicleEngine),
    ("vehicle_wheels", elements.vehicleWheels), ("car_engine", elements.carEngine),
    ("car_spare", elements.carSpare)]

/-- The draft of the vehicle example, with its elements. -/
def vehicleDraft : VehicleElements × ModelDraft :=
  let root := ModelDraft.root
  let (package, draft) := ModelDraft.initial.package root "Vehicles"
  let draft := draft.set package .elementId (.text "0b8f6c1e")
  let (engine, draft) := draft.partDefinition package "Engine"
  let (wheel, draft) := draft.partDefinition package "Wheel"
  let (vehicle, draft) := draft.partDefinition package "Vehicle"
  let draft := draft.set vehicle .isAbstract (.bool true)
  let (vehicleEngine, draft) := draft.part vehicle (some "engine")
  let (_, draft) := draft.typedBy vehicleEngine (.object engine)
  let (vehicleWheels, draft) := draft.part vehicle (some "wheels")
  let (_, draft) := draft.typedBy vehicleWheels (.object wheel)
  let (car, draft) := draft.partDefinition package "Car"
  let (_, draft) := draft.specializes car (.object vehicle)
  let (carEngine, draft) := draft.part car none
  let (_, draft) := draft.redefines carEngine (.object vehicleEngine)
  let (carSpare, draft) := draft.part car (some "spare")
  let (_, draft) := draft.subsets carSpare (.object vehicleWheels)
  let (_, draft) := draft.typedBy carSpare (.object wheel)
  ({ root := root, package := package, engine := engine, wheel := wheel,
     vehicle := vehicle, car := car, vehicleEngine := vehicleEngine,
     vehicleWheels := vehicleWheels, carEngine := carEngine, carSpare := carSpare },
   draft)

def vehicle : Except ModelError (VehicleElements × Model) :=
  vehicleDraft.2.finish.map fun model => (vehicleDraft.1, model)

/-! ## A grammar for the example -/

private def untagged (followers : List Nat) : StateDescription := ⟨none, followers⟩

private def tagged (feature : String) (followers : List Nat) : StateDescription :=
  ⟨some feature, followers⟩

private def ruleFrom (name : String) (metaclasses : List String)
    (states : List StateDescription) : RuleDescription :=
  ⟨name, metaclasses, 0, states⟩

/-- A rule that prints one value of one feature. -/
private def singleFeatureRule (name feature : String) : RuleDescription :=
  ruleFrom name [name] [untagged [1], tagged feature []]

/-- A grammar for the constructs of the vehicle example. -/
def grammar : GrammarDescription where
  name := "VehicleSample"
  rules := [
    ruleFrom "Namespace" ["Namespace"] [untagged [1], tagged "ownedRelationship" [1]],
    ruleFrom "Package" ["Package"]
      [untagged [1], tagged "declaredName" [2], tagged "ownedRelationship" [2]],
    ruleFrom "Classifier" ["Classifier"]
      [untagged [1, 2], tagged "isAbstract" [2], tagged "declaredName" [3],
        tagged "ownedRelationship" [3]],
    ruleFrom "Feature" ["Feature"]
      [untagged [1, 2, 3], tagged "declaredName" [2, 3], tagged "ownedRelationship" [3],
        tagged "ownedRelationship" []],
    ruleFrom "OwningMembership" ["OwningMembership", "FeatureMembership"]
      [untagged [1], tagged "ownedRelatedElement" []],
    singleFeatureRule "FeatureTyping" "type",
    singleFeatureRule "Specialization" "general",
    singleFeatureRule "Subsetting" "subsettedFeature",
    singleFeatureRule "Redefinition" "redefinedFeature"]

end Example

end ModelText
