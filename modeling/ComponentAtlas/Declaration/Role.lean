import ComponentAtlas.Declaration.Attribute
import ComponentAtlas.Declaration.TypeName

/-!
# The role of a property

A property takes part in a component's interface when it carries the parameter or the cascading
marker.  If its type is an event callback it is an event, whichever marker it carries.
-/

namespace ComponentAtlas

inductive PropertyRole
  | parameter
  | cascadingParameter
  | event (argsType : Option String)
  deriving DecidableEq, Repr

namespace PropertyRole

/-- The role of a property with some markers and a type. -/
def of? (markers : List Marker) (type : String) : Option PropertyRole :=
  if !markers.contains .parameter && !markers.contains .cascading then none
  else match TypeName.callbackArgument? type.toList with
    | some argument => some (.event (argument.map String.ofList))
    | none => some (if markers.contains .cascading then .cascadingParameter else .parameter)

end PropertyRole
end ComponentAtlas
