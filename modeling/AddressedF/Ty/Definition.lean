import AddressedF.Ty.Printer

/-!
# Type Definitions

A type definition gives a representation to an opaque type constructor.

## Main Definitions

* `TypeDef`: parameters and body
* `TypeDef.kind`: the kind of the constructor that a definition introduces
-/

namespace AddressedF

/-- A type definition.  The first parameter is the outermost binder, so in a body under `n` parameters it is
variable `n - 1`. -/
structure TypeDef where
  params : List Kind
  body : Ty
  deriving DecidableEq

namespace TypeDef

/-- The kind of the defined constructor: from its parameters to `*`. -/
def kind (d : TypeDef) : Kind :=
  .ofArguments d.params .star

/-- The type definitions that the body mentions. -/
def references (d : TypeDef) : List Address :=
  d.body.references

/-- The written form of a definition. -/
def render (d : TypeDef) : String :=
  "type" ++ String.join (d.params.map fun k => " " ++ k.renderAtom) ++ " = " ++ d.body.render

end TypeDef

end AddressedF
