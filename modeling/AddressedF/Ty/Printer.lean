import AddressedF.Ty.Basic

/-!
# The Written Form of Types

## Main Definitions

* `Ty.render`: the written form of a type

## Design Notes

Arrows nest to the right: an argument is parenthesised if it is a function type or quantified, a result
never.  Applications nest to the left: every member that is itself an application or quantified is
parenthesised.  Quantifiers in a row share one sign.  One function writes a type at each of the three
positions where its text depends on what surrounds it.
-/

namespace AddressedF

namespace Ty

/-- Where a type stands. -/
inductive Position where
  /-- By itself. -/
  | whole
  /-- As the head of an application. -/
  | head
  /-- After a quantifier, whose sign further quantifiers share. -/
  | quantified
  deriving DecidableEq

/-- What separates a type from the text in front of it. -/
def Position.lead : Position → String
  | whole | head => ""
  | quantified => ". "

/-- The written form of a type at a position. -/
def renderAt : Position → Ty → String
  | p, con c => p.lead ++ c.render
  | p, var i => p.lead ++ toString i
  | p, ref a => p.lead ++ "#" ++ a.hex
  | .head, app f a => renderAt .head f ++ " " ++ enclose a.isCompound (renderAt .whole a)
  | p, arrow a b =>
    p.lead ++ enclose (a.isArrow || a.isQuantified) (renderAt .whole a) ++ " -> " ++ renderAt .whole b
  | p, app f a => p.lead ++ renderAt .head f ++ " " ++ enclose a.isCompound (renderAt .whole a)
  | .whole, all k body => "∀" ++ k.renderAtom ++ renderAt .quantified body
  | .quantified, all k body => " " ++ k.renderAtom ++ renderAt .quantified body
  | .head, all k body => "(∀" ++ k.renderAtom ++ renderAt .quantified body ++ ")"

/-- The written form of a type. -/
def render (t : Ty) : String :=
  renderAt .whole t

/-- The written form where a single word is wanted. -/
def renderAtom (t : Ty) : String :=
  enclose t.isCompound t.render

end Ty

end AddressedF
