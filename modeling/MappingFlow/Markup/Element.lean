/-
  MappingFlow.Markup.Element — the tree of elements of a document.

  Names are expanded: `space` is the namespace, empty for a name without one. Text
  between the elements is checked when a document is read and not kept.
-/

namespace MappingFlow.Markup

structure Name where
  space : String
  base : String
  deriving DecidableEq

inductive Element where
  | node (name : Name) (attributes : List (Name × String)) (children : List Element)

namespace Element

def name : Element → Name
  | node n _ _ => n

def attributes : Element → List (Name × String)
  | node _ as _ => as

def children : Element → List Element
  | node _ _ cs => cs

mutual

/-- The element and all elements inside it, in document order. -/
def family : Element → List Element
  | node n as cs => node n as cs :: families cs
termination_by structural e => e

def families : List Element → List Element
  | [] => []
  | e :: rest => family e ++ families rest
termination_by structural es => es

end

/-- All elements inside this one, in document order. -/
def descendants (e : Element) : List Element := families e.children

/-- The descendants of a name that is in no namespace. -/
def findAll (e : Element) (tag : String) : List Element := e.descendants.filter (·.name == ⟨"", tag⟩)

def find? (e : Element) (tag : String) : Option Element := (e.findAll tag).head?

/-- The value of an attribute that is in no namespace. -/
def attribute? (e : Element) (key : String) : Option String := e.attributes.lookup ⟨"", key⟩

def attributeD (e : Element) (key absent : String) : String := (e.attribute? key).getD absent

end Element

end MappingFlow.Markup
