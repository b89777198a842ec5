/-
  MappingFlow.Web.Diagram — the flow of a mapping as text for a diagram.
-/

import MappingFlow.Mapping.Basic

namespace MappingFlow.Web

def icons : List (String × String) :=
  [("Source Qualifier", "🔍"), ("Expression", "📝"), ("Filter", "🔎"), ("Joiner", "🔗"), ("Aggregator", "📊"),
   ("Lookup", "🔍"), ("Router", "🔀"), ("Sorter", "⬆️"), ("Update Strategy", "♻️"), ("Union", "🔀"),
   ("Rank", "🏆")]

/-- The picture for a type of transformation. -/
def icon (type : String) : String := (icons.lookup type).getD "⚙️"

/-- Names of nodes have no blanks. -/
def nodeName (name : String) : String :=
  String.ofList (name.toList.map fun c => if c == ' ' then '_' else c)

def node (start picture name : String) : String :=
  "    " ++ start ++ nodeName name ++ "[" ++ picture ++ " " ++ name ++ "]"

/-- A line with both ends named. -/
def edge (c : Connector) : Option String :=
  if c.source.isEmpty || c.target.isEmpty then none
  else some ("    " ++ nodeName c.source ++ " --> " ++ nodeName c.target)

def diagram (m : Mapping) : String :=
  "\n".intercalate
    (["graph LR"] ++ m.sources.map (fun s => node "SRC_" "📥" s.name)
      ++ m.transformations.map (fun t => node "TRN_" (icon t.type) t.name)
      ++ m.targets.map (fun t => node "TGT_" "📤" t.name) ++ m.connectors.filterMap edge)

end MappingFlow.Web
