/-
  MappingFlow.Text.CaseTable — the case pairs above ASCII.

  A run pairs every `step`-th code point from `first` to `last` with the one `shift`
  further on, and the tables give its ends as those of a range. Characters whose counterpart
  is longer than one character are listed apart. `casedRanges` and `passedOverRanges` serve
  the last form of the Greek sigma: the first holds the letters with case, the second the
  marks that are passed over when looking for such a letter.
-/

import MappingFlow.Text.Range

namespace MappingFlow.Text

structure CaseRun where
  first : Nat
  last : Nat
  step : Nat
  shift : Int

def runsFrom (n : Nat) : List (Nat × Nat × Nat × Int) → List CaseRun
  | [] => []
  | (gap, span, step, shift) :: rest =>
    ⟨n + gap, n + gap + span, step, shift⟩ :: runsFrom (n + gap + span) rest

/-- The code points from `first` on, each with its form. -/
def formsFrom (first count : Nat) (form : Nat → List Nat) : List (Nat × List Nat) :=
  (List.range' first count).map fun n => (n, form n)

/-- The letters with one upper-case letter of which they are the lower case. -/
def pairRuns : List CaseRun := runsFrom 0
  [(224,22,1,-32),(2,6,1,-32),(1,0,1,121),(2,46,2,-1),(4,4,2,-1),(3,14,2,-1),(3,44,2,-1),(3,4,2,-1),(2,0,1,195),
   (3,2,2,-1),(3,0,1,-1),(4,0,1,-1),(6,0,1,-1),(3,0,1,97),(4,0,1,-1),(1,0,1,163),(4,0,1,130),(3,4,2,-1),(3,0,1,-1),
   (5,0,1,-1),(3,0,1,-1),(4,2,2,-1),(3,0,1,-1),(4,0,1,-1),(2,0,1,56),(7,0,1,-2),(3,0,1,-2),(3,0,1,-2),(2,14,2,-1),
   (1,0,1,-79),(2,16,2,-1),(4,0,1,-2),(2,0,1,-1),(4,38,2,-1),(4,16,2,-1),(9,0,1,-1),(3,1,1,10815),(2,0,1,-1),
   (5,8,2,-1),(1,0,1,10783),(1,0,1,10780),(1,0,1,10782),(1,0,1,-210),(1,0,1,-206),(2,1,1,-205),(2,0,1,-202),
   (2,0,1,-203),(1,0,1,42319),(4,0,1,-205),(1,0,1,42315),(2,0,1,-207),(2,0,1,42280),(1,0,1,42308),(2,0,1,-209),
   (1,0,1,-211),(1,0,1,42308),(1,0,1,10743),(1,0,1,42305),(3,0,1,-211),(2,0,1,10749),(1,0,1,-213),(3,0,1,-214),
   (8,0,1,10727),(3,0,1,-218),(2,0,1,42307),(1,0,1,-218),(4,0,1,42282),(1,0,1,-218),(1,0,1,-69),(1,1,1,-217),
   (1,0,1,-71),(6,0,1,-219),(11,0,1,42261),(1,0,1,42258),(211,2,2,-1),(4,0,1,-1),(4,2,1,130),(47,0,1,-38),(1,2,1,-37),
   (2,16,1,-32),(2,8,1,-32),(1,0,1,-64),(1,1,1,-63),(9,0,1,-8),(2,22,2,-1),(3,0,1,7),(1,0,1,-116),(5,0,1,-1),
   (3,0,1,-1),(53,31,1,-32),(1,15,1,-80),(2,32,2,-1),(10,52,2,-1),(3,12,2,-1),(1,0,1,-15),(2,94,2,-1),(50,37,1,-48),
   (2890,42,1,3008),(3,2,1,3008),(761,5,1,-8),(2428,0,1,35332),(4,0,1,3814),(17,0,1,35384),(115,148,2,-1),(12,94,2,-1),
   (1,7,1,8),(9,5,1,8),(11,7,1,8),(9,7,1,8),(9,5,1,8),(12,6,2,8),(9,7,1,8),(9,1,1,74),(1,3,1,86),(1,1,1,100),
   (1,1,1,128),(1,1,1,112),(1,1,1,126),(51,1,1,8),(31,1,1,8),(15,1,1,8),(4,0,1,7),(361,0,1,-28),(34,15,1,-16),
   (5,0,1,-1),(844,25,1,-26),(1863,47,1,-48),(2,0,1,-1),(4,0,1,-10795),(1,0,1,-10792),(2,4,2,-1),(7,0,1,-1),(3,0,1,-1),
   (11,98,2,-1),(9,2,2,-1),(5,0,1,-1),(13,37,1,-7264),(2,0,1,-7264),(6,0,1,-7264),(30996,44,2,-1),(20,26,2,-1),
   (136,12,2,-1),(4,60,2,-1),(11,2,2,-1),(3,8,2,-1),(5,0,1,-1),(5,2,2,-1),(1,0,1,48),(3,18,2,-1),(12,14,2,-1),
   (5,2,2,-1),(7,0,1,-1),(6,2,2,-1),(29,0,1,-1),(861,0,1,-928),(29,79,1,-38864),(21378,25,1,-32),(1230,39,1,-40),
   (137,35,1,-40),(156,10,1,-39),(2,14,1,-39),(2,6,1,-39),(2,1,1,-39),(1796,50,1,-64),(3022,31,1,-32),(21889,31,1,-32),
   (31395,33,1,-34)]

def CaseRun.reverse (r : CaseRun) : CaseRun := ⟨(r.first + r.shift).toNat, (r.last + r.shift).toNat, r.step, -r.shift⟩

def upperRuns : List CaseRun := pairRuns ++ runsFrom 0
  [(181,0,1,743),(124,0,1,-232),(78,0,1,-300),(70,0,1,-1),(3,0,1,-1),(3,0,1,-1),(39,0,1,-1),(339,0,1,84),(125,0,1,-31),
   (14,0,1,-62),(1,0,1,-57),(4,0,1,-47),(1,0,1,-54),(26,0,1,-86),(1,0,1,-80),(4,0,1,-96),(6283,0,1,-6254),
   (1,0,1,-6253),(1,0,1,-6244),(1,1,1,-6242),(1,0,1,-6243),(1,0,1,-6236),(1,0,1,-6181),(1,0,1,35266),(531,0,1,-59),
   (291,0,1,-7205)]

/-- Characters whose upper-case form has several characters. -/
def longUppers : List (Nat × List Nat) :=
  [(223,[83,83]),(329,[700,78]),(496,[74,780]),(912,[921,776,769]),(944,[933,776,769]),(1415,[1333,1362]),
   (7830,[72,817]),(7831,[84,776]),(7832,[87,778]),(7833,[89,778]),(7834,[65,702]),(8016,[933,787]),
   (8018,[933,787,768]),(8020,[933,787,769]),(8022,[933,787,834])] ++ formsFrom 8064 8 ([· - 120, 921])
    ++ formsFrom 8072 8 ([· - 128, 921]) ++ formsFrom 8080 8 ([· - 104, 921]) ++ formsFrom 8088 8 ([· - 112, 921])
    ++ formsFrom 8096 8 ([· - 56, 921]) ++ formsFrom 8104 8 ([· - 64, 921])
    ++ [(8114,[8122,921]),(8115,[913,921]),(8116,[902,921]),(8118,[913,834]),(8119,[913,834,921]),(8124,[913,921]),
   (8130,[8138,921]),(8131,[919,921]),(8132,[905,921]),(8134,[919,834]),(8135,[919,834,921]),(8140,[919,921]),
   (8146,[921,776,768]),(8147,[921,776,769]),(8150,[921,834]),(8151,[921,776,834]),(8162,[933,776,768]),
   (8163,[933,776,769]),(8164,[929,787]),(8166,[933,834]),(8167,[933,776,834]),(8178,[8186,921]),(8179,[937,921]),
   (8180,[911,921]),(8182,[937,834]),(8183,[937,834,921]),(8188,[937,921]),(64256,[70,70]),(64257,[70,73]),
   (64258,[70,76]),(64259,[70,70,73]),(64260,[70,70,76]),(64261,[83,84]),(64262,[83,84]),(64275,[1348,1350]),
   (64276,[1348,1333]),(64277,[1348,1339]),(64278,[1358,1350]),(64279,[1348,1341])]

def lowerRuns : List CaseRun := pairRuns.map CaseRun.reverse ++ runsFrom 0
  [(304,0,1,-199),(149,0,1,1),(3,0,1,1),(3,0,1,1),(39,0,1,1),(514,0,1,-60),(6826,0,1,-7615),(234,7,1,-8),(9,7,1,-8),
   (9,7,1,-8),(13,0,1,-9),(16,0,1,-9),(48,0,1,-9),(298,0,1,-7517),(4,0,1,-8383),(1,0,1,-8262)]

/-- Characters whose title-case form is not their upper-case form. -/
def titleForms : List (Nat × List Nat) :=
  [(223,[83,115]),(452,[453]),(453,[453]),(454,[453]),(455,[456]),(456,[456]),(457,[456]),(458,[459]),(459,[459]),
   (460,[459]),(497,[498]),(498,[498]),(499,[498]),(1415,[1333,1410])] ++ formsFrom 4304 43 ([·])
    ++ formsFrom 4349 3 ([·]) ++ formsFrom 8064 8 ([· + 8]) ++ formsFrom 8072 8 ([·]) ++ formsFrom 8080 8 ([· + 8])
    ++ formsFrom 8088 8 ([·]) ++ formsFrom 8096 8 ([· + 8]) ++ formsFrom 8104 8 ([·])
    ++ [(8114,[8122,837]),(8115,[8124]),(8116,[902,837]),(8119,[913,834,837]),(8124,[8124]),(8130,[8138,837]),
   (8131,[8140]),(8132,[905,837]),(8135,[919,834,837]),(8140,[8140]),(8178,[8186,837]),(8179,[8188]),(8180,[911,837]),
   (8183,[937,834,837]),(8188,[8188]),(64256,[70,102]),(64257,[70,105]),(64258,[70,108]),(64259,[70,102,105]),
   (64260,[70,102,108]),(64261,[83,116]),(64262,[83,116]),(64275,[1348,1398]),(64276,[1348,1381]),(64277,[1348,1387]),
   (64278,[1358,1398]),(64279,[1348,1389])]

/-- Lower-case letters that are equal without regard to case. -/
def kinClasses : List (List Nat) :=
  [[105,305],[115,383],[181,956],[837,953,8126],[912,8147],[944,8163],[946,976],[949,1013],[952,977],[954,1008],
   [960,982],[961,1009],[962,963],[966,981],[1074,7296],[1076,7297],[1086,7298],[1089,7299],[1090,7300,7301],
   [1098,7302],[1123,7303],[7304,42571],[7777,7835],[64261,64262]]

/-- Lower-case letters that are also equal, without regard to case, to others. -/
def caselessKin : List (Nat × List Nat) := kinClasses.flatMap fun ns => ns.map fun n => (n, ns.erase n)

def casedRanges : List (Nat × Nat) := rangesFrom 0
  [170,0,11,0,5,0,6,22,2,30,2,194,2,3,5,207,2,26,193,3,3,1,4,2,2,0,7,0,2,2,2,0,2,19,2,82,2,138,9,165,2,37,10,40,2840,
   37,2,0,6,0,3,42,3,2,673,85,3,5,2179,8,8,42,3,2,65,43,64,12,2,33,102,277,3,5,3,37,3,5,3,7,2,0,2,0,2,0,2,30,3,52,2,6,
   2,0,4,2,2,6,4,3,3,5,5,12,6,2,2,6,262,0,5,0,3,9,2,0,4,4,7,0,2,0,2,0,2,3,2,5,5,0,3,3,6,4,5,0,18,31,4,1,818,51,1815,
   123,3,102,7,3,4,1,13,37,2,0,6,0,30995,45,19,27,135,77,2,22,4,3,2,58,6,1,2,0,2,4,28,1,4,0,822,42,6,8,8,79,20289,6,
   13,4,1034,25,7,25,1190,79,97,35,5,35,117,10,2,14,2,6,2,1,2,10,2,14,2,6,2,1,1732,50,14,50,2990,63,21857,63,25985,84,
   2,70,2,1,3,0,3,1,3,3,2,11,2,0,2,6,2,64,2,3,3,7,2,6,2,27,2,3,2,4,2,0,4,6,2,339,3,24,2,24,2,30,2,24,2,30,2,24,2,30,2,
   24,2,30,2,24,2,7,1845,9,2,19,2530,67,2029,25,7,25,7,25]

def passedOverRanges : List (Nat × Nat) := rangesFrom 0
  [168,0,5,0,2,0,5,0,3,1,504,191,5,1,5,0,10,1,2,0,252,6,208,0,6,0,50,44,2,0,2,1,2,1,2,0,45,0,12,5,11,10,2,0,36,0,11,
   20,17,0,102,7,2,9,2,3,34,0,2,0,31,26,92,10,59,10,5,0,3,0,25,23,44,2,45,0,8,1,7,7,42,57,56,0,2,0,5,7,5,0,4,6,11,1,
   14,0,16,0,59,0,5,3,9,0,21,1,27,0,3,1,58,0,5,1,5,1,3,2,4,0,31,1,4,0,12,1,58,0,5,4,2,1,5,0,21,1,23,5,2,0,59,0,3,0,2,
   3,9,0,8,1,12,1,31,0,62,0,13,0,51,0,4,0,56,0,2,2,6,2,2,3,8,1,12,1,30,0,59,0,3,0,7,0,6,1,21,1,29,1,58,1,5,3,9,0,21,1,
   30,0,73,0,8,2,2,0,91,0,3,6,12,8,99,0,3,8,10,0,2,5,75,1,28,0,2,0,2,0,56,13,2,4,2,1,6,10,2,35,10,0,103,3,2,5,2,1,3,1,
   26,1,5,2,17,3,14,0,3,1,7,0,16,0,95,0,609,2,947,2,30,1,31,1,31,1,65,1,2,6,9,0,3,10,4,0,6,0,46,4,52,0,66,1,35,0,119,
   2,5,1,10,0,7,2,220,1,3,0,59,0,2,6,2,0,2,0,3,7,7,9,3,0,40,0,9,30,50,3,49,0,2,4,2,0,6,0,41,8,13,1,33,3,3,1,2,2,57,0,
   2,1,4,0,2,2,59,7,3,1,65,5,83,2,2,12,2,6,5,0,7,0,4,1,51,62,14,0,35,100,446,0,2,2,12,2,14,2,14,2,14,1,13,4,9,1,11,0,
   3,0,3,4,50,4,2,9,2,0,14,0,17,12,52,32,2956,1,114,2,126,0,16,0,97,31,48,0,470,0,37,3,4,4,6,0,94,5,94,2,28439,0,1251,
   5,271,0,99,3,2,9,2,0,29,3,81,1,15,33,79,0,24,2,104,2,4,1,9,0,4,0,5,0,26,1,6,0,152,1,27,17,14,0,39,7,26,10,47,2,49,
   0,3,3,3,1,18,0,22,1,67,5,3,1,3,1,13,0,9,0,36,0,12,0,52,0,2,2,3,1,6,1,2,0,28,0,15,1,6,1,2,0,101,4,10,2,122,0,3,0,5,
   0,20273,0,148,16,574,15,4,0,13,15,35,0,3,0,170,0,8,0,7,0,12,0,36,0,2,0,48,0,46,1,68,0,22,2,514,0,227,0,150,4,1030,
   5,2,41,2,8,583,2,2,1,6,3,41,2,5,0,166,1,574,3,388,1,154,10,50,3,124,0,55,14,42,0,3,1,11,2,50,3,3,1,3,0,5,0,11,0,51,
   2,37,4,2,7,63,0,13,1,53,8,11,3,3,0,96,2,3,0,2,1,7,0,161,0,4,7,22,1,58,1,4,0,38,6,4,4,196,7,3,2,2,0,24,0,85,5,2,0,5,
   1,2,1,239,3,7,1,2,1,28,1,86,7,3,0,2,1,107,0,2,0,3,5,2,0,102,2,3,3,2,4,260,8,2,1,257,1,2,0,5,0,145,3,3,1,5,0,33,9,
   41,5,3,3,9,0,10,5,3,2,47,12,2,1,407,6,2,5,2,0,83,21,3,6,2,1,2,1,123,5,4,0,2,1,2,6,2,0,73,1,4,0,2,0,348,1,5436,8,
   14008,4,60,6,10,3,1036,0,64,16,65,1,2,1,16396,3,2,6,2,1,3231,1,2,3,4701,45,3,22,545,2,10,15,3,6,31,3,149,2,1980,54,
   5,49,9,0,15,0,23,4,2,14,1361,6,2,16,3,6,2,1,2,4,262,13,369,0,62,3,1505,6,110,7,2736,4,789506,0,31,95,129,239]

end MappingFlow.Text
