import MyKvRaft.Hnsw.Space
import MyKvRaft.KvServer.IndexFile

/-!
# The graph of the index

`HnswGraph` is `HierarchicalNSW` with its graph: over the labelled store of
`KvServer/RecallEngine.lean` the link lists of every slot, one for each level up to the
slot's own, and the slot at the highest level, where searches start. The functions are those of
`third_party/hnswlib/hnswalg.h` that search the graph and change it. Locks are left out:
`RecallEngine` lets one call at a time reach its index.
-/

namespace MyKvRaft

variable {P : Libs} (S : Space)

/-- `HierarchicalNSW`. `entry` is `enterpoint_node_` with `maxlevel_`, and `none` while both are
    -1; `element_levels_` is read off the link lists. -/
structure HnswGraph (P : Libs) where
  store : HierarchicalNSW P
  numDeleted : ℕ
  m : ℕ
  efConstruction : ℕ
  ef : ℕ
  linkLists : List (List LinkList)
  entry : Option (ℕ × ℕ)

namespace HnswGraph

/-- The constructor (lines 89–144). -/
def create (P : Libs) (maxElements m efConstruction : ℕ) (allowReplaceDeleted : Bool) :
    HnswGraph P where
  store := HierarchicalNSW.create P maxElements allowReplaceDeleted
  numDeleted := 0
  m := min m 10000
  efConstruction := max efConstruction (min m 10000)
  ef := 10
  linkLists := []
  entry := none

variable (g : HnswGraph P)

def curElementCount : ℕ := g.store.curElementCount

/-- `maxM_` and `maxM0_`: how many neighbours a list has room for. -/
def cap (level : ℕ) : ℕ := if level = 0 then g.m * 2 else g.m

/-- `element_levels_`. -/
def elementLevel (id : ℕ) : ℕ := ((g.linkLists[id]?).map (·.length - 1)).getD 0

def getExternalLabel (id : ℕ) : UInt64 := ((g.store.elements[id]?).map (·.label)).getD 0

def getDataByInternalId (id : ℕ) : List UInt32 := ((g.store.elements[id]?).map (·.data)).getD []

def isMarkedDeleted (id : ℕ) : Bool := g.store.isMarkedDeleted id

def linkList? (id level : ℕ) : Option LinkList := g.linkLists[id]?.bind (·[level]?)

/-- `get_linklist_at_level`: the memory of a slot ends at its own level. -/
def getLinkList (id level : ℕ) : Except Fault LinkList :=
  match g.linkList? id level with
  | none => .error .outOfBounds
  | some l => .ok l

def setLinkList (id level : ℕ) (l : LinkList) : HnswGraph P :=
  { g with linkLists := g.linkLists.modify id (·.set level l) }

/-- `getConnectionsWithLock`. -/
def getConnections (id level : ℕ) : Except Fault (List ℕ) := (g.getLinkList id level).map (·.links)

/-- The distance between two slots. -/
def distBetween (id id' : ℕ) : S.Dist :=
  S.distFunc (g.getDataByInternalId id) (g.getDataByInternalId id')

/-- The distance of a slot to a vector. -/
def distTo (data : List UInt32) (id : ℕ) : S.Dist := S.distFunc data (g.getDataByInternalId id)

/-! ## Searching one layer -/

/-- What `searchBaseLayer` runs on. -/
def baseLayer (data : List UInt32) (layer : ℕ) : BestFirst ℕ S.Dist Fault where
  lt := S.lt
  limit := S.limit
  farthest := S.topCandidates
  nearest := S.candidateSet
  links id := g.getConnections id layer
  dist := g.distTo S data
  kept id := !g.isMarkedDeleted id
  ef := g.efConstruction
  trim q := if q.length > g.efConstruction then S.topCandidates.pop q else q
  stopsEarly := false
  tooLong := .endless
  trim_eq q hq := by
    unfold PriorityQueue.shrink
    split_ifs with hlen
    · rw [show q.length - g.efConstruction = 1 by omega]
      rfl
    · rw [Nat.sub_eq_zero_of_le (by omega)]
      rfl

/-- `searchBaseLayer` (lines 225–305). -/
def searchBaseLayer (epId : ℕ) (data : List UInt32) (layer : ℕ) :
    Except Fault (List (S.Dist × ℕ)) :=
  (g.baseLayer S data layer).search (g.curElementCount + 1) epId

/-- What `searchBaseLayerST` runs on, without a stop condition. -/
def baseLayerST (bareBone : Bool) (data : List UInt32) (ef : ℕ)
    (isIdAllowed : Option (UInt64 → Bool)) : BestFirst ℕ S.Dist Fault where
  lt := S.lt
  limit := S.limit
  farthest := S.topCandidates
  nearest := S.candidateSet
  links id := g.getConnections id 0
  dist := g.distTo S data
  kept id := bareBone || (!g.isMarkedDeleted id && isIdAllowed.all fun f => f (g.getExternalLabel id))
  ef := ef
  trim q := S.topCandidates.shrink ef q
  stopsEarly := bareBone
  tooLong := .endless
  trim_eq _ _ := rfl

/-- `searchBaseLayerST` (lines 308–440). -/
def searchBaseLayerST (bareBone : Bool) (epId : ℕ) (data : List UInt32) (ef : ℕ)
    (isIdAllowed : Option (UInt64 → Bool)) : Except Fault (List (S.Dist × ℕ)) :=
  (g.baseLayerST S bareBone data ef isIdAllowed).search (g.curElementCount + 1) epId

/-- What the descent through a layer above the base runs on. `updatePoint` does not check the
    neighbours. -/
def upperLayer (checked : Bool) (data : List UInt32) (layer : ℕ) : Greedy ℕ S.Dist Fault where
  lt := S.lt
  links id :=
    match g.getConnections id layer with
    | .error f => .error f
    | .ok ids => if checked && ids.any (· > g.store.maxElements) then .error .candError else .ok ids
  dist := g.distTo S data
  tooLong := .endless
  irrefl := S.lt_irrefl
  trans := S.lt_trans

/-- The descent (lines 1214–1238, 1082–1106 and 1279–1303) from `hi` to the level above `lo`. -/
def descend (checked : Bool) (data : List UInt32) (epId hi lo : ℕ) : Except Fault ℕ :=
  (Except.forDown (fun s layer =>
    (g.upperLayer S checked data layer).descend (g.curElementCount + 1) s.1 s.2) (lo + 1) (hi - lo)
    (epId, g.distTo S data epId)).map (·.1)

/-! ## Choosing and connecting neighbours -/

/-- No chosen neighbour is nearer to it than the query. -/
def good (chosen : List (S.Dist × ℕ)) (p : S.Dist × ℕ) : Bool :=
  chosen.all fun s => !S.lt (g.distBetween S s.2 p.2) p.1

/-- The loop over `queue_closest` (lines 457–480). -/
def chooseClosest (limit : ℕ) : List (S.Dist × ℕ) → List (S.Dist × ℕ) → List (S.Dist × ℕ)
  | chosen, [] => chosen
  | chosen, p :: closest =>
    if chosen.length ≥ limit then chosen
    else if g.good S chosen p then chooseClosest limit (chosen ++ [p]) closest
    else chooseClosest limit chosen closest

/-- `getNeighborsByHeuristic2` (lines 443–483). -/
def getNeighborsByHeuristic2 (candidates : List (S.Dist × ℕ)) (limit : ℕ) : List (S.Dist × ℕ) :=
  if candidates.length < limit then candidates
  else
    let closest := S.queueClosest.ofElements (S.topCandidates.toList candidates)
    S.topCandidates.ofElements (g.chooseClosest S limit [] (S.queueClosest.toList closest))

/-- The slots in the order in which they come off a queue. -/
def popAll (candidates : List (S.Dist × ℕ)) : List ℕ := (S.topCandidates.toList candidates).map (·.2)

/-- The loop that writes the list of the element itself (lines 544–551). -/
def writeLinks (level : ℕ) (isUpdate : Bool) : ℕ → List ℕ → List ℕ → Except Fault (List ℕ)
  | _, [], data => .ok data
  | idx, id :: selected, data =>
    match data[idx]? with
    | none => .error .outOfBounds
    | some old =>
      if old ≠ 0 ∧ isUpdate = false then .error .memoryCorruption
      else if level > g.elementLevel id then .error .nonExistentLevel
      else writeLinks level isUpdate (idx + 1) selected (data.set idx id)

/-- The body of the loop over the selected neighbours (lines 555–626). -/
def connectBack (curC level : ℕ) (isUpdate : Bool) (g : HnswGraph P) (id : ℕ) :
    Except Fault (HnswGraph P) := do
  let other ← g.getLinkList id level
  if other.count > g.cap level then .error .badCount
  else if id = curC then .error .selfLink
  else if level > g.elementLevel id then .error .nonExistentLevel
  else if isUpdate ∧ curC ∈ other.links then .ok g
  else if other.count < g.cap level then do
    let other ← other.push curC
    .ok (g.setLinkList id level other)
  else do
    let candidates := (curC :: other.links).foldl (fun q c =>
      S.topCandidates.emplace q (g.distBetween S c id, c)) []
    let other ← other.fill (popAll S (g.getNeighborsByHeuristic2 S candidates (g.cap level)))
    .ok (g.setLinkList id level other)

/-- A deleted entry point is a candidate as well (lines 1248–1252 and 1130–1134). -/
def addDeletedEntry (data : List UInt32) (enterpoint : ℕ) (candidates : List (S.Dist × ℕ)) :
    List (S.Dist × ℕ) :=
  if g.isMarkedDeleted enterpoint then
    let q := S.topCandidates.emplace candidates (g.distTo S data enterpoint, enterpoint)
    if q.length > g.efConstruction then S.topCandidates.pop q else q
  else candidates

/-- `mutuallyConnectNewElement` (lines 506–630). -/
def mutuallyConnectNewElement (curC : ℕ) (candidates : List (S.Dist × ℕ)) (level : ℕ)
    (isUpdate : Bool) : Except Fault (HnswGraph P × ℕ) :=
  let candidates := g.getNeighborsByHeuristic2 S candidates g.m
  if candidates.length > g.m then .error .tooManySelected
  else
    let selected := popAll S candidates
    match selected.getLast? with
    | none => .error .emptyBack
    | some next => do
      let own ← g.getLinkList curC level
      if (own.count ≠ 0 ∨ (level = 0 ∧ g.isMarkedDeleted curC)) ∧ isUpdate = false then
        .error .notBlank
      else do
        let data ← g.writeLinks level isUpdate 0 selected own.data
        let g' := g.setLinkList curC level ({ own with data := data }.setListCount selected.length)
        let g' ← selected.foldlM (connectBack S curC level isUpdate) g'
        .ok (g', next)

/-! ## Updating a slot -/

/-- A candidate for the neighbours of a slot (lines 1043–1051). -/
def keepNearest (elementsToKeep : ℕ) (candidates : List (S.Dist × ℕ)) (p : S.Dist × ℕ) :
    Except Fault (List (S.Dist × ℕ)) :=
  if candidates.length < elementsToKeep then .ok (S.topCandidates.emplace candidates p)
  else
    match S.topCandidates.top candidates with
    | none => .error .emptyTop
    | some t =>
      if S.lt p.1 t.1 then .ok (S.topCandidates.emplace (S.topCandidates.pop candidates) p)
      else .ok candidates

/-- The neighbours of one slot are chosen anew (lines 1032–1066). -/
def relink (layer : ℕ) (sCand : List ℕ) (g : HnswGraph P) (neigh : ℕ) :
    Except Fault (HnswGraph P) := do
  let size := if neigh ∈ sCand then sCand.length - 1 else sCand.length
  let candidates ← ((sCand.filter (· ≠ neigh)).map fun c => (g.distBetween S neigh c, c)).foldlM
    (keepNearest S (min g.efConstruction size)) []
  let candidates := g.getNeighborsByHeuristic2 S candidates (g.cap layer)
  let own ← g.getLinkList neigh layer
  let own ← own.fill (popAll S candidates)
  .ok (g.setLinkList neigh layer own)

/-- One layer of `updatePoint` (lines 1007–1067). The probability with which a neighbour is updated
    is always 1. -/
def relinkLayer (internalId : ℕ) (g : HnswGraph P) (layer : ℕ) : Except Fault (HnswGraph P) := do
  let listOneHop ← g.getConnections internalId layer
  if listOneHop = [] then .ok g
  else do
    let hops ← listOneHop.mapM fun id => (g.getConnections id layer).map (id :: ·)
    let sCand := S.iterate (internalId :: hops.flatten)
    (S.iterate listOneHop).foldlM (relink S layer sCand) g

/-- One level of `repairConnectionsForUpdate` (lines 1114–1137), with `currObj`. -/
def repairLevel (data : List UInt32) (entryPoint internalId : ℕ) (s : HnswGraph P × ℕ)
    (level : ℕ) : Except Fault (HnswGraph P × ℕ) := do
  let topCandidates ← s.1.searchBaseLayer S s.2 data level
  let filtered := S.topCandidates.ofElements
    ((S.topCandidates.toList topCandidates).filter (·.2 ≠ internalId))
  if filtered = [] then .ok s
  else
    s.1.mutuallyConnectNewElement S internalId (s.1.addDeletedEntry S data entryPoint filtered)
      level true

/-- `repairConnectionsForUpdate` (lines 1074–1139). -/
def repairConnectionsForUpdate (data : List UInt32) (entryPoint internalId dataPointLevel
    maxLevel : ℕ) : Except Fault (HnswGraph P) := do
  let currObj ← (if dataPointLevel < maxLevel then
    g.descend S false data entryPoint maxLevel dataPointLevel else .ok entryPoint)
  if dataPointLevel > maxLevel then .error .levelAboveMax
  else
    (Except.forDown (repairLevel S data entryPoint internalId) 0 (dataPointLevel + 1)
      (g, currObj)).map (·.1)

/-- `updatePoint` (lines 995–1071). -/
def updatePoint (data : List UInt32) (internalId : ℕ) : Except Fault (HnswGraph P) :=
  let g := { g with store := g.store.updatePoint data internalId }
  match g.entry with
  | none => .error .outOfBounds
  | some (entryPoint, maxLevel) =>
    if entryPoint = internalId ∧ g.curElementCount = 1 then .ok g
    else do
      let g' ← (List.range (g.elementLevel internalId + 1)).foldlM (relinkLayer S internalId) g
      g'.repairConnectionsForUpdate S data entryPoint internalId (g.elementLevel internalId) maxLevel

/-! ## Adding and marking -/

/-- `markDeletedInternal` (lines 873–886). -/
def markDeletedInternal (id : ℕ) : Except Fault (HnswGraph P) :=
  match g.store.markDeletedInternal id with
  | none => .error .alreadyDeleted
  | some store => .ok { g with store := store, numDeleted := g.numDeleted + 1 }

/-- `markDelete` (lines 853–866). -/
def markDelete (label : UInt64) : Except Fault (HnswGraph P) :=
  match g.store.labelLookup label with
  | none => .error .labelNotFound
  | some id => g.markDeletedInternal id

/-- `unmarkDeletedInternal` (lines 915–928). -/
def unmarkDeletedInternal (id : ℕ) : Except Fault (HnswGraph P) :=
  match g.store.unmarkDeletedInternal id with
  | none => .error .notDeleted
  | some store => .ok { g with store := store, numDeleted := g.numDeleted - 1 }

/-- `unmarkDelete` (lines 895–908). -/
def unmarkDelete (label : UInt64) : Except Fault (HnswGraph P) :=
  match g.store.labelLookup label with
  | none => .error .labelNotFound
  | some id => g.unmarkDeletedInternal id

/-- One level of the new element (lines 1242–1254), with `currObj`. -/
def connectLevel (data : List UInt32) (curC enterpoint maxlevelcopy : ℕ) (s : HnswGraph P × ℕ)
    (level : ℕ) : Except Fault (HnswGraph P × ℕ) :=
  if level > maxlevelcopy then .error .levelError
  else do
    let topCandidates ← s.1.searchBaseLayer S s.2 data level
    s.1.mutuallyConnectNewElement S curC (s.1.addDeletedEntry S data enterpoint topCandidates) level
      false

/-- The graph with a new slot, whose link lists are zeroed (lines 1181–1183 and 1199–1211). -/
def extend (data : List UInt32) (label : UInt64) (curlevel : ℕ) : HnswGraph P :=
  { g with
    store := g.store.append data label
    linkLists := g.linkLists ++ [(List.range (curlevel + 1)).map fun level =>
      LinkList.blank (g.cap level)] }

/-- `addPoint` with a label that is new (lines 1178–1267); `curlevel` has been drawn by
    `getRandomLevel`. -/
def insertPoint (data : List UInt32) (label : UInt64) (curlevel : ℕ) :
    Except Fault (HnswGraph P) :=
  let curC := g.curElementCount
  let g' := g.extend data label curlevel
  match g.entry with
  | none => .ok { g' with entry := some (curC, curlevel) }
  | some (enterpoint, maxlevelcopy) => do
    let currObj ← (if curlevel < maxlevelcopy then
      g'.descend S true data enterpoint maxlevelcopy curlevel else .ok enterpoint)
    let s ← Except.forDown (connectLevel S data curC enterpoint maxlevelcopy) 0
      (min curlevel maxlevelcopy + 1) (g', currObj)
    .ok (if curlevel > maxlevelcopy then { s.1 with entry := some (curC, curlevel) } else s.1)

/-- `addPoint(data_point, label, level)` (lines 1153–1268). -/
def addPointAtLevel (data : List UInt32) (label : UInt64) (curlevel : ℕ) :
    Except Fault (HnswGraph P) :=
  match g.store.labelLookup label with
  | some existing =>
    if g.store.allowReplaceDeleted ∧ g.isMarkedDeleted existing then .error .updatesDeleted
    else do
      let g ← (if g.isMarkedDeleted existing then g.unmarkDeletedInternal existing else .ok g)
      g.updatePoint S data existing
  | none =>
    if g.curElementCount ≥ g.store.maxElements then .error .tooManyElements
    else g.insertPoint S data label curlevel

/-- `addPoint(data_point, label, replace_deleted)` (lines 954–992). -/
def addPoint (data : List UInt32) (label : UInt64) (replaceDeleted : Bool) (curlevel : ℕ) :
    Except Fault (HnswGraph P) :=
  if g.store.allowReplaceDeleted = false ∧ replaceDeleted then .error .replacementDisabled
  else if replaceDeleted = false then g.addPointAtLevel S data label curlevel
  else
    match P.first g.store.deletedElements with
    | none => g.addPointAtLevel S data label curlevel
    | some replaced => do
      let store := { g.store with
        deletedElements := P.erase g.store.deletedElements replaced }.setExternalLabel replaced label
      let store := { store with
        labelLookup := Function.update (Function.update store.labelLookup
          (g.getExternalLabel replaced) none) label (some replaced) }
      let g ← { g with store := store }.unmarkDeletedInternal replaced
      g.updatePoint S data replaced

/-- `resizeIndex` (lines 633–656). -/
def resizeIndex (newMaxElements : ℕ) : Except Fault (HnswGraph P) :=
  if newMaxElements < g.curElementCount then .error .resizeTooSmall
  else .ok { g with store := { g.store with maxElements := newMaxElements } }

/-- `saveIndex`, and the constructor that reads the file into a new index (lines 78–86 and
    685–822). -/
def reload (maxElementsI : ℕ) (allowReplaceDeleted : Bool) : HnswGraph P :=
  { g with
    store := HierarchicalNSW.ofFile P g.store.saveIndex maxElementsI allowReplaceDeleted
    numDeleted := g.store.elements.countP (·.deleted)
    ef := 10 }

/-! ## Searching the index -/

/-- `searchKnn` (lines 1270–1324), once it has been decided whether marks and filter matter. -/
def searchKnnBy (bareBone : Bool) (query : List UInt32) (k : ℕ)
    (isIdAllowed : Option (UInt64 → Bool)) : Except Fault (List (S.Dist × UInt64)) :=
  if g.curElementCount = 0 then .ok []
  else
    match g.entry with
    | none => .error .outOfBounds
    | some (enterpoint, maxlevel) => do
      let currObj ← g.descend S true query enterpoint maxlevel 0
      let topCandidates ← g.searchBaseLayerST S bareBone currObj query (max g.ef k) isIdAllowed
      let topCandidates := S.topCandidates.shrink k topCandidates
      .ok (S.result.ofElements ((S.topCandidates.toList topCandidates).map fun rez =>
        (rez.1, g.getExternalLabel rez.2)))

/-- `searchKnn`: as long as nothing is marked and there is no filter, it does without both. -/
def searchKnn (query : List UInt32) (k : ℕ) (isIdAllowed : Option (UInt64 → Bool)) :
    Except Fault (List (S.Dist × UInt64)) :=
  g.searchKnnBy S (decide (g.numDeleted = 0) && isIdAllowed.isNone) query k isIdAllowed

/-- `searchKnnCloserFirst` (`hnswlib.h`, lines 203–221): the queue from the back. -/
def searchKnnCloserFirst (query : List UInt32) (k : ℕ) (isIdAllowed : Option (UInt64 → Bool)) :
    Except Fault (List (S.Dist × UInt64)) :=
  (g.searchKnn S query k isIdAllowed).map fun ret => (S.result.toList ret).reverse

end HnswGraph

end MyKvRaft
