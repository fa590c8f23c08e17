import PersistentPointsTo.PTData

namespace PersistentPointsTo

/-- A `PointsToID &` the data-flow store hands to `unionPtsThroughIds`: the entry of a
top-level key, or the entry of a key in a location's IN or OUT map. -/
inductive Slot (Key LocID : Type)
  | top (var : Key)
  | dfIn (loc : LocID) (var : Key)
  | dfOut (loc : LocID) (var : Key)
  deriving DecidableEq

/-- Whether a slot is an entry of an IN or OUT map rather than a top-level key. -/
def Slot.isDF {Key LocID : Type} : Slot Key LocID → Bool
  | .top _ => false
  | _ => true

@[simp] theorem Slot.isDF_top {Key LocID : Type} (k : Key) :
    (Slot.top k : Slot Key LocID).isDF = false := rfl

@[simp] theorem Slot.isDF_dfIn {Key LocID : Type} (l : LocID) (k : Key) :
    (Slot.dfIn l k : Slot Key LocID).isDF = true := rfl

@[simp] theorem Slot.isDF_dfOut {Key LocID : Type} (l : LocID) (k : Key) :
    (Slot.dfOut l k : Slot Key LocID).isDF = true := rfl

@[simp] theorem Slot.eq_top_and_isDF {Key LocID : Type} {y : Slot Key LocID} {k : Key} {R : Prop} :
    (y = .top k ∧ y.isDF = true ∧ R) ↔ False := by
  simp only [iff_false, not_and]; rintro rfl; simp

@[simp] theorem Slot.eq_dfIn_and_isDF {Key LocID : Type} {y : Slot Key LocID} {l : LocID} {k : Key}
    {R : Prop} : (y = .dfIn l k ∧ y.isDF = true ∧ R) ↔ (y = .dfIn l k ∧ R) := by
  constructor <;> rintro ⟨rfl, h⟩ <;> simp_all

@[simp] theorem Slot.eq_dfOut_and_isDF {Key LocID : Type} {y : Slot Key LocID} {l : LocID}
    {k : Key} {R : Prop} : (y = .dfOut l k ∧ y.isDF = true ∧ R) ↔ (y = .dfOut l k ∧ R) := by
  constructor <;> rintro ⟨rfl, h⟩ <;> simp_all

/-- The sets after `OUT[loc][k] ∪= IN[loc][k]` for every key `k` that `p` selects: what
`updateAllDFOutFromIn` is for. -/
def Slot.joinInToOut {Key LocID Data : Type} [DecidableEq LocID] [DecidableEq Data]
    (σ : Slot Key LocID → Finset Data) (loc : LocID) (p : Key → Prop) [DecidablePred p] :
    Slot Key LocID → Finset Data
  | .dfOut l k => if l = loc ∧ p k then σ (.dfOut l k) ∪ σ (.dfIn l k) else σ (.dfOut l k)
  | y => σ y

theorem Slot.joinInToOut_congr {Key LocID Data : Type} [DecidableEq LocID] [DecidableEq Data]
    (σ : Slot Key LocID → Finset Data) (loc : LocID) {p q : Key → Prop} [DecidablePred p]
    [DecidablePred q] (h : ∀ k, p k ↔ q k) : joinInToOut σ loc p = joinInToOut σ loc q := by
  funext y
  cases y <;> simp [joinInToOut, h]

@[simp] theorem Slot.joinInToOut_false {Key LocID Data : Type} [DecidableEq LocID]
    [DecidableEq Data] (σ : Slot Key LocID → Finset Data) (loc : LocID) :
    joinInToOut σ loc (fun _ => False) = σ := by
  funext y
  cases y <;> simp [joinInToOut]

theorem Slot.subset_joinInToOut {Key LocID Data : Type} [DecidableEq LocID] [DecidableEq Data]
    (σ : Slot Key LocID → Finset Data) (loc : LocID) (p : Key → Prop) [DecidablePred p]
    (y : Slot Key LocID) : σ y ⊆ joinInToOut σ loc p y := by
  cases y with
  | dfOut l k => simp only [joinInToOut]; split_ifs <;> simp
  | _ => exact Finset.Subset.refl _

@[simp] theorem Slot.joinInToOut_dfIn {Key LocID Data : Type} [DecidableEq LocID] [DecidableEq Data]
    (σ : Slot Key LocID → Finset Data) (loc : LocID) (p : Key → Prop) [DecidablePred p] (l : LocID)
    (k : Key) : joinInToOut σ loc p (.dfIn l k) = σ (.dfIn l k) := rfl

theorem Slot.joinInToOut_dfOut_of_sel {Key LocID Data : Type} [DecidableEq LocID]
    [DecidableEq Data] (σ : Slot Key LocID → Finset Data) (loc : LocID) (p : Key → Prop)
    [DecidablePred p] {k : Key} (hk : p k) :
    joinInToOut σ loc p (.dfOut loc k) = σ (.dfOut loc k) ∪ σ (.dfIn loc k) := by
  simp [joinInToOut, hk]

/-- A bulk join moves exactly the selected OUT sets that missed part of their IN set. -/
theorem Slot.joinInToOut_dfOut_ne_iff {Key LocID Data : Type} [DecidableEq LocID] [DecidableEq Data]
    (σ : Slot Key LocID → Finset Data) (loc : LocID) (p : Key → Prop) [DecidablePred p] (k : Key) :
    joinInToOut σ loc p (.dfOut loc k) ≠ σ (.dfOut loc k) ↔ p k ∧ ¬ σ (.dfIn loc k) ⊆ σ (.dfOut loc k) := by
  simp only [joinInToOut, true_and]
  split_ifs with hp <;> simp [hp, Finset.union_eq_left]

/-- Two bulk joins at one location are one join over either selection. -/
theorem Slot.joinInToOut_joinInToOut {Key LocID Data : Type} [DecidableEq LocID]
    [DecidableEq Data] (σ : Slot Key LocID → Finset Data) (loc : LocID) (p q : Key → Prop)
    [DecidablePred p] [DecidablePred q] :
    joinInToOut (joinInToOut σ loc p) loc q = joinInToOut σ loc (fun k => p k ∨ q k) := by
  funext y
  cases y with
  | dfOut l k =>
    simp only [joinInToOut]
    by_cases hl : l = loc <;> by_cases hp : p k <;> by_cases hq : q k <;>
      simp [hl, hp, hq, Finset.union_assoc]
  | _ => rfl

/-- One iteration of the loop of `updateAllDFOutFromIn`, given the store's own
`updateDFOutFromIn(loc, var, loc, var)` (a virtual call in the source). -/
def allDFOutFromInStep {Key S : Type} [DecidableEq Key] (updateDFOutFromIn : S → Key → Bool × S)
    (singleton : Key) (strongUpdates : Bool) (acc : Bool × S) (var : Key) : Bool × S :=
  -- strong updates: the singleton's OUT set is not joined with its IN set
  if strongUpdates && var == singleton then acc
  else
    let r := updateDFOutFromIn acc.2 var
    (acc.1 || r.1, r.2)

/-- `PersistentDFPTData`: the top-level points-to sets in `persPTData` and, per location,
the IDs of the address-taken keys in its IN and OUT sets. -/
structure PersistentDFPTData (Key Data ID LocID : Type) where
  persPTData : PersistentPTData Key Data ID
  dfInPtsMap : Map LocID (Map Key ID)
  dfOutPtsMap : Map LocID (Map Key ID)

/-- The data-flow transfer calls the solver issues. -/
inductive DFTransfer (Key LocID : Type)
  | updateDFInFromIn (srcLoc : LocID) (srcVar : Key) (dstLoc : LocID) (dstVar : Key)
  | updateAllDFInFromIn (srcLoc : LocID) (srcVar : Key) (dstLoc : LocID) (dstVar : Key)
  | updateDFInFromOut (srcLoc : LocID) (srcVar : Key) (dstLoc : LocID) (dstVar : Key)
  | updateAllDFInFromOut (srcLoc : LocID) (srcVar : Key) (dstLoc : LocID) (dstVar : Key)
  | updateDFOutFromIn (srcLoc : LocID) (srcVar : Key) (dstLoc : LocID) (dstVar : Key)
  | updateAllDFOutFromIn (loc : LocID) (singleton : Key) (strongUpdates : Bool)
  | clearAllDFOutUpdatedVar (loc : LocID)
  | updateTLVPts (srcLoc : LocID) (srcVar dstVar : Key)
  | updateATVPts (srcVar : Key) (dstLoc : LocID) (dstVar : Key)

namespace DFTransfer

variable {Key LocID : Type}

/-- The slot a single-destination transfer writes and the slot it reads. -/
def route : DFTransfer Key LocID → Option (Slot Key LocID × Slot Key LocID)
  | .updateDFInFromIn sL sK dL dK => some (.dfIn dL dK, .dfIn sL sK)
  | .updateAllDFInFromIn sL sK dL dK => some (.dfIn dL dK, .dfIn sL sK)
  | .updateDFInFromOut sL sK dL dK => some (.dfIn dL dK, .dfOut sL sK)
  | .updateAllDFInFromOut sL sK dL dK => some (.dfIn dL dK, .dfOut sL sK)
  | .updateDFOutFromIn sL sK dL dK => some (.dfOut dL dK, .dfIn sL sK)
  | .updateAllDFOutFromIn _ _ _ => none
  | .clearAllDFOutUpdatedVar _ => none
  | .updateTLVPts sL sK dK => some (.top dK, .dfIn sL sK)
  | .updateATVPts sK dL dK => some (.dfOut dL dK, .top sK)

/-- What a transfer asks of the sets `σ` once it has run: each destination holds its source. -/
def Closed {Data : Type} (σ : Slot Key LocID → Finset Data) : DFTransfer Key LocID → Prop
  | .updateAllDFOutFromIn loc v su =>
    ∀ k, ¬(su = true ∧ k = v) → σ (.dfIn loc k) ⊆ σ (.dfOut loc k)
  | .clearAllDFOutUpdatedVar _ => True
  | t => ∀ dst src, t.route = some (dst, src) → σ src ⊆ σ dst

end DFTransfer

/-- The calls of a data-flow store. -/
inductive DFPTDataOp (Key Data LocID : Type)
  | base (op : PTDataOp Key Data)
  | getDFInPtsSet (loc : LocID) (var : Key)
  | getDFOutPtsSet (loc : LocID) (var : Key)
  | transfer (t : DFTransfer Key LocID)

namespace PersistentDFPTData

variable {Key Data ID LocID : Type} [DecidableEq Key] [LinearOrder Data] [DecidableEq ID]
  [DecidableEq LocID]
variable (c : PersistentPointsToCache ID Data)

def init (reversePT : Bool) : PersistentDFPTData Key Data ID LocID :=
  ⟨PersistentPTData.init reversePT, ∅, ∅⟩

/-- The ID a slot holds. -/
def idAt (s : PersistentDFPTData Key Data ID LocID) : Slot Key LocID → ID
  | .top var => s.persPTData.ptsId c var
  | .dfIn loc var => valueAt (valueAt s.dfInPtsMap loc ∅) var c.emptyPointsToId
  | .dfOut loc var => valueAt (valueAt s.dfOutPtsMap loc ∅) var c.emptyPointsToId

/-- The points-to set a slot names. -/
def ptsAt (s : PersistentDFPTData Key Data ID LocID) (x : Slot Key LocID) : Finset Data :=
  c.getActualPts (s.idAt c x)

/-- The store once a slot's reference is taken: `ptsMap[var]`, `getDFInPtIdRef` and
`getDFOutPtIdRef` insert the entries that are missing. -/
def touchSlot (s : PersistentDFPTData Key Data ID LocID) :
    Slot Key LocID → PersistentDFPTData Key Data ID LocID
  | .top var => { s with persPTData := s.persPTData.touchPts c var }
  | .dfIn loc var =>
    let inKeyToId := touch (valueAt s.dfInPtsMap loc ∅) var c.emptyPointsToId
    { s with dfInPtsMap := s.dfInPtsMap.insert loc inKeyToId }
  | .dfOut loc var =>
    let outKeyToId := touch (valueAt s.dfOutPtsMap loc ∅) var c.emptyPointsToId
    { s with dfOutPtsMap := s.dfOutPtsMap.insert loc outKeyToId }

/-- The store after a write through a slot's reference. -/
def setSlot (s : PersistentDFPTData Key Data ID LocID) :
    Slot Key LocID → ID → PersistentDFPTData Key Data ID LocID
  | .top var, id =>
    let ptsMap := s.persPTData.ptsMap.insert var id
    { s with persPTData := { s.persPTData with ptsMap } }
  | .dfIn loc var, id =>
    let inKeyToId := (valueAt s.dfInPtsMap loc ∅).insert var id
    { s with dfInPtsMap := s.dfInPtsMap.insert loc inKeyToId }
  | .dfOut loc var, id =>
    let outKeyToId := (valueAt s.dfOutPtsMap loc ∅).insert var id
    { s with dfOutPtsMap := s.dfOutPtsMap.insert loc outKeyToId }

/-- `unionPtsThroughIds(PointsToID &dst, PointsToID &src)`: both references are taken, then
the union is written through `dst`. A top-level destination is written without touching
the reverse map. -/
def unionPtsThroughIds (s : PersistentDFPTData Key Data ID LocID) (dst src : Slot Key LocID) :
    Bool × PersistentDFPTData Key Data ID LocID :=
  let s := (s.touchSlot c dst).touchSlot c src
  let oldDst := s.idAt c dst
  let newDst := c.unionPts oldDst (s.idAt c src)
  (oldDst != newDst, s.setSlot dst newDst)

/-- A call delegated to `persPTData`, with its result. -/
def delegate {α : Type} (s : PersistentDFPTData Key Data ID LocID)
    (r : α × PersistentPTData Key Data ID) : α × PersistentDFPTData Key Data ID LocID :=
  (r.1, { s with persPTData := r.2 })

/-- `clear`: only the top-level store is reset; the source leaves the IN and OUT maps as a
TODO. -/
def clear (s : PersistentDFPTData Key Data ID LocID) : PersistentDFPTData Key Data ID LocID :=
  { s with persPTData := s.persPTData.clear }

def getPts (s : PersistentDFPTData Key Data ID LocID) (var : Key) :
    Finset Data × PersistentDFPTData Key Data ID LocID :=
  s.delegate (s.persPTData.getPts c var)

def getRevPts (_s : PersistentDFPTData Key Data ID LocID) (_datum : Data) :
    Except String (Finset Key × PersistentDFPTData Key Data ID LocID) :=
  .error "PersistentDFPTData::getRevPts: not supported yet!"

def unionPts (s : PersistentDFPTData Key Data ID LocID) (dstKey srcKey : Key) :
    Bool × PersistentDFPTData Key Data ID LocID :=
  s.delegate (s.persPTData.unionPts c dstKey srcKey)

def unionPtsData (s : PersistentDFPTData Key Data ID LocID) (dstKey : Key) (srcData : Finset Data) :
    Bool × PersistentDFPTData Key Data ID LocID :=
  s.delegate (s.persPTData.unionPtsData c dstKey srcData)

def addPts (s : PersistentDFPTData Key Data ID LocID) (dstKey : Key) (element : Data) :
    Bool × PersistentDFPTData Key Data ID LocID :=
  s.delegate (s.persPTData.addPts c dstKey element)

def clearPts (s : PersistentDFPTData Key Data ID LocID) (var : Key) (element : Data) :
    PersistentDFPTData Key Data ID LocID :=
  { s with persPTData := s.persPTData.clearPts c var element }

def clearFullPts (s : PersistentDFPTData Key Data ID LocID) (var : Key) :
    PersistentDFPTData Key Data ID LocID :=
  { s with persPTData := s.persPTData.clearFullPts c var }

def hasDFInSet (s : PersistentDFPTData Key Data ID LocID) (loc : LocID) : Bool :=
  loc ∈ s.dfInPtsMap

def hasDFOutSet (s : PersistentDFPTData Key Data ID LocID) (loc : LocID) : Bool :=
  loc ∈ s.dfOutPtsMap

/-- `hasDFInSet(LocID loc, const Key &var)`. -/
def hasDFInSetVar (s : PersistentDFPTData Key Data ID LocID) (loc : LocID) (var : Key) : Bool :=
  match s.dfInPtsMap.lookup loc with
  | none => false
  | some inKeyToId => var ∈ inKeyToId

/-- `hasDFOutSet(LocID loc, const Key &var)`. -/
def hasDFOutSetVar (s : PersistentDFPTData Key Data ID LocID) (loc : LocID) (var : Key) : Bool :=
  match s.dfOutPtsMap.lookup loc with
  | none => false
  | some outKeyToId => var ∈ outKeyToId

def getDFInPtsSet (s : PersistentDFPTData Key Data ID LocID) (loc : LocID) (var : Key) :
    Finset Data × PersistentDFPTData Key Data ID LocID :=
  (s.ptsAt c (.dfIn loc var), s.touchSlot c (.dfIn loc var))

def getDFOutPtsSet (s : PersistentDFPTData Key Data ID LocID) (loc : LocID) (var : Key) :
    Finset Data × PersistentDFPTData Key Data ID LocID :=
  (s.ptsAt c (.dfOut loc var), s.touchSlot c (.dfOut loc var))

def updateDFInFromIn (s : PersistentDFPTData Key Data ID LocID) (srcLoc : LocID) (srcVar : Key)
    (dstLoc : LocID) (dstVar : Key) : Bool × PersistentDFPTData Key Data ID LocID :=
  s.unionPtsThroughIds c (.dfIn dstLoc dstVar) (.dfIn srcLoc srcVar)

def updateAllDFInFromIn (s : PersistentDFPTData Key Data ID LocID) (srcLoc : LocID)
    (srcVar : Key) (dstLoc : LocID) (dstVar : Key) : Bool × PersistentDFPTData Key Data ID LocID :=
  s.updateDFInFromIn c srcLoc srcVar dstLoc dstVar

def updateDFInFromOut (s : PersistentDFPTData Key Data ID LocID) (srcLoc : LocID) (srcVar : Key)
    (dstLoc : LocID) (dstVar : Key) : Bool × PersistentDFPTData Key Data ID LocID :=
  s.unionPtsThroughIds c (.dfIn dstLoc dstVar) (.dfOut srcLoc srcVar)

def updateAllDFInFromOut (s : PersistentDFPTData Key Data ID LocID) (srcLoc : LocID)
    (srcVar : Key) (dstLoc : LocID) (dstVar : Key) : Bool × PersistentDFPTData Key Data ID LocID :=
  s.updateDFInFromOut c srcLoc srcVar dstLoc dstVar

def updateDFOutFromIn (s : PersistentDFPTData Key Data ID LocID) (srcLoc : LocID) (srcVar : Key)
    (dstLoc : LocID) (dstVar : Key) : Bool × PersistentDFPTData Key Data ID LocID :=
  s.unionPtsThroughIds c (.dfOut dstLoc dstVar) (.dfIn srcLoc srcVar)

/-- The loop body of `updateAllDFOutFromIn`, with this store's `updateDFOutFromIn`. -/
def outFromInStep (loc : LocID) (singleton : Key) (strongUpdates : Bool) :
    Bool × PersistentDFPTData Key Data ID LocID → Key → Bool × PersistentDFPTData Key Data ID LocID :=
  allDFOutFromInStep (fun s var => s.updateDFOutFromIn c loc var loc var) singleton strongUpdates

def updateAllDFOutFromIn (s : PersistentDFPTData Key Data ID LocID) (loc : LocID)
    (singleton : Key) (strongUpdates : Bool) : Bool × PersistentDFPTData Key Data ID LocID :=
  if s.hasDFInSet loc then
    (valueAt s.dfInPtsMap loc ∅).keys.foldl (outFromInStep c loc singleton strongUpdates) (false, s)
  else (false, s)

def clearAllDFOutUpdatedVar (s : PersistentDFPTData Key Data ID LocID) (_loc : LocID) :
    PersistentDFPTData Key Data ID LocID :=
  s

/-- `updateTLVPts`: `IN[srcLoc][srcVar]` into the top-level set of `dstVar`. -/
def updateTLVPts (s : PersistentDFPTData Key Data ID LocID) (srcLoc : LocID) (srcVar dstVar : Key) :
    Bool × PersistentDFPTData Key Data ID LocID :=
  s.unionPtsThroughIds c (.top dstVar) (.dfIn srcLoc srcVar)

/-- `updateATVPts`: the top-level set of `srcVar` into `OUT[dstLoc][dstVar]`. -/
def updateATVPts (s : PersistentDFPTData Key Data ID LocID) (srcVar : Key) (dstLoc : LocID)
    (dstVar : Key) : Bool × PersistentDFPTData Key Data ID LocID :=
  s.unionPtsThroughIds c (.dfOut dstLoc dstVar) (.top srcVar)

/-- The IDs of every entry `topN` and `inUsePointsToSets` scan: the top-level map, then each
location's IN map, then each location's OUT map. -/
def entryIds (s : PersistentDFPTData Key Data ID LocID) : List ID :=
  values s.persPTData.ptsMap ++ (values s.dfInPtsMap).flatMap values ++
    (values s.dfOutPtsMap).flatMap values

def topN (s : PersistentDFPTData Key Data ID LocID) (n : ℕ) : ℕ × ℕ :=
  topNOf c.emptyPointsToId s.entryIds n

def inUsePointsToSets (s : PersistentDFPTData Key Data ID LocID) : ℕ :=
  inUsePointsToSetsOf s.entryIds

/-- A transfer call and its result; `clearAllDFOutUpdatedVar` returns nothing. -/
def transfer (s : PersistentDFPTData Key Data ID LocID) :
    DFTransfer Key LocID → Bool × PersistentDFPTData Key Data ID LocID
  | .updateDFInFromIn sL sK dL dK => s.updateDFInFromIn c sL sK dL dK
  | .updateAllDFInFromIn sL sK dL dK => s.updateAllDFInFromIn c sL sK dL dK
  | .updateDFInFromOut sL sK dL dK => s.updateDFInFromOut c sL sK dL dK
  | .updateAllDFInFromOut sL sK dL dK => s.updateAllDFInFromOut c sL sK dL dK
  | .updateDFOutFromIn sL sK dL dK => s.updateDFOutFromIn c sL sK dL dK
  | .updateAllDFOutFromIn loc v su => s.updateAllDFOutFromIn c loc v su
  | .clearAllDFOutUpdatedVar loc => (false, s.clearAllDFOutUpdatedVar loc)
  | .updateTLVPts sL sK dK => s.updateTLVPts c sL sK dK
  | .updateATVPts sK dL dK => s.updateATVPts c sK dL dK

/-- The store after one call of the base interface, made through its own methods. -/
def stepBase (s : PersistentDFPTData Key Data ID LocID) :
    PTDataOp Key Data → PersistentDFPTData Key Data ID LocID
  | .clear => s.clear
  | .getPts var => (s.getPts c var).2
  | .getRevPts _ => s
  | .addPts dstKey element => (s.addPts c dstKey element).2
  | .unionPts dstKey srcKey => (s.unionPts c dstKey srcKey).2
  | .unionPtsData dstKey srcData => (s.unionPtsData c dstKey srcData).2
  | .clearPts var element => s.clearPts c var element
  | .clearFullPts var => s.clearFullPts c var

def step (s : PersistentDFPTData Key Data ID LocID) :
    DFPTDataOp Key Data LocID → PersistentDFPTData Key Data ID LocID
  | .base op => s.stepBase c op
  | .getDFInPtsSet loc var => (s.getDFInPtsSet c loc var).2
  | .getDFOutPtsSet loc var => (s.getDFOutPtsSet c loc var).2
  | .transfer t => (s.transfer c t).2

-- callers from the incremental store would otherwise specialise the whole call tree below
attribute [nospecialize] step

/-- What a call returns, for the calls that report whether they changed the store. -/
def result (s : PersistentDFPTData Key Data ID LocID) : DFPTDataOp Key Data LocID → Option Bool
  | .base (.addPts dstKey element) => some (s.addPts c dstKey element).1
  | .base (.unionPts dstKey srcKey) => some (s.unionPts c dstKey srcKey).1
  | .base (.unionPtsData dstKey srcData) => some (s.unionPtsData c dstKey srcData).1
  | .transfer (.clearAllDFOutUpdatedVar _) => none
  | .transfer t => some (s.transfer c t).1
  | _ => none

/-! ### What each call does to the sets -/

variable {c}

omit [DecidableEq ID] in
@[simp] theorem idAt_touchSlot (s : PersistentDFPTData Key Data ID LocID) (x y : Slot Key LocID) :
    (s.touchSlot c x).idAt c y = s.idAt c y := by
  cases x <;> cases y <;> simp only [touchSlot, idAt, valueAt_insert, PersistentPTData.ptsId,
    PersistentPTData.touchPts, valueAt_touch] <;> split_ifs <;> simp_all

omit [DecidableEq ID] in
theorem idAt_setSlot (s : PersistentDFPTData Key Data ID LocID) (x y : Slot Key LocID) (id : ID) :
    (s.setSlot x id).idAt c y = if y = x then id else s.idAt c y := by
  cases x <;> cases y <;> simp only [setSlot, idAt, valueAt_insert, PersistentPTData.ptsId,
    reduceCtorEq, if_false] <;> split_ifs <;> simp_all

omit [DecidableEq ID] in
@[simp] theorem ptsAt_touchSlot (s : PersistentDFPTData Key Data ID LocID) (x y : Slot Key LocID) :
    (s.touchSlot c x).ptsAt c y = s.ptsAt c y := by
  simp [ptsAt]

/-- `unionPtsThroughIds` reports a change exactly when the source adds an element. -/
theorem unionPtsThroughIds_fst (s : PersistentDFPTData Key Data ID LocID) (dst src : Slot Key LocID) :
    (s.unionPtsThroughIds c dst src).1 = true ↔ ¬ s.ptsAt c src ⊆ s.ptsAt c dst := by
  simp [unionPtsThroughIds, bne_iff_ne, ne_comm (a := s.idAt c dst), c.unionPts_eq_left_iff, ptsAt]

/-- The union writes `dst ∪ src`, both read before the write, and nothing else. -/
theorem ptsAt_unionPtsThroughIds (s : PersistentDFPTData Key Data ID LocID)
    (dst src y : Slot Key LocID) :
    (s.unionPtsThroughIds c dst src).2.ptsAt c y =
      if y = dst then s.ptsAt c dst ∪ s.ptsAt c src else s.ptsAt c y := by
  simp only [unionPtsThroughIds, ptsAt, idAt_setSlot, idAt_touchSlot]
  split_ifs <;> simp

theorem allDFOutFromInStep_spec (loc : LocID) (v : Key) (su : Bool)
    (acc : Bool × PersistentDFPTData Key Data ID LocID) (a : Key) :
    ((outFromInStep c loc v su acc a).1 = true ↔ acc.1 = true ∨
      ¬(su = true ∧ a = v) ∧ ¬ acc.2.ptsAt c (.dfIn loc a) ⊆ acc.2.ptsAt c (.dfOut loc a)) ∧
    (outFromInStep c loc v su acc a).2.ptsAt c =
      Slot.joinInToOut (acc.2.ptsAt c) loc (fun k => k = a ∧ ¬(su = true ∧ k = v)) := by
  unfold outFromInStep allDFOutFromInStep
  by_cases hs : su = true ∧ a = v
  · obtain ⟨rfl, rfl⟩ := hs
    refine ⟨by simp, funext fun y => ?_⟩
    cases y <;> simp [Slot.joinInToOut]
  · have hb : (su && a == v) = false := by simpa using hs
    simp only [hb, Bool.false_eq_true, ↓reduceIte, Bool.or_eq_true, updateDFOutFromIn,
      unionPtsThroughIds_fst]
    refine ⟨by simp [hs], funext fun y => ?_⟩
    rw [ptsAt_unionPtsThroughIds]
    cases y <;> simp [Slot.joinInToOut, hs]
    split_ifs <;> simp_all

/-- The loop body for `a` leaves the IN and OUT sets of every other key alone. -/
theorem outFromInStep_ptsAt_of_ne (loc : LocID) (v : Key) (su : Bool)
    (acc : Bool × PersistentDFPTData Key Data ID LocID) {a k : Key} (hka : k ≠ a) :
    (outFromInStep c loc v su acc a).2.ptsAt c (.dfIn loc k) = acc.2.ptsAt c (.dfIn loc k) ∧
    (outFromInStep c loc v su acc a).2.ptsAt c (.dfOut loc k) = acc.2.ptsAt c (.dfOut loc k) := by
  simp [(allDFOutFromInStep_spec (c := c) loc v su acc a).2, Slot.joinInToOut, hka]

theorem foldl_allDFOutFromInStep (loc : LocID) (v : Key) (su : Bool) {L : List Key}
    (hL : L.Nodup) (acc : Bool × PersistentDFPTData Key Data ID LocID) :
    ((L.foldl (outFromInStep c loc v su) acc).1 = true ↔ acc.1 = true ∨
      ∃ k ∈ L, ¬(su = true ∧ k = v) ∧ ¬ acc.2.ptsAt c (.dfIn loc k) ⊆ acc.2.ptsAt c (.dfOut loc k)) ∧
    (L.foldl (outFromInStep c loc v su) acc).2.ptsAt c =
      Slot.joinInToOut (acc.2.ptsAt c) loc (fun k => k ∈ L ∧ ¬(su = true ∧ k = v)) := by
  induction L generalizing acc with
  | nil =>
    refine ⟨by simp, ?_⟩
    rw [Slot.joinInToOut_congr _ _ (q := fun _ => False) (by simp), Slot.joinInToOut_false]
    rfl
  | cons a L ih =>
    obtain ⟨ha, hL⟩ := List.nodup_cons.mp hL
    obtain ⟨h1, h2⟩ := allDFOutFromInStep_spec (c := c) loc v su acc a
    obtain ⟨ih1, ih2⟩ := ih hL (outFromInStep c loc v su acc a)
    rw [List.foldl_cons]
    -- the keys after `a` read the sets of the start: `a` touches only its own OUT slot
    have hsame : ∀ k ∈ L, _ := fun k hk =>
      outFromInStep_ptsAt_of_ne (c := c) loc v su acc fun h : k = a => ha (h ▸ hk)
    refine ⟨?_, ?_⟩
    · rw [ih1, h1]
      constructor
      · rintro ((h | h) | ⟨k, hk, hs, hsub⟩)
        · exact .inl h
        · exact .inr ⟨a, List.mem_cons_self _ _, h⟩
        · rw [(hsame k hk).1, (hsame k hk).2] at hsub
          exact .inr ⟨k, List.mem_cons_of_mem _ hk, hs, hsub⟩
      · rintro (h | ⟨k, hk, hs, hsub⟩)
        · exact .inl (.inl h)
        · rcases List.mem_cons.mp hk with rfl | hk
          · exact .inl (.inr ⟨hs, hsub⟩)
          · rw [← (hsame k hk).1, ← (hsame k hk).2] at hsub
            exact .inr ⟨k, hk, hs, hsub⟩
    · rw [ih2, h2, Slot.joinInToOut_joinInToOut]
      exact Slot.joinInToOut_congr _ _ fun k => by simp only [List.mem_cons, or_and_right]

omit [LinearOrder Data] [DecidableEq ID] in
theorem hasDFInSetVar_iff (s : PersistentDFPTData Key Data ID LocID) (loc : LocID) (k : Key) :
    s.hasDFInSetVar loc k = true ↔ k ∈ valueAt s.dfInPtsMap loc ∅ := by
  unfold hasDFInSetVar valueAt
  cases s.dfInPtsMap.lookup loc <;> simp [AList.not_mem_empty]

/-- The plain bulk transfer joins `IN[loc][k]` into `OUT[loc][k]` for every key with an entry in
`IN[loc]` but a strongly updated singleton, and reports whether one of them grew. -/
theorem updateAllDFOutFromIn_spec (s : PersistentDFPTData Key Data ID LocID) (loc : LocID)
    (v : Key) (su : Bool) :
    ((s.updateAllDFOutFromIn c loc v su).1 = true ↔ ∃ k, s.hasDFInSetVar loc k = true ∧
      ¬(su = true ∧ k = v) ∧ ¬ s.ptsAt c (.dfIn loc k) ⊆ s.ptsAt c (.dfOut loc k)) ∧
    (s.updateAllDFOutFromIn c loc v su).2.ptsAt c =
      Slot.joinInToOut (s.ptsAt c) loc (fun k => s.hasDFInSetVar loc k = true ∧ ¬(su = true ∧ k = v)) := by
  unfold updateAllDFOutFromIn
  split
  · obtain ⟨h1, h2⟩ := foldl_allDFOutFromInStep (c := c) loc v su (AList.keys_nodup _) (false, s)
    refine ⟨h1.trans ?_, h2.trans (Slot.joinInToOut_congr _ _ fun k => ?_)⟩
    · simp [hasDFInSetVar_iff, ← AList.mem_keys]
    · rw [hasDFInSetVar_iff, AList.mem_keys]
  · rename_i h
    have hk : ∀ k, s.hasDFInSetVar loc k = false := fun k => by
      simp only [hasDFInSet, decide_eq_true_eq] at h
      simp [hasDFInSetVar, AList.lookup_eq_none.mpr h]
    refine ⟨by simp [hk], ?_⟩
    rw [Slot.joinInToOut_congr _ _ (q := fun _ => False) (by simp [hk]), Slot.joinInToOut_false]

theorem transfer_of_route (s : PersistentDFPTData Key Data ID LocID) {t : DFTransfer Key LocID}
    {dst src : Slot Key LocID} (h : t.route = some (dst, src)) :
    s.transfer c t = s.unionPtsThroughIds c dst src := by
  cases t <;> simp only [DFTransfer.route, Option.some.injEq, Prod.mk.injEq, reduceCtorEq] at h <;>
    obtain ⟨rfl, rfl⟩ := h <;> rfl


omit [DecidableEq LocID] in
/-- The calls of the base interface work on `persPTData` alone. -/
theorem stepBase_df_maps (s : PersistentDFPTData Key Data ID LocID) (op : PTDataOp Key Data) :
    (s.stepBase c op).dfInPtsMap = s.dfInPtsMap ∧ (s.stepBase c op).dfOutPtsMap = s.dfOutPtsMap := by
  cases op <;> exact ⟨rfl, rfl⟩

/-- A call other than a transfer changes no IN or OUT set. -/
theorem ptsAt_step_of_not_transfer (s : PersistentDFPTData Key Data ID LocID)
    {op : DFPTDataOp Key Data LocID} (h : ∀ t, op ≠ .transfer t) {y : Slot Key LocID}
    (hy : y.isDF = true) : (s.step c op).ptsAt c y = s.ptsAt c y := by
  cases op with
  | transfer t => exact absurd rfl (h t)
  | base op =>
    obtain ⟨h1, h2⟩ := stepBase_df_maps (c := c) s op
    cases y <;> simp_all [step, ptsAt, idAt, Slot.isDF]
  | _ => simp [step, getDFInPtsSet, getDFOutPtsSet]

omit [LinearOrder Data] [DecidableEq ID] in
theorem hasDFInSet_of_hasDFInSetVar (s : PersistentDFPTData Key Data ID LocID) {loc : LocID}
    {k : Key} (h : s.hasDFInSetVar loc k = true) : s.hasDFInSet loc = true := by
  unfold hasDFInSetVar at h
  unfold hasDFInSet
  cases hl : s.dfInPtsMap.lookup loc with
  | none => simp [hl] at h
  | some m => simpa using AList.lookup_isSome.mp (by simp [hl])

omit [LinearOrder Data] [DecidableEq ID] in
theorem hasDFOutSet_of_hasDFOutSetVar (s : PersistentDFPTData Key Data ID LocID) {loc : LocID}
    {k : Key} (h : s.hasDFOutSetVar loc k = true) : s.hasDFOutSet loc = true := by
  unfold hasDFOutSetVar at h
  unfold hasDFOutSet
  cases hl : s.dfOutPtsMap.lookup loc with
  | none => simp [hl] at h
  | some m => simpa using AList.lookup_isSome.mp (by simp [hl])

omit [DecidableEq ID] in
/-- A key with no entry in `IN[loc]` reads the empty set there. -/
theorem ptsAt_dfIn_of_not_hasDFInSetVar (s : PersistentDFPTData Key Data ID LocID) {loc : LocID}
    {k : Key} (h : s.hasDFInSetVar loc k = false) : s.ptsAt c (.dfIn loc k) = ∅ := by
  unfold hasDFInSetVar at h
  unfold ptsAt idAt valueAt
  cases hl : s.dfInPtsMap.lookup loc with
  | none => simp [hl, AList.lookup_empty]
  | some m =>
    simp only [hl, decide_eq_false_iff_not] at h
    simp [hl, AList.lookup_eq_none.mpr h]

omit [DecidableEq ID] in
/-- A location with no IN map reads the empty set at every key. -/
theorem ptsAt_dfIn_of_not_hasDFInSet (s : PersistentDFPTData Key Data ID LocID) {loc : LocID}
    (h : s.hasDFInSet loc = false) (k : Key) : s.ptsAt c (.dfIn loc k) = ∅ :=
  ptsAt_dfIn_of_not_hasDFInSetVar s
    (Bool.eq_false_iff.mpr fun hk => by simp [hasDFInSet_of_hasDFInSetVar s hk] at h)

omit [DecidableEq ID] in
/-- A key with no entry in `OUT[loc]` reads the empty set there. -/
theorem ptsAt_dfOut_of_not_hasDFOutSetVar (s : PersistentDFPTData Key Data ID LocID) {loc : LocID}
    {k : Key} (h : s.hasDFOutSetVar loc k = false) : s.ptsAt c (.dfOut loc k) = ∅ := by
  unfold hasDFOutSetVar at h
  unfold ptsAt idAt valueAt
  cases hl : s.dfOutPtsMap.lookup loc with
  | none => simp [hl, AList.lookup_empty]
  | some m =>
    simp only [hl, decide_eq_false_iff_not] at h
    simp [hl, AList.lookup_eq_none.mpr h]

end PersistentDFPTData

end PersistentPointsTo
