import PersistentPointsTo.Cache
import PersistentPointsTo.Stats
import Mathlib.Data.Finset.Sort

namespace PersistentPointsTo

/-- `PersistentPTData`: the `rev` flag it was built with, the points-to ID of each key and,
for each datum, the keys whose points-to set holds it. -/
structure PersistentPTData (Key Data ID : Type) where
  rev : Bool
  ptsMap : Map Key ID
  revPtsMap : Map Data (Finset Key)

/-- The calls of `PTData` that read or write one key space of a store: reads through
`operator[]` change a store too. -/
inductive PTDataOp (Key Data : Type)
  | clear
  | getPts (var : Key)
  | getRevPts (data : Data)
  | addPts (dstKey : Key) (element : Data)
  | unionPts (dstKey srcKey : Key)
  | unionPtsData (dstKey : Key) (srcData : Finset Data)
  | clearPts (var : Key) (element : Data)
  | clearFullPts (var : Key)

namespace PersistentPTData

variable {Key Data ID : Type} [DecidableEq Key] [LinearOrder Data] [DecidableEq ID]
variable (c : PersistentPointsToCache ID Data)

/-- A store as its constructor builds it. -/
def init (reversePT : Bool) : PersistentPTData Key Data ID := ⟨reversePT, ∅, ∅⟩

/-- The ID `ptsMap[var]` reads. -/
def ptsId (s : PersistentPTData Key Data ID) (var : Key) : ID :=
  valueAt s.ptsMap var c.emptyPointsToId

/-- The points-to set of `var`, as `getPts` returns it. -/
def ptsOf (s : PersistentPTData Key Data ID) (var : Key) : Finset Data :=
  c.getActualPts (s.ptsId c var)

/-- The keys pointing to `data`, as `getRevPts` returns them. -/
def revOf (s : PersistentPTData Key Data ID) (data : Data) : Finset Key :=
  valueAt s.revPtsMap data ∅

/-- The store after the read `ptsMap[var]`. -/
def touchPts (s : PersistentPTData Key Data ID) (var : Key) : PersistentPTData Key Data ID :=
  { s with ptsMap := touch s.ptsMap var c.emptyPointsToId }

def clear (s : PersistentPTData Key Data ID) : PersistentPTData Key Data ID :=
  { s with ptsMap := ∅, revPtsMap := ∅ }

def getPts (s : PersistentPTData Key Data ID) (var : Key) :
    Finset Data × PersistentPTData Key Data ID :=
  (s.ptsOf c var, s.touchPts c var)

def getRevPts (s : PersistentPTData Key Data ID) (data : Data) :
    Except String (Finset Key × PersistentPTData Key Data ID) :=
  if s.rev then .ok (s.revOf data, { s with revPtsMap := touch s.revPtsMap data ∅ })
  else .error "PersistentPTData::getRevPts: constructed without reverse PT support!"

/-- Private `unionPtsFromId`: the union every other union goes through. The reverse map
is updated from the source set only, and only when the destination ID moved. -/
def unionPtsFromId (s : PersistentPTData Key Data ID) (dstKey : Key) (srcId : ID) :
    Bool × PersistentPTData Key Data ID :=
  let dstId := s.ptsId c dstKey
  let s := s.touchPts c dstKey
  let newDstId := c.unionPts dstId srcId
  let changed := newDstId != dstId
  if changed then
    let s := { s with ptsMap := s.ptsMap.insert dstKey newDstId }
    if s.rev then
      let revPtsMap := modifyEach s.revPtsMap ((c.getActualPts srcId).sort (· ≤ ·)) ∅ (insert dstKey)
      (changed, { s with revPtsMap })
    else (changed, s)
  else (changed, s)

def addPts (s : PersistentPTData Key Data ID) (dstKey : Key) (element : Data) :
    Bool × PersistentPTData Key Data ID :=
  let srcId := c.emplacePts {element}
  s.unionPtsFromId c dstKey srcId

def unionPts (s : PersistentPTData Key Data ID) (dstKey srcKey : Key) :
    Bool × PersistentPTData Key Data ID :=
  let srcId := s.ptsId c srcKey
  (s.touchPts c srcKey).unionPtsFromId c dstKey srcId

/-- `unionPts(const Key &dstKey, const DataSet &srcData)`. -/
def unionPtsData (s : PersistentPTData Key Data ID) (dstKey : Key) (srcData : Finset Data) :
    Bool × PersistentPTData Key Data ID :=
  let srcId := c.emplacePts srcData
  s.unionPtsFromId c dstKey srcId

def clearSingleRevPts (s : PersistentPTData Key Data ID) (revSet : Finset Key) (k : Key) :
    Finset Key :=
  if s.rev then revSet.erase k else revSet

def clearRevPts (s : PersistentPTData Key Data ID) (pts : Finset Data) (k : Key) :
    PersistentPTData Key Data ID :=
  if s.rev then
    let revPtsMap := modifyEach s.revPtsMap (pts.sort (· ≤ ·)) ∅ fun revSet =>
      s.clearSingleRevPts revSet k
    { s with revPtsMap }
  else s

def clearPts (s : PersistentPTData Key Data ID) (var : Key) (element : Data) :
    PersistentPTData Key Data ID :=
  let toRemoveId := c.emplacePts {element}
  let varId := s.ptsId c var
  let s := s.touchPts c var
  let complementId := c.complementPts varId toRemoveId
  if varId != complementId then
    let s := { s with ptsMap := s.ptsMap.insert var complementId }
    let revSet := s.clearSingleRevPts (valueAt s.revPtsMap element ∅) var
    { s with revPtsMap := s.revPtsMap.insert element revSet }
  else s

def clearFullPts (s : PersistentPTData Key Data ID) (var : Key) : PersistentPTData Key Data ID :=
  let (pts, s) := s.getPts c var
  let s := s.clearRevPts pts var
  { s with ptsMap := s.ptsMap.insert var c.emptyPointsToId }

def topN (s : PersistentPTData Key Data ID) (n : ℕ) : ℕ × ℕ :=
  topNOf c.emptyPointsToId (values s.ptsMap) n

def inUsePointsToSets (s : PersistentPTData Key Data ID) : ℕ :=
  inUsePointsToSetsOf (values s.ptsMap)

/-- The store after one call; a failed assertion leaves it as it was. -/
def step (s : PersistentPTData Key Data ID) : PTDataOp Key Data → PersistentPTData Key Data ID
  | .clear => s.clear
  | .getPts var => (s.getPts c var).2
  | .getRevPts data =>
    match s.getRevPts data with
    | .ok r => r.2
    | .error _ => s
  | .addPts dstKey element => (s.addPts c dstKey element).2
  | .unionPts dstKey srcKey => (s.unionPts c dstKey srcKey).2
  | .unionPtsData dstKey srcData => (s.unionPtsData c dstKey srcData).2
  | .clearPts var element => s.clearPts c var element
  | .clearFullPts var => s.clearFullPts c var

/-- What a call returns, for the calls that report whether they changed the store. -/
def result (s : PersistentPTData Key Data ID) : PTDataOp Key Data → Option Bool
  | .addPts dstKey element => some (s.addPts c dstKey element).1
  | .unionPts dstKey srcKey => some (s.unionPts c dstKey srcKey).1
  | .unionPtsData dstKey srcData => some (s.unionPtsData c dstKey srcData).1
  | _ => none

/-! ### What each operation does to the points-to and reverse sets -/

variable {c}

omit [DecidableEq ID] in
@[simp] theorem rev_touchPts (s : PersistentPTData Key Data ID) (k : Key) :
    (s.touchPts c k).rev = s.rev := rfl

omit [DecidableEq ID] in
@[simp] theorem ptsOf_touchPts (s : PersistentPTData Key Data ID) (k k' : Key) :
    (s.touchPts c k).ptsOf c k' = s.ptsOf c k' := by
  simp [ptsOf, ptsId, touchPts]

omit [DecidableEq ID] in
@[simp] theorem revPtsMap_touchPts (s : PersistentPTData Key Data ID) (k : Key) :
    (s.touchPts c k).revPtsMap = s.revPtsMap := rfl

omit [DecidableEq ID] in
@[simp] theorem revOf_touchPts (s : PersistentPTData Key Data ID) (k : Key) (d : Data) :
    (s.touchPts c k).revOf d = s.revOf d := rfl

omit [DecidableEq ID] in
@[simp] theorem ptsOf_init (b : Bool) (k : Key) :
    (init b : PersistentPTData Key Data ID).ptsOf c k = ∅ := by
  simp [init, ptsOf, ptsId]

omit [DecidableEq Key] [DecidableEq ID] in
@[simp] theorem revOf_init (b : Bool) (d : Data) :
    (init b : PersistentPTData Key Data ID).revOf d = ∅ := rfl

omit [DecidableEq ID] in
theorem ptsOf_insert (s : PersistentPTData Key Data ID) (k k' : Key) (id : ID) :
    ({ s with ptsMap := s.ptsMap.insert k id } : PersistentPTData Key Data ID).ptsOf c k' =
      if k' = k then c.getActualPts id else s.ptsOf c k' := by
  unfold ptsOf ptsId; rw [valueAt_insert]; split <;> rfl

/-- The union changes the destination's ID exactly when the source adds an element. -/
theorem unionPts_ne_iff (s : PersistentPTData Key Data ID) (k : Key) (id : ID) :
    (c.unionPts (s.ptsId c k) id != s.ptsId c k) = true ↔ ¬ c.getActualPts id ⊆ s.ptsOf c k := by
  rw [bne_iff_ne, ne_eq, c.unionPts_eq_left_iff, ptsOf]

theorem unionPtsFromId_fst (s : PersistentPTData Key Data ID) (k : Key) (id : ID) :
    (s.unionPtsFromId c k id).1 = true ↔ ¬ c.getActualPts id ⊆ s.ptsOf c k := by
  rw [← unionPts_ne_iff]
  simp only [unionPtsFromId]
  split_ifs <;> simp_all

theorem ptsOf_unionPtsFromId (s : PersistentPTData Key Data ID) (k k' : Key) (id : ID) :
    (s.unionPtsFromId c k id).2.ptsOf c k' =
      if k' = k then s.ptsOf c k ∪ c.getActualPts id else s.ptsOf c k' := by
  have h := unionPts_ne_iff (c := c) s k id
  simp only [unionPtsFromId]
  split_ifs <;> simp_all [ptsOf, ptsId, touchPts]

theorem revOf_unionPtsFromId (s : PersistentPTData Key Data ID) (k : Key) (id : ID) (d : Data) :
    (s.unionPtsFromId c k id).2.revOf d =
      if ¬ c.getActualPts id ⊆ s.ptsOf c k ∧ s.rev ∧ d ∈ c.getActualPts id then insert k (s.revOf d)
      else s.revOf d := by
  have h := unionPts_ne_iff (c := c) s k id
  simp only [unionPtsFromId]
  split_ifs <;> simp_all [revOf, valueAt_modifyEach _ (Finset.sort_nodup _ _)]

@[simp] theorem rev_unionPtsFromId (s : PersistentPTData Key Data ID) (k : Key) (id : ID) :
    (s.unionPtsFromId c k id).2.rev = s.rev := by
  simp only [unionPtsFromId]; split_ifs <;> rfl

theorem addPts_eq (s : PersistentPTData Key Data ID) (k : Key) (d : Data) :
    s.addPts c k d = s.unionPtsFromId c k (c.emplacePts {d}) := rfl

theorem unionPts_eq (s : PersistentPTData Key Data ID) (k k' : Key) :
    s.unionPts c k k' = (s.touchPts c k').unionPtsFromId c k (s.ptsId c k') := rfl

theorem unionPtsData_eq (s : PersistentPTData Key Data ID) (k : Key) (ds : Finset Data) :
    s.unionPtsData c k ds = s.unionPtsFromId c k (c.emplacePts ds) := rfl

/-- `clearPts` stores the complement exactly when the element was in the set. -/
theorem clearPts_changed (s : PersistentPTData Key Data ID) (k : Key) (d : Data) :
    (s.ptsId c k != c.complementPts (s.ptsId c k) (c.emplacePts {d})) = decide (d ∈ s.ptsOf c k) := by
  rw [Bool.eq_iff_iff, bne_iff_ne, ne_comm, ne_eq, c.complementPts_singleton_eq_iff, ptsOf,
    decide_eq_true_iff, not_not]

/-- Removing an element the set lacks only takes the key's reference. -/
theorem clearPts_of_not_mem (s : PersistentPTData Key Data ID) {k : Key} {d : Data}
    (h : d ∉ s.ptsOf c k) : s.clearPts c k d = s.touchPts c k := by
  simp [clearPts, clearPts_changed, h]

theorem ptsOf_clearPts (s : PersistentPTData Key Data ID) (k k' : Key) (d : Data) :
    (s.clearPts c k d).ptsOf c k' = if k' = k then s.ptsOf c k \ {d} else s.ptsOf c k' := by
  simp only [clearPts, clearPts_changed, decide_eq_true_eq]
  by_cases hd : d ∈ s.ptsOf c k
  · simp only [hd, ↓reduceIte, ptsOf_insert]
    split_ifs <;> simp_all [ptsOf, ptsId, touchPts, Finset.sdiff_singleton_eq_erase]
  · simp only [hd, ↓reduceIte, ptsOf_touchPts]
    split_ifs with hk
    · subst hk; simp [Finset.sdiff_singleton_eq_erase, Finset.erase_eq_of_not_mem hd]
    · rfl

theorem revOf_clearPts (s : PersistentPTData Key Data ID) (k : Key) (d d' : Data) :
    (s.clearPts c k d).revOf d' =
      if d' = d ∧ d ∈ s.ptsOf c k ∧ s.rev then (s.revOf d).erase k else s.revOf d' := by
  simp only [clearPts, clearPts_changed, decide_eq_true_eq]
  by_cases hd : d ∈ s.ptsOf c k
  · by_cases hd' : d' = d
    · subst hd'; cases hr : s.rev <;> simp [hd, hr, revOf, clearSingleRevPts]
    · simp [hd, hd', revOf]
  · simp [hd]

@[simp] theorem rev_clearPts (s : PersistentPTData Key Data ID) (k : Key) (d : Data) :
    (s.clearPts c k d).rev = s.rev := by
  simp only [clearPts]; split_ifs <;> rfl

omit [DecidableEq ID] in
theorem ptsOf_clearFullPts (s : PersistentPTData Key Data ID) (k k' : Key) :
    (s.clearFullPts c k).ptsOf c k' = if k' = k then ∅ else s.ptsOf c k' := by
  simp only [clearFullPts, getPts, clearRevPts]
  split_ifs <;> simp_all [ptsOf, ptsId, touchPts]

omit [DecidableEq ID] in
theorem revOf_clearFullPts (s : PersistentPTData Key Data ID) (k : Key) (d : Data) :
    (s.clearFullPts c k).revOf d =
      if s.rev ∧ d ∈ s.ptsOf c k then (s.revOf d).erase k else s.revOf d := by
  simp only [clearFullPts, getPts, clearRevPts]
  split_ifs <;>
    simp_all [revOf, clearSingleRevPts, valueAt_modifyEach _ (Finset.sort_nodup _ _)]

omit [DecidableEq ID] in
@[simp] theorem rev_clearFullPts (s : PersistentPTData Key Data ID) (k : Key) :
    (s.clearFullPts c k).rev = s.rev := by
  simp only [clearFullPts, getPts, clearRevPts]; split_ifs <;> rfl

omit [DecidableEq Key] [LinearOrder Data] [DecidableEq ID] in
@[simp] theorem rev_clear (s : PersistentPTData Key Data ID) : s.clear.rev = s.rev := rfl

omit [DecidableEq ID] in
@[simp] theorem ptsOf_clear (s : PersistentPTData Key Data ID) (k : Key) :
    s.clear.ptsOf c k = ∅ := by
  simp [clear, ptsOf, ptsId]

omit [DecidableEq Key] [DecidableEq ID] in
@[simp] theorem revOf_clear (s : PersistentPTData Key Data ID) (d : Data) :
    s.clear.revOf d = ∅ := rfl

end PersistentPTData

end PersistentPointsTo
