import PersistentPointsTo.PTData

namespace PersistentPointsTo

/-- `PersistentDiffPTData`: a `PersistentPTData` for the points-to sets, and per key the ID
of the difference still to propagate and of what has been propagated. -/
structure PersistentDiffPTData (Key Data ID : Type) where
  persPTData : PersistentPTData Key Data ID
  diffPtsMap : Map Key ID
  propaPtsMap : Map Key ID

/-- The calls that only the diff store takes. -/
inductive DiffPTDataOp (Key Data : Type)
  | base (op : PTDataOp Key Data)
  | getDiffPts (var : Key)
  | computeDiffPts (var : Key) (all : Finset Data)
  | updatePropaPtsMap (src dst : Key)
  | clearPropaPts (var : Key)

namespace PersistentDiffPTData

variable {Key Data ID : Type} [DecidableEq Key] [LinearOrder Data] [DecidableEq ID]
variable (c : PersistentPointsToCache ID Data)

def init (reversePT : Bool) : PersistentDiffPTData Key Data ID :=
  ⟨PersistentPTData.init reversePT, ∅, ∅⟩

/-- A call delegated to `persPTData`, with its result. -/
def delegate {α : Type} (s : PersistentDiffPTData Key Data ID)
    (r : α × PersistentPTData Key Data ID) : α × PersistentDiffPTData Key Data ID :=
  (r.1, { s with persPTData := r.2 })

def clear (s : PersistentDiffPTData Key Data ID) : PersistentDiffPTData Key Data ID :=
  { persPTData := s.persPTData.clear, diffPtsMap := ∅, propaPtsMap := ∅ }

def getPts (s : PersistentDiffPTData Key Data ID) (var : Key) :
    Finset Data × PersistentDiffPTData Key Data ID :=
  s.delegate (s.persPTData.getPts c var)

def getRevPts (s : PersistentDiffPTData Key Data ID) (data : Data) :
    Except String (Finset Key × PersistentDiffPTData Key Data ID) :=
  if s.persPTData.rev then (s.persPTData.getRevPts data).map s.delegate
  else .error "PersistentDiffPTData::getRevPts: constructed without reverse PT support!"

def addPts (s : PersistentDiffPTData Key Data ID) (dstKey : Key) (element : Data) :
    Bool × PersistentDiffPTData Key Data ID :=
  s.delegate (s.persPTData.addPts c dstKey element)

def unionPts (s : PersistentDiffPTData Key Data ID) (dstKey srcKey : Key) :
    Bool × PersistentDiffPTData Key Data ID :=
  s.delegate (s.persPTData.unionPts c dstKey srcKey)

def unionPtsData (s : PersistentDiffPTData Key Data ID) (dstKey : Key) (srcData : Finset Data) :
    Bool × PersistentDiffPTData Key Data ID :=
  s.delegate (s.persPTData.unionPtsData c dstKey srcData)

def clearPts (s : PersistentDiffPTData Key Data ID) (var : Key) (element : Data) :
    PersistentDiffPTData Key Data ID :=
  { s with persPTData := s.persPTData.clearPts c var element }

def clearFullPts (s : PersistentDiffPTData Key Data ID) (var : Key) :
    PersistentDiffPTData Key Data ID :=
  { s with persPTData := s.persPTData.clearFullPts c var }

/-- The ID `diffPtsMap[var]` reads. -/
def diffId (s : PersistentDiffPTData Key Data ID) (var : Key) : ID :=
  valueAt s.diffPtsMap var c.emptyPointsToId

/-- The ID `propaPtsMap[var]` reads. -/
def propaId (s : PersistentDiffPTData Key Data ID) (var : Key) : ID :=
  valueAt s.propaPtsMap var c.emptyPointsToId

def getDiffPts (s : PersistentDiffPTData Key Data ID) (var : Key) :
    Finset Data × PersistentDiffPTData Key Data ID :=
  (c.getActualPts (s.diffId c var),
    { s with diffPtsMap := touch s.diffPtsMap var c.emptyPointsToId })

def computeDiffPts (s : PersistentDiffPTData Key Data ID) (var : Key) (all : Finset Data) :
    Bool × PersistentDiffPTData Key Data ID :=
  let propaId := s.propaId c var
  let s := { s with propaPtsMap := touch s.propaPtsMap var c.emptyPointsToId }
  let allId := c.emplacePts all
  -- the diff is everything not yet propagated
  let diffId := c.complementPts allId propaId
  let s := { s with diffPtsMap := s.diffPtsMap.insert var diffId }
  let s := { s with propaPtsMap := s.propaPtsMap.insert var allId }
  (diffId != c.emptyPointsToId, s)

def updatePropaPtsMap (s : PersistentDiffPTData Key Data ID) (src dst : Key) :
    PersistentDiffPTData Key Data ID :=
  let dstId := s.propaId c dst
  let s := { s with propaPtsMap := touch s.propaPtsMap dst c.emptyPointsToId }
  let srcId := s.propaId c src
  let s := { s with propaPtsMap := touch s.propaPtsMap src c.emptyPointsToId }
  { s with propaPtsMap := s.propaPtsMap.insert dst (c.intersectPts dstId srcId) }

def clearPropaPts (s : PersistentDiffPTData Key Data ID) (var : Key) :
    PersistentDiffPTData Key Data ID :=
  { s with propaPtsMap := s.propaPtsMap.insert var c.emptyPointsToId }

def topN (s : PersistentDiffPTData Key Data ID) (n : ℕ) : ℕ × ℕ := s.persPTData.topN c n

def inUsePointsToSets (s : PersistentDiffPTData Key Data ID) : ℕ := s.persPTData.inUsePointsToSets

/-- The store after one call of the base interface, made through its own methods. -/
def stepBase (s : PersistentDiffPTData Key Data ID) :
    PTDataOp Key Data → PersistentDiffPTData Key Data ID
  | .clear => s.clear
  | .getPts var => (s.getPts c var).2
  | .getRevPts data =>
    match s.getRevPts data with
    | .ok r => r.2
    | .error _ => s
  | .addPts dstKey element => (s.addPts c dstKey element).2
  | .unionPts dstKey srcKey => (s.unionPts c dstKey srcKey).2
  | .unionPtsData dstKey srcData => (s.unionPtsData c dstKey srcData).2
  | .clearPts var element => s.clearPts c var element
  | .clearFullPts var => s.clearFullPts c var

def step (s : PersistentDiffPTData Key Data ID) :
    DiffPTDataOp Key Data → PersistentDiffPTData Key Data ID
  | .base op => s.stepBase c op
  | .getDiffPts var => (s.getDiffPts c var).2
  | .computeDiffPts var all => (s.computeDiffPts c var all).2
  | .updatePropaPtsMap src dst => s.updatePropaPtsMap c src dst
  | .clearPropaPts var => s.clearPropaPts c var

/-- What a call returns, for the calls that report whether they changed the store. -/
def result (s : PersistentDiffPTData Key Data ID) : DiffPTDataOp Key Data → Option Bool
  | .base (.addPts dstKey element) => some (s.addPts c dstKey element).1
  | .base (.unionPts dstKey srcKey) => some (s.unionPts c dstKey srcKey).1
  | .base (.unionPtsData dstKey srcData) => some (s.unionPtsData c dstKey srcData).1
  | .computeDiffPts var all => some (s.computeDiffPts c var all).1
  | _ => none

/-- The points-to set of `var`. -/
def ptsOf (s : PersistentDiffPTData Key Data ID) (var : Key) : Finset Data :=
  s.persPTData.ptsOf c var

/-- The keys pointing to `data`, as `getRevPts` returns them. -/
def revOf (s : PersistentDiffPTData Key Data ID) (data : Data) : Finset Key :=
  s.persPTData.revOf data

/-- The set `getDiffPts` returns. -/
def diffOf (s : PersistentDiffPTData Key Data ID) (var : Key) : Finset Data :=
  c.getActualPts (s.diffId c var)

/-- The set marked as propagated for `var`. -/
def propaOf (s : PersistentDiffPTData Key Data ID) (var : Key) : Finset Data :=
  c.getActualPts (s.propaId c var)

/-! ### What each call does -/

variable {c}

/-- Every call of the base interface acts on `persPTData` as the base store's own call. -/
theorem persPTData_stepBase (s : PersistentDiffPTData Key Data ID) (op : PTDataOp Key Data) :
    (s.stepBase c op).persPTData = s.persPTData.step c op := by
  cases op with
  | getRevPts data =>
    simp only [stepBase, getRevPts, PersistentPTData.step, PersistentPTData.getRevPts]
    split_ifs <;> rfl
  | _ => rfl

theorem persPTData_step (s : PersistentDiffPTData Key Data ID) (op : DiffPTDataOp Key Data) :
    (s.step c op).persPTData =
      match op with
      | .base op => s.persPTData.step c op
      | _ => s.persPTData := by
  cases op with
  | base op => exact persPTData_stepBase s op
  | _ => rfl

/-- A call of the base interface returns what the base store's own call returns. -/
theorem result_base (s : PersistentDiffPTData Key Data ID) (op : PTDataOp Key Data) :
    s.result c (.base op) = s.persPTData.result c op := by
  cases op <;> rfl

omit [DecidableEq ID] in
@[simp] theorem diffOf_mk (p : PersistentPTData Key Data ID) (m m' : Map Key ID) (k : Key) :
    (⟨p, m, m'⟩ : PersistentDiffPTData Key Data ID).diffOf c k =
      c.getActualPts (valueAt m k c.emptyPointsToId) := rfl

omit [DecidableEq ID] in
@[simp] theorem propaOf_mk (p : PersistentPTData Key Data ID) (m m' : Map Key ID) (k : Key) :
    (⟨p, m, m'⟩ : PersistentDiffPTData Key Data ID).propaOf c k =
      c.getActualPts (valueAt m' k c.emptyPointsToId) := rfl

/-- Calls of the base interface other than `clear` leave both ID maps' sets alone. -/
theorem diffOf_stepBase (s : PersistentDiffPTData Key Data ID) {op : PTDataOp Key Data}
    (h : op ≠ .clear) (k : Key) :
    (s.stepBase c op).diffOf c k = s.diffOf c k ∧ (s.stepBase c op).propaOf c k = s.propaOf c k := by
  cases op with
  | clear => exact absurd rfl h
  | getRevPts data =>
    simp only [stepBase, getRevPts]
    split_ifs with hr
    · simp only [PersistentPTData.getRevPts, hr, ↓reduceIte]; exact ⟨rfl, rfl⟩
    · exact ⟨rfl, rfl⟩
  | _ => exact ⟨rfl, rfl⟩

theorem computeDiffPts_spec (s : PersistentDiffPTData Key Data ID) (k k' : Key) (all : Finset Data) :
    ((s.computeDiffPts c k all).1 = true ↔ all \ s.propaOf c k ≠ ∅) ∧
    (s.computeDiffPts c k all).2.persPTData = s.persPTData ∧
    (s.computeDiffPts c k all).2.diffOf c k' =
      (if k' = k then all \ s.propaOf c k else s.diffOf c k') ∧
    (s.computeDiffPts c k all).2.propaOf c k' = (if k' = k then all else s.propaOf c k') := by
  refine ⟨?_, rfl, ?_, ?_⟩
  · simp [computeDiffPts, bne_iff_ne, c.eq_emptyPointsToId_iff, propaOf, propaId]
  · simp only [computeDiffPts, diffOf_mk, valueAt_insert]
    split_ifs <;> simp [propaOf, propaId, diffOf, diffId]
  · simp only [computeDiffPts, propaOf_mk, valueAt_insert, valueAt_touch]
    split_ifs <;> simp [propaOf, propaId]

omit [DecidableEq ID] in
theorem updatePropaPtsMap_spec (s : PersistentDiffPTData Key Data ID) (src dst k : Key) :
    (s.updatePropaPtsMap c src dst).persPTData = s.persPTData ∧
    (s.updatePropaPtsMap c src dst).diffOf c k = s.diffOf c k ∧
    (s.updatePropaPtsMap c src dst).propaOf c k =
      (if k = dst then s.propaOf c dst ∩ s.propaOf c src else s.propaOf c k) := by
  refine ⟨rfl, rfl, ?_⟩
  simp only [updatePropaPtsMap, propaOf_mk, valueAt_insert, valueAt_touch]
  split_ifs <;> simp [propaOf, propaId]

omit [DecidableEq ID] in
theorem clearPropaPts_spec (s : PersistentDiffPTData Key Data ID) (var k : Key) :
    (s.clearPropaPts c var).persPTData = s.persPTData ∧
    (s.clearPropaPts c var).diffOf c k = s.diffOf c k ∧
    (s.clearPropaPts c var).propaOf c k = (if k = var then ∅ else s.propaOf c k) := by
  refine ⟨rfl, rfl, ?_⟩
  simp only [clearPropaPts, propaOf_mk, valueAt_insert]
  split_ifs <;> simp [propaOf, propaId]

end PersistentDiffPTData

end PersistentPointsTo
