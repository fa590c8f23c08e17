import PersistentPointsTo.PTData

namespace PersistentPointsTo

/-- `PersistentVersionedPTData`: one `PersistentPTData` for `Key`s and one for
`VersionedKey`s, built with the same cache and the same `rev` flag, which stands for the
store's own `this->rev`. -/
structure PersistentVersionedPTData (Key VersionedKey Data ID : Type) where
  tlPTData : PersistentPTData Key Data ID
  atPTData : PersistentPTData VersionedKey Data ID

/-- The calls of the versioned store: the base interface over either key space, and the
two unions across the spaces. -/
inductive VersionedPTDataOp (Key VersionedKey Data : Type)
  | key (op : PTDataOp Key Data)
  | versionedKey (op : PTDataOp VersionedKey Data)
  | unionPtsVersionedKeyKey (dstVar : VersionedKey) (srcVar : Key)
  | unionPtsKeyVersionedKey (dstVar : Key) (srcVar : VersionedKey)

namespace PersistentVersionedPTData

variable {Key VersionedKey Data ID : Type} [DecidableEq Key] [DecidableEq VersionedKey]
  [LinearOrder Data] [DecidableEq ID]
variable (c : PersistentPointsToCache ID Data)

def init (reversePT : Bool) : PersistentVersionedPTData Key VersionedKey Data ID :=
  ⟨PersistentPTData.init reversePT, PersistentPTData.init reversePT⟩

/-- A call made on `tlPTData`, with its result. -/
def onTl {α : Type} (s : PersistentVersionedPTData Key VersionedKey Data ID)
    (r : α × PersistentPTData Key Data ID) : α × PersistentVersionedPTData Key VersionedKey Data ID :=
  (r.1, { s with tlPTData := r.2 })

/-- A call made on `atPTData`, with its result. -/
def onAt {α : Type} (s : PersistentVersionedPTData Key VersionedKey Data ID)
    (r : α × PersistentPTData VersionedKey Data ID) :
    α × PersistentVersionedPTData Key VersionedKey Data ID :=
  (r.1, { s with atPTData := r.2 })

def clear (s : PersistentVersionedPTData Key VersionedKey Data ID) :
    PersistentVersionedPTData Key VersionedKey Data ID :=
  ⟨s.tlPTData.clear, s.atPTData.clear⟩

def getPts (s : PersistentVersionedPTData Key VersionedKey Data ID) (vk : Key) :
    Finset Data × PersistentVersionedPTData Key VersionedKey Data ID :=
  s.onTl (s.tlPTData.getPts c vk)

/-- `getPts(const VersionedKey &vk)`. -/
def getPtsVersionedKey (s : PersistentVersionedPTData Key VersionedKey Data ID)
    (vk : VersionedKey) : Finset Data × PersistentVersionedPTData Key VersionedKey Data ID :=
  s.onAt (s.atPTData.getPts c vk)

def getRevPts (s : PersistentVersionedPTData Key VersionedKey Data ID) (data : Data) :
    Except String (Finset Key × PersistentVersionedPTData Key VersionedKey Data ID) :=
  if s.tlPTData.rev then (s.tlPTData.getRevPts data).map s.onTl
  else .error "PersistentVersionedPTData::getRevPts: constructed without reverse PT support!"

def getVersionedKeyRevPts (s : PersistentVersionedPTData Key VersionedKey Data ID)
    (data : Data) :
    Except String (Finset VersionedKey × PersistentVersionedPTData Key VersionedKey Data ID) :=
  if s.atPTData.rev then (s.atPTData.getRevPts data).map s.onAt
  else .error
    "PersistentVersionedPTData::getVersionedKeyRevPts: constructed without reverse PT support!"

def addPts (s : PersistentVersionedPTData Key VersionedKey Data ID) (k : Key) (element : Data) :
    Bool × PersistentVersionedPTData Key VersionedKey Data ID :=
  s.onTl (s.tlPTData.addPts c k element)

/-- `addPts(const VersionedKey &vk, const Data &element)`. -/
def addPtsVersionedKey (s : PersistentVersionedPTData Key VersionedKey Data ID)
    (vk : VersionedKey) (element : Data) : Bool × PersistentVersionedPTData Key VersionedKey Data ID :=
  s.onAt (s.atPTData.addPts c vk element)

def unionPts (s : PersistentVersionedPTData Key VersionedKey Data ID) (dstVar srcVar : Key) :
    Bool × PersistentVersionedPTData Key VersionedKey Data ID :=
  s.onTl (s.tlPTData.unionPts c dstVar srcVar)

/-- `unionPts(const VersionedKey &dstVar, const VersionedKey &srcVar)`. -/
def unionPtsVersionedKey (s : PersistentVersionedPTData Key VersionedKey Data ID)
    (dstVar srcVar : VersionedKey) : Bool × PersistentVersionedPTData Key VersionedKey Data ID :=
  s.onAt (s.atPTData.unionPts c dstVar srcVar)

/-- `unionPts(const VersionedKey &dstVar, const Key &srcVar)`: the source's ID is read from
the other key space, through `operator[]`. -/
def unionPtsVersionedKeyKey (s : PersistentVersionedPTData Key VersionedKey Data ID)
    (dstVar : VersionedKey) (srcVar : Key) : Bool × PersistentVersionedPTData Key VersionedKey Data ID :=
  let srcId := s.tlPTData.ptsId c srcVar
  let s := { s with tlPTData := s.tlPTData.touchPts c srcVar }
  s.onAt (s.atPTData.unionPtsFromId c dstVar srcId)

/-- `unionPts(const Key &dstVar, const VersionedKey &srcVar)`. -/
def unionPtsKeyVersionedKey (s : PersistentVersionedPTData Key VersionedKey Data ID)
    (dstVar : Key) (srcVar : VersionedKey) : Bool × PersistentVersionedPTData Key VersionedKey Data ID :=
  let srcId := s.atPTData.ptsId c srcVar
  let s := { s with atPTData := s.atPTData.touchPts c srcVar }
  s.onTl (s.tlPTData.unionPtsFromId c dstVar srcId)

def unionPtsData (s : PersistentVersionedPTData Key VersionedKey Data ID) (dstVar : Key)
    (srcData : Finset Data) : Bool × PersistentVersionedPTData Key VersionedKey Data ID :=
  s.onTl (s.tlPTData.unionPtsData c dstVar srcData)

/-- `unionPts(const VersionedKey &dstVar, const DataSet &srcData)`. -/
def unionPtsDataVersionedKey (s : PersistentVersionedPTData Key VersionedKey Data ID)
    (dstVar : VersionedKey) (srcData : Finset Data) :
    Bool × PersistentVersionedPTData Key VersionedKey Data ID :=
  s.onAt (s.atPTData.unionPtsData c dstVar srcData)

def clearPts (s : PersistentVersionedPTData Key VersionedKey Data ID) (k : Key) (element : Data) :
    PersistentVersionedPTData Key VersionedKey Data ID :=
  { s with tlPTData := s.tlPTData.clearPts c k element }

/-- `clearPts(const VersionedKey &vk, const Data &element)`. -/
def clearPtsVersionedKey (s : PersistentVersionedPTData Key VersionedKey Data ID)
    (vk : VersionedKey) (element : Data) : PersistentVersionedPTData Key VersionedKey Data ID :=
  { s with atPTData := s.atPTData.clearPts c vk element }

def clearFullPts (s : PersistentVersionedPTData Key VersionedKey Data ID) (k : Key) :
    PersistentVersionedPTData Key VersionedKey Data ID :=
  { s with tlPTData := s.tlPTData.clearFullPts c k }

/-- `clearFullPts(const VersionedKey &vk)`. -/
def clearFullPtsVersionedKey (s : PersistentVersionedPTData Key VersionedKey Data ID)
    (vk : VersionedKey) : PersistentVersionedPTData Key VersionedKey Data ID :=
  { s with atPTData := s.atPTData.clearFullPts c vk }

def topN (s : PersistentVersionedPTData Key VersionedKey Data ID) (n : ℕ) : ℕ × ℕ :=
  topNOf c.emptyPointsToId (values s.tlPTData.ptsMap ++ values s.atPTData.ptsMap) n

def inUsePointsToSets (s : PersistentVersionedPTData Key VersionedKey Data ID) : ℕ :=
  inUsePointsToSetsOf (values s.tlPTData.ptsMap ++ values s.atPTData.ptsMap)

/-- The store after a call of the base interface on `Key`s. -/
def stepKey (s : PersistentVersionedPTData Key VersionedKey Data ID) :
    PTDataOp Key Data → PersistentVersionedPTData Key VersionedKey Data ID
  | .clear => s.clear
  | .getPts vk => (s.getPts c vk).2
  | .getRevPts data =>
    match s.getRevPts data with
    | .ok r => r.2
    | .error _ => s
  | .addPts k element => (s.addPts c k element).2
  | .unionPts dstVar srcVar => (s.unionPts c dstVar srcVar).2
  | .unionPtsData dstVar srcData => (s.unionPtsData c dstVar srcData).2
  | .clearPts k element => s.clearPts c k element
  | .clearFullPts k => s.clearFullPts c k

/-- The store after a call of the base interface on `VersionedKey`s. -/
def stepVersionedKey (s : PersistentVersionedPTData Key VersionedKey Data ID) :
    PTDataOp VersionedKey Data → PersistentVersionedPTData Key VersionedKey Data ID
  | .clear => s.clear
  | .getPts vk => (s.getPtsVersionedKey c vk).2
  | .getRevPts data =>
    match s.getVersionedKeyRevPts data with
    | .ok r => r.2
    | .error _ => s
  | .addPts vk element => (s.addPtsVersionedKey c vk element).2
  | .unionPts dstVar srcVar => (s.unionPtsVersionedKey c dstVar srcVar).2
  | .unionPtsData dstVar srcData => (s.unionPtsDataVersionedKey c dstVar srcData).2
  | .clearPts vk element => s.clearPtsVersionedKey c vk element
  | .clearFullPts vk => s.clearFullPtsVersionedKey c vk

def step (s : PersistentVersionedPTData Key VersionedKey Data ID) :
    VersionedPTDataOp Key VersionedKey Data → PersistentVersionedPTData Key VersionedKey Data ID
  | .key op => s.stepKey c op
  | .versionedKey op => s.stepVersionedKey c op
  | .unionPtsVersionedKeyKey dstVar srcVar => (s.unionPtsVersionedKeyKey c dstVar srcVar).2
  | .unionPtsKeyVersionedKey dstVar srcVar => (s.unionPtsKeyVersionedKey c dstVar srcVar).2

/-- What a call returns, for the calls that report whether they changed the store. -/
def result (s : PersistentVersionedPTData Key VersionedKey Data ID) :
    VersionedPTDataOp Key VersionedKey Data → Option Bool
  | .key (.addPts k element) => some (s.addPts c k element).1
  | .key (.unionPts dstVar srcVar) => some (s.unionPts c dstVar srcVar).1
  | .key (.unionPtsData dstVar srcData) => some (s.unionPtsData c dstVar srcData).1
  | .versionedKey (.addPts vk element) => some (s.addPtsVersionedKey c vk element).1
  | .versionedKey (.unionPts dstVar srcVar) => some (s.unionPtsVersionedKey c dstVar srcVar).1
  | .versionedKey (.unionPtsData dstVar srcData) =>
    some (s.unionPtsDataVersionedKey c dstVar srcData).1
  | .unionPtsVersionedKeyKey dstVar srcVar => some (s.unionPtsVersionedKeyKey c dstVar srcVar).1
  | .unionPtsKeyVersionedKey dstVar srcVar => some (s.unionPtsKeyVersionedKey c dstVar srcVar).1
  | _ => none

/-- The points-to set of a key of either space. -/
def ptsOf (s : PersistentVersionedPTData Key VersionedKey Data ID) :
    Key ⊕ VersionedKey → Finset Data
  | .inl k => s.tlPTData.ptsOf c k
  | .inr vk => s.atPTData.ptsOf c vk

/-- The keys pointing to `data`, as `getRevPts` returns them. -/
def revOf (s : PersistentVersionedPTData Key VersionedKey Data ID) (data : Data) : Finset Key :=
  s.tlPTData.revOf data

/-! ### What each call does to the two spaces -/

variable {c}

omit [DecidableEq VersionedKey] in
theorem stepKey_spaces (s : PersistentVersionedPTData Key VersionedKey Data ID)
    {op : PTDataOp Key Data} (h : op ≠ .clear) :
    (s.stepKey c op).tlPTData = s.tlPTData.step c op ∧ (s.stepKey c op).atPTData = s.atPTData := by
  cases op with
  | clear => exact absurd rfl h
  | getRevPts data =>
    simp only [stepKey, getRevPts, PersistentPTData.step, PersistentPTData.getRevPts]
    split_ifs <;> exact ⟨rfl, rfl⟩
  | _ => exact ⟨rfl, rfl⟩

omit [DecidableEq Key] in
theorem stepVersionedKey_spaces (s : PersistentVersionedPTData Key VersionedKey Data ID)
    {op : PTDataOp VersionedKey Data} (h : op ≠ .clear) :
    (s.stepVersionedKey c op).atPTData = s.atPTData.step c op ∧
      (s.stepVersionedKey c op).tlPTData = s.tlPTData := by
  cases op with
  | clear => exact absurd rfl h
  | getRevPts data =>
    simp only [stepVersionedKey, getVersionedKeyRevPts, PersistentPTData.step,
      PersistentPTData.getRevPts]
    split_ifs <;> exact ⟨rfl, rfl⟩
  | _ => exact ⟨rfl, rfl⟩

/-- A call on `Key`s returns what `tlPTData`'s own call returns. -/
theorem result_key (s : PersistentVersionedPTData Key VersionedKey Data ID)
    (op : PTDataOp Key Data) : s.result c (.key op) = s.tlPTData.result c op := by
  cases op <;> rfl

/-- A call on `VersionedKey`s returns what `atPTData`'s own call returns. -/
theorem result_versionedKey (s : PersistentVersionedPTData Key VersionedKey Data ID)
    (op : PTDataOp VersionedKey Data) : s.result c (.versionedKey op) = s.atPTData.result c op := by
  cases op <;> rfl

end PersistentVersionedPTData

end PersistentPointsTo
