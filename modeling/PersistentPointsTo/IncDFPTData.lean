import PersistentPointsTo.DFPTData

namespace PersistentPointsTo

/-- The source's `UpdatedVarMap`: per location, the keys whose set changed since a consumer
last took them. -/
abbrev UpdatedVarMap (LocID Key : Type) := Map LocID (Finset Key)

namespace UpdatedVarMap

variable {LocID Key : Type} [DecidableEq LocID] [DecidableEq Key]

/-- `insertKey(var, m[loc])`. -/
def insertKey (m : UpdatedVarMap LocID Key) (loc : LocID) (var : Key) : UpdatedVarMap LocID Key :=
  m.insert loc (insert var (valueAt m loc ∅))

/-- `m.find(loc)->second.reset(var)`, when `loc` has an entry. -/
def reset (m : UpdatedVarMap LocID Key) (loc : LocID) (var : Key) : UpdatedVarMap LocID Key :=
  match m.lookup loc with
  | some vars => m.insert loc (vars.erase var)
  | none => m

/-- `m.find(loc)->second.test(var)`, false when `loc` has no entry. -/
def test (m : UpdatedVarMap LocID Key) (loc : LocID) (var : Key) : Bool :=
  match m.lookup loc with
  | some vars => var ∈ vars
  | none => false

@[simp] theorem test_eq (m : UpdatedVarMap LocID Key) (loc : LocID) (var : Key) :
    m.test loc var = decide (var ∈ valueAt m loc ∅) := by
  unfold test valueAt
  cases m.lookup loc <;> simp

@[simp] theorem valueAt_insertKey (m : UpdatedVarMap LocID Key) (loc l : LocID) (var : Key) :
    valueAt (m.insertKey loc var) l ∅ = if l = loc then insert var (valueAt m loc ∅) else valueAt m l ∅ :=
  valueAt_insert _ _ _ _ _

@[simp] theorem valueAt_reset (m : UpdatedVarMap LocID Key) (loc l : LocID) (var : Key) :
    valueAt (m.reset loc var) l ∅ = if l = loc then (valueAt m loc ∅).erase var else valueAt m l ∅ := by
  unfold reset
  cases h : m.lookup loc with
  | some vars =>
    have hv : valueAt m loc ∅ = vars := by simp [valueAt, h]
    simp only [valueAt_insert, hv]
  | none =>
    split_ifs with hl
    · subst hl; simp [valueAt, h]
    · rfl

end UpdatedVarMap

namespace DFTransfer

variable {Key LocID : Type}

/-- The slot whose flag the incremental store tests before a transfer, if it tests one. -/
def guard : DFTransfer Key LocID → Option (Slot Key LocID)
  | .updateDFInFromIn sL sK _ _ => some (.dfIn sL sK)
  | .updateDFInFromOut sL sK _ _ => some (.dfOut sL sK)
  | .updateDFOutFromIn sL sK _ _ => some (.dfIn sL sK)
  | .updateTLVPts sL sK _ => some (.dfIn sL sK)
  | _ => none

/-- Whether the incremental store takes the source's flag away before the union. -/
def consumes : DFTransfer Key LocID → Bool
  | .updateDFOutFromIn .. => true
  | .updateTLVPts .. => true
  | _ => false

/-- A routed transfer tests no flag but its source's. -/
theorem guard_of_route {t : DFTransfer Key LocID} {dst src : Slot Key LocID}
    (h : t.route = some (dst, src)) {g : Slot Key LocID} (hg : t.guard = some g) : g = src := by
  cases t <;> simp_all [route, guard]

/-- A transfer that takes its source's flag away writes another slot. -/
theorem dst_ne_src_of_consumes {t : DFTransfer Key LocID} {dst src : Slot Key LocID}
    (h : t.route = some (dst, src)) (hc : t.consumes = true) : dst ≠ src := by
  cases t <;> simp only [route, consumes, Option.some.injEq, Prod.mk.injEq, reduceCtorEq] at h hc <;>
    obtain ⟨rfl, rfl⟩ := h <;> simp

end DFTransfer

/-- `PersistentIncDFPTData`: a data-flow store that also records, per location, the keys
whose IN or OUT set changed since a consumer last took them. -/
structure PersistentIncDFPTData (Key Data ID LocID : Type)
    extends PersistentDFPTData Key Data ID LocID where
  outUpdatedVarMap : UpdatedVarMap LocID Key
  inUpdatedVarMap : UpdatedVarMap LocID Key

namespace PersistentIncDFPTData

variable {Key Data ID LocID : Type} [LinearOrder Key] [LinearOrder Data] [DecidableEq ID]
  [DecidableEq LocID]
variable (c : PersistentPointsToCache ID Data)

def init (reversePT : Bool) : PersistentIncDFPTData Key Data ID LocID :=
  ⟨PersistentDFPTData.init reversePT, ∅, ∅⟩

/-- A call of the data-flow store made on the embedded store, with its result. -/
def lift {α : Type} (s : PersistentIncDFPTData Key Data ID LocID)
    (r : α × PersistentDFPTData Key Data ID LocID) : α × PersistentIncDFPTData Key Data ID LocID :=
  (r.1, { s with toPersistentDFPTData := r.2 })

def setVarDFInSetUpdated (s : PersistentIncDFPTData Key Data ID LocID) (loc : LocID) (var : Key) :
    PersistentIncDFPTData Key Data ID LocID :=
  { s with inUpdatedVarMap := s.inUpdatedVarMap.insertKey loc var }

def removeVarFromDFInUpdatedSet (s : PersistentIncDFPTData Key Data ID LocID) (loc : LocID)
    (var : Key) : PersistentIncDFPTData Key Data ID LocID :=
  { s with inUpdatedVarMap := s.inUpdatedVarMap.reset loc var }

def varHasNewDFInPts (s : PersistentIncDFPTData Key Data ID LocID) (loc : LocID) (var : Key) :
    Bool :=
  s.inUpdatedVarMap.test loc var

def getDFInUpdatedVar (s : PersistentIncDFPTData Key Data ID LocID) (loc : LocID) :
    Finset Key × PersistentIncDFPTData Key Data ID LocID :=
  (valueAt s.inUpdatedVarMap loc ∅, { s with inUpdatedVarMap := touch s.inUpdatedVarMap loc ∅ })

def setVarDFOutSetUpdated (s : PersistentIncDFPTData Key Data ID LocID) (loc : LocID)
    (var : Key) : PersistentIncDFPTData Key Data ID LocID :=
  { s with outUpdatedVarMap := s.outUpdatedVarMap.insertKey loc var }

def removeVarFromDFOutUpdatedSet (s : PersistentIncDFPTData Key Data ID LocID) (loc : LocID)
    (var : Key) : PersistentIncDFPTData Key Data ID LocID :=
  { s with outUpdatedVarMap := s.outUpdatedVarMap.reset loc var }

def varHasNewDFOutPts (s : PersistentIncDFPTData Key Data ID LocID) (loc : LocID) (var : Key) :
    Bool :=
  s.outUpdatedVarMap.test loc var

def getDFOutUpdatedVar (s : PersistentIncDFPTData Key Data ID LocID) (loc : LocID) :
    Finset Key × PersistentIncDFPTData Key Data ID LocID :=
  (valueAt s.outUpdatedVarMap loc ∅, { s with outUpdatedVarMap := touch s.outUpdatedVarMap loc ∅ })

/-- The body the transfers share: `if (unionPtsThroughIds(dst, src)) { mark; return true; }
return false;`. -/
def unionPtsMarking (s : PersistentIncDFPTData Key Data ID LocID) (dst src : Slot Key LocID)
    (mark : PersistentIncDFPTData Key Data ID LocID → PersistentIncDFPTData Key Data ID LocID) :
    Bool × PersistentIncDFPTData Key Data ID LocID :=
  let r := s.lift (s.unionPtsThroughIds c dst src)
  if r.1 then (true, mark r.2) else (false, r.2)

def updateDFInFromIn (s : PersistentIncDFPTData Key Data ID LocID) (srcLoc : LocID) (srcVar : Key)
    (dstLoc : LocID) (dstVar : Key) : Bool × PersistentIncDFPTData Key Data ID LocID :=
  if s.varHasNewDFInPts srcLoc srcVar then
    s.unionPtsMarking c (.dfIn dstLoc dstVar) (.dfIn srcLoc srcVar)
      (·.setVarDFInSetUpdated dstLoc dstVar)
  else (false, s)

def updateDFInFromOut (s : PersistentIncDFPTData Key Data ID LocID) (srcLoc : LocID)
    (srcVar : Key) (dstLoc : LocID) (dstVar : Key) : Bool × PersistentIncDFPTData Key Data ID LocID :=
  if s.varHasNewDFOutPts srcLoc srcVar then
    s.unionPtsMarking c (.dfIn dstLoc dstVar) (.dfOut srcLoc srcVar)
      (·.setVarDFInSetUpdated dstLoc dstVar)
  else (false, s)

/-- `updateDFOutFromIn`: the source's flag is taken away before the union. -/
def updateDFOutFromIn (s : PersistentIncDFPTData Key Data ID LocID) (srcLoc : LocID)
    (srcVar : Key) (dstLoc : LocID) (dstVar : Key) : Bool × PersistentIncDFPTData Key Data ID LocID :=
  if s.varHasNewDFInPts srcLoc srcVar then
    (s.removeVarFromDFInUpdatedSet srcLoc srcVar).unionPtsMarking c (.dfOut dstLoc dstVar)
      (.dfIn srcLoc srcVar) (·.setVarDFOutSetUpdated dstLoc dstVar)
  else (false, s)

def updateAllDFInFromOut (s : PersistentIncDFPTData Key Data ID LocID) (srcLoc : LocID)
    (srcVar : Key) (dstLoc : LocID) (dstVar : Key) : Bool × PersistentIncDFPTData Key Data ID LocID :=
  s.unionPtsMarking c (.dfIn dstLoc dstVar) (.dfOut srcLoc srcVar)
    (·.setVarDFInSetUpdated dstLoc dstVar)

def updateAllDFInFromIn (s : PersistentIncDFPTData Key Data ID LocID) (srcLoc : LocID)
    (srcVar : Key) (dstLoc : LocID) (dstVar : Key) : Bool × PersistentIncDFPTData Key Data ID LocID :=
  s.unionPtsMarking c (.dfIn dstLoc dstVar) (.dfIn srcLoc srcVar)
    (·.setVarDFInSetUpdated dstLoc dstVar)

/-- The loop body of `updateAllDFOutFromIn`, with this store's `updateDFOutFromIn`. -/
def outFromInStep (loc : LocID) (singleton : Key) (strongUpdates : Bool) :
    Bool × PersistentIncDFPTData Key Data ID LocID → Key →
      Bool × PersistentIncDFPTData Key Data ID LocID :=
  allDFOutFromInStep (fun s var => s.updateDFOutFromIn c loc var loc var) singleton strongUpdates

/-- `updateAllDFOutFromIn`: only the keys of a copy of `loc`'s IN updated set are visited, in
the ascending order of the source's bit-vector sets. -/
def updateAllDFOutFromIn (s : PersistentIncDFPTData Key Data ID LocID) (loc : LocID)
    (singleton : Key) (strongUpdates : Bool) : Bool × PersistentIncDFPTData Key Data ID LocID :=
  if s.hasDFInSet loc then
    let (vars, s) := s.getDFInUpdatedVar loc
    (vars.sort (· ≤ ·)).foldl (outFromInStep c loc singleton strongUpdates) (false, s)
  else (false, s)

/-- `updateTLVPts`: the source's flag is taken away, and the top-level destination gets none. -/
def updateTLVPts (s : PersistentIncDFPTData Key Data ID LocID) (srcLoc : LocID)
    (srcVar dstVar : Key) : Bool × PersistentIncDFPTData Key Data ID LocID :=
  if s.varHasNewDFInPts srcLoc srcVar then
    let s := s.removeVarFromDFInUpdatedSet srcLoc srcVar
    s.lift (s.unionPtsThroughIds c (.top dstVar) (.dfIn srcLoc srcVar))
  else (false, s)

def updateATVPts (s : PersistentIncDFPTData Key Data ID LocID) (srcVar : Key) (dstLoc : LocID)
    (dstVar : Key) : Bool × PersistentIncDFPTData Key Data ID LocID :=
  s.unionPtsMarking c (.dfOut dstLoc dstVar) (.top srcVar) (·.setVarDFOutSetUpdated dstLoc dstVar)

def clearAllDFOutUpdatedVar (s : PersistentIncDFPTData Key Data ID LocID) (loc : LocID) :
    PersistentIncDFPTData Key Data ID LocID :=
  if s.hasDFOutSet loc then
    let (vars, s) := s.getDFOutUpdatedVar loc
    (vars.sort (· ≤ ·)).foldl (fun s var => s.removeVarFromDFOutUpdatedSet loc var) s
  else s

/-- A transfer call and its result; `clearAllDFOutUpdatedVar` returns nothing. -/
def transfer (s : PersistentIncDFPTData Key Data ID LocID) :
    DFTransfer Key LocID → Bool × PersistentIncDFPTData Key Data ID LocID
  | .updateDFInFromIn sL sK dL dK => s.updateDFInFromIn c sL sK dL dK
  | .updateAllDFInFromIn sL sK dL dK => s.updateAllDFInFromIn c sL sK dL dK
  | .updateDFInFromOut sL sK dL dK => s.updateDFInFromOut c sL sK dL dK
  | .updateAllDFInFromOut sL sK dL dK => s.updateAllDFInFromOut c sL sK dL dK
  | .updateDFOutFromIn sL sK dL dK => s.updateDFOutFromIn c sL sK dL dK
  | .updateAllDFOutFromIn loc v su => s.updateAllDFOutFromIn c loc v su
  | .clearAllDFOutUpdatedVar loc => (false, s.clearAllDFOutUpdatedVar loc)
  | .updateTLVPts sL sK dK => s.updateTLVPts c sL sK dK
  | .updateATVPts sK dL dK => s.updateATVPts c sK dL dK

/-- The store after one call; the calls it does not override are the data-flow store's. -/
def step (s : PersistentIncDFPTData Key Data ID LocID) :
    DFPTDataOp Key Data LocID → PersistentIncDFPTData Key Data ID LocID
  | .transfer t => (s.transfer c t).2
  | op => { s with toPersistentDFPTData := s.toPersistentDFPTData.step c op }

/-- What a call returns, for the calls that report whether they changed the store. -/
def result (s : PersistentIncDFPTData Key Data ID LocID) : DFPTDataOp Key Data LocID → Option Bool
  | .base (.addPts dstKey element) => some (s.addPts c dstKey element).1
  | .base (.unionPts dstKey srcKey) => some (s.unionPts c dstKey srcKey).1
  | .base (.unionPtsData dstKey srcData) => some (s.unionPtsData c dstKey srcData).1
  | .transfer (.clearAllDFOutUpdatedVar _) => none
  | .transfer t => some (s.transfer c t).1
  | _ => none

/-- `loc`'s IN updated set. -/
def inUpdated (s : PersistentIncDFPTData Key Data ID LocID) (loc : LocID) : Finset Key :=
  valueAt s.inUpdatedVarMap loc ∅

/-- `loc`'s OUT updated set. -/
def outUpdated (s : PersistentIncDFPTData Key Data ID LocID) (loc : LocID) : Finset Key :=
  valueAt s.outUpdatedVarMap loc ∅

/-- Whether a slot's key is in its location's updated set; top-level slots carry no flag. -/
def flagged (s : PersistentIncDFPTData Key Data ID LocID) : Slot Key LocID → Bool
  | .top _ => false
  | .dfIn loc var => s.varHasNewDFInPts loc var
  | .dfOut loc var => s.varHasNewDFOutPts loc var

/-! ### The flag helpers -/

section Flags

variable (s : PersistentIncDFPTData Key Data ID LocID) (loc : LocID) (var : Key)
omit [LinearOrder Data] [DecidableEq ID]

theorem flagged_dfIn : s.flagged (.dfIn loc var) = true ↔ var ∈ s.inUpdated loc := by
  simp [flagged, varHasNewDFInPts, inUpdated]

theorem flagged_dfOut : s.flagged (.dfOut loc var) = true ↔ var ∈ s.outUpdated loc := by
  simp [flagged, varHasNewDFOutPts, outUpdated]

@[simp] theorem flagged_setVarDFInSetUpdated (y : Slot Key LocID) :
    (s.setVarDFInSetUpdated loc var).flagged y = true ↔ s.flagged y = true ∨ y = .dfIn loc var := by
  cases y <;> simp [flagged, setVarDFInSetUpdated, varHasNewDFInPts, varHasNewDFOutPts]
  split_ifs <;> simp_all [or_comm]

@[simp] theorem flagged_setVarDFOutSetUpdated (y : Slot Key LocID) :
    (s.setVarDFOutSetUpdated loc var).flagged y = true ↔ s.flagged y = true ∨ y = .dfOut loc var := by
  cases y <;> simp [flagged, setVarDFOutSetUpdated, varHasNewDFInPts, varHasNewDFOutPts]
  split_ifs <;> simp_all [or_comm]

@[simp] theorem flagged_removeVarFromDFInUpdatedSet (y : Slot Key LocID) :
    (s.removeVarFromDFInUpdatedSet loc var).flagged y = true ↔
      s.flagged y = true ∧ y ≠ .dfIn loc var := by
  cases y <;> simp [flagged, removeVarFromDFInUpdatedSet, varHasNewDFInPts, varHasNewDFOutPts]
  split_ifs <;> simp_all [and_comm]

@[simp] theorem flagged_removeVarFromDFOutUpdatedSet (y : Slot Key LocID) :
    (s.removeVarFromDFOutUpdatedSet loc var).flagged y = true ↔
      s.flagged y = true ∧ y ≠ .dfOut loc var := by
  cases y <;> simp [flagged, removeVarFromDFOutUpdatedSet, varHasNewDFInPts, varHasNewDFOutPts]
  split_ifs <;> simp_all [and_comm]

omit [LinearOrder Key] [DecidableEq LocID] in
@[simp] theorem lift_fst {α : Type} (r : α × PersistentDFPTData Key Data ID LocID) :
    (s.lift r).1 = r.1 := rfl

omit [LinearOrder Key] [DecidableEq LocID] in
@[simp] theorem toPersistentDFPTData_lift {α : Type} (r : α × PersistentDFPTData Key Data ID LocID) :
    (s.lift r).2.toPersistentDFPTData = r.2 := rfl

@[simp] theorem flagged_lift {α : Type} (r : α × PersistentDFPTData Key Data ID LocID) :
    (s.lift r).2.flagged = s.flagged := rfl

omit [LinearOrder Key] in
@[simp] theorem getDFInUpdatedVar_fst : (s.getDFInUpdatedVar loc).1 = s.inUpdated loc := rfl

omit [LinearOrder Key] in
@[simp] theorem toPersistentDFPTData_getDFInUpdatedVar :
    (s.getDFInUpdatedVar loc).2.toPersistentDFPTData = s.toPersistentDFPTData := rfl

omit [LinearOrder Key] in
@[simp] theorem getDFOutUpdatedVar_fst : (s.getDFOutUpdatedVar loc).1 = s.outUpdated loc := rfl

omit [LinearOrder Key] in
@[simp] theorem toPersistentDFPTData_getDFOutUpdatedVar :
    (s.getDFOutUpdatedVar loc).2.toPersistentDFPTData = s.toPersistentDFPTData := rfl

@[simp] theorem flagged_getDFInUpdatedVar : (s.getDFInUpdatedVar loc).2.flagged = s.flagged := by
  funext y
  cases y <;> simp [flagged, getDFInUpdatedVar, varHasNewDFInPts, varHasNewDFOutPts]

@[simp] theorem flagged_getDFOutUpdatedVar : (s.getDFOutUpdatedVar loc).2.flagged = s.flagged := by
  funext y
  cases y <;> simp [flagged, getDFOutUpdatedVar, varHasNewDFInPts, varHasNewDFOutPts]

end Flags

/-! ### What each transfer does -/

variable {c}

/-- The shared body, into an IN or OUT slot: the data-flow union, and the mark when it grew
`dst`. -/
theorem unionPtsMarking_spec (s : PersistentIncDFPTData Key Data ID LocID)
    (dst src : Slot Key LocID) (mark : PersistentIncDFPTData Key Data ID LocID →
      PersistentIncDFPTData Key Data ID LocID)
    (hdf : ∀ s', (mark s').toPersistentDFPTData = s'.toPersistentDFPTData)
    (hmark : ∀ s' y, (mark s').flagged y = true ↔ s'.flagged y = true ∨ y = dst)
    (hd : dst.isDF = true) :
    ((s.unionPtsMarking c dst src mark).1 = true ↔ ¬ s.ptsAt c src ⊆ s.ptsAt c dst) ∧
    (s.unionPtsMarking c dst src mark).2.toPersistentDFPTData = (s.unionPtsThroughIds c dst src).2 ∧
    ∀ y, (s.unionPtsMarking c dst src mark).2.flagged y = true ↔
      s.flagged y = true ∨ (y = dst ∧ y.isDF = true ∧ (s.unionPtsMarking c dst src mark).1 = true) := by
  rw [← PersistentDFPTData.unionPtsThroughIds_fst]
  simp only [unionPtsMarking]
  cases h : (s.unionPtsThroughIds c dst src).1 <;> simp [h, hdf, hmark]
  exact fun y => or_congr_right ⟨fun hy => ⟨hy, hy ▸ hd⟩, And.left⟩

/-- A single-destination transfer under its guard is the union, consuming the source's flag and
flagging a destination that grew; with the guard false it does nothing. -/
theorem transfer_of_route (s : PersistentIncDFPTData Key Data ID LocID) {t : DFTransfer Key LocID}
    {dst src : Slot Key LocID} (h : t.route = some (dst, src)) :
    (t.guard.all s.flagged = false → s.transfer c t = (false, s)) ∧
    (t.guard.all s.flagged = true →
      ((s.transfer c t).1 = true ↔ ¬ s.ptsAt c src ⊆ s.ptsAt c dst) ∧
      (s.transfer c t).2.toPersistentDFPTData = (s.unionPtsThroughIds c dst src).2 ∧
      ∀ y, (s.transfer c t).2.flagged y = true ↔
        (s.flagged y = true ∧ ¬(t.consumes = true ∧ y = src)) ∨
          (y = dst ∧ y.isDF = true ∧ (s.transfer c t).1 = true)) := by
  cases t <;> simp only [DFTransfer.route, Option.some.injEq, Prod.mk.injEq, reduceCtorEq] at h <;>
    obtain ⟨rfl, rfl⟩ := h
  -- no flag tested: the marking union
  case updateAllDFInFromIn | updateAllDFInFromOut | updateATVPts =>
    refine ⟨fun hg => by simp [DFTransfer.guard] at hg, fun _ => ?_⟩
    simp only [transfer, updateAllDFInFromIn, updateAllDFInFromOut, updateATVPts,
      DFTransfer.consumes, Bool.false_eq_true, false_and, not_false_eq_true, and_true]
    exact unionPtsMarking_spec s _ _ _ (fun _ => rfl) (fun _ _ => by simp) rfl
  -- the source's flag tested and kept
  case updateDFInFromIn | updateDFInFromOut =>
    refine ⟨fun hg => by
      simp_all [transfer, updateDFInFromIn, updateDFInFromOut, DFTransfer.guard, flagged],
      fun hg => ?_⟩
    simp only [DFTransfer.guard, Option.all_some, flagged] at hg
    simp only [transfer, updateDFInFromIn, updateDFInFromOut, hg, if_true,
      DFTransfer.consumes, Bool.false_eq_true, false_and, not_false_eq_true, and_true]
    exact unionPtsMarking_spec s _ _ _ (fun _ => rfl) (fun _ _ => by simp) rfl
  -- the source's flag tested and taken
  case updateDFOutFromIn sL sK dL dK =>
    refine ⟨fun hg => by simp_all [transfer, updateDFOutFromIn, DFTransfer.guard, flagged],
      fun hg => ?_⟩
    simp only [DFTransfer.guard, Option.all_some, flagged] at hg
    simp only [transfer, updateDFOutFromIn, hg, if_true]
    obtain ⟨h1, h2, h3⟩ := unionPtsMarking_spec (c := c) (s.removeVarFromDFInUpdatedSet sL sK)
      (.dfOut dL dK) (.dfIn sL sK) (·.setVarDFOutSetUpdated dL dK) (fun _ => rfl)
      (flagged_setVarDFOutSetUpdated · dL dK) rfl
    exact ⟨h1, h2, fun y => by simp [h3, DFTransfer.consumes]⟩
  case updateTLVPts sL sK dK =>
    refine ⟨fun hg => by simp_all [transfer, updateTLVPts, DFTransfer.guard, flagged],
      fun hg => ?_⟩
    simp only [DFTransfer.guard, Option.all_some, flagged] at hg
    simp only [transfer, updateTLVPts, hg, if_true]
    refine ⟨PersistentDFPTData.unionPtsThroughIds_fst _ _ _, rfl, fun y => ?_⟩
    simp [DFTransfer.consumes]

/-- On a flagged key the loop body is the data-flow store's, with the key's IN flag taken away
and its OUT flag set when its OUT set grew. -/
theorem outFromInStep_spec (loc : LocID) (v : Key) (su : Bool)
    (acc : Bool × PersistentIncDFPTData Key Data ID LocID) (a : Key)
    (ha : acc.2.flagged (.dfIn loc a) = true) :
    (outFromInStep c loc v su acc a).1 =
      (PersistentDFPTData.outFromInStep c loc v su (acc.1, acc.2.toPersistentDFPTData) a).1 ∧
    (outFromInStep c loc v su acc a).2.toPersistentDFPTData =
      (PersistentDFPTData.outFromInStep c loc v su (acc.1, acc.2.toPersistentDFPTData) a).2 ∧
    ∀ y, (outFromInStep c loc v su acc a).2.flagged y = true ↔
      (acc.2.flagged y = true ∧ ¬(¬(su = true ∧ a = v) ∧ y = .dfIn loc a)) ∨
      (¬(su = true ∧ a = v) ∧ y = .dfOut loc a ∧
        ¬ acc.2.ptsAt c (.dfIn loc a) ⊆ acc.2.ptsAt c (.dfOut loc a)) := by
  unfold outFromInStep PersistentDFPTData.outFromInStep allDFOutFromInStep
  by_cases hs : su = true ∧ a = v
  · have hb : (su && a == v) = true := by simpa using hs
    simp [hb, hs]
  · have hb : (su && a == v) = false := by simpa using hs
    obtain ⟨h1, h2, h3⟩ := (transfer_of_route (c := c) acc.2
      (t := .updateDFOutFromIn loc a loc a) rfl).2 ha
    simp only [hb, Bool.false_eq_true, ↓reduceIte, hs, not_false_eq_true, true_and]
    simp only [transfer] at h1 h2 h3
    have he : (updateDFOutFromIn c acc.2 loc a loc a).1 =
        (acc.2.toPersistentDFPTData.updateDFOutFromIn c loc a loc a).1 :=
      Bool.eq_iff_iff.mpr (h1.trans (PersistentDFPTData.unionPtsThroughIds_fst _ _ _).symm)
    refine ⟨by rw [he], h2, fun y => ?_⟩
    rw [h3, h1]
    cases y <;> simp [DFTransfer.consumes, Slot.isDF]

/-- The loop over the copy of the IN updated set: the data-flow store's loop over the same keys,
with their IN flags taken away and the OUT flags of the keys whose OUT set grew set. -/
theorem foldl_outFromInStep (loc : LocID) (v : Key) (su : Bool) {L : List Key} (hL : L.Nodup)
    (acc : Bool × PersistentIncDFPTData Key Data ID LocID)
    (hf : ∀ a ∈ L, acc.2.flagged (.dfIn loc a) = true) :
    (L.foldl (outFromInStep c loc v su) acc).1 =
      (L.foldl (PersistentDFPTData.outFromInStep c loc v su) (acc.1, acc.2.toPersistentDFPTData)).1 ∧
    (L.foldl (outFromInStep c loc v su) acc).2.toPersistentDFPTData =
      (L.foldl (PersistentDFPTData.outFromInStep c loc v su) (acc.1, acc.2.toPersistentDFPTData)).2 ∧
    ∀ y, (L.foldl (outFromInStep c loc v su) acc).2.flagged y = true ↔
      (acc.2.flagged y = true ∧ ¬ ∃ k ∈ L, ¬(su = true ∧ k = v) ∧ y = .dfIn loc k) ∨
      ∃ k ∈ L, ¬(su = true ∧ k = v) ∧ y = .dfOut loc k ∧
        ¬ acc.2.ptsAt c (.dfIn loc k) ⊆ acc.2.ptsAt c (.dfOut loc k) := by
  induction L generalizing acc with
  | nil => simp
  | cons a L ih =>
    obtain ⟨ha, hL⟩ := List.nodup_cons.mp hL
    obtain ⟨h1, h2, h3⟩ := outFromInStep_spec (c := c) loc v su acc a (hf a (List.mem_cons_self _ _))
    have hf' : ∀ k ∈ L, (outFromInStep c loc v su acc a).2.flagged (.dfIn loc k) = true := by
      intro k hk
      have hka : k ≠ a := fun h => ha (h ▸ hk)
      simp [h3, hf k (List.mem_cons_of_mem _ hk), hka]
    obtain ⟨ih1, ih2, ih3⟩ := ih hL _ hf'
    -- the keys after `a` read the sets of the start: `a` touches only its own OUT slot
    have hsame : ∀ k ∈ L, (outFromInStep c loc v su acc a).2.ptsAt c (.dfIn loc k) =
        acc.2.ptsAt c (.dfIn loc k) ∧ (outFromInStep c loc v su acc a).2.ptsAt c (.dfOut loc k) =
        acc.2.ptsAt c (.dfOut loc k) := fun k hk => by
      rw [h2]
      exact PersistentDFPTData.outFromInStep_ptsAt_of_ne loc v su _ fun h : k = a => ha (h ▸ hk)
    simp only [List.foldl_cons]
    refine ⟨by rw [ih1, h1, h2], by rw [ih2, h1, h2], fun y => ?_⟩
    rw [ih3, h3]
    constructor
    · rintro (⟨(⟨hy, hn⟩ | ⟨hs, rfl, hsub⟩), hn'⟩ | ⟨k, hk, hs, rfl, hsub⟩)
      · exact .inl ⟨hy, by rintro ⟨k, hk, hs, rfl⟩; rcases List.mem_cons.mp hk with rfl | hk
                            <;> [exact hn ⟨hs, rfl⟩; exact hn' ⟨k, hk, hs, rfl⟩]⟩
      · exact .inr ⟨a, List.mem_cons_self _ _, hs, rfl, hsub⟩
      · rw [(hsame k hk).1, (hsame k hk).2] at hsub
        exact .inr ⟨k, List.mem_cons_of_mem _ hk, hs, rfl, hsub⟩
    · rintro (⟨hy, hn⟩ | ⟨k, hk, hs, rfl, hsub⟩)
      · exact .inl ⟨.inl ⟨hy, fun ⟨hs, he⟩ => hn ⟨a, List.mem_cons_self _ _, hs, he⟩⟩,
          fun ⟨k, hk, hs, he⟩ => hn ⟨k, List.mem_cons_of_mem _ hk, hs, he⟩⟩
      · rcases List.mem_cons.mp hk with rfl | hk
        · exact .inl ⟨.inr ⟨hs, rfl, hsub⟩, fun ⟨k', hk', _, he⟩ => by simp at he⟩
        · rw [← (hsame k hk).1, ← (hsame k hk).2] at hsub
          exact .inr ⟨k, hk, hs, rfl, hsub⟩


theorem updateAllDFOutFromIn_eq (s : PersistentIncDFPTData Key Data ID LocID) (loc : LocID)
    (v : Key) (su : Bool) : s.updateAllDFOutFromIn c loc v su =
      if s.hasDFInSet loc then
        (((s.getDFInUpdatedVar loc).1).sort (· ≤ ·)).foldl (outFromInStep c loc v su)
          (false, (s.getDFInUpdatedVar loc).2)
      else (false, s) := rfl

/-- The incremental bulk transfer joins IN into OUT over `loc`'s IN updated keys but a strongly
updated `v`, and moves their flags to the OUT sets that grew. -/
theorem updateAllDFOutFromIn_spec (s : PersistentIncDFPTData Key Data ID LocID) (loc : LocID)
    (v : Key) (su : Bool) :
    ((s.updateAllDFOutFromIn c loc v su).1 = true ↔ ∃ k, (s.hasDFInSet loc = true ∧
      k ∈ s.inUpdated loc ∧ ¬(su = true ∧ k = v)) ∧
        ¬ s.ptsAt c (.dfIn loc k) ⊆ s.ptsAt c (.dfOut loc k)) ∧
    (s.updateAllDFOutFromIn c loc v su).2.ptsAt c = Slot.joinInToOut (s.ptsAt c) loc
      (fun k => s.hasDFInSet loc = true ∧ k ∈ s.inUpdated loc ∧ ¬(su = true ∧ k = v)) ∧
    ∀ y, (s.updateAllDFOutFromIn c loc v su).2.flagged y = true ↔
      (s.flagged y = true ∧ ¬ ∃ k, (s.hasDFInSet loc = true ∧ k ∈ s.inUpdated loc ∧
        ¬(su = true ∧ k = v)) ∧ y = .dfIn loc k) ∨
      ∃ k, (s.hasDFInSet loc = true ∧ k ∈ s.inUpdated loc ∧ ¬(su = true ∧ k = v)) ∧
        y = .dfOut loc k ∧ ¬ s.ptsAt c (.dfIn loc k) ⊆ s.ptsAt c (.dfOut loc k) := by
  rw [updateAllDFOutFromIn_eq]
  split
  · rename_i hin
    have hf : ∀ a ∈ (s.getDFInUpdatedVar loc).1.sort (· ≤ ·),
        (s.getDFInUpdatedVar loc).2.flagged (.dfIn loc a) = true := fun a ha => by
      rw [flagged_getDFInUpdatedVar, flagged_dfIn]; exact (Finset.mem_sort _).mp ha
    obtain ⟨h1, h2, h3⟩ := foldl_outFromInStep (c := c) loc v su (Finset.sort_nodup _ _)
      (false, (s.getDFInUpdatedVar loc).2) hf
    obtain ⟨g1, g2⟩ := PersistentDFPTData.foldl_allDFOutFromInStep (c := c) loc v su
      (Finset.sort_nodup (· ≤ ·) (s.inUpdated loc)) (false, s.toPersistentDFPTData)
    refine ⟨?_, ?_, fun y => ?_⟩
    · rw [h1]
      exact g1.trans (by simp [hin, inUpdated, and_assoc])
    · rw [h2]
      exact g2.trans (Slot.joinInToOut_congr _ _ fun k => by simp [hin, inUpdated])
    · rw [h3]
      simp [hin, inUpdated, and_assoc]
  · rename_i hin
    refine ⟨by simp [hin], ?_, fun y => by simp [hin]⟩
    rw [Slot.joinInToOut_congr _ _ (q := fun _ => False) (by simp [hin]), Slot.joinInToOut_false]

omit [LinearOrder Data] [DecidableEq ID] in
theorem foldl_removeVarFromDFOutUpdatedSet (loc : LocID) (L : List Key)
    (s : PersistentIncDFPTData Key Data ID LocID) :
    (L.foldl (fun s var => s.removeVarFromDFOutUpdatedSet loc var) s).toPersistentDFPTData =
      s.toPersistentDFPTData ∧
    ∀ y, (L.foldl (fun s var => s.removeVarFromDFOutUpdatedSet loc var) s).flagged y = true ↔
      s.flagged y = true ∧ ∀ k ∈ L, y ≠ .dfOut loc k := by
  induction L generalizing s with
  | nil => simp
  | cons a L ih =>
    obtain ⟨ih1, ih2⟩ := ih (s.removeVarFromDFOutUpdatedSet loc a)
    refine ⟨ih1, fun y => ?_⟩
    simp only [List.foldl_cons, ih2, flagged_removeVarFromDFOutUpdatedSet, List.mem_cons,
      forall_eq_or_imp, and_assoc]

omit [LinearOrder Data] [DecidableEq ID] in
/-- `clearAllDFOutUpdatedVar` empties `loc`'s OUT updated set when `loc` has an OUT map, and
changes nothing else. -/
theorem clearAllDFOutUpdatedVar_spec (s : PersistentIncDFPTData Key Data ID LocID) (loc : LocID) :
    (s.clearAllDFOutUpdatedVar loc).toPersistentDFPTData = s.toPersistentDFPTData ∧
    ∀ y, (s.clearAllDFOutUpdatedVar loc).flagged y = true ↔
      s.flagged y = true ∧ ¬(s.hasDFOutSet loc = true ∧ ∃ k, y = .dfOut loc k) := by
  unfold clearAllDFOutUpdatedVar
  split
  · rename_i hout
    obtain ⟨h1, h2⟩ := foldl_removeVarFromDFOutUpdatedSet loc
      ((s.getDFOutUpdatedVar loc).1.sort (· ≤ ·)) (s.getDFOutUpdatedVar loc).2
    refine ⟨h1, fun y => ?_⟩
    rw [h2, flagged_getDFOutUpdatedVar]
    cases y with
    | dfOut l k =>
      by_cases hl : l = loc
      · subst hl
        simp only [hout, true_and, Finset.mem_sort, ne_eq, Slot.dfOut.injEq, true_and]
        exact ⟨fun ⟨hk, h⟩ => absurd rfl (h k ((flagged_dfOut s l k).mp hk)), fun h => h.2.elim ⟨k, rfl⟩⟩
      · simp [hl]
    | _ => simp
  · rename_i hout
    simp [hout]

/-- The calls the store does not override are the data-flow store's and leave the flags alone. -/
theorem step_of_not_transfer (s : PersistentIncDFPTData Key Data ID LocID)
    {op : DFPTDataOp Key Data LocID} (h : ∀ t, op ≠ .transfer t) :
    (s.step c op).toPersistentDFPTData = s.toPersistentDFPTData.step c op ∧
    (s.step c op).flagged = s.flagged := by
  cases op with
  | transfer t => exact absurd rfl (h t)
  | _ => exact ⟨rfl, rfl⟩

end PersistentIncDFPTData

end PersistentPointsTo
