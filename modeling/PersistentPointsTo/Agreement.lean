import PersistentPointsTo.Discipline
import Mathlib.Tactic.IntervalCases

namespace PersistentPointsTo

/-! ### A bound on what a solver's run can fill

From any store, the sets of a run over `T` stay inside the union `U` of the store's sets, and
only the slots the store holds, the destinations of `T`, and the OUT slots of IN slots among those
can be nonempty. -/

section Bound

variable {Key Data LocID : Type} [DecidableEq Key] [DecidableEq LocID]

/-- The OUT slot `updateAllDFOutFromIn` joins an IN slot into. -/
def Slot.outOfIn : Slot Key LocID → Option (Slot Key LocID)
  | .dfIn l k => some (.dfOut l k)
  | _ => none

/-- The slots a run over `T` may fill from the seeded slots. -/
def fillSlots (T : List (DFTransfer Key LocID)) (seeded : List (Slot Key LocID)) :
    Finset (Slot Key LocID) :=
  let direct := seeded ++ T.filterMap fun t => t.route.map Prod.fst
  (direct ++ direct.filterMap Slot.outOfIn).toFinset

/-- Everything of `U` on the slots of `S`, nothing elsewhere. -/
def boundVal {Data : Type} (S : Finset (Slot Key LocID)) (U : Finset Data) :
    Slot Key LocID → Finset Data :=
  fun y => if y ∈ S then U else ∅

variable {T : List (DFTransfer Key LocID)} {seeded : List (Slot Key LocID)}

theorem mem_fillSlots_of_seeded {y : Slot Key LocID} (h : y ∈ seeded) : y ∈ fillSlots T seeded := by
  simp [fillSlots, h]

theorem mem_fillSlots_of_route {t : DFTransfer Key LocID} (ht : t ∈ T) {dst src : Slot Key LocID}
    (hr : t.route = some (dst, src)) : dst ∈ fillSlots T seeded := by
  simp only [fillSlots, List.mem_toFinset, List.mem_append, List.mem_filterMap]
  exact .inl (.inr ⟨t, ht, by simp [hr]⟩)

/-- The OUT slot of a fillable IN slot is fillable. -/
theorem dfOut_mem_fillSlots {l : LocID} {k : Key} (h : Slot.dfIn l k ∈ fillSlots T seeded) :
    Slot.dfOut l k ∈ fillSlots T seeded := by
  simp only [fillSlots, List.mem_toFinset, List.mem_append, List.mem_filterMap] at h ⊢
  rcases h with h | ⟨y, -, hy⟩
  · exact .inr ⟨_, h, rfl⟩
  · cases y <;> simp [Slot.outOfIn] at hy

/-- Every call of `T` holds of the bound over its fillable slots. -/
theorem closed_boundVal (U : Finset Data) :
    ∀ t ∈ T, t.Closed (boundVal (fillSlots T seeded) U) := by
  intro t ht
  cases hr : t.route with
  | some r =>
    obtain ⟨dst, src⟩ := r
    rw [DFTransfer.closed_iff_of_route hr]
    simp only [boundVal, if_pos (mem_fillSlots_of_route ht hr)]
    split_ifs <;> simp
  | none =>
    cases t <;> simp only [DFTransfer.route, reduceCtorEq] at hr
    case updateAllDFOutFromIn loc v su =>
      intro k _
      simp only [boundVal]
      split_ifs with h1 h2
      · exact Finset.Subset.refl _
      · exact absurd (dfOut_mem_fillSlots h1) h2
      all_goals simp
    case clearAllDFOutUpdatedVar => trivial

theorem boundVal_of_not_mem {U : Finset Data} {S : Finset (Slot Key LocID)} {y : Slot Key LocID}
    (h : y ∉ S) : boundVal S U y = ∅ :=
  if_neg h

end Bound

/-! ### Seeded stores, and a bound on any store -/

section Seeding

variable {Key Data ID LocID : Type} [LinearOrder Key] [LinearOrder Data] [DecidableEq ID]
  [DecidableEq LocID]
variable {c : PersistentPointsToCache ID Data}

/-- The calls of the base interface leave the IN and OUT maps alone. -/
theorem PersistentDFPTData.foldl_base_df_maps (seeds : List (PTDataOp Key Data))
    (s : PersistentDFPTData Key Data ID LocID) :
    ((seeds.map .base).foldl (PersistentDFPTData.step c) s).dfInPtsMap = s.dfInPtsMap ∧
    ((seeds.map .base).foldl (PersistentDFPTData.step c) s).dfOutPtsMap = s.dfOutPtsMap := by
  induction seeds generalizing s with
  | nil => exact ⟨rfl, rfl⟩
  | cons op seeds ih =>
    obtain ⟨h1, h2⟩ := stepBase_df_maps (c := c) s op
    rw [List.map_cons, List.foldl_cons, (ih _).1, (ih _).2]
    exact ⟨h1, h2⟩

/-- The incremental store seeded by the base interface is the plain store seeded the same way. -/
theorem PersistentIncDFPTData.foldl_base (seeds : List (PTDataOp Key Data))
    (s : PersistentIncDFPTData Key Data ID LocID) :
    ((seeds.map .base).foldl (PersistentIncDFPTData.step c) s).toPersistentDFPTData =
      (seeds.map .base).foldl (PersistentDFPTData.step c) s.toPersistentDFPTData := by
  induction seeds generalizing s with
  | nil => rfl
  | cons op seeds ih =>
    rw [List.map_cons, List.foldl_cons, List.foldl_cons, ih,
      (step_of_not_transfer (c := c) s
        (fun t => (by simp : DFPTDataOp.base op ≠ DFPTDataOp.transfer t))).1]

omit [DecidableEq ID] in
/-- A store with no IN or OUT maps reads the empty set on every IN and OUT slot. -/
theorem PersistentDFPTData.ptsAt_of_df_maps_empty (s : PersistentDFPTData Key Data ID LocID)
    (hin : s.dfInPtsMap = ∅) (hout : s.dfOutPtsMap = ∅) {y : Slot Key LocID}
    (hy : y.isDF = true) : s.ptsAt c y = ∅ := by
  cases y <;> simp_all [Slot.isDF, ptsAt, idAt]

omit [DecidableEq ID] in
/-- A top-level key with no entry reads the empty set. -/
theorem PersistentDFPTData.ptsAt_top_of_not_mem (s : PersistentDFPTData Key Data ID LocID)
    {k : Key} (h : k ∉ s.persPTData.ptsMap) : s.ptsAt c (.top k) = ∅ := by
  simp [ptsAt, idAt, PersistentPTData.ptsId, valueAt_of_not_mem h]

/-- The slots a store holds an ID for: the keys of `ptsMap`, and the pairs of `dfInPtsMap` and
`dfOutPtsMap`. -/
def PersistentDFPTData.slots (s : PersistentDFPTData Key Data ID LocID) : List (Slot Key LocID) :=
  s.persPTData.ptsMap.keys.map .top ++
    s.dfInPtsMap.entries.flatMap (fun e => e.2.keys.map (.dfIn e.1)) ++
    s.dfOutPtsMap.entries.flatMap (fun e => e.2.keys.map (.dfOut e.1))

/-- A nested read `m[l][k]` of a pair the map does not hold reads the default. -/
theorem valueAt_valueAt_of_not_mem {L K V : Type} [DecidableEq L] [DecidableEq K]
    {m : Map L (Map K V)} {l : L} {k : K} (h : ∀ e ∈ m.entries, e.1 = l → k ∉ e.2.keys) (d : V) :
    valueAt (valueAt m l ∅) k d = d := by
  cases hl : m.lookup l with
  | none => simp [valueAt, hl]
  | some inner =>
    have hm : valueAt m l ∅ = inner := by simp [valueAt, hl]
    rw [hm, valueAt_of_not_mem fun hk =>
      h _ (AList.mem_lookup_iff.mp hl) rfl (AList.mem_keys.mpr hk)]

omit [DecidableEq ID] in
/-- A slot the store holds no ID for reads the empty set. -/
theorem PersistentDFPTData.ptsAt_of_not_mem_slots (s : PersistentDFPTData Key Data ID LocID)
    {y : Slot Key LocID} (h : y ∉ s.slots) : s.ptsAt c y = ∅ := by
  cases y with
  | top k =>
    exact ptsAt_top_of_not_mem s fun hk => h (List.mem_append_left _
      (List.mem_append_left _ (List.mem_map_of_mem _ (AList.mem_keys.mpr hk))))
  | dfIn l k =>
    rw [ptsAt, idAt, valueAt_valueAt_of_not_mem fun e he hl hk => h ?_,
      c.getActualPts_emptyPointsToId]
    subst hl
    simp only [slots, List.mem_append, List.mem_flatMap, List.mem_map]
    exact .inl (.inr ⟨e, he, k, hk, rfl⟩)
  | dfOut l k =>
    rw [ptsAt, idAt, valueAt_valueAt_of_not_mem fun e he hl hk => h ?_,
      c.getActualPts_emptyPointsToId]
    subst hl
    simp only [slots, List.mem_append, List.mem_flatMap, List.mem_map]
    exact .inr ⟨e, he, k, hk, rfl⟩

omit [DecidableEq ID] in
/-- Every store's sets lie below a valuation that every call of `T` holds of and that is empty
off a finite set of slots. -/
theorem PersistentDFPTData.exists_closed_bound (s : PersistentDFPTData Key Data ID LocID)
    (T : List (DFTransfer Key LocID)) :
    ∃ (S : Finset (Slot Key LocID)) (ρ : Slot Key LocID → Finset Data),
      (∀ t ∈ T, t.Closed ρ) ∧ (∀ y ∉ S, ρ y = ∅) ∧ s.ptsAt c ≤ ρ := by
  refine ⟨fillSlots T s.slots, boundVal (fillSlots T s.slots) (s.slots.toFinset.biUnion (s.ptsAt c)),
    closed_boundVal _, fun _ => boundVal_of_not_mem, fun y => ?_⟩
  by_cases hy : y ∈ s.slots
  · rw [boundVal, if_pos (mem_fillSlots_of_seeded hy)]
    exact Finset.subset_biUnion_of_mem _ (List.mem_toFinset.mpr hy)
  · rw [ptsAt_of_not_mem_slots s hy]
    exact Finset.empty_subset _

end Seeding

/-! ### Agreement at quiescence -/

section Agreement

variable {Key Data ID LocID : Type} [LinearOrder Key] [LinearOrder Data] [DecidableEq ID]
  [DecidableEq LocID]
variable {c : PersistentPointsToCache ID Data}

/-- The plain store's loop stops on sets that every call's constraint holds of. -/
theorem PersistentDFPTData.closed_of_runUntilQuiet {T : List (DFTransfer Key LocID)}
    {s s' : PersistentDFPTData Key Data ID LocID} {fuel : ℕ}
    (hr : runUntilQuiet (PersistentDFPTData.transfer c) T fuel s = some s') :
    ∀ t ∈ T, t.Closed (s'.ptsAt c) := by
  obtain ⟨s₀, -, hq, rfl⟩ := runUntilQuiet_eq_some (fun _ => True) (fun _ _ => trivial) fuel s s'
    trivial hr
  exact (refines c).closed_of_quiet (fun _ _ => True) trivial (fun _ _ _ _ => trivial)
    (fun p _ s' _ hf => closed_of_transfer_fst s' T[p] hf) hq

/-- From the same seeds, both data-flow stores' loops over a disciplined transfer list stop, and
on the same IN, OUT and top-level sets. -/
theorem quiescent_stores_agree (reversePT : Bool) (seeds : List (PTDataOp Key Data))
    (T : List (DFTransfer Key LocID)) (hT : SolverDiscipline T) :
    let d₀ : PersistentDFPTData Key Data ID LocID :=
      (seeds.map .base).foldl (PersistentDFPTData.step c) (PersistentDFPTData.init reversePT)
    let i₀ : PersistentIncDFPTData Key Data ID LocID :=
      (seeds.map .base).foldl (PersistentIncDFPTData.step c) (PersistentIncDFPTData.init reversePT)
    ∃ fuel d i, runUntilQuiet (PersistentDFPTData.transfer c) T fuel d₀ = some d ∧
      runUntilQuiet (PersistentIncDFPTData.transfer c) T fuel i₀ = some i ∧
      ∀ l k, (d.getDFInPtsSet c l k).1 = (i.getDFInPtsSet c l k).1 ∧
        (d.getDFOutPtsSet c l k).1 = (i.getDFOutPtsSet c l k).1 ∧
        (d.getPts c k).1 = (i.getPts c k).1 := by
  intro d₀ i₀
  have hseed : i₀.toPersistentDFPTData = d₀ := PersistentIncDFPTData.foldl_base seeds _
  have hobs : i₀.ptsAt c = d₀.ptsAt c := by rw [← hseed]
  -- the seeded sets are empty on every IN and OUT slot
  have hempty : ∀ y, y.isDF = true → d₀.ptsAt c y = ∅ := fun y hy =>
    PersistentDFPTData.ptsAt_of_df_maps_empty d₀
      (PersistentDFPTData.foldl_base_df_maps seeds _).1 (PersistentDFPTData.foldl_base_df_maps seeds _).2 hy
  -- both loops stop within the weight of a bound on the seeded store
  obtain ⟨S, ρ, hρ, hS, h₀⟩ := d₀.exists_closed_bound (c := c) T
  have hfuel := Nat.lt_succ_self (weight S ρ)
  obtain ⟨d, hd⟩ := Option.isSome_iff_exists.mp
    ((PersistentDFPTData.refines c).runUntilQuiet_isSome hρ hS h₀ hfuel)
  obtain ⟨i, hi⟩ := Option.isSome_iff_exists.mp
    ((PersistentIncDFPTData.refines c).runUntilQuiet_isSome hρ hS (hobs ▸ h₀) hfuel)
  -- and both stop on sets every call's constraint holds of
  have hag := Refines.agree (PersistentDFPTData.refines c) (PersistentIncDFPTData.refines c)
    hobs.symm hd hi (PersistentDFPTData.closed_of_runUntilQuiet hd)
    (PersistentIncDFPTData.closed_of_runUntilQuiet hT
      (.of_empty fun y hy => hobs ▸ hempty y hy) hi)
  exact ⟨_, d, i, hd, hi, fun l k =>
    ⟨congrFun hag (.dfIn l k), congrFun hag (.dfOut l k), congrFun hag (.top k)⟩⟩

/-- A disciplined list: `top 0` into `OUT[0][0]`, that into `IN[1][0]`, a clear of location `0`'s
OUT flags, and `IN[1][0]` consumed into `top 1`. -/
theorem quiescent_stores_agree_through_clear :
    SolverDiscipline [.updateATVPts 0 0 0, .updateDFInFromOut 0 0 1 0,
      .clearAllDFOutUpdatedVar 0, .updateTLVPts 1 0 1] ∧
    let d₀ : PersistentDFPTData ℕ ℕ (Finset ℕ) ℕ :=
      ([PTDataOp.addPts 0 5].map .base).foldl (PersistentDFPTData.step (finsetCache ℕ))
        (PersistentDFPTData.init false)
    let i₀ : PersistentIncDFPTData ℕ ℕ (Finset ℕ) ℕ :=
      ([PTDataOp.addPts 0 5].map .base).foldl (PersistentIncDFPTData.step (finsetCache ℕ))
        (PersistentIncDFPTData.init false)
    ∃ fuel d i, runUntilQuiet (PersistentDFPTData.transfer (finsetCache ℕ))
        [.updateATVPts 0 0 0, .updateDFInFromOut 0 0 1 0, .clearAllDFOutUpdatedVar 0,
          .updateTLVPts 1 0 1] fuel d₀ = some d ∧
      runUntilQuiet (PersistentIncDFPTData.transfer (finsetCache ℕ))
        [.updateATVPts 0 0 0, .updateDFInFromOut 0 0 1 0, .clearAllDFOutUpdatedVar 0,
          .updateTLVPts 1 0 1] fuel i₀ = some i ∧
      ∀ l k, (d.getDFInPtsSet (finsetCache ℕ) l k).1 = (i.getDFInPtsSet (finsetCache ℕ) l k).1 ∧
        (d.getDFOutPtsSet (finsetCache ℕ) l k).1 = (i.getDFOutPtsSet (finsetCache ℕ) l k).1 ∧
        (d.getPts (finsetCache ℕ) k).1 = (i.getPts (finsetCache ℕ) k).1 := by
  have hT : SolverDiscipline ([.updateATVPts 0 0 0, .updateDFInFromOut 0 0 1 0,
      .clearAllDFOutUpdatedVar 0, .updateTLVPts 1 0 1] : List (DFTransfer ℕ ℕ)) := by
    refine ⟨fun i j hi hj x hc hr => ?_, fun q l hq hql => ?_⟩
    · simp only [List.length_cons, List.length_nil] at hi hj
      interval_cases i <;> interval_cases j <;>
        simp [DFTransfer.Consumes, DFTransfer.ConsumesInto, DFTransfer.Reads, DFTransfer.consumes,
          DFTransfer.route] at hc hr ⊢ <;> (subst hc; simp at hr)
    · simp only [List.length_cons, List.length_nil] at hq
      interval_cases q <;> simp at hql
      subst hql
      refine ⟨fun w r hw hr hw' hr' => ?_, fun w hw hw' => ?_, fun r hr hr' => ?_⟩
      · simp only [List.length_cons, List.length_nil] at hw hr
        interval_cases w <;> interval_cases r <;>
          simp_all [DFTransfer.WritesOut, DFTransfer.ReadsOut, DFTransfer.Reads, DFTransfer.route]
      · simp only [List.length_cons, List.length_nil] at hw
        interval_cases w <;> simp_all [DFTransfer.WritesOut, DFTransfer.route]
      · simp only [List.length_cons, List.length_nil] at hr
        interval_cases r <;> simp_all [DFTransfer.ReadsOut, DFTransfer.Reads, DFTransfer.route]
  exact ⟨hT, quiescent_stores_agree false [.addPts 0 5] _ hT⟩

end Agreement

end PersistentPointsTo
