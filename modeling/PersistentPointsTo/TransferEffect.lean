import PersistentPointsTo.SolverPass
import PersistentPointsTo.IncDFPTData
import Mathlib.Algebra.Order.BigOperators.Group.Finset

namespace PersistentPointsTo

/-! ### What a transfer call does to the sets

Both data-flow stores act on their sets as `TransferEffect` allows; the solver's results follow
from that alone, over the sets the stores read as (`ptsAt`). -/

variable {Key Data LocID : Type}

theorem DFTransfer.closed_iff_of_route {σ : Slot Key LocID → Finset Data}
    {t : DFTransfer Key LocID} {dst src : Slot Key LocID} (h : t.route = some (dst, src)) :
    t.Closed σ ↔ σ src ⊆ σ dst := by
  cases t <;> simp only [DFTransfer.route, Option.some.injEq, Prod.mk.injEq, reduceCtorEq] at h <;>
    obtain ⟨rfl, rfl⟩ := h <;> simp [DFTransfer.Closed, DFTransfer.route]

/-- The total size of the sets on the slots `S`. -/
def weight (S : Finset (Slot Key LocID)) (σ : Slot Key LocID → Finset Data) : ℕ :=
  ∑ y ∈ S, (σ y).card

theorem weight_le_weight {S : Finset (Slot Key LocID)} {σ ρ : Slot Key LocID → Finset Data}
    (h : σ ≤ ρ) : weight S σ ≤ weight S ρ :=
  Finset.sum_le_sum fun y _ => Finset.card_le_card (h y)

/-- Sets that grew and stay below a valuation empty off `S` grew on `S`. -/
theorem sum_card_lt_sum_card {α : Type} {S : Finset α} {σ σ' ρ : α → Finset Data}
    (hle : σ ≤ σ') (hne : σ' ≠ σ) (hρ : σ' ≤ ρ) (hS : ∀ y ∉ S, ρ y = ∅) :
    ∑ y ∈ S, (σ y).card < ∑ y ∈ S, (σ' y).card := by
  obtain ⟨y, hy⟩ : ∃ y, σ' y ≠ σ y := by
    by_contra hn
    exact hne (funext fun y => not_not.mp fun h => hn ⟨y, h⟩)
  have hyS : y ∈ S := by
    by_contra hyS
    have h' : σ' y = ∅ := Finset.subset_empty.mp (hS y hyS ▸ hρ y)
    exact hy (h'.trans (Finset.subset_empty.mp (h' ▸ hle y)).symm)
  exact Finset.sum_lt_sum (fun y _ => Finset.card_le_card (hle y))
    ⟨y, hyS, Finset.card_lt_card (Finset.ssubset_iff_subset_ne.mpr ⟨hle y, hy.symm⟩)⟩

theorem weight_lt_weight {S : Finset (Slot Key LocID)} {σ σ' ρ : Slot Key LocID → Finset Data}
    (hle : σ ≤ σ') (hne : σ' ≠ σ) (hρ : σ' ≤ ρ) (hS : ∀ y ∉ S, ρ y = ∅) :
    weight S σ < weight S σ' :=
  sum_card_lt_sum_card hle hne hρ hS

variable [DecidableEq Key] [DecidableEq LocID] [DecidableEq Data]

/-- What a transfer may do to `σ`, returning whether a set grew: nothing; `dst ∪= src`; or
`OUT[loc][k] ∪= IN[loc][k]` over keys other than a strongly updated `v`. -/
inductive TransferEffect (σ : Slot Key LocID → Finset Data) (t : DFTransfer Key LocID) :
    (Slot Key LocID → Finset Data) → Bool → Prop
  | skip : TransferEffect σ t σ false
  | route {dst src : Slot Key LocID} {b : Bool} (ht : t.route = some (dst, src))
      (hb : b = true ↔ ¬ σ src ⊆ σ dst) :
      TransferEffect σ t (fun y => if y = dst then σ dst ∪ σ src else σ y) b
  | bulk {loc : LocID} {v : Key} {su : Bool} {p : Key → Prop} [DecidablePred p] {b : Bool}
      (ht : t = .updateAllDFOutFromIn loc v su) (hp : ∀ k, p k → ¬(su = true ∧ k = v))
      (hb : b = true ↔ ∃ k, p k ∧ ¬ σ (.dfIn loc k) ⊆ σ (.dfOut loc k)) :
      TransferEffect σ t (Slot.joinInToOut σ loc p) b

namespace TransferEffect

variable {σ σ' ρ : Slot Key LocID → Finset Data} {t : DFTransfer Key LocID} {b : Bool}

theorem mono (h : TransferEffect σ t σ' b) : σ ≤ σ' := by
  cases h with
  | skip => exact le_rfl
  | @route dst src b ht hb => intro y; by_cases hy : y = dst <;> simp [hy]
  | bulk => exact Slot.subset_joinInToOut σ _ _

/-- A call returns true exactly when it changed a set. -/
theorem fst_iff (h : TransferEffect σ t σ' b) : b = true ↔ σ' ≠ σ := by
  cases h with
  | skip => simp
  | @route dst src b _ hb =>
    rw [hb]
    refine ⟨fun hn he => hn ?_, fun hn hsub => hn (funext fun y => ?_)⟩
    · have := congrFun he dst
      simp only [if_pos rfl] at this
      exact Finset.union_eq_left.mp this
    · split_ifs with hy
      · subst hy; exact Finset.union_eq_left.mpr hsub
      · rfl
  | @bulk loc v su p _ b _ _ hb =>
    rw [hb]
    refine ⟨fun ⟨k, hk⟩ he => (Slot.joinInToOut_dfOut_ne_iff σ loc p k).mpr hk (congrFun he _),
      fun hn => ?_⟩
    by_contra hall
    refine hn (funext fun y => ?_)
    cases y with
    | dfOut l k =>
      simp only [Slot.joinInToOut]
      split_ifs with hl
      · obtain ⟨rfl, hk⟩ := hl
        exact Finset.union_eq_left.mpr (not_not.mp fun hs => hall ⟨k, hk, hs⟩)
      · rfl
    | _ => rfl

/-- A call keeps the sets below any valuation its constraint holds of. -/
theorem le_of_closed (h : TransferEffect σ t σ' b) (hσ : σ ≤ ρ) (hρ : t.Closed ρ) : σ' ≤ ρ := by
  cases h with
  | skip => exact hσ
  | route ht =>
    have hc := (DFTransfer.closed_iff_of_route ht).mp hρ
    intro y
    dsimp only
    split_ifs with hy
    · subst hy; exact Finset.union_subset (hσ y) ((hσ _).trans hc)
    · exact hσ y
  | bulk ht hp =>
    subst ht
    intro y
    cases y with
    | dfOut l k =>
      simp only [Slot.joinInToOut]
      split_ifs with hl
      · obtain ⟨rfl, hk⟩ := hl
        exact Finset.union_subset (hσ _) ((hσ _).trans (hρ k (hp k hk)))
      · exact hσ _
    | _ => exact hσ _

end TransferEffect

/-! ### Both stores act as `TransferEffect` allows -/

section Stores

variable {Key Data ID LocID : Type} [LinearOrder Key] [LinearOrder Data] [DecidableEq ID]
  [DecidableEq LocID]
variable {c : PersistentPointsToCache ID Data}

theorem PersistentDFPTData.transfer_effect (s : PersistentDFPTData Key Data ID LocID)
    (t : DFTransfer Key LocID) :
    TransferEffect (s.ptsAt c) t ((s.transfer c t).2.ptsAt c) (s.transfer c t).1 := by
  cases ht : t.route with
  | some p =>
    obtain ⟨dst, src⟩ := p
    rw [transfer_of_route s ht, funext (ptsAt_unionPtsThroughIds s dst src)]
    exact .route ht (unionPtsThroughIds_fst s dst src)
  | none =>
    cases t <;> simp only [DFTransfer.route, reduceCtorEq] at ht
    case updateAllDFOutFromIn loc v su =>
      obtain ⟨h1, h2⟩ := updateAllDFOutFromIn_spec (c := c) s loc v su
      change TransferEffect _ _ ((s.updateAllDFOutFromIn c loc v su).2.ptsAt c)
        (s.updateAllDFOutFromIn c loc v su).1
      rw [h2]
      exact .bulk rfl (fun _ hk => hk.2) (h1.trans (by simp only [and_assoc]))
    case clearAllDFOutUpdatedVar => exact .skip

/-- The plain store's call that returned false leaves its constraint holding. -/
theorem PersistentDFPTData.closed_of_transfer_fst (s : PersistentDFPTData Key Data ID LocID)
    (t : DFTransfer Key LocID) (h : (s.transfer c t).1 = false) : t.Closed (s.ptsAt c) := by
  cases ht : t.route with
  | some p =>
    obtain ⟨dst, src⟩ := p
    rw [DFTransfer.closed_iff_of_route ht]
    rw [transfer_of_route s ht] at h
    exact not_not.mp fun hn => by simp [(unionPtsThroughIds_fst s dst src).mpr hn] at h
  | none =>
    cases t <;> simp only [DFTransfer.route, reduceCtorEq] at ht
    case updateAllDFOutFromIn loc v su =>
      intro k hk
      cases hin : s.hasDFInSetVar loc k
      · rw [ptsAt_dfIn_of_not_hasDFInSetVar s hin]; exact Finset.empty_subset _
      · refine not_not.mp fun hn => ?_
        have := (updateAllDFOutFromIn_spec (c := c) s loc v su).1.mpr ⟨k, hin, hk, hn⟩
        simp_all [transfer]
    case clearAllDFOutUpdatedVar => trivial

theorem PersistentIncDFPTData.transfer_effect (s : PersistentIncDFPTData Key Data ID LocID)
    (t : DFTransfer Key LocID) :
    TransferEffect (s.ptsAt c) t ((s.transfer c t).2.ptsAt c) (s.transfer c t).1 := by
  cases ht : t.route with
  | some p =>
    obtain ⟨dst, src⟩ := p
    obtain ⟨hoff, hon⟩ := transfer_of_route (c := c) s ht
    cases hg : t.guard.all s.flagged
    · rw [hoff hg]; exact .skip
    · obtain ⟨h1, h2, -⟩ := hon hg
      rw [show (s.transfer c t).2.ptsAt c = _ from
        (congrArg (PersistentDFPTData.ptsAt c) h2).trans
          (funext (PersistentDFPTData.ptsAt_unionPtsThroughIds _ dst src))]
      exact .route ht h1
  | none =>
    cases t <;> simp only [DFTransfer.route, reduceCtorEq] at ht
    case updateAllDFOutFromIn loc v su =>
      obtain ⟨h1, h2, -⟩ := updateAllDFOutFromIn_spec (c := c) s loc v su
      change TransferEffect _ _ ((s.updateAllDFOutFromIn c loc v su).2.ptsAt c)
        (s.updateAllDFOutFromIn c loc v su).1
      rw [h2]
      exact .bulk rfl (fun _ hk => hk.2.2) h1
    case clearAllDFOutUpdatedVar loc =>
      change TransferEffect _ _ ((s.clearAllDFOutUpdatedVar loc).ptsAt c) false
      rw [show (s.clearAllDFOutUpdatedVar loc).ptsAt c = s.ptsAt c from
        congrArg (PersistentDFPTData.ptsAt c) (clearAllDFOutUpdatedVar_spec s loc).1]
      exact .skip

end Stores

/-! ### Solver runs of a store that acts as `TransferEffect` allows -/

variable {St : Type}

/-- A store whose transfer calls act on its sets `obs` as `TransferEffect` allows. -/
def Refines (exec : St → DFTransfer Key LocID → Bool × St)
    (obs : St → Slot Key LocID → Finset Data) : Prop :=
  ∀ s t, TransferEffect (obs s) t (obs (exec s t).2) (exec s t).1

theorem PersistentDFPTData.refines {Key Data ID LocID : Type} [LinearOrder Key] [LinearOrder Data]
    [DecidableEq ID] [DecidableEq LocID] (c : PersistentPointsToCache ID Data) :
    Refines (PersistentDFPTData.transfer c : PersistentDFPTData Key Data ID LocID → _)
      (PersistentDFPTData.ptsAt c) :=
  PersistentDFPTData.transfer_effect

theorem PersistentIncDFPTData.refines {Key Data ID LocID : Type} [LinearOrder Key]
    [LinearOrder Data] [DecidableEq ID] [DecidableEq LocID] (c : PersistentPointsToCache ID Data) :
    Refines (PersistentIncDFPTData.transfer c : PersistentIncDFPTData Key Data ID LocID → _)
      (fun s => s.ptsAt c) :=
  PersistentIncDFPTData.transfer_effect

namespace Refines

variable {exec : St → DFTransfer Key LocID → Bool × St} {obs : St → Slot Key LocID → Finset Data}
  {ts : List (DFTransfer Key LocID)} {ρ : Slot Key LocID → Finset Data}

theorem runPass_fst_iff (h : Refines exec obs) (s : St) :
    (runPass exec ts s).1 = true ↔ obs (runPass exec ts s).2 ≠ obs s :=
  PersistentPointsTo.runPass_fst_iff (fun s t => (h s t).mono) (fun s t => (h s t).fst_iff) ts s

/-- A pass keeps the sets below a valuation that every call's constraint holds of. -/
theorem runPass_le (h : Refines exec obs) (hρ : ∀ t ∈ ts, t.Closed ρ) {s : St} (hs : obs s ≤ ρ) :
    obs (runPass exec ts s).2 ≤ ρ := by
  rw [← prefixRun_length]
  exact prefixRun_induction (fun _ s => obs s ≤ ρ) hs
    (fun p hp s' hs' => (h s' ts[p]).le_of_closed hs' (hρ _ (List.getElem_mem hp))) _ le_rfl

/-- A pass that ends quiet leaves every call's constraint holding, given a property of the stores
inside the pass under which a call that returns false leaves its own constraint holding. -/
theorem closed_of_quiet (h : Refines exec obs) (Q : ℕ → St → Prop) {s : St} (h0 : Q 0 s)
    (hstep : ∀ p (hp : p < ts.length) s', Q p s' → Q (p + 1) (exec s' ts[p]).2)
    (hclosed : ∀ p (hp : p < ts.length) s', Q p s' → (exec s' ts[p]).1 = false →
      ts[p].Closed (obs s'))
    (hq : (runPass exec ts s).1 = false) : ∀ t ∈ ts, t.Closed (obs (runPass exec ts s).2) := by
  have hfin : obs (runPass exec ts s).2 = obs s :=
    not_not.mp fun hne => by simp [(h.runPass_fst_iff s).mpr hne] at hq
  intro t ht
  obtain ⟨p, hp, rfl⟩ := List.getElem_of_mem ht
  obtain ⟨hobs, hres⟩ := quiet_call (fun s t => (h s t).mono) (fun s t => (h s t).fst_iff) hq hp
  rw [hfin, ← hobs]
  exact hclosed p hp _ (prefixRun_induction Q h0 hstep p hp.le) hres

/-- The loop stops once it has more passes than the weight of a valuation that every call's
constraint holds of, that is empty off `S`, and that the start is below. -/
theorem runUntilQuiet_isSome (h : Refines exec obs) (hρ : ∀ t ∈ ts, t.Closed ρ)
    {S : Finset (Slot Key LocID)} (hS : ∀ y ∉ S, ρ y = ∅) {s : St} (hs : obs s ≤ ρ) {fuel : ℕ}
    (hfuel : weight S ρ < fuel) : (runUntilQuiet exec ts fuel s).isSome :=
  PersistentPointsTo.runUntilQuiet_isSome (fun s => obs s ≤ ρ) (fun s => weight S (obs s))
    (weight S ρ) (fun _ hs => h.runPass_le hρ hs) (fun _ hs => weight_le_weight hs)
    (fun s hs ht => weight_lt_weight (runPass_mono (fun s t => (h s t).mono) ts s)
      ((h.runPass_fst_iff s).mp ht) (h.runPass_le hρ hs) hS) fuel s hs (by omega)

/-- The loop's result stays below a valuation that every call's constraint holds of and that the
start is below. -/
theorem runUntilQuiet_le (h : Refines exec obs) (hρ : ∀ t ∈ ts, t.Closed ρ) {s s' : St}
    (hs : obs s ≤ ρ) {fuel : ℕ} (hr : runUntilQuiet exec ts fuel s = some s') : obs s' ≤ ρ := by
  obtain ⟨s₀, hs₀, -, rfl⟩ := runUntilQuiet_eq_some (fun s => obs s ≤ ρ)
    (fun _ hs => h.runPass_le hρ hs) fuel s s' hs hr
  exact h.runPass_le hρ hs₀

theorem le_runUntilQuiet (h : Refines exec obs) {s s' : St} {fuel : ℕ}
    (hr : runUntilQuiet exec ts fuel s = some s') : obs s ≤ obs s' := by
  obtain ⟨s₀, hs₀, -, rfl⟩ := runUntilQuiet_eq_some (fun s₀ => obs s ≤ obs s₀)
    (fun _ hs => hs.trans (runPass_mono (fun s t => (h s t).mono) ts _)) fuel s s' le_rfl hr
  exact hs₀.trans (runPass_mono (fun s t => (h s t).mono) ts _)

end Refines

/-- Two stores that act as `TransferEffect` allows, started on the same sets, whose loops over
`ts` stop on sets every call's constraint holds of, stop on the same sets. -/
theorem Refines.agree {St₁ St₂ : Type} {exec₁ : St₁ → DFTransfer Key LocID → Bool × St₁}
    {exec₂ : St₂ → DFTransfer Key LocID → Bool × St₂} {obs₁ : St₁ → Slot Key LocID → Finset Data}
    {obs₂ : St₂ → Slot Key LocID → Finset Data} {ts : List (DFTransfer Key LocID)}
    (h₁ : Refines exec₁ obs₁) (h₂ : Refines exec₂ obs₂) {s₁ s₁' : St₁} {s₂ s₂' : St₂}
    {fuel₁ fuel₂ : ℕ} (h0 : obs₁ s₁ = obs₂ s₂) (hr₁ : runUntilQuiet exec₁ ts fuel₁ s₁ = some s₁')
    (hr₂ : runUntilQuiet exec₂ ts fuel₂ s₂ = some s₂') (hc₁ : ∀ t ∈ ts, t.Closed (obs₁ s₁'))
    (hc₂ : ∀ t ∈ ts, t.Closed (obs₂ s₂')) : obs₁ s₁' = obs₂ s₂' :=
  le_antisymm (h₁.runUntilQuiet_le hc₂ (h0 ▸ h₂.le_runUntilQuiet hr₂) hr₁)
    (h₂.runUntilQuiet_le hc₁ (h0 ▸ h₁.le_runUntilQuiet hr₁) hr₂)

end PersistentPointsTo
