import PersistentPointsTo.Agreement

namespace PersistentPointsTo

/-! ### The solver's loop without the discipline

Over any transfer list, in any order, the plain store's loop stops on the least sets above its
start that every call's constraint holds of. The incremental store's loop stops as well, below
those sets: a union it skips can only lose facts. -/

section LeastSolution

variable {Key Data ID LocID : Type} [LinearOrder Key] [LinearOrder Data] [DecidableEq ID]
  [DecidableEq LocID]
variable {c : PersistentPointsToCache ID Data}

/-- The plain store's loop over any transfer list stops with enough passes, and whenever it
stops, it stops on the least sets above its start that every call's constraint holds of. -/
theorem plain_loop_stops_on_least_solution (s : PersistentDFPTData Key Data ID LocID)
    (T : List (DFTransfer Key LocID)) :
    (∃ fuel, (runUntilQuiet (PersistentDFPTData.transfer c) T fuel s).isSome) ∧
    ∀ fuel d, runUntilQuiet (PersistentDFPTData.transfer c) T fuel s = some d →
      (∀ t ∈ T, t.Closed (d.ptsAt c)) ∧ s.ptsAt c ≤ d.ptsAt c ∧
      ∀ ρ, (∀ t ∈ T, t.Closed ρ) → s.ptsAt c ≤ ρ → d.ptsAt c ≤ ρ := by
  obtain ⟨S, ρ, hρ, hS, h₀⟩ := s.exists_closed_bound (c := c) T
  exact ⟨⟨_, (PersistentDFPTData.refines c).runUntilQuiet_isSome hρ hS h₀ (Nat.lt_succ_self _)⟩,
    fun _ _ hd => ⟨PersistentDFPTData.closed_of_runUntilQuiet hd,
      (PersistentDFPTData.refines c).le_runUntilQuiet hd,
      fun _ hρ' h₀' => (PersistentDFPTData.refines c).runUntilQuiet_le hρ' h₀' hd⟩⟩

/-- Loops from stores that read the same, over lists with the same transfers in any order and
with any repeats, stop on the same sets. -/
theorem plain_loop_ignores_order (s s' : PersistentDFPTData Key Data ID LocID)
    (T T' : List (DFTransfer Key LocID)) (hs : s.ptsAt c = s'.ptsAt c) (hT : ∀ t, t ∈ T ↔ t ∈ T')
    {fuel fuel' : ℕ} {d d' : PersistentDFPTData Key Data ID LocID}
    (hd : runUntilQuiet (PersistentDFPTData.transfer c) T fuel s = some d)
    (hd' : runUntilQuiet (PersistentDFPTData.transfer c) T' fuel' s' = some d') :
    d.ptsAt c = d'.ptsAt c :=
  le_antisymm
    ((PersistentDFPTData.refines c).runUntilQuiet_le
      (fun t ht => PersistentDFPTData.closed_of_runUntilQuiet hd' t ((hT t).mp ht))
      (hs ▸ (PersistentDFPTData.refines c).le_runUntilQuiet hd') hd)
    ((PersistentDFPTData.refines c).runUntilQuiet_le
      (fun t ht => PersistentDFPTData.closed_of_runUntilQuiet hd t ((hT t).mpr ht))
      (hs ▸ (PersistentDFPTData.refines c).le_runUntilQuiet hd) hd')

theorem plain_loop_reversed_list :
    let c : PersistentPointsToCache (Finset ℕ) ℕ := finsetCache ℕ
    let T : List (DFTransfer ℕ ℕ) :=
      [.updateATVPts 0 0 0, .updateAllDFInFromOut 0 0 1 0, .updateTLVPts 1 0 1]
    let d₀ : PersistentDFPTData ℕ ℕ (Finset ℕ) ℕ :=
      (PersistentDFPTData.init false).step c (.base (.addPts 0 5))
    ∃ d d', runUntilQuiet (PersistentDFPTData.transfer c) T 4 d₀ = some d ∧
      runUntilQuiet (PersistentDFPTData.transfer c) T.reverse 4 d₀ = some d' ∧
      d.ptsAt c = d'.ptsAt c := by
  intro c T d₀
  have h₁ : (runUntilQuiet (PersistentDFPTData.transfer c) T 4 d₀).isSome := by decide
  have h₂ : (runUntilQuiet (PersistentDFPTData.transfer c) T.reverse 4 d₀).isSome := by decide
  exact ⟨_, _, (Option.some_get h₁).symm, (Option.some_get h₂).symm,
    plain_loop_ignores_order d₀ d₀ T T.reverse rfl (fun _ => List.mem_reverse.symm)
      (Option.some_get h₁).symm (Option.some_get h₂).symm⟩

/-- The incremental store's loop over any transfer list stops with as many passes as the plain
store's loop from the same store, on sets within the plain loop's. -/
theorem incremental_loop_stops_within_plain (i : PersistentIncDFPTData Key Data ID LocID)
    (T : List (DFTransfer Key LocID)) :
    ∃ fuel d i',
      runUntilQuiet (PersistentDFPTData.transfer c) T fuel i.toPersistentDFPTData = some d ∧
      runUntilQuiet (PersistentIncDFPTData.transfer c) T fuel i = some i' ∧
      i'.ptsAt c ≤ d.ptsAt c := by
  obtain ⟨S, ρ, hρ, hS, h₀⟩ := i.toPersistentDFPTData.exists_closed_bound (c := c) T
  have hfuel := Nat.lt_succ_self (weight S ρ)
  obtain ⟨d, hd⟩ := Option.isSome_iff_exists.mp
    ((PersistentDFPTData.refines c).runUntilQuiet_isSome hρ hS h₀ hfuel)
  obtain ⟨i', hi⟩ := Option.isSome_iff_exists.mp
    ((PersistentIncDFPTData.refines c).runUntilQuiet_isSome hρ hS h₀ hfuel)
  exact ⟨_, d, i', hd, hi, (PersistentIncDFPTData.refines c).runUntilQuiet_le
    (PersistentDFPTData.closed_of_runUntilQuiet hd)
    ((PersistentDFPTData.refines c).le_runUntilQuiet hd) hi⟩

/- The containment can be strict without `SolverDiscipline.consumed_once`: two calls consume the
flag of `IN[1][0]`, so the second finds it cleared and `OUT[1][0]` stays empty. -/
example :
    let c : PersistentPointsToCache (Finset ℕ) ℕ := finsetCache ℕ
    let T : List (DFTransfer ℕ ℕ) :=
      [.updateATVPts 0 0 0, .updateAllDFInFromOut 0 0 1 0, .updateTLVPts 1 0 1,
        .updateDFOutFromIn 1 0 1 0]
    let d₀ : PersistentDFPTData ℕ ℕ (Finset ℕ) ℕ :=
      (PersistentDFPTData.init false).step c (.base (.addPts 0 5))
    let i₀ : PersistentIncDFPTData ℕ ℕ (Finset ℕ) ℕ :=
      (PersistentIncDFPTData.init false).step c (.base (.addPts 0 5))
    (runUntilQuiet (PersistentDFPTData.transfer c) T 3 d₀).map
        (fun d => (d.getDFOutPtsSet c 1 0).1) = some {5} ∧
      (runUntilQuiet (PersistentIncDFPTData.transfer c) T 3 i₀).map
        (fun i => (i.getDFOutPtsSet c 1 0).1) = some ∅ := by
  decide

end LeastSolution

end PersistentPointsTo
