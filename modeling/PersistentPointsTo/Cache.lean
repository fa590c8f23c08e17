import Mathlib.Data.Finset.Basic
import Mathlib.Combinatorics.Colex

namespace PersistentPointsTo

/-- Modelled from the spec: `PersistentPointsToCache`, whose header is not part of this
repository. An ID names one interned points-to set, equal sets have equal IDs, and the
operations on IDs compute the operations on the sets they name. -/
structure PersistentPointsToCache (ID Data : Type) [DecidableEq Data] where
  emptyPointsToId : ID
  emplacePts : Finset Data → ID
  getActualPts : ID → Finset Data
  unionPts : ID → ID → ID
  complementPts : ID → ID → ID
  intersectPts : ID → ID → ID
  getActualPts_emptyPointsToId : getActualPts emptyPointsToId = ∅
  getActualPts_emplacePts (s : Finset Data) : getActualPts (emplacePts s) = s
  getActualPts_unionPts (a b : ID) :
    getActualPts (unionPts a b) = getActualPts a ∪ getActualPts b
  getActualPts_complementPts (a b : ID) :
    getActualPts (complementPts a b) = getActualPts a \ getActualPts b
  getActualPts_intersectPts (a b : ID) :
    getActualPts (intersectPts a b) = getActualPts a ∩ getActualPts b
  getActualPts_injective : Function.Injective getActualPts

attribute [simp] PersistentPointsToCache.getActualPts_emptyPointsToId
  PersistentPointsToCache.getActualPts_emplacePts PersistentPointsToCache.getActualPts_unionPts
  PersistentPointsToCache.getActualPts_complementPts
  PersistentPointsToCache.getActualPts_intersectPts

/-- The cache that names every points-to set by the set itself. -/
def finsetCache (Data : Type) [DecidableEq Data] : PersistentPointsToCache (Finset Data) Data where
  emptyPointsToId := ∅
  emplacePts := id
  getActualPts := id
  unionPts := (· ∪ ·)
  complementPts := (· \ ·)
  intersectPts := (· ∩ ·)
  getActualPts_emptyPointsToId := rfl
  getActualPts_emplacePts _ := rfl
  getActualPts_unionPts _ _ := rfl
  getActualPts_complementPts _ _ := rfl
  getActualPts_intersectPts _ _ := rfl
  getActualPts_injective := Function.injective_id

/-- A cache whose IDs are numbers: the set `s` has the ID `∑ i ∈ s, 2 ^ i`, and `0` names the
empty set. -/
def bitCache : PersistentPointsToCache ℕ ℕ where
  emptyPointsToId := 0
  emplacePts := Finset.equivBitIndices.symm
  getActualPts := Finset.equivBitIndices
  unionPts a b := Finset.equivBitIndices.symm (Finset.equivBitIndices a ∪ Finset.equivBitIndices b)
  complementPts a b :=
    Finset.equivBitIndices.symm (Finset.equivBitIndices a \ Finset.equivBitIndices b)
  intersectPts a b :=
    Finset.equivBitIndices.symm (Finset.equivBitIndices a ∩ Finset.equivBitIndices b)
  getActualPts_emptyPointsToId := by simp
  getActualPts_emplacePts := Finset.equivBitIndices.apply_symm_apply
  getActualPts_unionPts _ _ := Finset.equivBitIndices.apply_symm_apply _
  getActualPts_complementPts _ _ := Finset.equivBitIndices.apply_symm_apply _
  getActualPts_intersectPts _ _ := Finset.equivBitIndices.apply_symm_apply _
  getActualPts_injective := Finset.equivBitIndices.injective

namespace PersistentPointsToCache

variable {ID Data : Type} [DecidableEq Data] (c : PersistentPointsToCache ID Data)

/-- IDs are compared instead of sets: they agree exactly when the sets do. -/
theorem getActualPts_inj {a b : ID} : c.getActualPts a = c.getActualPts b ↔ a = b :=
  c.getActualPts_injective.eq_iff

theorem eq_emptyPointsToId_iff {a : ID} : a = c.emptyPointsToId ↔ c.getActualPts a = ∅ := by
  rw [← c.getActualPts_inj, getActualPts_emptyPointsToId]

/-- A union leaves its left ID unchanged exactly when the right set adds nothing. -/
theorem unionPts_eq_left_iff {a b : ID} :
    c.unionPts a b = a ↔ c.getActualPts b ⊆ c.getActualPts a := by
  rw [← c.getActualPts_inj, getActualPts_unionPts, Finset.union_eq_left]

/-- Removing one element leaves the ID unchanged exactly when the element was absent. -/
theorem complementPts_singleton_eq_iff {a : ID} {e : Data} :
    c.complementPts a (c.emplacePts {e}) = a ↔ e ∉ c.getActualPts a := by
  rw [← c.getActualPts_inj, getActualPts_complementPts, getActualPts_emplacePts,
    Finset.sdiff_singleton_eq_erase, Finset.erase_eq_self]

end PersistentPointsToCache

end PersistentPointsTo
