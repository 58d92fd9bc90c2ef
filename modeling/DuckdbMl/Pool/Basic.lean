import Mathlib.Data.List.Nodup
import Mathlib.Data.List.Perm.Basic
import Mathlib.Data.List.Count

/-!
# The resources of a pool

A pool is made of helper threads, a database and connections, acquired one after another.

## Main definitions

* `Resource`, `Event`: what is acquired and released
* `Disposed`: everything that was acquired has been released

## Main results

* `Disposed.of_teardown`: acquisitions, and then a release of each
-/

namespace DuckdbMl.Pool

inductive Resource
  | helper (i : ℕ)
  | database
  | connection (i : ℕ)
  deriving DecidableEq, Repr

inductive Event
  | acquired (r : Resource)
  | released (r : Resource)
  deriving DecidableEq, Repr

/-- **Everything acquired has been released**, exactly once and after it was acquired, and the
connections before the database. -/
structure Disposed (log : List Event) : Prop where
  once : ∀ r, log.count (.released r) = log.count (.acquired r) ∧ log.count (.acquired r) ≤ 1
  after : ∀ (i : ℕ) r, log[i]? = some (.released r) → ∃ j < i, log[j]? = some (.acquired r)
  order : ∀ (i j : ℕ) c, log[i]? = some (.released .database) →
    log[j]? = some (.released (.connection c)) → j < i

variable {rs : List Resource} {r : Resource}

theorem count_map_acquired : (rs.map Event.acquired).count (.acquired r) = rs.count r :=
  List.count_map_of_injective rs _ (fun _ _ h => Event.acquired.inj h) r

theorem count_map_released : (rs.map Event.released).count (.released r) = rs.count r :=
  List.count_map_of_injective rs _ (fun _ _ h => Event.released.inj h) r

theorem count_acquired_released : (rs.map Event.released).count (.acquired r) = 0 :=
  List.count_eq_zero.mpr fun h => by simp at h

theorem count_released_acquired : (rs.map Event.acquired).count (.released r) = 0 :=
  List.count_eq_zero.mpr fun h => by simp at h

/-- **Acquisitions, and then a release of each**, connections first. -/
theorem Disposed.of_teardown {connections others : List Resource}
    (hperm : (connections ++ others).Perm rs) (hnodup : rs.Nodup)
    (hdatabase : .database ∉ connections) (hothers : ∀ c, .connection c ∉ others) :
    Disposed (rs.map Event.acquired ++ (connections ++ others).map Event.released) where
  once r := by
    rw [List.count_append, List.count_append, count_map_acquired, count_map_released,
      count_released_acquired, count_acquired_released, hperm.count_eq]
    exact ⟨by omega, by have := List.nodup_iff_count_le_one.mp hnodup r; omega⟩
  after i r h := by
    have hi : rs.length ≤ i := by
      by_contra hlt
      rw [List.getElem?_append_left (by simpa using Nat.lt_of_not_le hlt), List.getElem?_map] at h
      simp at h
    rw [List.getElem?_append_right (by simpa using hi), List.getElem?_map] at h
    obtain ⟨r', hr', he⟩ := Option.map_eq_some_iff.mp h
    cases he
    have hmem : r ∈ rs := hperm.mem_iff.mp (List.mem_of_getElem? hr')
    obtain ⟨j, hj, hget⟩ := List.getElem_of_mem hmem
    refine ⟨j, Nat.lt_of_lt_of_le hj hi, ?_⟩
    rw [List.getElem?_append_left (by simpa using hj), List.getElem?_map,
      List.getElem?_eq_getElem hj, hget]
    rfl
  order i j c hi hj := by
    have hreleased : ∀ {k : ℕ} {r : Resource}, (rs.map Event.acquired ++
        (connections ++ others).map Event.released)[k]? = some (.released r) →
          rs.length ≤ k ∧ (connections ++ others)[k - rs.length]? = some r := by
      intro k r h
      by_cases hk : k < rs.length
      · rw [List.getElem?_append_left (by simpa using hk), List.getElem?_map] at h
        simp at h
      · rw [List.getElem?_append_right (by simpa using Nat.le_of_not_lt hk), List.getElem?_map,
          List.length_map] at h
        obtain ⟨r', hr', he⟩ := Option.map_eq_some_iff.mp h
        cases he
        exact ⟨Nat.le_of_not_lt hk, hr'⟩
    obtain ⟨hi, hdb⟩ := hreleased hi
    obtain ⟨hj, hc⟩ := hreleased hj
    have hlater : connections.length ≤ i - rs.length := by
      by_contra hlt
      rw [List.getElem?_append_left (Nat.lt_of_not_le hlt)] at hdb
      exact hdatabase (List.mem_of_getElem? hdb)
    have hearlier : j - rs.length < connections.length := by
      by_contra hle
      rw [List.getElem?_append_right (Nat.le_of_not_lt hle)] at hc
      exact hothers c (List.mem_of_getElem? hc)
    omega

end DuckdbMl.Pool
