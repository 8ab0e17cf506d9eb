/-!
# Metrics

Costs and distances are 32-bit words. A distance never wraps: a sum past the largest word stays at
the largest word, which stands for every cost that is too large to be written.
-/

namespace LinkState

/-- A cost or a distance. -/
abbrev Metric := UInt32

namespace Metric

/-- The largest metric. -/
def limit : Metric := 4294967295

/-- A distance extended by a cost, held at `limit`. -/
def extend (distance cost : Metric) : Metric :=
  if distance.toNat + cost.toNat ≤ limit.toNat then distance + cost else limit

/-- **Extending is addition below the limit.** -/
theorem toNat_extend (distance cost : Metric) :
    (distance.extend cost).toNat = min limit.toNat (distance.toNat + cost.toNat) := by
  have hl : limit.toNat = 4294967295 := rfl
  unfold extend
  split
  · rename_i h
    rw [UInt32.toNat_add]
    omega
  · omega

/-- Below the limit an extended distance is the exact sum. -/
theorem extend_eq_iff {distance cost sum : Metric} (h : sum < limit) :
    distance.extend cost = sum ↔ distance.toNat + cost.toNat = sum.toNat := by
  have hs : sum.toNat < limit.toNat := UInt32.lt_iff_toNat_lt.1 h
  rw [← UInt32.toNat_inj, toNat_extend]
  omega

theorem zero_extend (cost : Metric) : extend 0 cost = cost := by
  have hc := cost.toNat_lt
  have hl : limit.toNat = 4294967295 := rfl
  have h0 : (0 : Metric).toNat = 0 := rfl
  rw [← UInt32.toNat_inj, toNat_extend]
  omega

theorem le_extend (distance cost : Metric) : distance.toNat ≤ (distance.extend cost).toNat := by
  have h := distance.toNat_lt
  have hl : limit.toNat = 4294967295 := rfl
  rw [toNat_extend]
  omega

end Metric

end LinkState
