/-!
# Counts and seconds

Replica counts have 32 bits and times 64. Their sums and products stop at the largest value instead
of wrapping, so a sum is never smaller than either part.
-/

namespace RunnerFleet

/-- A number of replicas, runners or workflow runs. -/
abbrev Count := UInt32

/-- A point in time as seconds since the start of 1970, or a length of time in whole seconds. -/
abbrev Seconds := UInt64

def Count.largest : Nat := 4294967295

def Seconds.largest : Nat := 18446744073709551615

def Count.plus (a b : Count) : Count :=
  UInt32.ofNat (min (a.toNat + b.toNat) Count.largest)

def Seconds.plus (a b : Seconds) : Seconds :=
  UInt64.ofNat (min (a.toNat + b.toNat) Seconds.largest)

def Seconds.times (a b : Seconds) : Seconds :=
  UInt64.ofNat (min (a.toNat * b.toNat) Seconds.largest)

theorem Count.toNat_plus (a b : Count) :
    (Count.plus a b).toNat = min (a.toNat + b.toNat) Count.largest := by
  simp only [Count.plus, Count.largest, UInt32.toNat_ofNat']
  omega

theorem Seconds.toNat_plus (a b : Seconds) :
    (Seconds.plus a b).toNat = min (a.toNat + b.toNat) Seconds.largest := by
  simp only [Seconds.plus, Seconds.largest, UInt64.toNat_ofNat']
  omega

theorem Seconds.toNat_times (a b : Seconds) :
    (Seconds.times a b).toNat = min (a.toNat * b.toNat) Seconds.largest := by
  simp only [Seconds.times, Seconds.largest, UInt64.toNat_ofNat']
  omega

theorem Count.toNat_min (a b : Count) : (min a b).toNat = min a.toNat b.toNat := by
  change (if a ≤ b then a else b).toNat = _
  split
  · next h =>
    rw [UInt32.le_iff_toNat_le] at h
    omega
  · next h =>
    rw [UInt32.le_iff_toNat_le] at h
    omega

theorem Count.toNat_max (a b : Count) : (max a b).toNat = max a.toNat b.toNat := by
  change (if a ≤ b then b else a).toNat = _
  split
  · next h =>
    rw [UInt32.le_iff_toNat_le] at h
    omega
  · next h =>
    rw [UInt32.le_iff_toNat_le] at h
    omega

theorem Seconds.toNat_min (a b : Seconds) : (min a b).toNat = min a.toNat b.toNat := by
  change (if a ≤ b then a else b).toNat = _
  split
  · next h =>
    rw [UInt64.le_iff_toNat_le] at h
    omega
  · next h =>
    rw [UInt64.le_iff_toNat_le] at h
    omega

theorem Seconds.toNat_max (a b : Seconds) : (max a b).toNat = max a.toNat b.toNat := by
  change (if a ≤ b then b else a).toNat = _
  split
  · next h =>
    rw [UInt64.le_iff_toNat_le] at h
    omega
  · next h =>
    rw [UInt64.le_iff_toNat_le] at h
    omega

theorem Count.toNat_le_largest (a : Count) : a.toNat ≤ Count.largest := by
  have := a.toNat_lt
  simp only [Count.largest]
  omega

theorem Seconds.toNat_le_largest (a : Seconds) : a.toNat ≤ Seconds.largest := by
  have := a.toNat_lt
  simp only [Seconds.largest]
  omega

/-- No time lies beyond the largest one, at which sums stop. -/
theorem Seconds.plus_lt_iff {t length now : Seconds} :
    Seconds.plus t length < now ↔ t.toNat + length.toNat < now.toNat := by
  have hnow := now.toNat_le_largest
  rw [UInt64.lt_iff_toNat_lt, Seconds.toNat_plus]
  omega

/-- Only at the largest time can it be told that a sum stops there. -/
theorem Seconds.lt_plus_iff {t length now : Seconds} (hnow : now.toNat < Seconds.largest) :
    now < Seconds.plus t length ↔ now.toNat < t.toNat + length.toNat := by
  rw [UInt64.lt_iff_toNat_lt, Seconds.toNat_plus]
  omega

end RunnerFleet
