import Shost.Ports.HostBuilder
import Shost.Ports.WinService

/-!
# The wait hint

While the host drains, the service tells the manager how long to wait: the shutdown timeout
and ten seconds, in milliseconds.  The sum is one of `int64` values and the number of
milliseconds is cut to 32 bits.

## Main results

* `covers_iff` — for which shutdown timeouts the hint is long enough.
-/

namespace Shost.Ports.Winsvc

open Hosting

/-- The manager waits for the timeout, or for as long as it can be told to. -/
def Covers (hint : UInt32) (d : Int) : Prop :=
  d ≤ hint.toNat * millisecond ∨ (2 ^ 32 - 1) * millisecond < d ∧ hint.toNat = 2 ^ 32 - 1

instance (hint : UInt32) (d : Int) : Decidable (Covers hint d) :=
  inferInstanceAs (Decidable (_ ∨ _))

variable {d : Int}

theorem toNat_millis (d : Int) : ((millis d).toNat : Int) = d.tdiv millisecond % 2 ^ 32 := by
  have hnonneg : 0 ≤ d.tdiv millisecond % 2 ^ 32 := Int.emod_nonneg _ (by decide)
  have hlt : d.tdiv millisecond % 2 ^ 32 < 2 ^ 32 := Int.emod_lt_of_pos _ (by decide)
  have hnat : (d.tdiv millisecond % 2 ^ 32).toNat < UInt32.size := by
    rw [UInt32.size]
    omega
  rw [millis, UInt32.ofInt, UInt32.toNat_ofNat_of_lt' hnat, Int.toNat_of_nonneg hnonneg]

/-- Without overflow the hint is the number of milliseconds, cut to its low bits. -/
theorem toNat_hint (hpos : 0 < d) (hlt : d + stopSlack < 2 ^ 63) :
    ((millis (addDuration d stopSlack)).toNat : Int) =
      (d / millisecond + 10000) % 2 ^ 32 := by
  have hsum : addDuration d stopSlack = d + stopSlack := by
    rw [stopSlack] at hlt ⊢
    apply Int.bmod_eq_of_le
    · omega
    · omega
  rw [toNat_millis, hsum, Int.tdiv_eq_ediv_of_nonneg (by rw [stopSlack]; omega), stopSlack,
    millisecond]
  omega

/-- A sum that overflows is negative, and its low bits are far from the ends. -/
theorem toNat_hint_of_overflow (hover : 2 ^ 63 ≤ d + stopSlack) (hlt : d < 2 ^ 63) :
    (millis (addDuration d stopSlack)).toNat < 2 ^ 32 - 1 := by
  have hsum : addDuration d stopSlack = -(2 ^ 64 - (d + stopSlack)) := by
    rw [stopSlack] at hover ⊢
    apply (Int.bmod_eq_iff (by decide)).mpr
    exact ⟨by omega, by omega, ⟨-1, by omega⟩⟩
  have hhint := toNat_millis (addDuration d stopSlack)
  rw [hsum, Int.neg_tdiv, Int.tdiv_eq_ediv_of_nonneg (by rw [stopSlack]; omega)] at hhint
  rw [hsum]
  rw [stopSlack, millisecond] at *
  omega

theorem covers_hint_iff (hpos : 0 < d) (hlt : d < 2 ^ 63) :
    Covers (millis (addDuration d stopSlack)) d ↔
      d / millisecond + 10000 < 2 ^ 32 ∨ (d / millisecond + 10001) % 2 ^ 32 = 0 := by
  rcases lt_or_ge (d + stopSlack) (2 ^ 63) with hfits | hover
  · have hhint := toNat_hint hpos hfits
    rw [millisecond] at hhint
    rw [Covers, ← Nat.cast_inj (R := Int), hhint, millisecond]
    push_cast
    omega
  · have hhint := toNat_hint_of_overflow hover hlt
    rw [stopSlack] at hover
    rw [Covers, millisecond]
    omega

/--
**The wait hint** covers the shutdown timeout exactly if the milliseconds of the sum have 32
bits, or are one less than a multiple of `2³²`.
-/
theorem covers_iff (h : Host) (checkpoint : UInt32) (hlt : h.shutdownTimeout < 2 ^ 63) :
    Covers (stopPending h checkpoint).waitHint h.shutdownTimeout ↔
      h.shutdownTimeout / millisecond + 10000 < 2 ^ 32 ∨
        (h.shutdownTimeout / millisecond + 10001) % 2 ^ 32 = 0 :=
  covers_hint_iff h.shutdownTimeout_pos hlt

/-- A host that may drain for fifty days. -/
def patient : Host := (Building.run [.withShutdownTimeout 4320000000000000]).toHost.host

/-- The manager is told to wait for seven hours. -/
theorem patient_not_covered : (Building.run [.withShutdownTimeout 4320000000000000]).errs = [] ∧
    patient.shutdownTimeout = 4320000000000000 ∧ (stopPending patient 1).waitHint = 25042704 ∧
    ¬Covers (stopPending patient 1).waitHint patient.shutdownTimeout := by
  have hhint : (stopPending patient 1).waitHint = 25042704 := rfl
  refine ⟨rfl, rfl, hhint, ?_⟩
  rw [hhint]
  decide

theorem soloHost_covered : Covers (stopPending soloHost 1).waitHint soloHost.shutdownTimeout :=
  (covers_iff soloHost 1 (by decide)).mpr (by decide)

end Shost.Ports.Winsvc
