import Shost.Ports.HostRestart

/-!
# The backoff delays

Between two calls of `Start` the loop of `supervise` waits, first `InitialDelay` and
then, in a streak of short runs, each time the delay before times `Factor`, capped
at `MaxDelay`.  The product is formed before it is capped, and outside the range of
the type it becomes an unspecified value, which can evade the cap.  And it is formed as a
`float64`, which has no room for all delays above 2^53 nanoseconds: a delay that is rounded
down stays there when the factor is next to one.

## Main results

* `le_floor_iff` — when the product is not below the delay it was formed from.
* `backoff_bounds_iff` — the delays are as they should be exactly when every product
  that is used fits.
-/

namespace Shost.Ports.Hosting

open Shost.Verified Binary

/-- The delays waited, in order. -/
def waits (events : List SupEvent) : List Duration :=
  events.filterMap fun
    | .wait delay => some delay
    | _ => none

/-- The delays reported, in order. -/
def reports (events : List SupEvent) : List Duration :=
  events.filterMap fun
    | .restarting _ delay _ => some delay
    | _ => none

/-- What the delays of a loop are to be; the `k`-th is the one after the `k`-th run. -/
structure BackoffBounds (pol : RestartPolicy) (runs : List StartRun)
    (events : List SupEvent) : Prop where
  reported : reports events = waits events
  bounded : ∀ d ∈ waits events, pol.initialDelay ≤ d ∧ d ≤ pol.maxDelay
  /-- a streak begins with the first run and with a long one -/
  first : ∀ k d run, (waits events)[k]? = some d → runs[k]? = some run →
    k = 0 ∨ run.resets pol = true → d = pol.initialDelay
  ascending : ∀ k d d' run, (waits events)[k]? = some d → (waits events)[k + 1]? = some d' →
    runs[k + 1]? = some run → run.resets pol = false → d ≤ d'

/-- The next delay when the product is in the range of the type. -/
def cappedNext (pol : RestartPolicy) (delay : Duration) : Duration :=
  min ⌊delayProduct pol delay⌋ pol.maxDelay

/-- The delays after each run when all products are, whether or not the loop gives up. -/
def plannedDelays (pol : RestartPolicy) : Duration → List StartRun → List Duration
  | _, [] => []
  | delay, run :: runs =>
      delayAfter pol delay run :: plannedDelays pol (cappedNext pol (delayAfter pol delay run)) runs

/-- The product is in the range of the type; and `float64(delay)` is not below the delay, or
the factor takes it to another value. -/
def ProductFits (pol : RestartPolicy) (delay : Duration) : Prop :=
  delayProduct pol delay < 2 ^ 63 ∧
    ((delay : ℚ) ≤ nearest 53 delay ∨ delayProduct pol delay ≠ nearest 53 delay)

/-- Every product fits that the loop uses: after a short run at which it does not give up. -/
def ProductsFit (pol : RestartPolicy) (runs : List StartRun) : Prop :=
  ∀ (k : Nat) (d : Duration) (run : StartRun),
    (plannedDelays pol pol.initialDelay runs)[k]? = some d → runs[k + 1]? = some run →
      run.resets pol = false → (∀ j ≤ k + 1, ¬ GivesUp pol runs j) → ProductFits pol d

/-! ## The product -/

section Product

variable {pol : RestartPolicy} (hpol : pol.Normal) {d : Duration} (hd : 0 < d)

include hpol hd

theorem nearest_le_product : nearest 53 (d : ℚ) ≤ delayProduct pol d := by
  have hpos : (0 : ℚ) < d := by exact_mod_cast hd
  have hnear : 0 < nearest 53 (d : ℚ) := nearest_pos (by norm_num) hpos
  calc nearest 53 (d : ℚ) = nearest 53 (nearest 53 d) :=
        (nearest_nearest (by norm_num) hpos).symm
    _ ≤ delayProduct pol d :=
        nearest_mono (by norm_num) hnear (le_mul_of_one_le_right hnear.le hpol.factor_ge)

theorem product_pos : 0 < delayProduct pol d := by
  have hpos : (0 : ℚ) < d := by exact_mod_cast hd
  exact (nearest_pos (by norm_num) hpos).trans_le (nearest_le_product hpol hd)

/-- The product is not below the delay it was formed from, unless that delay is rounded down
and the product stays there. -/
theorem le_floor_iff : d ≤ ⌊delayProduct pol d⌋ ↔
    (d : ℚ) ≤ nearest 53 d ∨ delayProduct pol d ≠ nearest 53 d := by
  have hpos : (0 : ℚ) < d := by exact_mod_cast hd
  have hle := nearest_le_product hpol hd
  rw [Int.le_floor]
  constructor
  · intro hprod
    by_contra hno
    obtain ⟨hlt, heq⟩ := not_or.mp hno
    rw [not_not.mp heq] at hprod
    exact hlt hprod
  · rintro (hup | hmoves)
    · exact hup.trans hle
    · have hnear : 0 < nearest 53 (d : ℚ) := nearest_pos (by norm_num) hpos
      have hfactor : 0 < nearest 53 (d : ℚ) * pol.factor :=
        mul_pos hnear (zero_lt_one.trans_le hpol.factor_ge)
      have hrounded : nearest 53 (delayProduct pol d) = delayProduct pol d :=
        nearest_nearest (by norm_num) hfactor
      exact le_of_nearest_lt (by norm_num) hpos hrounded (lt_of_le_of_ne hle hmoves.symm)

theorem product_mono {d' : Duration} (hle : d ≤ d') :
    delayProduct pol d ≤ delayProduct pol d' := by
  have hpos : (0 : ℚ) < d := by exact_mod_cast hd
  have hfactor : 0 < pol.factor := zero_lt_one.trans_le hpol.factor_ge
  have hnear : nearest 53 (d : ℚ) ≤ nearest 53 (d' : ℚ) :=
    nearest_mono (by norm_num) hpos (by exact_mod_cast hle)
  exact nearest_mono (by norm_num) (mul_pos (nearest_pos (by norm_num) hpos) hfactor)
    (mul_le_mul_of_nonneg_right hnear hfactor.le)

end Product

/-- The value of the product as a duration, then the cap. -/
theorem nextDelay_eq (pol : RestartPolicy) (d raw : Duration) :
    nextDelay pol d raw =
      min (if -(2 : ℚ) ^ 63 ≤ delayProduct pol d ∧ delayProduct pol d < (2 : ℚ) ^ 63 then
        (delayProduct pol d).num.tdiv (delayProduct pol d).den else raw) pol.maxDelay := by
  have hcap : ∀ x y : Int, (if x > y then y else x) = min x y := by
    intro x y
    rw [min_def]
    split <;> split <;> omega
  exact hcap _ _

/-- In the range of the type the product is cut off. -/
theorem nextDelay_of_lt {pol : RestartPolicy} (hpol : pol.Normal) {d : Duration} (hd : 0 < d)
    (hlt : delayProduct pol d < 2 ^ 63) (raw : Duration) :
    nextDelay pol d raw = cappedNext pol d := by
  have hpos := (product_pos hpol hd).le
  have hlow : -(2 : ℚ) ^ 63 ≤ delayProduct pol d := le_trans (by norm_num) hpos
  have htrunc : (delayProduct pol d).num.tdiv (delayProduct pol d).den = ⌊delayProduct pol d⌋ := by
    rw [Int.tdiv_eq_ediv_of_nonneg (Rat.num_nonneg.mpr hpos), Rat.floor_def']
  rw [nextDelay_eq, if_pos ⟨hlow, hlt⟩, htrunc, cappedNext]

/-- One nanosecond above 2^53 a delay is lost, with a factor of one. -/
example : nextDelay ⟨0, 2 ^ 53 + 1, 2 ^ 54, 1, 1⟩ (2 ^ 53 + 1) 0 = 2 ^ 53 := by decide +kernel

/-- Outside of it the unspecified value is all that the cap is applied to. -/
theorem nextDelay_of_le {pol : RestartPolicy} {d : Duration} (hge : 2 ^ 63 ≤ delayProduct pol d)
    (raw : Duration) : nextDelay pol d raw = min raw pol.maxDelay := by
  rw [nextDelay_eq, if_neg fun hrange => absurd hrange.2 (not_lt.mpr hge)]

/-- A delay that is within the bounds. -/
def Bounded (pol : RestartPolicy) (d : Duration) : Prop :=
  pol.initialDelay ≤ d ∧ d ≤ pol.maxDelay

section Bounded

variable {pol : RestartPolicy} (hpol : pol.Normal) {d : Duration} (hd : Bounded pol d)

include hpol

theorem bounded_initial : Bounded pol pol.initialDelay := ⟨le_rfl, hpol.initial_le⟩

include hd

theorem Bounded.pos : 0 < d := hpol.initial_pos.trans_le hd.1

theorem delayAfter_bounded (run : StartRun) : Bounded pol (delayAfter pol d run) := by
  unfold delayAfter
  split
  · exact bounded_initial hpol
  · exact hd

/-- A product that fits gives a delay within the bounds, not below the one before. -/
theorem cappedNext_bounded (hfits : ProductFits pol d) :
    d ≤ cappedNext pol d ∧ Bounded pol (cappedNext pol d) := by
  have hle : d ≤ cappedNext pol d :=
    le_min ((le_floor_iff hpol (hd.pos hpol)).mpr hfits.2) hd.2
  exact ⟨hle, hd.1.trans hle, min_le_right _ _⟩

end Bounded

/-! ## The delays of the loop -/

theorem waits_continues {pol : RestartPolicy} {attempts : Int} {run : StartRun}
    {runs : List StartRun} (hgoes : ¬ Exhausted pol attempts (run :: runs) 0)
    (delay : Duration) (raws : List Duration) :
    waits (supervise pol attempts delay (run :: runs) raws) =
      delayAfter pol delay run :: waits (supervise pol (attemptsAfter pol attempts [run])
        (nextDelay pol (delayAfter pol delay run) (raws.headD 0)) runs raws.tail) := by
  rw [supervise_continues hgoes]
  rfl

theorem waits_exhausted {pol : RestartPolicy} {attempts : Int} {run : StartRun}
    {runs : List StartRun} (hgives : Exhausted pol attempts (run :: runs) 0)
    (delay : Duration) (raws : List Duration) :
    waits (supervise pol attempts delay (run :: runs) raws) = [] := by
  rw [supervise_exhausted hgives]
  rfl

/-- What is reported is what is waited. -/
theorem reports_eq_waits (pol : RestartPolicy) (runs : List StartRun) :
    ∀ (attempts : Int) (delay : Duration) (raws : List Duration),
      reports (supervise pol attempts delay runs raws) =
        waits (supervise pol attempts delay runs raws) := by
  induction runs with
  | nil => exact fun _ _ _ => rfl
  | cons run runs ih =>
      intro attempts delay raws
      by_cases hgives : Exhausted pol attempts (run :: runs) 0
      · rw [supervise_exhausted hgives]
        rfl
      · have hrest := ih (attemptsAfter pol attempts [run])
          (nextDelay pol (delayAfter pol delay run) (raws.headD 0)) raws.tail
        rw [supervise_continues hgives]
        exact congrArg (delayAfter pol delay run :: ·) hrest

/-- A long run forgets the delay before it. -/
theorem supervise_forgets {pol : RestartPolicy} {run : StartRun} (hlong : run.resets pol = true)
    (runs : List StartRun) (attempts : Int) (delay delay' : Duration) (raws : List Duration) :
    supervise pol attempts delay (run :: runs) raws =
      supervise pol attempts delay' (run :: runs) raws := by
  rw [supervise, supervise, hlong]
  rfl

theorem plannedDelays_forgets {pol : RestartPolicy} {run : StartRun}
    (hlong : run.resets pol = true) (runs : List StartRun) (delay delay' : Duration) :
    plannedDelays pol delay (run :: runs) = plannedDelays pol delay' (run :: runs) := by
  rw [plannedDelays, plannedDelays, delayAfter, delayAfter, hlong]
  rfl

/-- Every product fits that the loop uses, from some attempts and some delay on. -/
def FitFrom (pol : RestartPolicy) (attempts : Int) (delay : Duration)
    (runs : List StartRun) : Prop :=
  ∀ (k : Nat) (d : Duration) (run : StartRun),
    (plannedDelays pol delay runs)[k]? = some d → runs[k + 1]? = some run →
      run.resets pol = false → (∀ j ≤ k + 1, ¬ Exhausted pol attempts runs j) → ProductFits pol d

theorem FitFrom.tail {pol : RestartPolicy} {attempts : Int} {delay : Duration}
    {run : StartRun} {runs : List StartRun}
    (hgoes : ¬ Exhausted pol attempts (run :: runs) 0)
    (hfit : FitFrom pol attempts delay (run :: runs)) :
    FitFrom pol (attemptsAfter pol attempts [run])
      (cappedNext pol (delayAfter pol delay run)) runs := by
  intro k d run' hd hrun' hshort hno
  refine hfit (k + 1) d run' (by simpa [plannedDelays] using hd) hrun' hshort fun j hj => ?_
  cases j with
  | zero => exact hgoes
  | succ j => exact hno j (by omega)

/-- What the delays are to be from some place of the loop on, where the next one after a short
run is `delay`. -/
structure BoundsFrom (pol : RestartPolicy) (delay : Duration) (runs : List StartRun)
    (ws : List Duration) : Prop where
  head : ∀ (d : Duration) (run : StartRun), ws[0]? = some d → runs[0]? = some run →
    d = delayAfter pol delay run
  bounded : ∀ d ∈ ws, Bounded pol d
  first : ∀ (k : Nat) (d : Duration) (run : StartRun), ws[k]? = some d → runs[k]? = some run →
    run.resets pol = true → d = pol.initialDelay
  ascending : ∀ (k : Nat) (d d' : Duration) (run : StartRun), ws[k]? = some d →
    ws[k + 1]? = some d' → runs[k + 1]? = some run → run.resets pol = false → d ≤ d'

theorem boundsFrom_nil (pol : RestartPolicy) (delay : Duration) (runs : List StartRun) :
    BoundsFrom pol delay runs [] := ⟨nofun, nofun, nofun, nofun⟩

theorem BoundsFrom.cons {pol : RestartPolicy} {delay next : Duration} {run : StartRun}
    {runs : List StartRun} {ws : List Duration} (hpol : pol.Normal) (hdelay : Bounded pol delay)
    (hnext : ∀ run', runs[0]? = some run' → run'.resets pol = false →
      delayAfter pol delay run ≤ next) (h : BoundsFrom pol next runs ws) :
    BoundsFrom pol delay (run :: runs) (delayAfter pol delay run :: ws) where
  head := by
    intro d run' hd hrun
    obtain rfl := Option.some.inj hd
    obtain rfl := Option.some.inj hrun
    rfl
  bounded := by
    intro d hd
    rcases List.mem_cons.mp hd with rfl | hd
    · exact delayAfter_bounded hpol hdelay run
    · exact h.bounded d hd
  first := by
    intro k d run' hd hrun hlong
    cases k with
    | zero =>
        obtain rfl := Option.some.inj hd
        obtain rfl := Option.some.inj hrun
        rw [delayAfter, if_pos hlong]
    | succ k => exact h.first k d run' hd hrun hlong
  ascending := by
    intro k d d' run' hd hd' hrun hshort
    cases k with
    | zero =>
        obtain rfl := Option.some.inj hd
        have hhead : delayAfter pol next run' = next := by
          rw [delayAfter, hshort]
          rfl
        rw [h.head d' run' hd' hrun, hhead]
        exact hnext run' hrun hshort
    | succ k => exact h.ascending k d d' run' hd hd' hrun hshort

/-- While the products fit, the loop goes on with a delay within the bounds. -/
private theorem goes_on_within {pol : RestartPolicy} (hpol : pol.Normal) {attempts : Int}
    {delay : Duration} {run : StartRun} {runs : List StartRun} (hdelay : Bounded pol delay)
    (hgoes : ¬ Exhausted pol attempts (run :: runs) 0)
    (hfit : FitFrom pol attempts delay (run :: runs)) (raw : Duration) :
    ∃ next, Bounded pol next ∧
      (∀ raws, waits (supervise pol (attemptsAfter pol attempts [run])
          (nextDelay pol (delayAfter pol delay run) raw) runs raws) =
        waits (supervise pol (attemptsAfter pol attempts [run]) next runs raws)) ∧
      FitFrom pol (attemptsAfter pol attempts [run]) next runs ∧
      ∀ run', runs[0]? = some run' → run'.resets pol = false → delayAfter pol delay run ≤ next := by
  have hafter := delayAfter_bounded hpol hdelay run
  cases runs with
  | nil => exact ⟨_, hafter, fun _ => rfl, nofun, nofun⟩
  | cons first rest =>
      by_cases hlong : first.resets pol = true
      · refine ⟨_, bounded_initial hpol, fun raws => ?_, ?_, fun run' hrun' hshort => ?_⟩
        · rw [supervise_forgets hlong]
        · have htail := hfit.tail hgoes
          rwa [FitFrom, plannedDelays_forgets hlong _ _ pol.initialDelay] at htail
        · obtain rfl := Option.some.inj hrun'
          rw [hlong] at hshort
          cases hshort
      by_cases hgives : Exhausted pol (attemptsAfter pol attempts [run]) (first :: rest) 0
      · refine ⟨_, hafter, fun raws => ?_, fun k d run' _ _ _ hno => ?_, fun _ _ _ => le_rfl⟩
        · rw [waits_exhausted hgives, waits_exhausted hgives]
        · exact absurd hgives (hno 0 (Nat.zero_le _))
      · have hfits : ProductFits pol (delayAfter pol delay run) :=
          hfit 0 _ first rfl rfl (by simpa using hlong) fun j hj => by
            obtain rfl | rfl : j = 0 ∨ j = 1 := by omega
            · exact hgoes
            · exact hgives
        obtain ⟨hle, hnext⟩ := cappedNext_bounded hpol hafter hfits
        refine ⟨_, hnext, fun raws => ?_, hfit.tail hgoes, fun _ _ _ => hle⟩
        rw [nextDelay_of_lt hpol (hafter.pos hpol) hfits.1]

/-- While the products fit, the delays are as they should be. -/
theorem boundsFrom_of_fit {pol : RestartPolicy} (hpol : pol.Normal) (runs : List StartRun) :
    ∀ (attempts : Int) (delay : Duration) (raws : List Duration),
      Bounded pol delay → FitFrom pol attempts delay runs →
        BoundsFrom pol delay runs (waits (supervise pol attempts delay runs raws)) := by
  induction runs with
  | nil => exact fun _ delay _ _ _ => boundsFrom_nil pol delay []
  | cons run runs ih =>
      intro attempts delay raws hdelay hfit
      by_cases hgives : Exhausted pol attempts (run :: runs) 0
      · rw [waits_exhausted hgives]
        exact boundsFrom_nil pol delay _
      · obtain ⟨next, hnext, hsame, hrest, hle⟩ :=
          goes_on_within hpol hdelay hgives hfit (raws.headD 0)
        rw [waits_continues hgives, hsame]
        exact .cons hpol hdelay hle (ih _ next raws.tail hnext hrest)

/-! ## A product that does not fit -/

/-- A delay below `InitialDelay`, or below the one before it in a streak. -/
def Spoiled (pol : RestartPolicy) (runs : List StartRun) (ws : List Duration) : Prop :=
  (∃ w ∈ ws, w < pol.initialDelay) ∨
    ∃ (k : Nat) (d d' : Duration) (run : StartRun), ws[k]? = some d ∧ ws[k + 1]? = some d' ∧
      runs[k + 1]? = some run ∧ run.resets pol = false ∧ d' < d

theorem Spoiled.cons {pol : RestartPolicy} {runs : List StartRun} {ws : List Duration}
    (h : Spoiled pol runs ws) (run : StartRun) (d : Duration) :
    Spoiled pol (run :: runs) (d :: ws) := by
  rcases h with ⟨w, hw, hlt⟩ | ⟨k, x, y, run', hx, hy, hrun', hshort, hlt⟩
  · exact Or.inl ⟨w, List.mem_cons_of_mem _ hw, hlt⟩
  · exact Or.inr ⟨k + 1, x, y, run', hx, hy, hrun', hshort, hlt⟩

/-- A product that does not fit can spoil the next delay. -/
private theorem spoiled_of_not_fits {pol : RestartPolicy} (hpol : pol.Normal) {attempts : Int}
    {d : Duration} {run next : StartRun} {rest : List StartRun} (hd : Bounded pol d)
    (hshort : next.resets pol = false) (hgoes : ¬ Exhausted pol attempts (next :: rest) 0)
    (hnot : ¬ ProductFits pol d) (raws : List Duration) :
    Spoiled pol (run :: next :: rest)
      (d :: waits (supervise pol attempts (nextDelay pol d (-2 ^ 63)) (next :: rest) raws)) := by
  have hwait : ∃ ws, waits (supervise pol attempts (nextDelay pol d (-2 ^ 63)) (next :: rest) raws) =
      nextDelay pol d (-2 ^ 63) :: ws := by
    have hhead : delayAfter pol (nextDelay pol d (-2 ^ 63)) next = nextDelay pol d (-2 ^ 63) := by
      rw [delayAfter, hshort]
      rfl
    rw [waits_continues hgoes, hhead]
    exact ⟨_, rfl⟩
  obtain ⟨ws, hws⟩ := hwait
  rw [hws]
  have hinitial : (0 : Int) < pol.initialDelay := hpol.initial_pos
  by_cases hlt : delayProduct pol d < 2 ^ 63
  · refine Or.inr ⟨0, d, _, next, rfl, rfl, rfl, hshort, ?_⟩
    have hfloor : ⌊delayProduct pol d⌋ < d := by
      rw [← not_le, le_floor_iff hpol (hd.pos hpol)]
      exact fun hfits => hnot ⟨hlt, hfits⟩
    rw [nextDelay_of_lt hpol (hd.pos hpol) hlt]
    exact (min_le_left _ _).trans_lt hfloor
  · refine Or.inl ⟨_, List.mem_cons_of_mem _ List.mem_cons_self, ?_⟩
    rw [nextDelay_of_le (not_lt.mp hlt)]
    exact (min_le_left _ _).trans_lt (lt_trans (by norm_num) hinitial)

theorem spoiled_of_misfit {pol : RestartPolicy} (hpol : pol.Normal) (runs : List StartRun) :
    ∀ (attempts : Int) (delay : Duration) (k : Nat) (d : Duration) (run : StartRun),
      Bounded pol delay → (plannedDelays pol delay runs)[k]? = some d →
      runs[k + 1]? = some run → run.resets pol = false →
      (∀ j ≤ k + 1, ¬ Exhausted pol attempts runs j) → ¬ ProductFits pol d →
        Spoiled pol runs
          (waits (supervise pol attempts delay runs (List.replicate runs.length (-2 ^ 63)))) := by
  induction runs with
  | nil =>
      intro attempts delay k d run _ _ hrun
      simp at hrun
  | cons first runs ih =>
      intro attempts delay k d run hdelay hd hrun hshort hno hnot
      have hafter := delayAfter_bounded hpol hdelay first
      cases runs with
      | nil => simp at hrun
      | cons next rest =>
          have hgoes : ¬ Exhausted pol (attemptsAfter pol attempts [first]) (next :: rest) 0 :=
            hno 1 (by omega)
          have hraw : (List.replicate (first :: next :: rest).length (-2 ^ 63 : Int)).headD 0 =
              -2 ^ 63 := rfl
          rw [waits_continues (hno 0 (by omega)), hraw]
          by_cases hhere : next.resets pol = false ∧ ¬ ProductFits pol (delayAfter pol delay first)
          · exact spoiled_of_not_fits hpol hafter hhere.1 hgoes hhere.2 _
          · cases k with
            | zero =>
                obtain rfl : delayAfter pol delay first = d := by simpa [plannedDelays] using hd
                obtain rfl : next = run := by simpa using hrun
                exact absurd ⟨hshort, hnot⟩ hhere
            | succ k =>
                have hd' : (plannedDelays pol (cappedNext pol (delayAfter pol delay first))
                    (next :: rest))[k]? = some d := by
                  rw [plannedDelays, List.getElem?_cons_succ] at hd
                  exact hd
                have hno' : ∀ j ≤ k + 1,
                    ¬ Exhausted pol (attemptsAfter pol attempts [first]) (next :: rest) j :=
                  fun j hj => hno (j + 1) (by omega)
                refine Spoiled.cons ?_ first _
                by_cases hlong : next.resets pol = true
                · rw [supervise_forgets hlong _ _ _ pol.initialDelay]
                  rw [plannedDelays_forgets hlong _ _ pol.initialDelay] at hd'
                  exact ih _ _ k d run (bounded_initial hpol) hd' hrun hshort hno' hnot
                · have hfits : ProductFits pol (delayAfter pol delay first) := by
                    by_contra hmisfit
                    exact hhere ⟨by simpa using hlong, hmisfit⟩
                  have hnext := (cappedNext_bounded hpol hafter hfits).2
                  rw [nextDelay_of_lt hpol (hafter.pos hpol) hfits.1]
                  exact ih _ _ k d run hnext hd' hrun hshort hno' hnot

theorem productsFit_iff (pol : RestartPolicy) (runs : List StartRun) :
    ProductsFit pol runs ↔ FitFrom pol 0 pol.initialDelay runs := by
  have hno : ∀ (k : Nat) (run : StartRun), runs[k]? = some run →
      ((∀ j ≤ k, ¬ GivesUp pol runs j) ↔ ∀ j ≤ k, ¬ Exhausted pol 0 runs j) := by
    intro k run hrun
    obtain ⟨hk, -⟩ := List.getElem?_eq_some_iff.mp hrun
    refine forall₂_congr fun j hj => ?_
    rw [givesUp_iff pol (lt_of_le_of_lt hj hk)]
  constructor
  · intro hfit k d run hd hrun hshort hexhausted
    exact hfit k d run hd hrun hshort ((hno _ run hrun).mpr hexhausted)
  · intro hfit k d run hd hrun hshort hgives
    exact hfit k d run hd hrun hshort ((hno _ run hrun).mp hgives)

theorem BoundsFrom.backoffBounds {pol : RestartPolicy} {runs : List StartRun}
    {events : List SupEvent} (hreported : reports events = waits events)
    (h : BoundsFrom pol pol.initialDelay runs (waits events)) : BackoffBounds pol runs events where
  reported := hreported
  bounded := h.bounded
  first := by
    rintro k d run hd hrun (rfl | hlong)
    · rw [h.head d run hd hrun, delayAfter, ite_self]
    · exact h.first k d run hd hrun hlong
  ascending := h.ascending

/-- The delays of an accepted policy are as they should be, whatever out of range
products become, exactly when every product that the loop uses fits. -/
theorem backoff_bounds_iff {p : RestartPolicy} (hp : p.validate = none) (runs : List StartRun) :
    (∀ raws : List Duration, (∀ raw ∈ raws, inInt64 raw) →
      BackoffBounds p.normalized runs
        (supervise p.normalized 0 p.normalized.initialDelay runs raws)) ↔
      ProductsFit p.normalized runs := by
  have hpol := RestartPolicy.normal_of_validate hp
  rw [productsFit_iff]
  constructor
  · intro hbounds k d run hd hrun hshort hno
    by_contra hnot
    have hin : ∀ raw ∈ List.replicate runs.length (-2 ^ 63 : Int), inInt64 raw := by
      intro raw hraw
      rw [List.eq_of_mem_replicate hraw]
      decide
    obtain ⟨w, hw, hlt⟩ | ⟨j, x, y, run', hx, hy, hrun', hshort', hlt⟩ :=
      spoiled_of_misfit hpol runs 0 _ k d run (bounded_initial hpol) hd hrun hshort hno hnot
    · exact absurd ((hbounds _ hin).bounded w hw).1 (not_le.mpr hlt)
    · exact absurd ((hbounds _ hin).ascending j x y run' hx hy hrun' hshort') (not_le.mpr hlt)
  · intro hfit raws _
    exact (boundsFrom_of_fit hpol runs 0 _ raws (bounded_initial hpol) hfit).backoffBounds
      (reports_eq_waits _ _ _ _ _)

/-- All products fit when the largest delay is below 2^53 nanoseconds and its product is in
the range of the type. -/
theorem productFits_of_maxDelay {pol : RestartPolicy} (hpol : pol.Normal)
    (hmax : pol.maxDelay < 2 ^ 53) (hlt : delayProduct pol pol.maxDelay < 2 ^ 63) {d : Duration} (hd : Bounded pol d) :
    ProductFits pol d := by
  have hsmall : |d| < 2 ^ 53 := by
    rw [abs_of_pos (hd.pos hpol)]
    exact hd.2.trans_lt hmax
  exact ⟨(product_mono hpol (hd.pos hpol) hd.2).trans_lt hlt, Or.inl (nearest_intCast hsmall).ge⟩

theorem plannedDelays_bounded {pol : RestartPolicy} (hpol : pol.Normal)
    (hfits : ∀ d, Bounded pol d → ProductFits pol d) (runs : List StartRun) :
    ∀ delay : Duration, Bounded pol delay → ∀ d ∈ plannedDelays pol delay runs, Bounded pol d := by
  induction runs with
  | nil =>
      intro delay _ d hd
      cases hd
  | cons run runs ih =>
      intro delay hdelay d hd
      have hafter := delayAfter_bounded hpol hdelay run
      rcases List.mem_cons.mp hd with rfl | hd
      · exact hafter
      · exact ih _ (cappedNext_bounded hpol hafter (hfits _ hafter)).2 d hd

/-- A policy whose second delay leaves the range of the type. -/
def steepPolicy : RestartPolicy := ⟨0, 2 ^ 62, 2 ^ 63 - 1, 2, 1⟩

/-- Two runs that fail at once. -/
def failingRuns : List StartRun :=
  [⟨0, .returned (some (newError "down"))⟩, ⟨0, .returned (some (newError "down"))⟩]

/-- The backoff can be turned into a delay that does not wait at all. -/
theorem negative_delay : ¬ ∀ (p : RestartPolicy) (runs : List StartRun) (raws : List Duration),
    p.validate = none → (∀ raw ∈ raws, inInt64 raw) →
      BackoffBounds p.normalized runs
        (supervise p.normalized 0 p.normalized.initialDelay runs raws) := by
  intro hall
  have hbounds := hall steepPolicy failingRuns [-2 ^ 63] (by decide +kernel) (by decide)
  exact absurd (hbounds.bounded (-2 ^ 63) (by decide +kernel)).1 (by decide)

/-- A policy of five attempts with the default delays. -/
def usualPolicy : RestartPolicy := ⟨5, 0, 0, 0, 0⟩

theorem usualPolicy_fits : ProductsFit usualPolicy.normalized failingRuns := by
  have hpol : usualPolicy.normalized.Normal :=
    RestartPolicy.normal_of_validate (by decide +kernel)
  have hproduct : delayProduct usualPolicy.normalized usualPolicy.normalized.maxDelay =
      ((120000000000 : ℤ) : ℚ) := by
    have hmax : nearest 53 ((60000000000 : ℤ) : ℚ) = ((60000000000 : ℤ) : ℚ) :=
      nearest_intCast (by norm_num)
    have hdouble : ((60000000000 : ℤ) : ℚ) * 2 = ((120000000000 : ℤ) : ℚ) := by norm_num
    show nearest 53 (nearest 53 ((60000000000 : ℤ) : ℚ) * 2) = _
    rw [hmax, hdouble]
    exact nearest_intCast (by norm_num)
  have hfits : ∀ d, Bounded usualPolicy.normalized d → ProductFits usualPolicy.normalized d :=
    fun d hd => productFits_of_maxDelay hpol (by decide) (by rw [hproduct]; norm_num) hd
  intro k d run hd _ _ _
  exact hfits d (plannedDelays_bounded hpol hfits failingRuns _ (bounded_initial hpol) d
    (List.mem_of_getElem? hd))

theorem backoff_bounds_usualPolicy :
    BackoffBounds usualPolicy.normalized failingRuns
      (supervise usualPolicy.normalized 0 usualPolicy.normalized.initialDelay failingRuns []) :=
  (backoff_bounds_iff (p := usualPolicy) (by decide +kernel) failingRuns).mpr
    usualPolicy_fits [] (by simp)

end Shost.Ports.Hosting
