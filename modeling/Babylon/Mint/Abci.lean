/-
  The `BeginBlocker` of `x/mint` and its yearly schedule.

  A block recalculates the annual provisions if the inflation rate of its year is
  not the stored one, or if they are zero.  The constants of the module make the
  rate the same in every year.  So the supply is read once, when it is first not
  zero, and not again on the anniversaries of genesis.

  Each block mints the part of the provisions that belongs to the time since the
  last one.  It rounds twice and truncates, and the errors do not add up to more
  than a token a block.

  The supply is an input of a block, since other modules change it too; calls of
  `x/bank` succeed.  `math.LegacyDec` is not part of the repository: its functions
  here follow its documentation, with rounding half to even.
-/
import Mathlib.Algebra.Order.Field.Rat
import Mathlib.Tactic.Linarith
import Babylon.Lib.Run
import Babylon.Types.Coins

set_option autoImplicit false

namespace Babylon

open Lib Dec

namespace Dec

/-! ## `LegacyDec` -/

/-- `chopPrecisionAndRound`. -/
def chopPrecisionAndRound (d : Int) : Dec :=
  let quo : Nat := d.natAbs / 10 ^ 18
  let rem : Nat := d.natAbs % 10 ^ 18
  let up := 5 * 10 ^ 17 < rem ∨ rem = 5 * 10 ^ 17 ∧ quo % 2 = 1
  d.sign * (if up then quo + 1 else quo : Nat)

def mul (a b : Dec) : Dec := chopPrecisionAndRound (a * b)

def quo (a b : Dec) : Dec := chopPrecisionAndRound ((a * 10 ^ 36).tdiv b)

def mulInt (a : Dec) (i : Int) : Dec := a * i

/-- The loop of `Power`; the exponent is halved in every round, so that it bounds their number. -/
def powerLoop : Nat → Dec → Dec → Nat → Dec
  | 0, d, tmp, _ => d.mul tmp
  | rounds + 1, d, tmp, i =>
    if i ≤ 1 then d.mul tmp
    else powerLoop rounds (d.mul d) (if i % 2 ≠ 0 then tmp.mul d else tmp) (i / 2)

def power (d : Dec) (power : Nat) : Dec := if power = 0 then one else powerLoop power d one power

theorem powerLoop_one (rounds i : Nat) : powerLoop rounds one one i = one := by
  have hone : mul one one = one := by decide
  induction rounds generalizing i with
  | zero => exact hone
  | succ rounds ih =>
    unfold powerLoop
    simp only [hone, ite_self, ih]

theorem power_one (n : Nat) : power one n = one := by
  unfold power
  split
  case isTrue => rfl
  case isFalse => exact powerLoop_one n n

/-- Rounding moves by at most half a unit. -/
theorem chopPrecisionAndRound_bounds {d : Int} (h : 0 ≤ d) : 0 ≤ chopPrecisionAndRound d ∧
    (d : ℚ) / 10 ^ 18 - 1 / 2 ≤ chopPrecisionAndRound d ∧
      chopPrecisionAndRound d ≤ (d : ℚ) / 10 ^ 18 + 1 / 2 := by
  obtain ⟨n, rfl⟩ := Int.eq_ofNat_of_zero_le h
  rcases Nat.eq_zero_or_pos n with rfl | hpos
  · decide +kernel
  · have hdiv : (10 ^ 18 : ℚ) * (n / 10 ^ 18 : Nat) + (n % 10 ^ 18 : Nat) = n := by
      exact_mod_cast Nat.div_add_mod n (10 ^ 18)
    have hrem : ((n % 10 ^ 18 : Nat) : ℚ) < 10 ^ 18 := by
      exact_mod_cast Nat.mod_lt n (by decide)
    simp only [chopPrecisionAndRound, Int.natAbs_natCast, Int.sign_natCast_of_ne_zero hpos.ne']
    rw [Int.cast_natCast, ← hdiv]
    generalize n / 10 ^ 18 = quo, n % 10 ^ 18 = rem at *
    split
    case isTrue hup =>
      have hhalf : (5 * 10 ^ 17 : ℚ) ≤ rem := by
        exact_mod_cast hup.elim (fun h => h.le) fun h => h.1.ge
      refine ⟨by positivity, ?_, ?_⟩ <;> push_cast <;> linarith
    case isFalse hup =>
      have hhalf : (rem : ℚ) ≤ 5 * 10 ^ 17 := by exact_mod_cast not_lt.mp fun h => hup (.inl h)
      have hzero := rem.cast_nonneg (α := ℚ)
      refine ⟨by positivity, ?_, ?_⟩ <;> push_cast <;> linarith

theorem ediv_bounds (x : Int) {n : Int} (hn : 0 < n) :
    ((x / n : Int) : ℚ) ≤ x / n ∧ (x : ℚ) / n < (x / n : Int) + 1 := by
  have hpos : (0 : ℚ) < n := by exact_mod_cast hn
  rw [le_div_iff₀ hpos, div_lt_iff₀ hpos]
  exact_mod_cast And.intro (Int.ediv_mul_le x hn.ne') (Int.lt_ediv_add_one_mul_self x hn)

/-- The quotient of two whole numbers is exact to within a unit. -/
theorem quo_bounds {e n : Int} (he : 0 ≤ e) (hn : 0 < n) :
    0 ≤ quo (e * 10 ^ 18) (n * 10 ^ 18) ∧
      (e : ℚ) / n * 10 ^ 18 - 1 ≤ quo (e * 10 ^ 18) (n * 10 ^ 18) ∧
      quo (e * 10 ^ 18) (n * 10 ^ 18) ≤ (e : ℚ) / n * 10 ^ 18 + 1 := by
  have hdiv : (e * 10 ^ 18 * 10 ^ 36).tdiv (n * 10 ^ 18) = e * 10 ^ 36 / n := by
    rw [Int.tdiv_eq_ediv_of_nonneg (by positivity), Int.mul_right_comm,
      Int.mul_ediv_mul_of_pos_left _ _ (by decide)]
  obtain ⟨hfloor, hceil⟩ := ediv_bounds (e * 10 ^ 36) hn
  simp only [Int.cast_mul, Int.cast_pow, Int.cast_ofNat, mul_div_right_comm] at hfloor hceil
  obtain ⟨hnonneg, hlow, hhigh⟩ :=
    chopPrecisionAndRound_bounds (d := e * 10 ^ 36 / n) (by positivity)
  unfold quo
  rw [hdiv]
  refine ⟨hnonneg, ?_, ?_⟩ <;> linarith

end Dec

namespace Mint

/-! ## The minter, `types/minter.go` -/

def nanosecondsPerYear : Int := 1000000000 * 31556952

def initialInflationRateAsDec : Dec := 55 * 10 ^ 15

def disinflationRateAsDec : Dec := 0

def targetInflationRateAsDec : Dec := 15 * 10 ^ 15

def maxMintedPerBlock : Int := 600000000

structure Minter where
  inflationRate : Dec
  annualProvisions : Dec
  previousBlockTime : Option Time
  bondDenom : Denom

/-- `Minter.Validate`; a denomination is never blank. -/
def Minter.validate (m : Minter) : Outcome Unit := do
  ensure (0 ≤ m.inflationRate) (.errorf "inflation rate %v should be positive")
  ensure (0 ≤ m.annualProvisions) (.errorf "annual provisions %v should be positive")

/-- `Time.Sub` in nanoseconds, which does not leave the range of `int64`. -/
def elapsed (current previous : Time) : Int := max (-2 ^ 63) (min (2 ^ 63 - 1) (current - previous))

def yearsSinceGenesis (genesis current : Time) : Int :=
  if current < genesis then 0 else elapsed current genesis / nanosecondsPerYear

/-- `CalculateInflationRate`. -/
def calculateInflationRate (current genesis : Time) : Dec :=
  let years := yearsSinceGenesis genesis current
  let inflationRate := initialInflationRateAsDec.mul
    (power (one - disinflationRateAsDec) years.toNat)
  if inflationRate < targetInflationRateAsDec then targetInflationRateAsDec else inflationRate

/-- `CalculateBlockProvision`: the denomination and the amount of the coin. -/
def Minter.calculateBlockProvision (m : Minter) (current previous : Time) :
    Outcome (Denom × Int) := do
  ensure (¬ current < previous) (.errorf "current time %v cannot be before previous time %v")
  let portionOfYear := quo (elapsed current previous * 10 ^ 18) (nanosecondsPerYear * 10 ^ 18)
  let amountToMint := min (m.annualProvisions.mul portionOfYear).truncateInt maxMintedPerBlock
  ensure (0 ≤ amountToMint) (.panic "negative coin amount: %v")
  return (m.bondDenom, amountToMint)

/-! ## Blocks, `abci.go` -/

structure State where
  minter : Minter
  genesisTime : Time

/-- What `x/mint` reads at a block: its time, and the supply of the staking token. -/
structure Block where
  time : Time
  supply : Nat

def State.maybeUpdateMinter (s : State) (block : Block) : State :=
  let newInflationRate := calculateInflationRate block.time s.genesisTime
  if newInflationRate = s.minter.inflationRate ∧ s.minter.annualProvisions ≠ 0 then s
  else { s with minter := { s.minter with
    inflationRate := newInflationRate
    annualProvisions := newInflationRate.mulInt block.supply } }

/-- `mintBlockProvision`: what is minted, nothing at the first block. -/
def State.mintBlockProvision (s : State) (block : Block) : Outcome (Option (Denom × Int)) :=
  match s.minter.previousBlockTime with
  | none => return none
  | some previous => do
      let coin ← (s.minter.calculateBlockProvision block.time previous).orPanic
        "current time %v cannot be before previous time %v"
      return some coin

def State.setPreviousBlockTime (s : State) (block : Block) : State :=
  { s with minter := { s.minter with previousBlockTime := some block.time } }

/-- `BeginBlocker`: the state after it and what it has minted. -/
def State.beginBlocker (s : State) (block : Block) : Outcome (State × Option (Denom × Int)) := do
  let s := s.maybeUpdateMinter block
  let minted ← s.mintBlockProvision block
  return (s.setPreviousBlockTime block, minted)

/-- The blocks after a genesis.  A block whose time is before that of the last one panics, so
times do not decrease. -/
def mint (genesis : State) : System State Block where
  init := fun s => s = genesis ∧ genesis.minter.validate = .ok ()
  step := fun s block => (s.beginBlocker block).toOption.map Prod.fst

/-! ## The schedule -/

theorem calculateInflationRate_eq (current genesis : Time) :
    calculateInflationRate current genesis = initialInflationRateAsDec := by
  have hrate : initialInflationRateAsDec.mul one = initialInflationRateAsDec := by decide
  have hyear : one - disinflationRateAsDec = one := Int.sub_zero _
  simp only [calculateInflationRate, hyear, power_one, hrate]
  exact if_neg (by decide)

variable {genesis s t : State} {block : Block} {history : List (State × Block)}

/-- The supply at the first block of a year, among blocks of which the newest is the first. -/
def firstSupply (genesisTime : Time) (year : Int) : List Block → Option Nat
  | [] => none
  | block :: earlier => (firstSupply genesisTime year earlier).or
      (if yearsSinceGenesis genesisTime block.time = year then some block.supply else none)

/-- The first supply that is not zero, if there is one. -/
def firstNonZeroSupply : List Block → Nat
  | [] => 0
  | block :: earlier =>
    if firstNonZeroSupply earlier = 0 then block.supply else firstNonZeroSupply earlier

/-- The annual provisions after some blocks: those of the genesis state, if it has any and its
rate is that of the module, or else those of the first supply that is not zero. -/
def calculatedProvisions (genesis : Minter) (blocks : List Block) : Dec :=
  if genesis.inflationRate = initialInflationRateAsDec ∧ genesis.annualProvisions ≠ 0 then
    genesis.annualProvisions
  else initialInflationRateAsDec.mulInt (firstNonZeroSupply blocks)

theorem mulInt_rate_eq_iff {a b : Nat} :
    initialInflationRateAsDec.mulInt a = initialInflationRateAsDec.mulInt b ↔ a = b := by
  exact (Int.mul_eq_mul_left_iff (by decide)).trans Int.ofNat_inj

theorem step_minter (h : (mint genesis).step s block = some t) :
    t.minter.inflationRate = initialInflationRateAsDec ∧
      t.minter.annualProvisions
        = if s.minter.inflationRate = initialInflationRateAsDec ∧ s.minter.annualProvisions ≠ 0
          then s.minter.annualProvisions else initialInflationRateAsDec.mulInt block.supply := by
  obtain ⟨⟨_, _⟩, hok, rfl⟩ := Option.map_eq_some_iff.mp h
  have hbegin := toOption_eq_some_iff.mp hok
  simp only [State.beginBlocker, ok_iff, Prod.mk.injEq] at hbegin
  obtain ⟨_, -, rfl, -⟩ := hbegin
  simp only [State.setPreviousBlockTime, State.maybeUpdateMinter, calculateInflationRate_eq,
    eq_comm (a := initialInflationRateAsDec)]
  split
  case isTrue hkeep => exact ⟨hkeep.1, rfl⟩
  case isFalse => exact ⟨rfl, rfl⟩

/-- What the minter holds after a run. -/
theorem minter_of_run (run : Run (mint genesis) history s) :
    if history = [] then s.minter = genesis.minter
    else s.minter.inflationRate = initialInflationRateAsDec ∧
      s.minter.annualProvisions
        = calculatedProvisions genesis.minter (history.map Prod.snd) := by
  refine run.historyInvariant (fun history s =>
    if history = [] then s.minter = genesis.minter
    else s.minter.inflationRate = initialInflationRateAsDec ∧ s.minter.annualProvisions
      = calculatedProvisions genesis.minter (history.map Prod.snd)) ?_ ?_ .trivial
  · rintro _ ⟨rfl, -⟩
    rfl
  · intro history s block t _ hminter _ hstep
    obtain ⟨hrate, hprovisions⟩ := step_minter hstep
    rw [if_neg (List.cons_ne_nil _ _)]
    refine ⟨hrate, hprovisions.trans ?_⟩
    unfold calculatedProvisions
    split at hminter
    case isTrue hfirst =>
      subst hfirst
      rw [hminter]
      rfl
    case isFalse =>
      -- the rate is the module's, so only provisions of zero are calculated again
      rw [hminter.1, hminter.2, calculatedProvisions, List.map_cons, firstNonZeroSupply]
      split
      case isTrue himported => rw [if_pos ⟨rfl, himported.2⟩]
      case isFalse =>
        by_cases hzero : firstNonZeroSupply (history.map Prod.snd) = 0
        · rw [hzero]
          rfl
        · rw [if_neg hzero, if_pos ⟨rfl, fun h => hzero ((mulInt_rate_eq_iff (b := 0)).mp h)⟩]

/-- After every block the inflation rate is that of its year.  The annual provisions are the
rate times the supply at the first block of the year if and only if that supply is the first
one other than zero since genesis (or the genesis state has such provisions). -/
theorem annual_provisions_iff (run : Run (mint genesis) ((s, block) :: history) t) :
    let year := yearsSinceGenesis genesis.genesisTime block.time
    let supply := (firstSupply genesis.genesisTime year (history.map Prod.snd)).getD block.supply
    t.minter.inflationRate = calculateInflationRate block.time genesis.genesisTime ∧
      (t.minter.annualProvisions = t.minter.inflationRate.mulInt supply ↔
        if genesis.minter.inflationRate = initialInflationRateAsDec ∧
          genesis.minter.annualProvisions ≠ 0
        then genesis.minter.annualProvisions = initialInflationRateAsDec.mulInt supply
        else firstNonZeroSupply (block :: history.map Prod.snd) = supply) := by
  intro year supply
  have hminter := minter_of_run run
  rw [if_neg (List.cons_ne_nil _ _), List.map_cons] at hminter
  refine ⟨hminter.1.trans (calculateInflationRate_eq _ _).symm, ?_⟩
  rw [hminter.1, hminter.2, calculatedProvisions]
  split
  case isTrue => exact Iff.rfl
  case isFalse => exact mulInt_rate_eq_iff

/-- `DefaultGenesisState`, at time zero. -/
def defaultGenesis : State := ⟨⟨initialInflationRateAsDec, 0, none, 0⟩, 0⟩

/-- If the supply of 1000 is the same after a year, so are the provisions. -/
theorem provisions_of_same_supply : ∃ history t, Run (mint defaultGenesis) history t ∧
    history.map Prod.snd = [⟨nanosecondsPerYear, 1000⟩, ⟨0, 1000⟩] ∧
    t.minter.annualProvisions = t.minter.inflationRate.mulInt 1000 := by
  obtain ⟨history, t, run, hblocks⟩ := Run.recording (mint defaultGenesis) ⟨rfl, rfl⟩
    [⟨0, 1000⟩, ⟨nanosecondsPerYear, 1000⟩]
    (P := fun history _ => history.map Prod.snd = [⟨nanosecondsPerYear, 1000⟩, ⟨0, 1000⟩])
    ⟨_, rfl, rfl⟩
  obtain ⟨⟨s, _⟩, earlier, rfl, rfl, hearlier⟩ := List.map_eq_cons_iff.mp hblocks
  refine ⟨_, t, run, hblocks, ?_⟩
  have hiff := (annual_provisions_iff run).2
  rw [hearlier] at hiff
  exact hiff.mpr (by decide)

/-- The supply is 1000 at genesis and 1100 a year later.  The provisions of the second year are
still those of the first supply. -/
theorem anniversary_ignored : ∃ history t, Run (mint defaultGenesis) history t ∧
    history.map Prod.snd = [⟨nanosecondsPerYear, 1100⟩, ⟨0, 1000⟩] ∧
    yearsSinceGenesis 0 nanosecondsPerYear = 1 ∧
    t.minter.annualProvisions ≠ t.minter.inflationRate.mulInt 1100 :=
  Run.recording _ ⟨rfl, rfl⟩ [⟨0, 1000⟩, ⟨nanosecondsPerYear, 1100⟩]
    ⟨_, rfl, rfl, by decide, by decide⟩

/-! ## What blocks mint -/

/-- A block provision is the elapsed part of the annual provisions, up to two roundings and a
truncation.  It can also be less, by the cap and by the saturation of `Sub`. -/
theorem Minter.calculateBlockProvision_bounds {m : Minter} {current previous : Time}
    {denom : Denom} {amount : Int}
    (h : m.calculateBlockProvision current previous = .ok (denom, amount))
    (hnonneg : 0 ≤ m.annualProvisions) :
    let a : ℚ := m.annualProvisions / 10 ^ 18
    let due := a / nanosecondsPerYear * (current - previous)
    amount ≤ due + (a + 1) / 10 ^ 18 ∧ (amount < maxMintedPerBlock → current - previous < 2 ^ 63 →
      due - (1 + (a + 1) / 10 ^ 18) < amount) := by
  intro a due
  simp only [Minter.calculateBlockProvision, ok_iff, Prod.mk.injEq] at h
  obtain ⟨_, hle, _, -, -, rfl⟩ := h
  have ha : 0 ≤ a := div_nonneg (Int.cast_nonneg hnonneg) (by positivity)
  have hgap : 0 ≤ current - previous := by linarith [not_lt.mp hle]
  have helapsed : elapsed current previous = min (2 ^ 63 - 1) (current - previous) :=
    max_eq_right (by linarith [le_min (by decide : (0 : Int) ≤ 2 ^ 63 - 1) hgap])
  obtain ⟨hpart, hlow, hhigh⟩ := quo_bounds (e := elapsed current previous)
    (n := nanosecondsPerYear) (helapsed ▸ le_min (by decide) hgap) (by decide)
  generalize quo (elapsed current previous * 10 ^ 18) (nanosecondsPerYear * 10 ^ 18) = part at *
  have hround := chopPrecisionAndRound_bounds (mul_nonneg hnonneg hpart)
  rw [Int.cast_mul, mul_div_right_comm] at hround
  obtain ⟨hproduct, hmulLow, hmulHigh⟩ : _ ∧ a * part - 1 / 2 ≤ _ ∧ _ ≤ a * part + 1 / 2 := hround
  unfold Dec.truncateInt Dec.mul
  rw [Int.tdiv_eq_ediv_of_nonneg hproduct]
  generalize chopPrecisionAndRound (m.annualProvisions * part) = product at *
  obtain ⟨hfloor, hceil⟩ := ediv_bounds product (n := 10 ^ 18) (by decide)
  simp only [Int.cast_pow, Int.cast_ofNat] at hfloor hceil
  have hyear : (0 : ℚ) < nanosecondsPerYear := by
    exact_mod_cast (by decide : 0 < nanosecondsPerYear)
  constructor
  · have hmin : ((min (product / 10 ^ 18) maxMintedPerBlock : Int) : ℚ) ≤
        (product / 10 ^ 18 : Int) := Int.cast_le.mpr (min_le_left _ _)
    have hshorter : (elapsed current previous : ℚ) ≤ current - previous := by
      exact_mod_cast helapsed ▸ min_le_right (2 ^ 63 - 1) (current - previous)
    have hdue : a * part ≤ due * 10 ^ 18 + a := calc
      a * part ≤ a * ((current - previous) / nanosecondsPerYear * 10 ^ 18 + 1) := by
        gcongr
        exact hhigh.trans (by gcongr)
      _ = due * 10 ^ 18 + a := by ring
    linarith
  · intro hmax hshort
    rw [min_eq_left (le_of_not_ge fun h => hmax.ne (min_eq_right h))]
    rw [helapsed, min_eq_right (Int.le_sub_one_of_lt hshort), Int.cast_sub] at hlow
    have hdue : due * 10 ^ 18 - a ≤ a * part := calc
      due * 10 ^ 18 - a = a * ((current - previous) / nanosecondsPerYear * 10 ^ 18 - 1) := by ring
      _ ≤ a * part := by gcongr
    linarith

/-- Consecutive blocks with the annual provisions `provisions`: for each of them the time since
the last block and the amount it mints. -/
inductive Mints (provisions : Dec) : State → List (Int × Int) → State → Prop
  | nil (s : State) : Mints provisions s [] s
  | block {s t u : State} (block : Block) {previous : Time} {denom : Denom} {amount : Int}
      {later : List (Int × Int)} (hprev : s.minter.previousBlockTime = some previous)
      (h : s.beginBlocker block = .ok (t, some (denom, amount)))
      (hprovisions : t.minter.annualProvisions = provisions) (rest : Mints provisions t later u) :
      Mints provisions s ((block.time - previous, amount) :: later) u

theorem calculateBlockProvision_of_beginBlocker {previous : Time} {coin : Denom × Int}
    (hprev : s.minter.previousBlockTime = some previous)
    (h : s.beginBlocker block = .ok (t, some coin)) :
    t.minter.calculateBlockProvision block.time previous = .ok coin ∧
      t.minter.previousBlockTime = some block.time := by
  simp only [State.beginBlocker, ok_iff, Prod.mk.injEq] at h
  obtain ⟨minted, hminted, rfl, rfl⟩ := h
  have hsame : (s.maybeUpdateMinter block).minter.previousBlockTime = some previous := by
    unfold State.maybeUpdateMinter
    dsimp only
    split <;> exact hprev
  simp only [State.mintBlockProvision, hsame, ok_iff, Outcome.orPanic_ok_iff,
    Option.some.injEq] at hminted
  obtain ⟨_, hcoin, rfl⟩ := hminted
  exact ⟨hcoin, rfl⟩

theorem provisions_nonneg_of_run (run : Run (mint genesis) history s) :
    0 ≤ s.minter.annualProvisions := by
  refine run.invariant (fun s => 0 ≤ s.minter.annualProvisions) ?_ ?_ .trivial
  · rintro _ ⟨rfl, hvalid⟩
    simp only [Minter.validate, ok_iff] at hvalid
    obtain ⟨_, -, hprovisions⟩ := hvalid
    exact hprovisions
  · intro s block t hnonneg _ hstep
    rw [(step_minter hstep).2]
    split
    case isTrue => exact hnonneg
    case isFalse => exact mul_nonneg (by decide) (Int.natCast_nonneg _)

/-- Blocks with the same annual provisions `a` mint their part of the year, up to
`(a + 1) / 10 ^ 18` a block from above and a token more from below.  The latter holds where no block
is capped and none comes so late that `Sub` saturates. -/
theorem total_minted_bounds {provisions : Dec} {blocks : List (Int × Int)} {first last : Time}
    (run : Run (mint genesis) history s) (h : Mints provisions s blocks t)
    (hfirst : s.minter.previousBlockTime = some first)
    (hlast : t.minter.previousBlockTime = some last) :
    let a : ℚ := provisions / 10 ^ 18
    let due := a / nanosecondsPerYear * (last - first)
    let total : ℚ := ((blocks.map Prod.snd).sum : Int)
    total ≤ due + blocks.length * ((a + 1) / 10 ^ 18) ∧
    (blocks ≠ [] → (∀ b ∈ blocks, b.2 < maxMintedPerBlock ∧ b.1 < 2 ^ 63) →
      due - blocks.length * (1 + (a + 1) / 10 ^ 18) < total) := by
  dsimp only
  induction h generalizing history first with
  | nil =>
    obtain rfl := Option.some.inj (hfirst.symm.trans hlast)
    simp
  | @block s t u block previous denom amount later hprev h hprovisions rest ih =>
    obtain rfl := Option.some.inj (hfirst.symm.trans hprev)
    obtain ⟨hcoin, htime⟩ := calculateBlockProvision_of_beginBlocker hprev h
    have run' : Run (mint genesis) ((s, block) :: history) t :=
      .next run (by simp only [mint, h]; rfl)
    have hone := Minter.calculateBlockProvision_bounds hcoin (provisions_nonneg_of_run run')
    rw [hprovisions] at hone
    have hrest := ih run' htime hlast
    simp only [List.map_cons, List.sum_cons, List.length_cons, Nat.cast_add, Nat.cast_one,
      Int.cast_add, List.forall_mem_cons] at hone hrest ⊢
    refine ⟨by linarith [hone.1, hrest.1], ?_⟩
    rintro - ⟨hfree, hlater⟩
    have hlow := hone.2 hfree.1 hfree.2
    cases rest with
    | nil =>
      obtain rfl := Option.some.inj (htime.symm.trans hlast)
      simpa using hlow
    | block => linarith [hrest.2 (List.cons_ne_nil _ _) hlater]

/-- A genesis state with provisions of one token a year and a last block at time zero. -/
def oneTokenGenesis : State := ⟨⟨initialInflationRateAsDec, one, some 0, 0⟩, 0⟩

/-- A block after a year mints what is due. -/
theorem total_minted_of_one_year : ∃ t, Run (mint oneTokenGenesis) [] oneTokenGenesis ∧
    Mints one oneTokenGenesis [(nanosecondsPerYear - 0, 1)] t ∧
      let due : ℚ := (one : Int) / 10 ^ 18 / nanosecondsPerYear * nanosecondsPerYear
      1 ≤ due + ((one : Int) / 10 ^ 18 + 1) / 10 ^ 18 ∧
        due - (1 + ((one : Int) / 10 ^ 18 + 1) / 10 ^ 18) < 1 := by
  have hrun : Run (mint oneTokenGenesis) [] oneTokenGenesis := .start ⟨rfl, rfl⟩
  have hmints : Mints one oneTokenGenesis [(nanosecondsPerYear - 0, 1)]
      ⟨⟨initialInflationRateAsDec, one, some nanosecondsPerYear, 0⟩, 0⟩ :=
    .block ⟨nanosecondsPerYear, 0⟩ rfl (by rfl) rfl (.nil _)
  obtain ⟨hle, hlt⟩ := total_minted_bounds hrun hmints rfl rfl
  exact ⟨_, hrun, hmints, by simpa using hle, by simpa using hlt (by simp) (by decide)⟩

/-- A block after 1000 years mints only the 292 tokens of the largest duration. -/
theorem saturated_block_mints_less : ∃ t, Run (mint oneTokenGenesis) [] oneTokenGenesis ∧
    Mints one oneTokenGenesis [(1000 * nanosecondsPerYear - 0, 292)] t ∧ 292 < maxMintedPerBlock ∧
      let due : ℚ := (one : Int) / 10 ^ 18 / nanosecondsPerYear * (1000 * nanosecondsPerYear)
      ¬ (due - (1 + ((one : Int) / 10 ^ 18 + 1) / 10 ^ 18) < 292) :=
  ⟨⟨⟨initialInflationRateAsDec, one, some (1000 * nanosecondsPerYear), 0⟩, 0⟩, .start ⟨rfl, rfl⟩,
    .block ⟨1000 * nanosecondsPerYear, 0⟩ rfl (by rfl) rfl (.nil _),
    by decide, by norm_num [one, nanosecondsPerYear]⟩

end Mint

end Babylon
