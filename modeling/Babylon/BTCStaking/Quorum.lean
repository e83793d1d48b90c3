/-
  Covenant quorums of stored delegations.

  The code looks a quorum up along the chain of stake expansions and can fail on
  the way.  In a store whose delegations refer to stored parameters and to earlier
  delegations it never does, and the quorum is a function of the store.
-/
import Babylon.BTCStaking.Effects

set_option autoImplicit false

namespace Babylon.BTCStaking

open Lib KVStore State Option

variable {prim : BtcPrimitives} {env : Env} {s t : State} {requests : State → Request → Prop}

/-! ## Delegations after a change -/

variable {d : BTCDelegation}

variable {delegators : DelegatorIndex}

@[simp] theorem State.insertDelegation_btcDelegations :
    (s.insertDelegation prim delegators d).btcDelegations
      = s.btcDelegations.set (prim.txHash d.stakingTx) d := by
  unfold insertDelegation
  split <;> rfl

variable {p : Params}

@[simp] theorem State.includeDelegation_btcDelegations {timeInfo : DelegationTimeRangeInfo} :
    (s.includeDelegation prim env d p timeInfo).btcDelegations
      = s.btcDelegations.set (prim.txHash d.stakingTx)
        { d with startHeight := timeInfo.startHeight, endHeight := timeInfo.endHeight } := rfl

variable {pk : BIP340PubKey} {slashingSigs unbondingSlashingSigs : List Bytes}
  {stkExpSig unbondingSig : Bytes}

@[simp] theorem State.addCovenantSigs_btcDelegations {info : BTCDelegationWithParams} :
    (s.addCovenantSigsToBTCDelegation prim env info pk slashingSigs unbondingSig
      unbondingSlashingSigs stkExpSig).btcDelegations
      = s.btcDelegations.set (prim.txHash info.delegation.stakingTx)
        (info.delegation.addCovenantSigs pk slashingSigs unbondingSig unbondingSlashingSigs
          stkExpSig) := by
  simp only [addCovenantSigsToBTCDelegation]
  split <;> rfl

/-- A delegation that the delegator has unbonded. -/
def BTCDelegation.unbond (d : BTCDelegation) (u : DelegatorUnbondingInfo) : BTCDelegation :=
  { d with btcUndelegation := { d.btcUndelegation with delegatorUnbondingInfo := some u } }

@[simp] theorem BTCDelegation.unbond_isUnbondedEarly (d : BTCDelegation)
    (u : DelegatorUnbondingInfo) : (d.unbond u).isUnbondedEarly = true := rfl

@[simp] theorem BTCDelegation.unbond_hasInclusionProof (d : BTCDelegation)
    (u : DelegatorUnbondingInfo) : (d.unbond u).hasInclusionProof = d.hasInclusionProof := rfl

@[simp] theorem State.btcUndelegate_btcDelegations {u : DelegatorUnbondingInfo} :
    (s.btcUndelegate prim env d u).btcDelegations
      = s.btcDelegations.set (prim.txHash d.stakingTx) (d.unbond u) := by
  simp only [btcUndelegate]
  split <;> rfl

theorem RegistryChange.btcDelegations (h : RegistryChange prim env requests s t) :
    t.btcDelegations = s.btcDelegations := by
  rcases h.frame with ⟨_, hset⟩ | ⟨_, _, rfl | ⟨_, rfl⟩⟩
  · obtain ⟨-, _, rfl⟩ := setParams_ok hset
    rfl
  · rfl
  · rfl

/-! ## Keys -/

/-- Delegations are stored under the hash of their staking transaction. -/
def State.DelegationsKeyed (prim : BtcPrimitives) (s : State) : Prop :=
  ∀ hash d, s.btcDelegations.get hash = some d → prim.txHash d.stakingTx = hash

theorem State.DelegationsKeyed.of_eq (hs : s.DelegationsKeyed prim)
    (h : t.btcDelegations = s.btcDelegations) : t.DelegationsKeyed prim := by
  intro hash d hget
  rw [h] at hget
  exact hs hash d hget

/-! ## The quorum as a function of the store -/

/-- The quorum of signatures on the output that a stake expansion spends. -/
def State.prevQuorum (s : State) (d : BTCDelegation) : Nat :=
  match (d.stkExp.bind fun stkExp => s.btcDelegations.get stkExp.previousStakingTxHash).bind
      fun previous => s.params.get previous.paramsVersion with
  | some p => p.covenantQuorum
  | none => 0

/-- The parameters of the delegation that a stake expansion replaces. -/
def State.prevParams (s : State) (d : BTCDelegation) : Option Params :=
  (d.stkExp.bind fun stkExp => s.btcDelegations.get stkExp.previousStakingTxHash).bind
    fun previous => s.params.get previous.paramsVersion

theorem State.prevQuorum_eq_elim (s : State) (d : BTCDelegation) :
    s.prevQuorum d = (s.prevParams d).elim 0 fun p => p.covenantQuorum := by
  unfold prevQuorum prevParams
  split
  case h_1 p hp => rw [hp, elim_some]
  case h_2 hnone => rw [hnone, elim_none]

/-- The delegation has its covenant quorums. -/
def State.hasQuorum (s : State) (d : BTCDelegation) : Bool :=
  match s.params.get d.paramsVersion with
  | some p => d.hasCovenantQuorums p.covenantQuorum (s.prevQuorum d)
  | none => false

/-- The status of a delegation at a BTC height. -/
def State.statusAt (s : State) (btcHeight : Nat) (d : BTCDelegation) : BTCDelegationStatus :=
  match s.params.get d.paramsVersion with
  | some p => d.getStatus btcHeight p.covenantQuorum (s.prevQuorum d)
  | none => .pending

theorem State.hasQuorum_of_params (hp : s.params.get d.paramsVersion = some p) :
    s.hasQuorum d = d.hasCovenantQuorums p.covenantQuorum (s.prevQuorum d) := by
  simp [hasQuorum, hp]

theorem State.statusAt_of_params {height : Nat} (hp : s.params.get d.paramsVersion = some p) :
    s.statusAt height d = d.getStatus height p.covenantQuorum (s.prevQuorum d) := by
  simp [statusAt, hp]

/-- What a successful lookup returns. -/
structure State.Resolves (s : State) (hash : ChainHash) (info : BTCDelegationWithParams) :
    Prop where
  stored : s.btcDelegations.get hash = some info.delegation
  params : s.params.get info.delegation.paramsVersion = some info.params
  previous : info.prevStkCovenantQuorum = s.prevQuorum info.delegation

variable {hash : ChainHash} {info : BTCDelegationWithParams}

theorem getBTCDelWithParamsWithin_resolves {fuel : Nat}
    (h : s.getBTCDelWithParamsWithin fuel hash = .ok info) :
    s.Resolves hash info := by
  induction fuel generalizing hash info with
  | zero => cases h
  | succ fuel ih =>
    simp only [getBTCDelWithParamsWithin, getBTCDelegation, ok_iff] at h
    obtain ⟨d, hd, p, hp, h⟩ := h
    split at h
    case h_1 hexp =>
      cases h
      exact ⟨hd, hp, by simp [BTCDelegationWithParams.prevStkCovenantQuorum, prevQuorum, hexp]⟩
    case h_2 stkExp hexp =>
      simp only [ok_iff] at h
      obtain ⟨previous, hprev, rfl⟩ := h
      obtain ⟨hsto, hpar, -⟩ := ih hprev
      refine ⟨hd, hp, ?_⟩
      simp [BTCDelegationWithParams.prevStkCovenantQuorum, prevQuorum, hexp, hsto, hpar]

theorem getBTCDelWithParams_resolves (h : s.getBTCDelWithParams hash = .ok info) :
    s.Resolves hash info :=
  getBTCDelWithParamsWithin_resolves h

theorem State.Resolves.hasQuorum (h : s.Resolves hash info) :
    s.hasQuorum info.delegation = info.delegation.hasCovenantQuorums info.params.covenantQuorum
      info.prevStkCovenantQuorum := by
  rw [hasQuorum_of_params h.params, h.previous]

theorem State.Resolves.status (h : s.Resolves hash info) :
    btcDelStatusWithTip env info = s.statusAt env.lc.tipHeight info.delegation := by
  rw [statusAt_of_params h.params, btcDelStatusWithTip, h.previous]

/-- A stored stake expansion and the delegation it names as the previous one. -/
def State.Replaces (s : State) (hash previous : ChainHash) : Prop :=
  ∃ d stkExp, s.btcDelegations.get hash = some d ∧ d.stkExp = some stkExp ∧
    stkExp.previousStakingTxHash = previous

/-! ## Well-formed stores -/

/-- The terms of a delegation that no later message changes. -/
structure BTCDelegation.SameTerms (d d' : BTCDelegation) : Prop where
  stakerAddr : d'.stakerAddr = d.stakerAddr
  fpBtcPkList : d'.fpBtcPkList = d.fpBtcPkList
  totalSat : d'.totalSat = d.totalSat
  stakingTx : d'.stakingTx = d.stakingTx
  unbondingTime : d'.unbondingTime = d.unbondingTime
  paramsVersion : d'.paramsVersion = d.paramsVersion
  previous : (d'.stkExp.map fun stkExp => stkExp.previousStakingTxHash)
    = d.stkExp.map fun stkExp => stkExp.previousStakingTxHash

theorem BTCDelegation.SameTerms.refl (d : BTCDelegation) : d.SameTerms d :=
  ⟨rfl, rfl, rfl, rfl, rfl, rfl, rfl⟩

theorem BTCDelegation.SameTerms.trans {d' d'' : BTCDelegation} (h : d.SameTerms d')
    (h' : d'.SameTerms d'') : d.SameTerms d'' where
  stakerAddr := h'.stakerAddr.trans h.stakerAddr
  fpBtcPkList := h'.fpBtcPkList.trans h.fpBtcPkList
  totalSat := h'.totalSat.trans h.totalSat
  stakingTx := h'.stakingTx.trans h.stakingTx
  unbondingTime := h'.unbondingTime.trans h.unbondingTime
  paramsVersion := h'.paramsVersion.trans h.paramsVersion
  previous := h'.previous.trans h.previous

theorem BTCDelegation.SameTerms.include (d : BTCDelegation) (start stop : Nat) :
    d.SameTerms { d with startHeight := start, endHeight := stop } :=
  ⟨rfl, rfl, rfl, rfl, rfl, rfl, rfl⟩

theorem BTCDelegation.SameTerms.unbond (d : BTCDelegation) (u : DelegatorUnbondingInfo) :
    d.SameTerms (d.unbond u) :=
  ⟨rfl, rfl, rfl, rfl, rfl, rfl, rfl⟩

theorem BTCDelegation.SameTerms.addCovenantSigs (d : BTCDelegation) (pk : BIP340PubKey)
    (slashingSigs : List Bytes) (unbondingSig : Bytes) (unbondingSlashingSigs : List Bytes)
    (stkExpSig : Bytes) :
    d.SameTerms (d.addCovenantSigs pk slashingSigs unbondingSig unbondingSlashingSigs
      stkExpSig) where
  stakerAddr := rfl
  fpBtcPkList := rfl
  totalSat := rfl
  stakingTx := rfl
  unbondingTime := rfl
  paramsVersion := rfl
  previous := by
    simp only [BTCDelegation.addCovenantSigs, map_map]
    rfl

/-- A delegation whose provider, parameters and previous delegation are stored. -/
structure State.Settled (s : State) (d : BTCDelegation) : Prop where
  provider : ∃ pk fp, d.fpBtcPkList = [pk] ∧ s.finalityProviders.get pk = some fp
  params : ∃ p, s.params.get d.paramsVersion = some p ∧ d.unbondingTime = p.unbondingTimeBlocks
  previous : ∀ stkExp, d.stkExp = some stkExp →
    ∃ previous, s.btcDelegations.get stkExp.previousStakingTxHash = some previous

/-- Delegations and parameters that a store refers to are there, and stake expansions
come after the delegations they replace. -/
structure State.WellFormed (prim : BtcPrimitives) (s : State) : Prop where
  providers : s.ProvidersKeyed
  keyed : s.DelegationsKeyed prim
  settled : ∀ hash d, s.btcDelegations.get hash = some d → s.Settled d
  valid : s.ParamsValid prim
  ranked : ∃ rank : ChainHash → Nat, ∀ hash d, s.btcDelegations.get hash = some d →
    rank hash < s.btcDelegations.size ∧
      ∀ stkExp, d.stkExp = some stkExp → rank stkExp.previousStakingTxHash < rank hash

namespace State.WellFormed

section

variable (hs : s.WellFormed prim) (hd : s.btcDelegations.get hash = some d)

include hs hd

theorem exists_params :
    ∃ p, s.params.get d.paramsVersion = some p ∧ d.unbondingTime = p.unbondingTimeBlocks :=
  (hs.settled hash d hd).params

/-- The lookup of the code finds every stored delegation with its parameters. -/
theorem getBTCDelWithParams_ok :
    ∃ info, s.getBTCDelWithParams hash = .ok info ∧ info.delegation = d ∧
      s.Resolves hash info := by
  obtain ⟨rank, hrank⟩ := hs.ranked
  -- the depth of the recursion is bounded by the rank
  have hwithin : ∀ fuel hash d, s.btcDelegations.get hash = some d → rank hash < fuel →
      ∃ info, s.getBTCDelWithParamsWithin fuel hash = .ok info := by
    intro fuel
    induction fuel with
    | zero => exact fun _ _ _ hlt => absurd hlt (Nat.not_lt_zero _)
    | succ fuel ih =>
      intro hash d hd hlt
      obtain ⟨p, hp, -⟩ := hs.exists_params hd
      cases hexp : d.stkExp with
      | none =>
        exact ⟨⟨d, p, none⟩, by
          simp [getBTCDelWithParamsWithin, getBTCDelegation, hd, hp, hexp]⟩
      | some stkExp =>
        obtain ⟨previous, hprev⟩ := (hs.settled hash d hd).previous stkExp hexp
        have hless := (hrank hash d hd).2 stkExp hexp
        obtain ⟨info, hinfo⟩ := ih _ previous hprev (by omega)
        exact ⟨⟨d, p, some (info.delegation, info.params)⟩, by
          simp [getBTCDelWithParamsWithin, getBTCDelegation, hd, hp, hexp, hinfo]⟩
  have hlt := (hrank hash d hd).1
  obtain ⟨info, hinfo⟩ := hwithin (s.btcDelegations.size + 1) hash d hd (by omega)
  have hrslv := getBTCDelWithParamsWithin_resolves hinfo
  exact ⟨info, hinfo, some.inj (hrslv.stored.symm.trans hd), hrslv⟩

/-- The lookup of what a stored stake expansion replaces finds its quorum. -/
theorem getBTCDelWithParams_previous {stkExp : StakeExpansion} (hexp : d.stkExp = some stkExp) :
    ∃ info, s.getBTCDelWithParams stkExp.previousStakingTxHash = .ok info ∧
      info.params.covenantQuorum = s.prevQuorum d := by
  obtain ⟨previous, hprev⟩ := (hs.settled hash d hd).previous stkExp hexp
  obtain ⟨info, hinfo, rfl, hrslv⟩ := hs.getBTCDelWithParams_ok hprev
  exact ⟨info, hinfo, by simp [prevQuorum, hexp, hprev, hrslv.params]⟩

/-- The two functions that look it up. -/
theorem quorum_lookups_ok (quorum : Nat) :
    s.btcDelHasCovenantQuorums d quorum = .ok (d.hasCovenantQuorums quorum (s.prevQuorum d)) ∧
    ∀ height, s.btcDelStatus d quorum height
      = .ok (d.getStatus height quorum (s.prevQuorum d)) := by
  simp only [btcDelHasCovenantQuorums, btcDelStatus]
  cases hexp : d.stkExp with
  | none => simp [prevQuorum, hexp]
  | some stkExp =>
    obtain ⟨info, hinfo, hq⟩ := hs.getBTCDelWithParams_previous hd hexp
    simp only [hinfo, ok_bind, hq]
    exact ⟨rfl, fun _ => rfl⟩

/-- The quorum check of the code computes `hasQuorum`. -/
theorem btcDelHasCovenantQuorums_eq (hp : s.params.get d.paramsVersion = some p) :
    s.btcDelHasCovenantQuorums d p.covenantQuorum = .ok (s.hasQuorum d) := by
  rw [hasQuorum_of_params hp, (hs.quorum_lookups_ok hd _).1]

end

/-- Following previous delegations never returns to where it began. -/
theorem not_transGen_replaces (hs : s.WellFormed prim) :
    ¬ Relation.TransGen s.Replaces hash hash := by
  obtain ⟨rank, hrank⟩ := hs.ranked
  have hfalls : ∀ a b, Relation.TransGen s.Replaces a b → rank b < rank a := by
    intro a b hpath
    induction hpath with
    | single hstep =>
      obtain ⟨d, stkExp, hd, hexp, rfl⟩ := hstep
      exact (hrank _ d hd).2 stkExp hexp
    | tail _ hstep ih =>
      obtain ⟨d, stkExp, hd, hexp, rfl⟩ := hstep
      exact Nat.lt_trans ((hrank _ d hd).2 stkExp hexp) ih
  exact fun hcycle => Nat.lt_irrefl _ (hfalls hash hash hcycle)

end State.WellFormed

/-! ## Later stores -/

/-- Parameters and the terms of delegations are kept. -/
structure State.Extends (s t : State) : Prop where
  params : ∀ version p, s.params.get version = some p → t.params.get version = some p
  delegations : ∀ hash d, s.btcDelegations.get hash = some d →
    ∃ d', t.btcDelegations.get hash = some d' ∧ d.SameTerms d'

variable {d' : BTCDelegation}

/-- The parameters of what a delegation replaces do not change. -/
theorem State.Extends.prevParams_eq (h : s.Extends t) (hs : s.WellFormed prim) (hd : s.Settled d)
    (hsame : d.SameTerms d') : t.prevParams d' = s.prevParams d := by
  have hprev := hsame.previous
  cases hexp : d.stkExp with
  | none =>
    rw [hexp, map_none, map_eq_none_iff] at hprev
    simp [prevParams, hexp, hprev]
  | some stkExp =>
    rw [hexp, map_some, map_eq_some_iff] at hprev
    obtain ⟨stkExp', hexp', hhash⟩ := hprev
    obtain ⟨previous, hget⟩ := hd.previous stkExp hexp
    obtain ⟨previous', hget', hsame'⟩ := h.delegations _ previous hget
    obtain ⟨p, hp, -⟩ := hs.exists_params hget
    have hp' := h.params _ p hp
    simp [prevParams, hexp, hexp', hhash, hget, hget', hsame'.paramsVersion, hp, hp']

section

variable (h : s.Extends t) (hs : s.WellFormed prim) (hd : s.btcDelegations.get hash = some d)
  (hsame : d.SameTerms d')

include h hs hd hsame

/-- The quorums that a stored delegation requires do not change. -/
theorem State.Extends.quorums_eq :
    t.params.get d'.paramsVersion = s.params.get d.paramsVersion ∧
      t.prevQuorum d' = s.prevQuorum d := by
  obtain ⟨p, hp, -⟩ := hs.exists_params hd
  constructor
  · rw [hsame.paramsVersion, h.params _ p hp, hp]
  · rw [prevQuorum_eq_elim, prevQuorum_eq_elim, h.prevParams_eq hs (hs.settled hash d hd) hsame]

theorem State.Extends.hasQuorum_eq
    (hsigs : ∀ quorum quorumPreviousStk, d'.hasCovenantQuorums quorum quorumPreviousStk
      = d.hasCovenantQuorums quorum quorumPreviousStk) : t.hasQuorum d' = s.hasQuorum d := by
  obtain ⟨hpar, hprev⟩ := h.quorums_eq hs hd hsame
  unfold hasQuorum
  rw [hpar, hprev]
  simp only [hsigs]

end

theorem State.Extends.trans {u : State} (h : s.Extends t) (h' : t.Extends u) : s.Extends u where
  params := fun version p hp => h'.params version p (h.params version p hp)
  delegations := by
    intro hash d hd
    obtain ⟨d', hd', hsame⟩ := h.delegations hash d hd
    obtain ⟨d'', hd'', hsame'⟩ := h'.delegations hash d' hd'
    exact ⟨d'', hd'', hsame.trans hsame'⟩

/-- A delegation stays settled in a later store that keeps providers. -/
theorem State.Settled.extend (h : s.Extends t)
    (hprov : ∀ pk fp, s.finalityProviders.get pk = some fp →
      ∃ fp', t.finalityProviders.get pk = some fp') (hd : s.Settled d) (hsame : d.SameTerms d') :
    t.Settled d' where
  provider := by
    obtain ⟨pk, fp, hlist, hfp⟩ := hd.provider
    obtain ⟨fp', hfp'⟩ := hprov pk fp hfp
    exact ⟨pk, fp', by rw [hsame.fpBtcPkList, hlist], hfp'⟩
  params := by
    obtain ⟨p, hp, htime⟩ := hd.params
    exact ⟨p, by rw [hsame.paramsVersion]; exact h.params _ p hp,
      by rw [hsame.unbondingTime, htime]⟩
  previous := by
    intro stkExp' hexp'
    have hprev := hsame.previous
    rw [hexp', map_some, eq_comm, map_eq_some_iff] at hprev
    obtain ⟨stkExp, hexp, hhash⟩ := hprev
    obtain ⟨previous, hget⟩ := hd.previous stkExp hexp
    obtain ⟨previous', hget', -⟩ := h.delegations _ previous hget
    exact ⟨previous', by rw [← hhash, hget']⟩

/-- One delegation is written, new or with the terms it had, and nothing else that a
delegation refers to. -/
structure State.WritesOne (prim : BtcPrimitives) (s t : State) (hash : ChainHash)
    (d' : BTCDelegation) : Prop where
  key : prim.txHash d'.stakingTx = hash
  delegations : t.btcDelegations = s.btcDelegations.set hash d'
  params : t.params = s.params
  providers : t.finalityProviders = s.finalityProviders
  same : ∀ d, s.btcDelegations.get hash = some d → d.SameTerms d'
  new : s.btcDelegations.get hash = none → s.Settled d'

namespace State.WritesOne

variable (h : s.WritesOne prim t hash d')

include h

theorem extended : s.Extends t where
  params := fun version p hp => h.params ▸ hp
  delegations := by
    intro other e he
    by_cases heq : other = hash
    · subst heq
      exact ⟨d', by rw [h.delegations, get_set_self], h.same e he⟩
    · exact ⟨e, by rw [h.delegations, get_set_of_ne _ _ heq, he], .refl e⟩

/-- The new delegation gets the highest rank. -/
theorem ranked (hs : s.WellFormed prim) :
    ∃ rank : ChainHash → Nat, ∀ other e, t.btcDelegations.get other = some e →
      rank other < t.btcDelegations.size ∧
        ∀ stkExp, e.stkExp = some stkExp → rank stkExp.previousStakingTxHash < rank other := by
  obtain ⟨rank, hrank⟩ := hs.ranked
  rw [h.delegations]
  cases hget : s.btcDelegations.get hash with
  | some d =>
    rw [size_set_of_some hget]
    refine ⟨rank, forall_set hrank ?_⟩
    obtain ⟨hlt, hless⟩ := hrank hash d hget
    refine ⟨hlt, fun stkExp' hexp' => ?_⟩
    have hprev := (h.same d hget).previous
    rw [hexp', map_some, eq_comm, map_eq_some_iff] at hprev
    obtain ⟨stkExp, hexp, hhash⟩ := hprev
    rw [← hhash]
    exact hless stkExp hexp
  | none =>
    refine ⟨fun other => if other = hash then s.btcDelegations.size else rank other, ?_⟩
    have hold : ∀ other e, s.btcDelegations.get other = some e → other ≠ hash := by
      rintro other e he rfl
      rw [hget] at he
      cases he
    rw [size_set_of_none hget]
    intro other e he
    rw [get_set] at he
    split at he
    case isTrue heq =>
      cases he
      refine ⟨by simp [heq], fun stkExp hexp => ?_⟩
      obtain ⟨previous, hprev⟩ := (h.new hget).previous stkExp hexp
      simp only [heq, if_neg (hold _ previous hprev)]
      simpa using (hrank _ previous hprev).1
    case isFalse hne =>
      obtain ⟨hlt, hless⟩ := hrank other e he
      refine ⟨by simp only [if_neg hne]; omega, fun stkExp hexp => ?_⟩
      obtain ⟨previous, hprev⟩ := (hs.settled other e he).previous stkExp hexp
      simp only [if_neg hne, if_neg (hold _ previous hprev)]
      exact hless stkExp hexp

theorem wellFormed (hs : s.WellFormed prim) : t.WellFormed prim where
  providers := by
    intro pk fp hfp
    rw [h.providers] at hfp
    exact hs.providers pk fp hfp
  keyed := by
    unfold DelegationsKeyed
    rw [h.delegations]
    exact forall_set hs.keyed h.key
  settled := by
    have hprov : ∀ pk fp, s.finalityProviders.get pk = some fp →
        ∃ fp', t.finalityProviders.get pk = some fp' := fun pk fp hfp => ⟨fp, h.providers ▸ hfp⟩
    rw [h.delegations]
    refine forall_set
      (fun other e he => (hs.settled other e he).extend h.extended hprov (.refl e)) ?_
    cases hget : s.btcDelegations.get hash with
    | none => exact (h.new hget).extend h.extended hprov (.refl d')
    | some d => exact (hs.settled hash d hget).extend h.extended hprov (h.same d hget)
  valid := by
    unfold ParamsValid
    rw [h.params]
    exact hs.valid
  ranked := h.ranked hs

end State.WritesOne

/-- A delegation is stored for the first time. -/
theorem State.WritesOne.insert (fresh : FreshDelegation prim env s d)
    (hexpands : ∀ stkExp, d.stkExp = some stkExp → ExpandsActive prim env s d stkExp) :
    s.WritesOne prim (s.insertDelegation prim delegators d) (prim.txHash d.stakingTx) d where
  key := rfl
  delegations := insertDelegation_btcDelegations
  params := (WritesDelegations.insert s _ d).params
  providers := (WritesDelegations.insert s _ d).finalityProviders
  same := fun _ hd => by cases fresh.unused.symm.trans hd
  new := by
    refine fun _ => ⟨fresh.provider, fresh.params, fun stkExp hexp => ?_⟩
    obtain ⟨info, hinfo, -⟩ := (hexpands stkExp hexp).previous
    exact ⟨_, (getBTCDelWithParams_resolves hinfo).stored⟩

section

variable (hk : s.DelegationsKeyed prim)

include hk

/-- A stored delegation is written back, with the terms it had. -/
theorem State.WritesOne.of_stored
    (hd : s.btcDelegations.get hash = some d) (hsame : d.SameTerms d')
    (hdels : t.btcDelegations = s.btcDelegations.set (prim.txHash d'.stakingTx) d')
    (hpar : t.params = s.params) (hprov : t.finalityProviders = s.finalityProviders) :
    s.WritesOne prim t hash d' := by
  have hkey : prim.txHash d'.stakingTx = hash := by rw [hsame.stakingTx, hk hash d hd]
  refine ⟨hkey, hkey ▸ hdels, hpar, hprov, fun e he => ?_, fun hnone => ?_⟩
  · exact some.inj (hd.symm.trans he) ▸ hsame
  · cases hd.symm.trans hnone

/-- A stored delegation gets its inclusion proof. -/
theorem State.WritesOne.include
    (hd : s.btcDelegations.get hash = some d) (p : Params) (timeInfo : DelegationTimeRangeInfo) :
    s.WritesOne prim (s.includeDelegation prim env d p timeInfo) hash
      { d with startHeight := timeInfo.startHeight, endHeight := timeInfo.endHeight } :=
  .of_stored hk hd (.include d _ _) includeDelegation_btcDelegations rfl rfl

/-- A delegation that was read from the store is unbonded; in between, it may have got its
inclusion proof. -/
theorem State.WritesOne.unbond {stored : BTCDelegation}
    (hsto : s.btcDelegations.get hash = some stored) (hsame : stored.SameTerms d)
    (u : DelegatorUnbondingInfo) :
    s.WritesOne prim (s.btcUndelegate prim env d u) hash (d.unbond u) :=
  .of_stored hk hsto (hsame.trans (.unbond d u)) btcUndelegate_btcDelegations
    (WritesDelegations.refl.unbond u).params (WritesDelegations.refl.unbond u).finalityProviders

/-- A covenant member signs a stored delegation. -/
theorem State.WritesOne.sign
    (hd : s.btcDelegations.get hash = some info.delegation) (pk : BIP340PubKey)
    (slashingSigs unbondingSlashingSigs : List Bytes) (unbondingSig stkExpSig : Bytes) :
    s.WritesOne prim (s.addCovenantSigsToBTCDelegation prim env info pk slashingSigs unbondingSig
      unbondingSlashingSigs stkExpSig) hash (info.delegation.addCovenantSigs pk slashingSigs
        unbondingSig unbondingSlashingSigs stkExpSig) :=
  .of_stored hk hd (.addCovenantSigs _ _ _ _ _ _) addCovenantSigs_btcDelegations
    (WritesDelegations.sign s env info pk _ _ _ _).params
    (WritesDelegations.sign s env info pk _ _ _ _).finalityProviders

end

namespace State.WellFormed

section

variable (hs : s.WellFormed prim)

include hs

/-- Changes of anything that delegations do not refer to. -/
theorem of_eq (hdels : t.btcDelegations = s.btcDelegations) (hpar : t.params = s.params)
    (hprov : t.finalityProviders = s.finalityProviders) :
    t.WellFormed prim := by
  obtain ⟨providers, keyed, settled, valid, ranked⟩ := hs
  refine ⟨?_, keyed.of_eq hdels, ?_, ?_, ?_⟩
  · intro pk fp hfp
    exact providers pk fp (hprov ▸ hfp)
  · intro hash d hd
    rw [hdels] at hd
    obtain ⟨hpvd, hsto, hprev⟩ := settled hash d hd
    exact ⟨by rwa [hprov], by rwa [hpar], by rwa [hdels]⟩
  · unfold ParamsValid
    rwa [hpar]
  · rwa [hdels]

/-- Changes of providers and parameters only. -/
theorem registry (h : RegistryChange prim env requests s t) : t.WellFormed prim ∧ s.Extends t := by
  have hevo := h.providersEvolve hs.providers
  have hdels := h.btcDelegations
  have hpar : (∀ version p, s.params.get version = some p → t.params.get version = some p) ∧
      t.ParamsValid prim := by
    unfold ParamsValid
    rcases h.frame with ⟨p, hset⟩ | ⟨_, _, rfl | ⟨_, rfl⟩⟩
    case inr.inl | inr.inr => exact ⟨fun _ _ => id, hs.valid⟩
    · obtain ⟨hval, _, rfl⟩ := setParams_ok hset
      refine ⟨fun version q hq => ?_, forall_set hs.valid hval⟩
      have hne : version ≠ s.nextParamsVersion := by
        rintro rfl
        rw [nextParamsVersion_unused] at hq
        cases hq
      rw [get_set_of_ne _ _ hne, hq]
  have hext : s.Extends t := ⟨hpar.1, fun hash d hd => ⟨d, by rw [hdels, hd], .refl d⟩⟩
  refine ⟨⟨hevo.keyed, hs.keyed.of_eq hdels, ?_, hpar.2, ?_⟩, hext⟩
  · intro hash d hd
    rw [hdels] at hd
    refine (hs.settled hash d hd).extend hext (fun pk fp hfp => ?_) (.refl d)
    obtain ⟨fp', hfp', -⟩ := hevo.kept pk fp hfp
    exact ⟨fp', hfp'⟩
  · rw [hdels]
    exact hs.ranked

end

end State.WellFormed

theorem ExpandsActive.of_none (h : d.stkExp = none) :
    ∀ stkExp, d.stkExp = some stkExp → ExpandsActive prim env s d stkExp :=
  fun _ hexp => by cases h.symm.trans hexp

theorem ExpandsActive.of_some {stkExp : StakeExpansion} (h : d.stkExp = some stkExp)
    (expands : ExpandsActive prim env s d stkExp) :
    ∀ other, d.stkExp = some other → ExpandsActive prim env s d other :=
  fun _ hexp => some.inj (h.symm.trans hexp) ▸ expands

/-- A request to unbond writes the stake expansion that the spending transaction activates, if
any, and then the named delegation, as it was read before. -/
theorem msgBTCUndelegate_writes (hk : s.DelegationsKeyed prim) {req : MsgBTCUndelegate}
    (h : s.msgBTCUndelegate prim env req = .ok t) :
    ∃ d u activated start stop,
      (activated = s ∨ ∃ hash e p timeInfo, s.btcDelegations.get hash = some e ∧
        activated = s.includeDelegation prim env e p timeInfo) ∧
      activated.btcDelegations.get req.stakingTxHash
        = some { d with startHeight := start, endHeight := stop } ∧
      t = activated.btcUndelegate prim env d u := by
  obtain ⟨info, tx, u, activated, -, hinfo, -, -, hact, -, rfl⟩ := msgBTCUndelegate_ok h
  have hnm := (getBTCDelWithParams_resolves hinfo).stored
  rcases verifyStakeSpendingTx_ok hact with ⟨e, p, timeInfo, he, -, -, rfl⟩ | rfl
  · by_cases heq : req.stakingTxHash = prim.txHash tx
    · -- the expansion itself is named
      obtain rfl : info.delegation = e := some.inj (hnm.symm.trans (heq ▸ he))
      refine ⟨_, u, _, timeInfo.startHeight, timeInfo.endHeight,
        .inr ⟨_, _, p, timeInfo, he, rfl⟩, ?_, rfl⟩
      rw [includeDelegation_btcDelegations, hk _ _ hnm, get_set_self]
    · refine ⟨_, u, _, info.delegation.startHeight, info.delegation.endHeight,
        .inr ⟨_, _, p, timeInfo, he, rfl⟩, ?_, rfl⟩
      rw [includeDelegation_btcDelegations, hk _ _ he, get_set_of_ne _ _ heq, hnm]
  · exact ⟨_, u, _, _, _, .inl rfl, hnm, rfl⟩

/-- Every message keeps the store well-formed, and the terms of delegations. -/
theorem Change.wellFormed (hs : s.WellFormed prim) (h : Change prim env requests s t) :
    t.WellFormed prim ∧ s.Extends t := by
  have hwrites : ∀ {s t : State} {hash d'}, s.WritesOne prim t hash d' → s.WellFormed prim →
      t.WellFormed prim ∧ s.Extends t := fun h hs => ⟨h.wellFormed hs, h.extended⟩
  cases h with
  | create fresh hexp => exact hwrites (.insert fresh (.of_none hexp)) hs
  | expand fresh hexp expands => exact hwrites (.insert fresh (.of_some hexp expands)) hs
  | prove stored hexp includable => exact hwrites (.include hs.keyed stored _ _) hs
  | sign request stored =>
    exact hwrites (.sign hs.keyed (getBTCDelWithParams_resolves stored).stored _ _ _ _ _) hs
  | undelegate request h =>
    obtain ⟨d, u, activated, start, stop, hact, hget, rfl⟩ := msgBTCUndelegate_writes hs.keyed h
    obtain ⟨hwf, hext⟩ : activated.WellFormed prim ∧ s.Extends activated := by
      rcases hact with rfl | ⟨hash, e, p, timeInfo, he, rfl⟩
      · exact ⟨hs, fun _ _ hp => hp, fun _ d hd => ⟨d, hd, .refl d⟩⟩
      · exact hwrites (.include hs.keyed he p timeInfo) hs
    have hsame : { d with startHeight := start, endHeight := stop }.SameTerms d :=
      ⟨rfl, rfl, rfl, rfl, rfl, rfl, rfl⟩
    have hwr : activated.WritesOne prim (activated.btcUndelegate prim env d u) _ _ :=
      .unbond hwf.keyed hget hsame u
    exact ⟨hwr.wellFormed hwf, hext.trans hwr.extended⟩
  | registry h => exact hs.registry h

theorem Changes.wellFormed (hs : s.WellFormed prim) (h : Changes prim env requests s t) :
    t.WellFormed prim := by
  induction h with
  | refl => exact hs
  | tail _ hchg ih => exact (hchg.wellFormed ih).1

end Babylon.BTCStaking
