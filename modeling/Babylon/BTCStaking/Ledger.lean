/-
  The store of `x/btcstaking` as a ledger of delegations.

  Every stored delegation has an account, whose law `Account.Lawful` the messages
  keep.  How often the sats of a delegation were added and subtracted is not in
  the store; the ledger is stated for any two such counts.
-/
import Babylon.Lib.EventQueue
import Babylon.BTCStaking.Account
import Babylon.BTCStaking.Quorum

set_option autoImplicit false

namespace Babylon.BTCStaking

open Lib KVStore BTCDelegation State.Extends List

/-- The BTC height at which a delegation expires. -/
def BTCDelegation.expiry (d : BTCDelegation) : Nat := d.endHeight - d.unbondingTime

/-- How often an event waits to be processed. -/
def State.pending (s : State) (event : EventPowerDistUpdate) : Nat :=
  s.powerDistUpdateEvents.queued event

/-- The account of a stored delegation. -/
def State.account (s : State) (added subtracted : ChainHash → Nat) (hash : ChainHash)
    (d : BTCDelegation) : Account where
  included := d.hasInclusionProof
  quorum := s.hasQuorum d
  unbonded := d.isUnbondedEarly
  startHeight := d.startHeight
  expiry := d.expiry
  activations := s.pending (.btcDelStateUpdate hash .active)
  unbondings := s.pending (.btcDelStateUpdate hash .unbonded)
  expirations := s.pending (.btcDelStateUpdate hash .expired)
  added := added hash
  subtracted := subtracted hash

/-- What an event refers to, and where it is queued: EXPIRED events at the expiry of their
delegation, all others between the last processed BTC height and the tip. -/
def State.EventAt (s : State) (processed tip height : Nat) : EventPowerDistUpdate → Prop
  | .btcDelStateUpdate hash newState => ∃ d, s.btcDelegations.get hash = some d ∧
      if newState = .expired then d.hasInclusionProof = true ∧ height = d.expiry
      else processed ≤ height ∧ height ≤ tip
  | .slashedFp pk => (∃ fp, s.finalityProviders.get pk = some fp ∧ fp.isSlashed = true) ∧
      processed ≤ height ∧ height ≤ tip
  | .jailedFp _ => processed ≤ height ∧ height ≤ tip
  | .unjailedFp _ => processed ≤ height ∧ height ≤ tip

/-- A well-formed store whose accounts are lawful. -/
structure Ledger (prim : BtcPrimitives) (strict : Prop) (processed tip : Nat)
    (added subtracted : ChainHash → Nat) (s : State) : Prop where
  wellFormed : s.WellFormed prim
  lawful : ∀ hash d, s.btcDelegations.get hash = some d →
    (s.account added subtracted hash d).Lawful strict processed tip
  unseen : ∀ hash, s.btcDelegations.get hash = none → added hash = 0 ∧ subtracted hash = 0
  located : ∀ height event, event ∈ s.eventsAt height → s.EventAt processed tip height event
  processed_le : processed ≤ tip

variable {prim : BtcPrimitives} {env : Env} {s t : State} {strict : Prop} {processed tip : Nat}
  {added subtracted : ChainHash → Nat} {requests : State → Request → Prop}

/-! ## Events -/

theorem State.pending_addPowerDistUpdateEvent (height : Nat) (event other : EventPowerDistUpdate) :
    (s.addPowerDistUpdateEvent height event).pending other
      = s.pending other + if event = other then 1 else 0 :=
  queued_enqueue s.powerDistUpdateEvents height event other

variable {event : EventPowerDistUpdate}

theorem State.pending_eq_zero (h : ∀ height, event ∉ s.eventsAt height) : s.pending event = 0 :=
  queued_eq_zero h

variable {hash : ChainHash}

/-- No event is about a delegation that is not stored. -/
theorem Ledger.pending_eq_zero (hs : Ledger prim strict processed tip added subtracted s)
    (hnone : s.btcDelegations.get hash = none) (newState : BTCDelegationStatus) :
    s.pending (.btcDelStateUpdate hash newState) = 0 := by
  refine State.pending_eq_zero fun height hmem => ?_
  obtain ⟨d, hd, -⟩ := hs.located height _ hmem
  rw [hnone] at hd
  cases hd

/-! ## Changing one delegation -/

variable {d d' : BTCDelegation}

/-- The account of another delegation does not change. -/
theorem Ledger.account_eq (hs : Ledger prim strict processed tip added subtracted s)
    (hext : s.Extends t) (hd : s.btcDelegations.get hash = some d)
    (hpend : ∀ newState, t.pending (.btcDelStateUpdate hash newState)
      = s.pending (.btcDelStateUpdate hash newState)) :
    t.account added subtracted hash d = s.account added subtracted hash d := by
  simp only [State.account, hpend, hext.hasQuorum_eq hs.wellFormed hd (.refl d) fun _ _ => rfl]

variable {height : Nat}

/-- An event stays where it belongs when stores grow. -/
theorem State.EventAt.extend (h : s.EventAt processed tip height event)
    (hdels : ∀ hash d, s.btcDelegations.get hash = some d →
      ∃ d', t.btcDelegations.get hash = some d' ∧
        (d.hasInclusionProof = true → d'.hasInclusionProof = true ∧ d'.expiry = d.expiry))
    (hprov : ∀ pk fp, s.finalityProviders.get pk = some fp →
      ∃ fp', t.finalityProviders.get pk = some fp' ∧ (fp.isSlashed = true → fp'.isSlashed = true))
    {tip' : Nat} (hle : tip ≤ tip') : t.EventAt processed tip' height event := by
  cases event with
  | btcDelStateUpdate hash newState =>
    obtain ⟨d, hd, hwhere⟩ := h
    obtain ⟨d', hd', hkept⟩ := hdels hash d hd
    refine ⟨d', hd', ?_⟩
    split at hwhere
    case isTrue hexpd =>
      rw [if_pos hexpd]
      obtain ⟨hincluded', hexpy⟩ := hkept hwhere.1
      exact ⟨hincluded', by rw [hexpy, hwhere.2]⟩
    case isFalse ho =>
      rw [if_neg ho]
      exact ⟨hwhere.1, hwhere.2.trans hle⟩
  | slashedFp pk =>
    obtain ⟨⟨fp, hfp, hsl⟩, hlow, hhigh⟩ := h
    obtain ⟨fp', hfp', hkept⟩ := hprov pk fp hfp
    exact ⟨⟨fp', hfp', hkept hsl⟩, hlow, hhigh.trans hle⟩
  | jailedFp pk | unjailedFp pk => exact ⟨h.1, h.2.trans hle⟩

/-- Queue events about one delegation. -/
def queueFor (hash : ChainHash) (events : List (Nat × BTCDelegationStatus))
    (store : KVStore Nat (List EventPowerDistUpdate)) : KVStore Nat (List EventPowerDistUpdate) :=
  events.foldl (fun store event => store.enqueue event.1 (.btcDelStateUpdate hash event.2)) store

theorem queued_queueFor (hash other : ChainHash) (newState : BTCDelegationStatus)
    (events : List (Nat × BTCDelegationStatus))
    (store : KVStore Nat (List EventPowerDistUpdate)) :
    (queueFor hash events store).queued (.btcDelStateUpdate other newState)
      = store.queued (.btcDelStateUpdate other newState)
        + if other = hash then (events.map Prod.snd).count newState else 0 := by
  induction events generalizing store with
  | nil => simp [queueFor]
  | cons event rest ih =>
    have hrest := ih (store.enqueue event.1 (.btcDelStateUpdate hash event.2))
    rw [queued_enqueue] at hrest
    refine hrest.trans ?_
    rw [map_cons, count_cons]
    by_cases heq : other = hash
    · by_cases hstate : event.2 = newState
      · simp only [heq, hstate, if_true, beq_self_eq_true]
        omega
      · simp [heq, hstate]
    · simp [heq, Ne.symm heq]

variable {events : List (Nat × BTCDelegationStatus)}

theorem pending_of_queueFor
    (h : t.powerDistUpdateEvents = queueFor hash events s.powerDistUpdateEvents)
    (other : ChainHash) (newState : BTCDelegationStatus) :
    t.pending (.btcDelStateUpdate other newState) = s.pending (.btcDelStateUpdate other newState)
      + if other = hash then (events.map Prod.snd).count newState else 0 := by
  rw [State.pending, State.pending, h, queued_queueFor]

theorem mem_queue_queueFor {store : KVStore Nat (List EventPowerDistUpdate)}
    (hmem : event ∈ (queueFor hash events store).queue height) :
    event ∈ store.queue height ∨
      ∃ newState, event = .btcDelStateUpdate hash newState ∧ (height, newState) ∈ events := by
  induction events generalizing store with
  | nil => exact .inl hmem
  | cons first rest ih =>
    rcases ih hmem with hold | ⟨newState, heq, hin⟩
    · rw [queue_enqueue] at hold
      split at hold
      case isTrue heq =>
        rcases mem_append.mp hold with hbef | hnew
        · exact .inl (heq ▸ hbef)
        · refine .inr ⟨first.2, mem_singleton.mp hnew, ?_⟩
          rw [heq]
          exact mem_cons_self
      case isFalse => exact .inl hold
    · exact .inr ⟨newState, heq, mem_cons_of_mem _ hin⟩

/-- What one message does to the store: it writes a delegation and queues events about it. -/
structure State.Writes (prim : BtcPrimitives) (s t : State) (hash : ChainHash) (d' : BTCDelegation)
    (events : List (Nat × BTCDelegationStatus)) : Prop extends s.WritesOne prim t hash d' where
  queued : t.powerDistUpdateEvents = queueFor hash events s.powerDistUpdateEvents

/-- The account of the delegation that is written. -/
theorem State.Writes.account_eq (h : s.Writes prim t hash d' events) :
    t.account added subtracted hash d' = {
      included := d'.hasInclusionProof
      quorum := t.hasQuorum d'
      unbonded := d'.isUnbondedEarly
      startHeight := d'.startHeight
      expiry := d'.expiry
      activations := s.pending (.btcDelStateUpdate hash .active)
        + (events.map Prod.snd).count .active
      unbondings := s.pending (.btcDelStateUpdate hash .unbonded)
        + (events.map Prod.snd).count .unbonded
      expirations := s.pending (.btcDelStateUpdate hash .expired)
        + (events.map Prod.snd).count .expired
      added := added hash
      subtracted := subtracted hash } := by
  simp [State.account, pending_of_queueFor h.queued]

/-- A delegation is written, the store grows, and the new account is lawful. -/
theorem Ledger.write (hs : Ledger prim strict processed tip added subtracted s)
    (h : s.Writes prim t hash d' events)
    (hexpy : ∀ d, s.btcDelegations.get hash = some d → d.hasInclusionProof = true →
      d'.hasInclusionProof = true ∧ d'.expiry = d.expiry)
    (hevs : ∀ height newState, (height, newState) ∈ events →
      if newState = .expired then d'.hasInclusionProof = true ∧ height = d'.expiry
      else height = tip)
    (hlaw : (t.account added subtracted hash d').Lawful strict processed tip) :
    Ledger prim strict processed tip added subtracted t where
  wellFormed := h.wellFormed hs.wellFormed
  lawful := by
    intro other e he
    rw [h.delegations] at he
    obtain ⟨rfl, rfl⟩ | ⟨hne, hold⟩ := of_get_set he
    · exact hlaw
    · have hpend : ∀ newState, t.pending (.btcDelStateUpdate other newState)
          = s.pending (.btcDelStateUpdate other newState) := by
        intro newState
        rw [pending_of_queueFor h.queued, if_neg hne, Nat.add_zero]
      rw [hs.account_eq h.extended hold hpend]
      exact hs.lawful other e hold
  unseen := by
    intro other hnone
    rw [h.delegations, get_set] at hnone
    split at hnone
    case isTrue => cases hnone
    case isFalse => exact hs.unseen other hnone
  located := by
    intro height event hmem
    replace hmem : event ∈ t.powerDistUpdateEvents.queue height := hmem
    rw [h.queued] at hmem
    rcases mem_queue_queueFor hmem with hold | ⟨newState, rfl, hin⟩
    · refine (hs.located height event hold).extend ?_ ?_ (Nat.le_refl tip)
      · intro other e he
        by_cases heq : other = hash
        · subst heq
          exact ⟨d', by rw [h.delegations, get_set_self], hexpy e he⟩
        · exact ⟨e, by rw [h.delegations, get_set_of_ne _ _ heq, he], fun hin => ⟨hin, rfl⟩⟩
      · intro pk fp hfp
        exact ⟨fp, h.providers ▸ hfp, id⟩
    · refine ⟨d', by rw [h.delegations, get_set_self], ?_⟩
      have hev := hevs height newState hin
      split at hev
      case isTrue hexpd => rwa [if_pos hexpd]
      case isFalse ho =>
        rw [if_neg ho, hev]
        exact ⟨hs.processed_le, Nat.le_refl tip⟩
  processed_le := hs.processed_le

/-! ## Messages -/

section Messages

variable (hs : Ledger prim strict processed env.lc.tipHeight added subtracted s)

include hs

theorem Ledger.insertDelegation {delegators : DelegatorIndex}
    (fresh : FreshDelegation prim env s d)
    (hexpands : ∀ stkExp, d.stkExp = some stkExp → ExpandsActive prim env s d stkExp) :
    Ledger prim strict processed env.lc.tipHeight added subtracted
      (s.insertDelegation prim delegators d) := by
  have hle := hs.processed_le
  obtain ⟨p, hp, htime⟩ := fresh.params
  have hwr : s.Writes prim (s.insertDelegation prim delegators d) (prim.txHash d.stakingTx) d
      (if d.hasInclusionProof then [(d.expiry, .expired)] else []) := by
    refine ⟨.insert fresh hexpands, ?_⟩
    unfold State.insertDelegation
    split <;> rfl
  have hinc : d.hasInclusionProof = true →
      d.startHeight ≤ env.lc.tipHeight ∧ processed < d.expiry := by
    intro hprf
    rcases fresh.time with ⟨hstart, -⟩ | ⟨-, -, hstart, hend⟩
    · simp [hasInclusionProof, hstart] at hprf
    · refine ⟨hstart, ?_⟩
      unfold expiry
      omega
  have hq : (s.insertDelegation prim delegators d).hasQuorum d = false := by
    rw [State.hasQuorum_of_params (hwr.params ▸ hp)]
    obtain ⟨_, hval⟩ := hs.wellFormed.valid _ p hp
    simp only [Params.validate, ok_iff] at hval
    obtain ⟨_, hne, -⟩ := hval
    unfold hasCovenantQuorums
    cases d.stkExp <;> simp [fresh.covenantSigs, hne]
  have haccount : (s.insertDelegation prim delegators d).account added subtracted
      (prim.txHash d.stakingTx) d = Account.fresh d.hasInclusionProof d.startHeight d.expiry := by
    obtain ⟨hadd, hsubt⟩ := hs.unseen _ fresh.unused
    rw [hwr.account_eq]
    cases hprf : d.hasInclusionProof <;>
      simp [Account.fresh, hq, hs.pending_eq_zero fresh.unused, fresh.notUnbonded, hadd, hsubt]
  refine hs.write hwr ?_ ?_ ?_
  · intro e he
    rw [fresh.unused] at he
    cases he
  · intro height newState hin
    cases hprf : d.hasInclusionProof <;> simp_all
  · rw [haccount]
    cases hprf : d.hasInclusionProof <;> constructor <;> simp_all [Account.fresh]

theorem Ledger.includeDelegation {p : Params} {timeInfo : DelegationTimeRangeInfo}
    (hd : s.btcDelegations.get hash = some d) (hinc : Includable env s d p timeInfo) :
    Ledger prim strict processed env.lc.tipHeight added subtracted
      (s.includeDelegation prim env d p timeInfo) := by
  have hle := hs.processed_le
  have hkey := hs.wellFormed.keyed hash d hd
  obtain ⟨q, hq, htime⟩ := hs.wellFormed.exists_params hd
  obtain rfl : p = q := Option.some.inj (hinc.params.symm.trans hq)
  let d' := { d with startHeight := timeInfo.startHeight, endHeight := timeInfo.endHeight }
  have hend := hinc.end_gt
  have hprf : d'.hasInclusionProof = true := by
    have hpos := hinc.start_pos
    have hlast : 0 < timeInfo.endHeight := by omega
    simp [d', hasInclusionProof, hpos, hlast]
  have hexpy : d'.expiry = timeInfo.endHeight - p.unbondingTimeBlocks := by
    simp only [d', expiry, htime]
  have hwr : s.Writes prim (s.includeDelegation prim env d p timeInfo) hash d'
      [(env.lc.tipHeight, .active), (d'.expiry, .expired)] := by
    refine ⟨.include hs.wellFormed.keyed hd p timeInfo, ?_⟩
    rw [hexpy, ← hkey]
    rfl
  have hquorum : s.hasQuorum d = true := by
    have heq := hs.wellFormed.btcDelHasCovenantQuorums_eq hd hq
    rw [hinc.quorum] at heq
    exact (Except.ok.inj heq).symm
  have hquorum' : (s.includeDelegation prim env d p timeInfo).hasQuorum d' = s.hasQuorum d :=
    hwr.extended.hasQuorum_eq hs.wellFormed hd (.include d _ _) fun _ _ => rfl
  have haccount : (s.includeDelegation prim env d p timeInfo).account added subtracted hash d'
      = (s.account added subtracted hash d).includeAt timeInfo.startHeight d'.expiry := by
    rw [hwr.account_eq]
    simp [State.account, Account.includeAt, hquorum', hprf, d', isUnbondedEarly]
  refine hs.write hwr ?_ ?_ ?_
  · intro e he hold
    obtain rfl := Option.some.inj (hd.symm.trans he)
    rw [hinc.notIncluded] at hold
    cases hold
  · intro height newState hin
    rcases mem_cons.mp hin with heq | hin
    · cases heq
      simp
    · cases mem_singleton.mp hin
      rw [if_pos rfl]
      exact ⟨hprf, rfl⟩
  · rw [haccount]
    exact (hs.lawful hash d hd).includeAt hinc.notIncluded hquorum hinc.notUnbonded
      hinc.start_le (by omega)

/-- A quorum that a member's signatures complete comes before the delegation expires. -/
def State.TimelyQuorum (s : State) (processed : Nat) (req : MsgAddCovenantSigs) : Prop :=
  ∀ info, s.getBTCDelWithParams req.stakingTxHash = .ok info →
    info.delegation.hasInclusionProof = true →
    info.delegation.hasCovenantQuorums info.params.covenantQuorum info.prevStkCovenantQuorum
      = false →
    (info.delegation.addCovenantSigs req.pk [] [] [] []).hasCovenantQuorums
      info.params.covenantQuorum info.prevStkCovenantQuorum = true →
    processed + info.delegation.unbondingTime < info.delegation.endHeight

instance (s : State) (processed : Nat) (req : MsgAddCovenantSigs) :
    Decidable (s.TimelyQuorum processed req) :=
  match h : s.getBTCDelWithParams req.stakingTxHash with
  | .ok info => decidable_of_iff' _
      ⟨fun hall => hall info h, fun hinfo info' h' => Except.ok.inj (h.symm.trans h') ▸ hinfo⟩
  | .error _ => .isTrue fun info h' => by
      rw [h] at h'
      cases h'

omit hs in
/-- The quorums count signatures and do not look at them. -/
theorem BTCDelegation.hasCovenantQuorums_addCovenantSigs (d : BTCDelegation) (pk : BIP340PubKey)
    (slashingSigs unbondingSlashingSigs : List Bytes) (unbondingSig stkExpSig : Bytes)
    (quorum quorumPreviousStk : Nat) :
    (d.addCovenantSigs pk slashingSigs unbondingSig unbondingSlashingSigs
        stkExpSig).hasCovenantQuorums quorum quorumPreviousStk
      = (d.addCovenantSigs pk [] [] [] []).hasCovenantQuorums quorum quorumPreviousStk := by
  simp only [hasCovenantQuorums, addCovenantSigs, BTCUndelegation.hasCovenantQuorums,
    BTCUndelegation.addCovenantSigs, BTCUndelegation.hasCovenantQuorumOnUnbonding,
    BTCUndelegation.hasCovenantQuorumOnSlashing, length_append, length_singleton]
  cases d.stkExp with
  | none => rfl
  | some stkExp =>
    simp only [Option.map_some, StakeExpansion.hasCovenantQuorums,
      StakeExpansion.addCovenantSigs, length_append, length_singleton]

omit hs in
/-- More signatures never break a quorum. -/
theorem BTCDelegation.hasCovenantQuorums_mono {quorum quorumPreviousStk : Nat} (pk : BIP340PubKey)
    (slashingSigs unbondingSlashingSigs : List Bytes) (unbondingSig stkExpSig : Bytes)
    (h : d.hasCovenantQuorums quorum quorumPreviousStk = true) :
    (d.addCovenantSigs pk slashingSigs unbondingSig unbondingSlashingSigs
      stkExpSig).hasCovenantQuorums quorum quorumPreviousStk = true := by
  unfold hasCovenantQuorums at h ⊢
  cases hexp : d.stkExp <;>
    simp_all [addCovenantSigs, BTCUndelegation.hasCovenantQuorums, BTCUndelegation.addCovenantSigs,
      BTCUndelegation.hasCovenantQuorumOnUnbonding, BTCUndelegation.hasCovenantQuorumOnSlashing,
      StakeExpansion.hasCovenantQuorums, StakeExpansion.addCovenantSigs] <;> omega

theorem Ledger.addCovenantSigs {req : MsgAddCovenantSigs} {info : BTCDelegationWithParams}
    (slashingSigs unbondingSlashingSigs : List Bytes) (unbondingSig stkExpSig : Bytes)
    (hinfo : s.getBTCDelWithParams req.stakingTxHash = .ok info)
    (hst : State.btcDelStatusWithTip env info ≠ .unbonded)
    (htm : strict → s.TimelyQuorum processed req) :
    Ledger prim strict processed env.lc.tipHeight added subtracted
      (s.addCovenantSigsToBTCDelegation prim env info req.pk slashingSigs unbondingSig
        unbondingSlashingSigs stkExpSig) := by
  have hrslv := getBTCDelWithParams_resolves hinfo
  have hd := hrslv.stored
  have hkey := hs.wellFormed.keyed _ _ hd
  have hsame := SameTerms.addCovenantSigs info.delegation req.pk slashingSigs
    unbondingSig unbondingSlashingSigs stkExpSig
  have hlaw := hs.lawful _ _ hd
  have hunb : info.delegation.isUnbondedEarly = false := by
    cases hearly : info.delegation.isUnbondedEarly with
    | false => rfl
    | true => exact absurd (by simp [State.btcDelStatusWithTip, getStatus, hearly]) hst
  generalize hd' : info.delegation.addCovenantSigs req.pk slashingSigs unbondingSig
    unbondingSlashingSigs stkExpSig = d' at hsame
  have hprf : d'.hasInclusionProof = info.delegation.hasInclusionProof := by
    rw [← hd']
    rfl
  have hfields : d'.startHeight = info.delegation.startHeight ∧
      d'.expiry = info.delegation.expiry ∧ d'.isUnbondedEarly = false := by
    rw [← hd']
    exact ⟨rfl, rfl, hunb⟩
  have hbef := hrslv.hasQuorum
  -- whether this signature completes the quorum
  generalize hhad : info.delegation.hasCovenantQuorums info.params.covenantQuorum
    info.prevStkCovenantQuorum = had at hbef
  generalize hhas : d'.hasCovenantQuorums info.params.covenantQuorum
    info.prevStkCovenantQuorum = has
  have hwr : s.Writes prim (s.addCovenantSigsToBTCDelegation prim env info req.pk slashingSigs
      unbondingSig unbondingSlashingSigs stkExpSig) req.stakingTxHash d'
      (if !had && has && d'.hasInclusionProof then [(env.lc.tipHeight, .active)] else []) := by
    refine ⟨hd' ▸ .sign hs.wellFormed.keyed hd _ _ _ _ _, ?_⟩
    simp only [State.addCovenantSigsToBTCDelegation, hd', hhad, hhas]
    split
    · rw [← hkey, ← hsame.stakingTx]
      rfl
    · rfl
  have haft : (s.addCovenantSigsToBTCDelegation prim env info req.pk slashingSigs unbondingSig
      unbondingSlashingSigs stkExpSig).hasQuorum d' = has := by
    obtain ⟨hpar, hprev⟩ := hwr.extended.quorums_eq hs.wellFormed hd hsame
    rw [State.hasQuorum_of_params (hpar.trans hrslv.params), hprev, ← hrslv.previous, hhas]
  refine hs.write hwr ?_ ?_ ?_
  · intro e he hold
    obtain rfl := Option.some.inj (hd.symm.trans he)
    exact ⟨hprf.trans hold, hfields.2.1⟩
  · intro height newState hin
    split at hin
    · cases mem_singleton.mp hin
      simp
    · cases hin
  · rw [hwr.account_eq, haft, hprf, hfields.1, hfields.2.1, hfields.2.2]
    cases had with
    | true =>
      -- the quorum was there before, and nothing changes
      have hstill : has = true := by
        rw [← hhas, ← hd']
        exact hasCovenantQuorums_mono _ _ _ _ _ hhad
      simpa [State.account, hbef, hstill, hunb] using hlaw
    | false =>
      cases has with
      | false => simpa [State.account, hbef, hunb] using hlaw
      | true =>
        have hreach := hlaw.reachQuorum hbef hunb ?_
        · cases hinc : info.delegation.hasInclusionProof <;>
            simpa [State.account, Account.reachQuorum, hunb, hinc] using hreach
        · intro hstrict hinc
          rw [← hd', hasCovenantQuorums_addCovenantSigs] at hhas
          have hlt := htm hstrict info hinfo hinc hhad hhas
          show processed < info.delegation.expiry
          unfold expiry
          omega

theorem Ledger.btcUndelegate (u : DelegatorUnbondingInfo) (hd : s.btcDelegations.get hash = some d)
    (hunb : s.statusAt env.lc.tipHeight d ≠ .unbonded)
    (hexpd : s.statusAt env.lc.tipHeight d ≠ .expired) :
    Ledger prim strict processed env.lc.tipHeight added subtracted
      (s.btcUndelegate prim env d u) := by
  have hle := hs.processed_le
  have hkey := hs.wellFormed.keyed hash d hd
  obtain ⟨p, hp, -⟩ := hs.wellFormed.exists_params hd
  rw [State.statusAt_of_params hp] at hunb hexpd
  have hearly : d.isUnbondedEarly = false := by
    cases hearly : d.isUnbondedEarly with
    | false => rfl
    | true => exact absurd (by simp [getStatus, hearly]) hunb
  have hexpy : d.hasInclusionProof = true → s.hasQuorum d = true → processed < d.expiry := by
    intro hinc hq
    rw [State.hasQuorum_of_params hp] at hq
    have hstart := (hs.lawful hash d hd).started hinc
    replace hstart : ¬ env.lc.tipHeight < d.startHeight := Nat.not_lt.mpr hstart
    have hend : ¬ d.endHeight ≤ env.lc.tipHeight + d.unbondingTime := by
      intro hend
      exact hexpd (by simp [getStatus, hearly, hq, hinc, hstart, hend])
    unfold expiry
    omega
  have hwr : s.Writes prim (s.btcUndelegate prim env d u) hash (d.unbond u)
      (if d.hasInclusionProof then [(env.lc.tipHeight, .unbonded)] else []) := by
    refine ⟨.unbond hs.wellFormed.keyed hd (.refl d) u, ?_⟩
    rw [← hkey]
    show (ite (d.hasInclusionProof = true) _ _ : State).powerDistUpdateEvents = _
    split <;> rfl
  have hq : (s.btcUndelegate prim env d u).hasQuorum (d.unbond u) = s.hasQuorum d :=
    hwr.extended.hasQuorum_eq hs.wellFormed hd (.unbond d u) fun _ _ => rfl
  refine hs.write hwr ?_ ?_ ?_
  · intro e he hold
    obtain rfl := Option.some.inj (hd.symm.trans he)
    exact ⟨hold, rfl⟩
  · intro height newState hin
    split at hin
    · cases mem_singleton.mp hin
      simp
    · cases hin
  · have hlaw := (hs.lawful hash d hd).unbond hearly hexpy
    have hstart : (d.unbond u).startHeight = d.startHeight := rfl
    have hstop : (d.unbond u).expiry = d.expiry := rfl
    rw [hwr.account_eq, hq, hstart, hstop]
    cases hprf : d.hasInclusionProof <;>
      simpa [State.account, Account.unbond, hprf] using hlaw

/-- The named delegation is unbonded, after the stake expansion that the transaction
activates, if any, has been included. -/
theorem Ledger.msgBTCUndelegate (hacy : prim.Acyclic) {req : MsgBTCUndelegate}
    (h : s.msgBTCUndelegate prim env req = .ok t) :
    Ledger prim strict processed env.lc.tipHeight added subtracted t := by
  obtain ⟨info, tx, u, activated, -, hinfo, hunb, hexpd, hact,
    ⟨txIn, hmem, hspends⟩, rfl⟩ := msgBTCUndelegate_ok h
  have hrslv := getBTCDelWithParams_resolves hinfo
  rw [hrslv.status] at hunb hexpd
  rcases verifyStakeSpendingTx_ok hact with ⟨e, p, timeInfo, he, -, hinc, rfl⟩ | rfl
  · have hne : req.stakingTxHash ≠ prim.txHash tx := by
      have ho := hacy tx txIn hmem
      rw [hspends] at ho
      rwa [hs.wellFormed.keyed _ _ hrslv.stored] at ho
    have hnext := hs.includeDelegation he hinc
    have hwr : s.WritesOne prim (s.includeDelegation prim env e p timeInfo) _ _ :=
      .include hs.wellFormed.keyed he p timeInfo
    have hst : (s.includeDelegation prim env e p timeInfo).statusAt env.lc.tipHeight
        info.delegation = s.statusAt env.lc.tipHeight info.delegation := by
      obtain ⟨hpar, hprev⟩ := hwr.extended.quorums_eq hs.wellFormed hrslv.stored (.refl _)
      unfold State.statusAt
      rw [hpar, hprev]
    have hsto : (s.includeDelegation prim env e p timeInfo).btcDelegations.get
        req.stakingTxHash = some info.delegation := by
      rw [hwr.delegations, get_set_of_ne _ _ hne, hrslv.stored]
    exact hnext.btcUndelegate u hsto (hst ▸ hunb) (hst ▸ hexpd)
  · exact hs.btcUndelegate u hrslv.stored hunb hexpd

omit hs in
/-- The event that a change of providers or parameters queues, if any. -/
theorem RegistryChange.powerDistUpdateEvents (hht : 0 < env.header.height)
    (h : RegistryChange prim env requests s t) :
    t.powerDistUpdateEvents = s.powerDistUpdateEvents ∨
      ∃ event, t.powerDistUpdateEvents
          = s.powerDistUpdateEvents.enqueue env.lc.tipHeight event ∧
        ((∃ pk fp, event = .slashedFp pk ∧ t.finalityProviders.get pk = some fp ∧
            fp.isSlashed = true) ∨ ∃ pk, event = .jailedFp pk ∨ event = .unjailedFp pk) := by
  cases h with
  | register unused notSlashed => exact .inl rfl
  | update stored btcPk slashed jailed => exact .inl rfl
  | move stored notSlashed btcPk moves request =>
    refine .inr ⟨_, rfl, ?_⟩
    cases moves with
    | slash slashed jailed =>
      rw [← btcPk]
      refine .inl ⟨_, _, rfl, get_set_self _ _ _, ?_⟩
      simpa [FinalityProvider.isSlashed, slashed] using hht
    | jail => exact .inr ⟨_, .inl rfl⟩
    | unjail => exact .inr ⟨_, .inr rfl⟩
  | params h =>
    obtain ⟨-, _, rfl⟩ := setParams_ok h
    exact .inl rfl

theorem Ledger.registry (hht : 0 < env.header.height) (h : RegistryChange prim env requests s t) :
    Ledger prim strict processed env.lc.tipHeight added subtracted t := by
  obtain ⟨hwf, hext⟩ := hs.wellFormed.registry h
  have hevo := h.providersEvolve hs.wellFormed.providers
  have hdels := h.btcDelegations
  have hevs := h.powerDistUpdateEvents hht
  have hpend : ∀ hash newState, t.pending (.btcDelStateUpdate hash newState)
      = s.pending (.btcDelStateUpdate hash newState) := by
    intro hash newState
    unfold State.pending
    rcases hevs with heq | ⟨event, heq, hkind⟩
    · rw [heq]
    · rw [heq, queued_enqueue, if_neg, Nat.add_zero]
      rcases hkind with ⟨pk, fp, rfl, -⟩ | ⟨pk, rfl | rfl⟩ <;> simp
  refine ⟨hwf, ?_, ?_, ?_, hs.processed_le⟩
  · intro hash d hd
    rw [hdels] at hd
    rw [hs.account_eq hext hd (hpend hash)]
    exact hs.lawful hash d hd
  · intro hash hnone
    exact hs.unseen hash (hdels ▸ hnone)
  · intro height event hmem
    have hold : event ∈ s.eventsAt height → t.EventAt processed env.lc.tipHeight height event := by
      intro hold
      refine (hs.located height event hold).extend ?_ hevo.kept (Nat.le_refl _)
      intro hash d hd
      exact ⟨d, by rw [hdels, hd], fun hin => ⟨hin, rfl⟩⟩
    replace hmem : event ∈ t.powerDistUpdateEvents.queue height := hmem
    rcases hevs with heq | ⟨queued, heq, hkind⟩
    · rw [heq] at hmem
      exact hold hmem
    · rw [heq, queue_enqueue] at hmem
      split at hmem
      case isTrue htip =>
        subst htip
        rcases mem_append.mp hmem with hbef | hnew
        · exact hold hbef
        · obtain rfl := mem_singleton.mp hnew
          have hrng := And.intro hs.processed_le (Nat.le_refl env.lc.tipHeight)
          rcases hkind with ⟨pk, fp, rfl, hfp, hsl⟩ | ⟨pk, rfl | rfl⟩
          · exact ⟨⟨fp, hfp, hsl⟩, hrng⟩
          · exact hrng
          · exact hrng
      case isFalse => exact hold hmem

/-- Every message keeps the ledger. -/
theorem Ledger.change (hacy : prim.Acyclic)
    (hht : 0 < env.header.height)
    (hreq : strict → ∀ req, requests s (.addCovenantSigs req) → s.TimelyQuorum processed req)
    (h : Change prim env requests s t) :
    Ledger prim strict processed env.lc.tipHeight added subtracted t := by
  cases h with
  | create fresh hexp => exact hs.insertDelegation fresh (.of_none hexp)
  | expand fresh hexp expands => exact hs.insertDelegation fresh (.of_some hexp expands)
  | prove stored hexp includable => exact hs.includeDelegation stored includable
  | sign request stored notUnbonded notExpired =>
    exact hs.addCovenantSigs _ _ _ _ stored notUnbonded fun hstrict => hreq hstrict _ request
  | undelegate request h => exact hs.msgBTCUndelegate hacy h
  | registry h => exact hs.registry hht h

end Messages

/-! ## Blocks -/

/-- A higher tip. -/
theorem Ledger.mono (hs : Ledger prim strict processed tip added subtracted s) {tip' : Nat}
    (hle : tip ≤ tip') : Ledger prim strict processed tip' added subtracted s where
  wellFormed := hs.wellFormed
  lawful := fun hash d hd => (hs.lawful hash d hd).mono hle
  unseen := hs.unseen
  located := by
    intro height event hmem
    refine (hs.located height event hmem).extend ?_ ?_ hle
    · exact fun hash d hd => ⟨d, hd, fun hin => ⟨hin, rfl⟩⟩
    · exact fun pk fp hfp => ⟨fp, hfp, id⟩
  processed_le := hs.processed_le.trans hle

/-- The events at these BTC heights, in the order they are processed. -/
def State.eventsIn (s : State) (heights : List Nat) : List EventPowerDistUpdate :=
  heights.flatMap s.eventsAt

/-- How often the sats of a delegation are subtracted when events are processed. -/
def State.removals (s : State) (events : List EventPowerDistUpdate) (hash : ChainHash) : Nat :=
  match s.btcDelegations.get hash with
  | some d => if s.hasQuorum d then
      events.count (.btcDelStateUpdate hash .unbonded)
        + if d.isUnbondedEarly then 0 else events.count (.btcDelStateUpdate hash .expired)
      else 0
  | none => 0

section Process

variable {heights : List Nat}

/-- What is left of an event, and what was processed, make up what was pending. -/
theorem State.pending_cleared (hnd : heights.Nodup)
    (h : t.powerDistUpdateEvents = heights.foldl delete s.powerDistUpdateEvents)
    (event : EventPowerDistUpdate) :
    t.pending event + (s.eventsIn heights).count event = s.pending event := by
  unfold State.pending
  rw [h]
  exact queued_foldl_delete s.powerDistUpdateEvents hnd event

theorem State.mem_eventsAt_cleared
    (h : t.powerDistUpdateEvents = heights.foldl delete s.powerDistUpdateEvents)
    (hmem : event ∈ t.eventsAt height) :
    height ∉ heights ∧ event ∈ s.eventsAt height := by
  replace hmem : event ∈ t.powerDistUpdateEvents.queue height := hmem
  rw [h, queue_foldl_delete] at hmem
  split at hmem
  case isTrue => cases hmem
  case isFalse hnot => exact ⟨hnot, hmem⟩

variable (hs : Ledger prim strict processed tip added subtracted s)
  (hheights : ∀ height, height ∈ heights ↔ processed ≤ height ∧ height ≤ tip)
  (h : t.powerDistUpdateEvents = heights.foldl delete s.powerDistUpdateEvents)

include hs hheights h

/-- All ACTIVE and UNBONDED events are processed. -/
theorem Ledger.pending_processed {newState : BTCDelegationStatus} (ho : newState ≠ .expired) :
    t.pending (.btcDelStateUpdate hash newState) = 0 := by
  refine State.pending_eq_zero fun height hmem => ?_
  obtain ⟨hnot, hold⟩ := State.mem_eventsAt_cleared h hmem
  obtain ⟨d, -, hrng⟩ := hs.located height _ hold
  rw [if_neg ho] at hrng
  exact hnot ((hheights height).mpr hrng)

/-- An EXPIRED event is processed when its height is reached. -/
theorem Ledger.pending_expired (hnd : heights.Nodup) (hd : s.btcDelegations.get hash = some d) :
    t.pending (.btcDelStateUpdate hash .expired)
      = if d.expiry ≤ tip then 0 else s.pending (.btcDelStateUpdate hash .expired) := by
  have hwhere : ∀ height, .btcDelStateUpdate hash .expired ∈ s.eventsAt height →
      d.hasInclusionProof = true ∧ height = d.expiry := by
    intro height hmem
    obtain ⟨e, he, hat⟩ := hs.located height _ hmem
    obtain rfl := Option.some.inj (hd.symm.trans he)
    rwa [if_pos rfl] at hat
  split
  case isTrue hrch =>
    refine State.pending_eq_zero fun height hmem => ?_
    obtain ⟨hnot, hold⟩ := State.mem_eventsAt_cleared h hmem
    obtain ⟨-, rfl⟩ := hwhere height hold
    -- what is pending has not been processed before
    have hexpiring := (hs.lawful hash d hd).expiring
    have hpos : 0 < s.pending (.btcDelStateUpdate hash .expired) := by
      have hclr := State.pending_cleared hnd h (.btcDelStateUpdate hash .expired)
      have hleft : 0 < t.pending (.btcDelStateUpdate hash .expired) := by
        by_contra hzero
        exact absurd hmem (not_mem_of_queued_eq_zero (Nat.eq_zero_of_not_pos hzero) _)
      omega
    split at hexpiring
    case isTrue hboth =>
      exact hnot ((hheights d.expiry).mpr ⟨Nat.le_of_lt hboth.2, hrch⟩)
    case isFalse => exact absurd hexpiring (Nat.ne_of_gt hpos)
  case isFalse hlater =>
    have hclr := State.pending_cleared hnd h (.btcDelStateUpdate hash .expired)
    have hnone : (s.eventsIn heights).count (.btcDelStateUpdate hash .expired) = 0 := by
      refine count_eq_zero.mpr fun hmem => ?_
      obtain ⟨height, hin, hev⟩ := mem_flatMap.mp hmem
      obtain ⟨-, rfl⟩ := hwhere height hev
      exact hlater ((hheights d.expiry).mp hin).2
    omega

/-- Processing the events of a BTC range in one block: the accounts are settled up to the
tip. -/
theorem Ledger.process (hnd : heights.Nodup) (hdels : t.btcDelegations = s.btcDelegations)
    (hpar : t.params = s.params) (hprov : t.finalityProviders = s.finalityProviders) :
    Ledger prim strict tip tip
      (fun hash => added hash + (s.eventsIn heights).count (.btcDelStateUpdate hash .active))
      (fun hash => subtracted hash + s.removals (s.eventsIn heights) hash) t where
  wellFormed := hs.wellFormed.of_eq hdels hpar hprov
  lawful := by
    intro hash d hd
    rw [hdels] at hd
    have hproc := (hs.lawful hash d hd).process hs.processed_le
    have hact := State.pending_cleared hnd h (.btcDelStateUpdate hash .active)
    have hunb := State.pending_cleared hnd h (.btcDelStateUpdate hash .unbonded)
    have hexpd := State.pending_cleared hnd h (.btcDelStateUpdate hash .expired)
    rw [hs.pending_processed hheights h (by decide), Nat.zero_add] at hact hunb
    rw [hs.pending_expired hheights h hnd hd] at hexpd
    have hquorum : t.hasQuorum d = s.hasQuorum d := by
      simp only [State.hasQuorum, State.prevQuorum, hpar, hdels]
    have hremovals : s.removals (s.eventsIn heights) hash
        = (s.account added subtracted hash d).removals tip := by
      simp only [State.removals, hd, State.account, Account.removals, hunb]
      by_cases hrch : d.expiry ≤ tip
      · rw [if_pos hrch, Nat.zero_add] at hexpd
        by_cases hq : s.hasQuorum d = true <;> by_cases hearly : d.isUnbondedEarly = true <;>
          simp [hq, hearly, hrch, hexpd]
      · rw [if_neg hrch] at hexpd
        have hzero : (s.eventsIn heights).count (.btcDelStateUpdate hash .expired) = 0 := by
          omega
        by_cases hq : s.hasQuorum d = true <;> simp [hq, hrch, hzero]
    have haccount : t.account
        (fun hash => added hash + (s.eventsIn heights).count (.btcDelStateUpdate hash .active))
        (fun hash => subtracted hash + s.removals (s.eventsIn heights) hash) hash d
          = (s.account added subtracted hash d).process tip := by
      simp only [State.account, Account.process, hremovals, hquorum, hact,
        hs.pending_processed hheights h (show BTCDelegationStatus.active ≠ .expired by decide),
        hs.pending_processed hheights h (show BTCDelegationStatus.unbonded ≠ .expired by decide),
        hs.pending_expired hheights h hnd hd]
      rfl
    rw [haccount]
    exact hproc
  unseen := by
    intro hash hnone
    rw [hdels] at hnone
    obtain ⟨hadd, hsubt⟩ := hs.unseen hash hnone
    have hpend := hs.pending_eq_zero hnone .active
    have hclr := State.pending_cleared hnd h (.btcDelStateUpdate hash .active)
    refine ⟨by omega, ?_⟩
    simp [State.removals, hnone, hsubt]
  located := by
    intro height event hmem
    obtain ⟨hnot, hold⟩ := State.mem_eventsAt_cleared h hmem
    have hat := hs.located height event hold
    cases event with
    | btcDelStateUpdate hash newState =>
      obtain ⟨d, hd, hrng⟩ := hat
      refine ⟨d, by rw [hdels, hd], ?_⟩
      split at hrng
      case isTrue hexpd => rwa [if_pos hexpd]
      case isFalse => exact absurd ((hheights height).mpr hrng) hnot
    | slashedFp pk => exact absurd ((hheights height).mpr hat.2) hnot
    | jailedFp pk | unjailedFp pk => exact absurd ((hheights height).mpr hat) hnot
  processed_le := Nat.le_refl tip

end Process

end Babylon.BTCStaking
