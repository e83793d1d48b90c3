/-
  Covenant quorums over whole runs.

  The signers of a stored delegation are exactly the members whose signatures were
  accepted at some point of the run, so that a quorum is a number of members.  A stake
  expansion needs two quorums at once, and only members of both committees can sign it.
-/
import Babylon.App.StakeExpansion
import Babylon.BTCStaking.Covenants

set_option autoImplicit false

namespace Babylon

open Lib BTCStaking Devnet Chain State Option List

variable {I : Type} {cfg : Config I} {c : Chain I} {history : History I}

/-! ## Submissions -/

/-- A covenant member submitted valid signatures for a delegation, and they were accepted. -/
def Submitted (cfg : Config I) (history : History I) (hash : ChainHash)
    (pk : BIP340PubKey) : Prop :=
  ∃ past ∈ history, ∃ req info, past.2 = .deliver (.addCovenantSigs req) ∧
    req.stakingTxHash = hash ∧ req.pk = pk ∧
    past.1.btcStaking.getBTCDelWithParams hash = .ok info ∧
    ValidCovenantSigs cfg.prim info req ∧
    succeeds (past.1.btcStaking.addCovenantSigs cfg.prim (past.1.env cfg).toEnv req) = true

variable {hash : ChainHash} {pk : BIP340PubKey}

theorem submitted_cons_of {past : Chain I × Label I} (h : Submitted cfg history hash pk) :
    Submitted cfg (past :: history) hash pk := by
  obtain ⟨earlier, hmem, hrest⟩ := h
  exact ⟨earlier, mem_cons_of_mem _ hmem, hrest⟩

/-- A step that submits nothing adds no submission. -/
theorem submitted_cons_iff {past : Chain I × Label I}
    (hlab : ∀ req, past.2 = .deliver (.addCovenantSigs req) →
      succeeds (past.1.btcStaking.addCovenantSigs cfg.prim (past.1.env cfg).toEnv req) = false) :
    Submitted cfg (past :: history) hash pk ↔ Submitted cfg history hash pk := by
  refine ⟨?_, submitted_cons_of⟩
  rintro ⟨earlier, hmem, req, info, hreq, hrest⟩
  rcases mem_cons.mp hmem with rfl | hmem
  · have hfails := hlab req hreq
    rw [hrest.2.2.2.2] at hfails
    cases hfails
  · exact ⟨earlier, hmem, req, info, hreq, hrest⟩

/-- Delegations are signed by members of their covenants, and the signers are those that
submitted signatures. -/
structure CovenantInv (cfg : Config I) (history : History I) (c : Chain I) : Prop where
  signed : c.btcStaking.CovenantsSigned
  submitted : ∀ hash pk, pk ∈ c.btcStaking.signersOf hash ↔ Submitted cfg history hash pk

variable {history' : History I} {c' : Chain I}

section

variable (inv : CovenantInv cfg history c)

include inv

/-- Steps that touch neither delegations nor what they refer to. -/
theorem CovenantInv.of_eq (hdels : c'.btcStaking.btcDelegations = c.btcStaking.btcDelegations)
    (hpar : c'.btcStaking.params = c.btcStaking.params)
    (hhist : ∀ hash pk, Submitted cfg history' hash pk ↔ Submitted cfg history hash pk) :
    CovenantInv cfg history' c' := by
  constructor
  · intro hash d hget
    rw [hdels] at hget
    have hsig := inv.signed hash d hget
    have hprev : c'.btcStaking.prevParams d = c.btcStaking.prevParams d := by
      unfold prevParams
      rw [hdels, hpar]
    refine ⟨hsig.toSignedAlike, ?_, ?_, ?_⟩
    · rw [hpar]
      exact hsig.member
    · rw [hprev]
      exact hsig.previousMember
    · rw [hpar, hprev]
      exact hsig.overlap
  · intro hash pk
    rw [hhist, signersOf, hdels]
    exact inv.submitted hash pk

variable (hs : c.btcStaking.WellFormed cfg.prim)

include hs

/-- Changes of the store that are no submissions. -/
theorem CovenantInv.changes {env : Env} {requests : State → Request → Prop}
    (hreq : ∀ s req, ¬ requests s (.addCovenantSigs req))
    (h : Changes cfg.prim env requests c.btcStaking c'.btcStaking)
    (hhist : ∀ hash pk, Submitted cfg history' hash pk ↔ Submitted cfg history hash pk) :
    CovenantInv cfg history' c' := by
  have hall : ∀ t, Changes cfg.prim env requests c.btcStaking t →
      t.CovenantsSigned ∧ ∀ hash, t.signersOf hash = c.btcStaking.signersOf hash := by
    intro t ht
    induction ht with
    | refl => exact ⟨inv.signed, fun _ => rfl⟩
    | tail hchgs hchg ih =>
      obtain ⟨hsigned, hsgs⟩ := hchg.covenants ih.1 (Changes.wellFormed hs hchgs) (hreq _)
      exact ⟨hsigned, fun hash => (hsgs hash).trans (ih.2 hash)⟩
  obtain ⟨hsigned, hsgs⟩ := hall _ h
  refine ⟨hsigned, fun hash pk => ?_⟩
  rw [hsgs, hhist]
  exact inv.submitted hash pk

/-- Accepted signatures make the member that submits them a signer. -/
theorem CovenantInv.sign {req : MsgAddCovenantSigs} {w : Finality.Stores I}
    (h : handle cfg (c.env cfg) c.toStores (.addCovenantSigs req) = .ok w) :
    CovenantInv cfg ((c, .deliver (.addCovenantSigs req)) :: history)
      { c with toStores := w } := by
  have hsigns := (liftStaking_ok h).1
  obtain ⟨hsig, hsgs⟩ := addCovenantSigs_covenants inv.signed hs hsigns
  obtain ⟨info, _, _, hinfo, hacc, -⟩ := addCovenantSigs_accepted hsigns
  refine ⟨hsig, fun hash pk => ?_⟩
  rw [hsgs]
  constructor
  · intro hmem
    split at hmem
    case isFalse => exact submitted_cons_of ((inv.submitted hash pk).mp hmem)
    case isTrue heq =>
      rcases mem_append.mp hmem with hold | hnew
      · exact submitted_cons_of ((inv.submitted hash pk).mp hold)
      · obtain rfl := mem_singleton.mp hnew
        refine ⟨_, mem_cons_self, req, info, rfl, heq.symm, rfl, ?_, hacc.valid,
          succeeds_iff.mpr ⟨_, hsigns⟩⟩
        rw [heq]
        exact hinfo
  · rintro ⟨past, hmem, other, found, ho, hhash, hpk, hrest⟩
    rcases mem_cons.mp hmem with rfl | hmem
    · cases ho
      rw [if_pos hhash.symm, ← hpk]
      exact mem_append_right _ (mem_singleton_self _)
    · have hold := (inv.submitted hash pk).mpr ⟨past, hmem, other, found, ho, hhash, hpk, hrest⟩
      split
      case isTrue => exact mem_append_left _ hold
      case isFalse => exact hold

theorem CovenantInv.step {l : Label I}
    (h : (chain cfg).step c l = some c') : CovenantInv cfg ((c, l) :: history) c' := by
  by_cases hsubmits : ∃ req, l = .deliver (.addCovenantSigs req)
  · obtain ⟨req, rfl⟩ := hsubmits
    replace h : c.step cfg (.deliver (.addCovenantSigs req)) = some c' := h
    simp only [Chain.step] at h
    split at h
    case isFalse => cases h
    case isTrue =>
      obtain rfl := some.inj h
      unfold deliver
      split
      case h_1 w hw => exact inv.sign hs hw
      case h_2 e he =>
        -- a failed submission changes nothing
        refine inv.of_eq rfl rfl fun hash pk => submitted_cons_iff ?_
        intro other ho
        cases ho
        have hfails : liftStaking c.toStores
            (c.btcStaking.addCovenantSigs cfg.prim (c.env cfg).toEnv req) = .error e := he
        cases hcall : c.btcStaking.addCovenantSigs cfg.prim (c.env cfg).toEnv req with
        | error => rfl
        | ok t =>
          rw [hcall] at hfails
          cases hfails
  · have hhist : ∀ hash pk, Submitted cfg ((c, l) :: history) hash pk ↔
        Submitted cfg history hash pk := fun hash pk =>
      submitted_cons_iff fun req hreq => absurd ⟨req, hreq⟩ hsubmits
    cases stepped h with
    | @beginBlock header w _ _ hw =>
      have hstore := updatePowerDist_btcStaking hw
      refine inv.of_eq ?_ ?_ hhist
      · show w.btcStaking.btcDelegations = _
        rw [hstore]
      · show w.btcStaking.params = _
        rw [hstore]
    | message _ hw =>
      refine inv.changes hs ?_ (handle_staking hw) hhist
      rintro _ req ⟨-, rfl⟩
      exact hsubmits ⟨req, rfl⟩
    | rejected | headers | others | external => exact inv.of_eq rfl rfl hhist
    | endBlock _ hw =>
      exact inv.changes hs (fun _ _ hfalse => hfalse) (changes_of_endBlocker hw) hhist

end

theorem covenantInv_of_run (run : Run (chain cfg) history c) : CovenantInv cfg history c := by
  refine run.historyInvariant (CovenantInv cfg) ?_ ?_ .trivial
  · intro c hgen
    obtain ⟨params, pairs, allowed, deleted, hbs, -⟩ := hgen.btcStaking_eq
    refine ⟨?_, ?_⟩
    · intro hash d hget
      rw [hbs] at hget
      cases hget
    · intro hash pk
      rw [hbs]
      constructor
      · intro hmem
        cases hmem
      · rintro ⟨past, hmem, -⟩
        cases hmem
  · intro history c l c' run inv _ hstep
    exact inv.step (wellFormed_of_run run) hstep

/-- Following previous delegations ends: no delegation replaces itself, what a stake expansion
names is stored together with its parameters, and the functions that follow the names succeed
for every stored delegation. -/
theorem previous_delegations_end (run : Run (chain cfg) history c) :
    (∀ hash, ¬ Relation.TransGen c.btcStaking.Replaces hash hash) ∧
    (∀ hash previous, c.btcStaking.Replaces hash previous →
      ∃ d p, c.btcStaking.btcDelegations.get previous = some d ∧
        c.btcStaking.params.get d.paramsVersion = some p) ∧
    ∀ hash d, c.btcStaking.btcDelegations.get hash = some d →
      (∃ info, c.btcStaking.getBTCDelWithParams hash = .ok info ∧ info.delegation = d) ∧
      (∀ quorum height, ∃ status, c.btcStaking.btcDelStatus d quorum height = .ok status) ∧
      ∀ quorum, ∃ has, c.btcStaking.btcDelHasCovenantQuorums d quorum = .ok has := by
  have hs := wellFormed_of_run run
  refine ⟨fun hash => hs.not_transGen_replaces, ?_, ?_⟩
  · rintro hash _ ⟨d, stkExp, hd, hexp, rfl⟩
    obtain ⟨previous, hprevious⟩ := (hs.settled hash d hd).previous stkExp hexp
    obtain ⟨p, hp, -⟩ := hs.exists_params hprevious
    exact ⟨previous, p, hprevious, hp⟩
  · intro hash d hd
    obtain ⟨info, hinfo, hdel, -⟩ := hs.getBTCDelWithParams_ok hd
    have hlookups := hs.quorum_lookups_ok hd
    exact ⟨⟨info, hinfo, hdel⟩, fun quorum height => ⟨_, (hlookups quorum).2 height⟩,
      fun quorum => ⟨_, (hlookups quorum).1⟩⟩

/-! ## Quorums of members -/

/-- At least `quorum` members of a committee submitted signatures for a delegation. -/
def QuorumSubmitted (cfg : Config I) (history : History I) (hash : ChainHash)
    (committee : List BIP340PubKey) (quorum : Nat) : Prop :=
  ∃ members : List BIP340PubKey, members.Nodup ∧ quorum ≤ members.length ∧
    ∀ pk ∈ members, pk ∈ committee ∧ Submitted cfg history hash pk

variable {d : BTCDelegation}

section

variable (inv : CovenantInv cfg history c) (hget : c.btcStaking.btcDelegations.get hash = some d)

include inv hget

theorem CovenantInv.mem_signers_iff : pk ∈ d.signers ↔ Submitted cfg history hash pk := by
  rw [← signersOf_of_some hget]
  exact inv.submitted hash pk

/-- Members that all signed are counted once each. -/
theorem CovenantInv.quorumSubmitted_iff {committee : List BIP340PubKey}
    (hmembers : ∀ pk ∈ d.signers, pk ∈ committee) (quorum : Nat) :
    QuorumSubmitted cfg history hash committee quorum ↔ quorum ≤ d.signers.length := by
  constructor
  · rintro ⟨members, hnd, hq, hall⟩
    have hsubset : members ⊆ d.signers := fun pk hpk =>
      (inv.mem_signers_iff hget).mpr (hall pk hpk).2
    exact hq.trans (hnd.subperm hsubset).length_le
  · intro hq
    exact ⟨d.signers, (inv.signed hash d hget).nodup, hq, fun pk hpk =>
      ⟨hmembers pk hpk, (inv.mem_signers_iff hget).mp hpk⟩⟩

end

/-- A stake expansion finds the parameters of what it replaces. -/
theorem exists_prevParams_of_run (run : Run (chain cfg) history c)
    (hget : c.btcStaking.btcDelegations.get hash = some d) {stkExp : StakeExpansion}
    (hexp : d.stkExp = some stkExp) :
    ∃ previous, c.btcStaking.prevParams d = some previous := by
  have hs := wellFormed_of_run run
  obtain ⟨replaced, hrep⟩ := (hs.settled hash d hget).previous stkExp hexp
  obtain ⟨p, hp, -⟩ := hs.exists_params hrep
  refine ⟨p, ?_⟩
  unfold prevParams
  rw [hexp, bind_some, hrep, bind_some, hp]

/-- The covenant signatures of every stored delegation are by the same distinct members of its
committee, which are those that submitted valid signatures; the delegation has its quorums exactly
if enough members of its committee, and of the committee of what it expands, submitted them; and
a second submission of a member is rejected and changes nothing. -/
theorem covenant_signatures_by_members (run : Run (chain cfg) history c) {hash : ChainHash}
    (hget : c.btcStaking.btcDelegations.get hash = some d) :
    ∃ p, c.btcStaking.params.get d.paramsVersion = some p ∧ d.SignedAlike ∧
      (∀ pk, pk ∈ d.signers ↔ Submitted cfg history hash pk) ∧
      (∀ pk ∈ d.signers, pk ∈ p.covenantPks) ∧
      (∀ stkExp, d.stkExp = some stkExp → ∃ previous, c.btcStaking.prevParams d = some previous ∧
        ∀ pk ∈ d.signers, pk ∈ previous.covenantPks) ∧
      (d.hasCovenantQuorums p.covenantQuorum (c.btcStaking.prevQuorum d) = true ↔
        QuorumSubmitted cfg history hash p.covenantPks p.covenantQuorum ∧
          ∀ previous, c.btcStaking.prevParams d = some previous →
            QuorumSubmitted cfg history hash previous.covenantPks previous.covenantQuorum) ∧
      ∀ req : MsgAddCovenantSigs, req.stakingTxHash = hash → req.pk ∈ d.signers →
        c.btcStaking.addCovenantSigs cfg.prim (c.env cfg).toEnv req
            = .error (.registered errDuplicatedCovenantSig) ∧
          c.deliver cfg (.addCovenantSigs req) = c := by
  have hs := wellFormed_of_run run
  have inv := covenantInv_of_run run
  have hsigned := inv.signed hash d hget
  obtain ⟨p, hp, -⟩ := hs.exists_params hget
  have hmember := hsigned.member p hp
  refine ⟨p, hp, hsigned.toSignedAlike, fun pk => inv.mem_signers_iff hget, hmember, ?_, ?_, ?_⟩
  · intro stkExp hexp
    obtain ⟨previous, hprevious⟩ := exists_prevParams_of_run run hget hexp
    exact ⟨previous, hprevious, hsigned.previousMember previous hprevious⟩
  · rw [hsigned.toSignedAlike.hasCovenantQuorums_iff, inv.quorumSubmitted_iff hget hmember]
    refine and_congr_right fun _ => ?_
    cases hprevious : c.btcStaking.prevParams d with
    | none =>
      have hnone : d.stkExp = none := by
        cases hexp : d.stkExp with
        | none => rfl
        | some stkExp =>
          obtain ⟨previous, hsome⟩ := exists_prevParams_of_run run hget hexp
          rw [hprevious] at hsome
          cases hsome
      rw [hnone]
      exact ⟨fun _ _ hsome => (nomatch hsome), fun _ hsome => (nomatch hsome)⟩
    | some previous =>
      obtain ⟨stkExp, hexp⟩ := exists_stkExp_of_prevParams hprevious
      have hquorum := inv.quorumSubmitted_iff hget (hsigned.previousMember previous hprevious)
        previous.covenantQuorum
      rw [prevQuorum_eq_elim, hprevious, elim_some, hexp]
      constructor
      · intro hle other hother
        obtain rfl := some.inj hother
        exact hquorum.mpr (hle rfl)
      · intro hall _
        exact hquorum.mp (hall previous rfl)
  · rintro req rfl hmem
    have hduplicate : c.btcStaking.addCovenantSigs cfg.prim (c.env cfg).toEnv req
        = .error (.registered errDuplicatedCovenantSig) := by
      refine addCovenantSigs_duplicate inv.signed hs ?_
      rw [signersOf_of_some hget]
      exact hmem
    refine ⟨hduplicate, ?_⟩
    have hhandle : handle cfg (c.env cfg) c.toStores (.addCovenantSigs req)
        = .error (.registered errDuplicatedCovenantSig) := by
      unfold handle liftStaking
      dsimp only
      rw [hduplicate]
      rfl
    unfold deliver
    rw [hhandle]

namespace Devnet

/-- A delegation that its covenant member has signed. -/
def signedLabels : List (Label Unit) :=
  .beginBlock (header 1) :: registerFp 0 ++ delegate 0 expandedTx 100

end Devnet

/-- The only member of the committee signs a delegation, which then has its quorum. -/
theorem covenant_signatures_by_members_devnet :
    ∃ history c d, Run (chain config) history c ∧
      c.btcStaking.btcDelegations.get (config.prim.txHash expandedTx) = some d ∧
      Submitted config history (config.prim.txHash expandedTx) 7 := by
  obtain ⟨history, c, run, d, hget, hsigners⟩ := reaching
    (P := fun c => ∃ d, c.btcStaking.btcDelegations.get (config.prim.txHash expandedTx)
      = some d ∧ d.signers = [7])
    (finalityParams 10 3 1) expandedLightClient signedLabels (by decide +kernel)
  obtain ⟨p, -, -, hsubmitted, -⟩ := covenant_signatures_by_members run hget
  refine ⟨history, c, d, run, hget, (hsubmitted 7).mp ?_⟩
  rw [hsigners]
  exact mem_singleton_self _

/-! ## Completing a stake expansion -/

/-- The members that are in both committees. -/
def commonMembers (previous p : Params) : List BIP340PubKey :=
  previous.covenantPks.filter fun pk => pk ∈ p.covenantPks

theorem Params.covenantPks_nodup {prim : BtcPrimitives} {p : Params} {u : Unit}
    (h : p.validate prim = .ok u) : p.covenantPks.Nodup := by
  simp only [Params.validate, Params.validateCovenantPks, existsDup, ok_iff] at h
  obtain ⟨_, -, _, -, _, -, _, -, _, ⟨_, ⟨_, -, rfl⟩, hnd⟩, -⟩ := h
  simpa using hnd

/-- Only members of both committees can sign a stake expansion, and when all of them have, it has
both its quorums exactly if the quorum of the new committee is not larger than their number. -/
theorem expansion_completed_iff (run : Run (chain cfg) history c) {hash : ChainHash}
    {stkExp : StakeExpansion}
    (hget : c.btcStaking.btcDelegations.get hash = some d) (hexp : d.stkExp = some stkExp) :
    ∃ p previous, c.btcStaking.params.get d.paramsVersion = some p ∧
      c.btcStaking.prevParams d = some previous ∧
      (∀ pk, Submitted cfg history hash pk → pk ∈ commonMembers previous p) ∧
      ((∀ pk ∈ commonMembers previous p, Submitted cfg history hash pk) →
        (d.hasCovenantQuorums p.covenantQuorum previous.covenantQuorum = true ↔
          p.covenantQuorum ≤ (commonMembers previous p).length)) := by
  have hs := wellFormed_of_run run
  have inv := covenantInv_of_run run
  have hsigned := inv.signed hash d hget
  obtain ⟨p, hp, -⟩ := hs.exists_params hget
  obtain ⟨previous, hprevious⟩ := exists_prevParams_of_run run hget hexp
  have hcommon : ∀ pk ∈ d.signers, pk ∈ commonMembers previous p := fun pk hpk =>
    mem_filter.mpr ⟨hsigned.previousMember previous hprevious pk hpk,
      decide_eq_true (hsigned.member p hp pk hpk)⟩
  refine ⟨p, previous, hp, hprevious,
    fun pk hpk => hcommon pk ((inv.mem_signers_iff hget).mpr hpk), ?_⟩
  intro hall
  -- the signers are the common members, each of them once
  have hlength : d.signers.length = (commonMembers previous p).length := by
    have hnodup : (commonMembers previous p).Nodup := by
      obtain ⟨replaced, hreplaced⟩ := (hs.settled hash d hget).previous stkExp hexp
      have hstored : c.btcStaking.params.get replaced.paramsVersion = some previous := by
        unfold prevParams at hprevious
        rwa [hexp, bind_some, hreplaced, bind_some] at hprevious
      obtain ⟨_, hvalid⟩ := hs.valid _ previous hstored
      exact (Params.covenantPks_nodup hvalid).filter _
    refine le_antisymm ?_ ?_
    · exact (hsigned.nodup.subperm hcommon).length_le
    · exact (hnodup.subperm fun pk hpk => (inv.mem_signers_iff hget).mpr (hall pk hpk)).length_le
  -- the quorum of the previous committee was checked when the expansion was registered
  have hoverlap : previous.covenantQuorum ≤ (commonMembers previous p).length :=
    (of_decide_eq_true (hsigned.overlap p previous hp hprevious)).2.2.2
  rw [hsigned.toSignedAlike.hasCovenantQuorums_iff, hlength]
  exact ⟨fun hquorum => hquorum.1, fun hquorum => ⟨hquorum, fun _ => hoverlap⟩⟩

namespace Devnet

/-- A committee that keeps member 7 and needs a second one. -/
def widerParams : Params :=
  { stakingParams with
    covenantPks := [7, 8]
    covenantQuorum := 2
    btcActivationHeight := 11 }

/-- The signatures of the new member. -/
def addNewMemberSigs (tx : MsgTx) : Label Unit :=
  .deliver (.addCovenantSigs ⟨8, config.prim.txHash tx, [[]], [], [[]], some []⟩)

/-- A delegation is expanded after the committee may have changed, and both members sign. -/
def expandLabels (update : List (Label Unit)) : List (Label Unit) :=
  signedLabels ++ update ++ [.insertHeaders expandingLightClient,
    btcStakeExpand 0 expandedTx fundingTx 120, addCovenantSigs expandingTx (some []),
    addNewMemberSigs expandingTx]

/-- What the two runs below look at: member 7 has signed the expansion, it is the only member
of both committees, and whether the expansion has its quorums. -/
def expansionSigned (quorums : Bool) (c : Chain Unit) : Bool :=
  (c.btcStaking.btcDelegations.get (config.prim.txHash expandingTx)).any fun d =>
    (c.btcStaking.params.get d.paramsVersion).any fun p =>
      (c.btcStaking.prevParams d).any fun previous =>
        d.stkExp.isSome && decide (d.signers = [7]) && decide (commonMembers previous p = [7]) &&
          decide (d.hasCovenantQuorums p.covenantQuorum previous.covenantQuorum = quorums)

theorem exists_expansion (quorums : Bool) (update : List (Label Unit))
    (h : ∃ c, (chain config).execute (fun _ _ => true)
        (genesis (finalityParams 10 3 1) expandedLightClient) (expandLabels update) = some c ∧
      expansionSigned quorums c = true) :
    ∃ history c d stkExp p previous, Run (chain config) history c ∧
      c.btcStaking.btcDelegations.get (config.prim.txHash expandingTx) = some d ∧
      d.stkExp = some stkExp ∧ c.btcStaking.params.get d.paramsVersion = some p ∧
      c.btcStaking.prevParams d = some previous ∧
      (∀ pk ∈ commonMembers previous p,
        Submitted config history (config.prim.txHash expandingTx) pk) ∧
      d.hasCovenantQuorums p.covenantQuorum previous.covenantQuorum = quorums := by
  obtain ⟨history, c, run, h⟩ := reaching _ _ _ ⟨by decide, h⟩
  obtain ⟨d, hget, h⟩ := (any_eq_true _ _).mp h
  obtain ⟨p, hp, h⟩ := (any_eq_true _ _).mp h
  obtain ⟨previous, hprev, h⟩ := (any_eq_true _ _).mp h
  simp only [Bool.and_eq_true, decide_eq_true_eq] at h
  obtain ⟨⟨⟨hexp, hsgs⟩, hcommon⟩, hquorums⟩ := h
  obtain ⟨stkExp, hexp⟩ := isSome_iff_exists.mp hexp
  refine ⟨history, c, d, stkExp, p, previous, run, hget, hexp, hp, hprev, ?_, hquorums⟩
  intro pk hpk
  refine ((covenantInv_of_run run).mem_signers_iff hget).mp ?_
  rwa [hsgs, ← hcommon]

end Devnet

theorem previous_delegations_end_devnet :
    ∃ history c previous, Run (chain config) history c ∧
      c.btcStaking.Replaces (config.prim.txHash expandingTx) previous ∧
      ∃ d, c.btcStaking.btcDelegations.get previous = some d := by
  obtain ⟨history, c, d, stkExp, p, previous, run, hget, hexp, -⟩ :=
    exists_expansion true [] (by decide +kernel)
  have hreplaces : c.btcStaking.Replaces (config.prim.txHash expandingTx)
    stkExp.previousStakingTxHash := ⟨d, stkExp, hget, hexp, rfl⟩
  obtain ⟨previous, p, hprevious, -⟩ := (previous_delegations_end run).2.1 _ _ hreplaces
  exact ⟨history, c, _, run, hreplaces, previous, hprevious⟩

/-- The committee does not change, and its member completes the expansion. -/
theorem expansion_completed_devnet :
    ∃ history c d stkExp p previous, Run (chain config) history c ∧
      c.btcStaking.btcDelegations.get (config.prim.txHash expandingTx) = some d ∧
      d.stkExp = some stkExp ∧ c.btcStaking.params.get d.paramsVersion = some p ∧
      c.btcStaking.prevParams d = some previous ∧
      p.covenantQuorum ≤ (commonMembers previous p).length := by
  obtain ⟨history, c, d, stkExp, p, previous, run, hget, hexp, hp, hprevious, hall, hquorums⟩ :=
    exists_expansion true [] (by decide +kernel)
  obtain ⟨q, other, hq, hother, -, hiff⟩ := expansion_completed_iff run hget hexp
  obtain rfl := some.inj (hp.symm.trans hq)
  obtain rfl := some.inj (hprevious.symm.trans hother)
  exact ⟨history, c, d, stkExp, p, previous, run, hget, hexp, hp, hprevious,
    (hiff hall).mp hquorums⟩

/-- The committee grows from one member to two, which both have to sign.  The expansion is
accepted, because the old quorum of one member is in both committees; that member signs, the new
one is refused, and the expansion never gets its quorums. -/
theorem expansion_never_completed :
    ∃ history c d stkExp p previous, Run (chain config) history c ∧
      c.btcStaking.btcDelegations.get (config.prim.txHash expandingTx) = some d ∧
      d.stkExp = some stkExp ∧ c.btcStaking.params.get d.paramsVersion = some p ∧
      c.btcStaking.prevParams d = some previous ∧
      (∀ pk ∈ commonMembers previous p,
        Submitted config history (config.prim.txHash expandingTx) pk) ∧
      d.hasCovenantQuorums p.covenantQuorum previous.covenantQuorum = false :=
  exists_expansion false [.deliver (.updateStakingParams ⟨0, widerParams⟩)] (by decide +kernel)

end Babylon
