/-
  How long a jailed provider stays jailed.

  A provider that is jailed gets the end of its jailing period in its signing
  record, and unjailing it is refused until then.  The record is reset when the
  provider becomes active, which a proposal to resume finality can do to a
  provider that is jailed: it promotes providers of historical caches.
-/
import Babylon.App.Jailing
import Babylon.Finality.Liveness

set_option autoImplicit false

namespace Babylon

open Lib KVStore Finality Devnet State List

variable {endTime : Time}

namespace Finality

variable {I : Type} {ext : External I} {env : Env} {w w' : Stores I} {pk : BIP340PubKey}

/-! ## Jailing periods in the stores -/

/-- The end of the jailing period in the record of a provider. -/
def State.jailedUntil (s : State) (pk : BIP340PubKey) : Option Time :=
  (s.finalityProviderSigningTracker.get pk).map (·.jailedUntil)

/-- A call that keeps the period of a provider that is jailed, and sets the period of a
provider that it jails. -/
structure KeepsPeriods (env : Env) (pk : BIP340PubKey) (w w' : Stores I) : Prop where
  kept : Jailed w.btcStaking pk →
    Jailed w'.btcStaking pk ∧ w'.finality.jailedUntil pk = w.finality.jailedUntil pk
  jails : ¬Jailed w.btcStaking pk → Jailed w'.btcStaking pk →
    w'.finality.jailedUntil pk = some (env.header.time + w.finality.params.jailDuration)

/-- Calls that leave the provider and, if it is jailed, its record alone. -/
theorem KeepsPeriods.of_eq
    (hprov : w'.btcStaking.finalityProviders.get pk = w.btcStaking.finalityProviders.get pk)
    (hrec : Jailed w.btcStaking pk → w'.finality.finalityProviderSigningTracker.get pk
      = w.finality.finalityProviderSigningTracker.get pk) : KeepsPeriods env pk w w' := by
  have hj : Jailed w'.btcStaking pk ↔ Jailed w.btcStaking pk := by
    rw [Jailed, Jailed, hprov]
  refine ⟨?_, fun hnot h => absurd (hj.mp h) hnot⟩
  intro h
  exact ⟨hj.mpr h, by rw [jailedUntil, hrec h, jailedUntil]⟩

/-- The end of a block keeps and sets jailing periods. -/
theorem endBlocker_keepsPeriods (hkeyed : w.btcStaking.ProvidersKeyed)
    (h : endBlocker ext env w = .ok w') : KeepsPeriods env pk w w' := by
  have hsame : SameRecord pk w w' → KeepsPeriods env pk w w' :=
    fun hsame => .of_eq hsame.provider fun _ => hsame.tracker
  rcases endBlocker_record hkeyed h pk with ⟨-, hkept⟩ | ⟨_, -, -, hexm⟩
  · exact hsame hkept
  · by_cases hen : Enabled w.btcStaking pk
    · obtain ⟨info, -, ⟨-, -, hrec⟩ | ⟨-, hprov, -⟩⟩ := hexm.enabled hen
      · exact ⟨fun hj => absurd hen hj.not_enabled,
          fun _ _ => congrArg (fun r => r.info.map (·.jailedUntil)) hrec⟩
      · exact .of_eq hprov fun hj => absurd hen hj.not_enabled
    · exact hsame (hexm.disabled hen)

/-- A proposal that promotes no jailed provider keeps and sets jailing periods. -/
theorem handleResumeFinalityProposal_keepsPeriods {names : List HexString} {haltingHeight : Nat}
    (hkeyed : w.btcStaking.ProvidersKeyed) (hwf : w.finality.CachesWellFormed)
    (hpromotes : ∀ height dc, haltingHeight ≤ height → height ≤ env.header.height →
      w.finality.getVotingPowerDistCache height = some dc →
      ∀ fp ∈ (rewriteCache names dc).findNewActiveFinalityProviders dc,
        ¬Jailed w'.btcStaking fp.btcPk)
    (h : handleResumeFinalityProposal ext env w names haltingHeight = .ok w') :
    KeepsPeriods env pk w w' := by
  obtain ⟨v, hjails, hrst, hbs⟩ := handleResumeFinalityProposal_record hkeyed hwf h pk
  have hkept : Jailed w'.btcStaking pk → w'.finality.finalityProviderSigningTracker.get pk
      = v.finality.finalityProviderSigningTracker.get pk := by
    intro hj
    refine congrArg MissedRecord.info (hrst.resolve_right ?_)
    rintro ⟨⟨height, hle, hge, dc, hdc, fp, hfp, rfl⟩, -⟩
    exact hpromotes height dc hle hge hdc fp hfp hj
  rcases hjails with hsame | ⟨hnot, -, info, hrec, huntil, -⟩
  · have hprov : w'.btcStaking.finalityProviders.get pk = w.btcStaking.finalityProviders.get pk :=
      hbs ▸ hsame.provider
    refine .of_eq hprov fun hj => (hkept ?_).trans hsame.tracker
    rwa [Jailed, hprov]
  · refine ⟨fun hj => absurd hj hnot, fun _ hj => ?_⟩
    have hinfo : v.finality.finalityProviderSigningTracker.get pk = some info :=
      congrArg MissedRecord.info hrec
    rw [jailedUntil, hkept hj, hinfo, Option.map_some, huntil]

/-- Unjailing is refused until the period is over. -/
theorem unjailFinalityProvider_after {req : MsgUnjailFinalityProvider}
    (huntil : w.finality.jailedUntil req.fpBtcPk = some endTime)
    (h : unjailFinalityProvider env w req = .ok w') : endTime < env.header.time := by
  simp only [unjailFinalityProvider, FinalityProviderSigningInfo.isJailingPeriodPassed, ok_iff] at h
  obtain ⟨_, -, _, -, _, -, info, hinfo, _, ⟨_, -, rfl⟩, _, hpass, -⟩ := h
  rw [jailedUntil, hinfo, Option.map_some] at huntil
  cases huntil
  exact of_decide_eq_true hpass

end Finality

variable {I : Type} {cfg : Config I} {c : Chain I} {pk : BIP340PubKey}

/-! ## Over whole runs -/

/-- The time of a block is not before that of the last one. -/
def TimeNeverDecreases (c : Chain I) : Label I → Prop
  | .beginBlock header => c.header.time ≤ header.time
  | _ => True

instance (c : Chain I) (l : Label I) : Decidable (TimeNeverDecreases c l) :=
  match l with
  | .beginBlock header => inferInstanceAs (Decidable (c.header.time ≤ header.time))
  | .deliver _ | .insertHeaders _ | .updateOthers _ | .updateExternal _ | .endBlock =>
    .isTrue trivial

/-- The step makes no provider active that is jailed: neither in the cache of a new block nor
in a cache that a proposal rewrites. -/
def ActivatesNoJailed (cfg : Config I) (c : Chain I) : Label I → Prop
  | .beginBlock header => ∀ w dc, c.Begins cfg header w →
      w.finality.votingPowerDistCache.get header.height = some dc →
      ∀ fp ∈ dc.findNewActiveFinalityProviders (previousCache (c.beginEnv cfg header)
        c.finality), ¬Jailed c.btcStaking fp.btcPk
  | .deliver (.resumeFinalityProposal req) => ∀ w,
      resumeFinalityProposal cfg.ext (c.env cfg) c.toStores req = .ok w →
      ∀ height dc, req.haltingHeight ≤ height → height ≤ c.header.height →
        c.finality.getVotingPowerDistCache height = some dc →
        ∀ fp ∈ (rewriteCache req.fpPksHex dc).findNewActiveFinalityProviders dc,
          ¬Jailed w.btcStaking fp.btcPk
  | _ => True

/-- The step jails the provider: for missed blocks at the end of a block, or by a proposal. -/
def JailsProvider (cfg : Config I) (pk : BIP340PubKey) (c : Chain I) (l : Label I) : Prop :=
  (l = .endBlock ∨ ∃ req, l = .deliver (.resumeFinalityProposal req)) ∧
    ¬Jailed c.btcStaking pk ∧
    ∃ c', (chain cfg).step c l = some c' ∧ Jailed c'.btcStaking pk

variable {w : Stores I}

/-- Of all messages, only a proposal writes the records of providers. -/
theorem Chain.handle_records {env : Finality.Env} {w' : Stores I} {msg : Msg}
    (h : Chain.handle cfg env w msg = .ok w') :
    (w'.finality.finalityProviderSigningTracker = w.finality.finalityProviderSigningTracker ∧
        w'.finality.finalityProviderMissedBlockBitmap
          = w.finality.finalityProviderMissedBlockBitmap) ∨
      ∃ req, msg = .resumeFinalityProposal req := by
  rcases Chain.handle_frame h with ⟨_, _, _, _, _, _, hfin, -⟩ | ⟨req, rfl, -⟩
  · rw [hfin]
    exact .inl ⟨rfl, rfl⟩
  · exact .inr ⟨req, rfl⟩

/-- The periods after an accepted proposal and after the beginning of a block. -/
theorem keepsPeriods_of_resume (hpow : PowerInv c) {req : MsgResumeFinalityProposal}
    (hal : ActivatesNoJailed cfg c (.deliver (.resumeFinalityProposal req)))
    (h : resumeFinalityProposal cfg.ext (c.env cfg) c.toStores req = .ok w) :
    KeepsPeriods (c.env cfg) pk c.toStores w :=
  handleResumeFinalityProposal_keepsPeriods hpow.keyed hpow.caches (hal w h)
    (resumeFinalityProposal_ok h)

theorem keepsPeriods_of_beginBlock {header : HeaderInfo}
    (hal : ActivatesNoJailed cfg c (.beginBlock header))
    (h : c.Begins cfg header w) : KeepsPeriods (c.env cfg) pk c.toStores w := by
  refine .of_eq (by rw [Chain.updatePowerDist_providers h]) ?_
  intro hj
  obtain ⟨dc, hdc, hrst⟩ := updatePowerDist_restarts h pk
  refine congrArg MissedRecord.info (hrst.resolve_right ?_)
  rintro ⟨⟨fp, hfp, rfl⟩, -⟩
  exact hal w dc h hdc fp hfp hj

/-- The provider is in a jailing period, or the period is over. -/
def PeriodInv (pk : BIP340PubKey) (endTime : Time) (c : Chain I) : Prop :=
  Jailed c.btcStaking pk ∧ c.finality.jailedUntil pk = some endTime ∨
    endTime < c.header.time

theorem PeriodInv.of_keepsPeriods {header : HeaderInfo} {inBlock : Bool}
    (inv : PeriodInv pk endTime c) (htime : c.header.time ≤ header.time)
    (h : KeepsPeriods (c.env cfg) pk c.toStores w) :
    PeriodInv pk endTime { c with toStores := w, header, inBlock } := by
  refine inv.imp ?_ fun hover => lt_of_lt_of_le hover htime
  rintro ⟨hj, huntil⟩
  obtain ⟨hj', hkept⟩ := h.kept hj
  exact ⟨hj', hkept.trans huntil⟩

theorem PeriodInv.message (inv : PeriodInv pk endTime c) (hpow : PowerInv c) {msg : Msg}
    (hal : ActivatesNoJailed cfg c (.deliver msg)) (h : c.Handles cfg msg w) :
    PeriodInv pk endTime { c with toStores := w } := by
  rcases Chain.handle_records h with ⟨hrec, -⟩ | ⟨req, rfl⟩
  · rcases inv with ⟨⟨fp, hfp, hj⟩, huntil⟩ | hover
    · have hflag : BTCStaking.KeepsJailed pk c.btcStaking w.btcStaking ∨
          Unjails cfg pk c (.deliver msg) := handle_keepsJailed hpow.keyed h
      rcases hflag with hkeeps | ⟨req, w', -, rfl, hunjail⟩
      · refine .inl ⟨hkeeps fp hfp hj, ?_⟩
        rw [Finality.State.jailedUntil, hrec]
        exact huntil
      · exact .inr (unjailFinalityProvider_after huntil hunjail)
    · exact .inr hover
  · exact inv.of_keepsPeriods le_rfl (keepsPeriods_of_resume hpow hal h)

variable {l : Label I}

theorem PeriodInv.step {c' : Chain I} (inv : PeriodInv pk endTime c) (hpow : PowerInv c)
    (htime : TimeNeverDecreases c l) (hal : ActivatesNoJailed cfg c l)
    (hstep : (chain cfg).step c l = some c') : PeriodInv pk endTime c' := by
  cases Chain.stepped hstep with
  | beginBlock _ _ hw =>
    exact inv.of_keepsPeriods htime (keepsPeriods_of_beginBlock hal hw)
  | message _ hw => exact inv.message hpow hal hw
  | rejected | headers | others | external => exact inv
  | endBlock _ hw => exact inv.of_keepsPeriods le_rfl (endBlocker_keepsPeriods hpow.keyed hw)

/-- The step that jails a provider starts its jailing period. -/
theorem JailsProvider.starts {c' : Chain I} (hpow : PowerInv c) (hal : ActivatesNoJailed cfg c l)
    (h : JailsProvider cfg pk c l) (hstep : (chain cfg).step c l = some c') :
    PeriodInv pk (c.header.time + c.finality.params.jailDuration) c' := by
  obtain ⟨hlab, hnot, c'', hstep', hj⟩ := h
  rw [hstep] at hstep'
  cases hstep'
  refine .inl ⟨hj, ?_⟩
  cases Chain.stepped hstep with
  | beginBlock | headers | others | external =>
    rcases hlab with hlab | ⟨_, hlab⟩ <;> cases hlab
  | message _ hw =>
    rcases hlab with hlab | ⟨req, hlab⟩
    · cases hlab
    · cases hlab
      exact (keepsPeriods_of_resume hpow hal hw).jails hnot hj
  | rejected => exact absurd hj hnot
  | endBlock _ hw => exact (endBlocker_keepsPeriods hpow.keyed hw).jails hnot hj

/-- If no step makes a jailed provider active, a provider that is jailed at a block time is not
unjailed before the jail duration that was in force then has passed. -/
theorem unjailed_after_jail_duration {history : History I} (run : Run (chain cfg) history c)
    (hsteps : Steps (fun c l => TimeNeverDecreases c l ∧ ActivatesNoJailed cfg c l) history)
    {past : Chain I × Label I} (hpast : past ∈ history)
    (hjails : JailsProvider cfg pk past.1 past.2) (hunjails : Unjails cfg pk c l) :
    past.1.header.time + past.1.finality.params.jailDuration < c.header.time := by
  obtain ⟨earlier, hrun, -, -⟩ := run.of_mem hpast
  have hinv : PeriodInv pk (past.1.header.time + past.1.finality.params.jailDuration) c := by
    refine run.established _ hsteps hpast ?_ ?_
    · intro c' hstep
      exact hjails.starts (PowerInv.of_run hrun) (hsteps past hpast).2 hstep
    · intro history c l c' run hallowed hc hstep
      exact hc.step (PowerInv.of_run run) hallowed.1 hallowed.2 hstep
  obtain ⟨req, w, -, rfl, hunjail⟩ := hunjails
  rcases hinv with ⟨-, huntil⟩ | hover
  · exact unjailFinalityProvider_after huntil hunjail
  · exact hover

/-! ## Two runs -/

/-- Without proposals and while the BTC tip does not move down, no jailed provider is made
active: the cache of a new block has the flags of the store. -/
theorem ActivatesNoJailed.of_noResume (inv : StatusInv c) (hpow : PowerInv c) {c' : Chain I}
    (hno : l.noResume = true) (hstep : (chain cfg).step c l = some c') :
    ActivatesNoJailed cfg c l := by
  cases l with
  | beginBlock header =>
    obtain ⟨_, hin, hht, -⟩ := Chain.step_beginBlock hstep
    intro w dc hw hdc fp hfp hj
    obtain ⟨stored, hsto, hflag⟩ := hj
    obtain ⟨dc', hrec⟩ := hpow.records hw
    obtain rfl : dc' = dc := by
      rw [hrec.caches, get_set_self] at hdc
      exact Option.some.inj hdc
    have hact : fp ∈ dc'.getActiveFinalityProviderSet := mem_of_mem_filter
      ((perm_insertionSort _ _).mem_iff.mp hfp)
    have hpowerless := inv.no_power hpow hht hw hsto (.inr hflag)
    rw [hrec.getVotingPower_active hact] at hpowerless
    exact ((FinalityProviderDistInfo.eligible_iff fp).mp
      (hrec.wellFormed.eligible fp hact)).1 hpowerless
  | deliver msg => cases msg <;> trivial
  | _ => trivial

theorem activatesNoJailed_of_run {history : History I} (run : Run (chain cfg) history c)
    (hsteps : Steps
      (fun c l => TipNeverDecreases c l ∧ l.noResume = true ∧ TimeNeverDecreases c l) history) :
    Steps (fun c l => TimeNeverDecreases c l ∧ ActivatesNoJailed cfg c l) history := by
  intro past hpast
  obtain ⟨earlier, hrun, hsub, _, hstep⟩ := run.of_mem hpast
  have htip : Steps TipNeverDecreases earlier := fun p hp => (hsteps p (hsub hp)).1
  exact ⟨(hsteps past hpast).2.2, .of_noResume (StatusInv.of_run hrun htip)
    (PowerInv.of_run hrun) (hsteps past hpast).2.1 hstep⟩

def timedHeader (height : Nat) (time : Time) : HeaderInfo := { Devnet.header height with time }

/-- A block at some time. -/
def timedBlock (height : Nat) (time : Time) (messages : List (Label Unit)) : List (Label Unit) :=
  .beginBlock (timedHeader height time) :: messages ++ [.endBlock]

/-- The message with which the provider unjails itself. -/
def unjail (pk : BIP340PubKey) : Label Unit := .deliver (.unjailFinalityProvider ⟨pk.val, pk⟩)

/-- The provider with key 0 misses all blocks.  It is jailed at the end of block 6 for 100
units of time, and unjails itself in block 7. -/
theorem unjailed_after_missed_blocks :
    ∃ (past : Chain Unit × Label Unit) (c : Chain Unit) (l : Label Unit),
      JailsProvider config 0 past.1 past.2 ∧ Unjails config 0 c l ∧
      past.1.header.time + past.1.finality.params.jailDuration < c.header.time := by
  obtain ⟨history, c₀, run, hsteps, hbefore, c₁, hend, hafter, htime, c, hbegin, w, hw⟩ :=
    of_labels
      (Q := fun c l => TipNeverDecreases c l ∧ l.noResume = true ∧ TimeNeverDecreases c l)
      (P := fun c₀ => ¬ Jailed c₀.btcStaking 0 ∧
        ∃ c₁, (chain config).step c₀ .endBlock = some c₁ ∧
          Jailed c₁.btcStaking 0 ∧ c₁.header.time ≤ 200 ∧
        ∃ c, (chain config).step c₁ (.beginBlock (timedHeader 7 200)) = some c ∧
        ∃ w, unjailFinalityProvider (c.env config) c.toStores ⟨0, 0⟩ = .ok w)
      { finalityParams 10 1 1 with signedBlocksWindow := 2, jailDuration := 100 }
      delegationLightClient
      (delegationBlock ++ timedBlock 2 10 [] ++ timedBlock 3 10 [] ++ timedBlock 4 10 [] ++
        timedBlock 5 10 [] ++ [.beginBlock (timedHeader 6 10)]) (by decide +kernel)
  have hrun := (run.next hend).next hbegin
  have hallowed : Steps
      (fun c l => TipNeverDecreases c l ∧ l.noResume = true ∧ TimeNeverDecreases c l)
      ((c₁, .beginBlock (timedHeader 7 200)) :: (c₀, .endBlock) :: history) :=
    .cons (.cons hsteps ⟨trivial, rfl, trivial⟩) ⟨trivial, rfl, htime⟩
  have hjails : JailsProvider config 0 c₀ .endBlock := ⟨.inl rfl, hbefore, c₁, hend, hafter⟩
  have hunjails : Unjails config 0 c (unjail 0) := ⟨_, w, rfl, rfl, hw⟩
  refine ⟨(c₀, .endBlock), c, unjail 0, hjails, hunjails, ?_⟩
  exact unjailed_after_jail_duration hrun (activatesNoJailed_of_run hrun hallowed)
    (mem_cons_of_mem _ mem_cons_self) hjails hunjails

/-- A proposal that names one provider. -/
def resumeWithout (pk : BIP340PubKey) (haltingHeight : Nat) : Label Unit :=
  .deliver (.resumeFinalityProposal ⟨0, [pk.marshalHex], haltingHeight⟩)

/-- One provider can be active: key 1 at height 2, and key 0, which has more sats, from height 3
on.  In block 4 a proposal jails key 1 for 100 units of time.  Another proposal names key 0 and
promotes key 1 in the cache of height 3, which ends the jailing period: key 1 can be unjailed in
the same block. -/
theorem unjailed_early_after_promotion :
    ∃ history past c l, Run (chain config) history c ∧
      Steps (fun c l => TipNeverDecreases c l ∧ TimeNeverDecreases c l) history ∧
      past ∈ history ∧ JailsProvider config 1 past.1 past.2 ∧
      Unjails config 1 c l ∧
      c.header.time < past.1.header.time + past.1.finality.params.jailDuration := by
  obtain ⟨history, c₀, run, hsteps, hbefore, c₁, hfirst, hafter, c, hsecond, hearly, w, hw⟩ :=
    of_labels (Q := fun c l => TipNeverDecreases c l ∧ TimeNeverDecreases c l)
      (P := fun c₀ => ¬ Jailed c₀.btcStaking 1 ∧
        ∃ c₁, (chain config).step c₀ (resumeWithout 1 4) = some c₁ ∧
          Jailed c₁.btcStaking 1 ∧
        ∃ c, (chain config).step c₁ (resumeWithout 0 3) = some c ∧
          c.header.time < c₀.header.time + c₀.finality.params.jailDuration ∧
        ∃ w, unjailFinalityProvider (c.env config) c.toStores ⟨1, 1⟩ = .ok w)
      { finalityParams 1 3 1 with jailDuration := 100 } twoProvidersLightClient
      (timedBlock 1 10 (registerFp 0 ++ registerFp 1 ++
          delegate 1 (stakingTx 2 50) 50) ++
        timedBlock 2 10 (delegate 0 (stakingTx 1 100) 100) ++
        timedBlock 3 10 [] ++ [.beginBlock (timedHeader 4 10)]) (by decide +kernel)
  refine ⟨_, (c₀, resumeWithout 1 4), c, unjail 1, (run.next hfirst).next hsecond, ?_,
    mem_cons_of_mem _ mem_cons_self, ⟨.inr ⟨_, rfl⟩, hbefore, c₁, hfirst, hafter⟩,
    ⟨_, w, rfl, rfl, hw⟩, hearly⟩
  exact .cons (.cons hsteps ⟨trivial, trivial⟩) ⟨trivial, trivial⟩

end Babylon
