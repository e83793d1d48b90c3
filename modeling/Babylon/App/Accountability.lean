/-
  Accountable safety.

  Every accepted vote was verified against the one commitment that covers its
  height, so evidence with two signatures reveals the private key of its provider.
  A provider that signs both the indexed block and a fork is slashed in whichever
  order the votes come, so two quorums at one height cost a third of its power.
-/
import Babylon.App.InOrderFinality
import Babylon.Finality.Votes

set_option autoImplicit false

namespace Babylon

open Lib Finality Devnet Chain Finality.State Option

variable {I : Type} {cfg : Config I} {c : Chain I}

/-- The invariant of votes and evidence. -/
structure VoteInv (cfg : Config I) (c : Chain I) : Prop where
  block_le : ∀ height block, c.finality.blocks.get height = some block → height ≤ c.header.height
  commits : c.finality.CommitsIndexed
  sound : c.finality.VotesSound cfg.fprim
  slashed : c.toStores.EquivocatorsSlashed

variable {c' : Chain I}

section

variable (inv : VoteInv cfg c) (hevo : BTCStaking.ProvidersEvolve c.btcStaking c'.btcStaking)
  (hvotes : c'.finality.votes = c.finality.votes) (hev : c'.finality.evidence = c.finality.evidence)

include inv hevo hvotes hev

/-- Steps that add no votes and no evidence, and lose nothing they refer to. -/
theorem VoteInv.of_remembers
    (hrem : c.finality.Remembers c'.finality)
    (hle : ∀ height block, c'.finality.blocks.get height = some block →
      height ≤ c'.header.height) (hcoms : c'.finality.CommitsIndexed) : VoteInv cfg c' where
  block_le := hle
  commits := hcoms
  sound := inv.sound.of_remembers hrem hvotes hev
  slashed := by
    intro height pk sig e hvote hsto
    rw [hvotes] at hvote
    rw [hev] at hsto
    exact isSlashed_of_evolve hevo (inv.slashed height pk sig e hvote hsto)

/-- Steps that write only tables, caches, signing records and parameters. -/
theorem VoteInv.of_eq
    (hle : c.header.height ≤ c'.header.height) (hblks : c'.finality.blocks = c.finality.blocks)
    (hcoms : c'.finality.pubRandCommit = c.finality.pubRandCommit)
    (hidx : c'.finality.pubRandCommitIndex = c.finality.pubRandCommitIndex) : VoteInv cfg c' := by
  refine inv.of_remembers hevo hvotes hev (.of_eq hblks hcoms hidx) ?_ ?_
  · rw [hblks]
    exact fun height block hblk => (inv.block_le height block hblk).trans hle
  · unfold CommitsIndexed
    rw [hcoms, hidx]
    exact inv.commits

end

variable {w : Stores I}

section

variable (inv : VoteInv cfg c) (hkeyed : c.btcStaking.ProvidersKeyed)

include inv hkeyed

theorem VoteInv.message (hpos : 0 < c.header.height) {msg : Msg} (h : c.Handles cfg msg w) :
    VoteInv cfg { c with toStores := w } := by
  have hevo := (handle_staking h).providersEvolve hkeyed
  rcases handle_finality h with hfin | ⟨req, rfl, hvote⟩ | ⟨req, rfl, hcom⟩ |
    ⟨req, rfl, hpar⟩ | ⟨req, rfl, hrsm⟩
  · exact inv.of_eq hevo (congrArg _ hfin) (congrArg _ hfin) (Nat.le_refl _) (congrArg _ hfin)
      (congrArg _ hfin) (congrArg _ hfin)
  · have hsound := addFinalitySig_votesSound inv.sound hvote
    have hsl := addFinalitySig_equivocators hkeyed hpos
      (inv.block_le req.blockHeight) hevo inv.sound inv.slashed hvote
    obtain ⟨pubRand, votes, evidence, hfin, -⟩ := addFinalitySig_effect hvote
    rcases w with ⟨bs, finality, external⟩
    subst hfin
    exact ⟨inv.block_le, inv.commits, hsound, hsl⟩
  · obtain ⟨-, commit, hacc, hset⟩ := commitPubRandList_ok hcom
    have hixd := inv.commits.setPubRandCommit hset
    have hrem : c.finality.Remembers w.finality := by
      refine ⟨?_, fun pk height commit' => getPubRandCommitForHeight_setPubRandCommit
        inv.commits hacc hset⟩
      rw [(setPubRandCommit_ok hset).2]
      exact fun height block hblk => ⟨block, hblk, rfl⟩
    have hfin := (setPubRandCommit_ok hset).2
    rcases w with ⟨bs, finality, external⟩
    subst hfin
    exact inv.of_remembers hevo rfl rfl hrem inv.block_le hixd
  · obtain ⟨-, rfl⟩ := updateParams_stores_ok hpar
    exact inv.of_eq hevo rfl rfl (Nat.le_refl _) rfl rfl rfl
  · obtain ⟨⟨_, _, _, _, hfin⟩, -⟩ := handleResumeFinalityProposal_effect hrsm
    rcases w with ⟨bs, finality, external⟩
    subst hfin
    exact inv.of_eq hevo rfl rfl (Nat.le_refl _) rfl rfl rfl

theorem VoteInv.beginBlock
    {header : HeaderInfo} (hht : header.height = c.header.height + 1)
    (h : c.Begins cfg header w) :
    VoteInv cfg { c with toStores := w, header, inBlock := true } := by
  have hprov := updatePowerDist_providers h
  obtain ⟨⟨_, _, _, _, hfin⟩, -, -⟩ := updatePowerDist_power h
  rcases w with ⟨bs, finality, external⟩
  subst hfin
  exact inv.of_eq (.of_eq hkeyed hprov) rfl rfl (by show _ ≤ header.height; omega) rfl rfl rfl

theorem VoteInv.endBlock (hfinal : FinalizationInv c) (h : c.Ends cfg w) :
    VoteInv cfg { c with toStores := w, inBlock := false } := by
  have hevo := (changes_of_endBlocker h).providersEvolve hkeyed
  obtain ⟨tallied, htald, ⟨_, _, _, _, hfin, -⟩, -⟩ := endBlocker_effect h
  rcases w with ⟨bs, finality, external⟩
  subst hfin
  rcases htald with ⟨-, rfl⟩ | ⟨-, htal⟩
  · exact inv.of_eq hevo rfl rfl (Nat.le_refl _) rfl rfl rfl
  · obtain ⟨passed, htald⟩ := tallyBlocks_tallied hfinal.keyed hfinal.notFinalized htal
    have hkept := htald.kept
    have hknown := htald.known
    obtain ⟨blocks, next, rfl⟩ := htald.tallyOnly
    refine inv.of_remembers hevo rfl rfl ⟨hkept, fun pk height commit hcom => ?_⟩ ?_ inv.commits
    · rw [getPubRandCommitForHeight_ok_iff] at hcom ⊢
      exact hcom
    · intro height block hblk
      rcases hknown height block hblk with ⟨old, hold⟩ | rfl
      · exact inv.block_le height old hold
      · exact Nat.le_refl _

end

variable {history : History I}

theorem VoteInv.of_run (run : Run (chain cfg) history c) : VoteInv cfg c := by
  refine run.historyInvariant (fun _ c => VoteInv cfg c) ?_ ?_ .trivial
  · intro c hgen
    obtain ⟨params, -, hfin⟩ := hgen.finality
    rcases c with ⟨⟨bs, finality, external⟩, header, inBlock, lc, others⟩
    obtain rfl : finality = _ := hfin
    refine ⟨?_, fun _ => rfl, ⟨?_, ?_⟩, ?_⟩
    · rintro _ _ ⟨⟩
    · rintro _ _ _ ⟨⟩
    · rintro _ _ _ ⟨⟩
    · rintro _ _ _ _ ⟨⟩
  · intro history c l c' run inv _ hstep
    have hkeyed := (PowerInv.of_run run).keyed
    cases stepped hstep with
    | beginBlock _ hht hw => exact inv.beginBlock hkeyed hht hw
    | message hin hw => exact inv.message hkeyed (height_pos_of_run run hin) hw
    | rejected | headers | others | external => exact { inv with }
    | endBlock _ hw => exact inv.endBlock hkeyed (FinalizationInv.of_run run) hw

/-! ## Evidence -/

/-- Stored evidence with both signatures reveals the private key of its provider. -/
theorem evidence_extractable (hsecure : cfg.fprim.Secure) {history : History I}
    (run : Run (chain cfg) history c) {pk : BIP340PubKey} {height : Nat} {e : Evidence}
    {sig : EOTS.SchnorrEOTSSig} (hstored : (c.finality.evidence.under pk).get height = some e)
    (hsig : e.canonicalFinalitySig = some sig) :
    ∃ x, e.extractBTCSK cfg.fprim.curve = .ok x ∧
      cfg.fprim.curve.serializePubKey (x • cfg.fprim.curve.base) = e.fpBtcPk :=
  ((VoteInv.of_run run).sound.evidence pk height e hstored).extracts hsecure hsig

theorem finalityPrimitives_secure : finalityPrimitives.Secure where
  merkle_binding := by
    intro _ r₁ r₂ _ _ h₁ h₂ _ _
    exact (of_decide_eq_true h₁).trans (of_decide_eq_true h₂).symm
  hash_injective := fun _ _ h => h
  challenge_injective := by
    intro _ _ d₁ d₂ e h₁ h₂
    have hcast : (EOTS.messageNumber d₁ : ℚ) = EOTS.messageNumber d₂ :=
      (some.inj h₁).trans (some.inj h₂).symm
    exact EOTS.messageNumber_injective (Nat.cast_injective hcast)

/-- A hash of a block that no network has seen. -/
def forkHash : Bytes := 1 :: List.replicate 31 0

/-- The provider with key 0 votes for the indexed block of height 2, and then for a fork. -/
def equivocation : List (Label Unit) :=
  votedBlocks ++ block 4 [vote 2 forkHash]

/-- The evidence of this equivocation reveals the private key. -/
theorem evidence_extractable_after_equivocation :
    ∃ (c : Chain Unit) (e : Evidence) (x : config.fprim.curve.Scalar),
      (c.finality.evidence.under 0).get 2 = some e ∧
      e.extractBTCSK config.fprim.curve = .ok x ∧
      config.fprim.curve.serializePubKey (x • config.fprim.curve.base)
        = e.fpBtcPk := by
  obtain ⟨history, c, run, e, hstored, hcanonical⟩ := reaching
    (P := fun c => ∃ e, (c.finality.evidence.under 0).get 2 = some e ∧
      e.canonicalFinalitySig.isSome = true)
    (finalityParams 10 3 1) delegationLightClient equivocation (by decide +kernel)
  obtain ⟨sig, hsig⟩ := isSome_iff_exists.mp hcanonical
  obtain ⟨x, hx, hkey⟩ := evidence_extractable finalityPrimitives_secure run hstored hsig
  exact ⟨c, e, x, hstored, hx, hkey⟩

/-! ## Quorums -/

/-- A vote of the provider for a fork at this height was accepted in the run. -/
def ForkVoted (cfg : Config I) (history : History I) (height : Nat) (pk : BIP340PubKey) : Prop :=
  ∃ past req block w, (past, Label.deliver (.addFinalitySig req)) ∈ history ∧
    req.fpBtcPk = pk ∧ req.blockHeight = height ∧
    past.finality.blocks.get height = some block ∧ block.appHash ≠ req.blockAppHash ∧
    Finality.addFinalitySig cfg.fprim (past.env cfg) past.toStores req = .ok w

/-- An accepted proposal to resume finality does not rewrite the table of the height. -/
def KeepsTable (cfg : Config I) (height : Nat) (c : Chain I) : Label I → Prop
  | .deliver (.resumeFinalityProposal req) =>
    ∀ w, resumeFinalityProposal cfg.ext (c.env cfg) c.toStores req = .ok w →
      w.finality.votingPower.get height = c.finality.votingPower.get height
  | _ => True

/-- A finalized height has a table, and votes of more than two thirds of it. -/
def QuorumInv (height : Nat) (c : Chain I) : Prop :=
  ∀ block, c.finality.blocks.get height = some block → block.finalized = true →
    ∃ table, c.finality.getVotingPowerTable height = some table ∧
      tally table (c.finality.getVoters height) = true

variable {pk : BIP340PubKey}

section Quorum

variable {height : Nat}

theorem QuorumInv.of_kept (inv : QuorumInv height c)
    (hblks : c'.finality.blocks.get height = c.finality.blocks.get height)
    (htab : c'.finality.votingPower.get height = c.finality.votingPower.get height)
    (hvoters : ∀ pk ∈ c.finality.getVoters height, pk ∈ c'.finality.getVoters height) :
    QuorumInv height c' := by
  intro block hblk hfnl
  obtain ⟨table, hget, htal⟩ := inv block (hblks ▸ hblk) hfnl
  exact ⟨table, htab.trans hget, tally_mono hvoters htal⟩

theorem QuorumInv.message (inv : QuorumInv height c) {msg : Msg}
    (hkeeps : KeepsTable cfg height c (.deliver msg)) (h : c.Handles cfg msg w) :
    QuorumInv height { c with toStores := w } := by
  refine inv.of_kept (congrArg (·.get height) (handle_blocks h).1) ?_ ?_
  · rcases handle_tables h with ⟨hpower, -⟩ | ⟨req, rfl, -⟩
    · exact congrArg (·.get height) hpower
    · exact hkeeps w h
  · rcases handle_votes h with ⟨hvotes, -⟩ | ⟨req, -, hvote⟩
    · intro pk hpk
      show pk ∈ (w.finality.votes.under height).keys
      rwa [hvotes]
    · exact fun pk => addFinalitySig_voters hvote

theorem QuorumInv.endBlock (hc : FinalizationInv c) (inv : QuorumInv height c)
    (h : c.Ends cfg w) : QuorumInv height { c with toStores := w, inBlock := false } := by
  obtain ⟨tallied, htald, ⟨_, _, _, _, hfin, -⟩, -⟩ := endBlocker_effect h
  rcases w with ⟨bs, finality, external⟩
  subst hfin
  rcases htald with ⟨-, rfl⟩ | ⟨-, htal⟩
  · exact inv
  · obtain ⟨passed, htald⟩ := tallyBlocks_tallied hc.keyed hc.notFinalized htal
    have hfz := (htald.finalized height).mp
    obtain ⟨blocks, next, rfl⟩ := htald.tallyOnly
    intro block hblk hfnl
    rcases hfz ((any_eq_true _ _).mpr ⟨block, hblk, hfnl⟩) with hold | ⟨hmem, htab⟩
    · obtain ⟨old, hold, hfinal⟩ := (any_eq_true _ _).mp hold
      exact inv old hold hfinal
    · obtain ⟨table, hget⟩ := isSome_iff_exists.mp htab
      have hpasses := (htald.inRange height hmem).2.2
      simp only [passes, getVotingPowerTable, hget] at hpasses
      exact ⟨table, hget, hpasses⟩

theorem QuorumInv.beginBlock (hc : VoteInv cfg c) (inv : QuorumInv height c) {header : HeaderInfo}
    (hht : header.height = c.header.height + 1) (h : c.Begins cfg header w) :
    QuorumInv height { c with toStores := w, header, inBlock := true } := by
  obtain ⟨⟨_, _, _, _, hfin⟩, hpow, -⟩ := updatePowerDist_power h
  intro block hblk hfnl
  rcases w with ⟨bs, finality, external⟩
  subst hfin
  -- the table that is written belongs to a height without block
  have hle : height ≤ c.header.height := hc.block_le height block hblk
  have hne : height ≠ header.height := by omega
  obtain ⟨table, htab, htal⟩ := inv block hblk hfnl
  exact ⟨table, (hpow height hne).trans htab, htal⟩

theorem QuorumInv.of_run (run : Run (chain cfg) history c)
    (hsteps : Steps (KeepsTable cfg height) history) : QuorumInv height c := by
  refine run.historyInvariant (fun _ c => QuorumInv height c) ?_ ?_ hsteps
  · intro c hgen block hblk
    obtain ⟨params, -, hfin⟩ := hgen.finality
    rw [hfin] at hblk
    cases hblk
  · intro history c l c' run inv hkeeps hstep
    cases stepped hstep with
    | beginBlock _ hht hw => exact inv.beginBlock (VoteInv.of_run run) hht hw
    | message _ hw => exact inv.message hkeeps hw
    | rejected | headers | others | external => exact inv
    | endBlock _ hw => exact inv.endBlock (FinalizationInv.of_run run) hw

/-- Evidence is stored for the provider at this height. -/
def HasEvidence (height : Nat) (pk : BIP340PubKey) (c : Chain I) : Prop :=
  ∃ e, (c.finality.evidence.under pk).get height = some e

theorem HasEvidence.of_eq (h : HasEvidence height pk c)
    (heq : c'.finality.evidence = c.finality.evidence) : HasEvidence height pk c' := by
  obtain ⟨e, he⟩ := h
  exact ⟨e, heq ▸ he⟩

theorem HasEvidence.addFinalitySig (hc : HasEvidence height pk c) {req : MsgAddFinalitySig}
    (h : Finality.addFinalitySig cfg.fprim (c.env cfg) c.toStores req = .ok w) :
    HasEvidence height pk { c with toStores := w } := by
  obtain ⟨e, he⟩ := hc
  have hset : ∀ (new : Evidence), ∃ e', ((c.finality.evidence.setUnder new.fpBtcPk
      new.blockHeight new).under pk).get height = some e' := by
    intro new
    rw [KVStore.get_under_setUnder]
    split
    · exact ⟨new, rfl⟩
    · exact ⟨e, he⟩
  show ∃ e', (w.finality.evidence.under pk).get height = some e'
  obtain ⟨_, _, _, -, ⟨-, hadd⟩ | ⟨-, hadd⟩⟩ := addFinalitySig_ok h
  · rw [(addForkVote_ok hadd).1]
    exact hset _
  · obtain ⟨_, -, ⟨-, -, hfin⟩ | ⟨_, -, -, hfin⟩⟩ := addCanonicalVote_ok hadd
    · rw [hfin]
      exact ⟨e, he⟩
    · rw [hfin]
      exact hset _

/-- Evidence is never removed. -/
theorem HasEvidence.step {l : Label I} (hc : HasEvidence height pk c)
    (h : (chain cfg).step c l = some c') :
    HasEvidence height pk c' := by
  cases stepped h with
  | beginBlock _ _ hw =>
    obtain ⟨⟨_, _, _, _, hfin⟩, -, -⟩ := updatePowerDist_power hw
    exact hc.of_eq (by rw [hfin]; rfl)
  | message _ hw =>
    rcases handle_votes hw with ⟨-, hev⟩ | ⟨req, -, hvote⟩
    · exact hc.of_eq hev
    · exact hc.addFinalitySig hvote
  | rejected | headers | others | external => exact hc
  | endBlock _ hw => exact hc.of_eq (endBlocker_keeps hw).2.2.2

/-- An accepted vote for a fork leaves evidence forever. -/
theorem ForkVoted.hasEvidence (run : Run (chain cfg) history c)
    (h : ForkVoted cfg history height pk) :
    HasEvidence height pk c := by
  obtain ⟨past, req, block, w, hpast, rfl, rfl, hblk, hfork, hacc⟩ := h
  refine run.established _ Steps.trivial hpast ?_ fun _ _ _ _ _ _ hc hstep => hc.step hstep
  intro t hstep
  replace hstep : (if past.inBlock then some (past.deliver cfg (.addFinalitySig req)) else none)
    = some t := hstep
  split at hstep
  case isFalse => cases hstep
  case isTrue =>
    obtain rfl : { past with toStores := w } = t := by
      simpa only [deliver, handle, hacc, some.injEq] using hstep
    obtain ⟨block', _, _, hchecked, ⟨-, hadd⟩ | ⟨hsame, -⟩⟩ := addFinalitySig_ok hacc
    · refine ⟨forkEvidence req block' ((withPubRand past.toStores req).finality.getSig
        (past.env cfg) req.blockHeight req.fpBtcPk), ?_⟩
      rw [(addForkVote_ok hadd).1]
      exact (KVStore.get_under_setUnder _ _ _ _ _ _).trans (if_pos ⟨rfl, rfl⟩)
    · obtain rfl : block' = block := some.inj (hchecked.indexed.symm.trans hblk)
      exact absurd hsame hfork

/-- Accountable safety: if a height is finalized, and providers with more than two thirds of
its table had votes for forks accepted, then providers with more than one third are slashed. -/
theorem accountable_safety {history : History I} (run : Run (chain cfg) history c)
    (hsteps : Steps (KeepsTable cfg height) history) {block : IndexedBlock}
    {table : KVStore BIP340PubKey Nat} {forkers : List BIP340PubKey}
    (hblock : c.finality.blocks.get height = some block) (hfinal : block.finalized = true)
    (htable : c.finality.getVotingPowerTable height = some table)
    (hforked : ∀ pk ∈ forkers, ForkVoted cfg history height pk)
    (hquorum : table.sumBy (fun _ power => power) * 2 <
      table.sumBy (fun pk power => if pk ∈ forkers then power else 0) * 3) :
    table.sumBy (fun _ power => power) < table.sumBy (fun pk power =>
      if isSlashed c.btcStaking pk = true then power else 0) * 3 := by
  obtain ⟨table', htable', htally⟩ := QuorumInv.of_run run hsteps block hblock hfinal
  obtain rfl : table' = table := some.inj (htable'.symm.trans htable)
  refine KVStore.third_of_two_quorums ?_ (of_decide_eq_true htally) hquorum
  intro pk hvoter hforker
  obtain ⟨sig, hsig⟩ := KVStore.mem_keys.mp hvoter
  obtain ⟨e, he⟩ := (hforked pk hforker).hasEvidence run
  exact (VoteInv.of_run run).slashed height pk sig e hsig he

end Quorum

theorem keepsTable_of_noResume {height : Nat} {l : Label I} (h : l.noResume = true) :
    KeepsTable cfg height c l := by
  cases l with
  | deliver msg => cases msg <;> trivial
  | _ => trivial

/-- The vote of the provider with key 0 for a fork of height 2. -/
def forkVote : MsgAddFinalitySig := voteMsg 2 forkHash

/-- The only provider finalizes height 2 and then votes for a fork: all of its power is
slashed. -/
theorem accountable_safety_after_equivocation :
    ∃ (c : Chain Unit) (table : KVStore BIP340PubKey Nat),
      c.finality.getVotingPowerTable 2 = some table ∧
      table.sumBy (fun _ power => power) < table.sumBy (fun pk power =>
        if isSlashed c.btcStaking pk = true then power else 0) * 3 := by
  obtain ⟨history, c, run, hsteps, hin, before, hbefore, hfork, block, hblock, hfinal, table,
    htable, hquorum, w, hw⟩ := of_labels (Q := fun _ l => l.noResume = true)
    (P := fun c => c.inBlock = true ∧
      ∃ before, c.finality.blocks.get 2 = some before ∧ before.appHash ≠ forkHash ∧
      ∃ block, (c.deliver config (.addFinalitySig forkVote)).finality.blocks.get 2
        = some block ∧ block.finalized = true ∧
      ∃ table, (c.deliver config (.addFinalitySig forkVote)).finality.getVotingPowerTable 2
        = some table ∧ table.sumBy (fun _ power => power) * 2 <
          table.sumBy (fun pk power => if pk ∈ [0] then power else 0) * 3 ∧
      ∃ w, Finality.addFinalitySig config.fprim (c.env config) c.toStores forkVote = .ok w)
    (finalityParams 10 3 1) delegationLightClient
    (votedBlocks ++ [.beginBlock (Devnet.header 4)]) (by decide +kernel)
  have hnext : Run (chain config) ((c, .deliver (.addFinalitySig forkVote)) :: history)
      (c.deliver config (.addFinalitySig forkVote)) := run.next (if_pos hin)
  refine ⟨_, table, htable, accountable_safety hnext ?_ hblock hfinal htable ?_ hquorum⟩
  · intro past hpast
    rcases List.mem_cons.mp hpast with rfl | hpast
    · exact keepsTable_of_noResume rfl
    · exact keepsTable_of_noResume (hsteps past hpast)
  · intro pk hpk
    obtain rfl := List.mem_singleton.mp hpk
    exact ⟨c, forkVote, before, w, List.mem_cons_self, rfl, rfl, hbefore, hfork, hw⟩

end Babylon
