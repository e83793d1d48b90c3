/-
  Votes, evidence and the public randomness behind them.

  The commitment that covers a height of a provider never changes once it exists,
  because commitments are made in increasing order of heights.  So all votes of a
  provider for one height are verified against one commitment, and evidence keeps
  two signatures that were made with one public randomness.
-/
import Babylon.Finality.Tallying

set_option autoImplicit false

namespace Babylon.Finality

open Lib EOTS KVStore State Option List

/-! ## Commitments -/

/-- The index of a provider lists the start heights of its commitments. -/
def State.CommitsIndexed (s : State) : Prop :=
  ∀ pk, (s.pubRandCommit.under pk).keys = ((s.pubRandCommitIndex.get pk).getD []).map UInt64.toNat

variable {s t : State} {pk : BIP340PubKey} {commit : PubRandCommit}

/-- A start height that is accepted is above all earlier ones. -/
theorem State.CommitsIndexed.lt_start (hixd : s.CommitsIndexed)
    (hlast : ∀ last ∈ ((s.pubRandCommitIndex.get pk).getD []).getLast?, last < commit.startHeight) :
    ∀ key ∈ (s.pubRandCommit.under pk).keys, key < commit.startHeight.toNat := by
  intro key hkey
  have hkeys := (s.pubRandCommit.under pk).keys_getLast?
  rw [hixd pk, getLast?_map] at hkeys
  obtain ⟨value, hvalue⟩ := mem_keys.mp hkey
  cases hstore : (s.pubRandCommit.under pk).last? with
  | none =>
    rw [last?_eq_none.mp hstore key] at hvalue
    cases hvalue
  | some entry =>
    rw [hstore, map_some, map_eq_some_iff] at hkeys
    obtain ⟨last, hmem, heq⟩ := hkeys
    calc key ≤ entry.1 := le_last? hstore hvalue
      _ = last.toNat := heq.symm
      _ < commit.startHeight.toNat := UInt64.lt_iff_toNat_lt.mp (hlast last hmem)

theorem State.CommitsIndexed.setPubRandCommit (hixd : s.CommitsIndexed)
    (h : s.setPubRandCommit pk commit = .ok t) : t.CommitsIndexed := by
  obtain ⟨hlast, rfl⟩ := setPubRandCommit_ok h
  intro other
  show ((s.pubRandCommit.setUnder pk _ commit).under other).keys
    = (((s.pubRandCommitIndex.set pk _).get other).getD []).map UInt64.toNat
  rw [under_setUnder, get_set]
  split_ifs with heq
  · rw [keys_set_of_forall_lt (hixd.lt_start hlast), hixd pk]
    simp
  · exact hixd other

/-- The commitment that covers a height stays the same when another one is accepted. -/
theorem getPubRandCommitForHeight_setPubRandCommit {env : Env} {other : BIP340PubKey}
    {new : PubRandCommit} {height : Nat} (hixd : s.CommitsIndexed)
    (hacc : CommitAccepted env s other new) (hset : s.setPubRandCommit other new = .ok t)
    (h : s.getPubRandCommitForHeight pk height = .ok commit) :
    t.getPubRandCommitForHeight pk height = .ok commit := by
  rw [getPubRandCommitForHeight_ok_iff] at h ⊢
  obtain ⟨heights, start, hidx, hstart, hget, hrng⟩ := h
  obtain ⟨hlast, rfl⟩ := setPubRandCommit_ok hset
  by_cases heq : pk = other
  case neg =>
    refine ⟨heights, start, ?_, hstart, ?_, hrng⟩
    · exact (get_set_of_ne _ _ heq).trans hidx
    · show ((s.pubRandCommit.setUnder other _ new).under pk).get _ = _
      rw [under_setUnder, if_neg heq, hget]
  case pos =>
    subst heq
    refine ⟨heights ++ [new.startHeight], start, ?_, ?_, ?_, hrng⟩
    · show (s.pubRandCommitIndex.set pk _).get pk = _
      rw [get_set_self, hidx, getD_some]
    · rw [takeWhile_append]
      split
      case isFalse => exact hstart
      case isTrue hall =>
        -- the covering commitment is the last one, which ends below the new one
        have hwhole : heights.takeWhile (fun h => h.toNat ≤ height) = heights :=
          takeWhile_prefix _ |>.eq_of_length hall
        rw [hwhole] at hstart
        have hkeys := (s.pubRandCommit.under pk).keys_getLast?
        rw [hixd pk, hidx, getD_some, getLast?_map, hstart, map_some,
          eq_comm, map_eq_some_iff] at hkeys
        obtain ⟨⟨key, value⟩, hstore, rfl⟩ := hkeys
        obtain rfl : value = commit := some.inj ((get_of_last? hstore).symm.trans hget)
        have haft : value.endHeight < new.startHeight :=
          hacc.after_last value (by simp [getLastPubRandCommit, hstore])
        have hend : height ≤ value.endHeight.toNat := (of_decide_eq_true hrng).2
        have hlt : ¬ new.startHeight.toNat ≤ height := by
          have := UInt64.lt_iff_toNat_lt.mp haft
          omega
        rw [takeWhile_cons, if_neg (by simpa using hlt), append_nil, hstart]
    · show ((s.pubRandCommit.setUnder pk _ new).under pk).get _ = _
      have hmem : start.toNat ∈ (s.pubRandCommit.under pk).keys := mem_keys.mpr ⟨commit, hget⟩
      have hne := (hixd.lt_start hlast start.toNat hmem).ne
      rw [get_under_setUnder, if_neg fun h => hne h.2, hget]

/-! ## Signatures -/

/-- A signature of the provider over a block of this height was verified against the
commitment that covers the height. -/
def State.Signed (fprim : FinalityPrimitives) (s : State) (pk : BIP340PubKey) (height : Nat)
    (appHash : Bytes) (pubRand : SchnorrPubRand) (sig : SchnorrEOTSSig) : Prop :=
  ∃ commit proof, s.getPubRandCommitForHeight pk height = .ok commit ∧
    verifyFinalitySig fprim ⟨pk, height, pubRand, proof, appHash, sig⟩ commit = .ok ()

/-- Nothing that signatures refer to is lost: indexed blocks keep their hash, and heights
their commitment. -/
structure State.Remembers (s t : State) : Prop where
  block : ∀ height block, s.blocks.get height = some block →
    ∃ block', t.blocks.get height = some block' ∧ block'.appHash = block.appHash
  commit : ∀ pk height commit, s.getPubRandCommitForHeight pk height = .ok commit →
    t.getPubRandCommitForHeight pk height = .ok commit

theorem State.Remembers.of_eq (hblks : t.blocks = s.blocks)
    (hcoms : t.pubRandCommit = s.pubRandCommit)
    (hidx : t.pubRandCommitIndex = s.pubRandCommitIndex) : s.Remembers t where
  block := fun height block hblk => ⟨block, hblks ▸ hblk, rfl⟩
  commit := by
    intro pk height commit h
    rw [getPubRandCommitForHeight_ok_iff] at h ⊢
    rwa [hcoms, hidx]

/-- What a stored vote says. -/
def State.VoteSound (fprim : FinalityPrimitives) (s : State) (pk : BIP340PubKey) (height : Nat)
    (sig : SchnorrEOTSSig) : Prop :=
  ∃ block pubRand, s.blocks.get height = some block ∧ block.appHash.length = 32 ∧
    s.Signed fprim pk height block.appHash pubRand sig

/-- What stored evidence says. -/
structure State.EvidenceSound (fprim : FinalityPrimitives) (s : State) (pk : BIP340PubKey)
    (height : Nat) (e : Evidence) : Prop where
  provider : e.fpBtcPk = pk
  atHeight : e.blockHeight = height
  indexed : ∃ block, s.blocks.get height = some block ∧ block.appHash = e.canonicalAppHash
  differs : e.canonicalAppHash ≠ e.forkAppHash
  length : e.forkAppHash.length = 32
  fork : s.Signed fprim pk height e.forkAppHash e.pubRand e.forkFinalitySig
  canonical : ∀ sig, e.canonicalFinalitySig = some sig → s.VoteSound fprim pk height sig

/-- All stored votes and evidence are sound. -/
structure State.VotesSound (fprim : FinalityPrimitives) (s : State) : Prop where
  votes : ∀ height pk sig, (s.votes.under height).get pk = some sig →
    s.VoteSound fprim pk height sig
  evidence : ∀ pk height e, (s.evidence.under pk).get height = some e →
    s.EvidenceSound fprim pk height e

variable {sig : SchnorrEOTSSig}

variable {pubRand : SchnorrPubRand} {e : Evidence} {req : MsgAddFinalitySig}

section Sound

variable {fprim : FinalityPrimitives} {height : Nat}

theorem State.Remembers.signed (h : s.Remembers t) {appHash : Bytes}
    (hs : s.Signed fprim pk height appHash pubRand sig) :
    t.Signed fprim pk height appHash pubRand sig := by
  obtain ⟨commit, proof, hcom, hverd⟩ := hs
  exact ⟨commit, proof, h.commit pk height commit hcom, hverd⟩

theorem State.Remembers.voteSound (h : s.Remembers t) (hs : s.VoteSound fprim pk height sig) :
    t.VoteSound fprim pk height sig := by
  obtain ⟨block, pubRand, hblk, hlen, hsig⟩ := hs
  obtain ⟨block', hblk', heq⟩ := h.block height block hblk
  exact ⟨block', pubRand, hblk', heq ▸ hlen, heq ▸ h.signed hsig⟩

theorem State.Remembers.evidenceSound (h : s.Remembers t)
    (hs : s.EvidenceSound fprim pk height e) : t.EvidenceSound fprim pk height e where
  provider := hs.provider
  atHeight := hs.atHeight
  indexed := by
    obtain ⟨block, hblk, heq⟩ := hs.indexed
    obtain ⟨block', hblk', heq'⟩ := h.block height block hblk
    exact ⟨block', hblk', heq'.trans heq⟩
  differs := hs.differs
  length := hs.length
  fork := h.signed hs.fork
  canonical := fun sig hsig => h.voteSound (hs.canonical sig hsig)

/-- Steps that add no votes and no evidence. -/
theorem State.VotesSound.of_remembers (hs : s.VotesSound fprim) (h : s.Remembers t)
    (hvotes : t.votes = s.votes) (hev : t.evidence = s.evidence) : t.VotesSound fprim where
  votes := by
    intro height pk sig hget
    rw [hvotes] at hget
    exact h.voteSound (hs.votes height pk sig hget)
  evidence := by
    intro pk height e hget
    rw [hev] at hget
    exact h.evidenceSound (hs.evidence pk height e hget)

theorem State.VotesSound.setSig (hs : s.VotesSound fprim)
    (hsound : s.VoteSound fprim pk height sig) : (s.setSig height pk sig).VotesSound fprim := by
  have hrem : s.Remembers (s.setSig height pk sig) := .of_eq rfl rfl rfl
  refine ⟨?_, fun pk' h e hget => hrem.evidenceSound (hs.evidence pk' h e hget)⟩
  refine forall_setUnder s.votes height ?_ (hrem.voteSound hsound)
  exact fun h pk' sig' hget => hrem.voteSound (hs.votes h pk' sig' hget)

theorem State.VotesSound.setEvidence (hs : s.VotesSound fprim)
    (hsound : s.EvidenceSound fprim pk height e) : (s.setEvidence e).VotesSound fprim := by
  obtain rfl := hsound.provider
  obtain rfl := hsound.atHeight
  have hrem : s.Remembers (s.setEvidence e) := .of_eq rfl rfl rfl
  refine ⟨fun h pk' sig hget => hrem.voteSound (hs.votes h pk' sig hget), ?_⟩
  refine forall_setUnder s.evidence e.fpBtcPk ?_ (hrem.evidenceSound hsound)
  exact fun pk' h e' hget => hrem.evidenceSound (hs.evidence pk' h e' hget)

variable {I : Type} {env : Env} {w w' : Stores I}

/-- Accepted votes are sound, and so is the evidence they produce. -/
theorem addFinalitySig_votesSound (hs : w.finality.VotesSound fprim)
    (h : addFinalitySig fprim env w req = .ok w') : w'.finality.VotesSound fprim := by
  obtain ⟨block, fp, commit, hacc, hcases⟩ := addFinalitySig_ok h
  have hrem : w.finality.Remembers (withPubRand w req).finality := .of_eq rfl rfl rfl
  have hrand : (withPubRand w req).finality.VotesSound fprim := hs.of_remembers hrem rfl rfl
  have hsigned : (withPubRand w req).finality.Signed fprim req.fpBtcPk req.blockHeight
      req.blockAppHash req.pubRand req.finalitySig :=
    ⟨commit, req.proof, hacc.committed, hacc.verified⟩
  rcases hcases with ⟨hfork, hadd⟩ | ⟨hsame, hadd⟩
  · rw [(addForkVote_ok hadd).1]
    refine hrand.setEvidence ⟨rfl, rfl, ⟨block, hacc.indexed, rfl⟩, hfork,
      hacc.appHash, hsigned, ?_⟩
    intro sig hsig
    have hsig : (withPubRand w req).finality.getSig env req.blockHeight req.fpBtcPk = some sig :=
      hsig
    unfold getSig at hsig
    split at hsig
    · cases hsig
    · exact hrand.votes _ _ _ hsig
  · have hvote : (withPubRand w req).finality.VoteSound fprim req.fpBtcPk req.blockHeight
        req.finalitySig :=
      ⟨block, req.pubRand, hacc.indexed, hsame ▸ hacc.appHash, hsame ▸ hsigned⟩
    obtain ⟨bs, -, ⟨-, -, hfin⟩ | ⟨evidence, hget, -, hfin⟩⟩ := addCanonicalVote_ok hadd
    · rw [hfin]
      exact hrand.setSig hvote
    · rw [hfin]
      have hsig := hrand.setSig hvote
      have hold := hrand.evidence _ _ _ hget
      have hkept : (withPubRand w req).finality.Remembers ((withPubRand w req).finality.setSig
          req.blockHeight req.fpBtcPk req.finalitySig) := .of_eq rfl rfl rfl
      have hsound := hkept.evidenceSound hold
      refine hsig.setEvidence ⟨hsound.provider, hsound.atHeight, hsound.indexed, hsound.differs,
        hsound.length, hsound.fork, ?_⟩
      rintro _ ⟨⟩
      exact hkept.voteSound hvote

end Sound

/-! ## Equivocation -/

/-- The provider is slashed. -/
def isSlashed (bs : BTCStaking.State) (pk : BIP340PubKey) : Bool :=
  (bs.finalityProviders.get pk).any (·.isSlashed)

/-- Providers with a vote and evidence at one height are slashed. -/
def Stores.EquivocatorsSlashed {I : Type} (w : Stores I) : Prop :=
  ∀ height pk sig e, (w.finality.votes.under height).get pk = some sig →
    (w.finality.evidence.under pk).get height = some e → isSlashed w.btcStaking pk = true

section Equivocation

open BTCStaking

variable {I : Type} {fprim : FinalityPrimitives} {env : Env} {w w' : Stores I}

variable {bs bs' : BTCStaking.State}

theorem isSlashed_of_evolve (h : ProvidersEvolve bs bs')
    (hs : isSlashed bs pk = true) : isSlashed bs' pk = true := by
  obtain ⟨fp, hfp, hsl⟩ := (any_eq_true _ _).mp hs
  obtain ⟨fp', hfp', hkept⟩ := h.kept pk fp hfp
  exact (any_eq_true _ _).mpr ⟨fp', hfp', hkept hsl⟩

theorem isSlashed_of_slash {benv : BTCStaking.Env}
    (hk : bs.ProvidersKeyed) (hht : 0 < benv.header.height)
    (h : bs.slashFinalityProvider benv pk = .ok bs') : isSlashed bs' pk = true := by
  obtain ⟨fp, hfp, -, rfl⟩ := slashFinalityProvider_ok h
  refine (any_eq_true _ _).mpr ⟨{ fp with
    slashedBabylonHeight := benv.header.height
    slashedBtcHeight := benv.lc.tipHeight }, ?_, decide_eq_true hht⟩
  show (bs.finalityProviders.set fp.btcPk _).get pk = _
  rw [hk pk fp hfp, get_set_self]

/-- The two orders of an equivocation: a vote for a fork finds the vote for the indexed block,
or a vote for the indexed block finds the evidence. -/
theorem addFinalitySig_equivocators (hk : w.btcStaking.ProvidersKeyed)
    (hht : 0 < env.header.height)
    (hixd : ∀ block, w.finality.blocks.get req.blockHeight = some block →
      req.blockHeight ≤ env.header.height)
    (hevo : ProvidersEvolve w.btcStaking w'.btcStaking) (hsound : w.finality.VotesSound fprim)
    (hs : w.EquivocatorsSlashed) (h : addFinalitySig fprim env w req = .ok w') :
    w'.EquivocatorsSlashed := by
  obtain ⟨block, fp, commit, hacc, ⟨-, hadd⟩ | ⟨-, hadd⟩⟩ := addFinalitySig_ok h
  · obtain ⟨hfin, hslash⟩ := addForkVote_ok hadd
    intro height pk sig e hvote hev
    rw [hfin] at hvote hev
    replace hvote : (w.finality.votes.under height).get pk = some sig := hvote
    replace hev : ((w.finality.evidence.setUnder req.fpBtcPk req.blockHeight _).under pk).get
      height = some e := hev
    rw [get_under_setUnder] at hev
    split at hev
    case isTrue heq =>
      obtain ⟨rfl, rfl⟩ := heq
      rcases hslash with ⟨hnone, -⟩ | hslash
      · have hle := hixd block hacc.indexed
        rw [getSig, if_neg (by omega)] at hnone
        rw [show (withPubRand w req).finality.votes = w.finality.votes from rfl, hvote] at hnone
        cases hnone
      · exact isSlashed_of_slash hk hht hslash
    case isFalse => exact isSlashed_of_evolve hevo (hs height pk sig e hvote hev)
  · obtain ⟨bs, hrec, hcases⟩ := addCanonicalVote_ok hadd
    have hbs : bs.ProvidersKeyed := by
      rcases hrec with rfl | ⟨highest, rfl⟩
      · exact hk
      · have hset : ProvidersEvolve w.btcStaking (w.btcStaking.setFinalityProvider
            { fp with highestVotedHeight := highest }) :=
          .of_notSlashed hk hacc.provider hacc.notSlashed rfl rfl
        exact hset.keyed
    intro height pk sig e hvote hev
    have hold : ¬ (height = req.blockHeight ∧ pk = req.fpBtcPk) →
        (w.finality.evidence.under pk).get height = some e → isSlashed w'.btcStaking pk = true := by
      intro hne hev
      have hvotes : w'.finality.votes
          = w.finality.votes.setUnder req.blockHeight req.fpBtcPk req.finalitySig := by
        rcases hcases with ⟨-, -, hfin⟩ | ⟨_, -, -, hfin⟩ <;> rw [hfin] <;> rfl
      rw [hvotes, get_under_setUnder, if_neg hne] at hvote
      exact isSlashed_of_evolve hevo (hs height pk sig e hvote hev)
    by_cases heq : height = req.blockHeight ∧ pk = req.fpBtcPk
    case pos =>
      obtain ⟨rfl, rfl⟩ := heq
      rcases hcases with ⟨hnone, -, hfin⟩ | ⟨_, -, hslash, -⟩
      · rw [hfin] at hev
        cases hnone.symm.trans hev
      · exact isSlashed_of_slash hbs hht hslash
    case neg =>
      rcases hcases with ⟨-, -, hfin⟩ | ⟨evidence, hget, -, hfin⟩
      · rw [hfin] at hev
        exact hold heq hev
      · have hsto := hsound.evidence _ _ _ hget
        rw [hfin] at hev
        replace hev : ((w.finality.evidence.setUnder evidence.fpBtcPk evidence.blockHeight
          _).under pk).get height = some e := hev
        rw [get_under_setUnder, hsto.provider, hsto.atHeight, if_neg fun h => heq ⟨h.2, h.1⟩] at hev
        exact hold heq hev

end Equivocation

/-! ## Extraction -/

/-- What is assumed of the cryptographic functions: Merkle proofs bind the leaf of a position,
the message hash has no collisions, and neither has the challenge. -/
structure FinalityPrimitives.Secure (fprim : FinalityPrimitives) : Prop where
  merkle_binding : ∀ root r₁ r₂ p₁ p₂, fprim.merkleVerify root r₁ p₁ = true →
    fprim.merkleVerify root r₂ p₂ = true → p₁.index = p₂.index → p₁.total = p₂.total → r₁ = r₂
  hash_injective : Function.Injective fprim.curve.hash
  challenge_injective : ∀ r pk d₁ d₂ e, fprim.curve.challenge r pk d₁ = some e →
    fprim.curve.challenge r pk d₂ = some e → d₁ = d₂

section Extraction

variable {fprim : FinalityPrimitives} {height : Nat}

theorem verifyFinalitySig_ok {m : MsgAddFinalitySig} {u : Unit}
    (h : verifyFinalitySig fprim m commit = .ok u) :
    m.blockHeight = (commit.startHeight + m.proof.index.toUInt64).toNat ∧
      m.proof.total.toUInt64 = commit.numPubRand ∧
      fprim.merkleVerify commit.commitment m.pubRand m.proof = true ∧
      ∃ point, fprim.curve.parsePubKey m.fpBtcPk = some point ∧
        EOTS.verify fprim.curve point (fprim.curve.toFieldVal m.pubRand) m.msgToSign
          (fprim.curve.toModNScalar m.finalitySig) = true := by
  simp only [verifyFinalitySig, ok_iff] at h
  obtain ⟨_, hht, _, htot, _, hmerkle, point, hpoint, hver⟩ := h
  exact ⟨hht, htot, hmerkle, point, hpoint, hver⟩

theorem int64_eq_of_toUInt64_eq {a b : Int64} (h : a.toUInt64 = b.toUInt64) : a = b := by
  cases a
  cases b
  exact congrArg _ h

/-- Two signatures for one height were made with one public randomness. -/
theorem State.Signed.same_pubRand (hsecure : fprim.Secure) {hash₁ hash₂ : Bytes}
    {r₁ r₂ : SchnorrPubRand} {sig₁ sig₂ : SchnorrEOTSSig}
    (h₁ : s.Signed fprim pk height hash₁ r₁ sig₁) (h₂ : s.Signed fprim pk height hash₂ r₂ sig₂) :
    r₁ = r₂ := by
  obtain ⟨commit, p₁, hcom, hverified₁⟩ := h₁
  obtain ⟨commit', p₂, hcommit', hverified₂⟩ := h₂
  obtain rfl : commit = commit' := Except.ok.inj (hcom.symm.trans hcommit')
  obtain ⟨hheight₁, htotal₁, hmerkle₁, -⟩ := verifyFinalitySig_ok hverified₁
  obtain ⟨hheight₂, htotal₂, hmerkle₂, -⟩ := verifyFinalitySig_ok hverified₂
  have hidx : commit.startHeight + p₁.index.toUInt64 = commit.startHeight + p₂.index.toUInt64 :=
    UInt64.toNat_inj.mp (hheight₁.symm.trans hheight₂)
  exact hsecure.merkle_binding _ _ _ p₁ p₂ hmerkle₁ hmerkle₂
    (int64_eq_of_toUInt64_eq ((UInt64.add_right_inj _).mp hidx))
    (int64_eq_of_toUInt64_eq (htotal₁.trans htotal₂.symm))

theorem State.Signed.verify {appHash : Bytes} (h : s.Signed fprim pk height appHash pubRand sig) :
    ∃ point, fprim.curve.parsePubKey pk = some point ∧
      EOTS.verify fprim.curve point (fprim.curve.toFieldVal pubRand)
        (msgToSignForVote height appHash) (fprim.curve.toModNScalar sig) = true := by
  obtain ⟨commit, proof, -, hverd⟩ := h
  exact (verifyFinalitySig_ok hverd).2.2.2

/-- Evidence with both signatures reveals the private key of the provider. -/
theorem State.EvidenceSound.extracts (hsecure : fprim.Secure)
    (hs : s.EvidenceSound fprim pk height e) (hsig : e.canonicalFinalitySig = some sig) :
    ∃ x, e.extractBTCSK fprim.curve = .ok x ∧
      fprim.curve.serializePubKey (x • fprim.curve.base) = e.fpBtcPk := by
  obtain ⟨block, pubRand, hblk, hlen, hcanon⟩ := hs.canonical sig hsig
  obtain ⟨block', hblk', heq⟩ := hs.indexed
  obtain rfl : block = block' := some.inj (hblk.symm.trans hblk')
  rw [heq] at hlen hcanon
  obtain rfl : pubRand = e.pubRand := hcanon.same_pubRand hsecure hs.fork
  obtain ⟨point, hpoint, hver⟩ := hcanon.verify
  obtain ⟨point', hpoint', hverify'⟩ := hs.fork.verify
  obtain rfl : point = point' := some.inj (hpoint.symm.trans hpoint')
  have hmessages : msgToSignForVote height e.canonicalAppHash
      ≠ msgToSignForVote height e.forkAppHash :=
    fun h => hs.differs (append_cancel_left h)
  have hchal : fprim.curve.challenge (fprim.curve.toFieldVal e.pubRand) pk
        (fprim.curve.hash (msgToSignForVote height e.canonicalAppHash))
      ≠ fprim.curve.challenge (fprim.curve.toFieldVal e.pubRand) pk
        (fprim.curve.hash (msgToSignForVote height e.forkAppHash)) := by
    intro hsame
    obtain ⟨c, hc, -⟩ := EOTS.verify_spec hpoint hver
    exact hmessages (hsecure.hash_injective (hsecure.challenge_injective _ _ _ _ c hc (hsame ▸ hc)))
  obtain ⟨x, hx, hkey⟩ := EOTS.extract_of_verify hpoint hver hverify' hchal
  refine ⟨x, ?_, hkey.trans hs.provider.symm⟩
  simp only [Evidence.extractBTCSK, hs.provider, hpoint, hsig, orThrow_some, ok_bind,
    ensure_of _ hlen, ensure_of _ hs.length, Evidence.canonicalMsgToSign,
    Evidence.forkMsgToSign, hs.atHeight, hx]

end Extraction

end Babylon.Finality
