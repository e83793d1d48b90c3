import Babylon.App.ResumeFinality
import Babylon.App.EventConsumption
import Babylon.Mint.Abci
import Babylon.App.RewardOrder
import Babylon.App.MissedBlocks
import Babylon.BTCStaking.Reorg
import Babylon.BTCCheckpoint.Duplicates
import Babylon.App.Denominations
import Babylon.Crypto.Signing
import Babylon.App.CovenantQuorum
import Babylon.BTCCheckpoint.Ancestry
import Babylon.Epoching.Sealing
import Babylon.Epoching.Unbonding
import Babylon.Checkpointing.VoteExtensions
import Babylon.BTCCheckpoint.Encoding
import Babylon.Incentive.Trackers
import Babylon.Checkpointing.BlsKeys
import Babylon.Epoching.MatureValidators
import Babylon.Epoching.SlashedPower
import Babylon.BTCLightClient.HeaderContext
import Babylon.Checkpointing.Listing
import Babylon.Crypto.InPlace
import Babylon.BTCCheckpoint.OpReturn
