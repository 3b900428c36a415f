import TerraCore.App.GenesisState
import TerraCore.Budget.Deposits
import TerraCore.Budget.Earnings
import TerraCore.Budget.Events
import TerraCore.Budget.Export
import TerraCore.Budget.Genesis
import TerraCore.Budget.Halting
import TerraCore.Budget.Lifecycle
import TerraCore.Budget.Querier
import TerraCore.Budget.QueueKeys
import TerraCore.Budget.Shares
import TerraCore.Budget.TallyKeys
import TerraCore.Budget.Validation
import TerraCore.Chain.Block
import TerraCore.Chain.Coalition
import TerraCore.Chain.DailyCap
import TerraCore.Chain.LateRead
import TerraCore.Chain.Modules
import TerraCore.Chain.Participants
import TerraCore.Chain.RewardWeight
import TerraCore.Chain.Supply
import TerraCore.Chain.TaxCap
import TerraCore.ClaimPool
import TerraCore.Market.Cycle
import TerraCore.Market.Querier
import TerraCore.Mint.Seigniorage
import TerraCore.Oracle.Claims
import TerraCore.Oracle.Client
import TerraCore.Oracle.CommitReveal
import TerraCore.Oracle.Commitment
import TerraCore.Oracle.Distribution
import TerraCore.Oracle.Events
import TerraCore.Oracle.Expiry
import TerraCore.Oracle.HonestMajority
import TerraCore.Oracle.Keys
import TerraCore.Oracle.Median
import TerraCore.Oracle.OneVote
import TerraCore.Oracle.Querier
import TerraCore.Treasury.Division
import TerraCore.Treasury.Export
import TerraCore.Treasury.Lookup
import TerraCore.Treasury.Windows
import TerraCore.Update.Usability
import TerraCore.Vesting.Curve
