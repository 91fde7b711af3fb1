import Playchain.Lib.FlatMap
import Playchain.Lib.ObjectIndex
import Playchain.Lib.UniqueIndex
import Playchain.Lib.Control
import Playchain.Lib.Cursor
import Playchain.Db.ObjectDatabase
import Playchain.Db.UndoDatabase
import Playchain.Protocol.Types
import Playchain.Protocol.Version
import Playchain.Protocol.GameData
import Playchain.Protocol.Operations
import Playchain.Schema.TableObject
import Playchain.Schema.Objects
import Playchain.Schema.Database
import Playchain.Evaluators.Validators
import Playchain.Evaluators.Tables
import Playchain.Evaluators.BuyInBuyOut
import Playchain.Evaluators.Voting
import Playchain.Evaluators.Games
import Playchain.Evaluators.GamesObsolete
import Playchain.Evaluators.Players
import Playchain.BlockTasks.TableCheck
import Playchain.BlockTasks.PendingBuyIn
import Playchain.MaintainTasks.DepositPendingFees
import Playchain.MaintainTasks.RoomRating
import Playchain.Chain
import Playchain.Lib.Holdings
import Playchain.Lib.Rekey
import Playchain.Spec.Seats
import Playchain.Spec.Cash
import Playchain.Spec.Books
import Playchain.Spec.Frame
import Playchain.Spec.Invariant
import Playchain.Spec.Transfer
import Playchain.Spec.VoteContent
import Playchain.Spec.BuyOuts
import Playchain.Spec.BuyIns
import Playchain.Spec.Reservations
import Playchain.Spec.Allocation
import Playchain.Spec.Votes
import Playchain.Spec.Tally
import Playchain.Spec.Rollback
import Playchain.Spec.Games
import Playchain.Spec.Handlers
import Playchain.Spec.Local
import Playchain.Spec.GameMoves
import Playchain.Spec.VotingTasks
import Playchain.Spec.BlockTasks
import Playchain.Spec.Maintenance
import Playchain.Spec.Accepted
import Playchain.Spec.Operations
import Playchain.Spec.Runs
import Playchain.Spec.Safety
import Playchain.Spec.TableWeights
import Playchain.Spec.RoomRatings
import Playchain.Spec.Undo
import Playchain.Spec.Sessions
import Playchain.Spec.RoomSessions
import Playchain.Schema.TablePlayersIndex
import Playchain.Spec.TablePlayers
import Playchain.Blocks.ForkDatabase
import Playchain.Blocks.Node
import Playchain.Blocks.Pool
import Playchain.Spec.ForkTree
import Playchain.Spec.ForkSwitch
import Playchain.Spec.BlockMoves
import Playchain.Blocks.WitnessChain
import Playchain.Spec.Pool
import Playchain.Blocks.Production
import Playchain.Spec.Production
import Playchain.Spec.ForkHeads
import Playchain.Spec.Irreversible
import Playchain.Graphene.ChainMaintenance
import Playchain.Spec.FeeScaling
import Playchain.Graphene.WitnessSchedule
import Playchain.Spec.Slots
import Playchain.Graphene.Htlc
import Playchain.Spec.Escrow
import Playchain.Graphene.VestingBalance
import Playchain.Spec.Vesting
import Playchain.Graphene.ProposalObject
import Playchain.Graphene.RequiredApprovalIndex
import Playchain.Spec.RequiredApprovals
import Playchain.Lib.FunctionalGraph
import Playchain.Graphene.AssetEvaluator
import Playchain.Spec.BackingGraph
import Playchain.Graphene.Proposals
import Playchain.Spec.Proposals
import Playchain.Spec.ReviewPeriod
import Playchain.Graphene.Prices
import Playchain.Spec.Majority
import Playchain.Spec.InviterBalance
import Playchain.Spec.InviterShare
import Playchain.Spec.FeeSplit
import Playchain.Spec.TableChoice
import Playchain.Graphene.WithdrawPermission
import Playchain.Spec.WithdrawLimits
import Playchain.Blocks.Replay
import Playchain.Spec.Replay
import Playchain.Plugins.AccountHistory
import Playchain.Spec.HistoryLists
import Playchain.Spec.AccountHistory
import Playchain.Lib.Neighbours
import Playchain.Plugins.GroupedOrders
import Playchain.Lib.IntervalCover
import Playchain.Spec.PriceOrder
import Playchain.Spec.OrderGroups
import Playchain.Spec.OrderBook
import Playchain.Lib.ByteFile
import Playchain.Blocks.BlockLog
import Playchain.Spec.BlockLog
import Playchain.Protocol.SignState
import Playchain.Lib.WeightedSum
import Playchain.Spec.Derivations
import Playchain.Spec.AuthorityChecks
import Playchain.Spec.ExtraSignatures
import Playchain.Spec.RequiredSignatures
import Playchain.Spec.VersionTexts
import Playchain.Spec.RatingRange
import Playchain.Spec.BuyOutPayments
import Playchain.Plugins.MarketHistory
import Playchain.Spec.TickerVolumes
import Playchain.Spec.CommitteeWindow
import Playchain.Graphene.VoteCounter
import Playchain.Spec.VoteWeights
import Playchain.Graphene.FeeDistribution
import Playchain.Spec.VestedDeposits
import Playchain.Spec.FeeConservation
import Playchain.Graphene.AccountMaintenance
import Playchain.Spec.AccountMaintenance
import Playchain.Graphene.Budget
import Playchain.Spec.Budget
import Playchain.Graphene.WidePrices
import Playchain.Spec.PriceScaling
import Playchain.Lib.Rounding
import Playchain.Graphene.Market
import Playchain.Graphene.LimitOrders
import Playchain.Spec.MarketFrame
import Playchain.Spec.LimitMatch
import Playchain.Lib.Loop
import Playchain.Graphene.Settlements
import Playchain.Spec.ForcedSettlement
import Playchain.Spec.SettlementRun
import Playchain.Lib.HashTree
import Playchain.Protocol.Block
import Playchain.Spec.MerkleRoot
import Playchain.Lib.Codec
import Playchain.Protocol.Extension
import Playchain.Spec.Extension
import Playchain.Lib.Chunks
import Playchain.Db.DirectIndex
import Playchain.Spec.DirectIndex
import Playchain.Graphene.ActiveWitnesses
import Playchain.Spec.WitnessShuffle
import Playchain.Lib.Descent
import Playchain.Spec.ForkBranches
import Playchain.Protocol.Transaction
import Playchain.Spec.TransactionCaches
import Playchain.Graphene.AmountStrings
import Playchain.Spec.AmountStrings
import Playchain.Blocks.Reindex
import Playchain.Spec.Reindex
import Playchain.Spec.VoteMerge
import Playchain.Lib.Halving
import Playchain.Blocks.Synopsis
import Playchain.Spec.Synopsis
import Playchain.Spec.TidyRuns
import Playchain.Net.PeerSync
import Playchain.Spec.PeerSync
import Playchain.Blocks.Admission
import Playchain.Spec.Admission
import Playchain.Spec.Timeouts
import Playchain.Spec.Proposed
import Playchain.Lib.OrderStatistic
import Playchain.Blocks.Confirmations
import Playchain.Spec.Confirmations
import Playchain.Graphene.Participation
import Playchain.Spec.Participation
import Playchain.Graphene.Fees
import Playchain.Spec.RequiredFees
