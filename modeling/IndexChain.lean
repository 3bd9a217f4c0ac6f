import IndexChain.Models.Coins.FlushBest
import IndexChain.Models.Compress.CoinsRoundTrip
import IndexChain.Models.Mempool.Taken
import IndexChain.Models.Merkle.Soundness
import IndexChain.Models.Notary.JustCheck
import IndexChain.Models.Notary.TornFile
import IndexChain.Models.Stake.StakeBounds
import IndexChain.Models.CC.ChannelHistory
import IndexChain.Models.CC.DicePlans
import IndexChain.Models.CC.OfferPrices
import IndexChain.Models.CC.RewardsPayout
import IndexChain.Models.Validation.Amounts
import IndexChain.Models.CC.HeirPlan
import IndexChain.Models.CC.BurnedTokens
import IndexChain.Models.CC.PaymentsOprets
import IndexChain.Models.CC.OracleData
import IndexChain.Models.CC.PaymentsRelease
import IndexChain.Models.Prices.PriceReads
import IndexChain.Models.Prices.ReduceExact
import IndexChain.Models.Prices.Grammar
import IndexChain.Models.Supply.MoneyStr
import IndexChain.Models.Notary.KvLifetime
import IndexChain.Models.Notary.KvSafety
import IndexChain.Models.Prices.PriceReorgs
import IndexChain.Models.Supply.CheckDeposit
import IndexChain.Models.Supply.CheckPOW
import IndexChain.Models.Import.ImportRoundTrip
import IndexChain.Models.Prices.Clamp
import IndexChain.Models.Import.TombstoneUndo
import IndexChain.Models.Coins.CachedUsage
import IndexChain.Models.Coins.FlatAnchors
import IndexChain.Models.Chain.SumsLoad
import IndexChain.Models.Chain.BlockFiles
import IndexChain.Models.Notary.NotarizedData
import IndexChain.Models.Zcash.TreeSize
import IndexChain.Models.Mempool.SideMaps
import IndexChain.Models.Notary.AssetchainProof
import IndexChain.Models.Import.Tokenbase
import IndexChain.Models.Mempool.ReorgRemoval
import IndexChain.Models.Stake.PoWTarget
import IndexChain.Models.Chain.MostWork
import IndexChain.Models.Compress.AmountRange
import IndexChain.Models.Wire.Numbers
import IndexChain.Models.Mempool.Orphans
import IndexChain.Models.Arith.Compact
import IndexChain.Models.Coins.DailySnapshot
import IndexChain.Models.Script.Conditional
import IndexChain.Models.Script.ScriptHash
import IndexChain.Models.Net.InFlight
import IndexChain.Models.Address.Bech32
