import Duckton.Node.Egress
import Duckton.Node.AttestedBids
import Duckton.Ton.ReceiptWallet
import Duckton.Node.ParamsSync
import Duckton.Ton.EscrowArbiter
import Duckton.Ton.AnchorBonds
import Duckton.Ton.Upgrades
import Duckton.Settlement.AnchorTree
import Duckton.Node.Redispatch
import Duckton.Node.DispatchAuth
import Duckton.Node.Oversubscription
import Duckton.Ton.BocReader
import Duckton.Ton.BocRoundTrip
import Duckton.Trust.TokenChain
import Duckton.Node.ResultParts
import Duckton.Node.RoundTrip
import Duckton.Trust.ReceiptReplay
import Duckton.Node.Membership
import Duckton.Web.DeployCells
import Duckton.Node.FixedSplit
import Duckton.Ton.VaultSlash
import Duckton.Trust.PersistentStore
import Duckton.Settlement.FromConfig
import Duckton.Node.WalletTrust
import Duckton.Node.PaidQuery
import Duckton.Node.SqlSources
import Duckton.Ton.StateInit
import Duckton.Node.MeteredBilling
import Duckton.Config.FailedCall
import Duckton.Node.AmzDate
import Duckton.Node.CredentialScope
import Duckton.Trust.SignedStatements
import Duckton.Extension.QueryTable
import Duckton.Node.LocalDecision
