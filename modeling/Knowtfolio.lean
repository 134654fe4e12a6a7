import Knowtfolio.Data.Lists
import Knowtfolio.Interaction.Program
import Knowtfolio.Interaction.Pool
import Knowtfolio.Interaction.Trace
import Knowtfolio.Interaction.Component
import Knowtfolio.Data.Json
import Knowtfolio.Data.JsonValue
import Knowtfolio.Data.JsNumber
import Knowtfolio.Data.Keyed
import Knowtfolio.Data.Hex
import Knowtfolio.Data.Url
import Knowtfolio.Data.Erc721
import Knowtfolio.Errors
import Knowtfolio.Ethereum.Address
import Knowtfolio.Ethereum.Signature
import Knowtfolio.Contract.Basic
import Knowtfolio.Contract.Invariant
import Knowtfolio.Data.Text
import Knowtfolio.Contract.Listing
import Knowtfolio.Server.Models
import Knowtfolio.Server.Operations
import Knowtfolio.Server.AddressTable
import Knowtfolio.Server.Articles
import Knowtfolio.Server.Search
import Knowtfolio.Server.World
import Knowtfolio.Server.Steps
import Knowtfolio.Server.Specs
import Knowtfolio.Server.Runs
import Knowtfolio.Server.Storage
import Knowtfolio.Server.Tokenized
import Knowtfolio.Server.Hardhat
import Knowtfolio.Server.Mints
import Knowtfolio.Server.Agreement
import Knowtfolio.Server.Updates
import Knowtfolio.Server.Nonces
import Knowtfolio.Server.Views
import Knowtfolio.Server.EditRight
import Knowtfolio.Server.AddressBook
import Knowtfolio.Server.SearchResults
import Knowtfolio.Server.SearchOwner
import Knowtfolio.Lambda.Validation
import Knowtfolio.Lambda.PostWalletAddress
import Knowtfolio.Lambda.SignIn
import Knowtfolio.Lambda.UserPool
import Knowtfolio.Lambda.SignUp
import Knowtfolio.Server.Transfers
import Knowtfolio.Server.Partition
import Knowtfolio.Server.Frame
import Knowtfolio.Contract.Reentrancy
import Knowtfolio.Contract.Custody
import Knowtfolio.Server.Keywords
import Knowtfolio.Server.RawText
import Knowtfolio.Server.Columns
import Knowtfolio.Server.Wallets
import Knowtfolio.Server.Metadata
import Knowtfolio.Server.Editors
import Knowtfolio.Server.Blog
import Knowtfolio.Server.Deleted
import Knowtfolio.Server.Serial
import Knowtfolio.Server.Ownership
import Knowtfolio.Server.Snapshots
import Knowtfolio.Server.Confinement
import Knowtfolio.Server.DynamoDB
import Knowtfolio.Server.Spelling
import Knowtfolio.Lambda.Duplicates
import Knowtfolio.Lambda.GetUser
import Knowtfolio.Lambda.PreSignUp
import Knowtfolio.Client.Forms
import Knowtfolio.Client.SignData
import Knowtfolio.Client.UpdatePassword
import Knowtfolio.Client.SearchResultTable
import Knowtfolio.Client.AuthProvider
import Knowtfolio.Client.UpdateProfile
import Knowtfolio.Client.SignInWallet
import Knowtfolio.Client.ResetPassword
import Knowtfolio.Client.MintArticle
import Knowtfolio.Client.RegisterWallet
import Knowtfolio.Client.SignUp
import Knowtfolio.Client.ArticleForms
