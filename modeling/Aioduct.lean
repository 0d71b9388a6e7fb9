import Aioduct.Bandwidth.Shared
import Aioduct.Cache.Aging
import Aioduct.Cache.Variants
import Aioduct.Calendar
import Aioduct.ChunkDownload
import Aioduct.Cli.Exit
import Aioduct.Cli.Outputs
import Aioduct.Cli.PoolAccounts
import Aioduct.Cli.Tokens
import Aioduct.Client.Credentials
import Aioduct.Client.ProxyTargets
import Aioduct.Cookies.Addresses
import Aioduct.Cookies.Lines
import Aioduct.Cookies.Overflow
import Aioduct.Cookies.Plaintext
import Aioduct.Decompress
import Aioduct.DigestNonces
import Aioduct.Forward.OneAuthority
import Aioduct.Forward.OperatorHeaders
import Aioduct.Forward.ResponseSound
import Aioduct.Forward.StripPrefix
import Aioduct.HashStandards
import Aioduct.Hsts.Upgrade
import Aioduct.MessageSignatures.VerificationSound
import Aioduct.Multipart.Read
import Aioduct.Pool.Accounting
import Aioduct.Pool.Isolation
import Aioduct.Pool.Limit
import Aioduct.Retry.Ledger
import Aioduct.Sse.Chunking
import Aioduct.Throttle
import Aioduct.Wasmtime.Host
