import Molaris.Common
import Molaris.Bank.Manager
import Molaris.Bank.Frames
import Molaris.Bank.Writes
import Molaris.Bank.Views
import Molaris.Bank.Keeper
import Molaris.Bank.Commit
import Molaris.Bank.Settlement
import Molaris.Bank.Precompile
import Molaris.Mempool.EthTxPool
import Molaris.Mempool.Admission
import Molaris.Mempool.Index
import Molaris.Lib.Conversions
import Molaris.Bank.Authz
import Molaris.State.Genesis
