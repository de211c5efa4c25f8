import CrossChain.Values
import CrossChain.Descr
import CrossChain.DescrRun
import CrossChain.DescrSwap
import CrossChain.Transaction
import CrossChain.IsNewerThan
import CrossChain.Serialize
import CrossChain.TransactionSerialize
import CrossChain.Unserialize
import CrossChain.SerializeSize
import CrossChain.UnserializeStream
