import Rehost.Guest.Interpreter
import Rehost.Guest.Recorder
import Rehost.Host.Encoding.Decoder
import Rehost.Host.Encoding.Normal
import Rehost.Main
import Rehost.Proofs.AccessContract
import Rehost.Proofs.Accounting
import Rehost.Proofs.Batches
import Rehost.Proofs.Confinement
import Rehost.Proofs.Convention
import Rehost.Proofs.Decoding
import Rehost.Proofs.Faults
import Rehost.Proofs.Generation
import Rehost.Proofs.HighBytes
import Rehost.Proofs.Locality
import Rehost.Proofs.Meaning
import Rehost.Proofs.Noninterference
import Rehost.Proofs.Precedence
import Rehost.Proofs.Restart
import Rehost.Proofs.Supported
import Rehost.Proofs.Trial
