import Sentential.Service
import Sentential.Proofs.Soundness
import Sentential.Proofs.Reading.Exact
import Sentential.Proofs.Printing
import Sentential.Proofs.Sealing
import Sentential.Proofs.Sessions
import Sentential.Proofs.Reloading
import Sentential.Proofs.Tables
import Sentential.Proofs.Respelling
import Sentential.Proofs.Vouching
import Sentential.Proofs.Headers
import Sentential.Proofs.Parentheses
import Sentential.Proofs.Alternation
import Sentential.Proofs.Pairing
import Sentential.Proofs.Renderings
import Sentential.Proofs.Retracing
import Sentential.Proofs.Strictness
import Sentential.Proofs.Validity
import Sentential.Proofs.Undoing
import Sentential.Proofs.Stability
import Sentential.Proofs.Unmatched
import Sentential.Proofs.Reading.Levels
import Sentential.Proofs.Depth
import Sentential.Proofs.Blame
import Sentential.Proofs.Columns
import Sentential.Proofs.Partition
import Sentential.Proofs.Progress
