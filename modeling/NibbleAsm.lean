import NibbleAsm.Main
import NibbleAsm.Proofs.Composition
import NibbleAsm.Proofs.Replay
import NibbleAsm.Proofs.Addresses
import NibbleAsm.Proofs.CaseInsensitive
import NibbleAsm.Proofs.LeadingTokens
import NibbleAsm.Proofs.TableExtension
import NibbleAsm.Proofs.InertEntries
import NibbleAsm.Proofs.LineEndings
import NibbleAsm.Proofs.Image
import NibbleAsm.Proofs.Decoding
import NibbleAsm.Proofs.SeparateLines
import NibbleAsm.Proofs.Stepping
import NibbleAsm.Proofs.AllOrNothing
import NibbleAsm.Proofs.Reporting
import NibbleAsm.Proofs.Arguments
import NibbleAsm.Proofs.Recovery
import NibbleAsm.Proofs.Lookahead
import NibbleAsm.Proofs.Layout
import NibbleAsm.Proofs.NumberTokens
import NibbleAsm.Proofs.RunLog
import NibbleAsm.Proofs.Width
import NibbleAsm.Proofs.Grid
import NibbleAsm.Proofs.Readings
import NibbleAsm.Proofs.Runs
