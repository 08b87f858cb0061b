import Offside.Main
import Offside.Proofs.Tokens.Excerpts
import Offside.Proofs.Tokens.Respacing
import Offside.Proofs.Layout.Invariance
import Offside.Proofs.Layout.LineStarts
import Offside.Proofs.Layout.Separators
import Offside.Proofs.Syntax.Climbing
import Offside.Proofs.Syntax.Outlines
import Offside.Proofs.Literals.RoundTrip
import Offside.Proofs.Printing.RoundTrip
import Offside.Proofs.Programs.Sugar
import Offside.Proofs.Values.PlainData
import Offside.Proofs.Collections.References
import Offside.Proofs.Collections.Updates
import Offside.Proofs.Bindings.Trees
import Offside.Proofs.Failures.SourceLine
import Offside.Proofs.Sessions.CallDepth
import Offside.Proofs.Settings.Transparency
import Offside.Proofs.Commands.Agreement
