import RubySexp.Command.Run
import RubySexp.Convert
import RubySexp.Main
import RubySexp.Node.Load
import RubySexp.Node.Outline
import RubySexp.Sexp.Reader
import RubySexp.Proofs.Convert.Census
import RubySexp.Proofs.Convert.Grouping
import RubySexp.Proofs.Convert.Interpolation
import RubySexp.Proofs.Convert.LexicalScope
import RubySexp.Proofs.Convert.NormalForm
import RubySexp.Proofs.Convert.Recovery
import RubySexp.Proofs.Convert.Soundness
import RubySexp.Proofs.Convert.SourcePath
import RubySexp.Proofs.Node.OutlineWalk
import RubySexp.Proofs.Sexp.Derivation
import RubySexp.Proofs.Sexp.ErrorPlace
import RubySexp.Proofs.Sexp.Matching
import RubySexp.Proofs.Sexp.Progress
import RubySexp.Proofs.Sexp.ReadBack
import RubySexp.Proofs.Sexp.Spelling
import RubySexp.Proofs.Sexp.RegexpReprint
import RubySexp.Proofs.Sexp.StringTerminal
import RubySexp.Proofs.Sexp.SymbolText
import RubySexp.Proofs.Sexp.TextEquality
import RubySexp.Proofs.Convert.Provenance
import RubySexp.Proofs.Load.Declared
import RubySexp.Proofs.Load.Entry
import RubySexp.Proofs.Load.Failure
import RubySexp.Proofs.Load.Recognised
import RubySexp.Proofs.Load.RoundTrip
import RubySexp.Proofs.Command.Expect
