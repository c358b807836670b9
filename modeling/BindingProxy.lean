import BindingProxy.Main
import BindingProxy.Command.LogFormat
import BindingProxy.Token.Session
import BindingProxy.Tree.Replace
import BindingProxy.Proofs.Tree.Rebuild
import BindingProxy.Proofs.Proxy.Wrapping
import BindingProxy.Proofs.Proxy.Leaves
import BindingProxy.Proofs.Grammar.WellFormed
import BindingProxy.Proofs.Proxy.DeclaredNames
import BindingProxy.Proofs.Proxy.Instrumented
import BindingProxy.Proofs.Proxy.Commuting
import BindingProxy.Proofs.Proxy.VariableNames
import BindingProxy.Proofs.Proxy.Formed
import BindingProxy.Proofs.Token.Stream
import BindingProxy.Proofs.Grammar.Runs
import BindingProxy.Proofs.Grammar.Phrase
import BindingProxy.Proofs.Grammar.ReadBack
import BindingProxy.Proofs.Code.Spelling
import BindingProxy.Proofs.Tree.Plain
import BindingProxy.Proofs.Code.Statements
import BindingProxy.Proofs.Code.RoundTrip
import BindingProxy.Proofs.Grammar.Statements
import BindingProxy.Proofs.Code.Scripts
import BindingProxy.Proofs.Token.Extent
import BindingProxy.Proofs.Token.Tiling
import BindingProxy.Proofs.Token.Bounds
import BindingProxy.Proofs.Token.LineBreaks
import BindingProxy.Proofs.Proxy.Tally
import BindingProxy.Proofs.Proxy.ChangeCounts
import BindingProxy.Proofs.Proxy.Redeclared
import BindingProxy.Proofs.Token.Moves
import BindingProxy.Proofs.Grammar.Advance
import BindingProxy.Proofs.Grammar.Progress
import BindingProxy.Proofs.Grammar.LookAhead
import BindingProxy.Proofs.Files.Places
import BindingProxy.Proofs.Command.Outputs
import BindingProxy.Proofs.Grammar.Correspond
import BindingProxy.Proofs.Grammar.Cover
import BindingProxy.Proofs.Grammar.Extension
import BindingProxy.Proofs.Token.Endings
import BindingProxy.Proofs.Token.Flawless
import BindingProxy.Proofs.Tree.Scope
import BindingProxy.Proofs.Grammar.Obtains
import BindingProxy.Proofs.Tree.Lead
import BindingProxy.Proofs.Grammar.Leads
import BindingProxy.Proofs.Grammar.Assembly
import BindingProxy.Proofs.Grammar.Genuine
import BindingProxy.Proofs.Code.Callee
import BindingProxy.Proofs.Proxy.Scoped
import BindingProxy.Proofs.Code.Openings
import BindingProxy.Proofs.Code.Beginnings
import BindingProxy.Proofs.Grammar.SharedText
import BindingProxy.Proofs.Grammar.DeclaredPattern
import BindingProxy.Proofs.Text.Lines
import BindingProxy.Proofs.Grammar.ErrorPlaces
import BindingProxy.Proofs.Command.Snippet
import BindingProxy.Proofs.Command.Contained
import BindingProxy.Proofs.Grammar.AssignedPattern
import BindingProxy.Proofs.Proxy.Classified
import BindingProxy.Proofs.Proxy.ClientImport
import BindingProxy.Proofs.Code.NearestIf
import BindingProxy.Proofs.Code.Entries
import BindingProxy.Proofs.Code.Appending
import BindingProxy.Proofs.Tree.Depth
import BindingProxy.Proofs.Grammar.Turns
import BindingProxy.Proofs.Grammar.Height
import BindingProxy.Proofs.Grammar.Defaults
import BindingProxy.Proofs.Token.NameUnits
import BindingProxy.Proofs.Token.Literals
import BindingProxy.Proofs.Code.Verbatim
import BindingProxy.Proofs.Tree.Traversal
