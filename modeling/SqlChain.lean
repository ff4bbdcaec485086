import SqlChain.Group.Traversal
import SqlChain.Json.Printer
import SqlChain.Main
import SqlChain.Plan.Encode
import SqlChain.Proofs.Group.Carry
import SqlChain.Proofs.Group.Outcome
import SqlChain.Proofs.Group.Paging
import SqlChain.Proofs.Group.Release
import SqlChain.Proofs.Lexical.Chain
import SqlChain.Proofs.Meaning.Chain
import SqlChain.Proofs.Chain.Spelling
import SqlChain.Proofs.Chain.Emulation
import SqlChain.Proofs.Chain.Move
import SqlChain.Proofs.Chain.Scope
import SqlChain.Proofs.Chain.Course
import SqlChain.Proofs.Chain.Built
import SqlChain.Proofs.Chain.Statement
import SqlChain.Proofs.Chain.Fetch
import SqlChain.Proofs.Chain.Nesting
import SqlChain.Proofs.Chain.Renaming
import SqlChain.Proofs.Meaning.Condition
import SqlChain.Proofs.Meaning.Reading
import SqlChain.Proofs.Meaning.Windows
import SqlChain.Proofs.Meaning.Emulation
import SqlChain.Proofs.Refusal.Chain
import SqlChain.Proofs.Window.Extraction
import SqlChain.Proofs.Window.Need
import SqlChain.Proofs.Window.Statement
import SqlChain.Proofs.Lenient.Chain
import SqlChain.Proofs.Lenient.Statement
import SqlChain.Proofs.Meaning.Collapse
import SqlChain.Proofs.Meaning.Keys
import SqlChain.Proofs.Syntax.Reach
import SqlChain.Proofs.Plan.File
import SqlChain.Proofs.Conditional
import SqlChain.Proofs.Lockstep.Operator
import SqlChain.Proofs.Lockstep.Strict
import SqlChain.Proofs.Group.Abort
import SqlChain.Proofs.Group.Bookkeeping
import SqlChain.Proofs.Group.Grouped
import SqlChain.Proofs.Group.Hash
import SqlChain.Proofs.Group.Lookup
import SqlChain.Proofs.Settings
import SqlChain.Proofs.Instant
import SqlChain.Proofs.Precedence
import SqlChain.Proofs.Columns
import SqlChain.Proofs.Refusal.Argument
