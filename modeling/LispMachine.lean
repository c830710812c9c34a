import LispMachine.Bytecode.Code
import LispMachine.Bytecode.CodeBuffer
import LispMachine.Bytecode.Coercion
import LispMachine.Bytecode.Constant
import LispMachine.Bytecode.Instruction
import LispMachine.Bytecode.Listing
import LispMachine.Bytecode.TypeStack
import LispMachine.CallSite.Cache
import LispMachine.CallSite.Spec
import LispMachine.CallSite.Target
import LispMachine.ClassFile.Basic
import LispMachine.ClassFile.Decoder
import LispMachine.ClassFile.Encoder
import LispMachine.ClassFile.Image
import LispMachine.ClassFile.Verifier
import LispMachine.Datum.Basic
import LispMachine.Datum.Printer
import LispMachine.Datum.Reader
import LispMachine.Digest.Sha256
import LispMachine.Double.Basic
import LispMachine.Double.Printer
import LispMachine.Double.Reader
import LispMachine.Error
import LispMachine.Form.Analysis
import LispMachine.Form.Basic
import LispMachine.Form.Branches
import LispMachine.Form.Definitions
import LispMachine.Form.Exceptions
import LispMachine.Form.Expansion
import LispMachine.Form.Functions
import LispMachine.Form.Locals
import LispMachine.Form.Members
import LispMachine.Form.Methods
import LispMachine.Form.Proxies
import LispMachine.Form.Spaces
import LispMachine.Form.Special
import LispMachine.Form.State
import LispMachine.Form.Symbols
import LispMachine.Form.Template
import LispMachine.Form.Types
import LispMachine.Host.Classes
import LispMachine.Host.Text
import LispMachine.Json.Basic
import LispMachine.Json.Parser
import LispMachine.Json.Shape
import LispMachine.Libraries.Basic
import LispMachine.Libraries.Standard
import LispMachine.Machine.Call
import LispMachine.Machine.Definition
import LispMachine.Machine.Display
import LispMachine.Machine.Execution
import LispMachine.Machine.HostMethods
import LispMachine.Machine.Linking
import LispMachine.Machine.Natives
import LispMachine.Machine.Request
import LispMachine.Names
import LispMachine.Native
import LispMachine.Native.Arithmetic
import LispMachine.Native.Sequences
import LispMachine.Options
import LispMachine.Overload
import LispMachine.Pattern.Basic
import LispMachine.Pattern.CharSet
import LispMachine.Pattern.Parser
import LispMachine.Proofs.Agreement.Constants
import LispMachine.Proofs.Agreement.Hints
import LispMachine.Proofs.Agreement.Images
import LispMachine.Proofs.Agreement.Passing
import LispMachine.Proofs.Agreement.Proxies
import LispMachine.Proofs.Agreement.Templates
import LispMachine.Proofs.CallSite.CalleeSites
import LispMachine.Proofs.CallSite.GlobalSites
import LispMachine.Proofs.CallSite.MemberSites
import LispMachine.Proofs.CallSite.Progress
import LispMachine.Proofs.CallSite.Serials
import LispMachine.Proofs.ClassFile.Image
import LispMachine.Proofs.ClassFile.Loading
import LispMachine.Proofs.Context.EvaluatedForms
import LispMachine.Proofs.Datum.Concatenation
import LispMachine.Proofs.Datum.Embedding
import LispMachine.Proofs.Emission.Arms
import LispMachine.Proofs.Emission.Balance
import LispMachine.Proofs.Emission.Branches
import LispMachine.Proofs.Emission.Captures
import LispMachine.Proofs.Emission.Classes
import LispMachine.Proofs.Emission.Computing
import LispMachine.Proofs.Emission.Constructors
import LispMachine.Proofs.Emission.Dispatch
import LispMachine.Proofs.Emission.Exceptions
import LispMachine.Proofs.Emission.FencedForms
import LispMachine.Proofs.Emission.Fences
import LispMachine.Proofs.Emission.Finally
import LispMachine.Proofs.Emission.Flattening
import LispMachine.Proofs.Emission.Instances
import LispMachine.Proofs.Emission.Joining
import LispMachine.Proofs.Emission.LoopEntry
import LispMachine.Proofs.Emission.Placement
import LispMachine.Proofs.Emission.Protected
import LispMachine.Proofs.Emission.ProxyFields
import LispMachine.Proofs.Emission.Recur
import LispMachine.Proofs.Emission.Segments
import LispMachine.Proofs.Emission.Templates
import LispMachine.Proofs.Emission.Verified
import LispMachine.Proofs.Expansion.Reentry
import LispMachine.Proofs.Expansion.Sugar
import LispMachine.Proofs.Json.Likeness
import LispMachine.Proofs.Machine.Arities
import LispMachine.Proofs.Machine.Conversions
import LispMachine.Proofs.Machine.DisplayedText
import LispMachine.Proofs.Machine.Effects
import LispMachine.Proofs.Machine.Floors
import LispMachine.Proofs.Machine.Operands
import LispMachine.Proofs.Machine.Protection
import LispMachine.Proofs.Machine.Rebinding
import LispMachine.Proofs.Machine.Safety
import LispMachine.Proofs.Machine.StraightLine
import LispMachine.Proofs.Machine.Stretches
import LispMachine.Proofs.Machine.Travel
import LispMachine.Proofs.Naming.Sessions
import LispMachine.Proofs.Native.ExactArithmetic
import LispMachine.Proofs.Overload.Fitting
import LispMachine.Proofs.Overload.Phases
import LispMachine.Proofs.Overload.Specificity
import LispMachine.Proofs.Registry.FieldLookup
import LispMachine.Proofs.Registry.MethodLookup
import LispMachine.Proofs.Registry.Reachability
import LispMachine.Proofs.Registry.Subclassing
import LispMachine.Proofs.Sequencing
import LispMachine.Proofs.Slots.Forms
import LispMachine.Proofs.Slots.Ledger
import LispMachine.Proofs.Slots.Methods
import LispMachine.Proofs.Slots.Tracking
import LispMachine.Proofs.Value.Building
import LispMachine.Proofs.Verifier.Paths
import LispMachine.Proofs.World.Assignments
import LispMachine.Proofs.World.FailedTypes
import LispMachine.Proofs.World.Fields
import LispMachine.Proofs.World.Resolution
import LispMachine.Proofs.World.SpaceForms
import LispMachine.Proofs.World.TypeNames
import LispMachine.Registry.Basic
import LispMachine.Registry.Hierarchy
import LispMachine.Scope.Basic
import LispMachine.Scope.Lookup
import LispMachine.Session
import LispMachine.Settings.Basic
import LispMachine.Settings.Parser
import LispMachine.Symbol
import LispMachine.Table
import LispMachine.Text.Basic
import LispMachine.Text.CaseMap
import LispMachine.Text.Printable
import LispMachine.Text.Quoted
import LispMachine.Text.WordChar
import LispMachine.Ty
import LispMachine.Value.Basic
import LispMachine.Value.Data
import LispMachine.Value.Printer
import LispMachine.World.Basic
import LispMachine.World.Spaces
