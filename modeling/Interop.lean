import Interop.Main
import Interop.Managed.Script
import Interop.Proofs.Model.NativeNames
import Interop.Proofs.Managed.HandleTable
import Interop.Proofs.Marshal.Rooting
import Interop.Proofs.Session.AllOrNothing
import Interop.Proofs.Managed.EnumValue
import Interop.Proofs.Text.Utf8
import Interop.Proofs.Model.PassedTypes
import Interop.Proofs.Marshal.RoundTrip
import Interop.Proofs.C.Agreement
import Interop.Proofs.Session.Handles
import Interop.Proofs.Model.TypeClosure
import Interop.Proofs.Model.Assignable
import Interop.Proofs.Marshal.HandleFaults
import Interop.Proofs.Session.Arguments
import Interop.Proofs.Session.DeliveredHandles
import Interop.Proofs.Marshal.Fits
import Interop.Proofs.Session.TypedBoundary
import Interop.Proofs.Managed.Objects
import Interop.Proofs.Managed.Lifetimes
import Interop.Proofs.Managed.Script
import Interop.Proofs.Session.ClosedSessions
import Interop.Proofs.Session.NewObjects
import Interop.Proofs.Model.Reports
import Interop.Proofs.Model.Derives
import Interop.Proofs.Model.Bases
import Interop.Proofs.Session.SlotCalls
import Interop.Proofs.Model.Ordinals
import Interop.Proofs.Source.Grammar
import Interop.Proofs.Source.Reading
import Interop.Proofs.Source.Soundness
import Interop.Proofs.Source.Completeness
import Interop.Proofs.Source.Language
import Interop.Proofs.Model.Accounts
import Interop.Proofs.Model.Owners
import Interop.Proofs.Model.Collisions
import Interop.Proofs.Model.UsableNames
import Interop.Proofs.Model.Selections
import Interop.Proofs.C.Prototypes
import Interop.Proofs.C.Sequence
import Interop.Proofs.C.Declarations
import Interop.Proofs.Source.Lexicon
import Interop.Proofs.Source.Cutting
import Interop.Proofs.Model.Places
import Interop.Proofs.Source.Lexing
import Interop.Proofs.Source.TwoReadings
import Interop.Proofs.Source.Layout
import Interop.Proofs.C.Layout
import Interop.Proofs.Model.WrittenTypes
import Interop.Proofs.Model.Signatures
import Interop.Proofs.Session.DispatchKeys
import Interop.Model.Index
import Interop.Proofs.Model.Indexes
import Interop.Proofs.Session.OutSlots
import Interop.Proofs.Session.FailedCalls
import Interop.Proofs.Session.Properties
import Interop.Proofs.Model.EnumItems
import Interop.Proofs.Model.Endings
import Interop.Proofs.Model.ExactValues
import Interop.Proofs.Source.WrittenEnums
import Interop.Proofs.Model.QualifiedNames
import Interop.Proofs.Model.Accessors
import Interop.Proofs.MachineWords
import Interop.Proofs.Marshal.Flags
import Interop.Proofs.Session.Unimplemented
import Interop.Proofs.Session.ReturnedTexts
import Interop.Proofs.Model.StandAlone
import Interop.Proofs.Model.InnermostNames
import Interop.Proofs.C.ParameterNames
import Interop.Proofs.Source.NestedSpans
import Interop.Proofs.Source.Placement
import Interop.Proofs.Source.PlacedReading
import Interop.Proofs.Model.ErrorSpans
import Interop.Proofs.Source.TypeTexts
import Interop.Proofs.Model.SelectedBases
import Interop.Proofs.Model.Filters
import Interop.Proofs.Native.Sequences
import Interop.Proofs.C.Constants
import Interop.Proofs.Model.FirstClaims
import Interop.Proofs.Managed.Classes
