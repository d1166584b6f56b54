import ClassBackend.Code.Dump
import ClassBackend.Code.Listing
import ClassBackend.Document.Basic
import ClassBackend.Proofs.Code.Lines
import ClassBackend.Proofs.Emission.Descent
import ClassBackend.Proofs.Emission.Jumps
import ClassBackend.Proofs.Layout.Conditions
import ClassBackend.Proofs.Layout.Literal
import ClassBackend.Proofs.Layout.Ranges
import ClassBackend.Proofs.Layout.Rescue
import ClassBackend.Proofs.Ledger.Members
import ClassBackend.Proofs.Ledger.Once
import ClassBackend.Proofs.Machine.Convention
import ClassBackend.Proofs.Machine.Equality
import ClassBackend.Proofs.Machine.Initializers
import ClassBackend.Proofs.Machine.Unboxing
import ClassBackend.Proofs.Machine.Words
import ClassBackend.Proofs.Member.Convertible
import ClassBackend.Proofs.Ty.Linearisation
import ClassBackend.Ty.Derived
