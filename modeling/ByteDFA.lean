import ByteDFA.Automaton.Text
import ByteDFA.Builder.Build
import ByteDFA.Builder.Unroll
import ByteDFA.Byte.Partition
import ByteDFA.Search.Basic
import ByteDFA.Proofs.Builder.Validity
import ByteDFA.Proofs.Search.Visits
import ByteDFA.Proofs.Search.Replay
import ByteDFA.Proofs.Search.Attempts
import ByteDFA.Proofs.Search.Greedy
import ByteDFA.Proofs.Search.Acceleration
import ByteDFA.Proofs.Search.SharedFrame
import ByteDFA.Proofs.Search.Bisimulation
import ByteDFA.Proofs.Search.Leftmost
import ByteDFA.Proofs.Builder.Unroll
import ByteDFA.Proofs.Builder.KeepLoop
import ByteDFA.Proofs.Builder.Completeness
import ByteDFA.Proofs.Builder.Duplicates
import ByteDFA.Proofs.Builder.RejectLoop
import ByteDFA.Proofs.Search.BoundedStays
import ByteDFA.Proofs.Search.Guarded
import ByteDFA.Proofs.Search.Safety
import ByteDFA.Proofs.Automaton.Safety
import ByteDFA.Proofs.Search.StepBound
import ByteDFA.Proofs.Builder.Requests
import ByteDFA.Proofs.Builder.Growth
import ByteDFA.Proofs.Builder.Names
import ByteDFA.Proofs.Builder.Freshness
import ByteDFA.Proofs.Byte.ClassCount
import ByteDFA.Proofs.Byte.Partition
import ByteDFA.Proofs.Byte.Coarsest
import ByteDFA.Proofs.Byte.Runs
import ByteDFA.Proofs.Byte.Sweep
import ByteDFA.Proofs.Byte.Writing
import ByteDFA.Proofs.Text.Value
import ByteDFA.Proofs.Byte.ClassesText
import ByteDFA.Proofs.State.Text
import ByteDFA.Proofs.Builder.Recasting
import ByteDFA.Proofs.Automaton.ByteTables
import ByteDFA.Proofs.Automaton.Interchange
import ByteDFA.Proofs.Search.Course
import ByteDFA.Proofs.Search.Views
import ByteDFA.Proofs.Search.StepLimit
import ByteDFA.Proofs.Search.PassedOver
import ByteDFA.Proofs.Search.FirstBytes
import ByteDFA.Proofs.Search.Spelling
import ByteDFA.Proofs.Builder.Literal
import ByteDFA.Proofs.Builder.AcceptedClasses
import ByteDFA.Proofs.Automaton.TraceFinders
import ByteDFA.Proofs.Automaton.Text
import ByteDFA.Proofs.Automaton.Dump
import ByteDFA.Proofs.Search.Extension
import ByteDFA.Proofs.Builder.Chain
import ByteDFA.Proofs.Builder.Refusals
import ByteDFA.Proofs.Builder.Absence
import ByteDFA.Proofs.Builder.Composition
import ByteDFA.Proofs.Byte.Members
import ByteDFA.Proofs.Search.InputText
import ByteDFA.Proofs.State.Display
import ByteDFA.Proofs.BitSet
import ByteDFA.Proofs.Capture.SlotSets
import ByteDFA.Proofs.Byte.Sets
import ByteDFA.Proofs.State.Tables
