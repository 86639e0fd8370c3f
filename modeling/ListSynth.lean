import ListSynth.Main
import ListSynth.Signal
import ListSynth.Proofs.Rebuild
import ListSynth.Proofs.Solution
import ListSynth.Proofs.Lossless
import ListSynth.Proofs.Schedules
import ListSynth.Proofs.Turns
import ListSynth.Proofs.Memories
import ListSynth.Proofs.Registry
import ListSynth.Proofs.Outcomes
import ListSynth.Proofs.Course
import ListSynth.Proofs.Places
import ListSynth.Proofs.Widths
import ListSynth.Proofs.Reordering
import ListSynth.Proofs.Cancellation
import ListSynth.Proofs.Widening
import ListSynth.Proofs.Consultation
import ListSynth.Proofs.Balance
import ListSynth.Proofs.Typing
import ListSynth.Proofs.Ranks
import ListSynth.Proofs.Selection
import ListSynth.Proofs.Pruning
import ListSynth.Proofs.Enumeration
import ListSynth.Proofs.Draws
import ListSynth.Proofs.Inventory
import ListSynth.Proofs.Effects
import ListSynth.Proofs.Reckoning
import ListSynth.Proofs.Accumulation
import ListSynth.Proofs.RoundTrip
import ListSynth.Proofs.Fusing
import ListSynth.Proofs.StopTests
import ListSynth.Proofs.Totals
