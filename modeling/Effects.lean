import Effects.Session
import Effects.Proofs.Bracket.Releases
import Effects.Proofs.Run.Agreement
import Effects.Proofs.Slot.Matching
import Effects.Proofs.Suspend.Delivered
import Effects.Proofs.Race.Handed
import Effects.Proofs.Cancel.Interrupted
import Effects.Proofs.Group.Combined
import Effects.Proofs.Shield.Shielded
import Effects.Proofs.Promise.Settled
import Effects.Proofs.Queue.Fates
import Effects.Proofs.Join.Handed
import Effects.Proofs.Balance.Restored
import Effects.Proofs.Custody.Fates
import Effects.Proofs.Cascade.Canceled
import Effects.Proofs.Placed.Closures
import Effects.Proofs.Timer.Course
import Effects.Proofs.Cell.Composed
import Effects.Proofs.Retry.Runs
import Effects.Proofs.Hop.Entries
import Effects.Proofs.Repeat.Firsts
import Effects.Proofs.Policy.Sides
import Effects.Proofs.Policy.Successive
import Effects.Proofs.Policy.Either
import Effects.Proofs.Policy.Unending
import Effects.Proofs.Policy.Layers
import Effects.Proofs.Policy.Pairing
import Effects.Proofs.Laws.Runs
import Effects.Proofs.Serial.Turns
import Effects.Proofs.Paced.Heeded
