import TopicBus.Session.Step
import TopicBus.ExactRead.Script
import TopicBus.ReadSide.Gather
import TopicBus.Proofs.Accounts
import TopicBus.Proofs.Acts
import TopicBus.Proofs.Advance
import TopicBus.Proofs.Agreement
import TopicBus.Proofs.Answers
import TopicBus.Proofs.AnyReader
import TopicBus.Proofs.Capacity
import TopicBus.Proofs.Clamped
import TopicBus.Proofs.Closed
import TopicBus.Proofs.Conservation
import TopicBus.Proofs.Contents
import TopicBus.Proofs.DeadEnd
import TopicBus.Proofs.Deeds
import TopicBus.Proofs.Delivery
import TopicBus.Proofs.Dependents
import TopicBus.Proofs.Draining
import TopicBus.Proofs.Dropped
import TopicBus.Proofs.ExactDelivery
import TopicBus.Proofs.ExactForms
import TopicBus.Proofs.FailedWrites
import TopicBus.Proofs.Figures
import TopicBus.Proofs.Growth
import TopicBus.Proofs.Histories
import TopicBus.Proofs.Holders
import TopicBus.Proofs.Invariant
import TopicBus.Proofs.Keys
import TopicBus.Proofs.Line
import TopicBus.Proofs.Moves
import TopicBus.Proofs.NoRoom
import TopicBus.Proofs.Noninterference
import TopicBus.Proofs.Opening
import TopicBus.Proofs.Overtaking
import TopicBus.Proofs.ReadForms
import TopicBus.Proofs.ReadLock
import TopicBus.Proofs.Readers
import TopicBus.Proofs.Readiness
import TopicBus.Proofs.Reading
import TopicBus.Proofs.Release
import TopicBus.Proofs.Rounds
import TopicBus.Proofs.Shutdown
import TopicBus.Proofs.Sides
import TopicBus.Proofs.Sizes
import TopicBus.Proofs.Statistics
import TopicBus.Proofs.Steps
import TopicBus.Proofs.Table
import TopicBus.Proofs.Traffic
import TopicBus.Proofs.Transports
import TopicBus.Proofs.Vacated
import TopicBus.Proofs.Views
import TopicBus.Proofs.Waiting
import TopicBus.Proofs.Writes
