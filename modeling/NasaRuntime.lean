import NasaRuntime.Saga.Properties.Journal
import NasaRuntime.Saga.Properties.Compensation
import NasaRuntime.Saga.Properties.Facts
import NasaRuntime.Saga.Properties.Evidence
import NasaRuntime.Saga.Properties.Timers
import NasaRuntime.Saga.Properties.Gate
import NasaRuntime.Saga.TimerStore
import NasaRuntime.Saga.Properties.Redelivery
import NasaRuntime.Nafka.KeyOrdered
import NasaRuntime.Nafka.Capacity
import NasaRuntime.Nafka.TransferPlan
import NasaRuntime.Nafka.FileCheckpoint
import NasaRuntime.Nafka.TransferTrace
import NasaRuntime.Nadis.Properties.Reservations
import NasaRuntime.Napart.Properties.Delivery
import NasaRuntime.Napart.Properties.StrictSequences
import NasaRuntime.Napart.Properties.TaskOutcomes
import NasaRuntime.Nainbox.Process
import NasaRuntime.Nadis.IdempotentCounter
import NasaRuntime.Nadis.Fencing
import NasaRuntime.RestDiscovery.Circuit
import NasaRuntime.Naidempotency.Stores
import NasaRuntime.Nasched.FireOnce
import NasaRuntime.Nasecret.Rotation
import NasaRuntime.Nafka.Properties.Progress
import NasaRuntime.Naweb.ModernAad
import NasaRuntime.Naweb.JsonDepth
import NasaRuntime.Naml.FilePattern
