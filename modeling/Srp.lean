import Srp.Mealy
import Srp.Struct
import Srp.Bitmap
import Srp.Total
import Srp.Errors
import Srp.Suites
import Srp.Header
import Srp.Nonce
import Srp.Wire
import Srp.Sender
import Srp.Replay
import Srp.Receiver
import Srp.History
import Srp.Window
import Srp.Guard
import Srp.Refinement
import Srp.ReceiverState
import Srp.Isolation
import Srp.Oracle
import Srp.NonceUse
import Srp.Budget
import Srp.Session
import Srp.Adversary
import Srp.Encoding
import Srp.Truncation
import Srp.System
import Srp.Counters
import Srp.Agreement
import Srp.Tamper
import Srp.Delivery
import Srp.Equivalence
import Srp.Configuration
import Srp.Forgery
import Srp.Framing
import Srp.Schedule
import Srp.Actor
import Srp.Transport
import Srp.Thread
import Srp.Pipeline
import Srp.Network
import Srp.Interleaving
import Srp.Attacks
import Srp.Relay
import Srp.Answers
import Srp.Demonstration
import Srp.Epochs
import Srp.Arrivals
import Srp.Batch
import Srp.Link
import Srp.BitFlips
