import Dans.Theorems.Refinement
import Dans.Theorems.Pops
import Dans.Theorems.History
import Dans.Theorems.Shutdown
import Dans.Theorems.Delivery
import Dans.Theorems.Unlocks
import Dans.Theorems.Ids
import Dans.Theorems.Batches
import Dans.Theorems.Forwarding
import Dans.Theorems.Deadlock
import Dans.Theorems.Waste
import Dans.Theorems.Wakeups
import Dans.Theorems.Throughput
import Dans.Theorems.Accepted
import Dans.Theorems.Dispatching
import Dans.Theorems.Branches
import Dans.Theorems.Sockets
import Dans.Theorems.Statistics
import Dans.Theorems.Levels
import Dans.Theorems.Linearizable
import Dans.Theorems.ExecutorShutdown
import Dans.Theorems.Streams
import Dans.Theorems.Numbers
import Dans.Theorems.Survivors
import Dans.Theorems.Throttling
