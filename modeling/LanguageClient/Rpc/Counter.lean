/-!
# Request numbers

Requests are numbered so that responses can be told apart. A counter hands out the numbers from one
on and never hands out a number twice; counters do not know of each other.

The numbers are those of the protocol only below `2 ^ 63`. Beyond that a counter of 64 bits would go on
with negative numbers, and this one does not: whoever makes that many requests is not described here.
-/

namespace LanguageClient.Rpc

structure Counter where
  next : Nat := 1
  deriving DecidableEq, Repr

def Counter.take (c : Counter) : Nat × Counter := (c.next, { c with next := c.next + 1 })

end LanguageClient.Rpc
