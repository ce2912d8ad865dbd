/-!
Pages, frames, transactions, tables, indexes and log records are named by natural numbers, as the
integer wrapped in each of the source's id types.
-/

namespace SimpleRdbms

structure Rid where
  pageId : Nat
  slot : Nat
deriving DecidableEq, Repr

end SimpleRdbms
