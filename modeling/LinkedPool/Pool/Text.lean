import LinkedPool.Pool.Basic

/-!
# The text of a pool

A pool is written with every slot in order, the beginning of its chain of
vacant slots, and the count of its objects. Its capacity is not shown.
-/

namespace LinkedPool

variable {β : Type}

/-- An optional slot number, as a plain number. -/
def Slot.optionalDocument (slot : Option Slot) : Document :=
  .optional (slot.map Document.count)

def Entry.document (describe : β → Document) : Entry β → Document
  | .used object => .applied "Used" (describe object)
  | .vacant next => .applied "Free" (Slot.optionalDocument next)

def Pool.document (describe : β → Document) (pool : Pool β) : Document :=
  .record "NodePool"
    [("storage", .sequence (pool.storage.toList.map (Entry.document describe))),
     ("first_free", Slot.optionalDocument pool.firstFree),
     ("len", .count pool.len)]

end LinkedPool
