import LinkedPool.LinkedList.Basic

/-!
# Appending

A new element goes to an end of a list: its node links inward to the node
that was at that end, which links back to it. The first element of a list
becomes both ends. A list without ends takes a first element only if its
pool holds no nodes; if it does, the list has lost its links, and refuses.

`tryAppend` answers with the reason of a refusal, `append` panics with it.
Either way the refused element is dropped and the list is as before.
-/

namespace LinkedPool.LinkedList

variable {α : Type} [Element α]

/-- Makes `element` the only one of a list without ends. -/
def insertFirst (memory : Memory) (element : α) (list : LinkedList α) :
    Outcome α (LinkedList α) (Except InsertError Unit) :=
  if list.nodes.isEmpty then
    ((list.nodes.insert memory (.alone element)).relabel Node.element).within
        (fun nodes => { list with nodes })
      |>.bind fun list inserted =>
        match inserted with
        | .ok slot =>
            ((Traced.log (.insertedFirst slot)).leaving
                { list with head := some slot, tail := some slot }).map .ok
        | .error refusal => (Traced.answer (.error (.outOfMemory refusal))).leaving list
  else
    ((Traced.log (.refusedFirst list.len)).leaving list).bind fun list _ =>
      ((Element.discard element).leaving list).map fun _ => .error (.notEmpty list.len)

/-- Puts `element` beyond the node in `outer`, the slot at the end `e`. -/
def insertBeyond (memory : Memory) (e : End) (outer : Slot) (element : α)
    (list : LinkedList α) : Outcome α (LinkedList α) (Except InsertError Unit) :=
  ((list.nodes.insert memory (.outermost e (some outer) element)).relabel Node.element).within
      (fun nodes => { list with nodes })
    |>.bind fun list inserted =>
      match inserted with
      | .ok slot =>
          match list.nodes.modify outer (Node.setOutward e (some slot)) with
          | .ok nodes =>
              (Traced.answer (.ok ())).leaving { list.toEnds.set e (some slot) with nodes }
          | .error panic => (Traced.raise panic).leaving list
      | .error refusal => (Traced.answer (.error (.outOfMemory refusal))).leaving list

/-- Puts `element` at the end `e` of the list, or says why it cannot be put there. -/
def tryAppend (memory : Memory) (e : End) (element : α) (list : LinkedList α) :
    Outcome α (LinkedList α) (Except InsertError Unit) :=
  match list.slotAt e with
  | none => list.insertFirst memory element
  | some outer => list.insertBeyond memory e outer element

/-- Puts `element` at the end `e` of the list. -/
def append (memory : Memory) (e : End) (element : α) (list : LinkedList α) :
    Outcome α (LinkedList α) Unit :=
  (list.tryAppend memory e element).bind fun list inserted =>
    match inserted with
    | .ok () => (Traced.answer ()).leaving list
    | .error refusal => (Traced.raise (.insertion refusal)).leaving list

end LinkedPool.LinkedList
