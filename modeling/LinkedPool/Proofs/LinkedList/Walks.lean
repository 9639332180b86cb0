import LinkedPool.Proofs.LinkedList.Teardown
import LinkedPool.Proofs.LinkedList.Placement

/-!
# Walks along the links end

The walks of a list follow its links and count nothing. A search is known by
the slots that it visits (`Scans`), a walk that releases nodes by what it took
out of which slots (`Releases`); each slot is one round of the loop. The steps
allowed to the loops do not show in this: any number of steps is enough that
is not less than the number of rounds (`Scans.locateWithin_eq`,
`Releases.releaseWithin_eq`).

A search in a linked list visits slots of the list in order, and so ends
because these are distinct. A walk that releases nodes ends for another
reason, whatever the links: each round vacates a slot that was in use, and
there are only so many (`exists_releases`). If the links lead it back to a
slot that it vacated, it finds nothing there and stops.
-/

namespace LinkedPool

open Element

theorem Count.eq_of_minus {n k m : Nat} (h : Count.minus n k = .ok m) : m + k = n := by
  unfold Count.minus at h
  split at h
  · rename_i hle
    obtain rfl := Except.ok.inj h
    exact Nat.sub_add_cancel hle
  · cases h

/-! ## Pools that count their objects -/

namespace Pool

variable {β : Type} {pool pool' : Pool β} {slot : Slot} {object : β}

/-- The pool counts its objects rightly; it need not be valid otherwise. -/
def Counted (pool : Pool β) : Prop := pool.len = pool.live.length

/-- `pool'` is `pool` without `object`, which was in `slot`. -/
structure Vacated (pool : Pool β) (slot : Slot) (object : β) (pool' : Pool β) : Prop where
  held : pool.get? slot = some object
  view : pool'.get? = Function.update pool.get? slot none
  len : pool'.len + 1 = pool.len

/-- A removal that succeeds, from whatever pool, takes one object and counts it. -/
theorem vacated_of_vacate (h : pool.vacate slot = .ok (some (object, pool'))) :
    Vacated pool slot object pool' := by
  obtain ⟨hheld, hview⟩ := get?_of_vacate h
  refine ⟨hheld, hview, ?_⟩
  rw [vacate, hheld] at h
  obtain ⟨len, hminus, hpool⟩ := exists_of_bind_eq_ok h
  cases hpool
  exact Count.eq_of_minus hminus

theorem Vacated.length_live (h : Vacated pool slot object pool') :
    pool'.live.length + 1 = pool.live.length := by
  have hlive := (live_perm_of_update h.view).length_eq
  rw [h.held] at hlive
  simp only [Option.toList_some, Option.toList_none, List.nil_append, List.singleton_append,
    List.length_cons] at hlive
  exact hlive.symm

theorem Counted.vacated (h : pool.Counted) (hvacated : Vacated pool slot object pool') :
    pool'.Counted := by
  have hlen := hvacated.len
  have hlive := hvacated.length_live
  unfold Counted at h ⊢
  omega

theorem mem_live_of_get? (h : pool.get? slot = some object) : object ∈ pool.live :=
  List.mem_filterMap.mpr
    ⟨.used object, Array.mem_toList_iff.mpr (Array.mem_of_getElem? (get?_eq_some.mp h)), rfl⟩

/-- An object that is counted can be removed. -/
theorem Counted.vacate (h : pool.Counted) (hslot : pool.get? slot = some object) :
    ∃ pool', pool.vacate slot = .ok (some (object, pool')) := by
  have hpos : 1 ≤ pool.len := by
    rw [h]
    exact List.length_pos_of_mem (mem_live_of_get? hslot)
  rw [Pool.vacate, hslot]
  simp only [Count.minus_of_le hpos]
  exact ⟨_, rfl⟩

theorem Counted.len_le_slots (h : pool.Counted) : pool.len ≤ pool.slots := by
  rw [h]
  exact (List.length_filterMap_le ..).trans (Nat.le_of_eq Array.length_toList)

end Pool

namespace LinkedList

open Cells

variable {α : Type} {e : End} {list : LinkedList α} {cells gone : Cells α} {free : List Slot}
  {slot : Slot} {start : Option Slot} {slots slots' : List Slot} {node : Node α}
  {nodes nodes' left : Pool (Node α)} {panic : Panic} {value : α}

/-- There is only one walk from where it begins. -/
theorem Walk.unique (h : Walk nodes e start slots) (h' : Walk nodes e start slots') :
    slots = slots' := by
  induction slots generalizing start slots' with
  | nil =>
      obtain rfl : start = none := h
      cases slots' with
      | nil => rfl
      | cons slot slots' => cases h'.1
  | cons slot slots ih =>
      obtain ⟨rfl, node, hnode, hrest⟩ := h
      cases slots' with
      | nil => cases h'
      | cons slot' slots' =>
          obtain ⟨hstart, node', hnode', hrest'⟩ := h'
          obtain rfl := Option.some.inj hstart
          obtain rfl := Option.some.inj (hnode.symm.trans hnode')
          rw [ih hrest hrest']

theorem Healthy.walk (h : list.Healthy slots) (e : End) :
    Walk list.nodes e (list.slotAt e) (e.listed slots) := by
  cases e with
  | head => exact h.forward
  | tail => exact h.backward

/-! ## Searches -/

section Searches

variable [Element α]

/-- A search for `value` that begins at `start` and follows the links that lead
away from the end `e`: the slots that it visits, and how it ends. -/
inductive Scans (nodes : Pool (Node α)) (e : End) (value : α) :
    (start : Option Slot) → (slots : List Slot) → (call : Traced α (Option Slot)) → Prop
  | ended : Scans nodes e value none [] (.answer none)
  | lost {slot : Slot} {panic : Panic} (missing : nodes.get slot = .error panic) :
      Scans nodes e value (some slot) [slot] (.raise panic)
  | found {slot : Slot} {node : Node α} (held : nodes.get slot = .ok node)
      (same : equal node.element value = .ok true) :
      Scans nodes e value (some slot) [slot] ⟨.ok (some slot), [.compared node.element value]⟩
  | panicked {slot : Slot} {node : Node α} {panic : Panic} (held : nodes.get slot = .ok node)
      (refused : equal node.element value = .error panic) :
      Scans nodes e value (some slot) [slot] ⟨.error panic, [.compared node.element value]⟩
  | further {slot : Slot} {node : Node α} {slots : List Slot} {call : Traced α (Option Slot)}
      (held : nodes.get slot = .ok node) (differ : equal node.element value = .ok false)
      (rest : Scans nodes e value (node.inward e) slots call) :
      Scans nodes e value (some slot) (slot :: slots)
        (call.after [.compared node.element value])

/-- A round of the search. -/
theorem locateWithin_succ (held : nodes.get slot = .ok node) (fuel : Nat) :
    locateWithin nodes e value (fuel + 1) (some slot)
      = (Element.compare node.element value).bind fun same =>
          if same then .answer (some slot)
          else locateWithin nodes e value fuel (node.inward e) := by
  rw [locateWithin, held, Traced.ofExcept_ok, Traced.bind_eq, Traced.answer_bind]
  rfl

/-- As many steps as there are slots to visit are enough for a search. -/
theorem Scans.locateWithin_eq {call : Traced α (Option Slot)}
    (h : Scans nodes e value start slots call) {fuel : Nat} (hfuel : slots.length ≤ fuel) :
    locateWithin nodes e value fuel start = call := by
  induction h generalizing fuel with
  | ended => cases fuel <;> rfl
  | lost missing =>
      obtain ⟨fuel, rfl⟩ := Nat.exists_eq_add_one.mpr hfuel
      rw [locateWithin, missing]
      rfl
  | found held same =>
      obtain ⟨fuel, rfl⟩ := Nat.exists_eq_add_one.mpr hfuel
      rw [locateWithin_succ held, Element.compare, same]
      rfl
  | panicked held refused =>
      obtain ⟨fuel, rfl⟩ := Nat.exists_eq_add_one.mpr hfuel
      rw [locateWithin_succ held, Element.compare, refused]
      rfl
  | further held differ rest ih =>
      obtain ⟨fuel, rfl⟩ := Nat.exists_eq_add_one.mpr (Nat.zero_lt_of_lt hfuel)
      rw [locateWithin_succ held, Element.compare, differ]
      show Traced.after _ (locateWithin nodes e value fuel _) = _
      rw [ih (Nat.le_of_succ_le_succ hfuel)]

/-- Fewer steps than that do not come to an end. -/
theorem Scans.locateWithin_of_lt {call : Traced α (Option Slot)}
    (h : Scans nodes e value start slots call) {fuel : Nat} (hfuel : fuel < slots.length) :
    (locateWithin nodes e value fuel start).result = .error .endlessWalk := by
  induction h generalizing fuel with
  | ended => cases hfuel
  | lost | found | panicked =>
      obtain rfl : fuel = 0 := Nat.lt_one_iff.mp hfuel
      rfl
  | further held differ rest ih =>
      cases fuel with
      | zero => rfl
      | succ fuel =>
          rw [locateWithin_succ held, Element.compare, differ]
          exact ih (Nat.lt_of_succ_lt_succ hfuel)

/-- From any of its cells on, a search visits the cells of a linked list in
order, and all of them if it finds nothing. -/
theorem Linked.scans (h : Linked e list cells free) (value : α) {front back : Cells α}
    (hsplit : cells = front ++ back) :
    ∃ visited call, Scans list.nodes e value (firstSlot back) visited call
      ∧ visited <+: back.slots ∧ (call.result = .ok none → visited = back.slots) := by
  induction back generalizing front with
  | nil => exact ⟨[], _, .ended, List.nil_prefix, fun _ => rfl⟩
  | cons cell back ih =>
      obtain ⟨slot, x⟩ := cell
      have hheld := Pool.get_of_get? (h.node front slot x back hsplit)
      have hfront : [slot] <+: Cells.slots ((slot, x) :: back) := ⟨Cells.slots back, rfl⟩
      cases hx : equal x value with
      | error panic =>
          exact ⟨[slot], _, .panicked hheld (by rw [Node.element_between, hx]), hfront, nofun⟩
      | ok same =>
          cases same with
          | true =>
              exact ⟨[slot], _, .found hheld (by rw [Node.element_between, hx]), hfront, nofun⟩
          | false =>
              have hnext : cells = (front ++ [(slot, x)]) ++ back := by
                rw [hsplit, List.append_assoc, List.singleton_append]
              obtain ⟨visited, call, hrest, hvisited, hnone⟩ := ih hnext
              rw [← Node.inward_between e (lastSlot front) (firstSlot back) x] at hrest
              refine ⟨slot :: visited, _, .further hheld (by rw [Node.element_between, hx]) hrest,
                ?_, ?_⟩
              · exact (List.prefix_cons_inj slot).mpr hvisited
              · intro hresult
                exact congrArg (slot :: ·) (hnone hresult)

/-- The walk of a search for `value` from the end `e`: it visits the slots
`visited`, one in each round of its loop. -/
structure Searches (list : LinkedList α) (e : End) (value : α) (visited : List Slot) : Prop where
  scans : Scans list.nodes e value (list.slotAt e) visited (list.locate e value)
  enough : ∀ fuel, visited.length ≤ fuel →
    locateWithin list.nodes e value fuel (list.slotAt e) = list.locate e value
  tooFew : ∀ fuel, fuel < visited.length →
    (locateWithin list.nodes e value fuel (list.slotAt e)).result = .error .endlessWalk
  distinct : visited.Nodup
  live : ∀ slot ∈ visited, ∃ node, list.nodes.get? slot = some node
  rounds : visited.length ≤ list.len
  /-- The slots of a healthy list are visited in order, and all of them if
  nothing is found. -/
  healthy : ∀ slots, list.Healthy slots → visited <+: e.listed slots
    ∧ ((list.locate e value).result = .ok none →
      visited = e.listed slots ∧ visited.length = list.len)

theorem Linked.searches (h : Linked e list cells free) (value : α) :
    ∃ visited, Searches list e value visited := by
  obtain ⟨visited, call, hscans, hvisited, hnone⟩ := h.scans value (List.nil_append cells).symm
  rw [← h.near] at hscans
  have hlength : cells.slots.length = list.len := by
    rw [h.count, Cells.slots, List.length_map]
  have hrounds : visited.length ≤ list.len := hlength ▸ hvisited.length_le
  have hfuel : visited.length ≤ list.nodes.slots + 1 :=
    hrounds.trans (h.valid.len_le_slots.trans (Nat.le_succ _))
  have hcall : list.locate e value = call := hscans.locateWithin_eq hfuel
  subst hcall
  refine ⟨visited, hscans, fun _ => hscans.locateWithin_eq, fun _ => hscans.locateWithin_of_lt,
    h.distinct.sublist hvisited.sublist, ?_, hrounds, ?_⟩
  · intro slot hslot
    exact h.get?_of_mem (hvisited.subset hslot)
  · intro slots hhealthy
    have hwalk := h.walk (List.nil_append cells).symm
    rw [← h.near] at hwalk
    have hcells : cells.slots = e.listed slots := hwalk.unique (hhealthy.walk e)
    rw [← hcells]
    exact ⟨hvisited, fun hresult => ⟨hnone hresult, hnone hresult ▸ hlength⟩⟩

/-- A search in a detached list has nowhere to begin. -/
theorem Detached.searches (h : list.Detached) (e : End) (value : α) :
    Searches list e value [] := by
  have hscans : Scans list.nodes e value (list.slotAt e) [] (.answer none) := by
    rw [h.slotAt]
    exact .ended
  have hcall : list.locate e value = .answer none := hscans.locateWithin_eq (Nat.zero_le _)
  rw [← hcall] at hscans
  exact ⟨hscans, fun _ => hscans.locateWithin_eq, fun _ => hscans.locateWithin_of_lt, .nil,
    nofun, Nat.zero_le _, fun _ hhealthy => absurd h hhealthy.not_detached⟩

theorem Holds.searches {content : Content α} (h : list.Holds content) (e : End) (value : α) :
    ∃ visited, Searches list e value visited := by
  by_cases hlinks : list.Detached
  · exact ⟨[], hlinks.searches e value⟩
  · obtain ⟨xs, hlinked⟩ := h.linked_of_not_detached hlinks
    obtain ⟨cells, free, hlinked, -⟩ := hlinked.linked_from e
    exact hlinked.searches value

end Searches

/-! ## Walks that release nodes -/

theorem vacated_of_release (h : release slot nodes = .ok (node, nodes')) :
    nodes.Vacated slot node nodes' := by
  rw [release] at h
  obtain ⟨_ | released, hvacate, hreleased⟩ := exists_of_bind_eq_ok h
  · cases hreleased
  · obtain rfl := Except.ok.inj hreleased
    exact Pool.vacated_of_vacate hvacate

/-- A walk that is led to a vacant slot panics there. -/
theorem release_of_vacant (h : nodes.get? slot = none) :
    release slot nodes = .error (.slotVacant slot) := by
  rw [release, Pool.vacate, h]
  rfl

theorem release_of_counted (hcounted : nodes.Counted) (hnode : nodes.get? slot = some node) :
    ∃ nodes', release slot nodes = .ok (node, nodes') := by
  obtain ⟨nodes', hvacate⟩ := hcounted.vacate hnode
  refine ⟨nodes', ?_⟩
  rw [release, hvacate]
  rfl

/-- How a walk that releases nodes ends. -/
inductive Exit where
  /-- With a node that does not link on. -/
  | finished
  /-- At a slot that could not be released. -/
  | stranded (panic : Panic)
  /-- With a node that was released, but whose element panicked when it was dropped. -/
  | interrupted (panic : Panic)

/-- What the walk answers if it released `n` nodes. -/
def Exit.result (n : Nat) : Exit → Except Panic Nat
  | finished => .ok n
  | stranded panic | interrupted panic => .error panic

/-- How many rounds the walk began if it released `n` nodes. -/
def Exit.rounds (n : Nat) : Exit → Nat
  | stranded _ => n + 1
  | finished | interrupted _ => n

section Releases

variable [Element α] {exit : Exit}

/-- A walk that begins at `start` and follows the links that lead to the tail:
it releases the nodes in the cells `gone`, and leaves the others. -/
inductive Releases : (start : Option Slot) → (nodes : Pool (Node α)) → (gone : Cells α) →
    Exit → (left : Pool (Node α)) → Prop
  | ended {nodes : Pool (Node α)} : Releases none nodes [] .finished nodes
  | stranded {slot : Slot} {nodes : Pool (Node α)} {panic : Panic}
      (refused : release slot nodes = .error panic) :
      Releases (some slot) nodes [] (.stranded panic) nodes
  | interrupted {slot : Slot} {nodes nodes' : Pool (Node α)} {node : Node α} {panic : Panic}
      (released : release slot nodes = .ok (node, nodes'))
      (broken : dropPanic node.element = some panic) :
      Releases (some slot) nodes [(slot, node.element)] (.interrupted panic) nodes'
  | further {slot : Slot} {nodes nodes' left : Pool (Node α)} {node : Node α} {gone : Cells α}
      {exit : Exit} (released : release slot nodes = .ok (node, nodes'))
      (calm : dropPanic node.element = none) (rest : Releases node.next nodes' gone exit left) :
      Releases (some slot) nodes ((slot, node.element) :: gone) exit left

omit [Element α] in
theorem Exit.rounds_succ (n : Nat) (exit : Exit) : exit.rounds (n + 1) = exit.rounds n + 1 := by
  cases exit <;> rfl

/-- A round of the walk that is not the last. -/
theorem releaseWithin_succ (released : release slot nodes = .ok (node, nodes'))
    (calm : dropPanic node.element = none) (fuel : Nat) :
    releaseWithin (fuel + 1) (some slot) nodes
      = ((releaseWithin fuel node.next nodes').map (· + 1)).after [.dropped node.element] := by
  rw [releaseWithin, released]
  simp only [discard_of_none calm, Traced.leaving_mk, Outcome.bind_ok]

/-- As many steps as there are rounds to begin are enough for a walk. -/
theorem Releases.releaseWithin_eq (h : Releases start nodes gone exit left) {fuel : Nat}
    (hfuel : exit.rounds gone.length ≤ fuel) :
    releaseWithin fuel start nodes
      = ⟨⟨exit.result gone.length, departures gone.elements⟩, left⟩ := by
  induction h generalizing fuel with
  | ended => cases fuel <;> rfl
  | stranded refused =>
      obtain ⟨fuel, rfl⟩ := Nat.exists_eq_add_one.mpr hfuel
      rw [releaseWithin, refused]
      rfl
  | interrupted released broken =>
      obtain ⟨fuel, rfl⟩ := Nat.exists_eq_add_one.mpr hfuel
      rw [releaseWithin, released]
      simp only [discard_of_some broken]
      rfl
  | @further _ _ _ _ _ _ exit released calm rest ih =>
      rw [List.length_cons, Exit.rounds_succ] at hfuel
      obtain ⟨fuel, rfl⟩ := Nat.exists_eq_add_one.mpr (Nat.zero_lt_of_lt hfuel)
      rw [releaseWithin_succ released calm, ih (Nat.le_of_succ_le_succ hfuel)]
      cases exit <;> rfl

/-- Fewer steps than that do not come to an end. -/
theorem Releases.releaseWithin_of_lt (h : Releases start nodes gone exit left) {fuel : Nat}
    (hfuel : fuel < exit.rounds gone.length) :
    (releaseWithin fuel start nodes).result = .error .endlessWalk := by
  induction h generalizing fuel with
  | ended => cases hfuel
  | stranded | interrupted =>
      obtain rfl : fuel = 0 := Nat.lt_one_iff.mp hfuel
      rfl
  | further released calm rest ih =>
      cases fuel with
      | zero => rfl
      | succ fuel =>
          rw [List.length_cons, Exit.rounds_succ] at hfuel
          have hresult := ih (Nat.lt_of_succ_lt_succ hfuel)
          rw [releaseWithin_succ released calm]
          exact congrArg (Except.map (· + 1)) hresult

/-- What a walk did to the nodes: those in the cells `gone` are gone. -/
structure Swept (nodes : Pool (Node α)) (gone : Cells α) (left : Pool (Node α)) : Prop where
  distinct : gone.slots.Nodup
  live : ∀ cell ∈ gone, ∃ node, nodes.get? cell.1 = some node ∧ node.element = cell.2
  view : ∀ slot, left.get? slot = if slot ∈ gone.slots then none else nodes.get? slot
  len : left.len + gone.length = nodes.len

omit [Element α] in
theorem swept_nil (nodes : Pool (Node α)) : Swept nodes [] nodes :=
  ⟨.nil, nofun, fun _ => (if_neg List.not_mem_nil).symm, rfl⟩

omit [Element α] in
/-- A slot that was vacated is not met again. -/
theorem Swept.cons (hvacated : nodes.Vacated slot node nodes') (h : Swept nodes' gone left) :
    Swept nodes ((slot, node.element) :: gone) left where
  distinct := by
    refine List.nodup_cons.mpr ⟨?_, h.distinct⟩
    intro hmem
    obtain ⟨cell, hcell, rfl⟩ := List.mem_map.mp hmem
    obtain ⟨held, hheld, -⟩ := h.live cell hcell
    rw [hvacated.view, Function.update_self] at hheld
    cases hheld
  live := by
    intro cell hcell
    rcases List.mem_cons.mp hcell with rfl | hcell
    · exact ⟨node, hvacated.held, rfl⟩
    · obtain ⟨held, hheld, helement⟩ := h.live cell hcell
      by_cases hother : cell.1 = slot
      · rw [hvacated.view, hother, Function.update_self] at hheld
        cases hheld
      · rw [hvacated.view, Function.update_of_ne hother] at hheld
        exact ⟨held, hheld, helement⟩
  view other := by
    rw [h.view, hvacated.view, slots_cons]
    by_cases hother : other = slot
    · subst hother
      rw [Function.update_self, ite_self, if_pos (List.mem_cons_self ..)]
    · simp only [Function.update_of_ne hother, List.mem_cons, hother, false_or]
  len := by
    have hlen := h.len
    have hlen' := hvacated.len
    rw [List.length_cons]
    omega

theorem Releases.swept (h : Releases start nodes gone exit left) : Swept nodes gone left := by
  induction h with
  | ended => exact swept_nil _
  | stranded _ => exact swept_nil _
  | interrupted released _ => exact (swept_nil _).cons (vacated_of_release released)
  | further released _ _ ih => exact ih.cons (vacated_of_release released)

theorem Releases.counted (h : Releases start nodes gone exit left) (hcounted : nodes.Counted) :
    left.Counted := by
  induction h with
  | ended => exact hcounted
  | stranded _ => exact hcounted
  | interrupted released _ => exact hcounted.vacated (vacated_of_release released)
  | further released _ _ ih => exact ih (hcounted.vacated (vacated_of_release released))

/-- If the nodes are counted rightly, only a vacant slot stops a walk. -/
theorem Releases.stranded_at (h : Releases start nodes gone exit left)
    (hcounted : nodes.Counted) (hexit : exit = .stranded panic) :
    ∃ slot, panic = .slotVacant slot ∧ left.get? slot = none := by
  induction h with
  | ended => cases hexit
  | @stranded slot nodes panic' refused =>
      obtain rfl := Exit.stranded.inj hexit
      cases hnode : nodes.get? slot with
      | none =>
          rw [release_of_vacant hnode] at refused
          exact ⟨slot, (Except.error.inj refused).symm, hnode⟩
      | some node =>
          obtain ⟨nodes', hreleased⟩ := release_of_counted hcounted hnode
          rw [hreleased] at refused
          cases refused
  | interrupted => cases hexit
  | further released _ _ ih => exact ih (hcounted.vacated (vacated_of_release released)) hexit

/-- Every walk comes to an end, wherever the links lead: the measure is the
number of nodes that the pool counts, and each round lowers it by one. -/
theorem exists_releases (start : Option Slot) (nodes : Pool (Node α)) :
    ∃ gone exit left, Releases start nodes gone exit left := by
  cases start with
  | none => exact ⟨[], _, nodes, .ended⟩
  | some slot =>
      cases hreleased : release slot nodes with
      | error panic => exact ⟨[], _, nodes, .stranded hreleased⟩
      | ok released =>
          obtain ⟨node, nodes'⟩ := released
          cases hdrop : dropPanic node.element with
          | some panic => exact ⟨_, _, nodes', .interrupted hreleased hdrop⟩
          | none =>
              have hlen := (vacated_of_release hreleased).len
              obtain ⟨gone, exit, left, hrest⟩ := exists_releases node.next nodes'
              exact ⟨_, exit, left, .further hreleased hdrop hrest⟩
termination_by nodes.len

/-- A walk over nodes that are counted rightly: it has an end, which is not
farther away than there are nodes, and if it was led astray it ends at a slot
that is vacant. -/
structure Sweeps (start : Option Slot) (nodes : Pool (Node α)) (gone : Cells α) (exit : Exit)
    (left : Pool (Node α)) : Prop extends Swept nodes gone left where
  walk : releaseWithin (nodes.slots + 1) start nodes
    = ⟨⟨exit.result gone.length, departures gone.elements⟩, left⟩
  enough : ∀ fuel, exit.rounds gone.length ≤ fuel →
    releaseWithin fuel start nodes = releaseWithin (nodes.slots + 1) start nodes
  tooFew : ∀ fuel, fuel < exit.rounds gone.length →
    (releaseWithin fuel start nodes).result = .error .endlessWalk
  bounded : gone.length ≤ nodes.len
  counted : left.Counted
  stranded : ∀ panic, exit = .stranded panic →
    ∃ slot, panic = .slotVacant slot ∧ left.get? slot = none

theorem Releases.sweeps (h : Releases start nodes gone exit left) (hcounted : nodes.Counted) :
    Sweeps start nodes gone exit left := by
  have hbounded : gone.length ≤ nodes.len := by
    have hlen := h.swept.len
    omega
  have hrounds : exit.rounds gone.length ≤ gone.length + 1 := by
    cases exit with
    | finished | interrupted => exact Nat.le_succ _
    | stranded => exact Nat.le_refl _
  have hwalk := h.releaseWithin_eq
    (hrounds.trans (Nat.succ_le_succ (hbounded.trans hcounted.len_le_slots)))
  refine ⟨h.swept, hwalk, ?_, fun _ => h.releaseWithin_of_lt, hbounded, h.counted hcounted,
    fun _ => h.stranded_at hcounted⟩
  intro fuel hfuel
  rw [hwalk, h.releaseWithin_eq hfuel]

/-! ## Clearing -/

/-- How far a walk over the cells of a linked list comes: to the last of them,
or to the first whose element panics when it is dropped. -/
inductive Course : (cells gone : Cells α) → Exit → Prop
  | whole {cells : Cells α} (calm : Calm cells.elements) : Course cells cells .finished
  | part {slot : Slot} {x : α} {panic : Panic} (front back : Cells α)
      (calm : Calm front.elements) (broken : dropPanic x = some panic) :
      Course (front ++ (slot, x) :: back) (front ++ [(slot, x)]) (.interrupted panic)

theorem Course.cons {x : α} (hx : dropPanic x = none) (h : Course cells gone exit) :
    Course ((slot, x) :: cells) ((slot, x) :: gone) exit := by
  cases h with
  | whole calm => exact .whole (calm.cons hx)
  | part front back calm broken => exact .part ((slot, x) :: front) back (calm.cons hx) broken

omit [Element α] in
/-- The walk goes on as it would if the slots behind it were not vacated. -/
theorem Trail.vacated (h : Trail nodes cells) (hslot : slot ∉ cells.slots)
    (hvacated : nodes.Vacated slot node nodes') : Trail nodes' cells := by
  refine h.frame ?_
  intro other hother
  have hne : other ≠ slot := by
    rintro rfl
    exact hslot hother
  rw [hvacated.view, Function.update_of_ne hne]

theorem Trail.course (htrail : Trail nodes cells) (hdistinct : cells.slots.Nodup)
    (hcounted : nodes.Counted) (h : Releases (firstSlot cells) nodes gone exit left) :
    Course cells gone exit := by
  induction cells generalizing nodes gone with
  | nil =>
      cases h
      exact .whole (List.forall_mem_nil _)
  | cons cell cells ih =>
      obtain ⟨slot, x⟩ := cell
      obtain ⟨⟨node, hnode, hx, hnext⟩, htrail⟩ := htrail
      obtain ⟨hslot, hcells⟩ := List.nodup_cons.mp hdistinct
      rw [firstSlot_cons] at h
      cases h with
      | stranded refused =>
          obtain ⟨nodes', hreleased⟩ := release_of_counted hcounted hnode
          rw [hreleased] at refused
          cases refused
      | interrupted released broken =>
          have hvacated := vacated_of_release released
          obtain rfl := Option.some.inj (hnode.symm.trans hvacated.held)
          subst hx
          exact .part [] cells (List.forall_mem_nil _) broken
      | further released calm rest =>
          have hvacated := vacated_of_release released
          obtain rfl := Option.some.inj (hnode.symm.trans hvacated.held)
          subst hx
          rw [hnext] at rest
          have hcourse := ih (htrail.vacated hslot hvacated) hcells (hcounted.vacated hvacated) rest
          exact hcourse.cons calm

/-- The walk with which a healthy list of `xs`, in `slots`, is cleared. -/
structure Clears (list : LinkedList α) (slots : List Slot) (xs : List α) (gone : Cells α)
    (exit : Exit) (left : Pool (Node α)) : Prop where
  inOrder : gone.slots <+: slots
  elements : gone.elements <+: xs
  /-- The walk is never led to a slot that it cannot release. -/
  notStranded : ∀ panic, exit ≠ .stranded panic
  calm : Calm xs → exit = .finished ∧ gone.slots = slots ∧ gone.length = list.len
    ∧ left.isEmpty = true ∧ list.clear.result = .ok ()
  broken : ∀ front x back panic, xs = front ++ x :: back → Calm front → dropPanic x = some panic →
    exit = .interrupted panic ∧ gone.length = front.length + 1
      ∧ list.clear.result = .error panic

theorem Linked.clears (h : Linked .head list cells free)
    (hreleases : Releases list.head list.nodes gone exit left) :
    Clears list cells.slots cells.elements gone exit left := by
  have hcounted : list.nodes.Counted := h.valid.count
  have hwalk := hreleases
  rw [show list.head = firstSlot cells from h.near] at hwalk
  have hcourse := (h.trail (List.nil_append cells).symm).course h.distinct hcounted hwalk
  cases hcourse with
  | whole calm =>
      have hempty : left.isEmpty = true := by
        have hlen := hreleases.swept.len
        have hcount : list.nodes.len = cells.length := h.count
        rw [Pool.isEmpty, beq_iff_eq]
        omega
      refine ⟨List.prefix_rfl, List.prefix_rfl, ?_, fun _ => ?_, ?_⟩
      · intro panic heq
        cases heq
      · exact ⟨rfl, rfl, h.count.symm, hempty,
          congrArg (fun cleared => cleared.result) (h.clear_of_calm calm)⟩
      · intro front x back panic hsplit _ hdrop
        have hx : x ∈ cells.elements := by
          rw [hsplit]
          exact List.mem_append_right _ (List.mem_cons_self ..)
        exact absurd hdrop (calm.not_panics hx)
  | @part slot x panic front back calm broken =>
      have hfront : front ++ [(slot, x)] <+: front ++ (slot, x) :: back := ⟨back, by simp⟩
      refine ⟨hfront.map Prod.fst, hfront.map Prod.snd, ?_, ?_, ?_⟩
      · intro panic' heq
        cases heq
      · intro hcalm
        exact absurd broken (hcalm.not_panics (by simp))
      · intro before y behind panic' hsplit hbefore hdrop
        obtain ⟨list', hclear, -⟩ := h.clear_of_panic hsplit hbefore hdrop
        rw [elements_append, elements_cons] at hsplit
        obtain ⟨rfl, rfl, -⟩ := Calm.split_unique hsplit calm hbefore broken hdrop
        obtain rfl := Option.some.inj (broken.symm.trans hdrop)
        refine ⟨rfl, ?_, congrArg (fun cleared => cleared.result) hclear⟩
        rw [List.length_append, Cells.elements, List.length_map]
        rfl

end Releases

end LinkedList

end LinkedPool
