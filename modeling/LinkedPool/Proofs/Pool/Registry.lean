import Mathlib.Data.Finmap
import LinkedPool.Element.Tracked
import LinkedPool.Pool.Operation
import LinkedPool.Proofs.Element.Ledger

/-!
# Pools as registries

A registry is a finite map from slots to objects, with a stack of the slots
that were vacated and the first slot that was never given out. A new object
goes into the slot on top of the stack, or into a fresh one if the stack is
empty; nothing is said of storages or links.

A pool in which nothing goes wrong answers every operation as the registry
does, handles that nobody gave out included (`Records.perform`), and so
every sequence of operations (`run_refines_registry`). What a slot then
holds is what was last put into it, unless that was taken out since: the
last of the `effects` on it.
-/

namespace LinkedPool.Pool

variable {β : Type}

/-- Objects by slot, the vacated slots with the last one first, and the
first slot that was never given out. -/
structure Registry (β : Type) where
  held : Finmap fun _ : Slot => β
  vacated : List Slot
  fresh : Slot

namespace Registry

/-- No objects; the first `n` slots count as vacated, in ascending order. -/
def start (n : Nat) : Registry β := ⟨∅, List.range n, n⟩

/-- Puts an object into a slot that no object is in, and names the slot. -/
def take (object : β) (registry : Registry β) : Slot × Registry β :=
  match registry.vacated with
  | slot :: vacated => (slot, { registry with held := registry.held.insert slot object, vacated })
  | [] =>
      (registry.fresh,
        { registry with
          held := registry.held.insert registry.fresh object
          fresh := registry.fresh + 1 })

/-- Takes out the object in `slot`, which is vacated. -/
def vacate (slot : Slot) (registry : Registry β) : Registry β :=
  { registry with held := registry.held.erase slot, vacated := slot :: registry.vacated }

/-- Puts `object` in the place of the one in `slot`. -/
def put (slot : Slot) (object : β) (registry : Registry β) : Registry β :=
  { registry with held := registry.held.insert slot object }

/-- What each slot holds. -/
def view (registry : Registry β) (slot : Slot) : Option β := registry.held.lookup slot

/-- Carries out an operation. -/
def perform (registry : Registry β) : Operation β → Except Panic (Reply β) × Registry β
  | .insert _ object =>
      (.ok (.insertion (.ok (registry.take object).1)), (registry.take object).2)
  | .remove slot =>
      match registry.view slot with
      | some object => (.ok (.item (some object)), registry.vacate slot)
      | none => (.ok (.item none), registry)
  | .get slot => (.ok (.item (registry.view slot)), registry)
  | .assign slot object =>
      match registry.view slot with
      | some _ => (.ok (.flag true), registry.put slot object)
      | none => (.ok (.flag false), registry)
  | .read slot =>
      match registry.view slot with
      | some object => (.ok (.object object), registry)
      | none => (.error .dangling, registry)
  | .overwrite slot object =>
      match registry.view slot with
      | some _ => (.ok .done, registry.put slot object)
      | none => (.error .dangling, registry)
  | .reserve _ => (.ok .done, registry)
  | .clear => (.ok .done, start 0)
  | .len => (.ok (.count registry.held.keys.card), registry)
  | .isEmpty => (.ok (.flag (registry.held.keys.card == 0)), registry)

/-- The results of operations carried out one after the other. -/
def results (registry : Registry β) : List (Operation β) → List (Except Panic (Reply β))
  | [] => []
  | operation :: operations =>
      (registry.perform operation).1 :: (registry.perform operation).2.results operations

/-- The registry after operations carried out one after the other. -/
def final (registry : Registry β) : List (Operation β) → Registry β
  | [] => registry
  | operation :: operations => (registry.perform operation).2.final operations

theorem view_start (n : Nat) (slot : Slot) : (start n : Registry β).view slot = none :=
  Finmap.lookup_empty slot

theorem view_put (slot : Slot) (object : β) (registry : Registry β) :
    (registry.put slot object).view = Function.update registry.view slot (some object) := by
  funext other
  by_cases hother : other = slot
  · subst hother
    rw [Function.update_self]
    exact Finmap.lookup_insert _
  · rw [Function.update_of_ne hother]
    exact Finmap.lookup_insert_of_ne _ hother

theorem view_take (object : β) (registry : Registry β) :
    (registry.take object).2.view
      = Function.update registry.view (registry.take object).1 (some object) := by
  rw [← view_put]
  unfold take
  cases registry.vacated <;> rfl

theorem view_vacate (slot : Slot) (registry : Registry β) :
    (registry.vacate slot).view = Function.update registry.view slot none := by
  funext other
  by_cases hother : other = slot
  · subst hother
    rw [Function.update_self]
    exact Finmap.lookup_erase _ _
  · rw [Function.update_of_ne hother]
    exact Finmap.lookup_erase_ne hother

end Registry

/-! ## The last that was put into a slot -/

/-- What an operation that ended with `result` did to `slot`: it put an
object into it, or took the object out of it. -/
def Operation.effect (slot : Slot) :
    Operation β → Except Panic (Reply β) → Option (Option β)
  | .insert _ object, .ok (.insertion (.ok taken)) =>
      if slot = taken then some (some object) else none
  | .remove other, .ok (.item (some _)) => if slot = other then some none else none
  | .assign other object, .ok (.flag true) => if slot = other then some (some object) else none
  | .overwrite other object, .ok .done => if slot = other then some (some object) else none
  | .clear, .ok _ => some none
  | _, _ => none

/-- What operations with their results did to `slot`, in order. -/
def effects (slot : Slot) (history : List (Operation β × Except Panic (Reply β))) :
    List (Option β) :=
  history.filterMap fun entry => entry.1.effect slot entry.2

theorem effects_cons (slot : Slot) (operation : Operation β) (result : Except Panic (Reply β))
    (history : List (Operation β × Except Panic (Reply β))) :
    effects slot ((operation, result) :: history)
      = (operation.effect slot result).toList ++ effects slot history := by
  simp only [effects, List.filterMap_cons]
  cases operation.effect slot result <;> rfl

namespace Registry

theorem update_eq_getD (view : Slot → Option β) (slot other : Slot) (held : Option β) :
    Function.update view other held slot
      = (if slot = other then some held else none).getD (view slot) := by
  by_cases hslot : slot = other
  · subst hslot
    rw [Function.update_self, if_pos rfl]
    rfl
  · rw [Function.update_of_ne hslot, if_neg hslot]
    rfl

/-- A slot holds what the operation put into it, if it did anything to it. -/
theorem view_perform (registry : Registry β) (operation : Operation β) (slot : Slot) :
    (registry.perform operation).2.view slot
      = (operation.effect slot (registry.perform operation).1).getD (registry.view slot) := by
  cases operation with
  | insert memory object =>
      simp only [perform, view_take, update_eq_getD, Operation.effect]
  | remove other =>
      rw [perform]
      cases registry.view other with
      | none => rfl
      | some object => simp only [view_vacate, update_eq_getD, Operation.effect]
  | assign other object =>
      rw [perform]
      cases registry.view other with
      | none => rfl
      | some old => simp only [view_put, update_eq_getD, Operation.effect]
  | overwrite other object =>
      rw [perform]
      cases registry.view other with
      | none => rfl
      | some old => simp only [view_put, update_eq_getD, Operation.effect]
  | read other =>
      rw [perform]
      cases registry.view other <;> rfl
  | clear => exact view_start 0 slot
  | get other => rfl
  | reserve additional => rfl
  | len => rfl
  | isEmpty => rfl

theorem view_final (registry : Registry β) (operations : List (Operation β)) (slot : Slot) :
    (registry.final operations).view slot
      = ((effects slot (operations.zip (registry.results operations))).getLast?).getD
          (registry.view slot) := by
  induction operations generalizing registry with
  | nil => rfl
  | cons operation operations ih =>
      rw [final, ih, view_perform, results, List.zip_cons_cons, effects_cons]
      cases operation.effect slot (registry.perform operation).1 with
      | none => rfl
      | some held =>
          rw [Option.toList_some, List.singleton_append, List.getLast?_cons]
          rfl

end Registry

/-! ## Pools and their registries -/

/-- The pool holds the objects of the registry, and gives out its slots. -/
structure Records (pool : Pool β) (registry : Registry β) : Prop where
  valid : pool.Valid registry.vacated
  view : pool.get? = registry.view
  fresh : pool.slots = registry.fresh

theorem Begun.records [Stored β] {n : Nat} {pool : Pool β} (h : Begun n pool) :
    Records pool (.start n) := by
  obtain ⟨hlimit, rfl⟩ := h.eq_ofVacant
  refine ⟨valid_ofVacant hlimit, ?_, slots_ofVacant n⟩
  funext slot
  rw [get?_ofVacant, Registry.view_start]

variable {pool pool' : Pool β} {registry : Registry β} {object : β} {slot : Slot}

theorem Records.len (h : Records pool registry) : pool.len = registry.held.keys.card := by
  have hkeys : registry.held.keys
      = ((List.range pool.slots).filter fun slot => (pool.get? slot).isSome).toFinset := by
    ext slot
    rw [Finmap.mem_keys, ← Finmap.lookup_isSome, List.mem_toFinset, List.mem_filter,
      List.mem_range, h.view, Registry.view]
    refine ⟨?_, And.right⟩
    intro hsome
    obtain ⟨object, hobject⟩ := Option.isSome_iff_exists.mp hsome
    have hget : pool.get? slot = some object := (congrFun h.view slot).trans hobject
    exact ⟨lt_slots_of_get? hget, hsome⟩
  rw [h.valid.count, live_eq_filterMap_range (Nat.le_refl _), List.length_filterMap_eq_countP,
    hkeys, List.toFinset_card_of_nodup (List.nodup_range.filter _), List.countP_eq_length_filter]

theorem Records.of_inserted [Stored β] {memory : Memory} {free' : List Slot}
    (h : Records pool registry)
    (hinserted : Inserted memory object pool registry.vacated slot pool' free') :
    slot = (registry.take object).1 ∧ Records pool' (registry.take object).2 := by
  obtain ⟨held, vacated, fresh⟩ := registry
  obtain ⟨hvalid, hview, rfl⟩ := h
  obtain ⟨hvalid', -, hview', -, hobtained⟩ := hinserted
  rw [hview] at hview'
  cases hobtained with
  | vacant slots capacity =>
      exact ⟨rfl, hvalid', hview'.trans (Registry.view_put ..).symm, slots⟩
  | new slots grown => exact ⟨rfl, hvalid', hview'.trans (Registry.view_put ..).symm, slots⟩

theorem Records.vacate (h : Records pool registry) (hslot : pool.get? slot = some object) :
    Records (pool.reclaim slot) (registry.vacate slot) := by
  refine ⟨h.valid.reclaim hslot, ?_, ?_⟩
  · rw [get?_reclaim (lt_slots_of_get? hslot), h.view, Registry.view_vacate]
  · rw [slots_reclaim, h.fresh]
    rfl

theorem Records.put {old : β} (h : Records pool registry) (hslot : pool.get? slot = some old)
    (object : β) : Records (pool.put slot object) (registry.put slot object) := by
  refine ⟨h.valid.put hslot object, ?_, ?_⟩
  · rw [get?_put (lt_slots_of_get? hslot), h.view, Registry.view_put]
  · rw [slots_put, h.fresh]
    rfl

theorem Records.cleared (h : Records pool registry) : Records pool.cleared (.start 0) := by
  refine ⟨h.valid.cleared, ?_, rfl⟩
  funext slot
  rw [Registry.view_start]
  rfl

theorem Records.withMemory (h : Records pool registry) {capacity : Nat}
    (hvalid : { pool with capacity }.Valid registry.vacated) :
    Records { pool with capacity } registry :=
  ⟨hvalid, h.view, h.fresh⟩

/-! ## Runs in which nothing goes wrong -/

/-- Whether the storage did not grow when it had to. -/
def growthFailed : Except Panic (Reply β) → Bool
  | .ok (.insertion (.error _)) => true
  | .ok _ => false
  | .error panic => panic = .capacityOverflow

theorem growthFailed_eq_false_iff {result : Except Panic (Reply β)} :
    growthFailed result = false
      ↔ (∀ refusal, result ≠ .ok (.insertion (.error refusal)))
        ∧ result ≠ .error .capacityOverflow := by
  rcases result with panic | reply
  · simp [growthFailed]
  · cases reply with
    | insertion result => cases result <;> simp [growthFailed]
    | _ => simp [growthFailed]

variable [Element β]

/-- Nothing that was dropped panicked, and the storage did not fail to grow. -/
structure Smooth (outcome : Outcome β (Pool β) (Reply β)) : Prop where
  calm : Element.Calm (Element.dropsIn outcome.trace)
  taken : ∀ refusal, outcome.result ≠ .ok (.insertion (.error refusal))
  fitting : outcome.result ≠ .error .capacityOverflow

instance (outcome : Outcome β (Pool β) (Reply β)) : Decidable (Smooth outcome) :=
  decidable_of_iff
    (Element.Calm (Element.dropsIn outcome.trace) ∧ growthFailed outcome.result = false)
    ⟨fun ⟨hcalm, hgrown⟩ =>
      ⟨hcalm, (growthFailed_eq_false_iff.mp hgrown).1, (growthFailed_eq_false_iff.mp hgrown).2⟩,
    fun ⟨hcalm, htaken, hfitting⟩ => ⟨hcalm, growthFailed_eq_false_iff.mpr ⟨htaken, hfitting⟩⟩⟩

theorem not_full_of_smooth {memory : Memory} (h : Smooth (pool.perform (.insert memory object))) :
    ¬pool.Full memory := by
  rintro ⟨hfirst, refusal, hgrow⟩
  have hinsert : pool.insert memory object
      = ((Element.discard object).leaving pool).map fun _ => .error refusal := by
    rw [insert, allocate, hfirst]
    simp only [hgrow]
  rw [perform, hinsert] at h
  refine h.taken refusal ?_
  rw [Element.discard_of_none (h.calm object (List.mem_singleton_self _))]
  rfl

theorem Valid.insert_of_not_full {free : List Slot} {memory : Memory} (h : pool.Valid free)
    (hroom : ¬pool.Full memory) (object : β) :
    ∃ slot pool' free', pool.insert memory object = ⟨⟨.ok (.ok slot), []⟩, pool'⟩
      ∧ Inserted memory object pool free slot pool' free' := by
  rcases insert_cases h memory object with ⟨refusal, rfl, hgrow, -⟩ | hinserted
  · exact absurd ⟨h.firstFree_eq, refusal, hgrow⟩ hroom
  · exact hinserted

theorem Valid.reserve_of_smooth {free : List Slot} {additional : Nat} (h : pool.Valid free)
    (hsmooth : Smooth (pool.perform (.reserve additional))) :
    ∃ capacity, pool.reserve additional = .ok { pool with capacity }
      ∧ { pool with capacity }.Valid free := by
  rw [perform] at hsmooth
  rcases reserve_cases h additional with ⟨capacity, hreserve, hvalid, -⟩ | ⟨hreserve, -⟩
  · exact ⟨capacity, hreserve, hvalid⟩
  · rw [hreserve] at hsmooth
    exact absurd rfl hsmooth.fitting

theorem clear_of_smooth (h : Smooth (pool.perform .clear)) :
    pool.clear = ⟨⟨.ok (), Element.departures pool.live⟩, pool.cleared⟩ := by
  rw [perform] at h
  rcases clear_cases pool with ⟨-, hclear⟩ | ⟨panic, halarming, hclear⟩
  · exact hclear
  · rw [hclear] at h
    refine absurd ?_ halarming
    have hcalm := h.calm
    rwa [Outcome.map_error, Element.dropsIn_departures] at hcalm

theorem Records.insert (h : Records pool registry) {memory : Memory}
    (hsmooth : Smooth (pool.perform (.insert memory object))) :
    (pool.perform (.insert memory object)).result = (registry.perform (.insert memory object)).1
      ∧ Records (pool.perform (.insert memory object)).state
          (registry.perform (.insert memory object)).2 := by
  obtain ⟨slot, pool', free', hinsert, hinserted⟩ :=
    h.valid.insert_of_not_full (not_full_of_smooth hsmooth) object
  obtain ⟨rfl, hrecords⟩ := h.of_inserted hinserted
  rw [Pool.perform, hinsert]
  exact ⟨rfl, hrecords⟩

theorem Records.remove (h : Records pool registry)
    (hsmooth : Smooth (pool.perform (.remove slot))) :
    (pool.perform (.remove slot)).result = (registry.perform (.remove slot)).1
      ∧ Records (pool.perform (.remove slot)).state (registry.perform (.remove slot)).2 := by
  rw [Pool.perform] at hsmooth ⊢
  rw [Registry.perform, ← h.view]
  cases hslot : pool.get? slot with
  | none =>
      rw [take_of_get?_eq_none hslot]
      exact ⟨rfl, h⟩
  | some object =>
      rw [take_of_get? h.valid hslot] at hsmooth ⊢
      have hcalm : Element.Calm [object] := hsmooth.calm
      simp only [Outcome.bind_ok, Option.toList_some, Element.discardAll_of_calm hcalm]
      exact ⟨rfl, h.vacate hslot⟩

theorem Records.assign (h : Records pool registry)
    (hsmooth : Smooth (pool.perform (.assign slot object))) :
    (pool.perform (.assign slot object)).result = (registry.perform (.assign slot object)).1
      ∧ Records (pool.perform (.assign slot object)).state
          (registry.perform (.assign slot object)).2 := by
  rw [Pool.perform, Pool.assign] at hsmooth ⊢
  rw [Registry.perform, ← h.view]
  cases hslot : pool.get? slot with
  | none =>
      rw [hslot] at hsmooth
      have hcalm : Element.dropPanic object = none :=
        hsmooth.calm object (List.mem_singleton_self _)
      simp only [Element.discard_of_none hcalm]
      exact ⟨rfl, h⟩
  | some old =>
      rw [hslot] at hsmooth
      have hcalm : Element.dropPanic old = none := hsmooth.calm old (List.mem_singleton_self _)
      simp only [Element.discard_of_none hcalm]
      exact ⟨rfl, h.put hslot object⟩

theorem Records.overwrite (h : Records pool registry)
    (hsmooth : Smooth (pool.perform (.overwrite slot object))) :
    (pool.perform (.overwrite slot object)).result
        = (registry.perform (.overwrite slot object)).1
      ∧ Records (pool.perform (.overwrite slot object)).state
          (registry.perform (.overwrite slot object)).2 := by
  rw [Pool.perform, Pool.overwrite, get] at hsmooth ⊢
  rw [Registry.perform, ← h.view]
  cases hslot : pool.get? slot with
  | none => exact ⟨rfl, h⟩
  | some old =>
      rw [hslot] at hsmooth
      have hcalm : Element.dropPanic old = none := hsmooth.calm old (List.mem_singleton_self _)
      simp only [Element.discard_of_none hcalm]
      exact ⟨rfl, h.put hslot object⟩

/-- A pool answers an operation in which nothing goes wrong as its registry
does, and goes on as the registry does. -/
theorem Records.perform (h : Records pool registry) (operation : Operation β)
    (hsmooth : Smooth (pool.perform operation)) :
    (pool.perform operation).result = (registry.perform operation).1
      ∧ Records (pool.perform operation).state (registry.perform operation).2 := by
  cases operation with
  | insert memory object => exact h.insert hsmooth
  | remove slot => exact h.remove hsmooth
  | assign slot object => exact h.assign hsmooth
  | overwrite slot object => exact h.overwrite hsmooth
  | clear =>
      rw [Pool.perform, clear_of_smooth hsmooth]
      exact ⟨rfl, h.cleared⟩
  | get slot =>
      rw [Registry.perform, ← h.view]
      exact ⟨rfl, h⟩
  | read slot =>
      rw [Pool.perform, get, Registry.perform, ← h.view]
      cases pool.get? slot with
      | none => exact ⟨rfl, h⟩
      | some object => exact ⟨rfl, h⟩
  | reserve additional =>
      obtain ⟨capacity, hreserve, hvalid⟩ := h.valid.reserve_of_smooth hsmooth
      rw [Pool.perform, hreserve]
      exact ⟨rfl, h.withMemory hvalid⟩
  | len =>
      rw [Registry.perform, ← h.len]
      exact ⟨rfl, h⟩
  | isEmpty =>
      rw [Registry.perform, ← h.len]
      exact ⟨rfl, h⟩

theorem Records.performAll (h : Records pool registry) (operations : List (Operation β))
    (hsmooth : ∀ outcome ∈ pool.performAll operations, Smooth outcome) :
    (pool.performAll operations).map (·.result) = registry.results operations
      ∧ Records (pool.final operations) (registry.final operations) := by
  induction operations generalizing pool registry with
  | nil => exact ⟨rfl, h⟩
  | cons operation operations ih =>
      obtain ⟨hfirst, hrest⟩ := List.forall_mem_cons.mp hsmooth
      obtain ⟨hresult, hnext⟩ := h.perform operation hfirst
      obtain ⟨hresults, hfinal⟩ := ih hnext hrest
      exact ⟨congrArg₂ List.cons hresult hresults, hfinal⟩

/-- A run in which nothing goes wrong answers as the registry does, whatever
handles it is given, and each slot holds what was last put into it, if that
was not taken out since. The next object gets a slot that holds none. -/
theorem run_refines_registry {n : Nat} (hbegun : Begun n pool) (operations : List (Operation β))
    (hsmooth : ∀ outcome ∈ pool.performAll operations, Smooth outcome) :
    (pool.performAll operations).map (·.result) = (Registry.start n).results operations
      ∧ (pool.final operations).get? = ((Registry.start n).final operations).view
      ∧ (∀ slot, (pool.final operations).get? slot
          = (effects slot
              (operations.zip ((pool.performAll operations).map (·.result)))).getLast?.getD none)
      ∧ ∀ memory object slot,
          ((pool.final operations).perform (.insert memory object)).result
            = .ok (.insertion (.ok slot)) →
          (pool.final operations).get? slot = none := by
  obtain ⟨hresults, hfinal⟩ := hbegun.records.performAll operations hsmooth
  refine ⟨hresults, hfinal.view, ?_, ?_⟩
  · intro slot
    rw [hfinal.view, Registry.view_final, hresults, Registry.view_start]
  · intro memory object slot hinsert
    obtain ⟨taken, htaken, hslot⟩ := Outcome.exists_of_map_eq_ok hinsert
    cases hslot
    exact (get?_of_insert htaken).1

/-- Objects in more slots than there were at first, handles on vacated and on
unknown slots, and a slot used twice. -/
def recycled : List (Operation Int) :=
  [.insert .ample 1, .insert .ample 2, .insert .ample 3, .remove 0, .remove 1, .remove 1,
    .overwrite 2 5, .insert .ample 6, .get 0, .read 7, .assign 0 4, .len]

theorem recycled_refines_registry :
    ∃ pool : Pool Int, withCapacity 2 = .ok pool
      ∧ (pool.performAll recycled).map (·.result) = (Registry.start 2).results recycled
      ∧ (pool.final recycled).get? 1 = some 6 := by
  have hmade : withCapacity 2
      = .ok (⟨#[.vacant (some 1), .vacant none], some 0, 0, 2⟩ : Pool Int) := by
    decide +kernel
  obtain ⟨hresults, -, hlast, -⟩ :=
    run_refines_registry (.withCapacity hmade) recycled (by decide +kernel)
  exact ⟨_, hmade, hresults, (hlast 1).trans (by decide +kernel)⟩

end LinkedPool.Pool
