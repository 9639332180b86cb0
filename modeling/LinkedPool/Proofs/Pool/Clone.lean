import LinkedPool.Proofs.Pool.Map
import LinkedPool.Proofs.Pool.Ownership

/-!
# Copies of pools

A pool is copied by copying its objects in the order of their slots. If
every copy succeeds, each slot of the copy holds the `twin` of what the slot
of the original holds, and the chain of vacant slots is the same; else the
copies made so far are dropped (`clone_cases`).
-/

namespace LinkedPool

namespace Element

variable {α : Type} [Element α] {x : α} {xs : List α}

/-- The copy of an element; the element itself if it cannot be copied. -/
def twin (x : α) : α :=
  match clone x with
  | .ok y => y
  | .error _ => x

def Copied (xs : List α) : Prop := ∀ x ∈ xs, clone x = .ok (twin x)

def copying (xs : List α) : List (Event α) := xs.map .cloned

theorem clone_eq_twin {y : α} (h : clone x = .ok y) : clone x = .ok (twin x) := by
  rw [twin, h]

theorem Copied.cons (hx : clone x = .ok (twin x)) (h : Copied xs) : Copied (x :: xs) := by
  intro y hy
  rcases List.mem_cons.mp hy with rfl | hy
  · exact hx
  · exact h y hy

@[simp] theorem copiesIn_append (first second : List (Event α)) :
    copiesIn (first ++ second) = copiesIn first ++ copiesIn second :=
  List.filterMap_append

theorem copiesIn_copying (h : Copied xs) : copiesIn (copying xs) = xs.map twin := by
  rw [copiesIn, copying, List.filterMap_map, ← List.filterMap_eq_map]
  refine List.filterMap_congr ?_
  intro x hx
  show (clone x).toOption = some (twin x)
  rw [h x hx]
  rfl

theorem copiesIn_copying_stopped {panic : Panic} (h : Copied xs) (hx : clone x = .error panic) :
    copiesIn (copying (xs ++ [x])) = xs.map twin := by
  have hlast : copiesIn (copying [x]) = [] := by
    simp [copiesIn, copying, hx, Except.toOption]
  rw [copying, List.map_append, copiesIn_append]
  exact (congrArg₂ (· ++ ·) (copiesIn_copying h) hlast).trans (List.append_nil _)

end Element

open Element

namespace Pool

variable {β : Type} {pool : Pool β} {free : List Slot}

/-- The pool of the images of the objects, each in the slot of its
original, with memory for these slots and no more. -/
def image (f : β → β) (pool : Pool β) : Pool β :=
  { pool with
    storage := (pool.storage.toList.map (Entry.map f)).toArray
    capacity := pool.slots }

theorem image_eq (f : β → β) (pool : Pool β) :
    pool.image f = { pool.map f with capacity := pool.slots } := by
  have hstorage : (pool.storage.toList.map (Entry.map f)).toArray
      = pool.storage.map (Entry.map f) := Array.ext' (by simp)
  rw [image, hstorage]
  rfl

theorem get?_image (f : β → β) (pool : Pool β) (slot : Slot) :
    (pool.image f).get? slot = (pool.get? slot).map f := by
  rw [image_eq]
  exact get?_map f pool slot

theorem live_image (f : β → β) (pool : Pool β) : (pool.image f).live = pool.live.map f := by
  rw [image_eq]
  exact live_map f pool

theorem slots_image (f : β → β) (pool : Pool β) : (pool.image f).slots = pool.slots := by
  rw [image_eq]
  exact slots_map f pool

theorem Valid.image (h : pool.Valid free) (f : β → β) : (pool.image f).Valid free := by
  rw [image_eq]
  exact (h.map f).withMemory (Nat.le_of_eq (slots_map f pool))
    (Nat.lt_of_le_of_lt h.fits h.bounded)

variable [Element β]

inductive Copying (entries : List (Entry β)) : Traced β (List (Entry β)) → Prop
  | done (copied : Copied (entries.filterMap Entry.object?)) :
      Copying entries
        ⟨.ok (entries.map (Entry.map twin)), copying (entries.filterMap Entry.object?)⟩
  | stopped (front : List β) (x : β) (back : List β) (panic : Panic)
      (split : entries.filterMap Entry.object? = front ++ x :: back) (copied : Copied front)
      (refused : Element.clone x = .error panic) :
      Copying entries ⟨.error panic, copying (front ++ [x])⟩

theorem Copying.vacant {rest : List (Entry β)} {call : Traced β (List (Entry β))}
    (next : Option Slot) (h : Copying rest call) :
    Copying (.vacant next :: rest)
      (call.bind fun entries => .answer (.vacant next :: entries)) := by
  cases h with
  | done copied =>
      rw [Traced.bind_ok, Traced.answer, Traced.after_mk, List.append_nil]
      exact .done copied
  | stopped front x back panic split copied refused =>
      exact .stopped front x back panic split copied refused

theorem Copying.used {rest : List (Entry β)} {call : Traced β (List (Entry β))} {object : β}
    (hobject : Element.clone object = .ok (twin object)) (h : Copying rest call) :
    Copying (.used object :: rest)
      ((call.bind fun entries => .answer (.used (twin object) :: entries)).after
        [.cloned object]) := by
  cases h with
  | done copied =>
      rw [Traced.bind_ok, Traced.answer, Traced.after_mk, Traced.after_mk, List.append_nil]
      exact .done (copied.cons hobject)
  | stopped front x back panic split copied refused =>
      exact .stopped (object :: front) x back panic (congrArg (object :: ·) split)
        (copied.cons hobject) refused

theorem cloneEntries_cases (entries : List (Entry β)) :
    Copying entries (cloneEntries entries) := by
  have hnone : Copied ([] : List β) := List.forall_mem_nil _
  induction entries with
  | nil => exact .done hnone
  | cons entry rest ih =>
      cases entry with
      | vacant next => exact ih.vacant next
      | used object =>
          rw [cloneEntries, Traced.bind_eq, copy]
          cases hobject : Element.clone object with
          | error panic => exact .stopped [] object _ panic rfl hnone hobject
          | ok y =>
              have htwin := clone_eq_twin hobject
              rw [hobject] at htwin
              rw [Except.ok.inj htwin, Traced.bind_ok]
              exact ih.used (hobject.trans htwin)

theorem clone_cases (pool : Pool β) :
    (Copied pool.live ∧ pool.clone = ⟨.ok (pool.image twin), copying pool.live⟩)
      ∨ ∃ (front : List β) (x : β) (back : List β) (panic : Panic),
        pool.live = front ++ x :: back ∧ Copied front ∧ Element.clone x = .error panic
        ∧ pool.clone
          = ⟨.error panic, copying (front ++ [x]) ++ departures (front.map twin)⟩ := by
  have hentries := cloneEntries_cases pool.storage.toList
  unfold clone
  generalize cloneEntries pool.storage.toList = call at hentries ⊢
  cases hentries with
  | done copied =>
      refine .inl ⟨copied, ?_⟩
      simp only [Traced.onPanic_ok, Traced.bind_ok, Traced.answer, Traced.after_mk, List.append_nil]
      rfl
  | stopped front x back panic split copied refused =>
      refine .inr ⟨front, x, back, panic, split, copied, refused, ?_⟩
      simp only [Traced.onPanic_error, Traced.bind_error, copiesIn_copying_stopped copied refused]

/-! ## What decides how a copy ends -/

/-- Asks objects for copies, one after the other, and keeps none of them. -/
def copyAll : List β → Traced β Unit
  | [] => .answer ()
  | object :: objects => (copy object).bind fun _ => copyAll objects

theorem cloneEntries_eq (entries : List (Entry β)) :
    cloneEntries entries
      = (copyAll (entries.filterMap Entry.object?)).bind fun _ =>
          .answer (entries.map (Entry.map twin)) := by
  induction entries with
  | nil => rfl
  | cons entry rest ih =>
      cases entry with
      | vacant next =>
          rw [cloneEntries, Traced.bind_eq, ih, Traced.bind_assoc]
          rfl
      | used object =>
          rw [cloneEntries, Traced.bind_eq, copy, ih]
          show _ = ((copy object).bind fun _ => copyAll (rest.filterMap Entry.object?)).bind _
          rw [copy]
          cases hobject : Element.clone object with
          | error panic => rfl
          | ok y =>
              have htwin := clone_eq_twin hobject
              rw [hobject] at htwin
              rw [Except.ok.inj htwin, Traced.bind_ok, Traced.bind_ok, Traced.after_bind,
                Traced.bind_eq, Traced.bind_assoc]
              rfl

/-- The objects alone decide what is asked for a copy and whether that panics. -/
theorem clone_eq (pool : Pool β) :
    pool.clone
      = ((copyAll pool.live).onPanic (departures (copiesIn (copyAll pool.live).trace))).bind
          fun _ => .answer (pool.image twin) := by
  rw [clone, cloneEntries_eq]
  show _ = ((copyAll pool.live).onPanic _).bind _
  rw [show pool.storage.toList.filterMap Entry.object? = pool.live from rfl]
  cases hcopied : copyAll pool.live with
  | mk result trace =>
      cases result with
      | ok value => simp [Traced.answer, image]
      | error panic => rfl

end Pool

end LinkedPool
