import LinkedPool.Proofs.Pool.Map
import LinkedPool.Proofs.Translation
import LinkedPool.Pool.Ownership

/-!
# Pools of other objects

Under a homomorphism a pool drops and copies as before, object by object.
-/

namespace LinkedPool.Pool

open Element

variable {β γ : Type} {f : β → γ}

theorem map_map {δ : Type} (g : γ → δ) (f : β → γ) (pool : Pool β) :
    (pool.map f).map g = pool.map fun object => g (f object) := by
  have hentry (entry : Entry β) :
      (entry.map f).map g = entry.map fun object => g (f object) := by
    cases entry <;> rfl
  simp [map, hentry]

theorem map_leftInverse {g : γ → β} (h : Function.LeftInverse g f) :
    Function.LeftInverse (map g) (map f) := by
  intro pool
  have hentry : Entry.map g ∘ Entry.map f = id := by
    funext entry
    cases entry with
    | used object => exact congrArg Entry.used (h object)
    | vacant next => rfl
  simp [map, hentry]

variable [Element β] [Element γ]

theorem insert_translate (hf : Hom f) (memory : Memory) (object : β) (pool : Pool β) :
    (pool.map f).insert memory (f object)
      = (pool.insert memory object).translate f (map f) id := by
  rw [insert, insert, allocate_map hf.slotBytes]
  cases pool.allocate memory object with
  | error panic => rfl
  | ok taken =>
      cases taken with
      | ok taken => rfl
      | error refusal =>
          simp only [Except.map, hf.discard]
          exact Outcome.translate_map ((Element.discard object).leaving pool) fun _ => rfl

theorem clear_translate (hf : Hom f) (pool : Pool β) :
    (pool.map f).clear = pool.clear.translate f (map f) id := by
  have hempty : { pool.map f with storage := #[] } = map f { pool with storage := #[] } := by
    simp [map]
  rw [clear, clear, live_map, hf.discardAll, hempty]
  refine Outcome.translate_bind
    ((Element.discardAll pool.live).leaving { pool with storage := #[] }) ?_
  intro pool _
  simp [Traced.leaving, Traced.answer, Outcome.translate, Traced.translate, map, Except.map]

theorem cloneEntries_translate (hf : Hom f) (entries : List (Entry β)) :
    cloneEntries (entries.map (Entry.map f))
      = (cloneEntries entries).translate f (List.map (Entry.map f)) := by
  induction entries with
  | nil => rfl
  | cons entry entries ih =>
      cases entry with
      | vacant next =>
          rw [List.map_cons, Entry.map, cloneEntries, cloneEntries, Traced.bind_eq, Traced.bind_eq,
            ih]
          refine Traced.translate_bind _ ?_
          intro entries
          rfl
      | used object =>
          rw [List.map_cons, Entry.map, cloneEntries, cloneEntries, Traced.bind_eq, Traced.bind_eq,
            hf.copy]
          refine Traced.translate_bind _ ?_
          intro twin
          rw [Traced.bind_eq, Traced.bind_eq, ih]
          refine Traced.translate_bind _ ?_
          intro entries
          rfl

theorem clone_translate (hf : Hom f) (pool : Pool β) :
    (pool.map f).clone = pool.clone.translate f (map f) := by
  have hentries : cloneEntries (pool.map f).storage.toList
      = (cloneEntries pool.storage.toList).translate f (List.map (Entry.map f)) := by
    rw [map, Array.toList_map]
    exact cloneEntries_translate hf _
  have hcopies : copiesIn ((cloneEntries pool.storage.toList).translate f
      (List.map (Entry.map f))).trace = (copiesIn (cloneEntries pool.storage.toList).trace).map f :=
    hf.copiesIn _
  rw [clone, clone, hentries]
  simp only [hcopies, departures_map, Traced.translate_onPanic]
  refine Traced.translate_bind _ ?_
  intro entries
  rw [slots_map]
  simp [Traced.answer, Traced.translate, map, Except.map]

end LinkedPool.Pool
