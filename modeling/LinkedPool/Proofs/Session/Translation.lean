import LinkedPool.Proofs.LinkedList.Translation
import LinkedPool.Proofs.Session.Preallocation

/-!
# Sessions on other elements

A session on the lists of the images of all elements, in which the steps name
the images as well, is the session on the lists themselves, translated
(`run_translate`), and asks no more of the storages (`roomy_map`).
-/

namespace LinkedPool

open Element

/-! ## Stores of images -/

namespace Store

variable {β γ : Type} {f : β → γ}

/-- The store of the images of the values, under the same names. -/
def map (f : β → γ) (store : Store β) : Store γ :=
  ⟨store.entries.map fun (name, value) => (name, f value)⟩

theorem map_leftInverse {g : γ → β} (h : Function.LeftInverse g f) :
    Function.LeftInverse (map g) (map f) := by
  intro store
  have hentry : Function.LeftInverse (fun (name, value) => (name, g value))
      fun ((name, value) : String × β) => (name, f value) :=
    fun entry => congrArg (Prod.mk entry.1) (h entry.2)
  exact congrArg Store.mk (hentry.list_map store.entries)

theorem find?_map (f : β → γ) (name : String) (store : Store β) :
    (store.map f).find? name = (store.find? name).map f := by
  rw [find?, find?, map]
  induction store.entries with
  | nil => rfl
  | cons entry entries ih =>
      obtain ⟨other, value⟩ := entry
      rw [List.map_cons, findIn, findIn]
      split
      · rfl
      · exact ih

theorem put_map (f : β → γ) (name : String) (value : β) (store : Store β) :
    (store.map f).put name (f value) = (store.put name value).map f := by
  refine congrArg Store.mk ?_
  show putIn name (f value) (store.entries.map _) = (putIn name value store.entries).map _
  induction store.entries with
  | nil => rfl
  | cons entry entries ih =>
      obtain ⟨other, old⟩ := entry
      rw [List.map_cons, putIn, putIn]
      split
      · rfl
      · split
        · rfl
        · rw [List.map_cons, ih]

theorem erase_map (f : β → γ) (name : String) (store : Store β) :
    (store.map f).erase name = (store.erase name).map f := by
  rw [erase, erase, map, map, List.filter_map]
  rfl

theorem ensure_map (f : β → γ) (name : String) (value : β) (store : Store β) :
    (store.map f).ensure name (f value) = (store.ensure name value).map f := by
  rw [ensure, ensure, find?_map]
  cases store.find? name with
  | none => exact put_map f name value store
  | some old => rfl

end Store

namespace Session.Lists

variable {α β : Type} {f : α → β}

/-! ## Steps -/

def Origin.map (f : α → β) : Origin α → Origin β
  | .empty => .empty
  | .withCapacity n => .withCapacity n
  | .ofSource memory source => .ofSource memory (source.map f)
  | .cloneOf name => .cloneOf name

/-- The same step, with the images of its elements. -/
def Step.map (f : α → β) : Step α → Step β
  | .create name origin => .create name (origin.map f)
  | .destroy name => .destroy name
  | .discard name => .discard name
  | .operate name operation => .operate name (operation.map f)
  | .extendFrom memory name other e => .extendFrom memory name other e
  | .equals name other => .equals name other
  | .differs name other => .differs name other

theorem Step.map_leftInverse {g : β → α} (h : Function.LeftInverse g f) :
    Function.LeftInverse (map g) (map f) := by
  intro step
  cases step with
  | create name origin =>
      cases origin with
      | ofSource memory source =>
          exact congrArg (fun source => create name (.ofSource memory source))
            (Source.map_leftInverse h source)
      | empty => rfl
      | withCapacity n => rfl
      | cloneOf other => rfl
  | operate name operation =>
      exact congrArg (operate name) (Operation.map_leftInverse h operation)
  | destroy name => rfl
  | discard name => rfl
  | extendFrom memory name other e => rfl
  | equals name other => rfl
  | differs name other => rfl

theorem listAt_map (f : α → β) (name : String) (lists : Store (LinkedList α)) :
    listAt name (lists.map (LinkedList.map f)) = (listAt name lists).map f := by
  rw [listAt, listAt, Store.find?_map]
  cases lists.find? name with
  | none => exact (LinkedList.map_empty f).symm
  | some list => rfl

theorem ensure_empty_map (f : α → β) (name : String) (lists : Store (LinkedList α)) :
    (lists.map (LinkedList.map f)).ensure name .empty
      = (lists.ensure name .empty).map (LinkedList.map f) := by
  rw [← Store.ensure_map, LinkedList.map_empty]

theorem prepare_map (f : α → β) (origin : Origin α) (lists : Store (LinkedList α)) :
    (origin.map f).prepare (lists.map (LinkedList.map f))
      = (origin.prepare lists).map (LinkedList.map f) := by
  cases origin with
  | empty => rfl
  | withCapacity n => rfl
  | ofSource memory source => rfl
  | cloneOf name => exact ensure_empty_map f name lists

variable [Element α] [Element β]

theorem build_translate (hf : Hom f) (origin : Origin α) (lists : Store (LinkedList α)) :
    (origin.map f).build (lists.map (LinkedList.map f))
      = (origin.build lists).translate f (LinkedList.map f) := by
  cases origin with
  | empty =>
      show Traced.answer LinkedList.empty = (Traced.answer LinkedList.empty).translate f _
      rw [← LinkedList.map_empty f]
      rfl
  | withCapacity n =>
      show Traced.ofExcept (LinkedList.withCapacity n) = _
      rw [LinkedList.withCapacity_map hf]
      rfl
  | ofSource memory source => exact LinkedList.ofSource_translate hf memory source
  | cloneOf name =>
      show (listAt name _).clone = ((listAt name lists).clone).translate f _
      rw [listAt_map, LinkedList.clone_translate hf]

theorem replace_translate (hf : Hom f) (name : String) (list : LinkedList α)
    (lists : Store (LinkedList α)) :
    replace name (list.map f) (lists.map (LinkedList.map f))
      = (replace name list lists).translate f (Store.map (LinkedList.map f)) id := by
  rw [replace, replace, Store.find?_map, Store.put_map]
  cases lists.find? name with
  | none => rfl
  | some old =>
      show (old.map f).discard.leaving _ = _
      rw [LinkedList.discard_translate hf]
      rfl

theorem operate_translate (hf : Hom f) (name : String) (operation : Operation α)
    (lists : Store (LinkedList α)) :
    operate name (operation.map f) (lists.map (LinkedList.map f))
      = (operate name operation lists).translate f (Store.map (LinkedList.map f))
          (Reply.map f) := by
  rw [operate, operate, listAt_map, LinkedList.perform_translate hf]
  exact Outcome.translate_within _ fun list => Store.put_map (LinkedList.map f) name list lists

omit [Element α] [Element β] in
theorem flag_translate (call : Traced α Bool) (lists : Store (LinkedList α)) :
    ((call.translate f id).leaving (lists.map (LinkedList.map f))).map Reply.flag
      = ((call.leaving lists).map Reply.flag).translate f (Store.map (LinkedList.map f))
          (Reply.map f) := by
  refine Outcome.translate_map (s := Store.map (LinkedList.map f)) (call.leaving lists) ?_
  intro answer
  rfl

/-- A step on images, which leaves the images of the lists that it leaves. -/
theorem perform_translate (hf : Hom f) (step : Step α) (lists : Store (LinkedList α)) :
    perform (lists.map (LinkedList.map f)) (step.map f)
      = (perform lists step).translate f (Store.map (LinkedList.map f)) (Reply.map f) := by
  cases step with
  | create name origin =>
      rw [Step.map, perform, perform, prepare_map, build_translate hf]
      generalize origin.prepare lists = lists
      have hreplaced : (((origin.build lists).translate f (LinkedList.map f)).leaving
              (lists.map (LinkedList.map f))).bind (fun lists list => replace name list lists)
            = (((origin.build lists).leaving lists).bind fun lists list =>
                replace name list lists).translate f (Store.map (LinkedList.map f)) id :=
        Outcome.translate_bind (s := Store.map (LinkedList.map f))
          ((origin.build lists).leaving lists) fun lists list =>
            replace_translate hf name list lists
      exact (congrArg (Outcome.map _) hreplaced).trans (Outcome.translate_map _ fun _ => rfl)
  | destroy name =>
      rw [Step.map, perform, perform, listAt_map, Store.erase_map, LinkedList.destroy_translate hf]
      exact Outcome.translate_map (s := Store.map (LinkedList.map f))
        ((listAt name lists).destroy.leaving (lists.erase name)) fun _ => rfl
  | discard name =>
      rw [Step.map, perform, perform, listAt_map, Store.erase_map, LinkedList.discard_translate hf]
      exact Outcome.translate_map (s := Store.map (LinkedList.map f))
        ((listAt name lists).discard.leaving (lists.erase name)) fun _ => rfl
  | operate name operation => exact operate_translate hf name operation lists
  | extendFrom memory name other e =>
      simp only [Step.map, perform, ensure_empty_map, listAt_map, LinkedList.copies_map]
      refine Outcome.translate_bind (f := f) (s := Store.map (LinkedList.map f))
        (g := Source.map f)
        ((Traced.ofExcept (Source.copies e (listAt other (lists.ensure other .empty)))).leaving
          (lists.ensure other .empty)) ?_
      intro lists source
      exact operate_translate hf name (.extend memory source) lists
  | equals name other =>
      simp only [Step.map, perform, ensure_empty_map, listAt_map, LinkedList.equals_translate hf]
      exact flag_translate _ _
  | differs name other =>
      simp only [Step.map, perform, ensure_empty_map, listAt_map, LinkedList.differs_translate hf]
      exact flag_translate _ _

/-- A session on images is the session, translated step by step. -/
theorem run_translate (hf : Hom f) (steps : List (Step α)) (lists : Store (LinkedList α)) :
    run (lists.map (LinkedList.map f)) (steps.map (Step.map f))
      = (run lists steps).map
          (Outcome.translate f (Store.map (LinkedList.map f)) (Reply.map f)) := by
  induction steps generalizing lists with
  | nil => rfl
  | cons step steps ih =>
      rw [List.map_cons, run, run, perform_translate hf, List.map_cons]
      exact congrArg _ (ih _)

/-! ## Room -/

theorem starves_map (hf : Hom f) (step : Step α) (lists : Store (LinkedList α)) :
    Starves (lists.map (LinkedList.map f)) (step.map f) ↔ Starves lists step := by
  cases step with
  | operate name operation =>
      show (listAt name _).Starves (operation.map f) ↔ _
      rw [listAt_map, LinkedList.starves_map hf]
      rfl
  | extendFrom memory name other e =>
      show (∃ source, Source.copies e (listAt other _) = .ok source
        ∧ (listAt name _).Starves (.extend memory source)) ↔ _
      rw [listAt_map, listAt_map, LinkedList.copies_map]
      show _ ↔ ∃ source, Source.copies e (listAt other lists) = .ok source
        ∧ (listAt name lists).Starves (.extend memory source)
      cases Source.copies e (listAt other lists) with
      | error panic => simp [Except.map]
      | ok source =>
          simp only [Except.map, Except.ok.injEq, exists_eq_left']
          exact LinkedList.starves_map hf (.extend memory source) _
  | create name origin => exact Iff.rfl
  | destroy name => exact Iff.rfl
  | discard name => exact Iff.rfl
  | equals name other => exact Iff.rfl
  | differs name other => exact Iff.rfl

theorem roomy_map (hf : Hom f) (steps : List (Step α)) (lists : Store (LinkedList α)) :
    Roomy (lists.map (LinkedList.map f)) (steps.map (Step.map f)) ↔ Roomy lists steps := by
  induction steps generalizing lists with
  | nil => exact Iff.rfl
  | cons step steps ih =>
      rw [List.map_cons, Roomy, Roomy, starves_map hf, perform_translate hf]
      exact and_congr Iff.rfl (ih _)

end Session.Lists

end LinkedPool
