import LinkedPool.Proofs.Traced

/-!
# Calls on other elements

A function between elements is a homomorphism (`Hom`) if elements do under it
as they did: they take as many bytes, compare alike, panic alike, and the copy
of an image is the image of the copy. A call is translated by such a function
element by element, in its answer, in its events and in the state it leaves.
Calls that are joined of parts are translated part by part.
-/

namespace LinkedPool

variable {α β σ σ' υ υ' ρ ρ' τ τ' : Type}

/-- A function under which elements do as they did. -/
structure Element.Hom [Element α] [Element β] (f : α → β) : Prop where
  slotBytes : Stored.slotBytes β = Stored.slotBytes α
  nodeBytes : Stored.nodeBytes β = Stored.nodeBytes α
  equal : ∀ x y, Element.equal (f x) (f y) = Element.equal x y
  clone : ∀ x, Element.clone (f x) = (Element.clone x).map f
  dropPanic : ∀ x, Element.dropPanic (f x) = Element.dropPanic x

namespace Traced

variable {f : α → β} {g : ρ → ρ'} {k : τ → τ'}

/-- The call, its events told of the images of their elements, and its answer
translated. -/
def translate (f : α → β) (g : ρ → ρ') (call : Traced α ρ) : Traced β ρ' :=
  ⟨call.result.map g, call.trace.map (Event.map f)⟩

theorem translate_after (events : List (Event α)) (call : Traced α ρ) :
    (call.after events).translate f g = (call.translate f g).after (events.map (Event.map f)) := by
  simp [translate, after]

theorem translate_bind (call : Traced α ρ) {next : ρ → Traced α τ} {next' : ρ' → Traced β τ'}
    (h : ∀ value, next' (g value) = (next value).translate f k) :
    (call.translate f g).bind next' = (call.bind next).translate f k := by
  obtain ⟨result, trace⟩ := call
  cases result with
  | error panic => rfl
  | ok value => rw [bind_ok, translate_after, ← h]; rfl

theorem translate_onPanic (call : Traced α ρ) (events : List (Event α)) :
    (call.translate f g).onPanic (events.map (Event.map f))
      = (call.onPanic events).translate f g := by
  obtain ⟨result, trace⟩ := call
  cases result with
  | ok value => rfl
  | error panic => simp [translate, Except.map]

/-- What shows of a call whatever the elements are: how it panics, if it does,
and the lines that it logs. -/
def outline (call : Traced α ρ) : Except Panic Unit × List LogLine :=
  (call.result.map fun _ => (), call.trace.filterMap Event.line?)

@[simp] theorem outline_translate (call : Traced α ρ) :
    (call.translate f g).outline = call.outline := by
  have hline (event : Event α) : (event.map f).line? = event.line? := by
    cases event <;> rfl
  obtain ⟨result, trace⟩ := call
  have hlines : (trace.map (Event.map f)).filterMap Event.line? = trace.filterMap Event.line? := by
    rw [List.filterMap_map]
    exact congrArg (trace.filterMap ·) (funext hline)
  cases result <;> simp [outline, translate, hlines, Except.map]

theorem translate_relabel {γ δ : Type} {p : α → γ} {p' : β → δ} {f' : γ → δ}
    (hp : ∀ x, p' (f x) = f' (p x)) (call : Traced α ρ) :
    (call.translate f g).relabel p' = (call.relabel p).translate f' g := by
  have hevent (event : Event α) : (event.map f).map p' = (event.map p).map f' := by
    cases event <;> simp [Event.map, hp]
  simp [translate, relabel, hevent]

end Traced

namespace Outcome

variable {f : α → β} {s : σ → σ'} {u : υ → υ'} {g : ρ → ρ'} {k : τ → τ'}

/-- The call on a structure, translated together with the state it leaves. -/
def translate (f : α → β) (s : σ → σ') (g : ρ → ρ') (call : Outcome α σ ρ) : Outcome β σ' ρ' :=
  (call.toTraced.translate f g).leaving (s call.state)

theorem translate_after (events : List (Event α)) (call : Outcome α σ ρ) :
    (call.after events).translate f s g
      = (call.translate f s g).after (events.map (Event.map f)) := by
  simp [translate, Traced.translate, Traced.leaving, after]

theorem translate_bind (call : Outcome α σ ρ) {next : σ → ρ → Outcome α σ τ}
    {next' : σ' → ρ' → Outcome β σ' τ'}
    (h : ∀ state value, next' (s state) (g value) = (next state value).translate f s k) :
    (call.translate f s g).bind next' = (call.bind next).translate f s k := by
  obtain ⟨⟨result, trace⟩, state⟩ := call
  cases result with
  | error panic => rfl
  | ok value => rw [bind_ok, translate_after, ← h]; rfl

theorem translate_map (call : Outcome α σ ρ) {h : ρ → τ} {h' : ρ' → τ'}
    (hmap : ∀ value, h' (g value) = k (h value)) :
    (call.translate f s g).map h' = (call.map h).translate f s k := by
  obtain ⟨⟨result, trace⟩, state⟩ := call
  cases result with
  | error panic => rfl
  | ok value => simp [translate, Traced.translate, Traced.leaving, map, Except.map, hmap]

theorem translate_within (call : Outcome α σ ρ) {t : σ → υ} {t' : σ' → υ'}
    (h : ∀ state, t' (s state) = u (t state)) :
    (call.translate f s g).within t' = (call.within t).translate f u g := by
  simp [translate, Traced.translate, Traced.leaving, within, h]

theorem translate_onPanic (call : Outcome α σ ρ) (events : List (Event α)) :
    (call.translate f s g).onPanic (events.map (Event.map f))
      = (call.onPanic events).translate f s g :=
  congrArg (Traced.leaving (s call.state)) (Traced.translate_onPanic call.toTraced events)

theorem translate_relabel {γ δ : Type} {p : α → γ} {p' : β → δ} {f' : γ → δ}
    (hp : ∀ x, p' (f x) = f' (p x)) (call : Outcome α σ ρ) :
    (call.translate f s g).relabel p' = (call.relabel p).translate f' s g :=
  congrArg (Traced.leaving (s call.state)) (Traced.translate_relabel hp call.toTraced)

end Outcome

namespace Element

variable [Element α] [Element β] {f : α → β}

namespace Hom

theorem compare (h : Hom f) (x y : α) :
    Element.compare (f x) (f y) = (Element.compare x y).translate f id := by
  rw [Element.compare, Element.compare, h.equal, Traced.translate, Except.map_id]
  rfl

theorem copy (h : Hom f) (x : α) : Element.copy (f x) = (Element.copy x).translate f f := by
  rw [Element.copy, Element.copy, h.clone]
  rfl

theorem discardAll (h : Hom f) (xs : List α) :
    Element.discardAll (xs.map f) = (Element.discardAll xs).translate f id := by
  have hpanic : (xs.map f).findSome? Element.dropPanic = xs.findSome? Element.dropPanic := by
    rw [List.findSome?_map]
    exact congrArg (xs.findSome? ·) (funext h.dropPanic)
  rw [Element.discardAll, Element.discardAll, hpanic, Traced.translate, Except.map_id]
  simp [Event.map]

theorem discard (h : Hom f) (x : α) :
    Element.discard (f x) = (Element.discard x).translate f id :=
  h.discardAll [x]

theorem copiesIn (h : Hom f) (trace : List (Event α)) :
    Element.copiesIn (trace.map (Event.map f)) = (Element.copiesIn trace).map f := by
  rw [Element.copiesIn, Element.copiesIn, List.filterMap_map, List.map_filterMap]
  congr 1
  funext event
  cases event with
  | cloned source =>
      show (Element.clone (f source)).toOption = (Element.clone source).toOption.map f
      rw [h.clone]
      cases Element.clone source <;> rfl
  | compared left right => rfl
  | dropped element => rfl
  | logged line => rfl

end Hom

end Element

end LinkedPool
