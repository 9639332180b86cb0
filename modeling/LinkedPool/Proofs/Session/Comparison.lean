import LinkedPool.Element.Nested
import LinkedPool.Proofs.LinkedList.Comparison
import LinkedPool.Proofs.Session.Integrity

/-!
# Comparing reachable lists

Whatever became of two lists, and whatever equality of their elements is, the
lists are compared by their lengths and by what they show, and stay as they
are (`equality_by_contents`).

Lists may be elements of lists, any number of layers deep (`Layers`). There
the statement goes on into the elements: two of them are equal if they are so
all the way down (`Layers.Equal`), and comparing them panics if it does so
somewhere further down, all before it being equal (`Layers.Refuses`).
-/

namespace LinkedPool

open Element LinkedList Session.Lists

variable {α : Type}

/-- What is said of the sequences that two lists show, when they are known. -/
theorem LinkedList.exists_contents_iff {list other : LinkedList α} {xs ys : List α}
    (hxs : list.contents .head = .ok xs) (hys : other.contents .head = .ok ys)
    {P : List α → List α → Prop} :
    (∃ xs ys, list.contents .head = .ok xs ∧ other.contents .head = .ok ys ∧ P xs ys)
      ↔ P xs ys := by
  refine ⟨?_, fun hshown => ⟨xs, ys, hxs, hys, hshown⟩⟩
  rintro ⟨xs', ys', hxs', hys', hshown⟩
  rwa [Except.ok.inj (hxs.symm.trans hxs'), Except.ok.inj (hys.symm.trans hys')]

/-- Lists of lists, `depth` layers of them over the elements. -/
def Layers (α : Type) : (depth : Nat) → Type
  | 0 => α
  | depth + 1 => LinkedList (Layers α depth)

namespace Layers

variable [Element α]

instance element : (depth : Nat) → Element (Layers α depth)
  | 0 => inferInstanceAs (Element α)
  | depth + 1 =>
      letI := element depth
      inferInstanceAs (Element (LinkedList (Layers α depth)))

/-- The list, those stored in it, and so on, came about in sessions. -/
def Reached : (depth : Nat) → Layers α depth → Prop
  | 0, _ => True
  | depth + 1, (list : LinkedList (Layers α depth)) =>
      list.Reachable ∧ ∀ x ∈ list.stored, Reached depth x

/-- Lists of one length that show the same all the way down. -/
def Equal : (depth : Nat) → Layers α depth → Layers α depth → Prop
  | 0, x, y => Same x y
  | depth + 1, (list : LinkedList (Layers α depth)), (other : LinkedList (Layers α depth)) =>
      list.len = other.len ∧ ∃ xs ys, list.contents .head = .ok xs
        ∧ other.contents .head = .ok ys ∧ List.Forall₂ (Equal depth) xs ys

/-- Lists of one length that show the same all the way down up to a pair of
elements of which the left one panics when it is asked. -/
def Refuses (panic : Panic) : (depth : Nat) → Layers α depth → Layers α depth → Prop
  | 0, x, y => equal x y = .error panic
  | depth + 1, (list : LinkedList (Layers α depth)), (other : LinkedList (Layers α depth)) =>
      list.len = other.len ∧ ∃ xs ys, list.contents .head = .ok xs
        ∧ other.contents .head = .ok ys
        ∧ ∃ (front : List (Layers α depth × Layers α depth)) (x y : Layers α depth)
            (back : List (Layers α depth × Layers α depth)),
          xs.zip ys = front ++ (x, y) :: back ∧ (∀ pair ∈ front, Equal depth pair.1 pair.2)
            ∧ Refuses panic depth x y

variable {panic : Panic}

/-- What a reached list shows is reached. -/
theorem Reached.shown {depth : Nat} {list : LinkedList (Layers α depth)}
    (h : Reached (depth + 1) list) :
    ∃ content, list.Holds content ∧ list.contents .head = .ok content.reached
      ∧ ∀ x ∈ content.reached, Reached depth x := by
  obtain ⟨hreachable, hstored⟩ := h
  obtain ⟨content, hholds⟩ := hreachable.holds
  refine ⟨content, hholds, hholds.contents .head, ?_⟩
  intro x hx
  refine hstored x (hholds.stored_perm.mem_iff.mpr ?_)
  cases content with
  | linked xs => exact hx
  | detached xs => cases hx

/-- Equality of lists, all the way down. -/
theorem Reached.same_iff : ∀ {depth : Nat} {x y : Layers α depth}, Reached depth x →
    Reached depth y → (Same x y ↔ Equal depth x y)
  | 0, _, _, _, _ => Iff.rfl
  | depth + 1, (list : LinkedList (Layers α depth)), (other : LinkedList (Layers α depth)),
    hlist, hother => by
      obtain ⟨content, hholds, hcontents, hreached⟩ := Reached.shown hlist
      obtain ⟨content', hholds', hcontents', hreached'⟩ := Reached.shown hother
      rw [Equal, exists_contents_iff hcontents hcontents']
      refine (hholds.equals_ok_true_iff hholds').trans (and_congr_right fun _ => ?_)
      simp only [List.forall₂_iff_zip]
      refine and_congr_right fun _ => forall_congr' fun x => forall_congr' fun y =>
        forall_congr' fun hpair => ?_
      obtain ⟨hx, hy⟩ := List.of_mem_zip hpair
      exact same_iff (hreached x hx) (hreached' y hy)

/-- Panics of comparisons, all the way down. -/
theorem Reached.equal_error_iff : ∀ {depth : Nat} {x y : Layers α depth}, Reached depth x →
    Reached depth y → (equal x y = .error panic ↔ Refuses panic depth x y)
  | 0, _, _, _, _ => Iff.rfl
  | depth + 1, (list : LinkedList (Layers α depth)), (other : LinkedList (Layers α depth)),
    hlist, hother => by
      obtain ⟨content, hholds, hcontents, hreached⟩ := Reached.shown hlist
      obtain ⟨content', hholds', hcontents', hreached'⟩ := Reached.shown hother
      rw [Refuses, exists_contents_iff hcontents hcontents']
      refine (hholds.equals_error_iff hholds').trans (and_congr_right fun _ => ?_)
      refine exists_congr fun front => exists_congr fun x => exists_congr fun y =>
        exists_congr fun back => and_congr_right fun split => ?_
      have hpairs : ∀ pair ∈ front ++ (x, y) :: back,
          Reached depth pair.1 ∧ Reached depth pair.2 := by
        intro pair hpair
        obtain ⟨hx, hy⟩ := List.of_mem_zip (split ▸ hpair)
        exact ⟨hreached _ hx, hreached' _ hy⟩
      obtain ⟨hx, hy⟩ := hpairs (x, y) (List.mem_append_right front List.mem_cons_self)
      refine and_congr (forall₂_congr fun pair hpair => ?_) (equal_error_iff hx hy)
      obtain ⟨hl, hr⟩ := hpairs pair (List.mem_append_left _ hpair)
      exact same_iff hl hr

end Layers

namespace LinkedList

variable [Element α]

/-- The step ends as the call does, and leaves every list as it is. -/
structure AskedIn (lists : Store (LinkedList α)) (step : Step α) (call : Traced α Bool) : Prop where
  result : (Session.Lists.perform lists step).result = call.result.map .flag
  trace : (Session.Lists.perform lists step).trace = call.trace
  kept : ∀ name, listAt name (Session.Lists.perform lists step).state = listAt name lists

/-- Lists are compared by their lengths and then pair by pair, and are not
touched; lists of lists are so all the way down. -/
theorem equality_by_contents :
    (∀ list other : LinkedList α, list.Reachable → other.Reachable →
        ∃ xs ys, list.contents .head = .ok xs ∧ other.contents .head = .ok ys
          ∧ Comparison list other xs ys)
      ∧ (∀ (list : LinkedList α) (slots : List Slot), list.Reachable → list.Healthy slots →
        ∃ xs, list.contents .head = .ok xs ∧ xs.length = list.len
          ∧ ((list.equals list).result = .ok true ↔ ∀ x ∈ xs, Same x x))
      ∧ (∀ (lists : Store (LinkedList α)) (name other : String),
        AskedIn lists (.equals name other) ((listAt name lists).equals (listAt other lists))
          ∧ AskedIn lists (.differs name other) ((listAt name lists).differs (listAt other lists)))
      ∧ ∀ (depth : Nat) (x y : Layers α depth), Layers.Reached depth x → Layers.Reached depth y →
        (equal x y = .ok true ↔ Layers.Equal depth x y)
          ∧ ∀ panic, equal x y = .error panic ↔ Layers.Refuses panic depth x y := by
  refine ⟨?_, ?_, ?_, ?_⟩
  · intro list other hlist hother
    obtain ⟨content, hholds⟩ := hlist.holds
    obtain ⟨content', hholds'⟩ := hother.holds
    exact ⟨_, _, hholds.contents .head, hholds'.contents .head, hholds.comparison hholds'⟩
  · intro list slots hlist hhealthy
    obtain ⟨content, hholds⟩ := hlist.holds
    obtain ⟨xs, hlinked⟩ := hholds.linked_of_not_detached hhealthy.not_detached
    exact ⟨xs, hlinked.contents .head, hlinked.len.symm, hlinked.equals_self_iff⟩
  · intro lists name other
    have hkept : ∀ third, listAt third ((lists.ensure name .empty).ensure other .empty)
        = listAt third lists := by
      intro third
      rw [listAt_ensure, listAt_ensure]
    exact ⟨⟨rfl, rfl, hkept⟩, ⟨rfl, rfl, hkept⟩⟩
  · intro depth x y hx hy
    exact ⟨hx.same_iff hy, fun panic => hx.equal_error_iff hy⟩

/-- Two lists of three elements with the same keys, the second made from its
end, and one element that panics when it is asked; and two lists that lost
all but one of their elements, when the drop of another panicked. -/
def prickly : List (Step Tracked) :=
  [.operate "a" (.append .ample .tail ⟨1, "x", none⟩),
    .operate "a" (.append .ample .tail ⟨2, "y", some .comparing⟩),
    .operate "a" (.append .ample .tail ⟨3, "z", none⟩),
    .operate "b" (.append .ample .tail ⟨3, "w", none⟩),
    .operate "b" (.append .ample .head ⟨2, "v", none⟩),
    .operate "b" (.append .ample .head ⟨1, "u", none⟩),
    .operate "c" (.append .ample .tail ⟨4, "s", some .dropping⟩),
    .operate "c" (.append .ample .tail ⟨5, "t", none⟩), .operate "c" .clear,
    .operate "d" (.append .ample .tail ⟨6, "q", some .dropping⟩),
    .operate "d" (.append .ample .tail ⟨7, "r", none⟩), .operate "d" .clear]

/-- Two lists of such lists, which are the same but for their last elements. -/
def bundled : List (Step (LinkedList Tracked)) :=
  [.operate "n" (.append .ample .tail (listAt "c" (final .empty prickly))),
    .operate "n" (.append .ample .tail (listAt "a" (final .empty prickly))),
    .operate "m" (.append .ample .tail (listAt "b" (final .empty prickly))),
    .operate "m" (.append .ample .head (listAt "d" (final .empty prickly)))]

theorem prickly_equality_by_contents :
    ((listAt "a" (final .empty prickly)).equals (listAt "b" (final .empty prickly))
          = ⟨.error (.element "eq bomb 2:y"),
            [.compared ⟨1, "x", none⟩ ⟨1, "u", none⟩,
              .compared ⟨2, "y", some .comparing⟩ ⟨2, "v", none⟩]⟩)
      ∧ Comparison (listAt "a" (final .empty prickly)) (listAt "b" (final .empty prickly))
        [⟨1, "x", none⟩, ⟨2, "y", some .comparing⟩, ⟨3, "z", none⟩]
        [⟨1, "u", none⟩, ⟨2, "v", none⟩, ⟨3, "w", none⟩]
      ∧ (∃ slots, (listAt "b" (final .empty prickly)).Healthy slots)
      ∧ ((listAt "b" (final .empty prickly)).equals (listAt "b" (final .empty prickly))).result
        = .ok true
      ∧ (listAt "c" (final .empty prickly)).equals (listAt "d" (final .empty prickly))
        = .answer true
      ∧ (listAt "c" (final .empty prickly)).equals (listAt "b" (final .empty prickly))
        = .answer false
      ∧ Layers.Reached (α := Tracked) 2 (listAt "n" (final .empty bundled))
      ∧ Layers.Reached (α := Tracked) 2 (listAt "m" (final .empty bundled))
      ∧ Layers.Refuses (α := Tracked) (.element "eq bomb 2:y") 2
        (listAt "n" (final .empty bundled)) (listAt "m" (final .empty bundled)) := by
  obtain ⟨hpairs, hself, -, hlayers⟩ := equality_by_contents (α := Tracked)
  have hreachable : ∀ name, (listAt name (final .empty prickly)).Reachable :=
    fun name => ⟨prickly, name, rfl⟩
  obtain ⟨xs, ys, hxs, hys, hcomparison⟩ := hpairs _ _ (hreachable "a") (hreachable "b")
  obtain rfl := Except.ok.inj hxs
  obtain rfl := Except.ok.inj hys
  have hc : (listAt "c" (final .empty prickly)).Detached := ⟨by decide, by decide, by decide⟩
  have hd : (listAt "d" (final .empty prickly)).Detached := ⟨by decide, by decide, by decide⟩
  obtain ⟨_, _, -, -, hlost⟩ := hpairs _ _ (hreachable "c") (hreachable "d")
  obtain ⟨_, _, -, -, hapart⟩ := hpairs _ _ (hreachable "c") (hreachable "b")
  obtain ⟨content, hholds⟩ := (hreachable "b").holds
  obtain ⟨slots, hhealthy⟩ := hholds.intact.links.resolve_right fun h => by
    cases h.head
  obtain ⟨zs, hzs, -, hequal⟩ := hself _ _ (hreachable "b") hhealthy
  obtain rfl := Except.ok.inj hzs
  have hn : Layers.Reached (α := Tracked) 2 (listAt "n" (final .empty bundled)) := by
    refine ⟨⟨bundled, "n", rfl⟩, ?_⟩
    intro x hx
    rcases List.mem_pair.mp hx with rfl | rfl
    · exact ⟨hreachable "c", fun _ _ => trivial⟩
    · exact ⟨hreachable "a", fun _ _ => trivial⟩
  have hm : Layers.Reached (α := Tracked) 2 (listAt "m" (final .empty bundled)) := by
    refine ⟨⟨bundled, "m", rfl⟩, ?_⟩
    intro x hx
    rcases List.mem_pair.mp hx with rfl | rfl
    · exact ⟨hreachable "b", fun _ _ => trivial⟩
    · exact ⟨hreachable "d", fun _ _ => trivial⟩
  refine ⟨rfl, hcomparison, ⟨slots, hhealthy⟩, ?_, ?_, (hapart.apart _ hc hhealthy).1, hn, hm, ?_⟩
  · exact hequal.mpr (by decide)
  · exact hlost.detached hc hd
  · exact ((hlayers 2 _ _ hn hm).2 _).mp rfl

end LinkedList

end LinkedPool
