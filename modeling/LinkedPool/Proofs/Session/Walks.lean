import LinkedPool.Element.Tracked
import LinkedPool.Proofs.LinkedList.Walks
import LinkedPool.Proofs.Session.Integrity

/-!
# Every walk ends

In a list that a session comes to, a search visits slots in use and none of
them twice, so it is over after no more rounds than the list has elements. To
clear a list takes no more rounds either, and for this it is enough that its
nodes are counted rightly: the links of such a pool may even lead in a circle.
On a healthy list there are exactly as many rounds as elements, unless the
drop of one of them panics; this ends the walk where it stands.
-/

namespace LinkedPool.LinkedList

open Element Session.Lists

section

variable {α : Type} [Element α]

/-- Searches end for their links, and walks that release nodes for their count. -/
theorem walks_end :
    (∀ list : LinkedList α, list.Reachable →
        list.nodes.Counted ∧ ∀ e value, ∃ visited, Searches list e value visited)
      ∧ (∀ (slot : Slot) (node : Node α) (nodes nodes' : Pool (Node α)), nodes.Counted →
        release slot nodes = .ok (node, nodes') →
        nodes.Vacated slot node nodes' ∧ nodes'.Counted)
      ∧ (∀ (start : Option Slot) (nodes : Pool (Node α)), nodes.Counted →
        (∃ gone exit left, Releases start nodes gone exit left)
          ∧ ∀ gone exit left, Releases start nodes gone exit left →
            Sweeps start nodes gone exit left)
      ∧ ∀ (list : LinkedList α) (slots free : List Slot) (xs : List α), list.Healthy slots →
        list.nodes.Valid free → list.contents .head = .ok xs →
        ∀ gone exit left, Releases list.head list.nodes gone exit left →
          Clears list slots xs gone exit left := by
  refine ⟨?_, ?_, ?_, ?_⟩
  · intro list hlist
    obtain ⟨content, hholds⟩ := hlist.holds
    obtain ⟨free, hvalid⟩ := hholds.valid
    exact ⟨hvalid.count, hholds.searches⟩
  · intro slot node nodes nodes' hcounted hreleased
    have hvacated := vacated_of_release hreleased
    exact ⟨hvacated, hcounted.vacated hvacated⟩
  · intro start nodes hcounted
    exact ⟨exists_releases start nodes, fun _ _ _ hreleases => hreleases.sweeps hcounted⟩
  · intro list slots free xs hhealthy hvalid hcontents gone exit left hreleases
    obtain ⟨cells, hlinked, rfl⟩ := hhealthy.linked hvalid
    obtain rfl : cells.elements = xs :=
      Except.ok.inj ((hlinked.holds.contents .head).symm.trans hcontents)
    exact hlinked.clears hreleases

end

/-- A list of three elements, and one of two of which the first panics when it
is dropped. -/
def fused : List (Step Tracked) :=
  [.operate "a" (.append .ample .tail ⟨1, "x", none⟩),
    .operate "a" (.append .ample .tail ⟨2, "y", none⟩),
    .operate "a" (.append .ample .head ⟨3, "z", none⟩),
    .operate "b" (.append .ample .tail ⟨4, "s", some .dropping⟩),
    .operate "b" (.append .ample .tail ⟨5, "t", none⟩)]

/-- Two nodes that link on to each other. -/
def looped : Pool (Node Tracked) where
  storage := #[.used ⟨some 1, some 1, ⟨1, "x", none⟩⟩, .used ⟨some 0, some 0, ⟨2, "y", none⟩⟩]
  firstFree := none
  len := 2
  capacity := 2

theorem looped_counted : looped.Counted := rfl

/-- A walk around the circle is over when it is back where it began. -/
theorem looped_releases :
    Releases (some 0) looped [(0, ⟨1, "x", none⟩), (1, ⟨2, "y", none⟩)]
      (.stranded (.slotVacant 0)) ((looped.reclaim 0).reclaim 1) := by
  have hfirst : release 0 looped
      = .ok (⟨some 1, some 1, ⟨1, "x", none⟩⟩, looped.reclaim 0) := rfl
  have hsecond : release 1 (looped.reclaim 0)
      = .ok (⟨some 0, some 0, ⟨2, "y", none⟩⟩, (looped.reclaim 0).reclaim 1) := rfl
  have hback : release 0 ((looped.reclaim 0).reclaim 1) = .error (.slotVacant 0) := rfl
  exact .further hfirst rfl (.further hsecond rfl (.stranded hback))

theorem fused_walks_end :
    (∃ visited, Searches (listAt "a" (final .empty fused)) .tail ⟨1, "w", none⟩ visited
        ∧ visited.length = 2)
      ∧ looped.Counted
      ∧ (∃ nodes', release 1 looped = .ok (⟨some 0, some 0, ⟨2, "y", none⟩⟩, nodes')
        ∧ looped.Vacated 1 ⟨some 0, some 0, ⟨2, "y", none⟩⟩ nodes')
      ∧ (∃ left, Sweeps (some 0) looped [(0, ⟨1, "x", none⟩), (1, ⟨2, "y", none⟩)]
        (.stranded (.slotVacant 0)) left)
      ∧ gapped.contents .head = .ok [⟨1, "x", none⟩, ⟨2, "y", none⟩]
      ∧ ∃ left, Releases gapped.head gapped.nodes [(2, ⟨1, "x", none⟩), (0, ⟨2, "y", none⟩)]
          .finished left
        ∧ Clears gapped [2, 0] [⟨1, "x", none⟩, ⟨2, "y", none⟩]
          [(2, ⟨1, "x", none⟩), (0, ⟨2, "y", none⟩)] .finished left := by
  obtain ⟨hsearches, hsteps, hsweeps, hclears⟩ := walks_end (α := Tracked)
  obtain ⟨-, hsearch⟩ := hsearches (listAt "a" (final .empty fused)) ⟨fused, "a", rfl⟩
  obtain ⟨visited, hvisited⟩ := hsearch .tail ⟨1, "w", none⟩
  have hlength : visited.length = 2 := by
    rcases Nat.lt_trichotomy visited.length 2 with hlt | heq | hgt
    · cases hvisited.enough 1 (Nat.le_of_lt_succ hlt)
    · exact heq
    · cases hvisited.tooFew 2 hgt
  have hhead : release 2 gapped.nodes
      = .ok (⟨some 0, none, ⟨1, "x", none⟩⟩, gapped.nodes.reclaim 2) := rfl
  have htail : release 0 (gapped.nodes.reclaim 2)
      = .ok (⟨none, some 2, ⟨2, "y", none⟩⟩, (gapped.nodes.reclaim 2).reclaim 0) := rfl
  have hwhole := Releases.further hhead rfl (.further htail rfl .ended)
  exact ⟨⟨visited, hvisited, hlength⟩, looped_counted,
    ⟨_, rfl, (hsteps 1 _ looped _ looped_counted rfl).1⟩,
    ⟨_, (hsweeps _ _ looped_counted).2 _ _ _ looped_releases⟩, rfl,
    ⟨_, hwhole, hclears _ _ _ _ gapped_healthy gapped_valid rfl _ _ _ hwhole⟩⟩

/-- A healthy list is not always cleared in as many rounds as it has elements,
and a walk that is led back to a slot begins one round more than it finishes. -/
theorem fused_cut_short :
    (¬∀ (list : LinkedList Tracked) (slots : List Slot), list.Reachable → list.Healthy slots →
        ∃ gone exit left, Releases list.head list.nodes gone exit left
          ∧ gone.length = list.len)
      ∧ looped.Counted
      ∧ ∃ gone exit left, Releases (some 0) looped gone exit left
        ∧ looped.len < exit.rounds gone.length := by
  refine ⟨?_, looped_counted, _, _, _, looped_releases, by decide⟩
  intro hclaim
  have hreachable : (listAt "b" (final .empty fused)).Reachable := ⟨fused, "b", rfl⟩
  obtain ⟨content, hholds⟩ := hreachable.holds
  obtain ⟨slots, hhealthy⟩ := hholds.intact.links.resolve_right fun h => by
    cases h.head
  obtain ⟨gone, exit, left, hreleases, hlength⟩ := hclaim _ slots hreachable hhealthy
  have hcounted : (listAt "b" (final .empty fused)).nodes.Counted := rfl
  have hwalk := (hreleases.sweeps hcounted).walk
  have htrace := congrArg (fun call => call.trace.length) hwalk
  rw [departures, List.length_map, Cells.elements, List.length_map, hlength] at htrace
  cases htrace

end LinkedPool.LinkedList
